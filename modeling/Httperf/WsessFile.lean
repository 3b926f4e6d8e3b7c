-- The session file as it is written, and that `parse_config` reads it back: for every way of
-- writing it, the templates hold the sessions, and nothing else.
import Httperf.Decoder
import Httperf.WsessTemplates

namespace Httperf.WsessLog

/-! ## What is written -/

/-- A character of the contents. A newline is written as `\n`, or as a backslash at the end of the
line. -/
inductive ContentsChar where
  | plain (b : Byte) (ne : b ≠ 0 ∧ b ≠ LF)
  | newline (continued : Bool)

def ContentsChar.value : ContentsChar → Byte
  | plain b _ => b
  | newline _ => LF

/-- Backslash and double quote are escaped. -/
def ContentsChar.text : ContentsChar → List Byte
  | plain b _ => if b = 92 ∨ b = 34 then [92, b] else [b]
  | newline false => [92, 110]
  | newline true => [92, LF]

inductive Arg where
  | method (m : Method)
  | contents (cs : List ContentsChar) (ne : cs ≠ [])

def contentsText (cs : List ContentsChar) : List Byte := cs.flatMap ContentsChar.text

def Arg.text : Arg → List Byte
  | method m => bytes "method=" ++ call_method_name m
  | contents cs _ => bytes "contents=" ++ 34 :: (contentsText cs ++ [34])

/-- An argument with the blanks before it. -/
structure ArgText where
  blanks : List Byte
  ne : blanks ≠ []
  isBlank : ∀ c ∈ blanks, c = 32 ∨ c = 9
  arg : Arg

/-- The arguments, in any order, and the end of the line. -/
def argsText (args : List ArgText) : List Byte :=
  args.flatMap (fun a => a.blanks ++ a.arg.text) ++ [LF]

/-- A request of the file, with the comment lines before it. -/
structure RequestText where
  comments : List (List Byte)
  noLF : ∀ c ∈ comments, LF ∉ c
  uri : List Byte
  ne : uri ≠ []
  word : ∀ c ∈ uri, c ≠ 0 ∧ isspace c = false
  args : List ArgText

def comment (text : List Byte) : List Byte := 35 :: (text ++ [LF])

/-- A tab in front says that the request continues the burst. -/
def RequestText.text (continues : Bool) (r : RequestText) : List Byte :=
  r.comments.flatMap comment ++ ((if continues then [9] else []) ++ (r.uri ++ argsText r.args))

structure BurstText where
  first : RequestText
  noComment : first.uri.head? ≠ some 35
  rest : List RequestText

def BurstText.text (b : BurstText) : List Byte :=
  b.first.text false ++ b.rest.flatMap (RequestText.text true)

/-- A line between two sessions. -/
inductive GapLine where
  | comment (text : List Byte) (noLF : LF ∉ text)
  | blank (text : List Byte) (white : ∀ c ∈ text, isspace c = true ∧ c ≠ LF)

def GapLine.text : GapLine → List Byte
  | comment text _ => WsessLog.comment text
  | blank text _ => text ++ [LF]

def GapLine.isBlank : GapLine → Bool
  | comment .. => false
  | blank .. => true

structure SessionText where
  gap : List GapLine
  first : BurstText
  rest : List BurstText

def SessionText.bursts (s : SessionText) : List BurstText := s.first :: s.rest

def SessionText.text (s : SessionText) : List Byte :=
  s.gap.flatMap GapLine.text ++ s.bursts.flatMap BurstText.text

/-- A blank line stands before each session but the first. -/
structure FileText where
  first : SessionText
  rest : List SessionText
  blank : ∀ s ∈ rest, ∃ l ∈ s.gap, l.isBlank = true
  room : rest.length < MAX_SESSION_TEMPLATES

def FileText.all (f : FileText) : List SessionText := f.first :: f.rest

def FileText.text (f : FileText) : List Byte := f.all.flatMap SessionText.text

/-- Every line is shorter than the buffer. -/
def Short (text : List Byte) : Prop :=
  ∀ a line b, text = a ++ (line ++ LF :: b) → LF ∉ line → line.length + 1 < LINE_SIZE

/-! ## What is meant -/

/-- A request. -/
structure Request where
  method : Method
  uri : List Byte
  contents : Option (List Byte)
  deriving DecidableEq, Repr

/-- An argument sets its field. -/
def Request.set (r : Request) : Arg → Request
  | .method method => { r with method }
  | .contents cs _ => { r with contents := some (cs.map ContentsChar.value) }

def RequestText.request (r : RequestText) : Request :=
  r.args.foldl (fun q a => q.set a.arg) ⟨.HM_GET, r.uri, none⟩

def BurstText.requests (b : BurstText) : List Request := (b.first :: b.rest).map RequestText.request

def SessionText.session (s : SessionText) : List (List Request) := s.bursts.map BurstText.requests

def FileText.sessions (f : FileText) : List (List (List Request)) := f.all.map SessionText.session

/-- The fields of the `REQ`. Contents come with a header that tells their length. -/
def Request.data (r : Request) : ReqData where
  method := r.method
  uri := r.uri
  uri_len := r.uri.length
  contents := r.contents
  contents_len := (r.contents.getD []).length
  extra_hdrs := (r.contents.map fun c =>
    bytes "Content-length: " ++ bytes (toString c.length) ++ bytes "\r\n").getD []
  extra_hdrs_len := (r.contents.map fun c =>
    (bytes "Content-length: " ++ bytes (toString c.length) ++ bytes "\r\n").length).getD 0

/-- All requests of the file. -/
def FileText.requests (f : FileText) : List RequestText :=
  f.all.flatMap fun s => s.bursts.flatMap fun b => b.first :: b.rest

/-- Contents are shorter than the buffer. -/
def Arg.Fits : Arg → Prop
  | method _ => True
  | contents cs _ => cs.length < LINE_SIZE

def RequestText.Fits (r : RequestText) : Prop := ∀ a ∈ r.args, a.arg.Fits

/-! ## What can be written -/

/-- A request that the format can tell. -/
structure Request.Writable (r : Request) : Prop where
  ne : r.uri ≠ []
  word : ∀ c ∈ r.uri, c ≠ 0 ∧ isspace c = false
  contents : ∀ c, r.contents = some c → c ≠ [] ∧ 0 ∉ c

/-- A burst that the format can tell: its first line must not read as a comment. -/
structure BurstWritable (burst : List Request) : Prop where
  ne : burst ≠ []
  noComment : ∀ r, burst.head? = some r → r.uri.head? ≠ some 35
  requests : ∀ r ∈ burst, r.Writable

theorem exists_map {α β : Type} {f : α → β} {l : List β} (h : ∀ x ∈ l, ∃ a, f a = x) :
    ∃ as : List α, as.map f = l := by
  have hrange : l ∈ Set.range (List.map f) := by
    rw [Set.range_list_map]
    exact h
  exact hrange

theorem ContentsChar.exists_value {b : Byte} (hb : b ≠ 0) : ∃ c : ContentsChar, c.value = b := by
  by_cases hlf : b = LF
  · exact ⟨.newline false, hlf.symm⟩
  · exact ⟨.plain b ⟨hb, hlf⟩, rfl⟩

theorem Request.Writable.exists_text {r : Request} (h : r.Writable) :
    ∃ t : RequestText, t.request = r ∧ t.uri = r.uri := by
  obtain ⟨m, uri, contents⟩ := r
  have harg (a : Arg) : ∃ t : ArgText, t.arg = a := ⟨⟨[32], by simp, by simp, a⟩, rfl⟩
  obtain ⟨a, ha⟩ := harg (.method m)
  cases contents with
  | none =>
    refine ⟨⟨[], by simp, uri, h.ne, h.word, [a]⟩, ?_, rfl⟩
    simp [RequestText.request, ha, Request.set]
  | some c =>
    obtain ⟨hne, hnul⟩ := h.contents c rfl
    obtain ⟨cs, rfl⟩ := exists_map fun b hb =>
      ContentsChar.exists_value fun (heq : b = 0) => hnul (heq ▸ hb)
    obtain ⟨a', ha'⟩ := harg (.contents cs fun heq => hne (by rw [heq, List.map_nil]))
    refine ⟨⟨[], by simp, uri, h.ne, h.word, [a, a']⟩, ?_, rfl⟩
    simp [RequestText.request, ha, ha', Request.set]

theorem BurstWritable.exists_text {burst : List Request} (h : BurstWritable burst) :
    ∃ t : BurstText, t.requests = burst := by
  obtain ⟨r, rs, rfl⟩ := List.exists_cons_of_ne_nil h.ne
  obtain ⟨first, hfirst, huri⟩ := (h.requests r (List.mem_cons_self ..)).exists_text
  obtain ⟨rest, hrest⟩ := exists_map fun r hr =>
    ((h.requests r (List.mem_cons_of_mem _ hr)).exists_text).imp fun _ ht => ht.1
  refine ⟨⟨first, huri ▸ h.noComment r rfl, rest⟩, ?_⟩
  rw [BurstText.requests, List.map_cons, hfirst, hrest]

/-- Every list of sessions has a file. -/
theorem exists_file {sessions : List (List (List Request))} (hne : sessions ≠ [])
    (hroom : sessions.length ≤ MAX_SESSION_TEMPLATES)
    (hsessions : ∀ session ∈ sessions, session ≠ [] ∧ ∀ burst ∈ session, BurstWritable burst) :
    ∃ f : FileText, f.sessions = sessions := by
  have hsession (gap : List GapLine) : ∀ session ∈ sessions,
      ∃ t : SessionText, t.session = session ∧ t.gap = gap := by
    intro session hmem
    obtain ⟨hne, hbursts⟩ := hsessions session hmem
    obtain ⟨b, bs, rfl⟩ := List.exists_cons_of_ne_nil hne
    rw [List.forall_mem_cons] at hbursts
    obtain ⟨first, hfirst⟩ := hbursts.1.exists_text
    obtain ⟨rest, hrest⟩ := exists_map fun b hb => (hbursts.2 b hb).exists_text
    refine ⟨⟨gap, first, rest⟩, ?_, rfl⟩
    rw [SessionText.session, SessionText.bursts, List.map_cons, hfirst, hrest]
  obtain ⟨session, sessions, rfl⟩ := List.exists_cons_of_ne_nil hne
  obtain ⟨first, hfirst, -⟩ := hsession [] session (List.mem_cons_self ..)
  let blank : GapLine := .blank [] (by simp)
  obtain ⟨rest, hrest⟩ :=
    exists_map (f := fun t : {t : SessionText // t.gap = [blank]} => t.1.session)
    fun session hmem => by
      obtain ⟨t, ht, hgap⟩ := hsession [blank] session (List.mem_cons_of_mem _ hmem)
      exact ⟨⟨t, hgap⟩, ht⟩
  have hlen := congrArg List.length hrest
  rw [List.length_map] at hlen
  refine ⟨⟨first, rest.map Subtype.val, fun t ht => ?_, ?_⟩, ?_⟩
  · obtain ⟨t, -, rfl⟩ := List.mem_map.mp ht
    exact ⟨blank, by rw [t.2]; exact List.mem_cons_self .., rfl⟩
  · rw [List.length_map, hlen]
    exact hroom
  · rw [FileText.sessions, FileText.all, List.map_cons, hfirst, List.map_map]
    exact congrArg _ hrest

/-! ## Lines -/

theorem Short.suffix {a b : List Byte} (h : Short (a ++ b)) : Short b := by
  intro x line y heq hlf
  exact h (a ++ x) line y (by rw [heq, List.append_assoc]) hlf

theorem Short.rest {text a b : List Byte} (h : Short text) (heq : text = a ++ b) : Short b := by
  rw [heq] at h
  exact h.suffix

theorem short_of_length {text : List Byte} (h : text.length < LINE_SIZE) : Short text := by
  rintro a line b rfl -
  simp only [List.length_append, List.length_cons] at h
  omega

theorem read_line_line {n : Nat} {line : List Byte} (hlf : LF ∉ line) (hn : line.length + 1 ≤ n)
    (rest : List Byte) : read_line n (line ++ LF :: rest) = (line ++ [LF], rest) := by
  induction line generalizing n with
  | nil =>
    cases n with
    | zero => omega
    | succ n => simp [read_line]
  | cons c line ih =>
    cases n with
    | zero => simp at hn
    | succ n =>
      simp only [List.mem_cons, not_or, List.length_cons] at hlf hn
      have hrest := ih (n := n) hlf.2 (by omega)
      simp only [List.cons_append, read_line, Ne.symm hlf.1, if_false, hrest]

/-- A line that fits is read whole. -/
theorem fgets_cutLine {fp line rest : List Byte} (hshort : Short fp)
    (hcut : cutLine fp = some (line, rest)) :
    fgets fp = some (line, rest) := by
  obtain ⟨hfp, l, rfl, hlf⟩ := cutLine_some hcut
  rw [List.append_assoc, List.singleton_append] at hfp
  have hlen := hshort [] l rest hfp hlf
  unfold fgets
  rw [hfp, if_neg (by simp), read_line_line hlf (by unfold LINE_SIZE at *; omega)]

theorem cutLine_append {a : List Byte} (ha : LF ∉ a) (b : List Byte) :
    cutLine (a ++ b) = (cutLine b).map fun (l, r) => (a ++ l, r) :=
  cutLine_append_none b (cutLine_of_noLF ha)

theorem cutLine_append_left {a b line fp : List Byte} (ha : LF ∉ a)
    (h : cutLine (a ++ b) = some (line, fp)) : ∃ rest, line = a ++ rest ∧
    cutLine b = some (rest, fp) := by
  rw [cutLine_append ha] at h
  obtain ⟨⟨rest, fp'⟩, hcut, heq⟩ := Option.map_eq_some_iff.mp h
  obtain ⟨hline, rfl⟩ := Prod.mk.inj heq
  exact ⟨rest, hline.symm, hcut⟩

theorem cutLine_head {b : Byte} {t line fp : List Byte} (h : cutLine (b :: t) = some (line, fp)) :
    ∃ rest, line = b :: rest := by
  obtain ⟨hsplit, p, rfl, -⟩ := cutLine_some h
  cases p with
  | nil => exact ⟨[], by rw [(List.cons.inj hsplit).1]; rfl⟩
  | cons c p => exact ⟨p ++ [LF], by rw [(List.cons.inj hsplit).1]; rfl⟩

/-! ## Words -/

theorem scan_s_blanks {a : List Byte} (ha : ∀ c ∈ a, isspace c = true) (b : List Byte) :
    scan_s (a ++ b) = scan_s b := by
  unfold scan_s
  rw [List.dropWhile_append_of_pos ha]

theorem scan_s_begins {w : List Byte} (hne : w ≠ []) (hw : ∀ c ∈ w, isspace c = false)
    (b : List Byte) :
    scan_s (w ++ b) =
      some (w ++ b.takeWhile fun c => !isspace c, b.dropWhile fun c => !isspace c) := by
  have hfirst : (w ++ b).dropWhile isspace = w ++ b := by
    cases w with
    | nil => exact absurd rfl hne
    | cons c w =>
      rw [List.cons_append, List.dropWhile_cons_of_neg]
      simp [hw c (List.mem_cons_self ..)]
  have hpos : ∀ c ∈ w, (!isspace c) = true := by
    intro c hc
    rw [hw c hc]
    rfl
  unfold scan_s
  dsimp only
  rw [hfirst, List.takeWhile_append_of_pos hpos, List.dropWhile_append_of_pos hpos,
    if_neg (List.append_ne_nil_of_left_ne_nil hne _)]

theorem scan_s_word {w b : List Byte} (hne : w ≠ []) (hw : ∀ c ∈ w, isspace c = false)
    (hb : ∀ c ∈ b.head?, isspace c = true) : scan_s (w ++ b) = some (w, b) := by
  rw [scan_s_begins hne hw]
  cases b with
  | nil => simp
  | cons c b => simp [hb c rfl]

theorem scan_s_none {a : List Byte} (ha : ∀ c ∈ a, isspace c = true) : scan_s a = none := by
  have h := scan_s_blanks ha []
  rw [List.append_nil] at h
  rw [h]
  rfl

/-! ## Contents -/

/-- Outside of quotes, in double quotes, and behind a backslash there. -/
def unquoted : Quotes := ⟨false, false, false⟩

def quoted : Quotes := ⟨false, true, false⟩

def backslashed : Quotes := ⟨false, true, true⟩

theorem contents_loop_open {fp rest out : List Byte} (hroom : out.length ≤ LINE_SIZE) :
    contents_loop unquoted ⟨fp, 34 :: rest, out⟩ = contents_loop quoted ⟨fp, rest, out⟩ := by
  have hscan : scan_contents unquoted 34 = .add quoted [] := by decide
  rw [contents_loop_add hscan hroom, List.append_nil]

theorem contents_loop_close {fp rest out : List Byte} (hroom : out.length ≤ LINE_SIZE) :
    contents_loop quoted ⟨fp, 34 :: rest, out⟩ = contents_loop unquoted ⟨fp, rest, out⟩ := by
  have hscan : scan_contents quoted 34 = .add unquoted [] := by decide
  rw [contents_loop_add hscan hroom, List.append_nil]

theorem contents_loop_backslash {fp rest out : List Byte} (hroom : out.length ≤ LINE_SIZE) :
    contents_loop quoted ⟨fp, 92 :: rest, out⟩ = contents_loop backslashed ⟨fp, rest, out⟩ := by
  have hscan : scan_contents quoted 92 = .add backslashed [] := by decide
  rw [contents_loop_add hscan hroom, List.append_nil]

theorem scan_quoted_plain {b : Byte} (hlf : b ≠ LF) (h92 : b ≠ 92) (h34 : b ≠ 34) :
    scan_contents quoted b = .add quoted [b] := by
  unfold scan_contents quoted
  simp only [Bool.false_eq_true, if_false, h34, h92, hlf, decide_false, Bool.and_false,
    Bool.not_true, Bool.and_true, Bool.or_false, if_true]
  split_ifs <;> rfl

/-- The rest of the request in the file: its line has an end, and no NUL in it. -/
def Goes (text : List Byte) : Prop := ∃ q more, text = q ++ LF :: more ∧ 0 ∉ q

theorem Goes.cutLine {text : List Byte} (h : Goes text) :
    ∃ line next, cutLine text = some (line, next) ∧ 0 ∉ line := by
  obtain ⟨q, more, rfl, hnul⟩ := h
  cases hq : Httperf.cutLine q with
  | none => exact ⟨q ++ [LF], more, cutLine_line q more (cutLine_none hq), by simp [hnul, LF]⟩
  | some v =>
    obtain ⟨hsplit, -⟩ := cutLine_some (l := v.1) (r := v.2) hq
    refine ⟨v.1, v.2 ++ LF :: more, cutLine_append_some (l := v.1) (r := v.2) _ hq,
      fun hmem => hnul ?_⟩
    rw [hsplit]
    exact List.mem_append_left _ hmem

theorem Goes.append {text : List Byte} (h : Goes text) {a : List Byte} (ha : 0 ∉ a) :
    Goes (a ++ text) := by
  obtain ⟨q, more, rfl, hnul⟩ := h
  exact ⟨a ++ q, more, by rw [List.append_assoc], by simp [ha, hnul]⟩

/-- A character is read back. A newline at the end of the line takes the next one from the file. -/
theorem contents_loop_char (c : ContentsChar) {more fp rest : List Byte} (out : List Byte)
    (hcut : cutLine (c.text ++ more) = some (rest, fp)) (hshort : Short (c.text ++ more))
    (hmore : Goes more) (hroom : out.length + 1 ≤ LINE_SIZE) :
    ∃ rest' fp', cutLine more = some (rest', fp') ∧
      contents_loop quoted ⟨fp, rest, out⟩ =
        contents_loop quoted ⟨fp', rest', out ++ [c.value]⟩ := by
  obtain ⟨line, next, hline, hnul⟩ := hmore.cutLine
  have hle : out.length ≤ LINE_SIZE := Nat.le_of_succ_le hroom
  refine ⟨line, next, hline, ?_⟩
  -- all but the last way to write a character stay in the line
  have hstay : LF ∉ c.text → rest = c.text ++ line ∧ fp = next := by
    intro hlf
    obtain ⟨line', rfl, hline'⟩ := cutLine_append_left hlf hcut
    obtain ⟨rfl, rfl⟩ := Prod.mk.inj (Option.some.inj (hline.symm.trans hline'))
    exact ⟨rfl, rfl⟩
  cases c with
  | plain b hb =>
    by_cases hspecial : b = 92 ∨ b = 34
    · have htext : (ContentsChar.plain b hb).text = [92, b] := if_pos hspecial
      have hesc : LF ≠ 92 := by decide
      obtain ⟨rfl, rfl⟩ := hstay (by rw [htext]; simp [hesc, Ne.symm hb.2])
      rw [htext, List.cons_append, List.cons_append, List.nil_append,
        contents_loop_backslash hle]
      refine contents_loop_add ?_ hroom
      rcases hspecial with rfl | rfl <;> rfl
    · have htext : (ContentsChar.plain b hb).text = [b] := if_neg hspecial
      rw [not_or] at hspecial
      obtain ⟨rfl, rfl⟩ := hstay (by rw [htext]; simpa using Ne.symm hb.2)
      rw [htext, List.singleton_append]
      exact contents_loop_add (scan_quoted_plain hb.2 hspecial.1 hspecial.2) hroom
  | newline continued =>
    cases continued with
    | false =>
      obtain ⟨rfl, rfl⟩ := hstay (by decide)
      rw [ContentsChar.text, List.cons_append, List.cons_append, List.nil_append,
        contents_loop_backslash hle]
      exact contents_loop_add (by decide) hroom
    | true =>
      have hall : cutLine ([92, LF] ++ more) = some ([92, LF], more) :=
        cutLine_line [92] more (by decide)
      obtain ⟨rfl, rfl⟩ := Prod.mk.inj (Option.some.inj (hall.symm.trans hcut))
      have hscan : scan_contents backslashed LF = .next_line quoted := by decide
      rw [contents_loop_backslash hle, contents_loop_next hscan hroom
        (fgets_cutLine hshort.suffix hline),
        cstr_eq hnul]
      rfl

theorem contentsText_noNUL (cs : List ContentsChar) : 0 ∉ contentsText cs := by
  unfold contentsText
  simp only [List.mem_flatMap, not_exists, not_and]
  intro c _
  cases c with
  | plain b hb =>
    change 0 ∉ if b = 92 ∨ b = 34 then [92, b] else [b]
    split_ifs <;> simp [Ne.symm hb.1]
  | newline continued => cases continued <;> decide

/-- The characters of the contents. -/
theorem contents_loop_chars (cs : List ContentsChar) {more fp rest : List Byte} (out : List Byte)
    (hcut : cutLine (contentsText cs ++ more) = some (rest, fp))
    (hshort : Short (contentsText cs ++ more)) (hmore : Goes more)
    (hroom : out.length + cs.length ≤ LINE_SIZE) :
    ∃ rest' fp', cutLine more = some (rest', fp') ∧
      contents_loop quoted ⟨fp, rest, out⟩ =
        contents_loop quoted ⟨fp', rest', out ++ cs.map ContentsChar.value⟩ := by
  induction cs generalizing fp rest out with
  | nil => exact ⟨rest, fp, hcut, by simp⟩
  | cons c cs ih =>
    have htext : contentsText (c :: cs) ++ more = c.text ++ (contentsText cs ++ more) := by
      unfold contentsText
      rw [List.flatMap_cons, List.append_assoc]
    rw [htext] at hcut hshort
    rw [List.length_cons] at hroom
    obtain ⟨rest1, fp1, hcut1, heq1⟩ :=
      contents_loop_char c out hcut hshort (hmore.append (contentsText_noNUL cs)) (by omega)
    have hroom' : (out ++ [c.value]).length + cs.length ≤ LINE_SIZE := by
      rw [List.length_append, List.length_singleton]
      omega
    obtain ⟨rest2, fp2, hcut2, heq2⟩ := ih (out ++ [c.value]) hcut1 hshort.suffix hroom'
    refine ⟨rest2, fp2, hcut2, ?_⟩
    rw [heq1, heq2, List.map_cons, List.append_assoc, List.singleton_append]

/-- The quoted contents, up to the blank or the end of the line behind them. -/
theorem contents_loop_quoted (cs : List ContentsChar) {b : Byte} {more fp rest : List Byte}
    (hb : b = 32 ∨ b = 9 ∨ b = LF)
    (hcut : cutLine (34 :: (contentsText cs ++ (34 :: b :: more))) = some (rest, fp))
    (hshort : Short (34 :: (contentsText cs ++ (34 :: b :: more)))) (hmore : Goes (b :: more))
    (hroom : cs.length ≤ LINE_SIZE) :
    ∃ rest' fp', cutLine (b :: more) = some (b :: rest', fp') ∧
      contents_loop unquoted ⟨fp, rest, []⟩ =
        .ok ⟨fp', rest', cs.map ContentsChar.value⟩ := by
  obtain ⟨line, rfl, hline⟩ := cutLine_append_left (a := [34]) (by decide) hcut
  have hclose : Goes (34 :: b :: more) := hmore.append (a := [34]) (by decide)
  obtain ⟨rest1, fp1, hcut1, heq1⟩ :=
    contents_loop_chars cs [] hline (Short.suffix (a := [34]) hshort) hclose
    (by rwa [List.length_nil, Nat.zero_add])
  obtain ⟨line2, rfl, hline2⟩ := cutLine_append_left (a := [34]) (by decide) hcut1
  obtain ⟨rest', rfl⟩ := cutLine_head hline2
  refine ⟨rest', fp1, hline2, ?_⟩
  have hempty : ([] : List Byte).length ≤ LINE_SIZE := Nat.zero_le _
  have hfull : ([] ++ cs.map ContentsChar.value).length ≤ LINE_SIZE := by
    rwa [List.nil_append, List.length_map]
  rw [List.singleton_append, contents_loop_open hempty, heq1, List.singleton_append,
    contents_loop_close hfull]
  apply contents_loop_done
  rcases hb with rfl | rfl | rfl <;> decide

end Httperf.WsessLog
