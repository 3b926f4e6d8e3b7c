-- `parse_config` reads back a file that is written as the format says: for every way of writing it,
-- the templates hold its sessions, and nothing else.
import Httperf.WsessFile

namespace Httperf.WsessLog

/-! ## Arguments -/

theorem isspace_of_blank {c : Byte} (h : c = 32 ∨ c = 9) : isspace c = true := by
  rcases h with rfl | rfl <;> decide

theorem scan_lit_append (lit rest : List Byte) : scan_lit lit (lit ++ rest) = some rest := by
  unfold scan_lit
  rw [if_pos (by simp), List.drop_left]

/-- The blanks before an argument change nothing. -/
theorem args_loop_blanks {τ : Type} (scan_lf : List Byte → Option τ) (s : Parser τ)
    {blanks : List Byte} (hblanks : ∀ c ∈ blanks, isspace c = true) (parsed_so_far : List Byte) :
    args_loop scan_lf s (blanks ++ parsed_so_far) = args_loop scan_lf s parsed_so_far := by
  have hscan := scan_s_blanks hblanks parsed_so_far
  have hbehind : behind_eq (blanks ++ parsed_so_far) = behind_eq parsed_so_far := by
    unfold behind_eq
    rw [List.dropWhile_append_of_pos]
    intro c hc
    have hspace := hblanks c hc
    rw [decide_eq_true_iff]
    rintro rfl
    exact absurd hspace (by decide)
  cases hword : scan_s parsed_so_far with
  | none => rw [args_loop_end scan_lf hword, args_loop_end scan_lf (hscan.trans hword)]
  | some v =>
    obtain ⟨this_arg, rest⟩ := v
    rw [args_loop_arg scan_lf hword, args_loop_arg scan_lf (hscan.trans hword)]
    unfold parse_arg
    rw [hbehind]

theorem content_length_header_eq {n : Nat} (hn : n < LINE_SIZE) :
    content_length_header n = bytes "Content-length: " ++ bytes (toString n) ++ bytes "\r\n" := by
  have hdigits : (bytes (toString n)).length ≤ 6 := by
    unfold bytes
    rw [List.length_map, String.length_toList]
    apply (Nat.length_repr_le_iff (by decide)).mpr
    exact Nat.lt_trans hn (by decide)
  unfold content_length_header
  apply List.take_of_length_le
  have hname : (bytes "Content-length: ").length = 16 := by decide
  have hend : (bytes "\r\n").length = 2 := by decide
  rw [List.length_append, List.length_append, hname, hend]
  omega

/-- An argument sets its field of the `REQ`. -/
def Arg.apply : Arg → ReqData → ReqData
  | .method m, r => { r with method := m }
  | .contents cs _, r => set_contents (cs.map ContentsChar.value) r

theorem Arg.apply_data {a : Arg} (ha : a.Fits) (r : Request) : a.apply r.data = (r.set a).data := by
  cases a with
  | method m => rfl
  | contents cs ne =>
    have hlen : (cs.map ContentsChar.value).length ≠ 0 := by simpa using ne
    have hfits : (cs.map ContentsChar.value).length < LINE_SIZE := by
      rw [List.length_map]
      exact ha
    unfold Arg.apply set_contents
    dsimp only
    rw [if_pos hlen, content_length_header_eq hfits]
    rfl

theorem find_method_name (m : Method) : find_method (call_method_name m) = some m := by
  cases m <;> decide

/-- The letters of a word, looked at one by one. -/
theorem word_of_all {word : List Byte} (hall : word.all (fun c => !isspace c && c != 0) = true) :
    ∀ c ∈ word, isspace c = false ∧ c ≠ 0 := by
  intro c hc
  have hboth := List.all_eq_true.mp hall c hc
  rw [Bool.and_eq_true, Bool.not_eq_true', bne_iff_ne] at hboth
  exact hboth

theorem method_name_ne_nil (m : Method) : call_method_name m ≠ [] := by
  cases m <;> decide

theorem method_name_word (m : Method) : ∀ c ∈ call_method_name m, isspace c = false ∧ c ≠ 0 := by
  apply word_of_all
  cases m <;> rfl

theorem method_text_word (m : Method) : ∀ c ∈ (Arg.method m).text, isspace c = false ∧ c ≠ 0 := by
  intro c hc
  rcases List.mem_append.mp hc with hlit | hname
  · have hword : (bytes "method=").all (fun c => !isspace c && c != 0) = true := rfl
    exact word_of_all hword c hlit
  · exact method_name_word m c hname

theorem scan_arg_method (m : Method) :
    scan_arg (bytes "method=") (Arg.method m).text = some (call_method_name m) := by
  have hword :=
    scan_s_word (b := []) (method_name_ne_nil m) (fun c hc => (method_name_word m c hc).1) (by simp)
  rw [List.append_nil] at hword
  unfold scan_arg Arg.text
  rw [scan_lit_append, Option.bind_some, hword]
  rfl

/-- What precedes the quote is no other argument. -/
theorem scan_contents_word (word : List Byte) :
    scan_arg (bytes "method=") (bytes "contents=" ++ word) = none ∧
      scan_lit (bytes "think=") (bytes "contents=" ++ word) = none := by
  constructor <;> rfl

section
variable {τ : Type} {scan_lf : List Byte → Option τ} {s : Parser τ}

theorem args_loop_method (m : Method) {rest : List Byte}
    (hrest : ∀ c ∈ rest.head?, isspace c = true) :
    args_loop scan_lf s ((Arg.method m).text ++ rest) =
      args_loop scan_lf (s.set_req (Arg.method m).apply) rest := by
  have hne : (Arg.method m).text ≠ [] := by cases m <;> decide
  have hshort : (call_method_name m).length < 1000 := by cases m <;> decide
  have harg : parse_arg scan_lf s ((Arg.method m).text ++ rest) (Arg.method m).text rest =
      .ok (s.set_req (Arg.method m).apply, rest) := by
    unfold parse_arg
    rw [scan_arg_method]
    dsimp only
    rw [if_neg (by omega), find_method_name]
    rfl
  rw [args_loop_arg scan_lf (scan_s_word hne (fun c hc => (method_text_word m c hc).1) hrest), harg]

theorem args_loop_contents {cs : List ContentsChar} {ne : cs ≠ []}
    (hfits : (Arg.contents cs ne).Fits) {line rest fp : List Byte}
    (hloop : contents_loop unquoted ⟨s.fp, 34 :: line, []⟩ =
      .ok ⟨fp, rest, cs.map ContentsChar.value⟩) :
    args_loop scan_lf s (bytes "contents=" ++ 34 :: line) =
      args_loop scan_lf ({ s with fp }.set_req (Arg.contents cs ne).apply) rest := by
  have hall : (bytes "contents=" ++ [34]).all (fun c => !isspace c && c != 0) = true := rfl
  have hword : ∀ c ∈ bytes "contents=" ++ [34], isspace c = false :=
    fun c hc => (word_of_all hall c hc).1
  have hscan := scan_s_begins (by decide) hword line
  have happ : bytes "contents=" ++ [34] ++ line = bytes "contents=" ++ 34 :: line := by
    rw [List.append_assoc, List.singleton_append]
  have hlen : ¬ LINE_SIZE ≤ (cs.map ContentsChar.value).length := by
    rw [List.length_map, Nat.not_le]
    exact hfits
  rw [happ, List.append_assoc] at hscan
  obtain ⟨hmethod, hthink⟩ := scan_contents_word ([34] ++ line.takeWhile fun c => !isspace c)
  have hcontents : (scan_arg (bytes "contents=") (bytes "contents=" ++
      ([34] ++ line.takeWhile fun c => !isspace c))).isSome := by
    unfold scan_arg
    rw [scan_lit_append, Option.bind_some, scan_s_begins (by decide) (by decide +kernel)]
    rfl
  obtain ⟨word, hcontents⟩ := Option.isSome_iff_exists.mp hcontents
  have hbehind : behind_eq (bytes "contents=" ++ 34 :: line) = 34 :: line := rfl
  rw [args_loop_arg scan_lf hscan]
  unfold parse_arg
  rw [hmethod, hthink, hcontents, hbehind]
  dsimp only [Option.bind_none]
  unfold unquoted at hloop
  rw [hloop]
  dsimp only
  rw [if_neg hlen]
  rfl

/-- What follows an argument: a blank, or the end of the line. -/
def Behind (text : List Byte) : Prop := ∃ b more, text = b :: more ∧ (b = 32 ∨ b = 9 ∨ b = LF)

theorem behind_argsText (args : List ArgText) (more : List Byte) :
    Behind (argsText args ++ more) := by
  cases args with
  | nil => exact ⟨LF, more, rfl, .inr (.inr rfl)⟩
  | cons a args =>
    obtain ⟨b, blanks, hb⟩ := List.exists_cons_of_ne_nil a.ne
    refine ⟨b, blanks ++ a.arg.text ++ (argsText args ++ more), ?_, ?_⟩
    · simp [argsText, hb]
    · exact (a.isBlank b (by rw [hb]; exact List.mem_cons_self ..)).imp id .inl

theorem word_noLF {w : List Byte} (hw : ∀ c ∈ w, isspace c = false) : LF ∉ w :=
  fun hmem => absurd (hw LF hmem) (by decide)

theorem blanks_noLF (a : ArgText) : LF ∉ a.blanks := by
  intro hmem
  rcases a.isBlank _ hmem with h | h <;> exact absurd h (by decide)

variable (scan_lf) in
/-- One argument, with what follows it on the line and in the file. -/
theorem args_loop_one (a : ArgText) {t parsed : List Byte} (hbehind : Behind t) (hgoes : Goes t)
    (hcut : cutLine (a.blanks ++ (a.arg.text ++ t)) = some (parsed, s.fp))
    (hshort : Short (a.blanks ++ (a.arg.text ++ t))) (hfits : a.arg.Fits) :
    ∃ line fp, cutLine t = some (line, fp) ∧
      args_loop scan_lf s parsed = args_loop scan_lf ({ s with fp }.set_req a.arg.apply) line := by
  have hblanks : ∀ c ∈ a.blanks, isspace c = true := fun c hc => isspace_of_blank (a.isBlank c hc)
  obtain ⟨rest, rfl, htext⟩ := cutLine_append_left (blanks_noLF a) hcut
  rw [args_loop_blanks scan_lf s hblanks]
  obtain ⟨b, more, rfl, hb⟩ := hbehind
  have hspace : isspace b = true := by rcases hb with rfl | rfl | rfl <;> decide
  cases harg : a.arg with
  | method m =>
    rw [harg] at htext
    have hlf : LF ∉ (Arg.method m).text := word_noLF fun c hc => (method_text_word m c hc).1
    obtain ⟨line, rfl, hline⟩ := cutLine_append_left hlf htext
    refine ⟨line, s.fp, hline, ?_⟩
    obtain ⟨rest, rfl⟩ := cutLine_head hline
    apply args_loop_method
    intro c hc
    obtain rfl := Option.some.inj hc
    exact hspace
  | contents cs ne =>
    have happ : a.arg.text ++ b :: more =
        bytes "contents=" ++ 34 :: (contentsText cs ++ (34 :: b :: more)) := by
      rw [harg]
      simp [Arg.text]
    have hlf : LF ∉ bytes "contents=" := by decide
    rw [happ] at htext hshort
    obtain ⟨line, rfl, hline⟩ := cutLine_append_left hlf htext
    obtain ⟨rest, rfl⟩ := cutLine_head hline
    rw [harg] at hfits
    obtain ⟨rest', fp, hnext, hloop⟩ :=
      contents_loop_quoted cs hb hline hshort.suffix.suffix hgoes (Nat.le_of_lt hfits)
    refine ⟨b :: rest', fp, hnext, ?_⟩
    rw [args_loop_contents hfits hloop]
    have hb : ∀ c ∈ [b], isspace c = true := by simpa using hspace
    exact (args_loop_blanks scan_lf _ hb rest').symm

theorem argsText_goes (args : List ArgText) (more : List Byte) : Goes (argsText args ++ more) := by
  refine ⟨args.flatMap fun a => a.blanks ++ a.arg.text, more, ?_, ?_⟩
  · rw [argsText, List.append_assoc, List.singleton_append]
  · simp only [List.mem_flatMap, List.mem_append, not_exists, not_and, not_or]
    intro a _
    refine ⟨fun hmem => ?_, fun hmem => ?_⟩
    · rcases a.isBlank _ hmem with h | h <;> exact absurd h (by decide)
    · cases harg : a.arg with
      | method m =>
        rw [harg] at hmem
        exact (method_text_word m 0 hmem).2 rfl
      | contents cs ne =>
        rw [harg] at hmem
        have hname : 0 ∉ bytes "contents=" := by decide
        simp [Arg.text, hname, contentsText_noNUL] at hmem

variable {think_time : τ} {past : List (List (List ReqData))} {done : List (List ReqData)}
  {cur : List ReqData}

/-- All arguments of a request. -/
theorem args_loop_text (args : List ArgText) {more parsed : List Byte} {r : Request}
    (hcut : cutLine (argsText args ++ more) = some (parsed, s.fp))
    (hshort : Short (argsText args ++ more)) (hfits : ∀ a ∈ args, a.arg.Fits)
    (hs : InSession think_time past done cur r.data s) :
    ∃ s', args_loop scan_lf s parsed = .ok s' ∧ s'.fp = more ∧
      InSession think_time past done cur (args.foldl (fun q a => q.set a.arg) r).data s' := by
  induction args generalizing s parsed r with
  | nil =>
    have hend : cutLine (LF :: more) = some ([LF], more) := cutLine_line [] more (by simp)
    obtain ⟨rfl, hfp⟩ := Prod.mk.inj (Option.some.inj (hend.symm.trans hcut))
    exact ⟨s, args_loop_end scan_lf (by decide), hfp.symm, hs⟩
  | cons a args ih =>
    have htext : argsText (a :: args) ++ more =
        a.blanks ++ (a.arg.text ++ (argsText args ++ more)) := by
      simp [argsText]
    rw [htext] at hcut hshort
    rw [List.forall_mem_cons] at hfits
    obtain ⟨line, fp, hline, hloop⟩ := args_loop_one scan_lf a (behind_argsText args more)
      (argsText_goes args more) hcut hshort hfits.1
    have hset := (hs.fp fp).set_req a.arg.apply
    rw [Arg.apply_data hfits.1] at hset
    rw [hloop]
    exact ih (by rwa [Parser.set_req_fp]) hshort.suffix.suffix hfits.2 hset

/-! ## Lines -/

theorem lines_loop_line {line fp : List Byte} {s' : Parser τ} (hline : fgets s.fp = some (line, fp))
    (hparse : parse_line think_time scan_lf (cstr line) { s with fp } = .ok s') :
    lines_loop think_time scan_lf s = lines_loop think_time scan_lf s' := by
  rw [lines_loop_turn think_time scan_lf hline, hparse]

theorem lines_loop_comment {text more : List Byte} (hlf : LF ∉ text)
    (hfp : s.fp = comment text ++ more) (hshort : Short s.fp) :
    lines_loop think_time scan_lf s = lines_loop think_time scan_lf { s with fp := more } := by
  have hcut : cutLine s.fp = some (35 :: text ++ [LF], more) := by
    rw [hfp, comment, List.cons_append, List.append_assoc]
    exact cutLine_line (35 :: text) more (by simpa [LF] using hlf)
  apply lines_loop_line (fgets_cutLine hshort hcut)
  unfold parse_line
  rw [if_pos (by rfl)]

theorem lines_loop_comments {comments : List (List Byte)} (hlf : ∀ c ∈ comments, LF ∉ c)
    {more : List Byte} (hfp : s.fp = comments.flatMap comment ++ more) (hshort : Short s.fp) :
    lines_loop think_time scan_lf s = lines_loop think_time scan_lf { s with fp := more } := by
  induction comments generalizing s with
  | nil =>
    obtain rfl : s.fp = more := hfp
    rfl
  | cons c comments ih =>
    rw [List.flatMap_cons, List.append_assoc] at hfp
    rw [List.forall_mem_cons] at hlf
    rw [lines_loop_comment hlf.1 hfp hshort]
    exact ih hlf.2 rfl (hshort.rest hfp)

/-- A blank line. -/
theorem lines_loop_blank {text more : List Byte} {s' : Parser τ}
    (hwhite : ∀ c ∈ text, isspace c = true ∧ c ≠ LF) (hfp : s.fp = text ++ [LF] ++ more)
    (hshort : Short s.fp) (hend : { s with fp := more }.end_session = .ok s') :
    lines_loop think_time scan_lf s = lines_loop think_time scan_lf s' := by
  have hcut : cutLine s.fp = some (text ++ [LF], more) := by
    rw [hfp, List.append_assoc]
    exact cutLine_line text more fun hmem => (hwhite LF hmem).2 rfl
  have hall : ∀ c ∈ text ++ [LF], isspace c = true := by
    intro c hc
    rcases List.mem_append.mp hc with hc | hc
    · exact (hwhite c hc).1
    · rw [List.mem_singleton.mp hc]
      decide
  have hnul : 0 ∉ text ++ [LF] := fun hmem => absurd (hall 0 hmem) (by decide)
  have hfirst : (text ++ [LF]).headD 0 ≠ 35 := by
    intro heq
    cases text with
    | nil => exact absurd heq (by decide)
    | cons c text =>
      have hspace := hall c (List.mem_cons_self ..)
      obtain rfl : c = 35 := heq
      exact absurd hspace (by decide)
  apply lines_loop_line (fgets_cutLine hshort hcut)
  unfold parse_line
  rw [cstr_eq hnul, if_neg hfirst, scan_s_none hall]
  exact hend

/-- A request with its comments. `hadd` says where the request goes, as its line tells. -/
theorem lines_loop_request {continues : Bool} (r : RequestText) {more : List Byte}
    (hcomment : continues = false → r.uri.head? ≠ some 35) (hfp : s.fp = r.text continues ++ more)
    (hshort : Short s.fp) (hfits : r.Fits)
    (hadd : ∀ line fp, isspace (line.headD 0) = continues →
      ∃ s', { s with fp }.add_request think_time line r.uri = .ok s' ∧ s'.fp = fp ∧
        InSession think_time past done cur (new_request r.uri) s') :
    ∃ s', lines_loop think_time scan_lf s = lines_loop think_time scan_lf s' ∧ s'.fp = more ∧
      InSession think_time past done cur r.request.data s' := by
  let indent : List Byte := if continues then [9] else []
  have hindent : ∀ c ∈ indent, c = 9 := by
    cases continues <;> simp [indent]
  have hword : ∀ c ∈ r.uri, isspace c = false := fun c hc => (r.word c hc).2
  have htext : s.fp = r.comments.flatMap comment ++
      (indent ++ (r.uri ++ (argsText r.args ++ more))) := by
    rw [hfp, RequestText.text]
    simp only [List.append_assoc]
    rfl
  have hargs : Short (argsText r.args ++ more) := (hshort.rest htext).suffix.suffix
  obtain ⟨argline, fp, hargline, hnul⟩ := (argsText_goes r.args more).cutLine
  have hlf : LF ∉ indent ++ r.uri := by
    rw [List.mem_append, not_or]
    exact ⟨fun hmem => absurd (hindent _ hmem) (by decide), word_noLF hword⟩
  have hcut : cutLine (indent ++ (r.uri ++ (argsText r.args ++ more))) =
      some (indent ++ r.uri ++ argline, fp) := by
    rw [← List.append_assoc, cutLine_append hlf, hargline]
    rfl
  have hcstr : cstr (indent ++ r.uri ++ argline) = indent ++ r.uri ++ argline := by
    apply cstr_eq
    rw [List.mem_append, List.mem_append, not_or, not_or]
    exact ⟨⟨fun hmem => absurd (hindent _ hmem) (by decide), fun hmem => (r.word 0 hmem).1 rfl⟩,
      hnul⟩
  -- the first character tells a burst from a continuation, and both from a comment
  have hfirst : isspace ((indent ++ r.uri ++ argline).headD 0) = continues ∧
      (indent ++ r.uri ++ argline).headD 0 ≠ 35 := by
    obtain ⟨c, uri, huri⟩ := List.exists_cons_of_ne_nil r.ne
    cases continues with
    | false =>
      have hc := hcomment rfl
      rw [huri] at hc hword ⊢
      exact ⟨hword c (List.mem_cons_self ..), fun heq => hc (congrArg some heq)⟩
    | true =>
      have htab : (9 : Byte) ≠ 35 := by decide
      exact ⟨rfl, htab⟩
  have hscan : scan_s (indent ++ r.uri ++ argline) = some (r.uri, argline) := by
    have hspace : ∀ c ∈ indent, isspace c = true := by
      intro c hc
      rw [hindent c hc]
      decide
    obtain ⟨b, t, hb, hblank⟩ := behind_argsText r.args more
    rw [hb] at hargline
    obtain ⟨argline, rfl⟩ := cutLine_head hargline
    rw [List.append_assoc, scan_s_blanks hspace]
    apply scan_s_word r.ne hword
    intro c hc
    obtain rfl := Option.some.inj hc
    rcases hblank with rfl | rfl | rfl <;> decide
  obtain ⟨s₁, hadd, hfp₁, hs₁⟩ := hadd _ fp hfirst.1
  obtain ⟨s₂, hloop, hfp₂, hs₂⟩ :=
    args_loop_text r.args (r := ⟨.HM_GET, r.uri, none⟩) (by rwa [hfp₁]) hargs
    hfits hs₁
  refine ⟨s₂, ?_, hfp₂, hs₂⟩
  rw [lines_loop_comments r.noLF htext hshort]
  apply lines_loop_line (fgets_cutLine (hshort.rest htext) hcut)
  unfold parse_line
  rw [hcstr, if_neg hfirst.2, hscan]
  dsimp only
  rw [hadd]
  exact hloop

/-! ## Bursts and sessions -/

/-- The requests that continue a burst. -/
theorem lines_loop_requests (hroom : past.length < MAX_SESSION_TEMPLATES) (rs : List RequestText)
    {more : List Byte} {last : ReqData} (hfp : s.fp = rs.flatMap (RequestText.text true) ++ more)
    (hshort : Short s.fp) (hfits : ∀ r ∈ rs, r.Fits)
    (hs : InSession think_time past done cur last s) :
    ∃ cur' last' s', lines_loop think_time scan_lf s = lines_loop think_time scan_lf s' ∧
    s'.fp = more ∧
      cur' ++ [last'] = cur ++ [last] ++ rs.map (fun r => r.request.data) ∧
      InSession think_time past done cur' last' s' := by
  induction rs generalizing cur last s with
  | nil => exact ⟨cur, last, s, rfl, hfp, by simp, hs⟩
  | cons r rs ih =>
    rw [List.flatMap_cons, List.append_assoc] at hfp
    rw [List.forall_mem_cons] at hfits
    obtain ⟨s₁, hloop, hfp₁, hs₁⟩ := lines_loop_request r (by simp) hfp hshort hfits.1
      fun line fp hline => (hs.fp fp).add_request hroom r.uri hline
    have hshort₁ : Short s₁.fp := by
      rw [hfp₁]
      exact hshort.rest hfp
    obtain ⟨cur', last', s₂, hloop', hfp₂, hcur, hs₂⟩ := ih hfp₁ hshort₁ hfits.2 hs₁
    refine ⟨cur', last', s₂, hloop.trans hloop', hfp₂, ?_, hs₂⟩
    rw [hcur, List.map_cons]
    simp

def BurstText.data (b : BurstText) : List ReqData := b.requests.map Request.data

def SessionText.data (t : SessionText) : List (List ReqData) := t.bursts.map BurstText.data

/-- A burst. `hadd` says whether it begins the session or continues it. -/
theorem lines_loop_burst (hroom : past.length < MAX_SESSION_TEMPLATES) (b : BurstText)
    {more : List Byte} (hfp : s.fp = b.text ++ more) (hshort : Short s.fp)
    (hfits : ∀ r ∈ b.first :: b.rest, r.Fits) (hadd : ∀ line fp, isspace (line.headD 0) = false →
      ∃ s', { s with fp }.add_request think_time line b.first.uri = .ok s' ∧ s'.fp = fp ∧
        InSession think_time past done [] (new_request b.first.uri) s') :
    ∃ cur last s', lines_loop think_time scan_lf s = lines_loop think_time scan_lf s' ∧
    s'.fp = more ∧
      cur ++ [last] = b.data ∧ InSession think_time past done cur last s' := by
  rw [BurstText.text, List.append_assoc] at hfp
  rw [List.forall_mem_cons] at hfits
  obtain ⟨s₁, hloop₁, hfp₁, hs₁⟩ :=
    lines_loop_request b.first (fun _ => b.noComment) hfp hshort hfits.1 hadd
  have hshort₁ : Short s₁.fp := by
    rw [hfp₁]
    exact hshort.rest hfp
  obtain ⟨cur, last, s₂, hloop₂, hfp₂, hcur, hs₂⟩ :=
    lines_loop_requests hroom b.rest hfp₁ hshort₁ hfits.2 hs₁
  refine ⟨cur, last, s₂, hloop₁.trans hloop₂, hfp₂, ?_, hs₂⟩
  rw [hcur]
  simp [BurstText.data, BurstText.requests]

/-- Behind the last request of a session. -/
def AtEnd (think_time : τ) (past : List (List (List ReqData))) (session : List (List ReqData))
    (s : Parser τ) : Prop :=
  ∃ done cur last, done ++ [cur ++ [last]] = session ∧ InSession think_time past done cur last s

theorem lines_loop_bursts (hroom : past.length < MAX_SESSION_TEMPLATES) (bs : List BurstText)
    {more : List Byte} {session : List (List ReqData)}
    (hfp : s.fp = bs.flatMap BurstText.text ++ more) (hshort : Short s.fp)
    (hfits : ∀ b ∈ bs, ∀ r ∈ b.first :: b.rest, r.Fits) (hs : AtEnd think_time past session s) :
    ∃ s', lines_loop think_time scan_lf s = lines_loop think_time scan_lf s' ∧ s'.fp = more ∧
      AtEnd think_time past (session ++ bs.map BurstText.data) s' := by
  induction bs generalizing session s with
  | nil => exact ⟨s, rfl, hfp, by rwa [List.map_nil, List.append_nil]⟩
  | cons b bs ih =>
    rw [List.flatMap_cons, List.append_assoc] at hfp
    rw [List.forall_mem_cons] at hfits
    obtain ⟨done, cur, last, rfl, hs⟩ := hs
    obtain ⟨cur₁, last₁, s₁, hloop₁, hfp₁, hcur₁, hs₁⟩ :=
      lines_loop_burst hroom b hfp hshort hfits.1
      fun line fp hline => (hs.fp fp).add_burst hroom b.first.uri hline
    have hshort₁ : Short s₁.fp := by
      rw [hfp₁]
      exact hshort.rest hfp
    obtain ⟨s₂, hloop₂, hfp₂, hs₂⟩ := ih hfp₁ hshort₁ hfits.2 ⟨_, cur₁, last₁, rfl, hs₁⟩
    refine ⟨s₂, hloop₁.trans hloop₂, hfp₂, ?_⟩
    rw [hcur₁, List.append_assoc] at hs₂
    exact hs₂

/-- The lines before a session, when the one before it has ended. -/
theorem lines_loop_gap (hroom : past.length < MAX_SESSION_TEMPLATES) (gap : List GapLine)
    {more : List Byte} (hfp : s.fp = gap.flatMap GapLine.text ++ more) (hshort : Short s.fp)
    (hs : Between think_time past s) :
    lines_loop think_time scan_lf s = lines_loop think_time scan_lf { s with fp := more } := by
  induction gap generalizing s with
  | nil =>
    obtain rfl : s.fp = more := hfp
    rfl
  | cons l gap ih =>
    rw [List.flatMap_cons, List.append_assoc] at hfp
    have hline : lines_loop think_time scan_lf s =
        lines_loop think_time scan_lf { s with fp := gap.flatMap GapLine.text ++ more } := by
      cases l with
      | comment text hlf => exact lines_loop_comment hlf hfp hshort
      | blank text hwhite => exact lines_loop_blank hwhite hfp hshort ((hs.fp _).end_session hroom)
    exact hline.trans (ih rfl (hshort.rest hfp) (hs.fp _))

/-- The lines between two sessions: the first blank one ends the session. -/
theorem AtEnd.lines_loop_next {session : List (List ReqData)} (hs : AtEnd think_time past session s)
    (hroom : past.length + 1 < MAX_SESSION_TEMPLATES) (gap : List GapLine)
    (hblank : ∃ l ∈ gap, l.isBlank = true) {more : List Byte}
    (hfp : s.fp = gap.flatMap GapLine.text ++ more) (hshort : Short s.fp) :
    ∃ s', lines_loop think_time scan_lf s = lines_loop think_time scan_lf s' ∧ s'.fp = more ∧
      Between think_time (past ++ [session]) s' := by
  obtain ⟨done, cur, last, rfl, hs⟩ := hs
  induction gap generalizing s with
  | nil =>
    obtain ⟨l, hl, -⟩ := hblank
    cases hl
  | cons l gap ih =>
    rw [List.flatMap_cons, List.append_assoc] at hfp
    cases l with
    | comment text hlf =>
      have hrest : ∃ l ∈ gap, l.isBlank = true := by simpa [GapLine.isBlank] using hblank
      obtain ⟨s', hloop, hfp', hs'⟩ := ih hrest rfl (hshort.rest hfp) (hs.fp _)
      refine ⟨s', ?_, hfp', hs'⟩
      rw [lines_loop_comment hlf hfp hshort]
      exact hloop
    | blank text hwhite =>
      obtain ⟨s₁, hend, hfp₁, hs₁⟩ :=
        (hs.fp (gap.flatMap GapLine.text ++ more)).end_session (by omega)
      have hshort₁ : Short s₁.fp := by
        rw [hfp₁]
        exact hshort.rest hfp
      refine ⟨{ s₁ with fp := more }, ?_, rfl, hs₁.fp more⟩
      rw [lines_loop_blank hwhite hfp hshort hend]
      exact lines_loop_gap (by simpa using hroom) gap hfp₁ hshort₁ hs₁

/-- A session, behind its gap. -/
theorem lines_loop_session (hroom : past.length < MAX_SESSION_TEMPLATES) (t : SessionText)
    {more : List Byte} (hfp : s.fp = t.bursts.flatMap BurstText.text ++ more) (hshort : Short s.fp)
    (hfits : ∀ b ∈ t.bursts, ∀ r ∈ b.first :: b.rest, r.Fits) (hs : Between think_time past s) :
    ∃ s', lines_loop think_time scan_lf s = lines_loop think_time scan_lf s' ∧ s'.fp = more ∧
      AtEnd think_time past t.data s' := by
  unfold SessionText.bursts at hfp hfits
  rw [List.flatMap_cons, List.append_assoc] at hfp
  rw [List.forall_mem_cons] at hfits
  obtain ⟨cur₁, last₁, s₁, hloop₁, hfp₁, hcur₁, hs₁⟩ :=
    lines_loop_burst hroom t.first hfp hshort hfits.1
    fun line fp _ => (hs.fp fp).add_request hroom line t.first.first.uri
  have hshort₁ : Short s₁.fp := by
    rw [hfp₁]
    exact hshort.rest hfp
  obtain ⟨s₂, hloop₂, hfp₂, hs₂⟩ := lines_loop_bursts hroom t.rest hfp₁ hshort₁ hfits.2
    ⟨[], cur₁, last₁, rfl, hs₁⟩
  refine ⟨s₂, hloop₁.trans hloop₂, hfp₂, ?_⟩
  rw [hcur₁] at hs₂
  exact hs₂

/-! ## The file -/

theorem lines_loop_eof (hfp : s.fp = []) : lines_loop think_time scan_lf s = .ok s := by
  rw [lines_loop]
  split
  · rfl
  · rename_i heq
    rw [hfp] at heq
    cases heq

/-- The sessions that follow one. -/
theorem lines_loop_sessions (ts : List SessionText) {session : List (List ReqData)}
    (hblank : ∀ t ∈ ts, ∃ l ∈ t.gap, l.isBlank = true)
    (hroom : past.length + 1 + ts.length ≤ MAX_SESSION_TEMPLATES)
    (hfp : s.fp = ts.flatMap SessionText.text) (hshort : Short s.fp)
    (hfits : ∀ t ∈ ts, ∀ b ∈ t.bursts, ∀ r ∈ b.first :: b.rest, r.Fits)
    (hs : AtEnd think_time past session s) :
    ∃ past' session' s', lines_loop think_time scan_lf s = .ok s' ∧
      past' ++ [session'] = past ++ [session] ++ ts.map SessionText.data ∧
      AtEnd think_time past' session' s' := by
  induction ts generalizing past session s with
  | nil => exact ⟨past, session, s, lines_loop_eof hfp, by simp, hs⟩
  | cons t ts ih =>
    rw [List.flatMap_cons, SessionText.text, List.append_assoc] at hfp
    rw [List.forall_mem_cons] at hblank hfits
    rw [List.length_cons] at hroom
    have hlen : (past ++ [session]).length = past.length + 1 := by simp
    obtain ⟨s₁, hloop₁, hfp₁, hs₁⟩ := hs.lines_loop_next (by omega) t.gap hblank.1 hfp hshort
    have hshort₁ : Short s₁.fp := by
      rw [hfp₁]
      exact hshort.rest hfp
    obtain ⟨s₂, hloop₂, hfp₂, hs₂⟩ := lines_loop_session (by omega) t hfp₁ hshort₁ hfits.1 hs₁
    have hshort₂ : Short s₂.fp := by
      rw [hfp₂]
      exact hshort₁.rest hfp₁
    obtain ⟨past', session', s₃, hloop₃, hall, hs₃⟩ :=
      ih hblank.2 (by omega) hfp₂ hshort₂ hfits.2 hs₂
    refine ⟨past', session', s₃, hloop₁.trans (hloop₂.trans hloop₃), ?_, hs₃⟩
    rw [hall, List.map_cons, List.append_assoc _ [t.data], List.singleton_append]

end

theorem lines_loop_file {τ : Type} {think_time : τ} {scan_lf : List Byte → Option τ} {s : Parser τ}
    (f : FileText) (hfp : s.fp = f.text) (hshort : Short s.fp) (hfits : ∀ r ∈ f.requests, r.Fits)
    (hs : Between think_time [] s) :
    ∃ past session s', lines_loop think_time scan_lf s = .ok s' ∧
      past ++ [session] = f.all.map SessionText.data ∧ AtEnd think_time past session s' := by
  have hroom := f.room
  have hfits : ∀ t ∈ f.first :: f.rest, ∀ b ∈ t.bursts, ∀ r ∈ b.first :: b.rest, r.Fits := by
    intro t ht b hb r hr
    exact hfits r (List.mem_flatMap.mpr ⟨t, ht, List.mem_flatMap.mpr ⟨b, hb, hr⟩⟩)
  rw [List.forall_mem_cons] at hfits
  rw [FileText.text, FileText.all, List.flatMap_cons, SessionText.text, List.append_assoc] at hfp
  have hshort' := hshort.rest hfp
  obtain ⟨s₁, hloop₁, hfp₁, hs₁⟩ :=
    lines_loop_session (by decide) f.first rfl hshort' hfits.1 (hs.fp _)
  have hshort₁ : Short s₁.fp := by
    rw [hfp₁]
    exact hshort'.suffix
  have hlen : ([] : List (List (List ReqData))).length + 1 + f.rest.length ≤
      MAX_SESSION_TEMPLATES := by
    rw [List.length_nil]
    omega
  obtain ⟨past, session, s₂, hloop₂, hall, hs₂⟩ :=
    lines_loop_sessions f.rest f.blank hlen hfp₁ hshort₁ hfits.2 hs₁
  refine ⟨past, session, s₂, ?_, hall, hs₂⟩
  rw [lines_loop_gap (by decide) f.first.gap hfp hshort hs, hloop₁]
  exact hloop₂

theorem SessionText.data_session (t : SessionText) :
    t.data = t.session.map fun b => b.map Request.data := by
  unfold SessionText.data SessionText.session
  rw [List.map_map]
  rfl

/-- A run of the parser over the text of a file. -/
theorem parse_config_file {τ : Type} (think_time : τ) (scan_lf : List Byte → Option τ)
    (f : FileText) (hshort : Short f.text) (hfits : ∀ r ∈ f.requests, r.Fits) :
    ∃ s, parse_config think_time scan_lf f.text = .ok s ∧ s.num_templates = f.sessions.length ∧
      ∀ i session, f.sessions[i]? = some session →
        s.Holds think_time i (session.map fun burst => burst.map Request.data) := by
  have hstart : Between think_time [] ⟨f.text, [], [], fun _ => ⟨0, none, none⟩, 0, 0, none⟩ :=
    ⟨rfl, rfl, fun _ _ => rfl, fun i session hi => by simp at hi⟩
  obtain ⟨past, session, s, hloop, hall, done, cur, last, rfl, hs⟩ :=
    lines_loop_file f rfl hshort hfits hstart
  have hdata : past ++ [done ++ [cur ++ [last]]] =
      f.sessions.map fun session => session.map fun burst => burst.map Request.data := by
    rw [hall, FileText.sessions, List.map_map]
    exact List.map_congr_left fun t _ => t.data_session
  refine ⟨s, hloop, ?_, fun i session hi => hs.holds i ?_⟩
  · have hlen := congrArg List.length hdata
    rw [List.length_append, List.length_singleton, List.length_map] at hlen
    rw [hs.num_templates, hlen]
  · rw [hdata, List.getElem?_map, hi]
    rfl

/-- Whatever sessions there are room for, a file can be written from which they are read back, as
long as its lines are short enough for the parser. -/
theorem sessions_read_back {τ : Type} (think_time : τ) (scan_lf : List Byte → Option τ)
    {sessions : List (List (List Request))} (hne : sessions ≠ [])
    (hroom : sessions.length ≤ MAX_SESSION_TEMPLATES)
    (hsessions : ∀ session ∈ sessions, session ≠ [] ∧ ∀ burst ∈ session, BurstWritable burst) :
    ∃ f : FileText, f.sessions = sessions ∧ (Short f.text → (∀ r ∈ f.requests, r.Fits) →
      ∃ s, parse_config think_time scan_lf f.text = .ok s ∧ s.num_templates = sessions.length ∧
        ∀ i session, sessions[i]? = some session →
          s.Holds think_time i (session.map fun burst => burst.map Request.data)) := by
  obtain ⟨f, rfl⟩ := exists_file hne hroom hsessions
  exact ⟨f, rfl, parse_config_file think_time scan_lf f⟩

/-- However the file is written, the templates hold its sessions. -/
theorem parse_config_reads_back {τ : Type} (think_time : τ) (scan_lf : List Byte → Option τ)
    (f : FileText) (hshort : Short f.text) (hfits : ∀ r ∈ f.requests, r.Fits) :
    ∃ s, parse_config think_time scan_lf f.text = .ok s ∧ s.num_templates = f.sessions.length ∧
      ∀ i session, f.sessions[i]? = some session →
        s.Holds think_time i (session.map fun burst => burst.map Request.data) :=
  parse_config_file think_time scan_lf f hshort hfits

/-- Two sessions. The first one posts two lines of contents, and its burst goes on behind a
comment. -/
def two_sessions : FileText where
  first := {
    gap := [.comment (bytes " sessions") (by decide +kernel)]
    first := {
      first := {
        comments := []
        noLF := by decide +kernel
        uri := bytes "/a"
        ne := by decide
        word := by decide +kernel
        args := [
          ⟨[32], by simp, by simp,
            .contents [.plain 34 (by decide), .newline true, .plain 32 (by decide)] (by simp)⟩,
          ⟨[9, 32], by simp, by simp, .method .HM_POST⟩] }
      noComment := by decide
      rest := [{
        comments := [bytes "next"]
        noLF := by decide +kernel
        uri := bytes "#b"
        ne := by decide
        word := by decide +kernel
        args := [] }] }
    rest := [] }
  rest := [{
    gap := [.blank [] (by simp)]
    first := {
      first := {
        comments := []
        noLF := by decide +kernel
        uri := bytes "/c"
        ne := by decide
        word := by decide +kernel
        args := [] }
      noComment := by decide
      rest := [] }
    rest := [] }]
  blank := by simp [GapLine.isBlank]
  room := by decide

theorem parse_config_reads_back_two_sessions :
    two_sessions.text =
        bytes "# sessions\n/a contents=\"\\\"\\\n \"\t method=POST\n#next\n\t#b\n\n/c\n" ∧
      ∃ s, parse_config 0 (fun _ => none) two_sessions.text = .ok s ∧ s.num_templates = 2 ∧
        s.Holds 0 0
          [[⟨.HM_POST, bytes "/a", 2, some [34, LF, 32], 3, bytes "Content-length: 3\r\n", 19⟩,
            ⟨.HM_GET, bytes "#b", 2, none, 0, [], 0⟩]] ∧
        s.Holds 0 1 [[⟨.HM_GET, bytes "/c", 2, none, 0, [], 0⟩]] := by
  refine ⟨by decide +kernel, ?_⟩
  have hshort : Short two_sessions.text := short_of_length (by decide +kernel)
  have hfits : ∀ r ∈ two_sessions.requests, r.Fits := by
    simp [FileText.requests, FileText.all, two_sessions, SessionText.bursts, RequestText.Fits,
      Arg.Fits, LINE_SIZE]
  obtain ⟨s, hparse, hnum, hholds⟩ :=
    parse_config_reads_back 0 (fun _ => none) two_sessions hshort hfits
  exact ⟨s, hparse, hnum, hholds 0 _ rfl, hholds 1 _ rfl⟩

end Httperf.WsessLog
