-- The session file (`parse_config` of `wsesslog.c`). The lines of the file are scanned word by
-- word, the contents of a request character by character, and the lists of requests and bursts grow
-- through the cursors `sptr`, `current_burst` and `current_req`.
import Httperf.Clib
import Httperf.Lib.Arena
import Httperf.WsessLog

namespace Httperf.WsessLog

open Arena

/-! ## Reading and scanning -/

/-- The size of `line`, of `uri`, `this_arg` and `contents`. -/
def LINE_SIZE : Nat := 500000

/-- At most `n` bytes, up to the end of the line. -/
def read_line : Nat → List Byte → List Byte × List Byte
  | _, [] => ([], [])
  | 0, fp => ([], fp)
  | n + 1, c :: fp =>
    if c = LF then ([c], fp)
    else
      let (line, rest) := read_line n fp
      (c :: line, rest)
termination_by structural _ fp => fp

/-- `fgets (line, sizeof (line), fp)`. -/
def fgets (fp : List Byte) : Option (List Byte × List Byte) :=
  if fp = [] then none else some (read_line (LINE_SIZE - 1) fp)

/-- `%s` in `sscanf`: the next word, and what is left behind it (`%n`). -/
def scan_s (s : List Byte) : Option (List Byte × List Byte) :=
  let s := s.dropWhile isspace
  let word := s.takeWhile fun c => !isspace c
  if word = [] then none else some (word, s.dropWhile fun c => !isspace c)

/-- `sscanf (this_arg, "method=%s", method_str)`, and the like. -/
def scan_arg (name this_arg : List Byte) : Option (List Byte) :=
  (scan_lit name this_arg).bind fun s => (scan_s s).map Prod.fst

/-! ## What is built -/

/-- `REQ`. `contents` may be `NULL`. -/
structure ReqData where
  method : Method
  uri : List Byte
  uri_len : Nat
  contents : Option (List Byte)
  contents_len : Nat
  extra_hdrs : List Byte
  extra_hdrs_len : Nat
  deriving DecidableEq, Repr

/-- `BURST`. -/
structure BurstData (τ : Type) where
  num_reqs : Nat
  user_think_time : τ
  req_list : Nat
  deriving DecidableEq, Repr

/-- The entry of `session_templates`, with the fields that `parse_config` sets. -/
structure SessionTemplate where
  total_num_reqs : Nat
  current_burst : Option Nat
  current_req : Option Nat
  deriving DecidableEq, Repr

/-- The state of `parse_config`: what is left of the file, the memory, and the cursors. -/
structure Parser (τ : Type) where
  fp : List Byte
  reqs : List (Cell ReqData)
  bursts : List (Cell (BurstData τ))
  session_templates : Nat → SessionTemplate
  num_templates : Nat
  sptr : Nat
  current_burst : Option Nat

def MAX_SESSION_TEMPLATES : Nat := 1000

/-- Each `panic`, and what the source does not guard against. -/
inductive ConfigError where
  | too_many_sessions (n : Nat)
  | did_not_recognize_method (method_str : List Byte)
  | did_not_recognize_arg (this_arg : List Byte)
  | premature_eof
  | method_str_overrun
  | contents_overrun
  | behind_session_templates
  | null_pointer
  deriving DecidableEq, Repr

def new_request (uristr : List Byte) : ReqData where
  method := .HM_GET
  uri := uristr
  uri_len := uristr.length
  contents := none
  contents_len := 0
  extra_hdrs := []
  extra_hdrs_len := 0

section
variable {τ : Type} (think_time : τ)

def new_burst (r : Nat) : BurstData τ := ⟨0, think_time, r⟩

/-- The new request becomes the first one of a session or of a burst, or the next one of the
burst. -/
def Parser.link_request (line uri : List Byte) (s : Parser τ) : Except ConfigError (Parser τ) :=
  let reqptr := s.reqs.length
  let bptr := s.bursts.length
  let reqs := s.reqs ++ [⟨none, new_request uri⟩]
  let bursts := s.bursts ++ [⟨none, new_burst think_time reqptr⟩]
  let t := s.session_templates s.sptr
  match t.current_req with
  | none =>
    if MAX_SESSION_TEMPLATES < s.num_templates + 1 then
      .error (.too_many_sessions (s.num_templates + 1))
    else
      .ok { s with
        reqs
        bursts
        session_templates :=
          Function.update s.session_templates s.sptr { t with current_burst := some bptr }
        num_templates := s.num_templates + 1
        current_burst := some bptr }
  | some current_req =>
    if !isspace (line.headD 0) then
      -- this uri starts a new burst
      match s.current_burst with
      | none => .error .null_pointer
      | some b =>
        .ok { s with reqs, bursts := bursts.modify b (Cell.link bptr), current_burst := some bptr }
    else .ok { s with reqs := reqs.modify current_req (Cell.link reqptr) }

/-- The common steps for all new requests. -/
def Parser.count_request (reqptr : Nat) (s : Parser τ) : Except ConfigError (Parser τ) :=
  match s.current_burst with
  | none => .error .null_pointer
  | some b =>
    let t := s.session_templates s.sptr
    .ok { s with
      bursts :=
        s.bursts.modify b fun c =>
          { c with data := { c.data with num_reqs := c.data.num_reqs + 1 } }
      session_templates := Function.update s.session_templates s.sptr
        { t with total_num_reqs := t.total_num_reqs + 1, current_req := some reqptr } }

def Parser.add_request (line uri : List Byte) (s : Parser τ) : Except ConfigError (Parser τ) :=
  if MAX_SESSION_TEMPLATES ≤ s.sptr then .error .behind_session_templates
  else
    match s.link_request think_time line uri with
    | .error e => .error e
    | .ok s' => s'.count_request s.reqs.length

/-- Of `sptr->current_req`. -/
def Parser.set_req (f : ReqData → ReqData) (s : Parser τ) : Parser τ :=
  match (s.session_templates s.sptr).current_req with
  | none => s
  | some p => { s with reqs := s.reqs.modify p fun c => { c with data := f c.data } }

/-- `current_burst->user_think_time = think_time`. -/
def Parser.set_think_time (think_time : τ) (s : Parser τ) : Parser τ :=
  match s.current_burst with
  | none => s
  | some b =>
    { s with bursts := s.bursts.modify b fun c => { c with data.user_think_time := think_time } }

/-- A blank line. -/
def Parser.end_session (s : Parser τ) : Except ConfigError (Parser τ) :=
  if MAX_SESSION_TEMPLATES ≤ s.sptr then .error .behind_session_templates
  else if (s.session_templates s.sptr).current_req ≠ none then .ok { s with sptr := s.sptr + 1 }
  else .ok s

end

/-! ## The arguments of a request -/

/-- The table in its order. -/
def methods : List Method :=
  [.HM_DELETE, .HM_GET, .HM_HEAD, .HM_OPTIONS, .HM_POST, .HM_PUT, .HM_PROPFIND, .HM_REPORT,
    .HM_TRACE]

/-- The first name that `method_str` starts with. -/
def find_method (method_str : List Byte) : Option Method :=
  methods.find? fun m => (call_method_name m).isPrefixOf method_str

/-- `snprintf` into `extra_hdrs[50]`. -/
def content_length_header (contents_len : Nat) : List Byte :=
  (bytes "Content-length: " ++ bytes (toString contents_len) ++ bytes "\r\n").take 49

def set_contents (contents : List Byte) (r : ReqData) : ReqData :=
  if contents.length ≠ 0 then
    { r with
      contents_len := contents.length
      contents := some contents
      extra_hdrs := content_length_header contents.length
      extra_hdrs_len := (content_length_header contents.length).length }
  else { r with contents_len := 0 }

/-- The flags of the scan. -/
structure Quotes where
  single_quoted : Bool
  double_quoted : Bool
  escaped : Bool
  deriving DecidableEq, Repr

/-- What a character does: it adds to `contents`, it continues them in the next line of the file, or
it ends them. -/
inductive Scanned where
  | add (q : Quotes) (added : List Byte)
  | next_line (q : Quotes)
  | done
  deriving DecidableEq, Repr

/-- The body of the loop. -/
def scan_contents (q : Quotes) (ch : Byte) : Scanned :=
  if q.escaped then
    let q := { q with escaped := false }
    if ch = 110 then .add q [LF]
    else if ch = 114 then .add q [CR]
    else if ch = 116 then .add q [9]
    else if ch = LF then .next_line q
    else .add q [ch]
  else if ch = 34 && q.double_quoted then .add { q with double_quoted := false } []
  else if ch = 39 && q.single_quoted then .add { q with single_quoted := false } []
  else if ch = 9 || ch = LF || ch = 32 then
    if !q.single_quoted && !q.double_quoted then .done else .add q [ch]
  else if ch = 92 then .add { q with escaped := true } []
  else if ch = 34 then
    if q.single_quoted then .add q [ch] else .add { q with double_quoted := true } []
  else if ch = 39 then
    if q.double_quoted then .add q [ch] else .add { q with single_quoted := true } []
  else .add q [ch]

/-- How far the contents have been read: what is left of the file and of the line (`from`), and the
bytes before `to`. -/
structure Contents where
  fp : List Byte
  rest : List Byte
  contents : List Byte
  deriving DecidableEq, Repr

theorem read_line_append (n : Nat) (fp : List Byte) :
    (read_line n fp).1 ++ (read_line n fp).2 = fp := by
  induction fp generalizing n with
  | nil => rfl
  | cons c fp ih =>
    cases n with
    | zero => rfl
    | succ n =>
      unfold read_line
      split
      · rfl
      · simpa using ih n

theorem read_line_ne {n : Nat} {fp : List Byte} (hn : n ≠ 0) (hne : fp ≠ []) :
    (read_line n fp).1 ≠ [] := by
  cases fp with
  | nil => exact absurd rfl hne
  | cons c fp =>
    cases n with
    | zero => exact absurd rfl hn
    | succ n =>
      unfold read_line
      split <;> exact List.cons_ne_nil _ _

theorem fgets_append {fp line rest : List Byte} (h : fgets fp = some (line, rest)) :
    line ++ rest = fp ∧ line ≠ [] := by
  unfold fgets at h
  split_ifs at h with hne
  have happ := read_line_append (LINE_SIZE - 1) fp
  have hfirst := read_line_ne (n := LINE_SIZE - 1) (by decide) hne
  rw [Option.some.inj h] at happ hfirst
  exact ⟨happ, hfirst⟩

theorem fgets_length {fp line rest : List Byte} (h : fgets fp = some (line, rest)) :
    rest.length < fp.length := by
  obtain ⟨rfl, hne⟩ := fgets_append h
  rw [List.length_append]
  have := List.length_pos_iff.mpr hne
  omega

/-- `*to++ = ch`, for what a character adds. Nothing in the source guards the end of `contents`. -/
def store (contents added : List Byte) : Option (List Byte) :=
  if contents.length + added.length ≤ LINE_SIZE then some (contents ++ added) else none

/-- The loop over the characters behind `contents=`. At a blank that ends the contents, `from` stops
behind it: the loop condition moves it once more before it looks at `done`. -/
def contents_loop (q : Quotes) (c : Contents) : Except ConfigError Contents :=
  match _hrest : c.rest with
  | [] => .ok c
  | ch :: rest =>
    match scan_contents q ch with
    | .done => .ok { c with rest }
    | .add q added =>
      match store c.contents added with
      | none => .error .contents_overrun
      | some contents => contents_loop q { c with rest, contents }
    | .next_line q =>
      match store c.contents [LF] with
      | none => .error .contents_overrun
      | some contents =>
        match _hline : fgets c.fp with
        | none => .error .premature_eof
        | some (line, fp) => contents_loop q ⟨fp, cstr line, contents⟩
termination_by (c.fp.length, c.rest.length)
decreasing_by
  · rw [_hrest]
    exact Prod.Lex.right _ (by simp)
  · exact Prod.Lex.left _ _ (fgets_length _hline)

section
variable {q q' : Quotes} {fp rest out : List Byte} {ch : Byte}

theorem store_eq {added : List Byte} (h : out.length + added.length ≤ LINE_SIZE) :
    store out added = some (out ++ added) := if_pos h

theorem store_some {added contents : List Byte} (h : store out added = some contents) :
    out.length + added.length ≤ LINE_SIZE ∧ contents = out ++ added := by
  unfold store at h
  split_ifs at h with hroom
  exact ⟨hroom, (Option.some.inj h).symm⟩

theorem store_none {added : List Byte} (h : store out added = none) :
    ¬ out.length + added.length ≤ LINE_SIZE := by
  intro hroom
  rw [store_eq hroom] at h
  cases h

theorem contents_loop_nil : contents_loop q ⟨fp, [], out⟩ = .ok ⟨fp, [], out⟩ := by
  rw [contents_loop]

theorem contents_loop_done (h : scan_contents q ch = .done) :
    contents_loop q ⟨fp, ch :: rest, out⟩ = .ok ⟨fp, rest, out⟩ := by
  rw [contents_loop]
  simp only [h]

theorem contents_loop_add {added : List Byte} (h : scan_contents q ch = .add q' added)
    (hroom : out.length + added.length ≤ LINE_SIZE) :
    contents_loop q ⟨fp, ch :: rest, out⟩ = contents_loop q' ⟨fp, rest, out ++ added⟩ := by
  rw [contents_loop]
  simp only [h, store_eq hroom]

theorem contents_loop_full {added : List Byte} (h : scan_contents q ch = .add q' added)
    (hfull : ¬ out.length + added.length ≤ LINE_SIZE) :
    contents_loop q ⟨fp, ch :: rest, out⟩ = .error .contents_overrun := by
  have hstore : store out added = none := if_neg hfull
  rw [contents_loop]
  simp only [h, hstore]

theorem contents_loop_eof (h : scan_contents q ch = .next_line q')
    (hroom : out.length + 1 ≤ LINE_SIZE) (hline : fgets fp = none) :
    contents_loop q ⟨fp, ch :: rest, out⟩ = .error .premature_eof := by
  have hstore : store out [LF] = some (out ++ [LF]) := store_eq hroom
  rw [contents_loop]
  simp only [h, hstore]
  split
  · rfl
  · rename_i heq
    rw [hline] at heq
    cases heq

theorem contents_loop_next {line fp' : List Byte} (h : scan_contents q ch = .next_line q')
    (hroom : out.length + 1 ≤ LINE_SIZE) (hline : fgets fp = some (line, fp')) :
    contents_loop q ⟨fp, ch :: rest, out⟩ = contents_loop q' ⟨fp', cstr line, out ++ [LF]⟩ := by
  have hstore : store out [LF] = some (out ++ [LF]) := store_eq hroom
  rw [contents_loop]
  simp only [h, hstore]
  split
  · rename_i heq
    rw [hline] at heq
    cases heq
  · rename_i heq
    obtain ⟨rfl, rfl⟩ := Prod.mk.inj (Option.some.inj (hline.symm.trans heq))
    rfl

theorem contents_loop_next_full (h : scan_contents q ch = .next_line q')
    (hfull : ¬ out.length + 1 ≤ LINE_SIZE) :
    contents_loop q ⟨fp, ch :: rest, out⟩ = .error .contents_overrun := by
  have hstore : store out [LF] = none := if_neg hfull
  rw [contents_loop]
  simp only [h, hstore]

end

/-- What is left of the file and of the line gets shorter. -/
theorem contents_loop_shrinks (q : Quotes) (c : Contents) {c' : Contents}
    (h : contents_loop q c = .ok c') :
    c'.fp.length < c.fp.length ∨ (c'.fp = c.fp ∧ c'.rest.length ≤ c.rest.length) := by
  induction q, c using contents_loop.induct with
  | case1 q c hrest =>
    obtain ⟨fp, rest, out⟩ := c
    obtain rfl : rest = [] := hrest
    rw [contents_loop_nil] at h
    obtain rfl := Except.ok.inj h
    exact .inr ⟨rfl, Nat.le_refl _⟩
  | case2 q c ch rest hrest hdone =>
    obtain ⟨fp, rest', out⟩ := c
    obtain rfl : rest' = ch :: rest := hrest
    rw [contents_loop_done hdone] at h
    obtain rfl := Except.ok.inj h
    exact .inr ⟨rfl, by simp⟩
  | case3 q c ch rest hrest q' added hadd hstore =>
    obtain ⟨fp, rest', out⟩ := c
    obtain rfl : rest' = ch :: rest := hrest
    rw [contents_loop_full hadd (store_none hstore)] at h
    cases h
  | case4 q c ch rest hrest q' added hadd contents hstore ih =>
    obtain ⟨fp, rest', out⟩ := c
    obtain rfl : rest' = ch :: rest := hrest
    obtain ⟨hroom, rfl⟩ := store_some hstore
    rw [contents_loop_add hadd hroom] at h
    refine (ih h).imp id fun ⟨hfp, hlen⟩ => ⟨hfp, ?_⟩
    simp only [List.length_cons] at hlen ⊢
    omega
  | case5 q c ch rest hrest q' hnext hstore =>
    obtain ⟨fp, rest', out⟩ := c
    obtain rfl : rest' = ch :: rest := hrest
    rw [contents_loop_next_full hnext (store_none hstore)] at h
    cases h
  | case6 q c ch rest hrest q' hnext contents hstore hline =>
    obtain ⟨fp, rest', out⟩ := c
    obtain rfl : rest' = ch :: rest := hrest
    rw [contents_loop_eof hnext (store_some hstore).1 hline] at h
    cases h
  | case7 q c ch rest hrest q' hnext contents hstore line fp' hline ih =>
    obtain ⟨fp, rest', out⟩ := c
    obtain rfl : rest' = ch :: rest := hrest
    obtain ⟨hroom, rfl⟩ := store_some hstore
    rw [contents_loop_next hnext hroom hline] at h
    have hlen := fgets_length hline
    rcases ih h with hless | ⟨heq, -⟩
    · exact .inl (Nat.lt_trans hless hlen)
    · left
      rw [heq]
      exact hlen

theorem scan_s_length {s word rest : List Byte} (h : scan_s s = some (word, rest)) :
    rest.length < s.length := by
  unfold scan_s at h
  dsimp only at h
  split_ifs at h with hne
  obtain ⟨rfl, rfl⟩ := Prod.mk.inj (Option.some.inj h)
  have hsplit := congrArg List.length
    (List.takeWhile_append_dropWhile (p := fun c => !isspace c) (l := s.dropWhile isspace))
  have hle := (List.dropWhile_suffix isspace (l := s)).length_le
  have hpos := List.length_pos_iff.mpr hne
  rw [List.length_append] at hsplit
  omega

/-- `strchr (s, '=') + 1`. -/
def behind_eq (s : List Byte) : List Byte := (s.dropWhile (· ≠ 61)).tail

theorem behind_eq_length {s : List Byte} (h : s ≠ []) : (behind_eq s).length < s.length := by
  have hle := (List.dropWhile_suffix (fun c : Byte => decide (c ≠ 61)) (l := s)).length_le
  have hpos := List.length_pos_iff.mpr h
  unfold behind_eq
  rw [List.length_tail]
  omega

@[simp] theorem Parser.set_req_fp {τ : Type} (f : ReqData → ReqData) (s : Parser τ) :
    (s.set_req f).fp = s.fp := by
  unfold Parser.set_req
  split <;> rfl

@[simp] theorem Parser.set_think_time_fp {τ : Type} (think_time : τ) (s : Parser τ) :
    (s.set_think_time think_time).fp = s.fp := by
  unfold Parser.set_think_time
  split <;> rfl

section
variable {τ : Type} (think_time : τ) (scan_lf : List Byte → Option τ)

/-- One argument, and where the next one is looked for. `rest` is what follows `this_arg`, and
`scan_lf` is the conversion `%lf`. -/
def parse_arg (s : Parser τ) (parsed_so_far this_arg rest : List Byte) :
    Except ConfigError (Parser τ × List Byte) :=
  match scan_arg (bytes "method=") this_arg with
  | some method_str =>
    if 1000 ≤ method_str.length then .error .method_str_overrun
    else
      match find_method method_str with
      | none => .error (.did_not_recognize_method method_str)
      | some method => .ok (s.set_req fun r => { r with method }, rest)
  | none =>
    match (scan_lit (bytes "think=") this_arg).bind scan_lf with
    | some think_time => .ok (s.set_think_time think_time, rest)
    | none =>
      match scan_arg (bytes "contents=") this_arg with
      | none => .error (.did_not_recognize_arg this_arg)
      | some _ =>
        match contents_loop ⟨false, false, false⟩ ⟨s.fp, behind_eq parsed_so_far, []⟩ with
        | .error e => .error e
        | .ok c =>
          if LINE_SIZE ≤ c.contents.length then .error .contents_overrun
          else .ok ({ s with fp := c.fp }.set_req (set_contents c.contents), c.rest)

theorem parse_arg_shrinks {s s' : Parser τ} {parsed_so_far this_arg rest next : List Byte}
    (hword : scan_s parsed_so_far = some (this_arg, rest))
    (h : parse_arg scan_lf s parsed_so_far this_arg rest = .ok (s', next)) :
    s'.fp.length < s.fp.length ∨ (s'.fp = s.fp ∧ next.length < parsed_so_far.length) := by
  have hlen := scan_s_length hword
  unfold parse_arg at h
  split at h
  · split_ifs at h
    split at h
    · cases h
    · obtain ⟨rfl, rfl⟩ := Prod.mk.inj (Except.ok.inj h)
      exact .inr ⟨by simp, hlen⟩
  · split at h
    · obtain ⟨rfl, rfl⟩ := Prod.mk.inj (Except.ok.inj h)
      exact .inr ⟨by simp, hlen⟩
    · split at h
      · cases h
      · split at h
        · cases h
        · rename_i c hcontents
          split_ifs at h
          obtain ⟨rfl, rfl⟩ := Prod.mk.inj (Except.ok.inj h)
          have hbehind : (behind_eq parsed_so_far).length < parsed_so_far.length := by
            apply behind_eq_length
            rintro rfl
            simp at hlen
          have hshrinks := contents_loop_shrinks _ _ hcontents
          rw [Parser.set_req_fp]
          exact hshrinks.imp id fun ⟨hfp, hrest⟩ => ⟨hfp, Nat.lt_of_le_of_lt hrest hbehind⟩

/-- The arguments behind the uri. -/
def args_loop (s : Parser τ) (parsed_so_far : List Byte) : Except ConfigError (Parser τ) :=
  match _hword : scan_s parsed_so_far with
  | none => .ok s
  | some (this_arg, rest) =>
    match _harg : parse_arg scan_lf s parsed_so_far this_arg rest with
    | .error e => .error e
    | .ok (s', next) => args_loop s' next
termination_by (s.fp.length, parsed_so_far.length)
decreasing_by
  rcases parse_arg_shrinks scan_lf _hword _harg with hless | ⟨heq, hless⟩
  · exact Prod.Lex.left _ _ hless
  · rw [heq]
    exact Prod.Lex.right _ hless

theorem args_loop_end {s : Parser τ} {parsed_so_far : List Byte}
    (hword : scan_s parsed_so_far = none) :
    args_loop scan_lf s parsed_so_far = .ok s := by
  rw [args_loop]
  split
  · rfl
  · rename_i heq
    rw [hword] at heq
    cases heq

theorem args_loop_arg {s : Parser τ} {parsed_so_far this_arg rest : List Byte}
    (hword : scan_s parsed_so_far = some (this_arg, rest)) :
    args_loop scan_lf s parsed_so_far =
      match parse_arg scan_lf s parsed_so_far this_arg rest with
      | .error e => .error e
      | .ok (s', next) => args_loop scan_lf s' next := by
  conv_lhs => rw [args_loop]
  split
  · rename_i heq
    rw [hword] at heq
    cases heq
  · rename_i heq
    obtain ⟨rfl, rfl⟩ := Prod.mk.inj (Option.some.inj (hword.symm.trans heq))
    split <;> simp_all

theorem args_loop_shrinks (s : Parser τ) (parsed_so_far : List Byte) {s' : Parser τ}
    (h : args_loop scan_lf s parsed_so_far = .ok s') : s'.fp.length ≤ s.fp.length := by
  induction s, parsed_so_far using args_loop.induct scan_lf with
  | case1 s parsed_so_far hword =>
    rw [args_loop_end scan_lf hword] at h
    obtain rfl := Except.ok.inj h
    exact Nat.le_refl _
  | case2 s parsed_so_far this_arg rest hword e harg =>
    rw [args_loop_arg scan_lf hword, harg] at h
    cases h
  | case3 s parsed_so_far this_arg rest hword s1 next harg ih =>
    rw [args_loop_arg scan_lf hword, harg] at h
    refine Nat.le_trans (ih h) ?_
    rcases parse_arg_shrinks scan_lf hword harg with hless | ⟨heq, -⟩
    · exact Nat.le_of_lt hless
    · rw [heq]

/-! ## The lines of the file -/

/-- One turn of the loop over the lines. -/
def parse_line (line : List Byte) (s : Parser τ) : Except ConfigError (Parser τ) :=
  if line.headD 0 = 35 then .ok s
  else
    match scan_s line with
    | none => s.end_session
    | some (uri, rest) =>
      match s.add_request think_time line uri with
      | .error e => .error e
      | .ok s' => args_loop scan_lf s' rest

theorem link_request_fp {line uri : List Byte} {s s' : Parser τ}
    (h : s.link_request think_time line uri = .ok s') : s'.fp = s.fp := by
  unfold Parser.link_request at h
  dsimp only at h
  split at h
  · split_ifs at h
    obtain rfl := Except.ok.inj h
    rfl
  · split_ifs at h
    · split at h
      · cases h
      · obtain rfl := Except.ok.inj h
        rfl
    · obtain rfl := Except.ok.inj h
      rfl

theorem count_request_fp {reqptr : Nat} {s s' : Parser τ} (h : s.count_request reqptr = .ok s') :
    s'.fp = s.fp := by
  unfold Parser.count_request at h
  split at h
  · cases h
  · obtain rfl := Except.ok.inj h
    rfl

theorem add_request_fp {line uri : List Byte} {s s' : Parser τ}
    (h : s.add_request think_time line uri = .ok s') : s'.fp = s.fp := by
  unfold Parser.add_request at h
  split_ifs at h
  split at h
  · cases h
  · rename_i hlink
    exact (count_request_fp h).trans (link_request_fp think_time hlink)

theorem parse_line_shrinks {line : List Byte} {s s' : Parser τ}
    (h : parse_line think_time scan_lf line s = .ok s') : s'.fp.length ≤ s.fp.length := by
  unfold parse_line at h
  split_ifs at h
  · obtain rfl := Except.ok.inj h
    exact Nat.le_refl _
  · split at h
    · unfold Parser.end_session at h
      split_ifs at h <;> obtain rfl := Except.ok.inj h <;> exact Nat.le_refl _
    · split at h
      · cases h
      · rename_i hadd
        rw [← add_request_fp think_time hadd]
        exact args_loop_shrinks scan_lf _ _ h

/-- The loop over the lines. -/
def lines_loop (s : Parser τ) : Except ConfigError (Parser τ) :=
  match _hline : fgets s.fp with
  | none => .ok s
  | some (line, fp) =>
    match _hparse : parse_line think_time scan_lf (cstr line) { s with fp } with
    | .error e => .error e
    | .ok s' => lines_loop s'
termination_by s.fp.length
decreasing_by
  exact Nat.lt_of_le_of_lt (parse_line_shrinks think_time scan_lf _hparse) (fgets_length _hline)

theorem lines_loop_end {s : Parser τ} (hline : fgets s.fp = none) :
    lines_loop think_time scan_lf s = .ok s := by
  rw [lines_loop]
  split
  · rfl
  · rename_i heq
    rw [hline] at heq
    cases heq

theorem lines_loop_turn {s : Parser τ} {line fp : List Byte}
    (hline : fgets s.fp = some (line, fp)) :
    lines_loop think_time scan_lf s =
      match parse_line think_time scan_lf (cstr line) { s with fp } with
      | .error e => .error e
      | .ok s' => lines_loop think_time scan_lf s' := by
  conv_lhs => rw [lines_loop]
  split
  · rename_i heq
    rw [hline] at heq
    cases heq
  · rename_i heq
    obtain ⟨rfl, rfl⟩ := Prod.mk.inj (Option.some.inj (hline.symm.trans heq))
    split <;> simp_all

/-- `parse_config`, for a file that can be opened. The templates are zero at first. -/
def parse_config (file : List Byte) : Except ConfigError (Parser τ) :=
  lines_loop think_time scan_lf
    { fp := file
      reqs := []
      bursts := []
      session_templates := fun _ => ⟨0, none, none⟩
      num_templates := 0
      sptr := 0
      current_burst := none }

end

end Httperf.WsessLog
