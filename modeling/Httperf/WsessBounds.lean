-- The tables of `parse_config`: which lines the file has, read without any table, and when
-- `session_templates` and `contents` are large enough for them.
import Httperf.WsessFile

namespace Httperf.WsessLog

/-! ## What the contents spell -/

/-- The bytes of the contents, and what is left of the file and of the line behind them. `none` is a
file that ends in them. -/
structure Spelled where
  out : List Byte
  next : Option (List Byte × List Byte)

def Spelled.behind (added : List Byte) (s : Spelled) : Spelled := { s with out := added ++ s.out }

def spelled (q : Quotes) (fp line : List Byte) : Spelled :=
  match line with
  | [] => ⟨[], some (fp, [])⟩
  | ch :: line =>
    match scan_contents q ch with
    | .done => ⟨[], some (fp, line)⟩
    | .add q added => (spelled q fp line).behind added
    | .next_line q =>
      match _hline : fgets fp with
      | none => ⟨[LF], none⟩
      | some (line, fp) => (spelled q fp (cstr line)).behind [LF]
termination_by (fp.length, line.length)
decreasing_by
  · exact Prod.Lex.right _ (by simp)
  · exact Prod.Lex.left _ _ (fgets_length _hline)

section
variable {q q' : Quotes} {fp line : List Byte} {ch : Byte}

theorem spelled_nil : spelled q fp [] = ⟨[], some (fp, [])⟩ := by rw [spelled]

theorem spelled_done (h : scan_contents q ch = .done) :
    spelled q fp (ch :: line) = ⟨[], some (fp, line)⟩ := by
  rw [spelled, h]

theorem spelled_add {added : List Byte} (h : scan_contents q ch = .add q' added) :
    spelled q fp (ch :: line) = (spelled q' fp line).behind added := by
  rw [spelled, h]

theorem spelled_eof (h : scan_contents q ch = .next_line q') (hline : fgets fp = none) :
    spelled q fp (ch :: line) = ⟨[LF], none⟩ := by
  rw [spelled, h]
  dsimp only
  split
  · rfl
  · next heq =>
    rw [hline] at heq
    cases heq

theorem spelled_next {line' fp' : List Byte} (h : scan_contents q ch = .next_line q')
    (hline : fgets fp = some (line', fp')) :
    spelled q fp (ch :: line) = (spelled q' fp' (cstr line')).behind [LF] := by
  rw [spelled, h]
  dsimp only
  split
  · next heq =>
    rw [hline] at heq
    cases heq
  · next heq =>
    obtain ⟨rfl, rfl⟩ := Prod.mk.inj (Option.some.inj (hline.symm.trans heq))
    rfl

end

theorem spelled_shrinks (q : Quotes) (fp line : List Byte) {fp' line' : List Byte}
    (h : (spelled q fp line).next = some (fp', line')) :
    fp'.length < fp.length ∨ (fp' = fp ∧ line'.length ≤ line.length) := by
  induction q, fp, line using spelled.induct with
  | case1 q fp =>
    rw [spelled_nil] at h
    obtain ⟨rfl, rfl⟩ := Prod.mk.inj (Option.some.inj h)
    exact .inr ⟨rfl, Nat.le_refl _⟩
  | case2 q fp ch line hscan =>
    rw [spelled_done hscan] at h
    obtain ⟨rfl, rfl⟩ := Prod.mk.inj (Option.some.inj h)
    exact .inr ⟨rfl, Nat.le_succ _⟩
  | case3 q fp ch line q' added hscan ih =>
    rw [spelled_add hscan] at h
    exact (ih h).imp id fun ⟨hfp, hlen⟩ => ⟨hfp, Nat.le_succ_of_le hlen⟩
  | case4 q fp ch line q' hscan hline =>
    rw [spelled_eof hscan hline] at h
    cases h
  | case5 q fp ch line q' hscan line₁ fp₁ hline ih =>
    rw [spelled_next hscan hline] at h
    have hlen := fgets_length hline
    rcases ih h with hless | ⟨hfp, -⟩
    · exact .inl (Nat.lt_trans hless hlen)
    · exact .inl (hfp ▸ hlen)

/-! ## What the file has -/

/-- What an argument is to its request. -/
inductive ArgKind where
  | plain
  | contents
  | stops
  deriving DecidableEq

section
variable {τ : Type} (scan_lf : List Byte → Option τ)

/-- An argument that `parse_config` does not take ends the reading, and so does a method too long
for `method_str`. -/
def arg_kind (this_arg : List Byte) : ArgKind :=
  match scan_arg (bytes "method=") this_arg with
  | some method_str =>
    if 1000 ≤ method_str.length ∨ find_method method_str = none then .stops else .plain
  | none =>
    if ((scan_lit (bytes "think=") this_arg).bind scan_lf).isSome then .plain
    else if (scan_arg (bytes "contents=") this_arg).isSome then .contents
    else .stops

/-- What `parse_config` has a table for: the lines that end a session, the requests, and their
contents. `cut_short` are contents in which the file ends. -/
inductive Piece where
  | blank
  | request
  | contents (out : List Byte)
  | cut_short (out : List Byte)
  deriving DecidableEq

/-- Where the reader stands: in front of a line, or behind the uri of a request. -/
inductive Place where
  | line
  | args (parsed_so_far : List Byte)

def Place.size : Place → Nat
  | .line => 0
  | .args parsed_so_far => parsed_so_far.length + 1

/-- The pieces of the file from here on. -/
def pieces (p : Place) (fp : List Byte) : List Piece :=
  match p with
  | .line =>
    match _hline : fgets fp with
    | none => []
    | some (line, fp) =>
      if (cstr line).headD 0 = 35 then pieces .line fp
      else
        match scan_s (cstr line) with
        | none => .blank :: pieces .line fp
        | some (_, rest) => .request :: pieces (.args rest) fp
  | .args parsed_so_far =>
    match _hword : scan_s parsed_so_far with
    | none => pieces .line fp
    | some (this_arg, rest) =>
      match arg_kind scan_lf this_arg with
      | .stops => []
      | .plain => pieces (.args rest) fp
      | .contents =>
        match _hnext : (spelled ⟨false, false, false⟩ fp (behind_eq parsed_so_far)).next with
        | none => [.cut_short (spelled ⟨false, false, false⟩ fp (behind_eq parsed_so_far)).out]
        | some (fp', line) =>
          .contents (spelled ⟨false, false, false⟩ fp (behind_eq parsed_so_far)).out ::
            pieces (.args line) fp'
termination_by (fp.length, p.size)
decreasing_by
  · exact Prod.Lex.left _ _ (fgets_length _hline)
  · exact Prod.Lex.left _ _ (fgets_length _hline)
  · exact Prod.Lex.left _ _ (fgets_length _hline)
  · exact Prod.Lex.right _ (Nat.succ_pos _)
  · exact Prod.Lex.right _ (Nat.succ_lt_succ (scan_s_length _hword))
  · have hlen := behind_eq_length (s := parsed_so_far) (by
      rintro rfl
      have := scan_s_length _hword
      exact absurd this (Nat.not_lt_zero _))
    rcases spelled_shrinks _ _ _ _hnext with hless | ⟨rfl, hle⟩
    · exact Prod.Lex.left _ _ hless
    · exact Prod.Lex.right _ (Nat.succ_lt_succ (Nat.lt_of_le_of_lt hle hlen))

end

/-- The pieces fit in the tables, when `ended` sessions have been ended by a blank line and `begun`
says whether there are requests of the next one. Behind 1000 sessions no line may come that is blank
or a request. -/
def Fits (ended : Nat) (begun : Bool) : List Piece → Prop
  | [] => True
  | .blank :: ps =>
    ended < MAX_SESSION_TEMPLATES ∧ Fits (if begun then ended + 1 else ended) false ps
  | .request :: ps => ended < MAX_SESSION_TEMPLATES ∧ Fits ended true ps
  | .contents out :: ps => out.length < LINE_SIZE ∧ Fits ended begun ps
  | .cut_short out :: ps => out.length ≤ LINE_SIZE ∧ Fits ended begun ps

/-- No access has left a table, and the templates that the dump at the end goes through are in
theirs. -/
structure Inside {τ : Type} (r : Except ConfigError (Parser τ)) : Prop where
  templates : r ≠ .error .behind_session_templates
  contents : r ≠ .error .contents_overrun
  dumped : ∀ s, r = .ok s → s.num_templates ≤ MAX_SESSION_TEMPLATES

/-! ## The loop over the contents -/

/-- How the loop ends that has written `done` and finds `s` behind it. -/
def Spelled.read (s : Spelled) (done : List Byte) : Except ConfigError Contents :=
  if LINE_SIZE < done.length + s.out.length then .error .contents_overrun
  else
    match s.next with
    | none => .error .premature_eof
    | some (fp, line) => .ok ⟨fp, line, done ++ s.out⟩

theorem Spelled.read_behind (s : Spelled) (done added : List Byte) :
    (s.behind added).read done = s.read (done ++ added) := by
  unfold Spelled.read Spelled.behind
  rw [List.length_append, List.length_append, List.append_assoc, Nat.add_assoc]

theorem Spelled.read_full {s : Spelled} {done added : List Byte}
    (h : ¬ done.length + added.length ≤ LINE_SIZE) :
    (s.behind added).read done = .error .contents_overrun := by
  rw [Spelled.read_behind]
  apply if_pos
  rw [List.length_append]
  omega

theorem Spelled.read_nil {fp line done : List Byte} (hdone : done.length ≤ LINE_SIZE) :
    (Spelled.mk [] (some (fp, line))).read done = .ok ⟨fp, line, done⟩ := by
  unfold Spelled.read
  dsimp only
  rw [if_neg (by rw [List.length_nil]; omega), List.append_nil]

/-- The loop with its table against the reading without one. -/
theorem contents_loop_eq (q : Quotes) (fp line : List Byte) {done : List Byte}
    (hdone : done.length ≤ LINE_SIZE) :
    contents_loop q ⟨fp, line, done⟩ = (spelled q fp line).read done := by
  induction q, fp, line using spelled.induct generalizing done with
  | case1 q fp => rw [contents_loop_nil, spelled_nil, Spelled.read_nil hdone]
  | case2 q fp ch line hscan =>
    rw [contents_loop_done hscan, spelled_done hscan, Spelled.read_nil hdone]
  | case3 q fp ch line q' added hscan ih =>
    rw [spelled_add hscan]
    by_cases hroom : done.length + added.length ≤ LINE_SIZE
    · rw [contents_loop_add hscan hroom, Spelled.read_behind]
      exact ih (by rwa [List.length_append])
    · rw [contents_loop_full hscan hroom, Spelled.read_full hroom]
  | case4 q fp ch line q' hscan hline =>
    rw [spelled_eof hscan hline]
    by_cases hroom : done.length + 1 ≤ LINE_SIZE
    · rw [contents_loop_eof hscan hroom hline]
      exact (if_neg (Nat.not_lt.mpr hroom)).symm
    · rw [contents_loop_next_full hscan hroom]
      exact (if_pos (Nat.lt_of_not_le hroom)).symm
  | case5 q fp ch line q' hscan line₁ fp₁ hline ih =>
    rw [spelled_next hscan hline]
    by_cases hroom : done.length + 1 ≤ LINE_SIZE
    · rw [contents_loop_next hscan hroom hline, Spelled.read_behind]
      exact ih (by rwa [List.length_append])
    · rw [contents_loop_next_full hscan hroom, Spelled.read_full hroom]

/-! ## The reading, line by line -/

section
variable {τ : Type} {scan_lf : List Byte → Option τ}
    {fp line fp' parsed_so_far this_arg rest : List Byte}

theorem pieces_end (hline : fgets fp = none) : pieces scan_lf .line fp = [] := by
  rw [pieces]
  split
  · rfl
  · next heq =>
    rw [hline] at heq
    cases heq

theorem pieces_line (hline : fgets fp = some (line, fp')) :
    pieces scan_lf .line fp =
      if (cstr line).headD 0 = 35 then pieces scan_lf .line fp'
      else
        match scan_s (cstr line) with
        | none => .blank :: pieces scan_lf .line fp'
        | some (_, rest) => .request :: pieces scan_lf (.args rest) fp' := by
  conv_lhs => rw [pieces]
  split
  · next heq =>
    rw [hline] at heq
    cases heq
  · next heq =>
    obtain ⟨rfl, rfl⟩ := Prod.mk.inj (Option.some.inj (hline.symm.trans heq))
    rfl

theorem pieces_args_end (hword : scan_s parsed_so_far = none) :
    pieces scan_lf (.args parsed_so_far) fp = pieces scan_lf .line fp := by
  conv_lhs => rw [pieces]
  split
  · rfl
  · next heq =>
    rw [hword] at heq
    cases heq

theorem pieces_arg (hword : scan_s parsed_so_far = some (this_arg, rest)) :
    pieces scan_lf (.args parsed_so_far) fp =
      match arg_kind scan_lf this_arg with
      | .stops => []
      | .plain => pieces scan_lf (.args rest) fp
      | .contents =>
        match (spelled ⟨false, false, false⟩ fp (behind_eq parsed_so_far)).next with
        | none => [.cut_short (spelled ⟨false, false, false⟩ fp (behind_eq parsed_so_far)).out]
        | some (fp', line) =>
          .contents (spelled ⟨false, false, false⟩ fp (behind_eq parsed_so_far)).out ::
            pieces scan_lf (.args line) fp' := by
  conv_lhs => rw [pieces]
  split
  · next heq =>
    rw [hword] at heq
    cases heq
  · next heq =>
    obtain ⟨rfl, rfl⟩ := Prod.mk.inj (Option.some.inj (hword.symm.trans heq))
    split
    · rfl
    · rfl
    · split
      · next hnext => rw [hnext]
      · next hnext => rw [hnext]

end

/-! ## The cursors -/

/-- Where the cursors of the parser stand, behind `ended` sessions that a blank line has ended. -/
structure Cursors {τ : Type} (ended : Nat) (begun : Bool) (s : Parser τ) : Prop where
  sptr : s.sptr = ended
  current_req : (s.session_templates ended).current_req.isSome = begun
  later : ∀ i, ended < i → (s.session_templates i).current_req = none
  num_templates : s.num_templates = if begun then ended + 1 else ended
  few : s.num_templates ≤ MAX_SESSION_TEMPLATES
  current_burst : begun = true → s.current_burst.isSome

section
variable {τ : Type} {ended : Nat} {begun : Bool} {s : Parser τ}

theorem Cursors.fp (h : Cursors ended begun s) (fp : List Byte) :
    Cursors ended begun { s with fp } :=
  ⟨h.sptr, h.current_req, h.later, h.num_templates, h.few, h.current_burst⟩

theorem Cursors.set_req (h : Cursors ended begun s) (f : ReqData → ReqData) :
    Cursors ended begun (s.set_req f) := by
  unfold Parser.set_req
  split
  · exact h
  · exact ⟨h.sptr, h.current_req, h.later, h.num_templates, h.few, h.current_burst⟩

theorem Cursors.set_think_time (h : Cursors ended begun s) (think_time : τ) :
    Cursors ended begun (s.set_think_time think_time) := by
  unfold Parser.set_think_time
  split
  · exact h
  · exact ⟨h.sptr, h.current_req, h.later, h.num_templates, h.few, h.current_burst⟩

theorem Cursors.behind (h : Cursors ended begun s) (hfull : ¬ ended < MAX_SESSION_TEMPLATES) :
    s.end_session = .error .behind_session_templates := by
  unfold Parser.end_session
  rw [h.sptr]
  exact if_pos (Nat.le_of_not_lt hfull)

theorem Cursors.add_behind (h : Cursors ended begun s) (hfull : ¬ ended < MAX_SESSION_TEMPLATES)
    (think_time : τ) (line uri : List Byte) : s.add_request think_time line uri =
      .error .behind_session_templates := by
  unfold Parser.add_request
  rw [h.sptr]
  exact if_pos (Nat.le_of_not_lt hfull)

theorem Cursors.end_session (h : Cursors ended begun s) (hroom : ended < MAX_SESSION_TEMPLATES) :
    ∃ s', s.end_session = .ok s' ∧ s'.fp = s.fp ∧
    Cursors (if begun then ended + 1 else ended) false s' := by
  have hreq := h.current_req
  unfold Parser.end_session
  rw [h.sptr, if_neg (Nat.not_le.mpr hroom)]
  cases begun with
  | false =>
    rw [Option.isSome_eq_false_iff, Option.isNone_iff_eq_none] at hreq
    rw [if_neg (not_not.mpr hreq)]
    exact ⟨s, rfl, rfl, h⟩
  | true =>
    rw [if_pos (Option.isSome_iff_ne_none.mp hreq)]
    refine ⟨_, rfl, rfl, rfl, ?_, ?_, h.num_templates, h.few, fun hno => by cases hno⟩
    · rw [if_pos rfl, h.later (ended + 1) (Nat.lt_succ_self _)]
      rfl
    · intro i hi
      rw [if_pos rfl] at hi
      exact h.later i (Nat.lt_trans (Nat.lt_succ_self _) hi)

/-- The new request has its place in the lists, and the template does not know it yet. -/
structure Linked (ended : Nat) (s : Parser τ) : Prop where
  sptr : s.sptr = ended
  later : ∀ i, ended < i → (s.session_templates i).current_req = none
  num_templates : s.num_templates = ended + 1
  current_burst : s.current_burst.isSome

theorem Cursors.link_request (h : Cursors ended begun s) (hroom : ended < MAX_SESSION_TEMPLATES)
    (think_time : τ) (line uri : List Byte) :
    ∃ s', s.link_request think_time line uri = .ok s' ∧ s'.fp = s.fp ∧ Linked ended s' := by
  have hreq := h.current_req
  have hnum := h.num_templates
  unfold Parser.link_request
  dsimp only
  rw [h.sptr]
  cases begun with
  | false =>
    rw [Option.isSome_eq_false_iff, Option.isNone_iff_eq_none] at hreq
    rw [if_neg Bool.false_ne_true] at hnum
    rw [hreq]
    dsimp only
    rw [hnum, if_neg (Nat.not_lt.mpr hroom)]
    refine ⟨_, rfl, rfl, rfl, ?_, rfl, rfl⟩
    intro i hi
    dsimp only
    rw [Function.update_of_ne (Nat.ne_of_gt hi)]
    exact h.later i hi
  | true =>
    obtain ⟨r, hr⟩ := Option.isSome_iff_exists.mp hreq
    obtain ⟨b, hb⟩ := Option.isSome_iff_exists.mp (h.current_burst rfl)
    rw [if_pos rfl] at hnum
    rw [hr, hb]
    dsimp only
    split
    · exact ⟨_, rfl, rfl, rfl, h.later, hnum, rfl⟩
    · exact ⟨_, rfl, rfl, rfl, h.later, hnum, rfl⟩

theorem Linked.count_request (h : Linked ended s) (hroom : ended < MAX_SESSION_TEMPLATES)
    (reqptr : Nat) :
    ∃ s', s.count_request reqptr = .ok s' ∧ s'.fp = s.fp ∧ Cursors ended true s' := by
  obtain ⟨b, hb⟩ := Option.isSome_iff_exists.mp h.current_burst
  unfold Parser.count_request
  rw [hb, h.sptr]
  refine ⟨_, rfl, rfl, rfl, ?_, ?_, h.num_templates, ?_, fun _ => rfl⟩
  · dsimp only
    rw [Function.update_self]
    rfl
  · intro i hi
    dsimp only
    rw [Function.update_of_ne (Nat.ne_of_gt hi)]
    exact h.later i hi
  · dsimp only
    rw [h.num_templates]
    exact hroom

theorem Cursors.add_request (h : Cursors ended begun s) (hroom : ended < MAX_SESSION_TEMPLATES)
    (think_time : τ) (line uri : List Byte) :
    ∃ s', s.add_request think_time line uri = .ok s' ∧ s'.fp = s.fp ∧ Cursors ended true s' := by
  obtain ⟨s₁, hlink, hfp₁, hs₁⟩ := h.link_request hroom think_time line uri
  obtain ⟨s₂, hcount, hfp₂, hs₂⟩ := hs₁.count_request hroom s.reqs.length
  refine ⟨s₂, ?_, hfp₂.trans hfp₁, hs₂⟩
  unfold Parser.add_request
  rw [h.sptr, if_neg (Nat.not_le.mpr hroom), hlink]
  exact hcount

end

/-! ## Inside the tables -/

section
variable {τ : Type} {think_time : τ} {scan_lf : List Byte → Option τ} {ended : Nat} {begun : Bool}
    {s : Parser τ}

theorem inside_error {e : ConfigError} (ht : e ≠ .behind_session_templates)
    (hc : e ≠ .contents_overrun) :
    Inside (.error e : Except ConfigError (Parser τ)) :=
  ⟨fun h => ht (Except.error.inj h), fun h => hc (Except.error.inj h), nofun⟩

theorem not_inside_templates :
    ¬ Inside (.error .behind_session_templates : Except ConfigError (Parser τ)) :=
  fun h => h.templates rfl

theorem not_inside_contents : ¬ Inside (.error .contents_overrun : Except ConfigError (Parser τ)) :=
  fun h => h.contents rfl

theorem Cursors.inside (h : Cursors ended begun s) : Inside (.ok s) :=
  ⟨nofun, nofun, fun _ hs => Except.ok.inj hs ▸ h.few⟩

theorem arg_kind_method {this_arg method_str : List Byte}
    (hmethod : scan_arg (bytes "method=") this_arg = some method_str) :
    arg_kind scan_lf this_arg =
      if 1000 ≤ method_str.length ∨ find_method method_str = none then .stops else .plain := by
  unfold arg_kind
  rw [hmethod]

theorem arg_kind_other {this_arg : List Byte}
    (hmethod : scan_arg (bytes "method=") this_arg = none) :
    arg_kind scan_lf this_arg =
      if ((scan_lit (bytes "think=") this_arg).bind scan_lf).isSome then .plain
      else if (scan_arg (bytes "contents=") this_arg).isSome then .contents
      else .stops := by
  unfold arg_kind
  rw [hmethod]

/-- An argument that has nothing to do with `contents`. -/
theorem parse_arg_plain {this_arg : List Byte} (hkind : arg_kind scan_lf this_arg = .plain)
    (h : Cursors ended begun s) (parsed_so_far rest : List Byte) :
    ∃ s', parse_arg scan_lf s parsed_so_far this_arg rest = .ok (s', rest) ∧ s'.fp = s.fp ∧
      Cursors ended begun s' := by
  unfold parse_arg
  cases hmethod : scan_arg (bytes "method=") this_arg with
  | some method_str =>
    rw [arg_kind_method hmethod] at hkind
    split_ifs at hkind with hstop
    rw [not_or] at hstop
    obtain ⟨method, hfind⟩ := Option.ne_none_iff_exists'.mp hstop.2
    dsimp only
    rw [if_neg hstop.1, hfind]
    exact ⟨_, rfl, Parser.set_req_fp .., h.set_req _⟩
  | none =>
    rw [arg_kind_other hmethod] at hkind
    split_ifs at hkind with hthink
    obtain ⟨think_time, hthink⟩ := Option.isSome_iff_exists.mp hthink
    rw [hthink]
    exact ⟨_, rfl, Parser.set_think_time_fp .., h.set_think_time _⟩

theorem parse_arg_stops {this_arg : List Byte} (hkind : arg_kind scan_lf this_arg = .stops)
    (s : Parser τ) (parsed_so_far rest : List Byte) :
    ∃ e, parse_arg scan_lf s parsed_so_far this_arg rest = .error e ∧
    e ≠ .behind_session_templates ∧
      e ≠ .contents_overrun := by
  unfold parse_arg
  cases hmethod : scan_arg (bytes "method=") this_arg with
  | some method_str =>
    rw [arg_kind_method hmethod] at hkind
    split_ifs at hkind with hstop
    dsimp only
    by_cases hlong : 1000 ≤ method_str.length
    · rw [if_pos hlong]
      exact ⟨_, rfl, nofun, nofun⟩
    · rw [if_neg hlong, hstop.resolve_left hlong]
      exact ⟨_, rfl, nofun, nofun⟩
  | none =>
    rw [arg_kind_other hmethod] at hkind
    split_ifs at hkind with hthink hcontents
    rw [Bool.not_eq_true, Option.isSome_eq_false_iff, Option.isNone_iff_eq_none] at hthink hcontents
    rw [hthink, hcontents]
    exact ⟨_, rfl, nofun, nofun⟩

theorem Spelled.read_long {s : Spelled} (h : LINE_SIZE < s.out.length) :
    s.read [] = .error .contents_overrun :=
  if_pos (by rwa [List.length_nil, Nat.zero_add])

theorem Spelled.read_short {s : Spelled} (h : s.out.length ≤ LINE_SIZE) :
    s.read [] =
      match s.next with
      | none => .error .premature_eof
      | some (fp, line) => .ok ⟨fp, line, s.out⟩ :=
  if_neg (by rwa [List.length_nil, Nat.zero_add, Nat.not_lt])

theorem parse_arg_contents {this_arg : List Byte} (hkind : arg_kind scan_lf this_arg = .contents)
    (s : Parser τ) (parsed_so_far rest : List Byte) :
    parse_arg scan_lf s parsed_so_far this_arg rest =
      match (spelled ⟨false, false, false⟩ s.fp (behind_eq parsed_so_far)).read [] with
      | .error e => .error e
      | .ok c =>
        if LINE_SIZE ≤ c.contents.length then .error .contents_overrun
        else .ok ({ s with fp := c.fp }.set_req (set_contents c.contents), c.rest) := by
  unfold parse_arg
  cases hmethod : scan_arg (bytes "method=") this_arg with
  | some method_str =>
    rw [arg_kind_method hmethod] at hkind
    split_ifs at hkind
  | none =>
    rw [arg_kind_other hmethod] at hkind
    split_ifs at hkind with hthink hcontents
    rw [Bool.not_eq_true, Option.isSome_eq_false_iff, Option.isNone_iff_eq_none] at hthink
    obtain ⟨word, hcontents⟩ := Option.isSome_iff_exists.mp hcontents
    rw [hthink, hcontents]
    dsimp only
    rewrite [contents_loop_eq _ _ _ (Nat.zero_le _)]
    rfl

variable (think_time scan_lf) in
/-- The code agrees with the reading from this place on. -/
def Agrees (p : Place) (fp : List Byte) : Prop :=
  match p with
  | .line =>
    ∀ (ended : Nat) (begun : Bool) (s : Parser τ), s.fp = fp → Cursors ended begun s →
      (Inside (lines_loop think_time scan_lf s) ↔ Fits ended begun (pieces scan_lf .line fp))
  | .args parsed_so_far =>
    ∀ (ended : Nat) (s : Parser τ), s.fp = fp → Cursors ended true s →
      (Inside (match args_loop scan_lf s parsed_so_far with
        | .error e => .error e
        | .ok s' => lines_loop think_time scan_lf s') ↔
          Fits ended true (pieces scan_lf (.args parsed_so_far) fp))

theorem agrees_cut_short {fp parsed_so_far this_arg rest : List Byte}
    (hword : scan_s parsed_so_far = some (this_arg, rest))
    (hkind : arg_kind scan_lf this_arg = .contents)
    (hnext : (spelled ⟨false, false, false⟩ fp (behind_eq parsed_so_far)).next = none) :
    Agrees think_time scan_lf (.args parsed_so_far) fp := by
  rintro ended s rfl h
  rw [pieces_arg hword, hkind, args_loop_arg scan_lf hword, parse_arg_contents hkind]
  dsimp only
  rw [hnext]
  by_cases hlen : (spelled ⟨false, false, false⟩ s.fp (behind_eq parsed_so_far)).out.length ≤
    LINE_SIZE
  · rw [Spelled.read_short hlen, hnext]
    exact iff_of_true (inside_error nofun nofun) ⟨hlen, trivial⟩
  · rw [Spelled.read_long (Nat.lt_of_not_le hlen)]
    exact iff_of_false not_inside_contents fun hfits => hlen hfits.1

/-- The NUL behind the contents needs a place as well. -/
theorem agrees_contents {fp fp' line parsed_so_far this_arg rest : List Byte}
    (hword : scan_s parsed_so_far = some (this_arg, rest))
    (hkind : arg_kind scan_lf this_arg = .contents)
    (hnext : (spelled ⟨false, false, false⟩ fp (behind_eq parsed_so_far)).next = some (fp', line))
    (ih : Agrees think_time scan_lf (.args line) fp') :
    Agrees think_time scan_lf (.args parsed_so_far) fp := by
  rintro ended s rfl h
  rw [pieces_arg hword, hkind, args_loop_arg scan_lf hword, parse_arg_contents hkind]
  dsimp only
  rw [hnext]
  generalize hs : spelled ⟨false, false, false⟩ s.fp (behind_eq parsed_so_far) = contents at hnext ⊢
  dsimp only
  by_cases hlen : contents.out.length < LINE_SIZE
  · rw [Spelled.read_short (Nat.le_of_lt hlen), hnext]
    dsimp only
    rw [if_neg (Nat.not_le.mpr hlen), Fits, and_iff_right hlen]
    exact ih ended _ (Parser.set_req_fp ..) ((h.fp fp').set_req _)
  · have hout : ¬ Fits ended true (.contents contents.out :: pieces scan_lf (.args line) fp') :=
      fun hfits => hlen hfits.1
    by_cases hlong : LINE_SIZE < contents.out.length
    · rw [Spelled.read_long hlong]
      exact iff_of_false not_inside_contents hout
    · rw [Spelled.read_short (Nat.le_of_not_lt hlong), hnext]
      dsimp only
      rw [if_pos (Nat.le_of_not_lt hlen)]
      exact iff_of_false not_inside_contents hout

theorem agrees (p : Place) (fp : List Byte) : Agrees think_time scan_lf p fp := by
  induction p, fp using pieces.induct scan_lf with
  | case1 fp hline =>
    rintro ended begun s rfl h
    rw [pieces_end hline, lines_loop_end think_time scan_lf hline]
    exact iff_of_true h.inside trivial
  | case2 fp line fp' hline hcomment ih =>
    rintro ended begun s rfl h
    rw [pieces_line hline, if_pos hcomment, lines_loop_turn think_time scan_lf hline, parse_line,
      if_pos hcomment]
    exact ih ended begun _ rfl (h.fp fp')
  | case3 fp line fp' hline hcomment hword ih =>
    rintro ended begun s rfl h
    rw [pieces_line hline, if_neg hcomment, lines_loop_turn think_time scan_lf hline, parse_line,
      if_neg hcomment, hword]
    dsimp only
    rw [Fits]
    by_cases hroom : ended < MAX_SESSION_TEMPLATES
    · obtain ⟨s', hend, hfp, hs'⟩ := (h.fp fp').end_session hroom
      rw [hend, and_iff_right hroom]
      exact ih _ _ s' hfp hs'
    · rw [(h.fp fp').behind hroom]
      exact iff_of_false not_inside_templates fun hfits => hroom hfits.1
  | case4 fp line fp' hline hcomment uri rest hword ih =>
    rintro ended begun s rfl h
    rw [pieces_line hline, if_neg hcomment, lines_loop_turn think_time scan_lf hline, parse_line,
      if_neg hcomment, hword]
    dsimp only
    rw [Fits]
    by_cases hroom : ended < MAX_SESSION_TEMPLATES
    · obtain ⟨s', hadd, hfp, hs'⟩ := (h.fp fp').add_request hroom think_time (cstr line) uri
      rw [hadd, and_iff_right hroom]
      exact ih ended s' hfp hs'
    · rw [(h.fp fp').add_behind hroom]
      exact iff_of_false not_inside_templates fun hfits => hroom hfits.1
  | case5 fp parsed hword ih =>
    rintro ended s rfl h
    rw [pieces_args_end hword, args_loop_end scan_lf hword]
    exact ih ended true s rfl h
  | case6 fp parsed this_arg rest hword hkind =>
    rintro ended s rfl h
    obtain ⟨e, harg, ht, hc⟩ := parse_arg_stops hkind s parsed rest
    rw [pieces_arg hword, hkind, args_loop_arg scan_lf hword, harg]
    exact iff_of_true (inside_error ht hc) trivial
  | case7 fp parsed this_arg rest hword hkind ih =>
    rintro ended s rfl h
    obtain ⟨s', harg, hfp, hs'⟩ := parse_arg_plain hkind h parsed rest
    rw [pieces_arg hword, hkind, args_loop_arg scan_lf hword, harg]
    exact ih ended s' hfp hs'
  | case8 fp parsed this_arg rest hword hkind hnext => exact agrees_cut_short hword hkind hnext
  | case9 fp parsed this_arg rest hword hkind fp' line hnext ih =>
    exact agrees_contents hword hkind hnext ih

theorem cursors_start (fp : List Byte) :
    Cursors 0 false (⟨fp, [], [], fun _ => ⟨0, none, none⟩, 0, 0, none⟩ : Parser τ) :=
  ⟨rfl, rfl, fun _ _ => rfl, rfl, Nat.zero_le _, nofun⟩

/-- `parse_config` stays inside its tables exactly for the files whose pieces fit in them. -/
theorem parse_config_inside_iff (think_time : τ) (scan_lf : List Byte → Option τ)
    (file : List Byte) :
    Inside (parse_config think_time scan_lf file) ↔ Fits 0 false (pieces scan_lf .line file) :=
  agrees .line file 0 false _ rfl (cursors_start file)

/-! ## A thousand sessions -/

theorem fgets_line (line : List Byte) (hlf : LF ∉ line) (hshort : line.length + 1 ≤ LINE_SIZE - 1)
    (rest : List Byte) :
    fgets (line ++ LF :: rest) = some (line ++ [LF], rest) := by
  unfold fgets
  rw [if_neg (by simp), read_line_line hlf hshort]

theorem pieces_blank (rest : List Byte) :
    pieces scan_lf .line (LF :: rest) = .blank :: pieces scan_lf .line rest := by
  have hline : fgets (LF :: rest) = some ([LF], rest) := fgets_line [] (by decide) (by decide) rest
  rw [pieces_line hline, if_neg (by decide), show scan_s (cstr [LF]) = none by decide]

/-- A session of one request, with the blank line that ends it. -/
theorem pieces_session (rest : List Byte) :
    pieces scan_lf .line (bytes "/\n\n" ++ rest) =
      .request :: .blank :: pieces scan_lf .line rest := by
  have hline : fgets (bytes "/\n\n" ++ rest) = some (bytes "/\n", LF :: rest) :=
    fgets_line (bytes "/") (by decide) (by decide) (LF :: rest)
  rw [pieces_line hline, if_neg (by decide), show scan_s (cstr (bytes "/\n")) =
    some (bytes "/", [LF]) by decide]
  dsimp only
  rw [pieces_args_end (by decide), pieces_blank]

theorem sessions_fit {n k : Nat}
    (h : Fits n false (pieces scan_lf .line ((List.replicate k (bytes "/\n\n")).flatten ++ [LF]))) :
    n + k < MAX_SESSION_TEMPLATES := by
  induction k generalizing n with
  | zero =>
    rw [List.replicate_zero, List.flatten_nil, List.nil_append, pieces_blank] at h
    exact h.1
  | succ k ih =>
    rw [List.replicate_succ, List.flatten_cons, List.append_assoc, pieces_session] at h
    have hlast := ih h.2.2
    rw [if_pos rfl] at hlast
    omega

/-- A blank line behind the one that ends the last session: the source looks at the template behind
the table. -/
theorem a_thousand_sessions_and_a_blank_line :
    ¬ Inside
      (parse_config 0 (fun _ => (none : Option Nat))
        ((List.replicate 1000 (bytes "/\n\n")).flatten ++ [LF])) := by
  intro h
  have hfits := (agrees .line _ 0 false _ rfl (cursors_start _)).mp h
  exact absurd (sessions_fit hfits) (by decide)

end

end Httperf.WsessLog
