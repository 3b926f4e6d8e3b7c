-- What a status line decides (`parse_status_line` of `http.c`). A line that does not parse is
-- recorded with the status 599, but its body is decided by a local that nothing has set.
import Httperf.Recv

namespace Httperf

/-- Does a body follow, how the parser goes on, and the status that is recorded. -/
structure StatusFrame where
  has_body : Bool
  state : ConnState
  status : Int
  deriving DecidableEq, Repr

def Rx.statusFrame (r : Rx) : StatusFrame := ⟨r.s.has_body, r.s.state, r.c.reply.status⟩

/-- `parse_status_line`, with what the stack holds for the local `status`. -/
def parse_status_line_on (closes : List Event → Bool) (uninit : UInt32) (r : Rx) : Rx :=
  parse_status_line ⟨closes, fun _ => uninit.toNat⟩ r

/-- The call of `get_line` in `parse_status_line`: the line, once it is complete. -/
def statusLine (r : Rx) : Option (List Byte) :=
  let p := get_line { r with s.is_chunked := false, s.content_length := SIZE_MAX }
  if p.1 then some p.2.s.line else none

/-- The frame of a reply that carries the status `n`, on a connection that is open. -/
def FramedLike (n : Nat) (c : Call) (f : StatusFrame) : Prop :=
  f.has_body = has_body_of c.isHead n ∧ (f.state = .S_REPLY_HEADER ∨ f.state.closing = true)

/-- The frame depends on what is recorded: two contents of the stack make no difference, and a line
that is recorded with the status 599 is framed like any other status of the class 5xx. -/
def FramedByRecord (closes : List Event → Bool) (r : Rx) : Prop :=
  (∀ u u' : UInt32, (parse_status_line_on closes u r).statusFrame =
    (parse_status_line_on closes u' r).statusFrame) ∧
  ∀ u : UInt32, (statusLine r).isSome → (parse_status_line_on closes u r).statusFrame.status = 599 →
    ∀ n, n / 100 = 5 → FramedLike n r.c (parse_status_line_on closes u r).statusFrame

/-! ## One status line -/

/-- The state behind `EV_CALL_RECV_START`, when the local `status` is `n`. -/
def stateBehind (closes : List Event → Bool) (r : Rx) (recorded : Int) (n : Nat) : ConnState :=
  if !r.c.isHead && n = 100 then .S_REPLY_CONTINUE
  else if closes (r.log ++ [.EV_CALL_RECV_START r.c.id recorded]) then
    (if r.s.state.closing then r.s.state else .S_CLOSING)
  else if r.s.state.closing then r.s.state else .S_REPLY_HEADER

theorem status_line_read_frame (closes : List Event → Bool) (u : List Event → Nat) (start : Nat)
    (r : Rx) :
    (status_line_read ⟨closes, u⟩ start r).statusFrame =
      let v := status_values ⟨closes, u⟩ r
      ⟨has_body_of r.c.isHead v.2, stateBehind closes r v.1.status v.2, v.1.status⟩ := by
  unfold status_line_read status_done stateBehind event_signal Conn.close Rx.statusFrame
  dsimp only
  split_ifs <;> simp_all [ConnState.closing]

theorem parse_status_line_frame_none (closes : List Event → Bool) (u : UInt32) {r : Rx}
    (h : statusLine r = none) :
    (parse_status_line_on closes u r).statusFrame =
      ⟨r.s.has_body, r.s.state, r.c.reply.status⟩ := by
  unfold statusLine at h
  obtain ⟨hstate, -, hc, -⟩ :=
    get_line_s { r with s.is_chunked := false, s.content_length := SIZE_MAX }
  have hbody := get_line_has_body { r with s.is_chunked := false, s.content_length := SIZE_MAX }
  have hline : (get_line { r with s.is_chunked := false, s.content_length := SIZE_MAX }).1 =
      false := by
    by_contra hne
    simp [hne] at h
  unfold parse_status_line_on parse_status_line Rx.statusFrame
  dsimp only
  rw [if_pos hline, hstate, hc, hbody]

/-- With the line `line` the frame is that of the recorded values. -/
theorem parse_status_line_frame_some (closes : List Event → Bool) (u : UInt32) {r : Rx}
    {line : List Byte} (h : statusLine r = some line) :
    (parse_status_line_on closes u r).statusFrame =
      let n := ((scan_status_line (cstr line)).map fun v => v.2.2).getD u.toNat
      let recorded := ((scan_status_line (cstr line)).map fun v => u_int_to_int v.2.2).getD 599
      ⟨has_body_of r.c.isHead n, stateBehind closes r recorded n, recorded⟩ := by
  unfold statusLine at h
  obtain ⟨hstate, -, hc, hlog⟩ :=
    get_line_s { r with s.is_chunked := false, s.content_length := SIZE_MAX }
  have hdone : (get_line { r with s.is_chunked := false, s.content_length := SIZE_MAX }).1 =
      true := by
    by_contra hne
    simp [hne] at h
  dsimp only at h
  rw [hdone, if_pos rfl, Option.some.injEq] at h
  unfold parse_status_line_on parse_status_line
  dsimp only
  rw [if_neg (by rw [hdone]; decide), status_line_read_frame]
  unfold status_values stateBehind
  rw [h, hc, hlog, hstate]
  cases scan_status_line (cstr line) <;> rfl

/-! ## What the frame depends on -/

theorem scan_u_lt {s t : List Byte} {n : Nat} (h : scan_u s = some (n, t)) : n < 2 ^ 32 := by
  unfold scan_u at h
  dsimp only at h
  split at h
  · cases h
  · obtain ⟨rfl, -⟩ := Prod.mk.inj (Option.some.inj h)
    exact Nat.mod_lt _ (by decide)

/-- The number of a status line is a `u_int`. -/
theorem scan_status_lt {s : List Byte} {v : Nat × Nat × Nat} (h : scan_status_line s = some v) :
    v.2.2 < 2 ^ 32 := by
  unfold scan_status_line at h
  simp only [Option.bind_eq_bind, Option.bind_eq_some_iff, Option.some.injEq] at h
  obtain ⟨_, _, _, _, _, _, _, _, ⟨status, t⟩, hstatus, rfl⟩ := h
  exact scan_u_lt hstatus

theorem stateBehind_header (closes : List Event → Bool) (r : Rx) (recorded : Int) {n : Nat}
    (hn : n ≠ 100) :
    stateBehind closes r recorded n = .S_REPLY_HEADER ∨
      (stateBehind closes r recorded n).closing = true := by
  unfold stateBehind
  rw [if_neg (by simp [hn])]
  split_ifs with hclose hclosing hclosing
  · exact .inr hclosing
  · exact .inr rfl
  · exact .inr hclosing
  · exact .inl rfl

/-- A line that is not complete decides nothing. -/
theorem frame_of_incomplete {closes : List Event → Bool} {r : Rx} (hline : statusLine r = none) :
    FramedByRecord closes r := by
  refine ⟨fun u u' => ?_, fun u hsome => ?_⟩
  · rw [parse_status_line_frame_none closes u hline, parse_status_line_frame_none closes u' hline]
  · rw [hline] at hsome
    cases hsome

/-- A line that parses leaves nothing to the stack. -/
theorem frame_of_parsed {closes : List Event → Bool} {r : Rx} {line : List Byte}
    (hline : statusLine r = some line) (hscan : (scan_status_line (cstr line)).isSome) :
    FramedByRecord closes r := by
  obtain ⟨v, hv⟩ := Option.isSome_iff_exists.mp hscan
  refine ⟨fun u u' => ?_, fun u _ hrecorded n hn => ?_⟩
  · rw [parse_status_line_frame_some closes u hline, parse_status_line_frame_some closes u' hline,
      hv]
    rfl
  · rw [parse_status_line_frame_some closes u hline, hv] at hrecorded ⊢
    have h599 : v.2.2 = 599 := by
      have hlt := scan_status_lt hv
      have heq : u_int_to_int v.2.2 = 599 := hrecorded
      unfold u_int_to_int at heq
      split at heq <;> omega
    simp only [Option.map_some, Option.getD_some, h599]
    refine ⟨?_, stateBehind_header closes r _ (by decide)⟩
    unfold has_body_of
    rw [hn]
    have hne : n ≠ 204 ∧ n ≠ 205 ∧ n ≠ 304 := by omega
    simp [hne]

/-- The reply to a `HEAD` request has no body, whatever the status. -/
theorem frame_of_head {closes : List Event → Bool} {r : Rx} (hhead : r.c.isHead = true) :
    FramedByRecord closes r := by
  cases hline : statusLine r with
  | none => exact frame_of_incomplete hline
  | some line =>
    have hframe : ∀ u : UInt32, (parse_status_line_on closes u r).statusFrame =
        let recorded := ((scan_status_line (cstr line)).map fun v => u_int_to_int v.2.2).getD 599
        ⟨false, stateBehind closes r recorded 0, recorded⟩ := by
      intro u
      rw [parse_status_line_frame_some closes u hline]
      unfold has_body_of stateBehind
      simp [hhead]
    refine ⟨fun u u' => by rw [hframe, hframe], fun u _ _ n _ => ?_⟩
    rw [hframe]
    refine ⟨?_, stateBehind_header closes r _ (by decide)⟩
    unfold has_body_of
    simp [hhead]

/-- Two contents of the stack, and the same line that does not parse: one reply has a body, and the
other has none. -/
theorem frame_of_garbage {closes : List Event → Bool} {r : Rx} {line : List Byte}
    (hline : statusLine r = some line) (hhead : r.c.isHead = false)
    (hscan : scan_status_line (cstr line) = none) : ¬ FramedByRecord closes r := by
  intro h
  have h1 := h.1 200 204
  rw [parse_status_line_frame_some closes 200 hline, parse_status_line_frame_some closes 204 hline,
    hscan] at h1
  have hbody := congrArg StatusFrame.has_body h1
  simp [has_body_of, hhead] at hbody

/-- The frame depends on what is recorded exactly when the line parses, or the request is `HEAD`. -/
theorem framed_by_record_iff (closes : List Event → Bool) (r : Rx) :
    FramedByRecord closes r ↔ r.c.isHead = true ∨
      ∀ line, statusLine r = some line → (scan_status_line (cstr line)).isSome := by
  constructor
  · intro h
    by_contra hne
    simp only [not_or, not_forall, Bool.not_eq_true, Option.isSome_eq_false_iff,
      Option.isNone_iff_eq_none] at hne
    obtain ⟨hhead, line, hline, hscan⟩ := hne
    exact frame_of_garbage hline hhead hscan h
  · rintro (hhead | hparsed)
    · exact frame_of_head hhead
    · cases hline : statusLine r with
      | none => exact frame_of_incomplete hline
      | some line => exact frame_of_parsed hline (hparsed line hline)

/-- A call that waits for its reply, and a line in which only the version numbers match. -/
def version_only : Rx :=
  ⟨⟨.S_REPLY_STATUS, [], 0, false, false, [call_init 1 0x10001]⟩, call_init 1 0x10001,
    bytes "HTTP/1.1 OK\r\n", []⟩

theorem a_version_without_a_status_is_framed_by_garbage :
    ¬ FramedByRecord (fun _ => false) version_only :=
  have hline : statusLine version_only = some (bytes "HTTP/1.1 OK") := by decide
  frame_of_garbage hline (by decide) (by decide)

end Httperf
