-- Sessions of a fixed number of calls (`wsess.c`). The calls go out in bursts of `burst_len`. The
-- last burst is as long as the others, whatever the number of calls.
import Httperf.Lib.Runs
import Httperf.SessionQueue
import Mathlib.Data.Nat.Basic

namespace Httperf.Wsess

/-- The parameters, where the queue takes a burst. -/
structure Param extends SessionParam where
  num_calls : Nat
  burst_len : Nat
  think_time : Nat
  num_calls_pos : 1 ≤ num_calls
  burst_len_pos : 1 ≤ burst_len
  queue_takes_burst : burst_len ≤ session_max_qlen toSessionParam

/-- The session with its private data. `issues` and `dec_refs` are no fields of the source: they say
how many calls were destroyed when each call was issued, and at each `sess_dec_ref`. -/
structure Sess where
  num_calls_in_this_burst : Nat
  num_calls_target : Nat
  num_calls_destroyed : Nat
  timer : Option Nat
  failed : Bool
  ref_count : Nat
  slots : List (List Nat)
  issues : List Nat
  dec_refs : List Nat

/-- How the program can end. -/
inductive Abort where
  | too_many_calls_pending
  | assert_no_timer
  | assert_ref_count
  deriving DecidableEq, Repr

variable (p : Param)

/-- The loop of `issue_calls`. -/
def issue_loop : Nat → Sess → Except Abort Sess
  | 0, s => .ok s
  | i + 1, s =>
    match session_issue_call p.toSessionParam s.issues.length s.slots with
    | none => .error .too_many_calls_pending
    | some slots => issue_loop i { s with slots, issues := s.issues ++ [s.num_calls_destroyed] }

def issue_calls (s : Sess) : Except Abort Sess :=
  let to_create :=
    if s.num_calls_in_this_burst > 0 then p.burst_len - s.num_calls_in_this_burst else 1
  issue_loop p to_create
    { s with num_calls_in_this_burst := s.num_calls_in_this_burst + to_create }

def user_think_time_expired (s : Sess) : Except Abort Sess := issue_calls p { s with timer := none }

/-- The handler of `EV_CALL_DESTROYED`, where `dec_ref` is what `sess_dec_ref` does. -/
def on_destroyed (dec_ref : Sess → Except Abort Sess) (s : Sess) : Except Abort Sess :=
  let s1 := { s with num_calls_destroyed := s.num_calls_destroyed + 1 }
  if s1.num_calls_destroyed ≥ p.num_calls then
    if s1.failed then .ok s1 else dec_ref s1
  else if s1.num_calls_in_this_burst < p.burst_len then issue_calls p s1
  else if s1.num_calls_destroyed ≥ s1.num_calls_target then
    if s1.timer.isSome then .error .assert_no_timer
    else .ok { s1 with
      num_calls_in_this_burst := 0
      num_calls_target := s1.num_calls_target + p.burst_len
      timer := some p.think_time }
  else .ok s1

/-- `sess_dec_ref`. The last reference takes the timer and the pending calls with it. While these
are destroyed the count is 0, and the assertion of `object_dec_ref` fails. -/
def sess_dec_ref (s : Sess) : Except Abort Sess :=
  if s.ref_count = 0 then .error .assert_ref_count
  else
    let s1 := { s with
      ref_count := s.ref_count - 1
      dec_refs := s.dec_refs ++ [s.num_calls_destroyed] }
    if s1.ref_count = 0 then
      s.slots.flatten.foldlM (fun s _ => on_destroyed p (fun _ => .error .assert_ref_count) s)
        { s1 with timer := none, slots := no_calls p.toSessionParam }
    else .ok s1

def call_destroyed (s : Sess) : Except Abort Sess := on_destroyed p (sess_dec_ref p) s

def sess_create : Except Abort Sess :=
  issue_calls p {
    num_calls_in_this_burst := 0
    num_calls_target := p.burst_len
    num_calls_destroyed := 0
    timer := none
    failed := false
    ref_count := 1
    slots := no_calls p.toSessionParam
    issues := []
    dec_refs := [] }

/-! ## Runs -/

/-- What happens to a session without failures. -/
inductive Step where
  /-- the reply to the call in front of the connection `i` is there, and the call is destroyed -/
  | completed (i : Nat)
  /-- the think timer expires, if it is armed -/
  | think
  deriving DecidableEq, Repr

def step (s : Except Abort Sess) (st : Step) : Except Abort Sess :=
  s.bind fun s =>
    match st with
    | .completed i =>
      match call_done i s.slots with
      | none => .ok s
      | some slots => call_destroyed p { s with slots }
    | .think => if s.timer.isSome then user_think_time_expired p s else .ok s

def run (steps : List Step) : Except Abort Sess := Runs.run (step p) (sess_create p) steps

/-- The session makes its calls, and ends once. The first call of a burst waits for the calls of the
bursts before it, and the others wait for the first one. -/
structure MakesItsCalls (s : Sess) : Prop where
  calls : s.issues.length ≤ p.num_calls
  inTime : ∀ i (h : i < s.issues.length), s.issues[i] =
    if i % p.burst_len = 0 then i else i / p.burst_len * p.burst_len + 1
  /-- the session ends with its last call -/
  ended : s.dec_refs ≠ [] → s.dec_refs = [p.num_calls] ∧ s.issues.length = p.num_calls
  /-- and until then a call is pending, or a think timer is armed -/
  going : s.dec_refs = [] → session_current_qlen s.slots > 0 ∨ s.timer.isSome = true
  /-- and the calls can be answered until the session ends with all of them -/
  finishes : ∃ more s', Runs.run (step p) (.ok s) more = .ok s' ∧ s'.dec_refs = [p.num_calls] ∧
    s'.issues.length = p.num_calls

/-- No assertion fails, and the session makes its calls. -/
def Right : Except Abort Sess → Prop
  | .error _ => False
  | .ok s => MakesItsCalls p s

/-! ## The phases of a session -/

/-- The calls destroyed by the time at which the call `i` goes out. -/
def due (i : Nat) : Nat := if i % p.burst_len = 0 then i else i / p.burst_len * p.burst_len + 1

structure Sound (s : Sess) : Prop where
  fits : Fits p.toSessionParam s.slots
  qlen : session_current_qlen s.slots + s.num_calls_destroyed = s.issues.length
  inTime : ∀ i (h : i < s.issues.length), s.issues[i] = due p i
  alive : s.failed = false

/-- The first call of the burst behind `k` bursts is issued, or all of it. -/
structure Working (s : Sess) (k : Nat) : Prop where
  timer : s.timer = none
  burst : s.num_calls_in_this_burst = 1 ∨ s.num_calls_in_this_burst = p.burst_len
  issued : s.issues.length = k * p.burst_len + s.num_calls_in_this_burst
  behind : k * p.burst_len ≤ s.num_calls_destroyed
  first : 1 < s.num_calls_in_this_burst → k * p.burst_len < s.num_calls_destroyed
  pending : s.num_calls_destroyed < s.issues.length
  more : s.num_calls_destroyed < p.num_calls
  target : s.num_calls_target = k * p.burst_len + p.burst_len
  ref_count : s.ref_count = 1
  dec_refs : s.dec_refs = []

/-- The user thinks behind `k` bursts. -/
structure Thinking (s : Sess) (k : Nat) : Prop where
  timer : s.timer.isSome = true
  burst : s.num_calls_in_this_burst = 0
  issued : s.issues.length = k * p.burst_len
  destroyed : s.num_calls_destroyed = k * p.burst_len
  more : s.num_calls_destroyed < p.num_calls
  target : s.num_calls_target = k * p.burst_len + p.burst_len
  ref_count : s.ref_count = 1
  dec_refs : s.dec_refs = []

/-- The session is over. -/
structure Ended (s : Sess) : Prop where
  timer : s.timer = none
  issued : s.issues.length = p.num_calls
  destroyed : s.num_calls_destroyed = p.num_calls
  dec_refs : s.dec_refs = [p.num_calls]

def Phase (s : Sess) : Prop := (∃ k, Working p s k) ∨ (∃ k, Thinking p s k) ∨ Ended p s

variable {p}

theorem due_first (k : Nat) : due p (k * p.burst_len) = k * p.burst_len := by
  unfold due
  rw [if_pos (Nat.mul_mod_left k p.burst_len)]

theorem due_rest {k r : Nat} (hpos : 0 < r) (hlt : r < p.burst_len) :
    due p (k * p.burst_len + r) = k * p.burst_len + 1 := by
  have hmod : (k * p.burst_len + r) % p.burst_len = r := by
    rw [Nat.mul_comm, Nat.mul_add_mod, Nat.mod_eq_of_lt hlt]
  have hdiv : (k * p.burst_len + r) / p.burst_len = k := by
    rw [Nat.mul_comm, Nat.mul_add_div p.burst_len_pos, Nat.div_eq_of_lt hlt, Nat.add_zero]
  unfold due
  rw [hmod, hdiv, if_neg (Nat.ne_of_gt hpos)]

/-! ## Issuing calls -/

theorem issue_loop_spec (n : Nat) {s : Sess} (hfits : Fits p.toSessionParam s.slots)
    (hroom : session_current_qlen s.slots + n ≤ session_max_qlen p.toSessionParam) :
    ∃ slots, issue_loop p n s = .ok { s with
        slots
        issues := s.issues ++ List.replicate n s.num_calls_destroyed } ∧
      Fits p.toSessionParam slots ∧
      session_current_qlen slots = session_current_qlen s.slots + n := by
  induction n generalizing s with
  | zero => exact ⟨s.slots, by simp [issue_loop], hfits, rfl⟩
  | succ n ih =>
    obtain ⟨slots1, hissue, hfits1, hqlen1⟩ :=
      session_issue_call_spec s.issues.length hfits (by omega)
    obtain ⟨slots2, hloop, hfits2, hqlen2⟩ := ih (s := { s with
      slots := slots1
      issues := s.issues ++ [s.num_calls_destroyed] }) hfits1 (by dsimp only; omega)
    refine ⟨slots2, ?_, hfits2, by dsimp only at hqlen2; omega⟩
    simp only [issue_loop, hissue, hloop, List.append_assoc, List.singleton_append,
      List.replicate_succ]

/-- Calls that go out in time keep the list of calls right. -/
theorem inTime_append {issues : List Nat} {n d : Nat}
    (h : ∀ i (h : i < issues.length), issues[i] = due p i)
    (hnew : ∀ j < n, due p (issues.length + j) = d) (i : Nat)
    (hi : i < (issues ++ List.replicate n d).length) :
    (issues ++ List.replicate n d)[i] = due p i := by
  by_cases hold : i < issues.length
  · rw [List.getElem_append_left hold]
    exact h i hold
  · rw [List.getElem_append_right (Nat.le_of_not_lt hold), List.getElem_replicate]
    simp only [List.length_append, List.length_replicate] at hi
    have hj := hnew (i - issues.length) (by omega)
    rw [Nat.add_sub_of_le (Nat.le_of_not_lt hold)] at hj
    exact hj.symm

/-- The first call of a burst goes out alone. -/
theorem issue_first {s : Sess} {k : Nat} (h : Sound p s) (htimer : s.timer = none)
    (hburst : s.num_calls_in_this_burst = 0) (hissued : s.issues.length = k * p.burst_len)
    (hdestroyed : s.num_calls_destroyed = k * p.burst_len)
    (hmore : s.num_calls_destroyed < p.num_calls)
    (htarget : s.num_calls_target = k * p.burst_len + p.burst_len) (href : s.ref_count = 1)
    (hdec : s.dec_refs = []) :
    ∃ s', issue_calls p s = .ok s' ∧ Sound p s' ∧ Working p s' k ∧
      s'.num_calls_destroyed = s.num_calls_destroyed := by
  have hpos := session_max_qlen_pos p.toSessionParam
  have hqlen := h.qlen
  obtain ⟨slots, hloop, hfits, hq⟩ := issue_loop_spec 1 (s := { s with
    num_calls_in_this_burst := s.num_calls_in_this_burst + 1 }) h.fits (by dsimp only; omega)
  unfold issue_calls
  rw [if_neg (by omega)]
  dsimp only
  rw [hloop]
  refine ⟨_, rfl, ⟨hfits, ?_, ?_, h.alive⟩,
    ⟨htimer, ?_, ?_, ?_, ?_, ?_, hmore, htarget, href, hdec⟩,
    rfl⟩
  · simp only [List.length_append, List.length_replicate]
    dsimp only at hq
    omega
  · apply inTime_append h.inTime
    intro j hj
    obtain rfl : j = 0 := by omega
    rw [Nat.add_zero, hissued, due_first, hdestroyed]
  · exact Or.inl (by dsimp only; omega)
  · simp only [List.length_append, List.length_replicate]
    omega
  · exact Nat.le_of_eq hdestroyed.symm
  · intro hlt
    dsimp only at hlt
    omega
  · simp only [List.length_append, List.length_replicate]
    omega

/-- The other calls of the burst follow behind the first one. -/
theorem issue_rest {s : Sess} {k : Nat} (h : Sound p s) (htimer : s.timer = none)
    (hburst : s.num_calls_in_this_burst = 1) (hlt : 1 < p.burst_len)
    (hissued : s.issues.length = k * p.burst_len + 1)
    (hdestroyed : s.num_calls_destroyed = k * p.burst_len + 1)
    (hmore : s.num_calls_destroyed < p.num_calls)
    (htarget : s.num_calls_target = k * p.burst_len + p.burst_len) (href : s.ref_count = 1)
    (hdec : s.dec_refs = []) :
    ∃ s', issue_calls p s = .ok s' ∧ Sound p s' ∧ Working p s' k ∧
      s'.num_calls_destroyed = s.num_calls_destroyed := by
  have htakes := p.queue_takes_burst
  have hqlen := h.qlen
  obtain ⟨slots, hloop, hfits, hq⟩ := issue_loop_spec (p.burst_len - 1) (s := { s with
    num_calls_in_this_burst := s.num_calls_in_this_burst + (p.burst_len - 1) }) h.fits
    (by dsimp only; omega)
  unfold issue_calls
  rw [if_pos (by omega), hburst]
  dsimp only
  rw [hburst] at hloop
  rw [hloop]
  refine ⟨_, rfl, ⟨hfits, ?_, ?_, h.alive⟩,
    ⟨htimer, ?_, ?_, ?_, ?_, ?_, hmore, htarget, href, hdec⟩,
    rfl⟩
  · simp only [List.length_append, List.length_replicate]
    dsimp only at hq
    omega
  · apply inTime_append h.inTime
    intro j hj
    rw [hissued, hdestroyed, Nat.add_assoc]
    exact due_rest (by omega) (by omega)
  · exact Or.inr (by dsimp only; omega)
  · simp only [List.length_append, List.length_replicate]
    omega
  · dsimp only
    omega
  · intro _
    dsimp only
    omega
  · simp only [List.length_append, List.length_replicate]
    omega

/-! ## One step -/

theorem sess_create_spec (p : Param) :
    ∃ s, sess_create p = .ok s ∧ Sound p s ∧ Working p s 0 ∧ s.num_calls_destroyed = 0 := by
  unfold sess_create
  apply issue_first
  · exact ⟨no_calls_fits _, by simp [no_calls_qlen], fun i hi => by simp at hi, rfl⟩
  · rfl
  · rfl
  · simp
  · simp
  · exact p.num_calls_pos
  · simp
  · rfl
  · rfl

theorem think_spec {s : Sess} {k : Nat} (h : Sound p s) (ht : Thinking p s k) :
    ∃ s', user_think_time_expired p s = .ok s' ∧ Sound p s' ∧ Working p s' k ∧
      s'.num_calls_destroyed = s.num_calls_destroyed := by
  unfold user_think_time_expired
  apply issue_first
  · exact ⟨h.fits, h.qlen, h.inTime, h.alive⟩
  · rfl
  · exact ht.burst
  · exact ht.issued
  · exact ht.destroyed
  · exact ht.more
  · exact ht.target
  · exact ht.ref_count
  · exact ht.dec_refs

/-- A call is destroyed that is not the last one of the session. -/
theorem completed_spec {s : Sess} {k i : Nat} {slots : List (List Nat)} (h : Sound p s)
    (hw : Working p s k) (hdone : call_done i s.slots = some slots)
    (hmore : s.num_calls_destroyed + 1 < p.num_calls) :
    ∃ s', call_destroyed p { s with slots } = .ok s' ∧ Sound p s' ∧ Phase p s' ∧
      s'.num_calls_destroyed = s.num_calls_destroyed + 1 := by
  obtain ⟨hfits, hq⟩ := call_done_spec h.fits hdone
  have hqlen := h.qlen
  have hissued := hw.issued
  have hbehind := hw.behind
  have htarget := hw.target
  have h1 : Sound p { s with slots, num_calls_destroyed := s.num_calls_destroyed + 1 } :=
    ⟨hfits, by dsimp only; omega, h.inTime, h.alive⟩
  unfold call_destroyed on_destroyed
  dsimp only
  rw [if_neg (by omega)]
  split
  · rename_i hlt
    have hone : s.num_calls_in_this_burst = 1 := by
      rcases hw.burst with hone | hfull <;> omega
    obtain ⟨s', hok, hsound, hworking, hd⟩ := issue_rest h1 hw.timer hone (by omega)
      (by dsimp only; omega) (by dsimp only; omega) hmore hw.target hw.ref_count hw.dec_refs
    exact ⟨s', hok, hsound, Or.inl ⟨k, hworking⟩, hd⟩
  · rename_i hfull
    have hpos := p.burst_len_pos
    have hburst : s.num_calls_in_this_burst = p.burst_len := by
      rcases hw.burst with hone | hfull <;> omega
    split
    · rename_i hover
      rw [if_neg (by simp [hw.timer])]
      refine ⟨_, rfl, ⟨hfits, h1.qlen, h.inTime, h.alive⟩, Or.inr (Or.inl ⟨k + 1, rfl, rfl, ?_, ?_,
        hmore, ?_, hw.ref_count, hw.dec_refs⟩), rfl⟩
      · dsimp only
        rw [Nat.succ_mul]
        omega
      · dsimp only
        rw [Nat.succ_mul]
        omega
      · dsimp only
        rw [Nat.succ_mul]
        omega
    · rename_i hover
      refine ⟨_, rfl, h1, Or.inl ⟨k, hw.timer, hw.burst, hw.issued, Nat.le_succ_of_le hw.behind,
        fun _ => Nat.lt_succ_of_le hw.behind, ?_, hmore, hw.target, hw.ref_count, hw.dec_refs⟩, rfl⟩
      dsimp only
      omega

/-- The bursts of the session fit its calls: the last burst is a whole one, or a single call. -/
def BurstsFit (p : Param) : Prop := p.num_calls % p.burst_len ≤ 1

/-- No more calls are issued than the session has, where the bursts fit. -/
theorem issued_le {s : Sess} {k : Nat} (hfit : BurstsFit p) (hw : Working p s k) :
    s.issues.length ≤ p.num_calls := by
  have hissued := hw.issued
  have hbehind := hw.behind
  have hmore := hw.more
  have hpos := p.burst_len_pos
  by_cases hone : s.num_calls_in_this_burst ≤ 1
  · omega
  · -- the burst is issued as a whole, and has two calls at least
    have hfirst := hw.first (by omega)
    by_contra hlt
    have hr : p.num_calls = k * p.burst_len + (p.num_calls - k * p.burst_len) := by omega
    have hmod : p.num_calls % p.burst_len = p.num_calls - k * p.burst_len := by
      rw [hr, Nat.mul_comm, Nat.mul_add_mod, Nat.mod_eq_of_lt]
      · rw [← Nat.mul_comm]
        omega
      · rw [← Nat.mul_comm]
        rcases hw.burst with hb | hb <;> omega
    unfold BurstsFit at hfit
    omega

/-- The last call is destroyed. -/
theorem last_spec {s : Sess} {k i : Nat} {slots : List (List Nat)} (hfit : BurstsFit p)
    (h : Sound p s) (hw : Working p s k) (hdone : call_done i s.slots = some slots)
    (hlast : s.num_calls_destroyed + 1 = p.num_calls) :
    ∃ s', call_destroyed p { s with slots } = .ok s' ∧ Sound p s' ∧ Ended p s' := by
  obtain ⟨hfits, hq⟩ := call_done_spec h.fits hdone
  have hqlen := h.qlen
  have hle := issued_le hfit hw
  have hflat : slots.flatten = [] := by
    rw [← List.length_eq_zero_iff, List.length_flatten]
    have hzero : session_current_qlen slots = 0 := by omega
    exact hzero
  unfold call_destroyed on_destroyed sess_dec_ref
  dsimp only
  rw [if_pos (by omega), if_neg (by simp [h.alive]), if_neg (by simp [hw.ref_count]),
    if_pos (by simp [hw.ref_count]), hflat]
  refine ⟨_, rfl, ⟨no_calls_fits _, ?_, h.inTime, h.alive⟩, ⟨rfl, ?_, hlast, ?_⟩⟩
  · dsimp only
    rw [no_calls_qlen]
    omega
  · dsimp only
    omega
  · simp [hw.dec_refs, hlast]

/-! ## All steps -/

/-- The session is well. -/
def Well (p : Param) (o : Except Abort Sess) : Prop := ∃ s, o = .ok s ∧ Sound p s ∧ Phase p s

theorem step_well (hfit : BurstsFit p) (o : Except Abort Sess) (st : Step) (h : Well p o) :
    Well p (step p o st) := by
  obtain ⟨s, rfl, hsound, hphase⟩ := h
  cases st with
  | completed i =>
    rcases hdone : call_done i s.slots with _ | slots
    · exact ⟨s, by simp [step, Except.bind, hdone], hsound, hphase⟩
    · have hq := (call_done_spec hsound.fits hdone).2
      have hqlen := hsound.qlen
      have hspec : ∃ s', call_destroyed p { s with slots } = .ok s' ∧ Sound p s' ∧ Phase p s' := by
        rcases hphase with ⟨k, hw⟩ | ⟨k, ht⟩ | he
        · have hmore := hw.more
          by_cases hlast : s.num_calls_destroyed + 1 = p.num_calls
          · obtain ⟨s', hok, h1, h2⟩ := last_spec hfit hsound hw hdone hlast
            exact ⟨s', hok, h1, Or.inr (Or.inr h2)⟩
          · obtain ⟨s', hok, h1, h2, _⟩ := completed_spec hsound hw hdone (by omega)
            exact ⟨s', hok, h1, h2⟩
        · have hissued := ht.issued
          have hdestroyed := ht.destroyed
          omega
        · have hissued := he.issued
          have hdestroyed := he.destroyed
          omega
      simpa [step, Except.bind, hdone, Well] using hspec
  | think =>
    by_cases htimer : s.timer.isSome = true
    · rcases hphase with ⟨k, hw⟩ | ⟨k, ht⟩ | he
      · rw [hw.timer] at htimer
        cases htimer
      · obtain ⟨s', hok, h1, h2, _⟩ := think_spec hsound ht
        exact ⟨s', by simp [step, Except.bind, htimer, hok], h1, Or.inl ⟨k, h2⟩⟩
      · rw [he.timer] at htimer
        cases htimer
    · exact ⟨s, by simp [step, Except.bind, htimer], hsound, hphase⟩

/-- What is still to come: the calls, and before a burst the think time. -/
def toCome (p : Param) (s : Sess) : Nat :=
  2 * (p.num_calls - s.num_calls_destroyed) + if s.timer.isSome then 1 else 0

/-- Until the end there is a step that leaves less to come. -/
theorem advance {s : Sess} (hfit : BurstsFit p) (h : Sound p s) (hphase : Phase p s)
    (hnot : ¬ Ended p s) :
    ∃ st s', step p (.ok s) st = .ok s' ∧ Sound p s' ∧ Phase p s' ∧ toCome p s' < toCome p s := by
  have hbound : ∀ s : Sess, (if s.timer.isSome then 1 else 0) ≤ 1 := by
    intro s
    split <;> omega
  unfold toCome
  rcases hphase with ⟨k, hw⟩ | ⟨k, ht⟩ | he
  · have hqlen := h.qlen
    have hpending := hw.pending
    have hmore := hw.more
    have hsome : 0 < session_current_qlen s.slots := by omega
    obtain ⟨i, slots, hdone⟩ := exists_call_done hsome
    have hstep : ∀ s', call_destroyed p { s with slots } = .ok s' →
        step p (.ok s) (.completed i) = .ok s' := by
      intro s' hok
      simp [step, Except.bind, hdone, hok]
    by_cases hlast : s.num_calls_destroyed + 1 = p.num_calls
    · obtain ⟨s', hok, hsound', hended⟩ := last_spec hfit h hw hdone hlast
      refine ⟨_, s', hstep s' hok, hsound', Or.inr (Or.inr hended), ?_⟩
      have hdestroyed := hended.destroyed
      have hle := hbound s'
      omega
    · obtain ⟨s', hok, hsound', hphase', hdestroyed⟩ := completed_spec h hw hdone (by omega)
      refine ⟨_, s', hstep s' hok, hsound', hphase', ?_⟩
      have hle := hbound s'
      omega
  · obtain ⟨s', hok, hsound', hw', hdestroyed⟩ := think_spec h ht
    refine ⟨.think, s', by simp [step, Except.bind, ht.timer, hok], hsound', Or.inl ⟨k, hw'⟩, ?_⟩
    rw [hdestroyed, hw'.timer, if_pos ht.timer, if_neg (by simp)]
    exact Nat.lt_succ_self _
  · exact absurd he hnot

/-- The calls can be answered until the session is over. -/
theorem finishes {s : Sess} (hfit : BurstsFit p) (h : Sound p s) (hphase : Phase p s) :
    ∃ more s', Runs.run (step p) (.ok s) more = .ok s' ∧ Ended p s' := by
  let rank (o : Except Abort Sess) : Nat := o.toOption.elim 0 (toCome p)
  have hstep : ∀ o, Well p o → ¬ (∃ s, o = .ok s ∧ Ended p s) →
      ∃ st, Well p (step p o st) ∧ rank (step p o st) < rank o := by
    rintro o ⟨s, rfl, hsound, hphase⟩ hnot
    obtain ⟨st, s', hok, hsound', hphase', hless⟩ :=
      advance hfit hsound hphase fun hended => hnot ⟨s, rfl, hended⟩
    refine ⟨st, ⟨s', hok, hsound', hphase'⟩, ?_⟩
    rw [hok]
    exact hless
  have hwell : Well p (.ok s) := ⟨s, rfl, h, hphase⟩
  obtain ⟨more, -, hover⟩ := Runs.exists_done rank hstep hwell
  exact ⟨more, hover⟩

theorem makes_its_calls {s : Sess} (hfit : BurstsFit p) (h : Sound p s) (hphase : Phase p s) :
    MakesItsCalls p s := by
  have hqlen := h.qlen
  obtain ⟨more, s', hrun, hended⟩ := finishes hfit h hphase
  refine ⟨?_, h.inTime, ?_, ?_, more, s', hrun, hended.dec_refs, hended.issued⟩
  · rcases hphase with ⟨k, hw⟩ | ⟨k, ht⟩ | he
    · exact issued_le hfit hw
    · have hissued := ht.issued
      have hdestroyed := ht.destroyed
      have hmore := ht.more
      omega
    · exact Nat.le_of_eq he.issued
  · intro hdec
    rcases hphase with ⟨k, hw⟩ | ⟨k, ht⟩ | he
    · exact absurd hw.dec_refs hdec
    · exact absurd ht.dec_refs hdec
    · exact ⟨he.dec_refs, he.issued⟩
  · intro hdec
    rcases hphase with ⟨k, hw⟩ | ⟨k, ht⟩ | he
    · have hpending := hw.pending
      exact Or.inl (by omega)
    · exact Or.inr ht.timer
    · rw [he.dec_refs] at hdec
      cases hdec

/-- The server can answer calls until any number short of all is destroyed. -/
theorem reach (n : Nat) (hn : n < p.num_calls) :
    ∃ steps s k, run p steps = .ok s ∧ Sound p s ∧ Working p s k ∧ s.num_calls_destroyed = n := by
  induction n with
  | zero =>
    obtain ⟨s, hok, hsound, hw, hd⟩ := sess_create_spec p
    exact ⟨[], s, 0, hok, hsound, hw, hd⟩
  | succ n ih =>
    obtain ⟨steps, s, k, hrun, hsound, hw, hd⟩ := ih (by omega)
    have hqlen := hsound.qlen
    have hpending := hw.pending
    have hsome : 0 < session_current_qlen s.slots := by omega
    obtain ⟨i, slots, hdone⟩ := exists_call_done hsome
    obtain ⟨s1, hok, hsound1, hphase1, hd1⟩ := completed_spec hsound hw hdone (by omega)
    have hrun1 : run p (steps ++ [.completed i]) = .ok s1 := by
      unfold run at hrun ⊢
      rw [Runs.run_append, hrun]
      simp [Runs.run, step, Except.bind, hdone, hok]
    rcases hphase1 with ⟨k1, hw1⟩ | ⟨k1, ht1⟩ | he1
    · exact ⟨_, s1, k1, hrun1, hsound1, hw1, by omega⟩
    · obtain ⟨s2, hok2, hsound2, hw2, hd2⟩ := think_spec hsound1 ht1
      refine ⟨steps ++ [.completed i] ++ [.think], s2, k1, ?_, hsound2, hw2, by omega⟩
      unfold run at hrun1 ⊢
      rw [Runs.run_append, hrun1]
      simp [Runs.run, step, Except.bind, ht1.timer, hok2]
    · have hdestroyed := he1.destroyed
      omega

end Httperf.Wsess
