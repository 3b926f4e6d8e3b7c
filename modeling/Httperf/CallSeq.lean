-- A connection that performs a sequence of calls (`call_seq.c`). The calls go out in bursts. The
-- handler of `EV_CALL_DESTROYED` counts the calls of a burst, and finds the end of the burst, and
-- of the connection, by that count.
import Httperf.Lib.Runs
import Mathlib.Data.Nat.Basic

namespace Httperf.CallSeq

structure Param where
  num_calls : Nat
  burst_len : Nat
  deriving DecidableEq, Repr

/-- The connection with its private data. The calls have the numbers in which they are issued.
`issued`, `destroyed` and `closes` count for the whole run. They are no fields of the source. The
counters of the source are `int`: from 2^31 calls on one connection on they differ from these. -/
structure Conn where
  num_calls : Nat
  num_completed : Nat
  num_destroyed : Nat
  sendq : List Nat
  recvq : List Nat
  closing : Bool
  issued : Nat
  destroyed : Nat
  closes : Nat
  deriving DecidableEq, Repr

/-! ## The generator -/

/-- The loop of `issue_calls`. -/
def issue_loop (p : Param) : Nat → Conn → Conn
  | 0, s => s
  | i + 1, s =>
    let s1 := { s with num_calls := s.num_calls + 1 }
    issue_loop p i (if s.num_calls < p.num_calls then
      { s1 with sendq := s1.sendq ++ [s1.issued], issued := s1.issued + 1 } else s1)

def issue_calls (p : Param) (s : Conn) : Conn :=
  issue_loop p p.burst_len { s with num_completed := 0, num_destroyed := 0 }

/-- The handler of `EV_CALL_DESTROYED`, where `close` is what `core_close` does. -/
def on_destroyed (p : Param) (close : Conn → Conn) (s : Conn) : Conn :=
  let s1 := { s with num_destroyed := s.num_destroyed + 1, destroyed := s.destroyed + 1 }
  if s1.num_destroyed ≥ min p.burst_len p.num_calls then
    if s1.num_completed = s1.num_destroyed ∧ s1.num_calls < p.num_calls then issue_calls p s1
    else close s1
  else s1

/-- `core_close`. The calls that are pending are destroyed, and `core_close` guards against
recursive calls. -/
def core_close (p : Param) (s : Conn) : Conn :=
  if s.closing then s
  else (s.sendq ++ s.recvq).foldl (fun s _ => on_destroyed p id s)
    { s with closing := true, closes := s.closes + 1, sendq := [], recvq := [] }

def call_destroyed (p : Param) (s : Conn) : Conn := on_destroyed p (core_close p) s

/-- The handler of `EV_CALL_RECV_STOP`. -/
def call_done (s : Conn) : Conn := { s with num_completed := s.num_completed + 1 }

/-! ## Runs -/

/-- What the connection does while the server answers every call. -/
inductive Step where
  /-- the request in front of `sendq` is sent -/
  | sent
  /-- the reply to the call in front of `recvq` is there -/
  | answered
  deriving DecidableEq, Repr

def step (p : Param) (s : Conn) : Step → Conn
  | .sent =>
    match s.sendq with
    | [] => s
    | c :: rest => { s with sendq := rest, recvq := s.recvq ++ [c] }
  | .answered =>
    match s.recvq with
    | [] => s
    | _ :: rest => call_destroyed p (call_done { s with recvq := rest })

/-- `conn_connected`, on a new connection. -/
def conn_connected (p : Param) : Conn := issue_calls p ⟨0, 0, 0, [], [], false, 0, 0, 0⟩

def run (p : Param) (steps : List Step) : Conn := Runs.run (step p) (conn_connected p) steps

/-- The calls go out in bursts of `burst_len`, a burst when all calls of the burst before it are
destroyed, and `core_close` is called when all calls are destroyed, once. -/
structure InSequence (p : Param) (s : Conn) : Prop where
  bursts : s.issued = min p.num_calls ((s.destroyed / p.burst_len + 1) * p.burst_len)
  pending : s.recvq ++ s.sendq = List.range' s.destroyed (s.issued - s.destroyed)
  closes : s.closes = if s.destroyed = p.num_calls then 1 else 0

/-- The bursts fill up: there is one burst, or the last burst is a whole one. -/
def Even (p : Param) : Prop := p.num_calls ≤ p.burst_len ∨ p.num_calls % p.burst_len = 0

instance (p : Param) : Decidable (Even p) := inferInstanceAs (Decidable (_ ∨ _))

/-! ## What the code does -/

theorem issue_loop_eq (p : Param) (i : Nat) (s : Conn) :
    issue_loop p i s = { s with
      num_calls := s.num_calls + i
      sendq := s.sendq ++ List.range' s.issued
        (min p.num_calls (s.num_calls + i) - min p.num_calls s.num_calls)
      issued := s.issued + (min p.num_calls (s.num_calls + i) - min p.num_calls s.num_calls) } := by
  induction i generalizing s with
  | zero => simp [issue_loop]
  | succ i ih =>
    unfold issue_loop
    dsimp only
    rw [ih]
    by_cases hlt : s.num_calls < p.num_calls
    · have hmin : min p.num_calls (s.num_calls + (i + 1)) - min p.num_calls s.num_calls =
          (min p.num_calls (s.num_calls + 1 + i) - min p.num_calls (s.num_calls + 1)) + 1 := by
        omega
      rw [hmin, List.range'_succ]
      simp only [if_pos hlt, List.append_assoc, List.singleton_append, Conn.mk.injEq, true_and]
      exact ⟨by omega, by omega, trivial⟩
    · have h1 : min p.num_calls (s.num_calls + (i + 1)) - min p.num_calls s.num_calls = 0 := by
        omega
      have h2 : min p.num_calls (s.num_calls + 1 + i) - min p.num_calls (s.num_calls + 1) = 0 := by
        omega
      simp only [if_neg hlt, h1, h2, Conn.mk.injEq, and_true]
      omega

/-- `q` bursts are over, and `r` calls of the burst behind them are destroyed. -/
structure At (p : Param) (s : Conn) (q r : Nat) : Prop where
  destroyed : s.destroyed = q * p.burst_len + r
  inside : r < p.burst_len
  le : s.destroyed ≤ s.issued
  issued : s.issued = min p.num_calls (q * p.burst_len + p.burst_len)
  pending : s.recvq ++ s.sendq = List.range' s.destroyed (s.issued - s.destroyed)
  going : s.closing = false → s.num_calls = q * p.burst_len + p.burst_len ∧ s.num_completed = r ∧
    s.num_destroyed = r ∧ s.closes = 0 ∧ ¬ (s.destroyed = p.num_calls ∧ Even p)
  closed : s.closing = true → s.destroyed = p.num_calls ∧ s.closes = 1 ∧ Even p

variable {p : Param}

theorem conn_connected_at (hN : 1 ≤ p.num_calls) (hB : 1 ≤ p.burst_len) :
    At p (conn_connected p) 0 0 := by
  unfold conn_connected issue_calls
  rw [issue_loop_eq]
  refine ⟨by simp, hB, by simp, by simp, by simp, fun _ => ?_, by simp⟩
  simp only [Nat.zero_mul, Nat.zero_add, true_and]
  omega

/-- A reply ends the burst, and the next one goes out. -/
theorem next_burst_at {s : Conn} {q : Nat} (hB : 1 ≤ p.burst_len)
    (hd : s.destroyed = (q + 1) * p.burst_len) (hi : s.issued = s.destroyed)
    (hempty : s.recvq = [] ∧ s.sendq = []) (hn : s.num_calls = s.destroyed)
    (hlt : s.num_calls < p.num_calls) (hopen : s.closing = false) (hcloses : s.closes = 0) :
    At p (issue_calls p s) (q + 1) 0 := by
  unfold issue_calls
  rw [issue_loop_eq]
  dsimp only
  have hE : ¬ s.destroyed = p.num_calls := by omega
  refine ⟨by simpa using hd, hB, by simp [hi], ?_, ?_, fun _ => ?_, fun hc => ?_⟩
  · dsimp only
    omega
  · simp [hempty, hi]
  · exact ⟨by dsimp only; omega, rfl, rfl, hcloses, fun h => hE h.1⟩
  · dsimp only at hc
    rw [hopen] at hc
    cases hc

/-- The sizes of the bursts: the count of the handler is full at the end of a whole burst, and at
the end of the only one. -/
theorem full_iff {q r : Nat} (hr : r < p.burst_len)
    (hle : q * p.burst_len + r < p.num_calls) :
    r + 1 ≥ min p.burst_len p.num_calls ↔
      r + 1 = p.burst_len ∨ (q * p.burst_len + r + 1 = p.num_calls ∧ Even p) := by
  unfold Even
  constructor
  · intro hfull
    by_cases hone : p.burst_len ≤ p.num_calls
    · left
      omega
    · right
      have hq : q = 0 := by
        by_contra hq
        have := Nat.le_mul_of_pos_left p.burst_len (Nat.pos_of_ne_zero hq)
        omega
      subst hq
      omega
  · rintro (hfull | ⟨hlast, hone | hmod⟩)
    · omega
    · -- there is one burst
      have hq : q = 0 := by
        by_contra hq
        have := Nat.le_mul_of_pos_left p.burst_len (Nat.pos_of_ne_zero hq)
        omega
      subst hq
      omega
    · have hr1 : r + 1 = p.burst_len := by
        by_contra hne
        rw [← hlast, Nat.add_assoc, Nat.mul_add_mod_self_right, Nat.mod_eq_of_lt (by omega)] at hmod
        omega
      omega

/-- Behind the call that is answered stand the calls that were issued after it. -/
theorem At.pending_rest {s : Conn} {q r c : Nat} {rest : List Nat} (h : At p s q r)
    (hq : s.recvq = c :: rest) :
    s.destroyed < s.issued ∧ rest ++ s.sendq =
      List.range' (s.destroyed + 1) (s.issued - (s.destroyed + 1)) := by
  have hpend := h.pending
  rw [hq, List.cons_append] at hpend
  have hmore : s.destroyed < s.issued := by
    by_contra hno
    rw [Nat.sub_eq_zero_of_le (by omega)] at hpend
    cases hpend
  have hlen : s.issued - s.destroyed = (s.issued - (s.destroyed + 1)) + 1 := by omega
  rw [hlen, List.range'_succ] at hpend
  exact ⟨hmore, (List.cons.inj hpend).2⟩

theorem answered_at (hB : 1 ≤ p.burst_len) {s : Conn} {q r : Nat} (h : At p s q r) :
    ∃ q' r', At p (step p s .answered) q' r' ∧
      (s.recvq ≠ [] → (step p s .answered).destroyed = s.destroyed + 1) := by
  rcases hq : s.recvq with _ | ⟨c, rest⟩
  · simp only [step, hq]
    exact ⟨q, r, h, fun hne => absurd rfl hne⟩
  · -- a call is pending, and it is the next one to be destroyed
    obtain ⟨hmore, hrest⟩ := h.pending_rest hq
    have hissued := h.issued
    have hd := h.destroyed
    have hopen : s.closing = false := by
      cases hc : s.closing
      · rfl
      · have := (h.closed hc).1
        omega
    obtain ⟨hnum, hcompleted, hdestroyed, hcloses, hnot⟩ := h.going hopen
    have hfull := full_iff h.inside (by omega : q * p.burst_len + r < p.num_calls)
    simp only [step, hq, call_done, call_destroyed, on_destroyed, hcompleted, hdestroyed, true_and]
    by_cases hcount : r + 1 ≥ min p.burst_len p.num_calls
    · rw [if_pos hcount]
      by_cases hlt : s.num_calls < p.num_calls
      · -- the burst is a whole one, and there is another one
        have hr1 : r + 1 = p.burst_len := by
          rcases hfull.mp hcount with hr1 | ⟨hlast, _⟩
          · exact hr1
          · omega
        have hempty : rest ++ s.sendq = [] := by
          rw [hrest, Nat.sub_eq_zero_of_le (by omega)]
          rfl
        rw [if_pos hlt]
        refine ⟨q + 1, 0, next_burst_at hB ?_ ?_ (List.append_eq_nil_iff.mp hempty) ?_ hlt hopen
          hcloses, fun _ => by rw [issue_calls, issue_loop_eq]⟩
        · dsimp only
          rw [Nat.succ_mul]
          omega
        · dsimp only
          omega
        · dsimp only
          omega
      · -- this was the last call
        have hlast : s.destroyed + 1 = p.num_calls := by
          rcases hfull.mp hcount with hr1 | ⟨hlast, _⟩ <;> omega
        have heven : Even p := by
          rcases hfull.mp hcount with hr1 | ⟨_, heven⟩
          · right
            rw [← hlast, hd, Nat.add_assoc, hr1, ← Nat.succ_mul]
            exact Nat.mul_mod_left _ _
          · exact heven
        have hempty : rest = [] ∧ s.sendq = [] := by
          rw [Nat.sub_eq_zero_of_le (by omega)] at hrest
          exact List.append_eq_nil_iff.mp hrest
        rw [if_neg hlt]
        simp only [core_close, hopen, hempty, List.append_nil, List.foldl_nil, Bool.false_eq_true,
          if_false, hcloses]
        have hsplit := Nat.div_add_mod' p.num_calls p.burst_len
        have hinside := Nat.mod_lt p.num_calls hB
        refine ⟨p.num_calls / p.burst_len, p.num_calls % p.burst_len, ⟨?_, hinside, ?_, ?_, ?_,
          fun hc => absurd hc (by simp), fun _ => ⟨hlast, rfl, heven⟩⟩, fun _ => trivial⟩
        · exact hlast.trans hsplit.symm
        · dsimp only
          omega
        · dsimp only
          omega
        · dsimp only
          rw [Nat.sub_eq_zero_of_le (by omega)]
          rfl
    · rw [if_neg hcount]
      have hr1 : r + 1 ≠ p.burst_len := fun hr1 => hcount (hfull.mpr (Or.inl hr1))
      have hinside := h.inside
      refine ⟨q, r + 1, ⟨?_, by omega, ?_, hissued, ?_, fun _ => ?_, fun hc => ?_⟩, fun _ => rfl⟩
      · dsimp only
        omega
      · dsimp only
        omega
      · exact hrest
      · refine ⟨hnum, rfl, rfl, hcloses, fun hlast => hcount (hfull.mpr (Or.inr ?_))⟩
        exact ⟨by rw [← hd]; exact hlast.1, hlast.2⟩
      · dsimp only at hc
        rw [hopen] at hc
        cases hc

theorem sent_at {s : Conn} {q r : Nat} (h : At p s q r) : At p (step p s .sent) q r := by
  rcases hq : s.sendq with _ | ⟨c, rest⟩
  · simp only [step, hq]
    exact h
  · simp only [step, hq]
    refine ⟨h.destroyed, h.inside, h.le, h.issued, ?_, h.going, h.closed⟩
    rw [List.append_assoc, List.singleton_append, ← hq]
    exact h.pending

theorem run_at (hN : 1 ≤ p.num_calls) (hB : 1 ≤ p.burst_len) (steps : List Step) :
    ∃ q r, At p (run p steps) q r := by
  have hall : Runs.Always (step p) (fun s => ∃ q r, At p s q r) (conn_connected p) steps := by
    apply Runs.always_of_step
    · rintro s (_ | _) ⟨q, r, h⟩
      · exact ⟨q, r, sent_at h⟩
      · obtain ⟨q', r', h', _⟩ := answered_at hB h
        exact ⟨q', r', h'⟩
    · exact ⟨0, 0, conn_connected_at hN hB⟩
  exact hall.last

/-- The connection closes at the end of the calls when the bursts fill up, and never else. -/
theorem At.closes_eq {s : Conn} {q r : Nat} (h : At p s q r) :
    s.closes = if s.destroyed = p.num_calls ∧ Even p then 1 else 0 := by
  cases hc : s.closing
  · obtain ⟨_, _, _, hcloses, hnot⟩ := h.going hc
    rw [if_neg hnot, hcloses]
  · obtain ⟨hlast, hcloses, heven⟩ := h.closed hc
    rw [if_pos ⟨hlast, heven⟩, hcloses]

/-- The server can answer all calls. -/
theorem reach_all (hN : 1 ≤ p.num_calls) (hB : 1 ≤ p.burst_len) (n : Nat) (hn : n ≤ p.num_calls) :
    ∃ steps, (run p steps).destroyed = n := by
  induction n with
  | zero =>
    refine ⟨[], ?_⟩
    have h := (conn_connected_at hN hB).destroyed
    simpa [run, Runs.run] using h
  | succ n ih =>
    obtain ⟨steps, hsteps⟩ := ih (by omega)
    obtain ⟨q, r, h⟩ := run_at hN hB steps
    -- a call is pending: it is sent, if it is not, and answered
    have hpend := h.pending
    have hissued : n < (run p steps).issued := by
      rw [h.issued]
      have := h.destroyed
      have := h.inside
      omega
    refine ⟨steps ++ [.sent, .answered], ?_⟩
    have hrun : run p (steps ++ [.sent, .answered]) =
        step p (step p (run p steps) .sent) .answered :=
      Runs.run_append ..
    rw [hrun]
    generalize run p steps = s at *
    obtain ⟨q', r', _, hnext⟩ := answered_at hB (sent_at h)
    have hsent : (step p s .sent).destroyed = s.destroyed := by
      cases hq : s.sendq <;> simp [step, hq]
    rw [hnext, hsent, hsteps]
    intro hempty
    have hnil : s.recvq = [] ∧ s.sendq = [] := by
      rcases hq : s.sendq with _ | ⟨c, rest⟩
      · simp only [step, hq] at hempty
        exact ⟨hempty, rfl⟩
      · simp [step, hq] at hempty
    rw [hnil.1, hnil.2, hsteps] at hpend
    have hlen := congrArg List.length hpend
    simp only [List.length_append, List.length_nil, List.length_range'] at hlen
    omega

/-- Every connection makes its calls in bursts and closes behind the last one exactly when there
is one burst, or the last burst is a whole one. -/
theorem calls_in_sequence_iff (p : Param) (hN : 1 ≤ p.num_calls) (hB : 1 ≤ p.burst_len) :
    (∀ steps, InSequence p (run p steps)) ↔
      p.num_calls ≤ p.burst_len ∨ p.num_calls % p.burst_len = 0 := by
  constructor
  · intro hall
    obtain ⟨steps, hlast⟩ := reach_all hN hB p.num_calls (Nat.le_refl _)
    obtain ⟨q, r, h⟩ := run_at hN hB steps
    have hcloses := (hall steps).closes
    rw [h.closes_eq, if_pos hlast] at hcloses
    by_contra hodd
    rw [if_neg fun heven => hodd heven.2] at hcloses
    cases hcloses
  · intro heven steps
    obtain ⟨q, r, h⟩ := run_at hN hB steps
    have hq : (run p steps).destroyed / p.burst_len = q := by
      rw [h.destroyed, Nat.mul_comm, Nat.mul_add_div hB, Nat.div_eq_of_lt h.inside, Nat.add_zero]
    refine ⟨?_, h.pending, ?_⟩
    · rw [hq, Nat.succ_mul]
      exact h.issued
    · rw [h.closes_eq]
      simp [Even, heven]

/-- Four calls in two bursts of two. -/
theorem calls_in_sequence_four_by_two :
    (∀ steps, InSequence ⟨4, 2⟩ (run ⟨4, 2⟩ steps)) ↔ 4 ≤ 2 ∨ 4 % 2 = 0 :=
  calls_in_sequence_iff ⟨4, 2⟩ (by decide) (by decide)

/-- Three calls in bursts of two: the third call is destroyed, and nothing closes the
connection. -/
theorem a_short_burst_does_not_close :
    ¬ InSequence ⟨3, 2⟩
      (run ⟨3, 2⟩ [.sent, .sent, .answered, .answered, .sent, .answered]) := by
  intro h
  exact absurd h.closes (by decide)

end Httperf.CallSeq
