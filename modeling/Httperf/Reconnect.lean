-- Connections that a session starts in place of failed ones (`create_conn` and `conn_failed` in
-- `session.c`, `core_connect` and `conn_failure` in `core.c`). The next attempt is made inside the
-- handler of the failed one, so that each `core_connect` that failed still reports its own failure.
import Httperf.Lib.Runs
import Mathlib.Logic.Function.Basic

namespace Httperf.Reconnect

structure Param where
  max_conns : Nat
  retry_on_failure : Bool

/-- What becomes of an attempt. -/
inductive Result where
  | connected
  | in_progress
  | fails
  deriving DecidableEq, Repr

structure Attempt where
  /-- the index of its `conn_info` -/
  ci : Nat
  result : Result
  closing : Bool
  deriving DecidableEq, Repr

/-- The attempts of one session, numbered as they start. `answered` counts the failures that
`conn_failed` answers with another attempt and is no datum of the source. -/
structure State where
  count : Nat
  attempt : Nat → Attempt
  conn : Nat → Option Nat
  is_successful : Nat → Bool
  failed : Bool
  answered : Nat

def init : State := ⟨0, fun _ => ⟨0, .fails, true⟩, fun _ => none, fun _ => false, false, 0⟩

/-- The first attempt of an event that does not fail at once, or the `conn_new` without memory. -/
inductive Last where
  | connected
  | in_progress
  | no_memory
  deriving DecidableEq, Repr

/-- What the attempts of one event come to: so many fail inside `core_connect`, each in the handler
of the one before, and then comes the last. -/
structure Results where
  fails : Nat
  last : Last

/-! ## The functions -/

variable (p : Param)

def core_close (a : Nat) (s : State) : State :=
  { s with attempt := Function.update s.attempt a { s.attempt a with closing := true } }

/-- The session is destroyed with its failure, and `sess_destroyed` closes what its slots hold. -/
def sess_failure (s : State) : State :=
  if s.failed then s
  else
    { s with
      failed := true
      attempt := fun a =>
        if ∃ k < p.max_conns, s.conn k = some a then { s.attempt a with closing := true }
        else s.attempt a }

/-- `conn_new`, and the fields that `create_conn` resets. -/
def conn_new (k : Nat) (r : Result) (s : State) : State :=
  { s with
    count := s.count + 1
    attempt := Function.update s.attempt s.count ⟨k, r, false⟩
    conn := Function.update s.conn k (some s.count)
    is_successful := Function.update s.is_successful k false }

/-- `create` is the call of `create_conn`. -/
def conn_failed (create : State → State) (k : Nat) (s : State) : State :=
  if s.is_successful k ∨ p.retry_on_failure then create { s with answered := s.answered + 1 }
  else sess_failure p s

/-- With `n + 1` attempts that fail, the first of them is `conn_failure`'s: the others are made in
the handler, and when they are through, it is closed and `core_connect` returns -1. -/
def create_conn (k : Nat) (last : Last) : Nat → State → State
  | 0, s =>
    match last with
    | .connected => conn_new k .connected s
    | .in_progress => conn_new k .in_progress s
    | .no_memory => sess_failure p { s with conn := Function.update s.conn k none }
  | n + 1, s =>
    sess_failure p
      (core_close s.count (conn_failed p (create_conn k last n) k (conn_new k .fails s)))

/-! ## Runs -/

inductive Step where
  /-- a call for slot `k`, in `send_calls` -/
  | issue (k : Nat) (o : Results)
  /-- the connect of attempt `a` is through -/
  | completes (a : Nat)
  /-- the connect of attempt `a` has failed, or its connection does -/
  | fails (a : Nat) (o : Results)
  /-- a reply for slot `k` -/
  | reply (k : Nat)
  /-- `call_done` closes the connection with a version below 1.1 -/
  | forget (k : Nat)
  | timeout (a : Nat)
  /-- the generator has no memory for a call, or a reply has the failure status -/
  | dies

/-- What `core_loop` can report an event for. -/
def State.Alive (s : State) (a : Nat) : Prop :=
  a < s.count ∧ (s.attempt a).closing = false

instance (s : State) (a : Nat) : Decidable (s.Alive a) :=
  inferInstanceAs (Decidable (_ ∧ _))

def State.ends (s : State) (a : Nat) (r : Result) : State :=
  { s with attempt := Function.update s.attempt a { s.attempt a with result := r } }

def step (s : State) : Step → State
  | .issue k o => if s.conn k = none then create_conn p k o.last o.fails s else s
  | .completes a =>
    if s.Alive a ∧ (s.attempt a).result = .in_progress then s.ends a .connected else s
  | .fails a o =>
    if s.Alive a then
      let k := (s.attempt a).ci
      core_close a (conn_failed p (create_conn p k o.last o.fails) k (s.ends a .fails))
    else s
  | .reply k => { s with is_successful := Function.update s.is_successful k true }
  | .forget k =>
    match s.conn k with
    | none => s
    | some a => { core_close a s with conn := Function.update s.conn k none }
  | .timeout a => if s.Alive a then core_close a (sess_failure p s) else s
  | .dies => sess_failure p s

/-- The attempt that started last is connected or in progress. The end of its own session, which
closes it, does not count against it. -/
def LastLives (s : State) : Prop := (s.attempt (s.count - 1)).result ≠ .fails

instance (s : State) : Decidable (LastLives s) := inferInstanceAs (Decidable (_ ≠ _))

/-- A session that retries does not fail in an event whose failed attempts were answered by others,
the last of which lives. -/
def Kept (s : State) (x : Step) : Prop :=
  p.retry_on_failure → s.failed = false → s.answered < (step p s x).answered →
    s.count < (step p s x).count → LastLives (step p s x) → (step p s x).failed = false

instance (s : State) (x : Step) : Decidable (Kept p s x) :=
  inferInstanceAs (Decidable (_ → _ → _ → _ → _ → _))

/-- No attempt of the event fails inside `core_connect`, or the last one does not live. -/
def Settled (o : Results) : Prop := o.fails = 0 ∨ o.last = .no_memory

/-- As long as the session lives, the attempts that it starts settle. -/
def Direct (s : State) : Step → Prop
  | .issue k o => p.retry_on_failure → s.failed = false → s.conn k = none → Settled o
  | .fails a o => p.retry_on_failure → s.failed = false → s.Alive a → Settled o
  | _ => True

/-! ## What a call leaves -/

variable {p : Param} {s : State}

@[simp] theorem core_close_count (a : Nat) (s : State) : (core_close a s).count = s.count := rfl

@[simp] theorem core_close_failed (a : Nat) (s : State) : (core_close a s).failed = s.failed := rfl

@[simp] theorem core_close_answered (a : Nat) (s : State) :
    (core_close a s).answered = s.answered := rfl

@[simp] theorem core_close_result (a b : Nat) (s : State) :
    ((core_close a s).attempt b).result = (s.attempt b).result := by
  unfold core_close
  dsimp only
  by_cases h : b = a
  · subst h
    rw [Function.update_self]
  · rw [Function.update_of_ne h]

@[simp] theorem sess_failure_failed (s : State) : (sess_failure p s).failed = true := by
  unfold sess_failure
  split
  · assumption
  · rfl

@[simp] theorem sess_failure_count (s : State) : (sess_failure p s).count = s.count := by
  unfold sess_failure
  split <;> rfl

@[simp] theorem sess_failure_answered (s : State) : (sess_failure p s).answered = s.answered := by
  unfold sess_failure
  split <;> rfl

@[simp] theorem sess_failure_result (s : State) (b : Nat) :
    ((sess_failure p s).attempt b).result = (s.attempt b).result := by
  unfold sess_failure
  split
  · rfl
  · dsimp only
    split <;> rfl

theorem core_close_lastLives (a : Nat) (s : State) : LastLives (core_close a s) ↔ LastLives s := by
  unfold LastLives
  rw [core_close_count, core_close_result]

theorem sess_failure_lastLives (s : State) : LastLives (sess_failure p s) ↔ LastLives s := by
  unfold LastLives
  rw [sess_failure_count, sess_failure_result]

theorem conn_new_lastLives (k : Nat) (r : Result) (s : State) :
    LastLives (conn_new k r s) ↔ r ≠ .fails := by
  unfold LastLives conn_new
  dsimp only
  rw [Nat.add_sub_cancel, Function.update_self]

theorem conn_failed_retry (hretry : p.retry_on_failure = true) (create : State → State) (k : Nat)
    (s : State) : conn_failed p create k s = create { s with answered := s.answered + 1 } :=
  if_pos (Or.inr hretry)

/-- With retries, each failed attempt is answered. -/
theorem create_conn_answered (hretry : p.retry_on_failure = true) (k : Nat) (last : Last) (n : Nat)
    (s : State) : (create_conn p k last n s).answered = s.answered + n := by
  induction n generalizing s with
  | zero =>
    cases last with
    | connected => rfl
    | in_progress => rfl
    | no_memory => exact sess_failure_answered _
  | succ n ih =>
    unfold create_conn
    rw [sess_failure_answered, core_close_answered, conn_failed_retry hretry, ih]
    dsimp only [conn_new]
    omega

theorem create_conn_count (hretry : p.retry_on_failure = true) (k : Nat) (last : Last) (n : Nat)
    (s : State) :
    (create_conn p k last n s).count = s.count + n + if last = .no_memory then 0 else 1 := by
  induction n generalizing s with
  | zero =>
    cases last with
    | connected => rfl
    | in_progress => rfl
    | no_memory => exact sess_failure_count _
  | succ n ih =>
    unfold create_conn
    rw [sess_failure_count, core_close_count, conn_failed_retry hretry, ih]
    dsimp only [conn_new]
    omega

/-- The attempt that started last is the one that did not fail, or, without memory for it, the last
of those that did. -/
theorem create_conn_lastLives (hretry : p.retry_on_failure = true) (k : Nat) (last : Last) (n : Nat)
    (s : State) (hstarted : s.count < (create_conn p k last n s).count) :
    LastLives (create_conn p k last n s) ↔ last ≠ .no_memory := by
  induction n generalizing s with
  | zero =>
    cases last with
    | connected => exact (conn_new_lastLives k .connected s).trans (by decide)
    | in_progress => exact (conn_new_lastLives k .in_progress s).trans (by decide)
    | no_memory =>
      rw [create_conn_count hretry, if_pos rfl] at hstarted
      exact absurd hstarted (Nat.lt_irrefl _)
  | succ n ih =>
    have hstep : create_conn p k last (n + 1) s = sess_failure p (core_close s.count
        (create_conn p k last n { conn_new k .fails s with answered := s.answered + 1 })) := by
      rw [create_conn, conn_failed_retry hretry]
      rfl
    rw [hstep, sess_failure_lastLives, core_close_lastLives]
    by_cases hn : n = 0 ∧ last = .no_memory
    · obtain ⟨rfl, rfl⟩ := hn
      refine ⟨fun h => ?_, fun h => absurd rfl h⟩
      exact absurd ((sess_failure_lastLives _).mp h)
        (fun h => (conn_new_lastLives k .fails s).mp h rfl)
    · apply ih
      rw [create_conn_count hretry]
      by_cases hlast : last = .no_memory
      · have hpos : n ≠ 0 := fun h => hn ⟨h, hlast⟩
        omega
      · rw [if_neg hlast]
        omega

/-- Every `core_connect` that fails has its `create_conn` end the session. -/
theorem create_conn_failed (k : Nat) (last : Last) (n : Nat) (s : State) (hs : s.failed = false) :
    (create_conn p k last n s).failed = false ↔ n = 0 ∧ last ≠ .no_memory := by
  cases n with
  | succ n =>
    unfold create_conn
    rw [sess_failure_failed]
    exact ⟨fun h => (nomatch h), fun h => (nomatch h.1)⟩
  | zero =>
    cases last with
    | connected => exact ⟨fun _ => ⟨rfl, by decide⟩, fun _ => hs⟩
    | in_progress => exact ⟨fun _ => ⟨rfl, by decide⟩, fun _ => hs⟩
    | no_memory =>
      unfold create_conn
      dsimp only
      rw [sess_failure_failed]
      exact ⟨fun h => (nomatch h), fun h => absurd rfl h.2⟩

/-! ## The law -/

theorem kept_issue_iff (s : State) (k : Nat) (o : Results) :
    Kept p s (.issue k o) ↔ Direct p s (.issue k o) := by
  unfold Kept Direct Settled
  refine imp_congr_right fun hretry => imp_congr_right fun hs => ?_
  dsimp only [step]
  by_cases hconn : s.conn k = none
  · rw [if_pos hconn, create_conn_answered hretry, create_conn_failed k o.last o.fails s hs]
    constructor
    · intro h _
      by_cases hfails : o.fails = 0
      · exact .inl hfails
      · refine .inr (by_contra fun hlast => hfails ?_)
        have hcount := create_conn_count hretry k o.last o.fails s
        rw [if_neg hlast] at hcount
        have hstarted : s.count < (create_conn p k o.last o.fails s).count := by omega
        exact (h (by omega) hstarted
          ((create_conn_lastLives hretry k o.last o.fails s hstarted).mpr hlast)).1
    · intro h hanswered hstarted hlives
      have hlast := (create_conn_lastLives hretry k o.last o.fails s hstarted).mp hlives
      exact ⟨(h hconn).resolve_right hlast, hlast⟩
  · rw [if_neg hconn]
    exact ⟨fun _ h => absurd h hconn, fun _ h => absurd h (Nat.lt_irrefl _)⟩

theorem kept_fails_iff (s : State) (a : Nat) (o : Results) :
    Kept p s (.fails a o) ↔ Direct p s (.fails a o) := by
  unfold Kept Direct Settled
  refine imp_congr_right fun hretry => imp_congr_right fun hs => ?_
  dsimp only [step]
  by_cases halive : s.Alive a
  · rw [if_pos halive, conn_failed_retry hretry, core_close_answered, core_close_count,
      core_close_failed, core_close_lastLives]
    generalize hk : (s.attempt a).ci = k
    have hfailed := create_conn_failed (p := p) k o.last o.fails
      { s.ends a .fails with answered := s.answered + 1 } hs
    have hlives := create_conn_lastLives hretry k o.last o.fails
      { s.ends a .fails with answered := s.answered + 1 }
    have hcount := create_conn_count hretry k o.last o.fails
      { s.ends a .fails with answered := s.answered + 1 }
    have hanswered := create_conn_answered hretry k o.last o.fails
      { s.ends a .fails with answered := s.answered + 1 }
    dsimp only [State.ends] at hfailed hlives hcount hanswered ⊢
    rw [hfailed]
    constructor
    · intro h _
      by_cases hfails : o.fails = 0
      · exact .inl hfails
      · refine .inr (by_contra fun hlast => hfails ?_)
        rw [if_neg hlast] at hcount
        exact (h (by omega) (by omega) ((hlives (by omega)).mpr hlast)).1
    · intro h _ hstarted hlast
      have hlast := (hlives hstarted).mp hlast
      exact ⟨(h halive).resolve_right hlast, hlast⟩
  · rw [if_neg halive]
    exact ⟨fun _ h => absurd h halive, fun _ h => absurd h (Nat.lt_irrefl _)⟩

/-- The other events start no attempt. -/
theorem step_count (s : State) (x : Step) (hissue : ∀ k o, x ≠ .issue k o)
    (hfails : ∀ a o, x ≠ .fails a o) : (step p s x).count = s.count := by
  cases x with
  | issue k o => exact absurd rfl (hissue k o)
  | fails a o => exact absurd rfl (hfails a o)
  | completes a =>
    unfold step
    dsimp only
    split <;> rfl
  | reply k => rfl
  | forget k =>
    unfold step
    dsimp only
    split <;> rfl
  | timeout a =>
    unfold step
    dsimp only
    split
    · exact sess_failure_count s
    · rfl
  | dies => exact sess_failure_count s

theorem kept_iff (s : State) (x : Step) : Kept p s x ↔ Direct p s x := by
  have hidle : (step p s x).count = s.count → Kept p s x := by
    intro h _ _ _ hstarted
    rw [h] at hstarted
    exact absurd hstarted (Nat.lt_irrefl _)
  cases x with
  | issue k o => exact kept_issue_iff s k o
  | fails a o => exact kept_fails_iff s a o
  | completes a => exact iff_of_true (hidle (step_count s _ nofun nofun)) trivial
  | reply k => exact iff_of_true (hidle (step_count s _ nofun nofun)) trivial
  | forget k => exact iff_of_true (hidle (step_count s _ nofun nofun)) trivial
  | timeout a => exact iff_of_true (hidle (step_count s _ nofun nofun)) trivial
  | dies => exact iff_of_true (hidle (step_count s _ nofun nofun)) trivial

/-- A session outlives its failed attempts exactly when none of them fails inside the `core_connect`
of an event that brings it a connection. -/
theorem reconnected_session_lives_iff (p : Param) (steps : List Step) :
    Runs.Meets (step p) (Kept p) init steps ↔ Runs.Meets (step p) (Direct p) init steps :=
  Runs.meets_iff_meets_of_invariant (fun s x _ => kept_iff s x) (fun _ _ _ _ => trivial)
    (Q := fun _ => True) trivial steps

/-- The first attempt fails, and the second, made in its handler, is connected. -/
theorem a_connected_session_fails :
    ¬ Runs.Meets (step ⟨1, true⟩) (Kept ⟨1, true⟩) init [.issue 0 ⟨1, .connected⟩] := by
  rintro ⟨hkept, _⟩
  exact absurd hkept (by decide)

end Httperf.Reconnect
