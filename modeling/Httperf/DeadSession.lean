-- What the generators of sessions do when a session fails (`wsess.c`, `wsesslog.c`, `wsesspage.c`
-- with `session.c`). The pending calls are destroyed with the session, and the handlers of
-- `EV_CALL_DESTROYED` run on it once more. A connection that fails inside `issue_calls` fails the
-- session in the middle of the loop.
import Httperf.Lib.Runs
import Mathlib.Data.Nat.Basic
import Mathlib.Algebra.GroupWithZero.Nat
import Mathlib.Logic.Function.Iterate

namespace Httperf.DeadSession

/-- The session, with the private data of its generator. `ended` is a session that was destroyed at
its end, and `exited` a program that ended. `on_dead` is no field of the source: it counts the calls
of `session_issue_call` and of `timer_schedule` for the session when it has failed or ended. The
counters of the generators are `u_int` and `int`: from 2^31 calls of one session on they differ from
the numbers here. -/
structure Sess (σ : Type) where
  priv : σ
  pending : Nat
  timer : Bool
  failed : Bool
  ended : Bool
  exited : Bool
  on_dead : Nat

/-- A turn of the loop of `issue_calls`. -/
inductive Turn (σ : Type) where
  | stop
  | panic
  | call (priv : σ)

/-- What the handler of `EV_CALL_DESTROYED` comes to. -/
inductive Action where
  | nothing
  | issue_calls
  | schedule
  | sess_dec_ref
  | null_pointer
  deriving DecidableEq, Repr

/-- A generator of sessions. `to_create` gets the room in the queue of the session, and gives the
number of turns of the loop, and whether the calls are for embedded objects. `destroyed` gets
`sess->failed`. -/
structure Generator (σ : Type) where
  to_create : Nat → σ → Option (Nat × Bool × σ)
  turn : Bool → σ → Turn σ
  destroyed : Bool → σ → Action × σ
  /-- `fetch_uri` puts the URI into a list -/
  fetch_uri : Option (σ → σ)

/-! ## The generators -/

namespace Wsess

structure Param where
  num_calls : Nat
  burst_len : Nat

structure Priv where
  num_calls_in_this_burst : Nat
  num_calls_target : Nat
  num_calls_destroyed : Nat
  deriving DecidableEq, Repr

variable (p : Param)

def to_create (s : Priv) : Nat :=
  if s.num_calls_in_this_burst > 0 then p.burst_len - s.num_calls_in_this_burst else 1

def call_destroyed (failed : Bool) (s : Priv) : Action × Priv :=
  let s1 := { s with num_calls_destroyed := s.num_calls_destroyed + 1 }
  if s1.num_calls_destroyed ≥ p.num_calls then (if failed then .nothing else .sess_dec_ref, s1)
  else if s1.num_calls_in_this_burst < p.burst_len then (.issue_calls, s1)
  else if s1.num_calls_destroyed ≥ s1.num_calls_target then
    (.schedule, { s1 with
      num_calls_in_this_burst := 0
      num_calls_target := s1.num_calls_target + p.burst_len })
  else (.nothing, s1)

def generator : Generator Priv where
  to_create _ s := some (to_create p s, false,
    { s with num_calls_in_this_burst := s.num_calls_in_this_burst + to_create p s })
  turn _ s := .call s
  destroyed := call_destroyed p
  fetch_uri := none

def sess_new : Priv := ⟨0, p.burst_len, 0⟩

end Wsess

namespace Wsesslog

/-- `bursts` holds the numbers of requests of `current_burst` and of the bursts behind it, and
`reqs` the number of requests from `current_req` on. -/
structure Priv where
  num_calls_in_this_burst : Nat
  num_calls_target : Nat
  num_calls_destroyed : Nat
  total_num_reqs : Nat
  bursts : List Nat
  reqs : Nat
  deriving DecidableEq, Repr

/-- `issue_calls` counts the calls that find room. -/
def to_create (room : Nat) (s : Priv) : Option (Nat × Bool × Priv) :=
  let issue (n : Nat) := some (min n room, false,
    { s with num_calls_in_this_burst := s.num_calls_in_this_burst + min n room })
  if s.num_calls_in_this_burst > 0 then
    match s.bursts with
    | [] => none
    | num_reqs :: _ => issue (num_reqs - s.num_calls_in_this_burst)
  else issue 1

def prepare_for_next_burst (s : Priv) : Action × Priv :=
  match s.bursts with
  | [] => (.nothing, s)
  | [_] => (.nothing, { s with bursts := [] })
  | _ :: next :: rest =>
    (.schedule, { s with
      bursts := next :: rest
      reqs := next
      num_calls_in_this_burst := 0
      num_calls_target := s.num_calls_target + next })

def call_destroyed (failed : Bool) (s : Priv) : Action × Priv :=
  if failed then (.nothing, s)
  else
    let s1 := { s with num_calls_destroyed := s.num_calls_destroyed + 1 }
    if s1.num_calls_destroyed ≥ s1.total_num_reqs then (.sess_dec_ref, s1)
    else
      match s1.bursts with
      | [] => (.null_pointer, s1)
      | num_reqs :: _ =>
        if s1.num_calls_in_this_burst < num_reqs then (.issue_calls, s1)
        else if s1.num_calls_destroyed ≥ s1.num_calls_target then prepare_for_next_burst s1
        else (.nothing, s1)

def generator : Generator Priv where
  to_create := to_create
  turn _ s := if s.reqs = 0 then .panic else .call { s with reqs := s.reqs - 1 }
  destroyed := call_destroyed
  fetch_uri := none

/-- A session that follows a template, by the numbers of requests of its bursts. -/
def sess_new (bursts : List Nat) : Priv :=
  ⟨0, bursts.headD 0, 0, bursts.sum, bursts, bursts.headD 0⟩

end Wsesslog

namespace Wsesspage

/-- `uri_list` is the length of the list. -/
structure Priv where
  num_created : Nat
  num_destroyed : Nat
  num_reqs_completed : Nat
  uri_list : Nat
  deriving DecidableEq, Repr

def call_destroyed (num_reqs : Nat) (failed : Bool) (s : Priv) : Action × Priv :=
  let s1 := { s with num_destroyed := s.num_destroyed + 1 }
  if failed then (.nothing, s1)
  else if s1.uri_list ≠ 0 then (.issue_calls, s1)
  else if s1.num_destroyed ≥ s1.num_created then
    let s2 := { s1 with num_reqs_completed := s1.num_reqs_completed + 1 }
    if s2.num_reqs_completed ≥ num_reqs then (.sess_dec_ref, s2)
    else (.schedule, { s2 with num_created := 0 })
  else (.nothing, s1)

def turn (embedded : Bool) (s : Priv) : Turn Priv :=
  if embedded then
    if s.uri_list = 0 then .stop
    else .call { s with num_created := s.num_created + 1, uri_list := s.uri_list - 1 }
  else .call { s with num_created := s.num_created + 1 }

def generator (num_reqs : Nat) : Generator Priv where
  to_create room s := if s.num_created > 0 then some (room, true, s) else some (1, false, s)
  turn := turn
  destroyed := call_destroyed num_reqs
  fetch_uri := some fun s => { s with uri_list := s.uri_list + 1 }

def sess_new : Priv := ⟨0, 0, 0, 0⟩

end Wsesspage

/-! ## The session -/

variable {σ : Type} (G : Generator σ) (max_qlen : Nat)

/-- The loop of `issue_calls` on a dead session. What becomes of the calls is not followed. -/
def dead_loop (embedded : Bool) : Nat → Sess σ → Sess σ
  | 0, s => s
  | n + 1, s =>
    match G.turn embedded s.priv with
    | .stop => s
    | .panic => { s with exited := true }
    | .call priv => dead_loop embedded n { s with priv, on_dead := s.on_dead + 1 }

def dead_issue_calls (s : Sess σ) : Sess σ :=
  match G.to_create (max_qlen - s.pending) s.priv with
  | none => { s with exited := true }
  | some (n, embedded, priv) => dead_loop G embedded n { s with priv }

/-- `EV_CALL_DESTROYED` for a call of a dead session. The assertion of `object_dec_ref` fails when
the session has no reference any more. -/
def dead_destroyed (s : Sess σ) : Sess σ :=
  if s.exited then s
  else
    let r := G.destroyed s.failed s.priv
    let s1 := { s with priv := r.2 }
    match r.1 with
    | .nothing => s1
    | .issue_calls => dead_issue_calls G max_qlen s1
    | .schedule =>
      if s1.timer then { s1 with exited := true }
      else { s1 with timer := true, on_dead := s1.on_dead + 1 }
    | .sess_dec_ref => { s1 with exited := true }
    | .null_pointer => { s1 with exited := true }

/-- `sess_destroyed` of `session.c` gives up the pending calls, and `n` of them have no other
reference. The rings keep their counts. -/
def sess_destroyed : Nat → Sess σ → Sess σ
  | 0, s => s
  | n + 1, s => sess_destroyed n (dead_destroyed G max_qlen s)

/-- `EV_SESS_DESTROYED`. The handler of the generator comes behind the one of `session.c`, and
cancels the timer. -/
def sess_destroy (n : Nat) (s : Sess σ) : Sess σ :=
  { sess_destroyed G max_qlen n s with timer := false }

def sess_failure (n : Nat) (s : Sess σ) : Sess σ :=
  sess_destroy G max_qlen n { s with failed := true }

/-- The loop of `issue_calls`. `fails` is the turn in which `core_connect` fails, if it does in one.
The call of that turn is destroyed when `issue_calls` gives up its reference. -/
def issue_loop (embedded : Bool) : Nat → Option Nat → Sess σ → Sess σ
  | 0, _, s => s
  | n + 1, fails, s =>
    match G.turn embedded s.priv with
    | .stop => s
    | .panic => { s with exited := true }
    | .call priv =>
      let s1 := { s with priv }
      if s1.pending ≥ max_qlen then { s1 with exited := true }
      else
        match fails with
        | some 0 =>
          let s2 := sess_failure G max_qlen s1.pending { s1 with pending := s1.pending + 1 }
          let s3 := dead_destroyed G max_qlen s2
          if s3.exited then s3 else dead_loop G embedded n s3
        | some (k + 1) => issue_loop embedded n (some k) { s1 with pending := s1.pending + 1 }
        | none => issue_loop embedded n none { s1 with pending := s1.pending + 1 }

def issue_calls (fails : Option Nat) (s : Sess σ) : Sess σ :=
  match G.to_create (max_qlen - s.pending) s.priv with
  | none => { s with exited := true }
  | some (n, embedded, priv) => issue_loop G max_qlen embedded n fails { s with priv }

/-- `EV_CALL_DESTROYED` for a call of a session that goes on. -/
def call_destroyed (fails : Option Nat) (s : Sess σ) : Sess σ :=
  let r := G.destroyed s.failed s.priv
  let s1 := { s with priv := r.2 }
  match r.1 with
  | .nothing => s1
  | .issue_calls => issue_calls G max_qlen fails s1
  | .schedule => if s1.timer then { s1 with exited := true } else { s1 with timer := true }
  | .sess_dec_ref => sess_destroy G max_qlen s1.pending { s1 with ended := true }
  | .null_pointer => { s1 with exited := true }

/-- A URI that `call_recv_data` finds. It goes on with the data when the session has failed. -/
def found (s : Sess σ) (fails : Option Nat) : Sess σ :=
  match G.fetch_uri with
  | none => s
  | some fetch =>
    if s.exited then s
    else if s.failed then dead_issue_calls G max_qlen { s with priv := fetch s.priv }
    else issue_calls G max_qlen fails { s with priv := fetch s.priv }

/-! ## Runs -/

/-- What happens to a session. A step that issues calls says in which turn `core_connect` fails. -/
inductive Step where
  /-- a call is done and destroyed -/
  | completed (fails : Option Nat)
  /-- the think timer expires -/
  | think (fails : Option Nat)
  /-- the data of a reply holds some URIs -/
  | data (fails : List (Option Nat))
  /-- a reply has the failure status. A call that is tried again is back in its ring when
  `core_connect` fails. -/
  | refused (retry : Bool)
  /-- a timeout, or a connection that fails -/
  | fail
  deriving DecidableEq, Repr

/-- The session goes on. -/
def Live (s : Sess σ) : Prop := s.failed = false ∧ s.ended = false ∧ s.exited = false

instance (s : Sess σ) : Decidable (Live s) := inferInstanceAs (Decidable (_ ∧ _))

def step (s : Sess σ) (x : Step) : Sess σ :=
  if Live s then
    match x with
    | .completed fails =>
      if 0 < s.pending then call_destroyed G max_qlen fails { s with pending := s.pending - 1 }
      else s
    | .think fails => if s.timer then issue_calls G max_qlen fails { s with timer := false } else s
    | .data fails => if 0 < s.pending then fails.foldl (found G max_qlen) s else s
    | .refused retry =>
      if 0 < s.pending then
        dead_destroyed G max_qlen (sess_failure G max_qlen (s.pending - 1)
          { s with pending := if retry then s.pending else s.pending - 1 })
      else s
    | .fail => sess_failure G max_qlen s.pending s
  else s

def sess_new (priv : σ) : Sess σ := ⟨priv, 0, false, false, false, false, 0⟩

def sess_create (priv : σ) (fails : Option Nat) : Sess σ :=
  issue_calls G max_qlen fails (sess_new priv)

/-- Nothing is issued or scheduled for a session that is dead. -/
def Quiet (s : Sess σ) : Prop := s.on_dead = 0

/-! ## The conditions -/

/-- How many calls the loop of `issue_calls` makes in up to `n` turns. -/
def turns (embedded : Bool) : Nat → σ → Nat
  | 0, _ => 0
  | n + 1, s =>
    match G.turn embedded s with
    | .call s' => turns embedded n s' + 1
    | _ => 0

/-- The private data behind `k` turns. -/
def after (embedded : Bool) : Nat → σ → σ
  | 0, s => s
  | k + 1, s =>
    match G.turn embedded s with
    | .call s' => after embedded k s'
    | _ => s

/-- If `core_connect` fails in a turn, it is the last one of the loop, and the calls that are
destroyed then leave the generator `settled`. -/
def LoopSpares (settled : σ → Nat → Prop) (s : Sess σ) (fails : Option Nat) : Prop :=
  ∀ n embedded priv k, G.to_create (max_qlen - s.pending) s.priv = some (n, embedded, priv) →
    fails = some k → k < turns G embedded n priv → s.pending + k < max_qlen →
    k + 1 = turns G embedded n priv ∧ settled (after G embedded (k + 1) priv) (s.pending + k + 1)

/-- A URI that is found when the session has failed finds no room. -/
def FoundSpares (settled : σ → Nat → Prop) (s : Sess σ) (fails : Option Nat) : Prop :=
  ∀ fetch, G.fetch_uri = some fetch → s.exited = false →
    if s.failed then ∀ n embedded priv,
      G.to_create (max_qlen - s.pending) (fetch s.priv) = some (n, embedded, priv) →
        turns G embedded n priv = 0
    else LoopSpares G max_qlen settled { s with priv := fetch s.priv } fails

/-- What a step must not run into. -/
def Spares (settled : σ → Nat → Prop) (s : Sess σ) (x : Step) : Prop :=
  Live s →
    match x with
    | .completed fails => 0 < s.pending → (G.destroyed false s.priv).1 = .issue_calls →
      LoopSpares G max_qlen settled
        { s with priv := (G.destroyed false s.priv).2, pending := s.pending - 1 } fails
    | .think fails => s.timer → LoopSpares G max_qlen settled { s with timer := false } fails
    | .data fails => 0 < s.pending →
      Runs.Meets (found G max_qlen) (FoundSpares G max_qlen settled) s fails
    | .refused _ => settled s.priv s.pending
    | .fail => settled s.priv s.pending

/-- The same for the whole run, from `sess_create` on. -/
def RunSpares (settled : σ → Nat → Prop) (priv : σ) (fails : Option Nat) (steps : List Step) :
    Prop :=
  LoopSpares G max_qlen settled (sess_new priv) fails ∧
    Runs.Meets (step G max_qlen) (Spares G max_qlen settled)
      (sess_create G max_qlen priv fails) steps

/-- What the handler of `EV_CALL_DESTROYED` makes of the private data of a failed session. -/
def dies (s : σ) : σ := (G.destroyed true s).2

/-- What the proofs need of a generator. -/
structure Lawful (settled : σ → Nat → Prop) : Prop where
  /-- a settled generator does nothing when the pending calls are destroyed -/
  settled_iff : ∀ s m, settled s m ↔ ∀ j < m, (G.destroyed true ((dies G)^[j] s)).1 = .nothing
  /-- and if it does something, it issues a call or schedules the timer -/
  loud : ∀ s, (G.destroyed true s).1 ≠ .nothing → (G.destroyed true s).1 = .schedule ∨
    ((G.destroyed true s).1 = .issue_calls ∧ ∀ room, ∃ n embedded s',
      G.to_create room (dies G s) = some (n, embedded, s') ∧ 0 < turns G embedded n s')
  turns_dies : ∀ embedded n s, turns G embedded n (dies G s) = turns G embedded n s
  /-- the end of a session is the end for each call that is left -/
  ends : ∀ s, (G.destroyed false s).1 = .sess_dec_ref →
    (G.destroyed false (G.destroyed false s).2).1 = .sess_dec_ref
  /-- a generator that looks for URIs is always settled -/
  heeds : G.fetch_uri ≠ none → ∀ s m, settled s m

/-- The timer does not run, where it matters. -/
def Unscheduled (settled : σ → Nat → Prop) (s : Sess σ) : Prop :=
  s.timer = false ∨ ∀ priv m, settled priv m

/-- The timer runs between the bursts, when no call is pending. -/
def Idle (settled : σ → Nat → Prop) (s : Sess σ) : Prop := 0 < s.pending → Unscheduled settled s

/-! ## Dead sessions -/

section

variable {G} {settled : σ → Nat → Prop} {s : Sess σ}

theorem dead_loop_on_dead (embedded : Bool) (n : Nat) (s : Sess σ) :
    (dead_loop G embedded n s).on_dead = s.on_dead + turns G embedded n s.priv := by
  induction n generalizing s with
  | zero => rfl
  | succ n ih =>
    unfold dead_loop turns
    cases G.turn embedded s.priv with
    | stop => rfl
    | panic => rfl
    | call priv =>
      dsimp only
      rw [ih]
      dsimp only
      omega

theorem dead_issue_calls_on_dead (s : Sess σ) :
    s.on_dead ≤ (dead_issue_calls G max_qlen s).on_dead := by
  unfold dead_issue_calls
  split
  · exact Nat.le_refl _
  · rw [dead_loop_on_dead]
    exact Nat.le_add_right _ _

theorem dead_destroyed_on_dead (s : Sess σ) :
    s.on_dead ≤ (dead_destroyed G max_qlen s).on_dead := by
  unfold dead_destroyed
  split
  · exact Nat.le_refl _
  · dsimp only
    split
    · exact Nat.le_refl _
    · exact dead_issue_calls_on_dead max_qlen { s with priv := (G.destroyed s.failed s.priv).2 }
    · split
      · exact Nat.le_refl _
      · exact Nat.le_succ _
    · exact Nat.le_refl _
    · exact Nat.le_refl _

theorem sess_destroyed_on_dead (n : Nat) (s : Sess σ) :
    s.on_dead ≤ (sess_destroyed G max_qlen n s).on_dead := by
  induction n generalizing s with
  | zero => exact Nat.le_refl _
  | succ n ih => exact Nat.le_trans (dead_destroyed_on_dead max_qlen s) (ih _)

theorem sess_failure_on_dead (n : Nat) (s : Sess σ) :
    s.on_dead ≤ (sess_failure G max_qlen n s).on_dead :=
  sess_destroyed_on_dead max_qlen n { s with failed := true }

/-- A dead session stays dead. -/
theorem dead_loop_dead (embedded : Bool) (n : Nat) (s : Sess σ) :
    (dead_loop G embedded n s).failed = s.failed ∧ (dead_loop G embedded n s).ended = s.ended := by
  induction n generalizing s with
  | zero => exact ⟨rfl, rfl⟩
  | succ n ih =>
    unfold dead_loop
    split
    · exact ⟨rfl, rfl⟩
    · exact ⟨rfl, rfl⟩
    · exact ih _

theorem dead_destroyed_dead (s : Sess σ) : (dead_destroyed G max_qlen s).failed = s.failed ∧
    (dead_destroyed G max_qlen s).ended = s.ended := by
  unfold dead_destroyed
  split
  · exact ⟨rfl, rfl⟩
  · dsimp only
    split
    · exact ⟨rfl, rfl⟩
    · unfold dead_issue_calls
      split
      · exact ⟨rfl, rfl⟩
      · rename_i n embedded priv _
        exact dead_loop_dead embedded n _
    · split
      · exact ⟨rfl, rfl⟩
      · exact ⟨rfl, rfl⟩
    · exact ⟨rfl, rfl⟩
    · exact ⟨rfl, rfl⟩

theorem sess_destroy_dead (n : Nat) (s : Sess σ) : (sess_destroy G max_qlen n s).failed = s.failed ∧
    (sess_destroy G max_qlen n s).ended = s.ended := by
  unfold sess_destroy
  dsimp only
  induction n generalizing s with
  | zero => exact ⟨rfl, rfl⟩
  | succ n ih =>
    obtain ⟨hf, ho⟩ := ih (dead_destroyed G max_qlen s)
    obtain ⟨hf', ho'⟩ := dead_destroyed_dead (G := G) max_qlen s
    exact ⟨hf.trans hf', ho.trans ho'⟩

theorem dead_destroyed_nothing (hf : s.failed = true) (he : s.exited = false)
    (h : (G.destroyed true s.priv).1 = .nothing) :
    dead_destroyed G max_qlen s = { s with priv := dies G s.priv } := by
  unfold dead_destroyed
  rw [he, if_neg Bool.false_ne_true, hf]
  dsimp only
  rw [h]
  rfl

theorem dead_destroyed_loud (hG : Lawful G settled) (hf : s.failed = true) (he : s.exited = false)
    (ht : Unscheduled settled s) (h : (G.destroyed true s.priv).1 ≠ .nothing) :
    s.on_dead < (dead_destroyed G max_qlen s).on_dead := by
  have htimer : s.timer = false := by
    obtain ht | hall := ht
    · exact ht
    · have hsettled := (hG.settled_iff s.priv 1).mp (hall s.priv 1)
      exact absurd (hsettled 0 Nat.zero_lt_one) h
  unfold dead_destroyed
  rw [he, if_neg Bool.false_ne_true, hf]
  dsimp only
  obtain hschedule | ⟨hissue, hroom⟩ := hG.loud s.priv h
  · rw [hschedule]
    dsimp only
    rw [htimer, if_neg Bool.false_ne_true]
    exact Nat.lt_succ_self _
  · obtain ⟨n, embedded, priv, hcreate, hpos⟩ := hroom (max_qlen - s.pending)
    rw [hissue]
    dsimp only [dead_issue_calls]
    rw [show (G.destroyed true s.priv).2 = dies G s.priv from rfl, hcreate]
    dsimp only
    rw [dead_loop_on_dead]
    dsimp only
    omega

/-- A failed session destroys its calls in silence exactly when the generator is settled. -/
theorem sess_destroyed_quiet_iff (hG : Lawful G settled) (n : Nat) (hf : s.failed = true)
    (he : s.exited = false) (ht : Unscheduled settled s) (hq : Quiet s) :
    Quiet (sess_destroyed G max_qlen n s) ↔ settled s.priv n := by
  rw [hG.settled_iff]
  induction n generalizing s with
  | zero => exact ⟨fun _ j hj => absurd hj (Nat.not_lt_zero j), fun _ => hq⟩
  | succ n ih =>
    unfold sess_destroyed
    by_cases h : (G.destroyed true s.priv).1 = .nothing
    · rw [dead_destroyed_nothing max_qlen hf he h]
      have ih' := ih (s := { s with priv := dies G s.priv }) hf he ht hq
      rw [ih']
      constructor
      · intro hall j hj
        cases j with
        | zero => exact h
        | succ j => exact hall j (by omega)
      · intro hall j hj
        exact hall (j + 1) (by omega)
    · have hloud := dead_destroyed_loud max_qlen hG hf he ht h
      constructor
      · intro hquiet
        have hle := sess_destroyed_on_dead (G := G) max_qlen n (dead_destroyed G max_qlen s)
        unfold Quiet at hquiet
        omega
      · intro hall
        exact absurd (hall 0 (Nat.succ_pos n)) h

theorem sess_destroyed_nothing (hG : Lawful G settled) (n : Nat) (hf : s.failed = true)
    (he : s.exited = false) (h : settled s.priv n) :
    sess_destroyed G max_qlen n s = { s with priv := (dies G)^[n] s.priv } := by
  rw [hG.settled_iff] at h
  induction n generalizing s with
  | zero => rfl
  | succ n ih =>
    unfold sess_destroyed
    rw [dead_destroyed_nothing max_qlen hf he (h 0 (Nat.succ_pos n))]
    have ih' := ih (s := { s with priv := dies G s.priv }) hf he fun j hj => h (j + 1) (by omega)
    rw [ih']
    rfl

theorem sess_destroyed_exited (n : Nat) (he : s.exited = true) :
    sess_destroyed G max_qlen n s = s := by
  induction n with
  | zero => rfl
  | succ n ih =>
    unfold sess_destroyed
    rw [dead_destroyed, if_pos he]
    exact ih

/-- At the end of a session the calls that are left end the program. -/
theorem sess_destroyed_ended (hG : Lawful G settled) (n : Nat) (hf : s.failed = false)
    (he : s.exited = false) (h : (G.destroyed false s.priv).1 = .sess_dec_ref) (hq : Quiet s) :
    Quiet (sess_destroyed G max_qlen n { s with priv := (G.destroyed false s.priv).2 }) := by
  cases n with
  | zero => exact hq
  | succ n =>
    have hdead : dead_destroyed G max_qlen { s with priv := (G.destroyed false s.priv).2 } =
        { s with
          priv := (G.destroyed false (G.destroyed false s.priv).2).2
          exited := true } := by
      unfold dead_destroyed
      dsimp only
      rw [he, if_neg Bool.false_ne_true, hf, hG.ends s.priv h]
    unfold sess_destroyed
    rw [hdead, sess_destroyed_exited max_qlen n rfl]
    exact hq

/-! ## Sessions that fail -/

theorem turns_iterate (hG : Lawful G settled) (embedded : Bool) (n m : Nat) (priv : σ) :
    turns G embedded n ((dies G)^[m] priv) = turns G embedded n priv := by
  induction m generalizing priv with
  | zero => rfl
  | succ m ih => rw [Function.iterate_succ_apply, ih, hG.turns_dies]

theorem sess_failure_quiet_iff (hG : Lawful G settled) (n : Nat) (he : s.exited = false)
    (ht : Unscheduled settled s) (hq : Quiet s) :
    Quiet (sess_failure G max_qlen n s) ↔ settled s.priv n :=
  sess_destroyed_quiet_iff max_qlen hG n (s := { s with failed := true }) rfl he ht hq

theorem sess_failure_nothing (hG : Lawful G settled) (n : Nat) (he : s.exited = false)
    (h : settled s.priv n) :
    sess_failure G max_qlen n s =
      { s with priv := (dies G)^[n] s.priv, failed := true, timer := false } := by
  have hnothing := sess_destroyed_nothing max_qlen hG n (s := { s with failed := true }) rfl he h
  unfold sess_failure sess_destroy
  rw [hnothing]

/-- The call that is in use when the session fails is destroyed behind the others. -/
theorem last_destroyed_quiet_iff (hG : Lawful G settled) (n : Nat) (he : s.exited = false)
    (ht : Unscheduled settled s) (hq : Quiet s) :
    Quiet (dead_destroyed G max_qlen (sess_failure G max_qlen n s)) ↔ settled s.priv (n + 1) := by
  have hstep : settled s.priv (n + 1) ↔
      settled s.priv n ∧ (G.destroyed true ((dies G)^[n] s.priv)).1 = .nothing := by
    rw [hG.settled_iff, hG.settled_iff]
    constructor
    · intro hall
      exact ⟨fun j hj => hall j (by omega), hall n (Nat.lt_succ_self n)⟩
    · rintro ⟨hall, hn⟩ j hj
      by_cases hjn : j = n
      · rw [hjn]
        exact hn
      · exact hall j (by omega)
  have hfailure := sess_failure_quiet_iff max_qlen hG n he ht hq
  rw [hstep]
  by_cases hn : settled s.priv n
  · rw [sess_failure_nothing max_qlen hG n he hn]
    by_cases hlast : (G.destroyed true ((dies G)^[n] s.priv)).1 = .nothing
    · rw [dead_destroyed_nothing max_qlen (s := { s with
        priv := (dies G)^[n] s.priv
        failed := true
        timer := false }) rfl he hlast]
      exact ⟨fun _ => ⟨hn, hlast⟩, fun _ => hq⟩
    · have hloud := dead_destroyed_loud max_qlen hG (s := { s with
        priv := (dies G)^[n] s.priv
        failed := true
        timer := false }) rfl he (Or.inl rfl) hlast
      constructor
      · intro hquiet
        unfold Quiet at hquiet
        omega
      · intro h
        exact absurd h.2 hlast
  · constructor
    · intro hquiet
      have hle := dead_destroyed_on_dead (G := G) max_qlen (sess_failure G max_qlen n s)
      apply absurd _ hn
      rw [← hfailure]
      unfold Quiet at hquiet ⊢
      omega
    · intro h
      exact absurd h.1 hn

theorem last_destroyed_nothing (hG : Lawful G settled) (n : Nat) (he : s.exited = false)
    (h : settled s.priv (n + 1)) :
    dead_destroyed G max_qlen (sess_failure G max_qlen n s) =
      { s with priv := (dies G)^[n + 1] s.priv, failed := true, timer := false } := by
  rw [hG.settled_iff] at h
  have hn : settled s.priv n := (hG.settled_iff s.priv n).mpr fun j hj => h j (by omega)
  rw [sess_failure_nothing max_qlen hG n he hn, Function.iterate_succ_apply']
  exact dead_destroyed_nothing max_qlen (s := { s with
    priv := (dies G)^[n] s.priv
    failed := true
    timer := false }) rfl he (h n (Nat.lt_succ_self n))

/-- The loop of `issue_calls` goes on with a session that has failed. -/
theorem failed_turn_quiet_iff (hG : Lawful G settled) (embedded : Bool) (n m : Nat)
    (he : s.exited = false) (ht : Unscheduled settled s) (hq : Quiet s) :
    (let s3 := dead_destroyed G max_qlen (sess_failure G max_qlen m s)
     Quiet (if s3.exited then s3 else dead_loop G embedded n s3)) ↔
      turns G embedded n s.priv = 0 ∧ settled s.priv (m + 1) := by
  dsimp only
  have hlast := last_destroyed_quiet_iff max_qlen hG m he ht hq
  by_cases h : settled s.priv (m + 1)
  · rw [last_destroyed_nothing max_qlen hG m he h]
    dsimp only
    rw [he, if_neg Bool.false_ne_true, Quiet, dead_loop_on_dead]
    dsimp only
    rw [turns_iterate hG, show s.on_dead = 0 from hq, Nat.zero_add]
    exact ⟨fun hturns => ⟨hturns, h⟩, fun hboth => hboth.1⟩
  · constructor
    · intro hquiet
      apply absurd _ h
      rw [← hlast]
      unfold Quiet at hquiet ⊢
      split at hquiet
      · exact hquiet
      · rw [dead_loop_on_dead] at hquiet
        omega
    · intro hboth
      exact absurd hboth.2 h

/-! ## The loop of `issue_calls` -/

theorem issue_loop_on_dead (embedded : Bool) (n : Nat) (fails : Option Nat) (s : Sess σ) :
    s.on_dead ≤ (issue_loop G max_qlen embedded n fails s).on_dead := by
  induction n generalizing fails s with
  | zero => exact Nat.le_refl _
  | succ n ih =>
    unfold issue_loop
    split
    · exact Nat.le_refl _
    · exact Nat.le_refl _
    · rename_i priv _
      dsimp only
      split
      · exact Nat.le_refl _
      · split
        · have hfailure := sess_failure_on_dead (G := G) max_qlen s.pending { s with
            priv
            pending := s.pending + 1 }
          have hlast := dead_destroyed_on_dead (G := G) max_qlen (sess_failure G max_qlen s.pending
            { s with priv, pending := s.pending + 1 })
          dsimp only at hfailure
          split
          · omega
          · rw [dead_loop_on_dead]
            omega
        · rename_i _ k
          exact ih (some k) { s with priv, pending := s.pending + 1 }
        · exact ih none { s with priv, pending := s.pending + 1 }

/-- A turn that fails is the last one, and leaves a settled generator. -/
theorem issue_loop_quiet_iff (hG : Lawful G settled) (embedded : Bool) (n : Nat)
    (fails : Option Nat) (he : s.exited = false) (ht : Unscheduled settled s) (hq : Quiet s) :
    Quiet (issue_loop G max_qlen embedded n fails s) ↔
      ∀ k, fails = some k → k < turns G embedded n s.priv → s.pending + k < max_qlen →
        k + 1 = turns G embedded n s.priv ∧
          settled (after G embedded (k + 1) s.priv) (s.pending + k + 1) := by
  induction n generalizing fails s with
  | zero => exact ⟨fun _ k _ hk => absurd hk (Nat.not_lt_zero k), fun _ => hq⟩
  | succ n ih =>
    unfold issue_loop turns after
    cases hturn : G.turn embedded s.priv with
    | stop => exact ⟨fun _ k _ hk => absurd hk (Nat.not_lt_zero k), fun _ => hq⟩
    | panic => exact ⟨fun _ k _ hk => absurd hk (Nat.not_lt_zero k), fun _ => hq⟩
    | call priv =>
      dsimp only
      by_cases hroom : s.pending ≥ max_qlen
      · rw [if_pos hroom]
        exact ⟨fun _ k _ _ hk => by omega, fun _ => hq⟩
      · rw [if_neg hroom]
        match fails with
        | none =>
          have ih' := ih (s := { s with priv, pending := s.pending + 1 }) none he ht hq
          dsimp only at ih' ⊢
          rw [ih']
          exact ⟨fun _ k hk => (nomatch hk), fun _ k hk => nomatch hk⟩
        | some 0 =>
          have hturn' := failed_turn_quiet_iff max_qlen hG embedded n s.pending
            (s := { s with priv, pending := s.pending + 1 }) he ht hq
          dsimp only at hturn' ⊢
          rw [hturn']
          constructor
          · rintro ⟨hturns, hsettled⟩ k hk _ _
            obtain rfl : 0 = k := Option.some.inj hk
            exact ⟨by omega, hsettled⟩
          · intro h
            obtain ⟨hturns, hsettled⟩ := h 0 rfl (Nat.succ_pos _) (by omega)
            exact ⟨by omega, hsettled⟩
        | some (k + 1) =>
          have ih' := ih (s := { s with priv, pending := s.pending + 1 }) (some k) he ht hq
          dsimp only at ih' ⊢
          rw [ih']
          constructor
          · intro h j hj hjt hjr
            obtain rfl : k + 1 = j := Option.some.inj hj
            obtain ⟨hturns, hsettled⟩ := h k rfl (by omega) (by omega)
            refine ⟨by omega, ?_⟩
            rw [show s.pending + (k + 1) + 1 = s.pending + 1 + k + 1 by omega]
            exact hsettled
          · intro h j hj hjt hjr
            obtain rfl : k = j := Option.some.inj hj
            obtain ⟨hturns, hsettled⟩ := h (k + 1) rfl (by omega) (by omega)
            refine ⟨by omega, ?_⟩
            rw [show s.pending + 1 + k + 1 = s.pending + (k + 1) + 1 by omega]
            exact hsettled

theorem issue_calls_on_dead (fails : Option Nat) (s : Sess σ) :
    s.on_dead ≤ (issue_calls G max_qlen fails s).on_dead := by
  unfold issue_calls
  split
  · exact Nat.le_refl _
  · rename_i n embedded priv _
    exact issue_loop_on_dead max_qlen embedded n fails { s with priv }

theorem issue_calls_quiet_iff (hG : Lawful G settled) (fails : Option Nat) (he : s.exited = false)
    (ht : Unscheduled settled s) (hq : Quiet s) :
    Quiet (issue_calls G max_qlen fails s) ↔ LoopSpares G max_qlen settled s fails := by
  unfold issue_calls LoopSpares
  cases hcreate : G.to_create (max_qlen - s.pending) s.priv with
  | none => exact ⟨fun _ _ _ _ _ h => (nomatch h), fun _ => hq⟩
  | some loop =>
    obtain ⟨n, embedded, priv⟩ := loop
    have hloop := issue_loop_quiet_iff max_qlen hG embedded n fails (s := { s with priv }) he ht hq
    dsimp only at hloop ⊢
    rw [hloop]
    constructor
    · rintro h n' embedded' priv' k heq
      obtain ⟨rfl, rfl, rfl⟩ : n = n' ∧ embedded = embedded' ∧ priv = priv' := by simpa using heq
      exact h k
    · intro h k
      exact h n embedded priv k rfl

/-! ## Steps and runs -/

theorem call_destroyed_quiet_iff (hG : Lawful G settled) (fails : Option Nat)
    (hf : s.failed = false) (he : s.exited = false) (ht : Unscheduled settled s) (hq : Quiet s) :
    Quiet (call_destroyed G max_qlen fails s) ↔ ((G.destroyed false s.priv).1 = .issue_calls →
      LoopSpares G max_qlen settled { s with priv := (G.destroyed false s.priv).2 } fails) := by
  unfold call_destroyed
  dsimp only
  rw [hf]
  cases haction : (G.destroyed false s.priv).1 with
  | nothing => exact ⟨fun _ h => (nomatch h), fun _ => hq⟩
  | issue_calls =>
    have hissue := issue_calls_quiet_iff max_qlen hG fails (s := { s with
      priv := (G.destroyed false s.priv).2 }) he ht hq
    rw [hf] at hissue
    dsimp only
    rw [hissue]
    exact ⟨fun h _ => h, fun h => h rfl⟩
  | schedule =>
    dsimp only
    split
    · exact ⟨fun _ h => (nomatch h), fun _ => hq⟩
    · exact ⟨fun _ h => (nomatch h), fun _ => hq⟩
  | sess_dec_ref =>
    have hended := sess_destroyed_ended max_qlen hG s.pending (s := { s with ended := true }) hf he
      haction hq
    rw [hf] at hended
    exact ⟨fun _ h => (nomatch h), fun _ => hended⟩
  | null_pointer => exact ⟨fun _ h => (nomatch h), fun _ => hq⟩

theorem found_on_dead (s : Sess σ) (fails : Option Nat) :
    s.on_dead ≤ (found G max_qlen s fails).on_dead := by
  unfold found
  split
  · exact Nat.le_refl _
  · rename_i fetch _
    split
    · exact Nat.le_refl _
    · split
      · exact dead_issue_calls_on_dead max_qlen { s with priv := fetch s.priv }
      · exact issue_calls_on_dead max_qlen fails { s with priv := fetch s.priv }

theorem found_quiet_iff (hG : Lawful G settled) (fails : Option Nat) (hq : Quiet s) :
    Quiet (found G max_qlen s fails) ↔ FoundSpares G max_qlen settled s fails := by
  unfold found FoundSpares
  cases hfetch : G.fetch_uri with
  | none => exact ⟨fun _ _ h => (nomatch h), fun _ => hq⟩
  | some fetch =>
    have hall : ∀ priv m, settled priv m := hG.heeds (by rw [hfetch]; exact Option.some_ne_none _)
    dsimp only
    cases he : s.exited with
    | true => exact ⟨fun _ _ _ h => (nomatch h), fun _ => by simpa [he] using hq⟩
    | false =>
      rw [if_neg Bool.false_ne_true]
      cases hf : s.failed with
      | true =>
        rw [if_pos rfl]
        have hdead : Quiet (dead_issue_calls G max_qlen { s with priv := fetch s.priv }) ↔
            ∀ n embedded priv, G.to_create (max_qlen - s.pending) (fetch s.priv) =
              some (n, embedded, priv) → turns G embedded n priv = 0 := by
          unfold dead_issue_calls
          dsimp only
          cases G.to_create (max_qlen - s.pending) (fetch s.priv) with
          | none => exact ⟨fun _ _ _ _ h => (nomatch h), fun _ => hq⟩
          | some loop =>
            obtain ⟨n, embedded, priv⟩ := loop
            dsimp only
            rw [Quiet, dead_loop_on_dead]
            dsimp only
            rw [show s.on_dead = 0 from hq, Nat.zero_add]
            constructor
            · rintro h n' embedded' priv' heq
              obtain ⟨rfl, rfl, rfl⟩ : n = n' ∧ embedded = embedded' ∧ priv = priv' := by
                simpa using heq
              exact h
            · intro h
              exact h n embedded priv rfl
        rw [he, hf] at hdead
        rw [hdead]
        constructor
        · intro h fetch' heq _
          obtain rfl : fetch = fetch' := Option.some.inj heq
          exact h
        · intro h
          exact h fetch rfl rfl
      | false =>
        rw [if_neg Bool.false_ne_true]
        have hissue := issue_calls_quiet_iff max_qlen hG fails (s := { s with
          priv := fetch s.priv }) he (Or.inr hall) hq
        rw [he, hf] at hissue
        rw [hissue]
        constructor
        · intro h fetch' heq _
          obtain rfl : fetch = fetch' := Option.some.inj heq
          exact h
        · intro h
          exact h fetch rfl rfl

/-- The URIs of one reply, found one behind the other. -/
theorem data_quiet_iff (hG : Lawful G settled) (fails : List (Option Nat)) (hq : Quiet s) :
    Quiet (fails.foldl (found G max_qlen) s) ↔
      Runs.Meets (found G max_qlen) (FoundSpares G max_qlen settled) s fails := by
  have hmono : ∀ (fs : List (Option Nat)) (t : Sess σ),
      t.on_dead ≤ (fs.foldl (found G max_qlen) t).on_dead := by
    intro fs
    induction fs with
    | nil => exact fun t => Nat.le_refl _
    | cons f fs ih => exact fun t => Nat.le_trans (found_on_dead max_qlen t f) (ih _)
  induction fails generalizing s with
  | nil => exact ⟨fun _ => trivial, fun _ => hq⟩
  | cons f fs ih =>
    have hf := found_quiet_iff max_qlen hG f hq
    rw [List.foldl_cons]
    by_cases hfound : Quiet (found G max_qlen s f)
    · apply (ih hfound).trans
      exact ⟨fun h => ⟨hf.mp hfound, h⟩, fun h => h.2⟩
    · constructor
      · intro hquiet
        have hle := hmono fs (found G max_qlen s f)
        apply absurd _ hfound
        unfold Quiet at hquiet ⊢
        omega
      · intro h
        exact absurd (hf.mpr h.1) hfound

/-- A step issues nothing on a dead session exactly when it is spared. -/
theorem step_quiet_iff (hG : Lawful G settled) (x : Step) (hidle : Live s → Idle settled s)
    (hq : Quiet s) : Quiet (step G max_qlen s x) ↔ Spares G max_qlen settled s x := by
  unfold step Spares
  by_cases hlive : Live s
  · obtain ⟨hf, hended, he⟩ := hlive
    have hidle := hidle ⟨hf, hended, he⟩
    rw [if_pos ⟨hf, hended, he⟩]
    have hdrop : ∀ C : Prop, (Live s → C) ↔ C :=
      fun C => ⟨fun h => h ⟨hf, hended, he⟩, fun h _ => h⟩
    rw [hdrop]
    cases x with
    | completed fails =>
      dsimp only
      by_cases hp : 0 < s.pending
      · have hcall := call_destroyed_quiet_iff max_qlen hG fails (s := { s with
          pending := s.pending - 1 }) hf he (hidle hp) hq
        rw [if_pos hp, hcall]
        exact ⟨fun h _ => h, fun h => h hp⟩
      · rw [if_neg hp]
        exact ⟨fun _ h => absurd h hp, fun _ => hq⟩
    | think fails =>
      dsimp only
      by_cases ht : s.timer = true
      · rw [if_pos ht, issue_calls_quiet_iff max_qlen hG fails (s := { s with timer := false }) he
          (Or.inl rfl) hq]
        exact ⟨fun h _ => h, fun h => h ht⟩
      · rw [if_neg ht]
        exact ⟨fun _ h => absurd h ht, fun _ => hq⟩
    | data fails =>
      dsimp only
      by_cases hp : 0 < s.pending
      · rw [if_pos hp, data_quiet_iff max_qlen hG fails hq]
        exact ⟨fun h _ => h, fun h => h hp⟩
      · rw [if_neg hp]
        exact ⟨fun _ h => absurd h hp, fun _ => hq⟩
    | refused retry =>
      dsimp only
      by_cases hp : 0 < s.pending
      · have hlast := last_destroyed_quiet_iff max_qlen hG (s.pending - 1) (s := { s with
          pending := if retry then s.pending else s.pending - 1 }) he (hidle hp) hq
        rw [if_pos hp, hlast, Nat.sub_add_cancel hp]
      · rw [if_neg hp, show s.pending = 0 by omega, hG.settled_iff]
        exact ⟨fun _ j hj => absurd hj (Nat.not_lt_zero j), fun _ => hq⟩
    | fail =>
      dsimp only
      by_cases hp : 0 < s.pending
      · exact sess_failure_quiet_iff max_qlen hG s.pending he (hidle hp) hq
      · rw [show s.pending = 0 by omega, hG.settled_iff]
        exact ⟨fun _ j hj => absurd hj (Nat.not_lt_zero j), fun _ => hq⟩
  · rw [if_neg hlive]
    exact ⟨fun _ h => absurd h hlive, fun _ => hq⟩

/-- A run issues nothing on a dead session exactly when it is spared from its start on. `I` is what
is known of the states of the generator. -/
theorem always_quiet_iff (hG : Lawful G settled) {I : Sess σ → Prop}
    (hI : ∀ s x, I s → I (step G max_qlen s x)) (hidle : ∀ s, I s → Live s → Idle settled s)
    (priv : σ) (fails : Option Nat) (hcreate : I (sess_create G max_qlen priv fails))
    (steps : List Step) :
    Runs.Always (step G max_qlen) Quiet (sess_create G max_qlen priv fails) steps ↔
      RunSpares G max_qlen settled priv fails steps := by
  have hfirst : Quiet (sess_create G max_qlen priv fails) ↔
      LoopSpares G max_qlen settled (sess_new priv) fails :=
    issue_calls_quiet_iff max_qlen hG fails (s := sess_new priv) rfl (Or.inl rfl) rfl
  unfold RunSpares
  by_cases hq : Quiet (sess_create G max_qlen priv fails)
  · rw [Runs.always_iff_meets hI (fun s x hs hquiet =>
      step_quiet_iff max_qlen hG x (hidle s hs) hquiet) hcreate hq]
    exact ⟨fun h => ⟨hfirst.mp hq, h⟩, fun h => h.2⟩
  · constructor
    · intro h
      exact absurd h.first hq
    · intro h
      exact absurd (hfirst.mpr h.1) hq

end

/-! ## The three generators -/

namespace Wsesslog

/-- `call_destroyed` looks at `sess->failed` first. -/
theorem lawful : Lawful generator (fun _ _ => True) where
  settled_iff _ _ := ⟨fun _ _ _ => rfl, fun _ => trivial⟩
  loud _ h := absurd rfl h
  turns_dies _ _ _ := rfl
  ends s h := by
    have hend : s.num_calls_destroyed + 1 ≥ s.total_num_reqs := by
      by_contra hmore
      simp only [generator, call_destroyed, Bool.false_eq_true, if_false, if_neg hmore] at h
      split at h
      · cases h
      · split at h
        · cases h
        · split at h
          · unfold prepare_for_next_burst at h
            split at h <;> cases h
          · cases h
    have hs : call_destroyed false s =
        (.sess_dec_ref, { s with num_calls_destroyed := s.num_calls_destroyed + 1 }) := by
      unfold call_destroyed
      rw [if_neg Bool.false_ne_true]
      exact if_pos hend
    change (call_destroyed false (call_destroyed false s).2).1 = _
    rw [hs]
    unfold call_destroyed
    rw [if_neg Bool.false_ne_true]
    dsimp only
    rw [if_pos (by omega)]
  heeds _ _ _ := trivial

end Wsesslog

namespace Wsesspage

variable (num_reqs : Nat)

/-- The number of the calls that are destroyed plays no part in the loop. -/
theorem turns_num_destroyed (embedded : Bool) (n : Nat) (s : Priv) (d : Nat) :
    turns (generator num_reqs) embedded n { s with num_destroyed := d } =
      turns (generator num_reqs) embedded n s := by
  induction n generalizing s with
  | zero => rfl
  | succ n ih =>
    cases embedded with
    | false =>
      have ih' := ih { s with num_created := s.num_created + 1 }
      simpa [turns, generator, turn] using ih'
    | true =>
      have ih' := ih { s with num_created := s.num_created + 1, uri_list := s.uri_list - 1 }
      by_cases huri : s.uri_list = 0
      · simp [turns, generator, turn, huri]
      · simpa [turns, generator, turn, huri] using ih'

/-- `call_destroyed` heeds `sess->failed`, and `fetch_uri` does not. -/
theorem lawful : Lawful (generator num_reqs) (fun _ _ => True) where
  settled_iff _ _ := ⟨fun _ _ _ => rfl, fun _ => trivial⟩
  loud _ h := absurd rfl h
  turns_dies embedded n s := turns_num_destroyed num_reqs embedded n s (s.num_destroyed + 1)
  ends s h := by
    have hend : s.uri_list = 0 ∧ s.num_destroyed + 1 ≥ s.num_created ∧
        s.num_reqs_completed + 1 ≥ num_reqs := by
      by_contra hmore
      simp only [generator, call_destroyed, Bool.false_eq_true, if_false] at h
      split at h
      · cases h
      · split at h
        · split at h
          · apply hmore
            exact ⟨by omega, by omega, by omega⟩
          · cases h
        · cases h
    obtain ⟨huri, hdone, hreqs⟩ := hend
    have hnext : s.num_destroyed + 1 + 1 ≥ s.num_created := by omega
    have hreqs' : s.num_reqs_completed + 1 + 1 ≥ num_reqs := by omega
    simp [generator, call_destroyed, huri, hdone, hreqs, hnext, hreqs']
  heeds _ _ _ := trivial

end Wsesspage

namespace Wsess

variable (p : Param)

/-- As the next `m` calls are destroyed, the session is at its end, or in the middle of a burst that
is issued as a whole. -/
def Settled (s : Priv) (m : Nat) : Prop :=
  ∀ j, 1 ≤ j → j ≤ m → s.num_calls_destroyed + j ≥ p.num_calls ∨
    (p.burst_len ≤ s.num_calls_in_this_burst ∧ s.num_calls_destroyed + j < s.num_calls_target)

theorem turns_eq (embedded : Bool) (n : Nat) (s : Priv) : turns (generator p) embedded n s = n := by
  induction n generalizing s with
  | zero => rfl
  | succ n ih =>
    change turns (generator p) embedded n s + 1 = n + 1
    rw [ih]

theorem call_destroyed_nothing_iff (s : Priv) : (call_destroyed p true s).1 = .nothing ↔
    s.num_calls_destroyed + 1 ≥ p.num_calls ∨
      (p.burst_len ≤ s.num_calls_in_this_burst ∧ s.num_calls_destroyed + 1 <
        s.num_calls_target) := by
  simp only [call_destroyed]
  split
  · exact ⟨fun _ => by omega, fun _ => rfl⟩
  · split
    · exact ⟨fun h => (nomatch h), fun _ => by omega⟩
    · split
      · exact ⟨fun h => (nomatch h), fun _ => by omega⟩
      · exact ⟨fun _ => by omega, fun _ => rfl⟩

theorem dies_eq {s : Priv} (h : (call_destroyed p true s).1 = .nothing) :
    dies (generator p) s = { s with num_calls_destroyed := s.num_calls_destroyed + 1 } := by
  change (call_destroyed p true s).2 = _
  simp only [call_destroyed] at h ⊢
  split
  · rfl
  · split
    · rfl
    · split
      · simp_all
      · rfl

theorem settled_succ (s : Priv) (m : Nat) : Settled p s (m + 1) ↔
    (call_destroyed p true s).1 = .nothing ∧
      Settled p { s with num_calls_destroyed := s.num_calls_destroyed + 1 } m := by
  rw [call_destroyed_nothing_iff]
  constructor
  · intro h
    refine ⟨h 1 (Nat.le_refl 1) (by omega), fun j hj hjm => ?_⟩
    have hnext := h (j + 1) (by omega) (by omega)
    dsimp only
    omega
  · rintro ⟨hfirst, h⟩ j hj hjm
    by_cases hj1 : j = 1
    · rw [hj1]
      exact hfirst
    · have hnext := h (j - 1) (by omega) (by omega)
      dsimp only at hnext
      omega

theorem lawful : Lawful (generator p) (Settled p) where
  settled_iff s m := by
    induction m generalizing s with
    | zero => exact ⟨fun _ j hj => absurd hj (Nat.not_lt_zero j), fun _ j h1 h0 => by omega⟩
    | succ m ih =>
      rw [settled_succ]
      constructor
      · rintro ⟨hfirst, h⟩ j hj
        cases j with
        | zero => exact hfirst
        | succ j =>
          rw [Function.iterate_succ_apply, dies_eq p hfirst]
          exact (ih _).mp h j (by omega)
      · intro h
        have hfirst : (call_destroyed p true s).1 = .nothing := h 0 (Nat.succ_pos m)
        refine ⟨hfirst, (ih _).mpr fun j hj => ?_⟩
        rw [← dies_eq p hfirst, ← Function.iterate_succ_apply]
        exact h (j + 1) (by omega)
  loud s h := by
    change (call_destroyed p true s).1 ≠ _ at h
    by_cases hburst : s.num_calls_in_this_burst < p.burst_len
    · have hs : call_destroyed p true s =
          (.issue_calls, { s with num_calls_destroyed := s.num_calls_destroyed + 1 }) := by
        rw [ne_eq, call_destroyed_nothing_iff] at h
        simp only [call_destroyed]
        rw [if_neg (by omega), if_pos hburst]
      refine Or.inr
        ⟨congrArg Prod.fst hs, fun room => ⟨to_create p (dies (generator p) s), false, _,
          rfl, ?_⟩⟩
      rw [turns_eq, dies]
      change 0 < to_create p (call_destroyed p true s).2
      rw [hs]
      unfold to_create
      dsimp only
      split <;> omega
    · left
      rw [ne_eq, call_destroyed_nothing_iff] at h
      change (call_destroyed p true s).1 = _
      simp only [call_destroyed]
      rw [if_neg (by omega), if_neg (by omega), if_pos (by omega)]
  turns_dies embedded n s := by rw [turns_eq, turns_eq]
  ends s h := by
    have hend : s.num_calls_destroyed + 1 ≥ p.num_calls := by
      by_contra hmore
      simp only [generator, call_destroyed, if_neg hmore] at h
      split at h
      · cases h
      · split at h <;> cases h
    have hs : call_destroyed p false s =
        (.sess_dec_ref, { s with num_calls_destroyed := s.num_calls_destroyed + 1 }) := if_pos hend
    change (call_destroyed p false (call_destroyed p false s).2).1 = _
    rw [hs]
    simp only [call_destroyed]
    rw [if_pos (by omega)]
    rfl
  heeds h := absurd rfl h

/-- The calls of the bursts so far, by those that were destroyed and those that are pending. -/
structure Burst (s : Sess Priv) : Prop where
  in_burst : s.priv.num_calls_in_this_burst ≤ max 1 p.burst_len
  issued : 0 < p.burst_len → s.priv.num_calls_destroyed + s.pending + p.burst_len =
    s.priv.num_calls_target + s.priv.num_calls_in_this_burst
  single : p.burst_len = 0 → s.pending ≤ s.priv.num_calls_in_this_burst

/-- As long as the session goes on, its bursts are in order, and the timer runs between them. -/
def Ordered (s : Sess Priv) : Prop := Live s → Burst p s ∧ (s.timer = true → s.pending = 0)

section

variable {p} {s : Sess Priv}

theorem ordered_of_failed (h : s.failed = true) : Ordered p s :=
  fun hlive => nomatch h.symm.trans hlive.1

theorem ordered_of_ended (h : s.ended = true) : Ordered p s :=
  fun hlive => nomatch h.symm.trans hlive.2.1

theorem ordered_of_exited (h : s.exited = true) : Ordered p s :=
  fun hlive => nomatch h.symm.trans hlive.2.2

/-- Unless it fails, the loop of `issue_calls` adds a call in each turn. -/
theorem issue_loop_ordered (max_qlen n : Nat) (fails : Option Nat)
    (h : Ordered p { s with pending := s.pending + n }) :
    Ordered p (issue_loop (generator p) max_qlen false n fails s) := by
  induction n generalizing fails s with
  | zero => exact h
  | succ n ih =>
    have hnext : Ordered p { s with pending := s.pending + 1 + n } := by
      rw [show s.pending + 1 + n = s.pending + (n + 1) by omega]
      exact h
    unfold issue_loop
    change Ordered p (if s.pending ≥ max_qlen then { s with exited := true } else _)
    split
    · exact ordered_of_exited rfl
    · match fails with
      | none => exact ih (s := { s with pending := s.pending + 1 }) none hnext
      | some (k + 1) => exact ih (s := { s with pending := s.pending + 1 }) (some k) hnext
      | some 0 =>
        apply ordered_of_failed
        have hfailed : (dead_destroyed (generator p) max_qlen (sess_failure (generator p) max_qlen
            s.pending { s with pending := s.pending + 1 })).failed = true :=
          (dead_destroyed_dead max_qlen _).1.trans (sess_destroy_dead max_qlen _ _).1
        dsimp only
        split
        · exact hfailed
        · exact (dead_loop_dead _ _ _).1.trans hfailed

theorem issue_calls_ordered (max_qlen : Nat) (fails : Option Nat) (h : Burst p s)
    (ht : s.timer = false) : Ordered p (issue_calls (generator p) max_qlen fails s) := by
  apply issue_loop_ordered
  intro _
  have hin := h.in_burst
  refine ⟨⟨?_, fun hpos => ?_, fun hzero => ?_⟩, fun h => nomatch ht.symm.trans h⟩
  · dsimp only
    unfold to_create
    split <;> omega
  · have hissued := h.issued hpos
    dsimp only
    omega
  · have hsingle := h.single hzero
    dsimp only
    omega

theorem call_destroyed_ordered (max_qlen : Nat) (fails : Option Nat) (h : Burst p s)
    (hp : 0 < s.pending) (ht : s.timer = false) (hf : s.failed = false) :
    Ordered p (DeadSession.call_destroyed (generator p) max_qlen fails
      { s with pending := s.pending - 1 }) := by
  have hin := h.in_burst
  have hnext : Burst p { s with
      pending := s.pending - 1
      priv := { s.priv with num_calls_destroyed := s.priv.num_calls_destroyed + 1 } } := by
    refine ⟨hin, fun hpos => ?_, fun hzero => ?_⟩
    · have hissued := h.issued hpos
      dsimp only
      omega
    · have hsingle := h.single hzero
      dsimp only
      omega
  unfold DeadSession.call_destroyed
  dsimp only [generator, call_destroyed]
  by_cases hend : s.priv.num_calls_destroyed + 1 ≥ p.num_calls
  · rw [if_pos hend, hf]
    exact ordered_of_ended (sess_destroy_dead max_qlen _ _).2
  · rw [if_neg hend]
    by_cases hburst : s.priv.num_calls_in_this_burst < p.burst_len
    · rw [if_pos hburst]
      exact issue_calls_ordered max_qlen fails hnext ht
    · rw [if_neg hburst]
      by_cases hdone : s.priv.num_calls_destroyed + 1 ≥ s.priv.num_calls_target
      · rw [if_pos hdone]
        dsimp only
        rw [ht, if_neg Bool.false_ne_true]
        -- the burst is over: no call is pending
        have hnone : s.pending = 1 := by
          by_cases hzero : p.burst_len = 0
          · have hsingle := h.single hzero
            omega
          · have hissued := h.issued (by omega)
            omega
        intro _
        refine ⟨⟨Nat.zero_le _, fun hpos => ?_, fun _ => ?_⟩, fun _ => ?_⟩
        · have hissued := h.issued hpos
          dsimp only
          omega
        · dsimp only
          omega
        · dsimp only
          omega
      · rw [if_neg hdone]
        dsimp only
        exact fun _ => ⟨hnext, fun h => nomatch ht.symm.trans h⟩

theorem step_ordered (max_qlen : Nat) (s : Sess Priv) (x : Step) (h : Ordered p s) :
    Ordered p (step (generator p) max_qlen s x) := by
  unfold step
  by_cases hlive : Live s
  · rw [if_pos hlive]
    obtain ⟨hburst, htimer⟩ := h hlive
    cases x with
    | completed fails =>
      dsimp only
      split
      · rename_i hp
        have ht : s.timer = false := by
          cases ht : s.timer with
          | false => rfl
          | true =>
            have hnone := htimer ht
            omega
        exact call_destroyed_ordered max_qlen fails hburst hp ht hlive.1
      · exact h
    | think fails =>
      dsimp only
      split
      · exact issue_calls_ordered max_qlen fails ⟨hburst.in_burst, hburst.issued, hburst.single⟩ rfl
      · exact h
    | data fails =>
      dsimp only
      split
      · have hfound : ∀ fs : List (Option Nat), fs.foldl (found (generator p) max_qlen) s = s := by
          intro fs
          induction fs with
          | nil => rfl
          | cons f fs ih => exact ih
        rw [hfound]
        exact h
      · exact h
    | refused retry =>
      dsimp only
      split
      · exact ordered_of_failed
          ((dead_destroyed_dead max_qlen _).1.trans (sess_destroy_dead max_qlen _ _).1)
      · exact h
    | fail => exact ordered_of_failed (sess_destroy_dead max_qlen _ _).1
  · rw [if_neg hlive]
    exact h

theorem sess_create_ordered (max_qlen : Nat) (fails : Option Nat) :
    Ordered p (sess_create (generator p) max_qlen (sess_new p) fails) := by
  apply issue_calls_ordered max_qlen fails _ rfl
  exact ⟨Nat.zero_le _, fun _ => Nat.add_comm _ _, fun _ => Nat.le_refl _⟩

theorem idle_of_ordered (h : Ordered p s) (hlive : Live s) : Idle (Settled p) s := by
  intro hp
  left
  cases ht : s.timer with
  | false => rfl
  | true =>
    have hnone := (h hlive).2 ht
    omega

end

end Wsess

/-- Nothing is issued or scheduled for a dead session exactly when the run is spared. For `wsess`
that takes settled pending calls at each failure, since `call_destroyed` does not look at
`sess->failed`. For all three, a `core_connect` that fails in `issue_calls` does so in the last turn
of the loop. -/
theorem nothing_on_a_dead_session_iff (max_qlen : Nat) (fails : Option Nat) (steps : List Step) :
    (∀ p : Wsess.Param, Runs.Always (step (Wsess.generator p) max_qlen) Quiet
        (sess_create (Wsess.generator p) max_qlen (Wsess.sess_new p) fails) steps ↔
      RunSpares (Wsess.generator p) max_qlen (Wsess.Settled p) (Wsess.sess_new p) fails steps) ∧
    (∀ bursts : List Nat, Runs.Always (step Wsesslog.generator max_qlen) Quiet
        (sess_create Wsesslog.generator max_qlen (Wsesslog.sess_new bursts) fails) steps ↔
      RunSpares Wsesslog.generator max_qlen (fun _ _ => True) (Wsesslog.sess_new bursts) fails
        steps) ∧
    (∀ num_reqs : Nat, Runs.Always (step (Wsesspage.generator num_reqs) max_qlen) Quiet
        (sess_create (Wsesspage.generator num_reqs) max_qlen Wsesspage.sess_new fails) steps ↔
      RunSpares (Wsesspage.generator num_reqs) max_qlen (fun _ _ => True) Wsesspage.sess_new fails
        steps) := by
  refine ⟨fun p => ?_, fun bursts => ?_, fun num_reqs => ?_⟩
  · exact always_quiet_iff max_qlen (Wsess.lawful p) (Wsess.step_ordered max_qlen)
      (fun s h hlive => Wsess.idle_of_ordered h hlive) _ fails
      (Wsess.sess_create_ordered max_qlen fails) steps
  · exact always_quiet_iff max_qlen Wsesslog.lawful (I := fun _ => True) (fun _ _ h => h)
      (fun _ _ _ _ => Or.inr fun _ _ => trivial) _ fails trivial steps
  · exact always_quiet_iff max_qlen (Wsesspage.lawful num_reqs) (I := fun _ => True)
      (fun _ _ h => h) (fun _ _ _ _ => Or.inr fun _ _ => trivial) _ fails trivial steps

/-- The first call of a burst of two times out. The handler of its destruction issues the second
call on the session that has failed. -/
theorem a_failed_session_goes_on : ¬ Runs.Always (step (Wsess.generator ⟨2, 2⟩) 4) Quiet
    (sess_create (Wsess.generator ⟨2, 2⟩) 4 (Wsess.sess_new ⟨2, 2⟩) none) [.fail] := by
  intro h
  have hlast := h.last
  revert hlast
  unfold Quiet
  decide

end Httperf.DeadSession
