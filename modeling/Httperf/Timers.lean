-- The timers (`timer.c`, with the lists of `lib/list.c`). A cell stands in the list of the
-- active timers or in that of the passive ones. Cancellation and expiry share one flag, and
-- only the end of a tick moves cells from the active list to the passive one.
import Mathlib.Data.List.Nodup
import Mathlib.Logic.Function.Basic

namespace Httperf.Timers

variable {Time Cb : Type}

/-! ## The state -/

/-- `struct Timer`. The callback and its subject are one value. `serial` is no field of the
source: it is the number of the call of `timer_schedule` that filled the cell. -/
structure Timer (Time Cb : Type) where
  time_started : Time
  timeout_delay : Time
  has_expired : Bool
  timeout_callback : Cb
  serial : Nat

/-- What happens to the timers, in the order in which it happens. -/
inductive Entry (Time : Type) where
  /-- `timer_schedule` fills a cell. `busy` says that the cell is an active timer already. -/
  | scheduled (serial : Nat) (cell : Nat) (started delay : Time) (busy : Bool)
  | cancelled (serial : Nat)
  /-- `timer_has_expired` compares the clock with the deadline. -/
  | examined (serial : Nat) (now deadline : Time)
  | ran (serial : Nat)
  deriving DecidableEq, Repr

/-- What a callback does: it schedules timers, gets their cells, and cancels timers. -/
inductive Prog (Time Cb : Type) where
  | ret
  | timer_schedule (callback : Cb) (delay : Time) (k : Nat → Prog Time Cb)
  | timer_cancel (t : Nat) (k : Prog Time Cb)

/-- What stands outside `timer.c`: the parameter, the readings of the clock, and what a
callback does when it runs on its cell, after all that happened before. -/
structure Env (Time Cb : Type) where
  use_timer_cache : Bool
  clock : Nat → Time
  body : List (Entry Time) → Nat → Cb → Prog Time Cb

/-- The memory of `timer.c`. `fresh` is the next cell that `malloc` gives. -/
structure State (Time Cb : Type) where
  cells : Nat → Option (Timer Time Cb)
  passive_timers : List Nat
  active_timers : List Nat
  fresh : Nat
  now : Time
  readings : Nat
  serial : Nat
  log : List (Entry Time)

def NUM_TIMERS : Nat := 25

def timer_init (env : Env Time Cb) : State Time Cb where
  cells _ := none
  passive_timers := (List.range NUM_TIMERS).reverse
  active_timers := []
  fresh := NUM_TIMERS
  now := env.clock 0
  readings := 1
  serial := 0
  log := []

/-! ## The functions -/

def timer_now_forced (env : Env Time Cb) (s : State Time Cb) : Time × State Time Cb :=
  (env.clock s.readings, { s with readings := s.readings + 1 })

def timer_now (env : Env Time Cb) (s : State Time Cb) : Time × State Time Cb :=
  if env.use_timer_cache then (s.now, s) else timer_now_forced env s

/-- The cell that `timer_schedule` takes: a passive one, or a new one. -/
def take_cell (s : State Time Cb) : Nat × State Time Cb :=
  match s.passive_timers with
  | t :: rest => (t, { s with passive_timers := rest })
  | [] => (s.fresh, { s with fresh := s.fresh + 1 })

def timer_schedule (env : Env Time Cb) (callback : Cb) (delay : Time) (s : State Time Cb) :
    Nat × State Time Cb :=
  let (t, s1) := take_cell s
  let (now, s2) := timer_now env s1
  (t, { s2 with
    cells := Function.update s2.cells t (some {
      time_started := now
      timeout_delay := delay
      has_expired := false
      timeout_callback := callback
      serial := s2.serial })
    active_timers := t :: s2.active_timers
    serial := s2.serial + 1
    log := s2.log ++ [.scheduled s2.serial t now delay (t ∈ s2.active_timers)] })

/-- Each call is one entry of the log. -/
theorem timer_schedule_log (env : Env Time Cb) (callback : Cb) (delay : Time) (s : State Time Cb) :
    ∃ t now reused, (timer_schedule env callback delay s).2.log =
      s.log ++ [.scheduled s.serial t now delay reused] := by
  unfold timer_schedule timer_now timer_now_forced take_cell
  cases s.passive_timers <;> by_cases hcache : env.use_timer_cache = true <;> simp [hcache]

/-- `t->has_expired = true`. -/
def expire (t : Nat) (x : Timer Time Cb) (s : State Time Cb) : State Time Cb :=
  { s with cells := Function.update s.cells t (some { x with has_expired := true }) }

def timer_cancel (t : Nat) (s : State Time Cb) : State Time Cb :=
  match s.cells t with
  | none => s
  | some x => { expire t x s with log := s.log ++ [.cancelled x.serial] }

def exec (env : Env Time Cb) : Prog Time Cb → State Time Cb → State Time Cb
  | .ret, s => s
  | .timer_schedule callback delay k, s =>
    exec env (k (timer_schedule env callback delay s).1) (timer_schedule env callback delay s).2
  | .timer_cancel t k, s => exec env k (timer_cancel t s)

def timer_has_expired [Add Time] [LT Time] [DecidableLT Time] (env : Env Time Cb)
    (s : State Time Cb) (t : Nat) : State Time Cb :=
  match s.cells t with
  | none => s
  | some x =>
    if x.has_expired then s
    else
      let (now, s1) := timer_now env s
      let deadline := x.time_started + x.timeout_delay
      if deadline < now then
        let s2 := { expire t x s1 with
          log := s1.log ++ [.examined x.serial now deadline, .ran x.serial] }
        exec env (env.body s2.log t x.timeout_callback) s2
      else { s1 with log := s1.log ++ [.examined x.serial now deadline] }

/-- `list_for_each (active_timers, ..)`. New timers stand in front of the first node, where the
traversal does not come by, and no node is freed meanwhile. -/
def list_for_each [Add Time] [LT Time] [DecidableLT Time] (env : Env Time Cb) (l : List Nat)
    (s : State Time Cb) : State Time Cb :=
  l.foldl (timer_has_expired env) s

/-- `list_remove_if_true (active_timers, &timer_deactivate)`: the nodes that stay, and the
passive timers. -/
def list_remove_if_true (cells : Nat → Option (Timer Time Cb)) :
    List Nat → List Nat → List Nat × List Nat
  | [], passive => ([], passive)
  | t :: active, passive =>
    if (cells t).any (·.has_expired) then list_remove_if_true cells active (t :: passive)
    else
      let (active', passive') := list_remove_if_true cells active passive
      (t :: active', passive')

def timer_tick [Add Time] [LT Time] [DecidableLT Time] (env : Env Time Cb)
    (s : State Time Cb) : State Time Cb :=
  let (now, s0) := timer_now_forced env s
  let s1 := list_for_each env s0.active_timers { s0 with now }
  let (active, passive) := list_remove_if_true s1.cells s1.active_timers s1.passive_timers
  { s1 with active_timers := active, passive_timers := passive }

/-- A step of the program: some timers are scheduled and cancelled, or the core loop calls
`timer_tick`. -/
inductive Step (Time Cb : Type) where
  | prog (p : Prog Time Cb)
  | tick

def step [Add Time] [LT Time] [DecidableLT Time] (env : Env Time Cb) (s : State Time Cb) :
    Step Time Cb → State Time Cb
  | .prog p => exec env p s
  | .tick => timer_tick env s

def run [Add Time] [LT Time] [DecidableLT Time] (env : Env Time Cb)
    (steps : List (Step Time Cb)) : State Time Cb :=
  steps.foldl (step env) (timer_init env)

/-! ## Logs -/

def Entry.serial : Entry Time → Nat
  | .scheduled n .. | .cancelled n | .examined n .. | .ran n => n

/-- The logs that `timer.c` can make. A callback runs right after the look at the clock that
finds its timer due. -/
inductive Lawful [Add Time] [LT Time] : List (Entry Time) → Prop where
  | nil : Lawful []
  | scheduled {log : List (Entry Time)} {n cell : Nat} {started delay : Time} :
      Lawful log → (∀ e ∈ log, e.serial < n) →
      Lawful (log ++ [.scheduled n cell started delay false])
  | cancelled {log : List (Entry Time)} {n : Nat} : Lawful log → Lawful (log ++ [.cancelled n])
  | waits {log : List (Entry Time)} {n cell : Nat} {now started delay : Time} {busy : Bool} :
      Lawful log → .scheduled n cell started delay busy ∈ log → ¬ started + delay < now →
      Lawful (log ++ [.examined n now (started + delay)])
  | runs {log : List (Entry Time)} {n cell : Nat} {now started delay : Time} {busy : Bool} :
      Lawful log → .scheduled n cell started delay busy ∈ log → started + delay < now →
      .ran n ∉ log → .cancelled n ∉ log →
      Lawful (log ++ [.examined n now (started + delay), .ran n])

/-- A callback runs at most once. -/
def RunsOnce (log : List (Entry Time)) : Prop :=
  ∀ n pre post, log = pre ++ .ran n :: post → .ran n ∉ pre ∧ .ran n ∉ post

/-- A callback never runs after the cancellation of its timer. -/
def SilentAfterCancel (log : List (Entry Time)) : Prop :=
  ∀ n pre post, log = pre ++ .cancelled n :: post → .ran n ∉ post

/-- A callback runs as soon as a look at the clock finds its timer due, and never else. The
deadline is that of the call of `timer_schedule`. -/
def RunsWhenDue [Add Time] [LT Time] (log : List (Entry Time)) : Prop :=
  (∀ n now deadline pre post, log = pre ++ .examined n now deadline :: post →
    (∃ cell started delay busy, .scheduled n cell started delay busy ∈ pre ∧
      deadline = started + delay) ∧
    (deadline < now → ∃ post', post = .ran n :: post')) ∧
  ∀ n pre post, log = pre ++ .ran n :: post →
    ∃ pre' now deadline, pre = pre' ++ [.examined n now deadline] ∧ deadline < now

/-- No cell is handed out that is an active timer. -/
def NeverBusy (log : List (Entry Time)) : Prop :=
  ∀ n cell started delay busy, .scheduled n cell started delay busy ∈ log → busy = false

/-- Where an entry stands in a log with one more entry at its end. -/
theorem split_snoc {α : Type} {l pre post : List α} {a x : α} (h : l ++ [a] = pre ++ x :: post) :
    (post = [] ∧ pre = l ∧ x = a) ∨ ∃ post', post = post' ++ [a] ∧ l = pre ++ x :: post' := by
  rcases List.eq_nil_or_concat post with rfl | ⟨post', b, rfl⟩
  · have h' := List.append_inj' h rfl
    exact Or.inl ⟨rfl, h'.1.symm, (List.cons.inj h'.2).1.symm⟩
  · rw [List.concat_eq_append, ← List.cons_append, ← List.append_assoc] at h
    have h' := List.append_inj' h rfl
    obtain rfl := (List.cons.inj h'.2).1
    exact Or.inr ⟨post', by simp, h'.1⟩

section

variable [Add Time] [LT Time] {log : List (Entry Time)}

theorem Lawful.silentAfterCancel (h : Lawful log) : SilentAfterCancel log := by
  induction h with
  | nil =>
    intro n pre post heq
    simp at heq
  | scheduled _ _ ih =>
    intro n pre post heq
    rcases split_snoc heq with ⟨rfl, _, hx⟩ | ⟨post', rfl, heq'⟩
    · cases hx
    · simpa using ih n pre post' heq'
  | cancelled _ ih =>
    intro n pre post heq
    rcases split_snoc heq with ⟨rfl, _, _⟩ | ⟨post', rfl, heq'⟩
    · simp
    · simpa using ih n pre post' heq'
  | waits _ _ _ ih =>
    intro n pre post heq
    rcases split_snoc heq with ⟨rfl, _, hx⟩ | ⟨post', rfl, heq'⟩
    · cases hx
    · simpa using ih n pre post' heq'
  | @runs log m cell now started delay busy _ _ _ _ hcancel ih =>
    intro n pre post heq
    rw [← List.singleton_append, ← List.append_assoc] at heq
    rcases split_snoc heq with ⟨rfl, _, hx⟩ | ⟨post', rfl, heq'⟩
    · cases hx
    · rcases split_snoc heq' with ⟨rfl, _, hx⟩ | ⟨post'', rfl, heq''⟩
      · cases hx
      · -- the timer that runs here is another one
        have hne : n ≠ m := by
          rintro rfl
          exact hcancel (by rw [heq'']; simp)
        simpa [hne] using ih n pre post'' heq''

theorem Lawful.runsOnce (h : Lawful log) : RunsOnce log := by
  have hother : ∀ {log : List (Entry Time)} {e : Entry Time}, RunsOnce log → (∀ n, e ≠ .ran n) →
      RunsOnce (log ++ [e]) := by
    intro log e ih he n pre post heq
    rcases split_snoc heq with ⟨rfl, _, hx⟩ | ⟨post', rfl, heq'⟩
    · exact absurd hx.symm (he n)
    · obtain ⟨h1, h2⟩ := ih n pre post' heq'
      exact ⟨h1, by simp [h2, (he n).symm]⟩
  induction h with
  | nil =>
    intro n pre post heq
    simp at heq
  | scheduled _ _ ih => exact hother ih (by simp)
  | cancelled _ ih => exact hother ih (by simp)
  | waits _ _ _ ih => exact hother ih (by simp)
  | @runs log m cell now started delay busy _ _ _ hran _ ih =>
    have ih' := hother (e := .examined m now (started + delay)) ih (by simp)
    intro n pre post heq
    rw [← List.singleton_append, ← List.append_assoc] at heq
    rcases split_snoc heq with ⟨rfl, rfl, hx⟩ | ⟨post', rfl, heq'⟩
    · obtain rfl : n = m := by simpa using hx
      exact ⟨by simpa using hran, by simp⟩
    · obtain ⟨h1, h2⟩ := ih' n pre post' heq'
      have hne : n ≠ m := by
        rintro rfl
        rcases split_snoc heq' with ⟨_, _, hx⟩ | ⟨post'', _, heq''⟩
        · cases hx
        · exact hran (by rw [heq'']; simp)
      exact ⟨h1, by simp [h2, hne]⟩

theorem Lawful.neverBusy (h : Lawful log) : NeverBusy log := by
  induction h with
  | nil => simp [NeverBusy]
  | scheduled _ _ ih =>
    intro n cell started delay busy hmem
    rcases List.mem_append.mp hmem with hmem | hmem
    · exact ih n cell started delay busy hmem
    · simp only [List.mem_singleton, Entry.scheduled.injEq] at hmem
      exact hmem.2.2.2.2
  | cancelled _ ih => simpa [NeverBusy] using ih
  | waits _ _ _ ih => simpa [NeverBusy] using ih
  | runs _ _ _ _ _ ih => simpa [NeverBusy] using ih

theorem Lawful.runsWhenDue (h : Lawful log) : RunsWhenDue log := by
  have hother : ∀ {log : List (Entry Time)} {e : Entry Time}, RunsWhenDue log →
      (∀ n, e ≠ .ran n) → (∀ n now deadline, e ≠ .examined n now deadline) →
      RunsWhenDue (log ++ [e]) := by
    intro log e ih hr he
    constructor
    · intro n now deadline pre post heq
      rcases split_snoc heq with ⟨_, _, hx⟩ | ⟨post', rfl, heq'⟩
      · exact absurd hx.symm (he n now deadline)
      · obtain ⟨h1, h2⟩ := ih.1 n now deadline pre post' heq'
        refine ⟨h1, fun hdue => ?_⟩
        obtain ⟨post'', rfl⟩ := h2 hdue
        exact ⟨post'' ++ [e], rfl⟩
    · intro n pre post heq
      rcases split_snoc heq with ⟨_, _, hx⟩ | ⟨post', rfl, heq'⟩
      · exact absurd hx.symm (hr n)
      · exact ih.2 n pre post' heq'
  induction h with
  | nil =>
    exact ⟨fun n now deadline pre post heq => by simp at heq, fun n pre post heq => by simp at heq⟩
  | scheduled _ _ ih => exact hother ih (by simp) (by simp)
  | cancelled _ ih => exact hother ih (by simp) (by simp)
  | waits _ hmem hwait ih =>
    constructor
    · intro n now deadline pre post heq
      rcases split_snoc heq with ⟨rfl, rfl, hx⟩ | ⟨post', rfl, heq'⟩
      · obtain ⟨rfl, rfl, rfl⟩ := Entry.examined.inj hx
        exact ⟨⟨_, _, _, _, hmem, rfl⟩, fun hdue => absurd hdue hwait⟩
      · obtain ⟨h1, h2⟩ := ih.1 n now deadline pre post' heq'
        refine ⟨h1, fun hdue => ?_⟩
        obtain ⟨post'', rfl⟩ := h2 hdue
        exact ⟨_, rfl⟩
    · intro n pre post heq
      rcases split_snoc heq with ⟨_, _, hx⟩ | ⟨post', rfl, heq'⟩
      · cases hx
      · exact ih.2 n pre post' heq'
  | @runs log m cell now' started delay busy _ hmem hdue _ _ ih =>
    constructor
    · intro n now deadline pre post heq
      rw [← List.singleton_append, ← List.append_assoc] at heq
      rcases split_snoc heq with ⟨_, _, hx⟩ | ⟨post', rfl, heq'⟩
      · cases hx
      · rcases split_snoc heq' with ⟨rfl, rfl, hx⟩ | ⟨post'', rfl, heq''⟩
        · obtain ⟨rfl, rfl, rfl⟩ := Entry.examined.inj hx
          exact ⟨⟨_, _, _, _, hmem, rfl⟩, fun _ => ⟨[], rfl⟩⟩
        · obtain ⟨h1, h2⟩ := ih.1 n now deadline pre post'' heq''
          refine ⟨h1, fun hdue => ?_⟩
          obtain ⟨post3, rfl⟩ := h2 hdue
          exact ⟨_, rfl⟩
    · intro n pre post heq
      rw [← List.singleton_append, ← List.append_assoc] at heq
      rcases split_snoc heq with ⟨rfl, rfl, hx⟩ | ⟨post', rfl, heq'⟩
      · obtain rfl : n = m := by simpa using hx
        exact ⟨log, now', _, rfl, hdue⟩
      · rcases split_snoc heq' with ⟨_, _, hx⟩ | ⟨post'', rfl, heq''⟩
        · cases hx
        · exact ih.2 n pre post'' heq''

end

/-! ## The invariant -/

/-- What holds of the cells and lists at any time, also while a callback runs. -/
structure Good [Add Time] [LT Time] (s : State Time Cb) : Prop where
  lawful : Lawful s.log
  nodup : (s.active_timers ++ s.passive_timers).Nodup
  allocated : ∀ t, t ∈ s.active_timers ++ s.passive_timers ↔ t < s.fresh
  bounded : ∀ e ∈ s.log, e.serial < s.serial
  /-- an active cell holds the timer that the log says -/
  held : ∀ t x, s.cells t = some x →
    .scheduled x.serial t x.time_started x.timeout_delay false ∈ s.log
  filled : ∀ t ∈ s.active_timers, ∃ x, s.cells t = some x
  /-- a timer that ran, or was cancelled, has the flag -/
  live : ∀ t x, s.cells t = some x → x.has_expired = false →
    .ran x.serial ∉ s.log ∧ .cancelled x.serial ∉ s.log
  /-- a timer that is still to run is active -/
  waiting : ∀ n t started delay busy, .scheduled n t started delay busy ∈ s.log →
    .ran n ∉ s.log → .cancelled n ∉ s.log →
    t ∈ s.active_timers ∧ ∃ x, s.cells t = some x ∧ x.serial = n ∧ x.has_expired = false
  /-- one cell for each call of `timer_schedule` -/
  once : ∀ n t t' started delay busy started' delay' busy',
    .scheduled n t started delay busy ∈ s.log → .scheduled n t' started' delay' busy' ∈ s.log →
    t = t' ∧ started = started' ∧ delay = delay'

section

variable [Add Time] [LT Time]

theorem timer_init_good (env : Env Time Cb) : Good (timer_init env) where
  lawful := .nil
  nodup := by simp [timer_init, List.nodup_range]
  allocated := by simp [timer_init]
  bounded := by simp [timer_init]
  held := by simp [timer_init]
  filled := by simp [timer_init]
  live := by simp [timer_init]
  waiting := by simp [timer_init]
  once := by simp [timer_init]

/-- A reading of the clock changes nothing else. -/
theorem Good.readings {s : State Time Cb} (g : Good s) (now : Time) (readings : Nat) :
    Good { s with now, readings } :=
  ⟨g.lawful, g.nodup, g.allocated, g.bounded, g.held, g.filled, g.live, g.waiting, g.once⟩

omit [Add Time] [LT Time] in
theorem timer_now_state (env : Env Time Cb) (s : State Time Cb) :
    ∃ readings, (timer_now env s).2 = { s with readings } := by
  unfold timer_now timer_now_forced
  split
  · exact ⟨s.readings, rfl⟩
  · exact ⟨s.readings + 1, rfl⟩

/-- The cell that `timer_schedule` takes is no active timer. -/
theorem take_cell_spec {s : State Time Cb} (g : Good s) :
    ∃ t passive fresh, take_cell s = (t, { s with passive_timers := passive, fresh }) ∧
      (t :: (s.active_timers ++ passive)).Nodup ∧
      ∀ u, u ∈ t :: (s.active_timers ++ passive) ↔ u < fresh := by
  unfold take_cell
  rcases hp : s.passive_timers with _ | ⟨t, rest⟩
  · refine ⟨s.fresh, [], s.fresh + 1, by simp [← hp], ?_, ?_⟩
    · have hnew := (g.allocated s.fresh).not.mpr (Nat.lt_irrefl _)
      rw [hp] at hnew
      exact List.nodup_cons.mpr ⟨hnew, hp ▸ g.nodup⟩
    · intro u
      have h := g.allocated u
      rw [hp] at h
      rw [List.mem_cons, h]
      omega
  · refine ⟨t, rest, s.fresh, rfl, ?_, ?_⟩
    · have h := g.nodup
      rw [hp] at h
      exact List.nodup_middle.mp h
    · intro u
      have h := g.allocated u
      rw [hp] at h
      rw [← h]
      simp [or_left_comm]

/-- What `timer_schedule` does. -/
theorem timer_schedule_spec (env : Env Time Cb) (callback : Cb) (delay : Time)
    {s : State Time Cb} (g : Good s) :
    ∃ t passive fresh now readings, timer_schedule env callback delay s = (t, {
        cells := Function.update s.cells t (some ⟨now, delay, false, callback, s.serial⟩)
        passive_timers := passive
        active_timers := t :: s.active_timers
        fresh
        now := s.now
        readings
        serial := s.serial + 1
        log := s.log ++ [.scheduled s.serial t now delay false] }) ∧
      (t :: (s.active_timers ++ passive)).Nodup ∧
      ∀ u, u ∈ t :: (s.active_timers ++ passive) ↔ u < fresh := by
  obtain ⟨t, passive, fresh, htake, hnodup, halloc⟩ := take_cell_spec g
  have hfree : t ∉ s.active_timers := fun h =>
    (List.nodup_cons.mp hnodup).1 (List.mem_append_left _ h)
  obtain ⟨readings, hnow⟩ := timer_now_state env { s with passive_timers := passive, fresh }
  refine ⟨t, passive, fresh, (timer_now env { s with passive_timers := passive, fresh }).1,
    readings, ?_, hnodup, halloc⟩
  unfold timer_schedule
  simp only [htake, hnow, hfree, decide_false]

theorem Good.scheduled {s : State Time Cb} (g : Good s) {t fresh readings : Nat}
    {passive : List Nat} (callback : Cb) (now delay now' : Time)
    (hnodup : (t :: (s.active_timers ++ passive)).Nodup)
    (halloc : ∀ u, u ∈ t :: (s.active_timers ++ passive) ↔ u < fresh) :
    Good {
      cells := Function.update s.cells t (some ⟨now, delay, false, callback, s.serial⟩)
      passive_timers := passive
      active_timers := t :: s.active_timers
      fresh
      now := now'
      readings
      serial := s.serial + 1
      log := s.log ++ [.scheduled s.serial t now delay false] } := by
  have hfree : t ∉ s.active_timers := fun h =>
    (List.nodup_cons.mp hnodup).1 (List.mem_append_left _ h)
  have hnew : ∀ e ∈ s.log, e.serial ≠ s.serial := fun e he => Nat.ne_of_lt (g.bounded e he)
  refine ⟨g.lawful.scheduled g.bounded, hnodup, halloc, ?_, ?_, ?_, ?_, ?_, ?_⟩
  · intro e he
    rcases List.mem_append.mp he with he | he
    · exact Nat.lt_succ_of_lt (g.bounded e he)
    · obtain rfl := List.mem_singleton.mp he
      exact Nat.lt_succ_self _
  · intro u x hx
    by_cases hu : u = t
    · subst hu
      simp only [Function.update_self, Option.some.injEq] at hx
      subst hx
      simp
    · simp only [Function.update_of_ne hu] at hx
      exact List.mem_append_left _ (g.held u x hx)
  · intro u hu
    by_cases hut : u = t
    · subst hut
      simp
    · simp only [Function.update_of_ne hut]
      exact g.filled u ((List.mem_cons.mp hu).resolve_left hut)
  · intro u x hx hlive
    by_cases hu : u = t
    · subst hu
      simp only [Function.update_self, Option.some.injEq] at hx
      subst hx
      simp only [List.mem_append, List.mem_singleton, reduceCtorEq, or_false]
      exact ⟨fun h => hnew _ h rfl, fun h => hnew _ h rfl⟩
    · simp only [Function.update_of_ne hu] at hx
      simpa using g.live u x hx hlive
  · intro n u started delay' busy hmem hran hcancel
    simp only [List.mem_append, List.mem_singleton, reduceCtorEq, or_false] at hmem hran hcancel
    rcases hmem with hmem | hmem
    · obtain ⟨hactive, x, hx, hserial, hlive⟩ := g.waiting n u started delay' busy hmem hran hcancel
      have hu : u ≠ t := fun h => hfree (h ▸ hactive)
      refine ⟨List.mem_cons_of_mem _ hactive, x, ?_, hserial, hlive⟩
      simp only [Function.update_of_ne hu]
      exact hx
    · obtain ⟨rfl, rfl, rfl, rfl, rfl⟩ := Entry.scheduled.inj hmem
      exact ⟨List.mem_cons_self, _, Function.update_self .., rfl, rfl⟩
  · intro n u u' started delay1 busy started' delay2 busy' h1 h2
    simp only [List.mem_append, List.mem_singleton] at h1 h2
    rcases h1 with h1 | h1 <;> rcases h2 with h2 | h2
    · exact g.once n u u' started delay1 busy started' delay2 busy' h1 h2
    · exact absurd (Entry.scheduled.inj h2).1 (hnew _ h1)
    · exact absurd (Entry.scheduled.inj h1).1 (hnew _ h2)
    · obtain ⟨_, rfl, rfl, rfl, _⟩ := Entry.scheduled.inj h1
      obtain ⟨_, rfl, rfl, rfl, _⟩ := Entry.scheduled.inj h2
      exact ⟨rfl, rfl, rfl⟩

/-- A cell gets the flag, and the log says why. -/
theorem Good.expired {s : State Time Cb} (g : Good s) {t : Nat} {x : Timer Time Cb}
    (hx : s.cells t = some x) {es : List (Entry Time)} (hlaw : Lawful (s.log ++ es))
    (hes : ∀ e ∈ es, e.serial = x.serial ∧ ∀ n cell started delay busy,
      e ≠ .scheduled n cell started delay busy)
    (hend : .ran x.serial ∈ es ∨ .cancelled x.serial ∈ es) (now : Time) (readings : Nat) :
    Good { expire t x s with now, readings, log := s.log ++ es } := by
  have hsame : ∀ u y, s.cells u = some y → y.serial = x.serial → u = t := by
    intro u y hy hs
    have h1 := g.held u y hy
    have h2 := g.held t x hx
    rw [hs] at h1
    exact (g.once _ _ _ _ _ _ _ _ _ h1 h2).1
  have hold : ∀ {n cell started delay busy}, Entry.scheduled n cell started delay busy ∈
      s.log ++ es →
      .scheduled n cell started delay busy ∈ s.log := by
    intro n cell started delay busy h
    rcases List.mem_append.mp h with h | h
    · exact h
    · exact absurd rfl ((hes _ h).2 n cell started delay busy)
  refine ⟨hlaw, g.nodup, g.allocated, ?_, ?_, ?_, ?_, ?_, ?_⟩
  · intro e he
    rcases List.mem_append.mp he with he | he
    · exact g.bounded e he
    · rw [(hes e he).1]
      exact g.bounded _ (g.held t x hx)
  · intro u y hy
    by_cases hu : u = t
    · subst hu
      simp only [expire, Function.update_self, Option.some.injEq] at hy
      subst hy
      exact List.mem_append_left _ (g.held u x hx)
    · simp only [expire, Function.update_of_ne hu] at hy
      exact List.mem_append_left _ (g.held u y hy)
  · intro u hu
    by_cases hut : u = t
    · subst hut
      simp [expire]
    · simp only [expire, Function.update_of_ne hut]
      exact g.filled u hu
  · intro u y hy hlive
    by_cases hu : u = t
    · subst hu
      simp only [expire, Function.update_self, Option.some.injEq] at hy
      subst hy
      cases hlive
    · simp only [expire, Function.update_of_ne hu] at hy
      obtain ⟨h1, h2⟩ := g.live u y hy hlive
      have hne : y.serial ≠ x.serial := fun h => hu (hsame u y hy h)
      constructor
      · intro h
        rcases List.mem_append.mp h with h | h
        · exact h1 h
        · exact hne (hes _ h).1
      · intro h
        rcases List.mem_append.mp h with h | h
        · exact h2 h
        · exact hne (hes _ h).1
  · intro n u started delay busy hmem hran hcancel
    simp only [List.mem_append, not_or] at hran hcancel
    obtain ⟨hactive, y, hy, hserial, hlive⟩ :=
      g.waiting n u started delay busy (hold hmem) hran.1 hcancel.1
    have hu : u ≠ t := by
      rintro rfl
      rw [hx, Option.some.injEq] at hy
      subst hy
      subst hserial
      rcases hend with h | h
      · exact hran.2 h
      · exact hcancel.2 h
    exact ⟨hactive, y, by simp only [expire, Function.update_of_ne hu]; exact hy, hserial, hlive⟩
  · intro n u u' started delay busy started' delay' busy' h1 h2
    exact g.once n u u' started delay busy started' delay' busy' (hold h1) (hold h2)

/-- A timer that is not due yet keeps its flag. -/
theorem Good.waits {s : State Time Cb} (g : Good s) {t : Nat} {x : Timer Time Cb} {now : Time}
    (hx : s.cells t = some x) (hwait : ¬ x.time_started + x.timeout_delay < now) (readings : Nat) :
    Good { s with
      readings
      log := s.log ++ [.examined x.serial now (x.time_started + x.timeout_delay)] } where
  lawful := g.lawful.waits (g.held t x hx) hwait
  nodup := g.nodup
  allocated := g.allocated
  bounded e he := by
    rcases List.mem_append.mp he with he | he
    · exact g.bounded e he
    · obtain rfl := List.mem_singleton.mp he
      have hbound := g.bounded _ (g.held t x hx)
      exact hbound
  held u y hy := List.mem_append_left _ (g.held u y hy)
  filled := g.filled
  live u y hy hlive := by simpa using g.live u y hy hlive
  waiting n u started delay busy hmem hran hcancel := by
    simp only [List.mem_append, List.mem_singleton, reduceCtorEq, or_false] at hmem hran hcancel
    exact g.waiting n u started delay busy hmem hran hcancel
  once n u u' started delay busy started' delay' busy' h1 h2 := by
    simp only [List.mem_append, List.mem_singleton, reduceCtorEq, or_false] at h1 h2
    exact g.once n u u' started delay busy started' delay' busy' h1 h2

theorem Good.cancelled {s : State Time Cb} (g : Good s) (t : Nat) : Good (timer_cancel t s) := by
  unfold timer_cancel
  split
  · exact g
  · rename_i x hx
    exact g.expired hx g.lawful.cancelled (by simp [Entry.serial])
      (Or.inr (by simp)) s.now s.readings

/-! ## What a step leaves of the timers -/

/-- What happens from `s` to `s'`, while the cells of `visited` are looked at. The timers that
are active in `s` stay in their cells, and their flags change for a reason. -/
structure Leaves (visited : List Nat) (seg : List (Entry Time)) (s s' : State Time Cb) : Prop where
  log : s'.log = s.log ++ seg
  serial : s.serial ≤ s'.serial
  news : ∀ n t started delay busy, .scheduled n t started delay busy ∈ seg → s.serial ≤ n
  ran : ∀ n, .ran n ∈ seg → ∃ t ∈ visited, ∃ x, s.cells t = some x ∧ x.serial = n
  active : ∀ t ∈ s.active_timers, t ∈ s'.active_timers
  kept : ∀ t ∈ s.active_timers, ∀ x, s.cells t = some x →
    ∃ e, s'.cells t = some { x with has_expired := e } ∧
      (e = x.has_expired ∨ .cancelled x.serial ∈ seg ∨
        ∃ now deadline, .examined x.serial now deadline ∈ seg)

omit [Add Time] [LT Time] in
theorem Leaves.refl (s : State Time Cb) : Leaves [] [] s s where
  log := by simp
  serial := Nat.le_refl _
  news := by simp
  ran := by simp
  active _ ht := ht
  kept t _ x hx := ⟨x.has_expired, hx, Or.inl rfl⟩

theorem Leaves.trans {visited visited' : List Nat} {seg seg' : List (Entry Time)}
    {s s' s'' : State Time Cb} (g : Good s) (h : Leaves visited seg s s')
    (h' : Leaves visited' seg' s' s'') (hv : ∀ t ∈ visited', t ∈ s.active_timers) :
    Leaves (visited ++ visited') (seg ++ seg') s s'' where
  log := by rw [h'.log, h.log, List.append_assoc]
  serial := Nat.le_trans h.serial h'.serial
  news n t started delay busy hmem := by
    rcases List.mem_append.mp hmem with hmem | hmem
    · exact h.news n t started delay busy hmem
    · exact Nat.le_trans h.serial (h'.news n t started delay busy hmem)
  ran n hmem := by
    rcases List.mem_append.mp hmem with hmem | hmem
    · obtain ⟨t, ht, hx⟩ := h.ran n hmem
      exact ⟨t, List.mem_append_left _ ht, hx⟩
    · -- the cell holds the timer that it held before
      obtain ⟨t, ht, y, hy, hn⟩ := h'.ran n hmem
      obtain ⟨x, hx⟩ := g.filled t (hv t ht)
      obtain ⟨e, hkept, _⟩ := h.kept t (hv t ht) x hx
      obtain rfl := Option.some.inj (hkept.symm.trans hy)
      exact ⟨t, List.mem_append_right _ ht, x, hx, hn⟩
  active t ht := h'.active t (h.active t ht)
  kept t ht x hx := by
    obtain ⟨e, he, hwhy⟩ := h.kept t ht x hx
    obtain ⟨e', he', hwhy'⟩ := h'.kept t (h.active t ht) _ he
    refine ⟨e', he', ?_⟩
    rcases hwhy' with rfl | hwhy' | ⟨now, deadline, hwhy'⟩
    · rcases hwhy with rfl | hwhy | ⟨now, deadline, hwhy⟩
      · exact Or.inl rfl
      · exact Or.inr (Or.inl (List.mem_append_left _ hwhy))
      · exact Or.inr (Or.inr ⟨now, deadline, List.mem_append_left _ hwhy⟩)
    · exact Or.inr (Or.inl (List.mem_append_right _ hwhy'))
    · exact Or.inr (Or.inr ⟨now, deadline, List.mem_append_right _ hwhy'⟩)

theorem timer_schedule_leaves (env : Env Time Cb) (callback : Cb) (delay : Time)
    {s : State Time Cb} (g : Good s) :
    Good (timer_schedule env callback delay s).2 ∧
      ∃ seg, Leaves [] seg s (timer_schedule env callback delay s).2 := by
  obtain ⟨t, passive, fresh, now, readings, hs, hnodup, halloc⟩ :=
    timer_schedule_spec env callback delay g
  rw [hs]
  refine ⟨g.scheduled callback now delay s.now hnodup halloc, _, rfl, Nat.le_succ _, ?_, ?_, ?_, ?_⟩
  · intro n u started delay' busy hmem
    obtain ⟨rfl, _⟩ := Entry.scheduled.inj (List.mem_singleton.mp hmem)
    exact Nat.le_refl _
  · simp
  · exact fun u hu => List.mem_cons_of_mem _ hu
  · intro u hu x hx
    have hne : u ≠ t := by
      rintro rfl
      exact (List.nodup_cons.mp hnodup).1 (List.mem_append_left _ hu)
    exact ⟨x.has_expired, by simpa [Function.update_of_ne hne] using hx, Or.inl rfl⟩

omit [Add Time] [LT Time] in
theorem timer_cancel_leaves (t : Nat) (s : State Time Cb) :
    ∃ seg, Leaves [] seg s (timer_cancel t s) := by
  unfold timer_cancel
  split
  · exact ⟨[], Leaves.refl s⟩
  · rename_i x hx
    refine ⟨_, rfl, Nat.le_refl _, by simp, by simp, fun u hu => hu, ?_⟩
    intro u _ y hy
    by_cases hu : u = t
    · subst hu
      obtain rfl := Option.some.inj (hx.symm.trans hy)
      exact ⟨true, by simp [expire], Or.inr (Or.inl (by simp))⟩
    · exact ⟨y.has_expired, by simpa [expire, Function.update_of_ne hu] using hy, Or.inl rfl⟩

/-- A program runs no timer. -/
theorem exec_leaves (env : Env Time Cb) (p : Prog Time Cb) {s : State Time Cb} (g : Good s) :
    Good (exec env p s) ∧ ∃ seg, Leaves [] seg s (exec env p s) := by
  induction p generalizing s with
  | ret => exact ⟨g, [], Leaves.refl s⟩
  | timer_schedule callback delay k ih =>
    obtain ⟨g1, seg1, h1⟩ := timer_schedule_leaves env callback delay g
    obtain ⟨g2, seg2, h2⟩ := ih (timer_schedule env callback delay s).1 g1
    exact ⟨g2, seg1 ++ seg2, h1.trans g h2 (by simp)⟩
  | timer_cancel t k ih =>
    obtain ⟨seg1, h1⟩ := timer_cancel_leaves t s
    obtain ⟨g2, seg2, h2⟩ := ih (g.cancelled t)
    exact ⟨g2, seg1 ++ seg2, h1.trans g h2 (by simp)⟩

variable [DecidableLT Time]

/-- A look at an active timer. -/
theorem timer_has_expired_leaves (env : Env Time Cb) {s : State Time Cb} (g : Good s) {t : Nat}
    (ht : t ∈ s.active_timers) :
    Good (timer_has_expired env s t) ∧ ∃ seg, Leaves [t] seg s (timer_has_expired env s t) ∧
      ∀ x, s.cells t = some x → x.has_expired = false →
        ∃ now deadline, .examined x.serial now deadline ∈ seg := by
  obtain ⟨x, hx⟩ := g.filled t ht
  have hrefl : Leaves [t] [] s s :=
    { Leaves.refl s with ran := by simp }
  rcases hflag : x.has_expired with _ | _
  · obtain ⟨readings, hnow⟩ := timer_now_state env s
    by_cases hdue : x.time_started + x.timeout_delay < (timer_now env s).1
    · -- the callback runs on a state that has the flag set
      have hlive := g.live t x hx hflag
      let es : List (Entry Time) := [.examined x.serial (timer_now env s).1
        (x.time_started + x.timeout_delay), .ran x.serial]
      let s2 : State Time Cb := { expire t x s with readings, log := s.log ++ es }
      have g2 : Good s2 := by
        refine g.expired hx (g.lawful.runs (g.held t x hx) hdue hlive.1 hlive.2) ?_ ?_ s.now
          readings
        · simp [Entry.serial]
        · simp
      have h2 : Leaves [t] es s s2 := by
        refine ⟨rfl, Nat.le_refl _, by simp [es], ?_, fun u hu => hu, ?_⟩
        · intro n hn
          obtain rfl : n = x.serial := by simpa [es] using hn
          exact ⟨t, by simp, x, hx, rfl⟩
        · intro u _ y hy
          by_cases hu : u = t
          · subst hu
            obtain rfl := Option.some.inj (hx.symm.trans hy)
            exact ⟨true, by simp [s2, expire], Or.inr (Or.inr ⟨_, _, List.mem_cons_self⟩)⟩
          · exact ⟨y.has_expired, by simpa [s2, expire, Function.update_of_ne hu] using hy,
              Or.inl rfl⟩
      obtain ⟨g3, seg3, h3⟩ := exec_leaves env (env.body s2.log t x.timeout_callback) g2
      have hs : timer_has_expired env s t =
          exec env (env.body s2.log t x.timeout_callback) s2 := by
        unfold timer_has_expired
        simp only [hx, hflag, hnow, hdue, if_true]
        rfl
      rw [hs]
      refine ⟨g3, es ++ seg3, h2.trans g h3 (by simp), ?_⟩
      intro y hy _
      obtain rfl := Option.some.inj (hx.symm.trans hy)
      exact ⟨_, _, List.mem_append_left _ List.mem_cons_self⟩
    · have hs : timer_has_expired env s t = { s with
          readings
          log := s.log ++ [.examined x.serial (timer_now env s).1
            (x.time_started + x.timeout_delay)] } := by
        unfold timer_has_expired
        simp only [hx, hflag, hnow, hdue, if_false]
        rfl
      rw [hs]
      refine ⟨g.waits hx hdue readings, [_], ⟨rfl, Nat.le_refl _, by simp, by simp, fun u hu => hu,
        fun u _ y hy => ⟨y.has_expired, hy, Or.inl rfl⟩⟩, ?_⟩
      intro y hy _
      obtain rfl := Option.some.inj (hx.symm.trans hy)
      exact ⟨_, _, List.mem_singleton_self _⟩
  · have hs : timer_has_expired env s t = s := by
      unfold timer_has_expired
      simp only [hx, hflag, if_true]
    rw [hs]
    refine ⟨g, [], hrefl, ?_⟩
    intro y hy hlive
    obtain rfl := Option.some.inj (hx.symm.trans hy)
    rw [hflag] at hlive
    cases hlive

/-- The traversal of a list of active timers looks at each one that is not cancelled by then. -/
theorem list_for_each_leaves (env : Env Time Cb) (l : List Nat) {s : State Time Cb} (g : Good s)
    (hl : ∀ t ∈ l, t ∈ s.active_timers) :
    Good (list_for_each env l s) ∧ ∃ seg, Leaves l seg s (list_for_each env l s) ∧
      ∀ t ∈ l, ∀ x, s.cells t = some x → x.has_expired = false →
        .cancelled x.serial ∈ seg ∨ ∃ now deadline, .examined x.serial now deadline ∈ seg := by
  induction l generalizing s with
  | nil => exact ⟨g, [], Leaves.refl s, by simp⟩
  | cons t l ih =>
    have ht := hl t List.mem_cons_self
    obtain ⟨g1, seg1, h1, hseen⟩ := timer_has_expired_leaves env g ht
    obtain ⟨g2, seg2, h2, hrest⟩ :=
      ih g1 fun u hu => h1.active u (hl u (List.mem_cons_of_mem _ hu))
    refine ⟨g2, seg1 ++ seg2, h1.trans g h2 fun u hu => hl u (List.mem_cons_of_mem _ hu), ?_⟩
    intro u hu x hx hlive
    rcases List.mem_cons.mp hu with rfl | hu
    · obtain ⟨now, deadline, hmem⟩ := hseen x hx hlive
      exact Or.inr ⟨now, deadline, List.mem_append_left _ hmem⟩
    · obtain ⟨e, hkept, hwhy⟩ := h1.kept u (hl u (List.mem_cons_of_mem _ hu)) x hx
      rcases hwhy with rfl | hcancel | ⟨now, deadline, hmem⟩
      · rcases hrest u hu x hkept hlive with hcancel | ⟨now, deadline, hmem⟩
        · exact Or.inl (List.mem_append_right _ hcancel)
        · exact Or.inr ⟨now, deadline, List.mem_append_right _ hmem⟩
      · exact Or.inl (List.mem_append_left _ hcancel)
      · exact Or.inr ⟨now, deadline, List.mem_append_left _ hmem⟩

omit [Add Time] [LT Time] [DecidableLT Time] in
theorem list_remove_if_true_eq (cells : Nat → Option (Timer Time Cb)) (active passive : List Nat) :
    list_remove_if_true cells active passive =
      (active.filter fun t => !(cells t).any (·.has_expired),
        (active.filter fun t => (cells t).any (·.has_expired)).reverse ++ passive) := by
  induction active generalizing passive with
  | nil => rfl
  | cons t active ih =>
    cases h : (cells t).any (·.has_expired) <;> simp [list_remove_if_true, h, ih]

omit [DecidableLT Time] in
/-- The end of a tick moves each cell with the flag to the passive timers, and only these. -/
theorem Good.removed {s : State Time Cb} (g : Good s) :
    Good { s with
      active_timers := (list_remove_if_true s.cells s.active_timers s.passive_timers).1
      passive_timers := (list_remove_if_true s.cells s.active_timers s.passive_timers).2 } := by
  rw [list_remove_if_true_eq]
  let f := fun t => (s.cells t).any (·.has_expired)
  have hperm : (s.active_timers.filter (fun t => !f t) ++
      ((s.active_timers.filter f).reverse ++ s.passive_timers)).Perm
      (s.active_timers ++ s.passive_timers) := by
    rw [← List.append_assoc]
    apply List.Perm.append_right
    refine (List.Perm.append_left _ (List.reverse_perm _)).trans ?_
    exact List.perm_append_comm.trans (List.filter_append_perm f s.active_timers)
  refine ⟨g.lawful, hperm.nodup_iff.mpr g.nodup, ?_, g.bounded, g.held, ?_, g.live, ?_, g.once⟩
  · intro t
    exact hperm.mem_iff.trans (g.allocated t)
  · exact fun t ht => g.filled t (List.mem_filter.mp ht).1
  · intro n t started delay busy hmem hran hcancel
    obtain ⟨hactive, x, hx, hserial, hlive⟩ := g.waiting n t started delay busy hmem hran hcancel
    exact ⟨List.mem_filter.mpr ⟨hactive, by simp [hx, hlive]⟩, x, hx, hserial, hlive⟩

/-- What a tick does with the timers that it finds, and with those that it gets meanwhile. -/
theorem timer_tick_leaves (env : Env Time Cb) {s : State Time Cb} (g : Good s) :
    Good (timer_tick env s) ∧ ∃ seg, (timer_tick env s).log = s.log ++ seg ∧
      (∀ n t started delay busy, .scheduled n t started delay busy ∈ seg → .ran n ∉ seg) ∧
      ∀ n t started delay busy, .scheduled n t started delay busy ∈ s.log →
        .ran n ∉ s.log → .cancelled n ∉ s.log →
        .cancelled n ∈ seg ∨ ∃ now deadline, .examined n now deadline ∈ seg := by
  have g0 := g.readings (env.clock s.readings) (s.readings + 1)
  obtain ⟨g1, seg, h1, hall⟩ := list_for_each_leaves env s.active_timers g0 fun t ht => ht
  refine ⟨g1.removed, seg, h1.log, ?_, ?_⟩
  · intro n t started delay busy hmem hran
    obtain ⟨u, hu, x, hx, rfl⟩ := h1.ran n hran
    -- a timer that runs has a serial from before the tick
    exact Nat.lt_irrefl _ (Nat.lt_of_lt_of_le (g.bounded _ (g.held u x hx))
      (h1.news _ t started delay busy hmem))
  · intro n t started delay busy hmem hran hcancel
    obtain ⟨hactive, x, hx, rfl, hlive⟩ := g.waiting n t started delay busy hmem hran hcancel
    exact hall t hactive x hx hlive

theorem step_good (env : Env Time Cb) {s : State Time Cb} (g : Good s) (st : Step Time Cb) :
    Good (step env s st) := by
  cases st with
  | prog p => exact (exec_leaves env p g).1
  | tick => exact (timer_tick_leaves env g).1

theorem run_good (env : Env Time Cb) (steps : List (Step Time Cb)) : Good (run env steps) := by
  unfold run
  generalize hs : timer_init env = s
  have g : Good s := hs ▸ timer_init_good env
  clear hs
  induction steps generalizing s with
  | nil => exact g
  | cons st steps ih => exact ih _ (step_good env g st)

/-! ## The timers at work -/

/-- Each cell is in one of the two lists, once. -/
def InOneList (s : State Time Cb) : Prop :=
  (s.active_timers ++ s.passive_timers).Nodup ∧
    ∀ t, t ∈ s.active_timers ++ s.passive_timers ↔ t < s.fresh

/-- A tick looks at every timer that waits, unless a callback of the same tick cancels it before.
It runs no timer that it got meanwhile. -/
def TickCovers (env : Env Time Cb) (s : State Time Cb) : Prop :=
  ∃ seg, (timer_tick env s).log = s.log ++ seg ∧
    (∀ n t started delay busy, .scheduled n t started delay busy ∈ seg → .ran n ∉ seg) ∧
    ∀ n t started delay busy, .scheduled n t started delay busy ∈ s.log →
      .ran n ∉ s.log → .cancelled n ∉ s.log →
      .cancelled n ∈ seg ∨ ∃ now deadline, .examined n now deadline ∈ seg

/-- Timers fire at most once, when they are due, and never after their cancellation. -/
theorem timers_fire_once_and_only_when_due (env : Env Time Cb) (steps : List (Step Time Cb)) :
    RunsOnce (run env steps).log ∧ SilentAfterCancel (run env steps).log ∧
      RunsWhenDue (run env steps).log ∧ TickCovers env (run env steps) ∧
      NeverBusy (run env steps).log ∧ InOneList (run env steps) := by
  have g := run_good env steps
  exact ⟨g.lawful.runsOnce, g.lawful.silentAfterCancel, g.lawful.runsWhenDue,
    (timer_tick_leaves env g).2, g.lawful.neverBusy, g.nodup, g.allocated⟩

end

end Httperf.Timers
