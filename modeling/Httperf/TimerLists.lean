-- `timer.c` over the nodes of its three lists. It keeps the timers of `Timers`, which knows the
-- lists only by what they hold, and it uses each node and each timer as memory must be used.
import Httperf.Lists
import Httperf.Timers
import Mathlib

namespace Httperf.TimerLists

open NodeList Httperf.Lists Timers

variable {Time Cb : Type}

/-! ## The functions -/

/-- The static variables, and the memory of the timers. A timer is named by the number of its
`malloc`. `freed` are those given back. -/
structure Globals (Time Cb : Type) where
  passive_timers : Option Nat
  active_timers : Option Nat
  persistent_timers : Option Nat
  cells : Nat → Option (Timer Time Cb)
  fresh : Nat
  freed : List Nat
  now : Time
  readings : Nat
  serial : Nat
  log : List (Entry Time)

/-- The nodes of the lists, and all else. -/
abbrev Mem (Time Cb : Type) := Heap Nat × Globals Time Cb

def start [Zero Time] : Mem Time Cb :=
  (fun _ => none, {
    passive_timers := none
    active_timers := none
    persistent_timers := none
    cells _ := none
    fresh := 0
    freed := []
    now := 0
    readings := 0
    serial := 0
    log := [] })

def timer_now_forced (env : Env Time Cb) (g : Globals Time Cb) : Time × Globals Time Cb :=
  (env.clock g.readings, { g with readings := g.readings + 1 })

def timer_now (env : Env Time Cb) (g : Globals Time Cb) : Time × Globals Time Cb :=
  if env.use_timer_cache then (g.now, g) else timer_now_forced env g

/-- `malloc (sizeof (struct Timer))`. -/
def malloc_timer (g : Globals Time Cb) : Nat × Globals Time Cb :=
  (g.fresh, { g with fresh := g.fresh + 1 })

/-- `free` of a timer: once only, and of nothing else. -/
def free_timer (t : Nat) (g : Globals Time Cb) : Option (Globals Time Cb) :=
  if t < g.fresh ∧ t ∉ g.freed then some { g with freed := t :: g.freed } else none

/-- The loop of `timer_init`. -/
def init_loop (m : Malloc Nat) : Nat → Mem Time Cb → Option (Bool × Mem Time Cb)
  | 0, s => some (true, s)
  | n + 1, s => do
    let (a, g) := malloc_timer s.2
    let passive ← g.passive_timers
    let (pushed, h) ← list_push m s.1 passive a
    if pushed then init_loop m n (h, g) else some (false, h, g)

/-- `false` is a failure for lack of memory. -/
def timer_init (m : Malloc Nat) (env : Env Time Cb) (s : Mem Time Cb) :
    Option (Bool × Mem Time Cb) :=
  let (passive, h1) := list_create m s.1
  let g1 := { s.2 with passive_timers := passive }
  if passive.isNone then some (false, h1, g1)
  else
    let (active, h2) := list_create m h1
    let g2 := { g1 with active_timers := active }
    if active.isNone then some (false, h2, g2)
    else
      let (persistent, h3) := list_create m h2
      let g3 := { g2 with persistent_timers := persistent }
      if persistent.isNone then some (false, h3, g3)
      else do
        let (ok, s4) ← init_loop m NUM_TIMERS (h3, g3)
        if ok then
          let (now, g) := timer_now_forced env s4.2
          some (true, s4.1, { g with now })
        else some (false, s4)

/-- The timer that `timer_schedule` takes: a passive one, or a new one. -/
def take_cell (s : Mem Time Cb) : Option (Nat × Mem Time Cb) := do
  let passive ← s.2.passive_timers
  let empty ← is_list_empty s.1 passive
  if empty then some ((malloc_timer s.2).1, s.1, (malloc_timer s.2).2)
  else (list_pop s.1 passive).map fun popped => (popped.1, popped.2, s.2)

/-- The condition `delay > 0 || true` holds, so `persistent_timers` gets nothing. The log says what
the lists do not: that no active timer was handed out is proved of it. -/
def timer_schedule (m : Malloc Nat) (env : Env Time Cb) (callback : Cb) (delay : Time)
    (s : Mem Time Cb) : Option (Nat × Mem Time Cb) := do
  let (t, s1) ← take_cell s
  let (now, g) := timer_now env s1.2
  let active ← g.active_timers
  let (_, h) ← list_push m s1.1 active t
  return (t, h, { g with
    cells := Function.update g.cells t (some {
      time_started := now
      timeout_delay := delay
      has_expired := false
      timeout_callback := callback
      serial := g.serial })
    serial := g.serial + 1
    log := g.log ++ [.scheduled g.serial t now delay false] })

def expire (t : Nat) (x : Timer Time Cb) (g : Globals Time Cb) : Globals Time Cb :=
  { g with cells := Function.update g.cells t (some { x with has_expired := true }) }

def timer_cancel (t : Nat) (g : Globals Time Cb) : Globals Time Cb :=
  match g.cells t with
  | none => g
  | some x => { expire t x g with log := g.log ++ [.cancelled x.serial] }

def exec (m : Malloc Nat) (env : Env Time Cb) : Prog Time Cb → Mem Time Cb → Option (Mem Time Cb)
  | .ret, s => some s
  | .timer_schedule callback delay k, s => do
    let (t, s1) ← timer_schedule m env callback delay s
    exec m env (k t) s1
  | .timer_cancel t k, s => exec m env k (s.1, timer_cancel t s.2)

def timer_has_expired [Add Time] [LT Time] [DecidableLT Time] (m : Malloc Nat) (env : Env Time Cb)
    (t : Nat) (s : Mem Time Cb) : Option (Mem Time Cb) :=
  match s.2.cells t with
  | none => some s
  | some x =>
    if x.has_expired then some s
    else
      let (now, g) := timer_now env s.2
      let deadline := x.time_started + x.timeout_delay
      if deadline < now then
        let g2 := { expire t x g with
          log := g.log ++ [.examined x.serial now deadline, .ran x.serial] }
        exec m env (env.body g2.log t x.timeout_callback) (s.1, g2)
      else some (s.1, { g with log := g.log ++ [.examined x.serial now deadline] })

def timer_deactivate (m : Malloc Nat) (t : Nat) (s : Mem Time Cb) : Option (Bool × Mem Time Cb) :=
  if (s.2.cells t).any (·.has_expired) then do
    let passive ← s.2.passive_timers
    let (_, h) ← list_push m s.1 passive t
    return (true, h, s.2)
  else some (false, s)

def timer_tick [Add Time] [LT Time] [DecidableLT Time] (m : Malloc Nat) (env : Env Time Cb)
    (fuel : Nat) (s : Mem Time Cb) : Option (Mem Time Cb) := do
  let (now, g) := timer_now_forced env s.2
  let active ← g.active_timers
  let s1 ← list_for_each fuel active (timer_has_expired m env) (s.1, { g with now })
  list_remove_if_true fuel active (timer_deactivate m) s1

/-- `while (!is_list_empty (l)) free (list_pop (l).vp)`. -/
def free_loop : Nat → Nat → Mem Time Cb → Option (Mem Time Cb)
  | 0, _, _ => none
  | fuel + 1, l, s => do
    let empty ← is_list_empty s.1 l
    if empty then return s
    else
      let (t, h) ← list_pop s.1 l
      let g ← free_timer t s.2
      free_loop fuel l (h, g)

/-- One of the three lists with all that it holds. -/
def free_list (fuel : Nat) (l : Option Nat) (s : Mem Time Cb) : Option (Mem Time Cb) := do
  let l ← l
  let s1 ← free_loop fuel l s
  let h ← list_free s1.1 l
  return (h, s1.2)

def timer_free_all (fuel : Nat) (s : Mem Time Cb) : Option (Mem Time Cb) := do
  let s1 ← free_list fuel s.2.passive_timers s
  let g1 := { s1.2 with passive_timers := none }
  let s2 ← free_list fuel g1.active_timers (s1.1, g1)
  let g2 := { s2.2 with active_timers := none }
  let s3 ← free_list fuel g2.persistent_timers (s2.1, g2)
  return (s3.1, { s3.2 with persistent_timers := none })

def step [Add Time] [LT Time] [DecidableLT Time] (m : Malloc Nat) (env : Env Time Cb) (fuel : Nat)
    (s : Mem Time Cb) : Step Time Cb → Option (Mem Time Cb)
  | .prog p => exec m env p s
  | .tick => timer_tick m env fuel s

/-- The program up to the end of the core loop. `main` ends at once when `timer_init` fails. -/
def run [Zero Time] [Add Time] [LT Time] [DecidableLT Time] (m : Malloc Nat) (env : Env Time Cb)
    (fuel : Nat) (steps : List (Step Time Cb)) : Option (Mem Time Cb) := do
  let (ok, s) ← timer_init m env start
  if ok then steps.foldlM (step m env fuel) s else none

/-! ## What the memory shows -/

/-- The timers as `Timers` has them, when these are the data of the lists. -/
def Globals.state (g : Globals Time Cb) (active passive : List Nat) : State Time Cb where
  cells := g.cells
  passive_timers := passive
  active_timers := active
  fresh := g.fresh
  now := g.now
  readings := g.readings
  serial := g.serial
  log := g.log

section
variable {A P Q : Nat}

/-- The list at `A` has the nodes `xs`, and `ls` are the lists at `P` and `Q`. Together they show
the state `a`. -/
structure Shows [Add Time] [LT Time] (A P Q : Nat) (a : State Time Cb) (g : Globals Time Cb)
    (xs : List (Nat × Nat)) (ls : List (Nat × List (Nat × Nat))) : Prop where
  good : Good a
  passive : g.passive_timers = some P
  active : g.active_timers = some A
  persistent : g.persistent_timers = some Q
  freed : g.freed = []
  lists : ∃ ps, ls = [(P, ps), (Q, [])] ∧ a = g.state (xs.map Prod.snd) (ps.map Prod.snd)

variable [Add Time] [LT Time] {a : State Time Cb} {h : Heap Nat} {g : Globals Time Cb}
  {xs : List (Nat × Nat)} {ls : List (Nat × List (Nat × Nat))} {m : Malloc Nat}

omit [Add Time] [LT Time] in
/-- The clock of the memory is the clock of the state. -/
theorem timer_now_shows (env : Env Time Cb) (g : Globals Time Cb) (active passive : List Nat) :
    Timers.timer_now env (g.state active passive) =
      ((timer_now env g).1, (timer_now env g).2.state active passive) := by
  unfold Timers.timer_now timer_now
  cases env.use_timer_cache <;> rfl

omit [Add Time] [LT Time] in
theorem timer_now_eq (env : Env Time Cb) (g : Globals Time Cb) :
    ∃ now readings, timer_now env g = (now, { g with readings }) := by
  unfold timer_now timer_now_forced
  split
  · exact ⟨g.now, g.readings, rfl⟩
  · exact ⟨env.clock g.readings, g.readings + 1, rfl⟩

theorem take_cell_shows (ho : Owned h ((A, xs) :: ls)) (hs : Shows A P Q a g xs ls) :
    ∃ h' fresh ps, take_cell (h, g) = some ((Timers.take_cell a).1, h', { g with fresh }) ∧
      Owned h' [(A, xs), (P, ps), (Q, [])] ∧
      (Timers.take_cell a).2 = { g with fresh : Globals Time Cb }.state (xs.map Prod.snd)
      (ps.map Prod.snd) := by
  obtain ⟨ps, rfl, rfl⟩ := hs.lists
  have ho' := ho.perm (List.Perm.swap (P, ps) (A, xs) [(Q, [])])
  have htake : take_cell (h, g) =
      if ps.isEmpty then some ((malloc_timer g).1, h, (malloc_timer g).2)
      else (list_pop h P).map fun popped => (popped.1, popped.2, g) := by
    simp only [take_cell, hs.passive, Option.bind_eq_bind, Option.bind_some, is_list_empty_spec ho']
  rw [htake]
  cases ps with
  | nil => exact ⟨h, g.fresh + 1, [], rfl, ho, rfl⟩
  | cons p ps =>
    obtain ⟨h', hpop, hpopped⟩ := list_pop_spec ho'
    refine ⟨h', g.fresh, ps, ?_, hpopped.perm (List.Perm.swap (A, xs) (P, ps) [(Q, [])]), rfl⟩
    simp [hpop, Timers.take_cell, Globals.state]

theorem timer_schedule_shows (henough : m.Enough) (env : Env Time Cb) (callback : Cb) (delay : Time)
    (ho : Owned h ((A, xs) :: ls)) (hs : Shows A P Q a g xs ls) :
    ∃ h' g' x ls', timer_schedule m env callback delay (h, g) =
        some ((Timers.timer_schedule env callback delay a).1, h', g') ∧
      Owned h' ((A, x :: xs) :: ls') ∧
      Shows A P Q (Timers.timer_schedule env callback delay a).2 g' (x :: xs) ls' := by
  obtain ⟨t, passive, _, _, _, hsched, hnodup, -⟩ := timer_schedule_spec env callback delay hs.good
  obtain ⟨h1, fresh, ps, htake, ho1, hstate⟩ := take_cell_shows ho hs
  obtain ⟨now, readings, hnow⟩ := timer_now_eq env { g with fresh }
  obtain ⟨n, h2, hpush, ho2⟩ := list_push_spec henough ho1 (Timers.take_cell a).1
  have ht : (Timers.take_cell a).1 = t := congrArg Prod.fst hsched
  have hactive : a.active_timers = xs.map Prod.snd := by
    obtain ⟨_, -, rfl⟩ := hs.lists
    rfl
  have hbusy : (Timers.take_cell a).1 ∉ xs.map Prod.snd := by
    rw [ht, ← hactive]
    exact fun hmem => (List.nodup_cons.mp hnodup).1 (List.mem_append_left _ hmem)
  refine ⟨h2, { g with
      fresh
      readings
      cells := Function.update g.cells (Timers.take_cell a).1 (some
        ⟨now, delay, false, callback, g.serial⟩)
      serial := g.serial + 1
      log := g.log ++ [.scheduled g.serial (Timers.take_cell a).1 now delay false] },
    (n, (Timers.take_cell a).1), [(P, ps), (Q, [])], ?_, ho2,
    (timer_schedule_leaves env callback delay hs.good).1, hs.passive, hs.active, hs.persistent,
    hs.freed, ps, rfl, ?_⟩
  · simp only [timer_schedule, htake, Option.bind_eq_bind, Option.bind_some, hnow]
    simp only [hs.active, Option.bind_some, hpush]
    rfl
  · unfold Timers.timer_schedule
    simp only [hstate, timer_now_shows, hnow]
    simp [Globals.state, hbusy]

omit [Add Time] [LT Time] in
theorem timer_cancel_state (t : Nat) (g : Globals Time Cb) (active passive : List Nat) :
    Timers.timer_cancel t (g.state active passive) = (timer_cancel t g).state active passive := by
  unfold Timers.timer_cancel timer_cancel
  change (match g.cells t with | none => _ | some x => _) = _
  cases g.cells t <;> rfl

theorem Shows.cancelled (hs : Shows A P Q a g xs ls) (t : Nat) :
    Shows A P Q (Timers.timer_cancel t a) (timer_cancel t g) xs ls := by
  obtain ⟨ps, hls, ha⟩ := hs.lists
  have hfields : (timer_cancel t g).passive_timers = g.passive_timers ∧
      (timer_cancel t g).active_timers = g.active_timers ∧
      (timer_cancel t g).persistent_timers = g.persistent_timers ∧
      (timer_cancel t g).freed = g.freed := by
    unfold timer_cancel
    cases g.cells t <;> exact ⟨rfl, rfl, rfl, rfl⟩
  obtain ⟨hpassive, hactive, hpersistent, hfreed⟩ := hfields
  refine ⟨hs.good.cancelled t, hpassive.trans hs.passive, hactive.trans hs.active,
    hpersistent.trans hs.persistent, hfreed.trans hs.freed, ps, hls, ?_⟩
  rw [ha, timer_cancel_state]

/-- A callback puts timers in front, and nothing else happens to the lists but that passive timers
go. -/
theorem exec_shows (henough : m.Enough) (env : Env Time Cb) (p : Prog Time Cb)
    (ho : Owned h ((A, xs) :: ls)) (hs : Shows A P Q a g xs ls) :
    ∃ h' g' new ls', exec m env p (h, g) = some (h', g') ∧ Owned h' ((A, new ++ xs) :: ls') ∧
      Shows A P Q (Timers.exec env p a) g' (new ++ xs) ls' := by
  induction p generalizing a h g xs ls with
  | ret => exact ⟨h, g, [], ls, rfl, ho, hs⟩
  | timer_schedule callback delay k ih =>
    obtain ⟨h1, g1, x, ls1, hsched, ho1, hs1⟩ :=
      timer_schedule_shows henough env callback delay ho hs
    obtain ⟨h2, g2, new, ls2, hexec, ho2, hs2⟩ := ih _ ho1 hs1
    rw [List.append_cons] at ho2 hs2
    refine ⟨h2, g2, new ++ [x], ls2, ?_, ho2, hs2⟩
    simp only [exec, hsched, Option.bind_eq_bind, Option.bind_some, hexec]
  | timer_cancel t k ih => exact ih ho (hs.cancelled t)

variable [DecidableLT Time]

/-- The look at one timer. When it is due, its flag is set before the callback runs. -/
theorem timer_has_expired_shows (henough : m.Enough) (env : Env Time Cb) {x : Nat × Nat}
    (hx : x ∈ xs) (ho : Owned h ((A, xs) :: ls)) (hs : Shows A P Q a g xs ls) :
    ∃ h' g' new ls', timer_has_expired m env x.2 (h, g) = some (h', g') ∧
      Owned h' ((A, new ++ xs) :: ls') ∧
      Shows A P Q (Timers.timer_has_expired env a x.2) g' (new ++ xs) ls' := by
  obtain ⟨hgood, hpassive, hactive, hpersistent, hfreed, ps, rfl, ha⟩ := hs
  obtain ⟨y, hy⟩ : ∃ y, a.cells x.2 = some y :=
    hgood.filled x.2 (by rw [ha]; exact List.mem_map_of_mem hx)
  have hyg : g.cells x.2 = some y := by rw [← hy, ha]; rfl
  obtain ⟨now, readings, hnow⟩ := timer_now_eq env g
  have hnow' : Timers.timer_now env a = (now, { a with readings }) := by
    rw [ha, timer_now_shows, hnow]
    rfl
  have hconcrete : timer_has_expired m env x.2 (h, g) =
      if y.has_expired then some (h, g)
      else if y.time_started + y.timeout_delay < now then
        exec m env (env.body (a.log ++ [.examined y.serial now (y.time_started + y.timeout_delay),
            .ran y.serial]) x.2 y.timeout_callback) (h, { expire x.2 y g with
          readings
          log :=
            g.log ++ [.examined y.serial now (y.time_started + y.timeout_delay), .ran y.serial] })
      else some (h, { g with
        readings
        log := g.log ++ [.examined y.serial now (y.time_started + y.timeout_delay)] }) := by
    simp only [timer_has_expired, hyg, hnow, ha]
    rfl
  have habstract : Timers.timer_has_expired env a x.2 =
      if y.has_expired then a
      else if y.time_started + y.timeout_delay < now then
        Timers.exec env
          (env.body (a.log ++ [.examined y.serial now (y.time_started + y.timeout_delay),
            .ran y.serial]) x.2 y.timeout_callback) { Timers.expire x.2 y a with
          readings
          log :=
            a.log ++ [.examined y.serial now (y.time_started + y.timeout_delay), .ran y.serial] }
      else { a with
        readings
        log := a.log ++ [.examined y.serial now (y.time_started + y.timeout_delay)] } := by
    simp only [Timers.timer_has_expired, hy, hnow']
    rfl
  rw [hconcrete, habstract]
  rcases hflag : y.has_expired with _ | _
  · by_cases hdue : y.time_started + y.timeout_delay < now
    · have hlive := hgood.live x.2 y hy hflag
      simp only [Bool.false_eq_true, if_false, hdue, if_true]
      refine exec_shows henough env _ ho ⟨?_, hpassive, hactive, hpersistent, hfreed, ps, rfl, ?_⟩
      · refine hgood.expired hy (hgood.lawful.runs (hgood.held x.2 y hy) hdue hlive.1 hlive.2) ?_
          ?_ a.now
          readings
        · simp [Entry.serial]
        · simp
      · rw [ha]
        rfl
    · simp only [Bool.false_eq_true, if_false, hdue]
      exact ⟨h, _, [], _, rfl, ho, hgood.waits hy hdue readings, hpassive, hactive, hpersistent,
        hfreed, ps,
        rfl, by rw [ha]; rfl⟩
  · rw [if_pos rfl, if_pos rfl]
    exact ⟨h, g, [], _, rfl, ho, hgood, hpassive, hactive, hpersistent, hfreed, ps, rfl, ha⟩

omit [Add Time] [LT Time] [DecidableLT Time] in
theorem timer_deactivate_spec (henough : m.Enough) (t : Nat) (hpassive : g.passive_timers = some P)
    {ps qs : List (Nat × Nat)} (ho : Owned h [(A, xs), (P, ps), (Q, qs)]) :
    ∃ h' ps', timer_deactivate m t (h, g) = some ((g.cells t).any (·.has_expired), h', g) ∧
      Owned h' [(A, xs), (P, ps'), (Q, qs)] ∧
      ps'.map Prod.snd = if (g.cells t).any (·.has_expired) then t :: ps.map Prod.snd
        else ps.map Prod.snd := by
  rcases hflag : (g.cells t).any (·.has_expired) with _ | _
  · exact ⟨h, ps, by simp [timer_deactivate, hflag], ho, by simp [hflag]⟩
  · obtain ⟨n, h', hpush, ho'⟩ :=
      list_push_spec henough (ho.perm (List.Perm.swap (P, ps) (A, xs) [(Q, qs)])) t
    refine ⟨h', (n, t) :: ps, ?_, ho'.perm (List.Perm.swap (A, xs) (P, (n, t) :: ps) [(Q, qs)]),
      by simp [hflag]⟩
    simp [timer_deactivate, hflag, hpassive, hpush]

omit [Add Time] [LT Time] [DecidableLT Time] in
/-- The fold that goes with `timer_deactivate`. -/
theorem foldl_passive (cells : Nat → Option (Timer Time Cb)) (active passive : List Nat) :
    active.foldl (fun ps t => if (cells t).any (·.has_expired) then t :: ps else ps) passive =
      (Timers.list_remove_if_true cells active passive).2 := by
  induction active generalizing passive with
  | nil => rfl
  | cons t active ih =>
    rw [List.foldl_cons, ih, Timers.list_remove_if_true]
    split <;> rfl

/-- The turns that the traversals of a tick need. -/
def turns (env : Env Time Cb) (s : State Time Cb) : Nat :=
  (Timers.list_for_each env s.active_timers
    { s with now := env.clock s.readings, readings := s.readings + 1 }).active_timers.length + 1

theorem timer_tick_shows (henough : m.Enough) (env : Env Time Cb) {fuel : Nat}
    (hfuel : turns env a ≤ fuel) (ho : Owned h ((A, xs) :: ls)) (hs : Shows A P Q a g xs ls) :
    ∃ h' g' xs' ls', timer_tick m env fuel (h, g) = some (h', g') ∧ Owned h' ((A, xs') :: ls') ∧
      Shows A P Q (Timers.timer_tick env a) g' xs' ls' := by
  have hdata : xs.map Prod.snd = a.active_timers := by
    obtain ⟨_, -, rfl⟩ := hs.lists
    rfl
  have hclock : g.readings = a.readings := by
    obtain ⟨_, -, rfl⟩ := hs.lists
    rfl
  let a0 : State Time Cb := { a with now := env.clock a.readings, readings := a.readings + 1 }
  have hs0 : Shows A P Q a0 { g with now := env.clock a.readings, readings := a.readings + 1 } xs
      ls := by
    obtain ⟨hgood, hpassive, hactive, hpersistent, hfreed, ps, hls, ha⟩ := hs
    exact ⟨hgood.readings _ _, hpassive, hactive, hpersistent, hfreed, ps,
      hls, by simp only [a0, ha]; rfl⟩
  have hlength : xs.length < fuel := by
    obtain ⟨-, seg, hleaves, -⟩ := list_for_each_leaves env a.active_timers hs0.good fun t ht => ht
    have hsub : a.active_timers.Nodup := (List.nodup_append.mp hs.good.nodup).1
    calc xs.length = a.active_timers.length := by rw [← hdata, List.length_map]
      _ ≤ (Timers.list_for_each env a.active_timers a0).active_timers.length :=
        (hsub.subperm hleaves.active).length_le
      _ < fuel := hfuel
  obtain ⟨h1, g1, new, ls1, heach, ho1, hs1⟩ :=
    list_for_each_spec (fun _ _ _ _ _ x hx ho hs => timer_has_expired_shows henough env hx ho hs)
      hlength ho hs0
  rw [hdata] at hs1
  obtain ⟨hgood1, hpassive1, hactive1, hpersistent1, hfreed1, ps1, rfl, ha1⟩ := hs1
  have hdata1 : (new ++ xs).map Prod.snd =
      (Timers.list_for_each env a.active_timers a0).active_timers := by
    change _ = (a.active_timers.foldl _ a0).active_timers
    rw [ha1]
    rfl
  have hlength1 : (new ++ xs).length < fuel := by
    rw [← List.length_map Prod.snd, hdata1]
    exact hfuel
  obtain ⟨h2, g2, ls2, hremove, ho2, hj⟩ :=
    @list_remove_if_true_spec _ _ _ A
      (fun ps (g : Globals Time Cb) ls => g = g1 ∧ ∃ qs, ls = [(P, qs), (Q, [])] ∧
        qs.map Prod.snd = ps)
      (timer_deactivate m)
      (fun ps t => if (g1.cells t).any (·.has_expired) then t :: ps else ps)
      (fun t => (g1.cells t).any (·.has_expired))
      (by
        rintro ps h g xs ls x hx ho ⟨rfl, qs, rfl, rfl⟩
        obtain ⟨h', qs', hact, ho', hqs⟩ := timer_deactivate_spec henough x.2 hpassive1 ho
        exact ⟨h', g, _, hact, ho', rfl, qs', rfl, hqs⟩)
      _ _ hlength1 _ _ _ _ ho1 ⟨rfl, ps1, rfl, rfl⟩
  obtain ⟨rfl, qs, rfl, hqs⟩ := hj
  refine ⟨h2, g2, _, _, ?_, ho2, ?_⟩
  · have hpointer : g.active_timers = some A := hs.active
    simp only [timer_tick, timer_now_forced, hclock, Option.bind_eq_bind]
    simp only [hpointer, Option.bind_some] at heach ⊢
    rw [heach]
    exact hremove
  · refine ⟨(timer_tick_leaves env hs.good).1, hpassive1, hactive1, hpersistent1, hfreed1, qs,
      rfl, ?_⟩
    have heach' : Timers.list_for_each env a.active_timers a0 = g2.state ((new ++ xs).map Prod.snd)
        (ps1.map Prod.snd) := ha1
    have htick : Timers.timer_tick env a =
        let s := Timers.list_for_each env a.active_timers a0
        let lists := Timers.list_remove_if_true s.cells s.active_timers s.passive_timers
        { s with active_timers := lists.1, passive_timers := lists.2 } := rfl
    rw [htick, heach', hqs, foldl_passive]
    change g2.state
      (Timers.list_remove_if_true g2.cells ((new ++ xs).map Prod.snd) (ps1.map Prod.snd)).1 _ = _
    refine congrArg (fun active => g2.state active _) ?_
    rw [list_remove_if_true_eq]
    exact List.filter_map

theorem step_shows (henough : m.Enough) (env : Env Time Cb) {fuel : Nat}
    (hfuel : turns env a ≤ fuel) (ho : Owned h ((A, xs) :: ls)) (hs : Shows A P Q a g xs ls)
    (st : Step Time Cb) :
    ∃ h' g' xs' ls', step m env fuel (h, g) st = some (h', g') ∧ Owned h' ((A, xs') :: ls') ∧
      Shows A P Q (Timers.step env a st) g' xs' ls' := by
  cases st with
  | prog p =>
    obtain ⟨h', g', new, ls', hexec, ho', hs'⟩ := exec_shows henough env p ho hs
    exact ⟨h', g', new ++ xs, ls', hexec, ho', hs'⟩
  | tick => exact timer_tick_shows henough env hfuel ho hs

/-- How many turns are needed depends on the timers, not on where the nodes stand. -/
theorem steps_show (henough : m.Enough) (env : Env Time Cb) (steps : List (Step Time Cb))
    (a : State Time Cb) :
    ∃ N, ∀ fuel, N ≤ fuel → ∀ h g xs ls, Owned h ((A, xs) :: ls) → Shows A P Q a g xs ls →
      ∃ h' g' xs' ls', steps.foldlM (step m env fuel) (h, g) = some (h', g') ∧
        Owned h' ((A, xs') :: ls') ∧ Shows A P Q (steps.foldl (Timers.step env) a) g' xs' ls' := by
  induction steps generalizing a with
  | nil => exact ⟨0, fun fuel _ h g xs ls ho hs => ⟨h, g, xs, ls, rfl, ho, hs⟩⟩
  | cons st steps ih =>
    obtain ⟨N, hN⟩ := ih (Timers.step env a st)
    refine ⟨max N (turns env a), fun fuel hfuel h g xs ls ho hs => ?_⟩
    obtain ⟨h1, g1, xs1, ls1, hstep, ho1, hs1⟩ :=
      step_shows henough env (Nat.le_trans (Nat.le_max_right _ _) hfuel) ho hs st
    obtain ⟨h2, g2, xs2, ls2, hrest, ho2, hs2⟩ :=
      hN fuel (Nat.le_trans (Nat.le_max_left _ _) hfuel) h1 g1 xs1 ls1 ho1 hs1
    refine ⟨h2, g2, xs2, ls2, ?_, ho2, hs2⟩
    simp only [List.foldlM_cons, hstep, Option.bind_eq_bind, Option.bind_some]
    exact hrest

end

/-! ## The beginning and the end -/

section
variable {h : Heap Nat} {g : Globals Time Cb} {ls : List (Nat × List (Nat × Nat))} {m : Malloc Nat}

theorem init_loop_spec (henough : m.Enough) {P : Nat} (n : Nat)
    (hpassive : g.passive_timers = some P) {ps : List (Nat × Nat)} (ho : Owned h ((P, ps) :: ls)) :
    ∃ h' ps', init_loop m n (h, g) = some (true, h', { g with fresh := g.fresh + n }) ∧
      Owned h' ((P, ps') :: ls) ∧
      ps'.map Prod.snd = (List.range' g.fresh n).reverse ++ ps.map Prod.snd := by
  induction n generalizing h g ps with
  | zero => exact ⟨h, ps, rfl, ho, rfl⟩
  | succ n ih =>
    obtain ⟨k, h1, hpush, ho1⟩ := list_push_spec henough ho g.fresh
    obtain ⟨h2, ps2, hloop, ho2, hps2⟩ := ih (g := { g with fresh := g.fresh + 1 }) hpassive ho1
    refine ⟨h2, ps2, ?_, ho2, ?_⟩
    · simp only [init_loop, malloc_timer, hpassive, Option.bind_eq_bind, Option.bind_some, hpush,
        if_true]
      simp only [hpassive] at hloop
      rw [hloop, Nat.add_right_comm, Nat.add_assoc]
    · rw [hps2, List.range'_succ]
      simp

/-- `timer_init` makes the lists, of which the passive one gets all timers. -/
theorem timer_init_shows [Zero Time] [Add Time] [LT Time] (henough : m.Enough) (env : Env Time Cb) :
    ∃ A P Q h g ls, timer_init m env (start : Mem Time Cb) = some (true, h, g) ∧
    Owned h ((A, []) :: ls) ∧
      Shows A P Q (Timers.timer_init env) g [] ls := by
  have hnone : Owned (start : Mem Time Cb).1 [] := owned_nil
  obtain ⟨P, h1, hcreate1, ho1⟩ := list_create_spec henough hnone
  obtain ⟨A, h2, hcreate2, ho2⟩ := list_create_spec henough ho1
  obtain ⟨Q, h3, hcreate3, ho3⟩ := list_create_spec henough ho2
  have ho3' : Owned h3 [(P, []), (A, []), (Q, [])] :=
    ho3.perm (List.reverse_perm [(P, []), (A, []), (Q, [])])
  let g3 : Globals Time Cb := { (start : Mem Time Cb).2 with
    passive_timers := some P, active_timers := some A, persistent_timers := some Q }
  obtain ⟨h4, ps, hloop, ho4, hps⟩ := init_loop_spec (g := g3) henough NUM_TIMERS rfl ho3'
  refine ⟨A, P, Q, h4, { g3 with fresh := 0 + NUM_TIMERS, now := env.clock 0, readings := 1 }, _,
    ?_, ho4.perm (List.Perm.swap _ _ _), timer_init_good env, rfl, rfl, rfl, rfl, ps, rfl, ?_⟩
  · simp only [timer_init, hcreate1, hcreate2, hcreate3, Option.isNone_some, Bool.false_eq_true,
      if_false]
    change (init_loop m NUM_TIMERS (h3, g3)).bind _ = _
    rw [hloop]
    rfl
  · rw [hps]
    simp [Timers.timer_init, Globals.state, g3, start, List.range_eq_range']

/-- The list is emptied, and each of its timers given back. -/
theorem free_loop_spec {l : Nat} (xs : List (Nat × Nat)) {fuel : Nat} (hfuel : xs.length < fuel)
    (ho : Owned h ((l, xs) :: ls)) (hfresh : ∀ t ∈ xs.map Prod.snd, t < g.fresh)
    (hnodup : (xs.map Prod.snd ++ g.freed).Nodup) :
    ∃ h', free_loop fuel l (h, g) =
      some (h', { g with freed := (xs.map Prod.snd).reverse ++ g.freed }) ∧
      Owned h' ((l, []) :: ls) := by
  induction xs generalizing fuel h g with
  | nil =>
    obtain ⟨fuel, rfl⟩ := Nat.exists_eq_succ_of_ne_zero (Nat.ne_of_gt hfuel)
    refine ⟨h, ?_, ho⟩
    simp [free_loop, is_list_empty_spec ho]
  | cons x xs ih =>
    obtain ⟨fuel, rfl⟩ :=
      Nat.exists_eq_succ_of_ne_zero (Nat.ne_of_gt (Nat.lt_of_le_of_lt (Nat.zero_le _) hfuel))
    obtain ⟨h1, hpop, ho1⟩ := list_pop_spec ho
    have hnew : x.2 ∉ xs.map Prod.snd ++ g.freed := (List.nodup_cons.mp hnodup).1
    have hfree : free_timer x.2 g = some { g with freed := x.2 :: g.freed } :=
      if_pos ⟨hfresh x.2 List.mem_cons_self, fun hmem => hnew (List.mem_append_right _ hmem)⟩
    obtain ⟨h2, hloop, ho2⟩ :=
      ih (g := { g with freed := x.2 :: g.freed }) (Nat.lt_of_succ_lt_succ hfuel) ho1
      (fun t ht => hfresh t (List.mem_cons_of_mem _ ht)) (List.perm_middle.nodup_iff.mpr hnodup)
    refine ⟨h2, ?_, ho2⟩
    simp only [free_loop, is_list_empty_spec ho, List.isEmpty_cons, hpop, hfree, hloop,
      Option.bind_eq_bind, Option.bind_some, Bool.false_eq_true, if_false]
    simp

theorem free_list_spec {l : Nat} {p : Option Nat} (hp : p = some l) (xs : List (Nat × Nat))
    {fuel : Nat} (hfuel : xs.length < fuel) (ho : Owned h ((l, xs) :: ls))
    (hfresh : ∀ t ∈ xs.map Prod.snd, t < g.fresh) (hnodup : (xs.map Prod.snd ++ g.freed).Nodup) :
    ∃ h', free_list fuel p (h, g) =
      some (h', { g with freed := (xs.map Prod.snd).reverse ++ g.freed }) ∧
      Owned h' ls := by
  subst hp
  obtain ⟨h1, hloop, ho1⟩ := free_loop_spec xs hfuel ho hfresh hnodup
  obtain ⟨h2, hfree, ho2⟩ := list_free_spec ho1
  refine ⟨h2, ?_, ho2⟩
  simp only [free_list, Option.bind_eq_bind, Option.bind_some, hloop, hfree]
  rfl

end

section
variable [Zero Time] [Add Time] [LT Time] [DecidableLT Time] {m : Malloc Nat}

omit [Zero Time] [DecidableLT Time] in
/-- `timer_free_all` gives back all that is in use. -/
theorem timer_free_all_spec {A P Q : Nat} {a : State Time Cb} {h : Heap Nat} {g : Globals Time Cb}
    {xs : List (Nat × Nat)} {ls : List (Nat × List (Nat × Nat))} {fuel : Nat}
    (hfuel : a.active_timers.length + a.passive_timers.length < fuel)
    (ho : Owned h ((A, xs) :: ls)) (hs : Shows A P Q a g xs ls) :
    ∃ e, timer_free_all fuel (h, g) = some e ∧ (∀ n, e.1 n = none) ∧
      e.2.freed.Perm (List.range a.fresh) := by
  obtain ⟨hgood, hpassive, hactive, hpersistent, hfreed, ps, rfl, rfl⟩ := hs
  have hnodup : (xs.map Prod.snd ++ ps.map Prod.snd).Nodup := hgood.nodup
  have hmem : ∀ t, t ∈ xs.map Prod.snd ++ ps.map Prod.snd ↔ t < g.fresh := hgood.allocated
  have hlength : xs.length + ps.length < fuel := by
    simpa [Globals.state] using hfuel
  -- the passive timers
  obtain ⟨h1, hfree1, ho1⟩ :=
    free_list_spec hpassive ps (Nat.lt_of_le_of_lt (Nat.le_add_left _ _) hlength)
    (ho.perm (List.Perm.swap (P, ps) (A, xs) [(Q, [])]))
    (fun t ht => (hmem t).mp (List.mem_append_right _ ht))
    (by simpa [hfreed] using (List.nodup_append.mp hnodup).2.1)
  -- the active ones
  let g1 : Globals Time Cb :=
    { g with freed := (ps.map Prod.snd).reverse ++ g.freed, passive_timers := none }
  obtain ⟨h2, hfree2, ho2⟩ :=
    free_list_spec (g := g1) (show g1.active_timers = some A from hactive) xs
    (Nat.lt_of_le_of_lt (Nat.le_add_right _ _) hlength) ho1
    (fun t ht => (hmem t).mp (List.mem_append_left _ ht))
    (by
      refine ((List.Perm.append_left _ ?_).nodup_iff).mp hnodup
      simp [g1, hfreed, (List.reverse_perm (ps.map Prod.snd)).symm])
  -- there are no persistent ones
  let g2 : Globals Time Cb :=
    { g1 with freed := (xs.map Prod.snd).reverse ++ g1.freed, active_timers := none }
  have hall : g2.freed.Perm (xs.map Prod.snd ++ ps.map Prod.snd) := by
    change ((xs.map Prod.snd).reverse ++ ((ps.map Prod.snd).reverse ++ g.freed)).Perm _
    rw [hfreed, List.append_nil]
    exact (List.reverse_perm _).append (List.reverse_perm _)
  have hnodup2 := hall.nodup_iff.mpr hnodup
  obtain ⟨h3, hfree3, ho3⟩ :=
    free_list_spec (g := g2) (show g2.persistent_timers = some Q from hpersistent) []
    (Nat.zero_lt_of_lt hlength) ho2 (fun _ ht => absurd ht List.not_mem_nil) hnodup2
  refine ⟨(h3, { g2 with persistent_timers := none }), ?_, fun n => ?_, ?_⟩
  · simp only [timer_free_all, Option.bind_eq_bind, hfree1, Option.bind_some]
    change (free_list fuel g1.active_timers (h1, g1)).bind _ = _
    rw [hfree2]
    change (free_list fuel g2.persistent_timers (h2, g2)).bind _ = _
    rw [hfree3]
    rfl
  · exact not_not.mp fun hne => List.not_mem_nil ((ho3.exact n).mp hne)
  · refine (List.perm_ext_iff_of_nodup hnodup2 List.nodup_range).mpr fun t => ?_
    rw [hall.mem_iff, hmem, List.mem_range]
    rfl

/-- The program on its lists. No node is read or written that is not in use, each loop ends, and
what the lists hold is what `Timers` says. The nodes in use are those of the lists, and at the end
there is none: each timer that was ever made has been given back, once. -/
theorem timers_live_in_their_lists (henough : m.Enough) (env : Env Time Cb)
    (steps : List (Step Time Cb)) :
    ∃ N, ∀ fuel, N ≤ fuel → ∃ A P Q h g xs ps e, run m env fuel steps = some (h, g) ∧
      Owned h [(A, xs), (P, ps), (Q, [])] ∧
      Timers.run env steps = g.state (xs.map Prod.snd) (ps.map Prod.snd) ∧
      timer_free_all fuel (h, g) = some e ∧ (∀ n, e.1 n = none) ∧
      e.2.freed.Perm (List.range (Timers.run env steps).fresh) := by
  obtain ⟨A, P, Q, h0, g0, ls0, hinit, ho0, hs0⟩ := timer_init_shows henough env
  obtain ⟨N, hN⟩ := steps_show henough env steps (Timers.timer_init env)
  refine ⟨max N ((Timers.run env steps).active_timers.length +
    (Timers.run env steps).passive_timers.length + 1), fun fuel hfuel => ?_⟩
  obtain ⟨h, g, xs, ls, hsteps, ho, hs⟩ :=
    hN fuel (Nat.le_trans (Nat.le_max_left _ _) hfuel) h0 g0 [] ls0 ho0 hs0
  obtain ⟨e, hfree, hnone, hfreed⟩ :=
    timer_free_all_spec (Nat.le_trans (Nat.le_max_right _ _) hfuel) ho hs
  obtain ⟨ps, rfl, ha⟩ := hs.lists
  refine ⟨A, P, Q, h, g, xs, ps, e, ?_, ho, ha, hfree, hnone, hfreed⟩
  simp only [run, hinit, Option.bind_eq_bind, Option.bind_some, if_true]
  exact hsteps

end

open Classical in
/-- Memory that is never short, and gives the lowest place. -/
noncomputable def lowest : Malloc Nat where
  pick h := if free : ∃ a, h a = none then some (Nat.find free) else none
  fresh h a hpick := by
    split at hpick
    · rename_i free
      obtain rfl := Option.some.inj hpick
      exact Nat.find_spec free
    · exact absurd hpick nofun

theorem lowest_enough : lowest.Enough := fun h hfree => by
  simp [lowest, hfree]

/-- A callback that schedules its timer again. -/
def again : Env Nat Nat where
  use_timer_cache := true
  clock n := n
  body _ _ delay := .timer_schedule delay delay fun _ => .ret

def someSteps : List (Step Nat Nat) :=
  [.prog (.timer_schedule 1 1 fun _ => .timer_schedule 2 2 fun t => .timer_cancel t .ret), .tick,
    .tick, .tick]

theorem timers_live_in_their_lists_again :
    ∃ N, ∀ fuel, N ≤ fuel → ∃ A P Q h g xs ps e, run lowest again fuel someSteps = some (h, g) ∧
      Owned h [(A, xs), (P, ps), (Q, [])] ∧
      Timers.run again someSteps = g.state (xs.map Prod.snd) (ps.map Prod.snd) ∧
      timer_free_all fuel (h, g) = some e ∧ (∀ n, e.1 n = none) ∧
      e.2.freed.Perm (List.range (Timers.run again someSteps).fresh) :=
  timers_live_in_their_lists lowest_enough again someSteps

end Httperf.TimerLists
