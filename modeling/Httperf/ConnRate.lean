-- The generator of connections (`conn_rate.c`) on top of the rate generator (`rate.c`). A
-- `core_connect` that fails destroys its connection before it returns, so that the handlers of
-- `EV_CONN_DESTROYED` run inside `make_conn`, and at rate 0 they make the next connection there.
import Httperf.Lib.Runs
import Mathlib.Data.Int.Order.Basic

namespace Httperf.ConnRate

/-- `--num-conns`, `--max-connections`, and whether the rate is 0. -/
structure Param where
  num_conns : Nat
  max_conns : Nat
  sequential : Bool
  deriving DecidableEq, Repr

/-- The variables of the generator, `param.num_conns`, which `core_exit` overwrites, and `rg.done`.
`opened`, `closed` and `exits` are no variables of the source: they count the connections that
`core_connect` opened, those of them that are destroyed, and the calls of `core_exit`. -/
structure State where
  num_conns : Nat
  running : Bool
  started : Bool
  done : Bool
  num_conns_generated : Int
  num_conns_destroyed : Int
  num_conns_open : Int
  paused : Bool
  opened : Nat
  closed : Nat
  exits : Nat
  deriving DecidableEq, Repr

variable (p : Param)

def init : State := ⟨p.num_conns, true, false, false, 0, 0, 0, false, 0, 0, 0⟩

def core_exit (s : State) : State :=
  { s with num_conns := 0, running := false, exits := s.exits + 1 }

/-- The handler of `EV_CONN_DESTROYED` in `conn_rate.c`. -/
def destroyed (s : State) : State :=
  let s1 := { s with num_conns_destroyed := s.num_conns_destroyed + 1 }
  let s2 := if s1.num_conns_destroyed ≥ s1.num_conns then core_exit s1 else s1
  { s2 with num_conns_open := s2.num_conns_open - 1, paused := false }

/-- The body of `make_conn`, around what `core_connect` does. -/
def make_conn_with (core_connect : State → State × Int) (s : State) : State × Int :=
  if s.paused then (s, 0)
  else
    let s1 := { s with num_conns_generated := s.num_conns_generated + 1 }
    if s.num_conns_generated ≥ s.num_conns then (s1, -1)
    else if p.max_conns ≠ 0 ∧ s1.num_conns_open ≥ p.max_conns then (s1, 0)
    else
      let r := core_connect { s1 with num_conns_open := s1.num_conns_open + 1 }
      if r.2 = -1 then
        ({ r.1 with
            num_conns_generated := r.1.num_conns_generated - 1
            num_conns_destroyed := r.1.num_conns_destroyed - 1
            paused := true }, 0)
      else (r.1, 0)

/-- `rg->done = ((*rg->tick) (rg->arg) < 0)`. -/
def call_tick (make_conn : State → State × Int) (s : State) : State :=
  let r := make_conn s
  { r.1 with done := decide (r.2 < 0) }

/-- The handler of the completion event in `rate.c`. -/
def done (make_conn : State → State × Int) (s : State) : State :=
  if s.done then s else call_tick make_conn s

/-- The handlers of `EV_CONN_DESTROYED`, in the order in which they are registered. -/
def conn_destroyed (make_conn : State → State × Int) (s : State) : State :=
  if p.sequential then done make_conn (destroyed s) else destroyed s

/-- `core_connect`, where it fails `k` times in a row before it opens a connection. -/
def core_connect : Nat → State → State × Int
  | 0, s => ({ s with opened := s.opened + 1 }, 0)
  | k + 1, s => (conn_destroyed p (make_conn_with p (core_connect k)) s, -1)

def make_conn (k : Nat) : State → State × Int := make_conn_with p (core_connect p k)

/-! ## Runs -/

/-- What happens to the generator. A step that makes a connection says how often `core_connect`
fails before it opens one. -/
inductive Step where
  /-- `rate_generator_start` -/
  | start (k : Nat)
  /-- a tick of the timer -/
  | tick (k : Nat)
  /-- an open connection is destroyed -/
  | destroyed (k : Nat)
  deriving DecidableEq, Repr

def step (s : State) : Step → State
  | .start k => if s.started then s else call_tick (make_conn p k) { s with started := true }
  | .tick k =>
    if s.running ∧ s.started ∧ p.sequential = false ∧ s.done = false then
      call_tick (make_conn p k) s
    else s
  | .destroyed k =>
    if s.running ∧ s.closed < s.opened then
      conn_destroyed p (make_conn p k) { s with closed := s.closed + 1 }
    else s

def run (steps : List Step) : State := Runs.run (step p) (init p) steps

/-- The connections are created as requested: no more than `max_conns` are open, as many of the
`num_conns` are used up as are opened, and `core_exit` is called when all are destroyed. -/
structure AsRequested (s : State) : Prop where
  open_le : p.max_conns ≠ 0 → s.opened - s.closed ≤ p.max_conns
  used_up : min s.num_conns_generated p.num_conns = s.opened
  exits : s.exits = if s.closed = p.num_conns then 1 else 0

/-- A destroyed connection will clear `paused`. -/
def Wakes (s : State) : Prop := s.opened < p.num_conns → s.paused → 0 < s.num_conns_open

/-! ## One call of `make_conn` -/

section MakeConn

variable {p : Param} {s : State}

theorem make_conn_paused (k : Nat) (h : s.paused = true) : make_conn p k s = (s, 0) := by
  simp [make_conn, make_conn_with, h]

theorem make_conn_over (k : Nat) (hp : s.paused = false) (h : s.num_conns_generated ≥ s.num_conns) :
    make_conn p k s = ({ s with num_conns_generated := s.num_conns_generated + 1 }, -1) := by
  simp [make_conn, make_conn_with, hp, h]

theorem make_conn_full (k : Nat) (hp : s.paused = false) (h : s.num_conns_generated < s.num_conns)
    (hfull : p.max_conns ≠ 0 ∧ s.num_conns_open ≥ p.max_conns) :
    make_conn p k s = ({ s with num_conns_generated := s.num_conns_generated + 1 }, 0) := by
  simp [make_conn, make_conn_with, hp, hfull, Int.not_le.mpr h]

/-- `make_conn` comes to `core_connect`. -/
structure Connects (p : Param) (s : State) : Prop where
  paused : s.paused = false
  generated : s.num_conns_generated < s.num_conns
  room : ¬ (p.max_conns ≠ 0 ∧ s.num_conns_open ≥ p.max_conns)

theorem make_conn_connects (k : Nat) (h : Connects p s) :
    make_conn p k s =
      let r := core_connect p k { s with
        num_conns_generated := s.num_conns_generated + 1
        num_conns_open := s.num_conns_open + 1 }
      if r.2 = -1 then
        ({ r.1 with
            num_conns_generated := r.1.num_conns_generated - 1
            num_conns_destroyed := r.1.num_conns_destroyed - 1
            paused := true }, 0)
      else (r.1, 0) := by
  rw [make_conn, make_conn_with, h.paused, if_neg (by simp)]
  dsimp only
  rw [if_neg (by have := h.generated; omega), if_neg h.room]

theorem make_conn_opens (h : Connects p s) :
    make_conn p 0 s = ({ s with
      num_conns_generated := s.num_conns_generated + 1
      num_conns_open := s.num_conns_open + 1
      opened := s.opened + 1 }, 0) := by
  rw [make_conn_connects 0 h]
  simp [core_connect]

/-- At a rate, a failure takes its connection back. -/
theorem make_conn_fails (k : Nat) (h : Connects p s) (hs : p.sequential = false)
    (hlt : s.num_conns_destroyed + 1 < s.num_conns) :
    make_conn p (k + 1) s = ({ s with paused := true }, 0) := by
  rw [make_conn_connects _ h]
  simp [core_connect, conn_destroyed, destroyed, hs, Int.not_le.mpr hlt]

/-- The failure is taken for the end of the last connection. -/
theorem make_conn_exits (k : Nat) (h : Connects p s) (hs : p.sequential = false)
    (hge : s.num_conns_destroyed + 1 ≥ s.num_conns) :
    make_conn p (k + 1) s = ({ core_exit s with paused := true }, 0) := by
  rw [make_conn_connects _ h]
  simp [core_connect, conn_destroyed, destroyed, core_exit, hs, hge]

/-- At rate 0 the handlers make the next connection. -/
theorem conn_destroyed_sequential (make : State → State × Int) (hs : p.sequential = true)
    (hd : s.done = false) (hlt : s.num_conns_destroyed + 1 < s.num_conns) :
    conn_destroyed p make s = call_tick make { s with
      num_conns_destroyed := s.num_conns_destroyed + 1
      num_conns_open := s.num_conns_open - 1
      paused := false } := by
  have hnext : ¬ s.num_conns_destroyed + 1 ≥ s.num_conns := by omega
  rw [conn_destroyed, if_pos hs, destroyed]
  dsimp only
  rw [if_neg hnext, done]
  dsimp only
  rw [hd, if_neg Bool.false_ne_true]

/-- Behind the last connection they make none. -/
theorem conn_destroyed_last (k : Nat) (hs : p.sequential = true) (hd : s.done = false)
    (hnonneg : 0 ≤ s.num_conns_generated) (hge : s.num_conns_destroyed + 1 ≥ s.num_conns) :
    conn_destroyed p (make_conn p k) s = { core_exit s with
      done := true
      num_conns_generated := s.num_conns_generated + 1
      num_conns_destroyed := s.num_conns_destroyed + 1
      num_conns_open := s.num_conns_open - 1
      paused := false } := by
  rw [conn_destroyed, if_pos hs, destroyed]
  dsimp only
  rw [if_pos hge, done, core_exit]
  dsimp only
  rw [hd, if_neg Bool.false_ne_true, call_tick, make_conn_over k rfl (by simpa using hnonneg)]
  rfl

/-- The state in which the handlers of a failure make the next connection. -/
def failed (s : State) : State :=
  { s with
    num_conns_generated := s.num_conns_generated + 1
    num_conns_destroyed := s.num_conns_destroyed + 1
    paused := false }

theorem failed_connects (h : Connects p s) (heq : s.num_conns_generated = s.num_conns_destroyed)
    (hlt : s.num_conns_destroyed + 1 < s.num_conns) : Connects p (failed s) := by
  refine ⟨rfl, ?_, h.room⟩
  simp only [failed]
  omega

theorem make_conn_failed (k : Nat) (h : Connects p s) (hs : p.sequential = true)
    (hd : s.done = false) (hlt : s.num_conns_destroyed + 1 < s.num_conns) :
    make_conn p (k + 1) s =
      let t := (make_conn p k (failed s)).1
      ({ t with
          done := decide ((make_conn p k (failed s)).2 < 0)
          num_conns_generated := t.num_conns_generated - 1
          num_conns_destroyed := t.num_conns_destroyed - 1
          paused := true }, 0) := by
  rw [make_conn_connects _ h, core_connect, ← make_conn, conn_destroyed_sequential (s := { s with
    num_conns_generated := s.num_conns_generated + 1
    num_conns_open := s.num_conns_open + 1 }) _ hs hd hlt]
  dsimp only
  rw [Int.add_sub_cancel]
  rfl

/-- At rate 0 the handlers of the failure make the next connection, until one opens. -/
theorem make_conn_retries (k : Nat) (h : Connects p s) (hs : p.sequential = true)
    (hd : s.done = false) (heq : s.num_conns_generated = s.num_conns_destroyed)
    (hlt : s.num_conns_destroyed + k < s.num_conns) :
    make_conn p k s = ({ s with
      num_conns_generated := s.num_conns_generated + 1
      num_conns_open := s.num_conns_open + 1
      paused := decide (0 < k)
      opened := s.opened + 1 }, 0) := by
  induction k generalizing s with
  | zero =>
    rw [make_conn_opens h]
    simp [h.paused]
  | succ k ih =>
    have hnext : s.num_conns_destroyed + 1 < s.num_conns := by omega
    rw [make_conn_failed k h hs hd hnext, ih (failed_connects h heq hnext) hd]
    · simp [failed, hd]
    · simpa [failed] using heq
    · simp only [failed]
      omega

/-- There are as many failures as connections to destroy. -/
theorem make_conn_gives_up (k : Nat) (h : Connects p s) (hs : p.sequential = true)
    (hd : s.done = false) (heq : s.num_conns_generated = s.num_conns_destroyed)
    (hnonneg : 0 ≤ s.num_conns_generated) (hge : s.num_conns_destroyed + k ≥ s.num_conns) :
    ∃ t, make_conn p k s = (t, 0) ∧ t.exits = s.exits + 1 ∧ t.opened = s.opened ∧
      t.closed = s.closed ∧ t.paused = true ∧ t.num_conns_open = s.num_conns_open := by
  induction k generalizing s with
  | zero =>
    have := h.generated
    omega
  | succ k ih =>
    by_cases hlast : s.num_conns_destroyed + 1 ≥ s.num_conns
    · rw [make_conn_connects _ h, core_connect, ← make_conn, conn_destroyed_last (s := { s with
        num_conns_generated := s.num_conns_generated + 1
        num_conns_open := s.num_conns_open + 1 }) k hs hd (by dsimp only; omega) hlast]
      simp [core_exit]
    · have hnext : s.num_conns_destroyed + 1 < s.num_conns := by omega
      have hgen : (failed s).num_conns_generated = (failed s).num_conns_destroyed := by
        simpa [failed] using heq
      have hmore : (failed s).num_conns_destroyed + k ≥ (failed s).num_conns := by
        simp only [failed]
        omega
      obtain ⟨t, ht, hexits, hopened, hclosed, hpaused, hopen⟩ :=
        ih (failed_connects h heq hnext) hd hgen (Int.add_nonneg hnonneg (by decide)) hmore
      rw [make_conn_failed k h hs hd hnext, ht]
      exact ⟨_, rfl, hexits, hopened, hclosed, rfl, hopen⟩

end MakeConn

/-! ## What one step does -/

/-- The counters of a generator that runs. -/
structure Counts (p : Param) (s : State) : Prop where
  running : s.running = true
  started : s.started = true
  closed_le : s.closed ≤ s.opened
  opened_le : (s.opened : Int) ≤ min s.num_conns_generated p.num_conns
  num_conns : s.num_conns = p.num_conns
  destroyed : s.num_conns_destroyed = s.closed
  closed_lt : s.closed < p.num_conns
  exits : s.exits = 0
  num_conns_open : s.num_conns_open = s.opened - s.closed
  room : p.max_conns ≠ 0 → s.num_conns_open ≤ p.max_conns

/-- A state in which `rg->tick` is called. -/
structure Ready (p : Param) (s : State) : Prop extends Counts p s where
  done : s.done = false
  alone : p.sequential = true → s.num_conns_generated = s.closed ∧ s.opened = s.closed ∧
    s.paused = false

/-- The failures that are counted as destroyed connections at the same time. -/
def used (k : Nat) : Nat := if p.sequential then k else min k 1

inductive Outcome (p : Param) (k : Nat) (s : State) : State → Prop where
  | paused : s.paused = true → Outcome p k s s
  | ended : s.paused = false → s.num_conns_generated ≥ p.num_conns →
      Outcome p k s { s with num_conns_generated := s.num_conns_generated + 1, done := true }
  | full : s.paused = false → s.num_conns_generated < p.num_conns → p.max_conns ≠ 0 →
      s.num_conns_open ≥ p.max_conns →
      Outcome p k s { s with num_conns_generated := s.num_conns_generated + 1 }
  | opens : Connects p s → p.sequential = true ∨ k = 0 → s.closed + k < p.num_conns →
      Outcome p k s { s with
        num_conns_generated := s.num_conns_generated + 1
        num_conns_open := s.num_conns_open + 1
        paused := decide (0 < k)
        opened := s.opened + 1 }
  | fails : Connects p s → p.sequential = false → 0 < k → s.closed + 1 < p.num_conns →
      Outcome p k s { s with paused := true }
  | exits (t : State) : Connects p s → s.closed + used p k ≥ p.num_conns → t.exits = s.exits + 1 →
      t.opened = s.opened → t.closed = s.closed → t.paused = true →
      t.num_conns_open = s.num_conns_open → Outcome p k s t

variable {p}

/-- A tick that returns 0 leaves `done` clear. -/
theorem call_tick_eq {make : State → State × Int} {s t : State} (h : make s = (t, 0))
    (ht : t.done = false) : call_tick make s = t := by
  rw [call_tick, h]
  cases t
  simpa using ht.symm

theorem call_tick_outcome (k : Nat) {s : State} (h : Ready p s) :
    Outcome p k s (call_tick (make_conn p k) s) := by
  have hdone := h.done
  have hnum := h.num_conns
  have hclosed := h.destroyed
  have hlt := h.closed_lt
  by_cases hp : s.paused = true
  · rw [call_tick_eq (make_conn_paused k hp) hdone]
    exact .paused hp
  rw [Bool.not_eq_true] at hp
  by_cases hge : s.num_conns_generated ≥ p.num_conns
  · rw [call_tick, make_conn_over k hp (by rw [hnum]; exact hge)]
    exact .ended hp hge
  by_cases hfull : p.max_conns ≠ 0 ∧ s.num_conns_open ≥ p.max_conns
  · rw [call_tick_eq (make_conn_full k hp (by rw [hnum]; omega) hfull) hdone]
    exact .full hp (by omega) hfull.1 hfull.2
  have hc : Connects p s := ⟨hp, by rw [hnum]; omega, hfull⟩
  rcases k with _ | k
  · have hout := Outcome.opens (k := 0) hc (Or.inr rfl) hlt
    rw [call_tick_eq (make_conn_opens hc) hdone]
    simpa [hp] using hout
  cases hs : p.sequential
  · by_cases hlast : s.closed + 1 < p.num_conns
    · rw [call_tick_eq (make_conn_fails k hc hs (by rw [hnum]; omega)) hdone]
      exact .fails hc hs (Nat.succ_pos k) hlast
    · rw [call_tick_eq (make_conn_exits k hc hs (by rw [hnum]; omega)) hdone]
      exact .exits _ hc (by simp only [used, hs]; simp; omega) rfl rfl rfl rfl rfl
  · obtain ⟨hgen, _, _⟩ := h.alone hs
    by_cases hlast : s.closed + (k + 1) < p.num_conns
    · rw [call_tick_eq (make_conn_retries (k + 1) hc hs hdone (by omega) (by rw [hnum]; omega))
        hdone]
      exact .opens hc (Or.inl hs) hlast
    · obtain ⟨t, ht, hexits, hopened, hclosed', hpaused, hopen⟩ :=
        make_conn_gives_up (k + 1) hc hs hdone (by omega) (by omega) (by rw [hnum]; omega)
      rw [call_tick, ht]
      exact .exits _ hc (by simp only [used, hs, if_true]; omega) hexits hopened hclosed'
        hpaused hopen

/-- At rate 0 there is nothing in the way of `core_connect`. -/
theorem Ready.connects {s : State} (h : Ready p s) (hs : p.sequential = true) : Connects p s := by
  obtain ⟨hgen, heq, hp⟩ := h.alone hs
  have hopen := h.num_conns_open
  have hlt := h.closed_lt
  have hnum := h.num_conns
  exact ⟨hp, by omega, by omega⟩

/-- A state between two steps. At rate 0 there is one connection at a time. -/
inductive Reached (p : Param) : State → Prop where
  | fresh : Reached p (init p)
  | going (s : State) : Counts p s →
      (p.sequential = true →
        s.opened = s.closed + 1 ∧ s.done = false ∧ s.num_conns_generated = s.opened) →
      Reached p s
  | ended (s : State) : s.running = false → s.started = true → s.exits = 1 →
      s.closed = p.num_conns → s.opened = p.num_conns → p.num_conns ≤ s.num_conns_generated →
      Reached p s

/-- As long as the failures leave connections to destroy, the generator goes on. -/
theorem reached_of_outcome {k : Nat} {s t : State} (h : Ready p s) (ho : Outcome p k s t)
    (hlt : Connects p s → s.closed + used p k < p.num_conns) : Reached p t := by
  have hle := h.closed_le
  have hopened := h.opened_le
  have hopen := h.num_conns_open
  have hroom := h.room
  have hclosed := h.closed_lt
  have hnum := h.num_conns
  cases ho with
  | paused hp =>
    refine .going _ h.toCounts fun hs => ?_
    rw [(h.connects hs).paused] at hp
    cases hp
  | ended hp hge =>
    refine .going _ { h.toCounts with opened_le := by dsimp only; omega } fun hs => ?_
    have := (h.connects hs).generated
    omega
  | full hp hgen hmax hfull =>
    refine .going _ { h.toCounts with opened_le := by dsimp only; omega } fun hs => ?_
    exact absurd ⟨hmax, hfull⟩ (h.connects hs).room
  | opens hc hk hkn =>
    have hgen := hc.generated
    have hcap := hc.room
    refine .going _ { h.toCounts with
      closed_le := by dsimp only; omega
      opened_le := by dsimp only; omega
      num_conns_open := by dsimp only; omega
      room := by dsimp only; omega } fun hs => ?_
    obtain ⟨hgen, heq, _⟩ := h.alone hs
    exact ⟨by dsimp only; omega, h.done, by dsimp only; omega⟩
  | fails hc hs hk hlast =>
    refine .going _ { h.toCounts with } fun hs' => ?_
    rw [hs] at hs'
    cases hs'
  | exits _ hc hge =>
    have := hlt hc
    omega

/-- The connection that is destroyed, when the handlers of `conn_rate.c` are through. -/
def closes (s : State) : State := destroyed { s with closed := s.closed + 1 }

@[simp]
theorem closes_closed (s : State) : (closes s).closed = s.closed + 1 := by
  simp only [closes, destroyed]
  split <;> rfl

@[simp]
theorem closes_opened (s : State) : (closes s).opened = s.opened := by
  simp only [closes, destroyed]
  split <;> rfl

@[simp]
theorem closes_generated (s : State) : (closes s).num_conns_generated = s.num_conns_generated := by
  simp only [closes, destroyed]
  split <;> rfl

theorem closes_last {s : State} (h : Counts p s) (hlast : s.closed + 1 = p.num_conns) :
    closes s = { core_exit s with
      closed := s.closed + 1
      num_conns_destroyed := s.num_conns_destroyed + 1
      num_conns_open := s.num_conns_open - 1
      paused := false } := by
  have hge : s.num_conns_destroyed + 1 ≥ s.num_conns := by
    rw [h.destroyed, h.num_conns]
    omega
  simp only [closes, destroyed, if_pos hge, core_exit]

theorem closes_more {s : State} (h : Counts p s) (hmore : s.closed + 1 < p.num_conns) :
    closes s = { s with
      closed := s.closed + 1
      num_conns_destroyed := s.num_conns_destroyed + 1
      num_conns_open := s.num_conns_open - 1
      paused := false } := by
  have hlt : ¬ s.num_conns_destroyed + 1 ≥ s.num_conns := by
    rw [h.destroyed, h.num_conns]
    omega
  simp only [closes, destroyed, if_neg hlt]

theorem counts_of_closes {s : State} (h : Counts p s) (hlt : s.closed < s.opened)
    (hmore : s.closed + 1 < p.num_conns) : Counts p (closes s) := by
  have hopen := h.num_conns_open
  have hroom := h.room
  rw [closes_more h hmore]
  exact { h with
    closed_le := hlt
    destroyed := by have := h.destroyed; dsimp only; omega
    closed_lt := hmore
    num_conns_open := by dsimp only; omega
    room := by dsimp only; omega }

theorem ready_of_start (hN : 1 ≤ p.num_conns) : Ready p { init p with started := true } := by
  refine ⟨⟨rfl, rfl, ?_, ?_, rfl, rfl, hN, rfl, rfl, ?_⟩, rfl, fun _ => ⟨rfl, rfl, rfl⟩⟩
  · exact Nat.le_refl 0
  · dsimp only [init]
    omega
  · simp [init]

theorem ready_of_closes {s : State} (h : Counts p s)
    (halone : s.opened = s.closed + 1 ∧ s.done = false ∧ s.num_conns_generated = s.opened)
    (hmore : s.closed + 1 < p.num_conns) : Ready p (closes s) := by
  obtain ⟨hopened, hdone, hgen⟩ := halone
  refine ⟨counts_of_closes h (by omega) hmore, ?_, fun _ => ?_⟩
  · rw [closes_more h hmore]
    exact hdone
  · rw [closes_more h hmore]
    refine ⟨?_, hopened, rfl⟩
    rw [hgen, hopened]

/-- The call of `rg->tick` in a step: how often `core_connect` fails, and the state before the
call. -/
def attempt (p : Param) (s : State) : Step → Option (Nat × State)
  | .start k => if s.started then none else some (k, { s with started := true })
  | .tick k =>
    if s.running ∧ s.started ∧ p.sequential = false ∧ s.done = false then some (k, s) else none
  | .destroyed k =>
    if s.running ∧ s.closed < s.opened ∧ p.sequential ∧ s.closed + 1 < p.num_conns then
      some (k, closes s)
    else none

theorem step_of_attempt (hN : 1 ≤ p.num_conns) {s t : State} {a : Step} {k : Nat}
    (h : Reached p s) (ha : attempt p s a = some (k, t)) :
    Ready p t ∧ step p s a = call_tick (make_conn p k) t := by
  cases a with
  | start j =>
    simp only [attempt] at ha
    split at ha
    · cases ha
    · rename_i hs
      cases ha
      cases h with
      | fresh => exact ⟨ready_of_start hN, by rw [step, if_neg hs]⟩
      | going _ hc => exact absurd hc.started hs
      | ended _ _ hstarted => exact absurd hstarted hs
  | tick j =>
    simp only [attempt] at ha
    split at ha
    · rename_i hg
      cases ha
      obtain ⟨hrun, hstarted, hseq, hdone⟩ := hg
      refine ⟨?_, by rw [step, if_pos ⟨hrun, hstarted, hseq, hdone⟩]⟩
      cases h with
      | fresh => cases hstarted
      | going _ hc => exact ⟨hc, hdone, fun hs => absurd hs (by simp [hseq])⟩
      | ended _ hend =>
        rw [hend] at hrun
        cases hrun
    · cases ha
  | destroyed j =>
    simp only [attempt] at ha
    split at ha
    · rename_i hg
      cases ha
      obtain ⟨hrun, hlt, hseq, hmore⟩ := hg
      cases h with
      | fresh => exact absurd hlt (Nat.lt_irrefl 0)
      | going _ hc halone =>
        have hready := ready_of_closes hc (halone hseq) hmore
        refine ⟨hready, ?_⟩
        rw [step, if_pos ⟨hrun, hlt⟩, conn_destroyed, if_pos hseq, done]
        have hd := hready.done
        unfold closes at hd
        rw [hd, if_neg Bool.false_ne_true]
        rfl
      | ended _ hend =>
        rw [hend] at hrun
        cases hrun
    · cases ha

theorem attempt_keeps {s t : State} {a : Step} {k : Nat} (ha : attempt p s a = some (k, t)) :
    t.num_conns_generated = s.num_conns_generated ∧ t.opened = s.opened := by
  cases a <;>
  · simp only [attempt] at ha
    split at ha
    all_goals cases ha
    all_goals simp

/-- Without a call of `rg->tick` nothing happens, or a connection goes. -/
theorem step_of_no_attempt {s : State} {a : Step} (h : Reached p s) (ha : attempt p s a = none) :
    step p s a = s ∨ (Reached p (step p s a) ∧ (step p s a).paused = false ∧
      (step p s a).opened = s.opened ∧
      min (step p s a).num_conns_generated p.num_conns =
        min s.num_conns_generated p.num_conns) := by
  cases a with
  | start k =>
    simp only [attempt] at ha
    split at ha
    · rename_i hs
      exact Or.inl (by rw [step, if_pos hs])
    · cases ha
  | tick k =>
    simp only [attempt] at ha
    split at ha
    · cases ha
    · rename_i hg
      exact Or.inl (by rw [step, if_neg hg])
  | destroyed k =>
    by_cases hg : s.running = true ∧ s.closed < s.opened
    swap
    · exact Or.inl (by rw [step, if_neg hg])
    right
    rw [step, if_pos hg]
    obtain ⟨hrun, hlt⟩ := hg
    cases h with
    | fresh => exact absurd hlt (Nat.lt_irrefl 0)
    | ended _ hend =>
      rw [hend] at hrun
      cases hrun
    | going _ hc halone =>
      have hclosed := hc.closed_lt
      have hopened := hc.opened_le
      have hd := hc.destroyed
      have hnum := hc.num_conns
      by_cases hmore : s.closed + 1 < p.num_conns
      · -- there is more to destroy, and the timer makes the connections
        have hs : p.sequential = false := by
          cases hs : p.sequential
          · rfl
          · simp [attempt, hrun, hlt, hs, hmore] at ha
        rw [conn_destroyed, if_neg (by simp [hs]), show destroyed _ = closes s from rfl]
        refine ⟨.going _ (counts_of_closes hc hlt hmore) fun hs' => ?_, rfl, ?_, ?_⟩
        · rw [hs] at hs'
          cases hs'
        · rw [closes_more hc hmore]
        · rw [closes_more hc hmore]
      · have hlast : s.closed + 1 = p.num_conns := by omega
        cases hs : p.sequential
        · rw [conn_destroyed, if_neg (by simp [hs]), show destroyed _ = closes s from rfl,
            closes_last hc hlast]
          simp only [core_exit]
          exact ⟨.ended _ rfl hc.started (by simp [hc.exits]) hlast (by dsimp only; omega)
            (by dsimp only; omega), trivial, trivial, trivial⟩
        · rw [conn_destroyed_last (s := { s with closed := s.closed + 1 }) k hs (halone hs).2.1
            (by dsimp only; omega) (by dsimp only; omega)]
          simp only [core_exit]
          exact ⟨.ended _ rfl hc.started (by simp [hc.exits]) hlast (by dsimp only; omega)
            (by dsimp only; omega), trivial, trivial, by omega⟩

/-! ## The requested connections -/

/-- A connection is made: there is room for it, and the failures before it leave one to destroy. -/
def Creates (p : Param) (k : Nat) (s : State) : Prop :=
  s.paused = false → s.num_conns_generated < p.num_conns →
    (p.max_conns = 0 ∨ s.num_conns_open < p.max_conns) ∧ s.closed + used p k < p.num_conns

/-- What a step must not run into: a tick finds room, and failures do not take the place of the
connections that are still to be destroyed. -/
def Fits (p : Param) (s : State) : Step → Prop
  | .start k => s.started = false → used p k < p.num_conns
  | .tick k => s.running ∧ s.started ∧ p.sequential = false ∧ s.done = false → Creates p k s
  | .destroyed k => s.running ∧ s.closed < s.opened ∧ p.sequential ∧ s.closed + 1 < p.num_conns →
    s.closed + 1 + k < p.num_conns

theorem Ready.creates_iff {k : Nat} {s : State} (h : Ready p s) (hs : p.sequential = true) :
    Creates p k s ↔ s.closed + k < p.num_conns := by
  obtain ⟨hgen, heq, hp⟩ := h.alone hs
  have hopen := h.num_conns_open
  have hlt := h.closed_lt
  unfold Creates
  rw [used, if_pos hs]
  constructor
  · intro hc
    exact (hc hp (by omega)).2
  · intro hk _ _
    exact ⟨by omega, hk⟩

theorem fits_iff (hN : 1 ≤ p.num_conns) {s : State} {a : Step} (h : Reached p s) :
    Fits p s a ↔ ∀ k t, attempt p s a = some (k, t) → Creates p k t := by
  cases a with
  | start j =>
    simp only [Fits, attempt]
    cases h with
    | fresh =>
      simp only [init, Bool.false_eq_true, if_false, Option.some.injEq, Prod.mk.injEq, forall_const]
      constructor
      · rintro hk k t ⟨rfl, rfl⟩ _ _
        exact ⟨by dsimp only; omega, by simpa using hk⟩
      · intro hc
        have := (hc j _ ⟨rfl, rfl⟩ rfl (by dsimp only; omega)).2
        simpa using this
    | going _ hc => simp [hc.started]
    | ended _ _ hstarted => simp [hstarted]
  | tick j =>
    simp only [Fits, attempt]
    constructor
    · intro hc k t ha
      split at ha
      · rename_i hg
        cases ha
        exact hc hg
      · cases ha
    · intro hc hg
      rw [if_pos hg] at hc
      exact hc j s rfl
  | destroyed j =>
    constructor
    · intro hc k t ha
      have hready := (step_of_attempt hN h ha).1
      simp only [attempt] at ha
      split at ha
      · rename_i hg
        cases ha
        rw [hready.creates_iff hg.2.2.1, closes_closed]
        exact hc hg
      · cases ha
    · intro hc hg
      have ha : attempt p s (.destroyed j) = some (j, closes s) := if_pos hg
      have hcreates := hc _ _ ha
      rw [(step_of_attempt hN h ha).1.creates_iff hg.2.2.1, closes_closed] at hcreates
      exact hcreates

/-- As many of the connections are used up as are opened. -/
def UsedUp (p : Param) (s : State) : Prop := min s.num_conns_generated p.num_conns = s.opened

theorem usedUp_of_attempt {s t : State} {a : Step} {k : Nat} (hu : UsedUp p s)
    (ha : attempt p s a = some (k, t)) : UsedUp p t := by
  obtain ⟨hgen, hopened⟩ := attempt_keeps ha
  rw [UsedUp, hgen, hopened]
  exact hu

theorem usedUp_of_outcome {k : Nat} {s t : State} (h : Ready p s) (hu : UsedUp p s)
    (hc : Creates p k s) (ho : Outcome p k s t) : UsedUp p t := by
  have hnum := h.num_conns
  unfold UsedUp at *
  cases ho with
  | paused => exact hu
  | ended hp hge =>
    dsimp only
    omega
  | full hp hgen hmax hfull =>
    have := (hc hp hgen).1
    omega
  | opens hcon =>
    have := hcon.generated
    dsimp only
    omega
  | fails => exact hu
  | exits _ hcon hge =>
    have hgen := hcon.generated
    have := (hc hcon.paused (by omega)).2
    omega

/-- The tick that finds no room uses a connection up, and the failure that leaves none to destroy
ends the program. -/
theorem not_asRequested_of_outcome {k : Nat} {s t : State} (h : Ready p s) (hu : UsedUp p s)
    (hc : ¬ Creates p k s) (ho : Outcome p k s t) : ¬ AsRequested p t := by
  intro hreq
  have hexits := h.exits
  have hlt := h.closed_lt
  have hused := hreq.used_up
  unfold UsedUp at hu
  apply hc
  intro hp hgen
  cases ho with
  | paused hp' =>
    rw [hp] at hp'
    cases hp'
  | ended _ hge => omega
  | full _ _ hmax hfull =>
    dsimp only at hused
    omega
  | opens hcon hk hkn =>
    have hroom := hcon.room
    refine ⟨by omega, ?_⟩
    rw [used]
    split <;> omega
  | fails hcon hs hk hlast =>
    have hroom := hcon.room
    refine ⟨by omega, ?_⟩
    rw [used, hs, if_neg Bool.false_ne_true]
    omega
  | exits _ hcon hge hexit hopened hclosed =>
    have hone := hreq.exits
    rw [hclosed, if_neg (by omega)] at hone
    omega

theorem Reached.asRequested {s : State} (h : Reached p s) (hN : 1 ≤ p.num_conns) (hu : UsedUp p s) :
    AsRequested p s := by
  cases h with
  | fresh =>
    refine ⟨fun _ => Nat.zero_le _, hu, ?_⟩
    rw [if_neg (by simp only [init]; omega)]
    rfl
  | going _ hc =>
    have hclosed := hc.closed_lt
    have hopen := hc.num_conns_open
    refine ⟨fun hmax => ?_, hu, ?_⟩
    · have := hc.room hmax
      omega
    · rw [if_neg (by omega)]
      exact hc.exits
  | ended _ _ _ hexits hclosed hopened =>
    refine ⟨fun _ => by omega, hu, ?_⟩
    rw [if_pos hclosed]
    exact hexits

/-- The connections are created as requested in every state of a run exactly as long as no tick
runs into `--max-connections` and no failure takes the place of a connection to destroy. -/
theorem connections_are_as_requested_iff (p : Param) (hN : 1 ≤ p.num_conns) (steps : List Step) :
    Runs.Always (step p) (AsRequested p) (init p) steps ↔
      Runs.Meets (step p) (Fits p) (init p) steps := by
  apply Runs.always_iff_meets_of_invariant (Q := fun s => Reached p s ∧ UsedUp p s)
  · rintro s ⟨h, hu⟩
    exact h.asRequested hN hu
  · rintro s a ⟨h, hu⟩ hfits
    rw [fits_iff hN h] at hfits
    rcases ha : attempt p s a with _ | ⟨k, t⟩
    · obtain hsame | ⟨hreached, _, hopened, hmin⟩ := step_of_no_attempt h ha
      · rw [hsame]
        exact ⟨h, hu⟩
      · exact ⟨hreached, by rw [UsedUp, hmin, hopened]; exact hu⟩
    · obtain ⟨hready, hstep⟩ := step_of_attempt hN h ha
      have hc := hfits k t ha
      have hu' := usedUp_of_attempt hu ha
      rw [hstep]
      have ho := call_tick_outcome k hready
      refine ⟨reached_of_outcome hready ho fun hcon => ?_, usedUp_of_outcome hready hu' hc ho⟩
      have := hcon.generated
      have := hready.num_conns
      exact (hc hcon.paused (by omega)).2
  · rintro s a ⟨h, hu⟩ hfits
    rw [fits_iff hN h] at hfits
    simp only [not_forall] at hfits
    obtain ⟨k, t, ha, hc⟩ := hfits
    obtain ⟨hready, hstep⟩ := step_of_attempt hN h ha
    rw [hstep]
    exact not_asRequested_of_outcome hready (usedUp_of_attempt hu ha) hc
      (call_tick_outcome k hready)
  · exact ⟨.fresh, by unfold UsedUp init; dsimp only; omega⟩

/-- One connection of two, twice. -/
theorem connections_are_as_requested_two :
    Runs.Always (step ⟨2, 1, false⟩) (AsRequested ⟨2, 1, false⟩) (init ⟨2, 1, false⟩)
      [.start 0, .destroyed 0, .tick 0, .destroyed 0] := by
  apply (connections_are_as_requested_iff ⟨2, 1, false⟩ (by decide) _).mpr
  simp [Runs.Meets, Fits, Creates, used, step, call_tick, make_conn, make_conn_with, core_connect,
    conn_destroyed, destroyed, init]

/-- A tick that finds the one connection open uses up the second one, and a failure ends a program
that has opened none. -/
theorem skips_and_failures_are_used_up :
    ¬ AsRequested ⟨2, 1, false⟩ (run ⟨2, 1, false⟩ [.start 0, .tick 0]) ∧
      ¬ AsRequested ⟨1, 0, false⟩ (run ⟨1, 0, false⟩ [.start 1]) := by
  constructor
  · intro h
    exact absurd h.used_up (by decide)
  · intro h
    exact absurd h.exits (by decide)

/-! ## The pause -/

/-- A call of `core_connect` leaves a connection open. -/
def LeavesOne (p : Param) (k : Nat) (s : State) : Prop :=
  Connects p s → if p.sequential then s.closed + k < p.num_conns else k = 0 ∨ 0 < s.num_conns_open

/-- What a step must not run into: a failure while no connection is open, and at rate 0 as many
failures as there are connections to destroy. -/
def Leaves (p : Param) (s : State) : Step → Prop
  | .start k => s.started = false → if p.sequential then k < p.num_conns else k = 0
  | .tick k => s.running ∧ s.started ∧ p.sequential = false ∧ s.done = false → LeavesOne p k s
  | .destroyed k => s.running ∧ s.closed < s.opened ∧ p.sequential ∧ s.closed + 1 < p.num_conns →
    s.closed + 1 + k < p.num_conns

theorem leaves_iff (hN : 1 ≤ p.num_conns) {s : State} {a : Step} (h : Reached p s) :
    Leaves p s a ↔ ∀ k t, attempt p s a = some (k, t) → LeavesOne p k t := by
  cases a with
  | start j =>
    simp only [Leaves, attempt]
    cases h with
    | fresh =>
      have hcon : Connects p { init p with started := true } :=
        ⟨rfl, by dsimp only [init]; omega, by dsimp only [init]; omega⟩
      simp only [init, Bool.false_eq_true, if_false, Option.some.injEq, Prod.mk.injEq, forall_const]
      constructor
      · rintro hk k t ⟨rfl, rfl⟩ _
        simpa using hk
      · intro hc
        have := hc j _ ⟨rfl, rfl⟩ hcon
        simpa [init] using this
    | going _ hc => simp [hc.started]
    | ended _ _ hstarted => simp [hstarted]
  | tick j =>
    simp only [Leaves, attempt]
    constructor
    · intro hc k t ha
      split at ha
      · rename_i hg
        cases ha
        exact hc hg
      · cases ha
    · intro hc hg
      rw [if_pos hg] at hc
      exact hc j s rfl
  | destroyed j =>
    constructor
    · intro hc k t ha
      simp only [attempt] at ha
      split at ha
      · rename_i hg
        cases ha
        intro _
        rw [if_pos hg.2.2.1, closes_closed]
        exact hc hg
      · cases ha
    · intro hc hg
      have ha : attempt p s (.destroyed j) = some (j, closes s) := if_pos hg
      have hleaves := hc _ _ ha ((step_of_attempt hN h ha).1.connects hg.2.2.1)
      rw [if_pos hg.2.2.1, closes_closed] at hleaves
      exact hleaves

theorem wakes_of_attempt {s t : State} {a : Step} {k : Nat} (hw : Wakes p s)
    (ha : attempt p s a = some (k, t)) : Wakes p t := by
  cases a with
  | start j =>
    simp only [attempt] at ha
    split at ha
    · cases ha
    · cases ha
      exact hw
  | tick j =>
    simp only [attempt] at ha
    split at ha
    · cases ha
      exact hw
    · cases ha
  | destroyed j =>
    simp only [attempt] at ha
    split at ha
    · cases ha
      exact fun _ hp => absurd hp Bool.false_ne_true
    · cases ha

theorem LeavesOne.lt {k : Nat} {s : State} (hl : LeavesOne p k s) (h : Ready p s)
    (hc : Connects p s) : s.closed + used p k < p.num_conns := by
  have hleaves := hl hc
  have hlt := h.closed_lt
  have hopen := h.num_conns_open
  have hopened := h.opened_le
  have hgen := hc.generated
  have hnum := h.num_conns
  unfold used
  split at hleaves
  · rename_i hs
    rw [if_pos hs]
    exact hleaves
  · rename_i hs
    rw [if_neg hs]
    omega

theorem wakes_of_outcome {k : Nat} {s t : State} (h : Ready p s) (hw : Wakes p s)
    (hl : LeavesOne p k s) (ho : Outcome p k s t) : Wakes p t := by
  have hle := h.closed_le
  have hopen := h.num_conns_open
  intro hlt hp
  cases ho with
  | paused => exact hw hlt hp
  | ended hp' => exact absurd hp (by simp [hp'])
  | full hp' => exact absurd hp (by simp [hp'])
  | opens =>
    dsimp only
    omega
  | fails hc hs hk =>
    have hleaves := hl hc
    rw [hs, if_neg Bool.false_ne_true] at hleaves
    obtain hk0 | hpos := hleaves
    · omega
    · exact hpos
  | exits _ hc hge =>
    have := hl.lt h hc
    omega

/-- The flag is set with no connection open. -/
theorem not_wakes_of_outcome {k : Nat} {s t : State} (h : Ready p s) (hl : ¬ LeavesOne p k s)
    (ho : Outcome p k s t) : ¬ Wakes p t := by
  have hopened := h.opened_le
  have hopen := h.num_conns_open
  have hnum := h.num_conns
  intro hw
  apply hl
  intro hc
  have hgen := hc.generated
  cases ho with
  | paused hp =>
    rw [hc.paused] at hp
    cases hp
  | ended _ hge => omega
  | full _ _ hmax hfull => exact absurd ⟨hmax, hfull⟩ hc.room
  | opens _ hk hkn =>
    split
    · exact hkn
    · rename_i hs
      exact Or.inl (hk.resolve_left hs)
  | fails _ hs =>
    have hpos := hw (by dsimp only; omega) rfl
    rw [hs, if_neg Bool.false_ne_true]
    exact Or.inr hpos
  | exits _ _ hge hexit ho' hclosed hp ho'' =>
    have hpos := hw (by omega) hp
    rw [ho''] at hpos
    split
    · rename_i hs
      have := h.alone hs
      omega
    · exact Or.inr hpos

/-- The generator that is paused waits for an open connection in every state of a run exactly as
long as `core_connect` fails only while another connection is open, and at rate 0 less often than
there are connections to destroy. -/
theorem a_paused_generator_wakes_iff (p : Param) (hN : 1 ≤ p.num_conns) (steps : List Step) :
    Runs.Always (step p) (Wakes p) (init p) steps ↔
    Runs.Meets (step p) (Leaves p) (init p) steps := by
  apply Runs.always_iff_meets_of_invariant (Q := fun s => Reached p s ∧ Wakes p s)
  · rintro s ⟨_, hw⟩
    exact hw
  · rintro s a ⟨h, hw⟩ hleaves
    rw [leaves_iff hN h] at hleaves
    rcases ha : attempt p s a with _ | ⟨k, t⟩
    · obtain hsame | ⟨hreached, hp, _, _⟩ := step_of_no_attempt h ha
      · rw [hsame]
        exact ⟨h, hw⟩
      · exact ⟨hreached, fun _ hp' => absurd hp' (by simp [hp])⟩
    · obtain ⟨hready, hstep⟩ := step_of_attempt hN h ha
      have hl := hleaves k t ha
      have ho := call_tick_outcome k hready
      rw [hstep]
      exact ⟨reached_of_outcome hready ho (hl.lt hready),
        wakes_of_outcome hready (wakes_of_attempt hw ha) hl ho⟩
  · rintro s a ⟨h, hw⟩ hleaves
    rw [leaves_iff hN h] at hleaves
    simp only [not_forall] at hleaves
    obtain ⟨k, t, ha, hl⟩ := hleaves
    obtain ⟨hready, hstep⟩ := step_of_attempt hN h ha
    rw [hstep]
    exact not_wakes_of_outcome hready hl (call_tick_outcome k hready)
  · exact ⟨.fresh, fun _ hp => absurd hp Bool.false_ne_true⟩

/-- A failure while the first of two connections is open. -/
theorem a_paused_generator_wakes_two :
    Runs.Always (step ⟨2, 0, false⟩) (Wakes ⟨2, 0, false⟩) (init ⟨2, 0, false⟩)
      [.start 0, .tick 1, .destroyed 0, .tick 0] := by
  apply (a_paused_generator_wakes_iff ⟨2, 0, false⟩ (by decide) _).mpr
  simp [Runs.Meets, Leaves, LeavesOne, step, call_tick, make_conn, make_conn_with, core_connect,
    conn_destroyed, destroyed, init]

/-- The first `core_connect` fails, and nothing clears the flag. -/
theorem a_first_failure_pauses_for_good :
    ¬ Wakes ⟨2, 0, false⟩ (run ⟨2, 0, false⟩ [.start 1]) := by
  unfold Wakes
  decide

end Httperf.ConnRate
