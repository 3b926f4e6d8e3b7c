-- The rate generator (`rate.c`) with the one timer that it keeps. An arrival is a call of
-- `rg->tick`. The arrivals that came due between two polls are made up for in the loop of `tick`.
import Httperf.Lib.Sums

namespace Httperf.RateGen

open Finset

variable {Time σ : Type}

/-- What stands outside `rate.c`: the readings of the clock, the function that draws the next delay
from what it keeps, and what `rg->tick` returns for each arrival. -/
structure Env (Time σ : Type) where
  use_timer_cache : Bool
  clock : Nat → Time
  next_interarrival_time : σ → Time × σ
  tick : Nat → Int

structure Timer (Time : Type) where
  time_started : Time
  timeout_delay : Time
  deriving DecidableEq

/-- What a call of `tick` found and left: the clock at its start, and the generator at its end. -/
structure Return (Time : Type) where
  now : Time
  done : Bool
  arrivals : Nat
  active_timers : List (Timer Time)

/-- The generator, its timers that are pending, and the cache of the clock. `arrivals` and `returns`
are no variables of the source. -/
structure State (Time σ : Type) where
  next_time : Time
  start : Time
  timer : Option (Timer Time)
  done : Bool
  source : σ
  active_timers : List (Timer Time)
  now : Time
  readings : Nat
  arrivals : Nat
  returns : List (Return Time)

/-! ## The functions -/

section
variable (env : Env Time σ)

def timer_now_forced (s : State Time σ) : Time × State Time σ :=
  (env.clock s.readings, { s with readings := s.readings + 1 })

def timer_now (s : State Time σ) : Time × State Time σ :=
  if env.use_timer_cache then (s.now, s) else timer_now_forced env s

/-- `rg->timer = timer_schedule (tick, rg, delay)`. -/
def schedule (delay : Time) (s : State Time σ) : State Time σ :=
  let (now, s1) := timer_now env s
  { s1 with timer := some ⟨now, delay⟩, active_timers := ⟨now, delay⟩ :: s1.active_timers }

/-- `rg->done = ((*rg->tick) (rg->arg) < 0)`. -/
def arrive (s : State Time σ) : State Time σ :=
  { s with done := decide (env.tick s.arrivals < 0), arrivals := s.arrivals + 1 }

/-- One turn of the loop of `tick`. -/
def turn [Add Time] (s : State Time σ) : State Time σ :=
  let (delay, source) := env.next_interarrival_time s.source
  arrive env { s with source, next_time := s.next_time + delay }

/-- The loop of `tick`. It may take any number of turns: `none` says that the fuel ran out. -/
def tick_loop [Add Time] [LT Time] [DecidableLT Time] (now : Time) :
    Nat → State Time σ → Option (State Time σ)
  | 0, _ => none
  | fuel + 1, s =>
    if s.next_time < now then
      let s1 := turn env s
      if s1.done then some s1 else tick_loop now fuel s1
    else some s

/-- The end of a call of `tick` that was entered at `now`. -/
def leave (now : Time) (s : State Time σ) : State Time σ :=
  { s with returns := s.returns ++ [⟨now, s.done, s.arrivals, s.active_timers⟩] }

def tick [Add Time] [Sub Time] [LT Time] [DecidableLT Time] (fuel : Nat) (s : State Time σ) :
    Option (State Time σ) :=
  let (now, s1) := timer_now env s
  let s2 := { s1 with timer := none }
  if s2.done then some (leave now s2)
  else
    (tick_loop env now fuel s2).map fun s3 =>
      leave now (if s3.done then s3 else schedule env (s3.next_time - now) s3)

theorem tick_loop_returns [Add Time] [LT Time] [DecidableLT Time] {now : Time} {fuel : Nat}
    {s s' : State Time σ} (hrun : tick_loop env now fuel s = some s') : s'.returns = s.returns := by
  induction fuel generalizing s with
  | zero => cases hrun
  | succ fuel ih =>
    rw [tick_loop] at hrun
    dsimp only at hrun
    split_ifs at hrun
    · obtain rfl := Option.some.inj hrun
      rfl
    · have hrest := ih hrun
      exact hrest
    · obtain rfl := Option.some.inj hrun
      rfl

/-- Each call is one entry of `returns`. -/
theorem tick_returns [Add Time] [Sub Time] [LT Time] [DecidableLT Time] {fuel : Nat}
    {s s' : State Time σ} (hrun : tick env fuel s = some s') :
    ∃ r, s'.returns = s.returns ++ [r] := by
  have hread : (timer_now env s).2.returns = s.returns := by
    unfold timer_now timer_now_forced
    split_ifs <;> rfl
  unfold tick at hrun
  dsimp only at hrun
  split_ifs at hrun
  · obtain rfl := Option.some.inj hrun
    exact ⟨_, congrArg (· ++ _) hread⟩
  · obtain ⟨s3, hloop, rfl⟩ := Option.map_eq_some_iff.mp hrun
    have hreturns : s3.returns = s.returns := (tick_loop_returns env hloop).trans hread
    have hschedule (delay : Time) : (schedule env delay s3).returns = s3.returns := by
      unfold schedule timer_now timer_now_forced
      split_ifs <;> rfl
    rw [← hreturns]
    split_ifs
    · exact ⟨_, rfl⟩
    · exact ⟨_, congrArg (· ++ _) (hschedule _)⟩

/-- `rate_generator_start` at a positive rate. -/
def rate_generator_start [Add Time] (s : State Time σ) : State Time σ :=
  let (delay, source) := env.next_interarrival_time s.source
  let (now, s1) := timer_now env s
  let s2 := schedule env delay { s1 with source, next_time := now + delay }
  let (start, s3) := timer_now env s2
  arrive env { s3 with start }

/-- `list_for_each (active_timers, &timer_has_expired)`. A timer that has expired is pending no more
when its callback runs. -/
def list_for_each [Add Time] [Sub Time] [LT Time] [DecidableLT Time] [DecidableEq Time]
    (fuel : Nat) : List (Timer Time) → State Time σ → Option (State Time σ)
  | [], s => some s
  | t :: ts, s =>
    let (now, s1) := timer_now env s
    if t.time_started + t.timeout_delay < now then
      (tick env fuel { s1 with active_timers := s1.active_timers.erase t }).bind
        (list_for_each fuel ts)
    else list_for_each fuel ts s1

def timer_tick [Add Time] [Sub Time] [LT Time] [DecidableLT Time] [DecidableEq Time] (fuel : Nat)
    (s : State Time σ) : Option (State Time σ) :=
  let (now, s1) := timer_now_forced env s
  list_for_each env fuel s1.active_timers { s1 with now }

/-- The state behind `timer_init`. -/
def init (source : σ) : State Time σ :=
  ⟨env.clock 0, env.clock 0, none, false, source, [], env.clock 0, 1, 0, []⟩

/-- What the generator comes to, however long it is polled. -/
inductive Reachable [Add Time] [Sub Time] [LT Time] [DecidableLT Time] [DecidableEq Time]
    (source : σ) : State Time σ → Prop where
  | start : Reachable source (rate_generator_start env (init env source))
  | poll {s s' : State Time σ} (fuel : Nat) :
      Reachable source s → timer_tick env fuel s = some s' → Reachable source s'

end

/-- The loop ends when the draws to come add up to what is missing. -/
theorem tick_loop_ends_of_sum [AddCommMonoid Time] [LinearOrder Time] {env : Env Time σ}
    {now : Time} {d : Nat → Time} (sources : Nat → σ) {i n : Nat} {s : State Time σ}
    (hdraw : ∀ i, env.next_interarrival_time (sources i) = (d i, sources (i + 1)))
    (hs : s.source = sources i) (hn : now ≤ s.next_time + ∑ j ∈ range n, d (i + j)) :
    ∃ s', tick_loop env now (n + 1) s = some s' := by
  induction n generalizing s i with
  | zero =>
    rw [range_zero, sum_empty, add_zero] at hn
    rw [tick_loop, if_neg (not_lt.mpr hn)]
    exact ⟨s, rfl⟩
  | succ n ih =>
    rw [tick_loop]
    dsimp only
    split
    · split
      · exact ⟨_, rfl⟩
      · have hturn : (turn env s).source = sources (i + 1) ∧
            (turn env s).next_time = s.next_time + d i := by
          unfold turn arrive
          rw [hs, hdraw]
          exact ⟨rfl, rfl⟩
        apply ih hturn.1
        rw [sum_range_succ', add_zero, add_comm _ (d i), ← add_assoc] at hn
        rw [hturn.2]
        simpa only [Nat.add_assoc, Nat.add_comm 1] using hn
    · exact ⟨s, rfl⟩

/-! ## Arrivals on time -/

/-- The draws of a row of delays. -/
def draw (d : Nat → Time) (n : Nat) : Time × Nat := (d n, n + 1)

/-- The time of arrival `k`. -/
def due [AddCommGroup Time] (d : Nat → Time) (start : Time) (k : Nat) : Time :=
  start + ∑ i ∈ range k, d i

/-- The clock of `rate_generator_start`. -/
def startTime (env : Env Time Nat) : Time := (timer_now env (init env 0)).1

/-- The arrivals so far are the one at the start and those that were due before `now`, and one timer
is pending, which expires no earlier than the next arrival. -/
def OnTime [AddCommGroup Time] [LT Time] [LE Time] (d : Nat → Time) (start : Time)
    (r : Return Time) : Prop :=
  r.done = false →
    r.arrivals = 1 + {k | due d start (k + 1) < r.now}.ncard ∧
      ∃ t, r.active_timers = [t] ∧ due d start r.arrivals ≤ t.time_started + t.timeout_delay

/-- The last reading of the clock. -/
def seen (env : Env Time Nat) (s : State Time Nat) : Time := env.clock (s.readings - 1)

/-- The cache is what was read last. -/
structure Clocked (env : Env Time Nat) (s : State Time Nat) : Prop where
  read : 0 < s.readings
  cache : env.use_timer_cache = true → s.now = seen env s

/-- A look at the clock gives the last reading, and time does not go back. -/
theorem timer_now_spec [Preorder Time] {env : Env Time Nat} {s : State Time Nat}
    (hclock : Monotone env.clock) (h : Clocked env s) :
    ∃ n, (timer_now env s).2 = { s with readings := n } ∧ Clocked env { s with readings := n } ∧
      (timer_now env s).1 = seen env { s with readings := n } ∧
      seen env s ≤ seen env { s with readings := n } := by
  unfold timer_now
  by_cases hcache : env.use_timer_cache = true
  · rw [if_pos hcache]
    exact ⟨s.readings, rfl, h, h.cache hcache, le_rfl⟩
  · rw [if_neg hcache]
    refine ⟨s.readings + 1, rfl, ⟨Nat.succ_pos _, fun hc => absurd hc hcache⟩, rfl, ?_⟩
    exact hclock (Nat.sub_le_sub_right (Nat.le_succ _) 1)

theorem timer_now_done {env : Env Time Nat} {s : State Time Nat} :
    (timer_now env s).2.done = s.done := by
  unfold timer_now
  split <;> rfl

section
variable [AddCommGroup Time] [LinearOrder Time]

/-- The next arrival is the one behind those that there were, and these were due before `b`. -/
structure Paced (d : Nat → Time) (start b : Time) (s : State Time Nat) : Prop where
  source : s.source = s.arrivals
  next_time : s.next_time = due d start s.arrivals
  pos : 0 < s.arrivals
  before : ∀ k, k + 1 < s.arrivals → due d start (k + 1) < b

/-- One timer is pending, for the next arrival. -/
def OneTimer (s : State Time Nat) : Prop :=
  ∃ t, s.active_timers = [t] ∧ s.next_time ≤ t.time_started + t.timeout_delay

/-- What holds while a timer expires. -/
structure Base (env : Env Time Nat) (d : Nat → Time) (start : Time) (s : State Time Nat) :
    Prop where
  clocked : Clocked env s
  paced : Paced d start (seen env s) s
  returns : ∀ r ∈ s.returns, OnTime d start r

/-- Between two polls. -/
structure Good (env : Env Time Nat) (d : Nat → Time) (start : Time) (s : State Time Nat) : Prop
    extends Base env d start s where
  pending : s.done = false → OneTimer s

theorem Paced.mono {d : Nat → Time} {start b c : Time} {s : State Time Nat} (h : Paced d start b s)
    (hle : b ≤ c) : Paced d start c s :=
  ⟨h.source, h.next_time, h.pos, fun k hk => (h.before k hk).trans_le hle⟩

/-- The loop ends as soon as an arrival is not due. -/
theorem tick_loop_ends {env : Env Time Nat} {d : Nat → Time} {start now : Time} {s : State Time Nat}
    (htick : env.next_interarrival_time = draw d) {n : Nat}
    (h : Paced d start now s) (hn : now ≤ due d start (s.arrivals + n)) :
    ∃ s', tick_loop env now (n + 1) s = some s' := by
  apply tick_loop_ends_of_sum (fun i => i) (d := d) (fun i => by rw [htick]; rfl) h.source
  rw [h.next_time]
  unfold due at *
  rw [sum_range_add, ← add_assoc] at hn
  exact hn

theorem Base.read {env : Env Time Nat} {d : Nat → Time} {start : Time} {s : State Time Nat}
    (h : Base env d start s) {n : Nat} (hc : Clocked env { s with readings := n })
    (hle : seen env s ≤ seen env { s with readings := n }) :
    Base env d start { s with readings := n } where
  clocked := hc
  paced :=
    have hp := h.paced.mono hle
    ⟨hp.source, hp.next_time, hp.pos, hp.before⟩
  returns := h.returns

/-- The end of a call of `tick` on which `rg->done` is set. -/
theorem Base.leave_done {env : Env Time Nat} {d : Nat → Time} {start now : Time}
    {s : State Time Nat} (h : Base env d start s) (hdone : s.done = true) :
    Good env d start (leave now s) where
  clocked := ⟨h.clocked.read, h.clocked.cache⟩
  paced := ⟨h.paced.source, h.paced.next_time, h.paced.pos, h.paced.before⟩
  returns := by
    intro r hr
    rcases List.mem_append.mp hr with hr | hr
    · exact h.returns r hr
    · obtain rfl := List.mem_singleton.mp hr
      exact fun hno => nomatch hdone.symm.trans hno
  pending := fun hno => nomatch hdone.symm.trans hno

/-- Once `rg->done` is set, `tick` does nothing. -/
theorem tick_done {env : Env Time Nat} (fuel : Nat) {s : State Time Nat} (hdone : s.done = true) :
    ∃ s', tick env fuel s = some s' ∧ s'.done = true := by
  have hstays : (timer_now env s).2.done = true := timer_now_done.trans hdone
  unfold tick
  dsimp only
  rw [if_pos hstays]
  exact ⟨_, rfl, hstays⟩

theorem list_for_each_done {env : Env Time Nat} (fuel : Nat) (l : List (Timer Time))
    {s : State Time Nat} (hdone : s.done = true) : ∃ s', list_for_each env fuel l s = some s' := by
  induction l generalizing s with
  | nil => exact ⟨s, rfl⟩
  | cons t ts ih =>
    have hstays : (timer_now env s).2.done = true := timer_now_done.trans hdone
    unfold list_for_each
    dsimp only
    split
    · obtain ⟨s1, hs1, hdone1⟩ := tick_done fuel (s := { (timer_now env s).2 with
          active_timers := (timer_now env s).2.active_timers.erase t }) hstays
      rw [hs1]
      exact ih hdone1
    · exact ih hstays

/-- The traversal of the timers that were pending at its start. -/
def Pending (l : List (Timer Time)) (s : State Time Nat) : Prop :=
  s.done = false → OneTimer s ∧ (l = [] ∨ l = s.active_timers)

/-- With the timer that expires, no other is pending. -/
theorem Pending.alone {t : Timer Time} {ts : List (Timer Time)} {s : State Time Nat}
    (h : Pending (t :: ts) s) (hopen : s.done = false) : ts = [] ∧ s.active_timers = [t] := by
  obtain ⟨⟨t', ht', -⟩, hl⟩ := h hopen
  have heq := hl.resolve_left (List.cons_ne_nil t ts)
  rw [ht'] at heq ⊢
  obtain ⟨rfl, rfl⟩ := List.cons.inj heq
  exact ⟨rfl, rfl⟩

/-- The start of a poll. -/
theorem Good.poll {env : Env Time Nat} {d : Nat → Time} {start : Time} {s : State Time Nat}
    (h : Good env d start s) (hclock : Monotone env.clock) :
    Base env d start { s with readings := s.readings + 1, now := env.clock s.readings } ∧
      Pending s.active_timers
        { s with readings := s.readings + 1, now := env.clock s.readings } := by
  have hp := h.paced.mono (hclock (Nat.sub_le s.readings 1))
  exact ⟨⟨⟨Nat.succ_pos _, fun _ => rfl⟩, ⟨hp.source, hp.next_time, hp.pos, hp.before⟩, h.returns⟩,
    fun hopen => ⟨h.pending hopen, Or.inr rfl⟩⟩

end

section
variable [AddCommGroup Time] [LinearOrder Time] [IsOrderedAddMonoid Time] {env : Env Time Nat}
  {d : Nat → Time} {start b now : Time} {s s' : State Time Nat} {fuel : Nat}

theorem due_mono (hd : ∀ i, 0 ≤ d i) (start : Time) : Monotone (due d start) :=
  (Sums.sum_mono hd).const_add start

theorem paced_turn (htick : env.next_interarrival_time = draw d) (hd : ∀ i, 0 ≤ d i)
    (h : Paced d start b s) (hdue : s.next_time < b) : Paced d start b (turn env s) := by
  unfold turn arrive draw at *
  rw [htick]
  refine ⟨congrArg (· + 1) h.source, ?_, Nat.succ_pos _, fun k hk => ?_⟩
  · dsimp only
    rw [h.next_time, h.source]
    unfold due
    rw [sum_range_succ, add_assoc]
  · rw [h.next_time] at hdue
    exact (due_mono hd start (Nat.lt_succ_iff.mp hk)).trans_lt hdue

/-- What the loop of `tick` leaves, if it comes to its end. -/
theorem tick_loop_spec (htick : env.next_interarrival_time = draw d) (hd : ∀ i, 0 ≤ d i)
    (h : Paced d start now s) (hopen : s.done = false) (hrun : tick_loop env now fuel s = some s') :
    Paced d start now s' ∧ (s'.done = false → now ≤ s'.next_time) ∧
      s'.active_timers = s.active_timers ∧ s'.returns = s.returns ∧ s'.readings = s.readings ∧
      s'.now = s.now := by
  induction fuel generalizing s with
  | zero => cases hrun
  | succ fuel ih =>
    rw [tick_loop] at hrun
    dsimp only at hrun
    split at hrun
    · rename_i hdue
      have hturn := paced_turn htick hd h hdue
      split at hrun
      · rename_i hdone
        obtain rfl := Option.some.inj hrun
        exact ⟨hturn, fun hno => Bool.noConfusion (hdone.symm.trans hno), rfl, rfl, rfl, rfl⟩
      · rename_i hdone
        have hrest := ih hturn (Bool.not_eq_true _ ▸ hdone) hrun
        exact hrest
    · rename_i hdue
      obtain rfl := Option.some.inj hrun
      exact ⟨h, fun _ => not_lt.mp hdue, rfl, rfl, rfl, rfl⟩

/-! ## One poll -/

/-- The end of a call of `tick` that schedules the timer again. -/
theorem leave_schedule (hclock : Monotone env.clock) (hd : ∀ i, 0 ≤ d i) (h : Base env d start s)
    (hp : Paced d start now s) (hnow : now ≤ seen env s) (hreached : now ≤ s.next_time)
    (hnone : s.active_timers = []) :
    Good env d start (leave now (schedule env (s.next_time - now) s)) := by
  obtain ⟨n, hs, hclocked, hval, hle⟩ := timer_now_spec hclock h.clocked
  have hbase := h.read hclocked hle
  have hlater : s.next_time ≤ seen env { s with readings := n } + (s.next_time - now) := by
    calc s.next_time = now + (s.next_time - now) := (add_sub_cancel now s.next_time).symm
      _ ≤ seen env { s with readings := n } + (s.next_time - now) :=
        add_le_add_left (hnow.trans hle) _
  unfold schedule leave
  dsimp only
  rw [hs, hval]
  have hone : OneTimer { s with
      readings := n
      timer := some ⟨seen env { s with readings := n }, s.next_time - now⟩
      active_timers :=
        ⟨seen env { s with readings := n }, s.next_time - now⟩ :: s.active_timers } :=
    ⟨_, by rw [hnone], hlater⟩
  refine ⟨⟨⟨hclocked.read, hclocked.cache⟩, ?_, ?_⟩, fun _ => hone⟩
  · exact ⟨hbase.paced.source, hbase.paced.next_time, hbase.paced.pos, hbase.paced.before⟩
  · intro r hr
    rcases List.mem_append.mp hr with hr | hr
    · exact h.returns r hr
    · obtain rfl := List.mem_singleton.mp hr
      intro _
      -- the arrivals behind the first are those that were due before `now`
      have hcount : {k | due d start (k + 1) < now}.ncard = s.arrivals - 1 := by
        apply Sums.ncard_below fun i j hij => due_mono hd start (Nat.succ_le_succ hij)
        · intro k hk
          exact hp.before k (by omega)
        · rw [Nat.succ_eq_add_one, Nat.sub_add_cancel hp.pos, ← hp.next_time]
          exact hreached
      refine ⟨?_, ?_⟩
      · dsimp only
        rw [hcount]
        have := hp.pos
        omega
      · obtain ⟨t, ht, hexpires⟩ := hone
        exact ⟨t, ht, hp.next_time ▸ hexpires⟩

theorem good_tick (hclock : Monotone env.clock) (htick : env.next_interarrival_time = draw d)
    (hd : ∀ i, 0 ≤ d i) (h : Base env d start s) (hnone : s.done = false → s.active_timers = [])
    (hrun : tick env fuel s = some s') : Good env d start s' := by
  obtain ⟨n, hs, hclocked, hval, hle⟩ := timer_now_spec hclock h.clocked
  have hbase := h.read hclocked hle
  have hbase2 : Base env d start { s with readings := n, timer := none } :=
    ⟨⟨hclocked.read, hclocked.cache⟩,
      ⟨hbase.paced.source, hbase.paced.next_time, hbase.paced.pos, hbase.paced.before⟩, h.returns⟩
  unfold tick at hrun
  dsimp only at hrun
  rw [hs, hval] at hrun
  split at hrun
  · rename_i hdone
    obtain rfl := Option.some.inj hrun
    exact hbase2.leave_done hdone
  · rename_i hopen
    obtain ⟨s3, hloop, rfl⟩ := Option.map_eq_some_iff.mp hrun
    obtain ⟨hp, hreached, hactive, hreturns, hread, hcache⟩ :=
      tick_loop_spec htick hd hbase2.paced (Bool.not_eq_true _ ▸ hopen) hloop
    have hseen : seen env s3 = seen env { s with readings := n } := by
      unfold seen
      rw [hread]
    have hbase3 : Base env d start s3 := by
      refine ⟨⟨hread ▸ hclocked.read, fun hc => ?_⟩, hp.mono hseen.ge, hreturns ▸ h.returns⟩
      rw [hcache, hseen]
      exact hclocked.cache hc
    split
    · rename_i hdone
      exact hbase3.leave_done hdone
    · rename_i hdone
      rw [Bool.not_eq_true] at hopen hdone
      exact leave_schedule hclock hd hbase3 hp hseen.ge (hreached hdone)
        (hactive.trans (hnone hopen))

/-- A call of `tick` comes to its end. -/
theorem tick_ends (hclock : Monotone env.clock) (htick : env.next_interarrival_time = draw d)
    (hd : ∀ i, 0 ≤ d i) (hsum : ∀ b, {k | due d start k < b}.Finite) (h : Base env d start s) :
    ∃ fuel s', tick env fuel s = some s' := by
  obtain ⟨n, hs, hclocked, hval, hle⟩ := timer_now_spec hclock h.clocked
  obtain ⟨m, hm⟩ := Sums.exists_le_of_finite (hsum (seen env { s with readings := n }))
  have hp := (h.read hclocked hle).paced
  obtain ⟨s3, hloop⟩ := tick_loop_ends (s := { s with readings := n, timer := none }) (n := m)
    htick ⟨hp.source, hp.next_time, hp.pos, hp.before⟩
    (hm.trans (due_mono hd start (Nat.le_add_left m s.arrivals)))
  refine ⟨m + 1, ?_⟩
  unfold tick
  dsimp only
  rw [hs, hval]
  split
  · exact ⟨_, rfl⟩
  · exact ⟨_, by rw [hloop]; rfl⟩

theorem good_list_for_each (hclock : Monotone env.clock)
    (htick : env.next_interarrival_time = draw d) (hd : ∀ i, 0 ≤ d i) {l : List (Timer Time)}
    (h : Base env d start s) (hl : Pending l s) (hrun : list_for_each env fuel l s = some s') :
    Good env d start s' := by
  induction l generalizing s with
  | nil =>
    obtain rfl := Option.some.inj hrun
    exact ⟨h, fun hopen => (hl hopen).1⟩
  | cons t ts ih =>
    obtain ⟨n, hs, hclocked, hval, hle⟩ := timer_now_spec hclock h.clocked
    have hbase := h.read hclocked hle
    unfold list_for_each at hrun
    dsimp only at hrun
    rw [hs, hval] at hrun
    split at hrun
    · -- the timer expires, and `tick` runs
      obtain ⟨s1, htickrun, hrest⟩ := Option.bind_eq_some_iff.mp hrun
      have hgood := good_tick (s := { s with
          readings := n
          active_timers := s.active_timers.erase t }) hclock htick hd
        ⟨⟨hclocked.read, hclocked.cache⟩,
          ⟨hbase.paced.source, hbase.paced.next_time, hbase.paced.pos, hbase.paced.before⟩,
          h.returns⟩
        (fun hopen => by rw [(hl.alone hopen).2]; exact List.erase_cons_head t []) htickrun
      apply ih hgood.toBase _ hrest
      intro hopen
      have hwas : s.done = false := by
        by_contra hdone
        rw [Bool.not_eq_false] at hdone
        obtain ⟨s2, hs2, hstays⟩ := tick_done fuel (s := { s with
          readings := n
          active_timers := s.active_timers.erase t }) hdone
        obtain rfl := Option.some.inj (htickrun.symm.trans hs2)
        exact Bool.noConfusion (hopen.symm.trans hstays)
      exact ⟨hgood.pending hopen, Or.inl (hl.alone hwas).1⟩
    · apply ih hbase _ hrun
      intro hopen
      exact ⟨(hl hopen).1, Or.inl (hl.alone hopen).1⟩

theorem list_for_each_ends (hclock : Monotone env.clock)
    (htick : env.next_interarrival_time = draw d) (hd : ∀ i, 0 ≤ d i)
    (hsum : ∀ b, {k | due d start k < b}.Finite) {l : List (Timer Time)} (h : Base env d start s)
    (hl : Pending l s) : ∃ fuel s', list_for_each env fuel l s = some s' := by
  by_cases hdone : s.done = true
  · exact ⟨0, list_for_each_done 0 l hdone⟩
  · rw [Bool.not_eq_true] at hdone
    cases l with
    | nil => exact ⟨0, s, rfl⟩
    | cons t ts =>
      obtain ⟨n, hs, hclocked, hval, hle⟩ := timer_now_spec hclock h.clocked
      have hbase := h.read hclocked hle
      obtain ⟨fuel, s1, hs1⟩ := tick_ends (s := { s with
          readings := n
          active_timers := s.active_timers.erase t }) hclock htick hd hsum
        ⟨⟨hclocked.read, hclocked.cache⟩,
          ⟨hbase.paced.source, hbase.paced.next_time, hbase.paced.pos, hbase.paced.before⟩,
          h.returns⟩
      refine ⟨fuel, ?_⟩
      unfold list_for_each
      dsimp only
      rw [hs, hval, (hl.alone hdone).1]
      split
      · exact ⟨s1, by rw [hs1]; rfl⟩
      · exact ⟨_, rfl⟩

/-! ## Runs -/

theorem good_start (hclock : Monotone env.clock) (htick : env.next_interarrival_time = draw d) :
    Good env d (startTime env) (rate_generator_start env (init env 0)) := by
  obtain ⟨n, hs, hclocked, hval, hle⟩ := timer_now_spec (s := init env 0) hclock
    ⟨Nat.one_pos, fun _ => rfl⟩
  let s1 : State Time Nat :=
    { init env 0 with readings := n, source := 1, next_time := startTime env + d 0 }
  obtain ⟨n2, hs2, hclocked2, hval2, hle2⟩ := timer_now_spec (s := s1) hclock
    ⟨hclocked.read, hclocked.cache⟩
  let s2 : State Time Nat :=
    { s1 with
      readings := n2
      timer := some ⟨seen env { s1 with readings := n2 }, d 0⟩
      active_timers := [⟨seen env { s1 with readings := n2 }, d 0⟩] }
  obtain ⟨n3, hs3, hclocked3, hval3, hle3⟩ := timer_now_spec (s := s2) hclock
    ⟨hclocked2.read, hclocked2.cache⟩
  have hstart : rate_generator_start env (init env 0) =
      arrive env { s2 with readings := n3, start := (timer_now env s2).1 } := by
    have hdraw : env.next_interarrival_time (init env 0).source = (d 0, 1) := by rw [htick]; rfl
    have hsched : schedule env (d 0) s1 = s2 := by
      unfold schedule
      dsimp only
      rw [hs2, hval2]
      rfl
    unfold rate_generator_start
    rw [hdraw]
    dsimp only
    rw [hs]
    change arrive env { (timer_now env (schedule env (d 0) s1)).2 with
      start := (timer_now env (schedule env (d 0) s1)).1 } = _
    rw [hsched, hs3]
  rw [hstart]
  refine ⟨⟨⟨hclocked3.read, hclocked3.cache⟩, ?_, by intro r hr; cases hr⟩, fun _ => ?_⟩
  · refine ⟨rfl, ?_, Nat.one_pos, fun k hk => absurd hk (by simp [arrive, s2, s1, init])⟩
    change startTime env + d 0 = due d (startTime env) 1
    unfold due
    rw [sum_range_one]
  · refine ⟨_, rfl, ?_⟩
    change startTime env + d 0 ≤ seen env { s1 with readings := n2 } + d 0
    unfold startTime
    rw [hval]
    exact add_le_add_left hle2 _

theorem good_reachable (hclock : Monotone env.clock) (htick : env.next_interarrival_time = draw d)
    (hd : ∀ i, 0 ≤ d i) (h : Reachable env 0 s) : Good env d (startTime env) s := by
  induction h with
  | start => exact good_start hclock htick
  | @poll s s' fuel _ hrun ih =>
    obtain ⟨hbase, hpending⟩ := ih.poll hclock
    exact good_list_for_each hclock htick hd hbase hpending hrun

/-- Whenever the callback returns with `rg->done` still 0, the arrivals so far are those that were
due, and one timer is pending for the next one. Each poll comes to its end. -/
theorem arrivals_do_not_drift (hclock : Monotone env.clock)
    (htick : env.next_interarrival_time = draw d) (hd : ∀ i, 0 ≤ d i)
    (hsum : ∀ b, {k | ∑ i ∈ range k, d i < b}.Finite) (h : Reachable env 0 s) :
    (∀ r ∈ s.returns, OnTime d (startTime env) r) ∧ ∃ fuel s', timer_tick env fuel s = some s' := by
  have hgood := good_reachable hclock htick hd h
  have hsum' : ∀ b, {k | due d (startTime env) k < b}.Finite := by
    intro b
    apply (hsum (b - startTime env)).subset
    intro k hk
    exact lt_sub_iff_add_lt'.mpr hk
  obtain ⟨hbase, hpending⟩ := hgood.poll hclock
  exact ⟨hgood.returns, list_for_each_ends hclock htick hd hsum' hbase hpending⟩

end

/-- A delay of 1, and a clock that goes on by 3 between two polls. -/
def steady : Env Int Nat := ⟨true, fun n => 3 * n, draw fun _ => 1, fun _ => 0⟩

theorem steady_arrivals_do_not_drift :
    ∃ s, timer_tick steady 5 (rate_generator_start steady (init steady 0)) = some s ∧
      (∀ r ∈ s.returns, OnTime (fun _ => 1) (startTime steady) r) ∧
      ∃ fuel s', timer_tick steady fuel s = some s' := by
  refine ⟨_, rfl, arrivals_do_not_drift (d := fun _ => 1) ?_ rfl (fun _ => by decide) ?_
    (.poll 5 .start rfl)⟩
  · intro m n hmn
    simp only [steady]
    omega
  · intro b
    apply (Set.finite_Iio b.toNat).subset
    intro k hk
    simp only [Set.mem_ofPred_eq, sum_const, card_range, nsmul_eq_mul, mul_one] at hk
    rw [Set.mem_Iio]
    omega

end Httperf.RateGen
