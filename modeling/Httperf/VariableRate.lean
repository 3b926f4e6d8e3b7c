-- The schedule of `--period=vT1,D1,...` (`main` in `httperf.c`, and `next_arrival_time_variable` in
-- `rate.c`). A segment of the period 0 adds nothing to the time spent in it, so that the cursor
-- stays on it for good, unless its duration is 0.
import Httperf.RateGen

namespace Httperf.VariableRate

open Httperf.RateGen Finset

def NUM_RATES : Nat := 16

/-- `Rate_Info`, as far as the distribution `VARIABLE` uses it. -/
structure Rate where
  rate_param : ℚ
  mean_iat : ℚ
  numRates : Nat
  iat : Nat → ℚ
  duration : Nat → ℚ

/-- The loop of `main` over the numbers of the option. `none` is an `exit (1)`. -/
def parse_rates : List (ℚ × ℚ) → Rate → Option Rate
  | [], p => some p
  | (iat, duration) :: rest, p =>
    if p.numRates ≥ NUM_RATES then none
    else if iat < 0 then none
    else if duration < 0 then none
    else
      parse_rates rest { p with
        iat := Function.update p.iat p.numRates iat
        duration := Function.update p.duration p.numRates duration
        mean_iat := if p.numRates = 0 then iat else p.mean_iat + iat
        numRates := p.numRates + 1 }

/-- `main` on `--period=v`, with the numbers of the option. -/
def period_variable (pairs : List (ℚ × ℚ)) : Option Rate :=
  (parse_rates pairs ⟨0, 0, 0, fun _ => 0, fun _ => 0⟩).map fun p =>
    let mean_iat : ℚ := p.mean_iat / p.numRates
    { p with mean_iat, rate_param := if mean_iat ≤ 0 then 0 else 1 / mean_iat }

/-- The globals of `rate.c`. -/
structure Cursor where
  current_rate : Nat
  duration_in_current_rate : ℚ
  deriving DecidableEq

def next_arrival_time_variable (rate : Rate) (c : Cursor) : ℚ × Cursor :=
  let next := rate.iat c.current_rate
  let spent := c.duration_in_current_rate + next
  if spent ≥ rate.duration c.current_rate then
    let current_rate := c.current_rate + 1
    (next, ⟨if current_rate ≥ rate.numRates then 0 else current_rate, 0⟩)
  else (next, ⟨c.current_rate, spent⟩)

/-! ## What the schedule is for -/

/-- The cursor behind `i` draws. -/
def cursor (rate : Rate) (i : Nat) : Cursor :=
  (fun c => (next_arrival_time_variable rate c).2)^[i] ⟨0, 0⟩

/-- Draw `i`. -/
def delay (rate : Rate) (i : Nat) : ℚ := (next_arrival_time_variable rate (cursor rate i)).1

/-- How many arrivals segment `k` is for. -/
def share (rate : Rate) (k : Nat) : Nat := max 1 ⌈rate.duration k / rate.iat k⌉₊

/-- The draws before visit `m`, when the segments are visited one behind the other. -/
def visits (rate : Rate) (m : Nat) : Nat := ∑ j ∈ range m, share rate (j % rate.numRates)

/-- The segments are visited in a cycle, each one draws its period as often as its duration asks
for, and the loop of `tick` ends at every reading of the clock. -/
structure FollowsSchedule (rate : Rate) : Prop where
  enters : ∀ m, (cursor rate (visits rate m)).current_rate = m % rate.numRates
  draws : ∀ m i, i < share rate (m % rate.numRates) →
    (cursor rate (visits rate m + i)).current_rate = m % rate.numRates ∧
      delay rate (visits rate m + i) = rate.iat (m % rate.numRates)
  advances : ∀ (env : Env ℚ Cursor) (s : State ℚ Cursor) (now : ℚ) (i : Nat),
    env.next_interarrival_time = next_arrival_time_variable rate → s.source = cursor rate i →
      ∃ fuel s', tick_loop env now fuel s = some s'

/-! ## What `main` accepts -/

/-- A schedule that `main` accepts. -/
structure Accepted (rate : Rate) : Prop where
  iat_nonneg : ∀ k < rate.numRates, 0 ≤ rate.iat k
  duration_nonneg : ∀ k < rate.numRates, 0 ≤ rate.duration k
  mean : rate.mean_iat = (∑ k ∈ range rate.numRates, rate.iat k) / rate.numRates

/-- The loop of `main` fills the arrays from the place `p.numRates` on. -/
theorem parse_rates_spec {pairs : List (ℚ × ℚ)} {p rate : Rate}
    (h : parse_rates pairs p = some rate) (hp : p.numRates = 0 → p.mean_iat = 0) :
    rate.numRates = p.numRates + pairs.length ∧
      (∀ k < p.numRates, rate.iat k = p.iat k ∧ rate.duration k = p.duration k) ∧
      (∀ j (hj : j < pairs.length), (0 ≤ pairs[j].1 ∧ 0 ≤ pairs[j].2) ∧
        rate.iat (p.numRates + j) = pairs[j].1 ∧ rate.duration (p.numRates + j) = pairs[j].2) ∧
      rate.mean_iat = p.mean_iat + (pairs.map Prod.fst).sum := by
  induction pairs generalizing p with
  | nil =>
    obtain rfl := Option.some.inj h
    simp
  | cons pair pairs ih =>
    obtain ⟨iat, duration⟩ := pair
    rw [parse_rates] at h
    split at h
    · cases h
    · split at h
      · cases h
      · split at h
        · cases h
        · rename_i hiat hduration
          obtain ⟨hlen, hbefore, hat, hmean⟩ := ih h (fun h0 => absurd h0 (Nat.succ_ne_zero _))
          dsimp only at hlen hbefore hat hmean
          refine ⟨by rw [hlen, List.length_cons]; omega, fun k hk => ?_, fun j hj => ?_, ?_⟩
          · obtain ⟨h1, h2⟩ := hbefore k (by omega)
            rw [h1, h2, Function.update_of_ne (by omega), Function.update_of_ne (by omega)]
            exact ⟨rfl, rfl⟩
          · cases j with
            | zero =>
              obtain ⟨h1, h2⟩ := hbefore p.numRates (by omega)
              rw [Nat.add_zero, h1, h2, Function.update_self, Function.update_self]
              exact ⟨⟨not_lt.mp hiat, not_lt.mp hduration⟩, rfl, rfl⟩
            | succ j =>
              have := hat j (Nat.lt_of_succ_lt_succ hj)
              rw [show p.numRates + (j + 1) = p.numRates + 1 + j by omega]
              exact this
          · rw [hmean, List.map_cons, List.sum_cons]
            split
            · rename_i h0
              rw [hp h0, zero_add]
            · rw [add_assoc]

theorem parse_rates_isSome_iff (pairs : List (ℚ × ℚ)) {p : Rate} (hp : p.numRates ≤ NUM_RATES) :
    (parse_rates pairs p).isSome ↔
      p.numRates + pairs.length ≤ NUM_RATES ∧ ∀ q ∈ pairs, 0 ≤ q.1 ∧ 0 ≤ q.2 := by
  induction pairs generalizing p with
  | nil => simp [parse_rates, hp]
  | cons pair pairs ih =>
    obtain ⟨iat, duration⟩ := pair
    rw [parse_rates, List.length_cons]
    split
    · simp
      omega
    · rename_i hroom
      split
      · simp only [Option.isSome_none, Bool.false_eq_true, false_iff, not_and]
        rename_i hneg
        exact fun _ hall => absurd (hall _ List.mem_cons_self).1 (not_le.mpr hneg)
      · split
        · simp only [Option.isSome_none, Bool.false_eq_true, false_iff, not_and]
          rename_i hneg
          exact fun _ hall => absurd (hall _ List.mem_cons_self).2 (not_le.mpr hneg)
        · rename_i hiat hduration
          rw [ih (by dsimp only; omega)]
          simp only [List.mem_cons, forall_eq_or_imp, not_lt.mp hiat, not_lt.mp hduration, true_and,
            and_self, Nat.add_assoc, Nat.add_comm 1]

/-- `main` accepts up to `NUM_RATES` segments, without negative numbers. -/
theorem period_variable_isSome_iff (pairs : List (ℚ × ℚ)) :
    (period_variable pairs).isSome ↔
      pairs.length ≤ NUM_RATES ∧ ∀ q ∈ pairs, 0 ≤ q.1 ∧ 0 ≤ q.2 := by
  unfold period_variable
  rw [Option.isSome_map, parse_rates_isSome_iff pairs (Nat.zero_le _), Nat.zero_add]

theorem accepted_of_period {pairs : List (ℚ × ℚ)} {rate : Rate}
    (h : period_variable pairs = some rate) :
    Accepted rate ∧ rate.numRates = pairs.length ∧
      rate.mean_iat = (pairs.map Prod.fst).sum / pairs.length ∧
      ∀ j (hj : j < pairs.length), rate.iat j = pairs[j].1 ∧ rate.duration j = pairs[j].2 := by
  obtain ⟨p, hp, rfl⟩ := Option.map_eq_some_iff.mp h
  obtain ⟨hlen, -, hat, hmean⟩ := parse_rates_spec hp fun _ => rfl
  simp only [Nat.zero_add] at hlen hat
  rw [zero_add] at hmean
  refine ⟨⟨fun k hk => ?_, fun k hk => ?_, ?_⟩, hlen, ?_, fun j hj => (hat j hj).2⟩
  · obtain ⟨hnonneg, hiat, -⟩ := hat k (by rw [← hlen]; exact hk)
    exact hnonneg.1.trans_eq hiat.symm
  · obtain ⟨hnonneg, -, hduration⟩ := hat k (by rw [← hlen]; exact hk)
    exact hnonneg.2.trans_eq hduration.symm
  · have hsum : (pairs.map Prod.fst).sum = ∑ k ∈ range p.numRates, p.iat k := by
      have hlist : pairs.map Prod.fst = List.ofFn fun j : Fin pairs.length => p.iat j := by
        rw [← List.ofFn_getElem_eq_map]
        exact congrArg List.ofFn (funext fun j => (hat j j.isLt).2.1.symm)
      rw [hlen, hlist, List.sum_ofFn, Finset.sum_range]
    dsimp only
    rw [hmean, hsum]
  · dsimp only
    rw [hmean, hlen]

/-! ## The cursor -/

section
variable {rate : Rate} {k : Nat}

theorem cursor_succ (rate : Rate) (i : Nat) :
    cursor rate (i + 1) = (next_arrival_time_variable rate (cursor rate i)).2 :=
  Function.iterate_succ_apply' _ i _

theorem delay_eq (rate : Rate) (i : Nat) :
    delay rate i = rate.iat (cursor rate i).current_rate := by
  unfold delay next_arrival_time_variable
  dsimp only
  split <;> rfl

/-- The cursor goes on to the next segment. -/
theorem next_leaves {x : ℚ} (h : rate.duration k ≤ x + rate.iat k) (hk : k < rate.numRates) :
    (next_arrival_time_variable rate ⟨k, x⟩).2 = ⟨(k + 1) % rate.numRates, 0⟩ := by
  unfold next_arrival_time_variable
  dsimp only
  rw [if_pos h]
  by_cases hlast : k + 1 = rate.numRates
  · rw [if_pos hlast.ge, hlast, Nat.mod_self]
  · rw [if_neg (by omega), Nat.mod_eq_of_lt (by omega)]

theorem next_stays {x : ℚ} (h : x + rate.iat k < rate.duration k) :
    (next_arrival_time_variable rate ⟨k, x⟩).2 = ⟨k, x + rate.iat k⟩ := by
  unfold next_arrival_time_variable
  dsimp only
  rw [if_neg (not_le.mpr h)]

/-- The share of a segment is the least number of its periods that fill its duration. -/
theorem lt_share_iff (hiat : 0 ≤ rate.iat k) (hfill : rate.iat k = 0 → rate.duration k = 0)
    {i : Nat} (hi : 0 < i) : i < share rate k ↔ i * rate.iat k < rate.duration k := by
  unfold share
  rw [lt_max_iff, or_iff_right (by omega), Nat.lt_ceil]
  rcases hiat.eq_or_lt with hzero | hpos
  · rw [← hzero, hfill hzero.symm]
    simp
  · exact lt_div_iff₀ hpos

theorem share_pos (rate : Rate) (k : Nat) : 0 < share rate k :=
  Nat.lt_of_lt_of_le Nat.one_pos (le_max_left _ _)

/-- Inside a visit of segment `k`. -/
theorem cursor_inside (hiat : 0 ≤ rate.iat k) (hfill : rate.iat k = 0 → rate.duration k = 0)
    {m : Nat} (h : cursor rate m = ⟨k, 0⟩) {i : Nat} (hi : i < share rate k) :
    cursor rate (m + i) = ⟨k, i * rate.iat k⟩ := by
  induction i with
  | zero => simpa using h
  | succ i ih =>
    have hshort := (lt_share_iff hiat hfill (Nat.succ_pos i)).mp hi
    rw [Nat.cast_succ, add_mul, one_mul] at hshort ⊢
    rw [← Nat.add_assoc, cursor_succ, ih (by omega), next_stays hshort]

/-- Behind a visit of segment `k`. -/
theorem cursor_behind (hiat : 0 ≤ rate.iat k) (hfill : rate.iat k = 0 → rate.duration k = 0)
    (hk : k < rate.numRates) {m : Nat} (h : cursor rate m = ⟨k, 0⟩) :
    cursor rate (m + share rate k) = ⟨(k + 1) % rate.numRates, 0⟩ := by
  obtain ⟨i, hi⟩ := Nat.exists_eq_succ_of_ne_zero (share_pos rate k).ne'
  have hfull : rate.duration k ≤ i * rate.iat k + rate.iat k := by
    have hnot := (lt_share_iff hiat hfill (share_pos rate k)).not.mp (Nat.lt_irrefl _)
    rw [hi, Nat.cast_succ, add_mul, one_mul] at hnot
    exact not_lt.mp hnot
  rw [hi, Nat.add_succ, cursor_succ, cursor_inside hiat hfill h (by omega), next_leaves hfull hk]

end

/-! ## Schedules that are followed -/

/-- Each segment with a duration has a period. -/
def Advancing (rate : Rate) : Prop :=
  ∀ k < rate.numRates, rate.iat k = 0 → rate.duration k = 0

section
variable {rate : Rate}

theorem cursor_visits (h : Accepted rate) (hn : 0 < rate.numRates) (ha : Advancing rate) (m : Nat) :
    cursor rate (visits rate m) = ⟨m % rate.numRates, 0⟩ := by
  induction m with
  | zero => simp [visits, cursor]
  | succ m ih =>
    have hk : m % rate.numRates < rate.numRates := Nat.mod_lt m hn
    unfold visits at *
    rw [sum_range_succ, cursor_behind (h.iat_nonneg _ hk) (ha _ hk) hk ih, Nat.mod_add_mod]

theorem cursor_lt (hn : 0 < rate.numRates) (i : Nat) :
    (cursor rate i).current_rate < rate.numRates := by
  induction i with
  | zero => exact hn
  | succ i ih =>
    rw [cursor_succ]
    unfold next_arrival_time_variable
    dsimp only
    split
    · dsimp only
      split <;> omega
    · exact ih

theorem delay_nonneg (h : Accepted rate) (hn : 0 < rate.numRates) (i : Nat) : 0 ≤ delay rate i := by
  rw [delay_eq]
  exact h.iat_nonneg _ (cursor_lt hn i)

/-- One cycle of the segments is a period of the draws. -/
theorem delay_cycle (h : Accepted rate) (hn : 0 < rate.numRates) (ha : Advancing rate) (i : Nat) :
    delay rate (i + visits rate rate.numRates) = delay rate i := by
  have hback := cursor_visits h hn ha rate.numRates
  rw [Nat.mod_self] at hback
  have hcursor : cursor rate (i + visits rate rate.numRates) = cursor rate i := by
    unfold cursor at *
    rw [Function.iterate_add_apply, hback]
  rw [delay_eq, delay_eq, hcursor]

/-- The draws of a cycle add up to more than 0. -/
theorem cycle_pos (h : Accepted rate) (hmean : 0 < rate.mean_iat) (hn : 0 < rate.numRates)
    (ha : Advancing rate) : 0 < ∑ i ∈ range (visits rate rate.numRates), delay rate i := by
  have hsum : 0 < ∑ k ∈ range rate.numRates, rate.iat k := by
    rw [h.mean] at hmean
    exact (div_pos_iff_of_pos_right (Nat.cast_pos.mpr hn)).mp hmean
  obtain ⟨k, hk, hpos⟩ := exists_lt_of_sum_lt (f := fun _ => (0 : ℚ)) (by simpa using hsum)
  rw [mem_range] at hk
  apply sum_pos' fun i _ => delay_nonneg h hn i
  refine ⟨visits rate k, mem_range.mpr ?_, ?_⟩
  · calc visits rate k < visits rate k + share rate (k % rate.numRates) :=
          Nat.lt_add_of_pos_right (share_pos _ _)
      _ = visits rate (k + 1) := (sum_range_succ _ k).symm
      _ ≤ visits rate rate.numRates := sum_le_sum_of_subset (range_subset_range.mpr hk)
  · rw [delay_eq, cursor_visits h hn ha, Nat.mod_eq_of_lt hk]
    exact hpos

theorem follows_of_advancing (h : Accepted rate) (hmean : 0 < rate.mean_iat)
    (hn : 0 < rate.numRates) (ha : Advancing rate) : FollowsSchedule rate where
  enters m := by rw [cursor_visits h hn ha]
  draws m i hi := by
    have hk : m % rate.numRates < rate.numRates := Nat.mod_lt m hn
    have hcursor := cursor_inside (h.iat_nonneg _ hk) (ha _ hk) (cursor_visits h hn ha m) hi
    rw [delay_eq, hcursor]
    exact ⟨rfl, rfl⟩
  advances env s now i hdraw hs := by
    obtain ⟨n, hsum⟩ := Sums.exists_le_of_period (delay_cycle h hn ha) (cycle_pos h hmean hn ha)
      (now - s.next_time + ∑ j ∈ range i, delay rate j)
    have hmore := Sums.sum_mono (delay_nonneg h hn) (Nat.le_add_left n i)
    dsimp only at hmore
    rw [sum_range_add] at hmore
    refine ⟨n + 1, tick_loop_ends_of_sum (cursor rate) (d := delay rate) (fun j => ?_) hs ?_⟩
    · rw [hdraw, cursor_succ]
      rfl
    · linarith only [hsum, hmore]

/-- The time spent in a segment is less than its duration. -/
theorem spent_lt (rate : Rate) (i : Nat) :
    (cursor rate i).duration_in_current_rate = 0 ∨
      (cursor rate i).duration_in_current_rate < rate.duration (cursor rate i).current_rate := by
  induction i with
  | zero => exact Or.inl rfl
  | succ i ih =>
    rw [cursor_succ]
    unfold next_arrival_time_variable
    dsimp only
    split
    · exact Or.inl rfl
    · rename_i hlt
      exact Or.inr (not_le.mp hlt)

/-- A segment with a duration and no period is never left. -/
theorem cursor_stuck {k : Nat} (hzero : rate.iat k = 0) (hpos : 0 < rate.duration k) {m : Nat}
    (h : (cursor rate m).current_rate = k) (i : Nat) : cursor rate (m + i) = cursor rate m := by
  induction i with
  | zero => rfl
  | succ i ih =>
    have hlt : (cursor rate m).duration_in_current_rate + rate.iat k < rate.duration k := by
      rw [hzero, add_zero]
      rcases spent_lt rate m with h0 | hlt
      · rw [h0]
        exact hpos
      · exact h ▸ hlt
    have hsame : cursor rate m = ⟨k, (cursor rate m).duration_in_current_rate⟩ := by rw [← h]
    rw [← Nat.add_assoc, cursor_succ, ih, hsame, next_stays hlt, hzero, add_zero]

/-- The loop of `tick` never leaves such a segment. -/
theorem tick_loop_stuck {k : Nat} (hzero : rate.iat k = 0) {env : Env ℚ Cursor}
    (hdraw : env.next_interarrival_time = next_arrival_time_variable rate)
    (hgoes : ∀ i, 0 ≤ env.tick i) {now x : ℚ} (hx : x < rate.duration k) {s : State ℚ Cursor}
    (hs : s.source = ⟨k, x⟩) (hdue : s.next_time < now) (fuel : Nat) :
    tick_loop env now fuel s = none := by
  induction fuel generalizing s with
  | zero => rfl
  | succ fuel ih =>
    have hturn : (turn env s).source = ⟨k, x⟩ ∧ (turn env s).next_time = s.next_time ∧
        (turn env s).done = false := by
      have hstay : x + rate.iat k < rate.duration k := by
        rw [hzero, add_zero]
        exact hx
      have hsame := next_stays hstay
      rw [hzero, add_zero] at hsame
      have hdelay : (next_arrival_time_variable rate ⟨k, x⟩).1 = 0 := by
        unfold next_arrival_time_variable
        dsimp only
        split <;> exact hzero
      unfold turn arrive
      rw [hdraw, hs]
      dsimp only
      rw [hsame, hdelay, add_zero]
      exact ⟨rfl, rfl, decide_eq_false (not_lt.mpr (hgoes _))⟩
    rw [tick_loop, if_pos hdue]
    dsimp only
    rw [hturn.2.2, if_neg Bool.false_ne_true]
    exact ih hturn.1 (hturn.2.1 ▸ hdue)

theorem advancing_of_follows (h : Accepted rate) (hmean : 0 < rate.mean_iat)
    (hf : FollowsSchedule rate) :
    Advancing rate := by
  intro k hk hzero
  by_contra hne
  have hpos := (h.duration_nonneg k hk).lt_of_ne' hne
  -- with one segment the mean would be 0
  have htwo : rate.numRates ≠ 1 := by
    intro hone
    rw [h.mean, hone] at hmean
    have hk0 : k = 0 := by omega
    subst hk0
    simp [hzero] at hmean
  have hhere := hf.enters k
  rw [Nat.mod_eq_of_lt hk] at hhere
  have hnext := hf.enters (k + 1)
  unfold visits at hnext
  rw [sum_range_succ, ← visits, cursor_stuck hzero hpos hhere, hhere] at hnext
  rcases Nat.lt_or_ge (k + 1) rate.numRates with hlt | hge
  · rw [Nat.mod_eq_of_lt hlt] at hnext
    omega
  · have hlast : k + 1 = rate.numRates := by omega
    rw [hlast, Nat.mod_self] at hnext
    omega

end

/-- A schedule that `main` accepts is followed exactly when no segment with a duration has the
period 0. -/
theorem follows_schedule_iff {pairs : List (ℚ × ℚ)} {rate : Rate}
    (haccept : period_variable pairs = some rate) (hmean : 0 < rate.mean_iat) :
    FollowsSchedule rate ↔ ∀ p ∈ pairs, p.1 = 0 → p.2 = 0 := by
  obtain ⟨h, hlen, -, hat⟩ := accepted_of_period haccept
  have hn : 0 < rate.numRates := by
    by_contra hno
    rw [Nat.not_lt, Nat.le_zero] at hno
    rw [h.mean, hno] at hmean
    simp at hmean
  have hiff : Advancing rate ↔ ∀ p ∈ pairs, p.1 = 0 → p.2 = 0 := by
    unfold Advancing
    rw [hlen, List.forall_mem_iff_getElem]
    apply forall_congr'
    intro j
    apply forall_congr'
    intro hj
    rw [(hat j hj).1, (hat j hj).2]
  rw [← hiff]
  exact ⟨advancing_of_follows h hmean, follows_of_advancing h hmean hn⟩

/-- `--period=v1,2,0.5,4`. -/
def two_rates : List (ℚ × ℚ) := [(1, 2), (1 / 2, 4)]

theorem two_rates_follow_schedule :
    ∃ rate, period_variable two_rates = some rate ∧
      (FollowsSchedule rate ↔ ∀ p ∈ two_rates, p.1 = 0 → p.2 = 0) := by
  obtain ⟨rate, hrate⟩ := Option.isSome_iff_exists.mp
    ((period_variable_isSome_iff two_rates).mpr ⟨by decide, by norm_num [two_rates]⟩)
  have hmean : 0 < rate.mean_iat := by
    rw [(accepted_of_period hrate).2.2.1]
    norm_num [two_rates]
  exact ⟨rate, hrate, follows_schedule_iff hrate hmean⟩

/-- `--period=v0,5,1,2`. -/
def zero_first : List (ℚ × ℚ) := [(0, 5), (1, 2)]

/-- The schedule stays in its first segment, and a poll that comes late never ends. -/
theorem zero_period_is_never_left :
    ∃ rate, period_variable zero_first = some rate ∧ 0 < rate.mean_iat ∧ ¬ FollowsSchedule rate ∧
      ∀ (env : Env ℚ Cursor) (s : State ℚ Cursor) (now : ℚ) (fuel : Nat),
        env.next_interarrival_time = next_arrival_time_variable rate → (∀ i, 0 ≤ env.tick i) →
        s.source = ⟨0, 0⟩ → s.next_time < now → tick_loop env now fuel s = none := by
  obtain ⟨rate, hrate⟩ := Option.isSome_iff_exists.mp
    ((period_variable_isSome_iff zero_first).mpr ⟨by decide, by norm_num [zero_first]⟩)
  obtain ⟨h, hlen, hmean, hat⟩ := accepted_of_period hrate
  have hpos : 0 < rate.mean_iat := by
    rw [hmean]
    norm_num [zero_first]
  obtain ⟨hiat, hduration⟩ := hat 0 (by decide)
  have hlong : 0 < rate.duration 0 := by
    rw [hduration]
    norm_num [zero_first]
  refine ⟨rate, hrate, hpos, fun hf => ?_, fun env s now fuel hdraw hgoes hs hdue => ?_⟩
  · have hzero := advancing_of_follows h hpos hf 0 (by rw [hlen]; decide) hiat
    exact hlong.ne' hzero
  · exact tick_loop_stuck hiat hdraw hgoes hlong hs hdue fuel

end Httperf.VariableRate
