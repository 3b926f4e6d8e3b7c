-- The histogram of the connection lifetimes (`conn_destroyed` and `dump` of `stat/basic.c`), with
-- exact rationals for the times. A lifetime that is too long is put into a bin behind the last one.
import Httperf.Lib.Histogram

namespace Httperf.Lifetimes

open Finset Histogram

def MAX_LIFETIME : ℚ := 100

def BIN_WIDTH : ℚ := 1 / 1000

def NUM_BINS : Nat := ⌊MAX_LIFETIME / BIN_WIDTH⌋₊

/-- The counters that the histogram is made of. What lies behind the last bin is the memory behind
the array. -/
structure Basic where
  num_lifetimes : UInt64
  conn_lifetime_hist : Nat → UInt32

def init : Basic := ⟨0, fun _ => 0⟩

/-- A connection that is destroyed at `now`. -/
structure Destroyed where
  num_calls_completed : Nat
  time_connect_start : ℚ
  now : ℚ
  le : time_connect_start ≤ now

def Destroyed.lifetime (s : Destroyed) : ℚ := s.now - s.time_connect_start

/-- The conversion of a number that is not negative to a `u_int`. Where it does not fit, C leaves
the result undefined. -/
def to_u_int (x : ℚ) : Option Nat := if ⌊x⌋₊ < 2 ^ 32 then some ⌊x⌋₊ else none

/-- The index of the bin. -/
def bin (lifetime : ℚ) : Option Nat :=
  (to_u_int (lifetime * NUM_BINS / MAX_LIFETIME)).map fun bin =>
    if bin ≥ NUM_BINS then NUM_BINS else bin

def conn_destroyed (b : Basic) (s : Destroyed) : Basic :=
  if s.num_calls_completed > 0 then
    let b1 := { b with num_lifetimes := b.num_lifetimes + 1 }
    match bin s.lifetime with
    | some i =>
      { b1 with conn_lifetime_hist :=
          Function.update b1.conn_lifetime_hist i (b1.conn_lifetime_hist i + 1) }
    | none => b1
  else b

/-- The centre of bin `i`. -/
def centre (i : Nat) : ℚ := (i + 1 / 2) * BIN_WIDTH

/-- The loop of `dump` over the bins, `fuel` of them from `i` on. -/
def scan (b : Basic) : Nat → Nat → UInt32 → ℚ
  | 0, _, _ => 0
  | fuel + 1, i, n =>
    let n1 := n + b.conn_lifetime_hist i
    if (n1.toNat : ℚ) ≥ 1 / 2 * b.num_lifetimes.toNat then centre i else scan b fuel (i + 1) n1

/-- The median that `dump` prints. -/
def lifetime_median (b : Basic) : ℚ := if b.num_lifetimes > 0 then scan b NUM_BINS 0 0 else 0

def run (ds : List Destroyed) : Basic := ds.foldl conn_destroyed init

/-! ## What the histogram is for -/

/-- The lifetimes of the connections that count. -/
def lifetimes (ds : List Destroyed) : List ℚ :=
  (ds.filter fun s => s.num_calls_completed > 0).map Destroyed.lifetime

/-- The bin that contains a lifetime. -/
def binOf (lifetime : ℚ) : Nat := ⌊lifetime / BIN_WIDTH⌋₊

structure Exact (ds : List Destroyed) : Prop where
  index : ∀ x ∈ lifetimes ds, ∃ i < NUM_BINS, bin x = some i
  number : (run ds).num_lifetimes.toNat = (lifetimes ds).length
  sum : ∑ i ∈ range NUM_BINS, ((run ds).conn_lifetime_hist i).toNat = (run ds).num_lifetimes.toNat
  median : ∀ m, Histogram.median (lifetimes ds) = some m →
    (lifetimes ds).length ≤ 2 * (lifetimes ds).countP (fun x => x ≤ MAX_LIFETIME) →
      lifetime_median (run ds) = centre (binOf m)

/-- The lifetimes are below the end of the histogram, and no `u_int` wraps: not in a bin, and not in
the loop of `dump` up to the bin of the median. -/
structure Fits (ds : List Destroyed) : Prop where
  below : ∀ x ∈ lifetimes ds, x < MAX_LIFETIME
  bins : ∀ i, inBin binOf (lifetimes ds) i < 2 ^ 32
  scanned : ∀ m, Histogram.median (lifetimes ds) = some m →
    upTo binOf (lifetimes ds) (binOf m) < 2 ^ 32

/-! ## Bins -/

theorem num_bins_eq : NUM_BINS = 100000 := by
  unfold NUM_BINS MAX_LIFETIME BIN_WIDTH
  rw [show (100 : ℚ) / (1 / 1000) = (100000 : ℕ) by norm_num]
  exact Nat.floor_natCast _

theorem binOf_mono : Monotone binOf := by
  intro x y h
  apply Nat.floor_le_floor
  unfold BIN_WIDTH
  linarith only [h]

theorem bin_eq (x : ℚ) :
    bin x = if binOf x < 2 ^ 32 then some (min (binOf x) NUM_BINS) else none := by
  have hscale : x * NUM_BINS / MAX_LIFETIME = x / BIN_WIDTH := by
    rw [num_bins_eq]
    unfold MAX_LIFETIME BIN_WIDTH
    push_cast
    ring
  unfold bin to_u_int
  rw [hscale, ← binOf]
  split
  · rw [Option.map_some]
    congr 1
    split <;> omega
  · rfl

theorem binOf_lt_iff {x : ℚ} (hx : 0 ≤ x) : binOf x < NUM_BINS ↔ x < MAX_LIFETIME := by
  have hwidth : (0 : ℚ) < BIN_WIDTH := by unfold BIN_WIDTH; norm_num
  rw [num_bins_eq]
  unfold binOf
  rw [Nat.floor_lt (div_nonneg hx hwidth.le), div_lt_iff₀ hwidth]
  unfold BIN_WIDTH MAX_LIFETIME
  norm_num

/-- The index is that of a bin exactly below the end of the histogram. -/
theorem bin_lt_iff {x : ℚ} (hx : 0 ≤ x) : (∃ i < NUM_BINS, bin x = some i) ↔ x < MAX_LIFETIME := by
  rw [← binOf_lt_iff hx, bin_eq]
  constructor
  · rintro ⟨i, hi, hbin⟩
    split at hbin
    · obtain rfl := Option.some.inj hbin
      omega
    · cases hbin
  · intro hlt
    refine ⟨binOf x, hlt, ?_⟩
    rw [if_pos (by rw [num_bins_eq] at hlt; omega), Nat.min_eq_left hlt.le]

/-! ## Counts -/

theorem lifetimes_nonneg {ds : List Destroyed} {x : ℚ} (h : x ∈ lifetimes ds) : 0 ≤ x := by
  obtain ⟨s, -, rfl⟩ := List.mem_map.mp h
  exact sub_nonneg.mpr s.le

theorem lifetimes_concat (ds : List Destroyed) (s : Destroyed) :
    lifetimes (ds ++ [s]) =
      lifetimes ds ++ if s.num_calls_completed > 0 then [s.lifetime] else [] := by
  unfold lifetimes
  rw [List.filter_append, List.map_append]
  congr 1
  by_cases h : s.num_calls_completed > 0
  · simp [h]
  · simp [h]

/-- After any row of connections the counters hold the counts, as far as they go. -/
theorem run_counts (ds : List Destroyed) :
    (run ds).num_lifetimes = UInt64.ofNat (lifetimes ds).length ∧
      ∀ i, (run ds).conn_lifetime_hist i =
        UInt32.ofNat ((lifetimes ds).countP fun x => bin x = some i) := by
  induction ds using List.reverseRecOn with
  | nil => exact ⟨rfl, fun _ => rfl⟩
  | append_singleton ds s ih =>
    obtain ⟨hnum, hhist⟩ := ih
    have hrun : run (ds ++ [s]) = conn_destroyed (run ds) s := List.foldl_concat ..
    rw [hrun, lifetimes_concat]
    unfold conn_destroyed
    split
    · have hcount :
          ∀ i, UInt32.ofNat ((lifetimes ds ++ [s.lifetime]).countP fun x => bin x = some i) =
          (run ds).conn_lifetime_hist i + if bin s.lifetime = some i then 1 else 0 := by
        intro i
        rw [List.countP_append, List.countP_singleton, UInt32.ofNat_add, ← hhist]
        congr 1
        simp only [decide_eq_true_eq]
        split <;> rfl
      have hlen : UInt64.ofNat (lifetimes ds ++ [s.lifetime]).length =
          (run ds).num_lifetimes + 1 := by
        rw [List.length_append, List.length_singleton, UInt64.ofNat_add, hnum]
        rfl
      refine ⟨?_, fun i => ?_⟩
      · rw [hlen]
        cases bin s.lifetime <;> rfl
      · rw [hcount]
        cases hbin : bin s.lifetime with
        | none => simp
        | some j =>
          dsimp only
          by_cases hij : i = j
          · rw [hij, Function.update_self, if_pos rfl]
          · rw [Function.update_of_ne hij, if_neg fun h => hij (Option.some.inj h).symm]
            simp
    · rw [List.append_nil]
      exact ⟨hnum, hhist⟩

section
variable {ds : List Destroyed}

/-- Below the end of the histogram each bin holds its count, as far as it goes. -/
theorem hist_eq (hbelow : ∀ x ∈ lifetimes ds, x < MAX_LIFETIME) (i : Nat) :
    (run ds).conn_lifetime_hist i = UInt32.ofNat (inBin binOf (lifetimes ds) i) := by
  rw [(run_counts ds).2]
  congr 1
  unfold inBin
  apply List.countP_congr
  intro x hx
  have hlt := (binOf_lt_iff (lifetimes_nonneg hx)).mpr (hbelow x hx)
  rw [bin_eq, if_pos (by rw [num_bins_eq] at hlt; omega), Nat.min_eq_left hlt.le]
  simp

theorem inBin_behind (hbelow : ∀ x ∈ lifetimes ds, x < MAX_LIFETIME) {i : Nat} (hi : NUM_BINS ≤ i) :
    inBin binOf (lifetimes ds) i = 0 := by
  unfold inBin
  rw [List.countP_eq_zero]
  intro x hx
  have hlt := (binOf_lt_iff (lifetimes_nonneg hx)).mpr (hbelow x hx)
  simp only [decide_eq_true_eq]
  omega

theorem sum_bins (hbelow : ∀ x ∈ lifetimes ds, x < MAX_LIFETIME) :
    ∑ i ∈ range NUM_BINS, inBin binOf (lifetimes ds) i = (lifetimes ds).length :=
  sum_inBin fun x hx => (binOf_lt_iff (lifetimes_nonneg hx)).mpr (hbelow x hx)

/-- The bins add up exactly when none of them has wrapped. -/
theorem sum_hist_iff (hbelow : ∀ x ∈ lifetimes ds, x < MAX_LIFETIME) :
    ∑ i ∈ range NUM_BINS, ((run ds).conn_lifetime_hist i).toNat = (lifetimes ds).length ↔
      ∀ i, inBin binOf (lifetimes ds) i < 2 ^ 32 := by
  have hval : ∀ i, ((run ds).conn_lifetime_hist i).toNat =
      inBin binOf (lifetimes ds) i % 2 ^ 32 := by
    intro i
    rw [hist_eq hbelow, UInt32.toNat_ofNat']
  simp only [hval]
  rw [← sum_bins hbelow, sum_eq_sum_iff_of_le fun i _ => Nat.mod_le _ _]
  constructor
  · intro h i
    by_cases hi : i < NUM_BINS
    · rw [← h i (mem_range.mpr hi)]
      exact Nat.mod_lt _ (by decide)
    · rw [inBin_behind hbelow (not_lt.mp hi)]
      decide
  · intro h i _
    exact Nat.mod_eq_of_lt (h i)

/-! ## The median -/

/-- The counts of the bins before `i`. -/
def before (ds : List Destroyed) (i : Nat) : Nat := ∑ j ∈ range i, inBin binOf (lifetimes ds) j

theorem upTo_eq_before (i : Nat) : upTo binOf (lifetimes ds) i = before ds (i + 1) := upTo_eq_sum i

/-- One turn of the loop adds the count of its bin, and looks whether that is half of all. -/
theorem scan_turn (hbelow : ∀ x ∈ lifetimes ds, x < MAX_LIFETIME)
    (hnum : (run ds).num_lifetimes.toNat = (lifetimes ds).length) (fuel i : Nat) :
    scan (run ds) (fuel + 1) i (UInt32.ofNat (before ds i)) =
      if (lifetimes ds).length ≤ 2 * (upTo binOf (lifetimes ds) i % 2 ^ 32) then centre i
      else scan (run ds) fuel (i + 1) (UInt32.ofNat (before ds (i + 1))) := by
  have hadd : UInt32.ofNat (before ds i) + (run ds).conn_lifetime_hist i =
      UInt32.ofNat (before ds (i + 1)) := by
    rw [hist_eq hbelow, ← UInt32.ofNat_add]
    unfold before
    rw [sum_range_succ]
  rw [scan, hadd, hnum, UInt32.toNat_ofNat', upTo_eq_before]
  apply if_congr _ rfl rfl
  rw [ge_iff_le, one_div, inv_mul_le_iff₀ two_pos]
  exact_mod_cast Iff.rfl

/-- The loop stops in the bin of the median, unless the count has wrapped by then. -/
theorem scan_finds (hbelow : ∀ x ∈ lifetimes ds, x < MAX_LIFETIME)
    (hnum : (run ds).num_lifetimes.toNat = (lifetimes ds).length) {m : ℚ}
    (hm : Histogram.median (lifetimes ds) = some m)
    (hfit : upTo binOf (lifetimes ds) (binOf m) < 2 ^ 32) {fuel i : Nat} (hi : i ≤ binOf m)
    (hfuel : binOf m < i + fuel) :
    scan (run ds) fuel i (UInt32.ofNat (before ds i)) = centre (binOf m) := by
  induction fuel generalizing i with
  | zero => omega
  | succ fuel ih =>
    have hsmall : upTo binOf (lifetimes ds) i < 2 ^ 32 := (upTo_mono hi).trans_lt hfit
    rw [scan_turn hbelow hnum, Nat.mod_eq_of_lt hsmall,
      if_congr (half_le_upTo_iff binOf_mono hm i) rfl rfl]
    split
    · rw [Nat.le_antisymm hi ‹_›]
    · exact ih (by omega) (by omega)

/-- A count that has wrapped never reaches half of all. -/
theorem scan_misses (hbelow : ∀ x ∈ lifetimes ds, x < MAX_LIFETIME)
    (hnum : (run ds).num_lifetimes.toNat = (lifetimes ds).length) {m : ℚ}
    (hm : Histogram.median (lifetimes ds) = some m)
    (hwrap : 2 ^ 32 ≤ upTo binOf (lifetimes ds) (binOf m)) (fuel i : Nat) :
    scan (run ds) fuel i (UInt32.ofNat (before ds i)) = 0 := by
  induction fuel generalizing i with
  | zero => rfl
  | succ fuel ih =>
    rw [scan_turn hbelow hnum, if_neg, ih]
    rcases Nat.lt_or_ge i (binOf m) with hlt | hge
    · -- below the bin of the median there is less than a half
      have hfew := (half_le_upTo_iff binOf_mono hm i).not.mpr (by omega)
      have := Nat.mod_le (upTo binOf (lifetimes ds) i) (2 ^ 32)
      omega
    · have hmono : upTo binOf (lifetimes ds) (binOf m) ≤ upTo binOf (lifetimes ds) i :=
        upTo_mono hge
      have hall : upTo binOf (lifetimes ds) i ≤ (lifetimes ds).length := List.countP_le_length
      have hdiv := Nat.div_add_mod (upTo binOf (lifetimes ds) i) (2 ^ 32)
      have hq : 1 ≤ upTo binOf (lifetimes ds) i / 2 ^ 32 :=
        (Nat.one_le_div_iff (by decide)).mpr (hwrap.trans hmono)
      have hr := Nat.mod_lt (upTo binOf (lifetimes ds) i) (show 0 < 2 ^ 32 by decide)
      omega

theorem centre_pos (i : Nat) : 0 < centre i := by
  unfold centre BIN_WIDTH
  positivity

/-- `dump` prints the bin of the median exactly when its count has not wrapped there. -/
theorem median_iff (hbelow : ∀ x ∈ lifetimes ds, x < MAX_LIFETIME)
    (hnum : (run ds).num_lifetimes.toNat = (lifetimes ds).length) {m : ℚ}
    (hm : Histogram.median (lifetimes ds) = some m) :
    lifetime_median (run ds) = centre (binOf m) ↔
      upTo binOf (lifetimes ds) (binOf m) < 2 ^ 32 := by
  have hmem := median_mem hm
  have hpos : (run ds).num_lifetimes > 0 := by
    rw [gt_iff_lt, UInt64.lt_iff_toNat_lt, hnum]
    exact List.length_pos_of_mem hmem
  have hbin : binOf m < NUM_BINS := (binOf_lt_iff (lifetimes_nonneg hmem)).mpr (hbelow m hmem)
  have hstart : UInt32.ofNat (before ds 0) = 0 := rfl
  unfold lifetime_median
  rw [if_pos hpos, ← hstart]
  constructor
  · intro hfound
    by_contra hwrap
    rw [scan_misses hbelow hnum hm (not_lt.mp hwrap)] at hfound
    exact (centre_pos _).ne hfound
  · intro hfit
    exact scan_finds hbelow hnum hm hfit (Nat.zero_le _) (by rwa [Nat.zero_add])

/-- The histogram is exact exactly when the lifetimes are below its end and no counter wraps. -/
theorem lifetime_histogram_exact_iff (ds : List Destroyed) : Exact ds ↔ Fits ds := by
  have hhalf : (∀ x ∈ lifetimes ds, x < MAX_LIFETIME) →
      (lifetimes ds).length ≤ 2 * (lifetimes ds).countP (fun x => x ≤ MAX_LIFETIME) := by
    intro hbelow
    have hall : (lifetimes ds).countP (fun x => x ≤ MAX_LIFETIME) = (lifetimes ds).length :=
      List.countP_eq_length.mpr fun x hx => decide_eq_true (hbelow x hx).le
    omega
  constructor
  · intro h
    have hbelow : ∀ x ∈ lifetimes ds, x < MAX_LIFETIME := fun x hx =>
      (bin_lt_iff (lifetimes_nonneg hx)).mp (h.index x hx)
    refine ⟨hbelow, (sum_hist_iff hbelow).mp (h.sum.trans h.number), fun m hm => ?_⟩
    exact (median_iff hbelow h.number hm).mp (h.median m hm (hhalf hbelow))
  · intro h
    have hnum : (run ds).num_lifetimes.toNat = (lifetimes ds).length := by
      rw [(run_counts ds).1, UInt64.toNat_ofNat_of_lt']
      have hle : ∑ i ∈ range NUM_BINS, inBin binOf (lifetimes ds) i ≤ NUM_BINS • 2 ^ 32 := by
        have := sum_le_card_nsmul (range NUM_BINS) _ (2 ^ 32) fun i _ => (h.bins i).le
        rwa [card_range] at this
      rw [sum_bins h.below, num_bins_eq] at hle
      exact hle.trans_lt (by decide)
    exact {
      index := fun x hx => (bin_lt_iff (lifetimes_nonneg hx)).mpr (h.below x hx)
      number := hnum
      sum := ((sum_hist_iff h.below).mpr h.bins).trans hnum.symm
      median := fun m hm _ => (median_iff h.below hnum hm).mpr (h.scanned m hm) }

end

/-- A connection that lived for 100 seconds. -/
def long_lived : Destroyed := ⟨1, 0, 100, by norm_num⟩

/-- Its bin is the one behind the last. -/
theorem a_long_life_is_counted_behind_the_histogram : ¬ Exact [long_lived] := by
  intro h
  have hmem : (100 : ℚ) ∈ lifetimes [long_lived] := by
    simp [lifetimes, long_lived, Destroyed.lifetime]
  have hlt := (bin_lt_iff (by norm_num)).mp (h.index 100 hmem)
  exact absurd hlt (by unfold MAX_LIFETIME; norm_num)

end Httperf.Lifetimes
