-- The partial sums of a row of numbers: how many of them lie below a bound, and when they pass
-- every bound.
import Mathlib

namespace Httperf.Sums

open Finset

/-! ## A row that does not fall -/

section
variable {α : Type*} [LinearOrder α] {f : ℕ → α} {n : ℕ} {b : α}

/-- The first `n` are below the bound, and the next one is not. -/
theorem below_eq (hf : Monotone f) (hlow : ∀ k < n, f k < b) (hhigh : b ≤ f n) :
    {k | f k < b} = Set.Iio n := by
  ext k
  rw [Set.mem_ofPred_eq, Set.mem_Iio]
  constructor
  · intro hk
    by_contra hle
    exact absurd hk (not_lt.mpr (hhigh.trans (hf (not_lt.mp hle))))
  · exact hlow k

theorem ncard_below (hf : Monotone f) (hlow : ∀ k < n, f k < b) (hhigh : b ≤ f n) :
    {k | f k < b}.ncard = n := by
  rw [below_eq hf hlow hhigh, Set.ncard_eq_toFinset_card', Set.toFinset_Iio, Nat.card_Iio]

/-- If only finitely many are below the bound, one is not. -/
theorem exists_le_of_finite (h : {k | f k < b}.Finite) : ∃ k, b ≤ f k := by
  by_contra hne
  simp only [not_exists, not_le] at hne
  have hall : {k | f k < b} = Set.univ := Set.eq_univ_of_forall hne
  rw [hall] at h
  exact Set.infinite_univ h

end

/-! ## Sums -/

/-- After `m` periods of length `p` the sum is that of `m` periods. -/
theorem sum_periods {α : Type*} [AddCommMonoid α] {d : ℕ → α} {p : ℕ}
    (hper : ∀ i, d (i + p) = d i) (m : ℕ) :
    ∑ i ∈ range (m * p), d i = m • ∑ i ∈ range p, d i := by
  have hshift : ∀ m i, d (m * p + i) = d i := by
    intro m i
    induction m with
    | zero => simp
    | succ m ih => rw [Nat.succ_mul, Nat.add_right_comm, hper, ih]
  induction m with
  | zero => simp
  | succ m ih =>
    rw [Nat.succ_mul, sum_range_add, ih, succ_nsmul]
    simp only [hshift]

theorem sum_mono {α : Type*} [AddCommGroup α] [LinearOrder α] [IsOrderedAddMonoid α] {d : ℕ → α}
    (hd : ∀ i, 0 ≤ d i) : Monotone fun k => ∑ i ∈ range k, d i := by
  apply monotone_nat_of_le_succ
  intro k
  rw [sum_range_succ]
  exact le_add_of_nonneg_right (hd k)

/-- The sums of a periodic row pass every bound, if the sum of a period is positive. -/
theorem exists_le_of_period {α : Type*} [AddCommGroup α] [LinearOrder α] [Archimedean α] {d : ℕ → α}
    {p : ℕ} (hper : ∀ i, d (i + p) = d i) (hpos : 0 < ∑ i ∈ range p, d i) (b : α) :
    ∃ k, b ≤ ∑ i ∈ range k, d i := by
  obtain ⟨m, hm⟩ := Archimedean.arch b hpos
  exact ⟨m * p, hm.trans_eq (sum_periods hper m).symm⟩

end Httperf.Sums
