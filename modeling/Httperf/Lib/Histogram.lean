-- Histograms: how many elements of a list fall into a bin, and how the counts of the bins, added up
-- from below, find the bin of the median.
import Mathlib

namespace Httperf.Histogram

open Finset

variable {α : Type*}

/-! ## Counts -/

/-- How many elements fall into bin `i`. -/
def inBin (bin : α → ℕ) (l : List α) (i : ℕ) : ℕ := l.countP fun x => bin x = i

/-- How many fall into the bins up to `i`. -/
def upTo (bin : α → ℕ) (l : List α) (i : ℕ) : ℕ := l.countP fun x => bin x ≤ i

variable {bin : α → ℕ} {l : List α}

theorem upTo_zero : upTo bin l 0 = inBin bin l 0 := by
  unfold upTo inBin
  simp only [Nat.le_zero]

theorem upTo_succ (i : ℕ) : upTo bin l (i + 1) = upTo bin l i + inBin bin l (i + 1) := by
  induction l with
  | nil => rfl
  | cons x l ih =>
    unfold upTo inBin at *
    simp only [List.countP_cons, ih, decide_eq_true_eq]
    split <;> split <;> split <;> omega

theorem upTo_eq_sum (i : ℕ) : upTo bin l i = ∑ j ∈ range (i + 1), inBin bin l j := by
  induction i with
  | zero => rw [upTo_zero, sum_range_one]
  | succ i ih => rw [upTo_succ, ih, sum_range_succ _ (i + 1)]

theorem upTo_mono : Monotone (upTo bin l) :=
  monotone_nat_of_le_succ fun i => (upTo_succ i).ge.trans' (Nat.le_add_right _ _)

/-- All bins together hold all elements. -/
theorem sum_inBin {n : ℕ} (h : ∀ x ∈ l, bin x < n) : ∑ i ∈ range n, inBin bin l i = l.length := by
  cases n with
  | zero =>
    have hnil : l = [] := List.eq_nil_iff_forall_not_mem.mpr fun x hx => Nat.not_lt_zero _ (h x hx)
    rw [hnil]
    rfl
  | succ n =>
    rw [← upTo_eq_sum]
    apply List.countP_eq_length.mpr
    intro x hx
    exact decide_eq_true (Nat.le_of_lt_succ (h x hx))

/-! ## The median -/

variable [LinearOrder α]

/-- The lower median: the element in the middle of the sorted list, the first of the two if there
are two. -/
def median (l : List α) : Option α := (l.mergeSort (· ≤ ·))[(l.length - 1) / 2]?

/-- What the place in a sorted list says about the counts. -/
theorem sorted_counts {s : List α} (hsorted : s.Pairwise (· ≤ ·)) {k : ℕ} {m : α}
    (h : s[k]? = some m) :
    k + 1 ≤ s.countP (fun x => x ≤ m) ∧ s.countP (fun x => x < m) ≤ k := by
  induction s generalizing k with
  | nil => cases h
  | cons x s ih =>
    rw [List.pairwise_cons] at hsorted
    cases k with
    | zero =>
      obtain rfl : x = m := by simpa using h
      have hnone : s.countP (fun y => y < x) = 0 := by
        rw [List.countP_eq_zero]
        intro y hy
        simpa using hsorted.1 y hy
      rw [List.countP_cons, List.countP_cons, hnone]
      simp
    | succ k =>
      rw [List.getElem?_cons_succ] at h
      obtain ⟨hle, hlt⟩ := ih hsorted.2 h
      have hx : x ≤ m := hsorted.1 m (List.mem_of_getElem? h)
      rw [List.countP_cons, List.countP_cons, if_pos (decide_eq_true hx)]
      refine ⟨by omega, ?_⟩
      split <;> omega

theorem median_counts {m : α} (h : median l = some m) :
    l.length ≤ 2 * l.countP (fun x => x ≤ m) ∧ 2 * l.countP (fun x => x < m) < l.length := by
  have hne : l ≠ [] := by
    rintro rfl
    simp [median] at h
  have hpos := List.length_pos_iff.mpr hne
  obtain ⟨hle, hlt⟩ := sorted_counts (List.pairwise_mergeSort' (· ≤ ·) l) h
  rw [(List.mergeSort_perm l _).countP_eq] at hle hlt
  omega

/-- Only the empty list has no median. -/
theorem median_eq_none : median l = none ↔ l = [] := by
  unfold median
  rw [List.getElem?_eq_none_iff, List.length_mergeSort, ← List.length_eq_zero_iff]
  omega

theorem median_mem {m : α} (h : median l = some m) : m ∈ l :=
  List.mem_mergeSort.mp (List.mem_of_getElem? h)

/-- The counts reach half of the elements in the bin of the median. -/
theorem half_le_upTo_iff (hbin : Monotone bin) {m : α} (h : median l = some m) (i : ℕ) :
    l.length ≤ 2 * upTo bin l i ↔ bin m ≤ i := by
  obtain ⟨hle, hlt⟩ := median_counts h
  constructor
  · intro hhalf
    by_contra hno
    have hfew : upTo bin l i ≤ l.countP fun x => x < m := by
      apply List.countP_mono_left
      intro x _ hx
      have hxi : bin x ≤ i := of_decide_eq_true hx
      have hxm : x < m := by
        by_contra hge
        have := hbin (not_lt.mp hge)
        omega
      exact decide_eq_true hxm
    omega
  · intro hi
    have hmany : l.countP (fun x => x ≤ m) ≤ upTo bin l i := by
      apply List.countP_mono_left
      intro x _ hx
      exact decide_eq_true ((hbin (of_decide_eq_true hx)).trans hi)
    omega

end Httperf.Histogram
