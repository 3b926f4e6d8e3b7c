-- Heap order in an array that is counted from one: the parent of the place `i` is the place `i /
-- 2`. An element is put in its place by moving a hole through the tree.
import Mathlib.Data.Multiset.ZeroCons
import Mathlib.Order.Interval.Finset.Nat

namespace Httperf.Lib.HeapOrder

variable {α : Type}

/-! ## The elements -/

/-- The elements in the first `n` places. -/
def bag (st : Nat → α) (n : Nat) : Multiset α := (Finset.Icc 1 n).val.map st

/-- All of them but the one at the place `i`. -/
def rest (st : Nat → α) (n i : Nat) : Multiset α := ((Finset.Icc 1 n).erase i).val.map st

variable {st : Nat → α} {n i p : Nat}

theorem bag_zero (st : Nat → α) : bag st 0 = 0 := rfl

theorem card_bag (st : Nat → α) (n : Nat) : (bag st n).card = n := by
  unfold bag
  rw [Multiset.card_map, Finset.card_val, Nat.card_Icc, Nat.add_sub_cancel]

theorem bag_eq_cons_rest (h1 : 1 ≤ i) (hn : i ≤ n) : bag st n = st i ::ₘ rest st n i := by
  have hi : i ∈ Finset.Icc 1 n := Finset.mem_Icc.mpr ⟨h1, hn⟩
  unfold bag rest
  rw [← Multiset.map_cons, Finset.erase_val, Multiset.cons_erase (Finset.mem_val.mpr hi)]

/-- The rest does not look at the place that it leaves out. -/
theorem rest_update (a : α) : rest (Function.update st i a) n i = rest st n i := by
  apply Multiset.map_congr rfl
  intro j hj
  exact Function.update_of_ne (Finset.ne_of_mem_erase (Finset.mem_val.mp hj)) _ _

theorem bag_fill (h1 : 1 ≤ i) (hn : i ≤ n) (a : α) :
    bag (Function.update st i a) n = a ::ₘ rest st n i := by
  rw [bag_eq_cons_rest h1 hn, Function.update_self, rest_update]

theorem rest_last (st : Nat → α) (n : Nat) : rest st (n + 1) (n + 1) = bag st n := by
  have herase : (Finset.Icc 1 (n + 1)).erase (n + 1) = Finset.Icc 1 n := by
    ext j
    rw [Finset.mem_erase, Finset.mem_Icc, Finset.mem_Icc]
    omega
  unfold rest bag
  rw [herase]

/-- The hole moves from `i` to `p`, and the element from `p` to `i`. -/
theorem rest_move (hi : 1 ≤ i ∧ i ≤ n) (hp : 1 ≤ p ∧ p ≤ n) (hne : i ≠ p) :
    rest (Function.update st i (st p)) n p = rest st n i := by
  have hswap : st p ::ₘ rest (Function.update st i (st p)) n p = st p ::ₘ rest st n i := by
    have hkeep : Function.update st i (st p) p = st p := Function.update_of_ne (Ne.symm hne) _ _
    rw [← bag_fill hi.1 hi.2, bag_eq_cons_rest hp.1 hp.2, hkeep]
  exact (Multiset.cons_inj_right _).mp hswap

/-! ## The order -/

section
variable [LinearOrder α]

/-- No element is less than its parent. -/
def Ordered (st : Nat → α) (n : Nat) : Prop := ∀ i, 2 ≤ i → i ≤ n → st (i / 2) ≤ st i

theorem Ordered.root_le (h : Ordered st n) : ∀ i, 1 ≤ i → i ≤ n → st 1 ≤ st i := by
  intro i
  induction i using Nat.strong_induction_on with
  | _ i ih =>
    intro h1 hn
    by_cases hi : i = 1
    · rw [hi]
    · exact le_trans (ih (i / 2) (by omega) (by omega) (by omega)) (h i (by omega) hn)

/-- The root is the least of the elements. -/
theorem Ordered.root_min (h : Ordered st n) (hn : 1 ≤ n) :
    st 1 ∈ bag st n ∧ ∀ a ∈ bag st n, st 1 ≤ a := by
  unfold bag
  constructor
  · exact Multiset.mem_map_of_mem _ (Finset.mem_val.mpr (Finset.mem_Icc.mpr ⟨le_rfl, hn⟩))
  · intro a ha
    obtain ⟨i, hi, rfl⟩ := Multiset.mem_map.mp ha
    obtain ⟨h1, hle⟩ := Finset.mem_Icc.mp (Finset.mem_val.mp hi)
    exact h.root_le i h1 hle

/-- The order holds all around the hole `i`, and across it. -/
structure Hole (st : Nat → α) (n i : Nat) : Prop where
  around : ∀ j, 2 ≤ j → j ≤ n → j ≠ i → j / 2 ≠ i → st (j / 2) ≤ st j
  across : ∀ j, j ≤ n → j / 2 = i → 2 ≤ i → st (i / 2) ≤ st j

/-- What is at the hole makes no difference. -/
theorem Hole.update (h : Hole st n i) (a : α) : Hole (Function.update st i a) n i where
  around j h2 hn hj hp := by
    rw [Function.update_of_ne hj, Function.update_of_ne hp]
    exact h.around j h2 hn hj hp
  across j hn hp h2 := by
    rw [Function.update_of_ne (by omega), Function.update_of_ne (by omega)]
    exact h.across j hn hp h2

theorem Ordered.hole (h : Ordered st n) (i : Nat) : Hole st n i where
  around j h2 hn _ _ := h j h2 hn
  across j hn hp h2 := by
    have hup := h j (by omega) hn
    rw [hp] at hup
    exact le_trans (h i h2 (by omega)) hup

/-- A new place at the end has no children. -/
theorem Ordered.hole_last (h : Ordered st n) : Hole st (n + 1) (n + 1) where
  around j h2 hn hj _ := h j h2 (by omega)
  across j hn hp h2 := by omega

theorem Ordered.le (h : Ordered st n) {m : Nat} (hm : m ≤ n) : Ordered st m :=
  fun i h2 hi => h i h2 (le_trans hi hm)

/-- An element that fits between the parent and the children fills the hole. -/
theorem Hole.fill (h : Hole st n i) {a : α} (h1 : 1 ≤ i) (habove : 2 ≤ i → st (i / 2) ≤ a)
    (hbelow : ∀ j, j ≤ n → j / 2 = i → a ≤ st j) : Ordered (Function.update st i a) n := by
  intro j h2 hn
  by_cases hj : j = i
  · subst hj
    rw [Function.update_self, Function.update_of_ne (by omega)]
    exact habove h2
  · rw [Function.update_of_ne hj]
    by_cases hp : j / 2 = i
    · rw [hp, Function.update_self]
      exact hbelow j hn hp
    · rw [Function.update_of_ne hp]
      exact h.around j h2 hn hj hp

/-- The parent moves into the hole. -/
theorem Hole.up (h : Hole st n i) (h2 : 2 ≤ i) (hi : i ≤ n) :
    Hole (Function.update st i (st (i / 2))) n (i / 2) where
  around j hj2 hn hj hp := by
    by_cases hji : j = i
    · exact absurd (congrArg (· / 2) hji) hp
    · rw [Function.update_of_ne hji]
      by_cases hpi : j / 2 = i
      · rw [hpi, Function.update_self]
        exact h.across j hn hpi h2
      · rw [Function.update_of_ne hpi]
        exact h.around j hj2 hn hji hpi
  across j hn hp hp2 := by
    have hup : st (i / 2 / 2) ≤ st (i / 2) := h.around (i / 2) hp2 (by omega) (by omega) (by omega)
    rw [Function.update_of_ne (show i / 2 / 2 ≠ i by omega)]
    by_cases hji : j = i
    · rw [hji, Function.update_self]
      exact hup
    · rw [Function.update_of_ne hji]
      have hj := h.around j (by omega) hn hji (by omega)
      rw [hp] at hj
      exact le_trans hup hj

/-- The least child moves into the hole. -/
theorem Hole.down (h : Hole st n i) {c : Nat} (h1 : 1 ≤ i) (hc : c / 2 = i) (hcn : c ≤ n)
    (hleast : ∀ j, j ≤ n → j / 2 = i → st c ≤ st j) : Hole (Function.update st i (st c)) n c where
  around j h2 hn hj hp := by
    by_cases hji : j = i
    · subst hji
      rw [Function.update_self, Function.update_of_ne (by omega)]
      exact h.across c hcn hc h2
    · rw [Function.update_of_ne hji]
      by_cases hpi : j / 2 = i
      · rw [hpi, Function.update_self]
        exact hleast j hn hpi
      · rw [Function.update_of_ne hpi]
        exact h.around j h2 hn hji hpi
  across j hn hp h2 := by
    rw [hc, Function.update_self, Function.update_of_ne (by omega)]
    have hj := h.around j (by omega) hn (by omega) (by omega)
    rwa [hp] at hj

end

end Httperf.Lib.HeapOrder
