-- A list in a ring of cells: it starts at `rd` and wraps around at the end.
import Mathlib.Logic.Function.Basic
import Mathlib.Data.List.Basic

namespace Httperf.Lib

variable {α : Type}

/-- The cells from `rd` on hold `l`. -/
def Holds (size : Nat) (cell : Nat → Option α) (rd : Nat) (l : List α) : Prop :=
  ∀ j < l.length, cell ((rd + j) % size) = l[j]?

/-- What a reader finds in `n` cells from `rd` on. -/
def readRing (size : Nat) (cell : Nat → Option α) : Nat → Nat → List α
  | 0, _ => []
  | n + 1, rd => (cell rd).toList ++ readRing size cell n ((rd + 1) % size)

variable {size rd : Nat} {cell : Nat → Option α} {l : List α} {x : α}

/-- Two cells of the ring are different when they are less than a round apart. -/
theorem ring_ne {i j : Nat} (hij : i < j) (hj : j < i + size) :
    (rd + i) % size ≠ (rd + j) % size := by
  intro h
  have hdvd : size ∣ (rd + j) - (rd + i) :=
    Nat.dvd_of_mod_eq_zero (Nat.sub_mod_eq_zero_of_mod_eq h.symm)
  have hle := Nat.le_of_dvd (by omega) hdvd
  omega

theorem holds_nil : Holds size cell rd [] := fun _ hj => absurd hj (Nat.not_lt_zero _)

theorem Holds.head (h : Holds size cell rd (x :: l)) (hrd : rd < size) : cell rd = some x := by
  have h0 := h 0 (Nat.zero_lt_succ _)
  rwa [Nat.add_zero, Nat.mod_eq_of_lt hrd] at h0

theorem Holds.push (h : Holds size cell rd l) (hlt : l.length < size) :
    Holds size (Function.update cell ((rd + l.length) % size) (some x)) rd (l ++ [x]) := by
  intro j hj
  rw [List.length_append, List.length_singleton] at hj
  by_cases hjl : j = l.length
  · subst hjl
    rw [Function.update_self, List.getElem?_concat_length]
  · have hjlt : j < l.length := by omega
    rw [Function.update_of_ne (ring_ne hjlt (by omega)), List.getElem?_append_left hjlt]
    exact h j hjlt

theorem ring_next (size rd j : Nat) : ((rd + 1) % size + j) % size = (rd + (j + 1)) % size := by
  rw [Nat.mod_add_mod, Nat.add_assoc, Nat.add_comm 1 j]

/-- The first cell is left behind as it is. -/
theorem Holds.tail (h : Holds size cell rd (x :: l)) : Holds size cell ((rd + 1) % size) l := by
  intro j hj
  rw [ring_next, h (j + 1) (by simpa using hj), List.getElem?_cons_succ]

theorem Holds.pop (h : Holds size cell rd (x :: l)) (hrd : rd < size) (hle : l.length < size) :
    Holds size (Function.update cell rd none) ((rd + 1) % size) l := by
  intro j hj
  have hne : (rd + (j + 1)) % size ≠ rd := by
    have hzero : (rd + 0) % size = rd := by rw [Nat.add_zero, Nat.mod_eq_of_lt hrd]
    intro heq
    exact ring_ne (Nat.succ_pos j) (by omega) (hzero.trans heq.symm)
  rw [ring_next, Function.update_of_ne hne, ← ring_next]
  exact h.tail j hj

/-- A reader behind the first `k` cells finds the rest of the list. -/
theorem Holds.read (h : Holds size cell rd l) {k : Nat} (hk : k ≤ l.length) :
    readRing size cell (l.length - k) ((rd + k) % size) = l.drop k := by
  generalize hn : l.length - k = n
  induction n generalizing k with
  | zero =>
    rw [List.drop_eq_nil_of_le (by omega)]
    rfl
  | succ n ih =>
    have hlt : k < l.length := by omega
    rw [readRing, h k hlt, Nat.mod_add_mod, Nat.add_assoc, ih (by omega) (by omega),
      List.getElem?_eq_getElem hlt, List.drop_eq_getElem_cons hlt]
    rfl

end Httperf.Lib
