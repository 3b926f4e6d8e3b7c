-- A fraction that takes up a rate of at most one, turn by turn, and carries when it is full. What
-- it holds is the fractional part of all it took up, and the carries are the whole part.
import Mathlib.Algebra.Order.Floor.Ring
import Mathlib.Algebra.Order.Archimedean.Basic
import Mathlib.Tactic.Linarith

namespace Httperf.Lib.Carry

variable {α : Type*} [Field α] [LinearOrder α] [IsStrictOrderedRing α] [FloorRing α] {rate p x : α}

/-- A turn in which the fraction is full. -/
theorem floor_of_full (hx : 0 ≤ x) (hrate : rate ≤ 1) (hfull : 1 ≤ Int.fract x + rate) :
    ⌊x + rate⌋₊ = ⌊x⌋₊ + 1 ∧ Int.fract (x + rate) = Int.fract x + rate - 1 := by
  have hfract : x = ⌊x⌋₊ + Int.fract x := by
    rw [natCast_floor_eq_intCast_floor hx, Int.floor_add_fract]
  have hlt : Int.fract x < 1 := Int.fract_lt_one x
  constructor
  · rw [Nat.floor_eq_iff (by linarith [Int.fract_nonneg x, Nat.cast_nonneg (α := α) ⌊x⌋₊])]
    push_cast
    constructor <;> linarith
  · rw [Int.fract_eq_iff]
    refine ⟨by linarith, by linarith, ⌊x⌋₊ + 1, ?_⟩
    push_cast
    linarith

/-- A turn in which it is not. -/
theorem floor_of_not_full (hx : 0 ≤ x) (hrate : 0 ≤ rate) (hfull : Int.fract x + rate < 1) :
    ⌊x + rate⌋₊ = ⌊x⌋₊ ∧ Int.fract (x + rate) = Int.fract x + rate := by
  have hfract : x = ⌊x⌋₊ + Int.fract x := by
    rw [natCast_floor_eq_intCast_floor hx, Int.floor_add_fract]
  have hnonneg : 0 ≤ Int.fract x := Int.fract_nonneg x
  constructor
  · rw [Nat.floor_eq_iff (by linarith)]
    constructor <;> linarith
  · rw [Int.fract_eq_iff]
    refine ⟨by linarith, hfull, ⌊x⌋₊, ?_⟩
    push_cast
    linarith

/-- No carry is skipped. -/
theorem exists_floor_eq (hp : 0 ≤ p) (hp1 : p < 1) (hpos : 0 < rate) (hrate : rate ≤ 1) (m : ℕ) :
    ∃ n : ℕ, ⌊p + n * rate⌋₊ = m := by
  cases m with
  | zero =>
    refine ⟨0, ?_⟩
    rw [Nat.cast_zero, zero_mul, add_zero, Nat.floor_eq_zero]
    exact hp1
  | succ m =>
    -- the last turn that has carried only `m` times
    have hpast : ∃ n : ℕ, (m + 1 : α) ≤ p + n * rate := by
      obtain ⟨n, hn⟩ := Archimedean.arch (m + 1 : α) hpos
      exact ⟨n, by rw [nsmul_eq_mul] at hn; linarith⟩
    have hfirst := Nat.find_spec hpast
    refine ⟨Nat.find hpast, ?_⟩
    rw [Nat.floor_eq_iff (by positivity)]
    refine ⟨by exact_mod_cast hfirst, ?_⟩
    cases hn : Nat.find hpast with
    | zero =>
      rw [hn] at hfirst
      push_cast at hfirst
      have : (0 : α) ≤ m := Nat.cast_nonneg m
      linarith
    | succ k =>
      have hbefore := Nat.find_min hpast (show k < Nat.find hpast by omega)
      push_cast at hbefore ⊢
      linarith

end Httperf.Lib.Carry
