-- Words of bits: the first bit that is set, and what the usual masks do to one bit.
import Mathlib.Order.Basic

namespace Httperf.Lib.Bits

/-- The lowest bit that is set, counted from 1, or 0. -/
def ffs {n : Nat} (w : BitVec n) : Nat :=
  match (List.range n).find? w.getLsbD with
  | none => 0
  | some b => b + 1

variable {n b j : Nat} {w : BitVec n}

theorem ffs_eq_zero_iff : ffs w = 0 ↔ ∀ b < n, w.getLsbD b = false := by
  unfold ffs
  rcases hfind : (List.range n).find? w.getLsbD with _ | b
  · rw [List.find?_range_eq_none] at hfind
    simpa using hfind
  · rw [List.find?_range_eq_some, List.mem_range] at hfind
    constructor
    · intro h
      cases h
    · intro h
      exact absurd hfind.1 (by simp [h b hfind.2.1])

theorem ffs_eq_succ_iff : ffs w = b + 1 ↔
    b < n ∧ w.getLsbD b = true ∧ ∀ j < b, w.getLsbD j = false := by
  have hsome : (List.range n).find? w.getLsbD = some b ↔
      b < n ∧ w.getLsbD b = true ∧ ∀ j < b, w.getLsbD j = false := by
    rw [List.find?_range_eq_some, List.mem_range]
    constructor
    · rintro ⟨hb, hn, hbelow⟩
      exact ⟨hn, hb, fun j hj => by simpa using hbelow j hj⟩
    · rintro ⟨hn, hb, hbelow⟩
      exact ⟨hb, hn, fun j hj => by simpa using hbelow j hj⟩
  rw [← hsome]
  unfold ffs
  cases (List.range n).find? w.getLsbD with
  | none => simp
  | some c => simp

theorem eq_zero_iff : w = 0 ↔ ∀ b < n, w.getLsbD b = false := by
  constructor
  · rintro rfl b _
    exact BitVec.getLsbD_zero
  · intro h
    apply BitVec.eq_of_getLsbD_eq
    intro b hb
    rw [h b hb]
    exact BitVec.getLsbD_zero.symm

theorem ffs_eq_zero : ffs w = 0 ↔ w = 0 := by rw [ffs_eq_zero_iff, eq_zero_iff]

/-- The word with one bit. -/
theorem getLsbD_bit (hb : b < n) : (1#n <<< b).getLsbD j = decide (j = b) := by
  simp only [BitVec.getLsbD_shiftLeft, BitVec.getLsbD_one]
  by_cases hj : j = b
  · subst hj
    simp [hb]
    omega
  · simp [hj]
    omega

theorem getLsbD_clear (hb : b < n) :
    (w &&& ~~~(1#n <<< b)).getLsbD j = (w.getLsbD j && !decide (j = b)) := by
  rw [BitVec.getLsbD_and, BitVec.getLsbD_not, getLsbD_bit hb]
  by_cases hj : j < n
  · simp [hj]
  · simp [BitVec.getLsbD_of_ge w j (by omega)]

/-- The mask of the bits from `b` on. -/
theorem getLsbD_from (hb : b < n) :
    (~~~(1#n <<< b - 1#n)).getLsbD j = (decide (j < n) && decide (b ≤ j)) := by
  have hpow : 1#n <<< b - 1#n = BitVec.ofNat n (2 ^ b - 1) := by
    apply BitVec.eq_of_toNat_eq
    have hlt : 2 ^ b < 2 ^ n := Nat.pow_lt_pow_right (by omega) hb
    have hpos : 0 < 2 ^ b := Nat.two_pow_pos b
    have hn : 1 < 2 ^ n := by omega
    simp only [BitVec.toNat_sub, BitVec.toNat_shiftLeft, BitVec.toNat_ofNat, Nat.shiftLeft_eq,
      Nat.mod_eq_of_lt hn, Nat.one_mul, Nat.mod_eq_of_lt hlt]
    rw [Nat.mod_eq_of_lt (by omega : 2 ^ b - 1 < 2 ^ n),
      show 2 ^ n - 1 + 2 ^ b = 2 ^ b - 1 + 2 ^ n by omega, Nat.add_mod_right,
      Nat.mod_eq_of_lt (by omega)]
  rw [hpow, BitVec.getLsbD_not, BitVec.getLsbD_ofNat, Nat.testBit_two_pow_sub_one]
  by_cases hj : j < n
  · by_cases hbj : b ≤ j
    · simp [hj, hbj]
    · simp [hj, hbj, Nat.lt_of_not_le hbj]
  · simp [hj]

/-- The bits that are set, from the lowest on. -/
def ones {n : Nat} (w : BitVec n) : List Nat := (List.range n).filter w.getLsbD

theorem mem_ones : b ∈ ones w ↔ w.getLsbD b = true := by
  unfold ones
  rw [List.mem_filter, List.mem_range]
  exact ⟨fun h => h.2, fun h => ⟨BitVec.lt_of_getLsbD h, h⟩⟩

theorem ones_nodup (w : BitVec n) : (ones w).Nodup := List.nodup_range.filter _

theorem ones_eq_nil_iff : ones w = [] ↔ w = 0 := by
  rw [eq_zero_iff, List.eq_nil_iff_forall_not_mem]
  constructor
  · intro h b _
    rw [← Bool.not_eq_true, ← mem_ones]
    exact h b
  · intro h b hb
    rw [mem_ones] at hb
    exact absurd (h b (BitVec.lt_of_getLsbD hb)) (by rw [hb]; decide)

/-- The lowest bit, and the others as the shifted word has them. -/
theorem ones_shift (w : BitVec n) :
    ones w = (if w.getLsbD 0 then [0] else []) ++ (ones (w >>> 1)).map (· + 1) := by
  have hlong : ones w = (List.range (n + 1)).filter w.getLsbD := by
    rw [List.range_succ, List.filter_append]
    simp [ones]
  rw [hlong, List.range_succ_eq_map, List.filter_cons, List.filter_map]
  have hshift : w.getLsbD ∘ Nat.succ = (w >>> 1).getLsbD := by
    funext b
    rw [BitVec.getLsbD_ushiftRight]
    exact congrArg w.getLsbD (Nat.add_comm b 1)
  rw [hshift]
  split <;> rfl

/-- What two words count, their union counts but for what they share. -/
theorem ones_or_and (v w : BitVec n) :
    (ones (v ||| w)).length + (ones (v &&& w)).length = (ones v).length + (ones w).length := by
  unfold ones
  induction List.range n with
  | nil => rfl
  | cons b bs ih =>
    simp only [List.filter_cons, BitVec.getLsbD_or, BitVec.getLsbD_and]
    cases v.getLsbD b <;> cases w.getLsbD b <;> simp <;> omega

end Httperf.Lib.Bits
