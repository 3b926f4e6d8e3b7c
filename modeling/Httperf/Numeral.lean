-- Numbers in a reply. A numeral is a row of digits, and `strtoul` and `%u` read its value back
-- when something else follows it.
import Httperf.Clib

namespace Httperf

/-- A number as the server writes it: leading zeros and both cases of letters are allowed. -/
structure Numeral (base : Nat) where
  text : List Byte
  ne : text ≠ []
  isDigit : ∀ c ∈ text, (digit base c).isSome

/-- The number that a numeral stands for. -/
def Numeral.val {base : Nat} (n : Numeral base) : Nat := digits base n.text

/-- What `%u` keeps of it. -/
def Numeral.u_int {base : Nat} (n : Numeral base) : Nat := min n.val ULONG_MAX % 2 ^ 32

/-- The bytes after a numeral do not go on with it. -/
def EndsNumeral (base : Nat) (tail : List Byte) : Prop :=
  ∀ c ∈ tail.head?, digit base c = none ∧ tolower c ≠ 120

/-! ## Digits -/

/-- A fact about bytes can be checked on all of them. -/
theorem forall_byte {P : Byte → Prop} (h : ∀ n : Fin 256, P (UInt8.ofNat n)) (c : Byte) : P c := by
  have := h ⟨c.toNat, c.toNat_lt⟩
  simpa using this

/-- A digit is one in every larger base. -/
theorem digit_of_le {base larger : Nat} (hb : base ≤ larger) {c : Byte}
    (h : (digit base c).isSome) :
    (digit larger c).isSome := by
  obtain ⟨v, hv⟩ := Option.isSome_iff_exists.mp h
  unfold digit at hv ⊢
  simp only [Option.filter_eq_some_iff, decide_eq_true_eq] at hv
  rw [hv.1, Option.filter_some, if_pos (by simp; omega)]
  rfl

/-- A digit is no blank, no sign and no `x`. -/
theorem digit_shape {base : Nat} (hb : base ≤ 16) {c : Byte} (h : (digit base c).isSome) :
    isspace c = false ∧ c ≠ 45 ∧ c ≠ 43 ∧ tolower c ≠ 120 := by
  have hall : ∀ c : Byte, (digit 16 c).isSome →
      isspace c = false ∧ c ≠ 45 ∧ c ≠ 43 ∧ tolower c ≠ 120 := by
    apply forall_byte
    decide +kernel
  exact hall c (digit_of_le hb h)

theorem digit_ten (c : Byte) : (digit 10 c).isSome = isdigit c := by
  revert c
  apply forall_byte
  decide +kernel

/-! ## Reading a numeral -/

theorem takeSign_digit {c : Byte} (s : List Byte) (h1 : c ≠ 45) (h2 : c ≠ 43) :
    takeSign (c :: s) = (false, c :: s) := by
  unfold takeSign
  split <;> simp_all

/-- Nothing is skipped before the first digit. -/
theorem takeSign_numeral {base : Nat} (hb : base ≤ 16) (n : Numeral base) (tail : List Byte) :
    takeSign ((n.text ++ tail).dropWhile isspace) = (false, n.text ++ tail) := by
  obtain ⟨c, s, hcs⟩ := List.exists_cons_of_ne_nil n.ne
  obtain ⟨hsp, h1, h2, _⟩ := digit_shape hb (n.isDigit c (by simp [hcs]))
  rw [hcs, List.cons_append, List.dropWhile_cons_of_neg (by simp [hsp]), takeSign_digit _ h1 h2]

theorem skipHexPrefix_numeral {base : Nat} (hb : base ≤ 16) (n : Numeral base) {tail : List Byte}
    (ht : EndsNumeral base tail) : skipHexPrefix base (n.text ++ tail) = n.text ++ tail := by
  have hx : ∀ c s, n.text ++ tail = 48 :: c :: s → tolower c ≠ 120 := by
    intro c s he
    obtain ⟨d, rest, hd⟩ := List.exists_cons_of_ne_nil n.ne
    rw [hd, List.cons_append, List.cons.injEq] at he
    cases rest with
    | nil => exact (ht c (by simp_all)).2
    | cons e rest =>
      rw [List.cons_append, List.cons.injEq] at he
      exact (digit_shape hb (n.isDigit c (by simp [hd, ← he.2.1]))).2.2.2
  unfold skipHexPrefix
  split
  · rename_i c d s he
    rw [if_neg fun h => hx c (d :: s) he h.2.1, he]
  · rfl

theorem takeWhile_numeral {base : Nat} (n : Numeral base) {tail : List Byte}
    (ht : EndsNumeral base tail) :
    (n.text ++ tail).takeWhile (fun c => (digit base c).isSome) = n.text := by
  rw [List.takeWhile_append_of_pos n.isDigit]
  cases tail with
  | nil => simp
  | cons c tail => simp [(ht c rfl).1]

theorem dropWhile_numeral {base : Nat} (n : Numeral base) {tail : List Byte}
    (ht : EndsNumeral base tail) :
    (n.text ++ tail).dropWhile (fun c => (digit base c).isSome) = tail := by
  rw [List.dropWhile_append_of_pos n.isDigit]
  cases tail with
  | nil => rfl
  | cons c tail => simp [(ht c rfl).1]

/-- `strtoul` reads a numeral back. -/
theorem strtoul_numeral {base : Nat} (hb : base ≤ 16) (n : Numeral base) {tail : List Byte}
    (ht : EndsNumeral base tail) (hmax : n.val ≤ ULONG_MAX) :
    strtoul (n.text ++ tail) base = ⟨n.val, false, true⟩ := by
  unfold strtoul
  simp only [takeSign_numeral hb, skipHexPrefix_numeral hb n ht, takeWhile_numeral n ht]
  rw [if_neg n.ne, if_neg (by exact Nat.not_lt.mpr hmax)]
  rfl

theorem strtoul_numeral_val {base : Nat} (hb : base ≤ 16) (n : Numeral base) {tail : List Byte}
    (ht : EndsNumeral base tail) : (strtoul (n.text ++ tail) base).val = min n.val ULONG_MAX := by
  by_cases hmax : n.val ≤ ULONG_MAX
  · rw [strtoul_numeral hb n ht hmax, Nat.min_eq_left hmax]
  · rw [Nat.not_le] at hmax
    unfold strtoul
    simp only [takeSign_numeral hb, skipHexPrefix_numeral hb n ht, takeWhile_numeral n ht]
    rw [if_neg n.ne, if_pos (by exact hmax), Nat.min_eq_right (Nat.le_of_lt hmax)]

/-- `%u` reads a numeral of any size and goes on behind it. -/
theorem scan_u_numeral (n : Numeral 10) {tail : List Byte} (ht : EndsNumeral 10 tail) :
    scan_u (n.text ++ tail) = some (n.u_int, tail) := by
  have hdig : isdigit = fun c => (digit 10 c).isSome := funext fun c => (digit_ten c).symm
  unfold scan_u Numeral.u_int
  simp only [takeSign_numeral (by omega : 10 ≤ 16), hdig, takeWhile_numeral n ht,
    dropWhile_numeral n ht, if_neg n.ne, strtoul_numeral_val (by omega : 10 ≤ 16) n ht]

end Httperf
