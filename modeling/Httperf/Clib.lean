-- The C library functions that the reply parser calls, in the C locale. A
-- string is the list of its bytes without the final NUL, so a function that
-- stops at a NUL works on `cstr` of what the buffer holds.
import Mathlib

namespace Httperf

abbrev Byte := UInt8

/-- The bytes of an ASCII string literal. -/
def bytes (s : String) : List Byte := s.toList.map fun c => c.toNat.toUInt8

/-- What a C function sees of a buffer: the bytes before the first NUL. -/
def cstr (buf : List Byte) : List Byte := buf.takeWhile (· ≠ 0)

theorem cstr_eq {text : List Byte} (h : 0 ∉ text) : cstr text = text := by
  unfold cstr
  rw [List.takeWhile_eq_self_iff]
  intro c hc
  have : c ≠ 0 := fun he => h (he ▸ hc)
  simp [this]

theorem cstr_append {text : List Byte} (h : 0 ∉ text) (rest : List Byte) :
    cstr (text ++ 0 :: rest) = text := by
  unfold cstr
  rw [List.takeWhile_append_of_pos, List.takeWhile_cons_of_neg (by simp), List.append_nil]
  intro c hc
  have hne : c ≠ 0 := fun he => h (he ▸ hc)
  simp [hne]

/-- A file of strings, each with its NUL. -/
def listing (names : List (List Byte)) : List Byte := names.flatMap fun name => name ++ [0]

theorem listing_cons (name : List Byte) (names : List (List Byte)) :
    listing (name :: names) = name ++ 0 :: listing names := by
  unfold listing
  rw [List.flatMap_cons, List.append_assoc, List.singleton_append]

theorem listing_append (front names : List (List Byte)) :
    listing (front ++ names) = listing front ++ listing names := List.flatMap_append

/-- Behind some of the strings comes the next one. -/
theorem listing_drop (front : List (List Byte)) (name : List Byte) (names : List (List Byte)) :
    (listing (front ++ name :: names)).drop (listing front).length =
      name ++ 0 :: listing names := by
  rw [listing_append, List.drop_left, listing_cons]

theorem listing_concat_length (front : List (List Byte)) (name : List Byte) :
    (listing (front ++ [name])).length = (listing front).length + name.length + 1 := by
  rw [listing_append, listing_cons, List.length_append, List.length_append]
  rfl

/-- A length that is kept in an `int`. -/
def int_of (len : Nat) : Int := Int.bmod len (2 ^ 32)

theorem int_of_eq {len : Nat} (h : len < 2 ^ 31) : int_of len = len := by
  unfold int_of
  apply Int.bmod_eq_of_le <;> omega

/-- An `int` where a `size_t` is wanted. -/
def size_t (len : Int) : Nat := (len % 2 ^ 64).toNat

def LF : Byte := 10

def CR : Byte := 13

def isspace (c : Byte) : Bool := c = 32 || (9 ≤ c && c ≤ 13)

def isdigit (c : Byte) : Bool := 48 ≤ c && c ≤ 57

def tolower (c : Byte) : Byte := if 65 ≤ c && c ≤ 90 then c + 32 else c

/-- `strncasecmp (s, lit, strlen (lit)) == 0`. -/
def strncaseeq (s lit : List Byte) : Bool :=
  (s.take lit.length).map tolower == lit.map tolower

/-- `strcasecmp (s, lit) == 0`. -/
def strcaseeq (s lit : List Byte) : Bool := s.map tolower == lit.map tolower

/-! ## Numbers -/

/-- The value of a digit in base 10 or 16. -/
def digit (base : Nat) (c : Byte) : Option Nat :=
  let v := if isdigit c then some (c.toNat - 48)
    else if 97 ≤ tolower c && tolower c ≤ 122 then some ((tolower c).toNat - 87)
    else none
  v.filter (· < base)

/-- The value of a row of digits. -/
def digits (base : Nat) (s : List Byte) : Nat :=
  s.foldl (fun acc c => acc * base + (digit base c).getD 0) 0

def takeSign : List Byte → Bool × List Byte
  | 45 :: s => (true, s)
  | 43 :: s => (false, s)
  | s => (false, s)

/-- In base 16 a leading `0x` is skipped when a digit follows it. -/
def skipHexPrefix (base : Nat) : List Byte → List Byte
  | 48 :: x :: c :: s =>
    if base = 16 ∧ tolower x = 120 ∧ (digit 16 c).isSome then c :: s else 48 :: x :: c :: s
  | s => s

def ULONG_MAX : Nat := 2 ^ 64 - 1

/-- What `strtoul` gives: the value, whether it set `errno` to `ERANGE`, and
whether it moved `end` past the start of the string. -/
structure Strtoul where
  val : Nat
  erange : Bool
  converted : Bool
  deriving DecidableEq, Repr

def strtoul (s : List Byte) (base : Nat) : Strtoul :=
  let (negative, s) := takeSign (s.dropWhile isspace)
  let ds := (skipHexPrefix base s).takeWhile (fun c => (digit base c).isSome)
  if ds = [] then ⟨0, false, false⟩
  else if ULONG_MAX < digits base ds then ⟨ULONG_MAX, true, true⟩
  else ⟨if negative then (2 ^ 64 - digits base ds) % 2 ^ 64 else digits base ds, false, true⟩

/-- One `%u` of `sscanf`: the value kept in a `u_int`, and the rest of the input. -/
def scan_u (s : List Byte) : Option (Nat × List Byte) :=
  let t := (takeSign (s.dropWhile isspace)).2
  if t.takeWhile isdigit = [] then none
  else some ((strtoul s 10).val % 2 ^ 32, t.dropWhile isdigit)

/-- A directive of `sscanf` that is plain text. -/
def scan_lit (lit s : List Byte) : Option (List Byte) :=
  if lit.isPrefixOf s then some (s.drop lit.length) else none

/-- `sscanf (s, "HTTP/%u.%u %u ", &major, &minor, &status) == 3`, with the three
values. The last blank of the format matches anything. -/
def scan_status_line (s : List Byte) : Option (Nat × Nat × Nat) := do
  let s ← scan_lit (bytes "HTTP/") s
  let (major, s) ← scan_u s
  let s ← scan_lit (bytes ".") s
  let (minor, s) ← scan_u s
  let (status, _) ← scan_u (s.dropWhile isspace)
  some (major, minor, status)

example : scan_status_line (bytes "HTTP/1.1 200 OK") = some (1, 1, 200) := by decide

example : strtoul (bytes "1aF; name=x") 16 = ⟨431, false, true⟩ := by decide

end Httperf
