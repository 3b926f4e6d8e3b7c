-- The addresses of `--myaddr` (`core_add_addresses` in `core.c`), on a little-endian host. An
-- address is kept in network byte order, and the loop over a range counts up in that order.
import Httperf.Numeral
import Httperf.Ports

namespace Httperf.AddressRange

/-! ## Addresses -/

/-- On a little-endian host the bytes are reversed. -/
def htonl (x : Nat) : Nat :=
  x % 2 ^ 8 * 2 ^ 24 + x / 2 ^ 8 % 2 ^ 8 * 2 ^ 16 + x / 2 ^ 16 % 2 ^ 8 * 2 ^ 8 + x / 2 ^ 24 % 2 ^ 8

/-- The base of a number in base 0, and its digits. -/
def number_base (s : List Byte) : Nat × List Byte :=
  match s with
  | 48 :: x :: c :: rest =>
    if tolower x = 120 ∧ (digit 16 c).isSome then (16, c :: rest) else (8, s)
  | 48 :: _ => (8, s)
  | _ => (10, s)

/-- `strtoul (s, &end, 0)`, with what follows the number. -/
def scan_number (s : List Byte) : Nat × List Byte :=
  let (base, s) := number_base s
  (min (digits base (s.takeWhile fun c => (digit base c).isSome)) ULONG_MAX,
    s.dropWhile fun c => (digit base c).isSome)

/-- The parts but the last are bytes, and the last part fills up the address. A blank ends it. -/
def inet_parts : Nat → Nat → List Byte → Option Nat
  | left, res, s =>
    if isdigit (s.headD 0) = false then none
    else
      let (val, rest) := scan_number s
      match left, rest with
      | left + 1, 46 :: rest => if 255 < val then none else inet_parts left (res * 256 + val) rest
      | left, rest =>
        if rest ≠ [] ∧ isspace (rest.headD 0) = false then none
        else if 256 ^ (left + 1) ≤ val then none
        else some (res * 256 ^ (left + 1) + val)

/-- The address in network byte order. -/
def inet_aton (s : List Byte) : Option Nat := (inet_parts 3 0 s).map htonl

example : inet_aton (bytes "10.0.0.1") = some 0x0100000a := by decide +kernel

example : inet_aton (bytes "0x7f.1") = some 0x0100007f := by decide +kernel

/-! ## The pool -/

/-- The address with its ports. -/
structure LocalAddr where
  ip : Nat
  ports : Ports.LocalAddr

def core_add_address (myaddrs : List LocalAddr) (ip : Nat) : List LocalAddr :=
  myaddrs ++ [⟨ip, Ports.core_add_address⟩]

/-- The loop over a range, and its last address. -/
def range_loop (end_ip : Nat) : Nat → Nat → List LocalAddr → Option (List LocalAddr)
  | 0, _, _ => none
  | fuel + 1, ip, myaddrs =>
    if ip ≠ end_ip then
      range_loop end_ip fuel ((ip + htonl 1) % 2 ^ 32) (core_add_address myaddrs ip)
    else some (core_add_address myaddrs end_ip)

inductive Outcome where
  | added (myaddrs : List LocalAddr)
  | exit

/-- What `gethostbyname` knows is an address, or something of another family. -/
def core_add_addresses (gethostbyname : List Byte → Option (Option Nat)) (fuel : Nat)
    (myaddrs : List LocalAddr) (spec : List Byte) : Option Outcome :=
  match gethostbyname spec with
  | some none => some .exit
  | some (some ip) => some (.added (core_add_address myaddrs ip))
  | none =>
    if 45 ∈ spec then
      match inet_aton (spec.takeWhile (· ≠ 45)), inet_aton (spec.dropWhile (· ≠ 45)).tail with
      | some ip, some end_ip => (range_loop end_ip fuel ip myaddrs).map .added
      | _, _ => some .exit
    else
      match inet_aton spec with
      | some ip => some (.added (core_add_address myaddrs ip))
      | none => some .exit

/-! ## Dotted addresses -/

/-- A byte as a decimal number. -/
def dotted_part (n : Nat) : List Byte :=
  let digit (d : Nat) : Byte := 48 + UInt8.ofNat (d % 10)
  if n < 10 then [digit n]
  else if n < 100 then [digit (n / 10), digit n]
  else [digit (n / 100), digit (n / 10), digit n]

/-- The address as four decimal numbers. -/
def dotted (a : Nat) : List Byte :=
  dotted_part (a / 2 ^ 24) ++ 46 :: (dotted_part (a / 2 ^ 16 % 2 ^ 8) ++ 46 ::
    (dotted_part (a / 2 ^ 8 % 2 ^ 8) ++ 46 :: dotted_part (a % 2 ^ 8)))

theorem digit_char {d : Nat} (hd : d < 10) :
    isdigit (48 + UInt8.ofNat d) = true ∧ digit 10 (48 + UInt8.ofNat d) = some d ∧
      (48 + UInt8.ofNat d = 48 → d = 0) := by
  have hall : ∀ d : Fin 10, isdigit (48 + UInt8.ofNat d) = true ∧
      digit 10 (48 + UInt8.ofNat d) = some d.val ∧ (48 + UInt8.ofNat d = 48 → d.val = 0) := by
    decide
  exact hall ⟨d, hd⟩

/-- A part is a row of digits without leading zeros. -/
theorem dotted_part_spec {n : Nat} (hn : n < 256) :
    dotted_part n ≠ [] ∧ (∀ c ∈ dotted_part n, isdigit c) ∧ digits 10 (dotted_part n) = n ∧
      ((dotted_part n).head? = some 48 → n = 0) := by
  have hchar (m : Nat) := digit_char (Nat.mod_lt m (show 0 < 10 by decide))
  have hval (m : Nat) : (digit 10 (48 + UInt8.ofNat (m % 10))).getD 0 = m % 10 := by
    rw [(hchar m).2.1]
    rfl
  unfold dotted_part digits
  dsimp only
  split_ifs with h10 h100
  · refine ⟨by simp, by simpa using (hchar n).1, ?_, fun h => ?_⟩
    · simp only [List.foldl_cons, List.foldl_nil, hval]
      omega
    · have := (hchar n).2.2 (Option.some.inj h)
      omega
  · refine ⟨by simp, by simpa using ⟨(hchar (n / 10)).1, (hchar n).1⟩, ?_, fun h => ?_⟩
    · simp only [List.foldl_cons, List.foldl_nil, hval]
      omega
    · have := (hchar (n / 10)).2.2 (Option.some.inj h)
      omega
  · refine ⟨by simp, by simpa using ⟨(hchar (n / 100)).1, (hchar (n / 10)).1, (hchar n).1⟩, ?_,
      fun h => ?_⟩
    · simp only [List.foldl_cons, List.foldl_nil, hval]
      omega
    · have := (hchar (n / 100)).2.2 (Option.some.inj h)
      omega

/-- What a row of digits is followed by ends it in a smaller base too. -/
theorem ends_numeral_split {base larger : Nat} (hb : base ≤ larger) {rest : List Byte}
    (hrest : EndsNumeral larger rest) : (rest.takeWhile fun c => (digit base c).isSome) = [] ∧
      (rest.dropWhile fun c => (digit base c).isSome) = rest := by
  cases rest with
  | nil => exact ⟨rfl, rfl⟩
  | cons c rest =>
    have hstop : ¬ (digit base c).isSome := by
      intro h
      have := digit_of_le hb h
      rw [(hrest c rfl).1] at this
      cases this
    exact ⟨List.takeWhile_cons_of_neg hstop, List.dropWhile_cons_of_neg hstop⟩

/-- A part without a leading zero is read in base 10. The part that is zero is read in base 8. -/
theorem scan_number_part {n : Nat} (hn : n < 256) {rest : List Byte} (hrest : EndsNumeral 10 rest) :
    scan_number (dotted_part n ++ rest) = (n, rest) := by
  obtain ⟨hne, hdigits, hval, hzero⟩ := dotted_part_spec hn
  by_cases h0 : n = 0
  · subst h0
    have hbase : number_base (48 :: rest) = (8, 48 :: rest) := by
      unfold number_base
      cases rest with
      | nil => rfl
      | cons x rest =>
        cases rest with
        | nil => rfl
        | cons c rest =>
          apply if_neg
          intro h
          exact (hrest x rfl).2 h.1
    have hfirst : (digit 8 48).isSome = true := by decide
    obtain ⟨htake, hdrop⟩ := ends_numeral_split (show 8 ≤ 10 by decide) hrest
    change scan_number (48 :: rest) = _
    unfold scan_number
    rw [hbase]
    dsimp only
    rw [List.takeWhile_cons, List.dropWhile_cons, if_pos hfirst, if_pos hfirst, htake, hdrop]
    rfl
  · obtain ⟨c, t, hc⟩ := List.exists_cons_of_ne_nil hne
    have hc48 : c ≠ 48 := by
      intro heq
      exact h0 (hzero (by rw [hc, heq]; rfl))
    have hbase : number_base (dotted_part n ++ rest) = (10, dotted_part n ++ rest) := by
      rw [hc]
      unfold number_base
      split <;> simp_all
    have hten : ∀ c ∈ dotted_part n, (digit 10 c).isSome := by
      intro c hc
      rw [digit_ten]
      exact hdigits c hc
    obtain ⟨htake, hdrop⟩ := ends_numeral_split (Nat.le_refl 10) hrest
    unfold scan_number
    rw [hbase]
    dsimp only
    rw [List.takeWhile_append_of_pos hten, List.dropWhile_append_of_pos hten, htake, hdrop,
      List.append_nil, hval, Nat.min_eq_left (by unfold ULONG_MAX; omega)]

theorem inet_parts_dot {n : Nat} (hn : n < 256) (left res : Nat) (rest : List Byte) :
    inet_parts (left + 1) res (dotted_part n ++ 46 :: rest) =
      inet_parts left (res * 256 + n) rest := by
  obtain ⟨hne, hdigits, -⟩ := dotted_part_spec hn
  obtain ⟨c, t, hc⟩ := List.exists_cons_of_ne_nil hne
  have hscan : scan_number (dotted_part n ++ 46 :: rest) = (n, 46 :: rest) := by
    apply scan_number_part hn
    intro c hc
    obtain rfl := Option.some.inj hc
    decide
  have hfirst : ¬ isdigit ((dotted_part n ++ 46 :: rest).headD 0) = false := by
    rw [Bool.not_eq_false, hc]
    exact hdigits c (by rw [hc]; exact List.mem_cons_self ..)
  conv_lhs => unfold inet_parts
  rw [if_neg hfirst, hscan]
  change (if 255 < n then none else _) = _
  rw [if_neg (by omega)]

theorem inet_parts_last {n : Nat} (hn : n < 256) (res : Nat) :
    inet_parts 0 res (dotted_part n) = some (res * 256 + n) := by
  obtain ⟨hne, hdigits, -⟩ := dotted_part_spec hn
  obtain ⟨c, t, hc⟩ := List.exists_cons_of_ne_nil hne
  have hends : EndsNumeral 10 [] := by
    intro c hc
    cases hc
  have hscan := scan_number_part hn hends
  rw [List.append_nil] at hscan
  have hfirst : ¬ isdigit ((dotted_part n).headD 0) = false := by
    rw [Bool.not_eq_false, hc]
    exact hdigits c (by rw [hc]; exact List.mem_cons_self ..)
  unfold inet_parts
  rw [if_neg hfirst, hscan]
  dsimp only
  rw [if_neg (by simp), if_neg (by omega), Nat.zero_add, Nat.pow_one]

theorem inet_aton_dotted {a : Nat} (ha : a < 2 ^ 32) : inet_aton (dotted a) = some (htonl a) := by
  unfold inet_aton dotted
  rw [inet_parts_dot (by omega), inet_parts_dot (by omega), inet_parts_dot (by omega),
    inet_parts_last (by omega), Option.map_some]
  congr 2
  omega

/-! ## The order of the addresses -/

theorem exists_octets {a : Nat} (ha : a < 2 ^ 32) :
    ∃ w x y z, w < 256 ∧ x < 256 ∧ y < 256 ∧ z < 256 ∧
    a = w * 2 ^ 24 + x * 2 ^ 16 + y * 2 ^ 8 + z :=
  ⟨a / 2 ^ 24, a / 2 ^ 16 % 2 ^ 8, a / 2 ^ 8 % 2 ^ 8,
    a % 2 ^ 8, by omega, by omega, by omega, by omega, by omega⟩

theorem htonl_octets {w x y z : Nat} (hw : w < 256) (hx : x < 256) (hy : y < 256) (hz : z < 256) :
    htonl (w * 2 ^ 24 + x * 2 ^ 16 + y * 2 ^ 8 + z) = z * 2 ^ 24 + y * 2 ^ 16 + x * 2 ^ 8 + w := by
  have h0 : (w * 2 ^ 24 + x * 2 ^ 16 + y * 2 ^ 8 + z) % 2 ^ 8 = z := by omega
  have h1 : (w * 2 ^ 24 + x * 2 ^ 16 + y * 2 ^ 8 + z) / 2 ^ 8 % 2 ^ 8 = y := by omega
  have h2 : (w * 2 ^ 24 + x * 2 ^ 16 + y * 2 ^ 8 + z) / 2 ^ 16 % 2 ^ 8 = x := by omega
  have h3 : (w * 2 ^ 24 + x * 2 ^ 16 + y * 2 ^ 8 + z) / 2 ^ 24 % 2 ^ 8 = w := by omega
  unfold htonl
  rw [h0, h1, h2, h3]

theorem htonl_htonl {a : Nat} (ha : a < 2 ^ 32) : htonl (htonl a) = a := by
  obtain ⟨w, x, y, z, hw, hx, hy, hz, rfl⟩ := exists_octets ha
  rw [htonl_octets hw hx hy hz, htonl_octets hz hy hx hw]

theorem htonl_inj {a b : Nat} (ha : a < 2 ^ 32) (hb : b < 2 ^ 32) (h : htonl a = htonl b) :
    a = b := by
  rw [← htonl_htonl ha, h, htonl_htonl hb]

/-- The last octet goes up, and nothing is carried out of it. -/
theorem htonl_count {a : Nat} (ha : a < 2 ^ 32) :
    (htonl a + htonl 1) % 2 ^ 32 = htonl (a / 2 ^ 8 * 2 ^ 8 + (a + 1) % 2 ^ 8) := by
  obtain ⟨w, x, y, z, hw, hx, hy, hz, rfl⟩ := exists_octets ha
  have hone : htonl 1 = 2 ^ 24 := by decide
  have hnext : (w * 2 ^ 24 + x * 2 ^ 16 + y * 2 ^ 8 + z) / 2 ^ 8 * 2 ^ 8 +
      (w * 2 ^ 24 + x * 2 ^ 16 + y * 2 ^ 8 + z + 1) % 2 ^ 8 =
        w * 2 ^ 24 + x * 2 ^ 16 + y * 2 ^ 8 + (z + 1) % 256 := by
    omega
  rw [hnext, htonl_octets hw hx hy hz, htonl_octets hw hx hy (Nat.mod_lt _ (by decide)), hone]
  omega

/-! ## The range -/

/-- The addresses from `a` on. -/
def addresses (a n : Nat) : List LocalAddr :=
  (List.range' a n).map fun a => ⟨htonl a, Ports.core_add_address⟩

/-- Inside of one octet the loop counts up to the end. -/
theorem range_loop_spec {a n : Nat} (hlt : a + n < 2 ^ 32) (hoctet : a / 2 ^ 8 = (a + n) / 2 ^ 8)
    (myaddrs : List LocalAddr) {fuel : Nat} (hfuel : n < fuel) :
    range_loop (htonl (a + n)) fuel (htonl a) myaddrs = some (myaddrs ++ addresses a (n + 1)) := by
  induction n generalizing a fuel myaddrs with
  | zero =>
    obtain ⟨fuel, rfl⟩ := Nat.exists_eq_succ_of_ne_zero (Nat.ne_zero_of_lt hfuel)
    unfold range_loop
    rw [if_neg (by simp)]
    rfl
  | succ n ih =>
    obtain ⟨fuel, rfl⟩ := Nat.exists_eq_succ_of_ne_zero (Nat.ne_zero_of_lt hfuel)
    have hne : htonl a ≠ htonl (a + (n + 1)) := by
      intro heq
      have := htonl_inj (by omega) hlt heq
      omega
    have hstep : a / 2 ^ 8 * 2 ^ 8 + (a + 1) % 2 ^ 8 = a + 1 := by omega
    have hrest := ih (a := a + 1) (by omega) (by omega) (core_add_address myaddrs (htonl a))
      (Nat.lt_of_succ_lt_succ hfuel)
    unfold range_loop
    rw [if_pos hne, htonl_count (by omega), hstep]
    rw [Nat.add_right_comm] at hrest
    rw [← Nat.add_assoc, hrest]
    simp [addresses, core_add_address, List.range'_succ]

/-- From another octet the end is never reached. -/
theorem range_loop_never {a b : Nat} (ha : a < 2 ^ 32) (hb : b < 2 ^ 32)
    (hoctet : a / 2 ^ 8 ≠ b / 2 ^ 8) (fuel : Nat) (myaddrs : List LocalAddr) :
    range_loop (htonl b) fuel (htonl a) myaddrs = none := by
  induction fuel generalizing a myaddrs with
  | zero => rfl
  | succ fuel ih =>
    have hne : htonl a ≠ htonl b := by
      intro heq
      exact hoctet (by rw [htonl_inj ha hb heq])
    unfold range_loop
    rw [if_pos hne, htonl_count ha]
    exact ih (by omega) (by omega) _

/-- `A-B`. -/
def range_text (a b : Nat) : List Byte := dotted a ++ 45 :: dotted b

/-- There is no dash inside of an address. -/
theorem dash_not_mem_dotted {a : Nat} (ha : a < 2 ^ 32) : 45 ∉ dotted a := by
  have hpart : ∀ n < 256, (45 : Byte) ∉ dotted_part n := by
    intro n hn hmem
    have := (dotted_part_spec hn).2.1 45 hmem
    cases this
  unfold dotted
  simp only [List.mem_append, List.mem_cons, not_or]
  exact ⟨hpart _ (by omega), by decide, hpart _ (by omega), by decide,
    hpart _ (by omega), by decide, hpart _ (by omega)⟩

theorem core_add_addresses_range {gethostbyname : List Byte → Option (Option Nat)} {a b : Nat}
    (ha : a < 2 ^ 32) (hb : b < 2 ^ 32) (hname : gethostbyname (range_text a b) = none) (fuel : Nat)
    (myaddrs : List LocalAddr) :
    core_add_addresses gethostbyname fuel myaddrs (range_text a b) =
      (range_loop (htonl b) fuel (htonl a) myaddrs).map .added := by
  have hplain : ∀ c ∈ dotted a, (c ≠ 45 : Bool) = true := by
    intro c hc
    rw [decide_eq_true_eq]
    rintro rfl
    exact dash_not_mem_dotted ha hc
  have hstart : (range_text a b).takeWhile (· ≠ 45) = dotted a := by
    unfold range_text
    rw [List.takeWhile_append_of_pos hplain, List.takeWhile_cons_of_neg (by decide),
      List.append_nil]
  have hend : ((range_text a b).dropWhile (· ≠ 45)).tail = dotted b := by
    unfold range_text
    rw [List.dropWhile_append_of_pos hplain, List.dropWhile_cons_of_neg (by decide)]
    rfl
  have hdash : 45 ∈ range_text a b := List.mem_append_right _ (List.mem_cons_self ..)
  unfold core_add_addresses
  rw [hname]
  dsimp only
  rw [if_pos hdash, hstart, hend, inet_aton_dotted ha, inet_aton_dotted hb]

/-- The carry out of the last octet is lost. -/
theorem range_expands_exactly_iff (gethostbyname : List Byte → Option (Option Nat))
    (myaddrs : List LocalAddr) {a b : Nat} (hle : a ≤ b) (hb : b < 2 ^ 32)
    (hname : gethostbyname (range_text a b) = none) :
    (∃ fuel, core_add_addresses gethostbyname fuel myaddrs (range_text a b) =
      some (.added (myaddrs ++ addresses a (b - a + 1)))) ↔ a / 2 ^ 8 = b / 2 ^ 8 := by
  have ha : a < 2 ^ 32 := Nat.lt_of_le_of_lt hle hb
  constructor
  · rintro ⟨fuel, hrun⟩
    by_contra hoctet
    rw [core_add_addresses_range ha hb hname, range_loop_never ha hb hoctet] at hrun
    cases hrun
  · intro hoctet
    obtain ⟨n, rfl⟩ := Nat.exists_eq_add_of_le hle
    refine ⟨n + 1, ?_⟩
    rw [core_add_addresses_range ha hb hname,
      range_loop_spec hb hoctet myaddrs (Nat.lt_succ_self n), Nat.add_sub_cancel_left]
    rfl

theorem range_expands_exactly_iff_two :
    (∃ fuel, core_add_addresses (fun _ => none) fuel [] (range_text 0x0a000001 0x0a000002) =
      some (.added ([] ++ addresses 0x0a000001 2))) ↔ 0x0a000001 / 2 ^ 8 = 0x0a000002 / 2 ^ 8 :=
  range_expands_exactly_iff _ [] (by decide) (by decide) rfl

/-- `10.0.0.255-10.0.1.0`. -/
theorem a_range_over_two_octets_never_ends :
    ¬ ∃ fuel, core_add_addresses (fun _ => none) fuel [] (range_text 0x0a0000ff 0x0a000100) =
      some (.added ([] ++ addresses 0x0a0000ff 2)) := by
  rintro ⟨fuel, hrun⟩
  rw [core_add_addresses_range (by decide) (by decide) rfl,
    range_loop_never (by decide) (by decide) (by decide)]
    at hrun
  cases hrun

end Httperf.AddressRange
