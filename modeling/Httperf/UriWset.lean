-- The working set of `--wset` (`uri_wset.c`). The probabilities are exact, and the counters are
-- kept in 32 bits.
import Httperf.Clib
import Httperf.Lib.Carry

namespace Httperf.UriWset

open Lib.Carry

def MAX_URI_LEN : Nat := 128

/-- The options `--uri`, `--wset` and `--client`. -/
structure Param where
  uri : List Byte
  num_files : Nat
  target_miss_rate : ℚ
  client_id : Nat
  num_clients : Nat

/-- The globals that a call changes. -/
structure State where
  miss_prob : ℚ
  file_num : Nat

inductive Stop where
  | exit
  | outside
  deriving DecidableEq

/-! ## The generator -/

/-- The prefix that `init` leaves. The byte in front of `param.uri` is read when that is empty, and
a length below zero is `SIZE_MAX`. -/
def init (before : Byte) (uri : List Byte) : Option (List Byte) :=
  if uri.getLastD before = 47 then (if uri = [] then none else some uri.tail) else some uri

/-- The loop of the digits, with the room that is left in front of them. -/
def digit_loop (num_files : Nat) : Nat → Nat → Nat → List Byte → Option (Nat × List Byte)
  | room, j, n, text =>
    if j < num_files then
      match room with
      | room + 2 =>
        digit_loop num_files room (j * 10 % 2 ^ 32) (n / 10)
          (47 :: UInt8.ofNat (48 + n % 10) :: text)
      | _ => none
    else some (room, text)

/-- What a miss does to `file_num`. -/
def next_file (num_files num_clients file_num : Nat) : Nat :=
  let file_num := (file_num + num_clients) % 2 ^ 32
  if file_num ≥ num_files then file_num - num_files else file_num

/-- The hit or miss at the beginning of `set_uri`. -/
def advance (param : Param) (st : State) : State :=
  let miss_prob := st.miss_prob + param.target_miss_rate
  if miss_prob ≥ 1 then ⟨miss_prob - 1, next_file param.num_files param.num_clients st.file_num⟩
  else ⟨miss_prob, st.file_num⟩

/-- The text ends in a NUL, which is not counted. -/
def set_uri (param : Param) (pre : List Byte) (st : State) : Except Stop (State × List Byte) :=
  let st := advance param st
  match digit_loop param.num_files (MAX_URI_LEN - 6) 1 st.file_num (bytes ".html" ++ [0]) with
  | none => .error .outside
  | some (room, text) =>
    if room < pre.length then .error .exit else .ok (st, (pre ++ text).dropLast)

/-- The state behind `n` calls, with the URI of the last of them. -/
def calls (param : Param) (pre : List Byte) (p0 : ℚ) : Nat → Except Stop (State × List Byte)
  | 0 => .ok (⟨p0, param.client_id⟩, [])
  | n + 1 => do
    let (st, _) ← calls param pre p0 n
    set_uri param pre st

/-- `init`, and `n` calls. -/
def run (before : Byte) (param : Param) (p0 : ℚ) (n : Nat) : Except Stop (State × List Byte) :=
  match init before param.uri with
  | none => .error .outside
  | some pre => calls param pre p0 n

/-! ## The manual -/

/-- The last `k` digits of a number, each behind a slash. -/
def path : Nat → Nat → List Byte
  | 0, _ => []
  | k + 1, m => 47 :: UInt8.ofNat (48 + m / 10 ^ k % 10) :: path k m

/-- As many digits as `N - 1` has. -/
def Param.num_digits (param : Param) : Nat := Nat.log 10 (param.num_files - 1) + 1

/-- The slash behind the prefix is there already when the prefix ends in one. -/
def Param.uri_prefix (param : Param) : List Byte :=
  if param.uri.getLast? = some 47 then param.uri.dropLast else param.uri

def Param.documented_uri (param : Param) (m : Nat) : List Byte :=
  param.uri_prefix ++ path param.num_digits m ++ bytes ".html"

/-- The number of the file that call `n` goes to. -/
def Param.file_number (param : Param) (p0 : ℚ) (n : Nat) : Nat :=
  (param.client_id + param.num_clients * ⌊p0 + n * param.target_miss_rate⌋₊) % param.num_files

/-- The URIs have room in the buffer, with their NUL. -/
def Param.Fits (param : Param) : Prop :=
  param.uri_prefix.length + 2 * param.num_digits + 6 ≤ MAX_URI_LEN

/-- The options, as `main` checks them, for one file or more. -/
structure Param.Accepted (param : Param) : Prop where
  files : 1 ≤ param.num_files ∧ param.num_files < 2 ^ 32
  rate : 0 ≤ param.target_miss_rate ∧ param.target_miss_rate ≤ 1
  client : param.client_id < param.num_clients ∧ param.num_clients < 2 ^ 32

/-- Every call visits the file it is documented to visit, and its URI tells it from the others. If
the URIs do not fit, the program exits. -/
structure AsDocumented (before : Byte) (param : Param) (p0 : ℚ) : Prop where
  visits : param.Fits → ∀ n ≥ 1, ∃ st,
    run before param p0 n = .ok (st, param.documented_uri (param.file_number p0 n)) ∧
      st.file_num = param.file_number p0 n
  exits : ¬ param.Fits → ∀ n ≥ 1, run before param p0 n = .error .exit
  below : ∀ n ≥ 1, ∀ st uri, run before param p0 n = .ok (st, uri) → st.file_num < param.num_files
  distinct : ∀ n ≥ 1, ∀ n' ≥ 1, ∀ st st' uri, run before param p0 n = .ok (st, uri) →
    run before param p0 n' = .ok (st', uri) → st.file_num = st'.file_num

/-! ## The digits -/

theorem path_length (k m : Nat) : (path k m).length = 2 * k := by
  induction k with
  | zero => rfl
  | succ k ih =>
    change (path k m).length + 1 + 1 = 2 * (k + 1)
    omega

theorem path_inj {k m m' : Nat} (h : path k m = path k m') : m % 10 ^ k = m' % 10 ^ k := by
  induction k with
  | zero => rw [Nat.pow_zero, Nat.mod_one, Nat.mod_one]
  | succ k ih =>
    obtain ⟨hfirst, hrest⟩ := List.cons.inj (List.cons.inj h).2
    have hdigit : m / 10 ^ k % 10 = m' / 10 ^ k % 10 := by
      have heq := congrArg UInt8.toNat hfirst
      rw [UInt8.toNat_ofNat', UInt8.toNat_ofNat'] at heq
      omega
    rw [Nat.mod_pow_succ, Nat.mod_pow_succ, ih hrest, hdigit]

/-- `k` is the number of rounds of the loop. -/
def Rounds (num_files k : Nat) : Prop :=
  (∀ i < k, 10 ^ i % 2 ^ 32 < num_files) ∧ num_files ≤ 10 ^ k % 2 ^ 32

/-- A round writes a digit. -/
theorem digit_loop_round {num_files k : Nat} (hk : ∀ i < k, 10 ^ i % 2 ^ 32 < num_files)
    (room n : Nat) (text : List Byte) : digit_loop num_files (room + 2 * k) 1 n text =
      digit_loop num_files room (10 ^ k % 2 ^ 32) (n / 10 ^ k) (path k n ++ text) := by
  induction k generalizing room with
  | zero =>
    rw [Nat.pow_zero, Nat.div_one]
    rfl
  | succ k ih =>
    have hroom : room + 2 * (k + 1) = room + 2 + 2 * k := by omega
    have hpow : 10 ^ k % 2 ^ 32 * 10 % 2 ^ 32 = 10 ^ (k + 1) % 2 ^ 32 := by
      have hsucc : 10 ^ (k + 1) = 10 ^ k * 10 := Nat.pow_succ ..
      omega
    have hdiv : n / 10 ^ k / 10 = n / 10 ^ (k + 1) := by
      rw [Nat.div_div_eq_div_mul, Nat.pow_succ]
    rw [hroom, ih (fun i hi => hk i (by omega))]
    conv_lhs => unfold digit_loop
    rw [if_pos (hk k (Nat.lt_succ_self k))]
    dsimp only
    rw [hpow, hdiv]
    rfl

theorem digit_loop_rounds {num_files k room : Nat} (hk : Rounds num_files k) (hroom : 2 * k ≤ room)
    (n : Nat) (text : List Byte) : digit_loop num_files room 1 n text =
      some (room - 2 * k, path k n ++ text) := by
  obtain ⟨left, rfl⟩ := Nat.exists_eq_add_of_le' hroom
  rw [digit_loop_round hk.1, Nat.add_sub_cancel]
  unfold digit_loop
  rw [if_neg (Nat.not_lt.mpr hk.2)]

/-- Without an end of the rounds the loop leaves the buffer. -/
theorem digit_loop_outside {num_files room : Nat} (hk : ¬ ∃ k, Rounds num_files k) (n : Nat)
    (text : List Byte) :
    digit_loop num_files room 1 n text = none := by
  have hall (i : Nat) : 10 ^ i % 2 ^ 32 < num_files := by
    induction i using Nat.strong_induction_on with
    | _ i ih =>
      by_contra hle
      exact hk ⟨i, ih, Nat.not_lt.mp hle⟩
  have hroom : room = room % 2 + 2 * (room / 2) := (Nat.mod_add_div room 2).symm
  rw [hroom, digit_loop_round fun i _ => hall i]
  unfold digit_loop
  rw [if_pos (hall _)]
  rcases Nat.mod_two_eq_zero_or_one room with h | h <;> rw [h]

/-- The powers of ten leave the 32 bits. The largest of them that is not an own power is that of
23. -/
theorem exists_rounds_iff {num_files : Nat} :
    (∃ k, Rounds num_files k) ↔ num_files ≤ 4135583744 := by
  have hmax : ∀ k < 32, 10 ^ k % 2 ^ 32 ≤ 4135583744 := by decide
  constructor
  · rintro ⟨k, -, hk⟩
    by_cases hlt : k < 32
    · exact hk.trans (hmax k hlt)
    · have hzero : 10 ^ k % 2 ^ 32 = 0 := by
        apply Nat.mod_eq_zero_of_dvd
        apply Dvd.dvd.trans (Nat.pow_dvd_pow 2 (Nat.not_lt.mp hlt))
        exact pow_dvd_pow_of_dvd (by decide) k
      omega
  · intro hle
    have hsome : ∃ k, num_files ≤ 10 ^ k % 2 ^ 32 := ⟨23, hle⟩
    exact ⟨Nat.find hsome, fun i hi => Nat.not_le.mp (Nat.find_min hsome hi), Nat.find_spec hsome⟩

theorem Rounds.le {num_files k : Nat} (hk : Rounds num_files k) : k ≤ 23 := by
  by_contra hlt
  have hbelow := hk.1 23 (Nat.not_le.mp hlt)
  have hle := exists_rounds_iff.mp ⟨k, hk⟩
  exact absurd hle (Nat.not_le.mpr hbelow)

section
variable {param : Param}

theorem num_digits_le (hfiles : param.num_files < 2 ^ 32) : param.num_digits ≤ 10 := by
  have hlog : Nat.log 10 (param.num_files - 1) < 10 := Nat.log_lt_of_lt_pow' (by decide) (by omega)
  exact hlog

theorem num_files_le (param : Param) : param.num_files ≤ 10 ^ param.num_digits := by
  have := Nat.lt_pow_succ_log_self (show 1 < 10 by decide) (param.num_files - 1)
  unfold Param.num_digits
  omega

/-- Below the number of the digits the powers of ten are below the number of the files. -/
theorem pow_lt_num_files (hfiles : 2 ≤ param.num_files) {i : Nat} (hi : i < param.num_digits) :
    10 ^ i < param.num_files := by
  have hle : 10 ^ i ≤ param.num_files - 1 := by
    apply Nat.pow_le_of_le_log (by omega)
    exact Nat.le_of_lt_succ hi
  omega

theorem num_digits_le_rounds (hfiles : 2 ≤ param.num_files) {k : Nat}
    (hk : Rounds param.num_files k) :
    param.num_digits ≤ k := by
  by_contra hlt
  have hpow := pow_lt_num_files hfiles (Nat.not_le.mp hlt)
  have hmod := Nat.mod_le (10 ^ k) (2 ^ 32)
  exact absurd hk.2 (by omega)

/-- The loop writes as many digits as it should, up to the first power of ten that the 32 bits do
not hold. -/
theorem rounds_num_digits_iff (hfiles : param.num_files < 2 ^ 32) :
    Rounds param.num_files param.num_digits ↔
    2 ≤ param.num_files ∧ param.num_files ≤ 1410065408 := by
  have hdigits := num_digits_le hfiles
  have hten : 10 ^ 10 % 2 ^ 32 = 1410065408 := by decide
  have hsmall : param.num_digits ≤ 9 → 10 ^ param.num_digits ≤ 10 ^ 9 :=
    Nat.pow_le_pow_right (by decide)
  constructor
  · intro hk
    refine ⟨hk.1 0 (Nat.succ_pos _), ?_⟩
    have hlast := hk.2
    by_cases h9 : param.num_digits ≤ 9
    · have := hsmall h9
      have := Nat.mod_le (10 ^ param.num_digits) (2 ^ 32)
      omega
    · rwa [show param.num_digits = 10 by omega, hten] at hlast
  · rintro ⟨h2, hle⟩
    constructor
    · intro i hi
      exact Nat.lt_of_le_of_lt (Nat.mod_le ..) (pow_lt_num_files h2 hi)
    · by_cases h9 : param.num_digits ≤ 9
      · have := hsmall h9
        rw [Nat.mod_eq_of_lt (by omega)]
        exact num_files_le param
      · rwa [show param.num_digits = 10 by omega, hten]

/-! ## The prefix -/

/-- The first byte can stand for the last one. -/
def PrefixKept (before : Byte) (uri : List Byte) : Prop :=
  if uri = [] then before ≠ 47 else uri.getLast? = some 47 → ∀ c ∈ uri, c = 47

theorem all_eq_of_tail_eq_dropLast {α : Type} {l : List α} (h : l.tail = l.dropLast) :
    ∀ c ∈ l, some c = l.getLast? := by
  induction l with
  | nil => simp
  | cons a t ih =>
    cases t with
    | nil => simp
    | cons b t =>
      obtain ⟨hab, ht⟩ := List.cons.inj h
      have hall := ih ht
      intro c hc
      rw [List.getLast?_cons_cons]
      rcases List.mem_cons.mp hc with rfl | hc
      · rw [← hab]
        exact hall b (List.mem_cons_self ..)
      · exact hall c hc

theorem init_eq_iff (before : Byte) (param : Param) :
    init before param.uri = some param.uri_prefix ↔ PrefixKept before param.uri := by
  unfold init Param.uri_prefix PrefixKept
  rcases List.eq_nil_or_concat param.uri with hnil | ⟨front, last, huri⟩
  · rw [hnil]
    by_cases hb : before = 47 <;> simp [hb]
  · rw [huri, List.concat_eq_append]
    simp only [List.getLastD_concat, List.getLast?_concat, Option.some.injEq,
      List.append_eq_nil_iff, List.cons_ne_nil, and_false, if_false, List.dropLast_concat]
    by_cases hlast : last = 47
    · simp only [hlast, if_true, Option.some.injEq, true_implies]
      constructor
      · intro h c hc
        have := all_eq_of_tail_eq_dropLast (h.trans List.dropLast_concat.symm) c hc
        simpa using this
      · intro h
        have hrep : front ++ [47] = List.replicate (front.length + 1) 47 := by
          rw [List.eq_replicate_iff]
          exact ⟨by simp, h⟩
        have hfront : front = List.replicate front.length 47 := by
          rw [List.eq_replicate_iff]
          exact ⟨rfl, fun c hc => h c (List.mem_append_left _ hc)⟩
        rw [hrep, List.replicate_succ, List.tail_cons]
        exact hfront.symm
    · simp [hlast]

/-- A byte is taken off where one is to be taken off. -/
theorem init_length {before : Byte} {pre : List Byte} (h : init before param.uri = some pre) :
    pre.length = param.uri_prefix.length := by
  unfold init at h
  unfold Param.uri_prefix
  rcases List.eq_nil_or_concat param.uri with hnil | ⟨front, last, huri⟩
  · rw [hnil] at h ⊢
    by_cases hb : before = 47 <;> simp [hb] at h ⊢
    exact h
  · rw [huri, List.concat_eq_append] at h ⊢
    by_cases hlast : last = 47 <;> simp [hlast] at h ⊢ <;> simp [← h]

theorem init_ne_none (before : Byte) (hfits : ¬ param.Fits) (hfiles : param.num_files < 2 ^ 32) :
    ∃ pre, init before param.uri = some pre := by
  have hne : param.uri ≠ [] := by
    intro hnil
    have hdigits := num_digits_le hfiles
    apply hfits
    unfold Param.Fits Param.uri_prefix MAX_URI_LEN
    rw [hnil, if_neg (by simp), List.length_nil]
    omega
  unfold init
  rw [if_neg hne]
  split_ifs <;> exact ⟨_, rfl⟩

/-! ## The number of the file -/

theorem next_file_up {num_files num_clients file_num : Nat} (hsum : file_num + num_clients < 2 ^ 32)
    (hfiles : num_files ≤ file_num + num_clients) :
    next_file num_files num_clients file_num = file_num + num_clients - num_files := by
  unfold next_file
  dsimp only
  rw [Nat.mod_eq_of_lt hsum, if_pos hfiles]

/-- The carry out of the 32 bits is lost. -/
theorem next_file_down {num_files num_clients file_num : Nat}
    (hsum : 2 ^ 32 ≤ file_num + num_clients) (hclients : num_clients < 2 ^ 32)
    (hfile : file_num < num_files) (hfiles : num_files ≤ 2 ^ 32) :
    next_file num_files num_clients file_num = file_num + num_clients - 2 ^ 32 := by
  unfold next_file
  dsimp only
  rw [Nat.mod_eq_sub_mod hsum, Nat.mod_eq_of_lt (by omega), if_neg (by omega)]

/-- With no more clients than files the sum is cut back in one step. -/
theorem next_file_eq {num_files num_clients file_num : Nat} (hfiles : 2 * num_files ≤ 2 ^ 32)
    (hfile : file_num < num_files) (hclients : num_clients ≤ num_files) :
    next_file num_files num_clients file_num = (file_num + num_clients) % num_files := by
  have hsum : file_num + num_clients < 2 ^ 32 := by omega
  by_cases h : num_files ≤ file_num + num_clients
  · rw [next_file_up hsum h, Nat.mod_eq_sub_mod h, Nat.mod_eq_of_lt (by omega)]
  · unfold next_file
    dsimp only
    rw [Nat.mod_eq_of_lt hsum, if_neg h, Nat.mod_eq_of_lt (Nat.not_le.mp h)]

theorem next_file_iterate {num_files num_clients client_id : Nat} (hfiles : 2 * num_files ≤ 2 ^ 32)
    (hid : client_id < num_files) (hclients : num_clients ≤ num_files) (m : Nat) :
    (next_file num_files num_clients)^[m] client_id =
      (client_id + num_clients * m) % num_files := by
  induction m with
  | zero => exact (Nat.mod_eq_of_lt hid).symm
  | succ m ih =>
    rw [Function.iterate_succ_apply', ih, next_file_eq hfiles (Nat.mod_lt _ (by omega)) hclients,
      Nat.mod_add_mod, Nat.mul_succ, Nat.add_assoc]

/-- A number that keeps going up or keeps going down leaves the working set. With more clients than
files it does one of the two: once it has gone up without leaving there is no room for a carry out
of the 32 bits. -/
theorem next_file_leaves {num_files num_clients : Nat} (file_num : Nat)
    (hfiles : 3 * num_files ≤ 2 ^ 32) (hclients : num_files < num_clients ∧ num_clients < 2 ^ 32) :
    ∃ m, num_files ≤ (next_file num_files num_clients)^[m] file_num := by
  by_contra hnone
  simp only [not_exists, Nat.not_le] at hnone
  have hsucc (m : Nat) : (next_file num_files num_clients)^[m + 1] file_num =
      next_file num_files num_clients ((next_file num_files num_clients)^[m] file_num) :=
    Function.iterate_succ_apply' ..
  by_cases hup : ∃ m, (next_file num_files num_clients)^[m] file_num + num_clients < 2 ^ 32
  · obtain ⟨m0, hm0⟩ := hup
    have hcase : num_clients < 2 * num_files := by
      have hnext := hnone (m0 + 1)
      rw [hsucc, next_file_up hm0 (by omega)] at hnext
      omega
    have hgrow (m : Nat) : m ≤ (next_file num_files num_clients)^[m] file_num := by
      induction m with
      | zero => exact Nat.zero_le _
      | succ m ih =>
        have hlt := hnone m
        rw [hsucc, next_file_up (by omega) (by omega)]
        omega
    exact absurd (hgrow num_files) (Nat.not_le.mpr (hnone num_files))
  · simp only [not_exists, Nat.not_lt] at hup
    have hfall (m : Nat) : (next_file num_files num_clients)^[m] file_num + m ≤ file_num := by
      induction m with
      | zero => exact Nat.le_refl _
      | succ m ih =>
        have hlt := hnone m
        have hover := hup m
        rw [hsucc, next_file_down hover hclients.2 hlt (by omega)]
        omega
    have := hfall (file_num + 1)
    omega

/-- `advance` from the beginning. -/
theorem advance_iterate {p0 : ℚ} (haccepted : param.Accepted) (hp0 : 0 ≤ p0 ∧ p0 < 1) (n : Nat) :
    (advance param)^[n] ⟨p0, param.client_id⟩ =
      ⟨Int.fract (p0 + n * param.target_miss_rate),
        (next_file param.num_files param.num_clients)^[⌊p0 + n * param.target_miss_rate⌋₊]
          param.client_id⟩ := by
  induction n with
  | zero =>
    rw [Nat.cast_zero, zero_mul, add_zero, Nat.floor_eq_zero.mpr hp0.2, Int.fract_eq_self.mpr hp0]
    rfl
  | succ n ih =>
    have hrate := haccepted.rate
    have hnonneg : 0 ≤ p0 + n * param.target_miss_rate := by
      have := mul_nonneg (Nat.cast_nonneg (α := ℚ) n) hrate.1
      linarith
    have hsum : p0 + (n + 1 : Nat) * param.target_miss_rate =
        p0 + n * param.target_miss_rate + param.target_miss_rate := by
      push_cast
      ring
    rw [Function.iterate_succ_apply', ih, hsum]
    unfold advance
    dsimp only
    split_ifs with hfull
    · obtain ⟨hfloor, hfract⟩ := floor_of_full hnonneg hrate.2 hfull
      rw [hfloor, hfract, Function.iterate_succ_apply']
    · obtain ⟨hfloor, hfract⟩ := floor_of_not_full hnonneg hrate.1 (not_le.mp hfull)
      rw [hfloor, hfract]

/-- The state behind `n` calls that give a URI. -/
def visited (param : Param) (p0 : ℚ) (n : Nat) : State := (advance param)^[n] ⟨p0, param.client_id⟩

/-! ## The calls -/

theorem set_uri_rounds {k : Nat} (hk : Rounds param.num_files k) (pre : List Byte) (st : State) :
    set_uri param pre st =
      if MAX_URI_LEN < pre.length + 2 * k + 6 then .error .exit
      else .ok (advance param st, pre ++ path k (advance param st).file_num ++ bytes ".html") := by
  have hle := hk.le
  have htext : (pre ++ (path k (advance param st).file_num ++ (bytes ".html" ++ [0]))).dropLast =
      pre ++ path k (advance param st).file_num ++ bytes ".html" := by
    rw [← List.append_assoc, ← List.append_assoc, List.dropLast_concat]
  unfold set_uri MAX_URI_LEN
  dsimp only
  rw [digit_loop_rounds hk (by omega)]
  dsimp only
  rw [htext]
  by_cases hfits : 128 < pre.length + 2 * k + 6
  · rw [if_pos hfits, if_pos (by omega)]
  · rw [if_neg hfits, if_neg (by omega)]

theorem calls_fit {k : Nat} (hk : Rounds param.num_files k) {pre : List Byte}
    (hfits : pre.length + 2 * k + 6 ≤ MAX_URI_LEN) (p0 : ℚ) (n : Nat) :
    calls param pre p0 (n + 1) = .ok (visited param p0 (n + 1),
      pre ++ path k (visited param p0 (n + 1)).file_num ++ bytes ".html") := by
  have hstep (n : Nat) (uri : List Byte)
      (h : calls param pre p0 n = .ok (visited param p0 n, uri)) :
      calls param pre p0 (n + 1) = .ok (visited param p0 (n + 1),
        pre ++ path k (visited param p0 (n + 1)).file_num ++ bytes ".html") := by
    conv_lhs => unfold calls
    rw [h]
    change set_uri param pre (visited param p0 n) = _
    rw [set_uri_rounds hk, if_neg (Nat.not_lt.mpr hfits)]
    unfold visited
    rw [Function.iterate_succ_apply']
  induction n with
  | zero => exact hstep 0 [] rfl
  | succ n ih => exact hstep (n + 1) _ ih

/-- What stops the first call stops them all. -/
theorem calls_stop {pre : List Byte} {p0 : ℚ} {stop : Stop}
    (hfirst : set_uri param pre ⟨p0, param.client_id⟩ = .error stop) (n : Nat) :
    calls param pre p0 (n + 1) = .error stop := by
  induction n with
  | zero => exact hfirst
  | succ n ih =>
    unfold calls
    rw [ih]
    rfl

theorem run_fit {before : Byte} {k : Nat} (hk : Rounds param.num_files k) {pre : List Byte}
    (hinit : init before param.uri = some pre)
    (hfits : param.uri_prefix.length + 2 * k + 6 ≤ MAX_URI_LEN) (p0 : ℚ) {n : Nat} (hn : 1 ≤ n) :
    run before param p0 n = .ok (visited param p0 n,
      pre ++ path k (visited param p0 n).file_num ++ bytes ".html") := by
  obtain ⟨n, rfl⟩ := Nat.exists_eq_add_of_le' hn
  unfold run
  rw [hinit]
  apply calls_fit hk
  rwa [init_length hinit]

theorem run_exit {before : Byte} {k : Nat} (hk : Rounds param.num_files k) {pre : List Byte}
    (hinit : init before param.uri = some pre)
    (hfits : MAX_URI_LEN < param.uri_prefix.length + 2 * k + 6) (p0 : ℚ) {n : Nat} (hn : 1 ≤ n) :
    run before param p0 n = .error .exit := by
  obtain ⟨n, rfl⟩ := Nat.exists_eq_add_of_le' hn
  unfold run
  rw [hinit]
  apply calls_stop
  rw [set_uri_rounds hk, init_length hinit, if_pos hfits]

theorem run_outside {before : Byte} (hk : ¬ ∃ k, Rounds param.num_files k) (p0 : ℚ) {n : Nat}
    (hn : 1 ≤ n) :
    run before param p0 n = .error .outside := by
  obtain ⟨n, rfl⟩ := Nat.exists_eq_add_of_le' hn
  unfold run
  cases init before param.uri with
  | none => rfl
  | some pre =>
    apply calls_stop
    unfold set_uri
    dsimp only
    rw [digit_loop_outside hk]

/-! ## The options -/

/-- What the options have to be. -/
structure Param.Regular (before : Byte) (param : Param) : Prop where
  files : param.Fits → 2 ≤ param.num_files ∧ param.num_files ≤ 1410065408
  uri : param.Fits → PrefixKept before param.uri
  client : param.Fits → if param.target_miss_rate = 0 then param.client_id < param.num_files
    else param.num_clients ≤ param.num_files
  rounds : ¬ param.Fits → param.num_files ≤ 4135583744
  no_digit : ¬ param.Fits → param.num_files = 1 → MAX_URI_LEN < param.uri_prefix.length + 6

/-- Call `n` has visited the file with the documented number. -/
theorem visited_file_num {p0 : ℚ} (haccepted : param.Accepted) (hp0 : 0 ≤ p0 ∧ p0 < 1) (n : Nat) :
    (visited param p0 n).file_num = (next_file param.num_files param.num_clients)^[
      ⌊p0 + n * param.target_miss_rate⌋₊] param.client_id := by
  unfold visited
  rw [advance_iterate haccepted hp0]

/-- The counters give the documented number. -/
theorem visited_file_number {p0 : ℚ} (haccepted : param.Accepted) (hp0 : 0 ≤ p0 ∧ p0 < 1)
    (hfiles : param.num_files ≤ 1410065408) (hclient : if param.target_miss_rate = 0 then
      param.client_id < param.num_files else param.num_clients ≤ param.num_files) (n : Nat) :
    (visited param p0 n).file_num = param.file_number p0 n := by
  rw [visited_file_num haccepted hp0]
  unfold Param.file_number
  by_cases hrate : param.target_miss_rate = 0
  · rw [if_pos hrate] at hclient
    rw [hrate, mul_zero, add_zero, Nat.floor_eq_zero.mpr hp0.2, Nat.mul_zero, Nat.add_zero,
      Nat.mod_eq_of_lt hclient]
    rfl
  · rw [if_neg hrate] at hclient
    exact next_file_iterate (by omega) (Nat.lt_of_lt_of_le haccepted.client.1 hclient) hclient _

theorem documented_of_fits {before : Byte} {p0 : ℚ} (haccepted : param.Accepted)
    (hp0 : 0 ≤ p0 ∧ p0 < 1) (hregular : param.Regular before) (hfits : param.Fits) :
    AsDocumented before param p0 := by
  have hk := (rounds_num_digits_iff haccepted.files.2).mpr (hregular.files hfits)
  have hinit := (init_eq_iff before param).mpr (hregular.uri hfits)
  have hnumber := visited_file_number haccepted hp0 (hregular.files hfits).2 (hregular.client hfits)
  have hrun {n : Nat} (hn : 1 ≤ n) := run_fit hk hinit hfits p0 hn
  have hlt (n : Nat) : (visited param p0 n).file_num < param.num_files := by
    rw [hnumber]
    exact Nat.mod_lt _ haccepted.files.1
  refine ⟨fun _ n hn => ⟨visited param p0 n, ?_, hnumber n⟩, fun h => absurd hfits h, ?_, ?_⟩
  · rw [hrun hn, hnumber]
    rfl
  · intro n hn st uri hst
    rw [hrun hn] at hst
    cases hst
    exact hlt n
  · intro n hn n' hn' st st' uri hst hst'
    rw [hrun hn] at hst
    rw [hrun hn'] at hst'
    cases hst
    injection hst' with hpair
    obtain ⟨rfl, huri⟩ := Prod.mk.inj hpair
    have hpath := path_inj (List.append_cancel_left (List.append_cancel_right huri))
    have hpow := num_files_le param
    rw [Nat.mod_eq_of_lt ((hlt n').trans_le hpow),
      Nat.mod_eq_of_lt ((hlt n).trans_le hpow)] at hpath
    exact hpath.symm

theorem documented_of_not_fits {before : Byte} {p0 : ℚ} (haccepted : param.Accepted)
    (hregular : param.Regular before) (hfits : ¬ param.Fits) : AsDocumented before param p0 := by
  obtain ⟨pre, hinit⟩ := init_ne_none before hfits haccepted.files.2
  obtain ⟨k, hk⟩ := exists_rounds_iff.mpr (hregular.rounds hfits)
  have hlong : MAX_URI_LEN < param.uri_prefix.length + 2 * k + 6 := by
    by_cases hone : param.num_files = 1
    · have := hregular.no_digit hfits hone
      omega
    · have hdigits := num_digits_le_rounds (by have := haccepted.files.1; omega) hk
      unfold Param.Fits at hfits
      omega
  have hrun {n : Nat} (hn : 1 ≤ n) := run_exit hk hinit hlong p0 hn
  refine ⟨fun h => absurd h hfits, fun _ n hn => hrun hn, ?_, ?_⟩
  · intro n hn st uri hst
    rw [hrun hn] at hst
    cases hst
  · intro n hn n' hn' st st' uri hst
    rw [hrun hn] at hst
    cases hst

/-- If the first URI is as documented, the digits and the prefix are. -/
theorem first_uri {before : Byte} {p0 : ℚ} (hdoc : AsDocumented before param p0)
    (hfits : param.Fits) :
    Rounds param.num_files param.num_digits ∧ init before param.uri = some param.uri_prefix := by
  obtain ⟨st, hrun, -⟩ := hdoc.visits hfits 1 (Nat.le_refl 1)
  by_cases hsome : ∃ k, Rounds param.num_files k
  · obtain ⟨k, hk⟩ := hsome
    cases hinit : init before param.uri with
    | none =>
      unfold run at hrun
      rw [hinit] at hrun
      cases hrun
    | some pre =>
      by_cases hlong : MAX_URI_LEN < param.uri_prefix.length + 2 * k + 6
      · rw [run_exit hk hinit hlong p0 (Nat.le_refl 1)] at hrun
        cases hrun
      · rw [run_fit hk hinit (Nat.not_lt.mp hlong) p0 (Nat.le_refl 1)] at hrun
        injection hrun with hpair
        have huri := List.append_cancel_right (Prod.mk.inj hpair).2
        obtain ⟨hstart, hpath⟩ := List.append_inj huri (init_length hinit)
        have hlen := congrArg List.length hpath
        rw [path_length, path_length] at hlen
        rw [show param.num_digits = k by omega, hstart]
        exact ⟨hk, rfl⟩
  · rw [run_outside hsome p0 (Nat.le_refl 1)] at hrun
    cases hrun

/-- With a rate above zero every number of carries is reached. -/
theorem client_of_documented {before : Byte} {p0 : ℚ} (haccepted : param.Accepted)
    (hp0 : 0 ≤ p0 ∧ p0 < 1) (hdoc : AsDocumented before param p0) (hfits : param.Fits)
    (hfiles : param.num_files ≤ 1410065408) :
    if param.target_miss_rate = 0 then param.client_id < param.num_files
    else param.num_clients ≤ param.num_files := by
  obtain ⟨hk, hinit⟩ := first_uri hdoc hfits
  have hlt {n : Nat} (hn : 1 ≤ n) : (visited param p0 n).file_num < param.num_files :=
    hdoc.below n hn _ _ (run_fit hk hinit hfits p0 hn)
  simp only [visited_file_num haccepted hp0] at hlt
  split_ifs with hrate
  · have hfirst := hlt (Nat.le_refl 1)
    rwa [hrate, mul_zero, add_zero, Nat.floor_eq_zero.mpr hp0.2] at hfirst
  · by_contra hmany
    have hpos : 0 < param.target_miss_rate := lt_of_le_of_ne haccepted.rate.1 (Ne.symm hrate)
    obtain ⟨m, hm⟩ := next_file_leaves (next_file param.num_files param.num_clients param.client_id)
      (by omega) ⟨Nat.not_le.mp hmany, haccepted.client.2⟩
    rw [← Function.iterate_succ_apply] at hm
    obtain ⟨n, hn⟩ := exists_floor_eq hp0.1 hp0.2 hpos haccepted.rate.2 (m + 1)
    have hn1 : 1 ≤ n := by
      by_contra hzero
      rw [show n = 0 by omega, Nat.cast_zero, zero_mul, add_zero, Nat.floor_eq_zero.mpr hp0.2] at hn
      cases hn
    have := hlt hn1
    rw [hn] at this
    exact absurd hm (Nat.not_le.mpr this)

theorem regular_of_documented {before : Byte} {p0 : ℚ} (haccepted : param.Accepted)
    (hp0 : 0 ≤ p0 ∧ p0 < 1) (hdoc : AsDocumented before param p0) : param.Regular before := by
  have hfiles (hfits : param.Fits) :=
    (rounds_num_digits_iff haccepted.files.2).mp (first_uri hdoc hfits).1
  refine ⟨hfiles, ?_, ?_, ?_, ?_⟩
  · intro hfits
    exact (init_eq_iff before param).mp (first_uri hdoc hfits).2
  · intro hfits
    exact client_of_documented haccepted hp0 hdoc hfits (hfiles hfits).2
  · intro hfits
    have hrun := hdoc.exits hfits 1 (Nat.le_refl 1)
    apply exists_rounds_iff.mp
    by_contra hnone
    rw [run_outside hnone p0 (Nat.le_refl 1)] at hrun
    cases hrun
  · intro hfits hone
    have hrun := hdoc.exits hfits 1 (Nat.le_refl 1)
    obtain ⟨pre, hinit⟩ := init_ne_none before hfits haccepted.files.2
    have hk : Rounds param.num_files 0 := by
      rw [hone]
      exact ⟨fun i hi => absurd hi (Nat.not_lt_zero i), by decide⟩
    by_contra hshort
    rw [run_fit hk hinit (by omega) p0 (Nat.le_refl 1)] at hrun
    cases hrun

theorem visits_as_documented_iff {before : Byte} {p0 : ℚ} (haccepted : param.Accepted)
    (hp0 : 0 ≤ p0 ∧ p0 < 1) :
    AsDocumented before param p0 ↔ param.Regular before := by
  constructor
  · exact regular_of_documented haccepted hp0
  · intro hregular
    by_cases hfits : param.Fits
    · exact documented_of_fits haccepted hp0 hregular hfits
    · exact documented_of_not_fits haccepted hregular hfits

end

theorem visits_as_documented_iff_1024 :
    AsDocumented 0 ⟨bytes "/wset1024", 1024, 1 / 4, 0, 1⟩ (1 / 2) ↔
      Param.Regular 0 ⟨bytes "/wset1024", 1024, 1 / 4, 0, 1⟩ :=
  visits_as_documented_iff ⟨by decide, ⟨by norm_num, by norm_num⟩, by decide⟩
    ⟨by norm_num, by norm_num⟩

/-- `--wset=7,1 --client=0/20`. The first call goes to file 13. -/
theorem twenty_clients_leave_seven_files : ¬ AsDocumented 0 ⟨bytes "/", 7, 1, 0, 20⟩ 0 := by
  intro hdoc
  have hregular := regular_of_documented ⟨by decide, ⟨by norm_num, by norm_num⟩, by decide⟩
    ⟨by norm_num, by norm_num⟩ hdoc
  have hfits : Param.Fits ⟨bytes "/", 7, 1, 0, 20⟩ := by
    unfold Param.Fits
    decide +kernel
  have hclient := hregular.client hfits
  rw [if_neg (by norm_num)] at hclient
  exact absurd hclient (by decide)

end Httperf.UriWset
