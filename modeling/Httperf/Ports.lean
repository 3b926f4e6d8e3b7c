-- The local ports of an address (`lffs`, `port_put`, `port_get` and `core_add_address` in
-- `core.c`). A cursor walks over the words of a bitmap, and a mask hides the bits of its word that
-- it has passed.
import Httperf.Lib.Bits
import Httperf.Lib.Runs
import Mathlib.Logic.Function.Basic
import Mathlib.Data.List.Basic

namespace Httperf.Ports

open Lib.Bits

def MIN_IP_PORT : Nat := 1024
def MAX_IP_PORT : Nat := 65535
def BITSPERLONG : Nat := 64

/-- The words of `port_free_map`. -/
def NELEMS : Nat := (MAX_IP_PORT - MIN_IP_PORT + BITSPERLONG) / BITSPERLONG

theorem NELEMS_eq : NELEMS = 1008 := rfl

theorem BITSPERLONG_eq : BITSPERLONG = 64 := rfl

structure LocalAddr where
  port_free_map : Nat → BitVec 64
  mask : BitVec 64
  previous : Nat

def core_add_address : LocalAddr := ⟨fun _ => BitVec.allOnes 64, BitVec.allOnes 64, 0⟩

/-- `ffs` looks at an `int`, and the upper half counts only where `SIZEOF_LONG` is defined. A macro
that is not defined is 0 to the preprocessor. -/
def lffs (SIZEOF_LONG : Nat) (w : BitVec 64) : Int :=
  let r := ffs (w.setWidth 32)
  if SIZEOF_LONG > 4 ∧ r = 0 then
    let r := ffs ((w >>> 32).setWidth 32)
    if r > 0 then r + 32 else r
  else r

/-- A number below the ports of the map would write outside of the map. -/
def port_put (addr : LocalAddr) (port : Int) : LocalAddr :=
  if port < MIN_IP_PORT then addr
  else
    let port := (port - MIN_IP_PORT).toNat
    let i := port / BITSPERLONG
    let bit := port % BITSPERLONG
    { addr with port_free_map :=
        Function.update addr.port_free_map i (addr.port_free_map i ||| 1#64 <<< bit) }

/-- The loop from word `i` on to a word with a free port, or back to the word of the cursor. -/
def find_word (addr : LocalAddr) : Nat → Nat → Option Nat
  | 0, _ => none
  | n + 1, i =>
    let i := if i + 1 ≥ NELEMS then 0 else i + 1
    if i = addr.previous then none
    else if addr.port_free_map i = 0 then find_word addr n i
    else some i

/-- `bit` is compared as an unsigned number, and a machine shifts by the number modulo 64. -/
def port_get (lffs : BitVec 64 → Int) (addr : LocalAddr) : Int × LocalAddr :=
  let found :=
    if addr.port_free_map addr.previous &&& addr.mask = 0 then
      (find_word addr NELEMS addr.previous).map fun i => (i, BitVec.allOnes 64)
    else some (addr.previous, addr.mask)
  match found with
  | none => (-1, addr)
  | some (i, mask) =>
    let bit := lffs (addr.port_free_map i &&& mask) - 1
    (bit + i * BITSPERLONG + MIN_IP_PORT,
      { port_free_map := Function.update addr.port_free_map i
          (addr.port_free_map i &&& ~~~(1#64 <<< (bit % BITSPERLONG).toNat))
        mask :=
          if (BitVec.ofInt 64 bit).toNat ≥ BITSPERLONG - 1 then 0
          else ~~~(1#64 <<< (bit + 1).toNat - 1#64)
        previous := i })

/-! ## Runs -/

inductive Step where
  | get
  | put (port : Int)
  deriving DecidableEq, Repr

/-- `held` are the ports that were handed out and not put back. -/
structure State where
  addr : LocalAddr
  held : List Int

def init : State := ⟨core_add_address, []⟩

/-- Only a port that is held is put back. -/
def step (lffs : BitVec 64 → Int) (s : State) : Step → State
  | .get =>
    let r := port_get lffs s.addr
    ⟨r.2, if r.1 ≥ 0 then r.1 :: s.held else s.held⟩
  | .put port => if port ∈ s.held then ⟨port_put s.addr port, s.held.erase port⟩ else s

/-- What `port_get` gives is a port of the map that nobody holds. -/
def Exclusive (lffs : BitVec 64 → Int) (s : State) : Step → Prop
  | .get =>
    let port := (port_get lffs s.addr).1
    0 ≤ port → MIN_IP_PORT ≤ port ∧ port ≤ MAX_IP_PORT ∧ port ∉ s.held
  | .put _ => True

/-! ## The first word -/

/-- `n` ports were handed out, in order, and the cursor is still in the first word. -/
structure First (n : Nat) (s : State) : Prop where
  previous : s.addr.previous = 0
  mask : ∀ b < 64, s.addr.mask.getLsbD b = decide (n ≤ b)
  free : ∀ b < 64, n ≤ b → (s.addr.port_free_map 0).getLsbD b = true
  held : ∀ port ∈ s.held, MIN_IP_PORT ≤ port ∧ port < MIN_IP_PORT + n

variable {n : Nat} {s : State}

theorem full_getLsbD {b : Nat} (hb : b < 64) : (BitVec.allOnes 64).getLsbD b = true := by
  rw [BitVec.getLsbD_allOnes, decide_eq_true hb]

theorem init_first : First 0 init :=
  ⟨rfl, fun _ hb => full_getLsbD hb, fun _ hb _ => full_getLsbD hb, fun _ h => nomatch h⟩

/-- What the cursor sees of the first word. -/
theorem First.seen (h : First n s) {b : Nat} (hb : b < 64) :
    (s.addr.port_free_map s.addr.previous &&& s.addr.mask).getLsbD b = decide (n ≤ b) := by
  rw [h.previous, BitVec.getLsbD_and, h.mask b hb]
  by_cases hn : n ≤ b
  · simp [h.free b hb hn, hn]
  · simp [hn]

theorem First.seen_ne (h : First n s) (hn : n ≤ 32) :
    s.addr.port_free_map s.addr.previous &&& s.addr.mask ≠ 0 := by
  rw [ne_eq, eq_zero_iff]
  intro hzero
  have hbit := h.seen (b := 32) (by omega)
  rw [hzero 32 (by omega)] at hbit
  simp [hn] at hbit

theorem First.lffs_eq (h : First n s) (hn : n < 32) :
    lffs 0 (s.addr.port_free_map s.addr.previous &&& s.addr.mask) = n + 1 := by
  have hffs : ffs ((s.addr.port_free_map s.addr.previous &&& s.addr.mask).setWidth 32) = n + 1 := by
    rw [ffs_eq_succ_iff]
    refine ⟨hn, ?_, fun j hj => ?_⟩
    · rw [BitVec.getLsbD_setWidth, h.seen (by omega)]
      simp [hn]
    · rw [BitVec.getLsbD_setWidth, h.seen (by omega)]
      simp [hj]
  unfold lffs
  rw [hffs]
  simp

theorem First.lffs_eq_zero (h : First 32 s) :
    lffs 0 (s.addr.port_free_map s.addr.previous &&& s.addr.mask) = 0 := by
  have hffs : ffs ((s.addr.port_free_map s.addr.previous &&& s.addr.mask).setWidth 32) = 0 := by
    rw [ffs_eq_zero_iff]
    intro b hb
    rw [BitVec.getLsbD_setWidth, h.seen (by omega)]
    simp [hb]
  unfold lffs
  rw [hffs]
  simp

/-- The cursor stays in its word as long as it sees a port there. -/
theorem port_get_here (lffs : BitVec 64 → Int) {addr : LocalAddr}
    (h : addr.port_free_map addr.previous &&& addr.mask ≠ 0) :
    (port_get lffs addr).1 = lffs (addr.port_free_map addr.previous &&& addr.mask) - 1 +
      addr.previous * BITSPERLONG + MIN_IP_PORT := by
  unfold port_get
  rw [if_neg h]

theorem First.port_get (h : First n s) (hn : n < 32) :
    (port_get (lffs 0) s.addr).1 = MIN_IP_PORT + n := by
  rw [port_get_here _ (h.seen_ne (by omega)), h.lffs_eq hn, h.previous]
  omega

/-- The 33rd port is no port. -/
theorem First.port_get_last (h : First 32 s) : (Ports.port_get (lffs 0) s.addr).1 = 1023 := by
  rw [port_get_here _ (h.seen_ne (by omega)), h.lffs_eq_zero, h.previous]
  rfl

theorem First.get (h : First n s) (hn : n < 32) : First (n + 1) (step (lffs 0) s .get) := by
  have hport := h.port_get hn
  have hbit : lffs 0 (s.addr.port_free_map s.addr.previous &&& s.addr.mask) - 1 = n := by
    rw [h.lffs_eq hn]
    omega
  unfold step
  dsimp only
  rw [hport, if_pos (by omega)]
  unfold Ports.port_get
  rw [if_neg (h.seen_ne (by omega))]
  dsimp only
  rw [hbit, h.previous]
  have hmod : ((n : Int) % BITSPERLONG).toNat = n := by
    rw [BITSPERLONG_eq]
    omega
  have hunsigned : (BitVec.ofInt 64 (n : Int)).toNat = n := by
    rw [BitVec.ofInt_natCast, BitVec.toNat_ofNat]
    exact Nat.mod_eq_of_lt (by omega)
  rw [hmod, hunsigned, if_neg (by unfold BITSPERLONG; omega)]
  refine ⟨rfl, fun b hb => ?_, fun b hb hnb => ?_, fun port hport => ?_⟩
  · rw [show ((n : Int) + 1).toNat = n + 1 by omega, getLsbD_from (by omega)]
    simp [hb]
  · simp only [Function.update_self]
    rw [getLsbD_clear (by omega), h.free b hb (by omega)]
    simp
    omega
  · rcases List.mem_cons.mp hport with rfl | hport
    · omega
    · have := h.held port hport
      omega

theorem First.put (h : First n s) (hn : n ≤ 32) (port : Int) :
    First n (step (lffs 0) s (.put port)) := by
  unfold step
  dsimp only
  split
  · rename_i hport
    obtain ⟨hmin, hmax⟩ := h.held port hport
    unfold port_put
    rw [if_neg (by omega)]
    have hword : (port - MIN_IP_PORT).toNat / BITSPERLONG = 0 := by
      rw [BITSPERLONG_eq]
      omega
    dsimp only
    rw [hword]
    refine ⟨h.previous, h.mask, fun b hb hnb => ?_, fun q hq => h.held q (List.mem_of_mem_erase hq)⟩
    simp only [Function.update_self, BitVec.getLsbD_or, h.free b hb hnb, Bool.true_or]
  · exact h

/-- The ports are handed out exclusively as long as there are at most 32 calls of `port_get`. -/
theorem first_exclusive_iff (h : First n s) (hn : n ≤ 32) (steps : List Step) :
    Runs.Meets (step (lffs 0)) (Exclusive (lffs 0)) s steps ↔ n + steps.count .get ≤ 32 := by
  induction steps generalizing n s with
  | nil => exact ⟨fun _ => by simpa using hn, fun _ => trivial⟩
  | cons x steps ih =>
    cases x with
    | get =>
      rw [List.count_cons_self]
      by_cases hlast : n < 32
      · have hport := h.port_get hlast
        have hexclusive : Exclusive (lffs 0) s .get := by
          intro _
          rw [hport]
          refine ⟨by omega, by unfold MAX_IP_PORT MIN_IP_PORT; omega, fun hmem => ?_⟩
          have := h.held _ hmem
          omega
        have hrest := ih (h.get hlast) (by omega)
        constructor
        · rintro ⟨_, hmeets⟩
          have := hrest.mp hmeets
          omega
        · intro hcount
          exact ⟨hexclusive, hrest.mpr (by omega)⟩
      · obtain rfl : n = 32 := by omega
        constructor
        · rintro ⟨hexclusive, _⟩
          have hport := h.port_get_last
          unfold Exclusive at hexclusive
          dsimp only at hexclusive
          rw [hport] at hexclusive
          have hmin := (hexclusive (by decide)).1
          exact absurd hmin (by decide)
        · intro hcount
          omega
    | put port =>
      have hrest := ih (h.put hn port) hn
      rw [List.count_cons_of_ne (by simp)]
      constructor
      · rintro ⟨_, hmeets⟩
        exact hrest.mp hmeets
      · intro hcount
        exact ⟨trivial, hrest.mpr hcount⟩

/-- From the start on, whatever is put back in between. -/
theorem ports_are_exclusive_iff (steps : List Step) :
    Runs.Meets (step (lffs 0)) (Exclusive (lffs 0)) init steps ↔ steps.count .get ≤ 32 := by
  have h := first_exclusive_iff init_first (by omega) steps
  rw [Nat.zero_add] at h
  exact h

/-- The ports 1024 to 1055 are handed out, and then 1023. -/
theorem the_33rd_port_is_1023 :
    ¬ Runs.Meets (step (lffs 0)) (Exclusive (lffs 0)) init (List.replicate 33 .get) := by
  rw [first_exclusive_iff init_first (by omega)]
  decide

/-! ## The whole map -/

/-- With the size of a `long` defined, `lffs` looks at the whole word. -/
theorem lffs_eight (w : BitVec 64) : lffs 8 w = ffs w := by
  unfold lffs
  cases hlow : ffs (w.setWidth 32) with
  | succ b =>
    rw [ffs_eq_succ_iff] at hlow
    obtain ⟨hb, hbit, hbelow⟩ := hlow
    have hw : ffs w = b + 1 := by
      rw [ffs_eq_succ_iff]
      refine ⟨by omega, by simpa [hb] using hbit, fun j hj => ?_⟩
      have hj32 : j < 32 := by omega
      simpa [hj32] using hbelow j hj
    simp [hw]
  | zero =>
    rw [ffs_eq_zero_iff] at hlow
    have hlow' : ∀ b < 32, w.getLsbD b = false := fun b hb => by simpa [hb] using hlow b hb
    cases hhigh : ffs ((w >>> 32).setWidth 32) with
    | zero =>
      rw [ffs_eq_zero_iff] at hhigh
      have hw : ffs w = 0 := by
        rw [ffs_eq_zero_iff]
        intro b hb
        by_cases hb32 : b < 32
        · exact hlow' b hb32
        · have hbit := hhigh (b - 32) (by omega)
          simpa [show b - 32 < 32 by omega, show 32 + (b - 32) = b by omega] using hbit
      simp [hw]
    | succ b =>
      rw [ffs_eq_succ_iff] at hhigh
      obtain ⟨hb, hbit, hbelow⟩ := hhigh
      have hw : ffs w = b + 32 + 1 := by
        rw [ffs_eq_succ_iff]
        refine ⟨by omega, ?_, fun j hj => ?_⟩
        · simpa [hb, Nat.add_comm] using hbit
        · by_cases hj32 : j < 32
          · exact hlow' j hj32
          · have hbit := hbelow (j - 32) (by omega)
            simpa [show j - 32 < 32 by omega, show 32 + (j - 32) = j by omega] using hbit
      simp [hw]
      omega

/-- The loop over the words visits all others before it is back. -/
theorem find_word_cases {addr : LocalAddr} {n i : Nat} (hi : i < NELEMS) {d : Nat}
    (hd : (i + d) % NELEMS = addr.previous) (hpos : 0 < d) (hle : d ≤ NELEMS) (hn : d ≤ n) :
    (find_word addr n i = none ∧ ∀ k, 0 < k → k < d → addr.port_free_map ((i + k) % NELEMS) = 0) ∨
    ∃ k, 0 < k ∧ k < d ∧ find_word addr n i = some ((i + k) % NELEMS) ∧
      addr.port_free_map ((i + k) % NELEMS) ≠ 0 := by
  rw [NELEMS_eq] at *
  induction n generalizing i d with
  | zero => omega
  | succ n ih =>
    unfold find_word
    rw [NELEMS_eq]
    have hnext : (if i + 1 ≥ 1008 then 0 else i + 1) = (i + 1) % 1008 := by
      split <;> omega
    rw [hnext]
    dsimp only
    by_cases hback : (i + 1) % 1008 = addr.previous
    · rw [if_pos hback]
      obtain rfl : d = 1 := by omega
      exact Or.inl ⟨rfl, fun k hk hk1 => by omega⟩
    · rw [if_neg hback]
      have hd1 : d ≠ 1 := by
        rintro rfl
        exact hback hd
      by_cases hzero : addr.port_free_map ((i + 1) % 1008) = 0
      · rw [if_pos hzero]
        have hshift : ∀ k, ((i + 1) % 1008 + k) % 1008 = (i + (k + 1)) % 1008 := by
          intro k
          rw [Nat.mod_add_mod, Nat.add_assoc, Nat.add_comm 1 k]
        obtain ⟨hnone, hall⟩ | ⟨k, hk, hkd, hsome, hne⟩ :=
          ih (i := (i + 1) % 1008) (d := d - 1) (by omega)
            (by rw [hshift, Nat.sub_add_cancel hpos, hd]) (by omega) (by omega) (by omega)
        · refine Or.inl ⟨hnone, fun k hk hkd => ?_⟩
          by_cases hk1 : k = 1
          · rw [hk1]
            exact hzero
          · have hword := hall (k - 1) (by omega) (by omega)
            rwa [hshift, Nat.sub_add_cancel hk] at hword
        · rw [hshift] at hsome hne
          exact Or.inr ⟨k + 1, by omega, by omega, hsome, hne⟩
      · rw [if_neg hzero]
        exact Or.inr ⟨1, by omega, by omega, rfl, hzero⟩

/-- All words but the one of the cursor. -/
theorem find_word_spec {addr : LocalAddr} (hprev : addr.previous < NELEMS) :
    (find_word addr NELEMS addr.previous = none ∧
      ∀ i < NELEMS, i ≠ addr.previous → addr.port_free_map i = 0) ∨
    ∃ i < NELEMS, i ≠ addr.previous ∧ find_word addr NELEMS addr.previous = some i ∧
      addr.port_free_map i ≠ 0 := by
  obtain ⟨hnone, hall⟩ | ⟨k, hk, hkd, hsome, hne⟩ := find_word_cases (n := NELEMS) hprev
    (d := NELEMS) (by rw [Nat.add_mod_right, Nat.mod_eq_of_lt hprev]) (by decide) (Nat.le_refl _)
    (Nat.le_refl _)
  all_goals rw [NELEMS_eq] at *
  · refine Or.inl ⟨hnone, fun i hi hne => ?_⟩
    have hword := hall ((i + 1008 - addr.previous) % 1008) (by omega) (by omega)
    rwa [show (addr.previous + (i + 1008 - addr.previous) % 1008) % 1008 = i by omega] at hword
  · exact Or.inr ⟨(addr.previous + k) % 1008, by omega, by omega, hsome, hne⟩

def NothingFree (addr : LocalAddr) : Prop := ∀ i < NELEMS, addr.port_free_map i = 0

/-- `port_get` fails exactly when no port is free. -/
def Honest (s : State) : Prop := (port_get (lffs 8) s.addr).1 = -1 ↔ NothingFree s.addr

/-- There are free ports, and the cursor has passed them all in its word. -/
def Hidden (s : State) : Prop :=
  s.addr.port_free_map s.addr.previous ≠ 0 ∧
    s.addr.port_free_map s.addr.previous &&& s.addr.mask = 0 ∧
    ∀ i < NELEMS, i ≠ s.addr.previous → s.addr.port_free_map i = 0

theorem lffs_pos {w : BitVec 64} (h : w ≠ 0) : 0 < lffs 8 w := by
  rw [lffs_eight]
  have hffs : ffs w ≠ 0 := fun hzero => h (ffs_eq_zero.mp hzero)
  omega

/-- What `port_get` comes to, and where the cursor goes. -/
theorem port_get_cases {addr : LocalAddr} (hprev : addr.previous < NELEMS) :
    ((port_get (lffs 8) addr).1 = -1 ∧ (port_get (lffs 8) addr).2 = addr ∧
      addr.port_free_map addr.previous &&& addr.mask = 0 ∧
      ∀ i < NELEMS, i ≠ addr.previous → addr.port_free_map i = 0) ∨
    (0 ≤ (port_get (lffs 8) addr).1 ∧ (port_get (lffs 8) addr).2.previous < NELEMS ∧
      ∃ i < NELEMS, addr.port_free_map i ≠ 0 ∧
        (addr.port_free_map addr.previous &&& addr.mask = 0 → i ≠ addr.previous)) := by
  unfold port_get
  by_cases hseen : addr.port_free_map addr.previous &&& addr.mask = 0
  · rw [if_pos hseen]
    obtain ⟨hnone, hall⟩ | ⟨i, hi, hne, hsome, hword⟩ := find_word_spec hprev
    · rw [hnone]
      exact Or.inl ⟨rfl, rfl, hseen, hall⟩
    · rw [hsome]
      dsimp only [Option.map_some]
      rw [BitVec.and_allOnes]
      have hpos := lffs_pos hword
      rw [BITSPERLONG_eq]
      exact Or.inr ⟨by omega, hi, i, hi, hword, fun _ => hne⟩
  · rw [if_neg hseen]
    dsimp only
    have hpos := lffs_pos hseen
    rw [BITSPERLONG_eq]
    refine Or.inr ⟨by omega, hprev, addr.previous, hprev, fun hzero => hseen ?_,
      fun hno => absurd hno hseen⟩
    rw [hzero]
    exact BitVec.zero_and

theorem honest_iff (hprev : s.addr.previous < NELEMS) : Honest s ↔ ¬ Hidden s := by
  unfold Honest Hidden NothingFree
  obtain ⟨hfail, _, hseen, hall⟩ | ⟨hport, _, i, hi, hword, hne⟩ := port_get_cases hprev
  · constructor
    · rintro hhonest ⟨hfree, _⟩
      exact hfree (hhonest.mp hfail _ hprev)
    · intro hno
      refine ⟨fun _ i hi => ?_, fun _ => hfail⟩
      by_cases hip : i = s.addr.previous
      · subst hip
        by_contra hfree
        exact hno ⟨hfree, hseen, hall⟩
      · exact hall i hi hip
  · constructor
    · rintro _ ⟨_, hseen, hall⟩
      exact hword (hall i hi (hne hseen))
    · intro _
      constructor
      · intro hfail
        omega
      · intro hnone
        exact absurd (hnone i hi) hword

theorem step_previous (hprev : s.addr.previous < NELEMS) (x : Step) :
    (step (lffs 8) s x).addr.previous < NELEMS := by
  cases x with
  | get =>
    obtain ⟨_, hsame, _⟩ | ⟨_, hlt, _⟩ := port_get_cases hprev
    · dsimp only [step]
      rw [hsame]
      exact hprev
    · exact hlt
  | put port =>
    unfold step
    dsimp only
    split
    · unfold port_put
      split
      · exact hprev
      · exact hprev
    · exact hprev

/-- In every run `port_get` fails exactly when nothing is free, as long as the free ports are not
all hidden behind the cursor. -/
theorem port_get_fails_iff (steps : List Step) :
    Runs.Always (step (lffs 8)) Honest init steps ↔
      Runs.Always (step (lffs 8)) (fun s => ¬ Hidden s) init steps :=
  Runs.always_congr (fun _ x h => step_previous h x) (fun _ h => honest_iff h) (by decide) steps

/-! ## All ports -/

/-- The first `n` ports of the map are handed out, and none was put back. -/
structure Filled (n : Nat) (s : State) : Prop where
  previous : s.addr.previous = (n - 1) / 64
  mask : ∀ b < 64, s.addr.mask.getLsbD b = decide (n ≤ 64 * s.addr.previous + b)
  map : ∀ i < NELEMS, ∀ b < 64, (s.addr.port_free_map i).getLsbD b = decide (n ≤ 64 * i + b)
  held : ∀ k < n, (MIN_IP_PORT + k : Int) ∈ s.held

theorem init_filled : Filled 0 init :=
  ⟨rfl, fun _ hb => full_getLsbD hb, fun _ _ _ hb => full_getLsbD hb, fun _ h => nomatch h⟩

/-- The cursor comes to the word of the next port. -/
theorem Filled.found (h : Filled n s) (hn : n < 64 * NELEMS) :
    ∃ mask : BitVec 64, (∀ b < 64, (s.addr.port_free_map (n / 64) &&& mask).getLsbD b =
        decide (n ≤ 64 * (n / 64) + b)) ∧
      (if s.addr.port_free_map s.addr.previous &&& s.addr.mask = 0 then
          (find_word s.addr NELEMS s.addr.previous).map fun i => (i, BitVec.allOnes 64)
        else some (s.addr.previous, s.addr.mask)) = some (n / 64, mask) := by
  have hmap := h.map
  rw [NELEMS_eq] at hn hmap
  have hprev := h.previous
  have hword : ∀ b < 64, (s.addr.port_free_map (n / 64)).getLsbD b =
      decide (n ≤ 64 * (n / 64) + b) :=
    fun b hb => hmap (n / 64) (by omega) b hb
  have hne : s.addr.port_free_map (n / 64) ≠ 0 := by
    rw [ne_eq, eq_zero_iff]
    intro hzero
    have hbit := hword (n % 64) (by omega)
    rw [hzero (n % 64) (by omega)] at hbit
    simp at hbit
    omega
  by_cases hhere : n / 64 = s.addr.previous
  · have hseen : ∀ b < 64, (s.addr.port_free_map (n / 64) &&& s.addr.mask).getLsbD b =
        decide (n ≤ 64 * (n / 64) + b) := by
      intro b hb
      rw [BitVec.getLsbD_and, hword b hb, h.mask b hb, ← hhere, Bool.and_self]
    refine ⟨s.addr.mask, hseen, ?_⟩
    rw [← hhere, if_neg]
    rw [eq_zero_iff]
    intro hzero
    have hbit := hseen (n % 64) (by omega)
    rw [hzero (n % 64) (by omega)] at hbit
    simp at hbit
    omega
  · -- the word of the cursor is used up, and the next one is whole
    have hzero : s.addr.port_free_map s.addr.previous &&& s.addr.mask = 0 := by
      rw [eq_zero_iff]
      intro b hb
      rw [BitVec.getLsbD_and, hmap s.addr.previous (by omega) b hb, h.mask b hb]
      simp
      omega
    refine ⟨BitVec.allOnes 64, fun b hb => ?_, ?_⟩
    · rw [BitVec.and_allOnes]
      exact hword b hb
    · have hnext : (if s.addr.previous + 1 ≥ 1008 then 0 else s.addr.previous + 1) = n / 64 := by
        rw [if_neg (by omega)]
        omega
      rw [if_pos hzero, NELEMS_eq]
      unfold find_word
      dsimp only
      rw [NELEMS_eq, hnext, if_neg hhere, if_neg hne]
      rfl

/-- As long as there are ports, they are handed out in order. -/
theorem Filled.get (h : Filled n s) (hn : n < 64 * NELEMS) :
    Filled (n + 1) (step (lffs 8) s .get) := by
  obtain ⟨mask, hseen, hfound⟩ := h.found hn
  have hffs : lffs 8 (s.addr.port_free_map (n / 64) &&& mask) = (n % 64 : Nat) + 1 := by
    rw [lffs_eight]
    have hw : ffs (s.addr.port_free_map (n / 64) &&& mask) = n % 64 + 1 := by
      rw [ffs_eq_succ_iff]
      refine ⟨by omega, ?_, fun j hj => ?_⟩
      · rw [hseen _ (by omega)]
        simp
        omega
      · rw [hseen _ (by omega)]
        simp
        omega
    rw [hw]
    rfl
  have hget : port_get (lffs 8) s.addr = (MIN_IP_PORT + (n : Int),
      { port_free_map := Function.update s.addr.port_free_map (n / 64)
          (s.addr.port_free_map (n / 64) &&& ~~~(1#64 <<< (n % 64)))
        mask := if n % 64 ≥ 63 then 0 else ~~~(1#64 <<< (n % 64 + 1) - 1#64)
        previous := n / 64 }) := by
    have hbit : ((n % 64 : Nat) : Int) + 1 - 1 = (n % 64 : Nat) := by omega
    have hshift : (((n % 64 : Nat) : Int) % (64 : Nat)).toNat = n % 64 := by omega
    have hunsigned : (BitVec.ofInt 64 ((n % 64 : Nat) : Int)).toNat = n % 64 := by
      rw [BitVec.ofInt_natCast, BitVec.toNat_ofNat]
      exact Nat.mod_eq_of_lt (by omega)
    unfold port_get
    rw [hfound]
    dsimp only
    rw [hffs, hbit, BITSPERLONG_eq, hshift, hunsigned,
      show (((n % 64 : Nat) : Int) + 1).toNat = n % 64 + 1 by omega,
      show ((n % 64 : Nat) : Int) + (n / 64 : Nat) * (64 : Nat) + MIN_IP_PORT = MIN_IP_PORT + n by
        omega]
  unfold step
  dsimp only
  rw [hget]
  dsimp only
  rw [if_pos (show (MIN_IP_PORT : Int) + n ≥ 0 by omega)]
  refine ⟨?_, fun b hb => ?_, fun i hi b hb => ?_, fun k hk => ?_⟩
  · dsimp only
    omega
  · dsimp only
    by_cases hlast : n % 64 ≥ 63
    · rw [if_pos hlast]
      simp
      omega
    · rw [if_neg hlast, getLsbD_from (by omega)]
      simp [hb]
      omega
  · dsimp only
    by_cases hin : i = n / 64
    · subst hin
      rw [Function.update_self, getLsbD_clear (by omega), h.map _ hi b hb]
      by_cases hbn : b = n % 64
      · simp [hbn]
        omega
      · simp [hbn]
        omega
    · rw [Function.update_of_ne hin, h.map i hi b hb]
      simp
      omega
  · dsimp only
    by_cases hkn : k = n
    · rw [hkn]
      exact List.mem_cons_self
    · exact List.mem_cons_of_mem _ (h.held k (by omega))

theorem gets_filled (hn : n ≤ 64 * NELEMS) :
    Filled n (Runs.run (step (lffs 8)) init (List.replicate n .get)) := by
  induction n with
  | zero => exact init_filled
  | succ n ih =>
    rw [List.replicate_succ', Runs.run_append]
    exact (ih (by omega)).get hn

theorem Filled.full (h : Filled (64 * NELEMS) s) : NothingFree s.addr := by
  intro i hi
  rw [eq_zero_iff]
  intro b hb
  rw [h.map i hi b hb]
  simp
  omega

/-- A port that the cursor has passed in the last word. -/
theorem Filled.put (h : Filled (64 * NELEMS) s) :
    Hidden (step (lffs 8) s (.put (MIN_IP_PORT + 64448))) := by
  have hprev : s.addr.previous = 1007 := by rw [h.previous, NELEMS_eq]
  have hheld : (MIN_IP_PORT + 64448 : Int) ∈ s.held := h.held 64448 (by rw [NELEMS_eq]; omega)
  have hword : ((MIN_IP_PORT + 64448 : Int) - MIN_IP_PORT).toNat = 64448 := by omega
  unfold step port_put Hidden
  dsimp only
  rw [if_pos hheld, if_neg (by omega)]
  dsimp only
  rw [hword, BITSPERLONG_eq, hprev]
  refine ⟨?_, ?_, fun i hi hne => ?_⟩
  · rw [Function.update_self, h.full _ (by decide)]
    decide
  · rw [Function.update_self, h.full _ (by decide), eq_zero_iff]
    intro b hb
    rw [BitVec.getLsbD_and, h.mask b hb, hprev, NELEMS_eq]
    simp
    omega
  · rw [Function.update_of_ne hne]
    exact h.full i hi

/-- All ports are handed out, and the one at the start of the last word is put back. The cursor has
passed it, so `port_get` fails. -/
theorem a_free_port_is_not_found :
    ¬ Runs.Always (step (lffs 8)) Honest init
      (List.replicate (64 * NELEMS) .get ++ [.put (MIN_IP_PORT + 64448)]) := by
  intro h
  have hlast := h.last
  have hfilled := gets_filled (Nat.le_refl (64 * NELEMS))
  rw [Runs.run_append, Runs.run, Runs.run] at hlast
  generalize Runs.run (step (lffs 8)) init (List.replicate (64 * NELEMS) .get) = s at hfilled hlast
  have hprev : s.addr.previous < NELEMS := by
    rw [hfilled.previous, NELEMS_eq]
    omega
  exact (honest_iff (step_previous hprev _)).mp hlast hfilled.put

end Httperf.Ports
