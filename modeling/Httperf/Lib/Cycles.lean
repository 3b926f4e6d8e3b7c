-- Moving the values of an array along the cycles of a map, in place, with one swap a turn. The
-- start of the cycle holds the value that is next to be put down. Rotations are the case in which
-- the cycles are known by their residues.
import Mathlib.Data.Fintype.Card
import Mathlib.Data.Fintype.Prod
import Mathlib.Logic.Function.Iterate
import Mathlib.Data.Nat.GCD.Basic
import Mathlib.Data.Nat.ModEq
import Mathlib.Data.Fintype.EquivFin

namespace Httperf.Cycles

variable {α : Type}

def swap (v : Nat → α) (i j : Nat) : Nat → α := Function.update (Function.update v i (v j)) j (v i)

theorem swap_left (v : Nat → α) (i j : Nat) : swap v i j i = v j := by
  unfold swap
  by_cases h : i = j
  · rw [h, Function.update_self]
  · rw [Function.update_of_ne h, Function.update_self]

theorem swap_right (v : Nat → α) (i j : Nat) : swap v i j j = v i := Function.update_self _ _ _

theorem swap_other (v : Nat → α) {i j k : Nat} (hi : k ≠ i) (hj : k ≠ j) : swap v i j k = v k := by
  unfold swap
  rw [Function.update_of_ne hj, Function.update_of_ne hi]

theorem swap_self (v : Nat → α) (i : Nat) : swap v i i = v := by
  funext k
  by_cases h : k = i
  · rw [h, swap_left]
  · exact swap_other v h h

variable {f : Nat → Nat}

/-- `n` turns of the cycle from `c`. A turn goes on to the next place, and swaps what is there with
what the start holds. -/
def cycle (f : Nat → Nat) (c : Nat) : Nat → Nat → (Nat → α) → (Nat → α)
  | 0, _, v => v
  | n + 1, pos, v => cycle f c n (f pos) (swap v (f pos) c)

theorem cycle_add (c m n pos : Nat) (v : Nat → α) :
    cycle f c (m + n) pos v = cycle f c n (f^[m] pos) (cycle f c m pos v) := by
  induction m generalizing pos v with
  | zero => rw [Nat.zero_add]; rfl
  | succ m ih => rw [Nat.succ_add, cycle, ih, Function.iterate_succ_apply]; rfl

/-- The places of a cycle are different ones up to its length, where it comes back. -/
structure IsCycle (f : Nat → Nat) (c len : Nat) : Prop where
  pos : 0 < len
  back : f^[len] c = c
  inj : ∀ i j, i < len → j < len → f^[i] c = f^[j] c → i = j

section
variable {c len : Nat}

theorem IsCycle.ne (h : IsCycle f c len) {j : Nat} (hj : j + 1 < len) : f^[j + 1] c ≠ c :=
  fun heq => absurd (h.inj (j + 1) 0 hj h.pos heq) (Nat.succ_ne_zero j)

/-- Inside the cycle: the values have moved on by one place up to here, and the start holds the one
that was here. -/
theorem IsCycle.turns (h : IsCycle f c len) (v : Nat → α) {n : Nat} (hn : n < len) :
    cycle f c n c v c = v (f^[n] c) ∧
      (∀ i, i < n → cycle f c n c v (f^[i + 1] c) = v (f^[i] c)) ∧
      (∀ k, k ≠ c → (∀ i, i < n → k ≠ f^[i + 1] c) → cycle f c n c v k = v k) := by
  induction n with
  | zero => exact ⟨rfl, fun i hi => absurd hi (Nat.not_lt_zero i), fun _ _ _ => rfl⟩
  | succ n ih =>
    obtain ⟨hstart, hmoved, hothers⟩ := ih (Nat.lt_of_succ_lt hn)
    have hlast : cycle f c (n + 1) c v = swap (cycle f c n c v) (f^[n + 1] c) c := by
      rw [cycle_add, Function.iterate_succ_apply']
      rfl
    have hne := h.ne hn
    have hdistinct : ∀ i, i < n → f^[n + 1] c ≠ f^[i + 1] c := fun i hi heq => by
      have := h.inj (n + 1) (i + 1) hn (by omega) heq
      omega
    refine ⟨?_, fun i hi => ?_, fun k hk hks => ?_⟩
    · rw [hlast, swap_right, hothers _ hne hdistinct]
    · rw [hlast]
      rcases Nat.lt_succ_iff_lt_or_eq.mp hi with hi | rfl
      · rw [swap_other _ (hdistinct i hi).symm (h.ne (by omega)), hmoved i hi]
      · rw [swap_left, hstart]
    · rw [hlast, swap_other _ (hks n (Nat.lt_succ_self n)) hk]
      exact hothers k hk fun i hi => hks i (Nat.lt_succ_of_lt hi)

/-- Once round: each value of the cycle is at the next place, and nothing else has moved. -/
theorem IsCycle.once (h : IsCycle f c len) (v : Nat → α) :
    (∀ i, i < len → cycle f c len c v (f^[i + 1] c) = v (f^[i] c)) ∧
      (∀ k, (∀ i, i < len → k ≠ f^[i] c) → cycle f c len c v k = v k) := by
  obtain ⟨n, rfl⟩ : ∃ n, len = n + 1 := ⟨len - 1, by have := h.pos; omega⟩
  obtain ⟨hstart, hmoved, hothers⟩ := h.turns v (Nat.lt_succ_self n)
  -- the last turn comes back to the start
  have hlast : cycle f c (n + 1) c v = cycle f c n c v := by
    have hback : f (f^[n] c) = c := (Function.iterate_succ_apply' f n c).symm.trans h.back
    rw [cycle_add]
    change swap _ (f (f^[n] c)) c = _
    rw [hback, swap_self]
  rw [hlast]
  refine ⟨fun i hi => ?_, fun k hk => ?_⟩
  · rcases Nat.lt_succ_iff_lt_or_eq.mp hi with hi | rfl
    · exact hmoved i hi
    · rw [h.back, hstart]
  · exact hothers k (hk 0 h.pos) fun i hi => hk (i + 1) (Nat.succ_lt_succ hi)

end

/-! ## All cycles -/

/-- The cycles from `c i`, `c (i + 1)` and so on. -/
def cycles (f : Nat → Nat) (c : Nat → Nat) (len : Nat) : Nat → Nat → (Nat → α) → (Nat → α)
  | _, 0, v => v
  | i, n + 1, v => cycles f c len (i + 1) n (cycle f (c i) len (c i) v)

/-- The cycles from the first `n` starts have no place in common. -/
structure AreCycles (f : Nat → Nat) (c : Nat → Nat) (len n : Nat) : Prop where
  cycle : ∀ i, i < n → IsCycle f (c i) len
  disjoint : ∀ i j k l, i < n → j < n → k < len → l < len → f^[k] (c i) = f^[l] (c j) → i = j

theorem cycles_spec {c : Nat → Nat} {len n : Nat} (h : AreCycles f c len n) (v : Nat → α)
    {i m : Nat} (him : i + m = n) :
    (∀ j k, i ≤ j → j < n → k < len → cycles f c len i m v (f^[k + 1] (c j)) = v (f^[k] (c j))) ∧
      (∀ x, (∀ j k, i ≤ j → j < n → k < len → x ≠ f^[k] (c j)) → cycles f c len i m v x = v x) := by
  induction m generalizing i v with
  | zero => exact ⟨fun j k hij hj _ => by omega, fun _ _ => rfl⟩
  | succ m ih =>
    obtain ⟨hmoved, hothers⟩ := (h.cycle i (by omega)).once v
    obtain ⟨hmoved', hothers'⟩ := ih (cycle f (c i) len (c i) v) (i := i + 1) (by omega)
    -- a place of one cycle is the next one of some place of it
    have hplace : ∀ j k, j < n → k < len → ∃ l, l < len ∧ f^[k + 1] (c j) = f^[l] (c j) := by
      intro j k hj hk
      have hcycle := h.cycle j hj
      rcases Nat.lt_or_ge (k + 1) len with hlt | hge
      · exact ⟨k + 1, hlt, rfl⟩
      · obtain rfl : len = k + 1 := by omega
        exact ⟨0, Nat.succ_pos k, hcycle.back⟩
    refine ⟨fun j k hij hj hk => ?_, fun x hx => ?_⟩
    · unfold cycles
      rcases Nat.lt_or_ge i j with hlt | hge
      · rw [hmoved' j k hlt hj hk]
        exact hothers _ fun l hl heq => by
          have := h.disjoint j i k l hj (by omega) hk hl heq
          omega
      · obtain rfl : j = i := by omega
        obtain ⟨l, hl, heq⟩ := hplace j k hj hk
        rw [hothers' _ fun j' k' hj' hlt hk' heq' => ?_, hmoved k hk]
        have := h.disjoint j j' l k' hj hlt hl hk' (heq ▸ heq')
        omega
    · unfold cycles
      rw [hothers' x fun j k hij hj hk => hx j k (by omega) hj hk]
      exact hothers x fun l hl => hx i l (Nat.le_refl i) (by omega) hl

/-! ## Rotations -/

/-- The block of `a` places from `start` and the block of `b` places behind it change places. -/
def shift (start a b : Nat) (pos : Nat) : Nat := if start + a ≤ pos then pos - a else pos + b

section
variable {start a b : Nat}

theorem shift_eq {r : Nat} (hr : r < a + b) :
    shift start a b (start + r) = start + (r + b) % (a + b) := by
  unfold shift
  split_ifs with h
  · have hmod : r + b = (r - a) + (a + b) := by omega
    rw [hmod, Nat.add_mod_right, Nat.mod_eq_of_lt (by omega)]
    omega
  · rw [Nat.mod_eq_of_lt (by omega)]
    omega

theorem shift_iterate {r : Nat} (hr : r < a + b) (k : Nat) :
    (shift start a b)^[k] (start + r) = start + (r + k * b) % (a + b) := by
  induction k with
  | zero => rw [Nat.zero_mul, Nat.add_zero, Nat.mod_eq_of_lt hr]; rfl
  | succ k ih =>
    rw [Function.iterate_succ_apply', ih, shift_eq (Nat.mod_lt _ (by omega)), Nat.mod_add_mod,
      Nat.succ_mul, Nat.add_assoc]

/-- The number of cycles, times their length. -/
theorem gcd_mul_len : Nat.gcd a b * ((a + b) / Nat.gcd a b) = a + b :=
  Nat.mul_div_cancel' (Nat.dvd_add (Nat.gcd_dvd_left a b) (Nat.gcd_dvd_right a b))

/-- The residue says on which cycle a place is. -/
theorem residue (r k : Nat) : ((r + k * b) % (a + b)) % Nat.gcd a b = r % Nat.gcd a b := by
  have hmul : (k * b) % Nat.gcd a b = 0 :=
    Nat.mod_eq_zero_of_dvd (Nat.dvd_mul_left_of_dvd (Nat.gcd_dvd_right a b) k)
  rw [Nat.mod_mod_of_dvd _ (Nat.dvd_add (Nat.gcd_dvd_left a b) (Nat.gcd_dvd_right a b)),
    Nat.add_mod, hmul, Nat.add_zero, Nat.mod_mod]

/-- Turns inside the length of a cycle that come to the same place are as many. -/
theorem turns_eq (hb : 0 < b) {r k l : Nat} (hk : k < (a + b) / Nat.gcd a b)
    (hl : l < (a + b) / Nat.gcd a b) (heq : (r + k * b) % (a + b) = (r + l * b) % (a + b)) :
    k = l := by
  have hmod : Nat.ModEq (a + b) (k * b) (l * b) := Nat.ModEq.add_left_cancel' r heq
  have hgcd : Nat.gcd (a + b) b = Nat.gcd a b := Nat.gcd_add_self_left b a
  have hcancel := Nat.ModEq.cancel_right_div_gcd (by omega) hmod
  rw [hgcd] at hcancel
  exact Nat.ModEq.eq_of_lt_of_lt hcancel hk hl

/-- The cycles start with the first places of the second block. -/
theorem cycle_place {i : Nat} (hb : 0 < b) (hi : i < Nat.gcd a b) (k : Nat) :
    (shift start a b)^[k] (start + a + i) = start + (a + i + k * b) % (a + b) := by
  have hle := Nat.gcd_le_right a hb
  rw [Nat.add_assoc, shift_iterate (by omega)]

theorem areCycles_shift (start : Nat) (hb : 0 < b) :
    AreCycles (shift start a b) (fun i => start + a + i) ((a + b) / Nat.gcd a b) (Nat.gcd a b) := by
  have hgcd : 0 < Nat.gcd a b := Nat.gcd_pos_of_pos_right a hb
  have hle := Nat.gcd_le_right a hb
  refine ⟨fun i hi => ⟨?_, ?_, fun k l hk hl heq => ?_⟩, fun i j k l hi hj _ _ heq => ?_⟩
  · exact Nat.div_pos (by omega) hgcd
  · have hlen : (a + b) / Nat.gcd a b * b = (a + b) * (b / Nat.gcd a b) := by
      rw [Nat.div_mul_right_comm (Nat.dvd_add (Nat.gcd_dvd_left a b) (Nat.gcd_dvd_right a b)),
        Nat.mul_div_assoc _ (Nat.gcd_dvd_right a b)]
    rw [cycle_place hb hi, hlen, Nat.add_mul_mod_self_left, Nat.mod_eq_of_lt (by omega),
      Nat.add_assoc]
  · rw [cycle_place hb hi, cycle_place hb hi] at heq
    exact turns_eq hb hk hl (Nat.add_left_cancel heq)
  · rw [cycle_place hb hi, cycle_place hb hj] at heq
    have hsame := congrArg (· % Nat.gcd a b) (Nat.add_left_cancel heq)
    have hstart : ∀ m, m < Nat.gcd a b → (a + m) % Nat.gcd a b = m := by
      intro m hm
      rw [Nat.add_mod, Nat.mod_eq_zero_of_dvd (Nat.gcd_dvd_left a b), Nat.zero_add, Nat.mod_mod,
        Nat.mod_eq_of_lt hm]
    rwa [residue, residue, hstart i hi, hstart j hj] at hsame

/-- Every place is on one of the cycles: there are as many places on the cycles as there are at
all. -/
theorem exists_cycle (start : Nat) (hb : 0 < b) {r : Nat} (hr : r < a + b) :
    ∃ i k, i < Nat.gcd a b ∧ k < (a + b) / Nat.gcd a b ∧
      (shift start a b)^[k] (start + a + i) = start + r := by
  have h := areCycles_shift (a := a) start hb
  let place : Fin (Nat.gcd a b) × Fin ((a + b) / Nat.gcd a b) → Fin (a + b) := fun x =>
    ⟨(a + x.1.val + x.2.val * b) % (a + b), Nat.mod_lt _ (by omega)⟩
  have hinj : Function.Injective place := by
    rintro ⟨⟨i, hi⟩, ⟨k, hk⟩⟩ ⟨⟨j, hj⟩, ⟨l, hl⟩⟩ heq
    have heq : (a + i + k * b) % (a + b) = (a + j + l * b) % (a + b) := congrArg Fin.val heq
    have hsame : (shift start a b)^[k] (start + a + i) = (shift start a b)^[l] (start + a + j) := by
      rw [cycle_place hb hi, cycle_place hb hj, heq]
    obtain rfl := h.disjoint i j k l hi hj hk hl hsame
    obtain rfl := (h.cycle i hi).inj k l hk hl hsame
    rfl
  have hcard : Fintype.card (Fin (Nat.gcd a b) × Fin ((a + b) / Nat.gcd a b)) =
      Fintype.card (Fin (a + b)) := by
    rw [Fintype.card_prod, Fintype.card_fin, Fintype.card_fin, Fintype.card_fin, gcd_mul_len]
  have hsurj := ((Fintype.bijective_iff_injective_and_card place).mpr ⟨hinj, hcard⟩).2
  obtain ⟨⟨⟨i, hi⟩, ⟨k, hk⟩⟩, hplace⟩ := hsurj ⟨r, hr⟩
  have hplace : (a + i + k * b) % (a + b) = r := congrArg Fin.val hplace
  exact ⟨i, k, hi, hk, by rw [cycle_place hb hi, hplace]⟩

/-- The cycles together exchange the two blocks, and leave the rest of the array as it is. -/
theorem cycles_shift (start : Nat) (hb : 0 < b) (v : Nat → α) :
    (∀ r, r < a + b → cycles (shift start a b) (fun i => start + a + i) ((a + b) / Nat.gcd a b) 0
        (Nat.gcd a b) v (shift start a b (start + r)) = v (start + r)) ∧
      (∀ x, x < start ∨ start + (a + b) ≤ x → cycles (shift start a b) (fun i => start + a + i)
        ((a + b) / Nat.gcd a b) 0 (Nat.gcd a b) v x = v x) := by
  obtain ⟨hmoved, hothers⟩ := cycles_spec (areCycles_shift (a := a) start hb) v (Nat.zero_add _)
  refine ⟨fun r hr => ?_, fun x hx => hothers x fun i k _ hi _ heq => ?_⟩
  · obtain ⟨i, k, hi, hk, hplace⟩ := exists_cycle start hb hr
    rw [← hplace, ← Function.iterate_succ_apply' (shift start a b)]
    exact hmoved i k (Nat.zero_le i) hi hk
  · rw [cycle_place hb hi] at heq
    have hlt := Nat.mod_lt (a + i + k * b) (by omega : 0 < a + b)
    omega

end

end Httperf.Cycles
