-- Open addressing with linear probing: a key is looked for from its home on, slot by slot and
-- around the end of the table, up to a free slot. Nothing is ever taken out.
import Mathlib.Algebra.Order.BigOperators.Group.Finset
import Mathlib.Data.Finset.Card
import Mathlib.Data.List.Basic
import Mathlib.Logic.Function.Basic

namespace Httperf.Lib.Probing

/-- The slot behind `i`. -/
def next (size i : Nat) : Nat := if size ≤ i + 1 then 0 else i + 1

section
variable {α : Type}

/-- The first free slot from `i` on. -/
def place (size : Nat) (table : Nat → Option α) : Nat → Nat → Option Nat
  | 0, _ => none
  | fuel + 1, i => if (table i).isSome then place size table fuel (next size i) else some i

/-- The first entry from `i` on that `p` accepts, up to a free slot or back to `start`. -/
def find (size : Nat) (table : Nat → Option α) (p : α → Bool) (start : Nat) :
    Nat → Nat → Option (Option α)
  | 0, _ => none
  | fuel + 1, i =>
    match table i with
    | none => some none
    | some a =>
      if p a then some (some a)
      else if next size i = start then some none
      else find size table p start fuel (next size i)

/-- The slot `d` steps behind `start`. -/
def probe (size start d : Nat) : Nat := (start + d) % size

variable {size start d i : Nat} {table : Nat → Option α}

theorem probe_lt (hsize : 0 < size) : probe size start d < size := Nat.mod_lt _ hsize

theorem probe_zero (h : start < size) : probe size start 0 = start := Nat.mod_eq_of_lt h

theorem next_probe (hsize : 0 < size) :
    next size (probe size start d) = probe size start (d + 1) := by
  have hlt : probe size start d < size := probe_lt hsize
  unfold next probe at *
  rw [← Nat.add_assoc, Nat.add_mod (start + d) 1 size]
  split_ifs with h
  · have heq : (start + d) % size = size - 1 := by omega
    rcases Nat.eq_or_lt_of_le (Nat.succ_le_of_lt hsize) with hone | hone
    · rw [← hone]
      simp [Nat.mod_one]
    · rw [heq, Nat.mod_eq_of_lt hone, Nat.sub_add_cancel hsize, Nat.mod_self]
  · have hone : 1 < size := by omega
    have hsum : (start + d) % size + 1 < size := by omega
    rw [Nat.mod_eq_of_lt hone, Nat.mod_eq_of_lt hsum]

/-- The steps lead to every slot. -/
theorem exists_probe (start : Nat) (hi : i < size) : ∃ d < size, probe size start d = i := by
  have hpos : 0 < size := by omega
  have hle := Nat.mod_lt start hpos
  refine ⟨(i + size - start % size) % size, Nat.mod_lt _ hpos, ?_⟩
  have hsum : start % size + (i + size - start % size) = i + size := by omega
  unfold probe
  rw [Nat.add_mod_mod, ← Nat.mod_add_mod, hsum, Nat.add_mod_right, Nat.mod_eq_of_lt hi]

/-! ## The two loops -/

theorem place_probe (hsize : 0 < size) {d e : Nat} (hde : d ≤ e)
    (hfull : ∀ c, d ≤ c → c < e → (table (probe size start c)).isSome)
    (hfree : table (probe size start e) = none) {fuel : Nat} (hfuel : e - d < fuel) :
    place size table fuel (probe size start d) = some (probe size start e) := by
  induction fuel generalizing d with
  | zero => omega
  | succ fuel ih =>
    unfold place
    rcases Nat.eq_or_lt_of_le hde with rfl | hlt
    · rw [hfree]
      rfl
    · rw [if_pos (hfull d (Nat.le_refl _) hlt), next_probe hsize]
      exact ih hlt (fun c hc => hfull c (by omega)) (by omega)

theorem place_full (hsize : 0 < size) (hfull : ∀ i < size, (table i).isSome) (fuel : Nat) :
    place size table fuel (probe size start d) = none := by
  induction fuel generalizing d with
  | zero => rfl
  | succ fuel ih =>
    unfold place
    rw [if_pos (hfull _ (probe_lt hsize)), next_probe hsize]
    exact ih

theorem place_mono {fuel fuel' j : Nat} (h : place size table fuel i = some j)
    (hle : fuel ≤ fuel') :
    place size table fuel' i = some j := by
  induction fuel generalizing i fuel' with
  | zero => cases h
  | succ fuel ih =>
    obtain ⟨n, rfl⟩ := Nat.exists_eq_succ_of_ne_zero (Nat.ne_zero_of_lt hle)
    unfold place at h ⊢
    split_ifs at h ⊢
    · exact ih h (Nat.le_of_succ_le_succ hle)
    · exact h

theorem probe_ne (hstart : start < size) (hpos : 0 < d) (hd : d < size) :
    probe size start d ≠ start := by
  unfold probe
  rcases Nat.lt_or_ge (start + d) size with h | h
  · rw [Nat.mod_eq_of_lt h]
    omega
  · rw [Nat.mod_eq_sub_mod h, Nat.mod_eq_of_lt (by omega)]
    omega

theorem probe_size (hstart : start < size) : probe size start size = start := by
  unfold probe
  rw [Nat.add_mod_right, Nat.mod_eq_of_lt hstart]

theorem find_first {p : α → Bool} (hstart : start < size) {d e : Nat} (hde : d ≤ e)
    (he : e < size) {a : α} (ha : table (probe size start e) = some a) (hp : p a = true)
    (hbefore : ∀ c, d ≤ c → c < e → ∃ b, table (probe size start c) = some b ∧ p b = false)
    {fuel : Nat} (hfuel : e - d < fuel) :
    find size table p start fuel (probe size start d) = some (some a) := by
  induction fuel generalizing d with
  | zero => omega
  | succ fuel ih =>
    unfold find
    rcases Nat.eq_or_lt_of_le hde with rfl | hlt
    · rw [ha]
      dsimp only
      rw [if_pos hp]
    · obtain ⟨b, hb, hpb⟩ := hbefore d (Nat.le_refl _) hlt
      rw [hb]
      dsimp only
      rw [if_neg (by simp [hpb]), next_probe (by omega),
        if_neg (probe_ne hstart (Nat.succ_pos d) (by omega))]
      exact ih hlt (fun c hc => hbefore c (by omega)) (by omega)

theorem find_none {p : α → Bool} (hstart : start < size)
    (hnone : ∀ i < size, ∀ a, table i = some a → p a = false) {d : Nat} (hd : d < size) {fuel : Nat}
    (hfuel : size - d ≤ fuel) : find size table p start fuel (probe size start d) = some none := by
  induction fuel generalizing d with
  | zero => omega
  | succ fuel ih =>
    unfold find
    cases ht : table (probe size start d) with
    | none => rfl
    | some a =>
      dsimp only
      rw [if_neg (by simp [hnone _ (probe_lt (by omega)) a ht]), next_probe (by omega)]
      split_ifs with hback
      · rfl
      · have hlt : d + 1 < size := by
          rcases Nat.eq_or_lt_of_le (Nat.succ_le_of_lt hd) with heq | hlt
          · rw [show d + 1 = size from heq, probe_size hstart] at hback
            exact absurd rfl hback
          · exact hlt
        exact ih hlt (by omega)

end

/-! ## What the table holds -/

section
variable {α κ : Type} [DecidableEq κ] (size : Nat) (key : α → κ) (home : κ → Nat)

/-- The entries of `log`, the oldest first, were put into the table. Of those with one key, the
first one stands in front. -/
structure Holds (table : Nat → Option α) (log : List α) : Prop where
  entries : ∀ i < size, ∀ a, table i = some a → a ∈ log
  first : ∀ k a, log.find? (fun b => key b = k) = some a →
    ∃ d < size, table (probe size (home k) d) = some a ∧
      ∀ c < d, ∃ b, table (probe size (home k) c) = some b ∧ key b ≠ k
  count : ((Finset.range size).filter fun i => (table i).isSome).card = log.length

theorem holds_empty : Holds size key home (fun _ => none) [] :=
  ⟨fun _ _ _ h => (by cases h), fun _ _ h => (by cases h), by simp⟩

variable {size key home} {table : Nat → Option α} {log : List α}

/-- A key is found with its first entry. -/
theorem Holds.lookup (h : Holds size key home table log) {k : κ} (hhome : home k < size)
    {fuel : Nat} (hfuel : size ≤ fuel) :
    find size table (fun b => key b = k) (home k) fuel (home k) =
      some (log.find? fun b => key b = k) := by
  have hpos : 0 < size := by omega
  have hstart : probe size (home k) 0 = home k := probe_zero hhome
  cases hlog : log.find? fun b => key b = k with
  | none =>
    have hnone : ∀ i < size, ∀ a, table i = some a → decide (key a = k) = false := by
      intro i hi a ha
      have hmem := List.find?_eq_none.mp hlog a (h.entries i hi a ha)
      simpa using hmem
    have hfind := find_none hhome hnone hpos (Nat.sub_zero size ▸ hfuel)
    rwa [hstart] at hfind
  | some a =>
    obtain ⟨d, hd, ha, hbefore⟩ := h.first k a hlog
    have hkey : decide (key a = k) = true := by
      have := List.find?_some hlog
      exact this
    have hothers : ∀ c, 0 ≤ c → c < d →
        ∃ b, table (probe size (home k) c) = some b ∧ decide (key b = k) = false := by
      intro c _ hc
      obtain ⟨b, hb, hne⟩ := hbefore c hc
      exact ⟨b, hb, decide_eq_false hne⟩
    have henough : d - 0 < fuel := by omega
    have hfind := find_first hhome (Nat.zero_le d) hd ha hkey hothers henough
    rwa [hstart] at hfind

/-- As long as the table is not full, there is a place. -/
theorem Holds.room (h : Holds size key home table log) (hroom : log.length < size) {start : Nat}
    (hstart : start < size) {fuel : Nat} (hfuel : size ≤ fuel) :
    ∃ d < size, place size table fuel start = some (probe size start d) ∧
      table (probe size start d) = none ∧ ∀ c < d, (table (probe size start c)).isSome := by
  have hpos : 0 < size := by omega
  have hfree : ∃ d, d < size ∧ table (probe size start d) = none := by
    by_contra hall
    push Not at hall
    have hfull : ∀ i < size, (table i).isSome := by
      intro i hi
      obtain ⟨d, hd, rfl⟩ := exists_probe start hi
      exact Option.isSome_iff_ne_none.mpr (hall d hd)
    have hcount := h.count
    rw [Finset.filter_true_of_mem fun i hi => hfull i (Finset.mem_range.mp hi),
      Finset.card_range] at hcount
    omega
  have hmin := Nat.find_spec hfree
  have hbefore : ∀ c < Nat.find hfree, (table (probe size start c)).isSome := by
    intro c hc
    have hne := Nat.find_min hfree hc
    rw [not_and] at hne
    exact Option.isSome_iff_ne_none.mpr (hne (by omega))
  refine ⟨Nat.find hfree, hmin.1, ?_, hmin.2, hbefore⟩
  have henough : Nat.find hfree - 0 < fuel := by omega
  have hplace :=
    place_probe hpos (Nat.zero_le (Nat.find hfree)) (fun c _ hc => hbefore c hc) hmin.2 henough
  rwa [probe_zero hstart] at hplace

/-- When it is full, the search for a place goes round for ever. -/
theorem Holds.no_room (h : Holds size key home table log) (hfull : size ≤ log.length) {start : Nat}
    (hstart : start < size) (fuel : Nat) : place size table fuel start = none := by
  have hall : ∀ i < size, (table i).isSome := by
    have hcard : (Finset.range size).card ≤
        ((Finset.range size).filter fun i => (table i).isSome).card := by
      rw [h.count, Finset.card_range]
      exact hfull
    have heq := Finset.eq_of_subset_of_card_le (Finset.filter_subset _ _) hcard
    intro i hi
    have hmem : i ∈ (Finset.range size).filter fun i => (table i).isSome := by
      rw [heq]
      exact Finset.mem_range.mpr hi
    exact (Finset.mem_filter.mp hmem).2
  have hplace : place size table fuel (probe size start 0) = none := place_full (by omega) hall fuel
  rwa [probe_zero hstart] at hplace

/-- An entry in the first free slot from the home of its key on. -/
theorem Holds.put (h : Holds size key home table log) {a : α} {d : Nat} (hd : d < size)
    (hfree : table (probe size (home (key a)) d) = none)
    (hbefore : ∀ c < d, (table (probe size (home (key a)) c)).isSome) :
    Holds size key home (Function.update table (probe size (home (key a)) d) (some a))
      (log ++ [a]) := by
  have hpos : 0 < size := by omega
  -- slots that hold something are not touched
  have hkeep : ∀ {i b}, table i = some b →
      Function.update table (probe size (home (key a)) d) (some a) i = some b := by
    intro i b hb
    rw [Function.update_of_ne, hb]
    rintro rfl
    rw [hfree] at hb
    cases hb
  refine ⟨fun i hi b hb => ?_, fun k b hb => ?_, ?_⟩
  · by_cases hid : i = probe size (home (key a)) d
    · subst hid
      rw [Function.update_self] at hb
      obtain rfl := Option.some.inj hb
      exact List.mem_append_right _ (List.mem_singleton.mpr rfl)
    · rw [Function.update_of_ne hid] at hb
      exact List.mem_append_left _ (h.entries i hi b hb)
  · rw [List.find?_append] at hb
    cases hlog : log.find? fun b => key b = k with
    | some b' =>
      rw [hlog] at hb
      obtain rfl := Option.some.inj hb
      obtain ⟨e, he, hat, hothers⟩ := h.first k b' hlog
      refine ⟨e, he, hkeep hat, fun c hc => ?_⟩
      obtain ⟨x, hx, hne⟩ := hothers c hc
      exact ⟨x, hkeep hx, hne⟩
    | none =>
      rw [hlog, Option.none_or] at hb
      obtain rfl : a = b := by
        have hmem := List.mem_of_find?_eq_some hb
        exact (List.mem_singleton.mp hmem).symm
      obtain rfl : key a = k := by
        have := List.find?_some hb
        simpa using this
      refine ⟨d, hd, Function.update_self .., fun c hc => ?_⟩
      obtain ⟨x, hx⟩ := Option.isSome_iff_exists.mp (hbefore c hc)
      refine ⟨x, hkeep hx, ?_⟩
      have hmem := List.find?_eq_none.mp hlog x (h.entries _ (probe_lt hpos) x hx)
      simpa using hmem
  · have hset : (Finset.range size).filter (fun i =>
        (Function.update table (probe size (home (key a)) d) (some a) i).isSome) =
        insert (probe size (home (key a)) d)
          ((Finset.range size).filter fun i => (table i).isSome) := by
      ext i
      rw [Finset.mem_insert, Finset.mem_filter, Finset.mem_filter, Finset.mem_range]
      by_cases hid : i = probe size (home (key a)) d
      · subst hid
        simp [probe_lt hpos]
      · rw [Function.update_of_ne hid]
        simp [hid]
    rw [hset, Finset.card_insert_of_notMem (by simp [hfree]), h.count, List.length_append,
      List.length_singleton]

end

end Httperf.Lib.Probing
