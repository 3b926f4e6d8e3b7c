-- Decoders of a stream. A decoder takes a value off the front of the input, or waits for more of
-- it. When more input never changes a value that is there, a row of messages is decoded into the
-- same values however it arrives.
import Mathlib.Data.List.Basic
import Mathlib.Algebra.Order.Group.Nat

namespace Httperf.Codec

variable {α β γ : Type}

/-- `none` waits for more input. `some` has the value, and the input behind it. -/
abbrev Dec (β α : Type) := List β → Option (α × List β)

/-- More input does not change the value. -/
def Stable (d : Dec β α) : Prop := ∀ b a r c, d b = some (a, r) → d (b ++ c) = some (a, r ++ c)

/-- No value comes from nothing. -/
def Takes (d : Dec β α) : Prop := ∀ b a r, d b = some (a, r) → r.length < b.length

/-- What stays unread ends where the input ends. -/
def Fronts (d : Dec β α) : Prop := ∀ b a r, d b = some (a, r) → r <:+ b

/-! ## Decoders from decoders -/

/-- One value, and behind it the value that the first one asks for. -/
def seq (d : Dec β α) (f : α → Dec β γ) : Dec β γ := fun b =>
  match d b with
  | none => none
  | some (a, r) => f a r

def map (f : α → γ) (d : Dec β α) : Dec β γ := fun b => (d b).map fun x => (f x.1, x.2)

/-- The next `n` elements. -/
def take (n : Nat) : Dec β (List β) := fun b =>
  if n ≤ b.length then some (b.take n, b.drop n) else none

/-- Values up to one that closes the row, which is left out. -/
def rows (stop : α → Bool) (d : Dec β α) : Dec β (List α) := fun b =>
  match d b with
  | none => none
  | some (a, r) =>
    if stop a then some ([], r)
    else if _h : r.length < b.length then (rows stop d r).map fun x => (a :: x.1, x.2)
    else none
termination_by b => b.length

theorem Stable.seq {d : Dec β α} {f : α → Dec β γ} (hd : Stable d) (hf : ∀ a, Stable (f a)) :
    Stable (seq d f) := by
  intro b x r c h
  unfold Codec.seq at h ⊢
  cases hb : d b with
  | none => rw [hb] at h; cases h
  | some v =>
    obtain ⟨a, r1⟩ := v
    rw [hb] at h
    rw [hd b a r1 c hb]
    exact hf a r1 x r c h

theorem Stable.map {d : Dec β α} (f : α → γ) (hd : Stable d) : Stable (map f d) := by
  intro b x r c h
  unfold Codec.map at h ⊢
  obtain ⟨⟨a, r1⟩, hb, heq⟩ := Option.map_eq_some_iff.mp h
  obtain ⟨rfl, rfl⟩ := Prod.mk.inj heq
  rw [hd b a r1 c hb]
  rfl

theorem stable_take (n : Nat) : Stable (take (β := β) n) := by
  intro b x r c h
  unfold take at h ⊢
  split_ifs at h with hn
  obtain ⟨rfl, rfl⟩ := Prod.mk.inj (Option.some.inj h)
  rw [if_pos (by rw [List.length_append]; omega), List.take_append_of_le_length hn,
    List.drop_append_of_le_length hn]

theorem rows_stop {stop : α → Bool} {d : Dec β α} {b r : List β} {a : α} (hb : d b = some (a, r))
    (hstop : stop a = true) : rows stop d b = some ([], r) := by
  rw [rows, hb]
  simp only [hstop, if_true]

theorem rows_more {stop : α → Bool} {d : Dec β α} (ht : Takes d) {b r : List β} {a : α}
    (hb : d b = some (a, r)) (hstop : stop a = false) :
    rows stop d b = (rows stop d r).map fun x => (a :: x.1, x.2) := by
  rw [rows, hb]
  simp only [hstop, Bool.false_eq_true, if_false, ht b a r hb, dite_true]

theorem Stable.rows {stop : α → Bool} {d : Dec β α} (hd : Stable d) (ht : Takes d) :
    Stable (rows stop d) := by
  intro b
  induction hn : b.length using Nat.strongRecOn generalizing b with
  | ind n ih =>
    intro x r c h
    cases hb : d b with
    | none => rw [Codec.rows, hb] at h; cases h
    | some v =>
      obtain ⟨a, r1⟩ := v
      have hbc := hd b a r1 c hb
      cases hstop : stop a with
      | true =>
        rw [rows_stop hb hstop] at h
        obtain ⟨rfl, rfl⟩ := Prod.mk.inj (Option.some.inj h)
        exact rows_stop hbc hstop
      | false =>
        rw [rows_more ht hb hstop] at h
        obtain ⟨⟨xs, r2⟩, hr, heq⟩ := Option.map_eq_some_iff.mp h
        obtain ⟨rfl, rfl⟩ := Prod.mk.inj heq
        rw [rows_more ht hbc hstop, ih r1.length (hn ▸ ht b a r1 hb) r1 rfl xs r2 c hr]
        rfl

theorem Fronts.seq {d : Dec β α} {f : α → Dec β γ} (hd : Fronts d) (hf : ∀ a, Fronts (f a)) :
    Fronts (seq d f) := by
  intro b x r h
  unfold Codec.seq at h
  cases hb : d b with
  | none => rw [hb] at h; cases h
  | some v =>
    rw [hb] at h
    exact (hf v.1 v.2 x r h).trans (hd b v.1 v.2 hb)

theorem Fronts.map {d : Dec β α} (f : α → γ) (hd : Fronts d) : Fronts (map f d) := by
  intro b x r h
  unfold Codec.map at h
  obtain ⟨⟨a, r1⟩, hb, heq⟩ := Option.map_eq_some_iff.mp h
  obtain ⟨-, rfl⟩ := Prod.mk.inj heq
  exact hd b a r1 hb

theorem fronts_take (n : Nat) : Fronts (take (β := β) n) := by
  intro b x r h
  unfold take at h
  split_ifs at h
  obtain ⟨-, rfl⟩ := Prod.mk.inj (Option.some.inj h)
  exact List.drop_suffix n b

theorem Fronts.rows {stop : α → Bool} {d : Dec β α} (hd : Fronts d) (ht : Takes d) :
    Fronts (rows stop d) := by
  intro b
  induction hn : b.length using Nat.strongRecOn generalizing b with
  | ind n ih =>
    intro x r h
    cases hb : d b with
    | none => rw [Codec.rows, hb] at h; cases h
    | some v =>
      obtain ⟨a, r1⟩ := v
      cases hstop : stop a with
      | true =>
        rw [rows_stop hb hstop] at h
        obtain ⟨-, rfl⟩ := Prod.mk.inj (Option.some.inj h)
        exact hd b a r1 hb
      | false =>
        rw [rows_more ht hb hstop] at h
        obtain ⟨⟨xs, r2⟩, hr, heq⟩ := Option.map_eq_some_iff.mp h
        obtain ⟨-, rfl⟩ := Prod.mk.inj heq
        exact (ih r1.length (hn ▸ ht b a r1 hb) r1 rfl xs r2 hr).trans (hd b a r1 hb)

/-- The first value takes some of the input, and so the whole does. -/
theorem Takes.seq {d : Dec β α} {f : α → Dec β γ} (hd : Takes d) (hf : ∀ a, Fronts (f a)) :
    Takes (seq d f) := by
  intro b x r h
  unfold Codec.seq at h
  cases hb : d b with
  | none => rw [hb] at h; cases h
  | some v =>
    rw [hb] at h
    exact Nat.lt_of_le_of_lt (hf v.1 v.2 x r h).length_le (hd b v.1 v.2 hb)

/-! ## What an encoding is decoded to -/

/-- The decoder takes the word `w` for the value `a`, whatever follows. -/
def Codes (d : Dec β α) (w : List β) (a : α) : Prop := ∀ r, d (w ++ r) = some (a, r)

theorem Codes.seq {d : Dec β α} {f : α → Dec β γ} {v w : List β} {a : α} {x : γ} (hd : Codes d v a)
    (hf : Codes (f a) w x) : Codes (seq d f) (v ++ w) x := by
  intro r
  unfold Codec.seq
  rw [List.append_assoc, hd (w ++ r)]
  exact hf r

theorem Codes.map {d : Dec β α} (f : α → γ) {w : List β} {a : α} (hd : Codes d w a) :
    Codes (map f d) w (f a) := by
  intro r
  unfold Codec.map
  rw [hd r]
  rfl

theorem codes_take (w : List β) : Codes (take w.length) w w := by
  intro r
  unfold take
  rw [if_pos (by rw [List.length_append]; omega), List.take_left, List.drop_left]

theorem codes_rows {stop : α → Bool} {d : Dec β α} (ht : Takes d) {enc : α → List β} {xs : List α}
    {e : List β} {z : α} (hxs : ∀ x ∈ xs, Codes d (enc x) x ∧ stop x = false) (he : Codes d e z)
    (hz : stop z = true) : Codes (rows stop d) ((xs.map enc).flatten ++ e) xs := by
  intro r
  induction xs with
  | nil => exact rows_stop (he r) hz
  | cons x xs ih =>
    obtain ⟨hx, hstop⟩ := hxs x List.mem_cons_self
    have hrest := ih fun y hy => hxs y (List.mem_cons_of_mem _ hy)
    have hfirst := hx ((xs.map enc).flatten ++ e ++ r)
    rw [List.map_cons, List.flatten_cons, List.append_assoc, List.append_assoc,
      ← List.append_assoc (xs.map enc).flatten, rows_more ht hfirst hstop, hrest]
    rfl

/-- A word is not taken before its last element is there. -/
theorem Codes.prefix_none {d : Dec β α} (hd : Stable d) {w p q : List β} {a : α} (h : Codes d w a)
    (hw : p ++ q = w) (hq : q ≠ []) : d p = none := by
  cases hp : d p with
  | none => rfl
  | some v =>
    have hwhole := hd p v.1 v.2 q hp
    have hcode := h []
    rw [List.append_nil, ← hw, hwhole, Option.some.injEq, Prod.mk.injEq] at hcode
    exact absurd (List.append_eq_nil_iff.mp hcode.2).2 hq

/-- A value that is taken off the front of the stream is the one of the first word there. -/
theorem Codes.first {d : Dec β α} (hd : Stable d) {w b c r rest : List β} {a v : α}
    (h : Codes d w a) (hb : b ++ c = w ++ r) (hv : d b = some (v, rest)) : v = a ∧
    rest ++ c = r := by
  have hwhole := hd b v rest c hv
  rw [hb, h r, Option.some.injEq, Prod.mk.injEq] at hwhole
  exact ⟨hwhole.1.symm, hwhole.2.symm⟩

/-! ## A stream of messages -/

/-- All values that are there, and the input that is left. -/
def all (d : Dec β α) (b : List β) : List α × List β :=
  match d b with
  | none => ([], b)
  | some (a, r) => if _h : r.length < b.length then (a :: (all d r).1, (all d r).2) else ([], b)
termination_by b.length

theorem all_none {d : Dec β α} {b : List β} (h : d b = none) : all d b = ([], b) := by
  rw [all, h]

theorem all_some {d : Dec β α} (ht : Takes d) {b r : List β} {a : α} (h : d b = some (a, r)) :
    all d b = (a :: (all d r).1, (all d r).2) := by
  rw [all, h]
  simp only [ht b a r h, dite_true]

theorem Takes.nil {d : Dec β α} (ht : Takes d) : d [] = none := by
  cases hd : d [] with
  | none => rfl
  | some v => exact absurd (ht [] v.1 v.2 hd) (Nat.not_lt_zero _)

/-- Of a part of a row of messages those are decoded that are in it as a whole. -/
theorem all_prefix {d : Dec β α} (hd : Stable d) (ht : Takes d) {ι : Type} {word : ι → List β}
    {value : ι → α} {xs : List ι} (hxs : ∀ x ∈ xs, Codes d (word x) (value x)) {b : List β}
    (hb : b <+: (xs.map word).flatten) :
    ∃ n, n ≤ xs.length ∧ ((xs.take n).map word).flatten <+: b ∧
      (∀ x, xs[n]? = some x → b.length < (((xs.take n).map word).flatten ++ word x).length) ∧
      all d b = ((xs.take n).map value, b.drop ((xs.take n).map word).flatten.length) := by
  induction xs generalizing b with
  | nil =>
    obtain rfl := List.prefix_nil.mp hb
    exact ⟨0, Nat.le_refl 0, List.nil_prefix, fun x hx => (by simp at hx), all_none ht.nil⟩
  | cons x xs ih =>
    have hcode := hxs x List.mem_cons_self
    rw [List.map_cons, List.flatten_cons] at hb
    rcases Nat.lt_or_ge b.length (word x).length with hlt | hge
    · -- not even the first message is there
      obtain ⟨q, hq⟩ :=
        List.prefix_of_prefix_length_le hb (List.prefix_append _ _) (Nat.le_of_lt hlt)
      have hne : q ≠ [] := by
        rintro rfl
        rw [← hq, List.append_nil] at hlt
        exact absurd hlt (Nat.lt_irrefl _)
      refine ⟨0, Nat.zero_le _, List.nil_prefix, fun y hy => ?_, ?_⟩
      · obtain rfl := Option.some.inj hy
        simpa using hlt
      · exact all_none (hcode.prefix_none hd hq hne)
    · obtain ⟨c, rfl⟩ := List.prefix_of_prefix_length_le (List.prefix_append _ _) hb hge
      obtain ⟨n, hn, hfront, hnext, hall⟩ := ih (fun y hy => hxs y (List.mem_cons_of_mem _ hy))
        ((List.prefix_append_right_inj _).mp hb)
      refine ⟨n + 1, Nat.succ_le_succ hn, ?_, fun y hy => ?_, ?_⟩
      · rw [List.take_succ_cons, List.map_cons, List.flatten_cons]
        exact (List.prefix_append_right_inj _).mpr hfront
      · have hlen := hnext y hy
        rw [List.take_succ_cons, List.map_cons, List.flatten_cons, List.append_assoc,
          List.length_append, List.length_append]
        omega
      · rw [all_some ht (hcode c), hall, List.take_succ_cons, List.map_cons, List.map_cons,
          List.flatten_cons, List.length_append, ← List.drop_drop, List.drop_left]

end Httperf.Codec
