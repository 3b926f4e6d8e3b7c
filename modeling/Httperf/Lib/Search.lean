-- The first place at which a word stands in a text.
import Mathlib.Data.List.Basic
import Mathlib.Data.List.Infix

namespace Httperf.Lib

variable {α : Type} [DecidableEq α]

/-- Where `word` stands in the text for the first time. -/
def find (word : List α) : List α → Option Nat
  | [] => if word = [] then some 0 else none
  | c :: s => if word <+: c :: s then some 0 else (find word s).map (· + 1)

variable {word s : List α}

theorem find_of_start (h : word <+: s) : find word s = some 0 := by
  cases s with
  | nil => exact if_pos (List.prefix_nil.mp h)
  | cons c s => exact if_pos h

theorem find_cons_of_not_start {c : α} (h : ¬ word <+: c :: s) :
    find word (c :: s) = (find word s).map (· + 1) :=
  if_neg h

theorem find_eq_some {i : Nat} (h : find word s = some i) :
    ∃ p r, s = p ++ word ++ r ∧ p.length = i := by
  induction s generalizing i with
  | nil =>
    unfold find at h
    split at h
    · rename_i hword
      exact ⟨[], [], by rw [hword]; rfl, Option.some.inj h⟩
    · nomatch h
  | cons c s ih =>
    by_cases hstart : word <+: c :: s
    · rw [find_of_start hstart] at h
      obtain ⟨r, hr⟩ := hstart
      exact ⟨[], r, by rw [← hr]; rfl, Option.some.inj h⟩
    · rw [find_cons_of_not_start hstart] at h
      obtain ⟨j, hj, rfl⟩ := Option.map_eq_some_iff.mp h
      obtain ⟨p, r, rfl, rfl⟩ := ih hj
      exact ⟨c :: p, r, rfl, rfl⟩

/-- A place where the word stands is the first one, or comes behind it. -/
theorem find_le (word p r : List α) : ∃ i ≤ p.length, find word (p ++ word ++ r) = some i := by
  induction p with
  | nil => exact ⟨0, le_rfl, find_of_start ⟨r, rfl⟩⟩
  | cons c p ih =>
    by_cases hstart : word <+: c :: (p ++ word ++ r)
    · exact ⟨0, Nat.zero_le _, find_of_start hstart⟩
    · obtain ⟨i, hi, hfind⟩ := ih
      refine ⟨i + 1, Nat.succ_le_succ hi, ?_⟩
      rw [List.cons_append, List.cons_append, find_cons_of_not_start hstart, hfind]
      rfl

theorem find_eq_none_iff : find word s = none ↔ ¬ word <:+: s := by
  constructor
  · rintro h ⟨p, r, rfl⟩
    obtain ⟨i, _, hfind⟩ := find_le word p r
    rw [h] at hfind
    nomatch hfind
  · intro h
    cases hfind : find word s with
    | none => rfl
    | some i =>
      obtain ⟨p, r, rfl, _⟩ := find_eq_some hfind
      exact absurd ⟨p, r, rfl⟩ h

/-- A word that stands only at the end of `h` is found there in `h ++ r`, or it is found further
on. -/
theorem find_append {h r : List α} (hend : ∀ p q, h = p ++ word ++ q → q = []) {i : Nat}
    (hfind : find word (h ++ r) = some i) :
    (word <:+ h ∧ i + word.length = h.length) ∨ (¬ word <:+ h ∧ h.length < i + word.length) := by
  obtain ⟨p, q, heq, rfl⟩ := find_eq_some hfind
  have hinside (hle : p.length + word.length ≤ h.length) : h = p ++ word ∧ word <:+ h := by
    have hwhole : p ++ word <+: h ++ r := ⟨q, heq.symm⟩
    have hstart : p ++ word <+: h := by
      apply List.prefix_of_prefix_length_le hwhole (List.prefix_append h r)
      rwa [List.length_append]
    obtain ⟨t, ht⟩ := hstart
    obtain rfl := hend p t ht.symm
    rw [List.append_nil] at ht
    exact ⟨ht.symm, ⟨p, ht⟩⟩
  by_cases hsuffix : word <:+ h
  · left
    obtain ⟨p', hp'⟩ := hsuffix
    obtain ⟨j, hj, hfirst⟩ := find_le word p' r
    rw [hp', hfind] at hfirst
    obtain rfl := Option.some.inj hfirst
    have hlength := congrArg List.length hp'
    rw [List.length_append] at hlength
    have hp := (hinside (by omega)).1
    refine ⟨⟨p', hp'⟩, ?_⟩
    rw [hp, List.length_append]
  · right
    refine ⟨hsuffix, ?_⟩
    by_contra hle
    exact hsuffix (hinside (by omega)).2

end Httperf.Lib
