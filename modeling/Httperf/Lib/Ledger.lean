-- A ledger of who owns what: each key has a list of items, and no item stands in two lists, or
-- twice in one. `owner` reads the ledger the other way round.
import Mathlib.Logic.Function.Basic
import Mathlib.Data.List.Nodup

namespace Httperf.Lib

variable {κ α : Type}

structure Ledger (κ α : Type) where
  list : κ → List α
  owner : α → Option κ
  mem_iff : ∀ a k, a ∈ list k ↔ owner a = some k
  nodup : ∀ k, (list k).Nodup

namespace Ledger

/-- How many lists an item stands in. -/
def share (g : Ledger κ α) (a : α) : Nat := (g.owner a).toList.length

theorem share_none {g : Ledger κ α} {a : α} (h : g.owner a = none) : g.share a = 0 := by
  unfold share
  rw [h]
  rfl

theorem share_mem {g : Ledger κ α} {a : α} {k : κ} (h : a ∈ g.list k) : g.share a = 1 := by
  unfold share
  rw [(g.mem_iff a k).mp h]
  rfl

theorem owner_eq {g : Ledger κ α} {a : α} {k k' : κ} (h : a ∈ g.list k) (h' : a ∈ g.list k') :
    k = k' := by
  rw [g.mem_iff] at h h'
  rw [h] at h'
  exact Option.some.inj h'

theorem not_mem_of_none {g : Ledger κ α} {a : α} (h : g.owner a = none) (k : κ) :
    a ∉ g.list k := by
  rw [g.mem_iff, h]
  exact fun hno => nomatch hno

theorem owner_none {g : Ledger κ α} {a : α} (h : ∀ k, a ∉ g.list k) : g.owner a = none := by
  cases howner : g.owner a with
  | none => rfl
  | some k => exact absurd ((g.mem_iff a k).mpr howner) (h k)

/-- Nobody owns anything. -/
def empty : Ledger κ α where
  list _ := []
  owner _ := none
  mem_iff _ _ := ⟨fun h => absurd h List.not_mem_nil, fun h => nomatch h⟩
  nodup _ := List.nodup_nil

variable [DecidableEq κ] [DecidableEq α]

/-- The item `a`, which nobody owns, goes to the end of the list of `k`. -/
def add (g : Ledger κ α) (k : κ) (a : α) (h : g.owner a = none) : Ledger κ α where
  list := Function.update g.list k (g.list k ++ [a])
  owner := Function.update g.owner a (some k)
  mem_iff b j := by
    have hnot := not_mem_of_none h
    by_cases hb : b = a
    · subst hb
      rw [Function.update_self, Option.some.injEq]
      by_cases hj : j = k
      · subst hj
        simp
      · rw [Function.update_of_ne hj]
        exact ⟨fun hin => absurd hin (hnot j), fun heq => absurd heq.symm hj⟩
    · rw [Function.update_of_ne hb, ← g.mem_iff]
      by_cases hj : j = k
      · subst hj
        simp [hb]
      · rw [Function.update_of_ne hj]
  nodup j := by
    by_cases hj : j = k
    · subst hj
      rw [Function.update_self, ← List.concat_eq_append]
      exact List.Nodup.concat (not_mem_of_none h j) (g.nodup j)
    · rw [Function.update_of_ne hj]
      exact g.nodup j

/-- The first item leaves the list of `k`. -/
def drop (g : Ledger κ α) (k : κ) (a : α) (l : List α) (h : g.list k = a :: l) : Ledger κ α where
  list := Function.update g.list k l
  owner := Function.update g.owner a none
  mem_iff b j := by
    have hnodup : (a :: l).Nodup := h ▸ g.nodup k
    have hown : a ∈ g.list k := h ▸ List.mem_cons_self
    by_cases hb : b = a
    · subst hb
      rw [Function.update_self]
      refine ⟨fun hin => ?_, fun hno => nomatch hno⟩
      by_cases hj : j = k
      · subst hj
        rw [Function.update_self] at hin
        exact absurd hin (List.nodup_cons.mp hnodup).1
      · rw [Function.update_of_ne hj] at hin
        exact absurd (owner_eq hin hown) hj
    · rw [Function.update_of_ne hb, ← g.mem_iff]
      by_cases hj : j = k
      · subst hj
        rw [Function.update_self, h]
        simp [hb]
      · rw [Function.update_of_ne hj]
  nodup j := by
    have hnodup : (a :: l).Nodup := h ▸ g.nodup k
    by_cases hj : j = k
    · subst hj
      rw [Function.update_self]
      exact (List.nodup_cons.mp hnodup).2
    · rw [Function.update_of_ne hj]
      exact g.nodup j

variable {g : Ledger κ α} {k : κ} {a : α} {l : List α}

theorem add_list (h : g.owner a = none) :
    (g.add k a h).list = Function.update g.list k (g.list k ++ [a]) := rfl

theorem drop_list (h : g.list k = a :: l) :
    (g.drop k a l h).list = Function.update g.list k l := rfl

theorem add_owner_self (h : g.owner a = none) : (g.add k a h).owner a = some k := by
  simp [add]

theorem add_owner_of_ne {b : α} (h : g.owner a = none) (hb : b ≠ a) :
    (g.add k a h).owner b = g.owner b := by
  simp [add, hb]

theorem drop_owner_self (h : g.list k = a :: l) : (g.drop k a l h).owner a = none := by
  simp [drop]

theorem drop_owner_of_ne {b : α} (h : g.list k = a :: l) (hb : b ≠ a) :
    (g.drop k a l h).owner b = g.owner b := by
  simp [drop, hb]

/-- One share more for the item. -/
theorem add_share (h : g.owner a = none) (b : α) :
    (g.add k a h).share b = g.share b + [a].count b := by
  by_cases hb : b = a
  · subst hb
    rw [share_none h]
    unfold share
    rw [add_owner_self]
    simp
  · have hcount : [a].count b = 0 := List.count_eq_zero.mpr (by simpa using hb)
    rw [hcount]
    unfold share
    rw [add_owner_of_ne h hb, Nat.add_zero]

/-- One share less for the item. -/
theorem drop_share (h : g.list k = a :: l) (b : α) :
    (g.drop k a l h).share b + [a].count b = g.share b := by
  by_cases hb : b = a
  · subst hb
    have hin : b ∈ g.list k := h ▸ List.mem_cons_self
    rw [share_mem hin, share_none (drop_owner_self h)]
    simp
  · have hcount : [a].count b = 0 := List.count_eq_zero.mpr (by simpa using hb)
    rw [hcount]
    unfold share
    rw [drop_owner_of_ne h hb, Nat.add_zero]

end Ledger

end Httperf.Lib
