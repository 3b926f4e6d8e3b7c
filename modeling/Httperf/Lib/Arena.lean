-- Linked lists in an arena: cells are only added at the end, and a pointer is the place of a cell.
-- A list that is still growing stands at the end of the arena; those before it stay as they are.
import Mathlib.Data.List.Basic

namespace Httperf.Arena

variable {α : Type}

structure Cell (α : Type) where
  next : Option Nat
  data : α
  deriving DecidableEq, Repr

/-- `p->next = q`. -/
def Cell.link (q : Nat) (c : Cell α) : Cell α := { c with next := some q }

/-- The list that the pointer leads to. -/
inductive Reads (arena : List (Cell α)) : Option Nat → List α → Prop where
  | nil : Reads arena none []
  | cons {p : Nat} {c : Cell α} {xs : List α} :
      arena[p]? = some c → Reads arena c.next xs → Reads arena (some p) (c.data :: xs)

/-- New cells do not touch the lists that are there. -/
theorem Reads.append {arena : List (Cell α)} {p : Option Nat} {xs : List α} (h : Reads arena p xs)
    (cells : List (Cell α)) : Reads (arena ++ cells) p xs := by
  induction h with
  | nil => exact .nil
  | cons hc _ ih =>
    have hlt := (List.getElem?_eq_some_iff.mp hc).1
    exact .cons (by rwa [List.getElem?_append_left hlt]) ih

/-- Cells one behind the other from the place `p` on, each linked to the next one. -/
def linked (p : Nat) : List α → List (Cell α)
  | [] => []
  | x :: xs => ⟨some (p + 1), x⟩ :: linked (p + 1) xs

/-- A list behind the cells `front`, with its last element. -/
def grown (front : List (Cell α)) (xs : List α) (last : α) : List (Cell α) :=
  front ++ linked front.length xs ++ [⟨none, last⟩]

theorem linked_length (p : Nat) (xs : List α) : (linked p xs).length = xs.length := by
  induction xs generalizing p with
  | nil => rfl
  | cons x xs ih => simp [linked, ih]

theorem linked_concat (p : Nat) (xs : List α) (y : α) :
    linked p (xs ++ [y]) = linked p xs ++ [⟨some (p + xs.length + 1), y⟩] := by
  induction xs generalizing p with
  | nil => rfl
  | cons x xs ih =>
    simp only [List.cons_append, linked, ih, List.length_cons]
    congr 5
    omega

theorem grown_length (front : List (Cell α)) (xs : List α) (last : α) :
    (grown front xs last).length = front.length + xs.length + 1 := by
  unfold grown
  rw [List.length_append, List.length_append, linked_length, List.length_singleton]

/-- A list of one cell. -/
theorem grown_new (front : List (Cell α)) (last : α) :
    front ++ [⟨none, last⟩] = grown front [] last := by
  unfold grown linked
  rw [List.append_nil]

/-- The list is read from its first cell on. -/
theorem reads_grown (front : List (Cell α)) (xs : List α) (last : α) :
    Reads (grown front xs last) (some front.length) (xs ++ [last]) := by
  induction xs generalizing front with
  | nil =>
    rw [← grown_new]
    exact .cons (c := ⟨none, last⟩) (by simp) .nil
  | cons x xs ih =>
    have hgrown : grown front (x :: xs) last =
        grown (front ++ [⟨some (front.length + 1), x⟩]) xs last := by
      unfold grown
      rw [linked]
      simp
    have hrest := ih (front ++ [⟨some (front.length + 1), x⟩])
    rw [List.length_append, List.length_singleton] at hrest
    rw [hgrown]
    refine .cons (c := ⟨some (front.length + 1), x⟩) ?_ hrest
    unfold grown
    simp

theorem modify_append {β : Type} (l : List β) (x : β) (rest : List β) (f : β → β) :
    (l ++ x :: rest).modify l.length f = l ++ f x :: rest := by
  induction l with
  | nil => rfl
  | cons y l ih => simpa using ih

/-- The place of the last cell. -/
theorem grown_last (front : List (Cell α)) (xs : List α) :
    front.length + xs.length = (front ++ linked front.length xs).length := by
  rw [List.length_append, linked_length]

/-- The last element changes. -/
theorem modify_grown (front : List (Cell α)) (xs : List α) (last : α) (f : α → α) :
    (grown front xs last).modify (front.length + xs.length) (fun c => { c with data := f c.data }) =
      grown front xs (f last) := by
  unfold grown
  rw [grown_last, modify_append]

/-- A new cell is linked behind the last one. -/
theorem link_grown (front : List (Cell α)) (xs : List α) (last new : α) :
    (grown front xs last ++ [(⟨none, new⟩ : Cell α)]).modify (front.length + xs.length)
        (Cell.link (front.length + xs.length + 1)) = grown front (xs ++ [last]) new := by
  unfold grown
  rw [List.append_assoc _ [_] [_], List.singleton_append, grown_last, modify_append, linked_concat,
    grown_last]
  simp [Cell.link]

end Httperf.Arena
