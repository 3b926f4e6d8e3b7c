-- A singly linked queue: a link in each cell, a pointer to the first cell, and one to the last. It
-- stands for the list of the cells that the links lead through.
import Mathlib.Logic.Function.Basic
import Mathlib.Data.List.Nodup

namespace Httperf.Lib

variable {ι : Type}

/-- The two ends of a queue. -/
structure Ends (ι : Type) where
  head : Option ι
  tail : Option ι
  deriving DecidableEq, Repr

/-- The links lead from `first` through the cells of `l`, and end there. -/
def Chain (next : ι → Option ι) : Option ι → List ι → Prop
  | first, [] => first = none
  | first, a :: l => first = some a ∧ Chain next (next a) l

/-- The queue holds `l`: the links lead from the head through `l` to the tail. -/
structure IsQueue (next : ι → Option ι) (q : Ends ι) (l : List ι) : Prop where
  chain : Chain next q.head l
  tail : q.tail = l.getLast?
  nodup : l.Nodup

/-- The next cell becomes the first one. -/
def Ends.pop (next : ι → Option ι) (q : Ends ι) (a : ι) : Ends ι :=
  match next a with
  | none => ⟨none, none⟩
  | some b => ⟨some b, q.tail⟩

section
variable [DecidableEq ι]

/-- The links behind a cell that has been put at the end. -/
def Ends.link (next : ι → Option ι) (q : Ends ι) (a : ι) : ι → Option ι :=
  let next := Function.update next a none
  match q.head, q.tail with
  | some _, some last => Function.update next last (some a)
  | _, _ => next

/-- The ends behind a cell that has been put at the end. -/
def Ends.push (q : Ends ι) (a : ι) : Ends ι :=
  match q.head with
  | none => ⟨some a, some a⟩
  | some b => ⟨some b, some a⟩

end

variable {next next' : ι → Option ι} {q : Ends ι} {l : List ι} {a : ι}

/-- Only the links of the cells in the chain matter. -/
theorem Chain.congr {first : Option ι} (h : Chain next first l)
    (heq : ∀ b ∈ l, next' b = next b) : Chain next' first l := by
  induction l generalizing first with
  | nil => exact h
  | cons b l ih =>
    refine ⟨h.1, ?_⟩
    rw [heq b List.mem_cons_self]
    exact ih h.2 fun c hc => heq c (List.mem_cons_of_mem b hc)

theorem Chain.first {first : Option ι} (h : Chain next first l) : first = l.head? := by
  cases l with
  | nil => exact h
  | cons b l => exact h.1

theorem IsQueue.head (h : IsQueue next q l) : q.head = l.head? := h.chain.first

theorem IsQueue.congr (h : IsQueue next q l) (heq : ∀ b ∈ l, next' b = next b) :
    IsQueue next' q l := ⟨h.chain.congr heq, h.tail, h.nodup⟩

theorem isQueue_empty (next : ι → Option ι) : IsQueue next ⟨none, none⟩ [] :=
  ⟨rfl, rfl, List.nodup_nil⟩

@[simp] theorem Ends.push_head_isSome (q : Ends ι) (a : ι) : (q.push a).head.isSome := by
  unfold Ends.push
  split <;> rfl

theorem IsQueue.pop (h : IsQueue next q (a :: l)) : IsQueue next (q.pop next a) l := by
  have hrest : Chain next (next a) l := h.chain.2
  have hnodup : l.Nodup := (List.nodup_cons.mp h.nodup).2
  unfold Ends.pop
  cases l with
  | nil =>
    have hnone : next a = none := hrest
    rw [hnone]
    exact isQueue_empty next
  | cons b l =>
    rw [hrest.1]
    refine ⟨⟨rfl, hrest.2⟩, ?_, hnodup⟩
    rw [h.tail, List.getLast?_cons_cons]

section
variable [DecidableEq ι]

/-- The link of the last cell leads on to the new one. -/
theorem Chain.concat {first : Option ι} {b : ι} (h : Chain next first (l ++ [b]))
    (hnodup : (l ++ [b]).Nodup) (ha : next a = none) (hne : a ∉ l ++ [b]) :
    Chain (Function.update next b (some a)) first (l ++ [b] ++ [a]) := by
  induction l generalizing first with
  | nil =>
    have hab : a ≠ b := fun h => hne (h ▸ List.mem_singleton_self b)
    refine ⟨h.1, ?_, ?_⟩
    · rw [Function.update_self]
    · rw [Function.update_of_ne hab]
      exact ha
  | cons c l ih =>
    have hc : c ≠ b := by
      rintro rfl
      exact (List.nodup_cons.mp hnodup).1 (List.mem_append_right l (List.mem_singleton_self c))
    refine ⟨h.1, ?_⟩
    rw [Function.update_of_ne hc]
    exact ih h.2 (List.nodup_cons.mp hnodup).2 fun hin => hne (List.mem_cons_of_mem c hin)

theorem IsQueue.push (h : IsQueue next q l) (ha : a ∉ l) :
    IsQueue (q.link next a) (q.push a) (l ++ [a]) := by
  have hnodup : (l ++ [a]).Nodup := by
    rw [← List.concat_eq_append]
    exact List.Nodup.concat ha h.nodup
  have hclear : IsQueue (Function.update next a none) q l :=
    h.congr fun b hb => Function.update_of_ne (ne_of_mem_of_not_mem hb ha) _ _
  have hself : Function.update next a none a = none := Function.update_self a none next
  have hhead := h.head
  have htail := h.tail
  rcases List.eq_nil_or_concat l with rfl | ⟨front, b, rfl⟩
  · rw [List.head?_nil] at hhead
    unfold Ends.link Ends.push
    rw [hhead]
    exact ⟨⟨rfl, hself⟩, rfl, hnodup⟩
  · rw [List.concat_eq_append] at *
    obtain ⟨first, hfirst⟩ : ∃ first, q.head = some first := by
      rw [hhead]
      cases front <;> exact ⟨_, rfl⟩
    rw [List.getLast?_concat] at htail
    have hchain := hclear.chain.concat h.nodup hself ha
    unfold Ends.link Ends.push
    rw [htail, hfirst]
    rw [hfirst] at hchain
    refine ⟨hchain, ?_, hnodup⟩
    rw [List.getLast?_concat]

end

end Httperf.Lib
