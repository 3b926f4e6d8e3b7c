-- The queue of the library (`queue.c`): a wheel of cells with a cursor on the first element and one
-- on the last.
import Httperf.Clib
import Httperf.Lib.Outputs
import Httperf.Lib.Ring

namespace Httperf.WheelQueue

open Lib

variable {α : Type}

/-! ## The operations -/

def Minimum_Wheel_Size : Nat := 10

/-- `struct Queue`. `allocated` is how many elements of `wheel` lie in the block that `malloc`
gave. -/
structure Queue (α : Type) where
  wheel_size : Nat
  num_elements : Nat
  first_element : Nat
  last_element : Nat
  wheel : Nat → α
  allocated : Nat

/-- `q->wheel[i]`. `none` is an index outside of the wheel. -/
def Queue.get (q : Queue α) (i : Nat) : Option α :=
  if i < q.allocated then some (q.wheel i) else none

/-- `q->wheel[i] = a`. -/
def Queue.set (q : Queue α) (i : Nat) (a : α) : Option (Queue α) :=
  if i < q.allocated then some { q with wheel := Function.update q.wheel i a } else none

/-- The loop of `empty_queue`, up to the cell `i`. -/
def empty_loop (zero : α) : Nat → Queue α → Option (Queue α)
  | 0, q => some q
  | i + 1, q => do
    let q ← empty_loop zero i q
    q.set i zero

def empty_queue (zero : α) (q : Queue α) : Option (Queue α) :=
  empty_loop zero q.wheel_size { q with num_elements := 0, first_element := 1, last_element := 0 }

/-- `sizeof (struct Queue) + sizeof (Any_Type) * size`, as a `u_long`. -/
def queue_bytes (size : Nat) : Nat := (32 + 8 * size) % 2 ^ 64

/-- `malloc n` is null, or what stands in the block of `n` bytes. So is the queue: the outer `none`
is a write outside of the block. -/
def create_queue (malloc : Nat → Option (Nat → α)) (zero : α) (size : UInt64) :
    Option (Option (Queue α)) :=
  let size := max size.toNat Minimum_Wheel_Size
  match malloc (queue_bytes size) with
  | none => some none
  | some wheel => (empty_queue zero ⟨size, 0, 0, 0, wheel, (queue_bytes size - 32) / 8⟩).map some

def Queue.is_queue_full (q : Queue α) : Bool := q.num_elements = q.wheel_size

/-- A cursor moves to the next cell. -/
def Queue.next_element (q : Queue α) (i : Nat) : Nat :=
  let i := (i + 1) % 2 ^ 64
  if i = q.wheel_size then 0 else i

def enqueue (a : α) (q : Queue α) : Option (Bool × Queue α) :=
  if q.is_queue_full then some (false, q)
  else do
    let last := q.next_element q.last_element
    let q ←
      { q with num_elements := (q.num_elements + 1) % 2 ^ 64, last_element := last }.set last a
    some (true, q)

def dequeue (q : Queue α) : Queue α :=
  { q with
    num_elements := size_t (q.num_elements - 1)
    first_element := q.next_element q.first_element }

def get_front (q : Queue α) : Option α := q.get q.first_element

def get_front_and_dequeue (q : Queue α) : Option (α × Queue α) := do
  let a ← get_front q
  some (a, dequeue q)

inductive Op (α : Type) where
  | enqueue (a : α)
  | get_front
  | dequeue
  | get_front_and_dequeue

inductive Result (α : Type) where
  | enqueued (success : Bool)
  | front (a : α)
  | dequeued

def step (q : Queue α) : Op α → Option (Result α × Queue α)
  | .enqueue a => (enqueue a q).map fun p => (.enqueued p.1, p.2)
  | .get_front => (get_front q).map fun a => (.front a, q)
  | .dequeue => some (.dequeued, dequeue q)
  | .get_front_and_dequeue => (get_front_and_dequeue q).map fun p => (.front p.1, p.2)

/-! ## The list -/

/-- A list of at most `bound` elements, that are taken in the order in which they came. Nothing is
read from an empty list. -/
def fifo (bound : Nat) : List α → Op α → Option (Result α × List α)
  | l, .enqueue a =>
    if l.length < bound then some (.enqueued true, l ++ [a]) else some (.enqueued false, l)
  | a :: l, .get_front => some (.front a, a :: l)
  | _ :: l, .dequeue => some (.dequeued, l)
  | a :: l, .get_front_and_dequeue => some (.front a, l)
  | [], _ => none

/-- The queue gives what the list gives, for all operations that the list can take. -/
def Refines (bound : Nat) : Option (Option (Queue α)) → Prop
  | none => False
  | some none => True
  | some (some q) =>
    ∀ ops results, outputs (fifo bound) [] ops = some results → outputs step q ops = some results

/-! ## The wheel holds the list -/

/-- The elements of `l` stand on the wheel from the first element on, and the last one ends them. -/
structure Wheel (bound : Nat) (q : Queue α) (l : List α) : Prop where
  size : q.wheel_size = bound
  bound_lt : bound < 2 ^ 64
  fit : bound ≤ q.allocated
  num : q.num_elements = l.length
  room : l.length ≤ bound
  first : q.first_element < bound
  last : q.last_element < bound
  ends : (q.last_element + 1) % bound = (q.first_element + l.length) % bound
  holds : Holds bound (some ∘ q.wheel) q.first_element l

theorem Queue.get_eq {q : Queue α} {i : Nat} (hi : i < q.allocated) : q.get i = some (q.wheel i) :=
  if_pos hi

theorem Queue.set_eq {q : Queue α} {i : Nat} (hi : i < q.allocated) (a : α) :
    q.set i a = some { q with wheel := Function.update q.wheel i a } := if_pos hi

section
variable {bound : Nat} {q : Queue α} {a : α} {l : List α}

theorem Wheel.next_element (h : Wheel bound q l) {i : Nat} (hi : i < bound) :
    q.next_element i = (i + 1) % bound := by
  have hlt := h.bound_lt
  unfold Queue.next_element
  rw [h.size, Nat.mod_eq_of_lt (a := i + 1) (b := 2 ^ 64) (by omega)]
  by_cases heq : i + 1 = bound
  · rw [if_pos heq, heq, Nat.mod_self]
  · rw [if_neg heq, Nat.mod_eq_of_lt (by omega)]

theorem Wheel.full (h : Wheel bound q l) (hlen : l.length = bound) :
    enqueue a q = some (false, q) := by
  apply if_pos
  unfold Queue.is_queue_full
  rw [h.num, h.size]
  exact decide_eq_true hlen

theorem Wheel.enqueue (h : Wheel bound q l) (a : α) (hlen : l.length < bound) :
    ∃ q', enqueue a q = some (true, q') ∧ Wheel bound q' (l ++ [a]) := by
  have hlt := h.bound_lt
  have hfull : q.is_queue_full = false := by
    unfold Queue.is_queue_full
    rw [h.num, h.size]
    exact decide_eq_false (Nat.ne_of_lt hlen)
  have hplace : q.next_element q.last_element = (q.first_element + l.length) % bound :=
    (h.next_element h.last).trans h.ends
  have hin : (q.first_element + l.length) % bound < bound := Nat.mod_lt _ (by omega)
  have hpush : Holds bound (some ∘ Function.update q.wheel ((q.first_element + l.length) % bound) a)
      q.first_element
      (l ++ [a]) := by
    rw [Function.comp_update]
    exact h.holds.push hlen
  refine ⟨{ q with
      num_elements := l.length + 1
      last_element := (q.first_element + l.length) % bound
      wheel := Function.update q.wheel ((q.first_element + l.length) % bound) a }, ?_, ?_⟩
  · unfold WheelQueue.enqueue
    rw [hfull, if_neg Bool.false_ne_true, hplace, h.num,
      Nat.mod_eq_of_lt (a := l.length + 1) (by omega)]
    dsimp only
    rw [Queue.set_eq (by dsimp only; exact Nat.lt_of_lt_of_le hin h.fit)]
    rfl
  · refine ⟨h.size, hlt, h.fit, ?_, ?_, h.first, hin, ?_, hpush⟩
    · rw [List.length_append, List.length_singleton]
    · rwa [List.length_append, List.length_singleton]
    · rw [List.length_append, List.length_singleton, Nat.mod_add_mod, Nat.add_assoc]

theorem Wheel.dequeue (h : Wheel bound q (a :: l)) : Wheel bound (dequeue q) l := by
  have hroom := h.room
  have hlt := h.bound_lt
  rw [List.length_cons] at hroom
  have hnext := h.next_element h.first
  refine ⟨h.size, hlt, h.fit, ?_, by omega, ?_, h.last, ?_, ?_⟩
  · change size_t (q.num_elements - 1) = l.length
    rw [h.num, List.length_cons]
    unfold size_t
    omega
  · change q.next_element q.first_element < bound
    rw [hnext]
    exact Nat.mod_lt _ (by omega)
  · change (q.last_element + 1) % bound = (q.next_element q.first_element + l.length) % bound
    rw [hnext, h.ends, ring_next, List.length_cons]
  · change Holds bound (some ∘ q.wheel) (q.next_element q.first_element) l
    rw [hnext]
    exact h.holds.tail

theorem Wheel.get_front (h : Wheel bound q (a :: l)) : get_front q = some a := by
  unfold WheelQueue.get_front
  rw [Queue.get_eq (Nat.lt_of_lt_of_le h.first h.fit)]
  exact h.holds.head h.first

theorem Wheel.get_front_and_dequeue (h : Wheel bound q (a :: l)) :
    get_front_and_dequeue q = some (a, WheelQueue.dequeue q) := by
  unfold WheelQueue.get_front_and_dequeue
  rw [h.get_front]
  rfl

end

/-- Every operation of the list is one of the wheel, for any number of trips around it. -/
theorem wheel_simulates (bound : Nat) : Simulates step (fifo (α := α) bound) (Wheel bound) := by
  intro q l op result l' h hfifo
  cases op with
  | enqueue a =>
    rw [fifo] at hfifo
    by_cases hlen : l.length < bound
    · rw [if_pos hlen] at hfifo
      cases hfifo
      obtain ⟨q', henqueue, h'⟩ := h.enqueue a hlen
      refine ⟨q', ?_, h'⟩
      rw [step, henqueue]
      rfl
    · rw [if_neg hlen] at hfifo
      cases hfifo
      refine ⟨q, ?_, h⟩
      rw [step, h.full (Nat.le_antisymm h.room (Nat.le_of_not_lt hlen))]
      rfl
  | get_front =>
    cases l with
    | nil => nomatch hfifo
    | cons a l =>
      cases hfifo
      refine ⟨q, ?_, h⟩
      rw [step, h.get_front]
      rfl
  | dequeue =>
    cases l with
    | nil => nomatch hfifo
    | cons a l =>
      cases hfifo
      exact ⟨dequeue q, rfl, h.dequeue⟩
  | get_front_and_dequeue =>
    cases l with
    | nil => nomatch hfifo
    | cons a l =>
      cases hfifo
      refine ⟨dequeue q, ?_, h.dequeue⟩
      rw [step, h.get_front_and_dequeue]
      rfl

/-! ## The queue that is made -/

theorem empty_loop_spec (zero : α) {n : Nat} {q : Queue α} (hn : n ≤ q.allocated) :
    ∃ wheel, empty_loop zero n q = some { q with wheel := wheel } := by
  induction n with
  | zero => exact ⟨q.wheel, rfl⟩
  | succ n ih =>
    obtain ⟨wheel, hloop⟩ := ih (Nat.le_of_succ_le hn)
    refine ⟨Function.update wheel n zero, ?_⟩
    rw [empty_loop, hloop, Option.bind_eq_bind, Option.bind_some]
    exact Queue.set_eq (by dsimp only; exact hn) zero

/-- A loop over more cells than there are leaves the block. -/
theorem empty_loop_outside (zero : α) {n : Nat} {q : Queue α} (hn : q.allocated < n) :
    empty_loop zero n q = none := by
  induction n with
  | zero => exact absurd hn (Nat.not_lt_zero _)
  | succ n ih =>
    by_cases hlt : q.allocated < n
    · rw [empty_loop, ih hlt]
      rfl
    · obtain ⟨wheel, hloop⟩ := empty_loop_spec zero (Nat.le_of_not_lt hlt)
      rw [empty_loop, hloop, Option.bind_eq_bind, Option.bind_some]
      exact if_neg (by dsimp only; omega)

theorem wheel_empty {bound : Nat} {wheel : Nat → α} {allocated : Nat}
    (hmin : Minimum_Wheel_Size ≤ bound) (hlt : bound < 2 ^ 64) (hfit : bound ≤ allocated) :
    Wheel bound ⟨bound, 0, 1, 0, wheel, allocated⟩ [] := by
  unfold Minimum_Wheel_Size at hmin
  refine ⟨rfl, hlt, hfit, rfl, Nat.zero_le _, ?_, ?_, rfl, holds_nil⟩
  · change 1 < bound
    omega
  · change 0 < bound
    omega

section
variable {malloc : Nat → Option (Nat → α)} {zero : α} {size : UInt64}

theorem create_queue_null
    (hnull : malloc (queue_bytes (max size.toNat Minimum_Wheel_Size)) = none) :
    create_queue malloc zero size = some none := by
  unfold create_queue
  dsimp only
  rw [hnull]

theorem create_queue_fits (zero : α) (hfit : 32 + 8 * max size.toNat Minimum_Wheel_Size < 2 ^ 64)
    {wheel : Nat → α}
    (hmalloc : malloc (queue_bytes (max size.toNat Minimum_Wheel_Size)) = some wheel) :
    ∃ q, create_queue malloc zero size = some (some q) ∧
    Wheel (max size.toNat Minimum_Wheel_Size) q [] := by
  have hbytes : (queue_bytes (max size.toNat Minimum_Wheel_Size) - 32) / 8 =
      max size.toNat Minimum_Wheel_Size := by
    unfold queue_bytes
    omega
  unfold create_queue
  dsimp only
  rw [hmalloc]
  dsimp only
  rw [hbytes, empty_queue]
  obtain ⟨wheel', hloop⟩ := empty_loop_spec zero (n := max size.toNat Minimum_Wheel_Size)
    (q := ⟨max size.toNat Minimum_Wheel_Size, 0, 1, 0, wheel, max size.toNat Minimum_Wheel_Size⟩)
      le_rfl
  dsimp only at hloop ⊢
  rw [hloop]
  exact ⟨_, rfl, wheel_empty (Nat.le_max_right _ _) (by omega) le_rfl⟩

/-- The number of bytes wraps, and the block is too short for the cells. -/
theorem create_queue_wraps (hwrap : 2 ^ 64 ≤ 32 + 8 * max size.toNat Minimum_Wheel_Size)
    {wheel : Nat → α}
    (hmalloc : malloc (queue_bytes (max size.toNat Minimum_Wheel_Size)) = some wheel) :
    create_queue malloc zero size = none := by
  have hsize := size.toNat_lt
  have hbytes : (queue_bytes (max size.toNat Minimum_Wheel_Size) - 32) / 8 <
      max size.toNat Minimum_Wheel_Size := by
    unfold queue_bytes Minimum_Wheel_Size at *
    omega
  unfold create_queue
  dsimp only
  rw [hmalloc]
  dsimp only
  rw [empty_queue, empty_loop_outside zero (by exact hbytes)]
  rfl

/-- The queue behaves like a list of at most `max size 10` elements exactly when the number of bytes
of the block does not wrap, or no block is given. -/
theorem queue_refines_fifo_iff (malloc : Nat → Option (Nat → α)) (zero : α) (size : UInt64) :
    Refines (max size.toNat Minimum_Wheel_Size) (create_queue malloc zero size) ↔
      malloc (queue_bytes (max size.toNat Minimum_Wheel_Size)) = none ∨
        32 + 8 * max size.toNat Minimum_Wheel_Size < 2 ^ 64 := by
  cases hmalloc : malloc (queue_bytes (max size.toNat Minimum_Wheel_Size)) with
  | none =>
    rw [create_queue_null hmalloc]
    exact ⟨fun _ => .inl rfl, fun _ => trivial⟩
  | some wheel =>
    by_cases hfit : 32 + 8 * max size.toNat Minimum_Wheel_Size < 2 ^ 64
    · obtain ⟨q, hcreate, hwheel⟩ := create_queue_fits zero hfit hmalloc
      rw [hcreate]
      exact ⟨fun _ => .inr hfit, fun _ ops results hops => (wheel_simulates _).outputs hwheel hops⟩
    · rw [create_queue_wraps (Nat.le_of_not_lt hfit) hmalloc]
      constructor
      · intro hno
        exact hno.elim
      · rintro (hno | hno)
        · nomatch hno
        · exact absurd hno hfit

end

/-- A block of 32 bytes for `2 ^ 61` cells. -/
theorem wrapped_wheel_is_overrun :
    ¬ Refines (max (2 ^ 61 : UInt64).toNat Minimum_Wheel_Size)
      (create_queue (fun _ => some fun _ => 0) 0 (2 ^ 61)) := by
  rw [create_queue_wraps (by decide +kernel) rfl]
  exact id

end Httperf.WheelQueue
