-- The heap of the library (`heap.c`). The elements are counted from one, in an array that is
-- counted from zero.
import Httperf.Clib
import Httperf.Lib.HeapOrder
import Httperf.Lib.Runs

namespace Httperf.MinHeap

open Lib.HeapOrder Runs

variable {α : Type}

/-! ## The operations -/

def Minimum_Heap_Size : Nat := 10

/-- `struct Heap`. `allocated` is how many elements of `storage` lie in the block that `malloc`
gave. `compare x y` says that `y` must leave the heap before `x`. -/
structure Heap (α : Type) where
  array_size : Nat
  num_elements : Nat
  compare : α → α → Bool
  storage : Nat → α
  allocated : Nat

/-- `sizeof (struct Heap) + sizeof (Any_Type) * size`, as a `u_long`. -/
def heap_bytes (size : Nat) : Nat := (24 + 8 * size) % 2 ^ 64

/-- `malloc n` is null, or what stands in the block of `n` bytes. -/
def create_heap (malloc : Nat → Option (Nat → α)) (size : UInt64) (compare : α → α → Bool) :
    Option (Heap α) :=
  let size := max size.toNat Minimum_Heap_Size
  (malloc (heap_bytes size)).map fun storage =>
    ⟨size, 0, compare, storage, (heap_bytes size - 24) / 8⟩

def Heap.is_heap_empty (h : Heap α) : Bool := h.num_elements = 0

def Heap.is_heap_full (h : Heap α) : Bool := h.array_size = h.num_elements

/-- `h->storage[i]`. `none` is an index outside of the storage. -/
def Heap.get (h : Heap α) (i : Int) : Option α :=
  if 0 ≤ i ∧ i < h.allocated then some (h.storage i.toNat) else none

/-- `h->storage[i] = a`. -/
def Heap.set (h : Heap α) (i : Nat) (a : α) : Option (Heap α) :=
  if i < h.allocated then some { h with storage := Function.update h.storage i a } else none

/-- The loop of `insert`: the heap, and where `a` goes. -/
def insert_loop (a : α) : Nat → Heap α → Nat → Option (Heap α × Nat)
  | 0, _, _ => none
  | turns + 1, h, i =>
    if i > 1 then do
      let parent ← h.get (i / 2 : Nat)
      if h.compare parent a then
        let h ← h.set i parent
        insert_loop a turns h (i / 2)
      else some (h, i)
    else some (h, i)

def insert (a : α) (h : Heap α) : Option (Bool × Heap α) :=
  if h.is_heap_full then some (false, h)
  else do
    let i := h.num_elements + 1
    let (h, i) ← insert_loop a (i + 1) { h with num_elements := i } i
    let h ← h.set i a
    some (true, h)

/-- The loop of `percolate`. `child` is an `int`. -/
def percolate_loop (dest_val : α) : Nat → Heap α → Nat → Option (Heap α × Nat)
  | 0, _, _ => none
  | turns + 1, h, hole =>
    if hole * 2 ≤ h.num_elements then do
      let child := int_of (hole * 2)
      let more ← if size_t child ≠ h.num_elements then do
          let x ← h.get (child + 1)
          let y ← h.get (child + 1)
          some (h.compare x y)
        else some false
      let child := if more then child + 1 else child
      let next ← h.get (child + 1)
      if h.compare next dest_val then
        let x ← h.get child
        let h ← h.set hole x
        percolate_loop dest_val turns h (size_t child)
      else some (h, hole)
    else some (h, hole)

def percolate (h : Heap α) (hole : Nat) : Option (Heap α) := do
  let dest_val ← h.get hole
  let (h, hole) ← percolate_loop dest_val (h.num_elements + 1) h hole
  h.set hole dest_val

/-- `none` as the result is `temp`, whose bytes are zero. -/
def remove_min (h : Heap α) : Option (Option α × Heap α) :=
  if h.is_heap_empty then some (none, h)
  else do
    let min ← h.get 1
    let last ← h.get h.num_elements
    let h ← { h with num_elements := h.num_elements - 1 }.set 1 last
    let h ← percolate h 1
    some (some min, h)

theorem Heap.get_eq {h : Heap α} {i : Nat} (hi : i < h.allocated) :
    h.get i = some (h.storage i) := by
  unfold Heap.get
  rw [if_pos ⟨Int.natCast_nonneg i, by exact_mod_cast hi⟩, Int.toNat_natCast]

theorem Heap.set_eq {h : Heap α} {i : Nat} (hi : i < h.allocated) (a : α) :
    h.set i a = some { h with storage := Function.update h.storage i a } := if_pos hi

/-! ## Runs -/

inductive Op (α : Type) where
  | insert (a : α)
  | remove_min

inductive Result (α : Type) where
  | inserted (success : Bool)
  | removed (min : Option α)
  deriving DecidableEq

def step (h : Heap α) : Op α → Option (Result α × Heap α)
  | .insert a => (insert a h).map fun p => (.inserted p.1, p.2)
  | .remove_min => (remove_min h).map fun p => (.removed p.1, p.2)

/-- A heap that is watched: `held` are the elements that were inserted and have not come out yet. -/
structure Watched (α : Type) where
  heap : Heap α
  held : Multiset α

variable [LinearOrder α]

def hold (held : Multiset α) : Op α → Result α → Multiset α
  | .insert a, .inserted true => a ::ₘ held
  | .remove_min, .removed (some min) => held.erase min
  | _, _ => held

def watch (w : Watched α) (op : Op α) : Option (Watched α) :=
  (step w.heap op).map fun p => ⟨p.2, hold w.held op p.1⟩

/-- An access outside of the storage ends the run. -/
def watch? (w : Option (Watched α)) (op : Op α) : Option (Watched α) := w.bind (watch · op)

/-- What the operation gives is what a priority queue of `array_size` places gives. -/
def Right (w : Watched α) : Op α → Result α → Prop
  | .insert _, r => r = .inserted (decide (w.held.card < w.heap.array_size))
  | .remove_min, r => w.held ≠ 0 → ∃ min ∈ w.held, (∀ a ∈ w.held, min ≤ a) ∧ r = .removed (some min)

/-- The operation stays inside the storage, and its result is right. -/
def Behaves (w : Option (Watched α)) (op : Op α) : Prop :=
  ∀ w', w = some w' → ∃ r h, step w'.heap op = some (r, h) ∧ Right w' op r

/-! ## The condition -/

/-- The last element `x` sinks from the hole, and finds its place where the source looks for it: on
the way of the left children, below those that are not greater than `x` and less than their right
siblings. -/
inductive Sinks (st : Nat → α) (n : Nat) (x : α) : Nat → Prop where
  | leaf {hole : Nat} : n < hole * 2 → Sinks st n x hole
  | only_child {hole : Nat} : hole * 2 = n → n < 2 ^ 31 → x ≤ st n → Sinks st n x hole
  | stays {hole : Nat} : hole * 2 < n → hole * 2 < 2 ^ 31 → x = st (hole * 2 + 1) →
      x ≤ st (hole * 2) → Sinks st n x hole
  | moves {hole : Nat} : hole * 2 < n → hole * 2 < 2 ^ 31 → st (hole * 2) ≤ x →
      x < st (hole * 2 + 1) → Sinks st n x (hole * 2) → Sinks st n x hole

/-- One place behind the element that is inserted is still in the storage, or, when the first
element leaves, the last one sinks the right way. -/
def Sound (w : Option (Watched α)) (op : Op α) : Prop :=
  ∀ w', w = some w' →
    match op with
    | .insert _ => w'.heap.num_elements + 1 < w'.heap.allocated
    | .remove_min => w'.heap.num_elements ≠ 0 →
        Sinks w'.heap.storage (w'.heap.num_elements - 1) (w'.heap.storage w'.heap.num_elements) 1

/-! ## The loops -/

/-- The place that a loop has found for `a` in the storage `st`: between its parent and its
children. -/
structure Fits (st : Nat → α) (n i : Nat) (a : α) : Prop where
  hole : Hole st n i
  first : 1 ≤ i
  last : i ≤ n
  above : 2 ≤ i → st (i / 2) ≤ a
  below : ∀ j, j ≤ n → j / 2 = i → a ≤ st j

theorem Fits.ordered {st : Nat → α} {n i : Nat} {a : α} (h : Fits st n i a) :
    Ordered (Function.update st i a) n := h.hole.fill h.first h.above h.below

section
variable {h : Heap α} {a : α} (hcompare : ∀ x y, h.compare x y = true ↔ y < x)
include hcompare

theorem insert_loop_spec (st : Nat → α) {turns i : Nat} (hturns : i < turns)
    (hn : h.num_elements < h.allocated) (h1 : 1 ≤ i) (hi : i ≤ h.num_elements)
    (hhole : Hole st h.num_elements i) (hbelow : ∀ j, j ≤ h.num_elements → j / 2 = i → a ≤ st j) :
    ∃ st' i', insert_loop a turns { h with storage := st } i =
      some ({ h with storage := st' }, i') ∧
      Fits st' h.num_elements i' a ∧ rest st' h.num_elements i' = rest st h.num_elements i := by
  induction turns generalizing st i with
  | zero => exact absurd hturns (Nat.not_lt_zero _)
  | succ turns ih =>
    unfold insert_loop
    by_cases h2 : i > 1
    · have hparent : Heap.get { h with storage := st } ((i / 2 : Nat) : Int) = some (st (i / 2)) :=
        Heap.get_eq (by dsimp only; omega)
      have hplace : Heap.set { h with storage := st } i (st (i / 2)) =
          some { h with storage := Function.update st i (st (i / 2)) } :=
            Heap.set_eq (by dsimp only; omega) _
      rw [if_pos h2, hparent, Option.bind_eq_bind, Option.bind_some]
      by_cases hlt : h.compare (st (i / 2)) a = true
      · have hless := (hcompare _ _).mp hlt
        have hbelow' (j : Nat) (hj : j ≤ h.num_elements) (hp : j / 2 = i / 2) :
            a ≤ Function.update st i (st (i / 2)) j := by
          by_cases hji : j = i
          · rw [hji, Function.update_self]
            exact le_of_lt hless
          · rw [Function.update_of_ne hji]
            have hsib := hhole.around j (by omega) hj hji (by omega)
            rw [hp] at hsib
            exact le_trans (le_of_lt hless) hsib
        rw [if_pos hlt, hplace, Option.bind_eq_bind, Option.bind_some]
        obtain ⟨st', i', hloop, hfits, hrest⟩ :=
          ih _ (by omega) (by omega) (by omega) (hhole.up h2 hi) hbelow'
        refine ⟨st', i', hloop, hfits, hrest.trans ?_⟩
        exact rest_move ⟨h1, hi⟩ ⟨by omega, by omega⟩ (by omega)
      · rw [if_neg hlt]
        exact ⟨st, i, rfl, ⟨hhole, h1, hi, fun _ => not_lt.mp (mt (hcompare _ _).mpr hlt), hbelow⟩,
          rfl⟩
    · rw [if_neg h2]
      exact ⟨st, i, rfl, ⟨hhole, h1, hi, fun hge => absurd hge h2, hbelow⟩, rfl⟩

end

theorem size_t_eq {n : Nat} (hn : n < 2 ^ 31) : size_t n = n := by
  unfold size_t
  omega

/-- The way down does not look at the places above. -/
theorem Sinks.update {st : Nat → α} {n hole i : Nat} {x : α} (h : Sinks st n x hole)
    (hi : i < hole * 2) (a : α) :
    Sinks (Function.update st i a) n x hole := by
  induction h with
  | leaf hlt => exact .leaf hlt
  | only_child heq hint hle =>
    apply Sinks.only_child heq hint
    rwa [Function.update_of_ne (by omega)]
  | stays hlt hint heq hle =>
    apply Sinks.stays hlt hint
    · rwa [Function.update_of_ne (by omega)]
    · rwa [Function.update_of_ne (by omega)]
  | moves hlt hint hle hless _ ih =>
    apply Sinks.moves hlt hint
    · rwa [Function.update_of_ne (by omega)]
    · rwa [Function.update_of_ne (by omega)]
    · exact ih (by omega)

section
variable {h : Heap α} {x : α} {st : Nat → α} (hcompare : ∀ x y, h.compare x y = true ↔ y < x)
include hcompare

/-- A node with two children: the comparison of the right child with itself decides nothing. -/
theorem percolate_loop_turn {turns hole : Nat} (hn : h.num_elements < h.allocated)
    (hlt : hole * 2 < h.num_elements) (hint : hole * 2 < 2 ^ 31) :
    percolate_loop x (turns + 1) { h with storage := st } hole =
      if x < st (hole * 2 + 1) then
        percolate_loop x turns { h with storage := Function.update st hole (st (hole * 2)) }
          (hole * 2)
      else some ({ h with storage := st }, hole) := by
  have hchild : int_of (hole * 2) = (hole * 2 : Nat) := int_of_eq hint
  have hright : (((hole * 2 : Nat) : Int) + 1) = ((hole * 2 + 1 : Nat) : Int) := by push_cast; rfl
  have hself : h.compare (st (hole * 2 + 1)) (st (hole * 2 + 1)) = false := by
    rw [Bool.eq_false_iff]
    intro hno
    exact absurd ((hcompare _ _).mp hno) (lt_irrefl _)
  have hget : Heap.get { h with storage := st } ((hole * 2 + 1 : Nat) : Int) =
      some (st (hole * 2 + 1)) :=
    Heap.get_eq (by dsimp only; omega)
  have hleft : Heap.get { h with storage := st } ((hole * 2 : Nat) : Int) = some (st (hole * 2)) :=
    Heap.get_eq (by dsimp only; omega)
  have hplace : Heap.set { h with storage := st } hole (st (hole * 2)) =
      some { h with storage := Function.update st hole (st (hole * 2)) } :=
        Heap.set_eq (by dsimp only; omega) _
  rw [percolate_loop, if_pos (le_of_lt hlt)]
  dsimp only
  rw [hchild, size_t_eq hint, if_pos (Nat.ne_of_lt hlt), hright, hget]
  simp only [Option.bind_eq_bind, Option.bind_some, hself, Bool.false_eq_true, if_false]
  rw [hright, hget, Option.bind_some, hleft, Option.bind_some, hplace, Option.bind_some,
    size_t_eq hint]
  by_cases hless : x < st (hole * 2 + 1)
  · rw [if_pos ((hcompare _ _).mpr hless), if_pos hless]
  · rw [if_neg (mt (hcompare _ _).mp hless), if_neg hless]

/-- A node with one child: behind it stands `x` itself, and the loop ends. -/
theorem percolate_loop_only {turns hole : Nat} (hn : h.num_elements + 1 < h.allocated)
    (heq : hole * 2 = h.num_elements) (hint : h.num_elements < 2 ^ 31)
    (hx : st (h.num_elements + 1) = x) :
    percolate_loop x (turns + 1) { h with storage := st } hole =
      some ({ h with storage := st }, hole) := by
  have hchild : int_of (hole * 2) = (h.num_elements : Int) := by rw [heq, int_of_eq hint]
  have hright : ((h.num_elements : Int) + 1) = ((h.num_elements + 1 : Nat) : Int) := by
    push_cast; rfl
  have hself : h.compare x x = false := by
    rw [Bool.eq_false_iff]
    intro hno
    exact absurd ((hcompare _ _).mp hno) (lt_irrefl _)
  have hget : Heap.get { h with storage := st } ((h.num_elements + 1 : Nat) : Int) = some x := by
    rw [Heap.get_eq (by exact hn)]
    exact congrArg some hx
  rw [percolate_loop, if_pos (le_of_eq heq)]
  dsimp only
  rw [hchild, size_t_eq hint, if_neg (not_not.mpr rfl)]
  simp only [Option.bind_eq_bind, Option.bind_some, Bool.false_eq_true, if_false]
  rw [hright, hget, Option.bind_some, hself]
  rfl

theorem percolate_loop_spec (turns : Nat) {hole : Nat} (hturns : h.num_elements < turns + hole)
    (hn : h.num_elements + 1 < h.allocated) (hx : st (h.num_elements + 1) = x) (h1 : 1 ≤ hole)
    (hle : hole ≤ h.num_elements) (hhole : Hole st h.num_elements hole)
    (habove : 2 ≤ hole → st (hole / 2) ≤ x) (hsinks : Sinks st h.num_elements x hole) :
    ∃ st' i', percolate_loop x (turns + 1) { h with storage := st } hole =
      some ({ h with storage := st' }, i') ∧
      Fits st' h.num_elements i' x ∧ rest st' h.num_elements i' = rest st h.num_elements hole := by
  induction turns generalizing st hole with
  | zero => omega
  | succ turns ih =>
    cases hsinks with
    | leaf hleaf =>
      refine ⟨st, hole, ?_, ⟨hhole, h1, hle, habove, fun j hj hp => by omega⟩, rfl⟩
      rw [percolate_loop, if_neg (not_le.mpr hleaf)]
    | only_child heq hint hchild =>
      refine ⟨st, hole, percolate_loop_only hcompare hn heq hint hx,
        ⟨hhole, h1, hle, habove, ?_⟩, rfl⟩
      intro j hj hp
      obtain rfl : j = h.num_elements := by omega
      exact hchild
    | stays hlt hint heq hleft =>
      refine ⟨st, hole, ?_, ⟨hhole, h1, hle, habove, ?_⟩, rfl⟩
      · rw [percolate_loop_turn hcompare (by omega) hlt hint, if_neg (heq ▸ lt_irrefl _)]
      · intro j hj hp
        obtain rfl | rfl : j = hole * 2 ∨ j = hole * 2 + 1 := by omega
        · exact hleft
        · exact le_of_eq heq
    | moves hlt hint hleft hless hsinks =>
      have hleast (j : Nat) (_ : j ≤ h.num_elements) (hp : j / 2 = hole) :
          st (hole * 2) ≤ st j := by
        obtain rfl | rfl : j = hole * 2 ∨ j = hole * 2 + 1 := by omega
        · exact le_rfl
        · exact le_trans hleft (le_of_lt hless)
      rw [percolate_loop_turn hcompare (by omega) hlt hint, if_pos hless]
      have hup : Function.update st hole (st (hole * 2)) (hole * 2 / 2) ≤ x := by
        rw [show hole * 2 / 2 = hole by omega, Function.update_self]
        exact hleft
      obtain ⟨st', i', hloop, hfits, hrest⟩ :=
        ih (by omega) (by rwa [Function.update_of_ne (by omega)]) (by omega)
        (le_of_lt hlt) (hhole.down h1 (by omega) (le_of_lt hlt) hleast) (fun _ => hup)
        (hsinks.update (by omega) _)
      refine ⟨st', i', hloop, hfits, hrest.trans ?_⟩
      exact rest_move ⟨h1, hle⟩ ⟨by omega, le_of_lt hlt⟩ (by omega)

end

/-! ## The operations keep the order -/

section
variable {h : Heap α} (hcompare : ∀ x y, h.compare x y = true ↔ y < x)
    (hord : Ordered h.storage h.num_elements)
include hcompare hord

theorem insert_spec (a : α) (hroom : h.num_elements + 1 < h.allocated)
    (hfit : h.allocated ≤ h.array_size) :
    ∃ st, insert a h = some (true, { h with num_elements := h.num_elements + 1, storage := st }) ∧
      Ordered st (h.num_elements + 1) ∧
      bag st (h.num_elements + 1) = a ::ₘ bag h.storage h.num_elements := by
  have hfull : h.is_heap_full = false := by
    unfold Heap.is_heap_full
    rw [decide_eq_false_iff_not]
    omega
  obtain ⟨st, i, hloop, hfits, hrest⟩ :=
    insert_loop_spec (h := { h with num_elements := h.num_elements + 1 }) (a := a)
    hcompare h.storage (Nat.lt_succ_self _) hroom (Nat.succ_pos _) le_rfl hord.hole_last
    (fun j hj hp => by dsimp only at hj hp; omega)
  have hplace := hfits.last
  dsimp only at hloop hrest hfits hplace
  refine ⟨Function.update st i a, ?_, hfits.ordered, ?_⟩
  · unfold insert
    rw [hfull, if_neg Bool.false_ne_true]
    dsimp only
    rw [hloop, Option.bind_eq_bind, Option.bind_some]
    dsimp only
    rw [Heap.set_eq (by dsimp only; omega)]
    rfl
  · rw [bag_fill hfits.first hfits.last, hrest, rest_last]

/-- The last element sinks from the root. -/
theorem percolate_spec {x : α} (hroom : h.num_elements + 1 < h.allocated)
    (hx : h.storage (h.num_elements + 1) = x) (hsinks : Sinks h.storage h.num_elements x 1) :
    ∃ st, percolate { h with storage := Function.update h.storage 1 x } 1 =
      some { h with storage := st } ∧
      Ordered st h.num_elements ∧
      bag st h.num_elements + {h.storage 1} = bag h.storage h.num_elements + {x} := by
  have hroot : Heap.get { h with storage := Function.update h.storage 1 x } ((1 : Nat) : Int) =
      some x := by
    rw [Heap.get_eq (by dsimp only; omega)]
    exact congrArg some (Function.update_self 1 x h.storage)
  unfold percolate
  rw [hroot, Option.bind_eq_bind, Option.bind_some]
  dsimp only
  by_cases hn : h.num_elements = 0
  · rw [hn, Nat.zero_add] at hx
    refine ⟨Function.update (Function.update h.storage 1 x) 1 x, ?_, ?_, ?_⟩
    · rw [percolate_loop, if_neg (by dsimp only; omega), Option.bind_eq_bind, Option.bind_some]
      exact Heap.set_eq (by dsimp only; omega) x
    · intro i h2 hi
      omega
    · rw [hn, bag_zero, bag_zero, hx]
  · have hfirst : 1 ≤ h.num_elements := Nat.one_le_iff_ne_zero.mpr hn
    obtain ⟨st, i, hloop, hfits, hrest⟩ := percolate_loop_spec (x := x) hcompare h.num_elements
      (Nat.lt_succ_self _) hroom (by rwa [Function.update_of_ne (by omega)]) le_rfl
      hfirst ((hord.hole 1).update x) (fun hno => absurd hno (by decide))
        (hsinks.update (by decide) x)
    have hplace := hfits.last
    refine ⟨Function.update st i x, ?_, hfits.ordered, ?_⟩
    · rw [hloop, Option.bind_eq_bind, Option.bind_some]
      exact Heap.set_eq (by dsimp only; omega) x
    · rw [bag_fill hfits.first hfits.last, hrest, rest_update, bag_eq_cons_rest le_rfl hfirst]
      rw [← Multiset.singleton_add, ← Multiset.singleton_add, add_comm _ {h.storage 1}, add_assoc]
      rw [add_comm (rest h.storage h.num_elements 1)]

theorem remove_min_spec (hn : h.num_elements ≠ 0) (hroom : h.num_elements < h.allocated)
    (hsinks : Sinks h.storage (h.num_elements - 1) (h.storage h.num_elements) 1) :
    ∃ st, remove_min h =
        some (some (h.storage 1), { h with num_elements := h.num_elements - 1, storage := st }) ∧
      Ordered st (h.num_elements - 1) ∧
      bag h.storage h.num_elements = h.storage 1 ::ₘ bag st (h.num_elements - 1) := by
  have hlast : h.num_elements - 1 + 1 = h.num_elements := by omega
  have hempty : h.is_heap_empty = false := by
    unfold Heap.is_heap_empty
    rwa [decide_eq_false_iff_not]
  obtain ⟨st, hpercolate, hord', hbag⟩ :=
    percolate_spec (h := { h with num_elements := h.num_elements - 1 })
    (x := h.storage h.num_elements) hcompare (hord.le (Nat.sub_le _ _)) (by dsimp only; omega)
    (by dsimp only; rw [hlast]) hsinks
  refine ⟨st, ?_, hord', ?_⟩
  · have hfirst : h.get 1 = some (h.storage 1) := Heap.get_eq (i := 1) (by omega)
    unfold remove_min
    rw [hempty, if_neg Bool.false_ne_true, hfirst, Heap.get_eq hroom]
    simp only [Option.bind_eq_bind, Option.bind_some]
    rw [Heap.set_eq (by dsimp only; omega), Option.bind_some]
    dsimp only at hpercolate ⊢
    rw [hpercolate]
    rfl
  · dsimp only at hbag
    rw [bag_eq_cons_rest (by omega) le_rfl, ← hlast, rest_last, hlast, ← Multiset.singleton_add,
      add_comm, ← hbag]
    rw [add_comm, Multiset.singleton_add]

end

/-! ## Runs -/

/-- The heap that the watched elements stand in. -/
structure Inv (w : Watched α) : Prop where
  compare : ∀ x y, w.heap.compare x y = true ↔ y < x
  held : w.held = bag w.heap.storage w.heap.num_elements
  ordered : Ordered w.heap.storage w.heap.num_elements
  room : w.heap.num_elements = 0 ∨ w.heap.num_elements < w.heap.allocated
  fit : w.heap.allocated ≤ w.heap.array_size

variable {w : Watched α}

theorem Inv.card (h : Inv w) : w.held.card = w.heap.num_elements := by
  rw [h.held, card_bag]

theorem Inv.insert (h : Inv w) (a : α) (hsound : Sound (some w) (.insert a)) :
    Behaves (some w) (.insert a) ∧ ∃ w', watch w (.insert a) = some w' ∧ Inv w' := by
  have hroom : w.heap.num_elements + 1 < w.heap.allocated := hsound w rfl
  obtain ⟨st, hinsert, hord, hbag⟩ := insert_spec h.compare h.ordered a hroom h.fit
  have hstep : step w.heap (.insert a) =
      some (.inserted true,
        { w.heap with num_elements := w.heap.num_elements + 1, storage := st }) := by
    rw [step, hinsert]
    rfl
  constructor
  · rintro w' hw
    cases hw
    refine ⟨_, _, hstep, ?_⟩
    have hfit := h.fit
    unfold Right
    rw [h.card, decide_eq_true (by omega)]
  · refine ⟨⟨{ w.heap with num_elements := w.heap.num_elements + 1, storage := st }, a ::ₘ w.held⟩,
      ?_, h.compare, ?_, hord, .inr hroom, h.fit⟩
    · rw [watch, hstep]
      rfl
    · rw [h.held]
      exact hbag.symm

theorem Inv.remove_min (h : Inv w) (hsound : Sound (some w) (.remove_min)) :
    Behaves (some w) .remove_min ∧ ∃ w', watch w .remove_min = some w' ∧ Inv w' := by
  by_cases hn : w.heap.num_elements = 0
  · have hheld : w.held = 0 := by rw [← Multiset.card_eq_zero, h.card, hn]
    have hempty : w.heap.is_heap_empty = true := decide_eq_true hn
    have hstep : step w.heap .remove_min = some (.removed none, w.heap) := by
      rw [step, MinHeap.remove_min, if_pos hempty]
      rfl
    constructor
    · rintro w' hw
      cases hw
      exact ⟨_, _, hstep, fun hno => absurd hheld hno⟩
    · refine ⟨w, ?_, h⟩
      rw [watch, hstep]
      rfl
  · have hroom := h.room.resolve_left hn
    obtain ⟨st, hremove, hord, hbag⟩ :=
      remove_min_spec h.compare h.ordered hn hroom (hsound w rfl hn)
    have hstep : step w.heap .remove_min = some (.removed (some (w.heap.storage 1)),
        { w.heap with num_elements := w.heap.num_elements - 1, storage := st }) := by
      rw [step, hremove]
      rfl
    constructor
    · rintro w' hw
      cases hw
      obtain ⟨hmem, hle⟩ := h.ordered.root_min (Nat.one_le_iff_ne_zero.mpr hn)
      rw [← h.held] at hmem hle
      exact ⟨_, _, hstep, fun _ => ⟨_, hmem, hle, rfl⟩⟩
    · refine ⟨⟨{ w.heap with num_elements := w.heap.num_elements - 1, storage := st },
        w.held.erase (w.heap.storage 1)⟩, ?_, h.compare, ?_, hord, .inr ?_, h.fit⟩
      · rw [watch, hstep]
        rfl
      · rw [h.held, hbag, Multiset.erase_cons_head]
      · exact lt_of_le_of_lt (Nat.sub_le _ _) hroom

theorem Inv.step (h : Inv w) (op : Op α) (hsound : Sound (some w) op) :
    Behaves (some w) op ∧ ∃ w', watch w op = some w' ∧ Inv w' := by
  cases op with
  | insert a => exact h.insert a hsound
  | remove_min => exact h.remove_min hsound

theorem heap_bytes_le (size : Nat) : (heap_bytes size - 24) / 8 ≤ size := by
  unfold heap_bytes
  omega

theorem create_heap_inv {malloc : Nat → Option (Nat → α)} {size : UInt64} {compare : α → α → Bool}
    (hcompare : ∀ x y, compare x y = true ↔ y < x) {h : Heap α}
    (hcreate : create_heap malloc size compare = some h) :
    Inv ⟨h, 0⟩ := by
  obtain ⟨storage, _, rfl⟩ := Option.map_eq_some_iff.mp hcreate
  refine ⟨hcompare, (bag_zero storage).symm, ?_, .inl rfl, heap_bytes_le _⟩
  intro i h2 hi
  exact absurd (Nat.le_trans h2 hi) (Nat.not_succ_le_zero 1)

/-- The heap is a priority queue in every run in which no element is inserted into the last place
that `array_size` promises, and the last element sinks the right way whenever the first one
leaves. -/
theorem heap_is_priority_queue {malloc : Nat → Option (Nat → α)} {size : UInt64}
    {compare : α → α → Bool} (hcompare : ∀ x y, compare x y = true ↔ y < x) {h : Heap α}
    (hcreate : create_heap malloc size compare = some h) (ops : List (Op α))
    (hsound : Meets watch? Sound (some ⟨h, 0⟩) ops) :
    Meets watch? Behaves (some ⟨h, 0⟩) ops := by
  apply Meets.imp (Q := fun w => ∃ w', w = some w' ∧ Inv w') (C := Sound)
  · rintro _ op ⟨w, rfl, hinv⟩ hop
    exact (hinv.step op hop).1
  · rintro _ op ⟨w, rfl, hinv⟩ hop
    exact (hinv.step op hop).2
  · exact ⟨_, rfl, create_heap_inv hcompare hcreate⟩
  · exact hsound

/-- The heap of ten places for natural numbers, the least of them first. -/
def numbers : Heap Nat := ⟨10, 0, fun x y => decide (y < x), fun _ => 0, 10⟩

theorem numbers_created :
    create_heap (fun _ => some fun _ => 0) 10 (fun x y => decide (y < x)) = some numbers := rfl

/-- The last element 3 goes under the left child 2, and the right child 4 is greater. -/
theorem four_numbers_are_queued :
    Meets watch? Behaves (some ⟨numbers, 0⟩)
      [.insert 1, .insert 2, .insert 4, .insert 3, .remove_min] := by
  apply heap_is_priority_queue (fun _ _ => decide_eq_true_iff) numbers_created
  refine ⟨?_, ?_, ?_, ?_, ?_, trivial⟩
  · intro w hw
    obtain rfl := Option.some.inj hw
    decide
  · intro w hw
    obtain rfl := Option.some.inj hw
    decide
  · intro w hw
    obtain rfl := Option.some.inj hw
    decide
  · intro w hw
    obtain rfl := Option.some.inj hw
    decide
  · intro w hw _
    obtain rfl := Option.some.inj hw
    exact .moves (by decide) (by decide) (by decide) (by decide) (.leaf (by decide))

/-- The last element 3 stays above the left child 2, and is the next to come out. -/
theorem three_comes_before_two :
    ¬ Meets watch? Behaves (some ⟨numbers, 0⟩)
      [.insert 1, .insert 2, .insert 3, .remove_min, .remove_min] := by
  rintro ⟨_, _, _, _, hlast, _⟩
  obtain ⟨r, h, hstep, hright⟩ := hlast _ rfl
  obtain ⟨rfl, _⟩ := Prod.mk.inj (Option.some.inj hstep)
  obtain ⟨min, _, hmin, hresult⟩ := hright (by decide)
  have hthree : 3 = min := Option.some.inj (Result.removed.inj hresult)
  have htwo : min ≤ 2 := hmin 2 (by decide)
  omega

end Httperf.MinHeap
