-- The lists of `lib/list.c`, node by node: what is read, written, asked for and given back. An
-- access to memory that is not in use gives `none`, and so does a loop that runs out of turns.
-- `struct List` is its `dummy_head`.
import Httperf.Lib.NodeList

namespace Httperf.Lists

open NodeList

variable {α S A : Type}

/-! ## The functions -/

/-- The list, or NULL. -/
def list_create (m : Malloc α) (h : Heap α) : Option Nat × Heap α :=
  match m.pick h with
  | none => (none, h)
  | some l => (some l, Function.update h l (some ⟨none, none⟩))

def is_list_empty (h : Heap α) (l : Nat) : Option Bool :=
  (h l).map fun head => head.next.isNone

def list_push (m : Malloc α) (h : Heap α) (l : Nat) (data : α) : Option (Bool × Heap α) :=
  match m.pick h with
  | none => some (false, h)
  | some n =>
    (h l).map fun head =>
      (true, Function.update (Function.update h n (some ⟨some data, head.next⟩)) l
        (some { head with next := some n }))

def list_pop (h : Heap α) (l : Nat) : Option (α × Heap α) := do
  let head ← h l
  let n ← head.next
  let node ← h n
  let data ← node.data
  return (data, Function.update (Function.update h l (some { head with next := node.next })) n none)

def list_free (h : Heap α) (l : Nat) : Option (Heap α) :=
  (h l).map fun _ => Function.update h l none

/-- The loop of `list_remove_if_true`. The links are read again after the action. -/
def remove_loop (action : α → Heap α × S → Option (Bool × Heap α × S)) :
    Nat → Nat → Heap α × S → Option (Heap α × S)
  | 0, _, _ => none
  | fuel + 1, n, s => do
    let node ← s.1 n
    match node.next with
    | none => return s
    | some next =>
      let target ← s.1 next
      let data ← target.data
      let (remove, s1) ← action data s
      let node1 ← s1.1 n
      let oldnext ← node1.next
      if remove then
        let old ← s1.1 oldnext
        let h := Function.update s1.1 n (some { node1 with next := old.next })
        remove_loop action fuel n (Function.update h oldnext none, s1.2)
      else remove_loop action fuel oldnext s1

def list_remove_if_true (fuel : Nat) (l : Nat)
    (action : α → Heap α × S → Option (Bool × Heap α × S)) (s : Heap α × S) : Option (Heap α × S) :=
  remove_loop action fuel l s

/-- The loop of `list_for_each`. -/
def for_each_loop (action : α → Heap α × S → Option (Heap α × S)) :
    Nat → Option Nat → Heap α × S → Option (Heap α × S)
  | 0, _, _ => none
  | _ + 1, none, s => some s
  | fuel + 1, some n, s => do
    let node ← s.1 n
    let data ← node.data
    let s1 ← action data s
    let node1 ← s1.1 n
    for_each_loop action fuel node1.next s1

def list_for_each (fuel : Nat) (l : Nat) (action : α → Heap α × S → Option (Heap α × S))
    (s : Heap α × S) : Option (Heap α × S) := do
  let head ← s.1 l
  for_each_loop action fuel head.next s

/-! ## What they do -/

section
variable {m : Malloc α} {h : Heap α} {ls : List (Nat × List (Nat × α))} {l : Nat}
  {xs : List (Nat × α)}

theorem list_create_spec (henough : m.Enough) (ho : Owned h ls) :
    ∃ l h', list_create m h = (some l, h') ∧ Owned h' ((l, []) :: ls) := by
  obtain ⟨l, hpick, hl⟩ := ho.alloc henough
  refine ⟨l, _, ?_, ho.create hl⟩
  unfold list_create
  rw [hpick]

theorem is_list_empty_spec (ho : Owned h ((l, xs) :: ls)) :
    is_list_empty h l = some xs.isEmpty := by
  obtain ⟨d, hl⟩ := ho.head
  unfold is_list_empty
  rw [hl]
  cases xs <;> rfl

theorem list_push_spec (henough : m.Enough) (ho : Owned h ((l, xs) :: ls)) (x : α) :
    ∃ n h', list_push m h l x = some (true, h') ∧ Owned h' ((l, (n, x) :: xs) :: ls) := by
  obtain ⟨n, hpick, hn⟩ := ho.alloc henough
  obtain ⟨d, hl⟩ := ho.head
  refine ⟨n, _, ?_, ho.push hn x (d := d)⟩
  unfold list_push
  rw [hpick]
  simp [hl]

theorem list_pop_spec {x : Nat × α} (ho : Owned h ((l, x :: xs) :: ls)) :
    ∃ h', list_pop h l = some (x.2, h') ∧ Owned h' ((l, xs) :: ls) := by
  obtain ⟨d, hl⟩ := ho.head
  have ho' : Owned h ((l, [] ++ x :: xs) :: ls) := ho
  have hx := ho'.node
  refine ⟨_, ?_, ho'.unlink hl⟩
  unfold list_pop
  simp [hl, hx, first, before]

theorem list_free_spec (ho : Owned h ((l, []) :: ls)) :
    ∃ h', list_free h l = some h' ∧ Owned h' ls := by
  obtain ⟨d, hl⟩ := ho.head
  refine ⟨_, ?_, ho.free⟩
  unfold list_free
  rw [hl]
  rfl

end

/-! ## The traversals

`I a g xs ls` is what holds of the other data `g` when `xs` are the nodes of the list and `ls` the
other lists. `a` is what a plain fold has made of the data that were visited. -/

section
variable {I : A → S → List (Nat × α) → List (Nat × List (Nat × α)) → Prop} {l : Nat}

/-- An action may put nodes in front. The traversal visits the nodes that were there, each once. -/
theorem for_each_loop_spec {action : α → Heap α × S → Option (Heap α × S)} {f : A → α → A}
    (haction : ∀ a h g xs ls, ∀ x ∈ xs, Owned h ((l, xs) :: ls) → I a g xs ls →
      ∃ h' g' new ls', action x.2 (h, g) = some (h', g') ∧ Owned h' ((l, new ++ xs) :: ls') ∧
        I (f a x.2) g' (new ++ xs) ls')
    (rest : List (Nat × α)) {fuel : Nat} (hfuel : rest.length < fuel) {a : A} {h : Heap α} {g : S}
    {before : List (Nat × α)} {ls : List (Nat × List (Nat × α))}
    (ho : Owned h ((l, before ++ rest) :: ls)) (hi : I a g (before ++ rest) ls) :
    ∃ h' g' new ls', for_each_loop action fuel (first rest) (h, g) = some (h', g') ∧
      Owned h' ((l, new ++ (before ++ rest)) :: ls') ∧
      I ((rest.map Prod.snd).foldl f a) g' (new ++ (before ++ rest)) ls' := by
  induction rest generalizing fuel a h g before ls with
  | nil =>
    obtain ⟨fuel, rfl⟩ := Nat.exists_eq_succ_of_ne_zero (Nat.ne_of_gt hfuel)
    exact ⟨h, g, [], ls, rfl, ho, hi⟩
  | cons x rest ih =>
    obtain ⟨fuel, rfl⟩ :=
      Nat.exists_eq_succ_of_ne_zero (Nat.ne_of_gt (Nat.lt_of_le_of_lt (Nat.zero_le _) hfuel))
    have hx := ho.node
    obtain ⟨h1, g1, new, ls1, hact, ho1, hi1⟩ := haction a h g _ ls x (by simp) ho hi
    have hsplit : new ++ (before ++ x :: rest) = (new ++ before ++ [x]) ++ rest := by simp
    have hx1 : h1 x.1 = some ⟨some x.2, first rest⟩ := by
      rw [← List.append_assoc] at ho1
      exact ho1.node
    rw [hsplit] at ho1 hi1
    obtain ⟨h2, g2, new', ls2, hloop, ho2, hi2⟩ := ih (Nat.lt_of_succ_lt_succ hfuel) ho1 hi1
    rw [← hsplit, ← List.append_assoc] at ho2 hi2
    refine ⟨h2, g2, new' ++ new, ls2, ?_, ho2, hi2⟩
    change for_each_loop action (fuel + 1) (some x.1) (h, g) = _
    simp only [for_each_loop, hx, Option.bind_eq_bind, Option.bind_some, hact, hx1]
    exact hloop

theorem list_for_each_spec {action : α → Heap α × S → Option (Heap α × S)} {f : A → α → A}
    (haction : ∀ a h g xs ls, ∀ x ∈ xs, Owned h ((l, xs) :: ls) → I a g xs ls →
      ∃ h' g' new ls', action x.2 (h, g) = some (h', g') ∧ Owned h' ((l, new ++ xs) :: ls') ∧
        I (f a x.2) g' (new ++ xs) ls')
    {xs : List (Nat × α)} {fuel : Nat} (hfuel : xs.length < fuel) {a : A} {h : Heap α} {g : S}
    {ls : List (Nat × List (Nat × α))} (ho : Owned h ((l, xs) :: ls)) (hi : I a g xs ls) :
    ∃ h' g' new ls', list_for_each fuel l action (h, g) = some (h', g') ∧
      Owned h' ((l, new ++ xs) :: ls') ∧ I ((xs.map Prod.snd).foldl f a) g' (new ++ xs) ls' := by
  obtain ⟨d, hl⟩ := ho.head
  have hall : Owned h ((l, [] ++ xs) :: ls) := ho
  obtain ⟨h', g', new, ls', hloop, ho', hi'⟩ := for_each_loop_spec haction xs hfuel hall hi
  refine ⟨h', g', new, ls', ?_, ho', hi'⟩
  simp only [list_for_each, hl, Option.bind_eq_bind, Option.bind_some]
  exact hloop

/-- The actions leave the list alone. The nodes with a datum that `gone` marks are taken out and
given back. `J` is what holds of the other data and of the other lists. -/
theorem remove_loop_spec {J : A → S → List (Nat × List (Nat × α)) → Prop}
    {action : α → Heap α × S → Option (Bool × Heap α × S)} {f : A → α → A} {gone : α → Bool}
    (haction : ∀ a h g xs ls, ∀ x ∈ xs, Owned h ((l, xs) :: ls) → J a g ls →
      ∃ h' g' ls', action x.2 (h, g) = some (gone x.2, h', g') ∧ Owned h' ((l, xs) :: ls') ∧
        J (f a x.2) g' ls')
    (rest : List (Nat × α)) {fuel : Nat} (hfuel : rest.length < fuel) {a : A} {h : Heap α} {g : S}
    {kept : List (Nat × α)} {ls : List (Nat × List (Nat × α))}
    (ho : Owned h ((l, kept ++ rest) :: ls)) (hj : J a g ls) :
    ∃ h' g' ls', remove_loop action fuel (before l kept) (h, g) = some (h', g') ∧
      Owned h' ((l, kept ++ rest.filter fun x => !gone x.2) :: ls') ∧
      J ((rest.map Prod.snd).foldl f a) g' ls' := by
  induction rest generalizing fuel a h g kept ls with
  | nil =>
    obtain ⟨fuel, rfl⟩ := Nat.exists_eq_succ_of_ne_zero (Nat.ne_of_gt hfuel)
    obtain ⟨d, hb⟩ := ho.before
    refine ⟨h, g, ls, ?_, ho, hj⟩
    simp only [remove_loop, hb, Option.bind_eq_bind, Option.bind_some]
    rfl
  | cons x rest ih =>
    obtain ⟨fuel, rfl⟩ :=
      Nat.exists_eq_succ_of_ne_zero (Nat.ne_of_gt (Nat.lt_of_le_of_lt (Nat.zero_le _) hfuel))
    have hfuel := Nat.lt_of_succ_lt_succ hfuel
    obtain ⟨d, hb⟩ := ho.before
    have hx := ho.node
    obtain ⟨h1, g1, ls1, hact, ho1, hj1⟩ := haction a h g _ ls x (by simp) ho hj
    obtain ⟨d1, hb1⟩ := ho1.before
    have hx1 := ho1.node
    have hturn : remove_loop action (fuel + 1) (before l kept) (h, g) =
        if gone x.2 then remove_loop action fuel (before l kept)
          (Function.update (Function.update h1 (before l kept) (some ⟨d1, first rest⟩)) x.1 none,
            g1)
        else remove_loop action fuel x.1 (h1, g1) := by
      simp only [remove_loop, hb, first, List.head?_cons, Option.map_some, hx, Option.bind_eq_bind,
        Option.bind_some, hact, hb1, hx1]
    rw [hturn]
    rcases hgone : gone x.2 with _ | _
    · rw [List.append_cons] at ho1
      obtain ⟨h2, g2, ls2, hloop, ho2, hj2⟩ := ih hfuel ho1 hj1
      rw [before_concat] at hloop
      refine ⟨h2, g2, ls2, hloop, ?_, hj2⟩
      rw [List.filter_cons_of_pos (by simp [hgone]), List.append_cons]
      exact ho2
    · obtain ⟨h2, g2, ls2, hloop, ho2, hj2⟩ := ih hfuel (ho1.unlink hb1) hj1
      refine ⟨h2, g2, ls2, hloop, ?_, hj2⟩
      rw [List.filter_cons_of_neg (by simp [hgone])]
      exact ho2

theorem list_remove_if_true_spec {J : A → S → List (Nat × List (Nat × α)) → Prop}
    {action : α → Heap α × S → Option (Bool × Heap α × S)} {f : A → α → A} {gone : α → Bool}
    (haction : ∀ a h g xs ls, ∀ x ∈ xs, Owned h ((l, xs) :: ls) → J a g ls →
      ∃ h' g' ls', action x.2 (h, g) = some (gone x.2, h', g') ∧ Owned h' ((l, xs) :: ls') ∧
        J (f a x.2) g' ls')
    {xs : List (Nat × α)} {fuel : Nat} (hfuel : xs.length < fuel) {a : A} {h : Heap α} {g : S}
    {ls : List (Nat × List (Nat × α))} (ho : Owned h ((l, xs) :: ls)) (hj : J a g ls) :
    ∃ h' g' ls', list_remove_if_true fuel l action (h, g) = some (h', g') ∧
      Owned h' ((l, xs.filter fun x => !gone x.2) :: ls') ∧
      J ((xs.map Prod.snd).foldl f a) g' ls' := by
  have hall : Owned h ((l, [] ++ xs) :: ls) := ho
  exact remove_loop_spec haction xs hfuel hall hj

end

end Httperf.Lists
