-- Singly linked lists with a head node of their own, in a memory that is asked for nodes and gets
-- them back. Which node is handed out is not known: any that is not in use. `Owned` says that some
-- lists share no node, and that no other node is in use.
import Mathlib.Data.List.Nodup
import Mathlib.Data.List.Perm.Basic
import Mathlib.Logic.Function.Basic
import Mathlib.Data.Finset.Basic
import Mathlib.Data.Fintype.EquivFin

namespace Httperf.NodeList

variable {α : Type}

/-- The data of a node may never have been written. -/
structure Node (α : Type) where
  data : Option α
  next : Option Nat

/-- `none` is a place that is not in use. -/
abbrev Heap (α : Type) := Nat → Option (Node α)

/-- How places are chosen. `none` is the lack of memory. -/
structure Malloc (α : Type) where
  pick : Heap α → Option Nat
  fresh : ∀ h a, pick h = some a → h a = none

/-- Memory lacks only when every place is in use. -/
def Malloc.Enough (m : Malloc α) : Prop := ∀ h, (∃ a, h a = none) → (m.pick h).isSome

/-- From the pointer `p` the links lead through the nodes of `xs`, and the last one holds `q`. Each
node stands with its data. -/
def Seg (h : Heap α) : Option Nat → List (Nat × α) → Option Nat → Prop
  | p, [], q => p = q
  | p, x :: xs, q => p = some x.1 ∧ ∃ next, h x.1 = some ⟨some x.2, next⟩ ∧ Seg h next xs q

/-- The pointer to the first of some nodes. -/
def first (xs : List (Nat × α)) : Option Nat := xs.head?.map Prod.fst

/-- The list whose head node is `l`. -/
def IsList (h : Heap α) (l : Nat) (xs : List (Nat × α)) : Prop :=
  ∃ d p, h l = some ⟨d, p⟩ ∧ Seg h p xs none

section
variable {h h' : Heap α} {p q : Option Nat} {xs ys : List (Nat × α)}

theorem Seg.congr (hs : Seg h p xs q) (heq : ∀ x ∈ xs, h' x.1 = h x.1) : Seg h' p xs q := by
  induction xs generalizing p with
  | nil => exact hs
  | cons x xs ih =>
    obtain ⟨hp, next, hx, hrest⟩ := hs
    refine ⟨hp, next, ?_, ih hrest fun y hy => heq y (List.mem_cons_of_mem x hy)⟩
    rw [heq x List.mem_cons_self, hx]

theorem seg_append : Seg h p (xs ++ ys) q ↔ ∃ m, Seg h p xs m ∧ Seg h m ys q := by
  induction xs generalizing p with
  | nil => exact ⟨fun hs => ⟨p, rfl, hs⟩, fun ⟨m, hm, hs⟩ => hm ▸ hs⟩
  | cons x xs ih =>
    constructor
    · rintro ⟨hp, next, hx, hrest⟩
      obtain ⟨m, hm, hys⟩ := ih.mp hrest
      exact ⟨m, ⟨hp, next, hx, hm⟩, hys⟩
    · rintro ⟨m, ⟨hp, next, hx, hm⟩, hys⟩
      exact ⟨hp, next, hx, ih.mpr ⟨m, hm, hys⟩⟩

theorem Seg.first_eq (hs : Seg h p xs none) : p = first xs := by
  cases xs with
  | nil => exact hs
  | cons x xs => exact hs.1

/-- What a node of the list holds. -/
theorem Seg.node {x : Nat × α} (hs : Seg h p (xs ++ x :: ys) none) :
    h x.1 = some ⟨some x.2, first ys⟩ := by
  obtain ⟨m, -, -, next, hx, hrest⟩ := seg_append.mp hs
  rw [hx, hrest.first_eq]

/-- The nodes up to here, when only the last of them is changed to point elsewhere. -/
theorem Seg.relink {x : Nat × α} {m : Option Nat} (hs : Seg h p (xs ++ [x]) m)
    (hframe : ∀ y ∈ xs, h' y.1 = h y.1) (hx : h' x.1 = some ⟨some x.2, q⟩) :
    Seg h' p (xs ++ [x]) q := by
  obtain ⟨m', hm, hp, -⟩ := seg_append.mp hs
  exact seg_append.mpr ⟨m', hm.congr hframe, hp, q, hx, rfl⟩

end

/-! ## Lists that share nothing -/

/-- The nodes of a list, the head node first. -/
def places (l : Nat × List (Nat × α)) : List Nat := l.1 :: l.2.map Prod.fst

/-- The lists `ls`, with their nodes, are all that is in use. -/
structure Owned (h : Heap α) (ls : List (Nat × List (Nat × α))) : Prop where
  lists : ∀ l ∈ ls, IsList h l.1 l.2
  nodup : (ls.flatMap places).Nodup
  exact : ∀ a, h a ≠ none ↔ a ∈ ls.flatMap places

section
variable {h h' : Heap α} {ls ms : List (Nat × List (Nat × α))} {l : Nat} {xs ys : List (Nat × α)}

theorem owned_nil : Owned (fun _ => none : Heap α) [] :=
  ⟨fun _ hl => absurd hl List.not_mem_nil, List.nodup_nil, fun a => by simp⟩

theorem Owned.perm (ho : Owned h ls) (hp : ls.Perm ms) : Owned h ms where
  lists := fun l hl => ho.lists l (hp.mem_iff.mpr hl)
  nodup := (hp.flatMap_right places).nodup_iff.mp ho.nodup
  exact := fun a => (ho.exact a).trans (hp.flatMap_right places).mem_iff

/-- There is always a place that is not in use. -/
theorem Owned.exists_free (ho : Owned h ls) : ∃ a, h a = none := by
  obtain ⟨a, ha⟩ := Infinite.exists_notMem_finset (ls.flatMap places).toFinset
  rw [List.mem_toFinset] at ha
  exact ⟨a, not_not.mp fun hne => ha ((ho.exact a).mp hne)⟩

theorem Owned.alloc (ho : Owned h ls) {m : Malloc α} (henough : m.Enough) :
    ∃ a, m.pick h = some a ∧ h a = none := by
  obtain ⟨a, ha⟩ := Option.isSome_iff_exists.mp (henough h ho.exists_free)
  exact ⟨a, ha, m.fresh h a ha⟩

/-- The head node of the first list. -/
theorem Owned.head (ho : Owned h ((l, xs) :: ls)) : ∃ d, h l = some ⟨d, first xs⟩ := by
  obtain ⟨d, p, hl, hs⟩ := ho.lists (l, xs) List.mem_cons_self
  exact ⟨d, by rw [hl, hs.first_eq]⟩

theorem Owned.node {x : Nat × α} (ho : Owned h ((l, xs ++ x :: ys) :: ls)) :
    h x.1 = some ⟨some x.2, first ys⟩ := by
  obtain ⟨d, p, -, hs⟩ := ho.lists (l, xs ++ x :: ys) List.mem_cons_self
  exact hs.node

/-- A list of which no node is touched. -/
theorem IsList.congr (hl : IsList h l xs) (heq : ∀ a ∈ places (l, xs), h' a = h a) :
    IsList h' l xs := by
  obtain ⟨d, p, hhead, hs⟩ := hl
  refine ⟨d, p, ?_, hs.congr fun x hx => heq x.1 ?_⟩
  · rw [heq l List.mem_cons_self, hhead]
  · exact List.mem_cons_of_mem _ (List.mem_map_of_mem hx)

/-- The node in front of some nodes: the last one of those before them, or the head node. -/
def before (l : Nat) (xs : List (Nat × α)) : Nat := (xs.getLast?.map Prod.fst).getD l

theorem before_mem (l : Nat) (xs : List (Nat × α)) : before l xs ∈ l :: xs.map Prod.fst := by
  rcases List.eq_nil_or_concat xs with rfl | ⟨zs, z, rfl⟩
  · exact List.mem_cons_self
  · simp [before]

theorem before_concat (l : Nat) (xs : List (Nat × α)) (x : Nat × α) :
    before l (xs ++ [x]) = x.1 := by
  simp [before]

/-- The node before `x` is made to point past it. -/
theorem IsList.unlink {h h' : Heap α} {l : Nat} {xs ys : List (Nat × α)} {x : Nat × α}
    {d : Option α} (hl : IsList h l (xs ++ x :: ys)) (hnodup : (places (l, xs ++ ys)).Nodup)
    (hx : x.1 ∉ places (l, xs ++ ys)) (hbefore : h (before l xs) = some ⟨d, some x.1⟩)
    (hlink : h' (before l xs) = some ⟨d, first ys⟩)
    (hframe : ∀ b, b ≠ before l xs → b ≠ x.1 → h' b = h b) : IsList h' l (xs ++ ys) := by
  obtain ⟨d', p, hhead, hs⟩ := hl
  obtain ⟨m, hfront, hm, next, hnode, hback⟩ := seg_append.mp hs
  have hplaces : places (l, xs ++ ys) = (l :: xs.map Prod.fst) ++ ys.map Prod.fst := by
    rw [places, List.map_append, List.cons_append]
  rw [hplaces] at hx hnodup
  rw [List.mem_append, not_or] at hx
  obtain ⟨hleft, -, hdisjoint⟩ := List.nodup_append.mp hnodup
  have hback' : Seg h' (first ys) ys none := by
    rw [← hback.first_eq]
    refine hback.congr fun y hy => ?_
    have hy := List.mem_map_of_mem (f := Prod.fst) hy
    exact hframe y.1 (fun heq => hdisjoint _ (before_mem l xs) y.1 hy heq.symm)
      fun heq => hx.2 (heq ▸ hy)
  rcases List.eq_nil_or_concat xs with rfl | ⟨zs, z, rfl⟩
  · exact ⟨d, first ys, hlink, hback'⟩
  · rw [List.concat_eq_append] at *
    rw [before_concat] at hbefore hlink hframe
    obtain ⟨hout, hinner⟩ := List.nodup_cons.mp hleft
    rw [List.map_append] at hout hinner
    have hdata : d = some z.2 := by
      obtain ⟨_, -, -, _, hz, -⟩ := seg_append.mp hfront
      rw [hz] at hbefore
      exact (congrArg Node.data (Option.some.inj hbefore)).symm
    refine ⟨d', p, ?_,
      seg_append.mpr ⟨first ys, hfront.relink (fun y hy => ?_) (hdata ▸ hlink), hback'⟩⟩
    · refine (hframe l (fun heq => hout ?_) fun heq => hx.1 ?_).trans hhead
      · exact List.mem_append_right _ (heq ▸ List.mem_cons_self)
      · exact heq ▸ List.mem_cons_self
    · have hy := List.mem_map_of_mem (f := Prod.fst) hy
      refine hframe y.1 (fun heq => ?_) fun heq => hx.1 ?_
      · exact (List.nodup_append.mp hinner).2.2 y.1 hy z.1 List.mem_cons_self heq
      · rw [List.map_append]
        exact List.mem_cons_of_mem _ (List.mem_append_left _ (heq ▸ hy))

/-- A node is put in front. -/
theorem Owned.push (ho : Owned h ((l, xs) :: ls)) {a : Nat} (ha : h a = none) (x : α)
    {d : Option α} :
    Owned (Function.update (Function.update h a (some ⟨some x, first xs⟩)) l (some ⟨d, some a⟩))
      ((l, (a, x) :: xs) :: ls) := by
  have hnew : a ∉ ((l, xs) :: ls).flatMap places := fun hmem => (ho.exact a).mpr hmem ha
  rw [List.flatMap_cons, List.mem_append, not_or] at hnew
  have hnodup := ho.nodup
  rw [List.flatMap_cons, List.nodup_append] at hnodup
  obtain ⟨hmine, hothers, hdisjoint⟩ := hnodup
  have hal : a ≠ l := fun heq => hnew.1 (heq ▸ List.mem_cons_self)
  have hlxs : l ∉ xs.map Prod.fst := (List.nodup_cons.mp hmine).1
  have hperm : (((l, (a, x) :: xs) :: ls).flatMap places).Perm
      (a :: ((l, xs) :: ls).flatMap places) := by
    rw [List.flatMap_cons, List.flatMap_cons]
    exact (List.Perm.swap a l _).append_right _
  refine ⟨fun k hk => ?_, ?_, fun b => ?_⟩
  · rcases List.mem_cons.mp hk with rfl | hk
    · refine ⟨d, some a, Function.update_self _ _ _, rfl, first xs, ?_, ?_⟩
      · rw [Function.update_of_ne hal, Function.update_self]
      · obtain ⟨d', p, -, hs⟩ := ho.lists (l, xs) List.mem_cons_self
        rw [← hs.first_eq]
        refine hs.congr fun y hy => ?_
        have hy := List.mem_map_of_mem (f := Prod.fst) hy
        rw [Function.update_of_ne fun heq : y.1 = l => hlxs (heq ▸ hy),
          Function.update_of_ne fun heq : y.1 = a => hnew.1 (heq ▸ List.mem_cons_of_mem l hy)]
    · refine (ho.lists k (List.mem_cons_of_mem _ hk)).congr fun b hb => ?_
      have hmem : b ∈ ls.flatMap places := List.mem_flatMap.mpr ⟨k, hk, hb⟩
      rw [Function.update_of_ne fun heq : b = l => hdisjoint l List.mem_cons_self b hmem heq.symm,
        Function.update_of_ne fun heq : b = a => hnew.2 (heq ▸ hmem)]
  · rw [hperm.nodup_iff, List.nodup_cons, List.flatMap_cons, List.mem_append, not_or]
    exact ⟨hnew, ho.nodup⟩
  · rw [hperm.mem_iff, List.mem_cons, ← ho.exact]
    by_cases hbl : b = l
    · have hl := (ho.exact l).mpr (by simp [places])
      rw [hbl, Function.update_self]
      simp [hl]
    · rw [Function.update_of_ne hbl]
      by_cases hba : b = a
      · rw [hba, Function.update_self]
        simp
      · rw [Function.update_of_ne hba]
        simp [hba]

/-- A new list. -/
theorem Owned.create (ho : Owned h ls) {a : Nat} (ha : h a = none) :
    Owned (Function.update h a (some ⟨none, none⟩)) ((a, []) :: ls) := by
  have hnew : a ∉ ls.flatMap places := fun hmem => (ho.exact a).mpr hmem ha
  refine ⟨fun k hk => ?_, ?_, fun b => ?_⟩
  · rcases List.mem_cons.mp hk with rfl | hk
    · exact ⟨none, none, Function.update_self _ _ _, rfl⟩
    · refine (ho.lists k hk).congr fun b hb => Function.update_of_ne (fun heq => hnew ?_) _ _
      exact heq ▸ List.mem_flatMap.mpr ⟨k, hk, hb⟩
  · rw [List.flatMap_cons]
    exact List.nodup_cons.mpr ⟨hnew, ho.nodup⟩
  · rw [List.flatMap_cons]
    change _ ↔ b ∈ a :: ls.flatMap places
    rw [List.mem_cons, ← ho.exact]
    by_cases hba : b = a
    · rw [hba, Function.update_self]
      simp
    · rw [Function.update_of_ne hba]
      simp [hba]

/-- The node in front of a place of the list points to that place. -/
theorem Owned.before (ho : Owned h ((l, xs ++ ys) :: ls)) :
    ∃ d, h (before l xs) = some ⟨d, first ys⟩ := by
  rcases List.eq_nil_or_concat xs with rfl | ⟨zs, z, rfl⟩
  · exact ho.head
  · rw [List.concat_eq_append, List.append_assoc] at ho
    have hnode := ho.node
    refine ⟨some z.2, ?_⟩
    unfold NodeList.before
    rw [List.concat_eq_append, List.getLast?_concat]
    exact hnode

/-- A node is taken out: the one before it points past it. -/
theorem Owned.unlink {x : Nat × α} (ho : Owned h ((l, xs ++ x :: ys) :: ls)) {d : Option α}
    (hbefore : h (NodeList.before l xs) = some ⟨d, some x.1⟩) :
    Owned (Function.update (Function.update h (NodeList.before l xs) (some ⟨d, first ys⟩)) x.1 none)
      ((l, xs ++ ys) :: ls) := by
  have hperm : (((l, xs ++ x :: ys) :: ls).flatMap places).Perm
      (x.1 :: ((l, xs ++ ys) :: ls).flatMap places) := by
    rw [List.flatMap_cons, List.flatMap_cons, ← List.cons_append]
    refine List.Perm.append_right _ ?_
    change (l :: (xs ++ x :: ys).map Prod.fst).Perm (x.1 :: l :: (xs ++ ys).map Prod.fst)
    rw [List.map_append, List.map_append]
    exact (List.perm_middle.cons l).trans (List.Perm.swap x.1 l _)
  obtain ⟨hnew, hrest⟩ := List.nodup_cons.mp (hperm.nodup_iff.mp ho.nodup)
  have hnodup := hrest
  rw [List.flatMap_cons, List.nodup_append] at hnodup
  obtain ⟨hmine, hothers, hdisjoint⟩ := hnodup
  rw [List.flatMap_cons, List.mem_append, not_or] at hnew
  have hin := before_mem l xs
  have hin' : NodeList.before l xs ∈ places (l, xs ++ ys) := by
    rw [places, List.map_append]
    exact List.mem_append_left (ys.map Prod.fst) hin
  have hne : NodeList.before l xs ≠ x.1 := fun heq => hnew.1 (heq ▸ hin')
  -- What is neither the node before nor the one taken out is as it was.
  have hframe : ∀ b, b ≠ NodeList.before l xs → b ≠ x.1 →
      Function.update (Function.update h (NodeList.before l xs) (some ⟨d, first ys⟩))
        x.1 none b = h b :=
    fun b hb hbx => by rw [Function.update_of_ne hbx, Function.update_of_ne hb]
  have hlink : Function.update (Function.update h (NodeList.before l xs) (some ⟨d, first ys⟩))
      x.1 none (NodeList.before l xs) = some ⟨d, first ys⟩ := by
    rw [Function.update_of_ne hne, Function.update_self]
  refine ⟨fun k hk => ?_, hrest, fun b => ?_⟩
  · rcases List.mem_cons.mp hk with rfl | hk
    · exact (ho.lists (l, xs ++ x :: ys) List.mem_cons_self).unlink hmine
        (fun hmem => hnew.1 hmem) hbefore hlink hframe
    · refine (ho.lists k (List.mem_cons_of_mem _ hk)).congr fun b hb => ?_
      have hmem : b ∈ ls.flatMap places := List.mem_flatMap.mpr ⟨k, hk, hb⟩
      exact hframe b (fun heq => hdisjoint _ hin' b hmem heq.symm) fun heq => hnew.2 (heq ▸ hmem)
  · by_cases hbx : b = x.1
    · subst hbx
      rw [Function.update_self, List.flatMap_cons, List.mem_append]
      exact ⟨fun hno => absurd rfl hno, fun hmem => absurd hmem (not_or.mpr hnew)⟩
    · have hiff : h b ≠ none ↔ b ∈ ((l, xs ++ ys) :: ls).flatMap places := by
        rw [ho.exact, hperm.mem_iff, List.mem_cons, or_iff_right hbx]
      by_cases hb : b = NodeList.before l xs
      · subst hb
        rw [hlink, ← hiff, hbefore]
        simp
      · rw [hframe b hb hbx, hiff]

/-- An empty list is given back. -/
theorem Owned.free (ho : Owned h ((l, []) :: ls)) : Owned (Function.update h l none) ls := by
  have hnodup := ho.nodup
  rw [List.flatMap_cons] at hnodup
  have hnew : l ∉ ls.flatMap places := (List.nodup_cons.mp hnodup).1
  refine ⟨fun k hk => ?_, (List.nodup_cons.mp hnodup).2, fun b => ?_⟩
  · refine (ho.lists k (List.mem_cons_of_mem _ hk)).congr fun b hb =>
      Function.update_of_ne (fun heq => hnew ?_) _ _
    exact heq ▸ List.mem_flatMap.mpr ⟨k, hk, hb⟩
  · by_cases hbl : b = l
    · rw [hbl, Function.update_self]
      simp [hnew]
    · rw [Function.update_of_ne hbl, ho.exact, List.flatMap_cons]
      change b ∈ l :: ls.flatMap places ↔ _
      simp [hbl]

end

end Httperf.NodeList
