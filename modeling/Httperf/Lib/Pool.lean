-- A pool of objects with reference counts. An object whose last reference goes is put on a free
-- list, and the next object takes its place in memory: an address says which object it denotes
-- only together with the serial number of the object.
import Mathlib.Logic.Function.Basic
import Mathlib.Data.List.Nodup

namespace Httperf.Lib

/-- A piece of memory. Free memory keeps what the object in it left behind. -/
structure Cell (α : Type) where
  refs : Nat
  serial : Nat
  body : α

/-- `size` pieces of memory are in use or on the free list. `serial` counts the objects. -/
structure Pool (α : Type) where
  cells : Nat → Cell α
  size : Nat
  free : List Nat
  serial : Nat

namespace Pool

variable {α : Type}

def empty (b : α) : Pool α := ⟨fun _ => ⟨0, 0, b⟩, 0, [], 0⟩

/-- The address of the next object. -/
def top (P : Pool α) : Nat := P.free.headD P.size

def alloc (b : α) (P : Pool α) : Pool α :=
  { cells := Function.update P.cells P.top ⟨1, P.serial, b⟩
    size := if P.free = [] then P.size + 1 else P.size
    free := P.free.tail
    serial := P.serial + 1 }

def retain (a : Nat) (P : Pool α) : Pool α :=
  { P with cells := Function.update P.cells a { P.cells a with refs := (P.cells a).refs + 1 } }

/-- The last reference puts the object on the free list. -/
def release (a : Nat) (P : Pool α) : Pool α :=
  { P with
    cells := Function.update P.cells a { P.cells a with refs := (P.cells a).refs - 1 }
    free := if (P.cells a).refs = 1 then a :: P.free else P.free }

def modify (a : Nat) (f : α → α) (P : Pool α) : Pool α :=
  { P with cells := Function.update P.cells a { P.cells a with body := f (P.cells a).body } }

/-- The free list holds the memory that is not in use, and each piece once. -/
structure Sound (P : Pool α) : Prop where
  nodup : P.free.Nodup
  mem_free : ∀ a, a ∈ P.free ↔ a < P.size ∧ (P.cells a).refs = 0
  serial_lt : ∀ a < P.size, (P.cells a).serial < P.serial

theorem empty_sound (b : α) : (empty b).Sound :=
  ⟨List.nodup_nil, fun a => by simp [empty], fun a ha => absurd ha (Nat.not_lt_zero a)⟩

section

variable {P : Pool α}

/-- The memory of the next object is not in use. -/
theorem Sound.top_free (h : P.Sound) : P.top < P.size → (P.cells P.top).refs = 0 := by
  intro hlt
  rcases hf : P.free with _ | ⟨a, rest⟩
  · simp [top, hf] at hlt
  · have ha := (h.mem_free a).mp (by simp [hf])
    simpa [top, hf] using ha.2

theorem Sound.top_le (h : P.Sound) : P.top ≤ P.size := by
  rcases hf : P.free with _ | ⟨a, rest⟩
  · simp [top, hf]
  · have ha := (h.mem_free a).mp (by simp [hf])
    simpa [top, hf] using Nat.le_of_lt ha.1

theorem alloc_cells_of_ne {a : Nat} (b : α) (h : a ≠ P.top) : (P.alloc b).cells a = P.cells a :=
  Function.update_of_ne h _ _

theorem alloc_cells_top (b : α) : (P.alloc b).cells P.top = ⟨1, P.serial, b⟩ :=
  Function.update_self _ _ _

/-- An object that is in use does not give its place to the next one. -/
theorem Sound.ne_top {a : Nat} (h : P.Sound) (ha : a < P.size) (hr : (P.cells a).refs ≠ 0) :
    a ≠ P.top := by
  rintro rfl
  exact hr (h.top_free ha)

theorem size_le_alloc (b : α) : P.size ≤ (P.alloc b).size := by
  unfold alloc
  dsimp only
  split <;> omega

theorem lt_size_of_alloc {a : Nat} {b : α} (ha : a < (P.alloc b).size)
    (hne : a ≠ P.top) : a < P.size := by
  rcases hf : P.free with _ | ⟨t, rest⟩
  · have htop : P.top = P.size := by simp [top, hf]
    simp only [Pool.alloc, hf, if_true] at ha
    omega
  · simpa [Pool.alloc, hf] using ha

theorem Sound.top_lt_alloc (h : P.Sound) (b : α) : P.top < (P.alloc b).size := by
  rcases hf : P.free with _ | ⟨t, rest⟩
  · simp [Pool.alloc, top, hf]
  · have ht := (h.mem_free t).mp (by simp [hf])
    simpa [Pool.alloc, top, hf] using ht.1

theorem Sound.alloc (h : P.Sound) (b : α) : (P.alloc b).Sound := by
  have hle := h.top_le
  rcases hf : P.free with _ | ⟨t, rest⟩
  · -- new memory
    have htop : P.top = P.size := by simp [top, hf]
    refine ⟨by simp [Pool.alloc, hf], fun a => ?_, fun a ha => ?_⟩
    · by_cases ha : a = P.top
      · subst ha
        rw [alloc_cells_top]
        simp [Pool.alloc, hf]
      · rw [alloc_cells_of_ne b ha]
        have hmem := h.mem_free a
        rw [hf] at hmem
        simp only [Pool.alloc, hf, List.tail_nil, if_true]
        rw [hmem]
        constructor
        · rintro ⟨hlt, hz⟩
          exact ⟨by omega, hz⟩
        · rintro ⟨hlt, hz⟩
          exact ⟨by omega, hz⟩
    · by_cases hne : a = P.top
      · subst hne
        rw [alloc_cells_top]
        exact Nat.lt_succ_self _
      · rw [alloc_cells_of_ne b hne]
        simp only [Pool.alloc, hf, if_true] at ha ⊢
        have := h.serial_lt a (by omega)
        omega
  · -- memory of the free list
    have htop : P.top = t := by simp [top, hf]
    have hnodup := h.nodup
    rw [hf, List.nodup_cons] at hnodup
    refine ⟨by simpa [Pool.alloc, hf] using hnodup.2, fun a => ?_, fun a ha => ?_⟩
    · by_cases ha : a = P.top
      · subst ha
        rw [alloc_cells_top]
        simp [Pool.alloc, hf, htop, hnodup.1]
      · rw [alloc_cells_of_ne b ha]
        have hmem := h.mem_free a
        rw [hf, List.mem_cons] at hmem
        simp only [Pool.alloc, hf, List.tail_cons, List.cons_ne_nil, if_false]
        rw [← hmem]
        constructor
        · exact Or.inr
        · rintro (rfl | hr)
          · exact absurd htop.symm ha
          · exact hr
    · simp only [Pool.alloc, hf, List.cons_ne_nil, if_false] at ha
      by_cases hne : a = P.top
      · subst hne
        rw [alloc_cells_top]
        exact Nat.lt_succ_self _
      · rw [alloc_cells_of_ne b hne]
        exact Nat.lt_succ_of_lt (h.serial_lt a ha)

/-- A cell that keeps its object changes in place. -/
theorem Sound.set {a : Nat} {c : Cell α} (h : P.Sound) (hr : c.refs = 0 ↔ (P.cells a).refs = 0)
    (hs : c.serial = (P.cells a).serial) :
    { P with cells := Function.update P.cells a c }.Sound := by
  refine ⟨h.nodup, fun d => ?_, fun d hd => ?_⟩
  · have hmem := h.mem_free d
    by_cases hda : d = a
    · subst hda
      simpa [hr] using hmem
    · simpa [hda] using hmem
  · have hlt := h.serial_lt d hd
    by_cases hda : d = a
    · subst hda
      simpa [hs] using hlt
    · simpa [hda] using hlt

theorem Sound.retain {a : Nat} (h : P.Sound) (hr : (P.cells a).refs ≠ 0) : (P.retain a).Sound :=
  h.set (by simp [hr]) rfl

theorem Sound.modify (h : P.Sound) (a : Nat) (f : α → α) : (P.modify a f).Sound :=
  h.set Iff.rfl rfl

theorem Sound.release {a : Nat} (h : P.Sound) (ha : a < P.size) (hr : (P.cells a).refs ≠ 0) :
    (P.release a).Sound := by
  have hfree : a ∉ P.free := fun hmem => hr ((h.mem_free a).mp hmem).2
  refine ⟨?_, fun c => ?_, fun c hc => ?_⟩
  · by_cases hone : (P.cells a).refs = 1
    · simpa [Pool.release, hone] using ⟨hfree, h.nodup⟩
    · simpa [Pool.release, hone] using h.nodup
  · have hmem := h.mem_free c
    by_cases hca : c = a
    · subst hca
      by_cases hone : (P.cells c).refs = 1
      · simp [Pool.release, hone, ha]
      · simp only [Pool.release, hone, if_false, Function.update_self]
        constructor
        · intro hc
          exact absurd hc hfree
        · rintro ⟨_, hz⟩
          omega
    · by_cases hone : (P.cells a).refs = 1
      · simpa [Pool.release, hone, hca] using hmem
      · simpa [Pool.release, hone, hca] using hmem
  · have hlt := h.serial_lt c hc
    by_cases hca : c = a
    · subst hca
      simpa [Pool.release] using hlt
    · simpa [Pool.release, hca] using hlt

end

/-! ## A pointer that outlives its object -/

/-- What has become of the memory of an object. It lies on the free list under `above` pieces of
memory, or another object has taken it. -/
inductive Place where
  | living
  | buried (above : Nat)
  | taken
  deriving DecidableEq, Repr

/-- An object is made. -/
def Place.made : Place → Place
  | .living => .living
  | .buried 0 => .taken
  | .buried (above + 1) => .buried above
  | .taken => .taken

/-- An object is destroyed, `here` or elsewhere. -/
def Place.destroyed (here : Bool) : Place → Place
  | .living => if here then .buried 0 else .living
  | .buried above => .buried (above + 1)
  | .taken => if here then .buried 0 else .taken

/-- A place keeps book of the memory at `a`, where the object with number `n` was. -/
structure At (P : Pool α) (a n : Nat) (place : Place) : Prop where
  lt_size : a < P.size
  lt_serial : n < P.serial
  cell : match place with
    | .living => (P.cells a).refs ≠ 0 ∧ (P.cells a).serial = n
    | .buried above => (P.cells a).refs = 0 ∧ P.free[above]? = some a
    | .taken => (P.cells a).refs ≠ 0 ∧ (P.cells a).serial ≠ n

section

variable {P : Pool α} {a n : Nat} {place : Place}

theorem Sound.at_living (h : P.Sound) (ha : a < P.size) (hr : (P.cells a).refs ≠ 0) :
    P.At a (P.cells a).serial .living :=
  ⟨ha, h.serial_lt a ha, hr, rfl⟩

/-- The object that was destroyed last gives its place to the next one. -/
theorem At.alloc (h : P.Sound) (hat : P.At a n place) (b : α) : (P.alloc b).At a n place.made := by
  have hsize := Nat.lt_of_lt_of_le hat.lt_size (size_le_alloc b)
  have hserial : n < (P.alloc b).serial := Nat.lt_succ_of_lt hat.lt_serial
  have hcell := hat.cell
  cases place with
  | living =>
    refine ⟨hsize, hserial, ?_⟩
    dsimp only [Place.made]
    rw [alloc_cells_of_ne b (h.ne_top hat.lt_size hcell.1)]
    exact hcell
  | taken =>
    refine ⟨hsize, hserial, ?_⟩
    dsimp only [Place.made]
    rw [alloc_cells_of_ne b (h.ne_top hat.lt_size hcell.1)]
    exact hcell
  | buried above =>
    obtain ⟨hrefs, hfree⟩ := hcell
    rcases hlist : P.free with _ | ⟨t, rest⟩
    · rw [hlist] at hfree
      cases hfree
    · have htop : P.top = t := by rw [top, hlist, List.headD_cons]
      rw [hlist] at hfree
      cases above with
      | zero =>
        obtain rfl : t = a := Option.some.inj hfree
        refine ⟨hsize, hserial, ?_⟩
        dsimp only [Place.made]
        rw [← htop, alloc_cells_top]
        exact ⟨Nat.one_ne_zero, (Nat.ne_of_lt hat.lt_serial).symm⟩
      | succ above =>
        have hnodup := h.nodup
        rw [hlist, List.nodup_cons] at hnodup
        have hmem : a ∈ rest := List.mem_of_getElem? hfree
        have hne : a ≠ P.top := by
          rintro rfl
          exact hnodup.1 (htop ▸ hmem)
        refine ⟨hsize, hserial, ?_⟩
        dsimp only [Place.made]
        rw [alloc_cells_of_ne b hne]
        refine ⟨hrefs, ?_⟩
        rw [Pool.alloc, hlist]
        exact hfree

theorem At.modify (hat : P.At a n place) (b : Nat) (f : α → α) : (P.modify b f).At a n place := by
  refine ⟨hat.lt_size, hat.lt_serial, ?_⟩
  have hcell := hat.cell
  by_cases hab : a = b
  · subst hab
    cases place <;> simpa [Pool.modify] using hcell
  · cases place <;> simpa [Pool.modify, hab] using hcell

/-- The last reference of an object goes. -/
theorem At.destroy {b : Nat} (hat : P.At a n place) (hb : (P.cells b).refs = 1) :
    (P.release b).At a n (place.destroyed (b = a)) := by
  have hfree : (P.release b).free = b :: P.free := if_pos hb
  have hcell := hat.cell
  refine ⟨hat.lt_size, hat.lt_serial, ?_⟩
  by_cases hab : b = a
  · subst hab
    have hrefs : ((P.release b).cells b).refs = 0 := by simp [Pool.release, hb]
    have htop : (P.release b).free[0]? = some b := by rw [hfree, List.getElem?_cons_zero]
    simp only [decide_true]
    cases place with
    | living => exact ⟨hrefs, htop⟩
    | taken => exact ⟨hrefs, htop⟩
    | buried above => exact absurd (hcell.1.symm.trans hb) Nat.zero_ne_one
  · have hsame : (P.release b).cells a = P.cells a := Function.update_of_ne (Ne.symm hab) _ _
    simp only [hab, decide_false]
    cases place with
    | living =>
      dsimp only [Place.destroyed]
      rw [hsame]
      exact hcell
    | taken =>
      dsimp only [Place.destroyed]
      rw [hsame]
      exact hcell
    | buried above =>
      dsimp only [Place.destroyed]
      rw [hsame, hfree]
      exact hcell

/-- An object that is still in use loses a reference. -/
theorem At.release {b : Nat} (hat : P.At a n place) (hb : 1 < (P.cells b).refs) :
    (P.release b).At a n place := by
  have hfree : (P.release b).free = P.free := if_neg (by omega)
  have hcell := hat.cell
  refine ⟨hat.lt_size, hat.lt_serial, ?_⟩
  by_cases hab : a = b
  · subst hab
    have hrefs : ((P.release a).cells a).refs = (P.cells a).refs - 1 := by simp [Pool.release]
    have hserial : ((P.release a).cells a).serial = (P.cells a).serial := by simp [Pool.release]
    cases place with
    | living =>
      dsimp only
      rw [hrefs, hserial]
      exact ⟨by omega, hcell.2⟩
    | taken =>
      dsimp only
      rw [hrefs, hserial]
      exact ⟨by omega, hcell.2⟩
    | buried above =>
      have hzero := hcell.1
      omega
  · have hsame : (P.release b).cells a = P.cells a := Function.update_of_ne hab _ _
    rw [hsame, hfree]
    exact hcell

end

end Pool

end Httperf.Lib
