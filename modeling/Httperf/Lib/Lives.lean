-- Objects that are made, hear of events and die, and a collector that keeps something with each
-- living object and something of its own. What it knows at the end depends only on what each object
-- has heard in its life.
import Mathlib.Data.List.Induction
import Mathlib.Data.List.Nodup
import Mathlib.Data.Option.Basic
import Mathlib.Logic.Function.Basic

namespace Httperf.Lives

variable {ι β ε δ γ P G : Type}

/-- What happens to the objects, and what else. -/
inductive Occurrence (ι β ε δ γ : Type) where
  | made (i : ι) (b : β)
  | hears (i : ι) (e : ε)
  | dies (i : ι) (d : δ)
  | other (x : γ)

/-- What a collector sees of an event. `P` is what it knows of the object. -/
inductive Seen (β ε δ γ P : Type) where
  | made (b : β)
  | hears (p : P) (e : ε)
  | dies (p : P) (d : δ)
  | other (x : γ)

def Seen.map {Q : Type} (f : P → Q) : Seen β ε δ γ P → Seen β ε δ γ Q
  | .made b => .made b
  | .hears p e => .hears (f p) e
  | .dies p d => .dies (f p) d
  | .other x => .other x

/-- `P` is what is kept with an object, and `G` what is kept for all. To react may be impossible. -/
structure Collector (β ε δ γ P G : Type) where
  start : β → P
  hear : P → ε → P
  react : G → Seen β ε δ γ P → Option G

/-! ## With what is kept -/

section
variable [DecidableEq ι]

/-- An event about an object that does not live has no result. -/
def Collector.step (c : Collector β ε δ γ P G) (s : (ι → Option P) × G) :
    Occurrence ι β ε δ γ → Option ((ι → Option P) × G)
  | .made i b =>
    if (s.1 i).isNone then
      (c.react s.2 (.made b)).map fun g => (Function.update s.1 i (some (c.start b)), g)
    else none
  | .hears i e =>
    (s.1 i).bind fun p =>
      (c.react s.2 (.hears p e)).map fun g => (Function.update s.1 i (some (c.hear p e)), g)
  | .dies i d =>
    (s.1 i).bind fun p => (c.react s.2 (.dies p d)).map fun g => (Function.update s.1 i none, g)
  | .other x => (c.react s.2 (.other x)).map fun g => (s.1, g)

def Collector.run (c : Collector β ε δ γ P G) (events : List (Occurrence ι β ε δ γ))
    (s : (ι → Option P) × G) : Option ((ι → Option P) × G) :=
  events.foldlM c.step s

/-! ## With the whole past -/

/-- What a living object was made with, and what it has heard since. The past stands with its last
event first. -/
def since (i : ι) : List (Occurrence ι β ε δ γ) → Option (β × List ε)
  | [] => none
  | .made j b :: past => if j = i then some (b, []) else since i past
  | .hears j e :: past =>
    if j = i then (since i past).map fun life => (life.1, life.2 ++ [e]) else since i past
  | .dies j _ :: past => if j = i then none else since i past
  | .other _ :: past => since i past

/-- An event with the life of its object so far. -/
def report (past : List (Occurrence ι β ε δ γ)) :
    Occurrence ι β ε δ γ → Option (Seen β ε δ γ (β × List ε))
  | .made i b => if (since i past).isNone then some (.made b) else none
  | .hears i e => (since i past).map (.hears · e)
  | .dies i d => (since i past).map (.dies · d)
  | .other x => some (.other x)

/-- Only what lives is told of, and only what does not live is made. -/
def Proper : List (Occurrence ι β ε δ γ) → List (Occurrence ι β ε δ γ) → Prop
  | _, [] => True
  | past, e :: events => (report past e).isSome ∧ Proper (e :: past) events

instance : ∀ past events : List (Occurrence ι β ε δ γ), Decidable (Proper past events)
  | _, [] => isTrue trivial
  | past, e :: events =>
    have : Decidable (Proper (e :: past) events) := instDecidableProper (e :: past) events
    inferInstanceAs (Decidable ((report past e).isSome ∧ Proper (e :: past) events))

def reports : List (Occurrence ι β ε δ γ) → List (Occurrence ι β ε δ γ) →
    List (Seen β ε δ γ (β × List ε))
  | _, [] => []
  | past, e :: events => (report past e).toList ++ reports (e :: past) events

/-! ## The same -/

/-- What is kept with an object of that life. -/
def Collector.kept (c : Collector β ε δ γ P G) (life : β × List ε) : P :=
  life.2.foldl c.hear (c.start life.1)

theorem Collector.kept_snoc (c : Collector β ε δ γ P G) (b : β) (es : List ε) (e : ε) :
    c.kept (b, es ++ [e]) = c.hear (c.kept (b, es)) e := by
  simp [Collector.kept]

/-- An event changes what is kept for all by what it says of a life, and what is kept with each
object stays what its life makes of it. -/
theorem Collector.step_spec (c : Collector β ε δ γ P G) {past : List (Occurrence ι β ε δ γ)}
    {objs : ι → Option P} (hobjs : ∀ i, objs i = (since i past).map c.kept) (g : G)
    {e : Occurrence ι β ε δ γ} {r : Seen β ε δ γ (β × List ε)} (hr : report past e = some r) :
    ∃ objs', c.step (objs, g) e = (c.react g (r.map c.kept)).map (fun g => (objs', g)) ∧
      ∀ i, objs' i = (since i (e :: past)).map c.kept := by
  cases e with
  | made i b =>
    have hnone : (since i past).isNone := by
      by_contra hliving
      rw [report, if_neg hliving] at hr
      cases hr
    rw [report, if_pos hnone] at hr
    obtain rfl := Option.some.inj hr
    refine ⟨Function.update objs i (some (c.start b)), ?_, fun j => ?_⟩
    · have hfree : (objs i).isNone := by rw [hobjs, Option.isNone_map]; exact hnone
      simp [step, hfree, Seen.map]
    · by_cases hji : i = j
      · subst hji
        simp [since, kept]
      · simp [since, hji, Function.update_of_ne (Ne.symm hji), hobjs]
  | hears i e =>
    obtain ⟨life, hlife, rfl⟩ := Option.map_eq_some_iff.mp hr
    have hp : objs i = some (c.kept life) := by rw [hobjs, hlife]; rfl
    refine ⟨Function.update objs i (some (c.hear (c.kept life) e)), by simp [step, hp, Seen.map],
      fun j => ?_⟩
    by_cases hji : i = j
    · subst hji
      simp [since, hlife, kept_snoc]
    · simp [since, hji, Function.update_of_ne (Ne.symm hji), hobjs]
  | dies i d =>
    obtain ⟨life, hlife, rfl⟩ := Option.map_eq_some_iff.mp hr
    have hp : objs i = some (c.kept life) := by rw [hobjs, hlife]; rfl
    refine ⟨Function.update objs i none, by simp [step, hp, Seen.map], fun j => ?_⟩
    by_cases hji : i = j
    · subst hji
      simp [since]
    · simp [since, hji, Function.update_of_ne (Ne.symm hji), hobjs]
  | other x =>
    obtain rfl := Option.some.inj hr
    exact ⟨objs, by simp [step, Seen.map], hobjs⟩

/-- What a collector knows is what the reports make of what it began with. -/
theorem Collector.run_spec (c : Collector β ε δ γ P G) (events : List (Occurrence ι β ε δ γ))
    {past : List (Occurrence ι β ε δ γ)} (hproper : Proper past events) {objs : ι → Option P}
    (hobjs : ∀ i, objs i = (since i past).map c.kept) (g : G) :
    (c.run events (objs, g)).map Prod.snd =
      (reports past events).foldlM (fun g r => c.react g (r.map c.kept)) g := by
  induction events generalizing past objs g with
  | nil => rfl
  | cons e events ih =>
    obtain ⟨hsome, hrest⟩ := hproper
    obtain ⟨r, hr⟩ := Option.isSome_iff_exists.mp hsome
    obtain ⟨objs', hstep, hobjs'⟩ := c.step_spec hobjs g hr
    unfold run reports
    rw [List.foldlM_cons, hstep, hr]
    simp only [Option.toList_some, List.singleton_append, List.foldlM_cons]
    cases c.react g (r.map c.kept) with
    | none => rfl
    | some g' => exact ih hrest hobjs' g'

/-! ## Who lives -/

/-- The past stands with its last event first. -/
def alive : List (Occurrence ι β ε δ γ) → List ι
  | [] => []
  | .made i _ :: past => i :: alive past
  | .hears _ _ :: past => alive past
  | .dies i _ :: past => (alive past).erase i
  | .other _ :: past => alive past

/-- The list has each living object once. -/
structure Tells (past : List (Occurrence ι β ε δ γ)) : Prop where
  nodup : (alive past).Nodup
  mem : ∀ i, i ∈ alive past ↔ (since i past).isSome

theorem tells_nil : Tells ([] : List (Occurrence ι β ε δ γ)) :=
  ⟨List.nodup_nil, fun _ => by simp [alive, since]⟩

theorem Tells.next {past : List (Occurrence ι β ε δ γ)} (h : Tells past) {e : Occurrence ι β ε δ γ}
    (he : (report past e).isSome) : Tells (e :: past) := by
  obtain ⟨hnodup, hmem⟩ := h
  cases e with
  | made i b =>
    have hnone : (since i past).isSome = false := by
      cases hi : since i past with
      | none => rfl
      | some life => simp [report, hi] at he
    refine ⟨List.nodup_cons.mpr ⟨fun hi => ?_, hnodup⟩, fun j => ?_⟩
    · rw [(hmem i).mp hi] at hnone
      cases hnone
    · by_cases hij : i = j
      · simp [alive, since, hij]
      · simp [alive, since, hij, Ne.symm hij, hmem]
  | hears i e =>
    refine ⟨hnodup, fun j => ?_⟩
    by_cases hij : i = j
    · simp [alive, since, hij, hmem]
    · simp [alive, since, hij, hmem]
  | dies i d =>
    refine ⟨hnodup.erase i, fun j => ?_⟩
    rw [alive, hnodup.mem_erase_iff, hmem]
    by_cases hij : i = j
    · simp [since, hij]
    · simp [since, hij, Ne.symm hij]
  | other x => exact ⟨hnodup, hmem⟩

/-- Only what lives can die. -/
theorem Tells.mem_of_dies {past : List (Occurrence ι β ε δ γ)} (h : Tells past) {i : ι} {d : δ}
    (he : (report past (.dies i d)).isSome) : i ∈ alive past := by
  rw [report, Option.isSome_map] at he
  exact (h.mem i).mpr he

/-! ## One event more -/

/-- What is read off one report more. -/
theorem filterMap_concat {A B : Type} (f : A → Option B) (xs : List A) (x : A) :
    (xs ++ [x]).filterMap f = xs.filterMap f ++ (f x).toList := by
  rw [List.filterMap_append]
  cases h : f x <;> simp [h]

theorem reports_concat (past events : List (Occurrence ι β ε δ γ)) (e : Occurrence ι β ε δ γ) :
    reports past (events ++ [e]) = reports past events ++
      (report (events.reverse ++ past) e).toList := by
  induction events generalizing past with
  | nil => simp [reports]
  | cons a events ih =>
    rw [List.cons_append, reports, ih, reports, List.append_assoc, List.reverse_cons,
      List.append_assoc, List.singleton_append]

theorem proper_concat {past events : List (Occurrence ι β ε δ γ)} {e : Occurrence ι β ε δ γ} :
    Proper past (events ++ [e]) ↔ Proper past events ∧
    (report (events.reverse ++ past) e).isSome := by
  induction events generalizing past with
  | nil => simp [Proper]
  | cons a events ih =>
    rw [List.cons_append, Proper, ih, Proper, List.reverse_cons, List.append_assoc,
      List.singleton_append, and_assoc]

theorem Proper.tells {events : List (Occurrence ι β ε δ γ)} (h : Proper [] events) :
    Tells events.reverse := by
  induction events using List.reverseRecOn with
  | nil => exact tells_nil
  | append_singleton events e ih =>
    obtain ⟨hproper, he⟩ := proper_concat.mp h
    rw [List.reverse_concat]
    rw [List.append_nil] at he
    exact (ih hproper).next he

theorem reports_length_le (past events : List (Occurrence ι β ε δ γ)) :
    (reports past events).length ≤ events.length := by
  induction events generalizing past with
  | nil => exact Nat.le_refl _
  | cons e events ih =>
    have hone : (report past e).toList.length ≤ 1 := by
      cases report past e <;> simp
    have hrest := ih (e :: past)
    rw [reports, List.length_append, List.length_cons]
    omega

theorem alive_length_le (past : List (Occurrence ι β ε δ γ)) :
    (alive past).length ≤ past.length := by
  induction past with
  | nil => exact Nat.le_refl _
  | cons e past ih =>
    cases e with
    | made i b => exact Nat.succ_le_succ ih
    | hears i e => exact Nat.le_succ_of_le ih
    | dies i d => exact Nat.le_succ_of_le (Nat.le_trans List.length_erase_le ih)
    | other x => exact Nat.le_succ_of_le ih

end

end Httperf.Lives
