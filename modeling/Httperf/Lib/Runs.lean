-- Runs of a machine: a row of steps, each taken in the state that the steps before it leave.
-- A law that every state keeps, and a condition that every step meets.
import Mathlib.Logic.Basic
import Mathlib.Tactic.ByContra

namespace Httperf.Runs

variable {σ α : Type} {step : σ → α → σ}

/-- The state behind a row of steps. -/
def run (step : σ → α → σ) : σ → List α → σ
  | s, [] => s
  | s, a :: as => run step (step s a) as

/-- `P` holds in every state of the run, from the first to the last. -/
def Always (step : σ → α → σ) (P : σ → Prop) : σ → List α → Prop
  | s, [] => P s
  | s, a :: as => P s ∧ Always step P (step s a) as

/-- Every step of the run meets `C` in the state in which it is taken. -/
def Meets (step : σ → α → σ) (C : σ → α → Prop) : σ → List α → Prop
  | _, [] => True
  | s, a :: as => C s a ∧ Meets step C (step s a) as

theorem run_append (s : σ) (as bs : List α) :
    run step s (as ++ bs) = run step (run step s as) bs := by
  induction as generalizing s with
  | nil => rfl
  | cons a as ih => exact ih (step s a)

/-- An invariant that each step keeps holds in every state. -/
theorem always_of_step {P : σ → Prop} (hstep : ∀ s a, P s → P (step s a)) {s : σ} (hs : P s)
    (as : List α) : Always step P s as := by
  induction as generalizing s with
  | nil => exact hs
  | cons a as ih => exact ⟨hs, ih (hstep s a hs)⟩

theorem Always.first {P : σ → Prop} {s : σ} {as : List α} (h : Always step P s as) : P s := by
  cases as with
  | nil => exact h
  | cons a as => exact h.1

theorem Always.last {P : σ → Prop} {s : σ} {as : List α} (h : Always step P s as) :
    P (run step s as) := by
  induction as generalizing s with
  | nil => exact h
  | cons a as ih => exact ih h.2

theorem Always.imp {P Q : σ → Prop} {s : σ} {as : List α} (h : Always step P s as)
    (hlaw : ∀ s, P s → Q s) : Always step Q s as := by
  induction as generalizing s with
  | nil => exact hlaw s h
  | cons a as ih => exact ⟨hlaw s h.1, ih h.2⟩

/-- An invariant that each step keeps that meets `C`. -/
theorem Meets.always {P : σ → Prop} {C : σ → α → Prop} {s : σ} {as : List α} (h : Meets step C s as)
    (hstep : ∀ s a, P s → C s a → P (step s a)) (hs : P s) : Always step P s as := by
  induction as generalizing s with
  | nil => exact hs
  | cons a as ih => exact ⟨hs, ih h.2 (hstep s a hs h.1)⟩

/-- Two laws that amount to the same in all states there are. -/
theorem always_congr {I P Q : σ → Prop} (hI : ∀ s a, I s → I (step s a))
    (hiff : ∀ s, I s → (P s ↔ Q s)) {s : σ} (hs : I s) (as : List α) :
    Always step P s as ↔ Always step Q s as := by
  induction as generalizing s with
  | nil => exact hiff s hs
  | cons a as ih => exact and_congr (hiff s hs) (ih (hI s a hs))

/-- A law that holds at first, and that a step keeps exactly when the step meets `C`, holds in
every state exactly when every step meets `C`. `I` is what is known of all states anyway. -/
theorem always_iff_meets {I P : σ → Prop} {C : σ → α → Prop} (hI : ∀ s a, I s → I (step s a))
    (hstep : ∀ s a, I s → P s → (P (step s a) ↔ C s a)) {s : σ} (hi : I s) (hs : P s)
    (as : List α) : Always step P s as ↔ Meets step C s as := by
  induction as generalizing s with
  | nil => exact ⟨fun _ => trivial, fun _ => hs⟩
  | cons a as ih =>
    constructor
    · rintro ⟨_, h⟩
      have ha : P (step s a) := h.first
      exact ⟨(hstep s a hi hs).mp ha, (ih (hI s a hi) ha).mp h⟩
    · rintro ⟨hc, h⟩
      have ha := (hstep s a hi hs).mpr hc
      exact ⟨hs, (ih (hI s a hi) ha).mpr h⟩

/-- Where the law carries no invariant of its own: `Q` holds as long as the steps meet `C`, and the
law `P` fails behind the first step that does not. -/
theorem always_iff_meets_of_invariant {Q P : σ → Prop} {C : σ → α → Prop} (hlaw : ∀ s, Q s → P s)
    (hgood : ∀ s a, Q s → C s a → Q (step s a)) (hbad : ∀ s a, Q s → ¬ C s a → ¬ P (step s a))
    {s : σ} (hs : Q s) (as : List α) : Always step P s as ↔ Meets step C s as := by
  induction as generalizing s with
  | nil => exact ⟨fun _ => trivial, fun _ => hlaw s hs⟩
  | cons a as ih =>
    constructor
    · rintro ⟨_, h⟩
      have ha : P (step s a) := h.first
      have hc : C s a := by
        by_contra hno
        exact hbad s a hs hno ha
      exact ⟨hc, (ih (hgood s a hs hc)).mp h⟩
    · rintro ⟨hc, h⟩
      exact ⟨hlaw s hs, (ih (hgood s a hs hc)).mpr h⟩

/-- A law about single steps that amounts to a condition on them, as long as the steps before meet
it. -/
theorem meets_iff_meets_of_invariant {Q : σ → Prop} {L C : σ → α → Prop}
    (hiff : ∀ s a, Q s → (L s a ↔ C s a)) (hstep : ∀ s a, Q s → C s a → Q (step s a)) {s : σ}
    (hs : Q s) (as : List α) : Meets step L s as ↔ Meets step C s as := by
  induction as generalizing s with
  | nil => exact Iff.rfl
  | cons a as ih =>
    constructor
    · rintro ⟨hl, h⟩
      have hc := (hiff s a hs).mp hl
      exact ⟨hc, (ih (hstep s a hs hc)).mp h⟩
    · rintro ⟨hc, h⟩
      exact ⟨(hiff s a hs).mpr hc, (ih (hstep s a hs hc)).mpr h⟩

/-- A law about single steps that follows from a condition on the steps so far. -/
theorem Meets.imp {Q : σ → Prop} {C L : σ → α → Prop} (hlaw : ∀ s a, Q s → C s a → L s a)
    (hstep : ∀ s a, Q s → C s a → Q (step s a)) {s : σ} (hs : Q s) {as : List α}
    (h : Meets step C s as) : Meets step L s as := by
  induction as generalizing s with
  | nil => trivial
  | cons a as ih => exact ⟨hlaw s a hs h.1, ih (hstep s a hs h.1) h.2⟩

/-- Where each step makes the rank smaller, there are no more steps than the rank is at first. -/
theorem Meets.length_add_le {P : σ → Prop} {C : σ → α → Prop} (rank : σ → Nat)
    (hstep : ∀ s a, P s → C s a → P (step s a))
    (hrank : ∀ s a, P s → C s a → rank (step s a) < rank s) {s : σ} {as : List α} (hs : P s)
    (h : Meets step C s as) :
    as.length + rank (run step s as) ≤ rank s := by
  induction as generalizing s with
  | nil => exact Nat.le_of_eq (Nat.zero_add _)
  | cons a as ih =>
    have hrest := ih (hstep s a hs h.1) h.2
    have hless := hrank s a hs h.1
    rw [List.length_cons]
    change as.length + 1 + rank (run step (step s a) as) ≤ rank s
    omega

/-- Where a step that makes the rank smaller can always be taken until `Done`, a row of steps leads
there. -/
theorem exists_done {P Done : σ → Prop} (rank : σ → Nat)
    (hstep : ∀ s, P s → ¬ Done s → ∃ a, P (step s a) ∧ rank (step s a) < rank s) {s : σ}
    (hs : P s) :
    ∃ as, P (run step s as) ∧ Done (run step s as) := by
  induction hn : rank s using Nat.strongRecOn generalizing s with
  | _ n ih =>
    by_cases hdone : Done s
    · exact ⟨[], hs, hdone⟩
    · obtain ⟨a, ha, hless⟩ := hstep s hs hdone
      obtain ⟨as, has⟩ := ih _ (hn ▸ hless) ha rfl
      exact ⟨a :: as, has⟩

theorem Meets.append {C : σ → α → Prop} {s : σ} {as bs : List α} (h : Meets step C s as)
    (h' : Meets step C (run step s as) bs) : Meets step C s (as ++ bs) := by
  induction as generalizing s with
  | nil => exact h'
  | cons a as ih => exact ⟨h.1, ih h.2 h'⟩

/-- A condition on the steps alone. -/
theorem meets_iff_forall {C : α → Prop} {s : σ} {as : List α} :
    Meets step (fun _ a => C a) s as ↔ ∀ a ∈ as, C a := by
  induction as generalizing s with
  | nil => simp [Meets]
  | cons a as ih => simp [Meets, ih]

end Httperf.Runs
