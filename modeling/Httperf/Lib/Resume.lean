-- Machines that read a stream in pieces. A step takes a first part of the unread input. When
-- a step can stop anywhere inside the input and go on later, the way the stream was cut
-- into pieces makes no difference.
import Mathlib.Data.List.Basic

namespace Httperf.Resume

variable {σ α : Type}

/-- `step s b` is the next state and the input that stays unread. `fits s b` is what the
machine needs to know of the input `b` that is there. -/
structure Machine (σ α : Type) where
  step : σ → List α → σ × List α
  fits : σ → List α → Prop

variable {m : Machine σ α}

/-- A row of steps from the state `s` with input `b` to the state `t` with input `c`. Each
step has input that fits. -/
inductive Run (m : Machine σ α) : σ → List α → σ → List α → Prop where
  | refl (s : σ) (b : List α) : Run m s b s b
  | head {s t : σ} {b c : List α} : b ≠ [] → m.fits s b →
      Run m (m.step s b).1 (m.step s b).2 t c → Run m s b t c

/-- The machine reads all of `b`. -/
def Drains (m : Machine σ α) (s : σ) (b : List α) (t : σ) : Prop := Run m s b t []

/-- The machine reads the pieces one after the other. -/
inductive Feeds (m : Machine σ α) : σ → List (List α) → σ → Prop where
  | nil (s : σ) : Feeds m s [] s
  | cons {s u t : σ} {b : List α} {bs : List (List α)} :
      Drains m s b u → Feeds m u bs t → Feeds m s (b :: bs) t

/-- A step on `a ++ b` either ends inside `a`, as the step on `a` alone, or the step on `a`
alone takes all of `a` and the next step goes on in `b`. -/
structure Resumable (m : Machine σ α) : Prop where
  fits_left : ∀ s a b, a ≠ [] → m.fits s (a ++ b) → m.fits s a
  split : ∀ s a b, a ≠ [] → b ≠ [] → m.fits s (a ++ b) →
    m.step s (a ++ b) = ((m.step s a).1, (m.step s a).2 ++ b) ∨
      ((m.step s a).2 = [] ∧ m.step s (a ++ b) = m.step (m.step s a).1 b ∧
        m.fits (m.step s a).1 b)

theorem Run.trans {s u t : σ} {a b c : List α} (h1 : Run m s a u b) (h2 : Run m u b t c) :
    Run m s a t c := by
  induction h1 with
  | refl => exact h2
  | head hb hf _ ih => exact .head hb hf (ih h2)

theorem Run.one {s : σ} {b : List α} (hb : b ≠ []) (hf : m.fits s b) :
    Run m s b (m.step s b).1 (m.step s b).2 :=
  .head hb hf (.refl _ _)

/-- The first step of a run that reads its input to the end. -/
theorem Drains.step {s t : σ} {b : List α} (h : Drains m s b t) (hb : b ≠ []) :
    m.fits s b ∧ Drains m (m.step s b).1 (m.step s b).2 t := by
  cases h with
  | refl => exact absurd rfl hb
  | head _ hf h' => exact ⟨hf, h'⟩

theorem Drains.nil_eq {s t : σ} (h : Drains m s [] t) : t = s := by
  cases h with
  | refl => rfl
  | head hb => exact absurd rfl hb

/-- There is one state in which the input is read. -/
theorem Drains.unique {s t t' : σ} {b : List α} (h : Drains m s b t) (h' : Drains m s b t') :
    t = t' := by
  unfold Drains at h
  generalize hy : ([] : List α) = y at h
  induction h with
  | refl s b =>
    subst hy
    exact h'.nil_eq.symm
  | head hb _ _ ih => exact ih (h'.step hb).2 hy

/-- The run over `a ++ b` passes through the state in which `a` is read. -/
theorem Drains.split (hm : Resumable m) {s t : σ} {a b : List α} (h : Drains m s (a ++ b) t) :
    ∃ u, Drains m s a u ∧ Drains m u b t := by
  unfold Drains at h
  generalize hx : a ++ b = x at h
  generalize hy : ([] : List α) = y at h
  induction h generalizing a with
  | refl s x =>
    subst hy
    obtain ⟨rfl, rfl⟩ := List.append_eq_nil_iff.mp hx
    exact ⟨s, .refl _ _, .refl _ _⟩
  | @head s t x c hne hf hrun ih =>
    subst hx hy
    by_cases ha : a = []
    · subst ha
      exact ⟨s, .refl _ _, .head hne hf hrun⟩
    · by_cases hb : b = []
      · subst hb
        exact ⟨t, .head ha (by simpa using hf) (by simpa using hrun), .refl _ _⟩
      · have hfa := hm.fits_left s a b ha hf
        rcases hm.split s a b ha hb hf with heq | ⟨hnil, heq, hfit⟩
        · obtain ⟨u, h1, h2⟩ := ih (a := (m.step s a).2) (by rw [heq]) rfl
          rw [heq] at h1
          exact ⟨u, .head ha hfa h1, h2⟩
        · refine ⟨(m.step s a).1, .head ha hfa ?_, .head hb hfit ?_⟩
          · rw [hnil]; exact .refl _ _
          · rw [← heq]; exact hrun

/-- A machine that has read `a` goes on to the end of the input. -/
theorem Drains.rest (hm : Resumable m) {s u t : σ} {a b : List α} (h : Drains m s (a ++ b) t)
    (ha : Drains m s a u) : Drains m u b t := by
  obtain ⟨v, hv, hb⟩ := h.split hm
  rwa [ha.unique hv]

/-- Inside an input that is read to the end, a run over `a` and one over `b` are a run over `a ++
b`. -/
theorem Drains.join (hm : Resumable m) {s u v t : σ} {a b c : List α}
    (h : Drains m s (a ++ b ++ c) t) (ha : Drains m s a u) (hb : Drains m u b v) :
    Drains m s (a ++ b) v := by
  obtain ⟨w, hab, -⟩ := h.split hm
  rwa [hb.unique (hab.rest hm ha)]

/-- The cut makes no difference: a machine that reads the whole stream in one piece ends
in the same state when it reads the pieces of any cut of the stream. -/
theorem Feeds.of_drains (hm : Resumable m) {s t : σ} {bs : List (List α)}
    (h : Drains m s bs.flatten t) : Feeds m s bs t := by
  induction bs generalizing s with
  | nil => rw [h.nil_eq]; exact .nil s
  | cons b bs ih =>
    obtain ⟨u, h1, h2⟩ := Drains.split hm (by simpa using h)
    exact .cons h1 (ih h2)

/-- The states that the machine comes to, whether its input fits or not. -/
inductive Reach (m : Machine σ α) (s : σ) (b : List α) : σ → List α → Prop where
  | refl : Reach m s b s b
  | step {t : σ} {c : List α} : Reach m s b t c → c ≠ [] →
      Reach m s b (m.step t c).1 (m.step t c).2

/-- A machine that reads its input to the end does so from every state on the way. -/
theorem Drains.reach {s t u : σ} {b c : List α} (h : Drains m s b t) (hr : Reach m s b u c) :
    Drains m u c t := by
  induction hr with
  | refl => exact h
  | step _ hc ih => exact (ih.step hc).2

/-- Where all input on the way fits and each step makes the rank smaller, the machine comes to the
end of its input. -/
theorem drains_of_fits (rank : σ → List α → Nat) {s : σ} {b : List α}
    (hfits : ∀ t c, Reach m s b t c → c ≠ [] → m.fits t c)
    (hrank : ∀ t c, c ≠ [] → m.fits t c → rank (m.step t c).1 (m.step t c).2 < rank t c) :
    ∃ t, Drains m s b t := by
  have hfrom : ∀ n t c, Reach m s b t c → rank t c = n → ∃ u, Drains m t c u := by
    intro n
    induction n using Nat.strongRecOn with
    | ind n ih =>
      intro t c hr hn
      by_cases hc : c = []
      · subst hc
        exact ⟨t, .refl _ _⟩
      · have hfit := hfits t c hr hc
        obtain ⟨u, hu⟩ := ih _ (hn ▸ hrank t c hc hfit) _ _ (hr.step hc) rfl
        exact ⟨u, .head hc hfit hu⟩
  exact hfrom _ s b .refl rfl

end Httperf.Resume
