-- What a machine gives for a row of inputs, and when one machine gives what another one gives.
import Mathlib.Data.Option.Basic

namespace Httperf.Lib

variable {σ τ ι ω : Type} {step : σ → ι → Option (ω × σ)} {spec : τ → ι → Option (ω × τ)}

/-- The outputs of a row of inputs. `none` is an input that the machine cannot take. -/
def outputs (step : σ → ι → Option (ω × σ)) : σ → List ι → Option (List ω)
  | _, [] => some []
  | s, i :: is => do
    let (o, s) ← step s i
    let os ← outputs step s is
    some (o :: os)

theorem outputs_cons_eq_some {s : σ} {i : ι} {is : List ι} {os : List ω} :
    outputs step s (i :: is) = some os ↔
      ∃ o s' os', step s i = some (o, s') ∧ outputs step s' is = some os' ∧ os = o :: os' := by
  constructor
  · intro h
    obtain ⟨⟨o, s'⟩, hstep, hrest⟩ := Option.bind_eq_some_iff.mp h
    obtain ⟨os', hos, heq⟩ := Option.bind_eq_some_iff.mp hrest
    exact ⟨o, s', os', hstep, hos, (Option.some.inj heq).symm⟩
  · rintro ⟨o, s', os', hstep, hos, rfl⟩
    rw [outputs, hstep, Option.bind_eq_bind, Option.bind_some]
    dsimp only
    rw [hos]
    rfl

/-- `step` refines `spec` along `R`: every step of the one is a step of the other with the same
output. -/
def Simulates (step : σ → ι → Option (ω × σ)) (spec : τ → ι → Option (ω × τ)) (R : σ → τ → Prop) :
    Prop :=
  ∀ s t i o t', R s t → spec t i = some (o, t') → ∃ s', step s i = some (o, s') ∧ R s' t'

theorem Simulates.outputs {R : σ → τ → Prop} (h : Simulates step spec R) {s : σ} {t : τ}
    (hR : R s t) {is : List ι} {os : List ω} (hspec : Lib.outputs spec t is = some os) :
    Lib.outputs step s is = some os := by
  induction is generalizing s t os with
  | nil => exact hspec
  | cons i is ih =>
    obtain ⟨o, t', os', hstep, hrest, rfl⟩ := outputs_cons_eq_some.mp hspec
    obtain ⟨s', hs', hR'⟩ := h s t i o t' hR hstep
    exact outputs_cons_eq_some.mpr ⟨o, s', os', hs', ih hR' hrest, rfl⟩

end Httperf.Lib
