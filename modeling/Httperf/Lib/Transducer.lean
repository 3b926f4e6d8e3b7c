-- Machines that read a text symbol by symbol and put out rows of results. However the text is cut
-- into pieces, the results are the same, and so are those of two machines in states that
-- correspond.
import Mathlib.Data.List.Induction

namespace Httperf.Lib.Transducer

variable {σ τ α β : Type}

/-- The state behind a text, and what was put out on the way. -/
def scan (step : σ → α → σ × List β) : σ → List α → σ × List β
  | s, [] => (s, [])
  | s, a :: as => ((scan step (step s a).1 as).1, (step s a).2 ++ (scan step (step s a).1 as).2)

variable {step : σ → α → σ × List β}

@[simp] theorem scan_nil (s : σ) : scan step s [] = (s, []) := rfl

theorem scan_cons (s : σ) (a : α) (as : List α) : scan step s (a :: as) =
    ((scan step (step s a).1 as).1, (step s a).2 ++ (scan step (step s a).1 as).2) := rfl

theorem scan_singleton (s : σ) (a : α) : scan step s [a] = step s a := by
  rw [scan_cons, scan_nil, List.append_nil]

theorem scan_append (s : σ) (as bs : List α) : scan step s (as ++ bs) =
    ((scan step (scan step s as).1 bs).1, (scan step s as).2 ++
      (scan step (scan step s as).1 bs).2) := by
  induction as generalizing s with
  | nil => rfl
  | cons a as ih => rw [List.cons_append, scan_cons, scan_cons, ih, List.append_assoc]

/-- A machine that reads whole pieces does what the machine does that reads their symbols. -/
theorem scan_pieces {read : σ → List α → σ × List β} (hread : ∀ s as, read s as = scan step s as)
    (s : σ) (pieces : List (List α)) : scan read s pieces = scan step s pieces.flatten := by
  induction pieces generalizing s with
  | nil => rfl
  | cons piece pieces ih => rw [List.flatten_cons, scan_append, scan_cons, ih, hread]

/-- Corresponding states that go on to corresponding states with the same results, wherever the
first machine comes to on this text. -/
theorem scan_congr {step' : τ → α → τ × List β} {R : σ → τ → Prop} {s : σ} {t : τ} {as : List α}
    (hstep : ∀ front a back, as = front ++ a :: back → ∀ t, R (scan step s front).1 t →
      R (step (scan step s front).1 a).1 (step' t a).1 ∧
      (step (scan step s front).1 a).2 = (step' t a).2)
    (h : R s t) :
    R (scan step s as).1 (scan step' t as).1 ∧ (scan step s as).2 = (scan step' t as).2 := by
  induction as generalizing s t with
  | nil => exact ⟨h, rfl⟩
  | cons a as ih =>
    obtain ⟨hnext, hout⟩ := hstep [] a as rfl t h
    rw [scan_nil] at hnext hout
    obtain ⟨hlast, hrest⟩ :=
      ih (fun front b back hfront => hstep (a :: front) b back (by rw [hfront]; rfl)) hnext
    exact ⟨hlast, by rw [scan_cons, scan_cons, hout, hrest]⟩

/-- A law that holds of what was read, of the state and of the results so far. -/
theorem scan_induction {P : List α → σ → List β → Prop} {s : σ} (hs : P [] s [])
    (hstep : ∀ as a t out, P as t out → P (as ++ [a]) (step t a).1 (out ++ (step t a).2))
    (as : List α) :
    P as (scan step s as).1 (scan step s as).2 := by
  induction as using List.reverseRecOn with
  | nil => exact hs
  | append_singleton as a ih =>
    rw [scan_append, scan_singleton]
    exact hstep as a _ _ ih

end Httperf.Lib.Transducer
