-- The lines of a text that arrives bit by bit: the lines that are complete, and the one that is
-- not.
import Mathlib.Data.List.Basic

namespace Httperf.Lib

variable {α : Type} {sep : α} {p s t tag : List α}

/-! ## The text of some lines -/

/-- Each line with its end, behind a tag. -/
def unlines (sep : α) (tag : List α) (ls : List (List α)) : List α :=
  ls.flatMap fun l => tag ++ l ++ [sep]

theorem unlines_nil : unlines sep tag [] = [] := rfl

theorem unlines_cons (l : List α) (ls : List (List α)) :
    unlines sep tag (l :: ls) = tag ++ l ++ sep :: unlines sep tag ls := by
  unfold unlines
  rw [List.flatMap_cons, List.append_assoc, List.singleton_append]

theorem unlines_append (ls ls' : List (List α)) :
    unlines sep tag (ls ++ ls') = unlines sep tag ls ++ unlines sep tag ls' := List.flatMap_append

theorem mem_unlines {c : α} {ls : List (List α)} (h : c ∈ unlines sep [] ls) :
    c = sep ∨ ∃ l ∈ ls, c ∈ l := by
  obtain ⟨l, hl, hc⟩ := List.mem_flatMap.mp h
  rcases List.mem_append.mp hc with hc | hc
  · exact .inr ⟨l, hl, hc⟩
  · exact .inl (List.mem_singleton.mp hc)

theorem append_sep_inj {l l' : List α} (h : sep ∉ l) (h' : sep ∉ l')
    (heq : l ++ sep :: s = l' ++ sep :: t) :
    l = l' ∧ s = t := by
  induction l generalizing l' with
  | nil =>
    cases l' with
    | nil => exact ⟨rfl, (List.cons.inj heq).2⟩
    | cons c l' => exact absurd (List.mem_cons.mpr (.inl (List.cons.inj heq).1)) h'
  | cons c l ih =>
    cases l' with
    | nil => exact absurd (List.mem_cons.mpr (.inl (List.cons.inj heq).1.symm)) h
    | cons d l' =>
      obtain ⟨rfl, hrest⟩ := List.cons.inj heq
      obtain ⟨rfl, rfl⟩ := ih (mt (List.mem_cons_of_mem c) h) (mt (List.mem_cons_of_mem c) h') hrest
      exact ⟨rfl, rfl⟩

/-! ## The lines of a text -/

/-- A line that has no end counts when it is not empty. -/
def unfinished (p : List α) : List (List α) := if p = [] then [] else [p]

theorem unfinished_of_ne_nil (hp : p ≠ []) : unfinished p = [p] := if_neg hp

theorem countP_unfinished (q : α → Bool) (p : List α) :
    (unfinished p).flatten.countP q = p.countP q := by
  unfold unfinished
  split
  · rename_i hp
    rw [hp]
    rfl
  · rw [List.flatten_singleton]

variable [DecidableEq α]

/-- The lines of `s` that have their end `sep`. `p` is the line at the start of `s` as far as it is
known. -/
def complete (sep : α) : List α → List α → List (List α)
  | _, [] => []
  | p, c :: s => if c = sep then p :: complete sep [] s else complete sep (p ++ [c]) s

/-- The line behind them. -/
def pending (sep : α) : List α → List α → List α
  | p, [] => p
  | p, c :: s => if c = sep then pending sep [] s else pending sep (p ++ [c]) s

/-- All lines. -/
def linesFrom (sep : α) (p s : List α) : List (List α) :=
  complete sep p s ++ unfinished (pending sep p s)

theorem complete_sep (p s : List α) : complete sep p (sep :: s) = p :: complete sep [] s :=
  if_pos rfl

theorem pending_sep (p s : List α) : pending sep p (sep :: s) = pending sep [] s := if_pos rfl

theorem linesFrom_sep (p s : List α) : linesFrom sep p (sep :: s) = p :: linesFrom sep [] s := by
  unfold linesFrom
  rw [complete_sep, pending_sep, List.cons_append]

theorem complete_append (p s t : List α) :
    complete sep p (s ++ t) = complete sep p s ++ complete sep (pending sep p s) t := by
  induction s generalizing p with
  | nil => rfl
  | cons c s ih =>
    rw [List.cons_append, complete, complete, pending]
    split
    · rw [ih, List.cons_append]
    · exact ih _

theorem pending_append (p s t : List α) :
    pending sep p (s ++ t) = pending sep (pending sep p s) t := by
  induction s generalizing p with
  | nil => rfl
  | cons c s ih =>
    rw [List.cons_append, pending, pending]
    split
    · exact ih _
    · exact ih _

theorem linesFrom_of_ne {c : α} (hc : c ≠ sep) (p s : List α) :
    linesFrom sep p (c :: s) = linesFrom sep (p ++ [c]) s := by
  unfold linesFrom
  rw [complete, if_neg hc, pending, if_neg hc]

/-- The first line goes on up to an end in the text, or to the end of it. -/
theorem linesFrom_head (hp : p ≠ []) (s : List α) :
    ∃ more ls, linesFrom sep p s = (p ++ more) :: ls ∧
      (more = [] → s = [] ∧ ls = [] ∨ ∃ t, s = sep :: t ∧ ls = linesFrom sep [] t) := by
  induction s generalizing p with
  | nil =>
    refine ⟨[], [], ?_, fun _ => .inl ⟨rfl, rfl⟩⟩
    rw [List.append_nil]
    exact unfinished_of_ne_nil hp
  | cons c s ih =>
    by_cases hc : c = sep
    · subst hc
      refine ⟨[], linesFrom c [] s, ?_, fun _ => .inr ⟨s, rfl, rfl⟩⟩
      rw [linesFrom_sep, List.append_nil]
    · obtain ⟨more, ls, hall, -⟩ := ih (List.append_ne_nil_of_left_ne_nil hp [c])
      refine ⟨c :: more, ls, ?_, fun hno => absurd hno (List.cons_ne_nil _ _)⟩
      rw [linesFrom_of_ne hc, hall, List.append_assoc, List.singleton_append]

theorem linesFrom_append (p s t : List α) :
    linesFrom sep p (s ++ t) = complete sep p s ++ linesFrom sep (pending sep p s) t := by
  unfold linesFrom
  rw [complete_append, pending_append, List.append_assoc]

theorem complete_of_not_mem (h : sep ∉ s) (p : List α) : complete sep p s = [] := by
  induction s generalizing p with
  | nil => rfl
  | cons c s ih =>
    rw [complete, if_neg (Ne.symm (List.ne_of_not_mem_cons h))]
    exact ih (List.not_mem_of_not_mem_cons h) _

theorem pending_of_not_mem (h : sep ∉ s) (p : List α) : pending sep p s = p ++ s := by
  induction s generalizing p with
  | nil => exact (List.append_nil p).symm
  | cons c s ih =>
    rw [pending, if_neg (Ne.symm (List.ne_of_not_mem_cons h)), ih (List.not_mem_of_not_mem_cons h),
      List.append_assoc, List.singleton_append]

/-- Behind an end of a line the line at the start is forgotten. -/
theorem pending_of_mem (h : sep ∈ s) (p q : List α) : pending sep p s = pending sep q s := by
  induction s generalizing p q with
  | nil => nomatch h
  | cons c s ih =>
    rw [pending, pending]
    split
    · rfl
    · rename_i hne
      exact ih ((List.mem_cons.mp h).resolve_left (Ne.symm hne)) _ _

/-- The line at the start is the start of the first line. -/
theorem complete_of_mem (h : sep ∈ s) :
    ∃ first ls, ∀ p, complete sep p s = (p ++ first) :: ls := by
  induction s with
  | nil => nomatch h
  | cons c s ih =>
    by_cases hc : c = sep
    · refine ⟨[], complete sep [] s, fun p => ?_⟩
      rw [complete, if_pos hc, List.append_nil]
    · obtain ⟨first, ls, hall⟩ := ih ((List.mem_cons.mp h).resolve_left (Ne.symm hc))
      refine ⟨c :: first, ls, fun p => ?_⟩
      rw [complete, if_neg hc, hall, List.append_assoc, List.singleton_append]

theorem linesFrom_nil (p : List α) : linesFrom sep p [] = unfinished p := rfl

/-! ## Counting -/

theorem complete_length (p s : List α) : (complete sep p s).length = s.count sep := by
  induction s generalizing p with
  | nil => rfl
  | cons c s ih =>
    by_cases hc : c = sep
    · rw [complete, if_pos hc, List.length_cons, ih, hc, List.count_cons_self]
    · rw [complete, if_neg hc, ih, List.count_cons_of_ne hc]

theorem pending_length_le (sep : α) (p s : List α) :
    (pending sep p s).length ≤ p.length + s.length := by
  induction s generalizing p with
  | nil => exact Nat.le_refl p.length
  | cons c s ih =>
    rw [pending, List.length_cons]
    split
    · have hrest := ih []
      rw [List.length_nil] at hrest
      omega
    · have hrest := ih (p ++ [c])
      rw [List.length_append, List.length_singleton] at hrest
      omega

/-- What is counted in the lines and behind them is what is counted in the text. -/
theorem countP_complete {q : α → Bool} (hsep : q sep = false) (p s : List α) :
    (complete sep p s).flatten.countP q + (pending sep p s).countP q = p.countP q + s.countP q := by
  induction s generalizing p with
  | nil => simp [complete, pending]
  | cons c s ih =>
    by_cases hc : c = sep
    · subst hc
      rw [complete_sep, pending_sep, List.flatten_cons, List.countP_append, Nat.add_assoc, ih,
        List.countP_nil, Nat.zero_add, List.countP_cons_of_neg (by simp [hsep])]
    · rw [complete, if_neg hc, pending, if_neg hc, ih, List.countP_append, Nat.add_assoc,
        ← List.countP_append, List.singleton_append]

theorem countP_linesFrom {q : α → Bool} (hsep : q sep = false) (p s : List α) :
    (linesFrom sep p s).flatten.countP q = p.countP q + s.countP q := by
  unfold linesFrom
  rw [List.flatten_append, List.countP_append, countP_unfinished, countP_complete hsep]

/-! ## What holds of all that is no end of a line -/

theorem complete_forall {P : α → Prop} (hp : ∀ c ∈ p, P c) (hs : ∀ c ∈ s, c ≠ sep → P c)
    {l : List α} (hl : l ∈ complete sep p s) : ∀ c ∈ l, P c := by
  induction s generalizing p with
  | nil => nomatch hl
  | cons c s ih =>
    have hrest : ∀ c ∈ s, c ≠ sep → P c := fun d hd => hs d (List.mem_cons_of_mem _ hd)
    rw [complete] at hl
    split at hl
    · rcases List.mem_cons.mp hl with rfl | hl
      · exact hp
      · exact ih (fun _ hno => absurd hno List.not_mem_nil) hrest hl
    · rename_i hne
      refine ih (fun d hd => ?_) hrest hl
      rcases List.mem_append.mp hd with hd | hd
      · exact hp d hd
      · obtain rfl := List.mem_singleton.mp hd
        exact hs d List.mem_cons_self hne

theorem pending_forall {P : α → Prop} (hp : ∀ c ∈ p, P c) (hs : ∀ c ∈ s, c ≠ sep → P c) :
    ∀ c ∈ pending sep p s, P c := by
  induction s generalizing p with
  | nil => exact hp
  | cons c s ih =>
    have hrest : ∀ c ∈ s, c ≠ sep → P c := fun d hd => hs d (List.mem_cons_of_mem _ hd)
    rw [pending]
    split
    · exact ih (fun _ hno => absurd hno List.not_mem_nil) hrest
    · rename_i hne
      refine ih (fun d hd => ?_) hrest
      rcases List.mem_append.mp hd with hd | hd
      · exact hp d hd
      · obtain rfl := List.mem_singleton.mp hd
        exact hs d List.mem_cons_self hne

theorem linesFrom_forall {P : α → Prop} (hp : ∀ c ∈ p, P c) (hs : ∀ c ∈ s, c ≠ sep → P c)
    {l : List α} (hl : l ∈ linesFrom sep p s) : ∀ c ∈ l, P c := by
  rcases List.mem_append.mp hl with hl | hl
  · exact complete_forall hp hs hl
  · unfold unfinished at hl
    split at hl
    · nomatch hl
    · obtain rfl := List.mem_singleton.mp hl
      exact pending_forall hp hs

/-! ## Other symbols -/

/-- Symbols that stand for others have the lines of these. -/
theorem linesFrom_map {β : Type} [DecidableEq β] {sep' : β} {f : α → β}
    (hf : ∀ c, f c = sep' ↔ c = sep) (p s : List α) : (linesFrom sep p s).map (List.map f) =
      linesFrom sep' (p.map f) (s.map f) := by
  induction s generalizing p with
  | nil =>
    rw [List.map_nil, linesFrom, linesFrom]
    change (unfinished p).map (List.map f) = unfinished (p.map f)
    unfold unfinished
    by_cases hp : p = []
    · rw [if_pos hp, if_pos (List.map_eq_nil_iff.mpr hp), List.map_nil]
    · rw [if_neg hp, if_neg (mt List.map_eq_nil_iff.mp hp), List.map_singleton]
  | cons c s ih =>
    rw [List.map_cons]
    by_cases hc : c = sep
    · rw [hc, (hf sep).mpr rfl, linesFrom_sep, linesFrom_sep, List.map_cons, ih, List.map_nil]
    · have hother := ih (p ++ [c])
      unfold linesFrom at hother ⊢
      rw [complete, if_neg hc, pending, if_neg hc, complete, if_neg (mt (hf c).mp hc), pending,
        if_neg (mt (hf c).mp hc), hother, List.map_append, List.map_singleton]

end Httperf.Lib
