-- The queue of a session (`session.c`): the calls that are pending on each connection of the
-- session, in the order in which they were issued.
import Mathlib.Data.List.Basic
import Mathlib.Algebra.BigOperators.Group.List.Basic
import Mathlib.Algebra.GroupWithZero.Nat

namespace Httperf

/-- The parameters of the queue. `session_init` gives both a value. -/
structure SessionParam where
  max_conns : Nat
  max_piped : Nat
  max_conns_pos : 0 < max_conns
  max_piped_pos : 0 < max_piped

variable {α : Type}

def session_max_qlen (p : SessionParam) : Nat := p.max_conns * p.max_piped

/-- The calls that are pending, one list for each `conn_info`. -/
def session_current_qlen (slots : List (List α)) : Nat := (slots.map List.length).sum

/-- The loop of `session_issue_call`: the first `conn_info` with room gets the call. `none` is the
exit with too many calls pending. -/
def session_issue_call (p : SessionParam) (c : α) : List (List α) → Option (List (List α))
  | [] => none
  | q :: slots =>
    if q.length < p.max_piped then some ((q ++ [c]) :: slots)
    else (session_issue_call p c slots).map (q :: ·)

/-- The call in front of the connection `i` is done. -/
def call_done (i : Nat) (slots : List (List α)) : Option (List (List α)) :=
  match slots[i]? with
  | some (_ :: rest) => some (slots.set i rest)
  | _ => none

/-- The `conn_info` array of a session that has no connection yet. -/
def no_calls (p : SessionParam) : List (List α) := List.replicate p.max_conns []

/-- The queue has the size that the parameters give. -/
def Fits (p : SessionParam) (slots : List (List α)) : Prop :=
  slots.length = p.max_conns ∧ ∀ q ∈ slots, q.length ≤ p.max_piped

variable {p : SessionParam} {slots : List (List α)}

theorem session_max_qlen_pos (p : SessionParam) : 0 < session_max_qlen p :=
  Nat.mul_pos p.max_conns_pos p.max_piped_pos

@[simp] theorem session_current_qlen_nil : session_current_qlen ([] : List (List α)) = 0 := rfl

@[simp] theorem session_current_qlen_cons (q : List α) (slots : List (List α)) :
    session_current_qlen (q :: slots) = q.length + session_current_qlen slots := rfl

theorem no_calls_fits (p : SessionParam) : Fits p (no_calls p : List (List α)) :=
  ⟨List.length_replicate, fun q hq => by simp [List.eq_of_mem_replicate hq]⟩

theorem no_calls_qlen (p : SessionParam) :
    session_current_qlen (no_calls p : List (List α)) = 0 := by
  simp [session_current_qlen, no_calls]

theorem Fits.qlen_le (h : Fits p slots) : session_current_qlen slots ≤ session_max_qlen p := by
  obtain ⟨hlen, hall⟩ := h
  unfold session_max_qlen
  rw [← hlen]
  clear hlen
  induction slots with
  | nil => simp
  | cons q slots ih =>
    have hq := hall q List.mem_cons_self
    have hrest := ih fun r hr => hall r (List.mem_cons_of_mem _ hr)
    rw [session_current_qlen_cons, List.length_cons, Nat.succ_mul]
    omega

/-- A call is issued as long as fewer calls are pending than the queue takes. -/
theorem session_issue_call_spec (c : α) (h : Fits p slots)
    (hroom : session_current_qlen slots < session_max_qlen p) :
    ∃ slots', session_issue_call p c slots = some slots' ∧ Fits p slots' ∧
      session_current_qlen slots' = session_current_qlen slots + 1 := by
  obtain ⟨hlen, hall⟩ := h
  unfold Fits
  unfold session_max_qlen at hroom
  rw [← hlen] at hroom ⊢
  clear hlen
  induction slots with
  | nil => simp at hroom
  | cons q slots ih =>
    have hq := hall q List.mem_cons_self
    unfold session_issue_call
    split
    · rename_i hlt
      refine ⟨_, rfl, ⟨rfl, ?_⟩, ?_⟩
      · intro r hr
        rcases List.mem_cons.mp hr with rfl | hr
        · simpa [Nat.succ_le_iff] using hlt
        · exact hall r (List.mem_cons_of_mem _ hr)
      · simp only [session_current_qlen_cons, List.length_append, List.length_singleton]
        omega
    · -- this connection is full, and there is room behind it
      rw [session_current_qlen_cons, List.length_cons, Nat.succ_mul] at hroom
      obtain ⟨slots', hissue, ⟨hlen', hall'⟩, hqlen⟩ :=
        ih (by omega) fun r hr => hall r (List.mem_cons_of_mem _ hr)
      refine ⟨q :: slots', by rw [hissue]; rfl, ⟨by simp [hlen'], ?_⟩, ?_⟩
      · intro r hr
        rcases List.mem_cons.mp hr with rfl | hr
        · exact hq
        · exact hall' r hr
      · simp only [session_current_qlen_cons, hqlen]
        omega

theorem call_done_spec {i : Nat} {slots' : List (List α)} (h : Fits p slots)
    (hdone : call_done i slots = some slots') :
    Fits p slots' ∧ session_current_qlen slots = session_current_qlen slots' + 1 := by
  unfold call_done at hdone
  split at hdone
  · rename_i c rest hi
    obtain rfl := Option.some.inj hdone
    obtain ⟨hlt, hget⟩ := List.getElem?_eq_some_iff.mp hi
    refine ⟨⟨by simpa using h.1, ?_⟩, ?_⟩
    · intro q hq
      rcases List.mem_or_eq_of_mem_set hq with hq | rfl
      · exact h.2 q hq
      · have hc := h.2 _ (List.getElem_mem hlt)
        rw [hget, List.length_cons] at hc
        omega
    · clear h hi hdone
      induction slots generalizing i with
      | nil => simp at hlt
      | cons q slots ih =>
        cases i with
        | zero =>
          simp only [List.getElem_cons_zero] at hget
          subst hget
          simp only [List.set_cons_zero, session_current_qlen_cons, List.length_cons]
          omega
        | succ i =>
          have hrest := ih (Nat.lt_of_succ_lt_succ hlt) hget
          simp only [List.set_cons_succ, session_current_qlen_cons, hrest]
          omega
  · cases hdone

theorem exists_call_done (hpending : 0 < session_current_qlen slots) :
    ∃ i slots', call_done i slots = some slots' := by
  induction slots with
  | nil => simp at hpending
  | cons q slots ih =>
    cases q with
    | cons c rest => exact ⟨0, rest :: slots, rfl⟩
    | nil =>
      obtain ⟨i, slots', hdone⟩ := ih (by simpa using hpending)
      refine ⟨i + 1, [] :: slots', ?_⟩
      unfold call_done at hdone ⊢
      split at hdone
      · rename_i c rest hi
        obtain rfl := Option.some.inj hdone
        simp [hi]
      · cases hdone

end Httperf
