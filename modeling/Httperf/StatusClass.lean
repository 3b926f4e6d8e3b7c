-- The status classes of `recv_stop` in `basic.c`. The parser takes any number for a status, and
-- `num_replies` has places for six classes.
import Httperf.TrafficInv

namespace Httperf.Traffic

/-- The line has no number that the parser can read, or one of a status class, or one that an `int`
takes for a number between -99 and -1 (its class is 0). -/
def Countable (line : List Byte) : Prop :=
  ∀ v, scan_status_line (cstr line) = some v → v.2.2 < 600 ∨ 2 ^ 32 - 100 < v.2.2

/-- No assertion of `recv_stop` has failed. -/
def State.Counted (s : State) : Prop := ∀ a, s.ended ≠ some (.assertion a)

theorem hasClass_u_int_iff {n : Nat} (hn : n < 2 ^ 32) :
    HasClass (u_int_to_int n) ↔ n < 600 ∨ 2 ^ 32 - 100 < n := by
  unfold HasClass u_int_to_int
  split
  · rename_i hpos
    rw [Int.tdiv_eq_ediv_of_nonneg (by omega)]
    omega
  · rename_i hneg
    have hflip : ((n : Int) - 2 ^ 32).tdiv 100 = -((2 ^ 32 - n : Int) / 100) := by
      rw [← Int.tdiv_eq_ediv_of_nonneg (by omega), ← Int.neg_tdiv]
      congr 1
      omega
    rw [hflip]
    omega

theorem hasClass_recorded_iff (line : List Byte) : HasClass (recorded line) ↔ Countable line := by
  unfold recorded Countable
  cases hscan : scan_status_line (cstr line) with
  | none => exact iff_of_true (by decide) (fun v hv => by cases hv)
  | some v =>
    simp only [Option.map_some, Option.getD_some, Option.some.injEq, forall_eq']
    exact hasClass_u_int_iff (scan_status_lt hscan)

/-- What a reply carries to `recv_stop` is the status of its line. -/
theorem Completed.Sound.hasClass_iff {L : Law} {d : Completed}
    (hd : d.Sound L) : HasClass d.c.reply.status ↔ Countable d.reply.line := by
  have hstatus : d.c.reply.status = recorded d.reply.line := hd.reading.past.status
  rw [hstatus, hasClass_recorded_iff]

/-- The program runs on, or what has ended it is the last reply. -/
def StatusLaw (s : State) : Prop :=
  s.ended ≠ some (.assertion .time_recv_start) ∧
    (s.Counted ↔ ∀ d ∈ s.completed, Countable d.reply.line)

theorem step_statusLaw {s : State} (a : Step) (hs : Inv .nothing s) (hlaw : StatusLaw s) :
    StatusLaw (step s a) := by
  by_cases hended : s.ended = none
  · have hcounted : s.Counted := by
      intro a
      simp [hended]
    have hgood := hlaw.2.mp hcounted
    cases (step_running Law.nothing_kept hs hended (nothing_allowed a)).2 with
    | other ended _ _ completed =>
      refine ⟨ended _, ?_⟩
      rw [completed]
      exact iff_of_true ended hgood
    | sent _ _ _ ended _ _ completed =>
      refine ⟨by simp [ended], ?_⟩
      rw [completed]
      exact iff_of_true (fun a => by simp [ended]) hgood
    | completed d sound ended _ _ completed =>
      have hclass := sound.hasClass_iff
      unfold StatusLaw State.Counted
      rw [ended, completed]
      by_cases hc : HasClass d.c.reply.status
      · rw [if_pos hc]
        refine ⟨by simp, iff_of_true (fun a => by simp) fun d' hd' => ?_⟩
        rcases List.mem_append.mp hd' with hd' | hd'
        · exact hgood d' hd'
        · rw [List.mem_singleton.mp hd']
          exact hclass.mp hc
      · rw [if_neg hc]
        refine ⟨by simp, iff_of_false (fun h => h _ rfl) fun h => ?_⟩
        exact hc (hclass.mpr (h d (by simp)))
  · rwa [step_ended hended]

/-- In every run the assertion on the start of the reply holds, and the one on the class exactly
when the status lines of all replies that are complete can be counted. -/
theorem run_statusLaw (steps : List Step) : StatusLaw (Runs.run step init steps) := by
  have hinit : Inv .nothing init ∧ StatusLaw init :=
    ⟨inv_init _, by simp [init], by simp [State.Counted, init]⟩
  exact (Runs.always_of_step (P := fun s => Inv .nothing s ∧ StatusLaw s)
    (fun s a hs => ⟨step_inv Law.nothing_kept (nothing_allowed a) hs.1, step_statusLaw a hs.1 hs.2⟩)
      hinit steps).last.2

end Httperf.Traffic
