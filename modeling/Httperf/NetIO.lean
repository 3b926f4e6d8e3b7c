-- The bytes of the line "Net I/O" (`dump` in `basic.c`). `req.size` and the counters of the reply
-- belong to the call and go on from one attempt to the next, the bytes between the chunks are in no
-- counter, and the trailer is in one that the total leaves out.
import Httperf.TrafficInv

namespace Httperf.Traffic

/-! ## What the line reports -/

/-- The bytes of the requests that were sent in whole, and of the replies that are complete. -/
def State.moved (s : State) : Nat :=
  (s.sent.map List.length).sum + (s.completed.map fun d => d.reply.taken.length).sum

/-- At the end of the run the total is what was moved. (A program that has ended before its time
prints nothing.) -/
def State.Reports (s : State) : Prop :=
  s.ended = none → total_size s.basic = UInt64.ofNat s.moved

instance : DecidablePred State.Reports := fun s =>
  inferInstanceAs (Decidable (s.ended = none → total_size s.basic = UInt64.ofNat s.moved))

/-- A call that is sent has no bytes of an earlier attempt. -/
def Step.Fresh : Step → Prop
  | .core_send _ _ _ c => c.req.size = 0 ∧ Reply.Uncounted c.reply
  | _ => True

instance : DecidablePred Step.Fresh
  | .core_send _ _ _ c => inferInstanceAs (Decidable (c.req.size = 0 ∧ Reply.Uncounted c.reply))
  | .conn_new _ | .writev .. | .read .. | .turn .. | .core_close _ => .isTrue trivial

/-- A reply that is not chunked, and no read ended inside its status line. -/
def Completed.Plain (d : Completed) : Prop := d.reply.cut = [] ∧ ¬ d.s.ChunkedBody

instance (d : Completed) : Decidable d.Plain := inferInstanceAs (Decidable (_ ∧ ¬ _))

/-! ## The size of a request -/

/-- The request is sent up to the element `k` and `j` bytes of it, and `size` counts these bytes. -/
def Queued.Sized (q : Queued) : Prop :=
  ∃ l k j, l.length = IE_LEN ∧ Sending l q.call.req k j ∧ dataOf l = q.request ∧
    q.call.req.size = start l k + j

theorem do_send_size (past : Iovec) (r : Request) (w : Written) :
    (do_send past r w).size = r.size + w.count := by
  cases w with
  | eagain => rfl
  | sent nsent => exact send_fragments_size past _ nsent

theorem sized_core_send {p : SendParam} {fqdname : List Byte} {c c' : Call}
    (h : core_send p fqdname c = some c') (hsize : c.req.size = 0) :
    Queued.Sized ⟨c', offered c'.req⟩ := by
  have hsending := sending_core_send h
  refine ⟨_, 0, 0, iov_length _, hsending, ?_, ?_⟩
  · have hall := hsending.offered_eq
    simp only [start, List.take_zero, dataOf, List.map_nil, List.flatten_nil,
      List.length_nil] at hall
    exact hall.symm
  · unfold core_send at h
    obtain ⟨line, -, rfl⟩ := Option.map_eq_some_iff.mp h
    exact hsize

theorem Queued.Sized.do_send {q : Queued} (hq : q.Sized) (past : Iovec) {w : Written}
    (hw : w.count ≤ (offered q.call.req).length) :
    Queued.Sized { q with call.req := Httperf.do_send past q.call.req w } := by
  obtain ⟨l, k, j, hl, hsending, hdata, hsize⟩ := hq
  obtain ⟨k', j', hsending', hpos⟩ := sending_do_send past w hl hsending hw
  exact ⟨l, k', j', hl, hsending', hdata, by rw [hpos, ← hsize, do_send_size]⟩

/-- A request that is sent in whole. -/
theorem Queued.Sized.whole {q : Queued} (hq : q.Sized) (hend : ¬ q.call.req.iov_index < IE_LEN) :
    q.call.req.size = q.request.length := by
  obtain ⟨l, k, j, hl, hsending, hdata, hsize⟩ := hq
  have hall : start l k = (dataOf l).length := by
    unfold start
    rw [List.take_of_length_le (by rw [hl, ← hsending.index]; omega)]
  have hle := hsending.le
  rw [hsize, ← hdata]
  omega

/-! ## The law that calls carry -/

/-- Requests are counted from 0, and so are replies. -/
def Law.fresh : Law where
  queued q := q.Sized ∧ Reply.Uncounted q.call.reply
  waiting c := Reply.Uncounted c.reply
  reading p _ _ := Reply.Uncounted p.base

theorem Law.fresh_kept : Law.fresh.Kept where
  writes := fun hq hw => ⟨hq.1.do_send _ hw, hq.2⟩
  waits := fun hq => hq.2
  starts := fun hc _ _ _ _ _ => hc
  goes := fun hread _ _ => hread.law
  done := fun hp _ => hp
  queue := fun _ hp => hp

theorem fresh_allowed {a : Step} (ha : a.Fresh) : a.Allowed .fresh := by
  cases a with
  | core_send i p fqdname c =>
    intro c' hc'
    refine ⟨sized_core_send hc' ha.1, ?_⟩
    unfold Httperf.core_send at hc'
    obtain ⟨line, -, rfl⟩ := Option.map_eq_some_iff.mp hc'
    exact ha.2
  | _ => trivial

/-- A plain reply to a fresh call is counted whole. -/
theorem Completed.Sound.counted {d : Completed} (hd : d.Sound .fresh) (hplain : d.Plain) :
    d.c.reply.header_bytes + d.c.reply.content_bytes = UInt64.ofNat d.reply.taken.length := by
  have hcounts := hd.counts hd.reading.law hplain.2
  rw [hplain.1] at hcounts
  simpa using hcounts

/-! ## Runs -/

theorem step_reports {s : State} {a : Step} (ha : a.Fresh) (hs : Inv .fresh s)
    (hreports : s.Reports) (hplain : ∀ d ∈ (step s a).completed, d.Plain) : (step s a).Reports := by
  by_cases hended : s.ended = none
  · have hbefore := hreports hended
    unfold State.moved at hbefore
    intro hrunning
    unfold State.moved
    cases (step_running Law.fresh_kept hs hended (fresh_allowed ha)).2 with
    | other _ total sent completed => rw [total, sent, completed, hbefore]
    | sent q law whole _ total sent completed =>
      rw [total, sent, completed, hbefore, law.1.whole whole, ← UInt64.ofNat_add]
      congr 1
      simp only [List.map_append, List.map_cons, List.map_nil, List.sum_append, List.sum_cons,
        List.sum_nil]
      omega
    | completed d sound ended total sent completed =>
      have hclass : HasClass d.c.reply.status := by
        by_contra hno
        rw [ended, if_neg hno] at hrunning
        cases hrunning
      have hd : d.Plain := hplain d (by simp [completed])
      rw [if_pos hclass] at total
      rw [total, sent, completed, hbefore, sound.counted hd, ← UInt64.ofNat_add]
      congr 1
      simp only [List.map_append, List.map_cons, List.map_nil, List.sum_append, List.sum_cons,
        List.sum_nil]
      omega
  · rwa [step_ended hended]

theorem step_completed (s : State) {a : Step} (ha : a.Fresh) (hs : Inv .fresh s) :
    s.completed ⊆ (step s a).completed := by
  by_cases hended : s.ended = none
  · cases (step_running Law.fresh_kept hs hended (fresh_allowed ha)).2 with
    | other _ _ _ completed => rw [completed]; exact List.Subset.refl _
    | sent _ _ _ _ _ _ completed => rw [completed]; exact List.Subset.refl _
    | completed d _ _ _ _ completed => rw [completed]; exact List.subset_append_left ..
  · rw [step_ended hended]
    exact List.Subset.refl _

/-- A reply that is complete stays in the history. -/
theorem run_completed {s : State} (hs : Inv .fresh s) {steps : List Step}
    (hfresh : ∀ a ∈ steps, a.Fresh) : s.completed ⊆ (Runs.run step s steps).completed := by
  induction steps generalizing s with
  | nil => exact List.Subset.refl _
  | cons a as ih =>
    obtain ⟨ha, has⟩ := List.forall_mem_cons.mp hfresh
    have hstep : s.completed ⊆ (step s a).completed := step_completed s ha hs
    exact List.Subset.trans hstep (ih (step_inv Law.fresh_kept (fresh_allowed ha) hs) has)

/-- Fresh calls and plain replies keep the line exact. -/
theorem run_reports {s : State} (hs : Inv .fresh s) (hreports : s.Reports) {steps : List Step}
    (hfresh : ∀ a ∈ steps, a.Fresh) (hplain : ∀ d ∈ (Runs.run step s steps).completed, d.Plain) :
    Runs.Always step State.Reports s steps := by
  induction steps generalizing s with
  | nil => exact hreports
  | cons a as ih =>
    obtain ⟨ha, has⟩ := List.forall_mem_cons.mp hfresh
    have hinv : Inv .fresh (step s a) := step_inv Law.fresh_kept (fresh_allowed ha) hs
    have hstep : (step s a).Reports :=
      step_reports ha hs hreports fun d hd => hplain d (run_completed hinv has hd)
    exact ⟨hreports, ih hinv hstep has hplain⟩

end Httperf.Traffic
