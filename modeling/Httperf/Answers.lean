-- The answers of a server, to requests of any method. The answer to a `HEAD` request ends with the
-- header. A call that is queued behind the ones that wait changes nothing in how their answers are
-- read.
import Httperf.InterimReplies
import Httperf.Truncated

namespace Httperf

open Resume

/-! ## An answer -/

/-- A reply, and whether it is one to `HEAD`. -/
structure Answer where
  head : Bool
  reply : WireReply

namespace Answer

/-- What the server writes. -/
def wire (a : Answer) : List Byte := if a.head then a.reply.head else a.reply.wire

def content (a : Answer) : List Byte := if a.head then [] else a.reply.framing.body

def trailers (a : Answer) : List (List Byte) := if a.head then [] else a.reply.framing.trailers

/-- The counters at its end, without the header count. -/
def counters (a : Answer) : Reply :=
  if a.head then { a.reply.reply with content_bytes := 0, footer_bytes := 0 } else a.reply.reply

/-- What it signals to the call `id`, with the content in one piece. -/
def events (a : Answer) (id : Nat) : List Event :=
  a.reply.headEvents id ++ (dataEvents id a.content ++ (a.trailers.map (.EV_CALL_RECV_FOOTER id) ++
    [.EV_CALL_RECV_STOP id a.counters]))

/-- What a row of answers signals to a row of calls. -/
def signals : List Answer → List Nat → List Event
  | a :: as, id :: ids => a.events id ++ signals as ids
  | _, _ => []

theorem signals_append (as bs : List Answer) {is js : List Nat} (h : as.length = is.length) :
    signals (as ++ bs) (is ++ js) = signals as is ++ signals bs js := by
  induction as generalizing is with
  | nil =>
    obtain rfl := List.length_eq_zero_iff.mp h.symm
    rfl
  | cons a as ih =>
    cases is with
    | nil => cases h
    | cons i is =>
      rw [List.cons_append, List.cons_append, signals, signals, ih (Nat.succ.inj h),
        List.append_assoc]

end Answer

/-! ## Reading an answer -/

/-- The call that an answer is for. -/
structure Waits (c : Call) (a : Answer) : Prop where
  fresh : c.Fresh
  head : c.isHead = a.head

section
variable (content_length : UInt64) (has_body is_chunked : Bool) (c : Call) (next : List Call)
  (log : List Event)

/-- The status line of the answer to `HEAD`. -/
theorem read_head_status_line (hc : c.isHead = true) {l : StatusLine} (ok : LineText l.text)
    (hhi : l.status.val ≤ 599) (rest : List Byte) :
    Run Decoder.machine
      (lineStart .S_REPLY_STATUS content_length has_body is_chunked (c :: next) log)
      (crlf l.text ++ rest)
      (lineStart .S_REPLY_HEADER SIZE_MAX false false
        (statusCall l c :: next) (log ++ [.EV_CALL_RECV_START c.id l.status.val])) rest := by
  have hscan := scan_status_line_text l hhi
  have hparse : (scan_status_line (cstr l.text)).isSome := by
    rw [cstr_eq ok.noNUL, hscan]
    rfl
  have hint : u_int_to_int l.status.val = l.status.val := by
    unfold u_int_to_int
    rw [if_pos (by omega)]
  have hrun := read_line ⟨.S_REPLY_STATUS, [], content_length, has_body, is_chunked, c :: next⟩ log
    rfl rfl rfl rfl ok ⟨fun _ => hparse, by simp⟩ rest
  simp only [Decoder.prelude, Decoder.countFooter, Decoder.onLine, Decoder.onStatus, if_true,
    if_false, reduceCtorEq, cstr_eq ok.noNUL, hscan, hc, hint, Bool.not_true, Bool.false_and,
    Bool.false_eq_true, has_body_of, Decoder.join, Option.map_some, Option.getD_some] at hrun
  rw [Decoder.settle_of_ne _ (by simp)] at hrun
  exact hrun

/-- An answer to a fresh call, from the status line to the last byte. -/
theorem read_answer {a : Answer} (hw : Waits c a) (rest : List Byte) :
    ∃ cl hb ch, Run Decoder.machine
      (lineStart .S_REPLY_STATUS content_length has_body is_chunked (c :: next) log)
      (a.wire ++ rest)
      (lineStart .S_REPLY_STATUS cl hb ch next (log ++ a.events c.id)) rest := by
  cases ha : a.head with
  | false =>
    obtain ⟨cl, hb, ch, hrun⟩ := read_reply content_length has_body is_chunked c next log a.reply
      hw.fresh (hw.head.trans ha) rest
    refine ⟨cl, hb, ch, ?_⟩
    have hwire : a.wire = a.reply.wire := by
      unfold Answer.wire
      rw [ha]
      rfl
    have hevents : a.events c.id = a.reply.events c.id := by
      unfold Answer.events Answer.content Answer.trailers Answer.counters
      rw [ha]
      rfl
    rw [hwire, hevents]
    exact hrun
  | true =>
    obtain ⟨id, req, reply⟩ := c
    obtain rfl : reply = Reply.zero := hw.fresh
    have h1 := read_head_status_line content_length has_body is_chunked _ next log
      (hw.head.trans ha) a.reply.ok a.reply.upper
        ((a.reply.headers.map crlf).flatten ++ (crlf [] ++ rest))
    obtain ⟨cl, ch, h2⟩ := read_fields_no_body SIZE_MAX false
      (statusCall a.reply.line ⟨id, req, Reply.zero⟩) next
      (log ++ [.EV_CALL_RECV_START id a.reply.line.status.val]) (.inl rfl)
      (fun t ht => a.reply.headers_ok ht) (crlf [] ++ rest)
    have h3 := read_headers_end_none cl ch (statusCall a.reply.line ⟨id, req, Reply.zero⟩) next
      (log ++ [.EV_CALL_RECV_START id a.reply.line.status.val] ++
        a.reply.headers.map (.EV_CALL_RECV_HDR id)) rest
    refine ⟨cl, false, ch, ?_⟩
    have hrun := h1.trans (h2.trans h3)
    have hwire : a.wire ++ rest = crlf a.reply.line.text ++
        ((a.reply.headers.map crlf).flatten ++ (crlf [] ++ rest)) := by
      unfold Answer.wire WireReply.head
      simp [ha]
    have hevents : log ++ a.events id = pushEvent
        (log ++ [.EV_CALL_RECV_START id a.reply.line.status.val] ++
          a.reply.headers.map (.EV_CALL_RECV_HDR id))
        (.EV_CALL_RECV_STOP id (statusCall a.reply.line ⟨id, req, Reply.zero⟩).reply) := by
      unfold Answer.events Answer.content Answer.trailers Answer.counters WireReply.headEvents
        WireReply.reply statusCall
      simp [ha, pushEvent, dataEvents, WireReply.status, Reply.zero]
    rw [hwire, hevents]
    exact hrun

end

/-- The stream of the answers to a row of fresh calls, with more calls behind them. -/
theorem read_answers {as : List Answer} {cs : List Call} (more : List Call)
    (hw : List.Forall₂ Waits cs as) (content_length : UInt64) (has_body is_chunked : Bool)
    (log : List Event) (rest : List Byte) :
    ∃ cl hb ch, Run Decoder.machine
      (lineStart .S_REPLY_STATUS content_length has_body is_chunked (cs ++ more) log)
      ((as.map Answer.wire).flatten ++ rest)
      (lineStart .S_REPLY_STATUS cl hb ch more
        (log ++ Answer.signals as (cs.map Call.id))) rest := by
  induction hw generalizing content_length has_body is_chunked log with
  | nil =>
    exact ⟨content_length, has_body, is_chunked, by simpa [Answer.signals] using Run.refl _ _⟩
  | @cons c a cs as hca _ ih =>
    obtain ⟨cl, hb, ch, h1⟩ := read_answer content_length has_body is_chunked c (cs ++ more) log hca
      ((as.map Answer.wire).flatten ++ rest)
    obtain ⟨cl', hb', ch', h2⟩ := ih cl hb ch (log ++ a.events c.id)
    refine ⟨cl', hb', ch', ?_⟩
    have hrun := h1.trans h2
    simpa [Answer.signals] using hrun

/-! ## A call is queued -/

/-- One more call at the end of the queue. -/
def Decoder.queue (d : Decoder) (c : Call) : Decoder :=
  { d with s := { d.s with recvq := d.s.recvq ++ [c] } }

theorem settle_queue {d : Decoder} (c : Call) (h : d.s.recvq ≠ []) :
    Decoder.settle (d.queue c) = (Decoder.settle d).queue c := by
  obtain ⟨c0, next, hq⟩ := List.exists_cons_of_ne_nil h
  unfold Decoder.settle Decoder.queue
  dsimp only
  split_ifs
  · rw [hq]
    rfl
  · rfl

/-- What a line does to the connection has nothing to do with the calls behind. -/
theorem onLine_recvq (s : Conn) (c : Call) (l : List Byte) (q : List Call) :
    Decoder.onLine { s with recvq := q } c l =
      ({ (Decoder.onLine s c l).1 with recvq := q }, (Decoder.onLine s c l).2) := by
  have hstatus : Decoder.onStatus { s with recvq := q } c l =
      ({ (Decoder.onStatus s c l).1 with recvq := q }, (Decoder.onStatus s c l).2) := by
    unfold Decoder.onStatus
    split <;> rfl
  have hheader : Decoder.onHeader { s with recvq := q } c l =
      ({ (Decoder.onHeader s c l).1 with recvq := q }, (Decoder.onHeader s c l).2) := by
    unfold Decoder.onHeader headers_end header_field
    split_ifs <;> rfl
  have hfooter : Decoder.onFooter { s with recvq := q } c l =
      ({ (Decoder.onFooter s c l).1 with recvq := q }, (Decoder.onFooter s c l).2) := by
    unfold Decoder.onFooter
    split_ifs <;> rfl
  have hchunk : Decoder.onChunk { s with recvq := q } c l =
      ({ (Decoder.onChunk s c l).1 with recvq := q }, (Decoder.onChunk s c l).2) := by
    unfold Decoder.onChunk
    dsimp only
    split_ifs <;> rfl
  obtain ⟨state, line, content_length, has_body, is_chunked, recvq⟩ := s
  cases state with
  | S_REPLY_STATUS => exact hstatus
  | S_REPLY_FOOTER => exact hfooter
  | S_REPLY_CHUNKED => exact hchunk
  | _ => exact hheader

theorem join_queue (next : List Call) (c : Call) (q : List Call) (log : List Event)
    (x : Conn × Call × Option Event) :
    Decoder.join (next ++ [c]) log ({ x.1 with recvq := q }, x.2) =
      (Decoder.join next log x).queue c := rfl

/-- The step takes the same bytes, and leaves the call where it is. -/
theorem step_queue {d : Decoder} {b : List Byte} (c : Call) (hfit : Decoder.fits d b) :
    Decoder.step (d.queue c) b = ((Decoder.step d b).1.queue c, (Decoder.step d b).2) := by
  obtain ⟨c0, next, hq, -, -⟩ := hfit
  have hq' : (d.queue c).s.recvq = c0 :: (next ++ [c]) := by
    unfold Decoder.queue
    rw [hq]
    rfl
  cases hl : Decoder.lineMode d.s c0 with
  | true =>
    have hl' : Decoder.lineMode (d.queue c).s c0 = true := hl
    have hpre : Decoder.prelude (d.queue c).s =
        { Decoder.prelude d.s with recvq := d.s.recvq ++ [c] } := Decoder.prelude_recvq _ _
    rcases hcut : cutLine b with _ | ⟨l, r⟩
    · rw [Decoder.step_line_none hq hl hcut, Decoder.step_line_none hq' hl' hcut]
      unfold Decoder.midLine
      rw [hpre]
      rfl
    · rw [Decoder.step_line_some hq hl hcut, Decoder.step_line_some hq' hl' hcut, hpre]
      have hline := onLine_recvq { Decoder.prelude d.s with line := [], recvq := next }
        (Decoder.countFooter d.s l.length c0) (chop (d.s.line ++ l)) (next ++ [c])
      have hjoin := join_queue next c (next ++ [c]) d.log
        (Decoder.onLine { Decoder.prelude d.s with line := [], recvq := next }
          (Decoder.countFooter d.s l.length c0) (chop (d.s.line ++ l)))
      rw [← hline] at hjoin
      rw [← settle_queue c (by simp [Decoder.join]), ← hjoin]
      rfl
  | false =>
    have hl' : Decoder.lineMode (d.queue c).s c0 = false := hl
    have hdata : ∀ x all, Decoder.onData (d.queue c).s c0 (next ++ [c]) (d.queue c).log x all =
        (Decoder.onData d.s c0 next d.log x all).queue c := fun _ _ => rfl
    have hneed : Decoder.needed (d.queue c).s c0 = Decoder.needed d.s c0 := rfl
    rw [Decoder.step_data b hq hl, Decoder.step_data b hq' hl', hneed, hdata,
      settle_queue c (by simp [Decoder.onData])]

theorem fits_queue {d : Decoder} {b : List Byte} (c : Call) (hfit : Decoder.fits d b) :
    Decoder.fits (d.queue c) b := by
  obtain ⟨c0, next, hq, hr, hl⟩ := hfit
  refine ⟨c0, next ++ [c], ?_, hr, hl⟩
  unfold Decoder.queue
  rw [hq]
  rfl

theorem Run.queue {d t : Decoder} {b r : List Byte} (c : Call) (h : Run Decoder.machine d b t r) :
    Run Decoder.machine (d.queue c) b (t.queue c) r := by
  induction h with
  | refl d b => exact .refl _ _
  | @head d t b r hb hfit _ ih =>
    refine .head hb (fits_queue c hfit) ?_
    have hstep : Decoder.machine.step (d.queue c) b =
        ((Decoder.machine.step d b).1.queue c, (Decoder.machine.step d b).2) := step_queue c hfit
    rw [hstep]
    exact ih

end Httperf
