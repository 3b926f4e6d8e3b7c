-- A call that is issued again (`core_send` after `conn_failed`, or after a retry in
-- `call_done`) keeps the reply counters of its first attempt. The content count is what the
-- framing of a body starts from.
import Httperf.ReplyDecodes
import Httperf.Send
import Httperf.Twins

namespace Httperf

open Resume

/-- What a run makes of the stream: the events, and the connection behind them. The byte
counts and the status of a reply that is not finished are left out. -/
def framing (p : Conn × List Event) : Conn × List Event :=
  ({ p.1 with recvq := p.1.recvq.map fun c => { c with reply := Reply.zero } },
    p.2.map Event.uncounted)

/-- The reply to the call is framed as the reply to a fresh call: for every stream, every
segmentation and all calls behind it. -/
def FramedAsFresh (c : Call) : Prop :=
  ∀ (h : Handlers) (s : Conn) (next : List Call) (reads : List Read) (log : List Event),
    h.Blind → s.state = .S_REPLY_STATUS → s.line = [] →
      (do_recvs h reads { s with recvq := c :: next } log).map framing =
        (do_recvs h reads { s with recvq := { c with reply := Reply.zero } :: next } log).map
          framing

theorem framing_twins {p p' : Conn × List Event} (ht : Twins p p') : framing p' = framing p := by
  obtain ⟨⟨hconn, hqueue⟩, hlog⟩ := ht
  unfold framing
  rw [hlog]
  rcases hqueue with ⟨hq, hq'⟩ | ⟨c, c', next, hq, hq', hlike, _⟩
  · rw [hconn, hq, hq']
  · have hcall : ({ c' with reply := Reply.zero } : Call) = { c with reply := Reply.zero } := by
      obtain ⟨id, req, reply⟩ := c
      obtain ⟨id', req', reply'⟩ := c'
      obtain rfl : id' = id := hlike.id
      obtain rfl : req' = req := hlike.req
      rfl
    rw [hconn]
    simp only [hq, hq', List.map_cons, hcall]

theorem framing_matched {x y : Except Abort (Conn × List Event)} (hm : Matched Twins x y) :
    x.map framing = y.map framing := by
  rcases hm with ht | e
  · exact congrArg Except.ok (framing_twins ht).symm
  · rfl

theorem framed_as_fresh {c : Call} (hc : c.reply.content_bytes = 0 ∨ c.isHead = true) :
    FramedAsFresh c := by
  intro h s next reads log hb hs _
  refine framing_matched (twin_do_recvs hb reads ?_ rfl)
  refine ⟨rfl, Or.inr ⟨c, { c with reply := Reply.zero }, next, rfl, rfl, ?_,
    fun _ _ _ => Or.inr (Or.inl hs)⟩⟩
  refine ⟨rfl, rfl, ?_, ?_⟩
  · intro hst
    simp [hs, ConnState.started] at hst
  · intro hh
    rcases hc with hc | hc
    · exact hc.symm
    · rw [hh] at hc
      cases hc

/-! ## A reply with a body -/

/-- The header of `okReply`. -/
def okHeader : List Byte :=
  crlf okReply.line.text ++ ((okReply.framing.field.map crlf).flatten ++ crlf [])

/-- After the header the connection waits for two bytes. The content count is the old one. -/
theorem read_ok_header {c : Call} (hh : c.isHead = false) :
    ∃ s1 log1 c1, do_recvs quiet [.data okHeader] { oneCall with recvq := [c] } [] =
      .ok (s1, log1) ∧
      s1.state = .S_REPLY_DATA ∧ s1.content_length = 2 ∧ s1.recvq = [c1] ∧
      c1.reply.content_bytes = c.reply.content_bytes := by
  have h1 := read_final_status_line SIZE_MAX false false c.erase [] [] hh okReply.ok okReply.lower
    okReply.upper ((okReply.framing.field.map crlf).flatten ++ crlf [])
  have h2 := read_framing_field (statusCall okReply.line c.erase) [] okReply.framing
    ([] ++ [.EV_CALL_RECV_START c.erase.id okReply.line.status.val]) (crlf [])
  have h3 := read_headers_end_length okReply.framing.conn.1 (statusCall okReply.line c.erase) []
    ([] ++ [.EV_CALL_RECV_START c.erase.id okReply.line.status.val] ++
      okReply.framing.field.map (.EV_CALL_RECV_HDR c.erase.id)) []
  have hrun := h1.trans (h2.trans h3)
  change Drains Decoder.machine (({ oneCall with recvq := [c] } : Conn).decoder []) okHeader
    _ at hrun
  rw [show okHeader = [okHeader].flatten by simp] at hrun
  obtain ⟨s1, log1, hrecvs, hend⟩ := any_cut_of_the_stream_decodes (h := quiet) (fun _ => rfl) hrun
    (by simp [okHeader, crlf])
  have hstate : s1.state = .S_REPLY_DATA := congrArg (fun d => d.s.state) hend
  have hlength : s1.content_length = 2 := congrArg (fun d => d.s.content_length) hend
  have hqueue : s1.recvq.map Call.erase = [statusCall okReply.line c.erase] :=
    congrArg (fun d => d.s.recvq) hend
  obtain ⟨c1, hc1, hcount⟩ := List.map_eq_singleton_iff.mp hqueue
  refine ⟨s1, log1, c1, hrecvs, hstate, hlength, hc1, ?_⟩
  exact congrArg (fun c => c.reply.content_bytes) hcount

/-- The parser on the two bytes of the body: they end the reply, unless more are needed. -/
theorem process_ok_body {s : Conn} {c : Call} (log : List Event) (hs : s.state = .S_REPLY_DATA) :
    ∃ r, http_process_reply_bytes quiet ⟨s, c, bytes "ok", log⟩ = .ok r ∧
      r.buf = (bytes "ok").drop (bytes_needed ⟨s, c, [], []⟩) ∧
      r.s.state = if bytes_needed ⟨s, c, [], []⟩ ≤ 2 then .S_REPLY_DONE else .S_REPLY_DATA := by
  have hquiet : quiet.Quiet := fun _ => rfl
  unfold http_process_reply_bytes
  rw [event_signal_quiet hquiet]
  generalize log ++ _ = log'
  have hneeded : bytes_needed ⟨s, c, bytes "ok", log'⟩ = bytes_needed ⟨s, c, [], []⟩ := rfl
  have hlen : (bytes "ok").length = 2 := by decide
  have hswitch : http_switch quiet ⟨s, c, bytes "ok", log'⟩ = .ok (some
      (if (parse_data quiet ⟨s, c, bytes "ok", log'⟩).1 &&
          !(parse_data quiet ⟨s, c, bytes "ok", log'⟩).2.s.state.closing
        then { (parse_data quiet ⟨s, c, bytes "ok", log'⟩).2 with s.state := .S_REPLY_DONE }
        else (parse_data quiet ⟨s, c, bytes "ok", log'⟩).2)) := by
    simp only [http_switch, hs]
  rw [parse_data_quiet hquiet] at hswitch
  rw [http_process_loop_some hswitch]
  by_cases hn : bytes_needed ⟨s, c, [], []⟩ ≤ 2
  · have hmin : min 2 (bytes_needed ⟨s, c, [], []⟩) = bytes_needed ⟨s, c, [], []⟩ := by omega
    simp only [hlen, hneeded, hmin, hs, ConnState.closing, decide_true, Bool.not_false,
      Bool.and_self, if_true, hn]
    split
    · rw [http_process_loop_none rfl]
      exact ⟨_, rfl, rfl, rfl⟩
    · exact ⟨_, rfl, rfl, rfl⟩
  · have hmin : min 2 (bytes_needed ⟨s, c, [], []⟩) = 2 := by omega
    have hne : ¬ 2 = bytes_needed ⟨s, c, [], []⟩ := by omega
    have hnil : (bytes "ok").drop 2 = [] := by decide
    have hall : (bytes "ok").drop (bytes_needed ⟨s, c, [], []⟩) = [] :=
      List.drop_eq_nil_of_le (by omega)
    simp only [hlen, hneeded, hmin, hne, hn, hnil, decide_false, Bool.false_and,
      Bool.false_eq_true, if_false, ne_eq, not_true_eq_false, false_and]
    exact ⟨_, rfl, hall.symm, hs⟩

/-- The two bytes of the body come in the next read. -/
theorem read_ok_body {s : Conn} {c : Call} (log : List Event) (hs : s.state = .S_REPLY_DATA)
    (hl : s.content_length = 2) (hq : s.recvq = [c]) :
    (∃ s' log', do_recvs quiet [.data (bytes "ok")] s log = .ok (s', log') ∧
      s'.state = .S_REPLY_STATUS) ↔ c.reply.content_bytes = 0 := by
  have hone : do_recvs quiet [.data (bytes "ok")] s log =
      do_recv_loop quiet s (bytes "ok") log := by
    simp only [do_recvs, do_recv, hq, reduceCtorEq, if_false]
    cases do_recv_loop quiet s (bytes "ok") log <;> rfl
  have hneeded : bytes_needed ⟨s, c, [], []⟩ = 2 ↔ c.reply.content_bytes = 0 := by
    unfold bytes_needed
    rw [hl, UInt64.toNat_sub, ← UInt64.toNat_inj]
    have hlt := c.reply.content_bytes.toNat_lt
    change (2 ^ 64 - c.reply.content_bytes.toNat + 2) % 2 ^ 64 = 2 ↔
      c.reply.content_bytes.toNat = 0
    omega
  obtain ⟨r, hr, hbuf, hstate⟩ := process_ok_body (c := c) log hs
  rw [hone, do_recv_loop_cons _ _ hq, hr, ← hneeded]
  dsimp only
  generalize bytes_needed ⟨s, c, [], []⟩ = n at hbuf hstate ⊢
  by_cases hn : n ≤ 2
  · rw [if_pos hn] at hstate
    have hopen : ¬ (recv_done quiet [] r).s.state.closing = true := by
      simp [recv_done, event_signal, quiet, hstate, ConnState.closing]
    rw [if_pos hstate, if_neg hopen]
    split
    · -- both bytes belong to the body
      rename_i hnil
      rw [hbuf, List.drop_eq_nil_iff] at hnil
      have h2 : n = 2 := Nat.le_antisymm hn hnil
      simp [h2]
    · rename_i hrest
      have hempty : ({ (recv_done quiet [] r).s with state := .S_REPLY_STATUS } : Conn).recvq =
          [] := by
        simp [recv_done, event_signal, quiet]
      rw [do_recv_loop_nil _ _ hempty]
      constructor
      · rintro ⟨_, _, h, _⟩
        cases h
      · rintro rfl
        exact absurd hbuf hrest
  · rw [if_neg hn] at hstate
    have hnil : r.buf = [] := hbuf.trans (List.drop_eq_nil_of_le (by
      have : (bytes "ok").length = 2 := by decide
      omega))
    have hstore : (r.store []).state = .S_REPLY_DATA := by
      unfold Rx.store
      split <;> exact hstate
    rw [if_neg (by simp [hstate]), if_pos hnil]
    constructor
    · rintro ⟨s', log', heq, hs'⟩
      rw [Except.ok.injEq, Prod.mk.injEq] at heq
      rw [← heq.1, hstore] at hs'
      cases hs'
    · intro h2
      omega

theorem not_framed_as_fresh {c : Call} (hc : c.reply.content_bytes ≠ 0) (hh : c.isHead = false) :
    ¬ FramedAsFresh c := by
  intro hframed
  have hrun := hframed quiet oneCall [] [.data okHeader, .data (bytes "ok")] []
    ⟨fun _ => rfl, fun _ => rfl⟩ rfl rfl
  have hboth : ∀ c : Call, c.isHead = false →
      ((∃ s' log', do_recvs quiet [.data okHeader, .data (bytes "ok")]
          { oneCall with recvq := [c] } [] = .ok (s', log') ∧ s'.state = .S_REPLY_STATUS) ↔
        c.reply.content_bytes = 0) := by
    intro c hh
    obtain ⟨s1, log1, c1, hrecvs, hs, hl, hq, hcount⟩ := read_ok_header hh
    have happ := do_recvs_append [.data (bytes "ok")] hrecvs
    rw [List.singleton_append] at happ
    rw [happ, ← hcount]
    exact read_ok_body log1 hs hl hq
  obtain ⟨s', log', hfresh, hs'⟩ := (hboth { c with reply := Reply.zero } hh).mpr rfl
  rw [hfresh] at hrun
  -- the run of the call that is issued again would end the same way
  refine hc ((hboth c hh).mp ?_)
  generalize do_recvs quiet [.data okHeader, .data (bytes "ok")] { oneCall with recvq := [c] } [] =
    x at hrun ⊢
  rcases x with e | ⟨s, log⟩
  · cases hrun
  · refine ⟨s, log, rfl, ?_⟩
    have := congrArg (fun x : Except Abort (Conn × List Event) => x.map fun p => p.1.state) hrun
    simpa [Except.map, framing, hs'] using this

/-- A call that is handed to `core_send` again is framed as a fresh one exactly when nothing
of a body was received for it before, or its method is `HEAD`. -/
theorem reissued_call_is_framed_as_fresh_iff {p : SendParam} {fqdname : List Byte} {c0 c : Call}
    (h : core_send p fqdname c0 = some c) :
    FramedAsFresh c ↔ c0.reply.content_bytes = 0 ∨ c0.isHead = true := by
  have hreply : c.reply = c0.reply := by
    unfold core_send at h
    obtain ⟨line, _, rfl⟩ := Option.map_eq_some_iff.mp h
    rfl
  have hhead : c.isHead = c0.isHead := by
    unfold core_send at h
    obtain ⟨line, _, rfl⟩ := Option.map_eq_some_iff.mp h
    unfold Call.isHead issued
    simp only
    rw [Vector.getElem_set_ne _ _ (by decide), Vector.getElem_set_ne _ _ (by decide)]
  rw [← hreply, ← hhead]
  constructor
  · intro hframed
    by_contra hno
    rw [not_or, Bool.not_eq_true] at hno
    exact not_framed_as_fresh hno.1 hno.2 hframed
  · exact framed_as_fresh

/-- A call whose first attempt gave the reply counters `reply`. -/
def tried (reply : Reply) : Call := { call_init 7 0x10001 with reply }

/-- The call when it is issued again. -/
def retried (reply : Reply) : Call :=
  (core_send ⟨false, bytes "0.9"⟩ (bytes "h") (tried reply)).getD (tried reply)

/-- The first attempt was refused with status 503, without a body. -/
theorem reissued_call_is_framed_as_fresh_iff_refused :
    FramedAsFresh (retried ⟨503, 0x10001, 40, 0, 0⟩) := by
  have hsend : core_send ⟨false, bytes "0.9"⟩ (bytes "h") (tried ⟨503, 0x10001, 40, 0, 0⟩) =
      some (retried ⟨503, 0x10001, 40, 0, 0⟩) := by decide +kernel
  exact (reissued_call_is_framed_as_fresh_iff hsend).mpr (Or.inl rfl)

/-- The first attempt broke off after one byte of the body. -/
theorem a_broken_body_is_not_framed_as_fresh :
    core_send ⟨false, bytes "0.9"⟩ (bytes "h") (tried ⟨200, 0x10001, 38, 1, 0⟩) =
        some (retried ⟨200, 0x10001, 38, 1, 0⟩) ∧
      ¬ FramedAsFresh (retried ⟨200, 0x10001, 38, 1, 0⟩) := by
  refine ⟨by decide +kernel, not_framed_as_fresh ?_ ?_⟩ <;> decide +kernel

end Httperf
