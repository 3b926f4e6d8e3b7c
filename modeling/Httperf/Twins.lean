-- Two runs of the receive path that differ in the reply counters of the call that is read.
-- Each function of the parser keeps such a pair of states, as long as the content counts
-- agree. A `HEAD` call needs no such condition: its content count is never read.
import Httperf.RecvDecodes

namespace Httperf

/-! ## Counters -/

/-- A reply without its byte counts. -/
def Reply.uncounted (r : Reply) : Reply :=
  { r with header_bytes := 0, content_bytes := 0, footer_bytes := 0 }

def Event.uncounted : Event → Event
  | .EV_CALL_RECV_STOP id reply => .EV_CALL_RECV_STOP id reply.uncounted
  | e => e

/-- The handlers take no decision from a byte count, and neither does the garbage on the
stack depend on one. -/
structure Handlers.Blind (h : Handlers) : Prop where
  closes : ∀ {log log' : List Event}, log'.map Event.uncounted = log.map Event.uncounted →
    h.closes log' = h.closes log
  uninit : ∀ {log log' : List Event}, log'.map Event.uncounted = log.map Event.uncounted →
    h.uninit log' = h.uninit log

/-- The status line of the reply has been read. -/
def ConnState.started (st : ConnState) : Bool := st ≠ .S_REPLY_STATUS && !st.closing

/-- Two calls that the parser cannot tell apart in the state `st`: the content count of a
`HEAD` call is never read. -/
structure Call.Like (st : ConnState) (c c' : Call) : Prop where
  id : c'.id = c.id
  req : c'.req = c.req
  status : st.started = true →
    c'.reply.status = c.reply.status ∧ c'.reply.version = c.reply.version
  content : c.isHead = false → c'.reply.content_bytes = c.reply.content_bytes

theorem Call.Like.isHead {st : ConnState} {c c' : Call} (h : Call.Like st c c') :
    c'.isHead = c.isHead := by
  unfold Call.isHead
  rw [h.req]

/-- Two states of the parser that differ in the counters only. -/
structure Rx.Twin (r r' : Rx) : Prop where
  conn : r'.s = { r.s with recvq := r'.s.recvq }
  queued : r'.s.recvq = [] ↔ r.s.recvq = []
  call : Call.Like r.s.state r.c r'.c
  buf : r'.buf = r.buf
  log : r'.log.map Event.uncounted = r.log.map Event.uncounted

theorem Rx.Twin.state {r r' : Rx} (ht : r.Twin r') : r'.s.state = r.s.state := by
  rw [ht.conn]

/-- A change of the connection that does not look at the queue. -/
theorem Rx.Twin.on_conn {r r' : Rx} (ht : r.Twin r') (f : Conn → Conn)
    (hf : ∀ s q, f { s with recvq := q } = { f s with recvq := q })
    (hst : (f r.s).state.started = true →
      r'.c.reply.status = r.c.reply.status ∧ r'.c.reply.version = r.c.reply.version) :
    Rx.Twin { r with s := f r.s } { r' with s := f r'.s } := by
  have hq : ∀ s : Conn, (f s).recvq = s.recvq := by
    intro s
    conv_lhs => rw [show s = { s with recvq := s.recvq } from rfl, hf]
  refine ⟨?_, ?_, ?_, ht.buf, ht.log⟩
  · change f r'.s = { f r.s with recvq := (f r'.s).recvq }
    rw [hq, ← hf, ← ht.conn]
  · simp only [hq]
    exact ht.queued
  · exact ⟨ht.call.id, ht.call.req, hst, ht.call.content⟩

theorem Rx.Twin.on_call {r r' : Rx} (ht : r.Twin r') {c c' : Call}
    (hc : Call.Like r.s.state c c') : Rx.Twin { r with c := c } { r' with c := c' } :=
  ⟨ht.conn, ht.queued, hc, ht.buf, ht.log⟩

theorem Conn.close_recvq (s : Conn) (q : List Call) :
    ({ s with recvq := q } : Conn).close =
      { s.close with recvq := if s.state.closing then q else [] } := by
  unfold Conn.close
  split <;> rfl

theorem Rx.Twin.signal {h : Handlers} (hb : h.Blind) {r r' : Rx} (ht : r.Twin r') {e f : Event}
    (he : f.uncounted = e.uncounted) : (event_signal h e r).Twin (event_signal h f r') := by
  have hlog : (r'.log ++ [f]).map Event.uncounted = (r.log ++ [e]).map Event.uncounted := by
    rw [List.map_append, List.map_append, ht.log, List.map_singleton, List.map_singleton, he]
  unfold event_signal
  dsimp only
  rw [hb.closes hlog]
  split
  · -- a closed connection has an empty queue on both sides, or was closed before
    refine ⟨?_, ?_, ?_, ht.buf, hlog⟩
    · rw [ht.conn, Conn.close_recvq]
    · rw [ht.conn, Conn.close_recvq]
      unfold Conn.close
      split
      · exact ht.queued
      · simp
    · refine ⟨ht.call.id, ht.call.req, ?_, ht.call.content⟩
      intro hs
      unfold Conn.close at hs
      split at hs
      · exact ht.call.status hs
      · cases hs
  · exact ⟨ht.conn, ht.queued, ht.call, ht.buf, hlog⟩

/-! ## The functions of the parser -/

theorem twin_get_line {r r' : Rx} (ht : r.Twin r') :
    (get_line r').1 = (get_line r).1 ∧ (get_line r).2.Twin (get_line r').2 := by
  obtain ⟨s', c', buf', log'⟩ := r'
  obtain ⟨hconn, hqueued, hcall, hbuf, hlog⟩ := ht
  dsimp only at hconn hqueued hcall hbuf hlog
  subst hbuf
  have hline : s'.line = r.s.line := by rw [hconn]
  unfold get_line
  dsimp only
  rw [hline]
  split
  · exact ⟨rfl, hconn, hqueued, hcall, rfl, hlog⟩
  · split
    · refine ⟨rfl, ?_, hqueued, hcall, rfl, hlog⟩
      dsimp only
      rw [hconn]
    · refine ⟨rfl, ?_, hqueued, hcall, rfl, hlog⟩
      dsimp only
      rw [hconn]

theorem twin_status_values {h : Handlers} (hb : h.Blind) {r r' : Rx} (ht : r.Twin r') :
    (status_values h r').2 = (status_values h r).2 ∧
      (status_values h r').1.status = (status_values h r).1.status ∧
      (status_values h r').1.version = (status_values h r).1.version ∧
      (status_values h r').1.content_bytes = r'.c.reply.content_bytes ∧
      (status_values h r).1.content_bytes = r.c.reply.content_bytes := by
  have hline : r'.s.line = r.s.line := by rw [ht.conn]
  unfold status_values
  rw [hline]
  split
  · exact ⟨rfl, rfl, rfl, rfl, rfl⟩
  · exact ⟨hb.uninit ht.log, rfl, rfl, rfl, rfl⟩

theorem twin_status_line_read {h : Handlers} (hb : h.Blind) {r r' : Rx} (ht : r.Twin r')
    (start : Nat) : (status_line_read h start r).Twin (status_line_read h start r') := by
  obtain ⟨hvalue, hstatus, hversion, hcontent', hcontent⟩ := twin_status_values hb ht
  have hhead := ht.call.isHead
  unfold status_line_read
  dsimp only
  rw [hvalue, hhead]
  generalize (status_values h r).2 = status
  -- both calls have the new status and version
  have hlike : ∀ st, Call.Like st { r.c with reply := (status_values h r).1 }
      { r'.c with reply := (status_values h r').1 } := by
    intro st
    refine ⟨ht.call.id, ht.call.req, fun _ => ⟨hstatus, hversion⟩, ?_⟩
    intro hh
    change (status_values h r').1.content_bytes = (status_values h r).1.content_bytes
    rw [hcontent', hcontent]
    exact ht.call.content hh
  have h1 := (ht.on_call (hlike r.s.state)).on_conn
    (fun s => { s with has_body := has_body_of r.c.isHead status }) (fun _ _ => rfl)
    (fun _ => ⟨hstatus, hversion⟩)
  have h2 := h1.signal hb (e := .EV_CALL_RECV_START r.c.id (status_values h r).1.status)
    (f := .EV_CALL_RECV_START r'.c.id (status_values h r').1.status)
    (by rw [ht.call.id, hstatus])
  have hnext : ∀ st, Rx.Twin
      (status_done start { event_signal h
          (.EV_CALL_RECV_START r.c.id (status_values h r).1.status)
          { r with
            c.reply := (status_values h r).1
            s.has_body := has_body_of r.c.isHead status } with s.state := st })
      (status_done start { event_signal h
          (.EV_CALL_RECV_START r'.c.id (status_values h r').1.status)
          { r' with
            c.reply := (status_values h r').1
            s.has_body := has_body_of r.c.isHead status } with s.state := st }) := by
    intro st
    have h3 := h2.on_conn (fun s => { s with state := st, line := [] }) (fun _ _ => rfl)
      (fun _ => ⟨hstatus, hversion⟩)
    exact h3.on_call ⟨h3.call.id, h3.call.req, h3.call.status, h3.call.content⟩
  split
  · exact hnext _
  · rw [h2.state]
    split
    · exact h2
    · exact hnext _

theorem twin_parse_status_line {h : Handlers} (hb : h.Blind) {r r' : Rx} (ht : r.Twin r') :
    (parse_status_line h r).Twin (parse_status_line h r') := by
  have h0 := ht.on_conn (fun s => { s with is_chunked := false, content_length := SIZE_MAX })
    (fun _ _ => rfl) ht.call.status
  obtain ⟨hbool, hline⟩ := twin_get_line h0
  have hlen : r'.buf.length = r.buf.length := by rw [ht.buf]
  unfold parse_status_line
  dsimp only
  rw [hbool, hlen]
  split
  · exact hline
  · exact twin_status_line_read hb hline _

theorem Rx.Twin.line {r r' : Rx} (ht : r.Twin r') : r'.s.line = r.s.line := by
  rw [ht.conn]

theorem header_field_recvq (hdr : List Byte) (s : Conn) (q : List Call) :
    header_field { s with recvq := q } hdr = { header_field s hdr with recvq := q } := by
  unfold header_field
  dsimp only
  split_ifs <;> rfl

theorem headers_end_recvq (s : Conn) (q : List Call) :
    headers_end { s with recvq := q } = { headers_end s with recvq := q } := by
  unfold headers_end
  dsimp only
  split_ifs <;> rfl

/-- In the states of a reply that has begun the calls agree in status and version. -/
theorem Rx.Twin.begun {r r' : Rx} (ht : r.Twin r') (hs : r.s.state.started = true) :
    r'.c.reply.status = r.c.reply.status ∧ r'.c.reply.version = r.c.reply.version :=
  ht.call.status hs

/-- What a header line does, once it is complete. -/
def field_line (h : Handlers) (r : Rx) : Rx :=
  event_signal h (.EV_CALL_RECV_HDR r.c.id (header_field r.s (cstr r.s.line)).line)
    { r with s := header_field r.s (cstr r.s.line) }

theorem parse_headers_loop_eq (h : Handlers) (r : Rx) :
    parse_headers_loop h r =
      if (get_line r).1 = false then (true, (get_line r).2)
      else if (get_line r).2.s.line = [] then
        (true, { (get_line r).2 with s := headers_end (get_line r).2.s })
      else if (field_line h (get_line r).2).s.state.closing then
        (false, field_line h (get_line r).2)
      else parse_headers_loop h { field_line h (get_line r).2 with s.line := [] } := by
  rw [parse_headers_loop]
  rfl

theorem twin_field_line {h : Handlers} (hb : h.Blind) {r r' : Rx} (ht : r.Twin r')
    (hs : r.s.state.started = true) : (field_line h r).Twin (field_line h r') := by
  have hline := ht.line
  have hfield := ht.on_conn (fun s => header_field s (cstr r.s.line)) (header_field_recvq _)
    fun _ => ht.begun hs
  unfold field_line
  rw [hline]
  have hconn := congrArg Conn.line hfield.conn
  exact hfield.signal hb (by rw [ht.call.id]; dsimp only at hconn; rw [hconn])

theorem field_line_begun {h : Handlers} {r : Rx} (hs : r.s.state.started = true)
    (hc : ¬ (field_line h r).s.state.closing = true) :
    (field_line h r).s.state.started = true := by
  unfold field_line at *
  rw [event_signal_open hc, (header_field_s _ _).1]
  exact hs

theorem get_line_begun {r : Rx} (hs : r.s.state.started = true) :
    (get_line r).2.s.state.started = true := by
  rw [(get_line_s r).1]
  exact hs

theorem twin_parse_headers_loop {h : Handlers} (hb : h.Blind) (r : Rx) :
    ∀ r', r.Twin r' → r.s.state.started = true →
      (parse_headers_loop h r').1 = (parse_headers_loop h r).1 ∧
        (parse_headers_loop h r).2.Twin (parse_headers_loop h r').2 := by
  induction r using parse_headers_loop.induct h with
  | case1 r hf =>
    intro r' ht hs
    obtain ⟨hbool, hline⟩ := twin_get_line ht
    rw [parse_headers_loop_eq h r, parse_headers_loop_eq h r', if_pos hf,
      if_pos (hbool.trans hf)]
    exact ⟨rfl, hline⟩
  | case2 r r1 hf he =>
    intro r' ht hs
    obtain ⟨hbool, hline⟩ := twin_get_line ht
    have hf' : ¬ (get_line r').1 = false := by rwa [hbool]
    rw [parse_headers_loop_eq h r, parse_headers_loop_eq h r', if_neg hf, if_neg hf', if_pos he,
      if_pos (hline.line.trans he)]
    exact ⟨rfl, hline.on_conn headers_end headers_end_recvq fun _ =>
      hline.begun (get_line_begun hs)⟩
  | case3 r r1 hf he r2 r3 hc =>
    intro r' ht hs
    obtain ⟨hbool, hline⟩ := twin_get_line ht
    have hf' : ¬ (get_line r').1 = false := by rwa [hbool]
    have he' : ¬ (get_line r').2.s.line = [] := by rwa [hline.line]
    have hsig := twin_field_line hb hline (get_line_begun hs)
    have hc1 : (field_line h (get_line r).2).s.state.closing = true := hc
    rw [parse_headers_loop_eq h r, parse_headers_loop_eq h r', if_neg hf, if_neg hf', if_neg he,
      if_neg he', hsig.state, if_pos hc1, if_pos hc1]
    exact ⟨rfl, hsig⟩
  | case4 r r1 hf he r2 r3 hc ih =>
    intro r' ht hs
    obtain ⟨hbool, hline⟩ := twin_get_line ht
    have hf' : ¬ (get_line r').1 = false := by rwa [hbool]
    have he' : ¬ (get_line r').2.s.line = [] := by rwa [hline.line]
    have hsig := twin_field_line hb hline (get_line_begun hs)
    have hc1 : ¬ (field_line h (get_line r).2).s.state.closing = true := hc
    have hbegun := field_line_begun (get_line_begun hs) hc1
    rw [parse_headers_loop_eq h r, parse_headers_loop_eq h r', if_neg hf, if_neg hf', if_neg he,
      if_neg he', hsig.state, if_neg hc1, if_neg hc1]
    exact ih _ (hsig.on_conn (fun s => { s with line := [] }) (fun _ _ => rfl)
      fun _ => hsig.begun hbegun) hbegun

theorem twin_parse_headers {h : Handlers} (hb : h.Blind) {r r' : Rx} (ht : r.Twin r')
    (hs : r.s.state.started = true) : (parse_headers h r).Twin (parse_headers h r') := by
  obtain ⟨hbool, hloop⟩ := twin_parse_headers_loop hb r r' ht hs
  unfold parse_headers
  revert hbool hloop
  rcases parse_headers_loop h r with ⟨b, r1⟩
  rcases parse_headers_loop h r' with ⟨b', r1'⟩
  rintro (rfl : b' = b) (hloop : r1.Twin r1')
  cases b'
  · exact hloop
  · have hcall := hloop.call
    exact hloop.on_call ⟨hcall.id, hcall.req, hcall.status, hcall.content⟩

/-- What a footer line does, once it is complete. -/
def footer_line (h : Handlers) (r : Rx) : Rx :=
  event_signal h (.EV_CALL_RECV_FOOTER r.c.id r.s.line) r

theorem parse_footers_loop_eq (h : Handlers) (r : Rx) :
    parse_footers_loop h r =
      if (get_line r).1 = false then (true, (get_line r).2)
      else if (get_line r).2.s.line = [] then
        (true, { (get_line r).2 with s.state := .S_REPLY_DONE })
      else if (footer_line h (get_line r).2).s.state.closing then
        (false, footer_line h (get_line r).2)
      else parse_footers_loop h { footer_line h (get_line r).2 with s.line := [] } := by
  rw [parse_footers_loop]
  rfl

theorem twin_footer_line {h : Handlers} (hb : h.Blind) {r r' : Rx} (ht : r.Twin r') :
    (footer_line h r).Twin (footer_line h r') :=
  ht.signal hb (by rw [ht.call.id, ht.line])

theorem twin_parse_footers_loop {h : Handlers} (hb : h.Blind) (r : Rx) :
    ∀ r', r.Twin r' → r.s.state.started = true →
      (parse_footers_loop h r').1 = (parse_footers_loop h r).1 ∧
        (parse_footers_loop h r).2.Twin (parse_footers_loop h r').2 := by
  induction r using parse_footers_loop.induct h with
  | case1 r hf =>
    intro r' ht hs
    obtain ⟨hbool, hline⟩ := twin_get_line ht
    rw [parse_footers_loop_eq h r, parse_footers_loop_eq h r', if_pos hf,
      if_pos (hbool.trans hf)]
    exact ⟨rfl, hline⟩
  | case2 r r1 hf he =>
    intro r' ht hs
    obtain ⟨hbool, hline⟩ := twin_get_line ht
    have hf' : ¬ (get_line r').1 = false := by rwa [hbool]
    rw [parse_footers_loop_eq h r, parse_footers_loop_eq h r', if_neg hf, if_neg hf', if_pos he,
      if_pos (hline.line.trans he)]
    exact ⟨rfl, hline.on_conn (fun s => { s with state := .S_REPLY_DONE }) (fun _ _ => rfl)
      fun _ => hline.begun (get_line_begun hs)⟩
  | case3 r r1 hf he r2 hc =>
    intro r' ht hs
    obtain ⟨hbool, hline⟩ := twin_get_line ht
    have hf' : ¬ (get_line r').1 = false := by rwa [hbool]
    have he' : ¬ (get_line r').2.s.line = [] := by rwa [hline.line]
    have hsig := twin_footer_line hb hline
    have hc1 : (footer_line h (get_line r).2).s.state.closing = true := hc
    rw [parse_footers_loop_eq h r, parse_footers_loop_eq h r', if_neg hf, if_neg hf', if_neg he,
      if_neg he', hsig.state, if_pos hc1, if_pos hc1]
    exact ⟨rfl, hsig⟩
  | case4 r r1 hf he r2 hc ih =>
    intro r' ht hs
    obtain ⟨hbool, hline⟩ := twin_get_line ht
    have hf' : ¬ (get_line r').1 = false := by rwa [hbool]
    have he' : ¬ (get_line r').2.s.line = [] := by rwa [hline.line]
    have hsig := twin_footer_line hb hline
    have hc1 : ¬ (footer_line h (get_line r).2).s.state.closing = true := hc
    have hbegun : (footer_line h (get_line r).2).s.state.started = true := by
      rw [footer_line, event_signal_open hc1]
      exact get_line_begun hs
    rw [parse_footers_loop_eq h r, parse_footers_loop_eq h r', if_neg hf, if_neg hf', if_neg he,
      if_neg he', hsig.state, if_neg hc1, if_neg hc1]
    exact ih _ (hsig.on_conn (fun s => { s with line := [] }) (fun _ _ => rfl)
      fun _ => hsig.begun hbegun) hbegun

theorem twin_parse_footers {h : Handlers} (hb : h.Blind) {r r' : Rx} (ht : r.Twin r')
    (hs : r.s.state.started = true) : (parse_footers h r).Twin (parse_footers h r') := by
  obtain ⟨hbool, hloop⟩ := twin_parse_footers_loop hb r r' ht hs
  unfold parse_footers
  revert hbool hloop
  rcases parse_footers_loop h r with ⟨b, r1⟩
  rcases parse_footers_loop h r' with ⟨b', r1'⟩
  rintro (rfl : b' = b) (hloop : r1.Twin r1')
  cases b'
  · exact hloop
  · have hcall := hloop.call
    exact hloop.on_call ⟨hcall.id, hcall.req, hcall.status, hcall.content⟩

theorem Rx.Twin.needed {r r' : Rx} (ht : r.Twin r') (hh : r.c.isHead = false) :
    bytes_needed r' = bytes_needed r := by
  unfold bytes_needed
  rw [ht.conn, ht.call.content hh]

theorem twin_parse_data {h : Handlers} (hb : h.Blind) {r r' : Rx} (ht : r.Twin r')
    (hh : r.c.isHead = false) :
    (parse_data h r').1 = (parse_data h r).1 ∧ (parse_data h r).2.Twin (parse_data h r').2 := by
  have hneeded := ht.needed hh
  have hsig := ht.signal hb
    (e := .EV_CALL_RECV_DATA r.c.id (r.buf.take (min r.buf.length (bytes_needed r))))
    (f := .EV_CALL_RECV_DATA r'.c.id (r'.buf.take (min r'.buf.length (bytes_needed r'))))
    (by rw [ht.call.id, ht.buf, hneeded])
  unfold parse_data
  dsimp only
  rw [hneeded, ht.buf] at hsig ⊢
  refine ⟨rfl, hsig.conn, hsig.queued, ?_, rfl, hsig.log⟩
  have hcall := hsig.call
  refine ⟨hcall.id, hcall.req, hcall.status, ?_⟩
  intro hh'
  dsimp only
  rw [hcall.content hh']

/-- The chunk lines, and what each of them does. -/
theorem xfer_chunked_eq (h : Handlers) (r : Rx) :
    xfer_chunked h r =
      if r.buf = [] ∨ r.s.state.closing then r
      else if r.s.content_length ≤ r.c.reply.content_bytes then
        if (get_line r).1 = false then (get_line r).2
        else if (get_line r).2.s.line = [] then xfer_chunked h (get_line r).2
        else if (strtoul (cstr (get_line r).2.s.line) 16).erange ||
            !(strtoul (cstr (get_line r).2.s.line) 16).converted then
          xfer_chunked h { (get_line r).2 with s.line := [] }
        else if (strtoul (cstr (get_line r).2.s.line) 16).val = 0 then
          { (get_line r).2 with s.line := [], s.state := .S_REPLY_FOOTER }
        else xfer_chunked h (parse_data h { (get_line r).2 with
          s.line := []
          s.content_length := (get_line r).2.s.content_length +
            UInt64.ofNat (strtoul (cstr (get_line r).2.s.line) 16).val }).2
      else xfer_chunked h (parse_data h r).2 := by
  rw [xfer_chunked]

/-- A complete chunk line. -/
theorem xfer_chunked_line {h : Handlers} {r : Rx} (hc : ¬ (r.buf = [] ∨ r.s.state.closing))
    (hl : r.s.content_length ≤ r.c.reply.content_bytes) (hf : ¬ (get_line r).1 = false) :
    xfer_chunked h r =
      if (get_line r).2.s.line = [] then xfer_chunked h (get_line r).2
      else if (strtoul (cstr (get_line r).2.s.line) 16).erange ||
          !(strtoul (cstr (get_line r).2.s.line) 16).converted then
        xfer_chunked h { (get_line r).2 with s.line := [] }
      else if (strtoul (cstr (get_line r).2.s.line) 16).val = 0 then
        { (get_line r).2 with s.line := [], s.state := .S_REPLY_FOOTER }
      else xfer_chunked h (parse_data h { (get_line r).2 with
        s.line := []
        s.content_length := (get_line r).2.s.content_length +
          UInt64.ofNat (strtoul (cstr (get_line r).2.s.line) 16).val }).2 := by
  rw [xfer_chunked_eq, if_neg hc, if_pos hl, if_neg hf]

theorem Rx.Twin.stops {r r' : Rx} (ht : r.Twin r') :
    (r'.buf = [] ∨ r'.s.state.closing = true) ↔ (r.buf = [] ∨ r.s.state.closing = true) := by
  rw [ht.buf, ht.state]

theorem Rx.Twin.reads_line {r r' : Rx} (ht : r.Twin r') (hh : r.c.isHead = false) :
    r'.s.content_length ≤ r'.c.reply.content_bytes ↔
    r.s.content_length ≤ r.c.reply.content_bytes := by
  rw [ht.conn, ht.call.content hh]

theorem parse_data_state {h : Handlers} {r : Rx} (hs : r.s.state ≠ .S_REPLY_STATUS) :
    (parse_data h r).2.s.state ≠ .S_REPLY_STATUS := by
  unfold parse_data event_signal Conn.close
  dsimp only
  split
  · split
    · exact hs
    · simp
  · exact hs

theorem twin_xfer_chunked {h : Handlers} (hb : h.Blind) (r : Rx) :
    ∀ r', r.Twin r' → r.c.isHead = false → r.s.state ≠ .S_REPLY_STATUS →
      (xfer_chunked h r).Twin (xfer_chunked h r') := by
  induction r using xfer_chunked.induct h with
  | case1 r hc =>
    intro r' ht hh hs
    rw [xfer_chunked_eq h r, xfer_chunked_eq h r', if_pos hc, if_pos (ht.stops.mpr hc)]
    exact ht
  | case2 r hc hl hf =>
    intro r' ht hh hs
    obtain ⟨hbool, hline⟩ := twin_get_line ht
    rw [xfer_chunked_eq h r, xfer_chunked_eq h r', if_neg hc, if_neg (mt ht.stops.mp hc),
      if_pos hl, if_pos ((ht.reads_line hh).mpr hl), if_pos hf, if_pos (hbool.trans hf)]
    exact hline
  | case3 r hc hl r1 hf he ih =>
    intro r' ht hh hs
    obtain ⟨hbool, hline⟩ := twin_get_line ht
    have hf' : ¬ (get_line r').1 = false := by rwa [hbool]
    have he1 : (get_line r).2.s.line = [] := he
    rw [xfer_chunked_line hc hl hf,
      xfer_chunked_line (mt ht.stops.mp hc) ((ht.reads_line hh).mpr hl) hf', if_pos he1,
      if_pos (hline.line.trans he1)]
    exact ih _ hline (by rw [(get_line_s r).2.2.1]; exact hh) (by rw [(get_line_s r).1]; exact hs)
  | case4 r hc hl r1 hf he n r2 hn ih =>
    intro r' ht hh hs
    obtain ⟨hbool, hline⟩ := twin_get_line ht
    have hf' : ¬ (get_line r').1 = false := by rwa [hbool]
    have he1 : ¬ (get_line r).2.s.line = [] := he
    rw [xfer_chunked_line hc hl hf,
      xfer_chunked_line (mt ht.stops.mp hc) ((ht.reads_line hh).mpr hl) hf', hline.line, if_neg he1,
      if_neg he1, if_pos hn, if_pos hn]
    have hs1 : (get_line r).2.s.state ≠ .S_REPLY_STATUS := by rw [(get_line_s r).1]; exact hs
    refine ih _ (hline.on_conn (fun s => { s with line := [] }) (fun _ _ => rfl)
      hline.call.status) ?_ hs1
    exact (congrArg Call.isHead (get_line_s r).2.2.1).trans hh
  | case5 r hc hl r1 hf he n hn hz =>
    intro r' ht hh hs
    obtain ⟨hbool, hline⟩ := twin_get_line ht
    have hf' : ¬ (get_line r').1 = false := by rwa [hbool]
    have he1 : ¬ (get_line r).2.s.line = [] := he
    rw [xfer_chunked_line hc hl hf,
      xfer_chunked_line (mt ht.stops.mp hc) ((ht.reads_line hh).mpr hl) hf', hline.line, if_neg he1,
      if_neg he1, if_neg hn, if_neg hn, if_pos hz, if_pos hz]
    refine hline.on_conn (fun s => { s with line := [], state := .S_REPLY_FOOTER })
      (fun _ _ => rfl) fun _ => hline.begun (get_line_begun ?_)
    simp only [not_or] at hc
    simp [ConnState.started, hs, hc.2]
  | case6 r hc hl r1 hf he n r2 hn hz r3 ih =>
    intro r' ht hh hs
    obtain ⟨hbool, hline⟩ := twin_get_line ht
    have hf' : ¬ (get_line r').1 = false := by rwa [hbool]
    have he1 : ¬ (get_line r).2.s.line = [] := he
    rw [xfer_chunked_line hc hl hf,
      xfer_chunked_line (mt ht.stops.mp hc) ((ht.reads_line hh).mpr hl) hf', hline.line, if_neg he1,
      if_neg he1, if_neg hn, if_neg hn, if_neg hz, if_neg hz]
    have hs1 : (get_line r).2.s.state ≠ .S_REPLY_STATUS := by rw [(get_line_s r).1]; exact hs
    have hh1 : (get_line r).2.c.isHead = false :=
      (congrArg Call.isHead (get_line_s r).2.2.1).trans hh
    have hsize := hline.on_conn (fun s => { s with
      line := []
      content_length := s.content_length +
        UInt64.ofNat (strtoul (cstr (get_line r).2.s.line) 16).val }) (fun _ _ => rfl)
      hline.call.status
    exact ih _ (twin_parse_data hb hsize hh1).2 hh1 (parse_data_state hs1)
  | case7 r hc hl ih =>
    intro r' ht hh hs
    rw [xfer_chunked_eq h r, xfer_chunked_eq h r', if_neg hc, if_neg (mt ht.stops.mp hc),
      if_neg hl, if_neg (mt (ht.reads_line hh).mp hl)]
    exact ih _ (twin_parse_data hb ht hh).2 hh (parse_data_state hs)

/-! ## One reply -/

theorem parse_headers_loop_c (h : Handlers) (r : Rx) : (parse_headers_loop h r).2.c = r.c := by
  have hline : ∀ r : Rx, (get_line r).2.c = r.c := fun r => (get_line_s r).2.2.1
  induction r using parse_headers_loop.induct h with
  | case1 r hf => rw [parse_headers_loop_eq, if_pos hf, hline]
  | case2 r r1 hf he => rw [parse_headers_loop_eq, if_neg hf, if_pos he, hline]
  | case3 r r1 hf he r2 r3 hc =>
    have hc1 : (field_line h (get_line r).2).s.state.closing = true := hc
    rw [parse_headers_loop_eq, if_neg hf, if_neg he, if_pos hc1]
    exact hline r
  | case4 r r1 hf he r2 r3 hc ih =>
    have hc1 : ¬ (field_line h (get_line r).2).s.state.closing = true := hc
    rw [parse_headers_loop_eq, if_neg hf, if_neg he, if_neg hc1]
    exact ih.trans (hline r)

theorem parse_footers_loop_c (h : Handlers) (r : Rx) : (parse_footers_loop h r).2.c = r.c := by
  have hline : ∀ r : Rx, (get_line r).2.c = r.c := fun r => (get_line_s r).2.2.1
  induction r using parse_footers_loop.induct h with
  | case1 r hf => rw [parse_footers_loop_eq, if_pos hf, hline]
  | case2 r r1 hf he => rw [parse_footers_loop_eq, if_neg hf, if_pos he, hline]
  | case3 r r1 hf he r2 hc =>
    have hc1 : (footer_line h (get_line r).2).s.state.closing = true := hc
    rw [parse_footers_loop_eq, if_neg hf, if_neg he, if_pos hc1]
    exact hline r
  | case4 r r1 hf he r2 hc ih =>
    have hc1 : ¬ (footer_line h (get_line r).2).s.state.closing = true := hc
    rw [parse_footers_loop_eq, if_neg hf, if_neg he, if_neg hc1]
    exact ih.trans (hline r)

/-- The parser never touches the request. -/
theorem http_switch_req {h : Handlers} {r r' : Rx} (hr : http_switch h r = .ok (some r')) :
    r'.c.req = r.c.req := by
  have hline : ∀ r : Rx, (get_line r).2.c.req = r.c.req := fun r => by rw [(get_line_s r).2.2.1]
  have hchunked : ∀ r : Rx, (xfer_chunked h r).c.req = r.c.req := by
    intro r
    induction r using xfer_chunked.induct h with
    | case1 r hc => rw [xfer_chunked_eq, if_pos hc]
    | case2 r hc hl hf => rw [xfer_chunked_eq, if_neg hc, if_pos hl, if_pos hf, hline]
    | case3 r hc hl r1 hf he ih =>
      rw [xfer_chunked_eq, if_neg hc, if_pos hl, if_neg hf, if_pos he]
      exact ih.trans (hline r)
    | case4 r hc hl r1 hf he n r2 hn ih =>
      rw [xfer_chunked_eq, if_neg hc, if_pos hl, if_neg hf, if_neg he, if_pos hn]
      exact ih.trans (hline r)
    | case5 r hc hl r1 hf he n hn hz =>
      rw [xfer_chunked_eq, if_neg hc, if_pos hl, if_neg hf, if_neg he, if_neg hn, if_pos hz]
      exact hline r
    | case6 r hc hl r1 hf he n r2 hn hz r3 ih =>
      rw [xfer_chunked_eq, if_neg hc, if_pos hl, if_neg hf, if_neg he, if_neg hn, if_neg hz]
      exact ih.trans (hline r)
    | case7 r hc hl ih =>
      rw [xfer_chunked_eq, if_neg hc, if_neg hl]
      exact ih
  have hheaders : (parse_headers h r).c.req = r.c.req := by
    have hloop := parse_headers_loop_c h r
    unfold parse_headers
    split <;> rename_i heq <;> rw [heq] at hloop <;> rw [← hloop]
  have hfooters : (parse_footers h r).c.req = r.c.req := by
    have hloop := parse_footers_loop_c h r
    unfold parse_footers
    split <;> rename_i heq <;> rw [heq] at hloop <;> rw [← hloop]
  cases hst : r.s.state <;> simp only [http_switch, hst, Except.ok.injEq, Option.some.injEq,
    reduceCtorEq] at hr
  case S_REPLY_STATUS =>
    subst hr
    have hread : ∀ start (r : Rx), (status_line_read h start r).c.req = r.c.req := by
      intro start r
      unfold status_line_read status_done
      dsimp only
      split
      · rfl
      · split <;> rfl
    unfold parse_status_line
    dsimp only
    split
    · exact hline _
    · rw [hread]
      exact hline _
  case S_REPLY_HEADER => subst hr; exact hheaders
  case S_REPLY_CONTINUE => subst hr; exact hheaders
  case S_REPLY_FOOTER => subst hr; exact hfooters
  case S_REPLY_CHUNKED => subst hr; exact hchunked r
  case S_REPLY_DATA => subst hr; split <;> rfl

/-- A call with the method `HEAD` never gets to the body. -/
def Rx.Headless (r : Rx) : Prop :=
  r.c.isHead = true → r.s.state.closing = true ∨ r.s.state = .S_REPLY_STATUS ∨
    r.s.state = .S_REPLY_DONE ∨ (r.s.state = .S_REPLY_HEADER ∧ r.s.has_body = false)

theorem header_field_has_body {s : Conn} (hdr : List Byte) (hb : s.has_body = false) :
    (header_field s hdr).has_body = false := by
  unfold header_field
  dsimp only
  split_ifs <;> first | exact hb | rfl

theorem headers_end_bodyless {s : Conn} (hb : s.has_body = false) (hs : s.state = .S_REPLY_HEADER) :
    headers_end s = { s with state := .S_REPLY_DONE } := by
  simp [headers_end, hb, hs]

theorem headless_parse_headers_loop {h : Handlers} (r : Rx) (hb : r.s.has_body = false)
    (hs : r.s.state = .S_REPLY_HEADER) :
    (parse_headers_loop h r).2.s.state.closing = true ∨
      (parse_headers_loop h r).2.s.state = .S_REPLY_DONE ∨
      ((parse_headers_loop h r).2.s.state = .S_REPLY_HEADER ∧
        (parse_headers_loop h r).2.s.has_body = false) := by
  induction r using parse_headers_loop.induct h with
  | case1 r hf =>
    rw [parse_headers_loop_eq, if_pos hf, get_line_has_body, (get_line_s r).1]
    exact Or.inr (Or.inr ⟨hs, hb⟩)
  | case2 r r1 hf he =>
    rw [parse_headers_loop_eq, if_neg hf, if_pos he]
    have hbody := (get_line_has_body r).trans hb
    dsimp only
    rw [headers_end_bodyless hbody ((get_line_s r).1.trans hs)]
    exact Or.inr (Or.inl rfl)
  | case3 r r1 hf he r2 r3 hc =>
    have hc1 : (field_line h (get_line r).2).s.state.closing = true := hc
    rw [parse_headers_loop_eq, if_neg hf, if_neg he, if_pos hc1]
    exact Or.inl hc1
  | case4 r r1 hf he r2 r3 hc ih =>
    have hc1 : ¬ (field_line h (get_line r).2).s.state.closing = true := hc
    have hopen := event_signal_open hc1
    rw [parse_headers_loop_eq, if_neg hf, if_neg he, if_neg hc1]
    refine ih ?_ ?_
    · change (field_line h (get_line r).2).s.has_body = false
      unfold field_line
      rw [hopen]
      exact header_field_has_body _ ((get_line_has_body r).trans hb)
    · change (field_line h (get_line r).2).s.state = _
      unfold field_line
      rw [hopen]
      exact (header_field_s _ _).1.trans ((get_line_s r).1.trans hs)

theorem headless_switch {h : Handlers} {r r' : Rx} (hl : r.Headless)
    (hr : http_switch h r = .ok (some r')) : r'.Headless := by
  intro hh
  have hreq : r'.c.isHead = r.c.isHead := by
    unfold Call.isHead
    rw [http_switch_req hr]
  rw [hreq] at hh
  rcases hl hh with hc | hs | hs | ⟨hs, hbody⟩
  · rw [http_switch_closing h r hc] at hr
    cases hr
  · simp only [http_switch, hs, Except.ok.injEq, Option.some.injEq] at hr
    subst hr
    unfold parse_status_line
    dsimp only
    split
    · exact Or.inr (Or.inl ((get_line_s _).1.trans hs))
    · have hhead : (get_line { r with s.is_chunked := false, s.content_length := SIZE_MAX }).2.c =
          r.c := (get_line_s _).2.2.1
      unfold status_line_read
      dsimp only
      rw [hhead, hh]
      split
      · contradiction
      · split
        · exact Or.inl ‹_›
        · refine Or.inr (Or.inr (Or.inr ⟨rfl, ?_⟩))
          unfold status_done event_signal Conn.close
          dsimp only
          split
          · split <;> rfl
          · rfl
  · simp [http_switch, hs] at hr
  · simp only [http_switch, hs, Except.ok.injEq, Option.some.injEq] at hr
    subst hr
    have hloop := headless_parse_headers_loop (h := h) r hbody hs
    unfold parse_headers
    split <;> rename_i heq <;> rw [heq] at hloop <;> exact hloop.imp_right Or.inr

/-- Two results: both runs end before their time in the same way, or `R` relates what they
give. -/
inductive Matched {α : Type} (R : α → α → Prop) : Except Abort α → Except Abort α → Prop where
  | ok {a b : α} : R a b → Matched R (.ok a) (.ok b)
  | error (e : Abort) : Matched R (.error e) (.error e)

theorem Rx.Headless.body {r : Rx} (hl : r.Headless) (hc : r.s.state.closing = false)
    (h0 : r.s.state ≠ .S_REPLY_STATUS) (h1 : r.s.state ≠ .S_REPLY_HEADER)
    (h2 : r.s.state ≠ .S_REPLY_DONE) : r.c.isHead = false := by
  by_contra hh
  rw [Bool.not_eq_false] at hh
  rcases hl hh with h | h | h | ⟨h, _⟩
  · rw [hc] at h
    cases h
  · exact h0 h
  · exact h2 h
  · exact h1 h

/-- The parser keeps twins, and takes the same way on both sides. -/
theorem twin_switch {h : Handlers} (hb : h.Blind) {r r' : Rx} (ht : r.Twin r') (hl : r.Headless) :
    Matched (Option.Rel Rx.Twin) (http_switch h r) (http_switch h r') := by
  have hs' := ht.state
  cases hst : r.s.state <;> rw [hst] at hs' <;> simp only [http_switch, hst, hs']
  case S_REPLY_STATUS => exact .ok (.some (twin_parse_status_line hb ht))
  case S_REPLY_HEADER => exact .ok (.some (twin_parse_headers hb ht (by rw [hst]; rfl)))
  case S_REPLY_CONTINUE => exact .ok (.some (twin_parse_headers hb ht (by rw [hst]; rfl)))
  case S_REPLY_FOOTER => exact .ok (.some (twin_parse_footers hb ht (by rw [hst]; rfl)))
  case S_REPLY_CHUNKED =>
    have hh := hl.body (by rw [hst]; rfl) (by simp [hst]) (by simp [hst]) (by simp [hst])
    exact .ok (.some (twin_xfer_chunked hb r r' ht hh (by simp [hst])))
  case S_REPLY_DATA =>
    have hh := hl.body (by rw [hst]; rfl) (by simp [hst]) (by simp [hst]) (by simp [hst])
    obtain ⟨hbool, hdata⟩ := twin_parse_data hb ht hh
    refine .ok (.some ?_)
    rw [hbool, hdata.state]
    split
    · rename_i hall
      refine hdata.on_conn (fun s => { s with state := .S_REPLY_DONE }) (fun _ _ => rfl)
        fun _ => hdata.begun ?_
      have hopen : (parse_data h r).2.s.state.closing = false := by
        simpa using (Bool.and_eq_true_iff.mp hall).2
      have hne := parse_data_state (h := h) (r := r) (by simp [hst])
      simp [ConnState.started, hopen, hne]
    · exact hdata
  case S_REPLY_DONE => exact .ok .none
  all_goals exact .error _

theorem twin_process_loop {h : Handlers} (hb : h.Blind) (r : Rx) :
    ∀ r', r.Twin r' → r.Headless →
      Matched (fun a b => a.Twin b ∧ a.Headless) (http_process_loop h r)
        (http_process_loop h r') := by
  induction r using http_process_loop.induct h with
  | case1 r e he =>
    intro r' ht hl
    have hsw := twin_switch hb ht hl
    rw [he] at hsw
    generalize he' : http_switch h r' = x at hsw
    cases hsw
    rw [http_process_loop_error he, http_process_loop_error he']
    exact .error e
  | case2 r he =>
    intro r' ht hl
    have hsw := twin_switch hb ht hl
    rw [he] at hsw
    generalize he' : http_switch h r' = x at hsw
    rcases hsw with ⟨_ | _⟩
    rw [http_process_loop_none he, http_process_loop_none he']
    exact .ok ⟨ht, hl⟩
  | case3 r r1 he hc ih =>
    intro r' ht hl
    have hsw := twin_switch hb ht hl
    rw [he] at hsw
    generalize he' : http_switch h r' = x at hsw
    rcases hsw with ⟨ht1 | _⟩
    rename_i r1'
    rw [http_process_loop_some he, http_process_loop_some he', ht1.buf, ht1.state, if_pos hc,
      if_pos hc]
    exact ih r1' ht1 (headless_switch hl he)
  | case4 r r1 he hc =>
    intro r' ht hl
    have hsw := twin_switch hb ht hl
    rw [he] at hsw
    generalize he' : http_switch h r' = x at hsw
    rcases hsw with ⟨ht1 | _⟩
    rw [http_process_loop_some he, http_process_loop_some he', ht1.buf, ht1.state, if_neg hc,
      if_neg hc]
    exact .ok ⟨ht1, headless_switch hl he⟩

theorem headless_signal {h : Handlers} {e : Event} {r : Rx} (hl : r.Headless) :
    (event_signal h e r).Headless := by
  intro hh
  by_cases hc : (event_signal h e r).s.state.closing = true
  · exact Or.inl hc
  · rw [event_signal_open hc]
    exact hl hh

theorem twin_process_reply_bytes {h : Handlers} (hb : h.Blind) {r r' : Rx} (ht : r.Twin r')
    (hl : r.Headless) :
    Matched (fun a b => a.Twin b ∧ a.Headless) (http_process_reply_bytes h r)
      (http_process_reply_bytes h r') := by
  unfold http_process_reply_bytes
  exact twin_process_loop hb _ _ (ht.signal hb (by rw [ht.call.id, ht.buf])) (headless_signal hl)

/-! ## Reads -/

/-- Two connections that differ in the counters of the call that is read. -/
structure Conn.Twin (s s' : Conn) : Prop where
  conn : s' = { s with recvq := s'.recvq }
  queue : (s.recvq = [] ∧ s'.recvq = []) ∨
    ∃ c c' next, s.recvq = c :: next ∧ s'.recvq = c' :: next ∧ Call.Like s.state c c' ∧
      ∀ buf log, Rx.Headless ⟨s, c, buf, log⟩

theorem Call.Like.refl (st : ConnState) (c : Call) : Call.Like st c c :=
  ⟨rfl, rfl, fun _ => ⟨rfl, rfl⟩, fun _ => rfl⟩

theorem Conn.Twin.refl {s : Conn} (hs : s.state = .S_REPLY_STATUS) : s.Twin s := by
  refine ⟨rfl, ?_⟩
  rcases hq : s.recvq with _ | ⟨c, next⟩
  · exact Or.inl ⟨rfl, rfl⟩
  · exact Or.inr ⟨c, c, next, rfl, rfl, .refl _ _, fun _ _ _ => Or.inr (Or.inl hs)⟩

/-- A connection and the log of its run. -/
def Twins (p p' : Conn × List Event) : Prop :=
  p.1.Twin p'.1 ∧ p'.2.map Event.uncounted = p.2.map Event.uncounted

theorem twin_recv_done {h : Handlers} (hb : h.Blind) {r r' : Rx} (ht : r.Twin r')
    (next : List Call) (hs : r.s.state = .S_REPLY_DONE) :
    (recv_done h next r).Twin (recv_done h next r') := by
  obtain ⟨hstatus, hversion⟩ := ht.begun (by rw [hs]; rfl)
  have hqueue : Rx.Twin { r with s.recvq := next } { r' with s.recvq := next } := by
    refine ⟨?_, Iff.rfl, ht.call, ht.buf, ht.log⟩
    dsimp only
    rw [ht.conn]
  refine hqueue.signal hb ?_
  simp only [Event.uncounted, Reply.uncounted, ht.call.id, hstatus, hversion]

theorem recv_done_closed {h : Handlers} {next : List Call} {r : Rx}
    (hs : r.s.state = .S_REPLY_DONE) (hc : (recv_done h next r).s.state.closing = true) :
    (recv_done h next r).s.recvq = [] :=
  event_signal_kept shut_kept h _ _ (shut_of_open (by rw [hs]; rfl)) hc

theorem recv_done_open {h : Handlers} {next : List Call} {r : Rx}
    (hc : ¬ (recv_done h next r).s.state.closing = true) :
    (recv_done h next r).s = { r.s with recvq := next } :=
  event_signal_open hc

/-- The connection behind a reply: the counters of the next call are its own. -/
theorem twin_stopped {h : Handlers} (hb : h.Blind) {r r' : Rx} (ht : r.Twin r')
    (next : List Call) (hs : r.s.state = .S_REPLY_DONE) :
    (recv_done h next r).s.Twin (recv_done h next r').s := by
  have hdone := twin_recv_done hb ht next hs
  refine ⟨hdone.conn, ?_⟩
  by_cases hc : (recv_done h next r).s.state.closing = true
  · have hc' : (recv_done h next r').s.state.closing = true := by rwa [hdone.state]
    exact Or.inl ⟨recv_done_closed hs hc, recv_done_closed (ht.state.trans hs) hc'⟩
  · have hc' : ¬ (recv_done h next r').s.state.closing = true := by rwa [hdone.state]
    rw [recv_done_open hc, recv_done_open hc']
    rcases next with _ | ⟨d, ds⟩
    · exact Or.inl ⟨rfl, rfl⟩
    · exact Or.inr ⟨d, d, ds, rfl, rfl, .refl _ _, fun _ _ _ => Or.inr (Or.inr (Or.inl hs))⟩

theorem twin_do_recv_loop {h : Handlers} (hb : h.Blind) {s s' : Conn} (ht : s.Twin s')
    (buf : List Byte) {log log' : List Event}
    (hlog : log'.map Event.uncounted = log.map Event.uncounted) :
    Matched Twins (do_recv_loop h s buf log) (do_recv_loop h s' buf log') := by
  induction hn : s.recvq generalizing s s' buf log log' with
  | nil =>
    rcases ht.queue with ⟨hq, hq'⟩ | ⟨c, c', next, hq, _⟩
    · rw [do_recv_loop_nil buf log hq, do_recv_loop_nil buf log' hq']
      exact .error _
    · rw [hn] at hq
      cases hq
  | cons c next ih =>
    rcases ht.queue with ⟨hq, hq'⟩ | ⟨d, c', next', hq, hq', hlike, hl⟩
    · rw [hn] at hq
      cases hq
    · obtain ⟨rfl, rfl⟩ : c = d ∧ next = next' := by simpa [hn] using hq
      have hr : Rx.Twin ⟨s, c, buf, log⟩ ⟨s', c', buf, log'⟩ :=
        ⟨ht.conn, by simp [hq, hq'], hlike, rfl, hlog⟩
      have hp := twin_process_reply_bytes hb hr (hl buf log)
      rw [do_recv_loop_cons buf log hq, do_recv_loop_cons buf log' hq']
      generalize http_process_reply_bytes h ⟨s, c, buf, log⟩ = x at hp ⊢
      generalize http_process_reply_bytes h ⟨s', c', buf, log'⟩ = x' at hp ⊢
      rcases hp with ⟨hab, hla⟩ | e
      · rename_i a b
        dsimp only
        rw [hab.state, hab.buf]
        by_cases hs : a.s.state = .S_REPLY_DONE
        · have hdone := twin_recv_done hb hab next hs
          rw [if_pos hs, if_pos hs, hdone.state]
          by_cases hc : (recv_done h next a).s.state.closing = true
          · rw [if_pos hc, if_pos hc]
            exact .ok ⟨twin_stopped hb hab next hs, hdone.log⟩
          · -- the same connection on both sides
            have hc' : ¬ (recv_done h next b).s.state.closing = true := by rwa [hdone.state]
            have hsame : (recv_done h next b).s = (recv_done h next a).s := by
              rw [recv_done_open hc, recv_done_open hc', hab.conn]
            rw [if_neg hc, if_neg hc, hsame]
            split
            · exact .ok ⟨.refl rfl, hdone.log⟩
            · refine ih (.refl rfl) _ hdone.log ?_
              dsimp only
              rw [recv_done_open hc]
        · rw [if_neg hs, if_neg hs]
          split
          · refine .ok ⟨?_, hab.log⟩
            unfold Rx.store
            dsimp only
            rcases hqa : a.s.recvq with _ | ⟨x, xs⟩
            · have hqb := hab.queued.mpr hqa
              rw [hqb]
              exact ⟨hab.conn, Or.inl ⟨hqa, hqb⟩⟩
            · have hqb : b.s.recvq ≠ [] := fun h => by
                rw [hab.queued.mp h] at hqa
                cases hqa
              obtain ⟨y, ys, hqb⟩ := List.exists_cons_of_ne_nil hqb
              rw [hqb]
              refine ⟨?_, Or.inr ⟨a.c, b.c, next, rfl, rfl, hab.call, fun _ _ => hla⟩⟩
              dsimp only
              rw [hab.conn]
          · exact .error _
      · exact .error e

theorem conn_failure_conn (h : Handlers) (r : Rx) : (conn_failure h r).1 = r.s.close := by
  have htwice : ∀ s : Conn, s.close.close = s.close := by
    intro s
    unfold Conn.close
    split
    · rfl
    · rfl
  unfold conn_failure event_signal
  dsimp only
  split
  · exact htwice r.s
  · rfl

theorem Conn.Twin.close {s s' : Conn} (ht : s.Twin s') : s.close.Twin s'.close := by
  have hstate : s'.state = s.state := by rw [ht.conn]
  unfold Conn.close
  rw [hstate]
  split
  · exact ht
  · refine ⟨?_, Or.inl ⟨rfl, rfl⟩⟩
    rw [ht.conn]

theorem twin_do_recv {h : Handlers} (hb : h.Blind) {s s' : Conn} (ht : s.Twin s')
    (read : Read) {log log' : List Event}
    (hlog : log'.map Event.uncounted = log.map Event.uncounted) :
    Matched Twins (do_recv h read s log) (do_recv h read s' log') := by
  rcases ht.queue with ⟨hq, hq'⟩ | ⟨c, c', next, hq, hq', hlike, hl⟩
  · simp only [do_recv, hq, hq']
    exact .error _
  · have hstate : s'.state = s.state := by rw [ht.conn]
    have hr : Rx.Twin ⟨s, c, [], log⟩ ⟨s', c', [], log'⟩ :=
      ⟨ht.conn, by simp [hq, hq'], hlike, rfl, hlog⟩
    have hfail : Twins (conn_failure h ⟨s, c, [], log⟩) (conn_failure h ⟨s', c', [], log'⟩) := by
      refine ⟨?_, (hr.signal hb rfl).log⟩
      rw [conn_failure_conn, conn_failure_conn]
      exact ht.close
    cases read with
    | data buf =>
      simp only [do_recv, hq, hq']
      exact twin_do_recv_loop hb ht buf hlog
    | error eagain =>
      simp only [do_recv, hq, hq']
      cases eagain
      · exact .ok hfail
      · exact .ok ⟨ht, hlog⟩
    | eof =>
      by_cases hs : s.state = .S_REPLY_DATA
      · simp only [do_recv, hq, hq', hstate, hs, ne_eq, not_true_eq_false, if_false]
        have hdone : Rx.Twin ⟨{ s with state := .S_REPLY_DONE }, c, [], log⟩
            ⟨{ s' with state := .S_REPLY_DONE }, c', [], log'⟩ :=
          hr.on_conn (fun s => { s with state := .S_REPLY_DONE }) (fun _ _ => rfl)
            fun _ => hlike.status (by rw [hs]; rfl)
        have hrecv := twin_recv_done hb hdone next rfl
        exact .ok ⟨twin_stopped hb hdone next rfl, hrecv.log⟩
      · simp only [do_recv, hq, hq', hstate, hs, ne_eq, not_false_eq_true, if_true]
        exact .ok hfail

theorem twin_do_recvs {h : Handlers} (hb : h.Blind) (reads : List Read) {s s' : Conn}
    (ht : s.Twin s') {log log' : List Event}
    (hlog : log'.map Event.uncounted = log.map Event.uncounted) :
    Matched Twins (do_recvs h reads s log) (do_recvs h reads s' log') := by
  induction reads generalizing s s' log log' with
  | nil => exact .ok ⟨ht, hlog⟩
  | cons read reads ih =>
    have hempty : s'.recvq = [] ↔ s.recvq = [] := by
      rcases ht.queue with ⟨hq, hq'⟩ | ⟨c, c', next, hq, hq', _⟩ <;> simp [hq, hq']
    have hone := twin_do_recv hb ht read hlog
    simp only [do_recvs, hempty]
    split
    · exact .ok ⟨ht, hlog⟩
    · generalize do_recv h read s log = x at hone ⊢
      generalize do_recv h read s' log' = x' at hone ⊢
      rcases hone with ⟨ht1, hlog1⟩ | e
      · exact ih ht1 hlog1
      · exact .error e

end Httperf
