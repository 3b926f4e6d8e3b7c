-- The reply in progress: what the parser has counted of it, and what it will not count. Each
-- parsing function adds its own difference of pointers, and `parse_status_line` adds nothing for a
-- line that goes on in the next read.
import Httperf.StatusFrame

namespace Httperf

/-! ## What is known of a reply -/

/-- The reply when its status line is complete: the call, the status that is recorded, and how many
bytes of the line came with earlier reads. -/
structure Basis where
  id : Nat
  isHead : Bool
  base : Reply
  status : Int
  cut : Nat

/-- A body in chunks follows, or has followed, the header. -/
def Conn.ChunkedBody (s : Conn) : Prop := s.has_body = true ∧ s.is_chunked = true

instance (s : Conn) : Decidable s.ChunkedBody := inferInstanceAs (Decidable (_ ∧ _))

/-- The counters inside the header, behind `n` bytes of the reply. -/
structure HeaderCount (b : Basis) (n : Nat) (c : Call) : Prop where
  header : c.reply.header_bytes + UInt64.ofNat b.cut = b.base.header_bytes + UInt64.ofNat n
  content : c.reply.content_bytes = b.base.content_bytes

/-- The counters behind the header of a reply without chunks. -/
def BodyCount (b : Basis) (n : Nat) (c : Call) : Prop :=
  c.reply.header_bytes + c.reply.content_bytes + UInt64.ofNat b.cut =
    b.base.header_bytes + b.base.content_bytes + UInt64.ofNat n

/-- What the state says of the counters, behind `n` bytes of the reply. -/
def Counts (b : Basis) (n : Nat) (s : Conn) (c : Call) : Prop :=
  match s.state with
  | .S_REPLY_HEADER | .S_REPLY_CONTINUE => HeaderCount b n c
  | .S_REPLY_DATA => s.line = [] ∧ BodyCount b n c
  | .S_REPLY_CHUNKED | .S_REPLY_FOOTER => s.ChunkedBody
  | .S_REPLY_DONE => s.line = [] ∧ (s.ChunkedBody ∨ BodyCount b n c)
  | _ => False

/-- The reply behind its status line. -/
structure Past (b : Basis) (n : Nat) (s : Conn) (c : Call) : Prop where
  id : c.id = b.id
  head : c.isHead = b.isHead
  status : c.reply.status = b.status
  counts : Counts b n s c

def Event.isStop : Event → Bool
  | .EV_CALL_RECV_STOP .. => true
  | _ => false

/-- The events behind `log`: no reply ends among them. -/
def Rx.Logs (log : List Event) (r : Rx) : Prop :=
  ∃ es, r.log = log ++ es ∧ ∀ e ∈ es, e.isStop = false

/-- The connection is closed, or the parser goes on with the reply. -/
structure Onward (b : Basis) (n : Nat) (log : List Event) (r : Rx) : Prop where
  logs : r.Logs log
  past : r.s.state.closing = true ∨ Past b n r.s r.c

/-! ## Pieces -/

theorem Rx.Logs.refl (r : Rx) : r.Logs r.log := ⟨[], by simp, by simp⟩

theorem Rx.Logs.trans {log : List Event} {r r' : Rx} (h : r.Logs log) (h' : r'.Logs r.log) :
    r'.Logs log := by
  obtain ⟨es, hlog, hes⟩ := h
  obtain ⟨es', hlog', hes'⟩ := h'
  refine ⟨es ++ es', by rw [hlog', hlog, List.append_assoc], fun e he => ?_⟩
  rcases List.mem_append.mp he with he | he
  · exact hes e he
  · exact hes' e he

theorem Rx.Logs.signal (h : Handlers) {e : Event} (r : Rx) (he : e.isStop = false) :
    (event_signal h e r).Logs r.log :=
  ⟨[e], rfl, by simp [he]⟩

/-- `get_line` moves bytes from the buffer to the line. -/
theorem get_line_moves (r : Rx) :
    ∃ line x, r.buf = x ++ (get_line r).2.buf ∧
      (get_line r).2 = { r with s.line := line, buf := (get_line r).2.buf } := by
  obtain ⟨x, hx⟩ := get_line_suffix r
  refine ⟨(get_line r).2.s.line, x, hx.symm, ?_⟩
  unfold get_line
  split
  · rfl
  · dsimp only
    split <;> rfl

theorem Past.not_closing {b : Basis} {n : Nat} {s : Conn} {c : Call} (h : Past b n s c) :
    s.state.closing = false ∧ s.state ≠ .S_REPLY_STATUS := by
  have := h.counts
  unfold Counts at this
  cases hst : s.state <;> simp_all [ConnState.closing]

theorem HeaderCount.add {b : Basis} {n : Nat} {c : Call} (h : HeaderCount b n c) (k : Nat) :
    HeaderCount b (n + k)
      { c with reply.header_bytes := c.reply.header_bytes + UInt64.ofNat k } := by
  refine ⟨?_, h.content⟩
  have := h.header
  dsimp only
  rw [UInt64.ofNat_add, ← UInt64.add_assoc, ← this, add_right_comm]

theorem HeaderCount.body {b : Basis} {n : Nat} {c : Call} (h : HeaderCount b n c) :
    BodyCount b n c := by
  unfold BodyCount
  rw [h.content, add_right_comm, h.header, add_right_comm]

theorem BodyCount.add {b : Basis} {n : Nat} {c : Call} (h : BodyCount b n c) (k : Nat) :
    BodyCount b (n + k)
      { c with reply.content_bytes := c.reply.content_bytes + UInt64.ofNat k } := by
  unfold BodyCount at *
  dsimp only
  rw [UInt64.ofNat_add, ← UInt64.add_assoc (b.base.header_bytes + _), ← h, ← UInt64.add_assoc,
    add_right_comm]

/-! ## The header -/

theorem header_field_keeps (s : Conn) (hdr : List Byte) :
    (header_field s hdr).state = s.state ∧ (header_field s hdr).line = s.line := by
  unfold header_field
  dsimp only
  split_ifs <;> exact ⟨rfl, rfl⟩

/-- How the loop of `parse_headers` ends: inside the header, at its empty line, or on a connection
that is closed. The call is as it was. -/
theorem parse_headers_loop_spec (h : Handlers) (r : Rx) :
    let p := parse_headers_loop h r
    p.2.c = r.c ∧ p.2.Logs r.log ∧
      ((p.1 = false ∧ p.2.s.state.closing = true) ∨
        (p.1 = true ∧ p.2.s.state = r.s.state) ∨
        (p.1 = true ∧ ∃ s : Conn, s.state = r.s.state ∧ s.line = [] ∧ p.2.s = headers_end s)) := by
  induction r using parse_headers_loop.induct h with
  | case1 r hf =>
    obtain ⟨line, x, -, hget⟩ := get_line_moves r
    rw [parse_headers_loop]
    simp only [hf, if_true]
    rw [hget]
    exact ⟨rfl, .refl _, .inr (.inl ⟨trivial, rfl⟩)⟩
  | case2 r r1 hf he =>
    obtain ⟨line, x, -, hget⟩ := get_line_moves r
    rw [parse_headers_loop]
    simp only [hf, r1, he, Bool.true_eq_false, if_false, if_true]
    have hline : (get_line r).2.s.state = r.s.state ∧ (get_line r).2.c = r.c ∧
        (get_line r).2.log = r.log := by
      rw [hget]
      exact ⟨rfl, rfl, rfl⟩
    refine ⟨hline.2.1, ?_, .inr (.inr ⟨trivial, (get_line r).2.s, hline.1, he, rfl⟩)⟩
    rw [← hline.2.2]
    exact .refl _
  | case3 r r1 hf he r2 r3 hc =>
    obtain ⟨line, x, -, hget⟩ := get_line_moves r
    rw [parse_headers_loop]
    simp only [hf, r1, he, r2, r3, hc, Bool.true_eq_false, if_false, if_true]
    refine ⟨?_, ?_, .inl ⟨trivial, trivial⟩⟩
    · rw [event_signal_c, hget]
    · have hlog : (get_line r).2.log = r.log := by rw [hget]
      rw [← hlog]
      exact Rx.Logs.signal h { (get_line r).2 with s := _ } rfl
  | case4 r r1 hf he r2 r3 hc ih =>
    obtain ⟨line, x, -, hget⟩ := get_line_moves r
    have hopen : r3.s = r2.s := event_signal_open hc
    have hstate : r3.s.state = r.s.state := by
      rw [hopen]
      simp only [r2, r1, (header_field_keeps _ _).1]
      rw [hget]
    have hcall : r3.c = r.c := by
      simp only [r3, r2, r1, event_signal_c]
      rw [hget]
    have hlogs : r3.Logs r.log := by
      have hlog : r2.log = r.log := by
        simp only [r2, r1]
        rw [hget]
      rw [← hlog]
      exact Rx.Logs.signal h r2 rfl
    have heq : parse_headers_loop h r = parse_headers_loop h { r3 with s.line := [] } := by
      rw [parse_headers_loop]
      simp only [hf, r1, he, r2, r3, hc, if_false, Bool.true_eq_false, Bool.false_eq_true]
    obtain ⟨hc', hlogs', hend⟩ := ih
    rw [heq]
    refine ⟨hc'.trans hcall, hlogs.trans hlogs', ?_⟩
    simpa only [hstate] using hend

theorem parse_headers_spec (h : Handlers) {b : Basis} {n : Nat} {r : Rx} (hr : Past b n r.s r.c)
    (hs : r.s.state = .S_REPLY_HEADER ∨ r.s.state = .S_REPLY_CONTINUE) :
    ∃ x, r.buf = x ++ (parse_headers h r).buf ∧
      Onward b (n + x.length) r.log (parse_headers h r) := by
  obtain ⟨x, hx⟩ := parse_headers_suffix h r
  refine ⟨x, hx.symm, ?_⟩
  obtain ⟨hc, hlogs, hend⟩ := parse_headers_loop_spec h r
  have hcount : HeaderCount b n r.c := by
    have := hr.counts
    unfold Counts at this
    rcases hs with hs | hs <;> rwa [hs] at this
  have hlen : r.buf.length - (parse_headers_loop h r).2.buf.length = x.length := by
    rw [← parse_headers_buf, ← hx, List.length_append, Nat.add_sub_cancel]
  unfold parse_headers
  rcases hp : parse_headers_loop h r with ⟨ended, r'⟩
  rw [hp] at hc hlogs hend hlen
  cases ended with
  | false => exact ⟨hlogs, .inl (hend.resolve_right (by simp)).2⟩
  | true =>
    dsimp only at hc hlogs hend hlen ⊢
    refine ⟨hlogs, .inr ?_⟩
    rw [hlen]
    have hcount' := hcount.add x.length
    have hkeep : ∀ s : Conn, Counts b (n + x.length) s
        { r.c with reply.header_bytes := r.c.reply.header_bytes + UInt64.ofNat x.length } →
        Past b (n + x.length) s
          { r'.c with reply.header_bytes := r'.c.reply.header_bytes + UInt64.ofNat x.length } := by
      intro s hcounts
      rw [hc]
      exact ⟨hr.id, hr.head, hr.status, hcounts⟩
    apply hkeep
    rcases hend with ⟨hfalse, -⟩ | ⟨-, hstate⟩ | ⟨-, s, hstate, hline, heq⟩
    · cases hfalse
    · unfold Counts
      rcases hs with hs | hs <;> rw [hstate, hs] <;> exact hcount'
    · unfold Counts headers_end at *
      rw [heq]
      split_ifs with hbody hchunked hcontinue
      · exact ⟨hbody, hchunked⟩
      · exact ⟨hline, hcount'.body⟩
      · exact hcount'
      · exact ⟨hline, .inr hcount'.body⟩

/-! ## The footer and the body -/

/-- How the loop of `parse_footers` ends. -/
theorem parse_footers_loop_spec (h : Handlers) (r : Rx) :
    let p := parse_footers_loop h r
    p.2.c = r.c ∧ p.2.Logs r.log ∧
    (p.2.s.has_body = r.s.has_body ∧ p.2.s.is_chunked = r.s.is_chunked ∨
        p.2.s.state.closing = true) ∧
      (p.2.s.state.closing = true ∨ p.2.s.state = r.s.state ∨
        (p.2.s.state = .S_REPLY_DONE ∧ p.2.s.line = [])) := by
  induction r using parse_footers_loop.induct h with
  | case1 r hf =>
    obtain ⟨line, x, -, hget⟩ := get_line_moves r
    rw [parse_footers_loop]
    simp only [hf, if_true]
    rw [hget]
    exact ⟨rfl, .refl _, .inl ⟨rfl, rfl⟩, .inr (.inl rfl)⟩
  | case2 r r1 hf he =>
    obtain ⟨line, x, -, hget⟩ := get_line_moves r
    rw [parse_footers_loop]
    simp only [hf, r1, he, Bool.true_eq_false, if_false, if_true]
    refine ⟨?_, ?_, .inl ?_, .inr (.inr ⟨trivial, trivial⟩)⟩ <;> rw [hget]
    · exact .refl _
    · exact ⟨rfl, rfl⟩
  | case3 r r1 hf he r2 hc =>
    obtain ⟨line, x, -, hget⟩ := get_line_moves r
    rw [parse_footers_loop]
    simp only [hf, r1, he, r2, hc, Bool.true_eq_false, if_false, if_true]
    refine ⟨?_, ?_, .inr trivial, .inl trivial⟩
    · rw [event_signal_c, hget]
    · have hlog : (get_line r).2.log = r.log := by rw [hget]
      rw [← hlog]
      exact Rx.Logs.signal h (get_line r).2 rfl
  | case4 r r1 hf he r2 hc ih =>
    obtain ⟨line, x, -, hget⟩ := get_line_moves r
    have hopen : r2.s = r1.s := event_signal_open hc
    have hsame : r2.s.state = r.s.state ∧ r2.s.has_body = r.s.has_body ∧
        r2.s.is_chunked = r.s.is_chunked := by
      rw [hopen]
      simp only [r1]
      rw [hget]
      exact ⟨rfl, rfl, rfl⟩
    have hcall : r2.c = r.c := by
      simp only [r2, r1, event_signal_c]
      rw [hget]
    have hlogs : r2.Logs r.log := by
      have hlog : r1.log = r.log := by
        simp only [r1]
        rw [hget]
      rw [← hlog]
      exact Rx.Logs.signal h r1 rfl
    have heq : parse_footers_loop h r = parse_footers_loop h { r2 with s.line := [] } := by
      rw [parse_footers_loop]
      simp only [hf, r1, he, r2, hc, if_false, Bool.true_eq_false, Bool.false_eq_true]
    obtain ⟨hc', hlogs', hbody, hend⟩ := ih
    rw [heq]
    refine ⟨hc'.trans hcall, hlogs.trans hlogs', ?_, ?_⟩
    · simpa only [hsame.2.1, hsame.2.2] using hbody
    · simpa only [hsame.1] using hend

theorem parse_footers_spec (h : Handlers) {b : Basis} {n : Nat} {r : Rx} (hr : Past b n r.s r.c)
    (hs : r.s.state = .S_REPLY_FOOTER) :
    ∃ x, r.buf = x ++ (parse_footers h r).buf ∧
      Onward b (n + x.length) r.log (parse_footers h r) := by
  obtain ⟨x, hx⟩ := parse_footers_suffix h r
  refine ⟨x, hx.symm, ?_⟩
  obtain ⟨hc, hlogs, hbody, hend⟩ := parse_footers_loop_spec h r
  have hchunked : r.s.ChunkedBody := by
    have := hr.counts
    unfold Counts at this
    rwa [hs] at this
  unfold parse_footers
  rcases hp : parse_footers_loop h r with ⟨ended, r'⟩
  rw [hp] at hc hlogs hbody hend
  dsimp only at hc hlogs hbody hend
  have hpast : ∀ c : Call, c.id = r.c.id → c.isHead = r.c.isHead →
      c.reply.status = r.c.reply.status →
      r'.s.state.closing = true ∨ Past b (n + x.length) r'.s c := by
    intro c hid hhead hstatus
    rcases hend with hclosing | hstate
    · exact .inl hclosing
    · rcases hbody with ⟨h1, h2⟩ | hclosing
      · refine .inr ⟨hid.trans hr.id, hhead.trans hr.head, hstatus.trans hr.status, ?_⟩
        have hchunked' : r'.s.ChunkedBody := ⟨h1.trans hchunked.1, h2.trans hchunked.2⟩
        unfold Counts
        rcases hstate with hstate | ⟨hstate, hline⟩
        · rw [hstate, hs]
          exact hchunked'
        · rw [hstate]
          exact ⟨hline, .inl hchunked'⟩
      · exact .inl hclosing
  cases ended with
  | false => exact ⟨hlogs, hpast r'.c (by rw [hc]) (by rw [hc]) (by rw [hc])⟩
  | true =>
    refine ⟨hlogs, hpast _ ?_ ?_ ?_⟩
    · change r'.c.id = r.c.id
      rw [hc]
    · change r'.c.isHead = r.c.isHead
      rw [hc]
    · change r'.c.reply.status = r.c.reply.status
      rw [hc]

/-- `parse_data` counts what it takes. -/
theorem parse_data_spec (h : Handlers) (r : Rx) :
    let r' := (parse_data h r).2
    ∃ x, r.buf = x ++ r'.buf ∧ r'.Logs r.log ∧
      r'.c = { r.c with reply.content_bytes := r.c.reply.content_bytes + UInt64.ofNat x.length } ∧
      (r'.s.state.closing = true ∨ r'.s = r.s) := by
  refine ⟨r.buf.take (min r.buf.length (bytes_needed r)), ?_, ?_, ?_, ?_⟩
  · rw [parse_data_buf, List.take_append_drop]
  · exact Rx.Logs.signal h r rfl
  · rw [List.length_take, Nat.min_eq_left (Nat.min_le_left ..)]
    rfl
  · by_cases hc : (parse_data h r).2.s.state.closing = true
    · exact .inl hc
    · exact .inr (event_signal_open hc)

/-- The parser reads a chunked body, if the connection is open. -/
def Rx.InChunks (r : Rx) : Prop :=
  r.s.state.closing = true ∨ r.s.state = .S_REPLY_CHUNKED ∧ r.s.ChunkedBody

/-- A chunked body stays one. -/
structure Chunking (r0 r : Rx) : Prop where
  logs : r.Logs r0.log
  id : r.c.id = r0.c.id
  head : r.c.isHead = r0.c.isHead
  status : r.c.reply.status = r0.c.reply.status
  header : r.c.reply.header_bytes = r0.c.reply.header_bytes
  state : r.InChunks ∨ (r.s.state = .S_REPLY_FOOTER ∧ r.s.ChunkedBody)

theorem Chunking.trans {r0 r1 r : Rx} (h : Chunking r0 r1) (h' : Chunking r1 r) : Chunking r0 r :=
  ⟨h.logs.trans h'.logs, h'.id.trans h.id, h'.head.trans h.head, h'.status.trans h.status,
    h'.header.trans h.header, h'.state⟩

/-- The line and the length do not count. -/
theorem Chunking.of_line {r0 r : Rx} (line : List Byte) (n : UInt64)
    (h : Chunking { r0 with s.line := line, s.content_length := n } r) : Chunking r0 r :=
  ⟨h.logs, h.id, h.head, h.status, h.header, h.state⟩

theorem get_line_chunking {r : Rx} (h0 : r.InChunks) :
    Chunking r (get_line r).2 ∧ (get_line r).2.InChunks := by
  obtain ⟨line, x, -, hget⟩ := get_line_moves r
  rw [hget]
  exact ⟨⟨.refl r, rfl, rfl, rfl, rfl, .inl h0⟩, h0⟩

theorem parse_data_chunking (h : Handlers) {r : Rx} (h0 : r.InChunks) :
    Chunking r (parse_data h r).2 ∧ (parse_data h r).2.InChunks := by
  obtain ⟨x, -, hlogs, hc, hs⟩ := parse_data_spec h r
  have hin : (parse_data h r).2.InChunks := by
    rcases hs with hclosing | hs
    · exact .inl hclosing
    · unfold Rx.InChunks
      rwa [hs]
  refine ⟨⟨hlogs, ?_, ?_, ?_, ?_, .inl hin⟩, hin⟩ <;> rw [hc]
  rfl

theorem xfer_chunked_spec (h : Handlers) {r : Rx} (h0 : r.InChunks) :
    Chunking r (xfer_chunked h r) := by
  induction r using xfer_chunked.induct h with
  | case1 r hc =>
    rw [xfer_chunked, if_pos hc]
    exact ⟨.refl r, rfl, rfl, rfl, rfl, .inl h0⟩
  | case2 r hc hl hf =>
    rw [xfer_chunked]
    simp only [hc, hl, hf, if_true, if_false]
    exact (get_line_chunking h0).1
  | case3 r hc hl r1 hf he ih =>
    obtain ⟨hline, hin⟩ := get_line_chunking h0
    rw [xfer_chunked]
    simp only [hc, hl, hf, r1, he, Bool.true_eq_false, if_true, if_false]
    exact hline.trans (ih hin)
  | case4 r hc hl r1 hf he n r2 hn ih =>
    obtain ⟨hline, hin⟩ := get_line_chunking h0
    rw [xfer_chunked]
    simp only [hc, hl, hf, r1, he, n, hn, Bool.true_eq_false, if_true, if_false]
    exact hline.trans (.of_line [] _ (ih hin))
  | case5 r hc hl r1 hf he n hn hz =>
    obtain ⟨hline, hin⟩ := get_line_chunking h0
    have hbody : (get_line r).2.s.ChunkedBody := by
      rcases hin with hclosing | hin
      · rw [(get_line_s r).1] at hclosing
        exact absurd (.inr hclosing) hc
      · exact hin.2
    rw [xfer_chunked]
    simp only [hc, hl, hf, r1, he, n, hn, hz, Bool.true_eq_false, if_true, if_false]
    exact ⟨hline.logs, hline.id, hline.head, hline.status, hline.header, .inr ⟨rfl, hbody⟩⟩
  | case6 r hc hl r1 hf he n r2 hn hz r3 ih =>
    obtain ⟨hline, hin⟩ := get_line_chunking h0
    obtain ⟨hdata, hin'⟩ := parse_data_chunking h (r := r3) hin
    rw [xfer_chunked]
    simp only [hc, hl, hf, r1, he, n, hn, hz, Bool.true_eq_false, if_true, if_false]
    exact hline.trans (.of_line [] _ (hdata.trans (ih hin')))
  | case7 r hc hl ih =>
    obtain ⟨hdata, hin⟩ := parse_data_chunking h h0
    rw [xfer_chunked]
    simp only [hc, hl, if_false]
    exact hdata.trans (ih hin)

/-! ## One turn of `http_process_reply_bytes` -/

/-- One turn behind the status line. -/
theorem http_switch_past (h : Handlers) {b : Basis} {n : Nat} {r r' : Rx} (hr : Past b n r.s r.c)
    (hs : http_switch h r = .ok (some r')) :
    ∃ x, r.buf = x ++ r'.buf ∧ Onward b (n + x.length) r.log r' := by
  have hcounts := hr.counts
  unfold Counts at hcounts
  unfold http_switch at hs
  cases hst : r.s.state <;>
    simp only [hst, Except.ok.injEq, Option.some.injEq, reduceCtorEq] at hs hcounts
  case S_REPLY_HEADER => exact hs ▸ parse_headers_spec h hr (.inl hst)
  case S_REPLY_CONTINUE => exact hs ▸ parse_headers_spec h hr (.inr hst)
  case S_REPLY_FOOTER => exact hs ▸ parse_footers_spec h hr hst
  case S_REPLY_DATA =>
    obtain ⟨x, hbuf, hlogs, hc, hstate⟩ := parse_data_spec h r
    obtain ⟨hline, hcount⟩ := hcounts
    refine ⟨x, by rw [hbuf, ← hs]; split <;> rfl, ?_⟩
    have hlogs' : r'.Logs r.log := by
      rw [← hs]
      split
      · exact hlogs
      · exact hlogs
    refine ⟨hlogs', ?_⟩
    rcases hstate with hclosing | hsame
    · left
      rw [← hs, hclosing]
      simp [hclosing]
    · right
      have hc' : r'.c = (parse_data h r).2.c := by
        rw [← hs]
        split <;> rfl
      rw [hc', hc]
      refine ⟨hr.id, hr.head, hr.status, ?_⟩
      have hcount' := hcount.add x.length
      rw [← hs]
      unfold Counts
      split_ifs
      · dsimp only
        rw [hsame]
        exact ⟨hline, .inr hcount'⟩
      · rw [hsame, hst]
        exact ⟨hline, hcount'⟩
  case S_REPLY_CHUNKED =>
    obtain ⟨x, hx⟩ := xfer_chunked_suffix h r
    have hchunk := xfer_chunked_spec h (.inr ⟨hst, hcounts⟩)
    rw [hs] at hx hchunk
    refine ⟨x, hx.symm, hchunk.logs, ?_⟩
    have hpast : Counts b (n + x.length) r'.s r'.c → Past b (n + x.length) r'.s r'.c := fun hc =>
      ⟨hchunk.id.trans hr.id, hchunk.head.trans hr.head, hchunk.status.trans hr.status, hc⟩
    rcases hchunk.state with (hclosing | ⟨hstate, hbody⟩) | ⟨hstate, hbody⟩
    · exact .inl hclosing
    · refine .inr (hpast ?_)
      unfold Counts
      rw [hstate]
      exact hbody
    · refine .inr (hpast ?_)
      unfold Counts
      rw [hstate]
      exact hbody

/-! ## The status line -/

/-- A line that is not complete takes the whole buffer, and nothing of it is lost. -/
theorem get_line_incomplete {r : Rx} (hline : r.s.line.length < MAX_HDR_LINE_LEN - 1)
    (hf : (get_line r).1 = false) :
    (get_line r).2 = { r with s.line := r.s.line ++ r.buf, buf := [] } ∧
      (r.s.line ++ r.buf).length < MAX_HDR_LINE_LEN - 1 := by
  by_cases hb : r.buf = []
  · unfold get_line
    rw [if_pos hb, hb, List.append_nil]
    refine ⟨?_, hline⟩
    dsimp only
    rw [← hb]
  · have heol := eol_le r.buf
    unfold get_line at hf ⊢
    rw [if_neg hb] at hf ⊢
    dsimp only at hf ⊢
    split at hf
    · cases hf
    rename_i hdone
    rw [if_neg hdone]
    simp only [Bool.or_eq_true, decide_eq_true_eq, not_or] at hdone
    obtain ⟨hlast, hlen⟩ := hdone
    -- the line is not full, so all bytes up to the end of the line are copied
    have hcopy : to_copy r.s.line r.buf = eol r.buf := by
      unfold to_copy
      split
      · rename_i hfull
        exfalso
        apply hlen
        rw [List.length_append, List.length_take]
        unfold to_copy
        rw [if_pos hfull]
        omega
      · rfl
    have hfits : r.s.line.length + eol r.buf < MAX_HDR_LINE_LEN := by
      by_contra hfull
      unfold to_copy at hcopy
      rw [if_pos (by omega)] at hcopy
      unfold MAX_HDR_LINE_LEN at *
      omega
    rw [hcopy] at hlast hlen ⊢
    -- and there is no LF
    have hall : eol r.buf = r.buf.length := by
      cases hstrchr : strchr_lf r.buf with
      | none => exact eol_unseen hstrchr
      | some i =>
        exfalso
        apply hlast
        rw [eol_seen hstrchr, List.take_add_one, (strchr_lf_some hstrchr).1]
        simp
    rw [hall, List.take_length] at hlen ⊢
    rw [hall] at hfits
    rw [List.drop_length]
    refine ⟨rfl, ?_⟩
    rw [List.length_append] at hlen ⊢
    unfold MAX_HDR_LINE_LEN at *
    omega

/-- The status that is recorded for a line. -/
def recorded (line : List Byte) : Int :=
  ((scan_status_line (cstr line)).map fun v => u_int_to_int v.2.2).getD 599

/-- The local `status` of `parse_status_line`, once the line is complete. -/
def statusNumber (h : Handlers) (r : Rx) : Nat :=
  (status_values h (get_line { r with s.is_chunked := false, s.content_length := SIZE_MAX }).2).2

/-- The reply of `r` when the status line `line` has been read. -/
def Rx.basis (r : Rx) (line : List Byte) : Basis :=
  ⟨r.c.id, r.c.isHead, r.c.reply, recorded line, r.s.line.length⟩

theorem status_values_reply (h : Handlers) (r : Rx) :
    (status_values h r).1 = { r.c.reply with
      version := (status_values h r).1.version
      status := recorded r.s.line } := by
  unfold status_values recorded
  cases scan_status_line (cstr r.s.line) <;> rfl

theorem status_line_read_log (h : Handlers) (start : Nat) (r : Rx) :
    (status_line_read h start r).log =
      r.log ++ [.EV_CALL_RECV_START r.c.id (recorded r.s.line)] := by
  unfold status_line_read status_done
  dsimp only
  rw [status_values_reply]
  split_ifs <;> rfl

/-- What follows the status line in `r`. -/
theorem status_line_read_call (h : Handlers) (start : Nat) (r : Rx) :
    let r' := status_line_read h start r
    r'.s.state.closing = true ∨
      ((r'.s.state = .S_REPLY_HEADER ∨ r'.s.state = .S_REPLY_CONTINUE) ∧
        r'.c = { r.c with
          reply.version := (status_values h r).1.version
          reply.status := recorded r.s.line
          reply.header_bytes :=
            r.c.reply.header_bytes + UInt64.ofNat (start - r.buf.length) }) := by
  have hreply := status_values_reply h r
  generalize (status_values h r).1.version = version at hreply ⊢
  unfold status_line_read status_done
  dsimp only
  rw [hreply]
  split_ifs with hcontinue hclosing
  · exact .inr ⟨.inr rfl, rfl⟩
  · exact .inl hclosing
  · exact .inr ⟨.inl rfl, rfl⟩

/-- A part of the status line. -/
theorem parse_status_line_part (h : Handlers) {r : Rx}
    (hline : r.s.line.length < MAX_HDR_LINE_LEN - 1) (hpart : statusLine r = none) :
    let r' := parse_status_line h r
    r'.s.state = r.s.state ∧ r'.s.line = r.s.line ++ r.buf ∧
      r'.s.line.length < MAX_HDR_LINE_LEN - 1 ∧ r'.buf = [] ∧ r'.c = r.c ∧ r'.log = r.log ∧
      r'.s.recvq = r.s.recvq := by
  have hf : (get_line { r with s.is_chunked := false, s.content_length := SIZE_MAX }).1 =
      false := by
    unfold statusLine at hpart
    by_contra hne
    simp [hne] at hpart
  obtain ⟨hget, hlen⟩ := get_line_incomplete (r := { r with
    s.is_chunked := false
    s.content_length := SIZE_MAX }) hline hf
  unfold parse_status_line
  dsimp only
  rw [if_pos hf, hget]
  exact ⟨rfl, rfl, hlen, rfl, rfl, rfl, rfl⟩

/-- The end of the status line: `EV_CALL_RECV_START` is signalled, and the bytes of this read are
counted. -/
theorem parse_status_line_whole (h : Handlers) {r : Rx} {line : List Byte}
    (hwhole : statusLine r = some line) :
    ∃ x, r.buf = x ++ (parse_status_line h r).buf ∧
      Onward (r.basis line) (r.s.line.length + x.length) r.log (parse_status_line h r) ∧
      (parse_status_line h r).log = r.log ++ [.EV_CALL_RECV_START r.c.id (recorded line)] := by
  obtain ⟨x, hx⟩ := parse_status_line_suffix h r
  refine ⟨x, hx.symm, ?_⟩
  unfold statusLine at hwhole
  have hf : (get_line { r with s.is_chunked := false, s.content_length := SIZE_MAX }).1 = true := by
    by_contra hne
    simp [hne] at hwhole
  dsimp only at hwhole
  rw [hf, if_pos rfl, Option.some.injEq] at hwhole
  obtain ⟨line', y, hy, hget⟩ := get_line_moves { r with
    s.is_chunked := false
    s.content_length := SIZE_MAX }
  have hparse : parse_status_line h r = status_line_read h r.buf.length
      (get_line { r with s.is_chunked := false, s.content_length := SIZE_MAX }).2 := by
    unfold parse_status_line
    dsimp only
    rw [if_neg (by rw [hf]; decide)]
  rw [hparse] at hx ⊢
  generalize (get_line { r with s.is_chunked := false, s.content_length := SIZE_MAX }).2 = r1 at *
  have hlen : r.buf.length - r1.buf.length = x.length := by
    rw [← hx, status_line_read_buf, List.length_append, Nat.add_sub_cancel]
  have hc : r1.c = r.c := by rw [hget]
  have hlog : (status_line_read h r.buf.length r1).log =
      r.log ++ [.EV_CALL_RECV_START r.c.id (recorded line)] := by
    rw [status_line_read_log, hwhole, hc, hget]
  refine ⟨⟨⟨[_], hlog, by simp [Event.isStop]⟩, ?_⟩, hlog⟩
  have hcall := status_line_read_call h r.buf.length r1
  dsimp only at hcall
  rw [hc, hwhole, hlen] at hcall
  refine hcall.imp id fun ⟨hstate, hc'⟩ => ?_
  rw [hc']
  refine ⟨rfl, rfl, rfl, ?_⟩
  have hcount : HeaderCount (r.basis line) (r.s.line.length + x.length) { r.c with
      reply.version := (status_values h r1).1.version
      reply.status := recorded line
      reply.header_bytes := r.c.reply.header_bytes + UInt64.ofNat x.length } := by
    refine ⟨?_, rfl⟩
    unfold Rx.basis
    dsimp only
    rw [UInt64.ofNat_add, ← UInt64.add_assoc, add_right_comm]
  unfold Counts
  rcases hstate with hstate | hstate <;> rw [hstate] <;> exact hcount

/-! ## One read -/

theorem http_process_loop_past (h : Handlers) {b : Basis} {n : Nat} {r r' : Rx}
    (hr : Past b n r.s r.c) (hs : http_process_loop h r = .ok r') :
    ∃ x, r.buf = x ++ r'.buf ∧ Onward b (n + x.length) r.log r' := by
  induction r using http_process_loop.induct h generalizing n with
  | case1 r e he =>
    rw [http_process_loop_error he] at hs
    cases hs
  | case2 r he =>
    rw [http_process_loop_none he] at hs
    obtain rfl := Except.ok.inj hs
    exact ⟨[], rfl, .refl r, .inr hr⟩
  | case3 r r1 he hc ih =>
    rw [http_process_loop_some he, if_pos hc] at hs
    obtain ⟨x, hx, hlogs, hpast⟩ := http_switch_past h hr he
    obtain ⟨y, hy, hlogs', hpast'⟩ := ih (hpast.resolve_left hc.2) hs
    refine ⟨x ++ y, by rw [hx, hy, List.append_assoc], hlogs.trans hlogs', ?_⟩
    rwa [List.length_append, ← Nat.add_assoc]
  | case4 r r1 he hc =>
    rw [http_process_loop_some he, if_neg hc] at hs
    obtain rfl := Except.ok.inj hs
    exact http_switch_past h hr he

/-- The handlers of `EV_CALL_RECV_RAW_DATA` leave the connection open, or the program ends. -/
theorem http_process_raw {h : Handlers} {r r' : Rx} (hs : http_process_reply_bytes h r = .ok r') :
    http_process_loop h { r with log := r.log ++ [.EV_CALL_RECV_RAW_DATA r.c.id r.buf] } =
      .ok r' := by
  unfold http_process_reply_bytes at hs
  by_cases hc : (event_signal h (.EV_CALL_RECV_RAW_DATA r.c.id r.buf) r).s.state.closing = true
  · rw [http_process_loop_error (http_switch_closing h _ hc)] at hs
    cases hs
  · have hsame : event_signal h (.EV_CALL_RECV_RAW_DATA r.c.id r.buf) r =
        { r with log := r.log ++ [.EV_CALL_RECV_RAW_DATA r.c.id r.buf] } := by
      have hopen := event_signal_open hc
      unfold event_signal at hopen ⊢
      dsimp only at hopen ⊢
      rw [hopen]
    rwa [hsame] at hs

theorem raw_logs {r r' : Rx}
    (h : r'.Logs (r.log ++ [.EV_CALL_RECV_RAW_DATA r.c.id r.buf])) : r'.Logs r.log :=
  Rx.Logs.trans (r := { r with log := r.log ++ [.EV_CALL_RECV_RAW_DATA r.c.id r.buf] })
    ⟨[_], rfl, by simp [Event.isStop]⟩ h

theorem http_process_past (h : Handlers) {b : Basis} {n : Nat} {r r' : Rx} (hr : Past b n r.s r.c)
    (hs : http_process_reply_bytes h r = .ok r') :
    ∃ x, r.buf = x ++ r'.buf ∧ Onward b (n + x.length) r.log r' := by
  obtain ⟨x, hx, hlogs, hpast⟩ := http_process_loop_past h (r := { r with
    log := r.log ++ [.EV_CALL_RECV_RAW_DATA r.c.id r.buf] }) hr (http_process_raw hs)
  exact ⟨x, hx, raw_logs hlogs, hpast⟩

theorem statusLine_log (r : Rx) (log : List Event) : statusLine { r with log } = statusLine r := by
  unfold statusLine get_line
  dsimp only
  split_ifs <;> rfl

/-- A read that ends inside the status line. -/
theorem http_process_status_part (h : Handlers) {r r' : Rx} (hstate : r.s.state = .S_REPLY_STATUS)
    (hline : r.s.line.length < MAX_HDR_LINE_LEN - 1) (hpart : statusLine r = none)
    (hs : http_process_reply_bytes h r = .ok r') :
    r'.s.state = .S_REPLY_STATUS ∧ r'.s.line = r.s.line ++ r.buf ∧
      r'.s.line.length < MAX_HDR_LINE_LEN - 1 ∧ r'.buf = [] ∧ r'.c = r.c ∧ r'.Logs r.log ∧
      r'.s.recvq = r.s.recvq := by
  have hloop := http_process_raw hs
  obtain ⟨h1, h2, h3, h4, h5, h6, h7⟩ := parse_status_line_part h (r := { r with
    log := r.log ++ [.EV_CALL_RECV_RAW_DATA r.c.id r.buf] }) hline
      ((statusLine_log r _).trans hpart)
  have hswitch : http_switch h { r with log := r.log ++ [.EV_CALL_RECV_RAW_DATA r.c.id r.buf] } =
      .ok (some (parse_status_line h { r with
        log := r.log ++ [.EV_CALL_RECV_RAW_DATA r.c.id r.buf] })) := by
    unfold http_switch
    dsimp only
    rw [hstate]
  rw [http_process_loop_some hswitch, if_neg (fun hc => hc.1 h4)] at hloop
  obtain rfl := Except.ok.inj hloop
  refine ⟨h1.trans hstate, h2, h3, h4, h5, ?_, h7⟩
  exact ⟨[_], h6, by simp [Event.isStop]⟩

/-- A read that brings the end of the status line. -/
theorem http_process_status_whole (h : Handlers) {r r' : Rx} {line : List Byte}
    (hstate : r.s.state = .S_REPLY_STATUS) (hwhole : statusLine r = some line)
    (hs : http_process_reply_bytes h r = .ok r') :
    ∃ x, r.buf = x ++ r'.buf ∧ Onward (r.basis line) (r.s.line.length + x.length) r.log r' ∧
      ∃ es, r'.log = r.log ++ es ∧ .EV_CALL_RECV_START r.c.id (recorded line) ∈ es := by
  have hloop := http_process_raw hs
  obtain ⟨x, hx, ⟨hlogs, hpast⟩, hstart⟩ := parse_status_line_whole h (r := { r with
    log := r.log ++ [.EV_CALL_RECV_RAW_DATA r.c.id r.buf] }) ((statusLine_log r _).trans hwhole)
  have hswitch : http_switch h { r with log := r.log ++ [.EV_CALL_RECV_RAW_DATA r.c.id r.buf] } =
      .ok (some (parse_status_line h { r with
        log := r.log ++ [.EV_CALL_RECV_RAW_DATA r.c.id r.buf] })) := by
    unfold http_switch
    dsimp only
    rw [hstate]
  rw [http_process_loop_some hswitch] at hloop
  generalize parse_status_line h { r with
    log := r.log ++ [.EV_CALL_RECV_RAW_DATA r.c.id r.buf] } = r1 at *
  split_ifs at hloop with hc
  · obtain ⟨y, hy, hlogs', hpast'⟩ := http_process_loop_past h (hpast.resolve_left hc.2) hloop
    refine ⟨x ++ y, ?_, ⟨raw_logs (hlogs.trans hlogs'), ?_⟩, ?_⟩
    · rw [List.append_assoc, ← hy]
      exact hx
    · rwa [List.length_append, ← Nat.add_assoc]
    · obtain ⟨es, hes, -⟩ := hlogs'
      rw [hstart] at hes
      exact ⟨_, by rw [hes]; simp only [List.append_assoc]; rfl, by simp⟩
  · obtain rfl := Except.ok.inj hloop
    refine ⟨x, hx, ⟨raw_logs hlogs, hpast⟩, ?_⟩
    exact ⟨_, by rw [hstart]; simp only [List.append_assoc]; rfl, by simp⟩

end Httperf
