-- Where no request is written while the reply comes, the byte of the bit fields is never a CR, and
-- the receive path with the line buffer in memory does what it does with the line as a list.
import Httperf.ReplyMemory

namespace Httperf.Memory

/-! ## The line as a list -/

/-- The first `iov_len` bytes of `line_buf`. -/
def Conn.bytes (s : Conn) : List Byte := (List.range s.iov_len).map s.line_buf

def Conn.listed (s : Conn) : Httperf.Conn :=
  ⟨s.state, s.bytes, s.content_length, s.has_body, s.is_chunked, s.recvq⟩

def Rx.listed (r : Rx) : Httperf.Rx := ⟨r.s.listed, r.c, r.buf, r.log⟩

/-- Nothing is written on the connection, and no handler issues a call. -/
structure Handlers.Silent (h : Handlers) : Prop where
  sends : ∀ log, h.sends log = false

/-- Between two lines. -/
structure Rx.Fits (r : Rx) : Prop where
  writing : r.s.writing = false
  line : r.s.iov_len < MAX_HDR_LINE_LEN - 1
  buf : r.buf.length < 2 ^ 63

theorem bits_ne_cr {s : Conn} (hs : s.writing = false) : s.bits ≠ CR := by
  unfold Conn.bits
  rw [hs]
  cases s.has_body <;> cases s.is_chunked <;> cases s.reading <;> decide

theorem setBits_bits (s : Conn) : s.setBits s.bits = s := by
  rcases s with ⟨state, iov_len, line_buf, content_length, has_body, is_chunked, reading,
    writing, recvq⟩
  unfold Conn.setBits Conn.bits
  cases has_body <;> cases is_chunked <;> cases reading <;> cases writing <;> simp <;> decide

theorem setBits_bits' (s s' : Conn) (h1 : s'.has_body = s.has_body)
    (h2 : s'.is_chunked = s.is_chunked) (h3 : s'.reading = s.reading)
    (h4 : s'.writing = s.writing) : s'.setBits s.bits = s' := by
  have hsame : s.bits = s'.bits := by
    unfold Conn.bits
    rw [h1, h2, h3, h4]
  rw [hsame, setBits_bits]

theorem cstr_append_nul (a b : List Byte) : cstr (a ++ 0 :: b) = cstr a := by
  unfold cstr
  induction a with
  | nil => rfl
  | cons x a ih =>
    rw [List.cons_append, List.takeWhile_cons, List.takeWhile_cons, ih]

/-- The text ends with the line, where a NUL stands. -/
theorem text_eq {s : Conn} (hnul : s.line_buf s.iov_len = 0) (hlen : s.iov_len < MAX_HDR_LINE_LEN) :
    s.text = cstr s.bytes := by
  obtain ⟨n, hn⟩ := Nat.exists_eq_add_of_lt hlen
  unfold Conn.text Conn.bytes
  rw [hn, Nat.add_assoc, List.range_add, List.map_append, Nat.add_comm n 1, List.range_add]
  simp only [List.range_one, List.map_append, List.map_cons, List.map_nil, Nat.add_zero, hnul]
  exact cstr_append_nul _ _

theorem list_get_line (q : Httperf.Rx) :
    (Httperf.get_line q).2 =
      { q with s.line := (Httperf.get_line q).2.s.line, buf := (Httperf.get_line q).2.buf } := by
  unfold Httperf.get_line
  split
  · rfl
  · dsimp only
    split <;> rfl

/-- What a call of `get_line` leaves. -/
structure LineRead (r : Rx) : Prop where
  full : (get_line r).1 = (Httperf.get_line r.listed).1
  listed : (get_line r).2.listed = (Httperf.get_line r.listed).2
  writing : (get_line r).2.s.writing = false
  buf : (get_line r).2.buf.length < 2 ^ 63
  text : (get_line r).1 = true → (get_line r).2.s.text = cstr (get_line r).2.s.bytes ∧
    (get_line r).2.s.line = (get_line r).2.s.bytes
  line : (get_line r).1 = false → (get_line r).2.s.iov_len < MAX_HDR_LINE_LEN - 1

theorem get_line_listed {r : Rx} (hr : r.Fits) : LineRead r := by
  obtain ⟨l, hl⟩ : ∃ l : LineBuffer.Line, l = ⟨r.s.iov_len, r.s.line_buf, [], false⟩ := ⟨_, rfl⟩
  obtain ⟨t, ht⟩ : ∃ t : LineBuffer.Turn, t = ⟨r.s.bits, r.buf, hr.buf⟩ := ⟨_, rfl⟩
  have hlen : l.iov_len < MAX_HDR_LINE_LEN - 1 := by
    rw [hl]
    exact hr.line
  have hbits : t.flags ≠ CR := by
    rw [ht]
    exact bits_ne_cr hr.writing
  obtain ⟨hfull, hbytes, hbuf⟩ := LineBuffer.get_line_refines (r := r.listed) hlen (by rw [hl]; rfl)
    (by rw [ht]; rfl) (.inr hbits)
  obtain ⟨hfront, hend⟩ := LineBuffer.call_keeps_front hlen (.inr hbits)
  obtain ⟨p, hp⟩ : ∃ p, LineBuffer.call l t = p := ⟨_, rfl⟩
  have hget : get_line r = (p.1, { r with s := r.s.lineOut p.2.1, buf := p.2.2 }) := by
    rw [← hp, hl, ht]
    rfl
  rw [hp] at hfull hbytes hbuf hfront hend
  have hs :
      r.s.lineOut p.2.1 = { r.s with iov_len := p.2.1.iov_len, line_buf := p.2.1.line_buf } := by
    unfold Conn.lineOut
    rw [hfront, ht]
    exact setBits_bits' r.s _ rfl rfl rfl rfl
  rw [hs] at hget
  refine ⟨?_, ?_, ?_, ?_, ?_, ?_⟩
  · rw [hget]
    exact hfull
  · rw [list_get_line, hget, ← hbytes, ← hbuf]
    rfl
  · rw [hget]
    exact hr.writing
  · exact Nat.lt_of_le_of_lt (get_line_suffix r).length_le hr.buf
  · rw [hget]
    intro hfull
    rw [hfull, if_pos rfl] at hend
    refine ⟨text_eq hend.1 hend.2, ?_⟩
    unfold Conn.line Conn.bytes
    dsimp only
    rw [Nat.min_eq_left (Nat.le_of_lt hend.2)]
  · rw [hget]
    intro hmore
    rw [hmore] at hend
    exact hend

/-! ## The parser -/

/-- `r` stands where the list stands, and a line can go on as long as the connection is open. -/
structure Mirrors (r : Rx) (q : Httperf.Rx) : Prop where
  listed : r.listed = q
  fits : r.s.state.closing = false → r.Fits

theorem bytes_eq_nil_iff {s : Conn} : s.bytes = [] ↔ s.iov_len = 0 := by
  unfold Conn.bytes
  rw [List.map_eq_nil_iff, List.range_eq_nil]

theorem header_field_listed (s : Conn) (hdr : List Byte) :
    (header_field s hdr).listed = Httperf.header_field s.listed hdr := by
  unfold header_field Httperf.header_field
  split_ifs <;> rfl

theorem header_field_keeps (s : Conn) (hdr : List Byte) :
    (header_field s hdr).iov_len = s.iov_len ∧ (header_field s hdr).writing = s.writing ∧
      (header_field s hdr).line = s.line ∧ (header_field s hdr).bytes = s.bytes := by
  unfold header_field
  split_ifs <;> exact ⟨rfl, rfl, rfl, rfl⟩

theorem headers_end_listed (s : Conn) : (headers_end s).listed = Httperf.headers_end s.listed := by
  have hstate : s.listed.state = s.state := rfl
  have hbody : s.listed.has_body = s.has_body := rfl
  have hchunked : s.listed.is_chunked = s.is_chunked := rfl
  unfold headers_end Httperf.headers_end
  rw [hstate, hbody, hchunked]
  split_ifs <;> rfl

theorem headers_end_keeps (s : Conn) :
    (headers_end s).iov_len = s.iov_len ∧ (headers_end s).writing = s.writing := by
  unfold headers_end
  split_ifs <;> exact ⟨rfl, rfl⟩

attribute [local irreducible] get_line Httperf.get_line header_field Httperf.header_field
  headers_end
  Httperf.headers_end

theorem list_status_line_read (start : Nat) {g : Httperf.Handlers} {q x q2 : Httperf.Rx}
    {v : Reply × Nat} (hv : Httperf.status_values g q = v)
    (hx : { q with c.reply := v.1, s.has_body := has_body_of q.c.isHead v.2 } = x)
    (hq2 : Httperf.event_signal g (.EV_CALL_RECV_START q.c.id v.1.status) x = q2) :
    Httperf.status_line_read g start q =
      if !q.c.isHead && v.2 = 100 then
        Httperf.status_done start { q2 with s.state := .S_REPLY_CONTINUE }
      else if q2.s.state.closing then q2
      else Httperf.status_done start { q2 with s.state := .S_REPLY_HEADER } := by
  subst hv hx hq2
  rfl

section
variable {h : Handlers} (hs : h.Silent)
include hs

theorem event_signal_silent (e : Event) (r : Rx) :
    event_signal h e r =
      { r with log := r.log ++ [e], s := if h.closes (r.log ++ [e]) then r.s.close else r.s } := by
  unfold event_signal
  simp [hs.sends]

theorem event_signal_listed (e : Event) (r : Rx) :
    (event_signal h e r).listed = Httperf.event_signal h.toHandlers e r.listed := by
  have hlog : r.listed.log = r.log := rfl
  have hclose : r.s.close.listed = r.s.listed.close := by
    have hstate : r.s.listed.state = r.s.state := rfl
    unfold Conn.close Httperf.Conn.close
    rw [hstate]
    split_ifs <;> rfl
  rw [event_signal_silent hs]
  unfold Httperf.event_signal
  dsimp only
  rw [hlog]
  cases h.closes (r.log ++ [e]) with
  | true =>
    rw [if_pos rfl, if_pos rfl]
    unfold Rx.listed
    dsimp only
    rw [hclose]
  | false =>
    rw [if_neg (by decide), if_neg (by decide)]
    rfl

theorem event_signal_keeps (e : Event) {r : Rx} (hr : r.s.writing = false) :
    (event_signal h e r).s.writing = false ∧ (event_signal h e r).s.iov_len = r.s.iov_len := by
  rw [event_signal_silent hs]
  dsimp only
  unfold Conn.close
  split_ifs
  · exact ⟨hr, rfl⟩
  · exact ⟨rfl, rfl⟩
  · exact ⟨hr, rfl⟩

/-- Behind an event the line starts anew. -/
theorem event_signal_fits (e : Event) {r : Rx} (hr : r.s.writing = false)
    (hbuf : r.buf.length < 2 ^ 63) :
    Rx.Fits { event_signal h e r with s := { (event_signal h e r).s with iov_len := 0 } } :=
  ⟨(event_signal_keeps hs e hr).1, Nat.zero_lt_succ 1022, hbuf⟩

/-- A header line that is complete. -/
theorem header_event_listed {r : Rx} (htext : r.s.text = cstr r.s.bytes)
    (hline : r.s.line = r.s.bytes) :
    (event_signal h (.EV_CALL_RECV_HDR r.c.id (header_field r.s r.s.text).line)
        { r with s := header_field r.s r.s.text }).listed =
      Httperf.event_signal h.toHandlers (.EV_CALL_RECV_HDR r.listed.c.id
        (Httperf.header_field r.listed.s (cstr r.listed.s.line)).line)
        { r.listed with s := Httperf.header_field r.listed.s (cstr r.listed.s.line) } := by
  have hfield := header_field_listed r.s r.s.text
  obtain ⟨-, -, hkept, hbytes⟩ := header_field_keeps r.s r.s.text
  have hlist : (header_field r.s r.s.text).listed.line = (header_field r.s r.s.text).line := by
    rw [hkept, hline]
    exact hbytes
  have htext' : cstr r.listed.s.line = r.s.text := htext.symm
  rw [event_signal_listed hs, htext']
  have hsame : r.listed.s = r.s.listed := rfl
  rw [hsame, ← hfield, hlist]
  rfl

theorem parse_headers_loop_mirrors {r : Rx} (hr : r.Fits) :
    (parse_headers_loop h r).1 = (Httperf.parse_headers_loop h.toHandlers r.listed).1 ∧
      Mirrors (parse_headers_loop h r).2 (Httperf.parse_headers_loop h.toHandlers r.listed).2 := by
  induction r using parse_headers_loop.induct h with
  | case1 r hf =>
    have hline := get_line_listed hr
    have hlist : Httperf.parse_headers_loop h.toHandlers r.listed =
        (true, (get_line r).2.listed) := by
      rw [Httperf.parse_headers_loop, ← hline.full, if_pos hf, ← hline.listed]
    rw [parse_headers_loop, if_pos hf, hlist]
    exact ⟨rfl, rfl, fun _ => ⟨hline.writing, hline.line hf, hline.buf⟩⟩
  | case2 r r1 hf he =>
    have hline := get_line_listed hr
    have hnil : (get_line r).2.listed.s.line = [] := bytes_eq_nil_iff.mpr he
    have hlist : Httperf.parse_headers_loop h.toHandlers r.listed =
        (true,
          { (get_line r).2.listed with s := Httperf.headers_end (get_line r).2.listed.s }) := by
      rw [Httperf.parse_headers_loop, ← hline.full, if_neg hf, ← hline.listed, if_pos hnil]
    obtain ⟨hlen, hwriting⟩ := headers_end_keeps (get_line r).2.s
    rw [parse_headers_loop, if_neg hf, if_pos he, hlist]
    refine ⟨rfl, ?_, fun _ => ⟨hwriting.trans hline.writing, ?_, hline.buf⟩⟩
    · unfold Rx.listed
      dsimp only
      rw [headers_end_listed]
    · change (headers_end (get_line r).2.s).iov_len < _
      rw [hlen, he]
      decide
  | case3 r r1 hf he r2 r3 hc =>
    have hline := get_line_listed hr
    have hnil : ¬ (get_line r).2.listed.s.line = [] := mt bytes_eq_nil_iff.mp he
    obtain ⟨htext, hlines⟩ := hline.text (by simpa using hf)
    have hevent := header_event_listed hs htext hlines
    have hclosed : r3.listed.s.state.closing = true := hc
    have hlist : Httperf.parse_headers_loop h.toHandlers r.listed = (false, r3.listed) := by
      rw [Httperf.parse_headers_loop, ← hline.full, if_neg hf, ← hline.listed, if_neg hnil]
      dsimp only at hevent ⊢
      rw [← hevent]
      exact if_pos hclosed
    rw [parse_headers_loop, if_neg hf, if_neg he, if_pos hc, hlist]
    refine ⟨rfl, rfl, fun hopen => ?_⟩
    rw [hc] at hopen
    cases hopen
  | case4 r r1 hf he r2 r3 hc ih =>
    have hline := get_line_listed hr
    have hnil : ¬ (get_line r).2.listed.s.line = [] := mt bytes_eq_nil_iff.mp he
    obtain ⟨htext, hlines⟩ := hline.text (by simpa using hf)
    have hevent := header_event_listed hs htext hlines
    have hopen : ¬ r3.listed.s.state.closing = true := hc
    have hlist : Httperf.parse_headers_loop h.toHandlers r.listed =
        Httperf.parse_headers_loop h.toHandlers { r3.listed with s.line := [] } := by
      rw [Httperf.parse_headers_loop, ← hline.full, if_neg hf, ← hline.listed, if_neg hnil]
      dsimp only at hevent ⊢
      rw [← hevent]
      exact if_neg hopen
    have hwriting : r2.s.writing = false :=
      (header_field_keeps (get_line r).2.s (get_line r).2.s.text).2.1.trans hline.writing
    rw [parse_headers_loop, if_neg hf, if_neg he, if_neg hc, hlist]
    exact ih (event_signal_fits hs _ hwriting hline.buf)

theorem parse_headers_mirrors {r : Rx} (hr : r.Fits) :
    Mirrors (parse_headers h r) (Httperf.parse_headers h.toHandlers r.listed) := by
  obtain ⟨hended, hlisted, hfits⟩ := parse_headers_loop_mirrors hs hr
  unfold parse_headers Httperf.parse_headers
  rcases hp : parse_headers_loop h r with ⟨ended, r'⟩
  rcases hq : Httperf.parse_headers_loop h.toHandlers r.listed with ⟨ended', q'⟩
  rw [hp, hq] at hended hlisted
  rw [hp] at hfits
  dsimp only at hended hlisted hfits
  subst hended hlisted
  cases ended with
  | false => exact ⟨rfl, hfits⟩
  | true => exact ⟨rfl, fun hopen => ⟨(hfits hopen).writing, (hfits hopen).line, (hfits hopen).buf⟩⟩

theorem footer_event_listed {r : Rx} (hline : r.s.line = r.s.bytes) :
    (event_signal h (.EV_CALL_RECV_FOOTER r.c.id r.s.line) r).listed =
      Httperf.event_signal h.toHandlers (.EV_CALL_RECV_FOOTER r.listed.c.id r.listed.s.line)
        r.listed := by
  rw [event_signal_listed hs, hline]
  rfl

theorem parse_footers_loop_mirrors {r : Rx} (hr : r.Fits) :
    (parse_footers_loop h r).1 = (Httperf.parse_footers_loop h.toHandlers r.listed).1 ∧
      Mirrors (parse_footers_loop h r).2 (Httperf.parse_footers_loop h.toHandlers r.listed).2 := by
  induction r using parse_footers_loop.induct h with
  | case1 r hf =>
    have hline := get_line_listed hr
    have hlist : Httperf.parse_footers_loop h.toHandlers r.listed =
        (true, (get_line r).2.listed) := by
      rw [Httperf.parse_footers_loop, ← hline.full, if_pos hf, ← hline.listed]
    rw [parse_footers_loop, if_pos hf, hlist]
    exact ⟨rfl, rfl, fun _ => ⟨hline.writing, hline.line hf, hline.buf⟩⟩
  | case2 r r1 hf he =>
    have hline := get_line_listed hr
    have hnil : (get_line r).2.listed.s.line = [] := bytes_eq_nil_iff.mpr he
    have hlist : Httperf.parse_footers_loop h.toHandlers r.listed =
        (true, { (get_line r).2.listed with s.state := .S_REPLY_DONE }) := by
      rw [Httperf.parse_footers_loop, ← hline.full, if_neg hf, ← hline.listed, if_pos hnil]
    rw [parse_footers_loop, if_neg hf, if_pos he, hlist]
    refine ⟨rfl, rfl, fun _ => ⟨hline.writing, ?_, hline.buf⟩⟩
    change (get_line r).2.s.iov_len < _
    rw [he]
    exact Nat.zero_lt_succ 1022
  | case3 r r1 hf he r2 hc =>
    have hline := get_line_listed hr
    have hnil : ¬ (get_line r).2.listed.s.line = [] := mt bytes_eq_nil_iff.mp he
    have hevent := footer_event_listed hs (hline.text (by simpa using hf)).2
    have hclosed : r2.listed.s.state.closing = true := hc
    have hlist : Httperf.parse_footers_loop h.toHandlers r.listed = (false, r2.listed) := by
      rw [Httperf.parse_footers_loop, ← hline.full, if_neg hf, ← hline.listed, if_neg hnil]
      dsimp only
      rw [← hevent]
      exact if_pos hclosed
    rw [parse_footers_loop, if_neg hf, if_neg he, if_pos hc, hlist]
    refine ⟨rfl, rfl, fun hopen => ?_⟩
    rw [hc] at hopen
    cases hopen
  | case4 r r1 hf he r2 hc ih =>
    have hline := get_line_listed hr
    have hnil : ¬ (get_line r).2.listed.s.line = [] := mt bytes_eq_nil_iff.mp he
    have hevent := footer_event_listed hs (hline.text (by simpa using hf)).2
    have hopen : ¬ r2.listed.s.state.closing = true := hc
    have hlist : Httperf.parse_footers_loop h.toHandlers r.listed =
        Httperf.parse_footers_loop h.toHandlers { r2.listed with s.line := [] } := by
      rw [Httperf.parse_footers_loop, ← hline.full, if_neg hf, ← hline.listed, if_neg hnil]
      dsimp only
      rw [← hevent]
      exact if_neg hopen
    rw [parse_footers_loop, if_neg hf, if_neg he, if_neg hc, hlist]
    exact ih (event_signal_fits hs _ hline.writing hline.buf)

theorem parse_footers_mirrors {r : Rx} (hr : r.Fits) :
    Mirrors (parse_footers h r) (Httperf.parse_footers h.toHandlers r.listed) := by
  obtain ⟨hended, hlisted, hfits⟩ := parse_footers_loop_mirrors hs hr
  unfold parse_footers Httperf.parse_footers
  rcases hp : parse_footers_loop h r with ⟨ended, r'⟩
  rcases hq : Httperf.parse_footers_loop h.toHandlers r.listed with ⟨ended', q'⟩
  rw [hp, hq] at hended hlisted
  rw [hp] at hfits
  dsimp only at hended hlisted hfits
  subst hended hlisted
  cases ended with
  | false => exact ⟨rfl, hfits⟩
  | true => exact ⟨rfl, fun hopen => ⟨(hfits hopen).writing, (hfits hopen).line, (hfits hopen).buf⟩⟩

theorem parse_data_mirrors {r : Rx} (hr : r.Fits) :
    (parse_data h r).1 = (Httperf.parse_data h.toHandlers r.listed).1 ∧
      (parse_data h r).2.listed = (Httperf.parse_data h.toHandlers r.listed).2 ∧
      (parse_data h r).2.Fits := by
  have hevent : (event_signal h
      (.EV_CALL_RECV_DATA r.c.id (r.buf.take (min r.buf.length (bytes_needed r)))) r).listed =
        Httperf.event_signal h.toHandlers (.EV_CALL_RECV_DATA r.listed.c.id
          (r.listed.buf.take (min r.listed.buf.length (bytes_needed r)))) r.listed :=
    event_signal_listed hs _ r
  obtain ⟨hwriting, hlen⟩ := event_signal_keeps hs
    (.EV_CALL_RECV_DATA r.c.id (r.buf.take (min r.buf.length (bytes_needed r)))) hr.writing
  refine ⟨rfl, ?_, hwriting, ?_, ?_⟩
  · have hneeded : Httperf.bytes_needed r.listed = bytes_needed r := rfl
    unfold Httperf.parse_data
    dsimp only
    rw [hneeded, ← hevent]
    rfl
  · change (event_signal h _ r).s.iov_len < _
    rw [hlen]
    exact hr.line
  · exact Nat.lt_of_le_of_lt (parse_data_suffix h r).length_le hr.buf

/-- One turn of `xfer_chunked` on the lists, told in terms of the memory. -/
theorem xfer_chunked_listed {r : Rx} (hr : r.s.state.closing = false → r.Fits) :
    Httperf.xfer_chunked h.toHandlers r.listed =
      if r.buf = [] ∨ r.s.state.closing then r.listed
      else if r.s.content_length ≤ r.c.reply.content_bytes then
        if (get_line r).1 = false then (get_line r).2.listed
        else if (get_line r).2.s.iov_len = 0 then
          Httperf.xfer_chunked h.toHandlers (get_line r).2.listed
        else
          let n := strtoul (get_line r).2.s.text 16
          let r2 := { (get_line r).2 with s.iov_len := 0 }
          if n.erange || !n.converted then Httperf.xfer_chunked h.toHandlers r2.listed
          else if n.val = 0 then Rx.listed { r2 with s.state := .S_REPLY_FOOTER }
          else
            let r3 := { r2 with s.content_length := r2.s.content_length + UInt64.ofNat n.val }
            Httperf.xfer_chunked h.toHandlers (parse_data h r3).2.listed
      else Httperf.xfer_chunked h.toHandlers (parse_data h r).2.listed := by
  rw [Httperf.xfer_chunked]
  by_cases hc : r.buf = [] ∨ r.s.state.closing = true
  · exact (if_pos hc).trans (if_pos hc).symm
  refine (if_neg hc).trans (Eq.trans ?_ (if_neg hc).symm)
  have hfits : r.Fits := hr (by simpa using (not_or.mp hc).2)
  by_cases hl : r.s.content_length ≤ r.c.reply.content_bytes
  · refine (if_pos hl).trans (Eq.trans ?_ (if_pos hl).symm)
    have hline := get_line_listed hfits
    rw [← hline.full]
    dsimp only
    by_cases hf : (get_line r).1 = false
    · rw [if_pos hf, if_pos hf, hline.listed]
    have htext : cstr (get_line r).2.listed.s.line = (get_line r).2.s.text :=
      (hline.text (by simpa using hf)).1.symm
    rw [if_neg hf, if_neg hf, ← hline.listed, htext]
    have hnil : (get_line r).2.listed.s.line = [] ↔ (get_line r).2.s.iov_len = 0 :=
      bytes_eq_nil_iff
    by_cases he : (get_line r).2.s.iov_len = 0
    · rw [if_pos he, if_pos (hnil.mpr he)]
    rw [if_neg he, if_neg (mt hnil.mp he)]
    have hdata := (parse_data_mirrors hs (r := { (get_line r).2 with
      s.iov_len := 0
      s.content_length := (get_line r).2.s.content_length +
        UInt64.ofNat (strtoul (get_line r).2.s.text 16).val })
      ⟨hline.writing, Nat.zero_lt_succ 1022, hline.buf⟩).2.1
    rw [hdata]
    rfl
  · refine (if_neg hl).trans (Eq.trans ?_ (if_neg hl).symm)
    rw [(parse_data_mirrors hs hfits).2.1]

theorem xfer_chunked_mirrors {r : Rx} (hr : r.s.state.closing = false → r.Fits) :
    Mirrors (xfer_chunked h r) (Httperf.xfer_chunked h.toHandlers r.listed) := by
  have hline : ∀ {r : Rx}, (r.s.state.closing = false → r.Fits) →
      ¬ (r.buf = [] ∨ r.s.state.closing = true) → LineRead r :=
    fun hr hc => get_line_listed (hr (by simpa using (not_or.mp hc).2))
  induction r using xfer_chunked.induct h with
  | case1 r hc =>
    rw [xfer_chunked_listed hs hr, xfer_chunked, if_pos hc, if_pos hc]
    exact ⟨rfl, hr⟩
  | case2 r hc hl hf =>
    rw [xfer_chunked_listed hs hr, xfer_chunked, if_neg hc, if_pos hl, dif_pos hf, if_neg hc,
      if_pos hl, if_pos hf]
    have hread := hline hr hc
    exact ⟨rfl, fun _ => ⟨hread.writing, hread.line hf, hread.buf⟩⟩
  | case3 r hc hl r1 hf he ih =>
    rw [xfer_chunked_listed hs hr, xfer_chunked, if_neg hc, if_pos hl, dif_neg hf, if_pos he,
      if_neg hc, if_pos hl, if_neg hf, if_pos he]
    have hread := hline hr hc
    exact ih fun _ => ⟨hread.writing, by rw [he]; exact Nat.zero_lt_succ 1022, hread.buf⟩
  | case4 r hc hl r1 hf he n r2 hn ih =>
    rw [xfer_chunked_listed hs hr, xfer_chunked, if_neg hc, if_pos hl, dif_neg hf, if_neg he,
      if_pos hn, if_neg hc, if_pos hl, if_neg hf, if_neg he, if_pos hn]
    have hread := hline hr hc
    exact ih fun _ => ⟨hread.writing, Nat.zero_lt_succ 1022, hread.buf⟩
  | case5 r hc hl r1 hf he n hn hz =>
    rw [xfer_chunked_listed hs hr, xfer_chunked, if_neg hc, if_pos hl, dif_neg hf, if_neg he,
      if_neg hn, if_pos hz, if_neg hc, if_pos hl, if_neg hf, if_neg he, if_neg hn, if_pos hz]
    have hread := hline hr hc
    exact ⟨rfl, fun _ => ⟨hread.writing, Nat.zero_lt_succ 1022, hread.buf⟩⟩
  | case6 r hc hl r1 hf he n r2 hn hz r3 ih =>
    rw [xfer_chunked_listed hs hr, xfer_chunked, if_neg hc, if_pos hl, dif_neg hf, if_neg he,
      if_neg hn, if_neg hz, if_neg hc, if_pos hl, if_neg hf, if_neg he, if_neg hn, if_neg hz]
    have hread := hline hr hc
    have hfits : r3.Fits := ⟨hread.writing, Nat.zero_lt_succ 1022, hread.buf⟩
    exact ih fun _ => (parse_data_mirrors hs hfits).2.2
  | case7 r hc hl ih =>
    rw [xfer_chunked_listed hs hr, xfer_chunked, if_neg hc, if_neg hl, if_neg hc, if_neg hl]
    exact ih fun _ => (parse_data_mirrors hs (hr (by simpa using (not_or.mp hc).2))).2.2

theorem status_line_read_mirrors (start : Nat) {r : Rx} (hr : r.s.writing = false)
    (hbuf : r.buf.length < 2 ^ 63) (htext : r.s.text = cstr r.s.bytes) :
    Mirrors (status_line_read h start r)
      (Httperf.status_line_read h.toHandlers start r.listed) := by
  have hvalues : Httperf.status_values h.toHandlers r.listed = status_values h r := by
    have hline : r.listed.s.line = r.s.bytes := rfl
    unfold Httperf.status_values status_values
    rw [hline, htext]
    rfl
  obtain ⟨status, hstatus⟩ : ∃ status, (status_values h r).2 = status := ⟨_, rfl⟩
  obtain ⟨x, hx⟩ : ∃ x : Rx, { r with
    c.reply := (status_values h r).1
    s.has_body := has_body_of r.c.isHead status } = x := ⟨_, rfl⟩
  obtain ⟨r2, hr2⟩ : ∃ r2,
      event_signal h (.EV_CALL_RECV_START r.c.id (status_values h r).1.status) x = r2 := ⟨_, rfl⟩
  have hevent : Httperf.event_signal h.toHandlers
      (.EV_CALL_RECV_START r.c.id (status_values h r).1.status) x.listed = r2.listed := by
    rw [← hr2, event_signal_listed hs]
  have hwriting : r2.s.writing = false := by
    rw [← hr2]
    exact (event_signal_keeps hs _ (by rw [← hx]; exact hr)).1
  have hbuf2 : r2.buf.length < 2 ^ 63 := by
    rw [← hr2, ← hx]
    exact hbuf
  have hread : status_line_read h start r =
      if !r.c.isHead && status = 100 then status_done start { r2 with s.state := .S_REPLY_CONTINUE }
      else if r2.s.state.closing then r2
      else status_done start { r2 with s.state := .S_REPLY_HEADER } := by
    unfold status_line_read
    rw [← hr2, ← hx, ← hstatus]
  have hxlisted : { r.listed with
      c.reply := (status_values h r).1
      s.has_body := has_body_of r.c.isHead (status_values h r).2 } = x.listed := by
    rw [hstatus, ← hx]
    rfl
  have hlist := list_status_line_read start (g := h.toHandlers) hvalues hxlisted hevent
  have hcall : r.listed.c = r.c := rfl
  have hstate : r2.listed.s.state = r2.s.state := rfl
  rw [hstatus, hcall, hstate] at hlist
  rw [hread, hlist]
  split_ifs with hcontinue hclosing
  · exact ⟨rfl, fun _ => ⟨hwriting, Nat.zero_lt_succ 1022, hbuf2⟩⟩
  · refine ⟨rfl, fun hopen => ?_⟩
    rw [hclosing] at hopen
    cases hopen
  · exact ⟨rfl, fun _ => ⟨hwriting, Nat.zero_lt_succ 1022, hbuf2⟩⟩

theorem parse_status_line_mirrors {r : Rx} (hr : r.Fits) :
    Mirrors (parse_status_line h r) (Httperf.parse_status_line h.toHandlers r.listed) := by
  obtain ⟨r0, hr0⟩ :
      ∃ r0 : Rx, { r with s.is_chunked := false, s.content_length := SIZE_MAX } = r0 :=
    ⟨_, rfl⟩
  have hlisted : { r.listed with s.is_chunked := false, s.content_length := SIZE_MAX } =
      r0.listed := by
    rw [← hr0]
    rfl
  have hfits : r0.Fits := by
    rw [← hr0]
    exact ⟨hr.writing, hr.line, hr.buf⟩
  have hline := get_line_listed hfits
  unfold parse_status_line Httperf.parse_status_line
  dsimp only
  rw [hr0, hlisted, ← hline.full, ← hline.listed]
  by_cases hf : (get_line r0).1 = false
  · rw [if_pos hf, if_pos hf]
    exact ⟨rfl, fun _ => ⟨hline.writing, hline.line hf, hline.buf⟩⟩
  · rw [if_neg hf, if_neg hf]
    exact status_line_read_mirrors hs _ hline.writing hline.buf (hline.text (by simpa using hf)).1

omit hs in
theorem data_read_mirrors {p : Bool × Rx} {q : Bool × Httperf.Rx} (hall : q.1 = p.1)
    (hdata : p.2.listed = q.2) (hrest : p.2.Fits) :
    Mirrors (if p.1 && !p.2.s.state.closing then { p.2 with s.state := .S_REPLY_DONE } else p.2)
      (if q.1 && !q.2.s.state.closing then { q.2 with s.state := .S_REPLY_DONE } else q.2) := by
  have hclosing : q.2.s.state.closing = p.2.s.state.closing := by
    rw [← hdata]
    rfl
  rw [hall, hclosing, ← hdata]
  split_ifs
  · exact ⟨rfl, fun _ => ⟨hrest.writing, hrest.line, hrest.buf⟩⟩
  · exact ⟨rfl, fun _ => hrest⟩

theorem http_switch_mirrors {r : Rx} (hr : r.Fits) :
    (∀ e, http_switch h r = .error e → Httperf.http_switch h.toHandlers r.listed = .error e) ∧
      (http_switch h r = .ok none → Httperf.http_switch h.toHandlers r.listed = .ok none) ∧
      ∀ r', http_switch h r = .ok (some r') →
        ∃ q', Httperf.http_switch h.toHandlers r.listed = .ok (some q') ∧ Mirrors r' q' := by
  have hstate : r.listed.s.state = r.s.state := rfl
  unfold http_switch Httperf.http_switch
  rw [hstate]
  cases r.s.state
  case S_REPLY_STATUS =>
    simpa using parse_status_line_mirrors hs hr
  case S_REPLY_HEADER => simpa using parse_headers_mirrors hs hr
  case S_REPLY_CONTINUE => simpa using parse_headers_mirrors hs hr
  case S_REPLY_FOOTER => simpa using parse_footers_mirrors hs hr
  case S_REPLY_CHUNKED => simpa using xfer_chunked_mirrors hs fun _ => hr
  case S_REPLY_DATA =>
    obtain ⟨hall, hdata, hrest⟩ := parse_data_mirrors hs hr
    refine ⟨nofun, nofun, fun r' hr' => ⟨_, rfl, ?_⟩⟩
    obtain rfl := Option.some.inj (Except.ok.inj hr')
    exact data_read_mirrors hall.symm hdata hrest
  all_goals simp

/-! ## One reply, and one read -/

theorem http_process_loop_refines {r : Rx} (hr : r.s.state.closing = false → r.Fits) :
    Httperf.http_process_loop h.toHandlers r.listed = (http_process_loop h r).map Rx.listed ∧
      ∀ r', http_process_loop h r = .ok r' → r'.s.state.closing = false → r'.Fits := by
  have hfits : ∀ {x : Rx}, http_switch h x ≠ .error .exit_bad_state →
      (x.s.state.closing = false → x.Fits) → x.Fits := by
    intro x hx hfits
    apply hfits
    by_contra hc
    exact hx (http_switch_closing h x (by simpa using hc))
  induction r using http_process_loop.induct h with
  | case1 r e he =>
    have hlist : Httperf.http_switch h.toHandlers r.listed = .error e := by
      by_cases hc : r.s.state.closing = true
      · rw [http_switch_closing h r hc] at he
        obtain rfl := Except.error.inj he
        exact Httperf.http_switch_closing h.toHandlers r.listed hc
      · exact (http_switch_mirrors hs (hr (by simpa using hc))).1 e he
    rw [http_process_loop_error he, Httperf.http_process_loop_error hlist]
    refine ⟨rfl, fun r' hr' => ?_⟩
    cases hr'
  | case2 r he =>
    have hfit := hfits (by simp [he]) hr
    have hlist := (http_switch_mirrors hs hfit).2.1 he
    rw [http_process_loop_none he, Httperf.http_process_loop_none hlist]
    refine ⟨rfl, fun r' hr' _ => ?_⟩
    obtain rfl := Except.ok.inj hr'
    exact hfit
  | case3 r r1 he hc ih =>
    have hfit := hfits (by simp [he]) hr
    obtain ⟨q, hlist, rfl, hfit1⟩ := (http_switch_mirrors hs hfit).2.2 r1 he
    have hc' : r1.listed.buf ≠ [] ∧ ¬ r1.listed.s.state.closing := hc
    rw [http_process_loop_some he, if_pos hc, Httperf.http_process_loop_some hlist, if_pos hc']
    exact ih hfit1
  | case4 r r1 he hc =>
    have hfit := hfits (by simp [he]) hr
    obtain ⟨q, hlist, rfl, hfit1⟩ := (http_switch_mirrors hs hfit).2.2 r1 he
    have hc' : ¬ (r1.listed.buf ≠ [] ∧ ¬ r1.listed.s.state.closing) := hc
    rw [http_process_loop_some he, if_neg hc, Httperf.http_process_loop_some hlist, if_neg hc']
    refine ⟨rfl, fun r' hr' => ?_⟩
    obtain rfl := Except.ok.inj hr'
    exact hfit1

theorem http_process_reply_bytes_refines {r : Rx} (hr : r.Fits) :
    Httperf.http_process_reply_bytes h.toHandlers r.listed =
        (http_process_reply_bytes h r).map Rx.listed ∧
      ∀ r', http_process_reply_bytes h r = .ok r' → r'.s.state.closing = false → r'.Fits := by
  have hevent : Httperf.event_signal h.toHandlers
      (.EV_CALL_RECV_RAW_DATA r.listed.c.id r.listed.buf)
      r.listed = (event_signal h (.EV_CALL_RECV_RAW_DATA r.c.id r.buf) r).listed :=
    (event_signal_listed hs _ r).symm
  obtain ⟨hwriting, hlen⟩ := event_signal_keeps hs (.EV_CALL_RECV_RAW_DATA r.c.id r.buf) hr.writing
  unfold Httperf.http_process_reply_bytes
  rw [hevent]
  exact http_process_loop_refines hs fun _ => ⟨hwriting, by rw [hlen]; exact hr.line, hr.buf⟩

/-- A connection between two reads. -/
structure Conn.Fits (s : Conn) : Prop where
  writing : s.writing = false
  line : s.iov_len < MAX_HDR_LINE_LEN - 1

omit hs in
theorem readOn_listed (s : Conn) : s.readOn.listed = s.listed := by
  unfold Conn.readOn
  split_ifs <;> rfl

omit hs in
theorem store_listed (next : List Call) (r : Rx) : r.listed.store next = (r.store next).listed := by
  have hq : r.listed.s.recvq = r.s.recvq := rfl
  unfold Rx.store Httperf.Rx.store
  rw [hq]
  cases r.s.recvq <;> rfl

theorem do_recv_loop_refines {s : Conn} {buf : List Byte} (log : List Event) (hfits : s.Fits)
    (hbuf : buf.length < 2 ^ 63) :
    Httperf.do_recv_loop h.toHandlers s.listed buf log =
      (do_recv_loop h s buf log).map fun out => (out.1.listed, out.2) := by
  induction hn : s.recvq generalizing s buf log with
  | nil =>
    rw [do_recv_loop_nil buf log hn, Httperf.do_recv_loop_nil buf log hn]
    rfl
  | cons c next ih =>
    have hr : Rx.Fits ⟨s, c, buf, log⟩ := ⟨hfits.writing, hfits.line, hbuf⟩
    obtain ⟨hlist, hrest⟩ := http_process_reply_bytes_refines hs hr
    change Httperf.http_process_reply_bytes h.toHandlers ⟨s.listed, c, buf, log⟩ = _ at hlist
    rw [do_recv_loop_cons buf log hn, Httperf.do_recv_loop_cons buf log hn, hlist]
    rcases hp : http_process_reply_bytes h ⟨s, c, buf, log⟩ with e | r
    · rfl
    · have hdone : Httperf.recv_done h.toHandlers next r.listed = (recv_done h next r).listed :=
        (event_signal_listed hs (.EV_CALL_RECV_STOP r.c.id r.c.reply)
          { r with s := { r.s with recvq := next, reading := r.s.reading && next ≠ [] } }).symm
      have hstore : r.listed.store next = (r.store next).listed := store_listed next r
      have hstate : r.listed.s.state = r.s.state := rfl
      have hbuf' : r.listed.buf = r.buf := rfl
      have hlog' : r.listed.log = r.log := rfl
      dsimp only [Except.map]
      rw [hdone, hstore, hstate, hbuf', hlog']
      by_cases hd : r.s.state = .S_REPLY_DONE
      · have hopen := hrest r hp (by rw [hd]; rfl)
        have hkeeps := event_signal_keeps hs (.EV_CALL_RECV_STOP r.c.id r.c.reply)
          (r := { r with s := { r.s with recvq := next, reading := r.s.reading && next ≠ [] } })
          hopen.writing
        obtain ⟨r1, hr1⟩ : ∃ r1, recv_done h next r = r1 := ⟨_, rfl⟩
        have hopens : r1.s.writing = false ∧ r1.s.iov_len = r.s.iov_len := by
          rw [← hr1]
          exact hkeeps
        have hclosing : r1.listed.s.state.closing = r1.s.state.closing := rfl
        rw [if_pos hd, if_pos hd, hr1, hclosing]
        by_cases hc : r1.s.state.closing = true
        · rw [if_pos hc, if_pos hc]
          rfl
        rw [if_neg hc, if_neg hc]
        by_cases hb : r.buf = []
        · rw [if_pos hb, if_pos hb]
          dsimp only
          rw [readOn_listed]
          rfl
        · have hnext : ({ r1.s with state := .S_REPLY_STATUS } : Conn).recvq = next := by
            rw [← hr1] at hc ⊢
            exact recv_done_recvq hc
          have hfits1 : ({ r1.s with state := .S_REPLY_STATUS } : Conn).Fits := by
            refine ⟨hopens.1, ?_⟩
            change r1.s.iov_len < _
            rw [hopens.2]
            exact hopen.line
          rw [if_neg hb, if_neg hb]
          exact ih r1.log hfits1 hopen.buf hnext
      · rw [if_neg hd, if_neg hd]
        by_cases hb : r.buf = []
        · rw [if_pos hb, if_pos hb]
          dsimp only
          rw [readOn_listed]
        · rw [if_neg hb, if_neg hb]

end

end Httperf.Memory
