-- The receive path does what the decoder does, as long as no handler closes the connection.
-- Each function of the parser takes some steps of the decoder: when the decoder can read the
-- rest of the buffer before the call, it can read what is left after it, and ends the same.
import Httperf.Decoder

namespace Httperf

open Resume

/-- No handler closes the connection. -/
def Handlers.Quiet (h : Handlers) : Prop := ∀ log, h.closes log = false

@[simp] theorem event_signal_quiet {h : Handlers} (hq : h.Quiet) (e : Event) (r : Rx) :
    event_signal h e r = { r with log := r.log ++ [e] } := by
  simp [event_signal, hq _]

/-! ## What the decoder sees -/

/-- The header count depends on the cuts. -/
def Call.erase (c : Call) : Call := { c with reply.header_bytes := 0 }

@[simp] theorem Call.erase_id (c : Call) : c.erase.id = c.id := rfl

@[simp] theorem Call.erase_isHead (c : Call) : c.erase.isHead = c.isHead := rfl

/-- A connection between two reads. -/
def Conn.decoder (s : Conn) (log : List Event) : Decoder :=
  ⟨{ s with recvq := s.recvq.map Call.erase }, merged log⟩

/-- The parser at work on a call, with `next` behind it in the queue. -/
def Rx.decoder (next : List Call) (r : Rx) : Decoder :=
  Decoder.settle ⟨{ r.s with recvq := r.c.erase :: next.map Call.erase }, merged r.log⟩

theorem Rx.decoder_of_ne {next : List Call} {r : Rx} (h : r.s.state ≠ .S_REPLY_DONE) :
    r.decoder next = ⟨{ r.s with recvq := r.c.erase :: next.map Call.erase }, merged r.log⟩ :=
  Decoder.settle_of_ne _ h

/-! ## Lines -/

theorem eol_some {b l t : List Byte} (hc : cutLine b = some (l, t)) (hz : 0 ∉ l) :
    eol b = l.length := by
  obtain ⟨rfl, p, rfl, hp⟩ := cutLine_some hc
  have hstrchr := strchr_lf_line hp (fun hmem => hz (List.mem_append_left _ hmem)) t
  simp [eol, hstrchr]

theorem eol_none {b : List Byte} (hlf : LF ∉ b) : eol b = b.length := by
  unfold eol strchr_lf
  dsimp only
  rw [if_neg]
  exact fun he => hlf (List.mem_of_getElem? he)

/-- A read without an LF that leaves room in the line buffer. -/
theorem get_line_part {r : Rx} (hb : r.buf ≠ []) (hlf : LF ∉ r.buf)
    (hlen : (r.s.line ++ r.buf).length < MAX_HDR_LINE_LEN - 1) :
    get_line r = (false, { r with buf := [], s.line := r.s.line ++ r.buf }) := by
  have heol : eol r.buf = r.buf.length := eol_none hlf
  rw [List.length_append] at hlen
  have hcopy : to_copy r.s.line r.buf = r.buf.length := by
    unfold to_copy
    rw [heol, if_neg (by unfold MAX_HDR_LINE_LEN at *; omega)]
  have hlast : (r.s.line ++ r.buf).getLast? ≠ some LF := by
    rw [List.getLast?_append_of_ne_nil _ hb]
    exact fun he => hlf (List.mem_of_getLast? he)
  have hfull : (r.s.line ++ r.buf).length ≠ MAX_HDR_LINE_LEN - 1 := by
    rw [List.length_append]
    omega
  simp only [get_line, hb, if_false, hcopy, heol, List.take_length, List.drop_length,
    hlast, hfull, decide_false, Bool.or_self, Bool.false_eq_true]

theorem get_line_none {r : Rx} (hb : r.buf ≠ []) (hf : lineFits r.s.line r.buf)
    (hc : cutLine r.buf = none) :
    get_line r = (false, { r with buf := [], s.line := r.s.line ++ r.buf }) := by
  simp only [lineFits, hc] at hf
  exact get_line_part hb (cutLine_none hc) hf.2

theorem get_line_some {r : Rx} {l t : List Byte} (hf : lineFits r.s.line r.buf)
    (hc : cutLine r.buf = some (l, t)) :
    get_line r = (true, { r with buf := t, s.line := chop (r.s.line ++ l) }) := by
  simp only [lineFits, hc, MAX_HDR_LINE_LEN, List.length_append, List.mem_append, not_or] at hf
  have heol := eol_some hc hf.1.2
  obtain ⟨hb, p, hp, _⟩ := cutLine_some hc
  have hne : r.buf ≠ [] := by rw [hb, hp]; simp
  have hcopy : to_copy r.s.line r.buf = l.length := by
    simp only [to_copy, heol, MAX_HDR_LINE_LEN]
    rw [if_neg (by omega)]
  have htake : r.buf.take l.length = l := by rw [hb]; simp
  have hdrop : r.buf.drop l.length = t := by rw [hb]; simp
  have hlast : (r.s.line ++ l).getLast? = some LF := by rw [hp]; simp
  simp [get_line, hne, hcopy, heol, htake, hdrop, hlast]

/-! ## The functions of the parser -/

/-- The decoder reads what is left of the buffer and ends in `t`. -/
structure Rx.Reads (next : List Call) (r : Rx) (t : Decoder) : Prop where
  queued : r.s.recvq ≠ []
  drains : Drains Decoder.machine (r.decoder next) r.buf t

/-- Between the replies the decoder is in the state of the parser. -/
theorem Rx.Reads.of_ne {next : List Call} {r : Rx} {t : Decoder} (hq : r.s.recvq ≠ [])
    (hs : r.s.state ≠ .S_REPLY_DONE)
    (hd : Drains Decoder.machine
      ⟨{ r.s with recvq := r.c.erase :: next.map Call.erase }, merged r.log⟩ r.buf t) :
    r.Reads next t :=
  ⟨hq, by rwa [Rx.decoder_of_ne hs]⟩

/-- The decoder in the middle of a line that all of the buffer belongs to. -/
def Rx.midLine (next : List Call) (r : Rx) : Decoder :=
  ⟨{ Decoder.prelude r.s with
      line := r.s.line ++ r.buf
      recvq := Decoder.countFooter r.s r.buf.length r.c.erase :: next.map Call.erase },
    merged r.log⟩

/-- The decoder after the line `l` of the stream. -/
def Rx.onLine (next : List Call) (r : Rx) (l : List Byte) : Decoder :=
  Decoder.settle (Decoder.join (next.map Call.erase) (merged r.log)
    (Decoder.onLine { Decoder.prelude r.s with line := [], recvq := next.map Call.erase }
      (Decoder.countFooter r.s l.length r.c.erase) (chop (r.s.line ++ l))))

/-- The next line goes on in the next read, or it is complete. -/
theorem Rx.Reads.line {next : List Call} {r : Rx} {t : Decoder} (hd : r.Reads next t)
    (hs : r.s.state ≠ .S_REPLY_DONE) (hl : Decoder.lineMode r.s r.c.erase = true)
    (hb : r.buf ≠ []) :
    lineFits r.s.line r.buf ∧
      ((cutLine r.buf = none ∧ t = r.midLine next) ∨
        ∃ l b, cutLine r.buf = some (l, b) ∧
          Decoder.lineSound r.s r.c.erase (chop (r.s.line ++ l)) ∧
          Drains Decoder.machine (r.onLine next l) b t) := by
  obtain ⟨⟨c, n, hq, _, hfit⟩, hrun⟩ := Drains.step hd.drains hb
  rw [Rx.decoder_of_ne hs] at hq hfit hrun
  obtain ⟨rfl, rfl⟩ : r.c.erase = c ∧ next.map Call.erase = n := by simpa using hq
  obtain ⟨hfit, hsound⟩ := hfit hl
  refine ⟨hfit, ?_⟩
  rcases hc : cutLine r.buf with _ | ⟨l, b⟩
  · refine Or.inl ⟨rfl, ?_⟩
    change Drains _ (Decoder.step _ _).1 (Decoder.step _ _).2 t at hrun
    rw [Decoder.step_line_none rfl hl hc, Decoder.midLine, Decoder.prelude_recvq] at hrun
    exact hrun.nil_eq
  · refine Or.inr ⟨l, b, rfl, hsound l b hc, ?_⟩
    change Drains _ (Decoder.step _ _).1 (Decoder.step _ _).2 t at hrun
    rw [Decoder.step_line_some rfl hl hc, Decoder.prelude_recvq] at hrun
    exact hrun

/-- An incomplete line. The call in `r` may have other counts than the one in `r0`. -/
theorem Rx.Reads.line_part {next : List Call} {r0 : Rx} {t : Decoder} (hd : r0.Reads next t)
    (r : Rx) (hr : r.s = r0.s ∧ r.buf = r0.buf) (hs : r0.s.state ≠ .S_REPLY_DONE)
    (hl : Decoder.lineMode r0.s r0.c.erase = true) (hf : (get_line r).1 = false) :
    (get_line r).2 = r ∧ r.buf = [] ∨
      (get_line r).2 = { r with buf := [], s.line := r.s.line ++ r.buf } ∧ t = r0.midLine next := by
  by_cases hb : r.buf = []
  · left; simp [get_line, hb]
  · right
    obtain ⟨hfit, hline⟩ := hd.line hs hl (hr.2 ▸ hb)
    rw [← hr.1, ← hr.2] at hfit
    rcases hline with ⟨hc, ht⟩ | ⟨l, b, hc, _, _⟩ <;> rw [← hr.2] at hc
    · rw [get_line_none hb hfit hc]
      exact ⟨rfl, ht⟩
    · rw [get_line_some hfit hc] at hf
      cases hf

/-- A complete line. -/
theorem Rx.Reads.line_done {next : List Call} {r0 : Rx} {t : Decoder} (hd : r0.Reads next t)
    (r : Rx) (hr : r.s = r0.s ∧ r.buf = r0.buf) (hs : r0.s.state ≠ .S_REPLY_DONE)
    (hl : Decoder.lineMode r0.s r0.c.erase = true) (hf : ¬ (get_line r).1 = false) :
    ∃ l b, r.buf = l ++ b ∧
      (get_line r).2 = { r with buf := b, s.line := chop (r.s.line ++ l) } ∧
      Decoder.lineSound r0.s r0.c.erase (chop (r0.s.line ++ l)) ∧
      Drains Decoder.machine (r0.onLine next l) b t := by
  have hb : r.buf ≠ [] := by
    intro he
    simp [get_line, he] at hf
  obtain ⟨hfit, hline⟩ := hd.line hs hl (hr.2 ▸ hb)
  rw [← hr.1, ← hr.2] at hfit
  rcases hline with ⟨hc, _⟩ | ⟨l, b, hc, hsound, hrun⟩ <;> rw [← hr.2] at hc
  · simp [get_line_none hb hfit hc] at hf
  · exact ⟨l, b, (cutLine_some hc).1, by rw [get_line_some hfit hc], hsound, hrun⟩

/-- What `status_line_read` makes of a line that parses. -/
theorem status_line_read_eq {h : Handlers} (hq : h.Quiet) (start : Nat) {r : Rx}
    {major minor status : Nat} (hs : r.s.state = .S_REPLY_STATUS)
    (hp : scan_status_line (cstr r.s.line) = some (major, minor, status)) :
    status_line_read h start r =
      { r with
        s.has_body := has_body_of r.c.isHead status
        s.line := []
        s.state := if !r.c.isHead && status = 100 then .S_REPLY_CONTINUE else .S_REPLY_HEADER
        c.reply.version := (0x10000 * major + minor) % 2 ^ 32
        c.reply.status := u_int_to_int status
        c.reply.header_bytes := r.c.reply.header_bytes + UInt64.ofNat (start - r.buf.length)
        log := r.log ++ [.EV_CALL_RECV_START r.c.id (u_int_to_int status)] } := by
  unfold status_line_read status_values status_done
  simp only [hp, event_signal_quiet hq, hs, ConnState.closing, Bool.false_eq_true, if_false]
  split <;> rfl

theorem parse_status_line_reads {h : Handlers} (hq : h.Quiet) {next : List Call} {r : Rx}
    {t : Decoder} (hd : r.Reads next t) (hs : r.s.state = .S_REPLY_STATUS) (hb : r.buf ≠ []) :
    (parse_status_line h r).Reads next t := by
  obtain ⟨hfit, hline⟩ := hd.line (by simp [hs]) (by simp [Decoder.lineMode, hs]) hb
  have hqueue := hd.queued
  rcases hline with ⟨hc, rfl⟩ | ⟨l, b, hc, ⟨hparse, _⟩, hrun⟩
  · have hget := get_line_none (r := { r with s.is_chunked := false, s.content_length := SIZE_MAX })
      hb hfit hc
    simp only [parse_status_line, hget, if_true]
    have : r.midLine next = ⟨{ r.s with
        is_chunked := false
        content_length := SIZE_MAX
        line := r.s.line ++ r.buf
        recvq := r.c.erase :: next.map Call.erase }, merged r.log⟩ := by
      simp [Rx.midLine, Decoder.prelude, Decoder.countFooter, hs]
    rw [this]
    exact .of_ne hqueue (by simp [hs]) (.refl _ _)
  · have hget := get_line_some (r := { r with s.is_chunked := false, s.content_length := SIZE_MAX })
      hfit hc
    obtain ⟨⟨major, minor, status⟩, hp⟩ := Option.isSome_iff_exists.mp (hparse hs)
    simp only [parse_status_line, hget, if_false, Bool.true_eq_false]
    rw [status_line_read_eq hq r.buf.length (by exact hs) hp]
    have : r.onLine next l = ⟨{ r.s with
        is_chunked := false
        content_length := SIZE_MAX
        has_body := has_body_of r.c.isHead status
        line := []
        state := if !r.c.isHead && status = 100 then .S_REPLY_CONTINUE else .S_REPLY_HEADER
        recvq := { r.c.erase with
          reply.version := (0x10000 * major + minor) % 2 ^ 32
          reply.status := u_int_to_int status } :: next.map Call.erase },
        merged (r.log ++ [.EV_CALL_RECV_START r.c.id (u_int_to_int status)])⟩ := by
      have hjoin : scan_status_line (cstr (chop (r.s.line ++ l))) = some (major, minor, status) :=
        hp
      simp only [Rx.onLine, Decoder.prelude, Decoder.countFooter, Decoder.onLine, hs, if_true,
        if_false, reduceCtorEq, Decoder.onStatus, hjoin, Decoder.join, Option.map_some,
        Option.getD_some, merged_snoc]
      exact Decoder.settle_of_ne _ (by dsimp only; split <;> simp)
    rw [this] at hrun
    exact .of_ne hqueue (by dsimp only; split <;> simp) hrun

theorem header_field_set (s : Conn) (l : List Byte) (q : List Call) (hdr : List Byte) :
    header_field { s with line := l, recvq := q } hdr =
      { header_field s hdr with line := l, recvq := q } := by
  unfold header_field
  split_ifs <;> rfl

theorem headers_end_set (s : Conn) (l : List Byte) (q : List Call) :
    headers_end { s with line := l, recvq := q } =
      { headers_end s with line := l, recvq := q } := by
  unfold headers_end
  split_ifs <;> rfl

theorem headers_end_s (s : Conn) :
    (headers_end s).line = s.line ∧ (headers_end s).recvq = s.recvq := by
  unfold headers_end
  split_ifs <;> exact ⟨rfl, rfl⟩

/-- The two states in which header lines are read. -/
def ConnState.inHeader (st : ConnState) : Prop := st = .S_REPLY_HEADER ∨ st = .S_REPLY_CONTINUE

theorem ConnState.inHeader.ne_done {st : ConnState} (h : st.inHeader) : st ≠ .S_REPLY_DONE := by
  rcases h with rfl | rfl <;> simp

theorem ConnState.inHeader.lineMode {s : Conn} (h : s.state.inHeader) (c : Call) :
    Decoder.lineMode s c = true := by
  rcases h with h | h <;> simp [Decoder.lineMode, h]

theorem Rx.midLine_header {next : List Call} {r : Rx} (hs : r.s.state.inHeader) :
    r.midLine next = ⟨{ r.s with
      line := r.s.line ++ r.buf
      recvq := r.c.erase :: next.map Call.erase }, merged r.log⟩ := by
  rcases hs with hs | hs <;> simp [Rx.midLine, Decoder.prelude, Decoder.countFooter, hs]

theorem Rx.onLine_header {next : List Call} {r : Rx} (hs : r.s.state.inHeader) (l : List Byte) :
    r.onLine next l = Decoder.settle (Decoder.join (next.map Call.erase) (merged r.log)
      (Decoder.onHeader { r.s with line := [], recvq := next.map Call.erase } r.c.erase
        (chop (r.s.line ++ l)))) := by
  rcases hs with hs | hs <;>
    simp [Rx.onLine, Decoder.prelude, Decoder.countFooter, Decoder.onLine, hs]

theorem parse_headers_loop_reads {h : Handlers} (hq : h.Quiet) {next : List Call} {r : Rx}
    {t : Decoder} (hd : r.Reads next t) (hs : r.s.state.inHeader) :
    (parse_headers_loop h r).1 = true ∧ (parse_headers_loop h r).2.Reads next t := by
  induction r using parse_headers_loop.induct h with
  | case1 r hf =>
    rw [parse_headers_loop]
    simp only [hf, if_true, true_and]
    rcases hd.line_part r ⟨rfl, rfl⟩ hs.ne_done (hs.lineMode _) hf with ⟨h1, _⟩ | ⟨h1, rfl⟩
    · rwa [h1]
    · rw [h1, Rx.midLine_header hs]
      exact .of_ne hd.queued hs.ne_done (.refl _ _)
  | case2 r r1 hf he =>
    obtain ⟨l, b, _, hget, _, hrun⟩ := hd.line_done r ⟨rfl, rfl⟩ hs.ne_done (hs.lineMode _) hf
    rw [parse_headers_loop]
    simp only [r1, hget] at he
    rw [Rx.onLine_header hs, he] at hrun
    simp only [hf, Bool.true_eq_false, if_false, hget, he, if_true, true_and]
    refine ⟨?_, ?_⟩
    · simpa only [headers_end_s] using hd.queued
    · simpa [Rx.decoder, Decoder.onHeader, Decoder.join, headers_end_set] using hrun
  | case3 r r1 hf he r2 r3 hc =>
    -- the handlers leave the connection open
    have hopen : r3.s.state = r.s.state := by
      simp only [r3, r2, r1, event_signal_quiet hq, header_field_s, get_line_s]
    rcases hs with hs | hs <;> simp [hopen, hs, ConnState.closing] at hc
  | case4 r r1 hf he r2 r3 hc ih =>
    obtain ⟨l, b, _, hget, _, hrun⟩ := hd.line_done r ⟨rfl, rfl⟩ hs.ne_done (hs.lineMode _) hf
    rw [parse_headers_loop]
    simp only [hf, r1, he, r2, r3, hc, if_false, Bool.false_eq_true]
    simp only [r1, hget] at he
    have hstate : r3.s.state = r.s.state := by
      simp only [r3, r2, r1, event_signal_quiet hq, header_field_s, get_line_s]
    apply ih
    · rw [Rx.onLine_header hs] at hrun
      apply Rx.Reads.of_ne
      · simpa [r3, r2, r1, hq, header_field_s, get_line_s] using hd.queued
      · exact hstate ▸ hs.ne_done
      · simp only [Decoder.onHeader, he, Decoder.join, header_field_set, if_false, Option.map_some,
          Option.getD_some] at hrun
        rw [Decoder.settle_of_ne _ (by simpa only [header_field_s] using hs.ne_done)] at hrun
        simpa [r3, r2, r1, hget, hq, header_field_set] using hrun
    · exact hstate ▸ hs

theorem parse_headers_reads {h : Handlers} (hq : h.Quiet) {next : List Call} {r : Rx}
    {t : Decoder} (hd : r.Reads next t) (hs : r.s.state.inHeader) :
    (parse_headers h r).Reads next t := by
  obtain ⟨htrue, hreads⟩ := parse_headers_loop_reads hq hd hs
  unfold parse_headers
  split
  · simp_all
  · rename_i r' heq
    rw [heq] at hreads
    exact ⟨hreads.queued, hreads.drains⟩

/-- Bytes that `parse_footers` has read and counts only at its end. -/
def Rx.owing (k : Nat) (r : Rx) : Rx :=
  { r with c.reply.footer_bytes := r.c.reply.footer_bytes + UInt64.ofNat k }

theorem Rx.midLine_footer {next : List Call} {r : Rx} (hs : r.s.state = .S_REPLY_FOOTER) :
    r.midLine next = ⟨{ r.s with
      line := r.s.line ++ r.buf
      recvq := (r.owing r.buf.length).c.erase :: next.map Call.erase }, merged r.log⟩ := by
  simp [Rx.midLine, Decoder.prelude, Decoder.countFooter, hs, Rx.owing, Call.erase]

theorem Rx.onLine_footer {next : List Call} {r : Rx} (hs : r.s.state = .S_REPLY_FOOTER)
    (l : List Byte) :
    r.onLine next l = Decoder.settle (Decoder.join (next.map Call.erase) (merged r.log)
      (Decoder.onFooter { r.s with line := [], recvq := next.map Call.erase }
        (r.owing l.length).c.erase (chop (r.s.line ++ l)))) := by
  simp [Rx.onLine, Decoder.prelude, Decoder.countFooter, Decoder.onLine, hs, Rx.owing, Call.erase]

theorem Rx.owing_owing (m n : Nat) (r : Rx) : (r.owing m).owing n = r.owing (m + n) := by
  simp [Rx.owing, UInt64.ofNat_add, UInt64.add_assoc]

theorem parse_footers_loop_reads {h : Handlers} (hq : h.Quiet) {next : List Call} {r : Rx}
    {t : Decoder} (hs : r.s.state = .S_REPLY_FOOTER) :
    ∀ k, (r.owing k).Reads next t → (parse_footers_loop h r).1 = true ∧
      ((parse_footers_loop h r).2.owing
        (k + (r.buf.length - (parse_footers_loop h r).2.buf.length))).Reads next t := by
  induction r using parse_footers_loop.induct h with
  | case1 r hf =>
    intro k hd
    have hne : (r.owing k).s.state ≠ .S_REPLY_DONE := by simp [Rx.owing, hs]
    rw [parse_footers_loop]
    simp only [hf, if_true, true_and]
    rcases hd.line_part r ⟨rfl, rfl⟩ hne (by simp [Rx.owing, hs, Decoder.lineMode]) hf with
      ⟨h1, _⟩ | ⟨h1, rfl⟩
    · simpa [h1] using hd
    · rw [h1, Rx.midLine_footer (r := r.owing k) hs, Rx.owing_owing]
      exact .of_ne hd.queued hne (.refl _ _)
  | case2 r r1 hf he =>
    intro k hd
    have hne : (r.owing k).s.state ≠ .S_REPLY_DONE := by simp [Rx.owing, hs]
    obtain ⟨l, b, hb, hget, _, hrun⟩ :=
      hd.line_done r ⟨rfl, rfl⟩ hne (by simp [Rx.owing, hs, Decoder.lineMode]) hf
    have hk : r.buf.length - b.length = l.length := by rw [hb, List.length_append]; omega
    rw [parse_footers_loop]
    simp only [r1, hget] at he
    rw [Rx.onLine_footer (r := r.owing k) hs, Rx.owing_owing] at hrun
    simp only [hf, Bool.true_eq_false, if_false, hget, he, if_true, true_and, hk]
    refine ⟨hd.queued, ?_⟩
    simpa [Rx.decoder, Rx.owing, Decoder.onFooter, Decoder.join, he] using hrun
  | case3 r r1 hf he r2 hc =>
    have hopen : r2.s.state = r.s.state := by
      simp only [r2, r1, event_signal_quiet hq, get_line_s]
    simp [hopen, hs, ConnState.closing] at hc
  | case4 r r1 hf he r2 hc ih =>
    intro k hd
    have hne : (r.owing k).s.state ≠ .S_REPLY_DONE := by simp [Rx.owing, hs]
    obtain ⟨l, b, hb, hget, _, hrun⟩ :=
      hd.line_done r ⟨rfl, rfl⟩ hne (by simp [Rx.owing, hs, Decoder.lineMode]) hf
    have heq : parse_footers_loop h r = parse_footers_loop h { r2 with s.line := [] } := by
      rw [parse_footers_loop]
      simp only [hf, r1, he, r2, hc, if_false, Bool.true_eq_false, Bool.false_eq_true]
    rw [heq]
    simp only [r1, hget] at he
    have hstate : r2.s.state = .S_REPLY_FOOTER := by
      simp only [r2, r1, event_signal_quiet hq, get_line_s, hs]
    rw [Rx.onLine_footer (r := r.owing k) hs, Rx.owing_owing] at hrun
    have hreads : (Rx.owing (k + l.length) { r2 with s.line := [] }).Reads next t := by
      apply Rx.Reads.of_ne
      · simpa [r2, r1, hq, get_line_s, Rx.owing] using hd.queued
      · simp [Rx.owing, hstate]
      · have hline : chop ((r.owing k).s.line ++ l) ≠ [] := he
        simp only [Decoder.onFooter, hline, Decoder.join, if_false, Option.map_some,
          Option.getD_some] at hrun
        rw [Decoder.settle_of_ne _ (by simp [Rx.owing, hs])] at hrun
        simpa [r2, r1, hget, hq, Rx.owing] using hrun
    obtain ⟨htrue, hih⟩ := ih hstate (k + l.length) hreads
    refine ⟨htrue, ?_⟩
    have hbuf : r2.buf.length = b.length := by simp only [r2, r1, event_signal_buf, hget]
    have hlen : r.buf.length = l.length + b.length := by rw [hb, List.length_append]
    have hle := ((parse_footers_loop_suffix h { r2 with s.line := [] }).trans
      (get_line_suffix { r2 with s.line := [] })).length_le
    have hk : k + l.length + (r2.buf.length -
        (parse_footers_loop h { r2 with s.line := [] }).2.buf.length) =
        k + (r.buf.length - (parse_footers_loop h { r2 with s.line := [] }).2.buf.length) := by
      change _ ≤ r2.buf.length at hle
      omega
    rw [← hk]
    exact hih

theorem parse_footers_reads {h : Handlers} (hq : h.Quiet) {next : List Call} {r : Rx}
    {t : Decoder} (hd : r.Reads next t) (hs : r.s.state = .S_REPLY_FOOTER) :
    (parse_footers h r).Reads next t := by
  obtain ⟨htrue, hreads⟩ := parse_footers_loop_reads hq hs 0 (by simpa [Rx.owing] using hd)
  unfold parse_footers
  split
  · simp_all
  · rename_i r' heq
    rw [heq] at hreads
    simpa [Rx.owing] using hreads

theorem parse_data_quiet {h : Handlers} (hq : h.Quiet) (r : Rx) :
    parse_data h r = (decide (min r.buf.length (bytes_needed r) = bytes_needed r),
      { r with
        c.reply.content_bytes := r.c.reply.content_bytes +
          UInt64.ofNat (min r.buf.length (bytes_needed r))
        buf := r.buf.drop (min r.buf.length (bytes_needed r))
        log := r.log ++ [.EV_CALL_RECV_DATA r.c.id
          (r.buf.take (min r.buf.length (bytes_needed r)))] }) := by
  simp [parse_data, hq]

/-- A step of the decoder that reads data. -/
theorem Rx.Reads.data {next : List Call} {r : Rx} {t : Decoder} (hd : r.Reads next t)
    (hs : r.s.state ≠ .S_REPLY_DONE) (hl : Decoder.lineMode r.s r.c.erase = false)
    (hb : r.buf ≠ []) :
    Drains Decoder.machine (Decoder.settle (Decoder.onData r.s r.c.erase (next.map Call.erase)
      (merged r.log) (r.buf.take (min r.buf.length (bytes_needed r)))
      (min r.buf.length (bytes_needed r) = bytes_needed r)))
      (r.buf.drop (min r.buf.length (bytes_needed r))) t := by
  have hrun := (Drains.step hd.drains hb).2
  rw [Rx.decoder_of_ne hs] at hrun
  change Drains _ (Decoder.step _ _).1 (Decoder.step _ _).2 t at hrun
  rw [Decoder.step_data _ rfl hl] at hrun
  exact hrun

theorem parse_data_reads {h : Handlers} (hq : h.Quiet) {next : List Call} {r : Rx}
    {t : Decoder} (hd : r.Reads next t) (hs : r.s.state = .S_REPLY_CHUNKED)
    (hl : Decoder.lineMode r.s r.c.erase = false) (hb : r.buf ≠ []) :
    (parse_data h r).2.Reads next t := by
  have hrun := hd.data (by simp [hs]) hl hb
  rw [Decoder.settle_of_ne _ (by simp [Decoder.onData, hs])] at hrun
  rw [parse_data_quiet hq]
  apply Rx.Reads.of_ne
  · exact hd.queued
  · simp [hs]
  · simpa [Decoder.onData, hs, Call.erase] using hrun

/-- A reply with a declared length ends with the last byte of it. -/
theorem data_switch_reads {h : Handlers} (hq : h.Quiet) {next : List Call} {r r' : Rx}
    {t : Decoder} (hd : r.Reads next t) (hs : r.s.state = .S_REPLY_DATA) (hb : r.buf ≠ [])
    (hr : http_switch h r = .ok (some r')) : r'.Reads next t := by
  have hrun := hd.data (by simp [hs]) (by simp [Decoder.lineMode, hs]) hb
  simp only [http_switch, hs, parse_data_quiet hq, ConnState.closing, Bool.not_false,
    Bool.and_true, Except.ok.injEq, Option.some.injEq, decide_eq_true_eq] at hr
  subst hr
  split <;> rename_i hall
  · have hlen : (r.buf.take (bytes_needed r)).length = bytes_needed r := by
      rw [List.length_take]
      omega
    simp only [hall] at hrun ⊢
    refine ⟨hd.queued, ?_⟩
    simpa [Rx.decoder, Decoder.onData, hs, -List.length_take, hlen, Call.erase] using hrun
  · rw [Decoder.settle_of_ne _ (by simp [Decoder.onData, hs, hall])] at hrun
    apply Rx.Reads.of_ne
    · exact hd.queued
    · simp [hs]
    · simpa [Decoder.onData, hs, hall, Call.erase] using hrun

/-- A chunk line that sets no new length is skipped. -/
theorem Rx.onLine_chunk {next : List Call} {r : Rx} (hs : r.s.state = .S_REPLY_CHUNKED)
    (l : List Byte) :
    r.onLine next l = Decoder.settle (Decoder.join (next.map Call.erase) (merged r.log)
      (Decoder.onChunk { r.s with line := [], recvq := next.map Call.erase } r.c.erase
        (chop (r.s.line ++ l)))) := by
  simp [Rx.onLine, Decoder.prelude, Decoder.countFooter, Decoder.onLine, hs]

theorem Rx.midLine_chunk {next : List Call} {r : Rx} (hs : r.s.state = .S_REPLY_CHUNKED) :
    r.midLine next = ⟨{ r.s with
      line := r.s.line ++ r.buf
      recvq := r.c.erase :: next.map Call.erase }, merged r.log⟩ := by
  simp [Rx.midLine, Decoder.prelude, Decoder.countFooter, hs]

theorem Rx.lineMode_chunk {r : Rx} (hs : r.s.state = .S_REPLY_CHUNKED) :
    Decoder.lineMode r.s r.c.erase = true ↔ r.s.content_length ≤ r.c.reply.content_bytes := by
  unfold Decoder.lineMode Call.erase
  simp [hs]

/-- A complete chunk line. -/
theorem Rx.Reads.chunk_line {next : List Call} {r : Rx} {t : Decoder} (hd : r.Reads next t)
    (hs : r.s.state = .S_REPLY_CHUNKED) (hl : r.s.content_length ≤ r.c.reply.content_bytes)
    (hf : ¬ (get_line r).1 = false) :
    ∃ l b, (get_line r).2 = { r with buf := b, s.line := chop (r.s.line ++ l) } ∧
      Decoder.lineSound r.s r.c.erase (chop (r.s.line ++ l)) ∧
      Drains Decoder.machine (Decoder.settle (Decoder.join (next.map Call.erase) (merged r.log)
        (Decoder.onChunk { r.s with line := [], recvq := next.map Call.erase } r.c.erase
          (chop (r.s.line ++ l))))) b t := by
  have hmode := (Rx.lineMode_chunk hs).mpr hl
  obtain ⟨l, b, -, hget, hsound, hrun⟩ := hd.line_done r ⟨rfl, rfl⟩ (by simp [hs]) hmode hf
  rw [Rx.onLine_chunk hs] at hrun
  exact ⟨l, b, hget, hsound, hrun⟩

/-- Behind a chunk line the parser signals the data at once, also when the buffer is used up. -/
theorem parse_data_reads_size {h : Handlers} (hq : h.Quiet) {next : List Call} {r : Rx}
    {t : Decoder} (hs : r.s.state = .S_REPLY_CHUNKED)
    (hl : Decoder.lineMode r.s r.c.erase = false)
    (hd : Rx.Reads next { r with log := r.log ++ [.EV_CALL_RECV_DATA r.c.id []] } t) :
    (parse_data h r).2.Reads next t := by
  by_cases hb : r.buf = []
  · rw [parse_data_quiet hq]
    refine ⟨hd.queued, ?_⟩
    simpa [Rx.decoder, hb] using hd.drains
  · have hdata := parse_data_reads hq hd hs hl hb
    rw [parse_data_quiet hq] at hdata ⊢
    refine ⟨hd.queued, ?_⟩
    simpa [Rx.decoder, pushEvent_data, bytes_needed, -List.append_assoc] using hdata.drains

theorem xfer_chunked_reads {h : Handlers} (hq : h.Quiet) {next : List Call} {r : Rx}
    {t : Decoder} (hd : r.Reads next t) (hs : r.s.state = .S_REPLY_CHUNKED) :
    (xfer_chunked h r).Reads next t := by
  induction r using xfer_chunked.induct h with
  | case1 r hc => rw [xfer_chunked]; simpa [hc] using hd
  | case2 r hc hl hf =>
    have hmode := (Rx.lineMode_chunk hs).mpr hl
    rw [xfer_chunked]
    simp only [hc, hl, hf, if_true, if_false]
    rcases hd.line_part r ⟨rfl, rfl⟩ (by simp [hs]) hmode hf with ⟨h1, _⟩ | ⟨h1, rfl⟩
    · rwa [h1]
    · rw [h1, Rx.midLine_chunk hs]
      exact .of_ne hd.queued (by simp [hs]) (.refl _ _)
  | case3 r hc hl r1 hf he ih =>
    obtain ⟨l, b, hget, _, hrun⟩ := hd.chunk_line hs hl hf
    have hs1 : r1.s.state = .S_REPLY_CHUNKED := by simp only [r1, get_line_s, hs]
    rw [xfer_chunked]
    simp only [hc, hl, hf, r1, he, Bool.true_eq_false, if_true, if_false]
    simp only [r1, hget] at he
    rw [he, Decoder.settle_of_ne _ (by simp [Decoder.join, Decoder.onChunk, hs])] at hrun
    refine ih (.of_ne ?_ (by simp [hs1]) ?_) hs1
    · simpa only [r1, get_line_s] using hd.queued
    · simpa [r1, hget, he, Decoder.join, Decoder.onChunk] using hrun
  | case4 r hc hl r1 hf he n r2 hn ih =>
    obtain ⟨l, b, hget, _, hrun⟩ := hd.chunk_line hs hl hf
    have hs2 : r2.s.state = .S_REPLY_CHUNKED := by simp only [r2, r1, get_line_s, hs]
    rw [xfer_chunked]
    simp only [hc, hl, hf, r1, he, n, hn, Bool.true_eq_false, if_true, if_false]
    simp only [n, r1, hget] at he hn
    simp only [Decoder.onChunk, hn, Bool.or_assoc, Bool.or_true, if_true, Decoder.join] at hrun
    rw [Decoder.settle_of_ne _ (by simp [hs])] at hrun
    refine ih (.of_ne ?_ (by simp [hs2]) ?_) hs2
    · simpa only [r2, r1, get_line_s] using hd.queued
    · simpa [r2, r1, hget] using hrun
  | case5 r hc hl r1 hf he n hn hz =>
    obtain ⟨l, b, hget, _, hrun⟩ := hd.chunk_line hs hl hf
    rw [xfer_chunked]
    simp only [hc, hl, hf, r1, he, n, hn, hz, Bool.true_eq_false, Bool.false_eq_true, if_true,
      if_false]
    simp only [n, r1, hget] at he hn hz
    simp only [Decoder.onChunk, he, hn, hz, decide_false, Bool.false_or, Bool.false_eq_true,
      if_true, if_false, Decoder.join] at hrun
    rw [Decoder.settle_of_ne _ (by simp)] at hrun
    apply Rx.Reads.of_ne
    · simpa only [get_line_s] using hd.queued
    · simp
    · simpa [hget] using hrun
  | case6 r hc hl r1 hf he n r2 hn hz r3 ih =>
    obtain ⟨l, b, hget, hsound, hrun⟩ := hd.chunk_line hs hl hf
    have hs3 : r3.s.state = .S_REPLY_CHUNKED := by simp only [r3, r2, r1, get_line_s, hs]
    rw [xfer_chunked]
    simp only [hc, hl, hf, r1, he, n, hn, hz, Bool.true_eq_false, Bool.false_eq_true, if_true,
      if_false]
    have hsize := (hsound.2 hs)
    simp only [n, r1, hget] at he hn hz
    simp only [he, ne_eq, not_false_eq_true, forall_const] at hsize
    simp only [Decoder.onChunk, he, hn, hz, decide_false, Bool.false_or, Bool.false_eq_true,
      if_false, Decoder.join] at hrun
    rw [Decoder.settle_of_ne _ (by simp [hs])] at hrun
    have hreads : Rx.Reads next { r3 with log := r3.log ++ [.EV_CALL_RECV_DATA r3.c.id []] } t := by
      apply Rx.Reads.of_ne
      · simpa only [r3, r2, r1, get_line_s] using hd.queued
      · simp [hs3]
      · simpa [r3, r2, r1, n, hget] using hrun
    refine ih (parse_data_reads_size hq hs3 ?_ hreads) (by rw [parse_data_quiet hq]; exact hs3)
    rw [← Bool.not_eq_true, Rx.lineMode_chunk hs3, UInt64.not_le, UInt64.lt_iff_toNat_lt]
    obtain ⟨hconv, hrange⟩ : (strtoul (cstr (chop (r.s.line ++ l))) 16).erange = false ∧
        (strtoul (cstr (chop (r.s.line ++ l))) 16).converted = true := by simpa using hn
    obtain ⟨hlt, hcount⟩ := hsize hconv hrange hz
    have hval : (strtoul (cstr (chop (r.s.line ++ l))) 16).val < 2 ^ 64 := by omega
    simp only [r3, r2, r1, n, hget]
    rw [UInt64.toNat_add, UInt64.toNat_ofNat_of_lt' hval, Nat.mod_eq_of_lt hlt]
    exact hcount
  | case7 r hc hl ih =>
    have hmode : Decoder.lineMode r.s r.c.erase = false := by
      rw [← Bool.not_eq_true, Rx.lineMode_chunk hs]
      exact hl
    rw [xfer_chunked]
    simp only [hc, hl, if_false]
    refine ih (parse_data_reads hq hd hs hmode (fun he => hc (Or.inl he))) ?_
    rw [parse_data_quiet hq]
    exact hs

/-! ## The loops -/

theorem Rx.Reads.reading {next : List Call} {r : Rx} {t : Decoder} (hd : r.Reads next t)
    (hs : r.s.state ≠ .S_REPLY_DONE) (hb : r.buf ≠ []) : Decoder.reading r.s.state = true := by
  obtain ⟨⟨c, n, _, hr, _⟩, _⟩ := Drains.step hd.drains hb
  rwa [Rx.decoder_of_ne hs] at hr

/-- Each iteration takes the decoder further. -/
theorem http_switch_reads {h : Handlers} (hq : h.Quiet) {next : List Call} {r : Rx}
    {t : Decoder} (hd : r.Reads next t) (hs : r.s.state ≠ .S_REPLY_DONE) (hb : r.buf ≠ []) :
    ∃ r', http_switch h r = .ok (some r') ∧ r'.Reads next t := by
  have hr := hd.reading hs hb
  cases hst : r.s.state <;> simp only [hst, Decoder.reading, reduceCtorEq] at hr
  case S_REPLY_STATUS =>
    exact ⟨_, by simp [http_switch, hst], parse_status_line_reads hq hd hst hb⟩
  case S_REPLY_HEADER =>
    exact ⟨_, by simp [http_switch, hst], parse_headers_reads hq hd (Or.inl hst)⟩
  case S_REPLY_CONTINUE =>
    exact ⟨_, by simp [http_switch, hst], parse_headers_reads hq hd (Or.inr hst)⟩
  case S_REPLY_DATA =>
    have hsome : ∃ r', http_switch h r = .ok (some r') := by simp [http_switch, hst]
    obtain ⟨r', hr'⟩ := hsome
    exact ⟨r', hr', data_switch_reads hq hd hst hb hr'⟩
  case S_REPLY_CHUNKED =>
    exact ⟨_, by simp [http_switch, hst], xfer_chunked_reads hq hd hst⟩
  case S_REPLY_FOOTER =>
    exact ⟨_, by simp [http_switch, hst], parse_footers_reads hq hd hst⟩

theorem http_process_loop_reads {h : Handlers} (hq : h.Quiet) {next : List Call} {r : Rx}
    {t : Decoder} (hd : r.Reads next t) (hb : r.buf ≠ []) :
    ∃ r', http_process_loop h r = .ok r' ∧ r'.Reads next t ∧
      (r'.s.state = .S_REPLY_DONE ∨ r'.buf = []) := by
  induction r using http_process_loop.induct h with
  | case1 r e he =>
    by_cases hs : r.s.state = .S_REPLY_DONE
    · simp [http_switch, hs] at he
    · obtain ⟨r', hr', _⟩ := http_switch_reads hq hd hs hb
      rw [hr'] at he
      cases he
  | case2 r he =>
    refine ⟨r, by rw [http_process_loop, he], hd, Or.inl (http_switch_none h r he)⟩
  | case3 r r1 he hc ih =>
    have hs : r.s.state ≠ .S_REPLY_DONE := fun hs => by simp [http_switch, hs] at he
    obtain ⟨r', hr', hreads⟩ := http_switch_reads hq hd hs hb
    rw [hr', Except.ok.injEq, Option.some.injEq] at he
    subst he
    obtain ⟨r2, hr2, hread⟩ := ih hreads hc.1
    exact ⟨r2, by rw [http_process_loop, hr']; simpa [hc] using hr2, hread⟩
  | case4 r r1 he hc =>
    have hs : r.s.state ≠ .S_REPLY_DONE := fun hs => by simp [http_switch, hs] at he
    obtain ⟨r', hr', hreads⟩ := http_switch_reads hq hd hs hb
    rw [hr', Except.ok.injEq, Option.some.injEq] at he
    subst he
    refine ⟨r', by rw [http_process_loop, hr']; simp only [hc, dite_false], hreads, ?_⟩
    by_cases hs' : r'.s.state = .S_REPLY_DONE
    · exact Or.inl hs'
    · by_contra hno
      have hb' : r'.buf ≠ [] := fun h => hno (Or.inr h)
      have hr := hreads.reading hs' hb'
      apply hc
      refine ⟨hb', ?_⟩
      cases hst : r'.s.state <;> simp_all [Decoder.reading, ConnState.closing]

theorem http_process_reply_bytes_reads {h : Handlers} (hq : h.Quiet) {next : List Call} {r : Rx}
    {t : Decoder} (hd : r.Reads next t) (hb : r.buf ≠ []) :
    ∃ r', http_process_reply_bytes h r = .ok r' ∧ r'.Reads next t ∧
      (r'.s.state = .S_REPLY_DONE ∨ r'.buf = []) := by
  unfold http_process_reply_bytes
  rw [event_signal_quiet hq]
  refine http_process_loop_reads hq ⟨hd.queued, ?_⟩ hb
  simpa [Rx.decoder, pushEvent] using hd.drains

/-- At the end of a reply its call leaves the queue. -/
theorem recv_done_decoder {h : Handlers} (hq : h.Quiet) {next : List Call} {r : Rx}
    (hs : r.s.state = .S_REPLY_DONE) :
    r.decoder next = Conn.decoder { (recv_done h next r).s with state := .S_REPLY_STATUS }
      (recv_done h next r).log := by
  simp [Rx.decoder, Decoder.settle, hs, recv_done, hq, Conn.decoder, pushEvent, Call.erase]

theorem store_decoder {next : List Call} {r : Rx} (hs : r.s.state ≠ .S_REPLY_DONE)
    (hq : r.s.recvq ≠ []) : r.decoder next = (r.store next).decoder r.log := by
  rw [Rx.decoder_of_ne hs, Rx.store_cons hq]
  rfl

theorem do_recv_loop_done {h : Handlers} {s : Conn} {buf : List Byte} {log : List Event} {c : Call}
    {next : List Call} {r : Rx} (hq : s.recvq = c :: next)
    (hp : http_process_reply_bytes h ⟨s, c, buf, log⟩ = .ok r)
    (hs : r.s.state = .S_REPLY_DONE) (hc : ¬ (recv_done h next r).s.state.closing = true) :
    do_recv_loop h s buf log =
      if r.buf = [] then
        .ok ({ (recv_done h next r).s with state := .S_REPLY_STATUS }, (recv_done h next r).log)
      else do_recv_loop h { (recv_done h next r).s with state := .S_REPLY_STATUS } r.buf
        (recv_done h next r).log := by
  rw [do_recv_loop_cons buf log hq, hp]
  simp only [hs, hc, if_true, if_false, Bool.false_eq_true]

theorem do_recv_loop_more {h : Handlers} {s : Conn} {buf : List Byte} {log : List Event} {c : Call}
    {next : List Call} {r : Rx} (hq : s.recvq = c :: next)
    (hp : http_process_reply_bytes h ⟨s, c, buf, log⟩ = .ok r)
    (hs : r.s.state ≠ .S_REPLY_DONE) (hb : r.buf = []) :
    do_recv_loop h s buf log = .ok (r.store next, r.log) := by
  rw [do_recv_loop_cons buf log hq, hp]
  simp only [hs, hb, if_true, if_false]

/-- One read takes the decoder to the state of the connection after it. -/
theorem do_recv_loop_decodes {h : Handlers} (hq : h.Quiet) {s : Conn} {buf : List Byte}
    {log : List Event} {t : Decoder} (hd : Drains Decoder.machine (s.decoder log) buf t)
    (hb : buf ≠ []) :
    ∃ s' log', do_recv_loop h s buf log = .ok (s', log') ∧ s'.decoder log' = t := by
  -- each reply that ends in this read takes one call off the queue
  induction hn : s.recvq generalizing s buf log with
  | nil =>
    obtain ⟨⟨c, n, hc, _⟩, _⟩ := Drains.step hd hb
    simp [Conn.decoder, hn] at hc
  | cons c next ih =>
    have hreads : Rx.Reads next ⟨s, c, buf, log⟩ t := by
      obtain ⟨⟨c, n, hc, hr, _⟩, _⟩ := Drains.step hd hb
      apply Rx.Reads.of_ne
      · simp [hn]
      · rintro (hs : s.state = .S_REPLY_DONE)
        simp [Conn.decoder, hs, Decoder.reading] at hr
      · simpa [Conn.decoder, hn] using hd
    obtain ⟨r, hp, hr, hstop⟩ := http_process_reply_bytes_reads hq hreads hb
    by_cases hs : r.s.state = .S_REPLY_DONE
    · have hrun := hr.drains
      rw [recv_done_decoder hq hs] at hrun
      rw [do_recv_loop_done hn hp hs (by simp [recv_done, hq, hs, ConnState.closing])]
      split
      · rename_i hb'
        rw [hb'] at hrun
        exact ⟨_, _, rfl, hrun.nil_eq.symm⟩
      · rename_i hb'
        exact ih hrun hb' (by simp [recv_done, hq])
    · have hb' := hstop.resolve_left hs
      have hrun := hr.drains
      rw [store_decoder hs hr.queued, hb'] at hrun
      exact ⟨_, _, do_recv_loop_more hn hp hs hb', hrun.nil_eq.symm⟩

/-- The reads of a run feed the decoder. -/
theorem do_recvs_decodes {h : Handlers} (hq : h.Quiet) {s : Conn} {bufs : List (List Byte)}
    {log : List Event} {t : Decoder} (hf : Feeds Decoder.machine (s.decoder log) bufs t)
    (hb : ∀ b ∈ bufs, b ≠ []) :
    ∃ s' log', do_recvs h (bufs.map Read.data) s log = .ok (s', log') ∧ s'.decoder log' = t := by
  induction bufs generalizing s log with
  | nil =>
    cases hf
    exact ⟨s, log, rfl, rfl⟩
  | cons b bufs ih =>
    have hne : b ≠ [] := hb b List.mem_cons_self
    cases hf with
    | cons hd hf =>
      obtain ⟨⟨c, n, hc, _⟩, _⟩ := Drains.step hd hne
      have hqueue : s.recvq ≠ [] := fun he => by simp [Conn.decoder, he] at hc
      obtain ⟨s1, log1, hrecv, rfl⟩ := do_recv_loop_decodes hq hd hne
      obtain ⟨s', log', hrest, ht⟩ := ih hf fun b' hb' => hb b' (List.mem_cons_of_mem _ hb')
      refine ⟨s', log', ?_, ht⟩
      have hone : do_recv h (.data b) s log = .ok (s1, log1) := by
        unfold do_recv
        split
        · contradiction
        · exact hrecv
      simp only [List.map_cons, do_recvs, hqueue, if_false, hone]
      exact hrest

/-- A stream that the decoder reads in one piece is read to the same end however it is cut. -/
theorem any_cut_of_the_stream_decodes {h : Handlers} (hq : h.Quiet) {s : Conn}
    {bufs : List (List Byte)} {log : List Event} {t : Decoder}
    (hd : Drains Decoder.machine (s.decoder log) bufs.flatten t) (hb : ∀ b ∈ bufs, b ≠ []) :
    ∃ s' log', do_recvs h (bufs.map Read.data) s log = .ok (s', log') ∧ s'.decoder log' = t :=
  do_recvs_decodes hq (Feeds.of_drains Decoder.machine_resumable hd) hb

end Httperf
