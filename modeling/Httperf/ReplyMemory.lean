-- The receive path once more (`http.c`, and `recv_done` and `do_recv` of `core.c`), with the line
-- buffer as it lies in memory. `get_line` looks at the byte in front of the buffer when it finds a
-- bare LF. The bit fields stand there: if they make up a CR, the length of the line wraps and the
-- bits are cleared.
import Httperf.LineBuffer
import Httperf.Recv

namespace Httperf.Memory

/-! ## The state -/

/-- The part of a `Conn` that receives replies. -/
structure Conn where
  state : ConnState
  iov_len : Nat
  line_buf : Nat → Byte
  content_length : UInt64
  has_body : Bool
  is_chunked : Bool
  reading : Bool
  writing : Bool
  recvq : List Call

/-- What stands outside. `sends log` says that a handler of the last event of `log` issues a call,
so that the connection writes. -/
structure Handlers extends Httperf.Handlers where
  sends : List Event → Bool

structure Rx where
  s : Conn
  c : Call
  buf : List Byte
  log : List Event

/-- The byte of the bit fields. -/
def Conn.bits (s : Conn) : Byte :=
  (if s.has_body then 1 else 0) + (if s.is_chunked then 2 else 0) + (if s.reading then 4 else 0) +
    (if s.writing then 8 else 0)

def Conn.setBits (s : Conn) (b : Byte) : Conn :=
  { s with
    has_body := b &&& 1 ≠ 0
    is_chunked := b &&& 2 ≠ 0
    reading := b &&& 4 ≠ 0
    writing := b &&& 8 ≠ 0 }

/-- What `core_close` does to this part. -/
def Conn.close (s : Conn) : Conn :=
  if s.state.closing then s
  else { s with state := .S_CLOSING, recvq := [], reading := false, writing := false }

def event_signal (h : Handlers) (e : Event) (r : Rx) : Rx :=
  let log := r.log ++ [e]
  let s := if h.sends log then { r.s with writing := true } else r.s
  { r with log, s := if h.closes log then s.close else s }

/-! ## Lines -/

/-- `line_buf` with the byte in front of it. -/
def Conn.lineIn (s : Conn) : LineBuffer.Line :=
  ⟨s.iov_len, Function.update s.line_buf (size_t (-1)) s.bits, [], false⟩

/-- The line, and what has become of the byte in front of it. -/
def Conn.lineOut (s : Conn) (l : LineBuffer.Line) : Conn :=
  { s with iov_len := l.iov_len, line_buf := l.line_buf }.setBits (l.line_buf (size_t (-1)))

def get_line (r : Rx) : Bool × Rx :=
  let result := LineBuffer.get_line r.s.lineIn r.buf
  (result.1, { r with s := r.s.lineOut result.2.1, buf := result.2.2 })

/-- The line as a C string. The last byte of the buffer is written with a NUL only. -/
def Conn.text (s : Conn) : List Byte := cstr ((List.range MAX_HDR_LINE_LEN).map s.line_buf)

/-- The line with its length, as far as it lies in the buffer. -/
def Conn.line (s : Conn) : List Byte := (List.range (min s.iov_len MAX_HDR_LINE_LEN)).map s.line_buf

/-! ## The status line -/

def status_done (start : Nat) (r : Rx) : Rx :=
  { r with
    c.reply.header_bytes := r.c.reply.header_bytes + UInt64.ofNat (start - r.buf.length)
    s.iov_len := 0 }

def status_values (h : Handlers) (r : Rx) : Reply × Nat :=
  match scan_status_line r.s.text with
  | some (major, minor, status) =>
    ({ r.c.reply with
      version := (0x10000 * major + minor) % 2 ^ 32
      status := u_int_to_int status }, status)
  | none => ({ r.c.reply with version := 0x10000, status := 599 }, h.uninit r.log)

def status_line_read (h : Handlers) (start : Nat) (r : Rx) : Rx :=
  let status := (status_values h r).2
  let r1 := { r with
    c.reply := (status_values h r).1
    s.has_body := has_body_of r.c.isHead status }
  let r2 := event_signal h (.EV_CALL_RECV_START r1.c.id r1.c.reply.status) r1
  if !r.c.isHead && status = 100 then
    status_done start { r2 with s.state := .S_REPLY_CONTINUE }
  else if r2.s.state.closing then r2
  else status_done start { r2 with s.state := .S_REPLY_HEADER }

def parse_status_line (h : Handlers) (r : Rx) : Rx :=
  let r0 := { r with s.is_chunked := false, s.content_length := SIZE_MAX }
  let r1 := (get_line r0).2
  if (get_line r0).1 = false then r1 else status_line_read h r.buf.length r1

/-! ## Header and footer lines -/

def headers_end (s : Conn) : Conn :=
  if s.has_body then
    if s.is_chunked then { s with content_length := 0, state := .S_REPLY_CHUNKED }
    else { s with state := .S_REPLY_DATA }
  else if s.state = .S_REPLY_CONTINUE then { s with state := .S_REPLY_HEADER }
  else { s with state := .S_REPLY_DONE }

def header_field (s : Conn) (hdr : List Byte) : Conn :=
  if strncaseeq hdr (bytes "content-length:") then
    let n := UInt64.ofNat (strtoul (hdr.drop 15) 10).val
    { s with content_length := n, has_body := if n = 0 then false else s.has_body }
  else if strncaseeq hdr (bytes "transfer-encoding:") then
    if strcaseeq ((hdr.drop 18).dropWhile isspace) (bytes "chunked") then
      { s with is_chunked := true }
    else s
  else s

/-! ## The unread bytes shrink -/

theorem get_line_buf (r : Rx) : (get_line r).2.buf = r.buf.drop (eol r.buf) := by
  unfold get_line LineBuffer.get_line
  dsimp only
  split
  · rename_i hempty
    rw [List.length_eq_zero_iff.mp (Nat.le_zero.mp hempty)]
    rfl
  · split <;> rfl

theorem get_line_suffix (r : Rx) : (get_line r).2.buf <:+ r.buf := by
  rw [get_line_buf]
  exact List.drop_suffix _ _

theorem get_line_length (r : Rx) (h : r.buf ≠ []) : (get_line r).2.buf.length < r.buf.length := by
  have hpos := eol_pos r.buf h
  have hlen := List.length_pos_iff.mpr h
  rw [get_line_buf, List.length_drop]
  omega

theorem get_line_true_length (r : Rx) (h : ¬ (get_line r).1 = false) :
    (get_line r).2.buf.length < r.buf.length := by
  apply get_line_length
  intro hnil
  apply h
  unfold get_line LineBuffer.get_line
  rw [hnil]
  rfl

theorem get_line_s (r : Rx) :
    (get_line r).2.s.state = r.s.state ∧ (get_line r).2.s.recvq = r.s.recvq ∧
      (get_line r).2.s.content_length = r.s.content_length ∧ (get_line r).2.c = r.c ∧
      (get_line r).2.log = r.log := ⟨rfl, rfl, rfl, rfl, rfl⟩

/-! ## The loops of the parser -/

def parse_headers_loop (h : Handlers) (r : Rx) : Bool × Rx :=
  let r1 := (get_line r).2
  if (get_line r).1 = false then (true, r1)
  else if r1.s.iov_len = 0 then (true, { r1 with s := headers_end r1.s })
  else
    let r2 := { r1 with s := header_field r1.s r1.s.text }
    let r3 := event_signal h (.EV_CALL_RECV_HDR r2.c.id r2.s.line) r2
    if r3.s.state.closing then (false, r3)
    else parse_headers_loop h { r3 with s.iov_len := 0 }
termination_by r.buf.length
decreasing_by exact get_line_true_length r (by assumption)

def parse_headers (h : Handlers) (r : Rx) : Rx :=
  match parse_headers_loop h r with
  | (false, r') => r'
  | (true, r') =>
    { r' with c.reply.header_bytes :=
        r'.c.reply.header_bytes + UInt64.ofNat (r.buf.length - r'.buf.length) }

def parse_footers_loop (h : Handlers) (r : Rx) : Bool × Rx :=
  let r1 := (get_line r).2
  if (get_line r).1 = false then (true, r1)
  else if r1.s.iov_len = 0 then (true, { r1 with s.state := .S_REPLY_DONE })
  else
    let r2 := event_signal h (.EV_CALL_RECV_FOOTER r1.c.id r1.s.line) r1
    if r2.s.state.closing then (false, r2)
    else parse_footers_loop h { r2 with s.iov_len := 0 }
termination_by r.buf.length
decreasing_by exact get_line_true_length r (by assumption)

def parse_footers (h : Handlers) (r : Rx) : Rx :=
  match parse_footers_loop h r with
  | (false, r') => r'
  | (true, r') =>
    { r' with c.reply.footer_bytes :=
        r'.c.reply.footer_bytes + UInt64.ofNat (r.buf.length - r'.buf.length) }

/-- `s->content_length - c->reply.content_bytes`, in `size_t`. -/
def bytes_needed (r : Rx) : Nat := (r.s.content_length - r.c.reply.content_bytes).toNat

def parse_data (h : Handlers) (r : Rx) : Bool × Rx :=
  let buf_len := min r.buf.length (bytes_needed r)
  let r1 := event_signal h (.EV_CALL_RECV_DATA r.c.id (r.buf.take buf_len)) r
  (buf_len = bytes_needed r,
    { r1 with
      c.reply.content_bytes := r1.c.reply.content_bytes + UInt64.ofNat buf_len
      buf := r.buf.drop buf_len })

theorem parse_data_buf (h : Handlers) (r : Rx) :
    (parse_data h r).2.buf = r.buf.drop (min r.buf.length (bytes_needed r)) := rfl

theorem parse_data_suffix (h : Handlers) (r : Rx) : (parse_data h r).2.buf <:+ r.buf :=
  List.drop_suffix _ _

theorem parse_data_length (h : Handlers) (r : Rx) (hb : r.buf ≠ [])
    (hn : r.c.reply.content_bytes < r.s.content_length) :
    (parse_data h r).2.buf.length < r.buf.length := by
  have hpos : 0 < bytes_needed r := by
    unfold bytes_needed
    rw [UInt64.toNat_sub_of_le _ _ (UInt64.le_of_lt hn)]
    have := UInt64.lt_iff_toNat_lt.mp hn
    omega
  have := List.length_pos_iff.mpr hb
  rw [parse_data_buf, List.length_drop]
  omega

def xfer_chunked (h : Handlers) (r : Rx) : Rx :=
  if r.buf = [] ∨ r.s.state.closing then r
  else if r.s.content_length ≤ r.c.reply.content_bytes then
    -- need to parse next chunk length line
    let r1 := (get_line r).2
    if _hf : (get_line r).1 = false then r1
    else if r1.s.iov_len = 0 then xfer_chunked h r1
    else
      let n := strtoul r1.s.text 16
      let r2 := { r1 with s.iov_len := 0 }
      if n.erange || !n.converted then xfer_chunked h r2
      else if n.val = 0 then { r2 with s.state := .S_REPLY_FOOTER }
      else
        let r3 := { r2 with s.content_length := r2.s.content_length + UInt64.ofNat n.val }
        xfer_chunked h (parse_data h r3).2
  else xfer_chunked h (parse_data h r).2
termination_by r.buf.length
decreasing_by
  · exact get_line_true_length r _hf
  · exact get_line_true_length r _hf
  · exact Nat.lt_of_le_of_lt (parse_data_suffix h r3).length_le (get_line_true_length r _hf)
  · exact parse_data_length h r (not_or.mp ‹¬ (_ ∨ _)›).1 (UInt64.not_le.mp ‹¬ _ ≤ _›)

/-- The `switch` of `http_process_reply_bytes`: `none` for the `return` in `S_REPLY_DONE`. -/
def http_switch (h : Handlers) (r : Rx) : Except Abort (Option Rx) :=
  match r.s.state with
  | .S_REPLY_STATUS => .ok (parse_status_line h r)
  | .S_REPLY_HEADER => .ok (parse_headers h r)
  | .S_REPLY_FOOTER => .ok (parse_footers h r)
  | .S_REPLY_DATA =>
    let (all, r') := parse_data h r
    .ok (some (if all && !r'.s.state.closing then { r' with s.state := .S_REPLY_DONE } else r'))
  | .S_REPLY_CONTINUE => .ok (parse_headers h r)
  | .S_REPLY_CHUNKED => .ok (xfer_chunked h r)
  | .S_REPLY_DONE => .ok none
  | _ => .error .exit_bad_state

/-! ## What the parser keeps -/

/-- The functions of the parser take bytes off the front, set no states but those of a reply, and
signal events. -/
structure Kept (I : Rx → Prop) : Prop where
  line : ∀ r, I r → I (get_line r).2
  event : ∀ h e r, I r → I (event_signal h e r)
  data : ∀ r n, I r → I { r with buf := r.buf.drop n }
  congr : ∀ r r', r'.s.state = r.s.state → r'.s.recvq = r.s.recvq → r'.buf = r.buf → I r → I r'
  replying : ∀ r r', r'.s.state.replying = true → r'.buf = r.buf → I r → I r'

theorem header_field_s (s : Conn) (hdr : List Byte) :
    (header_field s hdr).state = s.state ∧ (header_field s hdr).recvq = s.recvq := by
  unfold header_field
  dsimp only
  split_ifs <;> exact ⟨rfl, rfl⟩

theorem headers_end_replying (s : Conn) : (headers_end s).state.replying = true := by
  unfold headers_end
  split_ifs <;> rfl

attribute [local irreducible] get_line header_field headers_end

section
variable {I : Rx → Prop} (hk : Kept I) (h : Handlers)
include hk

theorem header_field_kept (r : Rx) (hr : I r) :
    I (event_signal h (.EV_CALL_RECV_HDR r.c.id (header_field r.s r.s.text).line)
      { r with s := header_field r.s r.s.text }) := by
  obtain ⟨hstate, hrecvq⟩ := header_field_s r.s r.s.text
  exact hk.event _ _ _ (hk.congr r _ hstate hrecvq rfl hr)

theorem status_line_read_kept (start : Nat) (r : Rx) (hr : I r) :
    I (status_line_read h start r) := by
  obtain ⟨r2, hr2⟩ : ∃ r2, event_signal h (.EV_CALL_RECV_START r.c.id (status_values h r).1.status)
      { r with
        c.reply := (status_values h r).1
        s.has_body := has_body_of r.c.isHead (status_values h r).2 } = r2 := ⟨_, rfl⟩
  have hevent : I r2 := by
    rw [← hr2]
    exact hk.event _ _ _ (hk.congr r _ rfl rfl rfl hr)
  unfold status_line_read status_done
  dsimp only
  rw [hr2]
  split_ifs
  · exact hk.replying r2 _ rfl rfl hevent
  · exact hevent
  · exact hk.replying r2 _ rfl rfl hevent

theorem parse_status_line_kept (r : Rx)
    (hr : I (get_line { r with s.is_chunked := false, s.content_length := SIZE_MAX }).2) :
    I (parse_status_line h r) := by
  unfold parse_status_line
  dsimp only
  split_ifs
  · exact hr
  · exact status_line_read_kept hk h _ _ hr

theorem parse_headers_loop_kept (r : Rx) (hr : I (get_line r).2) :
    I (parse_headers_loop h r).2 := by
  induction r using parse_headers_loop.induct h with
  | case1 r hf => rw [parse_headers_loop]; simpa [hf] using hr
  | case2 r r1 hf he =>
    rw [parse_headers_loop]
    simp only [hf, r1, he, if_true]
    exact hk.replying (get_line r).2 _ (headers_end_replying _) rfl hr
  | case3 r r1 hf he r2 r3 hc =>
    rw [parse_headers_loop, if_neg hf, if_neg he, if_pos hc]
    exact header_field_kept hk h (get_line r).2 hr
  | case4 r r1 hf he r2 r3 hc ih =>
    rw [parse_headers_loop]
    simp only [hf, r1, he, r2, r3, hc, if_false, Bool.false_eq_true]
    exact ih (hk.line _ (hk.congr r3 _ rfl rfl rfl (header_field_kept hk h (get_line r).2 hr)))

theorem parse_footers_loop_kept (r : Rx) (hr : I (get_line r).2) :
    I (parse_footers_loop h r).2 := by
  induction r using parse_footers_loop.induct h with
  | case1 r hf => rw [parse_footers_loop]; simpa [hf] using hr
  | case2 r r1 hf he =>
    rw [parse_footers_loop]
    simp only [hf, r1, he, if_true]
    exact hk.replying (get_line r).2 _ rfl rfl hr
  | case3 r r1 hf he r2 hc =>
    rw [parse_footers_loop]
    simp only [hf, r1, he, r2, hc, if_true, if_false, Bool.true_eq_false]
    exact hk.event _ _ _ hr
  | case4 r r1 hf he r2 hc ih =>
    rw [parse_footers_loop]
    simp only [hf, r1, he, r2, hc, if_false, Bool.false_eq_true]
    exact ih (hk.line _ (hk.congr r2 _ rfl rfl rfl (hk.event _ _ _ hr)))

theorem parse_headers_kept (r : Rx) (hr : I (get_line r).2) : I (parse_headers h r) := by
  have hloop := parse_headers_loop_kept hk h r hr
  unfold parse_headers
  rcases hp : parse_headers_loop h r with ⟨ended, r'⟩
  rw [hp] at hloop
  cases ended with
  | false => exact hloop
  | true => exact hk.congr r' _ rfl rfl rfl hloop

theorem parse_footers_kept (r : Rx) (hr : I (get_line r).2) : I (parse_footers h r) := by
  have hloop := parse_footers_loop_kept hk h r hr
  unfold parse_footers
  rcases hp : parse_footers_loop h r with ⟨ended, r'⟩
  rw [hp] at hloop
  cases ended with
  | false => exact hloop
  | true => exact hk.congr r' _ rfl rfl rfl hloop

theorem parse_data_kept (r : Rx) (hr : I r) : I (parse_data h r).2 := by
  have hdata := hk.data _ (min r.buf.length (bytes_needed r)) (hk.event h
    (.EV_CALL_RECV_DATA r.c.id (r.buf.take (min r.buf.length (bytes_needed r)))) r hr)
  refine hk.congr _ (parse_data h r).2 ?_ ?_ ?_ hdata <;> rfl

theorem xfer_chunked_kept (r : Rx) (hr : I r) : I (xfer_chunked h r) := by
  induction r using xfer_chunked.induct h with
  | case1 r hc => rw [xfer_chunked]; simpa [hc] using hr
  | case2 r hc hl hf =>
    rw [xfer_chunked]
    simp only [hc, hl, hf, if_true, if_false, dite_true]
    exact hk.line r hr
  | case3 r hc hl r1 hf he ih =>
    rw [xfer_chunked]
    simp only [hc, hl, hf, r1, he, if_true, if_false]
    exact ih (hk.line r hr)
  | case4 r hc hl r1 hf he n r2 hn ih =>
    rw [xfer_chunked]
    simp only [hc, hl, hf, r1, he, n, hn, if_true, if_false]
    exact ih (hk.congr r1 _ rfl rfl rfl (hk.line r hr))
  | case5 r hc hl r1 hf he n hn hz =>
    rw [xfer_chunked]
    simp only [hc, hl, hf, r1, he, n, hn, hz, if_true, if_false]
    exact hk.replying r1 _ rfl rfl (hk.line r hr)
  | case6 r hc hl r1 hf he n r2 hn hz r3 ih =>
    rw [xfer_chunked]
    simp only [hc, hl, hf, r1, he, n, hn, hz, if_true, if_false]
    exact ih (parse_data_kept hk h r3 (hk.congr r1 _ rfl rfl rfl (hk.line r hr)))
  | case7 r hc hl ih =>
    rw [xfer_chunked]
    simp only [hc, hl, if_false]
    exact ih (parse_data_kept hk h r hr)

end

theorem suffix_kept (b : List Byte) : Kept fun r => r.buf <:+ b where
  line := fun r hr => (get_line_suffix r).trans hr
  event := fun _ _ _ hr => hr
  data := fun _ _ hr => (List.drop_suffix _ _).trans hr
  congr := fun _ _ _ _ hbuf hr => by rwa [hbuf]
  replying := fun _ _ _ hbuf hr => by rwa [hbuf]

/-- `core_close` empties the queue of a connection that it closes. -/
def Conn.Shut (s : Conn) : Prop := s.state.closing = true → s.recvq = []

theorem shut_of_open {s : Conn} (h : s.state.closing = false) : s.Shut := by
  intro hc
  simp [h] at hc

theorem shut_kept : Kept fun r => r.s.Shut where
  line := by
    intro r hr
    obtain ⟨hstate, hrecvq, -⟩ := get_line_s r
    unfold Conn.Shut
    rwa [hstate, hrecvq]
  event := by
    intro h e r hr
    unfold event_signal Conn.close
    dsimp only
    split_ifs
    · exact hr
    · exact fun _ => rfl
    · exact hr
    · exact fun _ => rfl
    · exact hr
    · exact hr
  data := fun _ _ hr => hr
  congr := by
    intro r r' hstate hrecvq _ hr
    unfold Conn.Shut
    rwa [hstate, hrecvq]
  replying := fun _ _ hstate _ _ => shut_of_open (replying_open hstate)

theorem inReply_kept : Kept fun r => r.s.state.replying = true ∨ r.s.state.closing = true where
  line := by
    intro r hr
    rwa [(get_line_s r).1]
  event := by
    intro h e r hr
    unfold event_signal Conn.close
    dsimp only
    split_ifs
    all_goals first | exact hr | exact .inr rfl
  data := fun _ _ hr => hr
  congr := by
    intro r r' hstate _ _ hr
    rwa [hstate]
  replying := fun _ _ hstate _ _ => .inl hstate

/-! ## One reply -/

section
variable (h : Handlers) (r : Rx)

theorem parse_status_line_suffix : (parse_status_line h r).buf <:+ (get_line r).2.buf :=
  parse_status_line_kept (suffix_kept _) h r (by rw [get_line_buf, get_line_buf])

theorem parse_headers_suffix : (parse_headers h r).buf <:+ (get_line r).2.buf :=
  parse_headers_kept (suffix_kept _) h r List.suffix_rfl

theorem parse_footers_suffix : (parse_footers h r).buf <:+ (get_line r).2.buf :=
  parse_footers_kept (suffix_kept _) h r List.suffix_rfl

theorem xfer_chunked_suffix : (xfer_chunked h r).buf <:+ r.buf :=
  xfer_chunked_kept (suffix_kept _) h r List.suffix_rfl

theorem xfer_chunked_length (hb : r.buf ≠ []) (hs : r.s.state.closing = false) :
    (xfer_chunked h r).buf.length < r.buf.length := by
  have hline := get_line_length r hb
  have hrest := fun r' => (xfer_chunked_suffix h r').length_le
  rw [xfer_chunked]
  simp only [hb, hs, Bool.false_eq_true, or_self, if_false]
  split_ifs
  · exact hline
  · exact Nat.lt_of_le_of_lt (hrest _) hline
  · exact Nat.lt_of_le_of_lt (hrest _) hline
  · exact hline
  · exact Nat.lt_of_le_of_lt (hrest _) (Nat.lt_of_le_of_lt (parse_data_suffix h _).length_le hline)
  · exact Nat.lt_of_le_of_lt (hrest _) (parse_data_length h r hb (UInt64.not_le.mp ‹_›))

end

theorem http_switch_kept {I : Rx → Prop} (hk : Kept I) {h : Handlers} {r r' : Rx} (hr : I r)
    (hs : http_switch h r = .ok (some r')) : I r' := by
  have hline := hk.line r hr
  cases hstate : r.s.state <;> simp only [http_switch, hstate, Except.ok.injEq, Option.some.injEq,
    reduceCtorEq] at hs
  case S_REPLY_STATUS =>
    exact hs ▸ parse_status_line_kept hk h r (hk.line _ (hk.congr r _ rfl rfl rfl hr))
  case S_REPLY_HEADER => exact hs ▸ parse_headers_kept hk h r hline
  case S_REPLY_CONTINUE => exact hs ▸ parse_headers_kept hk h r hline
  case S_REPLY_FOOTER => exact hs ▸ parse_footers_kept hk h r hline
  case S_REPLY_CHUNKED => exact hs ▸ xfer_chunked_kept hk h r hr
  case S_REPLY_DATA =>
    subst hs
    split
    · exact hk.replying (parse_data h r).2 _ rfl rfl (parse_data_kept hk h r hr)
    · exact parse_data_kept hk h r hr

/-- What an iteration of the loop of `http_process_reply_bytes` makes smaller. Data of length 0 take
no byte, but they end the reply. -/
def Rx.rank (r : Rx) : Nat := 2 * r.buf.length + if r.s.state = .S_REPLY_DATA then 1 else 0

theorem Rx.rank_lt {r r' : Rx} (h : r'.buf.length < r.buf.length) : r'.rank < r.rank := by
  unfold Rx.rank
  split <;> split <;> omega

theorem parse_data_all (h : Handlers) (r : Rx) (hb : (parse_data h r).2.buf ≠ []) :
    (parse_data h r).1 = true := by
  rw [parse_data_buf] at hb
  have hlt : min r.buf.length (bytes_needed r) < r.buf.length := by
    by_contra hle
    exact hb (List.drop_eq_nil_of_le (by omega))
  simp only [parse_data, decide_eq_true_eq]
  omega

theorem http_switch_rank (h : Handlers) (r r' : Rx) (hs : http_switch h r = .ok (some r'))
    (hb : r'.buf ≠ []) (hc : ¬ r'.s.state.closing) : r'.rank < r.rank := by
  have hne : r.buf ≠ [] := by
    intro hnil
    have hsuffix : r'.buf <:+ r.buf := http_switch_kept (suffix_kept _) (List.suffix_rfl) hs
    rw [hnil] at hsuffix
    exact hb (List.suffix_nil.mp hsuffix)
  have hline := get_line_length r hne
  cases hstate : r.s.state <;> simp only [http_switch, hstate, Except.ok.injEq, Option.some.injEq,
    reduceCtorEq] at hs
  case S_REPLY_STATUS =>
    exact Rx.rank_lt (hs ▸ Nat.lt_of_le_of_lt (parse_status_line_suffix h r).length_le hline)
  case S_REPLY_HEADER =>
    exact Rx.rank_lt (hs ▸ Nat.lt_of_le_of_lt (parse_headers_suffix h r).length_le hline)
  case S_REPLY_CONTINUE =>
    exact Rx.rank_lt (hs ▸ Nat.lt_of_le_of_lt (parse_headers_suffix h r).length_le hline)
  case S_REPLY_FOOTER =>
    exact Rx.rank_lt (hs ▸ Nat.lt_of_le_of_lt (parse_footers_suffix h r).length_le hline)
  case S_REPLY_CHUNKED => exact Rx.rank_lt (hs ▸ xfer_chunked_length h r hne (by rw [hstate]; rfl))
  case S_REPLY_DATA =>
    have hle := (parse_data_suffix h r).length_le
    have hbuf : r'.buf = (parse_data h r).2.buf := by
      rw [← hs]
      split <;> rfl
    have hall := parse_data_all h r (hbuf ▸ hb)
    have hopen : (parse_data h r).2.s.state.closing = false := by
      by_contra hcl
      rw [Bool.not_eq_false] at hcl
      rw [← hs, hcl] at hc
      simp [hcl] at hc
    simp only [hall, hopen, Bool.not_false, Bool.and_self, if_true] at hs
    subst hs
    simp only [Rx.rank, hstate, if_true, reduceCtorEq, if_false]
    omega

/-- The `do ... while` loop of `http_process_reply_bytes`. -/
def http_process_loop (h : Handlers) (r : Rx) : Except Abort Rx :=
  match _hs : http_switch h r with
  | .error e => .error e
  | .ok none => .ok r
  | .ok (some r') =>
    if _hc : r'.buf ≠ [] ∧ ¬ r'.s.state.closing then http_process_loop h r' else .ok r'
termination_by r.rank
decreasing_by exact http_switch_rank h r r' _hs _hc.1 _hc.2

def http_process_reply_bytes (h : Handlers) (r : Rx) : Except Abort Rx :=
  http_process_loop h (event_signal h (.EV_CALL_RECV_RAW_DATA r.c.id r.buf) r)

theorem http_process_loop_error {h : Handlers} {r : Rx} {e : Abort}
    (hs : http_switch h r = .error e) : http_process_loop h r = .error e := by
  rw [http_process_loop, hs]

theorem http_process_loop_none {h : Handlers} {r : Rx} (hs : http_switch h r = .ok none) :
    http_process_loop h r = .ok r := by
  rw [http_process_loop, hs]

theorem http_process_loop_some {h : Handlers} {r r1 : Rx} (hs : http_switch h r = .ok (some r1)) :
    http_process_loop h r =
      if r1.buf ≠ [] ∧ ¬ r1.s.state.closing then http_process_loop h r1 else .ok r1 := by
  rw [http_process_loop, hs]
  rfl

theorem http_switch_closing (h : Handlers) (r : Rx) (hc : r.s.state.closing = true) :
    http_switch h r = .error .exit_bad_state := by
  unfold http_switch
  split <;> simp_all [ConnState.closing]

theorem http_switch_none (h : Handlers) (r : Rx) (hs : http_switch h r = .ok none) :
    r.s.state = .S_REPLY_DONE := by
  unfold http_switch at hs
  split at hs <;> simp_all

/-- From a state of a reply the loop comes to its end, with the end of the buffer: nothing is left,
or the reply is done, or the connection is closed. -/
theorem http_process_loop_ends (h : Handlers) (r : Rx) (hs : r.s.state.replying = true) :
    ∃ r', http_process_loop h r = .ok r' ∧ r'.buf <:+ r.buf ∧
      (r'.buf = [] ∨ r'.s.state = .S_REPLY_DONE ∨ r'.s.state.closing = true) := by
  induction r using http_process_loop.induct h with
  | case1 r e he =>
    exfalso
    cases hstate : r.s.state <;> simp_all [http_switch, ConnState.replying]
  | case2 r he =>
    exact ⟨r, http_process_loop_none he, List.suffix_rfl, .inr (.inl (http_switch_none h r he))⟩
  | case3 r r1 he hc ih =>
    obtain ⟨r', hrun, hsuffix, hend⟩ :=
      ih ((http_switch_kept inReply_kept (.inl hs) he).resolve_right hc.2)
    have hfirst : r1.buf <:+ r.buf := http_switch_kept (suffix_kept _) List.suffix_rfl he
    rw [http_process_loop_some he, if_pos hc]
    exact ⟨r', hrun, hsuffix.trans hfirst, hend⟩
  | case4 r r1 he hc =>
    have hfirst : r1.buf <:+ r.buf := http_switch_kept (suffix_kept _) List.suffix_rfl he
    rw [http_process_loop_some he, if_neg hc]
    refine ⟨r1, rfl, hfirst, ?_⟩
    by_cases hb : r1.buf = []
    · exact .inl hb
    · exact .inr (.inr (by simpa [hb] using hc))

/-- What `http_process_reply_bytes` is called with. -/
structure Rx.Ready (r : Rx) : Prop where
  state : r.s.state.replying = true
  line : r.s.iov_len < MAX_HDR_LINE_LEN - 1
  buf : r.buf ≠ []

/-- A call returns with the end of its buffer: nothing, or the reply is done, or the connection is
closed. The program exits when the connection is closed before a byte is looked at. -/
theorem reply_processing_consumes_from_the_front (h : Handlers) (r : Rx) (hr : r.Ready) :
    match http_process_reply_bytes h r with
    | .ok r' => r'.buf <:+ r.buf ∧
        (r'.buf = [] ∨ r'.s.state = .S_REPLY_DONE ∨ r'.s.state.closing = true)
    | .error e => e = .exit_bad_state ∧
        h.closes (r.log ++ [.EV_CALL_RECV_RAW_DATA r.c.id r.buf]) = true := by
  unfold http_process_reply_bytes
  cases hc : h.closes (r.log ++ [.EV_CALL_RECV_RAW_DATA r.c.id r.buf]) with
  | true =>
    have hclosed :
        (event_signal h (.EV_CALL_RECV_RAW_DATA r.c.id r.buf) r).s.state.closing = true := by
      unfold event_signal Conn.close
      dsimp only
      rw [if_pos hc]
      split_ifs
      all_goals first | assumption | rfl
    rw [http_process_loop_error (http_switch_closing h _ hclosed)]
    exact ⟨rfl, rfl⟩
  | false =>
    have hsame : (event_signal h (.EV_CALL_RECV_RAW_DATA r.c.id r.buf) r).s.state = r.s.state := by
      unfold event_signal
      dsimp only
      rw [if_neg (by rw [hc]; decide)]
      split <;> rfl
    obtain ⟨r', hrun, hsuffix, hend⟩ := http_process_loop_ends h
      (event_signal h (.EV_CALL_RECV_RAW_DATA r.c.id r.buf) r) (by rw [hsame]; exact hr.state)
    rw [hrun]
    exact ⟨hsuffix, hend⟩

/-- A header with a body to come ends in a bare LF, on a connection that reads and writes. -/
def bare_lf : Rx :=
  ⟨⟨.S_REPLY_HEADER, 0, fun _ => 0, SIZE_MAX, true, false, true, true, [call_init 1 0x10001]⟩,
    call_init 1 0x10001, bytes "\nbody", []⟩

theorem reply_processing_consumes_a_bare_lf :
    bare_lf.s.bits = CR ∧ bare_lf.Ready ∧
      match http_process_reply_bytes ⟨⟨fun _ => false, fun _ => 0⟩, fun _ => false⟩ bare_lf with
      | .ok r' => r'.buf <:+ bare_lf.buf ∧
          (r'.buf = [] ∨ r'.s.state = .S_REPLY_DONE ∨ r'.s.state.closing = true)
      | .error e => e = .exit_bad_state ∧ false = true :=
  have hready : bare_lf.Ready := ⟨rfl, by decide, by decide⟩
  ⟨rfl, hready,
    reply_processing_consumes_from_the_front ⟨⟨fun _ => false, fun _ => 0⟩, fun _ => false⟩
      bare_lf hready⟩

/-- The empty line is taken for a field, and no body is expected any more. -/
example :
    (http_process_reply_bytes ⟨⟨fun _ => false, fun _ => 0⟩, fun _ => false⟩ bare_lf).toOption.map
    (fun r => (r.s.state, r.s.has_body)) = some (.S_REPLY_HEADER, false) := by
  decide +kernel

/-! ## One read -/

/-- `recv_done`: `c` leaves the queue, and `next` is its `recvq_next`. -/
def recv_done (h : Handlers) (next : List Call) (r : Rx) : Rx :=
  event_signal h (.EV_CALL_RECV_STOP r.c.id r.c.reply)
    { r with s := { r.s with recvq := next, reading := r.s.reading && next ≠ [] } }

/-- The counters that the parser kept in `c` are those of the call at the head of the queue, as long
as that call is in the queue. -/
def Rx.store (next : List Call) (r : Rx) : Conn :=
  match r.s.recvq with
  | [] => r.s
  | _ :: _ => { r.s with recvq := r.c :: next }

/-- The end of `do_recv`. -/
def Conn.readOn (s : Conn) : Conn := if s.recvq = [] then s else { s with reading := true }

/-- An event leaves the state and the queue as they are, or the connection closed. -/
theorem event_signal_open {h : Handlers} {e : Event} {r : Rx}
    (hc : ¬ (event_signal h e r).s.state.closing = true) :
    (event_signal h e r).s.state = r.s.state ∧ (event_signal h e r).s.recvq = r.s.recvq := by
  unfold event_signal Conn.close at *
  dsimp only at *
  split_ifs at * <;> first | exact ⟨rfl, rfl⟩ | contradiction

theorem recv_done_recvq {h : Handlers} {next : List Call} {r : Rx}
    (hc : ¬ (recv_done h next r).s.state.closing = true) : (recv_done h next r).s.recvq = next :=
  (event_signal_open hc).2

theorem http_process_loop_shut (h : Handlers) (r r' : Rx) (hs : http_process_loop h r = .ok r') :
    (r'.s.state = .S_REPLY_DONE ∨ r'.buf = [] ∨ r'.s.state.closing = true) ∧ r'.s.Shut := by
  induction r using http_process_loop.induct h with
  | case1 r e he =>
    rw [http_process_loop_error he] at hs
    cases hs
  | case2 r he =>
    rw [http_process_loop_none he] at hs
    obtain rfl := Except.ok.inj hs
    have hdone := http_switch_none h r he
    exact ⟨.inl hdone, shut_of_open (by rw [hdone]; rfl)⟩
  | case3 r r1 he hc ih =>
    rw [http_process_loop_some he, if_pos hc] at hs
    exact ih hs
  | case4 r r1 he hc =>
    rw [http_process_loop_some he, if_neg hc] at hs
    obtain rfl := Except.ok.inj hs
    have hopen : r.s.state.closing = false := by
      by_contra hcl
      rw [http_switch_closing h r (by simpa using hcl)] at he
      cases he
    refine ⟨?_, http_switch_kept shut_kept (shut_of_open hopen) he⟩
    by_cases hb : r1.buf = []
    · exact .inr (.inl hb)
    · exact .inr (.inr (by simpa [hb] using hc))

/-- The connection is closed, and no call waits. -/
theorem store_of_left {h : Handlers} {r r' : Rx} (next : List Call)
    (hp : http_process_reply_bytes h r = .ok r') (hd : ¬ r'.s.state = .S_REPLY_DONE)
    (hb : ¬ r'.buf = []) :
    (r'.store next).recvq = [] := by
  obtain ⟨hstop, hshut⟩ := http_process_loop_shut h _ r' hp
  have hnil := hshut ((hstop.resolve_left hd).resolve_left hb)
  unfold Rx.store
  split
  · exact hnil
  · simp_all

/-- The `do ... while` loop of `do_recv`, on the unread bytes `buf`. -/
def do_recv_loop (h : Handlers) (s : Conn) (buf : List Byte) (log : List Event) :
    Except Abort (Conn × List Event) :=
  match _hq : s.recvq with
  | [] => .error .assert_recvq
  | c :: next =>
    match _hp : http_process_reply_bytes h ⟨s, c, buf, log⟩ with
    | .error e => .error e
    | .ok r =>
      if _hd : r.s.state = .S_REPLY_DONE then
        let r1 := recv_done h next r
        let s1 := { r1.s with state := .S_REPLY_STATUS }
        if _hc : r1.s.state.closing then .ok (r1.s, r1.log)
        else if r1.buf = [] then .ok (s1.readOn, r1.log)
        else do_recv_loop h s1 r1.buf r1.log
      else
        if _hb : r.buf = [] then .ok ((r.store next).readOn, r.log)
        else do_recv_loop h (r.store next) r.buf r.log
termination_by s.recvq.length
decreasing_by
  · change r1.s.recvq.length < s.recvq.length
    rw [recv_done_recvq _hc, _hq]
    exact Nat.lt_succ_self _
  · rw [store_of_left next _hp _hd _hb, _hq]
    exact Nat.zero_lt_succ _

theorem do_recv_loop_nil {h : Handlers} {s : Conn} (buf : List Byte) (log : List Event)
    (hq : s.recvq = []) : do_recv_loop h s buf log = .error .assert_recvq := by
  rw [do_recv_loop]
  split
  · rfl
  · simp_all

/-- One turn of the loop. -/
theorem do_recv_loop_cons {h : Handlers} {s : Conn} {c : Call} {next : List Call}
    (buf : List Byte) (log : List Event) (hq : s.recvq = c :: next) :
    do_recv_loop h s buf log =
      match http_process_reply_bytes h ⟨s, c, buf, log⟩ with
      | .error e => .error e
      | .ok r =>
        if r.s.state = .S_REPLY_DONE then
          if (recv_done h next r).s.state.closing then
            .ok ((recv_done h next r).s, (recv_done h next r).log)
          else if r.buf = [] then
            .ok (Conn.readOn { (recv_done h next r).s with state := .S_REPLY_STATUS },
              (recv_done h next r).log)
          else
            do_recv_loop h { (recv_done h next r).s with state := .S_REPLY_STATUS } r.buf
              (recv_done h next r).log
        else if r.buf = [] then .ok ((r.store next).readOn, r.log)
        else .error .assert_recvq := by
  rw [do_recv_loop]
  split
  · simp_all
  · rename_i c' next' hq'
    obtain ⟨rfl, rfl⟩ : c = c' ∧ next = next' := by simpa [hq] using hq'
    split
    · simp_all
    · rename_i r hp
      simp only [hp]
      split
      · rfl
      · rename_i hd
        split
        · rfl
        · rename_i hb
          rw [do_recv_loop_nil _ _ (store_of_left next hp hd hb)]

def conn_failure (h : Handlers) (r : Rx) : Conn × List Event :=
  let r1 := event_signal h .EV_CONN_FAILED r
  (r1.s.close, r1.log)

def do_recv (h : Handlers) (read : Read) (s : Conn) (log : List Event) :
    Except Abort (Conn × List Event) :=
  match s.recvq with
  | [] => .error .assert_recvq
  | c :: next =>
    match read with
    | .error eagain => .ok (if eagain then (s, log) else conn_failure h ⟨s, c, [], log⟩)
    | .eof =>
      if s.state ≠ .S_REPLY_DATA then .ok (conn_failure h ⟨s, c, [], log⟩)
      else
        let r := recv_done h next ⟨{ s with state := .S_REPLY_DONE }, c, [], log⟩
        .ok (r.s, r.log)
    | .data buf => do_recv_loop h s buf log

/-! ## A run -/

/-- `core_loop` calls `do_recv` only while a call waits for its reply. Between the reads `do_send`
sends requests: their calls wait then, and the connection goes on writing or not. -/
inductive Step where
  | read (read : Read)
  | sent (calls : List Call) (writing : Bool)

def Conn.sent (s : Conn) (calls : List Call) (writing : Bool) : Conn :=
  if s.state.closing then s
  else { s with
    recvq := s.recvq ++ calls
    reading := s.reading || calls ≠ []
    writing
    state := if calls ≠ [] ∧ s.state.replying = false then .S_REPLY_STATUS else s.state }

def do_recvs (h : Handlers) : List Step → Conn → List Event → Except Abort (Conn × List Event)
  | [], s, log => .ok (s, log)
  | .sent calls writing :: steps, s, log => do_recvs h steps (s.sent calls writing) log
  | .read read :: steps, s, log =>
    if s.recvq = [] then do_recvs h steps s log
    else
      match do_recv h read s log with
      | .error e => .error e
      | .ok (s, log) => do_recvs h steps s log

end Httperf.Memory
