-- The reply parser (`http.c`). It works on the unread bytes `buf` of one read, on the
-- connection `s` and on the call `c` that the reply answers.
import Httperf.Call

namespace Httperf

/-! ## The state -/

/-- The part of a `Conn` that receives replies. `line` is the first `line.iov_len` bytes of
`line_buf`, and `recvq` the calls that wait for a reply. -/
structure Conn where
  state : ConnState
  line : List Byte
  content_length : UInt64
  has_body : Bool
  is_chunked : Bool
  recvq : List Call
  deriving DecidableEq, Repr

/-- The events that carry a reply to the other modules, with what the handlers can read. -/
inductive Event where
  | EV_CALL_RECV_RAW_DATA (id : Nat) (data : List Byte)
  | EV_CALL_RECV_START (id : Nat) (status : Int)
  | EV_CALL_RECV_HDR (id : Nat) (line : List Byte)
  | EV_CALL_RECV_DATA (id : Nat) (data : List Byte)
  | EV_CALL_RECV_FOOTER (id : Nat) (line : List Byte)
  | EV_CALL_RECV_STOP (id : Nat) (reply : Reply)
  | EV_CONN_FAILED
  deriving DecidableEq, Repr

/-- What stands outside `http.c`. `closes log` says that a handler of the last event of
`log` closes the connection, and `uninit log` is what the stack holds for the local
`status` of `parse_status_line`. -/
structure Handlers where
  closes : List Event → Bool
  uninit : List Event → Nat

/-- The state that the functions of `http.c` share: `buf` is `*bufp` with `*buf_lenp`. -/
structure Rx where
  s : Conn
  c : Call
  buf : List Byte
  log : List Event
  deriving DecidableEq, Repr

/-- What `core_close` does to the receiving side. -/
def Conn.close (s : Conn) : Conn :=
  if s.state.closing then s else { s with state := .S_CLOSING, recvq := [] }

def event_signal (h : Handlers) (e : Event) (r : Rx) : Rx :=
  let log := r.log ++ [e]
  { r with log, s := if h.closes log then r.s.close else r.s }

/-! ## Lines -/

def MAX_HDR_LINE_LEN : Nat := 1024

/-- `strchr (buf, '\n')`: `core.c` ends the buffer with a NUL. -/
def strchr_lf (buf : List Byte) : Option Nat :=
  let i := (buf.takeWhile fun b => b ≠ LF && b ≠ 0).length
  if buf[i]? = some LF then some i else none

/-- Chops the LF at the tail, and a CR before it. For a bare LF the code looks at the byte before
`line_buf`, the one of the bit fields: here it is taken to be no CR, as it is while no request is
written (`Memory.do_recv_loop_refines`). -/
def chop (line : List Byte) : List Byte :=
  if line.getLast? = some LF then
    let l := line.dropLast
    if l.getLast? = some CR then l.dropLast else l
  else line

/-- The number of bytes up to the end of the line, or of the buffer. -/
def eol (buf : List Byte) : Nat :=
  match strchr_lf buf with
  | some i => i + 1
  | none => buf.length

/-- How many of these bytes still fit. -/
def to_copy (line buf : List Byte) : Nat :=
  if MAX_HDR_LINE_LEN ≤ line.length + eol buf then MAX_HDR_LINE_LEN - 1 - line.length else eol buf

def get_line (r : Rx) : Bool × Rx :=
  if r.buf = [] then (false, r)
  else
    let line := r.s.line ++ r.buf.take (to_copy r.s.line r.buf)
    let r := { r with buf := r.buf.drop (eol r.buf) }
    if line.getLast? = some LF || line.length = MAX_HDR_LINE_LEN - 1 then
      (true, { r with s.line := chop line })
    else (false, { r with s.line := line })

theorem takeWhile_line {s : List Byte} (hlf : LF ∉ s) (hnul : 0 ∉ s) (t : List Byte) :
    (s ++ t).takeWhile (fun b => b ≠ LF && b ≠ 0) = s ++ t.takeWhile fun b => b ≠ LF && b ≠ 0 := by
  apply List.takeWhile_append_of_pos
  intro c hc
  have h1 : c ≠ LF := fun he => hlf (he ▸ hc)
  have h2 : c ≠ 0 := fun he => hnul (he ▸ hc)
  simp [h1, h2]

theorem strchr_lf_line {s : List Byte} (hlf : LF ∉ s) (hnul : 0 ∉ s) (t : List Byte) :
    strchr_lf (s ++ LF :: t) = some s.length := by
  unfold strchr_lf
  rw [takeWhile_line hlf hnul]
  simp

theorem strchr_lf_append {s : List Byte} (hlf : LF ∉ s) (hnul : 0 ∉ s) (t : List Byte) :
    strchr_lf (s ++ t) = (strchr_lf t).map (s.length + ·) := by
  unfold strchr_lf
  dsimp only
  rw [takeWhile_line hlf hnul, List.length_append,
    List.getElem?_append_right (Nat.le_add_right _ _), Nat.add_sub_cancel_left]
  split
  · rfl
  · rfl

/-- The LF is the first one of the read, and no NUL stands before it. -/
theorem strchr_lf_some {buf : List Byte} {i : Nat} (h : strchr_lf buf = some i) :
    buf[i]? = some LF ∧ LF ∉ buf.take i ∧ 0 ∉ buf.take i := by
  unfold strchr_lf at h
  dsimp only at h
  split_ifs at h with hget
  obtain rfl := Option.some.inj h
  have htake : buf.take (buf.takeWhile fun b => b ≠ LF && b ≠ 0).length =
      buf.takeWhile fun b => b ≠ LF && b ≠ 0 :=
    (List.prefix_iff_eq_take.mp (List.takeWhile_prefix _)).symm
  rw [htake]
  refine ⟨hget, fun hmem => ?_, fun hmem => ?_⟩
  · simpa using List.mem_takeWhile_imp hmem
  · simpa using List.mem_takeWhile_imp hmem

/-- Where no LF is seen, a NUL hides those that are there. -/
theorem strchr_lf_none {buf : List Byte} (h : strchr_lf buf = none) {k : Nat}
    (hk : LF ∈ buf.take k) :
    0 ∈ buf.take k := by
  induction buf generalizing k with
  | nil => simp at hk
  | cons c buf ih =>
    cases k with
    | zero => simp at hk
    | succ k =>
      rw [List.take_succ_cons, List.mem_cons] at hk ⊢
      by_cases hnul : c = 0
      · exact .inl hnul.symm
      · have hne : c ≠ LF := by
          rintro rfl
          simp [strchr_lf] at h
        refine .inr (ih ?_ (hk.resolve_left (Ne.symm hne)))
        unfold strchr_lf at h ⊢
        simpa [hnul, hne] using h

theorem eol_pos (buf : List Byte) (h : buf ≠ []) : 0 < eol buf := by
  unfold eol
  split
  · omega
  · exact List.length_pos_iff.mpr h

theorem eol_seen {buf : List Byte} {i : Nat} (h : strchr_lf buf = some i) : eol buf = i + 1 := by
  unfold eol
  rw [h]

theorem eol_unseen {buf : List Byte} (h : strchr_lf buf = none) : eol buf = buf.length := by
  unfold eol
  rw [h]

theorem eol_le (buf : List Byte) : eol buf ≤ buf.length := by
  cases hlf : strchr_lf buf with
  | none => exact Nat.le_of_eq (eol_unseen hlf)
  | some i =>
    rw [eol_seen hlf]
    exact (List.getElem?_eq_some_iff.mp (strchr_lf_some hlf).1).1

/-- A call of `get_line` takes at least one byte of a buffer that is not empty. -/
theorem get_line_length (r : Rx) (h : r.buf ≠ []) :
    (get_line r).2.buf.length < r.buf.length := by
  have hp := eol_pos r.buf h
  have hl := List.length_pos_iff.mpr h
  unfold get_line
  simp only [h, if_false]
  split <;> simp only [List.length_drop] <;> omega

theorem get_line_true_length (r : Rx) (h : ¬ (get_line r).1 = false) :
    (get_line r).2.buf.length < r.buf.length := by
  apply get_line_length
  intro he
  simp [get_line, he] at h

/-- What is left ends where the buffer ends. -/
theorem get_line_suffix (r : Rx) : (get_line r).2.buf <:+ r.buf := by
  unfold get_line
  split
  · exact List.suffix_rfl
  · dsimp only
    split <;> exact List.drop_suffix _ _

/-! ## The status line -/

def SIZE_MAX : UInt64 := 0xffffffffffffffff

/-- A `u_int` stored in an `int`. -/
def u_int_to_int (n : Nat) : Int := if n < 2 ^ 31 then n else n - 2 ^ 32

/-- The `switch` on `status / 100`: does a message body follow the header. -/
def has_body_of (head : Bool) (status : Nat) : Bool :=
  !head && status / 100 ≠ 1 && status ≠ 204 && status ≠ 205 && status ≠ 304

/-- The end of `parse_status_line`, at the label `done`. -/
def status_done (start : Nat) (r : Rx) : Rx :=
  { r with
    c.reply.header_bytes := r.c.reply.header_bytes + UInt64.ofNat (start - r.buf.length)
    s.line := [] }

/-- What the status line sets in the reply, and the local `status`, which keeps its old
content when the line does not parse. -/
def status_values (h : Handlers) (r : Rx) : Reply × Nat :=
  match scan_status_line (cstr r.s.line) with
  | some (major, minor, status) =>
    ({ r.c.reply with
      version := (0x10000 * major + minor) % 2 ^ 32
      status := u_int_to_int status }, status)
  | none => ({ r.c.reply with version := 0x10000, status := 599 }, h.uninit r.log)

/-- `parse_status_line` once the line is complete. -/
def status_line_read (h : Handlers) (start : Nat) (r : Rx) : Rx :=
  let status := (status_values h r).2
  let r1 := { r with
    c.reply := (status_values h r).1
    s.has_body := has_body_of r.c.isHead status }
  let r2 := event_signal h (.EV_CALL_RECV_START r1.c.id r1.c.reply.status) r1
  if !r.c.isHead && status = 100 then
    status_done start { r2 with s.state := .S_REPLY_CONTINUE }
  else if r2.s.state.closing then r2
  else status_done start { r2 with s.state := .S_REPLY_HEADER }

def parse_status_line (h : Handlers) (r : Rx) : Rx :=
  let r0 := { r with s.is_chunked := false, s.content_length := SIZE_MAX }
  let r1 := (get_line r0).2
  if (get_line r0).1 = false then r1 else status_line_read h r.buf.length r1

/-! ## Header and footer lines -/

/-- The empty line after the header. -/
def headers_end (s : Conn) : Conn :=
  if s.has_body then
    if s.is_chunked then { s with content_length := 0, state := .S_REPLY_CHUNKED }
    else { s with state := .S_REPLY_DATA }
  else if s.state = .S_REPLY_CONTINUE then { s with state := .S_REPLY_HEADER }
  else { s with state := .S_REPLY_DONE }

/-- The `switch` on the first character of a header line. -/
def header_field (s : Conn) (hdr : List Byte) : Conn :=
  if strncaseeq hdr (bytes "content-length:") then
    let n := UInt64.ofNat (strtoul (hdr.drop 15) 10).val
    { s with content_length := n, has_body := if n = 0 then false else s.has_body }
  else if strncaseeq hdr (bytes "transfer-encoding:") then
    if strcaseeq ((hdr.drop 18).dropWhile isspace) (bytes "chunked") then
      { s with is_chunked := true }
    else s
  else s

/-- The loop of `parse_headers`. The first field tells whether it ended without `return`. -/
def parse_headers_loop (h : Handlers) (r : Rx) : Bool × Rx :=
  let r1 := (get_line r).2
  if (get_line r).1 = false then (true, r1)
  else if r1.s.line = [] then (true, { r1 with s := headers_end r1.s })
  else
    let r2 := { r1 with s := header_field r1.s (cstr r1.s.line) }
    let r3 := event_signal h (.EV_CALL_RECV_HDR r2.c.id r2.s.line) r2
    if r3.s.state.closing then (false, r3)
    else parse_headers_loop h { r3 with s.line := [] }
termination_by r.buf.length
decreasing_by exact get_line_true_length r (by assumption)

def parse_headers (h : Handlers) (r : Rx) : Rx :=
  match parse_headers_loop h r with
  | (false, r') => r'
  | (true, r') =>
    { r' with c.reply.header_bytes :=
        r'.c.reply.header_bytes + UInt64.ofNat (r.buf.length - r'.buf.length) }

def parse_footers_loop (h : Handlers) (r : Rx) : Bool × Rx :=
  let r1 := (get_line r).2
  if (get_line r).1 = false then (true, r1)
  else if r1.s.line = [] then (true, { r1 with s.state := .S_REPLY_DONE })
  else
    let r2 := event_signal h (.EV_CALL_RECV_FOOTER r1.c.id r1.s.line) r1
    if r2.s.state.closing then (false, r2)
    else parse_footers_loop h { r2 with s.line := [] }
termination_by r.buf.length
decreasing_by exact get_line_true_length r (by assumption)

def parse_footers (h : Handlers) (r : Rx) : Rx :=
  match parse_footers_loop h r with
  | (false, r') => r'
  | (true, r') =>
    { r' with c.reply.footer_bytes :=
        r'.c.reply.footer_bytes + UInt64.ofNat (r.buf.length - r'.buf.length) }

/-! ## The body -/

/-- `s->content_length - c->reply.content_bytes`, in `size_t`. -/
def bytes_needed (r : Rx) : Nat := (r.s.content_length - r.c.reply.content_bytes).toNat

def parse_data (h : Handlers) (r : Rx) : Bool × Rx :=
  let buf_len := min r.buf.length (bytes_needed r)
  let r1 := event_signal h (.EV_CALL_RECV_DATA r.c.id (r.buf.take buf_len)) r
  (buf_len = bytes_needed r,
    { r1 with
      c.reply.content_bytes := r1.c.reply.content_bytes + UInt64.ofNat buf_len
      buf := r.buf.drop buf_len })

theorem parse_data_buf (h : Handlers) (r : Rx) :
    (parse_data h r).2.buf = r.buf.drop (min r.buf.length (bytes_needed r)) := rfl

theorem parse_data_length (h : Handlers) (r : Rx) (hb : r.buf ≠ [])
    (hn : r.c.reply.content_bytes < r.s.content_length) :
    (parse_data h r).2.buf.length < r.buf.length := by
  have hpos : 0 < bytes_needed r := by
    unfold bytes_needed
    rw [UInt64.toNat_sub_of_le _ _ (UInt64.le_of_lt hn)]
    have := UInt64.lt_iff_toNat_lt.mp hn
    omega
  have := List.length_pos_iff.mpr hb
  rw [parse_data_buf, List.length_drop]
  omega

theorem parse_data_suffix (h : Handlers) (r : Rx) : (parse_data h r).2.buf <:+ r.buf :=
  List.drop_suffix _ _

def xfer_chunked (h : Handlers) (r : Rx) : Rx :=
  if r.buf = [] ∨ r.s.state.closing then r
  else if r.s.content_length ≤ r.c.reply.content_bytes then
    -- need to parse next chunk length line
    let r1 := (get_line r).2
    if (get_line r).1 = false then r1
    else if r1.s.line = [] then xfer_chunked h r1
    else
      let n := strtoul (cstr r1.s.line) 16
      let r2 := { r1 with s.line := [] }
      if n.erange || !n.converted then xfer_chunked h r2
      else if n.val = 0 then { r2 with s.state := .S_REPLY_FOOTER }
      else
        let r3 := { r2 with s.content_length := r2.s.content_length + UInt64.ofNat n.val }
        xfer_chunked h (parse_data h r3).2
  else xfer_chunked h (parse_data h r).2
termination_by r.buf.length
decreasing_by
  · exact get_line_true_length r (by assumption)
  · exact get_line_true_length r (by assumption)
  · exact Nat.lt_of_le_of_lt (parse_data_suffix h r3).length_le
      (get_line_true_length r (by assumption))
  · exact parse_data_length h r (fun he => by simp_all) (UInt64.not_le.mp ‹¬ _ ≤ _›)

/-! ## One reply -/

/-- How a run of the program ends before its time. -/
inductive Abort where
  /-- `assert (c)` in `do_recv` -/
  | assert_recvq
  /-- `exit (1)` at a bad state in `http_process_reply_bytes` -/
  | exit_bad_state
  deriving DecidableEq, Repr

/-- The `switch` of `http_process_reply_bytes`: `none` for the `return` in `S_REPLY_DONE`. -/
def http_switch (h : Handlers) (r : Rx) : Except Abort (Option Rx) :=
  match r.s.state with
  | .S_REPLY_STATUS => .ok (parse_status_line h r)
  | .S_REPLY_HEADER => .ok (parse_headers h r)
  | .S_REPLY_FOOTER => .ok (parse_footers h r)
  | .S_REPLY_DATA =>
    let (all, r') := parse_data h r
    .ok (some (if all && !r'.s.state.closing then { r' with s.state := .S_REPLY_DONE } else r'))
  | .S_REPLY_CONTINUE => .ok (parse_headers h r)
  | .S_REPLY_CHUNKED => .ok (xfer_chunked h r)
  | .S_REPLY_DONE => .ok none
  | _ => .error .exit_bad_state

end Httperf
