-- The assertion of `do_recv` that a call is pending. The loop goes on while there are unread bytes,
-- and it takes a call off the queue at the end of each reply. What a read brings is told unit by
-- unit: a line, the part of a line at the end of the read, or data.
import Httperf.ReplyMemory
import Mathlib.Logic.Relation

namespace Httperf.Memory

open Relation

/-! ## The units of a read -/

/-- A unit of the stream, and what it makes of the state before its event is signalled. `state` is
set behind the event, by a status 100 (`insists`) even if a handler closes the connection. -/
structure Piece where
  r : Rx
  event : Option Event
  state : ConnState
  insists : Bool

def Rx.countHeader (n : Nat) (r : Rx) : Rx :=
  { r with c.reply.header_bytes := r.c.reply.header_bytes + UInt64.ofNat n }

def Rx.countFooter (n : Nat) (r : Rx) : Rx :=
  { r with c.reply.footer_bytes := r.c.reply.footer_bytes + UInt64.ofNat n }

/-- A status line of `n` bytes. -/
def statusLinePiece (h : Handlers) (n : Nat) (r : Rx) : Piece :=
  let reply := (status_values h r).1
  let status := (status_values h r).2
  let continues := !r.c.isHead && status = 100
  ⟨Rx.countHeader n
      { r with c.reply := reply, s.has_body := has_body_of r.c.isHead status, s.iov_len := 0 },
    some (.EV_CALL_RECV_START r.c.id reply.status),
    if continues then .S_REPLY_CONTINUE else .S_REPLY_HEADER, continues⟩

def statusPiece (h : Handlers) (r : Rx) : Piece :=
  let r0 := { r with s.is_chunked := false, s.content_length := SIZE_MAX }
  let r1 := (get_line r0).2
  if (get_line r0).1 then statusLinePiece h (r.buf.length - r1.buf.length) r1
  else ⟨r1, none, r.s.state, false⟩

def headerPiece (r : Rx) : Piece :=
  let r1 := (get_line r).2
  let r2 := r1.countHeader (r.buf.length - r1.buf.length)
  if (get_line r).1 then
    if r1.s.iov_len = 0 then
      ⟨{ r2 with s := headers_end r1.s }, none, (headers_end r1.s).state, false⟩
    else
      let s := header_field r1.s r1.s.text
      ⟨{ r2 with s := { s with iov_len := 0 } }, some (.EV_CALL_RECV_HDR r1.c.id s.line),
        s.state, false⟩
  else ⟨r2, none, r.s.state, false⟩

def footerPiece (r : Rx) : Piece :=
  let r1 := (get_line r).2
  let r2 := r1.countFooter (r.buf.length - r1.buf.length)
  if (get_line r).1 then
    if r1.s.iov_len = 0 then ⟨r2, none, .S_REPLY_DONE, false⟩
    else ⟨{ r2 with s.iov_len := 0 }, some (.EV_CALL_RECV_FOOTER r1.c.id r1.s.line),
      r.s.state, false⟩
  else ⟨r2, none, r.s.state, false⟩

/-- The data that the read brings, as far as they are needed. -/
def dataPiece (r : Rx) : Piece :=
  let needed := (r.s.content_length - r.c.reply.content_bytes).toNat
  let n := min r.buf.length needed
  ⟨{ r with
      c.reply.content_bytes := r.c.reply.content_bytes + UInt64.ofNat n
      buf := r.buf.drop n },
    some (.EV_CALL_RECV_DATA r.c.id (r.buf.take n)),
    if r.s.state = .S_REPLY_DATA ∧ n = needed then .S_REPLY_DONE else r.s.state, false⟩

/-- The line in front of a chunk, with the first data of the chunk. -/
def chunkPiece (r : Rx) : Piece :=
  let r1 := (get_line r).2
  if (get_line r).1 = false ∨ r1.s.iov_len = 0 then ⟨r1, none, r.s.state, false⟩
  else
    let n := strtoul r1.s.text 16
    let r2 := { r1 with s.iov_len := 0 }
    if n.erange || !n.converted then ⟨r2, none, r.s.state, false⟩
    else if n.val = 0 then ⟨r2, none, .S_REPLY_FOOTER, false⟩
    else dataPiece { r2 with s.content_length := r2.s.content_length + UInt64.ofNat n.val }

/-- The next unit of a reply, by the state before it and the bytes. -/
def piece (h : Handlers) (r : Rx) : Piece :=
  match r.s.state with
  | .S_REPLY_STATUS => statusPiece h r
  | .S_REPLY_FOOTER => footerPiece r
  | .S_REPLY_DATA => dataPiece r
  | .S_REPLY_CHUNKED =>
    if r.s.content_length ≤ r.c.reply.content_bytes then chunkPiece r else dataPiece r
  | _ => headerPiece r

def Piece.signalled (h : Handlers) (u : Piece) : Rx :=
  match u.event with
  | none => u.r
  | some e => event_signal h e u.r

/-- No handler of the event closes the connection. -/
def Piece.Open (h : Handlers) (u : Piece) : Prop :=
  u.insists = true ∨ ∀ e ∈ u.event, h.closes (u.r.log ++ [e]) = false

instance (h : Handlers) (u : Piece) : Decidable (u.Open h) := inferInstanceAs (Decidable (_ ∨ _))

/-- The state behind it. -/
def Piece.behind (h : Handlers) (u : Piece) : Rx :=
  { u.signalled h with s := { (u.signalled h).s with state := u.state } }

/-! ## Where the bytes of a read have a call -/

/-- Unread bytes, in front of a unit or behind a reply. `next` are the calls that wait behind
`r.c`. -/
structure Place where
  r : Rx
  next : List Call

/-- A call takes its turn, with the bytes `buf`. -/
def Place.enter (h : Handlers) (s : Conn) (c : Call) (next : List Call) (buf : List Byte)
    (log : List Event) : Place :=
  ⟨event_signal h (.EV_CALL_RECV_RAW_DATA c.id buf) ⟨s, c, buf, log⟩, next⟩

def receiving : ConnState → Bool
  | .S_REPLY_STATUS | .S_REPLY_HEADER | .S_REPLY_CONTINUE | .S_REPLY_DATA | .S_REPLY_CHUNKED
  | .S_REPLY_FOOTER => true
  | _ => false

/-- What is unread behind the next unit has a call: no handler of its event closes the connection.
And what is unread behind the reply has one: another call waits, unless the handlers of
`EV_CALL_RECV_STOP` close the connection. -/
def Place.Covered (h : Handlers) (p : Place) : Prop :=
  if p.r.s.state = .S_REPLY_DONE then
    p.r.buf = [] ∨ p.next ≠ [] ∨
      h.closes (p.r.log ++ [.EV_CALL_RECV_STOP p.r.c.id p.r.c.reply]) = true
  else if receiving p.r.s.state then (piece h p.r).r.buf = [] ∨ (piece h p.r).Open h
  else True

/-- With handlers that close nothing it comes to the calls that wait. -/
theorem Place.covered_iff_of_quiet {h : Handlers} (hquiet : ∀ log, h.closes log = false)
    (p : Place) :
    p.Covered h ↔ (p.r.s.state = .S_REPLY_DONE → p.r.buf = [] ∨ p.next ≠ []) := by
  unfold Place.Covered Piece.Open
  split_ifs with hd hr
  · simp [hquiet, hd]
  · simp [hquiet, hd]
  · simp [hd]

/-- Where the unread bytes of the read stand next. -/
def Place.succ (h : Handlers) (p : Place) : Option Place :=
  if p.r.s.state = .S_REPLY_DONE then
    let r := recv_done h p.next p.r
    if p.r.buf = [] ∨ r.s.state.closing then none
    else
      match p.next with
      | [] => none
      | c :: next => some (.enter h { r.s with state := .S_REPLY_STATUS } c next r.buf r.log)
  else if receiving p.r.s.state then
    if (piece h p.r).r.buf = [] ∨ ¬ (piece h p.r).Open h then none
    else some ⟨(piece h p.r).behind h, p.next⟩
  else none

/-- From this place on all bytes of the read have a call. -/
def Place.Attended (h : Handlers) (p : Place) : Prop :=
  ∀ q, ReflTransGen (fun p q => Place.succ h p = some q) p q → q.Covered h

theorem Place.attended_iff (h : Handlers) (p : Place) :
    p.Attended h ↔ p.Covered h ∧ ∀ q, p.succ h = some q → q.Attended h := by
  constructor
  · intro hall
    exact ⟨hall p .refl, fun q hq r hr => hall r (.head hq hr)⟩
  · rintro ⟨hp, hall⟩ q hq
    rcases hq.cases_head with rfl | ⟨r, hr, hq⟩
    · exact hp
    · exact hall r hr q hq

theorem event_signal_closing {h : Handlers} {e : Event} {r : Rx} (hr : r.s.state.closing = false) :
    (event_signal h e r).s.state.closing = h.closes (r.log ++ [e]) := by
  have hstate : (if h.sends (r.log ++ [e]) then { r.s with writing := true } else r.s).state =
      r.s.state := by
    split <;> rfl
  unfold event_signal Conn.close
  dsimp only
  cases h.closes (r.log ++ [e]) with
  | true =>
    rw [if_pos rfl, hstate, hr, if_neg (by decide)]
    rfl
  | false => rw [if_neg (by decide), hstate, hr]

theorem Place.attended_done {h : Handlers} {r : Rx} (next : List Call)
    (hr : r.s.state = .S_REPLY_DONE) :
    Place.Attended h ⟨r, next⟩ ↔ r.buf = [] ∨ (recv_done h next r).s.state.closing = true ∨
      ∃ c rest, next = c :: rest ∧ Place.Attended h (.enter h
        { (recv_done h next r).s with state := .S_REPLY_STATUS } c rest r.buf
          (recv_done h next r).log) := by
  have hcl : (recv_done h next r).s.state.closing =
      h.closes (r.log ++ [.EV_CALL_RECV_STOP r.c.id r.c.reply]) :=
    event_signal_closing (by rw [hr]; rfl)
  rw [Place.attended_iff, Place.Covered, Place.succ]
  dsimp only
  rw [if_pos hr, if_pos hr, ← hcl]
  by_cases hb : r.buf = []
  · simp [hb]
  by_cases hc : (recv_done h next r).s.state.closing = true
  · simp [hc]
  cases next with
  | nil => simp [hb, hc]
  | cons c rest =>
    have hbuf : (recv_done h (c :: rest) r).buf = r.buf := rfl
    simp [hb, hc, hbuf]

theorem Place.attended_piece {h : Handlers} {r : Rx} (next : List Call)
    (hr : receiving r.s.state = true) :
    Place.Attended h ⟨r, next⟩ ↔ (piece h r).r.buf = [] ∨
      ((piece h r).Open h ∧ Place.Attended h ⟨(piece h r).behind h, next⟩) := by
  have hd : ¬ r.s.state = .S_REPLY_DONE := by
    intro hd
    rw [hd] at hr
    cases hr
  rw [Place.attended_iff, Place.Covered, Place.succ]
  dsimp only
  rw [if_neg hd, if_neg hd, if_pos hr, if_pos hr]
  by_cases hb : (piece h r).r.buf = []
  · simp [hb]
  by_cases ho : (piece h r).Open h
  · simp [hb, ho]
  · simp [hb, ho]

theorem Place.attended_other (h : Handlers) {r : Rx} (next : List Call)
    (hd : ¬ r.s.state = .S_REPLY_DONE) (hr : ¬ receiving r.s.state = true) :
    Place.Attended h ⟨r, next⟩ := by
  rw [Place.attended_iff, Place.Covered, Place.succ]
  dsimp only
  rw [if_neg hd, if_neg hd, if_neg hr, if_neg hr]
  simp

/-! ## The parser, unit by unit -/

theorem Piece.open_of_none (h : Handlers) {u : Piece} (hu : u.event = none) : u.Open h := by
  right
  rw [hu]
  exact nofun

theorem Piece.open_iff {h : Handlers} {u : Piece} {e : Event} (hu : u.event = some e)
    (hno : u.insists = false) (hr : u.r.s.state.closing = false) :
    u.Open h ↔ (event_signal h e u.r).s.state.closing = false := by
  unfold Piece.Open
  rw [hu, hno, event_signal_closing hr]
  simp

/-- Behind an open unit that sets no state stands what its event leaves. -/
theorem Piece.behind_eq {h : Handlers} {u : Piece} {e : Event} (hu : u.event = some e)
    (hstate : u.state = u.r.s.state) (hc : (event_signal h e u.r).s.state.closing = false) :
    u.behind h = event_signal h e u.r := by
  have hsame := (event_signal_open (Bool.not_eq_true _ ▸ hc)).1
  unfold Piece.behind Piece.signalled
  rw [hu, hstate, ← hsame]

theorem event_signal_iov_len (h : Handlers) (e : Event) (r : Rx) :
    event_signal h e { r with s.iov_len := 0 } =
      { event_signal h e r with s := { (event_signal h e r).s with iov_len := 0 } } := by
  unfold event_signal Conn.close
  dsimp only
  split_ifs <;> rfl

theorem get_line_countHeader (m : Nat) (r : Rx) :
    (get_line (r.countHeader m)).1 = (get_line r).1 ∧
      (get_line (r.countHeader m)).2 = (get_line r).2.countHeader m := ⟨rfl, rfl⟩

theorem get_line_countFooter (m : Nat) (r : Rx) :
    (get_line (r.countFooter m)).1 = (get_line r).1 ∧
      (get_line (r.countFooter m)).2 = (get_line r).2.countFooter m := ⟨rfl, rfl⟩

theorem Rx.countHeader_add (m n : Nat) (r : Rx) :
    (r.countHeader m).countHeader n = r.countHeader (m + n) := by
  unfold Rx.countHeader
  dsimp only
  rw [UInt64.ofNat_add, UInt64.add_assoc]

theorem Rx.countFooter_add (m n : Nat) (r : Rx) :
    (r.countFooter m).countFooter n = r.countFooter (m + n) := by
  unfold Rx.countFooter
  dsimp only
  rw [UInt64.ofNat_add, UInt64.add_assoc]

attribute [local irreducible] get_line header_field headers_end

/-- A count that is owed changes nothing else. -/
theorem headerPiece_count (m : Nat) (r : Rx) :
    headerPiece (r.countHeader m) =
      { headerPiece r with r := (headerPiece r).r.countHeader m } := by
  have hcomm : ∀ (x : Rx) (k : Nat), (x.countHeader m).countHeader k =
      (x.countHeader k).countHeader m := by
    intro x k
    rw [Rx.countHeader_add, Rx.countHeader_add, Nat.add_comm]
  obtain ⟨hfull, hline⟩ := get_line_countHeader m r
  unfold headerPiece
  dsimp only
  rw [hfull, hline, hcomm]
  split_ifs <;> first | rfl | contradiction

theorem Piece.behind_count (h : Handlers) (m : Nat) (u : Piece) :
    Piece.behind h { u with r := u.r.countHeader m } = (u.behind h).countHeader m := by
  unfold Piece.behind Piece.signalled
  dsimp only
  cases u.event <;> rfl

/-- The bytes from `r` on are told by what the parser makes of `r`. -/
def Tells (h : Handlers) (next : List Call) (r r' : Rx) : Prop :=
  Place.Attended h ⟨r, next⟩ ↔
    r'.buf = [] ∨ (r'.s.state.closing = false ∧ Place.Attended h ⟨r', next⟩)

def inHeader (r : Rx) : Prop := r.s.state = .S_REPLY_HEADER ∨ r.s.state = .S_REPLY_CONTINUE

section
variable {h : Handlers} (next : List Call)

theorem attended_header {r : Rx} (hr : inHeader r) (m : Nat) :
    Place.Attended h ⟨r.countHeader m, next⟩ ↔ (headerPiece r).r.buf = [] ∨
      ((headerPiece r).Open h ∧
        Place.Attended h ⟨((headerPiece r).behind h).countHeader m, next⟩) := by
  have hstate : (r.countHeader m).s.state = r.s.state := rfl
  have hpiece : piece h (r.countHeader m) = headerPiece (r.countHeader m) := by
    unfold piece
    rcases hr with hr | hr <;> rw [hstate, hr]
  have hrec : receiving (r.countHeader m).s.state = true := by
    rcases hr with hr | hr <;> rw [hstate, hr] <;> rfl
  rw [Place.attended_piece next hrec, hpiece, headerPiece_count, Piece.behind_count]
  rfl

/-- The bytes that `get_line` takes. -/
def Rx.lineBytes (r : Rx) : Nat := r.buf.length - (get_line r).2.buf.length

theorem headerPiece_more {r : Rx} (hf : (get_line r).1 = false) :
    (headerPiece r).r.buf = (get_line r).2.buf ∧ (headerPiece r).Open h ∧
      (headerPiece r).behind h = (get_line r).2.countHeader r.lineBytes := by
  have hpiece : headerPiece r =
      ⟨(get_line r).2.countHeader r.lineBytes, none, r.s.state, false⟩ := by
    unfold headerPiece
    rw [if_neg (by rw [hf]; decide)]
    rfl
  rw [hpiece]
  refine ⟨rfl, Piece.open_of_none h rfl, ?_⟩
  unfold Piece.behind Piece.signalled
  dsimp only
  rw [← (get_line_s r).1]
  rfl

theorem headerPiece_end {r : Rx} (hf : ¬ (get_line r).1 = false)
    (he : (get_line r).2.s.iov_len = 0) :
    (headerPiece r).r.buf = (get_line r).2.buf ∧ (headerPiece r).Open h ∧
      (headerPiece r).behind h =
        Rx.countHeader r.lineBytes { (get_line r).2 with s := headers_end (get_line r).2.s } := by
  have hpiece : headerPiece r =
      ⟨Rx.countHeader r.lineBytes { (get_line r).2 with s := headers_end (get_line r).2.s }, none,
        (headers_end (get_line r).2.s).state, false⟩ := by
    unfold headerPiece
    rw [if_pos (by simpa using hf), if_pos he]
    rfl
  rw [hpiece]
  exact ⟨rfl, Piece.open_of_none h rfl, rfl⟩

theorem headerPiece_field {r r3 : Rx} (hr : inHeader r) (hf : ¬ (get_line r).1 = false)
    (he : ¬ (get_line r).2.s.iov_len = 0)
    (hr3 : event_signal h (.EV_CALL_RECV_HDR (get_line r).2.c.id
      (header_field (get_line r).2.s (get_line r).2.s.text).line)
      { (get_line r).2 with s := header_field (get_line r).2.s (get_line r).2.s.text } = r3) :
    (headerPiece r).r.buf = (get_line r).2.buf ∧
      ((headerPiece r).Open h ↔ r3.s.state.closing = false) ∧
      (r3.s.state.closing = false →
        (headerPiece r).behind h = Rx.countHeader r.lineBytes { r3 with s.iov_len := 0 }) := by
  obtain ⟨s, hs⟩ : ∃ s, header_field (get_line r).2.s (get_line r).2.s.text = s := ⟨_, rfl⟩
  have hsstate : s.state = r.s.state := by
    rw [← hs, (header_field_s _ _).1, (get_line_s r).1]
  have hpiece : headerPiece r =
      ⟨Rx.countHeader r.lineBytes { (get_line r).2 with s := { s with iov_len := 0 } },
        some (.EV_CALL_RECV_HDR (get_line r).2.c.id s.line), s.state, false⟩ := by
    unfold headerPiece
    rw [if_pos (by simpa using hf), if_neg he, hs]
    rfl
  have hevent : event_signal h (.EV_CALL_RECV_HDR (get_line r).2.c.id s.line)
      (Rx.countHeader r.lineBytes { (get_line r).2 with s := { s with iov_len := 0 } }) =
        Rx.countHeader r.lineBytes { r3 with s.iov_len := 0 } := by
    rw [← hr3, hs]
    have hlen := event_signal_iov_len h (.EV_CALL_RECV_HDR (get_line r).2.c.id s.line)
      { (get_line r).2 with s := s }
    exact congrArg (Rx.countHeader r.lineBytes) hlen
  have hopen : (headerPiece r).r.s.state.closing = false := by
    rw [hpiece]
    change s.state.closing = false
    rw [hsstate]
    rcases hr with hr | hr <;> rw [hr] <;> rfl
  have hiff := Piece.open_iff (h := h) (u := headerPiece r)
    (e := .EV_CALL_RECV_HDR (get_line r).2.c.id s.line) (by rw [hpiece]) (by rw [hpiece]) hopen
  have hbehind := Piece.behind_eq (h := h) (u := headerPiece r)
    (e := .EV_CALL_RECV_HDR (get_line r).2.c.id s.line) (by rw [hpiece]) (by rw [hpiece]; rfl)
  rw [show (headerPiece r).r = _ by rw [hpiece], hevent] at hiff hbehind
  exact ⟨by rw [hpiece]; rfl, hiff, hbehind⟩

theorem headers_loop_tells {r : Rx} (hr : inHeader r) (m : Nat) :
    Place.Attended h ⟨r.countHeader m, next⟩ ↔ (parse_headers_loop h r).2.buf = [] ∨
      ((parse_headers_loop h r).2.s.state.closing = false ∧
        Place.Attended h ⟨(parse_headers_loop h r).2.countHeader
          (m + (r.buf.length - (parse_headers_loop h r).2.buf.length)), next⟩) := by
  induction r using parse_headers_loop.induct h generalizing m with
  | case1 r hf =>
    have hloop : (parse_headers_loop h r).2 = (get_line r).2 := by
      rw [parse_headers_loop, if_pos hf]
    obtain ⟨hbuf, hopen, hbehind⟩ := headerPiece_more (h := h) hf
    have hclosing : (get_line r).2.s.state.closing = false := by
      rw [(get_line_s r).1]
      rcases hr with hr | hr <;> rw [hr] <;> rfl
    rw [attended_header next hr, hbuf, hbehind, hloop, Rx.countHeader_add, Nat.add_comm]
    simp [hopen, hclosing, Rx.lineBytes]
  | case2 r r1 hf he =>
    have hloop : (parse_headers_loop h r).2 =
        { (get_line r).2 with s := headers_end (get_line r).2.s } := by
      rw [parse_headers_loop, if_neg hf, if_pos he]
    obtain ⟨hbuf, hopen, hbehind⟩ := headerPiece_end (h := h) hf he
    have hclosing : (headers_end (get_line r).2.s).state.closing = false :=
      replying_open (headers_end_replying _)
    rw [attended_header next hr, hbuf, hbehind, hloop, Rx.countHeader_add, Nat.add_comm]
    simp [hopen, hclosing, Rx.lineBytes]
  | case3 r r1 hf he r2 r3 hc =>
    have hloop : (parse_headers_loop h r).2 = r3 := by
      rw [parse_headers_loop, if_neg hf, if_neg he, if_pos hc]
    obtain ⟨hbuf, hiff, -⟩ := headerPiece_field hr hf he (rfl : _ = r3)
    rw [attended_header next hr, hbuf, hiff, hloop, hc]
    have hsame : r3.buf = (get_line r).2.buf := rfl
    simp [hsame]
  | case4 r r1 hf he r2 r3 hc ih =>
    have hloop : parse_headers_loop h r = parse_headers_loop h { r3 with s.iov_len := 0 } := by
      rw [parse_headers_loop, if_neg hf, if_neg he, if_neg hc]
    obtain ⟨hbuf, hiff, hbehind⟩ := headerPiece_field hr hf he (rfl : _ = r3)
    have hstate : r3.s.state = r.s.state := by
      rw [(event_signal_open hc).1, (header_field_s _ _).1, (get_line_s r).1]
    rw [Bool.not_eq_true] at hc
    have hsuffix : (parse_headers_loop h { r3 with s.iov_len := 0 }).2.buf <:+ r3.buf :=
      parse_headers_loop_kept (suffix_kept _) h _ (get_line_suffix _)
    have hle : r3.buf.length ≤ r.buf.length := (get_line_suffix r).length_le
    have hlen : r.lineBytes + m +
        (r3.buf.length - (parse_headers_loop h { r3 with s.iov_len := 0 }).2.buf.length) =
          m + (r.buf.length - (parse_headers_loop h { r3 with s.iov_len := 0 }).2.buf.length) := by
      have hrest := hsuffix.length_le
      have hline : r.lineBytes = r.buf.length - r3.buf.length := rfl
      omega
    have hrest := ih (by unfold inHeader; rw [hstate]; exact hr) (r.lineBytes + m)
    rw [attended_header next hr, hbuf, hiff, hloop, hbehind hc, Rx.countHeader_add, hrest]
    dsimp only
    rw [hlen]
    have hsame : (get_line r).2.buf = r3.buf := rfl
    rw [hsame]
    by_cases hb : r3.buf = []
    · exact iff_of_true (.inl hb)
        (.inl (List.suffix_nil.mp (hsuffix.trans (List.suffix_nil.mpr hb))))
    · rw [or_iff_right hb, and_iff_right hc]

/-- The loop returns when the connection is closed. -/
theorem parse_headers_loop_ended (h : Handlers) (r : Rx) :
    (parse_headers_loop h r).1 = false → (parse_headers_loop h r).2.s.state.closing = true := by
  induction r using parse_headers_loop.induct h with
  | case1 r hf =>
    rw [parse_headers_loop, if_pos hf]
    intro hno
    cases hno
  | case2 r r1 hf he =>
    rw [parse_headers_loop, if_neg hf, if_pos he]
    intro hno
    cases hno
  | case3 r r1 hf he r2 r3 hc =>
    rw [parse_headers_loop, if_neg hf, if_neg he, if_pos hc]
    exact fun _ => hc
  | case4 r r1 hf he r2 r3 hc ih =>
    rw [parse_headers_loop, if_neg hf, if_neg he, if_neg hc]
    exact ih

/-- The counts of the bytes at the end of the function. -/
theorem parse_headers_tells {r : Rx} (hr : inHeader r) : Tells h next r (parse_headers h r) := by
  have hloop := headers_loop_tells (h := h) next hr 0
  have hzero : r.countHeader 0 = r := by
    unfold Rx.countHeader
    simp
  rw [hzero, Nat.zero_add] at hloop
  unfold Tells
  rw [hloop]
  have hended := parse_headers_loop_ended h r
  unfold parse_headers
  rcases hp : parse_headers_loop h r with ⟨ended, r'⟩
  rw [hp] at hended
  cases ended with
  | true => rfl
  | false =>
    have hc := hended rfl
    dsimp only at hc ⊢
    rw [hc]
    simp

/-! The trailer goes the same way. -/

theorem footerPiece_count (m : Nat) (r : Rx) :
    footerPiece (r.countFooter m) =
      { footerPiece r with r := (footerPiece r).r.countFooter m } := by
  have hcomm : ∀ (x : Rx) (k : Nat), (x.countFooter m).countFooter k =
      (x.countFooter k).countFooter m := by
    intro x k
    rw [Rx.countFooter_add, Rx.countFooter_add, Nat.add_comm]
  obtain ⟨hfull, hline⟩ := get_line_countFooter m r
  unfold footerPiece
  dsimp only
  rw [hfull, hline, hcomm]
  split_ifs <;> first | rfl | contradiction

theorem Piece.behind_countFooter (h : Handlers) (m : Nat) (u : Piece) :
    Piece.behind h { u with r := u.r.countFooter m } = (u.behind h).countFooter m := by
  unfold Piece.behind Piece.signalled
  dsimp only
  cases u.event <;> rfl

theorem attended_footer {r : Rx} (hr : r.s.state = .S_REPLY_FOOTER) (m : Nat) :
    Place.Attended h ⟨r.countFooter m, next⟩ ↔ (footerPiece r).r.buf = [] ∨
      ((footerPiece r).Open h ∧
        Place.Attended h ⟨((footerPiece r).behind h).countFooter m, next⟩) := by
  have hstate : (r.countFooter m).s.state = .S_REPLY_FOOTER := hr
  have hpiece : piece h (r.countFooter m) = footerPiece (r.countFooter m) := by
    unfold piece
    rw [hstate]
  rw [Place.attended_piece next (by rw [hstate]; rfl), hpiece, footerPiece_count,
    Piece.behind_countFooter]
  rfl

theorem footerPiece_more {r : Rx} (hf : (get_line r).1 = false) :
    (footerPiece r).r.buf = (get_line r).2.buf ∧ (footerPiece r).Open h ∧
      (footerPiece r).behind h = (get_line r).2.countFooter r.lineBytes := by
  have hpiece :
      footerPiece r = ⟨(get_line r).2.countFooter r.lineBytes, none, r.s.state, false⟩ := by
    unfold footerPiece
    rw [if_neg (by rw [hf]; decide)]
    rfl
  rw [hpiece]
  refine ⟨rfl, Piece.open_of_none h rfl, ?_⟩
  unfold Piece.behind Piece.signalled
  dsimp only
  rw [← (get_line_s r).1]
  rfl

theorem footerPiece_end {r : Rx} (hf : ¬ (get_line r).1 = false)
    (he : (get_line r).2.s.iov_len = 0) :
    (footerPiece r).r.buf = (get_line r).2.buf ∧ (footerPiece r).Open h ∧
      (footerPiece r).behind h =
        Rx.countFooter r.lineBytes { (get_line r).2 with s.state := .S_REPLY_DONE } := by
  have hpiece : footerPiece r =
      ⟨(get_line r).2.countFooter r.lineBytes, none, .S_REPLY_DONE, false⟩ := by
    unfold footerPiece
    rw [if_pos (by simpa using hf), if_pos he]
    rfl
  rw [hpiece]
  exact ⟨rfl, Piece.open_of_none h rfl, rfl⟩

theorem footerPiece_field {r r2 : Rx} (hr : r.s.state = .S_REPLY_FOOTER)
    (hf : ¬ (get_line r).1 = false) (he : ¬ (get_line r).2.s.iov_len = 0)
    (hr2 : event_signal h (.EV_CALL_RECV_FOOTER (get_line r).2.c.id (get_line r).2.s.line)
      (get_line r).2 = r2) :
    (footerPiece r).r.buf = (get_line r).2.buf ∧
      ((footerPiece r).Open h ↔ r2.s.state.closing = false) ∧
      (r2.s.state.closing = false →
        (footerPiece r).behind h = Rx.countFooter r.lineBytes { r2 with s.iov_len := 0 }) := by
  have hpiece : footerPiece r =
      ⟨Rx.countFooter r.lineBytes { (get_line r).2 with s.iov_len := 0 },
        some (.EV_CALL_RECV_FOOTER (get_line r).2.c.id (get_line r).2.s.line), r.s.state,
          false⟩ := by
    unfold footerPiece
    rw [if_pos (by simpa using hf), if_neg he]
    rfl
  have hevent : event_signal h (.EV_CALL_RECV_FOOTER (get_line r).2.c.id (get_line r).2.s.line)
      (Rx.countFooter r.lineBytes { (get_line r).2 with s.iov_len := 0 }) =
        Rx.countFooter r.lineBytes { r2 with s.iov_len := 0 } := by
    rw [← hr2]
    exact congrArg (Rx.countFooter r.lineBytes) (event_signal_iov_len h _ (get_line r).2)
  have hsame : (footerPiece r).r.s.state = r.s.state := by
    rw [hpiece]
    exact (get_line_s r).1
  have hiff := Piece.open_iff (h := h) (u := footerPiece r)
    (e := .EV_CALL_RECV_FOOTER (get_line r).2.c.id (get_line r).2.s.line) (by rw [hpiece])
    (by rw [hpiece]) (by rw [hsame, hr]; rfl)
  have hbehind := Piece.behind_eq (h := h) (u := footerPiece r)
    (e := .EV_CALL_RECV_FOOTER (get_line r).2.c.id (get_line r).2.s.line) (by rw [hpiece])
    (by rw [hsame, hpiece])
  rw [show (footerPiece r).r = _ by rw [hpiece], hevent] at hiff hbehind
  exact ⟨by rw [hpiece]; rfl, hiff, hbehind⟩

theorem footers_loop_tells {r : Rx} (hr : r.s.state = .S_REPLY_FOOTER) (m : Nat) :
    Place.Attended h ⟨r.countFooter m, next⟩ ↔ (parse_footers_loop h r).2.buf = [] ∨
      ((parse_footers_loop h r).2.s.state.closing = false ∧
        Place.Attended h ⟨(parse_footers_loop h r).2.countFooter
          (m + (r.buf.length - (parse_footers_loop h r).2.buf.length)), next⟩) := by
  induction r using parse_footers_loop.induct h generalizing m with
  | case1 r hf =>
    have hloop : (parse_footers_loop h r).2 = (get_line r).2 := by
      rw [parse_footers_loop, if_pos hf]
    obtain ⟨hbuf, hopen, hbehind⟩ := footerPiece_more (h := h) hf
    have hclosing : (get_line r).2.s.state.closing = false := by
      rw [(get_line_s r).1, hr]
      rfl
    rw [attended_footer next hr, hbuf, hbehind, hloop, Rx.countFooter_add, Nat.add_comm]
    simp [hopen, hclosing, Rx.lineBytes]
  | case2 r r1 hf he =>
    have hloop : (parse_footers_loop h r).2 = { (get_line r).2 with s.state := .S_REPLY_DONE } := by
      rw [parse_footers_loop, if_neg hf, if_pos he]
    obtain ⟨hbuf, hopen, hbehind⟩ := footerPiece_end (h := h) hf he
    rw [attended_footer next hr, hbuf, hbehind, hloop, Rx.countFooter_add, Nat.add_comm]
    simp [hopen, ConnState.closing, Rx.lineBytes]
  | case3 r r1 hf he r2 hc =>
    have hloop : (parse_footers_loop h r).2 = r2 := by
      rw [parse_footers_loop, if_neg hf, if_neg he, if_pos hc]
    obtain ⟨hbuf, hiff, -⟩ := footerPiece_field hr hf he (rfl : _ = r2)
    rw [attended_footer next hr, hbuf, hiff, hloop, hc]
    have hsame : r2.buf = (get_line r).2.buf := rfl
    simp [hsame]
  | case4 r r1 hf he r2 hc ih =>
    have hloop : parse_footers_loop h r = parse_footers_loop h { r2 with s.iov_len := 0 } := by
      rw [parse_footers_loop, if_neg hf, if_neg he, if_neg hc]
    obtain ⟨hbuf, hiff, hbehind⟩ := footerPiece_field hr hf he (rfl : _ = r2)
    have hstate : r2.s.state = r.s.state := by
      rw [(event_signal_open hc).1, (get_line_s r).1]
    rw [Bool.not_eq_true] at hc
    have hsuffix : (parse_footers_loop h { r2 with s.iov_len := 0 }).2.buf <:+ r2.buf :=
      parse_footers_loop_kept (suffix_kept _) h _ (get_line_suffix _)
    have hle : r2.buf.length ≤ r.buf.length := (get_line_suffix r).length_le
    have hlen : r.lineBytes + m +
        (r2.buf.length - (parse_footers_loop h { r2 with s.iov_len := 0 }).2.buf.length) =
          m + (r.buf.length - (parse_footers_loop h { r2 with s.iov_len := 0 }).2.buf.length) := by
      have hrest := hsuffix.length_le
      have hline : r.lineBytes = r.buf.length - r2.buf.length := rfl
      omega
    have hrest := ih (hstate.trans hr) (r.lineBytes + m)
    rw [attended_footer next hr, hbuf, hiff, hloop, hbehind hc, Rx.countFooter_add, hrest]
    dsimp only
    rw [hlen]
    have hsame : (get_line r).2.buf = r2.buf := rfl
    rw [hsame]
    by_cases hb : r2.buf = []
    · exact iff_of_true (.inl hb)
        (.inl (List.suffix_nil.mp (hsuffix.trans (List.suffix_nil.mpr hb))))
    · rw [or_iff_right hb, and_iff_right hc]

theorem parse_footers_loop_ended (h : Handlers) (r : Rx) :
    (parse_footers_loop h r).1 = false → (parse_footers_loop h r).2.s.state.closing = true := by
  induction r using parse_footers_loop.induct h with
  | case1 r hf =>
    rw [parse_footers_loop, if_pos hf]
    intro hno
    cases hno
  | case2 r r1 hf he =>
    rw [parse_footers_loop, if_neg hf, if_pos he]
    intro hno
    cases hno
  | case3 r r1 hf he r2 hc =>
    rw [parse_footers_loop, if_neg hf, if_neg he, if_pos hc]
    exact fun _ => hc
  | case4 r r1 hf he r2 hc ih =>
    rw [parse_footers_loop, if_neg hf, if_neg he, if_neg hc]
    exact ih

theorem parse_footers_tells {r : Rx} (hr : r.s.state = .S_REPLY_FOOTER) :
    Tells h next r (parse_footers h r) := by
  have hloop := footers_loop_tells (h := h) next hr 0
  have hzero : r.countFooter 0 = r := by
    unfold Rx.countFooter
    simp
  rw [hzero, Nat.zero_add] at hloop
  have hended := parse_footers_loop_ended h r
  unfold Tells
  rw [hloop]
  unfold parse_footers
  rcases hp : parse_footers_loop h r with ⟨ended, r'⟩
  rw [hp] at hended
  cases ended with
  | true => rfl
  | false =>
    have hc := hended rfl
    dsimp only at hc ⊢
    rw [hc]
    simp

/-! ### Data -/

theorem dataPiece_spec (h : Handlers) {r : Rx} (hr : r.s.state.closing = false) :
    (dataPiece r).r.buf = (parse_data h r).2.buf ∧
      ((dataPiece r).Open h ↔ (parse_data h r).2.s.state.closing = false) ∧
      (dataPiece r).behind h = { (parse_data h r).2 with s.state := (dataPiece r).state } := by
  refine ⟨rfl, ?_, rfl⟩
  have hiff := Piece.open_iff (h := h) (u := dataPiece r) rfl rfl hr
  rw [hiff]
  rfl

theorem parse_data_state {h : Handlers} {r : Rx} (hc : (parse_data h r).2.s.state.closing = false) :
    (parse_data h r).2.s.state = r.s.state := by
  have hc' : ¬ (event_signal h (.EV_CALL_RECV_DATA r.c.id
      (r.buf.take (min r.buf.length (bytes_needed r)))) r).s.state.closing = true := by
    rw [Bool.not_eq_true]
    exact hc
  exact (event_signal_open hc').1

theorem data_tells {r : Rx} (hr : r.s.state = .S_REPLY_DATA) :
    Tells h next r (if (parse_data h r).1 && !(parse_data h r).2.s.state.closing then
      { (parse_data h r).2 with s.state := .S_REPLY_DONE } else (parse_data h r).2) := by
  have hpiece : piece h r = dataPiece r := by
    unfold piece
    rw [hr]
  obtain ⟨hbuf, hiff, hbehind⟩ := dataPiece_spec h (r := r) (by rw [hr]; rfl)
  have hstate : (dataPiece r).state = if (parse_data h r).1 then .S_REPLY_DONE else r.s.state := by
    unfold dataPiece parse_data bytes_needed
    simp [hr]
  unfold Tells
  rw [Place.attended_piece next (by rw [hr]; rfl), hpiece, hbuf, hiff, hbehind, hstate]
  cases hc : (parse_data h r).2.s.state.closing with
  | true => simp [hc]
  | false =>
    have hsame := parse_data_state hc
    cases (parse_data h r).1 with
    | true => simp [ConnState.closing]
    | false => simp [← hsame, hc]

/-! ### Chunks -/

theorem Tells.trans {r r1 r2 : Rx} (h1 : Tells h next r r1) (h2 : Tells h next r1 r2)
    (hbuf : r2.buf <:+ r1.buf) (hc : r1.s.state.closing = false) : Tells h next r r2 := by
  unfold Tells at *
  rw [h1, and_iff_right hc, h2]
  by_cases hb : r1.buf = []
  · exact iff_of_true (.inl hb) (.inl (List.suffix_nil.mp (hbuf.trans (List.suffix_nil.mpr hb))))
  · rw [or_iff_right hb]

/-- A unit without an event. -/
theorem tells_silent {r x : Rx} {state : ConnState} (hr : receiving r.s.state = true)
    (hpiece : piece h r = ⟨x, none, state, false⟩) (hopen : state.closing = false) :
    Tells h next r { x with s.state := state } := by
  unfold Tells
  rw [Place.attended_piece next hr, hpiece, and_iff_right (Piece.open_of_none h rfl),
    and_iff_right hopen]
  rfl

/-- A unit of data, behind the line of its chunk or not. -/
theorem chunk_data_tells {r r3 : Rx} (hr : r.s.state = .S_REPLY_CHUNKED)
    (hr3 : r3.s.state = .S_REPLY_CHUNKED) (hpiece : piece h r = dataPiece r3) :
    Tells h next r (parse_data h r3).2 := by
  obtain ⟨hbuf, hiff, hbehind⟩ := dataPiece_spec h (r := r3) (by rw [hr3]; rfl)
  have hstate : (dataPiece r3).state = r3.s.state := by
    unfold dataPiece
    simp [hr3]
  unfold Tells
  rw [Place.attended_piece next (by rw [hr]; rfl), hpiece, hbuf, hiff, hbehind, hstate]
  apply or_congr_right
  apply and_congr_right
  intro hc
  rw [← parse_data_state hc]

/-- The loop goes on behind a unit, if the connection is still open. -/
theorem chunk_goes_on {r r1 : Rx} (hfirst : Tells h next r r1)
    (ih : r1.s.state.closing = false → Tells h next r1 (xfer_chunked h r1)) :
    Tells h next r (xfer_chunked h r1) := by
  cases hc : r1.s.state.closing with
  | true =>
    have hstop : xfer_chunked h r1 = r1 := by rw [xfer_chunked, if_pos (.inr hc)]
    rwa [hstop]
  | false => exact hfirst.trans next (ih hc) (xfer_chunked_suffix h r1) hc

omit next in
theorem piece_chunk_suffix {r : Rx} (hr : r.s.state = .S_REPLY_CHUNKED) :
    (piece h r).r.buf <:+ r.buf := by
  have hline := get_line_suffix r
  unfold piece
  rw [hr]
  dsimp only
  split_ifs
  · unfold chunkPiece
    dsimp only
    split_ifs
    · exact hline
    · exact hline
    · exact hline
    · exact (List.drop_suffix _ _).trans hline
  · exact List.drop_suffix _ _

theorem xfer_chunked_tells {r : Rx} (hr : r.s.state = .S_REPLY_CHUNKED) :
    Tells h next r (xfer_chunked h r) := by
  have hrec : ∀ {x : Rx}, x.s.state = .S_REPLY_CHUNKED → receiving x.s.state = true := by
    intro x hx
    rw [hx]
    rfl
  have hline : ∀ {x : Rx}, x.s.state = .S_REPLY_CHUNKED →
      x.s.content_length ≤ x.c.reply.content_bytes →
      piece h x = chunkPiece x := by
    intro x hx hl
    unfold piece
    rw [hx]
    exact if_pos hl
  have hsame : ∀ x : Rx, { (get_line x).2 with s.state := x.s.state } = (get_line x).2 := by
    intro x
    rw [← (get_line_s x).1]
  induction r using xfer_chunked.induct h with
  | case1 r hc =>
    have hstop : xfer_chunked h r = r := by rw [xfer_chunked, if_pos hc]
    have hb : r.buf = [] := hc.resolve_right (by rw [hr]; decide)
    rw [hstop]
    refine iff_of_true ((Place.attended_piece next (hrec hr)).mpr (.inl ?_)) (.inl hb)
    have hnil : (piece h r).r.buf <:+ r.buf := piece_chunk_suffix hr
    rw [hb] at hnil
    exact List.suffix_nil.mp hnil
  | case2 r hc hl hf =>
    have hpiece : piece h r = ⟨(get_line r).2, none, r.s.state, false⟩ := by
      rw [hline hr hl]
      unfold chunkPiece
      exact if_pos (.inl hf)
    have hfirst := tells_silent next (hrec hr) hpiece (by rw [hr]; rfl)
    rw [xfer_chunked, if_neg hc, if_pos hl, dif_pos hf]
    rwa [hsame] at hfirst
  | case3 r hc hl r1 hf he ih =>
    have hpiece : piece h r = ⟨(get_line r).2, none, r.s.state, false⟩ := by
      rw [hline hr hl]
      unfold chunkPiece
      exact if_pos (.inr he)
    have hfirst := tells_silent next (hrec hr) hpiece (by rw [hr]; rfl)
    rw [hsame] at hfirst
    rw [xfer_chunked, if_neg hc, if_pos hl, dif_neg hf, if_pos he]
    exact chunk_goes_on next hfirst fun _ => ih ((get_line_s r).1.trans hr)
  | case4 r hc hl r1 hf he n r2 hn ih =>
    have hpiece : piece h r = ⟨r2, none, r.s.state, false⟩ := by
      rw [hline hr hl]
      unfold chunkPiece
      dsimp only
      rw [if_neg (not_or.mpr ⟨hf, he⟩), if_pos hn]
    have hfirst := tells_silent next (hrec hr) hpiece (by rw [hr]; rfl)
    have hr2 : { r2 with s.state := r.s.state } = r2 := by
      rw [← (get_line_s r).1]
    rw [hr2] at hfirst
    rw [xfer_chunked, if_neg hc, if_pos hl, dif_neg hf, if_neg he, if_pos hn]
    exact chunk_goes_on next hfirst fun _ => ih ((get_line_s r).1.trans hr)
  | case5 r hc hl r1 hf he n hn hz =>
    have hpiece : piece h r =
        ⟨{ (get_line r).2 with s.iov_len := 0 }, none, .S_REPLY_FOOTER, false⟩ := by
      rw [hline hr hl]
      unfold chunkPiece
      dsimp only
      rw [if_neg (not_or.mpr ⟨hf, he⟩), if_neg hn, if_pos hz]
    rw [xfer_chunked, if_neg hc, if_pos hl, dif_neg hf, if_neg he, if_neg hn, if_pos hz]
    exact tells_silent next (hrec hr) hpiece rfl
  | case6 r hc hl r1 hf he n r2 hn hz r3 ih =>
    have hr3 : r3.s.state = .S_REPLY_CHUNKED := (get_line_s r).1.trans hr
    have hpiece : piece h r = dataPiece r3 := by
      rw [hline hr hl]
      unfold chunkPiece
      dsimp only
      rw [if_neg (not_or.mpr ⟨hf, he⟩), if_neg hn, if_neg hz]
    rw [xfer_chunked, if_neg hc, if_pos hl, dif_neg hf, if_neg he, if_neg hn, if_neg hz]
    exact chunk_goes_on next (chunk_data_tells next hr hr3 hpiece) fun hopen =>
      ih ((parse_data_state hopen).trans hr3)
  | case7 r hc hl ih =>
    have hpiece : piece h r = dataPiece r := by
      unfold piece
      rw [hr]
      exact if_neg hl
    rw [xfer_chunked, if_neg hc, if_neg hl]
    exact chunk_goes_on next (chunk_data_tells next hr hr hpiece) fun hopen =>
      ih ((parse_data_state hopen).trans hr)

/-! ### The status line -/

/-- A status line that is complete. -/
theorem statusLinePiece_tells {r : Rx} (start : Nat) (hr : r.s.state = .S_REPLY_STATUS) :
    (statusLinePiece h (start - r.buf.length) r).r.buf = (status_line_read h start r).buf ∧
      ((statusLinePiece h (start - r.buf.length) r).Open h ↔
        (status_line_read h start r).s.state.closing = false) ∧
      ((status_line_read h start r).s.state.closing = false →
        (statusLinePiece h (start - r.buf.length) r).behind h = status_line_read h start r) := by
  obtain ⟨reply, hreply⟩ : ∃ reply, (status_values h r).1 = reply := ⟨_, rfl⟩
  obtain ⟨status, hstatus⟩ : ∃ status, (status_values h r).2 = status := ⟨_, rfl⟩
  obtain ⟨x, hx⟩ :
      ∃ x : Rx, { r with c.reply := reply, s.has_body := has_body_of r.c.isHead status } = x :=
    ⟨_, rfl⟩
  have hstate : x.s.state.closing = false := by
    rw [← hx]
    change r.s.state.closing = false
    rw [hr]
    rfl
  obtain ⟨r2, hr2⟩ : ∃ r2, event_signal h (.EV_CALL_RECV_START r.c.id reply.status) x = r2 :=
    ⟨_, rfl⟩
  have hbuf2 : r2.buf = r.buf := by
    rw [← hr2, ← hx]
    rfl
  have hevent : event_signal h (.EV_CALL_RECV_START r.c.id reply.status)
      (Rx.countHeader (start - r.buf.length) { x with s.iov_len := 0 }) =
        Rx.countHeader (start - r.buf.length) { r2 with s.iov_len := 0 } := by
    rw [← hr2]
    exact congrArg (Rx.countHeader (start - r.buf.length)) (event_signal_iov_len h _ x)
  have hpiece : statusLinePiece h (start - r.buf.length) r =
      ⟨Rx.countHeader (start - r.buf.length) { x with s.iov_len := 0 },
        some (.EV_CALL_RECV_START r.c.id reply.status),
        if (!r.c.isHead && status = 100) then .S_REPLY_CONTINUE else .S_REPLY_HEADER,
        !r.c.isHead && status = 100⟩ := by
    rw [← hx, ← hreply, ← hstatus]
    rfl
  have hread : status_line_read h start r =
      if !r.c.isHead && status = 100 then status_done start { r2 with s.state := .S_REPLY_CONTINUE }
      else if r2.s.state.closing then r2
      else status_done start { r2 with s.state := .S_REPLY_HEADER } := by
    unfold status_line_read
    rw [← hr2, ← hx, ← hreply, ← hstatus]
  have hbuf : x.buf = r.buf := by rw [← hx]
  cases hcont : (!r.c.isHead && decide (status = 100)) with
  | true =>
    rw [hcont, if_pos rfl] at hpiece hread
    rw [hpiece, hread]
    unfold Piece.behind Piece.signalled status_done
    dsimp only
    rw [hevent, hbuf2]
    exact ⟨hbuf, iff_of_true (.inl rfl) rfl, fun _ => rfl⟩
  | false =>
    rw [hcont, if_neg (by decide)] at hpiece hread
    have hiff := Piece.open_iff (h := h) (u := statusLinePiece h (start - r.buf.length) r)
      (e := .EV_CALL_RECV_START r.c.id reply.status) (by rw [hpiece]) (by rw [hpiece])
      (by rw [hpiece]; exact hstate)
    have hsignalled : event_signal h (.EV_CALL_RECV_START r.c.id reply.status)
        (statusLinePiece h (start - r.buf.length) r).r =
          Rx.countHeader (start - r.buf.length) { r2 with s.iov_len := 0 } := by
      rw [hpiece]
      exact hevent
    rw [hsignalled] at hiff
    change _ ↔ r2.s.state.closing = false at hiff
    rw [hiff]
    cases hc : r2.s.state.closing with
    | true =>
      rw [hc, if_pos rfl] at hread
      rw [hpiece, hread, hc, hbuf2]
      exact ⟨hbuf, Iff.rfl, nofun⟩
    | false =>
      rw [hc, if_neg (by decide)] at hread
      rw [hpiece, hread]
      unfold Piece.behind Piece.signalled status_done
      dsimp only
      rw [hevent, hbuf2]
      exact ⟨hbuf, iff_of_true rfl rfl, fun _ => rfl⟩

theorem status_line_tells {r : Rx} (hr : r.s.state = .S_REPLY_STATUS) :
    Tells h next r (parse_status_line h r) := by
  have hrec : receiving r.s.state = true := by
    rw [hr]
    rfl
  have hpiece : piece h r = statusPiece h r := by
    unfold piece
    rw [hr]
  obtain ⟨r0, hr0⟩ :
      ∃ r0 : Rx, { r with s.is_chunked := false, s.content_length := SIZE_MAX } = r0 :=
    ⟨_, rfl⟩
  have hstate0 : r0.s.state = r.s.state := by rw [← hr0]
  unfold parse_status_line
  dsimp only
  rw [hr0]
  by_cases hf : (get_line r0).1 = false
  · have hmore : piece h r = ⟨(get_line r0).2, none, r.s.state, false⟩ := by
      rw [hpiece]
      unfold statusPiece
      dsimp only
      rw [hr0, hf]
      rfl
    have hfirst := tells_silent next hrec hmore (by rw [hr]; rfl)
    have hsame : { (get_line r0).2 with s.state := r.s.state } = (get_line r0).2 := by
      rw [← hstate0, ← (get_line_s r0).1]
    rw [if_pos hf]
    rwa [hsame] at hfirst
  · rw [if_neg hf]
    have hfull : (get_line r0).1 = true := by simpa using hf
    have hstate1 := (get_line_s r0).1.trans (hstate0.trans hr)
    have hpieceFull : piece h r = statusLinePiece h (r.buf.length - (get_line r0).2.buf.length)
        (get_line r0).2 := by
      rw [hpiece]
      unfold statusPiece
      dsimp only
      rw [hr0, if_pos hfull]
    have hlen : r.buf.length = r0.buf.length := by rw [← hr0]
    obtain ⟨hbuf, hiff, hbehind⟩ := statusLinePiece_tells (h := h) r.buf.length hstate1
    unfold Tells
    rw [Place.attended_piece next hrec, hpieceFull, hbuf, hiff]
    apply or_congr_right
    apply and_congr_right
    intro hc
    rw [hbehind hc]

theorem http_switch_tells {r r' : Rx}
    (hs : http_switch h r = .ok (some r')) : Tells h next r r' := by
  cases hstate : r.s.state <;> simp only [http_switch, hstate, Except.ok.injEq, Option.some.injEq,
    reduceCtorEq] at hs
  case S_REPLY_STATUS => exact hs ▸ status_line_tells next hstate
  case S_REPLY_HEADER => exact hs ▸ parse_headers_tells next (.inl hstate)
  case S_REPLY_CONTINUE => exact hs ▸ parse_headers_tells next (.inr hstate)
  case S_REPLY_FOOTER => exact hs ▸ parse_footers_tells next hstate
  case S_REPLY_CHUNKED => exact hs ▸ xfer_chunked_tells next hstate
  case S_REPLY_DATA => exact hs ▸ data_tells next hstate

/-! ## One reply -/

theorem http_switch_error {r : Rx} {e : Abort} (he : http_switch h r = .error e) :
    e = .exit_bad_state ∧ ¬ r.s.state = .S_REPLY_DONE ∧ ¬ receiving r.s.state = true := by
  cases hstate : r.s.state <;> simp_all [http_switch, receiving]

/-- The bytes have a call from `r` on exactly when nothing is left, or when what is left behind the
reply has one. -/
theorem http_process_tells (r : Rx) :
    Place.Attended h ⟨r, next⟩ ↔
      match http_process_loop h r with
      | .error _ => True
      | .ok r' => r'.buf = [] ∨ (r'.s.state = .S_REPLY_DONE ∧ Place.Attended h ⟨r', next⟩) := by
  induction r using http_process_loop.induct h with
  | case1 r e he =>
    obtain ⟨-, hd, hr⟩ := http_switch_error he
    rw [http_process_loop_error he]
    exact iff_of_true (Place.attended_other h next hd hr) trivial
  | case2 r he =>
    have hd := http_switch_none h r he
    rw [http_process_loop_none he]
    constructor
    · exact fun hall => .inr ⟨hd, hall⟩
    · rintro (hb | ⟨-, hall⟩)
      · exact (Place.attended_done next hd).mpr (.inl hb)
      · exact hall
  | case3 r r1 he hc ih =>
    have htells := http_switch_tells next he
    unfold Tells at htells
    rw [htells, http_process_loop_some he, if_pos hc, or_iff_right hc.1,
      and_iff_right (by simpa using hc.2)]
    exact ih
  | case4 r r1 he hc =>
    have htells := http_switch_tells next he
    unfold Tells at htells
    rw [htells, http_process_loop_some he, if_neg hc]
    by_cases hb : r1.buf = []
    · exact iff_of_true (.inl hb) (.inl hb)
    · have hclosing : r1.s.state.closing = true := by simpa [hb] using hc
      dsimp only
      rw [or_iff_right hb, or_iff_right hb, hclosing]
      constructor
      · rintro ⟨hno, -⟩
        cases hno
      · rintro ⟨hd, -⟩
        rw [hd] at hclosing
        cases hclosing

theorem http_process_error {r : Rx} {e : Abort} (he : http_process_reply_bytes h r = .error e) :
    e = .exit_bad_state := by
  unfold http_process_reply_bytes at he
  generalize event_signal h _ r = r1 at he
  induction r1 using http_process_loop.induct h with
  | case1 r e' hs =>
    rw [http_process_loop_error hs, Except.error.injEq] at he
    exact he ▸ (http_switch_error hs).1
  | case2 r hs =>
    rw [http_process_loop_none hs] at he
    cases he
  | case3 r r1 hs hc ih =>
    rw [http_process_loop_some hs, if_pos hc] at he
    exact ih he
  | case4 r r1 hs hc =>
    rw [http_process_loop_some hs, if_neg hc] at he
    cases he

end

/-! ## One read -/

/-- All bytes of the read have a call. -/
def Attended (h : Handlers) (s : Conn) (buf : List Byte) (log : List Event) : Prop :=
  ∃ c next, s.recvq = c :: next ∧ (Place.enter h s c next buf log).Attended h

theorem do_recv_loop_asserts_iff (h : Handlers) (s : Conn) (buf : List Byte) (log : List Event) :
    do_recv_loop h s buf log ≠ .error .assert_recvq ↔ Attended h s buf log := by
  induction hn : s.recvq generalizing s buf log with
  | nil =>
    rw [do_recv_loop_nil buf log hn]
    unfold Attended
    simp [hn]
  | cons c next ih =>
    have hone : Attended h s buf log ↔ (Place.enter h s c next buf log).Attended h := by
      unfold Attended
      simp [hn]
    have htells := http_process_tells (h := h) next
      (event_signal h (.EV_CALL_RECV_RAW_DATA c.id buf) ⟨s, c, buf, log⟩)
    change (Place.enter h s c next buf log).Attended h ↔
      match http_process_reply_bytes h ⟨s, c, buf, log⟩ with
      | .error _ => True
      | .ok r => r.buf = [] ∨ (r.s.state = .S_REPLY_DONE ∧ Place.Attended h ⟨r, next⟩) at htells
    rw [hone, htells, do_recv_loop_cons buf log hn]
    rcases hp : http_process_reply_bytes h ⟨s, c, buf, log⟩ with e | r
    · rw [http_process_error hp]
      simp
    · dsimp only
      by_cases hd : r.s.state = .S_REPLY_DONE
      · rw [if_pos hd, Place.attended_done next hd, and_iff_right hd]
        by_cases hc : (recv_done h next r).s.state.closing = true
        · simp [hc]
        · rw [if_neg hc]
          by_cases hb : r.buf = []
          · simp [hb]
          · have hq : ({ (recv_done h next r).s with state := .S_REPLY_STATUS } : Conn).recvq =
                next :=
              recv_done_recvq hc
            rw [if_neg hb, or_iff_right hb, or_iff_right hb, or_iff_right hc, ih _ _ _ hq]
            unfold Attended
            rw [hq]
      · rw [if_neg hd]
        by_cases hb : r.buf = []
        · simp [hb]
        · simp [hb, hd]

theorem do_recv_asserts_iff (h : Handlers) (read : Read) {s : Conn} (log : List Event)
    (hq : s.recvq ≠ []) :
    do_recv h read s log ≠ .error .assert_recvq ↔ ∀ buf, read = .data buf →
    Attended h s buf log := by
  obtain ⟨c, next, hcons⟩ := List.exists_cons_of_ne_nil hq
  unfold do_recv
  rw [hcons]
  cases read with
  | data buf =>
    dsimp only
    rw [do_recv_loop_asserts_iff]
    simp
  | eof =>
    dsimp only
    split <;> simp
  | error eagain => simp

/-! ## A run -/

/-- A read of the run: its bytes, and the state before it. -/
def ReadOf (h : Handlers) (steps : List Step) (s : Conn) (log : List Event) (buf : List Byte)
    (s1 : Conn) (log1 : List Event) : Prop :=
  ∃ done rest, steps = done ++ .read (.data buf) :: rest ∧ do_recvs h done s log = .ok (s1, log1) ∧
    s1.recvq ≠ []

theorem readOf_nil {h : Handlers} {s : Conn} {log : List Event} {buf : List Byte} {s1 : Conn}
    {log1 : List Event} : ¬ ReadOf h [] s log buf s1 log1 := by
  rintro ⟨done, rest, hsplit, -⟩
  simp at hsplit

/-- The reads of a run whose first step leads to `s'`. -/
theorem readOf_cons {h : Handlers} {step : Step} {steps : List Step} {s s' s1 : Conn}
    {log log' log1 : List Event} {buf : List Byte}
    (hstep : ∀ steps, do_recvs h (step :: steps) s log = do_recvs h steps s' log') :
    ReadOf h (step :: steps) s log buf s1 log1 ↔
      (step = .read (.data buf) ∧ s1 = s ∧ log1 = log ∧ s.recvq ≠ []) ∨
      ReadOf h steps s' log' buf s1 log1 := by
  constructor
  · rintro ⟨done, rest, hsplit, hrun, hq⟩
    cases done with
    | nil =>
      obtain ⟨rfl, rfl⟩ : step = .read (.data buf) ∧ steps = rest := by simpa using hsplit
      obtain ⟨rfl, rfl⟩ : s = s1 ∧ log = log1 := by simpa [do_recvs] using hrun
      exact .inl ⟨rfl, rfl, rfl, hq⟩
    | cons first done =>
      obtain ⟨rfl, rfl⟩ : step = first ∧ steps = done ++ .read (.data buf) :: rest := by
        simpa using hsplit
      rw [hstep] at hrun
      exact .inr ⟨done, rest, rfl, hrun, hq⟩
  · rintro (⟨rfl, rfl, rfl, hq⟩ | ⟨done, rest, rfl, hrun, hq⟩)
    · exact ⟨[], steps, rfl, rfl, hq⟩
    · exact ⟨step :: done, rest, rfl, by rw [hstep]; exact hrun, hq⟩

/-- A step that ends the program is the last one. -/
theorem readOf_error {h : Handlers} {read : Read} {steps : List Step} {s s1 : Conn}
    {log log1 : List Event} {buf : List Byte} {e : Abort} (hq : s.recvq ≠ [])
    (hrecv : do_recv h read s log = .error e) :
    ReadOf h (.read read :: steps) s log buf s1 log1 ↔ read = .data buf ∧ s1 = s ∧ log1 = log := by
  constructor
  · rintro ⟨done, rest, hsplit, hrun, -⟩
    cases done with
    | nil =>
      obtain ⟨rfl, rfl⟩ : read = .data buf ∧ steps = rest := by simpa using hsplit
      obtain ⟨rfl, rfl⟩ : s = s1 ∧ log = log1 := by simpa [do_recvs] using hrun
      exact ⟨rfl, rfl, rfl⟩
    | cons first done =>
      obtain ⟨rfl, rfl⟩ : Step.read read = first ∧ steps = done ++ .read (.data buf) :: rest := by
        simpa using hsplit
      simp [do_recvs, hq, hrecv] at hrun
  · rintro ⟨rfl, rfl, rfl⟩
    exact ⟨[], steps, rfl, rfl, hq⟩

/-- A connection that waits for the replies to these calls. -/
def waiting (recvq : List Call) (writing : Bool) : Conn :=
  ⟨.S_REPLY_STATUS, 0, fun _ => 0, SIZE_MAX, false, false, true, writing, recvq⟩

/-- A handler of `EV_CALL_RECV_DATA` closes the connection. -/
def closesOnData : Handlers where
  closes log := match log.getLast? with
    | some (.EV_CALL_RECV_DATA _ _) => true
    | _ => false
  uninit _ := 0
  sends _ := false

def quiet : Handlers := ⟨⟨fun _ => false, fun _ => 0⟩, fun _ => false⟩

def aborts {α : Type} (x : Except Abort α) : Option Abort :=
  match x with
  | .ok _ => none
  | .error e => some e

end Httperf.Memory
