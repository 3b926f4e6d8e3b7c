-- The requests and the replies of a whole run, with what the collector of `basic.c` counts of them.
-- Any number of connections take turns: calls are sent, again also, `writev` takes pieces of them,
-- and `read` gives pieces of the replies.
import Httperf.Lib.Runs
import Httperf.ReplyProgress
import Httperf.Resend

namespace Httperf.Traffic

/-! ## The collector -/

/-- `timer_now ()`. -/
abbrev Time := { now : ℚ // 0 < now }

/-- The counters of `basic.c` that requests and replies go to, and `basic.time_recv_start` of each
call. -/
structure Basic where
  num_sent : Nat
  req_bytes_sent : UInt64
  num_responses : Nat
  hdr_bytes_received : UInt64
  reply_bytes_received : UInt64
  footer_bytes_received : UInt64
  num_replies : Fin 6 → Nat
  time_recv_start : Nat → ℚ

/-- The assertions of `recv_stop`. -/
inductive Assertion where
  | time_recv_start
  | index
  deriving DecidableEq, Repr

def send_stop (c : Call) (basic : Basic) : Basic :=
  { basic with
    req_bytes_sent := basic.req_bytes_sent + UInt64.ofNat c.req.size
    num_sent := basic.num_sent + 1 }

def recv_start (now : Time) (id : Nat) (basic : Basic) : Basic :=
  { basic with
    time_recv_start := Function.update basic.time_recv_start id now.val
    num_responses := basic.num_responses + 1 }

def recv_stop (id : Nat) (reply : Reply) (basic : Basic) : Except Assertion Basic :=
  if basic.time_recv_start id > 0 then
    let basic := { basic with
      hdr_bytes_received := basic.hdr_bytes_received + reply.header_bytes
      reply_bytes_received := basic.reply_bytes_received + reply.content_bytes
      footer_bytes_received := basic.footer_bytes_received + reply.footer_bytes }
    let index := reply.status.tdiv 100
    if h : 0 ≤ index ∧ index < 6 then
      let status_class : Fin 6 := ⟨index.toNat, by omega⟩
      .ok { basic with
        num_replies :=
          Function.update basic.num_replies status_class (basic.num_replies status_class + 1) }
    else .error .index
  else .error .time_recv_start

/-- What the handlers of the collector make of an event. -/
def on_event (now : Time) (basic : Basic) : Event → Except Assertion Basic
  | .EV_CALL_RECV_START id _ => .ok (recv_start now id basic)
  | .EV_CALL_RECV_STOP id reply => recv_stop id reply basic
  | _ => .ok basic

def on_events (now : Time) : List Event → Basic → Except Assertion Basic
  | [], basic => .ok basic
  | e :: es, basic =>
    match on_event now basic e with
    | .error a => .error a
    | .ok basic => on_events now es basic

/-- `total_size` in `dump`. -/
def total_size (basic : Basic) : UInt64 :=
  basic.req_bytes_sent + basic.hdr_bytes_received + basic.reply_bytes_received

/-! ## One connection -/

/-- A call in `sendq`, with the request as `core_send` has left it. -/
structure Queued where
  call : Call
  request : List Byte
  deriving DecidableEq, Repr

/-- The reply to the call at the head of `recvq`, as history: what the reads that ended inside the
status line brought, that line with the local `status`, the counters of the call before it, and what
the reads brought from the end of the line on. -/
structure InProgress where
  cut : List (List Byte)
  line : List Byte
  number : Nat
  base : Reply
  pieces : List (List Byte)
  deriving DecidableEq, Repr

def InProgress.nothing : InProgress := ⟨[], [], 0, Reply.zero, []⟩

/-- The bytes that the reply has taken so far. -/
def InProgress.taken (p : InProgress) : List Byte := (p.cut ++ p.pieces).flatten

/-- A connection. `unread` is what the parser has not looked at of the last read, `eof` says that
`read` has returned 0, and `gone` that `core_close` has been called. -/
structure Link where
  s : Conn
  sendq : List Queued
  unread : List Byte
  eof : Bool
  gone : Bool
  reply : InProgress
  deriving DecidableEq, Repr

/-- `conn_init`. -/
def Link.new : Link where
  s := ⟨.S_INITIAL, [], 0, false, false, []⟩
  sendq := []
  unread := []
  eof := false
  gone := false
  reply := .nothing

/-- A reply that is complete, with the connection and the call as `recv_done` finds them. -/
structure Completed where
  reply : InProgress
  s : Conn
  c : Call
  deriving DecidableEq, Repr

/-- What follows from a call of `recv_done`, or of the parser. -/
structure Received where
  link : Link
  log : List Event
  completed : Option Completed

/-- The reply in progress behind `piece`, which the parser takes in the state `r`. -/
def InProgress.read (h : Handlers) (r : Rx) (piece : List Byte) (p : InProgress) : InProgress :=
  if r.s.state = .S_REPLY_STATUS then
    match statusLine r with
    | none => { p with cut := p.cut ++ [piece] }
    | some line => { p with line, number := statusNumber h r, base := r.c.reply, pieces := [piece] }
  else { p with pieces := p.pieces ++ [piece] }

/-- One turn of the loop of `do_recv`. -/
def Link.turn (h : Handlers) (log : List Event) (l : Link) : Except Abort Received :=
  match l.s.recvq with
  | [] => .error .assert_recvq
  | c :: next =>
    match http_process_reply_bytes h ⟨l.s, c, l.unread, log⟩ with
    | .error e => .error e
    | .ok r =>
      let piece := l.unread.take (l.unread.length - r.buf.length)
      let raw : Rx :=
        ⟨l.s, c, l.unread, log ++ [.EV_CALL_RECV_RAW_DATA c.id l.unread]⟩
      let reply := l.reply.read h raw piece
      let gone := l.gone || r.s.recvq = []
      if r.s.state = .S_REPLY_DONE then
        let r1 := recv_done h next r
        if r1.s.state.closing then
          .ok ⟨{ l with s := r1.s, unread := [], gone := true, reply := .nothing }, r1.log,
            some ⟨reply, r.s, r.c⟩⟩
        else
          .ok ⟨{ l with
            s := { r1.s with state := .S_REPLY_STATUS }
            unread := r.buf
            gone
            reply := .nothing }, r1.log, some ⟨reply, r.s, r.c⟩⟩
      else .ok ⟨{ l with s := r.store next, unread := r.buf, gone, reply }, r.log, none⟩

/-- `conn_failure`. -/
def Link.fail (h : Handlers) (log : List Event) (l : Link) (c : Call) : Received :=
  let p := conn_failure h ⟨l.s, c, [], log⟩
  ⟨{ l with s := p.1, sendq := [], gone := true }, p.2, none⟩

/-- `do_recv`, where `read` returns 0. -/
def Link.end_of_stream (h : Handlers) (log : List Event) (l : Link) : Received :=
  match l.s.recvq with
  | [] => ⟨l, log, none⟩
  | c :: next =>
    if l.s.state ≠ .S_REPLY_DATA then { l.fail h log c with link.eof := true }
    else
      let r0 : Rx := ⟨{ l.s with state := .S_REPLY_DONE }, c, [], log⟩
      let r := recv_done h next r0
      ⟨{ l with s := r.s, eof := true, gone := l.gone || r.s.state.closing, reply := .nothing },
        r.log, some ⟨l.reply, r0.s, c⟩⟩

/-- `core_send`, with the call as the handlers of `EV_CALL_ISSUE` have left it. `none` is the `exit
(1)` for an unknown version. -/
def Link.core_send (p : SendParam) (fqdname : List Byte) (c : Call) (l : Link) : Option Link :=
  (Httperf.core_send p fqdname c).map fun c =>
    { l with sendq := l.sendq ++ [⟨c, offered c.req⟩] }

def Link.close (l : Link) : Link := { l with s := l.s.close, sendq := [], gone := true }

/-- The states before `S_REPLY_STATUS`. -/
def before_reply : ConnState → Bool
  | .S_INITIAL | .S_CONNECTING | .S_CONNECTED => true
  | _ => false

/-- A request is sent in whole. `closes` says that a handler of `EV_CALL_SEND_STOP` closes the
connection. -/
def Link.sent (l : Link) (c : Call) (rest : List Queued) (closes : Bool) : Link :=
  if closes then l.close
  else
    { l with
      sendq := rest
      s := { l.s with
        recvq := l.s.recvq ++ [c]
        state := if before_reply l.s.state then .S_REPLY_STATUS else l.s.state } }

/-! ## All connections -/

/-- How the program ends before its time. -/
inductive End where
  | assertion (a : Assertion)
  | abort (e : Abort)
  /-- `exit (1)` in `core_send` -/
  | exit
  deriving DecidableEq, Repr

/-- `sent` and `completed` are history: the requests whose sending has completed, and the
replies. -/
structure State where
  link : Nat → Link
  log : List Event
  basic : Basic
  ended : Option End
  sent : List (List Byte)
  completed : List Completed

/-- No connection has been made. -/
def init : State where
  link := fun _ => { Link.new with gone := true }
  log := []
  basic := ⟨0, 0, 0, 0, 0, 0, fun _ => 0, fun _ => 0⟩
  ended := none
  sent := []
  completed := []

/-- `EV_CALL_RECV_STOP` and the events before it reach the collector. -/
def State.receive (s : State) (i : Nat) (now : Time) (r : Received) : State :=
  let s1 := { s with
    link := Function.update s.link i r.link
    log := r.log
    completed := s.completed ++ r.completed.toList }
  match on_events now (r.log.drop s.log.length) s.basic with
  | .error a => { s1 with ended := some (.assertion a) }
  | .ok basic => { s1 with basic }

/-- `writev` on the connection `i`, in `do_send`. `past` is what lies behind `req.iov`. No more
bytes are taken than are offered. -/
def State.writev (s : State) (i : Nat) (past : Iovec) (w : Written) (closes : Bool) : State :=
  match (s.link i).sendq with
  | [] => s
  | q :: rest =>
    let c := { q.call with req := do_send past q.call.req w }
    if (offered q.call.req).length < w.count then s
    else if c.req.iov_index < IE_LEN then
      { s with
        link := Function.update s.link i { s.link i with sendq := { q with call := c } :: rest } }
    else
      { s with
        link := Function.update s.link i ((s.link i).sent c rest closes)
        basic := send_stop c s.basic
        sent := s.sent ++ [q.request] }

/-- What happens next, on which connection. -/
inductive Step where
  | conn_new (i : Nat)
  | core_send (i : Nat) (p : SendParam) (fqdname : List Byte) (c : Call)
  | writev (i : Nat) (past : Iovec) (w : Written) (closes : Bool)
  | read (i : Nat) (h : Handlers) (r : Read) (now : Time)
  | turn (i : Nat) (h : Handlers) (now : Time)
  | core_close (i : Nat)

/-- `do_recv` calls `read`. -/
def State.read (s : State) (i : Nat) (h : Handlers) (now : Time) : Read → State
  | .data buf =>
    if (s.link i).eof = false ∧ buf ≠ [] then
      { s with link := Function.update s.link i { s.link i with unread := buf } }
    else s
  | .eof => s.receive i now ((s.link i).end_of_stream h s.log)
  | .error eagain =>
    match eagain, (s.link i).s.recvq with
    | false, c :: _ => s.receive i now ((s.link i).fail h s.log c)
    | _, _ => s

/-- Nothing is sent on a connection that has been closed. `read` is called when a reply is expected
and the last read is used up, and a peer that has closed its side sends nothing more. -/
def step (s : State) (a : Step) : State :=
  if s.ended.isSome then s
  else
    match a with
    | .conn_new i =>
      if (s.link i).gone then { s with link := Function.update s.link i Link.new } else s
    | .core_send i p fqdname c =>
      if (s.link i).gone then s
      else
        match (s.link i).core_send p fqdname c with
        | none => { s with ended := some .exit }
        | some l => { s with link := Function.update s.link i l }
    | .writev i past w closes =>
      if (s.link i).gone then s else s.writev i past w closes
    | .read i h r now =>
      if (s.link i).unread = [] ∧ (s.link i).s.recvq ≠ [] then s.read i h now r else s
    | .turn i h now =>
      if (s.link i).unread = [] then s
      else
        match (s.link i).turn h s.log with
        | .error e => { s with ended := some (.abort e) }
        | .ok r => s.receive i now r
    | .core_close i => { s with link := Function.update s.link i (s.link i).close }

/-- The request `GET /a` on a new connection, and a reply that comes in these reads. -/
def exchange (reads : List (List Byte)) : List Step :=
  let h : Handlers := ⟨fun _ => false, fun _ => 0⟩
  let p : SendParam := ⟨false, bytes "0.9"⟩
  let c := { getA with id := 1 }
  let size := ((Httperf.core_send p (bytes "h") c).map fun c => (offered c.req).length).getD 0
  [.conn_new 0, .core_send 0 p (bytes "h") c, .writev 0 none (.sent size) false] ++
    reads.flatMap fun buf => [.read 0 h (.data buf) ⟨1, one_pos⟩, .turn 0 h ⟨1, one_pos⟩]

/-! ## What the collector makes of events -/

theorem on_events_append (now : Time) (es fs : List Event) (basic : Basic) :
    on_events now (es ++ fs) basic =
      match on_events now es basic with
      | .error a => .error a
      | .ok basic => on_events now fs basic := by
  induction es generalizing basic with
  | nil => rfl
  | cons e es ih =>
    rw [List.cons_append, on_events, on_events]
    cases on_event now basic e with
    | error a => rfl
    | ok basic => exact ih basic

/-- The start of a reply is known for at least the calls it was known for. -/
def Basic.Extends (basic basic' : Basic) : Prop :=
  total_size basic' = total_size basic ∧
    ∀ id, 0 < basic.time_recv_start id → 0 < basic'.time_recv_start id

theorem Basic.Extends.refl (basic : Basic) : basic.Extends basic := ⟨rfl, fun _ h => h⟩

theorem Basic.Extends.trans {b1 b2 b3 : Basic} (h : b1.Extends b2) (h' : b2.Extends b3) :
    b1.Extends b3 :=
  ⟨h'.1.trans h.1, fun id hid => h'.2 id (h.2 id hid)⟩

theorem recv_start_extends (now : Time) (id : Nat) (basic : Basic) :
    basic.Extends (recv_start now id basic) := by
  refine ⟨rfl, fun id' hid => ?_⟩
  unfold recv_start
  dsimp only
  by_cases heq : id' = id
  · rw [heq, Function.update_self]
    exact now.2
  · rwa [Function.update_of_ne heq]

/-- Where no reply ends, no assertion fails. -/
theorem on_events_quiet (now : Time) {es : List Event} (hes : ∀ e ∈ es, e.isStop = false)
    (basic : Basic) :
    ∃ basic', on_events now es basic = .ok basic' ∧ basic.Extends basic' ∧
      ∀ id status, .EV_CALL_RECV_START id status ∈ es → 0 < basic'.time_recv_start id := by
  induction es generalizing basic with
  | nil => exact ⟨basic, rfl, .refl basic, by simp⟩
  | cons e es ih =>
    have hone : ∃ basic1, on_event now basic e = .ok basic1 ∧ basic.Extends basic1 ∧
        ∀ id status, e = .EV_CALL_RECV_START id status → 0 < basic1.time_recv_start id := by
      cases e with
      | EV_CALL_RECV_START id status =>
        refine ⟨_, rfl, recv_start_extends now id basic, ?_⟩
        rintro id' status' he
        obtain ⟨rfl, -⟩ := Event.EV_CALL_RECV_START.inj he
        unfold recv_start
        dsimp only
        rw [Function.update_self]
        exact now.2
      | EV_CALL_RECV_STOP id reply => cases hes _ (List.mem_cons_self ..)
      | _ => exact ⟨basic, rfl, .refl basic, fun _ _ he => by cases he⟩
    obtain ⟨basic1, h1, hext1, hstart1⟩ := hone
    obtain ⟨basic2, h2, hext2, hstart2⟩ := ih (fun e he => hes e (List.mem_cons_of_mem _ he)) basic1
    refine ⟨basic2, ?_, hext1.trans hext2, fun id status he => ?_⟩
    · rw [on_events, h1]
      exact h2
    · rcases List.mem_cons.mp he with he | he
      · exact hext2.2 id (hstart1 id status he.symm)
      · exact hstart2 id status he

/-- A status that `num_replies` has a place for. -/
def HasClass (status : Int) : Prop := 0 ≤ status.tdiv 100 ∧ status.tdiv 100 < 6

instance (status : Int) : Decidable (HasClass status) :=
  inferInstanceAs (Decidable (_ ∧ _))

/-- `recv_stop`, behind `recv_start` of the same call. -/
theorem recv_stop_spec {basic : Basic} {id : Nat} (reply : Reply)
    (hstart : 0 < basic.time_recv_start id) :
    (HasClass reply.status ∧ ∃ basic', recv_stop id reply basic = .ok basic' ∧
      total_size basic' = total_size basic + (reply.header_bytes + reply.content_bytes) ∧
      basic'.time_recv_start = basic.time_recv_start) ∨
    (¬ HasClass reply.status ∧ recv_stop id reply basic = .error .index) := by
  unfold recv_stop
  rw [if_pos hstart]
  dsimp only
  by_cases hclass : 0 ≤ reply.status.tdiv 100 ∧ reply.status.tdiv 100 < 6
  · refine .inl ⟨hclass, ?_⟩
    rw [dif_pos hclass]
    refine ⟨_, rfl, ?_, rfl⟩
    unfold total_size
    dsimp only
    ac_rfl
  · refine .inr ⟨hclass, ?_⟩
    rw [dif_neg hclass]

end Httperf.Traffic
