-- A connection in the core loop (`core.c`, with epoll and without SSL): its two queues, its
-- watchdog, and the mask that epoll has for it. What `writev`, `read` and the parser give, and
-- what the handlers do with the connection, is given with each step.
import Httperf.Call
import Httperf.Lib.Runs

namespace Httperf.Loop

/-! ## The connection -/

structure Param where
  timeout : Nat
  think_timeout : Nat
  deriving DecidableEq, Repr

/-- The part of `Call` that the core loop looks at. `left` is the number of bytes that
`writev` has not taken yet. -/
structure Call where
  id : Nat
  left : Nat
  timeout : Nat
  deriving DecidableEq, Repr

inductive Dir where
  | READ
  | WRITE
  deriving DecidableEq, Repr

/-- The mask that `epoll_ctl` got last for the descriptor. -/
structure Events where
  EPOLLIN : Bool
  EPOLLOUT : Bool
  deriving DecidableEq, Repr

/-- What happens on the connection. No variable of the source. -/
inductive Entry where
  /-- `writev` took bytes. `watchdog` is the deadline of the watchdog at that time. -/
  | accepted (now : Nat) (watchdog : Option Nat)
  | received (now : Nat)
  /-- `set_active` finds no watchdog, and these deadlines of the calls in front. -/
  | armed (sendq recvq : Option Nat)
  | timed_out (now : Nat)
  deriving DecidableEq, Repr

structure Conn where
  state : ConnState
  sendq : List Call
  recvq : List Call
  /-- the deadline of the timer -/
  watchdog : Option Nat
  reading : Bool
  writing : Bool
  events : Events
  log : List Entry
  deriving DecidableEq, Repr

/-- The connection as `conn_init` leaves it. -/
def conn_init : Conn where
  state := .S_INITIAL
  sendq := []
  recvq := []
  watchdog := none
  reading := false
  writing := false
  events := ⟨false, false⟩
  log := []

/-- The state is one of an established connection that is still open. -/
def Conn.isOpen (s : Conn) : Bool :=
  match s.state with
  | .S_INITIAL | .S_CONNECTING | .S_CLOSING | .S_FREE => false
  | _ => true

/-! ## The functions of the core -/

def clear_active (dir : Dir) (s : Conn) : Conn :=
  match dir with
  | .WRITE => { s with events := ⟨true, false⟩, writing := false }
  | .READ => { s with events := ⟨false, true⟩, reading := false }

/-- The deadline that `set_active` takes from the calls in front of the queues. 0 is none. -/
def deadline (sendq recvq : Option Nat) : Nat :=
  let timeout := sendq.getD 0
  match recvq with
  | none => timeout
  | some t => if timeout = 0 ∨ timeout > t then t else timeout

def set_active (dir : Dir) (s : Conn) : Conn :=
  let s1 := match dir with
    | .WRITE => { s with events := ⟨false, true⟩, writing := true }
    | .READ => { s with events := ⟨true, false⟩, reading := true }
  match s1.watchdog with
  | some _ => s1
  | none =>
    let heads := (s1.sendq.head?.map Call.timeout, s1.recvq.head?.map Call.timeout)
    let timeout := deadline heads.1 heads.2
    { s1 with
      watchdog := if timeout > 0 then some timeout else none
      log := s1.log ++ [.armed heads.1 heads.2] }

def core_close (s : Conn) : Conn :=
  if s.state.closing then s
  else { s with
    state := .S_CLOSING
    watchdog := none
    sendq := []
    recvq := []
    reading := false
    writing := false
    events := ⟨false, false⟩ }

/-- `core_send`, of a call with `left` bytes. The generators send on established connections
only. -/
def core_send (p : Param) (now : Nat) (c : Call) (s : Conn) : Conn :=
  if s.isOpen then
    if s.sendq = [] then
      set_active .WRITE { s with
        sendq := [{ c with timeout := if p.timeout = 0 then 0 else now + p.timeout }] }
    else { s with sendq := s.sendq ++ [c] }
  else s

/-- What the handlers of an event do with the connection. -/
inductive Act where
  | send (c : Call)
  | close
  deriving DecidableEq, Repr

def act (p : Param) (now : Nat) (s : Conn) : Act → Conn
  | .send c => core_send p now c s
  | .close => core_close s

def acts (p : Param) (now : Nat) (as : List Act) (s : Conn) : Conn := as.foldl (act p now) s

/-- What a call of `writev` gives. -/
inductive Write where
  | sent (nsent : Nat)
  | EAGAIN
  | error
  deriving DecidableEq, Repr

/-- The time at which a call is to be answered. -/
def reply_timeout (p : Param) (now : Nat) : Nat :=
  if p.timeout + p.think_timeout > 0 then p.timeout + p.think_timeout + now else 0

/-- The log after `writev` took `nsent` bytes. -/
def accept (now nsent : Nat) (s : Conn) : Conn :=
  if nsent = 0 then s else { s with log := s.log ++ [.accepted now s.watchdog] }

/-- `do_send`, with what its calls of `writev` give, the last one `EAGAIN`. Only the statistics
listen to the events of a request. -/
def do_send (p : Param) (now : Nat) : List Write → Conn → Conn
  | [], s | .EAGAIN :: _, s => s
  | .error :: _, s => core_close s
  | .sent nsent :: ws, s =>
    match s.sendq with
    | [] => s
    | c :: rest =>
      let s1 := accept now nsent s
      if nsent < c.left then
        set_active .WRITE { s1 with
          sendq := { c with
            left := c.left - nsent
            timeout := if p.timeout = 0 then 0 else now + p.timeout } :: rest }
      else
        -- we're done with sending this request
        let s2 := { s1 with sendq := rest }
        let s3 := if rest = [] then clear_active .WRITE s2 else s2
        let s4 := set_active .READ { s3 with
          recvq := s3.recvq ++ [{ c with left := 0, timeout := reply_timeout p now }] }
        let s5 := if s4.state = .S_CONNECTED then { s4 with state := .S_REPLY_STATUS } else s4
        if rest = [] then s5 else do_send p now ws s5

/-- The states in which `http_process_reply_bytes` stops inside a reply. -/
def receiving : ConnState → Bool
  | .S_REPLY_STATUS | .S_REPLY_HEADER | .S_REPLY_CONTINUE | .S_REPLY_DATA | .S_REPLY_CHUNKED
  | .S_REPLY_FOOTER => true
  | _ => false

/-- A turn of the loop of `do_recv`. `reading` is what the handlers do while
`http_process_reply_bytes` takes the bytes. It stops inside a reply, or at its end, and then the
handlers of `EV_CALL_RECV_STOP` and `EV_CALL_DESTROYED` act. -/
inductive Turn where
  | inside (reading : List Act) (state : { st : ConnState // receiving st = true })
  | ends (reading as : List Act)
  deriving DecidableEq, Repr

def Turn.reading : Turn → List Act
  | .inside reading _ | .ends reading _ => reading

/-- What a call of `read` gives: data, as the turns that the loop makes of it, the end of the
stream, with the handlers that may run there, or an error. -/
inductive Read where
  | data (t : Turn) (ts : List Turn)
  | eof (as : List Act)
  | EAGAIN
  | error
  deriving DecidableEq, Repr

/-- `recv_done`, where `rest` is the queue behind the call. -/
def recv_done (p : Param) (now : Nat) (rest : List Call) (as : List Act) (s : Conn) : Conn :=
  let s1 := { s with recvq := rest }
  let s2 := if rest = [] then clear_active .READ s1 else s1
  acts p now as s2

/-- One turn, for the call `c` in front. The value says whether `do_recv` returns. -/
def do_recv_turn (p : Param) (now : Nat) (t : Turn) (c : Call) (rest : List Call) (s : Conn) :
    Conn × Bool :=
  let c1 := if s.state = .S_REPLY_STATUS then { c with timeout := reply_timeout p now } else c
  let s1 := acts p now t.reading { s with recvq := c1 :: rest }
  if s1.state.closing then (s1, false)
  else
    match t with
    | .inside _ st => ({ s1 with state := st.val }, false)
    | .ends _ as =>
      let s2 := recv_done p now rest as { s1 with state := .S_REPLY_DONE }
      if s2.state.closing then (s2, true) else ({ s2 with state := .S_REPLY_STATUS }, false)

/-- The loop of `do_recv`. `none` is the assertion that a call is pending. -/
def do_recv_loop (p : Param) (now : Nat) : List Turn → Conn → Option Conn
  | [], s => some (if s.recvq = [] then s else set_active .READ s)
  | t :: ts, s =>
    match s.recvq with
    | [] => none
    | c :: rest =>
      let (s1, returns) := do_recv_turn p now t c rest s
      if returns then some s1 else do_recv_loop p now ts s1

def do_recv (p : Param) (now : Nat) (r : Read) (s : Conn) : Option Conn :=
  match r with
  | .EAGAIN => some s
  | .error => some (core_close s)
  | .eof as =>
    if s.state = .S_REPLY_DATA then
      some (recv_done p now s.recvq.tail as { s with state := .S_REPLY_DONE })
    else some (core_close s)
  | .data t ts => do_recv_loop p now (t :: ts) { s with log := s.log ++ [.received now] }

/-- An event of `epoll_wait` for the connection, and what is found when it is handled. -/
structure Ready where
  EPOLLIN : Bool
  EPOLLHUP : Bool
  EPOLLOUT : Bool
  /-- what the handlers of `EV_CONN_CONNECTED` do -/
  connected : List Act
  read : Read
  writes : List Write
  deriving DecidableEq, Repr

/-- The body of `core_loop` for one event. -/
def dispatch (p : Param) (now : Nat) (e : Ready) (s : Conn) : Option Conn :=
  let s1 := { s with watchdog := none }
  if s1.state = .S_CONNECTING then
    some (if e.EPOLLOUT then
      acts p now e.connected { clear_active .WRITE s1 with state := .S_CONNECTED }
    else s1)
  else
    let received :=
      if (e.EPOLLIN || e.EPOLLHUP) ∧ s1.recvq ≠ [] then do_recv p now e.read s1 else some s1
    received.map fun s2 => if e.EPOLLOUT ∧ s2.sendq ≠ [] then do_send p now e.writes s2 else s2

/-- `timer_tick`, as far as the watchdog of this connection goes: `conn_timeout`. -/
def tick (now : Nat) (s : Conn) : Conn :=
  if s.watchdog.any (· < now) then
    core_close { s with watchdog := none, log := s.log ++ [.timed_out now] }
  else s

/-- How `connect` returns. -/
inductive Connect where
  | done (as : List Act)
  | EINPROGRESS
  deriving DecidableEq, Repr

/-- The end of `core_connect`. -/
def core_connect (p : Param) (now : Nat) (s : Conn) : Connect → Conn
  | .done as => acts p now as { s with state := .S_CONNECTED }
  | .EINPROGRESS =>
    let s1 := set_active .WRITE { s with state := .S_CONNECTING }
    if p.timeout > 0 then { s1 with watchdog := some (now + p.timeout) } else s1

/-! ## Runs -/

/-- The steps of the program, as far as this connection is concerned: an event of its own, a
tick of the timers, and what handlers and timers of other parts do with the connection. -/
inductive Step where
  | ready (now : Nat) (e : Ready)
  | tick (now : Nat)
  | other (now : Nat) (as : List Act)
  deriving DecidableEq, Repr

/-- `none` is the end of the program by an assertion. -/
def step (p : Param) (s : Option Conn) : Step → Option Conn
  | .ready now e => s.bind (dispatch p now e)
  | .tick now => s.map (tick now)
  | .other now as => s.map (acts p now as)

/-- The state after `core_connect` and the steps behind it. -/
def run (p : Param) (now : Nat) (c : Connect) (steps : List Step) : Option Conn :=
  Runs.run (step p) (some (core_connect p now conn_init c)) steps

end Httperf.Loop
