-- Who holds a reference to a call (`core_send`, `do_send`, `do_recv` and `core_close` of `core.c`,
-- with `object.c` and `conn.c`). Handlers run inside of all these functions. They send calls, close
-- connections and drop references, and the functions go on behind them.
import Httperf.Call
import Httperf.Lib.Ledger
import Httperf.Lib.Runs

namespace Httperf.Ownership

open Lib

/-! ## The objects -/

/-- `enum IO_DIR` -/
inductive Dir where
  | READ
  | WRITE
  deriving DecidableEq, Repr

/-- A `ref_count` of 0: the memory is not in use. -/
structure Call where
  ref_count : Nat
  conn : Option Nat
  deriving DecidableEq, Repr

/-- The queues are the calls that their links lead through. `sd` and `watchdog` only as far as there
is one. -/
structure Conn where
  ref_count : Nat
  state : ConnState
  sd : Bool
  sendq : List Nat
  recvq : List Nat
  reading : Bool
  writing : Bool
  watchdog : Bool
  deriving DecidableEq, Repr

def Conn.queue (k : Conn) : Dir → List Nat
  | .READ => k.recvq
  | .WRITE => k.sendq

def Conn.active (k : Conn) : Dir → Bool
  | .READ => k.reading
  | .WRITE => k.writing

/-- Memory that is not in use. -/
def Conn.unused : Conn := ⟨0, .S_FREE, false, [], [], false, false, false⟩

/-- `conn_init`, on an object that `object_new` cleared. -/
def conn_init : Conn := ⟨1, .S_INITIAL, false, [], [], false, false, false⟩

def clear_active : Dir → Conn → Conn
  | .READ, k => { k with reading := false }
  | .WRITE, k => { k with writing := false }

/-- `timed`: one of the calls has a timeout. -/
def set_active (timed : Bool) : Dir → Conn → Conn
  | .READ, k => { k with reading := true, watchdog := k.watchdog || timed }
  | .WRITE, k => { k with writing := true, watchdog := k.watchdog || timed }

/-- The first call leaves the queue, in `do_send` and in `recv_done`. -/
def dequeue (d : Dir) (k : Conn) : Conn :=
  let k := match d with
    | .READ => { k with recvq := k.recvq.tail }
    | .WRITE => { k with sendq := k.sendq.tail }
  if k.queue d = [] then clear_active d k else k

section
variable (d : Dir) (k : Conn)

@[simp] theorem dequeue_state : (dequeue d k).state = k.state := by
  unfold dequeue
  cases d <;> dsimp only <;> rw [apply_ite Conn.state] <;> exact ite_self _

@[simp] theorem dequeue_ref_count : (dequeue d k).ref_count = k.ref_count := by
  unfold dequeue
  cases d <;> dsimp only <;> rw [apply_ite Conn.ref_count] <;> exact ite_self _

theorem dequeue_queue_self : (dequeue d k).queue d = (k.queue d).tail := by
  unfold dequeue
  cases d <;> dsimp only <;> rw [apply_ite (Conn.queue · _)] <;> exact ite_self _

theorem dequeue_queue_of_ne {d' : Dir} (hd : d' ≠ d) : (dequeue d k).queue d' = k.queue d' := by
  unfold dequeue
  cases d <;> cases d' <;> first
    | exact absurd rfl hd
    | (dsimp only; rw [apply_ite (Conn.queue · _)]; exact ite_self _)

theorem dequeue_active_self :
    (dequeue d k).active d = true ↔ k.active d = true ∧ (k.queue d).tail ≠ [] := by
  by_cases hq : (k.queue d).tail = []
  · have hd : (dequeue d k).active d = false := by
      unfold dequeue
      cases d <;> exact congrArg (Conn.active · _) (if_pos hq)
    simp [hd, hq]
  · have hd : (dequeue d k).active d = k.active d := by
      unfold dequeue
      cases d <;> exact (congrArg (Conn.active · _) (if_neg hq)).trans rfl
    simp [hd, hq]

theorem dequeue_active_of_ne {d' : Dir} (hd : d' ≠ d) : (dequeue d k).active d' = k.active d' := by
  unfold dequeue
  cases d <;> cases d' <;> first
    | exact absurd rfl hd
    | (dsimp only; rw [apply_ite (Conn.active · _)]; exact ite_self _)

end

/-- `S_CONNECTED` to `S_REPLY_DONE`. -/
def connected : ConnState → Bool
  | .S_INITIAL | .S_CONNECTING | .S_CLOSING | .S_FREE => false
  | _ => true

/-- A state that `http_process_reply_bytes` leaves. -/
def replying : ConnState → Bool
  | .S_CONNECTED => false
  | s => connected s

/-! ## The program -/

/-- A function of `core.c` that has not returned, with what it goes on with. A handler runs where it
stands at an event. -/
inductive Frame where
  /-- `core_send` at `EV_CALL_ISSUE` -/
  | issue (conn call : Nat)
  /-- `core_send` at `EV_CALL_SEND_START` -/
  | send_start (conn call : Nat)
  /-- `do_send` at `EV_CALL_SEND_RAW_DATA` -/
  | raw_data (conn call : Nat)
  /-- `do_send` at `EV_CALL_SEND_STOP` -/
  | send_stop (conn call : Nat)
  /-- `do_send` at `EV_CALL_SEND_START`, for the next call -/
  | send_next (conn : Nat)
  /-- `http_process_reply_bytes`, at any of its events -/
  | reply (conn call : Nat)
  /-- `recv_done` at `EV_CALL_RECV_STOP`. `do_recv` goes on when it has `more`. -/
  | recv_stop (conn call : Nat) (more : Option Bool)
  /-- `do_recv` behind `recv_done`. `more`: there are bytes left. -/
  | received (conn call : Nat) (more : Bool)
  /-- `object_destroy` at `EV_CALL_DESTROYED` -/
  | call_destroyed (call : Nat)
  /-- `core_close` in one of its loops, with the calls that are still to come -/
  | closing (queue : Dir) (conn : Nat) (rest : List Nat)
  /-- `core_close` at `EV_CONN_CLOSE` -/
  | conn_close (conn : Nat) (sd : Bool)
  /-- `object_destroy` at `EV_CONN_DESTROYED` -/
  | conn_destroyed (conn : Nat)
  /-- `conn_failure` at `EV_CONN_FAILED`, `conn_timeout` at `EV_CONN_TIMEOUT` -/
  | conn_failed (conn : Nat)
  /-- `core_connect` at `EV_CONN_CONNECTING` -/
  | connecting (conn : Nat)
  /-- `core_connect` or `core_loop` at `EV_CONN_CONNECTED` -/
  | conn_connected (conn : Nat)
  /-- `core_loop`, with the directions that are still to be served -/
  | core_loop (conn : Nat) (dirs : List Dir)
  deriving DecidableEq, Repr

/-- What ends the program: an assertion, by the function that it stands in, or a null pointer. -/
inductive Failure where
  | conn_deinit
  | object_dec_ref
  | do_send
  | do_recv
  | core_close
  | null_pointer
  deriving DecidableEq, Repr

/-- The objects by their addresses. `held` and `conn_held` are the references that are held outside
of `core.c`, `made` and `gone` count `call_new` and `EV_CALL_DESTROYED`. -/
structure World where
  call : Nat → Call
  conn : Nat → Conn
  stack : List Frame
  failure : Option Failure
  held : Nat → Nat
  conn_held : Nat → Nat
  made : Nat → Nat
  gone : Nat → Nat

def start : World where
  call _ := ⟨0, none⟩
  conn _ := Conn.unused
  stack := []
  failure := none
  held _ := 0
  conn_held _ := 0
  made _ := 0
  gone _ := 0

def World.set_call (w : World) (a : Nat) (k : Call) : World :=
  { w with call := Function.update w.call a k }

def World.set_conn (w : World) (c : Nat) (k : Conn) : World :=
  { w with conn := Function.update w.conn c k }

def World.push (w : World) (f : Frame) : World := { w with stack := f :: w.stack }

def World.fail (w : World) (f : Failure) : World := { w with failure := some f }

/-! ## The functions -/

def call_dec_ref (a : Nat) (w : World) : World :=
  let k := w.call a
  if k.ref_count = 0 then w.fail .object_dec_ref
  else
    let w := w.set_call a { k with ref_count := k.ref_count - 1 }
    if k.ref_count = 1 then
      { w with gone := Function.update w.gone a (w.gone a + 1) }.push (.call_destroyed a)
    else w

/-- The assertions of `conn_deinit`. -/
def Conn.idle (k : Conn) : Bool :=
  !k.sd && k.state != .S_FREE && k.sendq.isEmpty && k.recvq.isEmpty && !k.watchdog

def conn_dec_ref (c : Nat) (w : World) : World :=
  let k := w.conn c
  if k.ref_count = 0 then w.fail .object_dec_ref
  else if k.ref_count = 1 then
    if k.idle then
      (w.set_conn c { k with ref_count := 0, state := .S_FREE }).push (.conn_destroyed c)
    else w.fail .conn_deinit
  else w.set_conn c { k with ref_count := k.ref_count - 1 }

/-- Up to the first loop. -/
def core_close (c : Nat) (w : World) : World :=
  let k := w.conn c
  if k.state.closing then w
  else (w.set_conn c { k with state := .S_CLOSING, watchdog := false }).push
    (.closing .WRITE c k.sendq)

/-- One turn of a loop of `core_close`, and what comes behind it. -/
def close_queue (queue : Dir) (c : Nat) (rest : List Nat) (w : World) : World :=
  let k := w.conn c
  match queue, rest with
  | queue, a :: rest => call_dec_ref a (w.push (.closing queue c rest))
  | .WRITE, [] => (w.set_conn c { k with sendq := [] }).push (.closing .READ c k.recvq)
  | .READ, [] => (w.set_conn c { k with recvq := [], sd := false }).push (.conn_close c k.sd)

/-- `core_close` behind `EV_CONN_CLOSE`. -/
def closed (c : Nat) (sd : Bool) (w : World) : World :=
  let k := w.conn c
  if k.state = .S_CLOSING then
    conn_dec_ref c (if sd then w.set_conn c { k with reading := false, writing := false } else w)
  else w.fail .core_close

/-- `core_send` behind `EV_CALL_ISSUE`. -/
def issued (c a : Nat) (w : World) : World :=
  let k := w.conn c
  let w := w.set_call a ⟨(w.call a).ref_count + 1, some c⟩
  let w := w.set_conn c { k with sendq := k.sendq ++ [a] }
  if k.sendq = [] then w.push (.send_start c a) else w

/-- `core_send` behind `EV_CALL_SEND_START`. -/
def started (timed : Bool) (c : Nat) (w : World) : World :=
  if (w.conn c).state.closing then w else w.set_conn c (set_active timed .WRITE (w.conn c))

/-- `do_send` from the start of its loop to `writev`. -/
def do_send (c : Nat) (w : World) : World :=
  match (w.conn c).sendq with
  | [] => w.fail .do_send
  | a :: _ => w.push (.raw_data c a)

inductive Writev where
  | eagain
  | error
  /-- a part of the request -/
  | part
  /-- all that is left of the request -/
  | whole
  deriving DecidableEq, Repr

/-- `do_send` from `writev` to `EV_CALL_SEND_STOP`. -/
def wrote (r : Writev) (timed : Bool) (c a : Nat) (w : World) : World :=
  let k := w.conn c
  match r with
  | .eagain => w
  | .error => w.push (.conn_failed c)
  | .part => w.set_conn c (set_active timed .WRITE k)
  | .whole => (w.set_conn c (dequeue .WRITE k)).push (.send_stop c a)

/-- `do_send` behind `EV_CALL_SEND_STOP`. -/
def stopped (timed : Bool) (c a : Nat) (w : World) : World :=
  let k := w.conn c
  if k.state.closing then call_dec_ref a w
  else
    let state := if replying k.state then k.state else .S_REPLY_STATUS
    let w := w.set_conn c (set_active timed .READ { k with recvq := k.recvq ++ [a], state })
    if k.sendq = [] then w else w.push (.send_next c)

/-- `recv_done` up to `EV_CALL_RECV_STOP`. -/
def recv_done (c a : Nat) (more : Option Bool) (w : World) : World :=
  match (w.call a).conn with
  | none => w.fail .null_pointer
  | some conn => (w.set_conn conn (dequeue .READ (w.conn conn))).push (.recv_stop c a more)

inductive Read where
  | eagain
  | error
  | eof
  | data
  deriving DecidableEq, Repr

/-- `do_recv` up to the first reply. -/
def do_recv (r : Read) (c a : Nat) (w : World) : World :=
  let k := w.conn c
  match r with
  | .eagain => w
  | .error => w.push (.conn_failed c)
  | .eof =>
    if k.state ≠ .S_REPLY_DATA then w.push (.conn_failed c)
    else recv_done c a none (w.set_conn c { k with state := .S_REPLY_DONE })
  | .data => w.push (.reply c a)

/-- The next turn of the loop of `do_recv`. -/
def next_reply (c : Nat) (w : World) : World :=
  match (w.conn c).recvq with
  | [] => w.fail .do_recv
  | a :: _ => w.push (.reply c a)

/-- `do_recv` behind its loop. -/
def end_recv (timed : Bool) (c a : Nat) (w : World) : World :=
  if (w.conn c).recvq = [] then w
  else
    match (w.call a).conn with
    | none => w.fail .null_pointer
    | some conn => w.set_conn conn (set_active timed .READ (w.conn conn))

/-- `http_process_reply_bytes` leaves the connection in the state `state`. The states are not set
any more when the connection is closed. Only `S_REPLY_CONTINUE` is. -/
def set_state (state : ConnState) (c : Nat) (w : World) : World :=
  let k := w.conn c
  if k.state.closing ∧ state ≠ .S_REPLY_CONTINUE then w else w.set_conn c { k with state }

@[simp] theorem set_state_failure (state : ConnState) (c : Nat) (w : World) :
    (set_state state c w).failure = w.failure := by
  unfold set_state
  dsimp only
  split <;> rfl

@[simp] theorem set_state_stack (state : ConnState) (c : Nat) (w : World) :
    (set_state state c w).stack = w.stack := by
  unfold set_state
  dsimp only
  split <;> rfl

/-- `do_recv` behind `http_process_reply_bytes`. -/
def replied (more timed : Bool) (c a : Nat) (w : World) : World :=
  if (w.conn c).state = .S_REPLY_DONE then recv_done c a (some more) w
  else if more then next_reply c w
  else end_recv timed c a w

/-- `do_recv` behind `recv_done`. -/
def go_on (more timed : Bool) (c a : Nat) (w : World) : World :=
  let k := w.conn c
  if k.state.closing then w
  else
    let w := w.set_conn c { k with state := .S_REPLY_STATUS }
    if more then next_reply c w else end_recv timed c a w

inductive Socket where
  /-- no descriptor is kept -/
  | none
  | unknown_host
  | ok
  deriving DecidableEq, Repr

/-- `core_connect` up to `EV_CONN_CONNECTING`. -/
def core_connect (r : Socket) (c : Nat) (w : World) : World :=
  let k := { w.conn c with sd := true }
  match r with
  | .none => w.push (.conn_failed c)
  | .unknown_host => (w.set_conn c k).push (.conn_failed c)
  | .ok => (w.set_conn c k).push (.connecting c)

inductive Connect where
  | fails
  | succeeds
  | in_progress
  deriving DecidableEq, Repr

/-- `core_connect` behind `EV_CONN_CONNECTING`. -/
def connect (r : Connect) (timed : Bool) (c : Nat) (w : World) : World :=
  let k := w.conn c
  if k.state.closing then w.push (.conn_failed c)
  else
    match r with
    | .fails => w.push (.conn_failed c)
    | .succeeds => (w.set_conn c { k with state := .S_CONNECTED }).push (.conn_connected c)
    | .in_progress => w.set_conn c (set_active timed .WRITE { k with state := .S_CONNECTING })

/-- `core_loop` for one descriptor, up to `do_send` and `do_recv`. -/
def ready (c : Nat) (dirs : List Dir) (w : World) : World :=
  let k := { w.conn c with ref_count := (w.conn c).ref_count + 1, watchdog := false }
  if k.state = .S_CONNECTING then
    if .WRITE ∈ dirs then
      ((w.set_conn c { clear_active .WRITE k with state := .S_CONNECTED }).push
        (.core_loop c [])).push (.conn_connected c)
    else (w.set_conn c k).push (.core_loop c [])
  else (w.set_conn c k).push (.core_loop c dirs)

/-- The program goes on behind an event, or to the next thing it has to do. What needs an answer of
the system comes with steps of its own. -/
def back (timed : Bool) (w : World) : World :=
  match w.stack with
  | [] => w
  | f :: rest =>
    let w' := { w with stack := rest }
    match f with
    | .issue c a => issued c a w'
    | .send_start c _ => started timed c w'
    | .send_stop c a => stopped timed c a w'
    | .send_next c => if (w.conn c).state.closing then w' else do_send c w'
    | .recv_stop _ a none => call_dec_ref a w'
    | .recv_stop c a (some more) => call_dec_ref a (w'.push (.received c a more))
    | .received c a more => go_on more timed c a w'
    | .closing queue c rest => close_queue queue c rest w'
    | .conn_close c sd => closed c sd w'
    | .conn_failed c => core_close c w'
    | .call_destroyed _ | .conn_destroyed _ | .conn_connected _ => w'
    | .core_loop c [] => conn_dec_ref c w'
    | .core_loop c (.WRITE :: dirs) =>
      let w' := w'.push (.core_loop c dirs)
      if (w.conn c).sendq = [] then w' else do_send c w'
    | .core_loop c (.READ :: dirs) =>
      if (w.conn c).recvq = [] then w'.push (.core_loop c dirs) else w
    | .raw_data .. | .reply .. | .connecting .. => w

/-! ## Runs -/

inductive Step where
  | call_new (a : Nat)
  | call_inc_ref (a : Nat)
  | call_dec_ref (a : Nat)
  | conn_new (c : Nat)
  | conn_inc_ref (c : Nat)
  | conn_dec_ref (c : Nat)
  | core_connect (c : Nat) (r : Socket)
  | core_send (c a : Nat)
  | core_close (c : Nat)
  | ready (c : Nat) (dirs : List Dir)
  | timer (c : Nat)
  | back (timed : Bool)
  | writev (r : Writev) (timed : Bool)
  | read (r : Read)
  /-- the reply goes on to its next event, or the bytes are processed -/
  | parse (state : ConnState) (event more timed : Bool)
  | connect (r : Connect) (timed : Bool)

def step (w : World) (s : Step) : World :=
  if w.failure.isSome then w
  else
    match s, w.stack with
    | .call_new a, _ =>
      { w.set_call a ⟨1, none⟩ with
        held := Function.update w.held a 1
        made := Function.update w.made a (w.made a + 1) }
    | .call_inc_ref a, _ =>
      { w.set_call a { w.call a with ref_count := (w.call a).ref_count + 1 } with
        held := Function.update w.held a (w.held a + 1) }
    | .call_dec_ref a, _ =>
      call_dec_ref a { w with held := Function.update w.held a (w.held a - 1) }
    | .conn_new c, _ => w.set_conn c conn_init
    | .conn_inc_ref c, _ =>
      { w.set_conn c { w.conn c with ref_count := (w.conn c).ref_count + 1 } with
        conn_held := Function.update w.conn_held c (w.conn_held c + 1) }
    | .conn_dec_ref c, _ =>
      conn_dec_ref c { w with conn_held := Function.update w.conn_held c (w.conn_held c - 1) }
    | .core_connect c r, _ => core_connect r c w
    | .core_send c a, _ => w.push (.issue c a)
    | .core_close c, _ => core_close c w
    | .ready c dirs, _ => ready c dirs w
    | .timer c, _ => (w.set_conn c { w.conn c with watchdog := false }).push (.conn_failed c)
    | .back timed, _ => back timed w
    | .writev r timed, .raw_data c a :: rest => wrote r timed c a { w with stack := rest }
    | .read r, .core_loop c (.READ :: dirs) :: rest =>
      match (w.conn c).recvq with
      | [] => w
      | a :: _ => do_recv r c a { w with stack := .core_loop c dirs :: rest }
    | .parse state event more timed, .reply c a :: rest =>
      let w := set_state state c w
      if event then w else replied more timed c a { w with stack := rest }
    | .connect r timed, .connecting c :: rest => connect r timed c { w with stack := rest }
    | _, _ => w

/-! ## What the handlers do -/

/-- A handler runs, or the program is between two events. -/
def acting : List Frame → Bool
  | .received .. :: _ | .closing .. :: _ | .core_loop .. :: _ => false
  | _ => true

/-- The program is at an event behind which `core.c` looks whether the connection is closed. -/
def may_close : List Frame → Bool
  | .send_start .. :: _ | .send_next .. :: _ | .send_stop .. :: _ => true
  | .recv_stop .. :: _ | .call_destroyed .. :: _ => true
  | _ => false

/-- The call is in a queue. When the connection is closed, `core_close` has not come to it yet. -/
def Queued (w : World) (a : Nat) : Prop :=
  (∃ c d, (w.conn c).state.closing = false ∧ a ∈ (w.conn c).queue d) ∨
  ∃ d c rest, .closing d c rest ∈ w.stack ∧ (a ∈ rest ∨ d = .WRITE ∧ a ∈ (w.conn c).recvq)

/-- What the handlers and the system may do, but for the calls that are in a queue. -/
def permitted (w : World) : Step → Bool
  | .call_new a =>
    acting w.stack && (w.call a).ref_count == 0 && !w.stack.contains (.call_destroyed a)
  | .call_inc_ref a => acting w.stack && (w.call a).ref_count != 0
  | .call_dec_ref a => acting w.stack && w.held a != 0
  | .conn_new c =>
    acting w.stack && (w.conn c).ref_count == 0 && !w.stack.contains (.conn_destroyed c)
  | .conn_inc_ref c => acting w.stack && (w.conn c).ref_count != 0
  | .conn_dec_ref c => acting w.stack && w.conn_held c != 0
  | .core_connect c _ => acting w.stack && (w.conn c).state == .S_INITIAL
  | .core_send c a => acting w.stack && connected (w.conn c).state && (w.call a).ref_count != 0
  | .core_close c => may_close w.stack && (w.conn c).ref_count != 0
  | .ready c _ => w.stack.isEmpty && (w.conn c).ref_count != 0
  | .timer c => w.stack.isEmpty && (w.conn c).watchdog
  | .parse state _ _ _ => replying state
  | .back _ | .writev .. | .read _ | .connect .. => true

/-- What the handlers and the system may do. Calls that are in a queue are not sent. -/
def Allowed (w : World) (s : Step) : Prop :=
  permitted w s = true ∧ ∀ c a, s = .core_send c a → ¬ Queued w a

/-- The call that `core_send` or `do_send` is about to put into a queue. -/
def enters (w : World) : Step → Option Nat
  | .back _ =>
    match w.stack with
    | .issue _ a :: _ => some a
    | .send_stop c a :: _ => if (w.conn c).state.closing then none else some a
    | _ => none
  | _ => none

/-- Where `core.c` goes on behind an event without looking again, what it has in hand is as it was:
the connection is still open, or still the same one, and the call still belongs to it. -/
def intact (w : World) : Step → Bool
  | .back _ =>
    match w.stack with
    | .issue c a :: _ => connected (w.conn c).state && (w.call a).ref_count != 0
    | .send_start c _ :: _ => (w.conn c).state.closing || !(w.conn c).sendq.isEmpty
    | .send_stop c a :: _ => (w.conn c).state.closing || (w.call a).conn == some c
    | .received c a false :: _ =>
      (w.conn c).state.closing || (w.conn c).recvq.isEmpty || (w.call a).conn == some c
    | _ => true
  | .writev r _ =>
    match w.stack with
    | .raw_data c _ :: _ => r == .eagain || r == .error || !(w.conn c).state.closing
    | _ => true
  | .parse state _ _ _ =>
    match w.stack with
    | .reply c _ :: _ => state != .S_REPLY_CONTINUE || !(w.conn c).state.closing
    | _ => true
  | .connect r _ =>
    match w.stack with
    | .connecting c :: _ =>
      r == .fails || (w.conn c).state.closing || (w.conn c).state == .S_INITIAL
    | _ => true
  | _ => true

/-- The call is in no other queue either. -/
def Intact (w : World) (s : Step) : Prop :=
  intact w s = true ∧ ∀ a, enters w s = some a → ¬ Queued w a

/-- The books between two events. -/
structure Exact (w : World) : Prop where
  once : ∀ c d, ((w.conn c).queue d).Nodup
  one_queue : ∀ a c d c' d', a ∈ (w.conn c).queue d → a ∈ (w.conn c').queue d' → c = c' ∧ d = d'
  queued : ∀ a c d, a ∈ (w.conn c).queue d → (w.call a).ref_count = w.held a + 1
  not_queued : ∀ a, (∀ c d, a ∉ (w.conn c).queue d) → (w.call a).ref_count = w.held a
  /-- A call is gone as often as it was made, less the one time that it is still there. -/
  destroyed : ∀ a, w.made a = w.gone a + if (w.call a).ref_count = 0 then 0 else 1
  writing : ∀ c, connected (w.conn c).state → ((w.conn c).writing ↔ (w.conn c).sendq ≠ [])
  reading : ∀ c, connected (w.conn c).state → ((w.conn c).reading ↔ (w.conn c).recvq ≠ [])

structure Law (w : World) : Prop where
  exact : w.stack = [] → Exact w
  deinit : w.failure ≠ some .conn_deinit

end Httperf.Ownership
