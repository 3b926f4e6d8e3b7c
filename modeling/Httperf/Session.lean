-- The mechanics of a session (`session.c`): the ring of pending calls of each connection, and the
-- queues of the connection in `core.c`. A connection that fails is replaced, and the calls that
-- are pending are sent again.
import Httperf.Lib.Ring
import Httperf.Lib.Runs
import Httperf.SessionQueue
import Mathlib.Data.List.Forall2

namespace Httperf.Session

open Lib

def MAX_CONN : Nat := 4

def MAX_PIPED : Nat := 32

/-- The options, where 0 stands for one that is not given. -/
structure Options where
  http_version : Nat
  max_conns : Nat
  max_piped : Nat
  failure_status : Nat
  retry_on_failure : Bool

/-- The parameters behind `session_init`. -/
structure Param extends SessionParam where
  http_version : Nat
  failure_status : Nat
  retry_on_failure : Bool
  max_conns_le : max_conns ≤ MAX_CONN
  max_piped_le : max_piped ≤ MAX_PIPED

/-- `session_init` exits when there are too many connections or calls. -/
def session_init (o : Options) : Option Param :=
  let max_conns := if o.max_conns = 0 then MAX_CONN else o.max_conns
  let max_piped :=
    if o.max_piped = 0 then (if o.http_version ≥ 0x10001 then MAX_PIPED else 1) else o.max_piped
  if h : max_conns ≤ MAX_CONN ∧ max_piped ≤ MAX_PIPED then
    some
      { max_conns
        max_piped
        http_version := o.http_version
        failure_status := o.failure_status
        retry_on_failure := o.retry_on_failure
        max_conns_pos := by
          dsimp only [max_conns]
          split
          · exact Nat.succ_pos 3
          · omega
        max_piped_pos := by
          dsimp only [max_piped]
          split
          · split
            · exact Nat.succ_pos 31
            · exact Nat.one_pos
          · omega
        max_conns_le := h.1
        max_piped_le := h.2 }
  else none

/-- `session_init` accepts the values that it gives: what is proved below for every `Param` is
proved for all options that it lets through, and for no others. -/
theorem session_init_param (p : Param) :
    session_init ⟨p.http_version, p.max_conns, p.max_piped, p.failure_status, p.retry_on_failure⟩ =
      some p := by
  have hconns := p.max_conns_pos
  have hpiped := p.max_piped_pos
  simp only [session_init, if_neg (Nat.ne_of_gt hconns), if_neg (Nat.ne_of_gt hpiped)]
  rw [dif_pos ⟨p.max_conns_le, p.max_piped_le⟩]

inductive Conn_State where
  | initial
  | connecting
  | connected
  | closing
  deriving DecidableEq, Repr

/-- A connection of `core.c`, with the `conn_info` that it belongs to. `sent` and `answered` are no
fields of the source: they hold the calls that went through `core_send`, and those of them that
were answered. -/
structure Conn where
  ci : Nat
  state : Conn_State
  sendq : List Nat
  recvq : List Nat
  sent : List Nat
  answered : List Nat
  deriving DecidableEq, Repr

/-- `struct Conn_Info`. `issued` and `completed` are no fields of the source: they hold the calls
that were put into the ring, and those that were taken out of it. -/
structure Conn_Info where
  conn : Option Nat
  is_connected : Bool
  is_successful : Bool
  num_pending : Nat
  num_sent : Nat
  rd : Nat
  wr : Nat
  call : Nat → Option Nat
  issued : List Nat
  completed : List Nat

/-- A session, and the connections that were made for it. -/
structure Sess where
  conn_info : Nat → Conn_Info
  conns : Nat → Conn
  num_conns : Nat

/-- How a session, or the program, ends. -/
inductive Stop where
  | sess_failure
  | too_many_calls_pending
  | assert_ring
  deriving DecidableEq, Repr

/-- What `core_connect` comes to. A connection that fails at once fails the session, whether
`conn_failed` makes another one or not. -/
inductive Connect where
  | connecting
  | connected
  | fails
  deriving DecidableEq, Repr

def set_info (i : Nat) (ci : Conn_Info) (s : Sess) : Sess :=
  { s with conn_info := Function.update s.conn_info i ci }

def set_conn (k : Nat) (c : Conn) (s : Sess) : Sess :=
  { s with conns := Function.update s.conns k c }

section

variable (i k : Nat) (ci ci' : Conn_Info) (c c' : Conn) (s : Sess)

@[simp] theorem set_info_conns : (set_info i ci s).conns = s.conns := rfl

@[simp] theorem set_info_num_conns : (set_info i ci s).num_conns = s.num_conns := rfl

@[simp] theorem set_info_self : (set_info i ci s).conn_info i = ci := Function.update_self _ _ _

@[simp] theorem set_conn_info : (set_conn k c s).conn_info = s.conn_info := rfl

@[simp] theorem set_conn_num_conns : (set_conn k c s).num_conns = s.num_conns := rfl

@[simp] theorem set_conn_self : (set_conn k c s).conns k = c := Function.update_self _ _ _

@[simp] theorem set_info_twice : set_info i ci (set_info i ci' s) = set_info i ci s := by
  simp [set_info]

@[simp] theorem set_conn_twice : set_conn k c (set_conn k c' s) = set_conn k c s := by
  simp [set_conn]

@[simp] theorem set_conn_set_info :
    set_conn k c (set_info i ci s) = set_info i ci (set_conn k c s) := rfl

end

theorem set_info_of_ne {i j : Nat} (h : j ≠ i) (ci : Conn_Info) (s : Sess) :
    (set_info i ci s).conn_info j = s.conn_info j := Function.update_of_ne h _ _

theorem set_conn_of_ne {k l : Nat} (h : l ≠ k) (c : Conn) (s : Sess) :
    (set_conn k c s).conns l = s.conns l := Function.update_of_ne h _ _

/-! ## The calls of one connection -/

def core_send (k : Nat) (call : Option Nat) (s : Sess) : Sess :=
  let c := s.conns k
  set_conn k { c with sendq := c.sendq ++ call.toList, sent := c.sent ++ call.toList } s

def core_close (k : Nat) (s : Sess) : Sess :=
  set_conn k { s.conns k with state := .closing, sendq := [], recvq := [] } s

/-- The loop of `send_calls`, over the `n` calls from `rd` on. -/
def send_loop (i k : Nat) : Nat → Nat → Sess → Sess
  | 0, _, s => s
  | n + 1, rd, s =>
    let s1 := core_send k ((s.conn_info i).call rd) s
    let ci := s1.conn_info i
    send_loop i k n ((rd + 1) % MAX_PIPED) (set_info i { ci with num_sent := ci.num_sent + 1 } s1)

/-- `send_calls` on the connection `k` of the slot, which is ready for use. -/
def send_pending (i k : Nat) (s : Sess) : Sess :=
  let ci := s.conn_info i
  send_loop i k (ci.num_pending - ci.num_sent) ((ci.rd + ci.num_sent) % MAX_PIPED) s

/-- The handler of `EV_CONN_CONNECTED`. -/
def conn_connected (k : Nat) (s : Sess) : Sess :=
  let i := (s.conns k).ci
  send_pending i k (set_info i { s.conn_info i with is_connected := true } s)

/-- `core_connect` on the new connection `k`. -/
def core_connect (o : Connect) (k : Nat) (s : Sess) : Except Stop Sess :=
  match o with
  | .connecting => .ok (set_conn k { s.conns k with state := .connecting } s)
  | .connected => .ok (conn_connected k (set_conn k { s.conns k with state := .connected } s))
  | .fails => .error .sess_failure

def create_conn (o : Connect) (i : Nat) (s : Sess) : Except Stop Sess :=
  let k := s.num_conns
  let s1 := set_conn k ⟨i, .initial, [], [], [], []⟩ { s with num_conns := k + 1 }
  core_connect o k (set_info i { s.conn_info i with
    conn := some k
    is_connected := false
    is_successful := false
    num_sent := 0 } s1)

def send_calls (o : Connect) (i : Nat) (s : Sess) : Except Stop Sess :=
  match (s.conn_info i).conn with
  | none => create_conn o i s
  | some k => .ok (if (s.conn_info i).is_connected then send_pending i k s else s)

/-! ## The session -/

variable (p : Param)

/-- `session_issue_call` puts the call into the ring. -/
def enqueue (call : Nat) (ci : Conn_Info) : Conn_Info :=
  { ci with
    num_pending := ci.num_pending + 1
    call := Function.update ci.call ci.wr (some call)
    wr := (ci.wr + 1) % MAX_PIPED
    issued := ci.issued ++ [call] }

@[simp] theorem enqueue_conn (call : Nat) (ci : Conn_Info) : (enqueue call ci).conn = ci.conn := rfl

@[simp] theorem enqueue_num_sent (call : Nat) (ci : Conn_Info) :
    (enqueue call ci).num_sent = ci.num_sent := rfl

/-- `call_done` takes the call out of the ring. -/
def dequeue (call : Nat) (ci : Conn_Info) : Conn_Info :=
  { ci with
    is_successful := true
    call := Function.update ci.call ci.rd none
    rd := (ci.rd + 1) % MAX_PIPED
    num_pending := ci.num_pending - 1
    num_sent := ci.num_sent - 1
    completed := ci.completed ++ [call] }

/-- The first `conn_info` with room gets the call. -/
def session_issue_call (call : Nat) (o : Connect) (s : Sess) : Except Stop Sess :=
  match (List.range p.max_conns).find? fun i =>
    decide ((s.conn_info i).num_pending < p.max_piped) with
  | none => .error .too_many_calls_pending
  | some i => send_calls o i (set_info i (enqueue call (s.conn_info i)) s)

theorem set_info_issued {i : Nat} {ci : Conn_Info} {s : Sess}
    (h : ci.issued = (s.conn_info i).issued) (j : Nat) :
    ((set_info i ci s).conn_info j).issued = (s.conn_info j).issued := by
  by_cases hj : j = i
  · subst hj
    rw [set_info_self, h]
  · rw [set_info_of_ne hj]

theorem send_loop_issued (i k n rd : Nat) (s : Sess) (j : Nat) :
    ((send_loop i k n rd s).conn_info j).issued = (s.conn_info j).issued := by
  induction n generalizing rd s with
  | zero => rfl
  | succ n ih =>
    rw [send_loop, ih]
    exact set_info_issued (by rfl) j

theorem conn_connected_issued (k : Nat) (s : Sess) (j : Nat) :
    ((conn_connected k s).conn_info j).issued = (s.conn_info j).issued := by
  unfold conn_connected send_pending
  rw [send_loop_issued]
  exact set_info_issued (by rfl) j

theorem send_calls_issued {o : Connect} {i : Nat} {s s' : Sess} (h : send_calls o i s = .ok s')
    (j : Nat) :
    (s'.conn_info j).issued = (s.conn_info j).issued := by
  unfold send_calls at h
  split at h
  · have hcreate (ci : Conn_Info) (hci : ci.issued = (s.conn_info i).issued) (c : Conn) :
        ((set_info i ci (set_conn s.num_conns c { s with num_conns := s.num_conns + 1 })).conn_info
          j).issued =
          (s.conn_info j).issued := set_info_issued hci j
    cases o with
    | connecting =>
      obtain rfl := Except.ok.inj h
      exact hcreate _ (by rfl) _
    | connected =>
      obtain rfl := Except.ok.inj h
      rw [conn_connected_issued]
      exact hcreate _ (by rfl) _
    | fails => cases h
  · obtain rfl := Except.ok.inj h
    split_ifs
    · exact send_loop_issued ..
    · rfl

/-- Each call that is taken is one entry of `issued`, behind those of its slot. -/
theorem session_issue_call_issued {call : Nat} {o : Connect} {s s' : Sess}
    (h : session_issue_call p call o s = .ok s') :
    ∃ i, (s'.conn_info i).issued = (s.conn_info i).issued ++ [call] ∧
      ∀ j, j ≠ i → (s'.conn_info j).issued = (s.conn_info j).issued := by
  unfold session_issue_call at h
  split at h
  · cases h
  · rename_i i _
    refine ⟨i, ?_, fun j hj => ?_⟩
    · rw [send_calls_issued h, set_info_self]
      rfl
    · rw [send_calls_issued h, set_info_of_ne hj]

/-- Before HTTP/1.1 the connection is closed after each reply. -/
def close_conn (i : Nat) (s : Sess) : Sess :=
  match (s.conn_info i).conn with
  | none => s
  | some k => set_info i { s.conn_info i with conn := none } (core_close k s)

/-- `call_done`, where the reply status may match the failure status. -/
def check_status (call status : Nat) (o : Connect) (s : Sess) : Except Stop Sess :=
  if p.failure_status ≠ 0 ∧ status = p.failure_status then
    if p.retry_on_failure then session_issue_call p call o s else .error .sess_failure
  else .ok s

/-- The handler of `EV_CALL_RECV_STOP`, on the connection `k`. -/
def call_done (k call status : Nat) (o : Connect) (s : Sess) : Except Stop Sess :=
  let i := (s.conns k).ci
  let ci := s.conn_info i
  if ci.call ci.rd = some call ∧ 0 < ci.num_pending ∧ 0 < ci.num_sent then do
    let s1 ← check_status p call status o (set_info i (dequeue call ci) s)
    return if p.http_version < 0x10001 then close_conn i s1 else s1
  else .error .assert_ring

/-- The handler of `EV_CONN_FAILED`. -/
def conn_failed (k : Nat) (o : Connect) (s : Sess) : Except Stop Sess :=
  let i := (s.conns k).ci
  if (s.conn_info i).is_successful ∨ p.retry_on_failure then create_conn o i s
  else .error .sess_failure

/-- What can happen to a session, where `k` is one of its connections. -/
inductive Step where
  /-- the generator issues a call -/
  | issue (call : Nat) (o : Connect)
  | connected (k : Nat)
  /-- the request in front of `sendq` is sent -/
  | sent (k : Nat)
  /-- the reply to the call in front of `recvq` is there -/
  | reply (k status : Nat) (o : Connect)
  /-- `conn_failure` -/
  | failure (k : Nat) (o : Connect)
  /-- `conn_timeout` -/
  | timeout (k : Nat)
  deriving DecidableEq, Repr

/-- A connection has events from `core_connect` to `core_close`. -/
def Open (k : Nat) (s : Sess) : Prop := k < s.num_conns ∧ (s.conns k).state ≠ .closing

instance (k : Nat) (s : Sess) : Decidable (Open k s) := inferInstanceAs (Decidable (_ ∧ _))

/-- A step of a session that goes on. -/
def react (s : Sess) : Step → Except Stop Sess
  | .issue call o => session_issue_call p call o s
  | .connected k =>
    if Open k s ∧ (s.conns k).state = .connecting then
      .ok (conn_connected k (set_conn k { s.conns k with state := .connected } s))
    else .ok s
  | .sent k =>
    let c := s.conns k
    match c.sendq with
    | [] => .ok s
    | call :: rest => .ok (set_conn k { c with sendq := rest, recvq := c.recvq ++ [call] } s)
  | .reply k status o =>
    let c := s.conns k
    match c.recvq with
    | [] => .ok s
    | call :: rest =>
      call_done p k call status o
        (set_conn k { c with recvq := rest, answered := c.answered ++ [call] } s)
  | .failure k o =>
    if Open k s then do
      let s1 ← conn_failed p k o s
      return core_close k s1
    else .ok s
  | .timeout k => if Open k s then .error .sess_failure else .ok s

def step (s : Except Stop Sess) (x : Step) : Except Stop Sess := do
  react p (← s) x

def sess_new : Sess :=
  ⟨fun _ => ⟨none, false, false, 0, 0, 0, 0, fun _ => none, [], []⟩,
    fun _ => ⟨0, .initial, [], [], [], []⟩, 0⟩

def run (steps : List Step) : Except Stop Sess := Runs.run (step p) (.ok sess_new) steps

/-! ## The invariant -/

variable {p}

/-- The ring of a slot holds the calls `pend`: those that were issued and are not done. -/
structure Ring (p : Param) (ci : Conn_Info) (pend : List Nat) : Prop where
  issued : ci.issued = ci.completed ++ pend
  holds : Holds MAX_PIPED ci.call ci.rd pend
  num_pending : ci.num_pending = pend.length
  le : pend.length ≤ p.max_piped
  rd_lt : ci.rd < MAX_PIPED
  wr : ci.wr = (ci.rd + ci.num_pending) % MAX_PIPED
  num_sent_le : ci.num_sent ≤ ci.num_pending

/-- What the connection of a slot has of the calls `pend`. -/
inductive Serves (ci : Conn_Info) (c : Conn) (pend : List Nat) : Prop where
  | waits : c.state = .connecting → ci.is_connected = false → ci.num_sent = 0 → c.sendq = [] →
      c.recvq = [] → c.sent = [] → c.answered = [] → Serves ci c pend
  | works : c.state = .connected → ci.is_connected = true → ci.num_sent = ci.num_pending →
      c.recvq ++ c.sendq = pend → c.sent = c.answered ++ pend → Serves ci c pend

def Slot (p : Param) (s : Sess) (i : Nat) : Prop :=
  ∃ pend, Ring p (s.conn_info i) pend ∧ ∀ k, (s.conn_info i).conn = some k →
    k < s.num_conns ∧ (s.conns k).ci = i ∧ Serves (s.conn_info i) (s.conns k) pend

/-- Every connection that is open is the one of its slot, but for `x`, which is being closed. -/
structure Good (p : Param) (x : Option Nat) (s : Sess) : Prop where
  slot : ∀ i < p.max_conns, Slot p s i
  opens : ∀ k, Open k s → some k ≠ x →
    (s.conns k).ci < p.max_conns ∧ (s.conn_info (s.conns k).ci).conn = some k
  closed : ∀ k, ¬ Open k s → (s.conns k).sendq = [] ∧ (s.conns k).recvq = []
  no_slot : ∀ i, p.max_conns ≤ i → (s.conn_info i).conn = none

variable {s : Sess} {i k call : Nat} {ci : Conn_Info} {c : Conn} {pend : List Nat} {x : Option Nat}

theorem Ring.push (call : Nat) (h : Ring p ci pend) (hlt : ci.num_pending < p.max_piped) :
    Ring p (enqueue call ci) (pend ++ [call]) := by
  have hnum := h.num_pending
  have hmax := p.max_piped_le
  refine ⟨?_, ?_, ?_, ?_, h.rd_lt, ?_, Nat.le_succ_of_le h.num_sent_le⟩
  · simp only [enqueue]
    rw [h.issued, List.append_assoc]
  · simp only [enqueue]
    rw [h.wr, hnum]
    exact h.holds.push (by omega)
  · simp [enqueue, hnum]
  · rw [List.length_append, List.length_singleton]
    omega
  · simp only [enqueue]
    rw [h.wr, Nat.mod_add_mod, Nat.add_assoc]

theorem Ring.pop (h : Ring p ci (call :: pend)) :
    Ring p (dequeue call ci) pend := by
  have hnum := h.num_pending
  have hle := h.le
  have hmax := p.max_piped_le
  rw [List.length_cons] at hnum hle
  refine ⟨?_, h.holds.pop h.rd_lt (by omega), ?_, by omega, Nat.mod_lt _ (by decide), ?_,
    Nat.sub_le_sub_right h.num_sent_le 1⟩
  · simp only [dequeue]
    rw [h.issued, List.append_assoc, List.singleton_append]
  · simp only [dequeue]
    omega
  · have hone : 1 + (ci.num_pending - 1) = ci.num_pending := by omega
    simp only [dequeue]
    rw [Nat.mod_add_mod, h.wr, Nat.add_assoc, hone]

/-- The connection is another matter than the ring. -/
theorem Ring.flags (h : Ring p ci pend) (o : Option Nat) (b b' : Bool) {n : Nat}
    (hn : n ≤ ci.num_pending) :
    Ring p { ci with conn := o, is_connected := b, is_successful := b', num_sent := n } pend :=
  { h with num_sent_le := hn }

/-- What the loop of `send_calls` has sent, when it is through. -/
theorem send_loop_eq (i k n rd : Nat) (s : Sess) :
    send_loop i k n rd s =
      let calls := readRing MAX_PIPED (s.conn_info i).call n rd
      set_info i { s.conn_info i with num_sent := (s.conn_info i).num_sent + n }
        (set_conn k { s.conns k with
          sendq := (s.conns k).sendq ++ calls
          sent := (s.conns k).sent ++ calls } s) := by
  induction n generalizing rd s with
  | zero => simp [send_loop, readRing, set_info, set_conn]
  | succ n ih =>
    rw [send_loop, ih]
    simp [core_send, set_info, set_conn, readRing, Nat.add_assoc, Nat.add_comm 1 n]

/-- `send_calls` sends the calls that are not sent yet. -/
theorem send_pending_eq (h : Ring p (s.conn_info i) pend) :
    send_pending i k s =
      set_info i { s.conn_info i with num_sent := (s.conn_info i).num_pending }
        (set_conn k { s.conns k with
          sendq := (s.conns k).sendq ++ pend.drop (s.conn_info i).num_sent
          sent := (s.conns k).sent ++ pend.drop (s.conn_info i).num_sent } s) := by
  have hle := h.num_sent_le
  have hnum := h.num_pending
  have hread := h.holds.read (k := (s.conn_info i).num_sent) (by omega)
  rw [send_pending, send_loop_eq]
  dsimp only
  rw [hnum, hread, Nat.add_sub_cancel' (by omega)]

theorem conn_connected_eq (h : Ring p (s.conn_info i) pend) (hk : (s.conns k).ci = i) :
    conn_connected k s =
      set_info i { s.conn_info i with
        is_connected := true
        num_sent := (s.conn_info i).num_pending }
        (set_conn k { s.conns k with
          sendq := (s.conns k).sendq ++ pend.drop (s.conn_info i).num_sent
          sent := (s.conns k).sent ++ pend.drop (s.conn_info i).num_sent } s) := by
  have hring : Ring p ((set_info i { s.conn_info i with is_connected := true } s).conn_info i)
      pend := by
    rw [set_info_self]
    exact { h with }
  rw [conn_connected, hk]
  dsimp only
  rw [send_pending_eq hring]
  simp

/-! ## One change to a slot -/

theorem Serves.state_ne (h : Serves ci c pend) : c.state ≠ .closing := by
  cases h with
  | waits hstate => simp [hstate]
  | works hstate => simp [hstate]

/-- A slot that nothing touches. -/
theorem Slot.of_eq {t : Sess} (h : Slot p s i) (hinfo : t.conn_info i = s.conn_info i)
    (hnum : s.num_conns ≤ t.num_conns)
    (hconns : ∀ k, (s.conn_info i).conn = some k → t.conns k = s.conns k) : Slot p t i := by
  obtain ⟨pend, hring, hserves⟩ := h
  refine ⟨pend, hinfo ▸ hring, fun k hk => ?_⟩
  rw [hinfo] at hk
  obtain ⟨hlt, hci, hs⟩ := hserves k hk
  rw [hconns k hk, hinfo]
  exact ⟨Nat.lt_of_lt_of_le hlt hnum, hci, hs⟩

/-- The slot and its connection change together. -/
theorem Good.set_same (h : Good p x s) (hi : i < p.max_conns)
    (hconn : (s.conn_info i).conn = some k) (hci : ci.conn = some k) (hc : c.ci = i)
    (hring : Ring p ci pend) (hserves : Serves ci c pend) :
    Good p x (set_info i ci (set_conn k c s)) := by
  obtain ⟨_, _, hold⟩ := h.slot i hi
  obtain ⟨hlt, hki, _⟩ := hold k hconn
  refine ⟨fun j hj => ?_, fun l hl hlx => ?_, fun l hl => ?_, fun j hj => ?_⟩
  · by_cases hji : j = i
    · subst hji
      refine ⟨pend, by rwa [set_info_self], fun l hl => ?_⟩
      rw [set_info_self, hci] at hl
      obtain rfl := Option.some.inj hl
      simpa using ⟨hlt, hc, hserves⟩
    · -- the connection belongs to one slot
      refine (h.slot j hj).of_eq (set_info_of_ne hji _ _) (Nat.le_refl _) fun l hl => ?_
      obtain ⟨_, _, hold⟩ := h.slot j hj
      refine set_conn_of_ne (fun hlk => hji ?_) _ _
      rw [← (hold l hl).2.1, hlk, hki]
  · by_cases hlk : l = k
    · subst hlk
      simp [hc, hi, hci]
    · have hl' : Open l s := by
        unfold Open at hl ⊢
        simpa [set_conn_of_ne hlk] using hl
      obtain ⟨hlt', hslot⟩ := h.opens l hl' hlx
      have hne : (s.conns l).ci ≠ i := by
        intro heq
        rw [heq, hconn] at hslot
        exact hlk (Option.some.inj hslot).symm
      simpa [set_conn_of_ne hlk, set_info_of_ne hne] using ⟨hlt', hslot⟩
  · by_cases hlk : l = k
    · subst hlk
      exact absurd ⟨hlt, by simpa using hserves.state_ne⟩ hl
    · have hl' : ¬ Open l s := by
        unfold Open at hl ⊢
        simpa [set_conn_of_ne hlk] using hl
      simpa [set_conn_of_ne hlk] using h.closed l hl'
  · rw [set_info_of_ne (by omega)]
    exact h.no_slot j hj

/-- A slot gets a new connection, and the one that it had is to be closed. -/
theorem Good.set_new (h : Good p none s) (hi : i < p.max_conns) (hci : ci.conn = some s.num_conns)
    (hc : c.ci = i) (hring : Ring p ci pend) (hserves : Serves ci c pend) :
    Good p (s.conn_info i).conn
      (set_info i ci (set_conn s.num_conns c { s with num_conns := s.num_conns + 1 })) := by
  refine ⟨fun j hj => ?_, fun l hl hlx => ?_, fun l hl => ?_, fun j hj => ?_⟩
  · by_cases hji : j = i
    · subst hji
      refine ⟨pend, by rwa [set_info_self], fun l hl => ?_⟩
      rw [set_info_self, hci] at hl
      obtain rfl := Option.some.inj hl
      simpa using ⟨hc, hserves⟩
    · refine (h.slot j hj).of_eq (set_info_of_ne hji _ _) (Nat.le_succ _) fun l hl => ?_
      obtain ⟨_, _, hold⟩ := h.slot j hj
      exact set_conn_of_ne (Nat.ne_of_lt (hold l hl).1) _ _
  · by_cases hlk : l = s.num_conns
    · subst hlk
      simp [hc, hi, hci]
    · have hl' : Open l s := by
        unfold Open at hl ⊢
        rw [set_info_conns, set_conn_of_ne hlk] at hl
        exact ⟨Nat.lt_of_le_of_ne (Nat.le_of_lt_succ hl.1) hlk, hl.2⟩
      obtain ⟨hlt', hslot⟩ := h.opens l hl' (by simp)
      have hne : (s.conns l).ci ≠ i := by
        intro heq
        rw [heq] at hslot
        exact hlx hslot.symm
      simpa [set_conn_of_ne hlk, set_info_of_ne hne] using ⟨hlt', hslot⟩
  · by_cases hlk : l = s.num_conns
    · subst hlk
      exact absurd ⟨Nat.lt_succ_self _, by simpa using hserves.state_ne⟩ hl
    · have hl' : ¬ Open l s := by
        intro hopen
        apply hl
        unfold Open at hopen ⊢
        rw [set_info_conns, set_conn_of_ne hlk]
        exact ⟨Nat.lt_succ_of_lt hopen.1, hopen.2⟩
      simpa [set_conn_of_ne hlk] using h.closed l hl'
  · rw [set_info_of_ne (by omega)]
    exact h.no_slot j hj

/-- A slot changes, and its connection does not. -/
theorem Good.set_info (h : Good p x s) (hi : i < p.max_conns)
    (hci : ci.conn = (s.conn_info i).conn) (hring : Ring p ci pend)
    (hserves : ∀ k, ci.conn = some k → Serves ci (s.conns k) pend) :
    Good p x (set_info i ci s) := by
  rcases hconn : (s.conn_info i).conn with _ | k
  · refine ⟨fun j hj => ?_, fun l hl hlx => ?_, h.closed, fun j hj => ?_⟩
    · by_cases hji : j = i
      · subst hji
        refine ⟨pend, by rwa [set_info_self], fun l hl => ?_⟩
        rw [set_info_self, hci, hconn] at hl
        cases hl
      · exact (h.slot j hj).of_eq (set_info_of_ne hji _ _) (Nat.le_refl _) fun _ _ => rfl
    · obtain ⟨hlt', hslot⟩ := h.opens l hl hlx
      have hne : (s.conns l).ci ≠ i := by
        intro heq
        rw [heq, hconn] at hslot
        cases hslot
      simpa [set_info_of_ne hne] using ⟨hlt', hslot⟩
    · rw [set_info_of_ne (by omega)]
      exact h.no_slot j hj
  · obtain ⟨_, _, hold⟩ := h.slot i hi
    have hsame := h.set_same hi hconn (hci.trans hconn) (hold k hconn).2.1 hring
      (hserves k (hci.trans hconn))
    have heq : set_conn k (s.conns k) s = s := by
      unfold set_conn
      rw [Function.update_eq_self]
    rwa [heq] at hsame

/-- A slot gives up its connection, which is to be closed. -/
theorem Good.unset (h : Good p none s) (hi : i < p.max_conns)
    (hconn : (s.conn_info i).conn = some k) :
    Good p (some k) (Session.set_info i { s.conn_info i with conn := none } s) := by
  refine ⟨fun j hj => ?_, fun l hl hlx => ?_, h.closed, fun j hj => ?_⟩
  · by_cases hji : j = i
    · subst hji
      obtain ⟨pend, hring, _⟩ := h.slot j hj
      refine ⟨pend, ?_, fun l hl => ?_⟩
      · rw [set_info_self]
        exact { hring with }
      · rw [set_info_self] at hl
        cases hl
    · exact (h.slot j hj).of_eq (set_info_of_ne hji _ _) (Nat.le_refl _) fun _ _ => rfl
  · obtain ⟨hlt', hslot⟩ := h.opens l hl (by simp)
    have hne : (s.conns l).ci ≠ i := by
      intro heq
      rw [heq, hconn] at hslot
      exact hlx hslot.symm
    simpa [set_info_of_ne hne] using ⟨hlt', hslot⟩
  · rw [set_info_of_ne (by omega)]
    exact h.no_slot j hj

theorem Good.close (h : Good p x s) (hx : x = none ∨ x = some k)
    (hfree : ∀ i, (s.conn_info i).conn ≠ some k) : Good p none (core_close k s) := by
  refine ⟨fun j hj => ?_, fun l hl _ => ?_, fun l hl => ?_, h.no_slot⟩
  · refine (h.slot j hj).of_eq rfl (Nat.le_refl _) fun l hl => ?_
    refine set_conn_of_ne ?_ _ _
    rintro rfl
    exact hfree j hl
  · have hlk : l ≠ k := by
      rintro rfl
      exact hl.2 (by simp [core_close])
    have hl' : Open l s := by
      unfold Open core_close at hl
      rwa [set_conn_of_ne hlk] at hl
    have hslot := h.opens l hl' (by
      rintro rfl
      obtain hx | hx := hx
      · cases hx
      · exact hlk (Option.some.inj hx))
    rw [core_close, set_conn_of_ne hlk]
    exact hslot
  · by_cases hlk : l = k
    · subst hlk
      simp [core_close]
    · have hl' : ¬ Open l s := by
        unfold Open core_close at hl
        rwa [set_conn_of_ne hlk] at hl
      rw [core_close, set_conn_of_ne hlk]
      exact h.closed l hl'

/-- A connection belongs to one slot. -/
theorem Good.conn_ne {j : Nat} (h : Good p x s) (hi : i < p.max_conns)
    (hconn : (s.conn_info i).conn = some k) (hji : j ≠ i) : (s.conn_info j).conn ≠ some k := by
  intro hj
  by_cases hlt : j < p.max_conns
  · obtain ⟨_, _, hserves⟩ := h.slot i hi
    obtain ⟨_, _, hserves'⟩ := h.slot j hlt
    exact hji ((hserves' k hj).2.1.symm.trans (hserves k hconn).2.1)
  · rw [h.no_slot j (by omega)] at hj
    cases hj

/-- The connection of a slot changes. -/
theorem Good.set_conn (h : Good p x s) (hi : i < p.max_conns)
    (hconn : (s.conn_info i).conn = some k) (hc : c.ci = i) (hring : Ring p (s.conn_info i) pend)
    (hserves : Serves (s.conn_info i) c pend) : Good p x (Session.set_conn k c s) := by
  have hsame := h.set_same hi hconn hconn hc hring hserves
  have heq : Session.set_info i (s.conn_info i) (Session.set_conn k c s) =
      Session.set_conn k c s := by
    simp [Session.set_info, Session.set_conn]
  rwa [heq] at hsame

theorem close_conn_good (h : Good p none s) (hi : i < p.max_conns) :
    Good p none (close_conn i s) := by
  unfold close_conn
  split
  · exact h
  · rename_i k hconn
    apply (h.unset hi hconn).close (Or.inr rfl)
    intro j
    by_cases hji : j = i
    · subst hji
      simp
    · rw [set_info_of_ne hji]
      exact h.conn_ne hi hconn hji

/-! ## What the functions do -/

/-- The session goes on in a state with `Q`, or it ends, and not by the assertion. -/
def Ends (Q : Sess → Prop) : Except Stop Sess → Prop
  | .ok s => Q s
  | .error e => e ≠ .assert_ring

theorem Ends.bind {Q R : Sess → Prop} {m : Except Stop Sess} {f : Sess → Except Stop Sess}
    (hm : Ends Q m) (hf : ∀ s, Q s → Ends R (f s)) : Ends R (m >>= f) := by
  cases m with
  | ok s => exact hf s hm
  | error e => exact hm

theorem Ends.imp {Q R : Sess → Prop} {m : Except Stop Sess} (hm : Ends Q m) (h : ∀ s, Q s → R s) :
    Ends R m := by
  cases m with
  | ok s => exact h s hm
  | error e => exact hm

/-- The slot has a new connection, on which no call is answered yet, and the same calls. -/
structure Created (s : Sess) (i : Nat) (t : Sess) : Prop where
  conn : (t.conn_info i).conn = some s.num_conns
  issued : (t.conn_info i).issued = (s.conn_info i).issued
  completed : (t.conn_info i).completed = (s.conn_info i).completed
  answered : (t.conns s.num_conns).answered = []
  others : ∀ j, j ≠ i → t.conn_info j = s.conn_info j

theorem create_conn_ends (h : Good p none s) (hi : i < p.max_conns) (o : Connect) :
    Ends (fun t => Good p (s.conn_info i).conn t ∧ Created s i t) (create_conn o i s) := by
  obtain ⟨pend, hring, _⟩ := h.slot i hi
  have hnew := hring.flags (some s.num_conns) false false (Nat.zero_le _)
  cases o with
  | connecting =>
    simp only [create_conn, core_connect, set_conn_set_info, set_info_conns, set_conn_self,
      set_conn_twice, Ends]
    refine ⟨h.set_new hi rfl rfl hnew (.waits rfl rfl rfl rfl rfl rfl rfl), ?_⟩
    exact ⟨by simp, by simp, by simp, by simp, fun j hj => set_info_of_ne hj _ _⟩
  | connected =>
    simp only [create_conn, core_connect, set_conn_set_info, set_info_conns, set_conn_self,
      set_conn_twice, Ends]
    rw [conn_connected_eq (i := i) (by rw [set_info_self]; exact hnew) (by simp)]
    simp only [set_info_self, set_info_conns, set_conn_self, set_conn_set_info, set_info_twice,
      set_conn_twice, List.drop_zero, List.nil_append]
    refine ⟨h.set_new hi rfl rfl (hring.flags (some s.num_conns) true false (Nat.le_refl _))
      (.works rfl rfl rfl rfl rfl), ?_⟩
    exact ⟨by simp, by simp, by simp, by simp, fun j hj => set_info_of_ne hj _ _⟩
  | fails => simp [create_conn, core_connect, Ends]

/-- The connection of a slot is ready for use, and the calls that are pending go out on it. -/
theorem connected_good (h : Good p none s) (hk : Open k s) (hc : (s.conns k).state = .connecting) :
    Good p none (conn_connected k (set_conn k { s.conns k with state := .connected } s)) := by
  obtain ⟨hi, hconn⟩ := h.opens k hk (by simp)
  obtain ⟨pend, hring, hserves⟩ := h.slot _ hi
  obtain ⟨_, _, hs⟩ := hserves k hconn
  cases hs with
  | works hstate =>
    rw [hstate] at hc
    cases hc
  | waits _ hnot hsent hsendq hrecvq hsent' hanswered =>
    have hring' : Ring p ((set_conn k { s.conns k with state := .connected } s).conn_info
        (s.conns k).ci) pend := hring
    rw [conn_connected_eq hring' (by simp)]
    simp only [set_conn_self, set_conn_info, set_conn_twice, hsent, hsendq, hsent', List.drop_zero,
      List.nil_append]
    exact h.set_same hi hconn hconn rfl { hring with num_sent_le := Nat.le_refl _ }
      (.works rfl rfl rfl (by simp [hrecvq]) (by simp [hanswered]))

theorem session_issue_call_ends (h : Good p none s) (call : Nat) (o : Connect) :
    Ends (Good p none) (session_issue_call p call o s) := by
  unfold session_issue_call
  split
  · simp [Ends]
  · rename_i i hfind
    have hroom := List.find?_some hfind
    have hi := List.mem_range.mp (List.mem_of_find?_eq_some hfind)
    simp only [decide_eq_true_eq] at hroom
    obtain ⟨pend, hring, hserves⟩ := h.slot i hi
    have hpush := hring.push call hroom
    unfold send_calls
    rw [set_info_self]
    dsimp only [enqueue_conn]
    rcases hconn : (s.conn_info i).conn with _ | k
    · -- there is no connection yet, or it was closed
      have hgood := h.set_info hi (enqueue_conn call _) hpush fun k hk => by
        rw [enqueue_conn, hconn] at hk
        cases hk
      refine (create_conn_ends hgood hi o).imp fun t ht => ?_
      have hx := ht.1
      rwa [set_info_self, enqueue_conn, hconn] at hx
    · obtain ⟨_, hci, hs⟩ := hserves k hconn
      cases hs with
      | waits hstate hnot hsent hsendq hrecvq hsent' hanswered =>
        dsimp only [Ends]
        rw [if_neg (by simp [enqueue, hnot])]
        refine h.set_info hi (enqueue_conn call _) hpush fun l hl => ?_
        obtain rfl := Option.some.inj (hconn.symm.trans hl)
        exact .waits hstate hnot hsent hsendq hrecvq hsent' hanswered
      | works hstate hready hsent hqueues hsent' =>
        have hpush' : Ring p ((set_info i (enqueue call (s.conn_info i)) s).conn_info i)
            (pend ++ [call]) := by
          rw [set_info_self]
          exact hpush
        have hdrop : (pend ++ [call]).drop (s.conn_info i).num_sent = [call] := by
          rw [hsent, hring.num_pending, List.drop_left]
        dsimp only [Ends]
        rw [if_pos (by simp [enqueue, hready]), send_pending_eq hpush']
        simp only [set_info_self, set_info_conns, set_conn_set_info, set_info_twice,
          enqueue_num_sent, hdrop]
        refine h.set_same hi hconn hconn hci
          (hpush.flags (s.conn_info i).conn _ _ (Nat.le_refl _)) (.works hstate hready rfl ?_ ?_)
        · dsimp only
          rw [← List.append_assoc, hqueues]
        · dsimp only
          rw [hsent', List.append_assoc]

theorem check_status_ends (h : Good p none s) (call status : Nat) (o : Connect) :
    Ends (Good p none) (check_status p call status o s) := by
  unfold check_status
  split
  · split
    · exact session_issue_call_ends h call o
    · simp [Ends]
  · exact h

/-- What a reply finds: it is for the call in front of the ring, which leaves the ring. -/
theorem replied_good {rest : List Nat} (h : Good p none s)
    (hrecvq : (s.conns k).recvq = call :: rest) :
    let i := (s.conns k).ci
    i < p.max_conns ∧ (s.conn_info i).conn = some k ∧
      (s.conn_info i).call (s.conn_info i).rd = some call ∧
      0 < (s.conn_info i).num_pending ∧ 0 < (s.conn_info i).num_sent ∧
      Good p none (set_info i (dequeue call (s.conn_info i)) (set_conn k { s.conns k with
        recvq := rest
        answered := (s.conns k).answered ++ [call] } s)) := by
  have hopen : Open k s := by
    by_contra hno
    rw [(h.closed k hno).2] at hrecvq
    cases hrecvq
  obtain ⟨hi, hconn⟩ := h.opens k hopen (by simp)
  obtain ⟨pend, hring, hserves⟩ := h.slot _ hi
  obtain ⟨_, _, hs⟩ := hserves k hconn
  cases hs with
  | waits _ _ _ _ hnil =>
    rw [hnil] at hrecvq
    cases hrecvq
  | works hstate hready hsent hqueues hsent' =>
    rw [hrecvq, List.cons_append] at hqueues
    subst hqueues
    have hnum := hring.num_pending
    rw [List.length_cons] at hnum
    refine ⟨hi, hconn, hring.holds.head hring.rd_lt, by omega, by omega, ?_⟩
    refine h.set_same hi hconn hconn rfl hring.pop (.works hstate hready ?_ rfl ?_)
    · simp [dequeue, hsent]
    · simp [hsent']

theorem react_ends (h : Good p none s) (x : Step) : Ends (Good p none) (react p s x) := by
  cases x with
  | issue call o => exact session_issue_call_ends h call o
  | connected k =>
    simp only [react]
    split
    · rename_i hk
      exact connected_good h hk.1 hk.2
    · exact h
  | sent k =>
    simp only [react]
    split
    · exact h
    · rename_i call rest hsendq
      have hopen : Open k s := by
        by_contra hno
        rw [(h.closed k hno).1] at hsendq
        cases hsendq
      obtain ⟨hi, hconn⟩ := h.opens k hopen (by simp)
      obtain ⟨pend, hring, hserves⟩ := h.slot _ hi
      obtain ⟨_, _, hs⟩ := hserves k hconn
      cases hs with
      | waits _ _ _ hnil =>
        rw [hnil] at hsendq
        cases hsendq
      | works hstate hready hsent hqueues hsent' =>
        refine h.set_conn hi hconn rfl hring (.works hstate hready hsent ?_ hsent')
        rw [List.append_assoc, List.singleton_append, ← hsendq]
        exact hqueues
  | reply k status o =>
    simp only [react]
    split
    · exact h
    · rename_i call rest hrecvq
      obtain ⟨hi, hconn, hhead, hpending, hsent, hgood⟩ := replied_good h hrecvq
      simp only [call_done, set_conn_self, set_conn_info]
      rw [if_pos ⟨hhead, hpending, hsent⟩]
      refine (check_status_ends hgood call status o).bind fun t ht => ?_
      show Good p none _
      split
      · exact close_conn_good ht hi
      · exact ht
  | failure k o =>
    simp only [react]
    split
    · rename_i hk
      obtain ⟨hi, hconn⟩ := h.opens k hk (by simp)
      unfold conn_failed
      dsimp only
      split
      · refine (create_conn_ends h hi o).bind fun t ht => ?_
        obtain ⟨hgood, hcreated⟩ := ht
        rw [hconn] at hgood
        apply hgood.close (Or.inr rfl)
        intro j
        by_cases hji : j = (s.conns k).ci
        · rw [hji, hcreated.conn]
          intro heq
          have := Option.some.inj heq
          have := hk.1
          omega
        · rw [hcreated.others j hji]
          exact h.conn_ne hi hconn hji
      · simp [Ends, bind, Except.bind]
    · exact h
  | timeout k =>
    simp only [react]
    split
    · simp [Ends]
    · exact h

theorem sess_new_good (p : Param) : Good p none sess_new := by
  refine ⟨fun i _ => ⟨[], ⟨rfl, holds_nil, rfl, Nat.zero_le _, Nat.succ_pos 31, rfl, Nat.le_refl _⟩,
    fun k hk => by cases hk⟩, fun k hk _ => absurd hk.1 (Nat.not_lt_zero k), fun _ _ => ⟨rfl, rfl⟩,
    fun _ _ => rfl⟩

theorem run_ends (p : Param) (steps : List Step) : Ends (Good p none) (run p steps) := by
  have hall : Runs.Always (step p) (Ends (Good p none)) (.ok sess_new) steps := by
    apply Runs.always_of_step
    · intro m x hm
      exact hm.bind fun s hs => react_ends hs x
    · exact sess_new_good p
  exact hall.last

/-! ## The calls that are pending -/

/-- The calls that were put into the ring of a slot and not taken out, in the order in which they
were issued. -/
def pending (ci : Conn_Info) : List Nat := ci.issued.drop ci.completed.length

/-- The ring of the slot holds the pending calls, and its connection was given each of them once,
in their order, behind the calls that are answered. -/
structure InOrder (p : Param) (s : Sess) (i : Nat) : Prop where
  num_sent_le : (s.conn_info i).num_sent ≤ (s.conn_info i).num_pending
  num_pending_le : (s.conn_info i).num_pending ≤ p.max_piped
  max_piped_le : p.max_piped ≤ MAX_PIPED
  wr : (s.conn_info i).wr = ((s.conn_info i).rd + (s.conn_info i).num_pending) % MAX_PIPED
  issued : (s.conn_info i).issued = (s.conn_info i).completed ++ pending (s.conn_info i)
  num_pending : (s.conn_info i).num_pending = (pending (s.conn_info i)).length
  ring : ∀ j < (s.conn_info i).num_pending,
    (s.conn_info i).call (((s.conn_info i).rd + j) % MAX_PIPED) = (pending (s.conn_info i))[j]?
  sent : ∀ k, (s.conn_info i).conn = some k → (s.conns k).sent =
    if (s.conns k).state = .connected then (s.conns k).answered ++ pending (s.conn_info i) else []
  queues : ∀ k, (s.conn_info i).conn = some k → (s.conns k).state = .connected →
    (s.conns k).recvq ++ (s.conns k).sendq = pending (s.conn_info i)

/-- The connection `k` fails, and another one takes its place: it is given the calls that are
pending, and no others, as soon as it is connected. -/
structure Survives (s : Sess) (k : Nat) (t : Sess) : Prop where
  closed : ¬ Open k t
  conn : (t.conn_info (s.conns k).ci).conn = some s.num_conns
  pending : pending (t.conn_info (s.conns k).ci) = pending (s.conn_info (s.conns k).ci)
  sent : (t.conns s.num_conns).sent =
    if (t.conns s.num_conns).state = .connected then Session.pending (s.conn_info (s.conns k).ci)
    else []

theorem Ring.pending_eq (h : Ring p ci pend) : pending ci = pend := by
  rw [pending, h.issued, List.drop_left]

theorem Good.inOrder (h : Good p none s) (hi : i < p.max_conns) : InOrder p s i := by
  obtain ⟨pend, hring, hserves⟩ := h.slot i hi
  have hpend := hring.pending_eq
  refine ⟨hring.num_sent_le, hring.num_pending ▸ hring.le, p.max_piped_le, hring.wr,
    hpend ▸ hring.issued, hpend ▸ hring.num_pending, fun j hj => ?_, fun k hk => ?_,
    fun k hk hstate => ?_⟩
  · rw [hpend]
    exact hring.holds j (hring.num_pending ▸ hj)
  · obtain ⟨_, _, hs⟩ := hserves k hk
    cases hs with
    | waits hstate _ _ _ _ hsent =>
      rw [if_neg (by simp [hstate])]
      exact hsent
    | works hstate _ _ _ hsent =>
      rw [if_pos hstate, hpend]
      exact hsent
  · obtain ⟨_, _, hs⟩ := hserves k hk
    cases hs with
    | waits hstate' =>
      rw [hstate'] at hstate
      cases hstate
    | works _ _ _ hqueues =>
      rw [hpend]
      exact hqueues

theorem failure_survives (h : Good p none s) (hk : Open k s) (o : Connect) :
    Ends (Survives s k) (react p s (.failure k o)) := by
  obtain ⟨hi, hconn⟩ := h.opens k hk (by simp)
  simp only [react]
  rw [if_pos hk]
  unfold conn_failed
  dsimp only
  split
  · refine (create_conn_ends h hi o).bind fun t ht => ?_
    obtain ⟨hgood, hcreated⟩ := ht
    have hne : s.num_conns ≠ k := (Nat.ne_of_lt hk.1).symm
    have hpend : pending (t.conn_info (s.conns k).ci) = pending (s.conn_info (s.conns k).ci) := by
      rw [pending, hcreated.issued, hcreated.completed, pending]
    obtain ⟨pend, hring, hserves⟩ := hgood.slot _ hi
    obtain ⟨_, _, hs⟩ := hserves _ hcreated.conn
    refine ⟨?_, hcreated.conn, hpend, ?_⟩
    · rintro ⟨_, hstate⟩
      exact hstate (by simp [core_close])
    · rw [core_close, set_conn_of_ne hne, ← hpend, hring.pending_eq]
      cases hs with
      | waits hstate _ _ _ _ hsent =>
        rw [if_neg (by simp [hstate])]
        exact hsent
      | works hstate _ _ _ hsent =>
        rw [if_pos hstate, hsent, hcreated.answered, List.nil_append]
  · simp [Ends, bind, Except.bind]

/-- In every run the pending calls of each slot stay in order, the assertion of `call_done` holds,
and a connection that takes the place of a failed one is given all of them again. -/
theorem pending_calls_survive (p : Param) (steps : List Step) :
    Ends (fun s => (∀ i < p.max_conns, InOrder p s i) ∧
        ∀ k o, Open k s → Ends (Survives s k) (react p s (.failure k o)))
      (run p steps) := by
  refine (run_ends p steps).imp fun s hs => ⟨fun i hi => hs.inOrder hi, fun k o hk => ?_⟩
  exact failure_survives hs hk o

/-! ## The calls that nothing will complete -/

/-- When calls are pending, the connection of the slot is open, and it is still connecting or all of
them are sent. -/
def Attended (s : Sess) (i : Nat) : Prop :=
  0 < (s.conn_info i).num_pending → ∃ k, (s.conn_info i).conn = some k ∧ Open k s ∧
    ((s.conns k).state = .connecting ∨ (s.conn_info i).num_sent = (s.conn_info i).num_pending)

/-- A slot without a connection has no calls. -/
def NoneLeft (p : Param) (s : Sess) : Prop :=
  ∀ i < p.max_conns, (s.conn_info i).conn = none → (s.conn_info i).num_pending = 0

theorem Good.attended_iff (h : Good p none s) (hi : i < p.max_conns) :
    Attended s i ↔ ((s.conn_info i).conn = none → (s.conn_info i).num_pending = 0) := by
  obtain ⟨pend, hring, hserves⟩ := h.slot i hi
  constructor
  · intro hatt hnone
    by_contra hne
    obtain ⟨k, hk, _⟩ := hatt (Nat.pos_of_ne_zero hne)
    rw [hnone] at hk
    cases hk
  · intro hnone hpos
    rcases hconn : (s.conn_info i).conn with _ | k
    · have := hnone hconn
      omega
    · obtain ⟨hlt, _, hs⟩ := hserves k hconn
      refine ⟨k, rfl, ⟨hlt, hs.state_ne⟩, ?_⟩
      cases hs with
      | waits hstate => exact Or.inl hstate
      | works _ _ hsent => exact Or.inr hsent

theorem NoneLeft.of_eq {t : Sess} (h : NoneLeft p s)
    (hi : ∀ j, j ≠ i → t.conn_info j = s.conn_info j)
    (hconn : (t.conn_info i).conn = none → (t.conn_info i).num_pending = 0) : NoneLeft p t := by
  intro j hj
  by_cases hji : j = i
  · rw [hji]
    exact hconn
  · rw [hi j hji]
    exact h j hj

theorem session_issue_call_noneLeft (h : Good p none s) (hn : NoneLeft p s) (call : Nat)
    (o : Connect) : Ends (NoneLeft p) (session_issue_call p call o s) := by
  unfold session_issue_call
  split
  · simp [Ends]
  · rename_i i hfind
    have hroom := List.find?_some hfind
    have hi := List.mem_range.mp (List.mem_of_find?_eq_some hfind)
    simp only [decide_eq_true_eq] at hroom
    obtain ⟨pend, hring, _⟩ := h.slot i hi
    have hpush := hring.push call hroom
    unfold send_calls
    rw [set_info_self]
    dsimp only [enqueue_conn]
    rcases hconn : (s.conn_info i).conn with _ | k
    · have hgood := h.set_info hi (enqueue_conn call _) hpush fun k hk => by
        rw [enqueue_conn, hconn] at hk
        cases hk
      refine (create_conn_ends hgood hi o).imp fun t ht => ?_
      refine hn.of_eq (i := i) (fun j hj => ?_) fun hnone => ?_
      · rw [ht.2.others j hj, set_info_of_ne hj]
      · rw [ht.2.conn] at hnone
        cases hnone
    · have hpush' : Ring p ((set_info i (enqueue call (s.conn_info i)) s).conn_info i)
          (pend ++ [call]) := by
        rw [set_info_self]
        exact hpush
      dsimp only [Ends]
      split
      · rw [send_pending_eq hpush']
        refine hn.of_eq (i := i) (fun j hj => ?_) fun hnone => ?_
        · simp [set_info_of_ne hj]
        · simp [hconn] at hnone
      · refine hn.of_eq (i := i) (fun j hj => set_info_of_ne hj _ _) fun hnone => ?_
        rw [set_info_self, enqueue_conn, hconn] at hnone
        cases hnone

/-- The connection stays open behind a reply, or it has nothing left to do: one call at a time, and
none of them again. -/
def Finishes (p : Param) : Prop :=
  0x10001 ≤ p.http_version ∨ (p.max_piped = 1 ∧ ¬ (p.failure_status ≠ 0 ∧ p.retry_on_failure))

theorem reply_noneLeft (hp : Finishes p) (h : Good p none s) (hn : NoneLeft p s) (k status : Nat)
    (o : Connect) : Ends (NoneLeft p) (react p s (.reply k status o)) := by
  simp only [react]
  split
  · exact hn
  · rename_i call rest hrecvq
    obtain ⟨hi, hconn, hhead, hpending, hsent, hgood⟩ := replied_good h hrecvq
    simp only [call_done, set_conn_self, set_conn_info]
    rw [if_pos ⟨hhead, hpending, hsent⟩]
    have hdone : NoneLeft p (set_info (s.conns k).ci (dequeue call (s.conn_info (s.conns k).ci))
        (set_conn k { s.conns k with
          recvq := rest
          answered := (s.conns k).answered ++ [call] } s)) := by
      refine hn.of_eq (i := (s.conns k).ci) (fun j hj => set_info_of_ne hj _ _) fun hnone => ?_
      rw [set_info_self] at hnone
      simp only [dequeue, hconn] at hnone
      cases hnone
    obtain hnew | ⟨hone, hretry⟩ := hp
    · -- the connection stays open
      have hcheck : Ends (NoneLeft p) (check_status p call status o (set_info (s.conns k).ci
          (dequeue call (s.conn_info (s.conns k).ci)) (set_conn k { s.conns k with
            recvq := rest
            answered := (s.conns k).answered ++ [call] } s))) := by
        unfold check_status
        split
        · split
          · exact session_issue_call_noneLeft hgood hdone call o
          · simp [Ends]
        · exact hdone
      refine hcheck.bind fun t ht => ?_
      show NoneLeft p _
      rw [if_neg (by omega)]
      exact ht
    · -- the call was the only one, and it is not issued again
      unfold check_status
      split
      · rename_i hstatus
        rw [if_neg fun hr => hretry ⟨hstatus.1, hr⟩]
        simp [Ends, bind, Except.bind]
      · show NoneLeft p _
        split
        · obtain ⟨pend, hring, _⟩ := hgood.slot _ hi
          have hzero : (dequeue call (s.conn_info (s.conns k).ci)).num_pending = 0 := by
            obtain ⟨pend, hring, _⟩ := h.slot _ hi
            have := hring.num_pending
            have := hring.le
            simp only [dequeue]
            omega
          unfold close_conn
          rw [set_info_self]
          have hsome : (dequeue call (s.conn_info (s.conns k).ci)).conn = some k := hconn
          rw [hsome]
          refine hn.of_eq (i := (s.conns k).ci) (fun j hj => ?_) fun _ => ?_
          · rw [set_info_of_ne hj]
            exact set_info_of_ne hj _ _
          · rw [set_info_self]
            exact hzero
        · exact hdone

theorem react_noneLeft (hp : Finishes p) (h : Good p none s) (hn : NoneLeft p s) (x : Step) :
    Ends (NoneLeft p) (react p s x) := by
  cases x with
  | issue call o => exact session_issue_call_noneLeft h hn call o
  | connected k =>
    simp only [react]
    split
    · rename_i hk
      obtain ⟨hi, hconn⟩ := h.opens k hk.1 (by simp)
      obtain ⟨pend, hring, _⟩ := h.slot _ hi
      have hring' : Ring p ((set_conn k { s.conns k with state := .connected } s).conn_info
          (s.conns k).ci) pend := hring
      rw [conn_connected_eq hring' (by simp)]
      refine hn.of_eq (i := (s.conns k).ci) (fun j hj => ?_) fun hnone => ?_
      · rw [set_info_of_ne hj]
        rfl
      · rw [set_info_self] at hnone
        cases hconn.symm.trans hnone
    · exact hn
  | sent k =>
    simp only [react]
    split <;> exact hn
  | reply k status o => exact reply_noneLeft hp h hn k status o
  | failure k o =>
    simp only [react]
    split
    · rename_i hk
      obtain ⟨hi, hconn⟩ := h.opens k hk (by simp)
      unfold conn_failed
      dsimp only
      split
      · refine (create_conn_ends h hi o).bind fun t ht => ?_
        refine hn.of_eq (i := (s.conns k).ci) ht.2.others fun hnone => ?_
        cases ht.2.conn.symm.trans hnone
      · simp [Ends, bind, Except.bind]
    · exact hn
  | timeout k =>
    simp only [react]
    split
    · simp [Ends]
    · exact hn

theorem run_noneLeft (hp : Finishes p) (steps : List Step) :
    Ends (fun s => Good p none s ∧ NoneLeft p s) (run p steps) := by
  have hall : Runs.Always (step p) (Ends fun s => Good p none s ∧ NoneLeft p s)
      (.ok sess_new) steps := by
    apply Runs.always_of_step
    · intro m x hm
      refine hm.bind fun s hs => ?_
      have hgood := react_ends hs.1 x
      have hnone := react_noneLeft hp hs.1 hs.2 x
      cases hr : react p s x with
      | error e =>
        rw [hr] at hgood
        exact hgood
      | ok t =>
        rw [hr] at hgood hnone
        exact ⟨hgood, hnone⟩
    · exact ⟨sess_new_good p, fun _ _ _ => rfl⟩
  exact hall.last

theorem first_slot (call : Nat) (o : Connect) (h : (s.conn_info 0).num_pending < p.max_piped) :
    session_issue_call p call o s = send_calls o 0
      (set_info 0 (enqueue call (s.conn_info 0)) s) := by
  obtain ⟨n, hn⟩ := Nat.exists_eq_succ_of_ne_zero (Nat.pos_iff_ne_zero.mp p.max_conns_pos)
  rw [session_issue_call, hn, List.range_succ_eq_map, List.find?_cons]
  simp [h]

/-- Two calls go to the same connection, and the reply to the first one closes it. -/
theorem two_calls_strand (hold : p.http_version < 0x10001) (htwo : 1 < p.max_piped) :
    ∃ s, run p [.issue 0 .connecting, .issue 1 .connecting, .connected 0, .sent 0,
        .reply 0 (p.failure_status + 1) .connecting] = .ok s ∧ ¬ Attended s 0 := by
  simp only [run, Runs.run, step, bind, Except.bind, react]
  rw [first_slot 0 .connecting p.max_piped_pos]
  simp only [send_calls, create_conn, core_connect, set_info_self, enqueue, sess_new,
    set_conn_set_info, set_conn_twice, set_info_conns, set_conn_self, set_info_num_conns]
  rw [first_slot 1 .connecting (by simpa using htwo)]
  simp [send_calls, enqueue, Open, conn_connected, send_pending, send_loop_eq, readRing, set_info,
    set_conn, MAX_PIPED, call_done, check_status, hold, close_conn, Attended, dequeue, core_close,
    pure, Except.pure, bind, Except.bind]

/-- A call with the failure status is issued again on its own connection, which is closed behind
it. -/
theorem a_retry_strands (hold : p.http_version < 0x10001) (hstatus : p.failure_status ≠ 0)
    (hretry : p.retry_on_failure = true) :
    ∃ s, run p [.issue 0 .connecting, .connected 0, .sent 0,
        .reply 0 p.failure_status .connecting] = .ok s ∧ ¬ Attended s 0 := by
  simp only [run, Runs.run, step, bind, Except.bind, react]
  rw [first_slot 0 .connecting p.max_piped_pos]
  simp [send_calls, create_conn, core_connect, sess_new, enqueue, Open, conn_connected,
    send_pending, send_loop_eq, readRing, set_info, set_conn, MAX_PIPED, call_done, check_status,
    hstatus, hretry, dequeue, bind, Except.bind]
  rw [first_slot 0 .connecting (by simpa using p.max_piped_pos)]
  simp [send_calls, enqueue, send_pending, send_loop_eq, readRing, set_info, set_conn,
    MAX_PIPED, hold, close_conn, Attended, core_close, pure, Except.pure]

/-- In every state of every run the pending calls are attended to exactly when the connections stay
open behind a reply, or one call is pending on each at a time and none is issued again. -/
theorem pending_calls_are_attended_iff (p : Param) :
    (∀ steps s, run p steps = .ok s → ∀ i < p.max_conns, Attended s i) ↔
      0x10001 ≤ p.http_version ∨
        (p.max_piped = 1 ∧ ¬ (p.failure_status ≠ 0 ∧ p.retry_on_failure)) := by
  constructor
  · intro hall
    by_contra hno
    rw [not_or, not_and_or, not_not] at hno
    obtain ⟨hold, htwo | ⟨hstatus, hretry⟩⟩ := hno
    · have hpos := p.max_piped_pos
      obtain ⟨s, hrun, hs⟩ := two_calls_strand (p := p) (by omega) (by omega)
      exact hs (hall _ s hrun 0 p.max_conns_pos)
    · obtain ⟨s, hrun, hs⟩ := a_retry_strands (p := p) (by omega) hstatus hretry
      exact hs (hall _ s hrun 0 p.max_conns_pos)
  · intro hp steps s hrun i hi
    have hends := run_noneLeft hp steps
    rw [hrun] at hends
    exact (hends.1.attended_iff hi).mpr (hends.2 i hi)

/-- HTTP/1.0 with two calls on a connection. -/
theorem a_second_call_is_stranded :
    ∃ s, run ⟨⟨1, 2, by decide, by decide⟩, 0x10000, 0, false, by decide, by decide⟩
        [.issue 0 .connecting, .issue 1 .connecting, .connected 0, .sent 0,
          .reply 0 200 .connecting] =
      .ok s ∧ ¬ Attended s 0 := by
  refine ⟨_, rfl, ?_⟩
  intro hatt
  obtain ⟨k, hk, _⟩ := hatt (by decide)
  exact Option.some_ne_none k (hk.symm.trans rfl)

end Httperf.Session
