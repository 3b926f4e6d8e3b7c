-- Pipelined requests on one connection (`core_send`, `do_send` and `recv_done` of `core.c`). The
-- calls wait in two linked queues. Handlers add more of them at any time, also while an earlier
-- request is only partly written.
import Httperf.Lib.Queue
import Httperf.Lib.Runs
import Httperf.Resend

namespace Httperf.Pipeline

open Lib

/-! ## The connection -/

/-- Where the program is with the connection. -/
inductive Place where
  /-- in `core_loop` -/
  | loop
  /-- in `do_send`, before `writev` -/
  | writing (call : Nat)
  /-- in `do_send`, at `EV_CALL_SEND_STOP` -/
  | stopped (call : Nat)
  deriving DecidableEq, Repr

/-- One `EV_CALL_SEND_STOP`: the call with its request, and what the socket had accepted by then. -/
structure Stop where
  call : Nat
  iov : IovArray
  size : Nat
  accepted : List Byte
  deriving DecidableEq, Repr

/-- An open connection and the calls, each under its address. The last four fields are history:
the calls that were given to `core_send`, as it has left them, what the socket has accepted, the
`EV_CALL_SEND_STOP` events, and how many calls `recv_done` has taken. -/
structure State where
  call : Nat → Call
  sendq_next : Nat → Option Nat
  recvq_next : Nat → Option Nat
  sendq : Ends Nat
  recvq : Ends Nat
  writing : Bool
  reading : Bool
  place : Place
  issued : List (Nat × Request)
  accepted : List Byte
  stops : List Stop
  received : Nat

/-- The connection when it has just been made. -/
def State.connected (call : Nat → Call) (sendq_next recvq_next : Nat → Option Nat) : State where
  call
  sendq_next
  recvq_next
  sendq := ⟨none, none⟩
  recvq := ⟨none, none⟩
  writing := false
  reading := false
  place := .loop
  issued := []
  accepted := []
  stops := []
  received := 0

/-- The call is not on its way: it was never sent here, or its reply has been received. -/
def State.Fresh (s : State) (a : Nat) : Prop := a ∉ (s.issued.drop s.received).map Prod.fst

instance (s : State) (a : Nat) : Decidable (s.Fresh a) := inferInstanceAs (Decidable (_ ∉ _))

/-- The call `a`, which the handlers of `EV_CALL_ISSUE` have left as `c`. -/
def State.core_send (p : SendParam) (fqdname : List Byte) (s : State) (a : Nat) (c : Call) :
    State :=
  match Httperf.core_send p fqdname c with
  | none => s -- the program exits
  | some c =>
    { s with
      call := Function.update s.call a c
      sendq_next := s.sendq.link s.sendq_next a
      sendq := s.sendq.push a
      writing := s.sendq.head.isNone || s.writing
      issued := s.issued ++ [(a, c.req)] }

/-- The start of `do_send`. -/
def State.do_send (s : State) : State :=
  match s.place, s.sendq.head with
  | .loop, some a => { s with place := .writing a }
  | _, _ => s

/-- What `do_send` makes of the result of `writev`, up to `EV_CALL_SEND_STOP`. -/
def State.wrote (s : State) (past : Iovec) (a : Nat) : Written → State
  | .eagain => { s with place := .loop }
  | .sent nsent =>
    let r := Httperf.do_send past (s.call a).req (.sent nsent)
    let accepted := s.accepted ++ (offered (s.call a).req).take nsent
    let call := Function.update s.call a { s.call a with req := r }
    if r.iov_index < IE_LEN then
      -- there are more header bytes to write
      { s with call, accepted, writing := true, place := .loop }
    else
      let sendq := s.sendq.pop s.sendq_next a
      { s with
        call, accepted, sendq
        writing := s.writing && sendq.head.isSome
        place := .stopped a
        stops := s.stops ++ [⟨a, r.iov, r.size, accepted⟩] }

/-- `writev` takes no more than it is given. -/
def State.writev (s : State) (past : Iovec) (w : Written) : State :=
  match s.place with
  | .writing a => if w.count ≤ (offered (s.call a).req).length then s.wrote past a w else s
  | _ => s

/-- `do_send` behind `EV_CALL_SEND_STOP`, up to the next `writev`. -/
def State.resume (s : State) : State :=
  match s.place with
  | .stopped a =>
    { s with
      recvq_next := s.recvq.link s.recvq_next a
      recvq := s.recvq.push a
      reading := true
      place := match s.sendq.head with
        | none => .loop
        | some b => .writing b }
  | _ => s

def State.recv_done (s : State) : State :=
  match s.place, s.recvq.head with
  | .loop, some a =>
    let recvq := s.recvq.pop s.recvq_next a
    { s with
      recvq
      reading := s.reading && recvq.head.isSome
      received := s.received + 1 }
  | _, _ => s

inductive Action where
  | core_send (a : Nat) (c : Call)
  | do_send
  | writev (past : Iovec) (w : Written)
  | resume
  | recv_done

/-- `core_send` comes at any place, from the handlers of all events. -/
def step (p : SendParam) (fqdname : List Byte) (s : State) : Action → State
  | .core_send a c => if s.Fresh a then s.core_send p fqdname a c else s
  | .do_send => s.do_send
  | .writev past w => s.writev past w
  | .resume => s.resume
  | .recv_done => s.recv_done

/-! ## Whole and in order -/

/-- The full requests of a row of calls. -/
def fulls (l : List (Nat × Request)) : List Byte := (l.map fun e => e.2.full).flatten

/-- The calls behind `EV_CALL_SEND_STOP` that `do_send` has put into `recvq`. -/
def State.appended (s : State) : List Stop :=
  match s.place with
  | .stopped _ => s.stops.dropLast
  | _ => s.stops

structure InOrder (s : State) : Prop where
  accepted : s.accepted <+: fulls s.issued
  /-- Stop by stop: the call, its array, its size and its last byte. -/
  stops : ∀ (i : Nat) (stop : Stop), s.stops[i]? = some stop → ∃ a r, s.issued[i]? = some (a, r) ∧
    stop = ⟨a, r.iov, r.size + r.full.length, fulls (s.issued.take (i + 1))⟩
  /-- No stop comes before the last byte, and none stays out behind it. -/
  stopped : ∀ i < s.issued.length,
    i < s.stops.length ↔ (fulls (s.issued.take (i + 1))).length ≤ s.accepted.length
  sendq : IsQueue s.sendq_next s.sendq ((s.issued.drop s.stops.length).map Prod.fst)
  recvq : IsQueue s.recvq_next s.recvq ((s.appended.drop s.received).map Stop.call)

/-! ## The request under way -/

/-- `do_send` leaves the inner loop early only inside an element. -/
theorem send_fragments_inside (past : Iovec) (r : Request) (nsent : Nat)
    (h : (send_fragments past r nsent).iov_index < IE_LEN) :
    0 < ((send_fragments past r nsent).iov[(send_fragments past r nsent).iov_index]).iov_len := by
  induction r, nsent using send_fragments.induct past with
  | case1 r nsent hk hlt =>
    have heq : send_fragments past r nsent =
        { r with iov := r.iov.set r.iov_index (r.iov[r.iov_index].advance nsent) } := by
      rw [send_fragments]
      simp only [hk, hlt, dite_true, if_true]
    simp only [heq, Vector.getElem_set_self, advance_iov_len]
    exact Nat.sub_pos_of_lt hlt
  | case2 r nsent hk hlt ih =>
    rw [send_fragments] at h
    simp only [hk, hlt, dite_true, if_false] at h
    have heq := send_fragments.eq_def past r nsent
    simp only [hk, hlt, dite_true, if_false] at heq
    simp only [heq]
    exact ih h
  | case3 r nsent hk =>
    rw [send_fragments] at h
    simp only [hk, dite_false] at h

/-- The call stands as `cur` when `t` bytes of the request `r` are sent. -/
structure Sent (r cur : Request) (t : Nat) : Prop where
  sending : ∃ k j, Sending r.iov.toList cur k j ∧ start r.iov.toList k + j = t
  size : cur.size = r.size + t

theorem Sent.offered_eq {r cur : Request} {t : Nat} (h : Sent r cur t) :
    offered cur = r.full.drop t := by
  obtain ⟨k, j, hs, rfl⟩ := h.sending
  exact hs.offered_eq

/-- One `writev`: the call is where the bytes are, and `do_send` is done with it exactly when they
all are. -/
theorem Sent.do_send {r cur : Request} {t nsent : Nat} (past : Iovec) (h : Sent r cur t)
    (hn : nsent ≤ (offered cur).length) :
    Sent r (do_send past cur (.sent nsent)) (t + nsent) ∧
    ((do_send past cur (.sent nsent)).iov_index < IE_LEN → t + nsent < r.full.length) ∧
    (¬ (do_send past cur (.sent nsent)).iov_index < IE_LEN →
      t + nsent = r.full.length ∧ (do_send past cur (.sent nsent)).iov = r.iov) := by
  obtain ⟨k, j, hs, hpos⟩ := h.sending
  have hlen := iov_length r.iov
  obtain ⟨k', j', hs', hpos'⟩ := sending_do_send past (.sent nsent) hlen hs hn
  simp only [Written.count] at hpos'
  refine ⟨⟨⟨k', j', hs', by omega⟩, ?_⟩, ?_, ?_⟩
  · have hsize := send_fragments_size past { cur with size := cur.size + nsent } nsent
    have hcur := h.size
    simp only [Httperf.do_send, hsize]
    omega
  · intro hin
    have hlt : k' < r.iov.toList.length := by
      rw [hlen, ← hs'.index]
      exact hin
    -- something is left of the element
    have hrest : 0 < ((Httperf.do_send past cur (.sent nsent)).iov[
        (Httperf.do_send past cur (.sent nsent)).iov_index]).iov_len :=
      send_fragments_inside past _ nsent hin
    rw [hs'.current hlt hin, advance_iov_len] at hrest
    have hnext := start_succ (List.getElem?_eq_getElem hlt)
    have hall : start r.iov.toList (k' + 1) ≤ r.full.length := start_le _ _
    omega
  · intro hout
    have hk : k' = r.iov.toList.length := by
      have hbound := hs'.bound
      have hindex := hs'.index
      omega
    have hj : j' = 0 := by
      rcases hs'.inside with hj | ⟨v, hv, _⟩
      · exact hj
      · rw [List.getElem?_eq_none (by omega)] at hv
        cases hv
    have hall : start r.iov.toList k' = r.full.length := by
      unfold start
      rw [List.take_of_length_le (by omega)]
      rfl
    refine ⟨by omega, ?_⟩
    have harray := hs'.array
    rw [List.set_eq_of_length_le (by omega)] at harray
    exact Vector.toList_inj.mp harray

/-- What `core_send` leaves: the whole request is still to be sent, and there is something of it. -/
structure Issued (r : Request) : Prop where
  sent : Sent r r 0
  nonempty : 0 < r.full.length

theorem protl_nonempty {p : SendParam} {version : Nat} {line : List Byte}
    (h : protl p version = some line) : 0 < line.length := by
  unfold protl at h
  split at h
  · obtain rfl := Option.some.inj h
    split <;> simp [http10req, http10req_nohost, bytes]
  · split at h
    · obtain rfl := Option.some.inj h
      split <;> simp [http11req, http11req_nohost, bytes]
    · cases h

theorem issued_core_send {p : SendParam} {fqdname : List Byte} {c c' : Call}
    (h : core_send p fqdname c = some c') : Issued c'.req := by
  refine ⟨⟨⟨0, 0, sending_core_send h, rfl⟩, rfl⟩, ?_⟩
  obtain ⟨line, hline, hget⟩ := (filled_core_send h).1.protl
  have hpos := protl_nonempty hline
  have hnext := start_succ hget
  have hlen : Iovec.iov_len (some line) = line.length := rfl
  have hall : start c'.req.iov.toList (IE_PROTL + 1) ≤ c'.req.full.length := start_le _ _
  omega

/-! ## The queues -/

theorem fulls_append (l m : List (Nat × Request)) : fulls (l ++ m) = fulls l ++ fulls m := by
  simp [fulls]

theorem fulls_cons (e : Nat × Request) (l : List (Nat × Request)) :
    fulls (e :: l) = e.2.full ++ fulls l := rfl

/-- The stops of a row of calls whose requests go out one behind the other, after `sent`. -/
def stopsOf : List Byte → List (Nat × Request) → List Stop
  | _, [] => []
  | sent, (a, r) :: l =>
    ⟨a, r.iov, r.size + r.full.length, sent ++ r.full⟩ :: stopsOf (sent ++ r.full) l

theorem stopsOf_append (sent : List Byte) (l m : List (Nat × Request)) :
    stopsOf sent (l ++ m) = stopsOf sent l ++ stopsOf (sent ++ fulls l) m := by
  induction l generalizing sent with
  | nil => simp [stopsOf, fulls]
  | cons e l ih => simp [stopsOf, ih, fulls_cons]

theorem stopsOf_length (sent : List Byte) (l : List (Nat × Request)) :
    (stopsOf sent l).length = l.length := by
  induction l generalizing sent with
  | nil => rfl
  | cons e l ih => simp [stopsOf, ih]

theorem stopsOf_call (sent : List Byte) (l : List (Nat × Request)) :
    (stopsOf sent l).map Stop.call = l.map Prod.fst := by
  induction l generalizing sent with
  | nil => rfl
  | cons e l ih => simp [stopsOf, ih]

theorem stopsOf_getElem? {sent : List Byte} {l : List (Nat × Request)} {i : Nat} {stop : Stop}
    (h : (stopsOf sent l)[i]? = some stop) : ∃ a r, l[i]? = some (a, r) ∧
      stop = ⟨a, r.iov, r.size + r.full.length, sent ++ fulls (l.take (i + 1))⟩ := by
  induction l generalizing sent i with
  | nil => cases h
  | cons e l ih =>
    cases i with
    | zero =>
      refine ⟨e.1, e.2, rfl, ?_⟩
      simpa [stopsOf, fulls] using h.symm
    | succ i =>
      obtain ⟨a, r, hget, hstop⟩ := ih h
      refine ⟨a, r, hget, ?_⟩
      rw [hstop, List.take_succ_cons, fulls_cons, List.append_assoc]

/-- What the socket has accepted, when it had accepted `sent` before the first call of the queue.
Only that call can be partly written. -/
def Underway (s : State) (sent : List Byte) : List (Nat × Request) → Prop
  | [] => s.accepted = sent
  | (a, r) :: l =>
    (∃ t, Sent r (s.call a).req t ∧ t < r.full.length ∧ s.accepted = sent ++ r.full.take t) ∧
      ∀ e ∈ l, (s.call e.1).req = e.2

/-- Which calls `do_send` is about, when `pend` are between the queues and `queue` in `sendq`. -/
def AtPlace (pend queue : List (Nat × Request)) : Place → Prop
  | .loop => pend = []
  | .writing a => pend = [] ∧ (queue.map Prod.fst).head? = some a
  | .stopped a => ∃ r, pend = [(a, r)]

/-- The calls that were issued: first those that `recv_done` has taken, then those in `recvq`, the
one that `do_send` carries over, and those in `sendq`. -/
structure Inv (s : State) (got wait pend queue : List (Nat × Request)) : Prop where
  issued : s.issued = got ++ wait ++ pend ++ queue
  received : s.received = got.length
  stops : s.stops = stopsOf [] (got ++ wait ++ pend)
  sendq : IsQueue s.sendq_next s.sendq (queue.map Prod.fst)
  recvq : IsQueue s.recvq_next s.recvq (wait.map Prod.fst)
  nodup : ((wait ++ pend ++ queue).map Prod.fst).Nodup
  place : AtPlace pend queue s.place
  underway : Underway s (fulls (got ++ wait ++ pend)) queue
  whole : ∀ e ∈ queue, Issued e.2
  writing : s.writing = s.sendq.head.isSome
  reading : s.reading = s.recvq.head.isSome

def Holds (s : State) : Prop := ∃ got wait pend queue, Inv s got wait pend queue

variable {s : State} {got wait pend queue : List (Nat × Request)}

theorem holds_connected (call : Nat → Call) (sendq_next recvq_next : Nat → Option Nat) :
    Holds (.connected call sendq_next recvq_next) :=
  ⟨[], [], [], [], rfl, rfl, rfl, isQueue_empty _, isQueue_empty _, List.nodup_nil, rfl, rfl,
    fun _ he => absurd he List.not_mem_nil, rfl, rfl⟩

/-- The calls that are not fresh. -/
theorem Inv.drop (h : Inv s got wait pend queue) :
    s.issued.drop s.received = wait ++ pend ++ queue := by
  rw [h.issued, h.received, List.append_assoc, List.append_assoc, List.drop_left,
    List.append_assoc]

theorem Underway.core_send {sent : List Byte} {a : Nat} {c : Call} {next : Nat → Option Nat}
    {q : Ends Nat} {w : Bool} {issued : List (Nat × Request)} (h : Underway s sent queue)
    (ha : a ∉ queue.map Prod.fst) (hc : Issued c.req) :
    Underway { s with
      call := Function.update s.call a c
      sendq_next := next
      sendq := q
      writing := w
      issued } sent (queue ++ [(a, c.req)]) := by
  have hself : Function.update s.call a c a = c := Function.update_self a c s.call
  cases queue with
  | nil =>
    refine ⟨⟨0, ?_, hc.nonempty, ?_⟩, fun e he => absurd he List.not_mem_nil⟩
    · dsimp only
      rw [hself]
      exact hc.sent
    · have hacc : s.accepted = sent := h
      simp [hacc]
  | cons e queue =>
    obtain ⟨⟨t, hsent, ht, hacc⟩, hrest⟩ := h
    have hne : ∀ e' ∈ e :: queue, Function.update s.call a c e'.1 = s.call e'.1 := by
      intro e' he'
      exact Function.update_of_ne (ne_of_mem_of_not_mem (List.mem_map_of_mem he') ha) _ _
    refine ⟨⟨t, ?_, ht, hacc⟩, ?_⟩
    · dsimp only
      rw [hne e List.mem_cons_self]
      exact hsent
    · intro e' he'
      dsimp only
      rcases List.mem_append.mp he' with hin | hin
      · rw [hne e' (List.mem_cons_of_mem e hin)]
        exact hrest e' hin
      · obtain rfl := List.mem_singleton.mp hin
        rw [hself]

theorem AtPlace.append {place : Place} (h : AtPlace pend queue place) (e : Nat × Request) :
    AtPlace pend (queue ++ [e]) place := by
  cases place with
  | loop => exact h
  | writing a =>
    refine ⟨h.1, ?_⟩
    rw [List.map_append, List.head?_append, h.2, Option.some_or]
  | stopped a => exact h

theorem holds_core_send {p : SendParam} {fqdname : List Byte} (a : Nat) (c : Call) (h : Holds s)
    (hfresh : s.Fresh a) : Holds (s.core_send p fqdname a c) := by
  obtain ⟨got, wait, pend, queue, h⟩ := h
  unfold State.core_send
  cases hc : core_send p fqdname c with
  | none => exact ⟨got, wait, pend, queue, h⟩
  | some c' =>
    have hnot : a ∉ (wait ++ pend ++ queue).map Prod.fst := h.drop ▸ hfresh
    have hq : a ∉ queue.map Prod.fst := by
      intro hin
      exact hnot (by rw [List.map_append]; exact List.mem_append_right _ hin)
    have hissued := issued_core_send hc
    refine ⟨got, wait, pend, queue ++ [(a, c'.req)], ?_, h.received, h.stops, ?_, h.recvq, ?_,
      h.place.append _, h.underway.core_send hq hissued, ?_, ?_, h.reading⟩
    · dsimp only
      rw [h.issued, List.append_assoc _ queue]
    · rw [List.map_append]
      exact h.sendq.push hq
    · rw [← List.append_assoc, List.map_append, List.map_singleton, ← List.concat_eq_append]
      exact List.Nodup.concat hnot h.nodup
    · intro e he
      rcases List.mem_append.mp he with hin | hin
      · exact h.whole e hin
      · obtain rfl := List.mem_singleton.mp hin
        exact hissued
    · dsimp only
      rw [Ends.push_head_isSome, h.writing]
      cases s.sendq.head <;> rfl

theorem holds_do_send (h : Holds s) : Holds s.do_send := by
  obtain ⟨got, wait, pend, queue, h⟩ := h
  unfold State.do_send
  split
  · rename_i a hloop hhead
    have hplace := h.place
    rw [hloop] at hplace
    have hpend : pend = [] := hplace
    refine ⟨got, wait, pend, queue, h.issued, h.received, h.stops, h.sendq, h.recvq, h.nodup,
      ⟨hpend, ?_⟩, h.underway, h.whole, h.writing, h.reading⟩
    rw [← h.sendq.head, hhead]
  · exact ⟨got, wait, pend, queue, h⟩

/-- A request that is partly written stays at the head of `sendq`. -/
theorem Inv.wrote_part {a : Nat} {past : Iovec} {nsent : Nat} (h : Inv s got wait pend queue)
    (hplace : s.place = .writing a) (hn : nsent ≤ (offered (s.call a).req).length)
    (hin : (Httperf.do_send past (s.call a).req (.sent nsent)).iov_index < IE_LEN) :
    Inv (s.wrote past a (.sent nsent)) got wait pend queue := by
  have hat := h.place
  rw [hplace] at hat
  obtain ⟨hpend, hhead⟩ := hat
  cases queue with
  | nil => cases hhead
  | cons e queue =>
    obtain rfl := Option.some.inj hhead
    obtain ⟨⟨t, hsent, ht, hacc⟩, hrest⟩ := h.underway
    obtain ⟨hsent', hinside, _⟩ := hsent.do_send past hn
    have hnot : e.1 ∉ queue.map Prod.fst := by
      have hnodup := h.sendq.nodup
      rw [List.map_cons] at hnodup
      exact (List.nodup_cons.mp hnodup).1
    unfold State.wrote
    dsimp only
    rw [if_pos hin]
    refine ⟨h.issued, h.received, h.stops, h.sendq, h.recvq, h.nodup, hpend, ⟨⟨t + nsent, ?_,
      hinside hin, ?_⟩, ?_⟩, h.whole, ?_, h.reading⟩
    · dsimp only
      rw [Function.update_self]
      exact hsent'
    · dsimp only
      rw [hacc, hsent.offered_eq, List.append_assoc, List.take_add]
    · intro e' he'
      dsimp only
      rw [Function.update_of_ne (ne_of_mem_of_not_mem (List.mem_map_of_mem he') hnot)]
      exact hrest e' he'
    · dsimp only
      rw [h.sendq.head]
      rfl

/-- A request that is written whole leaves `sendq`. -/
theorem Inv.wrote_whole {e : Nat × Request} {past : Iovec} {nsent : Nat}
    (h : Inv s got wait pend (e :: queue)) (hplace : s.place = .writing e.1)
    (hn : nsent ≤ (offered (s.call e.1).req).length)
    (hout : ¬ (Httperf.do_send past (s.call e.1).req (.sent nsent)).iov_index < IE_LEN) :
    Inv (s.wrote past e.1 (.sent nsent)) got wait [e] queue := by
  have hat := h.place
  rw [hplace] at hat
  obtain ⟨rfl, _⟩ := hat
  obtain ⟨⟨t, hsent, ht, hacc⟩, hrest⟩ := h.underway
  obtain ⟨hsent', _, hdone⟩ := hsent.do_send past hn
  obtain ⟨hall, hiov⟩ := hdone hout
  have hnot : e.1 ∉ queue.map Prod.fst := by
    have hnodup := h.sendq.nodup
    rw [List.map_cons] at hnodup
    exact (List.nodup_cons.mp hnodup).1
  have hfull : s.accepted ++ (offered (s.call e.1).req).take nsent =
      fulls (got ++ wait ++ []) ++ e.2.full := by
    rw [hacc, hsent.offered_eq, List.append_assoc, ← List.take_add, hall, List.take_length]
  have hothers : ∀ e' ∈ queue, Function.update s.call e.1
      { s.call e.1 with req := Httperf.do_send past (s.call e.1).req (.sent nsent) } e'.1 =
        s.call e'.1 := by
    intro e' he'
    exact Function.update_of_ne (ne_of_mem_of_not_mem (List.mem_map_of_mem he') hnot) _ _
  have hfulls : fulls (got ++ wait ++ [e]) = fulls (got ++ wait ++ []) ++ e.2.full := by
    simp [fulls]
  unfold State.wrote
  dsimp only
  rw [if_neg hout]
  refine ⟨?_, h.received, ?_, h.sendq.pop, h.recvq, ?_, ⟨e.2, rfl⟩, ?_, ?_, ?_, h.reading⟩
  · rw [h.issued]
    simp
  · dsimp only
    rw [h.stops, stopsOf_append _ (got ++ wait) [e], hfull, hiov, hsent'.size, hall]
    simp [stopsOf]
  · simpa using h.nodup
  · rw [hfulls]
    cases queue with
    | nil => exact hfull
    | cons e' queue =>
      refine ⟨⟨0, ?_, (h.whole e' (by simp)).nonempty, ?_⟩, ?_⟩
      · dsimp only
        rw [hothers e' List.mem_cons_self, hrest e' List.mem_cons_self]
        exact (h.whole e' (by simp)).sent
      · dsimp only
        rw [hfull, List.take_zero, List.append_nil, List.append_nil]
      · intro e'' he''
        dsimp only
        rw [hothers e'' (List.mem_cons_of_mem e' he'')]
        exact hrest e'' (List.mem_cons_of_mem e' he'')
  · intro e' he'
    exact h.whole e' (List.mem_cons_of_mem e he')
  · dsimp only
    rw [h.writing, h.sendq.head]
    rfl

theorem holds_writev (past : Iovec) (w : Written) (h : Holds s) : Holds (s.writev past w) := by
  obtain ⟨got, wait, pend, queue, h⟩ := h
  unfold State.writev
  split
  · rename_i a hplace
    have hat := h.place
    rw [hplace] at hat
    split
    · rename_i hw
      cases w with
      | eagain =>
        exact ⟨got, wait, pend, queue, h.issued, h.received, h.stops, h.sendq, h.recvq, h.nodup,
          hat.1, h.underway, h.whole, h.writing, h.reading⟩
      | sent nsent =>
        by_cases hin : (do_send past (s.call a).req (.sent nsent)).iov_index < IE_LEN
        · exact ⟨got, wait, pend, queue, h.wrote_part hplace hw hin⟩
        · cases queue with
          | nil => cases hat.2
          | cons e queue =>
            obtain rfl := Option.some.inj hat.2
            exact ⟨got, wait, [e], queue, h.wrote_whole hplace hw hin⟩
    · exact ⟨got, wait, pend, queue, h⟩
  · exact ⟨got, wait, pend, queue, h⟩

theorem holds_resume (h : Holds s) : Holds s.resume := by
  obtain ⟨got, wait, pend, queue, h⟩ := h
  unfold State.resume
  split
  · rename_i a hplace
    have hat := h.place
    rw [hplace] at hat
    obtain ⟨r, rfl⟩ := hat
    have hnot : a ∉ wait.map Prod.fst := by
      have hnodup := h.nodup
      rw [List.append_assoc, List.map_append, List.nodup_append] at hnodup
      intro hin
      exact hnodup.2.2 a hin a List.mem_cons_self rfl
    refine ⟨got, wait ++ [(a, r)], [], queue, ?_, h.received, ?_, h.sendq, ?_, ?_, ?_, ?_, h.whole,
      h.writing, ?_⟩
    · simpa using h.issued
    · simpa using h.stops
    · rw [List.map_append]
      exact h.recvq.push hnot
    · simpa using h.nodup
    · dsimp only
      rw [h.sendq.head]
      cases queue with
      | nil => rfl
      | cons e queue => exact ⟨rfl, rfl⟩
    · have hunderway := h.underway
      rw [← List.append_assoc, List.append_nil]
      cases queue <;> exact hunderway
    · exact (Ends.push_head_isSome _ _).symm
  · exact ⟨got, wait, pend, queue, h⟩

theorem holds_recv_done (h : Holds s) : Holds s.recv_done := by
  obtain ⟨got, wait, pend, queue, h⟩ := h
  unfold State.recv_done
  split
  · rename_i a hplace hhead
    rw [h.recvq.head] at hhead
    cases wait with
    | nil => cases hhead
    | cons e wait =>
      obtain rfl := Option.some.inj hhead
      refine ⟨got ++ [e], wait, pend, queue, ?_, ?_, ?_, h.sendq, h.recvq.pop, ?_, h.place, ?_,
        h.whole, h.writing, ?_⟩
      · simpa using h.issued
      · simpa using h.received
      · simpa using h.stops
      · exact (List.nodup_cons.mp h.nodup).2
      · have hunderway := h.underway
        rw [List.append_assoc got [e], List.singleton_append]
        cases queue <;> exact hunderway
      · dsimp only
        rw [h.reading, h.recvq.head]
        rfl
  · exact ⟨got, wait, pend, queue, h⟩

theorem holds_step {p : SendParam} {fqdname : List Byte} (s : State) (a : Action) (h : Holds s) :
    Holds (step p fqdname s a) := by
  cases a with
  | core_send a c =>
    unfold step
    dsimp only
    split
    · exact holds_core_send a c h (by assumption)
    · exact h
  | do_send => exact holds_do_send h
  | writev past w => exact holds_writev past w h
  | resume => exact holds_resume h
  | recv_done => exact holds_recv_done h

/-! ## Every run -/

/-- The bytes of the requests that have gone out, and of the one under way. -/
theorem Inv.accepted (h : Inv s got wait pend queue) :
    ∃ sent, s.accepted = fulls (got ++ wait ++ pend) ++ sent ∧ sent <+: fulls queue ∧
      ∀ e l, queue = e :: l → sent.length < e.2.full.length := by
  have hunderway := h.underway
  cases queue with
  | nil =>
    refine ⟨[], ?_, List.prefix_rfl, fun e l h => (by cases h)⟩
    rw [List.append_nil]
    exact hunderway
  | cons e queue =>
    obtain ⟨⟨t, _, ht, hacc⟩, _⟩ := hunderway
    refine ⟨e.2.full.take t, hacc, ?_, ?_⟩
    · rw [fulls_cons]
      exact (List.take_prefix t _).trans (List.prefix_append _ _)
    · rintro e' l heq
      obtain ⟨rfl, rfl⟩ := List.cons.inj heq
      rw [List.length_take]
      omega

theorem fulls_take_le (l : List (Nat × Request)) (n : Nat) :
    (fulls (l.take n)).length ≤ (fulls l).length := by
  have hsplit := fulls_append (l.take n) (l.drop n)
  rw [List.take_append_drop] at hsplit
  rw [hsplit, List.length_append]
  omega

theorem Inv.appended (h : Inv s got wait pend queue) :
    (s.appended.drop s.received).map Stop.call = wait.map Prod.fst := by
  have hat := h.place
  have happ : s.appended = stopsOf [] (got ++ wait) := by
    unfold State.appended
    rw [h.stops]
    split
    · rename_i a hplace
      rw [hplace] at hat
      obtain ⟨r, rfl⟩ := hat
      rw [stopsOf_append]
      exact List.dropLast_concat
    · rename_i hplace
      have hpend : pend = [] := by
        cases hp : s.place with
        | loop => rwa [hp] at hat
        | writing a =>
          rw [hp] at hat
          exact hat.1
        | stopped a => exact absurd hp (hplace a)
      rw [hpend, List.append_nil]
  rw [happ, h.received, stopsOf_append, List.drop_left' (stopsOf_length _ _), stopsOf_call]

theorem Holds.inOrder (h : Holds s) : InOrder s := by
  obtain ⟨got, wait, pend, queue, h⟩ := h
  obtain ⟨sent, hacc, hprefix, hpart⟩ := h.accepted
  have hlen : s.stops.length = (got ++ wait ++ pend).length := by
    rw [h.stops, stopsOf_length]
  refine ⟨?_, ?_, ?_, ?_, ?_⟩
  · rw [hacc, h.issued, fulls_append _ queue]
    exact (List.prefix_append_right_inj _).mpr hprefix
  · intro i stop hstop
    rw [h.stops] at hstop
    obtain ⟨a, r, hget, heq⟩ := stopsOf_getElem? hstop
    have hi : i < (got ++ wait ++ pend).length := (List.getElem?_eq_some_iff.mp hget).1
    refine ⟨a, r, ?_, ?_⟩
    · rw [h.issued, List.getElem?_append_left hi]
      exact hget
    · rw [heq, h.issued, List.take_append_of_le_length hi]
      rfl
  · intro i hi
    rw [hlen, hacc, h.issued]
    constructor
    · intro hdone
      have hle := fulls_take_le (got ++ wait ++ pend) (i + 1)
      rw [List.take_append_of_le_length (Nat.succ_le_of_lt hdone), List.length_append]
      exact Nat.le_add_right_of_le hle
    · intro hle
      by_contra hnot
      cases queue with
      | nil =>
        rw [h.issued, List.append_nil] at hi
        exact hnot hi
      | cons e queue =>
        -- the `i`th call is behind the one under way
        have hlt := hpart e queue rfl
        obtain ⟨d, rfl⟩ := Nat.exists_eq_add_of_le (Nat.le_of_not_lt hnot)
        rw [Nat.add_assoc, List.take_length_add_append, fulls_append, List.take_succ_cons,
          fulls_cons] at hle
        simp only [List.length_append] at hle
        omega
  · rw [hlen, h.issued, List.drop_left]
    exact h.sendq
  · rw [h.appended]
    exact h.recvq

/-- Pipelined requests go out whole and in the order of `core_send`: after any row of steps, and so
after each of them. -/
theorem requests_go_out_whole_and_in_order (p : SendParam) (fqdname : List Byte)
    (call : Nat → Call) (sendq_next recvq_next : Nat → Option Nat) (as : List Action) :
    Runs.Always (step p fqdname) InOrder (.connected call sendq_next recvq_next) as :=
  (Runs.always_of_step holds_step (holds_connected call sendq_next recvq_next) as).imp
    fun _ => Holds.inOrder

end Httperf.Pipeline
