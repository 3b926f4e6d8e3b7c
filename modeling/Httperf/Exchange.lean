-- The whole exchange on one connection: httperf sends and receives (`core_send`, `do_send` and
-- `do_recv` of `core.c`), the network carries the bytes both ways, and a server answers. Each of
-- them takes its steps when it likes. Whatever the order of the steps, every call gets the answer
-- to its own request, as if the calls had been made one after the other.
import Httperf.Answers
import Httperf.RequestWire
import Httperf.Traffic

namespace Httperf.Exchange

open Resume Codec

/-! ## The server -/

variable {σ : Type}

/-- A server that answers one request after the other. Its answers may depend on what it has
seen. -/
structure Server (σ : Type) where
  start : σ
  reply : σ → HttpRequest → σ × WireReply

namespace Server

def next (v : Server σ) (st : σ) (r : HttpRequest) : σ := (v.reply st r).1

def answer (v : Server σ) (st : σ) (r : HttpRequest) : Answer :=
  ⟨r.method == bytes "HEAD", (v.reply st r).2⟩

/-- The answers to a row of requests. -/
def answers (v : Server σ) : σ → List HttpRequest → List Answer
  | _, [] => []
  | st, r :: rs => v.answer st r :: v.answers (v.next st r) rs

theorem answers_append (v : Server σ) (st : σ) (rs qs : List HttpRequest) :
    v.answers st (rs ++ qs) = v.answers st rs ++ v.answers (rs.foldl v.next st) qs := by
  induction rs generalizing st with
  | nil => rfl
  | cons r rs ih =>
    rw [List.cons_append, answers, answers, ih]
    rfl

@[simp] theorem answers_length (v : Server σ) (st : σ) (rs : List HttpRequest) :
    (v.answers st rs).length = rs.length := by
  induction rs generalizing st with
  | nil => rfl
  | cons r rs ih => rw [answers, List.length_cons, ih, List.length_cons]

end Server

/-! ## The system -/

/-- httperf with its connection `s`, the calls in `sendq` and what it has signalled, the bytes on
their way, and the server with what it has not yet looked at. The last two fields are history: the
calls that were made, and the requests that the server has answered. -/
structure State (σ : Type) where
  s : Conn
  sendq : List Call
  log : List Event
  ended : Option Traffic.End
  to_server : List Byte
  to_client : List Byte
  server : σ
  unread : List Byte
  plans : List Plan
  served : List HttpRequest

/-- What runs: the parameters of the requests, the host of the connection, the server, and the
handlers of the events. -/
structure Setup (σ : Type) where
  p : SendParam
  fqdname : List Byte
  v : Server σ
  h : Handlers

/-- The connection when it has just been made. -/
def connected : Conn := ⟨.S_CONNECTED, [], 0, false, false, []⟩

def init (e : Setup σ) : State σ where
  s := connected
  sendq := []
  log := []
  ended := none
  to_server := []
  to_client := []
  server := e.v.start
  unread := []
  plans := []
  served := []

/-- A call is filled in and given to `core_send`. -/
def State.core_send (e : Setup σ) (t : State σ) (x : Plan) : State σ :=
  match Httperf.core_send e.p e.fqdname x.call with
  | none => { t with ended := some .exit }
  | some c => { t with sendq := t.sendq ++ [c], plans := t.plans ++ [x] }

/-- One turn of `do_send`: `writev` takes `nsent` bytes of the first call. `past` is what lies
behind its `req.iov`. -/
def State.do_send (t : State σ) (past : Iovec) (nsent : Nat) : State σ :=
  match t.sendq with
  | [] => t
  | c :: rest =>
    if (offered c.req).length < nsent then t
    else
      let c' := { c with req := Httperf.do_send past c.req (.sent nsent) }
      let to_server := t.to_server ++ (offered c.req).take nsent
      if c'.req.iov_index < IE_LEN then { t with sendq := c' :: rest, to_server }
      else
        { t with
          sendq := rest
          to_server
          s := { t.s with
            recvq := t.s.recvq ++ [c']
            state := if Traffic.before_reply t.s.state then .S_REPLY_STATUS else t.s.state } }

/-- The network brings the next bytes to the server. -/
def State.arrive (t : State σ) (n : Nat) : State σ :=
  { t with unread := t.unread ++ t.to_server.take n, to_server := t.to_server.drop n }

/-- The server answers the next request, if it is there as a whole. -/
def State.serve (e : Setup σ) (t : State σ) : State σ :=
  match httpRequest t.unread with
  | none => t
  | some (r, rest) =>
    { t with
      server := e.v.next t.server r
      unread := rest
      to_client := t.to_client ++ (e.v.answer t.server r).wire
      served := t.served ++ [r] }

/-- The next `n` bytes come to the client. `core_loop` calls `do_recv` while a call waits, and
`read` takes no more than the buffer holds. -/
def State.do_recv (e : Setup σ) (t : State σ) (n : Nat) : State σ :=
  let buf := t.to_client.take (min n 8192)
  if t.s.recvq = [] ∨ buf = [] then t
  else
    match Httperf.do_recv e.h (.data buf) t.s t.log with
    | .error a => { t with ended := some (.abort a) }
    | .ok (s, log) => { t with s, log, to_client := t.to_client.drop buf.length }

inductive Action where
  | core_send (x : Plan)
  | do_send (past : Iovec) (nsent : Nat)
  | arrive (n : Nat)
  | serve
  | do_recv (n : Nat)

def step (e : Setup σ) (t : State σ) (a : Action) : State σ :=
  if t.ended.isSome then t
  else
    match a with
    | .core_send x => t.core_send e x
    | .do_send past nsent => t.do_send past nsent
    | .arrive n => t.arrive n
    | .serve => t.serve e
    | .do_recv n => t.do_recv e n

/-! ## What it is for -/

/-- The request that a plan stands for. -/
def Setup.meaning (e : Setup σ) (x : Plan) : HttpRequest :=
  x.asked.request e.p x.version e.fqdname none

/-- The answers that the calls ask for, when they are made one after the other. -/
def Setup.due (e : Setup σ) (plans : List Plan) : List Answer :=
  e.v.answers e.v.start (plans.map e.meaning)

/-- What is to be signalled. -/
def Setup.ideal (e : Setup σ) (plans : List Plan) : List Event :=
  Answer.signals (e.due plans) (plans.map Plan.id)

/-- The calls that are made are requests. -/
def Setup.Sound (e : Setup σ) : Action → Prop
  | .core_send x => x.asked.Sound e.p e.fqdname none ∧ (x.version = 0x10000 ∨ x.version = 0x10001)
  | _ => True

/-! ## The invariant -/

/-- A call that has been sent. -/
structure Gone (e : Setup σ) (x : Plan) (c : Call) : Prop where
  id : c.id = x.id
  fresh : c.Fresh
  head : c.isHead = ((e.meaning x).method == bytes "HEAD")

/-- The calls that are still to be sent, of which the bytes `part` of the first one are. -/
def Underway (e : Setup σ) (part : List Byte) : List Plan → List Call → Prop
  | [], q => part = [] ∧ q = []
  | x :: xs, q => ∃ c cur rest, q = { c with req := cur } :: rest ∧
      Httperf.core_send e.p e.fqdname x.call = some c ∧ Pipeline.Sent c.req cur part.length ∧
      part <+: c.req.full ∧ part.length < c.req.full.length ∧
      xs.map (fun x => Httperf.core_send e.p e.fqdname x.call) = rest.map some

/-- `sent` are the calls that have been sent, and `taken` the bytes of the answers that httperf has
taken. -/
structure Inv (e : Setup σ) (t : State σ) (sent : List Call) (part taken : List Byte) : Prop where
  alive : t.ended = none
  sound : ∀ x ∈ t.plans, x.asked.Sound e.p e.fqdname none ∧
    ∃ c, Httperf.core_send e.p e.fqdname x.call = some c
  gone : List.Forall₂ (Gone e) (t.plans.take sent.length) sent
  underway : Underway e part (t.plans.drop sent.length) t.sendq
  few : t.served.length ≤ sent.length
  bytes : ((t.plans.take sent.length).map (Plan.word e.p e.fqdname)).flatten ++ part =
    ((t.plans.take t.served.length).map (Plan.word e.p e.fqdname)).flatten ++
      (t.unread ++ t.to_server)
  served : t.served = (t.plans.take t.served.length).map e.meaning
  server : t.server = t.served.foldl e.v.next e.v.start
  replies : taken ++ t.to_client = ((e.v.answers e.v.start t.served).map Answer.wire).flatten
  idle : sent = [] → t.s = connected ∧ t.log = []
  decodes : sent ≠ [] → Drains Decoder.machine
    (lineStart .S_REPLY_STATUS 0 false false sent []) taken (t.s.decoder t.log)

def Holds (e : Setup σ) (t : State σ) : Prop := ∃ sent part taken, Inv e t sent part taken

theorem holds_init (e : Setup σ) : Holds e (init e) :=
  ⟨[], [], [], {
    alive := rfl
    sound := fun _ hx => absurd hx List.not_mem_nil
    gone := .nil
    underway := ⟨rfl, rfl⟩
    few := Nat.le_refl 0
    bytes := rfl
    served := rfl
    server := rfl
    replies := rfl
    idle := fun _ => ⟨rfl, rfl⟩
    decodes := fun h => absurd rfl h }⟩

section
variable {e : Setup σ} {t : State σ} {sent : List Call} {part taken : List Byte}

theorem Inv.le (h : Inv e t sent part taken) : sent.length ≤ t.plans.length := by
  have hlen := h.gone.length_eq
  rw [List.length_take] at hlen
  omega

/-! ## A call is made -/

theorem Underway.append {xs : List Plan} {q : List Call} {x : Plan} {c : Call}
    (h : Underway e part xs q) (hc : Httperf.core_send e.p e.fqdname x.call = some c) :
    Underway e part (xs ++ [x]) (q ++ [c]) := by
  cases xs with
  | nil =>
    obtain ⟨rfl, rfl⟩ := h
    obtain ⟨hsent, hpos⟩ := Pipeline.issued_core_send hc
    exact ⟨c, c.req, [], rfl, hc, hsent, List.nil_prefix, hpos, rfl⟩
  | cons y xs =>
    obtain ⟨c0, cur, rest, rfl, hc0, hsent, hpart, hlt, hrest⟩ := h
    refine ⟨c0, cur, rest ++ [c], rfl, hc0, hsent, hpart, hlt, ?_⟩
    change (xs ++ [x]).map _ = _
    rw [List.map_append, List.map_append, hrest, List.map_singleton, List.map_singleton, hc]

theorem core_send_some {p : SendParam} (fqdname : List Byte) {c : Call}
    (h : c.req.version = 0x10000 ∨ c.req.version = 0x10001) :
    ∃ c', Httperf.core_send p fqdname c = some c' := by
  have hline : ∃ line, protl p c.req.version = some line := by
    unfold protl
    rcases h with h | h
    · rw [if_pos h]
      exact ⟨_, rfl⟩
    · rw [if_neg (by rw [h]; decide), if_pos h]
      exact ⟨_, rfl⟩
  obtain ⟨line, hline⟩ := hline
  unfold Httperf.core_send
  rw [hline]
  exact ⟨_, rfl⟩

theorem holds_core_send {x : Plan} (hx : e.Sound (.core_send x)) (h : Holds e t) :
    Holds e (t.core_send e x) := by
  obtain ⟨sent, part, taken, h⟩ := h
  have hversion : x.call.req.version = x.version := (settings_frame _ x.settings).2.2
  obtain ⟨c, hc⟩ := core_send_some (p := e.p) e.fqdname (by rw [hversion]; exact hx.2)
  have htake : ∀ {n}, n ≤ t.plans.length → (t.plans ++ [x]).take n = t.plans.take n :=
    fun hn => List.take_append_of_le_length hn
  have hserved := Nat.le_trans h.few h.le
  unfold State.core_send
  rw [hc]
  exact ⟨sent, part, taken, {
    alive := h.alive
    sound := by
      intro y hy
      rcases List.mem_append.mp hy with hy | hy
      · exact h.sound y hy
      · obtain rfl := List.mem_singleton.mp hy
        exact ⟨hx.1, c, hc⟩
    gone := by rw [htake h.le]; exact h.gone
    underway := by
      rw [List.drop_append_of_le_length h.le]
      exact h.underway.append hc
    few := h.few
    bytes := by rw [htake h.le, htake hserved]; exact h.bytes
    served := by rw [htake hserved]; exact h.served
    server := h.server
    replies := h.replies
    idle := h.idle
    decodes := h.decodes }⟩

/-! ## Sending -/

theorem word_eq {x : Plan} {c : Call} (hc : Httperf.core_send e.p e.fqdname x.call = some c) :
    x.word e.p e.fqdname = c.req.full := by
  unfold Plan.word
  rw [hc]
  rfl

/-- What the call has become when it is sent. -/
theorem gone_of_sent {x : Plan} {c : Call} {r : Request}
    (hc : Httperf.core_send e.p e.fqdname x.call = some c) (hr : r.iov = c.req.iov) :
    Gone e x { c with req := r } := by
  obtain ⟨line, -, hfill⟩ := x.filling.issued hc
  obtain ⟨hid, hreply, -⟩ := settings_frame (call_init x.id x.version) x.settings
  have hcall : c.id = x.call.id ∧ c.reply = x.call.reply := by
    unfold Httperf.core_send at hc
    obtain ⟨_, -, rfl⟩ := Option.map_eq_some_iff.mp hc
    exact ⟨rfl, rfl⟩
  refine ⟨hcall.1.trans hid, hcall.2.trans hreply, ?_⟩
  have hmethod : c.req.iov[IE_METHOD] = some x.asked.method := by
    have hget : c.req.iov.toList[IE_METHOD]? = some (some x.asked.method) := by
      rw [hfill.slots]
      rfl
    rw [List.getElem?_eq_getElem (by rw [iov_length]; decide), Option.some.injEq] at hget
    simpa using hget
  unfold Call.isHead
  dsimp only
  rw [hr, hmethod]
  rfl

/-- `sendq` behind a call that has been sent. -/
theorem underway_rest {xs : List Plan} {rest : List Call}
    (hsends : ∀ x ∈ xs, ∃ c, Httperf.core_send e.p e.fqdname x.call = some c)
    (hrest : xs.map (fun x => Httperf.core_send e.p e.fqdname x.call) = rest.map some) :
    Underway e [] xs rest := by
  cases xs with
  | nil => exact ⟨rfl, List.map_eq_nil_iff.mp hrest.symm⟩
  | cons x xs =>
    obtain ⟨c, rest, rfl⟩ : ∃ c rest', rest = c :: rest' := by
      apply List.exists_cons_of_ne_nil
      rintro rfl
      cases hrest
    rw [List.map_cons, List.map_cons, List.cons.injEq] at hrest
    obtain ⟨hsent, hpos⟩ := Pipeline.issued_core_send hrest.1
    exact ⟨c, c.req, rest, rfl, hrest.1, hsent, List.nil_prefix, hpos, hrest.2⟩

/-- The connection goes on reading as before, with one more call behind those that wait. -/
theorem decoder_sent {s : Conn} {log : List Event} {c : Call} (hc : c.Fresh)
    (hst : Traffic.before_reply s.state = false) :
    Conn.decoder { s with
        recvq := s.recvq ++ [c]
        state := if Traffic.before_reply s.state then .S_REPLY_STATUS else s.state } log =
      (s.decoder log).queue c := by
  unfold Conn.decoder Decoder.queue
  simp [hst, fresh_erase hc]

theorem answers_wait {xs : List Plan} {cs : List Call} (h : List.Forall₂ (Gone e) xs cs) (st : σ) :
    List.Forall₂ Waits cs (e.v.answers st (xs.map e.meaning)) := by
  induction h generalizing st with
  | nil => exact .nil
  | cons hx _ ih => exact .cons ⟨hx.fresh, hx.head⟩ (ih _)

/-- The calls that the server has answered. -/
theorem Inv.answered (h : Inv e t sent part taken) :
    List.Forall₂ (Gone e) (t.plans.take t.served.length) (sent.take t.served.length) := by
  have htake := List.forall₂_take t.served.length h.gone
  rwa [List.take_take, Nat.min_eq_left h.few] at htake

/-- The stream of the answers so far is read to its end. -/
theorem Inv.stream (h : Inv e t sent part taken) :
    ∃ cl hb ch, Drains Decoder.machine (lineStart .S_REPLY_STATUS 0 false false sent [])
      (taken ++ t.to_client)
      (lineStart .S_REPLY_STATUS cl hb ch (sent.drop t.served.length)
        (Answer.signals (e.v.answers e.v.start t.served)
          ((sent.take t.served.length).map Call.id))) := by
  have hwait := answers_wait h.answered e.v.start
  rw [← h.served] at hwait
  obtain ⟨cl, hb, ch, hrun⟩ := read_answers (sent.drop t.served.length) hwait 0 false false [] []
  rw [List.append_nil, List.take_append_drop, ← h.replies] at hrun
  exact ⟨cl, hb, ch, hrun⟩

/-- What the server has answered and httperf has not yet read: it ends the last of these answers. -/
theorem Inv.rest (h : Inv e t sent part taken) (hne : sent ≠ []) :
    ∃ cl hb ch, Drains Decoder.machine (t.s.decoder t.log) t.to_client
      (lineStart .S_REPLY_STATUS cl hb ch (sent.drop t.served.length)
        (Answer.signals (e.v.answers e.v.start t.served)
          ((sent.take t.served.length).map Call.id))) := by
  obtain ⟨cl, hb, ch, hrun⟩ := h.stream
  exact ⟨cl, hb, ch, hrun.rest Decoder.machine_resumable (h.decodes hne)⟩

/-- A connection that has sent a call is in a state of a reply. -/
theorem Inv.replying (h : Inv e t sent part taken) (hne : sent ≠ []) :
    Traffic.before_reply t.s.state = false := by
  obtain ⟨cl, hb, ch, hrest⟩ := h.rest hne
  by_cases hnil : t.to_client = []
  · rw [hnil] at hrest
    have hst : t.s.state = .S_REPLY_STATUS := congrArg (fun d => d.s.state) hrest.nil_eq.symm
    rw [hst]
    rfl
  · obtain ⟨⟨c, next, -, hr, -⟩, -⟩ := hrest.step hnil
    have hr : Decoder.reading t.s.state = true := hr
    cases hst : t.s.state <;> simp_all [Decoder.reading, Traffic.before_reply]

/-- The first call that is sent starts the reading of replies. -/
theorem Inv.decodes_sent {c : Call} (h : Inv e t sent part taken) (hc : c.Fresh) :
    Drains Decoder.machine (lineStart .S_REPLY_STATUS 0 false false (sent ++ [c]) []) taken
      (Conn.decoder { t.s with
        recvq := t.s.recvq ++ [c]
        state := if Traffic.before_reply t.s.state then .S_REPLY_STATUS else t.s.state }
          t.log) := by
  by_cases hne : sent = []
  · obtain ⟨hs, hlog⟩ := h.idle hne
    have hserved : t.served = [] := by
      have hfew := h.few
      rw [hne] at hfew
      exact List.eq_nil_of_length_eq_zero (Nat.le_zero.mp hfew)
    have htaken : taken = [] := by
      have hreplies := h.replies
      rw [hserved] at hreplies
      exact (List.append_eq_nil_iff.mp hreplies).1
    have hfirst : Conn.decoder { connected with
          recvq := connected.recvq ++ [c]
          state := if Traffic.before_reply connected.state then .S_REPLY_STATUS
            else connected.state } [] =
        lineStart .S_REPLY_STATUS 0 false false [c] [] := by
      have hone : [c].map Call.erase = [c] := by rw [List.map_singleton, fresh_erase hc]
      unfold Conn.decoder lineStart connected
      simp only [List.nil_append, hone]
      rfl
    rw [hs, hlog, hne, htaken, hfirst]
    exact .refl _ _
  · rw [decoder_sent hc (h.replying hne)]
    exact Run.queue c (h.decodes hne)

theorem take_drop_cons {α : Type} {l : List α} {n : Nat} {x : α} {xs : List α}
    (h : l.drop n = x :: xs) : l.take (n + 1) = l.take n ++ [x] ∧ l.drop (n + 1) = xs := by
  constructor
  · rw [List.take_add, h]
    rfl
  · rw [← List.drop_drop, h]
    rfl

theorem holds_do_send (past : Iovec) (nsent : Nat) (h : Holds e t) :
    Holds e (t.do_send past nsent) := by
  obtain ⟨sent, part, taken, h⟩ := h
  unfold State.do_send
  cases hq : t.sendq with
  | nil => exact ⟨sent, part, taken, h⟩
  | cons c0 rest =>
    have hunder := h.underway
    rw [hq] at hunder
    cases hxs : t.plans.drop sent.length with
    | nil =>
      rw [hxs] at hunder
      cases hunder.2
    | cons x xs =>
    rw [hxs] at hunder
    obtain ⟨c, cur, rest, heq, hc, hcur, hpart, hlt, hrest⟩ := hunder
    obtain ⟨rfl, rfl⟩ := List.cons.inj heq
    obtain ⟨htake, hdrop⟩ := take_drop_cons hxs
    dsimp only
    by_cases hmany : (offered cur).length < nsent
    · rw [if_pos hmany]
      exact ⟨sent, part, taken, h⟩
    rw [if_neg hmany]
    obtain ⟨hnew, hin, hout⟩ := hcur.do_send past (by omega : nsent ≤ (offered cur).length)
    obtain ⟨left, hleft⟩ := hpart
    have hoffered : offered cur = left := by rw [hcur.offered_eq, ← hleft, List.drop_left]
    rw [hoffered] at hmany ⊢
    have hlen : (part ++ left.take nsent).length = part.length + nsent := by
      rw [List.length_append, List.length_take]
      omega
    by_cases hmore : (Httperf.do_send past cur (.sent nsent)).iov_index < IE_LEN
    · rw [if_pos hmore]
      exact ⟨sent, part ++ left.take nsent, taken, {
        alive := h.alive
        sound := h.sound
        gone := h.gone
        underway := by
          rw [hxs]
          refine ⟨c, _, rest, rfl, hc, by rw [hlen]; exact hnew,
            ?_, by rw [hlen]; exact hin hmore, hrest⟩
          rw [← hleft]
          exact List.prefix_append_right_inj part |>.mpr (List.take_prefix nsent left)
        few := h.few
        bytes := by
          have hbytes := h.bytes
          simp only [← List.append_assoc] at hbytes ⊢
          rw [hbytes]
        served := h.served
        server := h.server
        replies := h.replies
        idle := h.idle
        decodes := h.decodes }⟩
    · rw [if_neg hmore]
      obtain ⟨hall, hiov⟩ := hout hmore
      have hwhole : part ++ left.take nsent = c.req.full := by
        rw [← hleft] at hall ⊢
        rw [List.take_of_length_le]
        rw [List.length_append] at hall
        omega
      have hgone := gone_of_sent hc hiov
      have hcount : (sent ++ [{ c with req := Httperf.do_send past cur (.sent nsent) }]).length =
          sent.length + 1 := by rw [List.length_append, List.length_singleton]
      refine ⟨sent ++ [{ c with req := Httperf.do_send past cur (.sent nsent) }], [], taken, {
        alive := h.alive
        sound := h.sound
        gone := by
          rw [hcount, htake]
          exact List.rel_append h.gone (.cons hgone .nil)
        underway := by
          rw [hcount, hdrop]
          refine underway_rest (fun y hy => (h.sound y ?_).2) hrest
          have hmem : y ∈ t.plans.drop sent.length := hxs ▸ List.mem_cons_of_mem _ hy
          exact List.mem_of_mem_drop hmem
        few := by
          rw [hcount]
          exact Nat.le_succ_of_le h.few
        bytes := by
          have hbytes := h.bytes
          rw [hcount, htake, List.map_append, List.map_singleton, word_eq hc, ← hwhole]
          simp only [← List.append_assoc] at hbytes ⊢
          rw [← hbytes]
          simp
        served := h.served
        server := h.server
        replies := h.replies
        idle := fun hnil => absurd hnil (by simp)
        decodes := fun _ => h.decodes_sent hgone.fresh }⟩

/-! ## On the way to the server -/

theorem holds_arrive (n : Nat) (h : Holds e t) : Holds e (t.arrive n) := by
  obtain ⟨sent, part, taken, h⟩ := h
  have hbytes : t.unread ++ t.to_server.take n ++ t.to_server.drop n = t.unread ++ t.to_server := by
    rw [List.append_assoc, List.take_append_drop]
  exact ⟨sent, part, taken, { h with bytes := h.bytes.trans (congrArg _ hbytes.symm) }⟩

/-! ## The server -/

theorem Inv.code (h : Inv e t sent part taken) {x : Plan} (hx : x ∈ t.plans) :
    Codes httpRequest (x.word e.p e.fqdname) (e.meaning x) := by
  obtain ⟨hsound, c, hc⟩ := h.sound x hx
  rw [word_eq hc]
  exact Plan.codes hc hsound

/-- The call of which only a part has been sent is not read by the server. -/
theorem Inv.part_none (h : Inv e t sent part taken) {b c : List Byte} (hb : b ++ c = part) :
    httpRequest b = none := by
  have hunder := h.underway
  cases hxs : t.plans.drop sent.length with
  | nil =>
    rw [hxs] at hunder
    obtain ⟨rfl, -⟩ := List.append_eq_nil_iff.mp (hb.trans hunder.1)
    exact takes_httpRequest.nil
  | cons x xs =>
    rw [hxs] at hunder
    obtain ⟨call, -, -, -, hc, -, ⟨left, hleft⟩, hlt, -⟩ := hunder
    have hmem : x ∈ t.plans.drop sent.length := hxs ▸ List.mem_cons_self
    have hcode := h.code (List.mem_of_mem_drop hmem)
    rw [word_eq hc] at hcode
    refine hcode.prefix_none stable_httpRequest (p := b) (q := c ++ left) ?_ ?_
    · rw [← List.append_assoc, hb, hleft]
    · intro hnil
      obtain ⟨-, rfl⟩ := List.append_eq_nil_iff.mp hnil
      rw [← hleft, List.append_nil] at hlt
      exact absurd hlt (Nat.lt_irrefl _)

/-- What the server has not yet looked at and what is on the way to it. -/
theorem Inv.pending (h : Inv e t sent part taken) :
    (((t.plans.drop t.served.length).take (sent.length - t.served.length)).map
      (Plan.word e.p e.fqdname)).flatten ++ part = t.unread ++ t.to_server := by
  have hbytes := h.bytes
  have hsplit : t.plans.take sent.length = t.plans.take t.served.length ++
      (t.plans.drop t.served.length).take (sent.length - t.served.length) := by
    rw [← List.take_add, Nat.add_sub_cancel' h.few]
  rwa [hsplit, List.map_append, List.flatten_append, List.append_assoc,
    List.append_cancel_left_eq] at hbytes

/-- The next call, where not all calls that have been sent are answered. -/
theorem Inv.next (h : Inv e t sent part taken) (hlt : t.served.length < sent.length) :
    ∃ x xs more, t.plans.drop t.served.length = x :: xs ∧
    Codes httpRequest (x.word e.p e.fqdname) (e.meaning x) ∧
      x.word e.p e.fqdname ++ (more ++ part) = t.unread ++ t.to_server := by
  have hle := h.le
  have hpending := h.pending
  obtain ⟨k, hk⟩ : ∃ k, sent.length - t.served.length = k + 1 :=
    ⟨_, (Nat.sub_add_cancel (by omega)).symm⟩
  cases hxs : t.plans.drop t.served.length with
  | nil =>
    rw [List.drop_eq_nil_iff] at hxs
    omega
  | cons x xs =>
    have hmem : x ∈ t.plans.drop t.served.length := hxs ▸ List.mem_cons_self
    refine ⟨x, xs, ((xs.take k).map (Plan.word e.p e.fqdname)).flatten, rfl,
      h.code (List.mem_of_mem_drop hmem), ?_⟩
    rw [← hpending, hxs, hk, List.take_succ_cons, List.map_cons, List.flatten_cons,
      List.append_assoc]

/-- Where all calls that have been sent are answered, the server has nothing but a part of the next
one. -/
theorem Inv.last (h : Inv e t sent part taken) (hge : sent.length ≤ t.served.length) :
    part = t.unread ++ t.to_server := by
  have hpending := h.pending
  rwa [Nat.sub_eq_zero_of_le hge, List.take_zero, List.map_nil, List.flatten_nil,
    List.nil_append] at hpending

/-- What the server takes off its input is the request of the next call. -/
theorem Inv.request (h : Inv e t sent part taken) {r : HttpRequest} {rest : List Byte}
    (hr : httpRequest t.unread = some (r, rest)) :
    ∃ x xs, t.plans.drop t.served.length = x :: xs ∧ t.served.length < sent.length ∧
      r = e.meaning x ∧ t.unread = x.word e.p e.fqdname ++ rest := by
  rcases Nat.lt_or_ge t.served.length sent.length with hlt | hge
  · obtain ⟨x, xs, more, hxs, hcode, hbytes⟩ := h.next hlt
    obtain ⟨hvalue, hrest⟩ := hcode.first stable_httpRequest hbytes.symm hr
    refine ⟨x, xs, hxs, hlt, hvalue, ?_⟩
    rw [← hrest, ← List.append_assoc, List.append_cancel_right_eq] at hbytes
    exact hbytes.symm
  · rw [h.part_none (h.last hge).symm] at hr
    cases hr

theorem holds_serve (h : Holds e t) : Holds e (t.serve e) := by
  obtain ⟨sent, part, taken, h⟩ := h
  unfold State.serve
  rcases hr : httpRequest t.unread with _ | ⟨r, rest⟩
  · exact ⟨sent, part, taken, h⟩
  · obtain ⟨x, xs, hxs, hlt, rfl, hunread⟩ := h.request hr
    obtain ⟨htake, -⟩ := take_drop_cons hxs
    have hcount : (t.served ++ [e.meaning x]).length = t.served.length + 1 := by
      rw [List.length_append, List.length_singleton]
    exact ⟨sent, part, taken, {
      alive := h.alive
      sound := h.sound
      gone := h.gone
      underway := h.underway
      few := by
        rw [hcount]
        exact hlt
      bytes := by
        rw [hcount, htake, List.map_append, List.flatten_append, h.bytes, hunread]
        simp
      served := by
        rw [hcount, htake, List.map_append, ← h.served]
        rfl
      server := by
        rw [List.foldl_append, ← h.server]
        rfl
      replies := by
        rw [Server.answers_append, ← h.server, List.map_append, List.flatten_append, ← h.replies]
        simp [Server.answers]
      idle := h.idle
      decodes := h.decodes }⟩

/-! ## Receiving -/

/-- What a read of the next bytes does. -/
theorem Inv.do_recv (hq : e.h.Quiet) {n : Nat} (h : Inv e t sent part taken)
    (hwait : t.s.recvq ≠ []) (hbuf : t.to_client.take (min n 8192) ≠ []) :
    ∃ s' log', t.do_recv e n =
        { t with s := s', log := log', to_client := t.to_client.drop (min n 8192) } ∧
      Drains Decoder.machine (t.s.decoder t.log) (t.to_client.take (min n 8192))
        (s'.decoder log') := by
  have hne : sent ≠ [] := by
    rintro rfl
    exact hwait (by rw [(h.idle rfl).1]; rfl)
  obtain ⟨cl, hb, ch, hrest⟩ := h.rest hne
  rw [← List.take_append_drop (min n 8192) t.to_client] at hrest
  obtain ⟨d, hd, -⟩ := Drains.split Decoder.machine_resumable hrest
  obtain ⟨s', log', hrecv, rfl⟩ := do_recv_loop_decodes hq hd hbuf
  have hone : Httperf.do_recv e.h (.data (t.to_client.take (min n 8192))) t.s t.log =
      .ok (s', log') := by
    unfold Httperf.do_recv
    split
    · exact absurd ‹t.s.recvq = []› hwait
    · exact hrecv
  have hdrop : t.to_client.drop (t.to_client.take (min n 8192)).length =
      t.to_client.drop (min n 8192) := by
    rw [List.drop_eq_drop_iff, List.length_take]
    omega
  refine ⟨s', log', ?_, hd⟩
  unfold State.do_recv
  dsimp only
  rw [if_neg (not_or.mpr ⟨hwait, hbuf⟩), hone, hdrop]

theorem holds_do_recv (hq : e.h.Quiet) (n : Nat) (h : Holds e t) : Holds e (t.do_recv e n) := by
  obtain ⟨sent, part, taken, h⟩ := h
  by_cases hstop : t.s.recvq = [] ∨ t.to_client.take (min n 8192) = []
  · unfold State.do_recv
    dsimp only
    rw [if_pos hstop]
    exact ⟨sent, part, taken, h⟩
  rw [not_or] at hstop
  have hne : sent ≠ [] := by
    rintro rfl
    exact hstop.1 (by rw [(h.idle rfl).1]; rfl)
  obtain ⟨s', log', hrecv, hd⟩ := h.do_recv hq hstop.1 hstop.2
  rw [hrecv]
  exact ⟨sent, part, taken ++ t.to_client.take (min n 8192), {
    alive := h.alive
    sound := h.sound
    gone := h.gone
    underway := h.underway
    few := h.few
    bytes := h.bytes
    served := h.served
    server := h.server
    replies := by
      rw [List.append_assoc, List.take_append_drop]
      exact h.replies
    idle := fun hnil => absurd hnil hne
    decodes := fun _ => by
      obtain ⟨cl, hb, ch, hrun⟩ := h.stream
      rw [← List.take_append_drop (min n 8192) t.to_client, ← List.append_assoc] at hrun
      exact hrun.join Decoder.machine_resumable (h.decodes hne) hd }⟩

/-! ## All steps -/

theorem holds_step (hq : e.h.Quiet) {a : Action} (ha : e.Sound a) (h : Holds e t) :
    Holds e (step e t a) := by
  have halive : t.ended = none := by
    obtain ⟨sent, part, taken, h⟩ := h
    exact h.alive
  unfold step
  rw [halive]
  cases a with
  | core_send x => exact holds_core_send ha h
  | do_send past nsent => exact holds_do_send past nsent h
  | arrive n => exact holds_arrive n h
  | serve => exact holds_serve h
  | do_recv n => exact holds_do_recv hq n h

theorem holds_run (hq : e.h.Quiet) {as : List Action} (has : ∀ a ∈ as, e.Sound a) (h : Holds e t) :
    Holds e (Runs.run (step e) t as) := by
  induction as generalizing t with
  | nil => exact h
  | cons a as ih =>
    exact ih (fun b hb => has b (List.mem_cons_of_mem _ hb))
      (holds_step hq (has a List.mem_cons_self) h)

/-! ## What the invariant says -/

theorem gone_ids {xs : List Plan} {cs : List Call} (h : List.Forall₂ (Gone e) xs cs) :
    cs.map Call.id = xs.map Plan.id := by
  induction h with
  | nil => rfl
  | cons hx _ ih => rw [List.map_cons, List.map_cons, ih, hx.id]

/-- The answers of the server so far are the first ones of those that are due. -/
theorem Inv.due (h : Inv e t sent part taken) :
    e.ideal t.plans =
      Answer.signals (e.v.answers e.v.start t.served) ((sent.take t.served.length).map Call.id) ++
        Answer.signals (e.v.answers t.server ((t.plans.drop t.served.length).map e.meaning))
          ((t.plans.drop t.served.length).map Plan.id) := by
  have hsplit : ∀ {β : Type} (f : Plan → β), t.plans.map f =
      (t.plans.take t.served.length).map f ++ (t.plans.drop t.served.length).map f := by
    intro β f
    rw [← List.map_append, List.take_append_drop]
  have hserved := h.served
  unfold Setup.ideal Setup.due
  rw [hsplit e.meaning, hsplit Plan.id, ← hserved, Server.answers_append, ← h.server,
    Answer.signals_append, gone_ids h.answered]
  rw [Server.answers_length, List.length_map, List.length_take]
  have hle := Nat.le_trans h.few h.le
  omega

/-- Nothing is to be sent, nothing is on its way, and nothing is unread. -/
structure State.Done (t : State σ) : Prop where
  sendq : t.sendq = []
  to_server : t.to_server = []
  unread : t.unread = []
  to_client : t.to_client = []

theorem Underway.done {xs : List Plan} (h : Underway e part xs []) : part = [] ∧ xs = [] := by
  cases xs with
  | nil => exact ⟨h.1, rfl⟩
  | cons x xs =>
    obtain ⟨_, _, _, hq, -⟩ := h
    cases hq

/-- When no byte is left on this side of the server, the server has answered all calls. -/
theorem Inv.all_served (h : Inv e t sent part taken) (hsend : t.sendq = [])
    (hserver : t.to_server = []) (hunread : t.unread = []) : sent.length = t.plans.length ∧
    t.served.length = sent.length := by
  have hunder := h.underway
  rw [hsend] at hunder
  have hnone := hunder.done.2
  rw [List.drop_eq_nil_iff] at hnone
  refine ⟨Nat.le_antisymm h.le hnone, Nat.le_antisymm h.few ?_⟩
  by_contra hmore
  obtain ⟨x, xs, more, -, hcode, hbytes⟩ := h.next (Nat.lt_of_not_le hmore)
  rw [hserver, hunread] at hbytes
  have hword := hcode []
  rw [(List.append_eq_nil_iff.mp hbytes).1, List.append_nil, takes_httpRequest.nil] at hword
  cases hword

theorem Inv.complete (h : Inv e t sent part taken) (hdone : t.Done) :
    merged t.log = e.ideal t.plans ∧ t.s.recvq = [] ∧ t.served = t.plans.map e.meaning := by
  obtain ⟨hsent, hserved⟩ := h.all_served hdone.sendq hdone.to_server hdone.unread
  have hall := hserved.trans hsent
  have hrequests := h.served
  rw [hall, List.take_length] at hrequests
  have hideal : e.ideal t.plans = Answer.signals (e.v.answers e.v.start t.served)
      ((sent.take t.served.length).map Call.id) := by
    rw [h.due, List.drop_eq_nil_iff.mpr (Nat.le_of_eq hall.symm)]
    exact List.append_nil _
  rw [hideal]
  by_cases hne : sent = []
  · obtain ⟨hs, hlog⟩ := h.idle hne
    have hnil : t.served = [] := by
      rw [hne] at hserved
      exact List.eq_nil_of_length_eq_zero hserved
    rw [hs, hlog, hnil]
    exact ⟨rfl, rfl, hnil ▸ hrequests⟩
  · obtain ⟨cl, hb, ch, hrest⟩ := h.rest hne
    rw [hdone.to_client, List.drop_eq_nil_iff.mpr (Nat.le_of_eq hserved.symm)] at hrest
    have hend := hrest.nil_eq
    have hqueue := congrArg (fun d => d.s.recvq) hend
    exact ⟨(congrArg Decoder.log hend).symm, List.map_eq_nil_iff.mp hqueue.symm, hrequests⟩

theorem Inv.log_prefix (h : Inv e t sent part taken) {β : Type} {f : Event → List β}
    (hf : Uncut f) :
    t.log.flatMap f <+: (e.ideal t.plans).flatMap f := by
  rw [h.due, List.flatMap_append]
  refine List.IsPrefix.trans ?_ (List.prefix_append _ _)
  by_cases hne : sent = []
  · rw [(h.idle hne).2]
    exact List.nil_prefix
  · obtain ⟨cl, hb, ch, hrest⟩ := h.rest hne
    rw [← hf.merged t.log]
    exact Decoder.log_run hf hrest

end

section
variable {e : Setup σ} {as : List Action} {t : State σ}

/-- In every run the server gets the requests that were made, in their order, and httperf signals
what the answers to these requests say, each for the call that was answered, as far as they have
come. When nothing is left on the way, they have all come. -/
theorem every_call_gets_the_answer_to_its_own_request (hq : e.h.Quiet) (has : ∀ a ∈ as, e.Sound a)
    (ht : t = Runs.run (step e) (init e) as) :
    t.ended = none ∧ t.served <+: t.plans.map e.meaning ∧
      (∀ {β : Type} {f : Event → List β}, Uncut f →
        t.log.flatMap f <+: (e.ideal t.plans).flatMap f) ∧
      (t.Done → merged t.log = e.ideal t.plans ∧ t.s.recvq = [] ∧
        t.served = t.plans.map e.meaning) := by
  have hrun := holds_run hq has (holds_init e)
  rw [← ht] at hrun
  obtain ⟨sent, part, taken, h⟩ := hrun
  refine ⟨h.alive, ?_, h.log_prefix, h.complete⟩
  rw [h.served, List.map_take]
  exact List.take_prefix _ _

/-- A server that answers every request in the same way. -/
def demo : Setup Unit where
  p := ⟨false, bytes "0.9"⟩
  fqdname := bytes "h"
  v := ⟨(), fun _ _ => ((), okReply)⟩
  h := quiet

/-- The second call is made while the first one is being sent, and the answers come in pieces. -/
def demoActions : List Action :=
  [.core_send (twoPlans[0]), .do_send none 50, .core_send (twoPlans[1]), .arrive 40,
    .do_send none 25, .do_send none 77, .arrive 60, .serve, .do_recv 30, .arrive 100, .serve,
    .do_recv 8192]

theorem demo_sound : ∀ a ∈ demoActions, demo.Sound a := by
  have hplans : ∀ x ∈ twoPlans, demo.Sound (.core_send x) := by
    intro x hx
    rcases List.mem_cons.mp hx with rfl | hx
    · exact ⟨⟨by decide +kernel, by decide +kernel, by decide, by decide, by decide +kernel,
        by decide +kernel⟩, .inr rfl⟩
    · obtain rfl := List.mem_singleton.mp hx
      exact ⟨⟨by decide +kernel, by decide +kernel, by decide, by decide, by decide +kernel,
        by decide +kernel⟩, .inl rfl⟩
  simp only [demoActions, List.forall_mem_cons]
  exact ⟨hplans _ (List.getElem_mem _), trivial, hplans _ (List.getElem_mem _), trivial, trivial,
    trivial, trivial, trivial, trivial, trivial, trivial, trivial, fun _ h =>
      absurd h List.not_mem_nil⟩

theorem every_call_gets_the_answer_to_its_own_request_demo :
    (Runs.run (step demo) (init demo) demoActions).ended = none ∧
      (Runs.run (step demo) (init demo) demoActions).served <+:
        (Runs.run (step demo) (init demo) demoActions).plans.map demo.meaning ∧
      (∀ {β : Type} {f : Event → List β}, Uncut f →
        (Runs.run (step demo) (init demo) demoActions).log.flatMap f <+:
          (demo.ideal (Runs.run (step demo) (init demo) demoActions).plans).flatMap f) ∧
      ((Runs.run (step demo) (init demo) demoActions).Done →
        merged (Runs.run (step demo) (init demo) demoActions).log =
            demo.ideal (Runs.run (step demo) (init demo) demoActions).plans ∧
          (Runs.run (step demo) (init demo) demoActions).s.recvq = [] ∧
          (Runs.run (step demo) (init demo) demoActions).served =
            (Runs.run (step demo) (init demo) demoActions).plans.map demo.meaning) :=
  every_call_gets_the_answer_to_its_own_request (fun _ => rfl) demo_sound rfl

/-! ## The exchange goes on -/

/-- The step moves something. -/
def Useful (t : State σ) : Action → Prop
  | .core_send _ => False
  | .do_send _ nsent => 0 < nsent ∧ ∃ c rest, t.sendq = c :: rest ∧ nsent ≤ (offered c.req).length
  | .arrive n => 0 < n ∧ t.to_server ≠ []
  | .serve => (httpRequest t.unread).isSome
  | .do_recv n => 0 < n ∧ t.s.recvq ≠ [] ∧ t.to_client ≠ []

/-- What is still to be done: a byte of a request is sent, carried and read, and a byte of an answer
is received. -/
def State.todo (e : Setup σ) (t : State σ) : Nat :=
  3 * (t.sendq.map fun c => (offered c.req).length).sum + 2 * t.to_server.length + t.unread.length +
    ((e.v.answers t.server ((t.plans.drop t.served.length).map e.meaning)).map fun a =>
      a.wire.length).sum + t.to_client.length

variable {sent : List Call} {part taken : List Byte}

theorem Underway.head {xs : List Plan} {c : Call} {rest : List Call}
    (h : Underway e part xs (c :: rest)) : ∃ r, Pipeline.Sent r c.req part.length ∧
    part.length < r.full.length := by
  cases xs with
  | nil => cases h.2
  | cons x xs =>
    obtain ⟨c0, cur, rest', heq, -, hsent, -, hlt, -⟩ := h
    obtain ⟨rfl, -⟩ := List.cons.inj heq
    exact ⟨c0.req, hsent, hlt⟩

/-- A `writev` takes the bytes off those that are still to be sent. -/
theorem todo_do_send {past : Iovec} {nsent : Nat} (h : Inv e t sent part taken)
    (ha : Useful t (.do_send past nsent)) : (t.do_send past nsent).todo e < t.todo e := by
  obtain ⟨hpos, c, rest, hq, hn⟩ := ha
  have hunder := h.underway
  rw [hq] at hunder
  obtain ⟨r, hcur, -⟩ := hunder.head
  have hnew := (hcur.do_send past hn).1
  unfold State.do_send State.todo
  rw [hq]
  dsimp only
  rw [if_neg (Nat.not_lt.mpr hn)]
  by_cases hmore : (Httperf.do_send past c.req (.sent nsent)).iov_index < IE_LEN
  · rw [if_pos hmore]
    simp only [List.map_cons, List.sum_cons, List.length_append, List.length_take, hnew.offered_eq,
      hcur.offered_eq, List.length_drop] at hn ⊢
    omega
  · rw [if_neg hmore]
    simp only [List.map_cons, List.sum_cons, List.length_append, List.length_take]
    omega

theorem todo_serve (h : Inv e t sent part taken) (ha : Useful t .serve) :
    (t.serve e).todo e < t.todo e := by
  obtain ⟨⟨r, rest⟩, hr⟩ := Option.isSome_iff_exists.mp ha
  obtain ⟨x, xs, hxs, -, rfl, -⟩ := h.request hr
  have htakes := takes_httpRequest _ _ _ hr
  unfold State.serve State.todo
  rw [hr]
  dsimp only
  rw [List.length_append, List.length_singleton, (take_drop_cons hxs).2, hxs]
  simp only [List.map_cons, Server.answers, List.sum_cons, List.length_append]
  omega

theorem todo_step (hq : e.h.Quiet) {a : Action} (h : Inv e t sent part taken) (ha : Useful t a) :
    (step e t a).todo e < t.todo e := by
  unfold step
  rw [h.alive]
  cases a with
  | core_send x => exact absurd ha id
  | do_send past nsent => exact todo_do_send h ha
  | arrive n =>
    obtain ⟨hn, hne⟩ := ha
    have hlen := List.length_pos_iff.mpr hne
    change (t.arrive n).todo e < _
    unfold State.arrive State.todo
    simp only [List.length_append, List.length_take, List.length_drop]
    omega
  | serve => exact todo_serve h ha
  | do_recv n =>
    obtain ⟨hn, hwait, hne⟩ := ha
    have hlen := List.length_pos_iff.mpr hne
    have hbuf : t.to_client.take (min n 8192) ≠ [] := by
      rw [← List.length_pos_iff, List.length_take]
      omega
    obtain ⟨s', log', hrecv, -⟩ := h.do_recv hq hwait hbuf
    change (t.do_recv e n).todo e < _
    rw [hrecv]
    unfold State.todo
    simp only [List.length_drop]
    omega

/-- As long as not all is done, something can be done. -/
theorem Inv.useful (h : Inv e t sent part taken) (hnot : ¬ t.Done) : ∃ a, Useful t a := by
  cases hsend : t.sendq with
  | cons c rest =>
    have hunder := h.underway
    rw [hsend] at hunder
    obtain ⟨r, hcur, hlt⟩ := hunder.head
    refine ⟨.do_send none 1, Nat.one_pos, c, rest, hsend, ?_⟩
    rw [hcur.offered_eq, List.length_drop]
    omega
  | nil =>
  by_cases hserver : t.to_server = []
  · by_cases hunread : t.unread = []
    · have hclient : t.to_client ≠ [] := fun hnil => hnot ⟨hsend, hserver, hunread, hnil⟩
      refine ⟨.do_recv 1, Nat.one_pos, ?_, hclient⟩
      have hne : sent ≠ [] := by
        rintro rfl
        have hreplies := h.replies
        rw [List.eq_nil_of_length_eq_zero (Nat.le_zero.mp h.few)] at hreplies
        exact hclient (List.append_eq_nil_iff.mp hreplies).2
      obtain ⟨cl, hb, ch, hrest⟩ := h.rest hne
      obtain ⟨⟨c, next, hqueue, -, -⟩, -⟩ := hrest.step hclient
      intro hnil
      have hqueue : t.s.recvq.map Call.erase = c :: next := hqueue
      rw [hnil] at hqueue
      cases hqueue
    · refine ⟨.serve, ?_⟩
      have hunder := h.underway
      rw [hsend] at hunder
      have hpart := hunder.done.1
      rcases Nat.lt_or_ge t.served.length sent.length with hlt | hge
      · obtain ⟨x, xs, more, -, hcode, hbytes⟩ := h.next hlt
        rw [hserver, List.append_nil] at hbytes
        unfold Useful
        rw [← hbytes, hcode]
        rfl
      · have hlast := h.last hge
        rw [hpart, hserver, List.append_nil] at hlast
        exact absurd hlast.symm hunread
  · exact ⟨.arrive 1, Nat.one_pos, hserver⟩

theorem Useful.sound {a : Action} (ha : Useful t a) : e.Sound a := by
  cases a with
  | core_send x => exact absurd ha id
  | _ => trivial

theorem Useful.plans {a : Action} (ha : Useful t a) : (step e t a).plans = t.plans := by
  unfold step
  split_ifs
  · rfl
  cases a with
  | core_send x => exact absurd ha id
  | do_send past nsent =>
    dsimp only [State.do_send]
    split
    · rfl
    · split_ifs <;> rfl
  | arrive n => rfl
  | serve =>
    dsimp only [State.serve]
    split <;> rfl
  | do_recv n =>
    dsimp only [State.do_recv]
    split_ifs
    · rfl
    · split <;> rfl

/-- Whoever takes a step when one can be taken: after so many steps there is none left, and then all
calls have been answered. -/
theorem no_exchange_gets_stuck (hq : e.h.Quiet) (has : ∀ a ∈ as, e.Sound a)
    (ht : t = Runs.run (step e) (init e) as) {bs : List Action}
    (hbs : Runs.Meets (step e) Useful t bs) :
    bs.length ≤ t.todo e ∧
      ((∀ b, ¬ Useful (Runs.run (step e) t bs) b) →
        (Runs.run (step e) t bs).Done ∧
          merged (Runs.run (step e) t bs).log = e.ideal t.plans) := by
  have hstart := holds_run hq has (holds_init e)
  rw [← ht] at hstart
  have hkeep : ∀ s a, Holds e s ∧ s.plans = t.plans → Useful s a →
      Holds e (step e s a) ∧ (step e s a).plans = t.plans :=
    fun s a hs ha => ⟨holds_step hq ha.sound hs.1, ha.plans.trans hs.2⟩
  have hless : ∀ s a, Holds e s ∧ s.plans = t.plans → Useful s a →
      (step e s a).todo e < s.todo e := by
    rintro s a ⟨⟨_, _, _, hs⟩, -⟩ ha
    exact todo_step hq hs ha
  have hlen := hbs.length_add_le (State.todo e) hkeep hless ⟨hstart, rfl⟩
  refine ⟨by omega, fun hstop => ?_⟩
  obtain ⟨⟨_, _, _, hend⟩, hplans⟩ := (hbs.always hkeep ⟨hstart, rfl⟩).last
  have hdone : (Runs.run (step e) t bs).Done := by
    by_contra hnot
    obtain ⟨b, hb⟩ := hend.useful hnot
    exact hstop b hb
  refine ⟨hdone, ?_⟩
  rw [(hend.complete hdone).1, hplans]

theorem no_exchange_gets_stuck_demo :
    [Action.do_send none 50].length ≤
        (Runs.run (step demo) (init demo) [.core_send (twoPlans[0])]).todo demo ∧
      ((∀ b, ¬ Useful (Runs.run (step demo) (Runs.run (step demo) (init demo)
          [.core_send (twoPlans[0])]) [.do_send none 50]) b) →
        (Runs.run (step demo) (Runs.run (step demo) (init demo) [.core_send (twoPlans[0])])
          [.do_send none 50]).Done ∧
        merged (Runs.run (step demo) (Runs.run (step demo) (init demo) [.core_send (twoPlans[0])])
          [.do_send none 50]).log =
            demo.ideal (Runs.run (step demo) (init demo) [.core_send (twoPlans[0])]).plans) := by
  have has : ∀ a ∈ [Action.core_send (twoPlans[0])], demo.Sound a := by
    intro a ha
    obtain rfl := List.mem_singleton.mp ha
    exact demo_sound _ List.mem_cons_self
  exact no_exchange_gets_stuck (fun _ => rfl) has rfl
    ⟨⟨by decide, _, [], rfl, by decide +kernel⟩, trivial⟩

end

end Httperf.Exchange
