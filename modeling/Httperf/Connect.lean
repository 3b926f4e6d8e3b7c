-- The descriptor and the local ports of a connection (`core_connect`, `conn_failure` and
-- `core_close` in `core.c`, with the `select` backend). Each result of a system call is an input,
-- and a log holds what was taken and given back.
import Mathlib.Logic.Function.Basic
import Mathlib.Data.List.Count
import Mathlib.Data.List.Nodup

namespace Httperf.Connect

structure Param where
  hog : Bool
  close_with_reset : Bool
  /-- `myaddr` is `INADDR_ANY` -/
  any_address : Bool

/-- What `bind` and `connect` come to. -/
inductive Errno where
  | ok
  | EADDRINUSE
  | EADDRNOTAVAIL
  | EINPROGRESS
  | other
  deriving DecidableEq, Repr

inductive Owner where
  | me
  | other
  deriving DecidableEq, Repr

/-- `register` sets an entry of `sd_to_conn`. -/
inductive Op where
  | register (sd : Int)
  | close (sd : Int)
  | port_get (port : Int)
  | port_put (port : Int)
  deriving DecidableEq, Repr

structure Conn where
  sd : Int
  closing : Bool
  myport : Int
  deriving DecidableEq, Repr

/-- `log` holds what this connection and the others did. -/
structure World where
  conn : Conn
  sd_to_conn : Int → Option Owner
  log : List (Owner × Op)

def conn_init : Conn := ⟨-1, false, -1⟩

def init : World := ⟨conn_init, fun _ => none, []⟩

/-- The results that `core_connect` meets. -/
structure Results where
  socket : Int
  fcntl : Int
  linger : Int
  nodelay : Int
  sndbuf : Int
  rcvbuf : Int
  hash_lookup : Bool
  /-- a handler of `EV_CONN_CONNECTING` closes the connection -/
  connecting : Bool
  /-- what `port_get` gives and `bind` says, one turn behind the other. `port_get` fails behind
  them. -/
  binds : List (Int × Errno)
  bind : Errno
  connect : Errno
  /-- what the handlers of `EV_CONN_FAILED` do for others, before and behind they close the
  connection, if they do -/
  before : List Op
  closes : Bool
  behind : List Op
  /-- a port that is held is not handed out again -/
  distinct : (binds.map Prod.fst).Nodup
  positive : ∀ b ∈ binds, 0 < b.1

/-! ## The functions -/

def act (o : Owner) (w : World) (op : Op) : World :=
  { w with
    log := w.log ++ [(o, op)]
    sd_to_conn :=
      match op with
      | .register sd => Function.update w.sd_to_conn sd (some o)
      | .close sd => Function.update w.sd_to_conn sd none
      | _ => w.sd_to_conn }

def core_close (w : World) : World :=
  if w.conn.closing then w
  else
    let w1 := { w with conn := { w.conn with closing := true, sd := -1 } }
    let w2 := if w.conn.sd ≥ 0 then act .me w1 (.close w.conn.sd) else w1
    if w.conn.myport > 0 then act .me w2 (.port_put w.conn.myport) else w2

def conn_failure (r : Results) (w : World) : World :=
  let w1 := r.before.foldl (act .other) w
  let w2 := if r.closes then core_close w1 else w1
  core_close (r.behind.foldl (act .other) w2)

def failure (r : Results) (w : World) : Int × World := (-1, conn_failure r w)

/-- The loop over the ports, with `--hog`. -/
def bind_loop : List (Int × Errno) → World → Bool × World
  | [], w => (false, w)
  | (myport, errno) :: rest, w =>
    let w1 := act .me w (.port_get myport)
    if errno = .ok then (true, { w1 with conn := { w1.conn with myport } })
    else if errno ≠ .EADDRINUSE ∧ errno = .EADDRNOTAVAIL then (false, w1)
    else bind_loop rest w1

def connect (r : Results) (w : World) : Int × World :=
  match r.connect with
  | .ok => (0, w)
  | .EINPROGRESS => (0, w)
  | _ => failure r (if w.conn.myport > 0 then act .me w (.port_put w.conn.myport) else w)

def core_connect (p : Param) (r : Results) (w : World) : Int × World :=
  if r.socket < 0 then failure r w
  else if r.fcntl < 0 then failure r w
  else if p.close_with_reset ∧ r.linger < 0 then failure r w
  else if r.nodelay < 0 then failure r w
  else if r.sndbuf < 0 then failure r w
  else if r.rcvbuf < 0 then failure r w
  else
    let w1 := act .me { w with conn := { w.conn with sd := r.socket } } (.register r.socket)
    if r.hash_lookup = false then failure r w1
    else
      let w2 := if r.connecting then core_close w1 else w1
      if w2.conn.closing then failure r w2
      else if p.hog then
        let bound := bind_loop r.binds w2
        if bound.1 then connect r bound.2 else failure r bound.2
      else if p.any_address = false ∧ r.bind ≠ .ok then failure r w2
      else connect r w2

/-! ## What is to be conserved -/

/-- How often this connection did it. -/
def World.count (w : World) (op : Op) : Nat := List.count (Owner.me, op) w.log

/-- The descriptor is closed once, and its entry is cleared. -/
def Closed (sd : Int) (w : World) : Prop :=
  w.count (.close sd) = 1 ∧ w.sd_to_conn sd ≠ some .me

/-- Each port is put back as often as it was taken. -/
def Returned (w : World) : Prop := ∀ port, w.count (.port_put port) = w.count (.port_get port)

/-- Of the ports that were taken, the connection has one. -/
def Owns (w : World) : Prop :=
  0 < w.conn.myport ∧ ∀ port, w.count (.port_put port) + (if port = w.conn.myport then 1 else 0) =
    w.count (.port_get port)

def Conserves (p : Param) (r : Results) : Prop :=
  let (result, w) := core_connect p r init
  if result = -1 then (0 ≤ r.socket → Closed r.socket w) ∧ Returned w
  else (p.hog → Owns w) ∧ Returned (core_close w)

/-- The options of the socket can be set. -/
def Setup (p : Param) (r : Results) : Prop :=
  0 ≤ r.fcntl ∧ (p.close_with_reset → 0 ≤ r.linger) ∧ 0 ≤ r.nodelay ∧ 0 ≤ r.sndbuf ∧ 0 ≤ r.rcvbuf

/-- Where there is a socket its options can be set, and with `--hog` the first port, if there is
one, can be bound and connected. -/
def Spared (p : Param) (r : Results) : Prop :=
  0 ≤ r.socket → Setup p r ∧
    (r.hash_lookup → r.connecting = false → p.hog → ∀ b ∈ r.binds.head?,
      b.2 = .ok ∧ (r.connect = .ok ∨ r.connect = .EINPROGRESS))

/-! ## Counts -/

variable {r : Results} {p : Param} {w : World}

@[simp] theorem act_conn (o : Owner) (w : World) (op : Op) : (act o w op).conn = w.conn := rfl

theorem act_me_count (w : World) (op op' : Op) :
    (act .me w op).count op' = w.count op' + if op = op' then 1 else 0 := by
  unfold World.count act
  dsimp only
  rw [List.count_append, List.count_singleton]
  simp

theorem others_count (ops : List Op) (w : World) (op : Op) :
    (ops.foldl (act .other) w).count op = w.count op := by
  induction ops generalizing w with
  | nil => rfl
  | cons x ops ih =>
    rw [List.foldl_cons, ih]
    unfold World.count act
    dsimp only
    rw [List.count_append, List.count_singleton]
    simp

theorem others_conn (ops : List Op) (w : World) : (ops.foldl (act .other) w).conn = w.conn := by
  induction ops generalizing w with
  | nil => rfl
  | cons x ops ih => exact ih _

/-- The others set no entry to this connection. -/
theorem others_sd_to_conn (ops : List Op) (sd : Int) (h : w.sd_to_conn sd ≠ some .me) :
    (ops.foldl (act .other) w).sd_to_conn sd ≠ some .me := by
  induction ops generalizing w with
  | nil => exact h
  | cons x ops ih =>
    apply ih
    cases x with
    | register sd' =>
      by_cases hsd : sd = sd'
      · simp [act, hsd]
      · simpa [act, hsd] using h
    | close sd' =>
      by_cases hsd : sd = sd'
      · simp [act, hsd]
      · simpa [act, hsd] using h
    | port_get port => exact h
    | port_put port => exact h

theorem core_close_closing (h : w.conn.closing = true) : core_close w = w := if_pos h

/-- What `core_close` gives back: the descriptor and the port, unless the connection is closed. -/
def gives (c : Conn) (op : Op) : Nat :=
  if c.closing then 0
  else (if 0 ≤ c.sd ∧ op = .close c.sd then 1 else 0) +
    if 0 < c.myport ∧ op = .port_put c.myport then 1 else 0

theorem core_close_count (w : World) (op : Op) :
    (core_close w).count op = w.count op + gives w.conn op := by
  unfold core_close gives
  by_cases hc : w.conn.closing = true
  · rw [if_pos hc, if_pos hc]
    rfl
  · rw [if_neg hc, if_neg hc]
    dsimp only
    by_cases hsd : w.conn.sd ≥ 0
    · by_cases hport : w.conn.myport > 0
      · rw [if_pos hsd, if_pos hport, act_me_count, act_me_count]
        simp [World.count, hsd, hport, eq_comm, Nat.add_assoc]
      · rw [if_pos hsd, if_neg hport, act_me_count]
        simp [World.count, hsd, hport, eq_comm]
    · by_cases hport : w.conn.myport > 0
      · rw [if_neg hsd, if_pos hport, act_me_count]
        simp [World.count, hsd, hport, eq_comm]
      · rw [if_neg hsd, if_neg hport]
        simp [World.count, hsd, hport]

theorem core_close_conn (w : World) : (core_close w).conn.closing = true := by
  unfold core_close
  split
  · assumption
  · dsimp only
    split <;> split <;> rfl

/-- The entry of a descriptor that is given back is cleared, and no entry is set. -/
theorem core_close_sd_to_conn (w : World) {sd : Int}
    (h : w.sd_to_conn sd ≠ some .me ∨ w.conn.closing = false ∧ 0 ≤ sd ∧ sd = w.conn.sd) :
    (core_close w).sd_to_conn sd ≠ some .me := by
  unfold core_close
  by_cases hc : w.conn.closing = true
  · rw [if_pos hc]
    exact h.resolve_right fun hopen => Bool.false_ne_true (hopen.1.symm.trans hc)
  · rw [if_neg hc]
    dsimp only
    have hclear : (if w.conn.sd ≥ 0 then
        act .me { w with conn := { w.conn with closing := true, sd := -1 } } (.close w.conn.sd)
        else { w with conn := { w.conn with closing := true, sd := -1 } }).sd_to_conn sd ≠
          some .me := by
      by_cases hsd : w.conn.sd ≥ 0
      · rw [if_pos hsd]
        by_cases heq : sd = w.conn.sd
        · simp [act, heq]
        · simpa [act, heq] using h
      · rw [if_neg hsd]
        exact h.resolve_right fun hopen => hsd (hopen.2.2 ▸ hopen.2.1)
    split <;> exact hclear

/-- The handlers in between change nothing about it. -/
theorem conn_failure_count (r : Results) (w : World) (op : Op) :
    (conn_failure r w).count op = w.count op + gives w.conn op := by
  unfold conn_failure
  dsimp only
  rw [core_close_count, others_count, others_conn]
  by_cases hcloses : r.closes = true
  · rw [if_pos hcloses, core_close_count, others_count, others_conn]
    have hnothing : gives (core_close (r.before.foldl (act .other) w)).conn op = 0 :=
      if_pos (core_close_conn _)
    rw [hnothing, Nat.add_zero]
  · rw [if_neg hcloses, others_count, others_conn]

theorem conn_failure_sd_to_conn (r : Results) (w : World) {sd : Int}
    (h : w.sd_to_conn sd ≠ some .me ∨ w.conn.closing = false ∧ 0 ≤ sd ∧ sd = w.conn.sd) :
    (conn_failure r w).sd_to_conn sd ≠ some .me := by
  have hbefore : (r.before.foldl (act .other) w).sd_to_conn sd ≠ some .me ∨
      (r.before.foldl (act .other) w).conn.closing = false ∧ 0 ≤ sd ∧
        sd = (r.before.foldl (act .other) w).conn.sd := by
    rw [others_conn]
    exact h.imp_left fun hno => others_sd_to_conn r.before sd hno
  unfold conn_failure
  dsimp only
  apply core_close_sd_to_conn
  by_cases hcloses : r.closes = true
  · rw [if_pos hcloses]
    left
    exact others_sd_to_conn r.behind sd (core_close_sd_to_conn _ hbefore)
  · rw [if_neg hcloses, others_conn]
    exact hbefore.imp_left fun hno => others_sd_to_conn r.behind sd hno

/-- The loop over the ports takes ports, and that is all. -/
theorem bind_loop_spec (bs : List (Int × Errno)) (w : World) :
    (bind_loop bs w).2.conn.closing = w.conn.closing ∧ (bind_loop bs w).2.conn.sd = w.conn.sd ∧
      (∀ sd, (bind_loop bs w).2.count (.close sd) = w.count (.close sd)) ∧
      (∀ port, (bind_loop bs w).2.count (.port_put port) = w.count (.port_put port)) ∧
      (∀ port, w.count (.port_get port) ≤ (bind_loop bs w).2.count (.port_get port)) ∧
      ((bind_loop bs w).2.conn.myport = w.conn.myport ∨
        (bind_loop bs w).2.conn.myport ∈ bs.map Prod.fst) := by
  induction bs generalizing w with
  | nil => exact ⟨rfl, rfl, fun _ => rfl, fun _ => rfl, fun _ => Nat.le_refl _, Or.inl rfl⟩
  | cons b bs ih =>
    obtain ⟨port, errno⟩ := b
    have hclose : ∀ sd, (act .me w (.port_get port)).count (.close sd) = w.count (.close sd) := by
      intro sd
      rw [act_me_count]
      simp
    have hput : ∀ q, (act .me w (.port_get port)).count (.port_put q) = w.count (.port_put q) := by
      intro q
      rw [act_me_count]
      simp
    have hget : ∀ q, w.count (.port_get q) ≤ (act .me w (.port_get port)).count (.port_get q) := by
      intro q
      rw [act_me_count]
      exact Nat.le_add_right _ _
    unfold bind_loop
    dsimp only
    split
    · exact ⟨rfl, rfl, hclose, hput, hget, Or.inr List.mem_cons_self⟩
    · split
      · exact ⟨rfl, rfl, hclose, hput, hget, Or.inl rfl⟩
      · obtain ⟨hclosing, hsd, hcloses, hputs, hgets, hmyport⟩ := ih (act .me w (.port_get port))
        exact ⟨hclosing, hsd, fun sd => (hcloses sd).trans (hclose sd),
          fun q => (hputs q).trans (hput q), fun q => Nat.le_trans (hget q) (hgets q),
          hmyport.imp_right (List.mem_cons_of_mem _)⟩

/-! ## The exits -/

/-- A connection that fails while its descriptor is open. -/
theorem failure_conserves_iff {sd : Int} (hopen : w.conn.closing = false) (hsd : w.conn.sd = sd)
    (hpos : 0 ≤ sd) (hclose : w.count (.close sd) = 0) :
    ((0 ≤ sd → Closed sd (conn_failure r w)) ∧ Returned (conn_failure r w)) ↔
      ∀ port, w.count (.port_put port) +
        (if 0 < w.conn.myport ∧ port = w.conn.myport then 1 else 0) = w.count (.port_get port) := by
  have hclosed : Closed sd (conn_failure r w) := by
    refine ⟨?_, conn_failure_sd_to_conn r w (Or.inr ⟨hopen, hpos, hsd.symm⟩)⟩
    rw [conn_failure_count, hclose]
    simp [gives, hopen, hsd, hpos]
  have hreturned : Returned (conn_failure r w) ↔ ∀ port, w.count (.port_put port) +
      (if 0 < w.conn.myport ∧ port = w.conn.myport then 1 else 0) = w.count (.port_get port) := by
    unfold Returned
    apply forall_congr'
    intro port
    rw [conn_failure_count, conn_failure_count]
    simp [gives, hopen]
  rw [hreturned]
  exact ⟨fun h => h.2, fun h => ⟨fun _ => hclosed, h⟩⟩

/-- The world behind `s->sd = sd`. -/
def opened (r : Results) : World :=
  act .me { init with conn := { init.conn with sd := r.socket } } (.register r.socket)

theorem opened_count (r : Results) {op : Op} (h : op ≠ .register r.socket) :
    (opened r).count op = 0 := by
  unfold opened
  rw [act_me_count, if_neg (Ne.symm h)]
  rfl

theorem opened_close (r : Results) (sd : Int) : (opened r).count (.close sd) = 0 :=
  opened_count r nofun

theorem opened_port_put (r : Results) (port : Int) : (opened r).count (.port_put port) = 0 :=
  opened_count r nofun

theorem opened_port_get (r : Results) (port : Int) : (opened r).count (.port_get port) = 0 :=
  opened_count r nofun

theorem core_connect_setup (hsocket : 0 ≤ r.socket) (h : Setup p r) :
    core_connect p r init =
      if r.hash_lookup = false then failure r (opened r)
      else
        let w := if r.connecting then core_close (opened r) else opened r
        if w.conn.closing then failure r w
        else if p.hog then
          let bound := bind_loop r.binds w
          if bound.1 then connect r bound.2 else failure r bound.2
        else if p.any_address = false ∧ r.bind ≠ .ok then failure r w
        else connect r w := by
  obtain ⟨hfcntl, hlinger, hnodelay, hsndbuf, hrcvbuf⟩ := h
  unfold core_connect
  rw [if_neg (by omega), if_neg (by omega), if_neg fun h => by have := hlinger h.1; omega,
    if_neg (by omega), if_neg (by omega), if_neg (by omega)]
  rfl

theorem core_connect_no_setup (h : ¬ Setup p r) : core_connect p r init = failure r init := by
  unfold core_connect
  split
  · rfl
  · split
    · rfl
    · split
      · rfl
      · split
        · rfl
        · split
          · rfl
          · split
            · rfl
            · rename_i hfcntl hlinger hnodelay hsndbuf hrcvbuf
              apply absurd _ h
              refine ⟨by omega, fun hreset => ?_, by omega, by omega, by omega⟩
              by_contra hneg
              exact hlinger ⟨hreset, by omega⟩

theorem conserves_failure (h : core_connect p r init = failure r w) :
    Conserves p r ↔ (0 ≤ r.socket → Closed r.socket (conn_failure r w)) ∧
    Returned (conn_failure r w) := by
  unfold Conserves
  rw [h]
  exact Iff.rfl

theorem conserves_success (h : core_connect p r init = (0, w)) :
    Conserves p r ↔ (p.hog → Owns w) ∧ Returned (core_close w) := by
  unfold Conserves
  rw [h]
  exact Iff.rfl

/-- Without a socket there is nothing to give back. -/
theorem conserves_no_socket (hsocket : r.socket < 0) : Conserves p r := by
  have h : core_connect p r init = failure r init := if_pos hsocket
  rw [conserves_failure h]
  refine ⟨fun hno => by omega, fun port => ?_⟩
  rw [conn_failure_count, conn_failure_count]
  simp [gives, init, conn_init, World.count]

/-- The descriptor is not yet in the connection, so nothing closes it. -/
theorem not_conserves_no_setup (hsocket : 0 ≤ r.socket) (h : ¬ Setup p r) : ¬ Conserves p r := by
  rw [conserves_failure (core_connect_no_setup h)]
  rintro ⟨hclosed, _⟩
  have hcount := (hclosed hsocket).1
  rw [conn_failure_count] at hcount
  simp [gives, init, conn_init, World.count] at hcount

/-- A failure while no port is taken. -/
theorem conserves_opened (hsocket : 0 ≤ r.socket)
    (h : core_connect p r init = failure r (opened r)) :
    Conserves p r := by
  have hopened : (0 ≤ r.socket → Closed r.socket (conn_failure r (opened r))) ∧
      Returned (conn_failure r (opened r)) := by
    apply (failure_conserves_iff rfl rfl hsocket (opened_close r _)).mpr
    intro port
    rw [opened_port_put, opened_port_get]
    rfl
  exact (conserves_failure h).mpr hopened

/-- The handler has closed the connection. -/
theorem conserves_closed (hsocket : 0 ≤ r.socket)
    (h : core_connect p r init = failure r (core_close (opened r))) : Conserves p r := by
  have hgives : ∀ op, gives (core_close (opened r)).conn op = 0 :=
    fun op => if_pos (core_close_conn _)
  rw [conserves_failure h]
  refine ⟨fun _ => ⟨?_, ?_⟩, fun port => ?_⟩
  · rw [conn_failure_count, hgives, core_close_count, opened_close]
    simp [gives, opened, init, conn_init, hsocket]
  · apply conn_failure_sd_to_conn
    left
    exact core_close_sd_to_conn _ (Or.inr ⟨rfl, hsocket, rfl⟩)
  · rw [conn_failure_count, conn_failure_count, hgives, hgives, core_close_count, core_close_count,
      opened_port_put, opened_port_get]
    simp [gives, opened, init, conn_init]

/-- The end of `core_connect`, with the port that the connection has. -/
theorem connect_conserves_iff (hopen : w.conn.closing = false) (hsd : w.conn.sd = r.socket)
    (hsocket : 0 ≤ r.socket) (hclose : w.count (.close r.socket) = 0)
    (h : core_connect p r init = connect r w) :
    Conserves p r ↔
      if r.connect = .ok ∨ r.connect = .EINPROGRESS then (p.hog → Owns w) ∧ Returned (core_close w)
      else ∀ port, w.count (.port_put port) +
        (if 0 < w.conn.myport ∧ port = w.conn.myport then 2 else 0) = w.count (.port_get port) := by
  have hfailed : ¬ (r.connect = .ok ∨ r.connect = .EINPROGRESS) →
      connect r w =
        failure r (if w.conn.myport > 0 then act .me w (.port_put w.conn.myport) else w) := by
    intro hno
    unfold connect
    split
    · exact absurd (Or.inl ‹_›) hno
    · exact absurd (Or.inr ‹_›) hno
    · rfl
  by_cases hconnect : r.connect = .ok ∨ r.connect = .EINPROGRESS
  · rw [if_pos hconnect]
    apply conserves_success
    rw [h]
    rcases hconnect with hok | hprogress
    · rw [connect, hok]
    · rw [connect, hprogress]
  · rw [if_neg hconnect, conserves_failure (h.trans (hfailed hconnect))]
    by_cases hport : w.conn.myport > 0
    · rw [if_pos hport]
      apply (failure_conserves_iff (w := act .me w (.port_put w.conn.myport)) hopen hsd hsocket
        (by rw [act_me_count, hclose]; rfl)).trans
      apply forall_congr'
      intro port
      have hget : (act .me w (.port_put w.conn.myport)).count (.port_get port) =
          w.count (.port_get port) := by
        rw [act_me_count, if_neg nofun, Nat.add_zero]
      rw [hget, act_me_count]
      by_cases heq : port = w.conn.myport
      · simp [hport, heq, Nat.add_assoc]
      · simp [heq, Ne.symm heq]
    · rw [if_neg hport]
      apply (failure_conserves_iff hopen hsd hsocket hclose).trans
      apply forall_congr'
      intro port
      rw [if_neg fun hno => hport hno.1, if_neg fun hno => hport hno.1]

/-- A port that cannot be bound is never put back. -/
theorem not_conserves_unbound (hsocket : 0 ≤ r.socket) (hhog : p.hog = true) {port : Int}
    {errno : Errno} {rest : List (Int × Errno)} (hbinds : r.binds = (port, errno) :: rest)
    (herrno : errno ≠ .ok)
    (h : core_connect p r init = if (bind_loop r.binds (opened r)).1
      then connect r (bind_loop r.binds (opened r)).2
      else failure r (bind_loop r.binds (opened r)).2) :
    ¬ Conserves p r := by
  have hpositive := r.positive (port, errno) (by rw [hbinds]; exact List.mem_cons_self)
  have hdistinct := r.distinct
  rw [hbinds, List.map_cons, List.nodup_cons] at hdistinct
  -- the world behind the loop
  have hw : ∀ w, (bind_loop r.binds (opened r)).2 = w → w.conn.closing = false ∧
      w.conn.sd = r.socket ∧ w.conn.myport ≠ port ∧ w.count (.close r.socket) = 0 ∧
      w.count (.port_put port) = 0 ∧ 0 < w.count (.port_get port) := by
    rintro w rfl
    have hget : (act .me (opened r) (.port_get port)).count (.port_get port) = 1 := by
      rw [act_me_count, opened_port_get, if_pos rfl]
    have hclose : (act .me (opened r) (.port_get port)).count (.close r.socket) = 0 := by
      rw [act_me_count, opened_close, if_neg nofun]
    have hput : (act .me (opened r) (.port_get port)).count (.port_put port) = 0 := by
      rw [act_me_count, opened_port_put, if_neg nofun]
    rw [hbinds, bind_loop]
    dsimp only
    rw [if_neg herrno]
    split
    · refine ⟨rfl, rfl, fun heq => ?_, hclose, hput, hget.symm ▸ Nat.zero_lt_one⟩
      have : (-1 : Int) = port := heq
      omega
    · obtain ⟨hclosing, hsd, hcloses, hputs, hgets, hmyport⟩ :=
        bind_loop_spec rest (act .me (opened r) (.port_get port))
      refine ⟨hclosing, hsd, fun heq => ?_, (hcloses _).trans hclose, (hputs _).trans hput, ?_⟩
      · rcases hmyport with hsame | hmem
        · have : (-1 : Int) = port := hsame.symm.trans heq
          omega
        · exact hdistinct.1 (heq ▸ hmem)
      · have := hgets port
        omega
  generalize (bind_loop r.binds (opened r)).2 = w at hw h
  obtain ⟨hopen, hsd, hne, hclose, hput, hget⟩ := hw w rfl
  have hno : ∀ k, ¬ ∀ q, w.count (.port_put q) +
      (if 0 < w.conn.myport ∧ q = w.conn.myport then k else 0) =
      w.count (.port_get q) := by
    intro k hall
    have hport := hall port
    rw [if_neg fun hmine => hne hmine.2.symm] at hport
    omega
  by_cases hbound : (bind_loop r.binds (opened r)).1 = true
  · rw [if_pos hbound] at h
    rw [connect_conserves_iff hopen hsd hsocket hclose h]
    split
    · rintro ⟨howns, _⟩
      have hport := (howns hhog).2 port
      rw [if_neg hne.symm] at hport
      omega
    · exact hno 2
  · rw [if_neg hbound] at h
    rw [conserves_failure h]
    intro hfailed
    exact hno 1 ((failure_conserves_iff hopen hsd hsocket hclose).mp hfailed)

/-- The first port is bound. -/
theorem bound_conserves_iff (hsocket : 0 ≤ r.socket) {port : Int}
    {rest : List (Int × Errno)} (hbinds : r.binds = (port, .ok) :: rest)
    (h : core_connect p r init = if (bind_loop r.binds (opened r)).1
      then connect r (bind_loop r.binds (opened r)).2
      else failure r (bind_loop r.binds (opened r)).2) :
    Conserves p r ↔ r.connect = .ok ∨ r.connect = .EINPROGRESS := by
  have hpositive : 0 < port := r.positive (port, .ok) (by rw [hbinds]; exact List.mem_cons_self)
  have hloop : bind_loop r.binds (opened r) = (true, { act .me (opened r) (.port_get port) with
      conn := ⟨r.socket, false, port⟩ }) := by
    rw [hbinds]
    rfl
  rw [hloop, if_pos rfl] at h
  dsimp only at h
  generalize hw :
    ({ act .me (opened r) (.port_get port) with conn := ⟨r.socket, false, port⟩ } : World) =
    w at h
  have hconn : w.conn = ⟨r.socket, false, port⟩ := by rw [← hw]
  have hcount : ∀ op, w.count op = (act .me (opened r) (.port_get port)).count op := by
    intro op
    rw [← hw]
    rfl
  have hclose : w.count (.close r.socket) = 0 := by
    rw [hcount, act_me_count, opened_close, if_neg nofun]
  have hput : ∀ q, w.count (.port_put q) = 0 := by
    intro q
    rw [hcount, act_me_count, opened_port_put, if_neg nofun]
  have hget : ∀ q, w.count (.port_get q) = if q = port then 1 else 0 := by
    intro q
    rw [hcount, act_me_count, opened_port_get]
    simp [eq_comm]
  have hmyport : w.conn.myport = port := by rw [hconn]
  rw [connect_conserves_iff (by rw [hconn]) (by rw [hconn]) hsocket hclose h]
  split
  · rename_i hconnect
    refine ⟨fun _ => hconnect,
      fun _ => ⟨fun _ => ⟨hmyport.symm ▸ hpositive, fun q => ?_⟩, fun q => ?_⟩⟩
    · rw [hput, hget, hmyport, Nat.zero_add]
    · rw [core_close_count, core_close_count, hput, hget, hconn]
      simp [gives, hpositive]
  · rename_i hconnect
    refine ⟨fun hall => ?_, fun hno => absurd hno hconnect⟩
    have hport := hall port
    rw [hput, hget, hmyport, if_pos ⟨hpositive, rfl⟩, if_pos rfl] at hport
    cases hport

/-- `core_connect` gives back what it took, and `core_close` the rest, exactly when the options of
its socket can be set and, with `--hog`, the first port can be bound and connected. -/
theorem core_connect_conserves_iff (p : Param) (r : Results) : Conserves p r ↔ Spared p r := by
  unfold Spared
  by_cases hsocket : 0 ≤ r.socket
  · have hdrop : ∀ C : Prop, (0 ≤ r.socket → C) ↔ C := fun C => ⟨fun h => h hsocket, fun h _ => h⟩
    rw [hdrop]
    by_cases hsetup : Setup p r
    · have hrest := core_connect_setup hsocket hsetup
      have hspared : ∀ C : Prop, Setup p r ∧ C ↔ C := fun C => and_iff_right hsetup
      rw [hspared]
      cases hlookup : r.hash_lookup with
      | false =>
        rw [hlookup, if_pos rfl] at hrest
        exact ⟨fun _ h => (nomatch h), fun _ => conserves_opened hsocket hrest⟩
      | true =>
        rw [hlookup, if_neg nofun] at hrest
        cases hconnecting : r.connecting with
        | true =>
          rw [hconnecting, if_pos rfl] at hrest
          dsimp only at hrest
          rw [if_pos (core_close_conn _)] at hrest
          exact ⟨fun _ _ h => (nomatch h), fun _ => conserves_closed hsocket hrest⟩
        | false =>
          rw [hconnecting, if_neg Bool.false_ne_true] at hrest
          dsimp only at hrest
          rw [if_neg (show ¬ (opened r).conn.closing = true from Bool.false_ne_true)] at hrest
          cases hhog : p.hog with
          | false =>
            rw [hhog, if_neg Bool.false_ne_true] at hrest
            refine ⟨fun _ _ _ h => (nomatch h), fun _ => ?_⟩
            split at hrest
            · exact conserves_opened hsocket hrest
            · rw [connect_conserves_iff rfl rfl hsocket (opened_close r _) hrest, hhog]
              split
              · refine ⟨fun h => (nomatch h), fun q => ?_⟩
                rw [core_close_count, core_close_count, opened_port_put, opened_port_get]
                simp [gives, opened, init, conn_init]
              · intro q
                rw [opened_port_put, opened_port_get]
                rfl
          | true =>
            rw [hhog, if_pos rfl] at hrest
            have hdrop : ∀ C : Prop, (true = true → false = false → true = true → C) ↔ C :=
              fun C => ⟨fun h => h rfl rfl rfl, fun h _ _ _ => h⟩
            rw [hdrop]
            rcases hbinds : r.binds with _ | ⟨⟨port, errno⟩, rest⟩
            · rw [hbinds] at hrest
              exact ⟨fun _ b hb => (nomatch hb), fun _ => conserves_opened hsocket hrest⟩
            · by_cases herrno : errno = .ok
              · rw [herrno] at hbinds ⊢
                rw [bound_conserves_iff hsocket hbinds hrest]
                simp
              · constructor
                · intro h
                  exact absurd h (not_conserves_unbound hsocket hhog hbinds herrno hrest)
                · intro h
                  exact absurd (h (port, errno) rfl).1 herrno
    · exact ⟨fun h => absurd h (not_conserves_no_setup hsocket hsetup), fun h => absurd h.1 hsetup⟩
  · exact ⟨fun _ h => absurd h hsocket, fun _ => conserves_no_socket (by omega)⟩

/-- `connect` fails. `core_connect` puts the port back, and `core_close` once more. -/
theorem a_port_is_put_back_twice :
    ¬ Conserves ⟨true, false, true⟩
      { socket := 5, fcntl := 0, linger := 0, nodelay := 0, sndbuf := 0, rcvbuf := 0
        hash_lookup := true, connecting := false, binds := [(1024, .ok)], bind := .ok
        connect := .other, before := [], closes := false, behind := []
        distinct := by decide, positive := by decide } := by
  rintro ⟨_, hreturned⟩
  exact absurd (hreturned 1024) (by decide)

end Httperf.Connect
