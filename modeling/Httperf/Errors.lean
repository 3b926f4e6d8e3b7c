-- The error counters (`conn_timeout`, `conn_fail` and `dump` in `basic.c`), and how the value of
-- `errno` gets there from `core_connect`, `do_send` and `do_recv` of `core.c`. `port_get` sets no
-- `errno`, and `conn_fail` has no case for `EADDRNOTAVAIL`.
import Httperf.Lib.Runs
import Mathlib.Data.List.Basic

namespace Httperf.Errors

/-- The values of `errno` that the program looks for, and all others. -/
inductive Errno where
  | zero
  | EAGAIN
  | EADDRINUSE
  | EADDRNOTAVAIL
  | EINPROGRESS
  | EINVAL
  | EMFILE
  | ENFILE
  | ECONNREFUSED
  | ETIMEDOUT
  | EPIPE
  | ECONNRESET
  | other (err : Nat)
  deriving DecidableEq, Repr

/-! ## The counters -/

structure Basic where
  num_client_timeouts : Nat
  num_sock_timeouts : Nat
  num_sock_refused : Nat
  num_sock_reset : Nat
  num_sock_fdunavail : Nat
  num_sock_addrunavail : Nat
  num_sock_ftabfull : Nat
  num_other_errors : Nat
  deriving DecidableEq, Repr

def conn_timeout (basic : Basic) : Basic :=
  { basic with num_client_timeouts := basic.num_client_timeouts + 1 }

def conn_fail (err : Errno) (basic : Basic) : Basic :=
  match err with
  | .EINVAL | .EMFILE => { basic with num_sock_fdunavail := basic.num_sock_fdunavail + 1 }
  | .ENFILE => { basic with num_sock_ftabfull := basic.num_sock_ftabfull + 1 }
  | .ECONNREFUSED => { basic with num_sock_refused := basic.num_sock_refused + 1 }
  | .ETIMEDOUT => { basic with num_sock_timeouts := basic.num_sock_timeouts + 1 }
  | .EPIPE | .ECONNRESET => { basic with num_sock_reset := basic.num_sock_reset + 1 }
  | _ => { basic with num_other_errors := basic.num_other_errors + 1 }

/-- The total that `dump` prints. -/
def Basic.total (basic : Basic) : Nat :=
  basic.num_client_timeouts + basic.num_sock_timeouts + basic.num_sock_fdunavail +
    basic.num_sock_ftabfull + basic.num_sock_refused + basic.num_sock_reset +
    basic.num_sock_addrunavail + basic.num_other_errors

/-- The names that `dump` prints behind the total. -/
inductive Class where
  | client_timo
  | socket_timo
  | connrefused
  | connreset
  | fd_unavail
  | addrunavail
  | ftab_full
  | other
  deriving DecidableEq, Repr

def Basic.count (basic : Basic) : Class → Nat
  | .client_timo => basic.num_client_timeouts
  | .socket_timo => basic.num_sock_timeouts
  | .connrefused => basic.num_sock_refused
  | .connreset => basic.num_sock_reset
  | .fd_unavail => basic.num_sock_fdunavail
  | .addrunavail => basic.num_sock_addrunavail
  | .ftab_full => basic.num_sock_ftabfull
  | .other => basic.num_other_errors

/-! ## Where the failures come from -/

structure Param where
  hog : Bool
  close_with_reset : Bool
  /-- `myaddr` is `INADDR_ANY` -/
  any_address : Bool

/-- What the last turn of a `SYSCALL` comes to (`none`: it succeeds, and `errno` stays 0). -/
abbrev Outcome := Option Errno

/-- What `getsockopt` with `SO_ERROR` comes to. -/
structure SoError where
  result : Outcome
  async_errno : Errno

/-- The results that `core_connect` meets. -/
structure Results where
  socket : Outcome
  fcntl : Outcome
  linger : Outcome
  nodelay : Outcome
  sndbuf : Outcome
  rcvbuf : Outcome
  /-- the table `sd_to_conn` is made longer, with the `select` backend -/
  realloc : Outcome
  hash_lookup : Bool
  /-- a handler of `EV_CONN_CONNECTING` closes the connection -/
  closed : Bool
  /-- `errno` behind the handlers of `EV_CONN_CONNECTING` -/
  left : Errno
  /-- what `bind` says, one turn behind the other. `port_get` fails behind them. -/
  binds : List Outcome
  bind : Outcome
  connect : Outcome
  so_error : SoError

/-- Go on, or go to `failure` with this value of `errno`. -/
def check : Outcome → Except Errno Unit
  | none => .ok ()
  | some err => .error err

/-- `errno` behind `getsockopt`, where a call has failed with `err`. -/
def so_errno (so : SoError) (err : Errno) : Errno :=
  match so.result with
  | some err' => err'
  | none => if so.async_errno ≠ .zero then so.async_errno else err

/-- The loop over the ports, with `--hog`. `err` is the value that `errno` has. -/
def bind_loop : Errno → List Outcome → Except Errno Unit
  | err, [] => .error err
  | _, none :: _ => .ok ()
  | _, some err :: rest =>
    if err ≠ .EADDRINUSE ∧ err = .EADDRNOTAVAIL then .error err else bind_loop err rest

def connect (r : Results) : Except Errno Unit :=
  match r.connect with
  | none => .ok ()
  | some .EINPROGRESS => .ok ()
  | some err => .error (so_errno r.so_error err)

/-- `core_connect`, up to the value that it hands to `conn_failure`. -/
def core_connect (p : Param) (r : Results) : Except Errno Unit := do
  check r.socket
  check r.fcntl
  if p.close_with_reset then check r.linger
  check r.nodelay
  check r.sndbuf
  check r.rcvbuf
  check r.realloc
  -- no call has failed since `socket`
  if r.hash_lookup = false then throw .zero
  if r.closed then throw r.left
  if p.hog then bind_loop r.left r.binds
  else if p.any_address = false then check r.bind
  connect r

/-- `do_send`, when `writev` is called. -/
def do_send (writev : Outcome) (so : SoError) : Except Errno Unit :=
  match writev with
  | none => .ok ()
  | some .EAGAIN => .ok ()
  | some err => .error (so_errno so err)

/-- What `read` comes to, and whether `s->state` is `S_REPLY_DATA`. -/
inductive Read where
  | bytes
  | eof (data : Bool)
  | error (err : Errno)
  deriving DecidableEq, Repr

def do_recv : Read → Except Errno Unit
  | .bytes => .ok ()
  | .error .EAGAIN => .ok ()
  | .error err => .error err
  | .eof true => .ok ()
  | .eof false => .error .ECONNRESET

/-! ## What the counters are for -/

/-- Why a connection failed, with what the system said. -/
inductive Cause where
  | socket (err : Errno)
  /-- `fcntl`, `setsockopt` or `realloc` -/
  | setup (err : Errno)
  | unknown_server
  | closed (left : Errno)
  | out_of_ports (left : Errno)
  | bind (err : Errno)
  | connect (err : Errno) (so : SoError)
  | writev (err : Errno) (so : SoError)
  | read (err : Errno)
  | end_of_stream

/-- The error of the connection: the one that is pending on the socket, if there is one. -/
def SoError.pending (so : SoError) (err : Errno) : Errno :=
  if so.result = none ∧ so.async_errno ≠ .zero then so.async_errno else err

/-- The class of an error value, as the manual has it. -/
def Errno.documented : Errno → Class
  | .EADDRNOTAVAIL => .addrunavail
  | .EMFILE => .fd_unavail
  | .ENFILE => .ftab_full
  | .ECONNREFUSED => .connrefused
  | .ETIMEDOUT => .socket_timo
  | .EPIPE | .ECONNRESET => .connreset
  | _ => .other

/-- The class of a cause, as the manual has it. `socket` has a second way to say that the process is
out of descriptors. -/
def Cause.documented : Cause → Class
  | .socket .EINVAL => .fd_unavail
  | .socket err | .setup err | .bind err | .read err => err.documented
  | .connect err so | .writev err so => (so.pending err).documented
  | .out_of_ports _ => .addrunavail
  | .end_of_stream => .connreset
  | .unknown_server | .closed _ => .other

/-- The value of `errno` that a cause leaves behind. -/
def Cause.errno : Cause → Errno
  | .socket err | .setup err | .bind err | .read err => err
  | .connect err so | .writev err so => so_errno so err
  | .closed left | .out_of_ports left => left
  | .unknown_server => .zero
  | .end_of_stream => .ECONNRESET

/-- A connection attempt, a call of `writev`, a call of `read`, or the end of a watchdog. -/
inductive Step where
  | timeout
  | connect (p : Param) (r : Results)
  | send (writev : Outcome) (so : SoError)
  | recv (read : Read)

/-- What the program hands to `conn_failure` in the step. -/
def Step.failure : Step → Except Errno Unit
  | .timeout => .ok ()
  | .connect p r => core_connect p r
  | .send writev so => do_send writev so
  | .recv read => do_recv read

/-- Why the loop over the ports fails. -/
def ports_cause : Errno → List Outcome → Option Cause
  | left, [] => some (.out_of_ports left)
  | _, none :: _ => none
  | _, some err :: rest =>
    if err = .EADDRNOTAVAIL then some (.bind err) else ports_cause err rest

def address_cause (p : Param) (r : Results) : Option Cause :=
  if p.hog then ports_cause r.left r.binds
  else if p.any_address then none
  else r.bind.map .bind

def connect_cause (r : Results) : Option Cause :=
  match r.connect with
  | none => none
  | some .EINPROGRESS => none
  | some err => some (.connect err r.so_error)

/-- The first part of a connection attempt that fails. -/
def core_connect_cause (p : Param) (r : Results) : Option Cause :=
  r.socket.map .socket <|> r.fcntl.map .setup <|>
    (if p.close_with_reset then r.linger.map .setup else none) <|>
    r.nodelay.map .setup <|> r.sndbuf.map .setup <|> r.rcvbuf.map .setup <|>
    r.realloc.map .setup <|>
    (if r.hash_lookup then none else some .unknown_server) <|>
    (if r.closed then some (.closed r.left) else none) <|>
    address_cause p r <|> connect_cause r

def do_send_cause (writev : Outcome) (so : SoError) : Option Cause :=
  match writev with
  | none => none
  | some .EAGAIN => none
  | some err => some (.writev err so)

def do_recv_cause : Read → Option Cause
  | .bytes => none
  | .error .EAGAIN => none
  | .error err => some (.read err)
  | .eof true => none
  | .eof false => some .end_of_stream

def Step.cause : Step → Option Cause
  | .timeout => none
  | .connect p r => core_connect_cause p r
  | .send writev so => do_send_cause writev so
  | .recv read => do_recv_cause read

/-- The counters, with what has happened: the signals, the timeouts among them, and the causes. -/
structure State where
  basic : Basic
  signals : Nat
  timeouts : Nat
  causes : List Cause

def init : State := ⟨⟨0, 0, 0, 0, 0, 0, 0, 0⟩, 0, 0, []⟩

/-- `EV_CONN_FAILED` reaches the counters, if it is signalled. -/
def fail (s : State) (a : Step) : State :=
  match a.failure with
  | .ok () => s
  | .error err =>
    { s with
      basic := conn_fail err s.basic
      signals := s.signals + 1
      causes := s.causes ++ a.cause.toList }

/-- `EV_CONN_TIMEOUT` and `EV_CONN_FAILED` reach the counters. -/
def step (s : State) : Step → State
  | .timeout =>
    { s with
      basic := conn_timeout s.basic
      signals := s.signals + 1
      timeouts := s.timeouts + 1 }
  | .connect p r => fail s (.connect p r)
  | .send writev so => fail s (.send writev so)
  | .recv read => fail s (.recv read)

/-- The counters add up, and each one counts its documented causes. -/
structure AddUp (s : State) : Prop where
  total : s.basic.total = s.signals
  client_timo : s.basic.count .client_timo = s.timeouts
  causes : ∀ k ≠ Class.client_timo, s.basic.count k = s.causes.countP (·.documented = k)

/-- The counter of `conn_fail` for a value of `errno`. -/
def Errno.counted : Errno → Class
  | .EINVAL | .EMFILE => .fd_unavail
  | .ENFILE => .ftab_full
  | .ECONNREFUSED => .connrefused
  | .ETIMEDOUT => .socket_timo
  | .EPIPE | .ECONNRESET => .connreset
  | _ => .other

/-- The cause reaches its counter: it is no lack of a port, no `EINVAL` of another call than
`socket`, `getsockopt` does not fail with an error of another class, and a handler that closes the
connection leaves no `errno` that `conn_fail` has a case for. -/
def Cause.Told : Cause → Prop
  | .socket err => err ≠ .EADDRNOTAVAIL
  | .setup err | .bind err | .read err => err ≠ .EADDRNOTAVAIL ∧ err ≠ .EINVAL
  | .connect err so | .writev err so =>
    match so.result with
    | none => so.pending err ≠ .EADDRNOTAVAIL ∧ so.pending err ≠ .EINVAL
    | some err' => err'.counted = err.documented
  | .closed left => left.counted = .other
  | .out_of_ports _ => False
  | .unknown_server | .end_of_stream => True

/-! ## The way of a cause -/

/-- A cause as `conn_failure` gets it. -/
def told : Option Cause → Except Errno Unit
  | none => .ok ()
  | some c => .error c.errno

theorem told_orElse (a b : Option Cause) : told (a <|> b) = (told a >>= fun _ => told b) := by
  cases a <;> rfl

theorem told_map {mk : Errno → Cause} (hmk : ∀ err, (mk err).errno = err) (o : Outcome) :
    told (o.map mk) = check o := by
  cases o with
  | none => rfl
  | some err => exact congrArg Except.error (hmk err)

theorem told_setup (o : Outcome) : told (o.map .setup) = check o :=
  told_map (fun _ => rfl) o

theorem ports_told (left : Errno) (binds : List Outcome) :
    bind_loop left binds = told (ports_cause left binds) := by
  induction binds generalizing left with
  | nil => rfl
  | cons bind binds ih =>
    cases bind with
    | none => rfl
    | some err =>
      rw [bind_loop, ports_cause]
      by_cases herr : err = .EADDRNOTAVAIL
      · rw [if_pos ⟨by rw [herr]; decide, herr⟩, if_pos herr]
        rfl
      · rw [if_neg (fun h => herr h.2), if_neg herr]
        exact ih err

theorem connect_told (r : Results) : connect r = told (connect_cause r) := by
  unfold connect connect_cause
  split <;> rfl

theorem address_told (p : Param) (r : Results) :
    (if p.hog then bind_loop r.left r.binds
      else if p.any_address = false then check r.bind else .ok ()) = told (address_cause p r) := by
  unfold address_cause
  cases p.hog with
  | true => exact ports_told r.left r.binds
  | false =>
    cases p.any_address with
    | true => rfl
    | false => exact (told_map (fun _ => rfl) r.bind).symm

theorem core_connect_told (p : Param) (r : Results) :
    core_connect p r = told (core_connect_cause p r) := by
  unfold core_connect core_connect_cause
  have hsocket : told (r.socket.map .socket) = check r.socket := told_map (fun _ => rfl) r.socket
  simp only [told_orElse, hsocket, ← address_told, ← connect_told]
  cases p.close_with_reset <;> cases p.hog <;> cases p.any_address <;> cases r.hash_lookup <;>
    cases r.closed <;> simp only [told_setup, Bool.false_eq_true, Bool.true_eq_false, reduceIte] <;>
      rfl

theorem do_send_told (writev : Outcome) (so : SoError) :
    do_send writev so = told (do_send_cause writev so) := by
  unfold do_send do_send_cause
  split <;> rfl

theorem do_recv_told (read : Read) : do_recv read = told (do_recv_cause read) := by
  unfold do_recv do_recv_cause
  split <;> rfl

/-- Where a step fails, `conn_failure` gets the value that the cause leaves. -/
theorem failure_told (a : Step) : a.failure = told a.cause := by
  cases a with
  | timeout => rfl
  | connect p r => exact core_connect_told p r
  | send writev so => exact do_send_told writev so
  | recv read => exact do_recv_told read

/-! ## The counters of one signal -/

theorem conn_fail_total (err : Errno) (basic : Basic) :
    (conn_fail err basic).total = basic.total + 1 := by
  unfold conn_fail Basic.total
  split <;> dsimp only <;> omega

theorem conn_fail_count (err : Errno) (basic : Basic) (k : Class) :
    (conn_fail err basic).count k = basic.count k + if err.counted = k then 1 else 0 := by
  cases err <;> cases k <;> rfl

theorem Errno.counted_ne (err : Errno) : err.counted ≠ .client_timo := by
  cases err <;> exact Class.noConfusion

theorem Errno.documented_ne (err : Errno) : err.documented ≠ .client_timo := by
  cases err <;> exact Class.noConfusion

/-- No failure is a timeout of the client. -/
theorem Cause.documented_ne (c : Cause) : c.documented ≠ .client_timo := by
  unfold Cause.documented
  split
  all_goals first
    | exact Errno.documented_ne _
    | exact Class.noConfusion

/-- An error value has its own counter, but for two. -/
theorem counted_eq_documented_iff (err : Errno) :
    err.counted = err.documented ↔ err ≠ .EADDRNOTAVAIL ∧ err ≠ .EINVAL := by
  cases err <;> simp [Errno.counted, Errno.documented]

theorem so_told_iff (err : Errno) (so : SoError) :
    (match so.result with
      | none => so.pending err ≠ .EADDRNOTAVAIL ∧ so.pending err ≠ .EINVAL
      | some err' => err'.counted = err.documented) ↔
      (so_errno so err).counted = (so.pending err).documented := by
  unfold so_errno SoError.pending
  cases so.result with
  | none => simp only [true_and, ← counted_eq_documented_iff]
  | some err' => simp

theorem Cause.told_iff (c : Cause) : c.Told ↔ c.errno.counted = c.documented := by
  cases c with
  | socket err =>
    cases err <;> simp [Told, Cause.errno, Cause.documented, Errno.counted, Errno.documented]
  | setup err => exact (counted_eq_documented_iff err).symm
  | unknown_server => exact iff_of_true trivial rfl
  | closed left => exact Iff.rfl
  | out_of_ports left =>
    constructor
    · exact False.elim
    · intro h
      cases left <;> cases h
  | bind err => exact (counted_eq_documented_iff err).symm
  | connect err so => exact so_told_iff err so
  | writev err so => exact so_told_iff err so
  | read err => exact (counted_eq_documented_iff err).symm
  | end_of_stream => exact iff_of_true trivial rfl

/-! ## Runs -/

theorem step_of_none {a : Step} (s : State) (ha : a.cause = none) (hne : a ≠ .timeout) :
    step s a = s := by
  have hfail : fail s a = s := by
    unfold fail
    rw [failure_told, ha]
    rfl
  cases a with
  | timeout => exact absurd rfl hne
  | _ => exact hfail

theorem step_of_cause {a : Step} {c : Cause} (s : State) (ha : a.cause = some c) :
    step s a =
      { s with
        basic := conn_fail c.errno s.basic
        signals := s.signals + 1
        causes := s.causes ++ [c] } := by
  have hfail : fail s a =
      { s with
        basic := conn_fail c.errno s.basic
        signals := s.signals + 1
        causes := s.causes ++ [c] } := by
    unfold fail
    rw [failure_told, ha]
    rfl
  cases a with
  | timeout => cases ha
  | _ => exact hfail

/-- The printed total is the number of signals, whatever happens. -/
theorem total_step (s : State) (a : Step) (h : s.basic.total = s.signals) :
    (step s a).basic.total = (step s a).signals := by
  cases ha : a.cause with
  | some c =>
    rw [step_of_cause s ha]
    dsimp only
    rw [conn_fail_total, h]
  | none =>
    by_cases hne : a = .timeout
    · rw [hne]
      unfold Basic.total at h
      simp only [step, conn_timeout, Basic.total]
      omega
    · rw [step_of_none s ha hne]
      exact h

theorem addUp_step_iff (s : State) (a : Step) (h : AddUp s) :
    AddUp (step s a) ↔ ∀ c, a.cause = some c → c.Told := by
  have htotal := total_step s a h.total
  cases ha : a.cause with
  | none =>
    refine iff_of_true ?_ (fun c hc => by cases hc)
    by_cases hne : a = .timeout
    · refine ⟨htotal, ?_, fun k hk => ?_⟩
      · rw [hne]
        exact congrArg (· + 1) h.client_timo
      · have hk' := h.causes k hk
        rw [hne]
        cases k with
        | client_timo => exact absurd rfl hk
        | _ => exact hk'
    · rw [step_of_none s ha hne]
      exact h
  | some c =>
    simp only [Option.some.injEq, forall_eq', Cause.told_iff]
    rw [step_of_cause s ha] at htotal ⊢
    have hdoc := c.documented_ne
    have hcount := c.errno.counted_ne
    constructor
    · rintro ⟨-, -, hcauses⟩
      have hc := hcauses c.documented hdoc
      dsimp only at hc
      rw [conn_fail_count, h.causes c.documented hdoc, List.countP_append,
        List.countP_singleton] at hc
      by_contra hne
      rw [if_neg hne] at hc
      simp at hc
    · intro hsame
      refine ⟨htotal, ?_, fun k hk => ?_⟩
      · dsimp only
        rw [conn_fail_count, if_neg hcount, h.client_timo]
        rfl
      · dsimp only
        rw [conn_fail_count, h.causes k hk, List.countP_append, List.countP_singleton, hsame]
        simp

/-- In every state of a run the counters mean what the manual says exactly when every cause reaches
its counter. -/
theorem counters_mean_what_is_documented_iff (steps : List Step) :
    Runs.Always step AddUp init steps ↔ ∀ a ∈ steps, ∀ c, a.cause = some c → c.Told := by
  have hinit : AddUp init := by
    refine ⟨rfl, rfl, fun k _ => ?_⟩
    cases k <;> rfl
  refine (Runs.always_iff_meets (I := fun _ => True) (fun _ _ _ => trivial)
    (fun s a _ h => addUp_step_iff s a h) trivial hinit steps).trans ?_
  exact Runs.meets_iff_forall

/-- With `--hog` and no port left, the error is none of those that `conn_fail` knows. -/
theorem out_of_ports_is_an_other_error :
    ¬ Runs.Always step AddUp init [.connect ⟨true, false, true⟩
      ⟨none, none, none, none, none, none, none, true, false, .zero, [], none, none,
        ⟨none, .zero⟩⟩] := by
  intro h
  have hcount : (0 : Nat) = 1 := h.last.causes .addrunavail (by decide)
  cases hcount

end Httperf.Errors
