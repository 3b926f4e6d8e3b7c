-- What a timeout says about a connection (`set_active`, `do_send` and `do_recv` of `core.c`). The
-- deadlines stand in the calls, and the watchdog takes the earlier one of the two calls in front.
-- A byte that goes through may leave the deadline of either call as it was.
import Httperf.Loop

namespace Httperf.Loop

/-! ## Deadlines and bytes -/

/-- A byte was sent or received at time `t`. -/
def Progress (log : List Entry) (t : Nat) : Prop :=
  .received t ∈ log ∨ ∃ watchdog, .accepted t watchdog ∈ log

/-- A timeout comes `X` after the last byte, or later. -/
def TimeoutMeansSilence (X : Nat) (log : List Entry) : Prop :=
  ∀ pre now post, log = pre ++ .timed_out now :: post → ∀ t, Progress pre t → t + X ≤ now

/-- No deadline is older than the last byte: neither the deadlines that `set_active` takes for
the watchdog, nor that of a watchdog under which `writev` takes bytes. -/
structure FreshDeadlines (X : Nat) (log : List Entry) : Prop where
  armed : ∀ pre sendq recvq post, log = pre ++ .armed sendq recvq :: post →
    ∀ d, sendq = some d ∨ recvq = some d → d ≠ 0 → ∀ t, Progress pre t → t + X ≤ d
  accepted : ∀ t d, .accepted t (some d) ∈ log → t + X ≤ d

theorem FreshDeadlines.of_append {X : Nat} {log more : List Entry}
    (h : FreshDeadlines X (log ++ more)) : FreshDeadlines X log := by
  constructor
  · rintro pre sendq recvq post rfl
    exact h.armed pre sendq recvq (post ++ more) (by simp)
  · exact fun t d hmem => h.accepted t d (List.mem_append_left _ hmem)

/-- The state is right: a watchdog expires `X` after the last byte at the earliest. -/
structure Patient (X : Nat) (s : Conn) : Prop where
  watchdog : ∀ d, s.watchdog = some d → ∀ t, Progress s.log t → t + X ≤ d
  silent : TimeoutMeansSilence X s.log

/-- The state is right as long as the deadlines are fresh. -/
def Timed (X : Nat) (s : Conn) : Prop := FreshDeadlines X s.log → Patient X s

variable {X : Nat}

theorem Timed.congr {s s' : Conn} (h : Timed X s) (hw : s'.watchdog = s.watchdog)
    (hlog : s'.log = s.log) : Timed X s' := by
  intro hfresh
  rw [hlog] at hfresh
  obtain ⟨h1, h2⟩ := h hfresh
  constructor
  · rw [hw, hlog]
    exact h1
  · rw [hlog]
    exact h2

theorem Timed.disarmed {s s' : Conn} (h : Timed X s) (hw : s'.watchdog = none)
    (hlog : s'.log = s.log) : Timed X s' := by
  intro hfresh
  rw [hlog] at hfresh
  constructor
  · simp [hw]
  · rw [hlog]
    exact (h hfresh).silent

theorem silent_append {log : List Entry} {e : Entry} (h : TimeoutMeansSilence X log)
    (he : ∀ now, e = .timed_out now → ∀ t, Progress log t → t + X ≤ now) :
    TimeoutMeansSilence X (log ++ [e]) := by
  intro pre now post heq
  rcases List.eq_nil_or_concat post with rfl | ⟨post', b, rfl⟩
  · obtain ⟨rfl, heq'⟩ := List.append_inj' heq rfl
    exact he now (List.cons.inj heq').1
  · rw [List.concat_eq_append, ← List.cons_append, ← List.append_assoc] at heq
    exact h pre now post' (List.append_inj' heq rfl).1

/-! ## The functions -/

theorem deadline_mem {sendq recvq : Option Nat} (h : deadline sendq recvq ≠ 0) :
    sendq = some (deadline sendq recvq) ∨ recvq = some (deadline sendq recvq) := by
  unfold deadline at *
  cases recvq with
  | none =>
    cases sendq with
    | none => simp at h
    | some t => exact Or.inl rfl
  | some t =>
    dsimp only at h ⊢
    split
    · exact Or.inr rfl
    · rename_i hlt
      cases sendq with
      | none => simp at hlt
      | some u => exact Or.inl rfl

theorem set_active_timed (dir : Dir) {s : Conn} (h : Timed X s) : Timed X (set_active dir s) := by
  rcases hw : s.watchdog with _ | d
  · -- the deadline is that of a call in front
    have hset : (set_active dir s).log = s.log ++ [.armed (s.sendq.head?.map Call.timeout)
          (s.recvq.head?.map Call.timeout)] ∧
        (set_active dir s).watchdog = if deadline (s.sendq.head?.map Call.timeout)
          (s.recvq.head?.map Call.timeout) > 0 then some (deadline (s.sendq.head?.map Call.timeout)
          (s.recvq.head?.map Call.timeout)) else none := by
      unfold set_active
      cases dir <;> simp [hw]
    generalize s.sendq.head?.map Call.timeout = sendq at hset
    generalize s.recvq.head?.map Call.timeout = recvq at hset
    obtain ⟨hlog, hwatch⟩ := hset
    intro hfresh
    rw [hlog] at hfresh
    have hold := h hfresh.of_append
    have hprogress : ∀ t, Progress (set_active dir s).log t ↔ Progress s.log t := by
      intro t
      simp [hlog, Progress]
    constructor
    · intro d hd t ht
      rw [hwatch] at hd
      split at hd
      · rename_i hpos
        obtain rfl := Option.some.inj hd
        exact hfresh.armed s.log sendq recvq [] rfl _ (deadline_mem (Nat.ne_of_gt hpos))
          (Nat.ne_of_gt hpos) t ((hprogress t).mp ht)
      · cases hd
    · rw [hlog]
      exact silent_append hold.silent (by simp)
  · apply h.congr
    · unfold set_active
      cases dir <;> simp [hw]
    · unfold set_active
      cases dir <;> simp [hw]

theorem clear_active_timed (dir : Dir) {s : Conn} (h : Timed X s) :
    Timed X (clear_active dir s) := by
  cases dir <;> exact h.congr rfl rfl

theorem core_close_timed {s : Conn} (h : Timed X s) : Timed X (core_close s) := by
  unfold core_close
  split
  · exact h
  · exact h.disarmed rfl rfl

theorem accept_timed (now nsent : Nat) {s : Conn} (h : Timed X s) :
    Timed X (accept now nsent s) := by
  unfold accept
  split
  · exact h
  · intro hfresh
    have hold := h hfresh.of_append
    constructor
    · rintro d hd t (ht | ⟨watchdog, ht⟩)
      · exact hold.watchdog d hd t (Or.inl (by simpa using ht))
      · rcases List.mem_append.mp ht with ht | ht
        · exact hold.watchdog d hd t (Or.inr ⟨watchdog, ht⟩)
        · obtain ⟨rfl, rfl⟩ := Entry.accepted.inj (List.mem_singleton.mp ht)
          exact hfresh.accepted t d (hd ▸ ht |> List.mem_append_right _)
    · exact silent_append hold.silent (by simp)

theorem core_send_timed (p : Param) (now : Nat) (c : Call) {s : Conn} (h : Timed X s) :
    Timed X (core_send p now c s) := by
  unfold core_send
  split
  · split
    · apply set_active_timed
      exact h.congr rfl rfl
    · exact h.congr rfl rfl
  · exact h

theorem acts_timed (p : Param) (now : Nat) (as : List Act) {s : Conn} (h : Timed X s) :
    Timed X (acts p now as s) := by
  unfold acts
  induction as generalizing s with
  | nil => exact h
  | cons a as ih =>
    cases a with
    | send c => exact ih (core_send_timed p now c h)
    | close => exact ih (core_close_timed h)

theorem do_send_timed (p : Param) (now : Nat) (ws : List Write) {s : Conn} (h : Timed X s) :
    Timed X (do_send p now ws s) := by
  induction ws generalizing s with
  | nil => exact h
  | cons w ws ih =>
    cases w with
    | EAGAIN => exact h
    | error => exact core_close_timed h
    | sent nsent =>
      rcases hq : s.sendq with _ | ⟨c, rest⟩
      · simpa only [do_send, hq] using h
      · simp only [do_send, hq]
        have hacc := accept_timed now nsent h
        split
        · apply set_active_timed
          exact hacc.congr rfl rfl
        · -- the request is sent, and waits for its reply
          have h3 : Timed X (if rest = [] then
              clear_active .WRITE { accept now nsent s with sendq := rest }
              else { accept now nsent s with sendq := rest }) := by
            split
            · apply clear_active_timed
              exact hacc.congr rfl rfl
            · exact hacc.congr rfl rfl
          generalize (if rest = [] then clear_active .WRITE
            { accept now nsent s with sendq := rest }
            else { accept now nsent s with sendq := rest }) = s3 at h3
          have h4 : Timed X (set_active .READ { s3 with
              recvq := s3.recvq ++ [{ c with left := 0, timeout := reply_timeout p now }] }) := by
            apply set_active_timed
            exact h3.congr rfl rfl
          generalize set_active .READ { s3 with
            recvq := s3.recvq ++ [{ c with left := 0, timeout := reply_timeout p now }] } = s4 at h4
          have h5 : Timed X (if s4.state = .S_CONNECTED then { s4 with state := .S_REPLY_STATUS }
              else s4) := by
            split
            · exact h4.congr rfl rfl
            · exact h4
          split
          · exact h5
          · exact ih h5

theorem recv_done_timed (p : Param) (now : Nat) (rest : List Call) (as : List Act) {s : Conn}
    (h : Timed X s) : Timed X (recv_done p now rest as s) := by
  unfold recv_done
  apply acts_timed
  split
  · apply clear_active_timed
    exact h.congr rfl rfl
  · exact h.congr rfl rfl

theorem do_recv_turn_timed (p : Param) (now : Nat) (t : Turn) (c : Call) (rest : List Call)
    {s : Conn} (h : Timed X s) : Timed X (do_recv_turn p now t c rest s).1 := by
  unfold do_recv_turn
  dsimp only
  have h1 : Timed X (acts p now t.reading { s with
      recvq := (if s.state = .S_REPLY_STATUS then { c with timeout := reply_timeout p now }
        else c) :: rest }) := by
    apply acts_timed
    exact h.congr rfl rfl
  generalize acts p now t.reading _ = s1 at h1
  split
  · exact h1
  · cases t with
    | inside reading st => exact h1.congr rfl rfl
    | ends reading as =>
      have h2 : Timed X (recv_done p now rest as { s1 with state := .S_REPLY_DONE }) := by
        apply recv_done_timed
        exact h1.congr rfl rfl
      dsimp only
      split
      · exact h2
      · exact h2.congr rfl rfl

theorem do_recv_loop_timed (p : Param) (now : Nat) (ts : List Turn) {s s' : Conn} (h : Timed X s)
    (hrun : do_recv_loop p now ts s = some s') : Timed X s' := by
  induction ts generalizing s with
  | nil =>
    obtain rfl := Option.some.inj hrun
    split
    · exact h
    · exact set_active_timed .READ h
  | cons t ts ih =>
    unfold do_recv_loop at hrun
    split at hrun
    · cases hrun
    · rename_i c rest _
      have h1 := do_recv_turn_timed p now t c rest h
      dsimp only at hrun
      split at hrun
      · obtain rfl := Option.some.inj hrun
        exact h1
      · exact ih h1 hrun

/-- `do_recv`, behind the cancellation of the watchdog. -/
theorem do_recv_timed (p : Param) (now : Nat) (r : Read) {s s' : Conn} (h : Timed X s)
    (hw : s.watchdog = none) (hrun : do_recv p now r s = some s') : Timed X s' := by
  cases r with
  | EAGAIN =>
    obtain rfl := Option.some.inj hrun
    exact h
  | error =>
    obtain rfl := Option.some.inj hrun
    exact core_close_timed h
  | eof as =>
    simp only [do_recv] at hrun
    split at hrun
    · obtain rfl := Option.some.inj hrun
      apply recv_done_timed
      exact h.congr rfl rfl
    · obtain rfl := Option.some.inj hrun
      exact core_close_timed h
  | data t ts =>
    refine do_recv_loop_timed p now (t :: ts) ?_ hrun
    intro hfresh
    have hold := h hfresh.of_append
    constructor
    · simp [hw]
    · exact silent_append hold.silent (by simp)

theorem dispatch_timed (p : Param) (now : Nat) (e : Ready) {s s' : Conn} (h : Timed X s)
    (hrun : dispatch p now e s = some s') : Timed X s' := by
  unfold dispatch at hrun
  dsimp only at hrun
  have h1 : Timed X { s with watchdog := none } := h.disarmed rfl rfl
  split at hrun
  · obtain rfl := Option.some.inj hrun
    split
    · apply acts_timed
      exact (clear_active_timed .WRITE h1).congr rfl rfl
    · exact h1
  · obtain ⟨s2, hread, rfl⟩ := Option.map_eq_some_iff.mp hrun
    have h2 : Timed X s2 := by
      split at hread
      · exact do_recv_timed p now e.read h1 rfl hread
      · obtain rfl := Option.some.inj hread
        exact h1
    split
    · exact do_send_timed p now e.writes h2
    · exact h2

/-- The watchdog expires behind its deadline. -/
theorem tick_timed (now : Nat) {s : Conn} (h : Timed X s) : Timed X (tick now s) := by
  unfold tick
  split
  · rename_i hexp
    apply core_close_timed
    intro hfresh
    have hold := h hfresh.of_append
    constructor
    · simp
    · apply silent_append hold.silent
      intro now' heq t ht
      obtain rfl := Entry.timed_out.inj heq
      rcases hd : s.watchdog with _ | d
      · simp [hd] at hexp
      · have hle := hold.watchdog d hd t ht
        have hlt : d < now := by simpa [hd] using hexp
        omega
  · exact h

theorem core_connect_timed (p : Param) (now : Nat) (c : Connect) :
    Timed X (core_connect p now conn_init c) := by
  have h0 : ∀ {s : Conn}, s.watchdog = none → s.log = [] → Timed X s := by
    intro s hw hlog _
    constructor
    · simp [hw]
    · intro pre now' post heq
      simp [hlog] at heq
  cases c with
  | done as =>
    apply acts_timed
    exact h0 rfl rfl
  | EINPROGRESS =>
    -- no byte goes before the connection is there
    intro _
    have hlog : (core_connect p now conn_init .EINPROGRESS).log = [.armed none none] := by
      unfold core_connect
      dsimp only
      split <;> rfl
    constructor
    · intro d _ t ht
      simp [Progress, hlog] at ht
    · rw [hlog]
      intro pre now' post heq
      rcases pre with _ | ⟨e, pre⟩ <;> simp at heq

/-! ## Runs -/

/-- A timeout comes `--timeout` after the last byte, or later, in every run in which the watchdog
never gets a deadline that is older than the last byte. -/
theorem timeout_means_silence_while_deadlines_are_fresh (p : Param) (now : Nat) (c : Connect)
    (steps : List Step) (s : Conn) (hrun : run p now c steps = some s)
    (hfresh : FreshDeadlines p.timeout s.log) : TimeoutMeansSilence p.timeout s.log := by
  have hall : ∀ (steps : List Step) (o : Option Conn), (∀ s, o = some s → Timed p.timeout s) →
      ∀ s, Runs.run (step p) o steps = some s → Timed p.timeout s := by
    intro steps
    induction steps with
    | nil => exact fun o h s hs => h s hs
    | cons st steps ih =>
      intro o h s hs
      refine ih (step p o st) ?_ s hs
      intro s1 hs1
      rcases o with _ | s0
      · cases st <;> cases hs1
      · have h0 := h s0 rfl
        cases st with
        | ready now e => exact dispatch_timed p now e h0 hs1
        | tick now =>
          obtain rfl := Option.some.inj hs1
          exact tick_timed now h0
        | other now as =>
          obtain rfl := Option.some.inj hs1
          exact acts_timed p now as h0
  have htimed := hall steps _ (fun s hs => Option.some.inj hs ▸ core_connect_timed p now c) s hrun
  exact (htimed hfresh).silent

/-- A request that is never answered: the timeout comes 6 ticks after its last byte. -/
theorem timeout_means_silence_unanswered :
    ∃ s, run ⟨5, 0⟩ 0 (.done [.send ⟨1, 9, 0⟩])
        [.ready 0 ⟨false, false, true, [], .EAGAIN, [.sent 9]⟩, .tick 6] = some s ∧
      .timed_out 6 ∈ s.log ∧ TimeoutMeansSilence 5 s.log := by
  let log : List Entry :=
    [.armed (some 5) none, .accepted 0 none, .armed none (some 5), .timed_out 6]
  let closed : Conn := ⟨.S_CLOSING, [], [], none, false, false, ⟨false, false⟩, log⟩
  refine ⟨closed, rfl, by decide,
    timeout_means_silence_while_deadlines_are_fresh ⟨5, 0⟩ 0 (.done [.send ⟨1, 9, 0⟩])
      [.ready 0 ⟨false, false, true, [], .EAGAIN, [.sent 9]⟩, .tick 6] closed rfl ⟨?_, ?_⟩⟩
  · intro pre sendq recvq post heq d hd hne t ht
    rcases pre with _ | ⟨e1, _ | ⟨e2, _ | ⟨e3, _ | ⟨e4, pre⟩⟩⟩⟩
    · simp [Progress] at ht
    · cases heq
    · cases heq
      simp [Progress] at ht hd
      have hle : t + 5 ≤ d := by omega
      exact hle
    · cases heq
    · cases pre <;> cases heq
  · intro t d hmem
    rcases hmem with _ | ⟨_, _ | ⟨_, _ | ⟨_, _ | ⟨_, hmem⟩⟩⟩⟩
    cases hmem

/-- A reply in two packets: the second one leaves the deadline as it was, and the timeout comes
3 ticks after it. -/
theorem a_reply_in_two_packets_times_out :
    ∃ s, run ⟨5, 0⟩ 0 (.done [.send ⟨1, 9, 0⟩])
        [.ready 0 ⟨false, false, true, [], .EAGAIN, [.sent 9]⟩,
          .ready 3 ⟨true, false, false, [], .data (.inside [] ⟨.S_REPLY_DATA, rfl⟩) [], []⟩,
          .ready 6 ⟨true, false, false, [], .data (.inside [] ⟨.S_REPLY_DATA, rfl⟩) [], []⟩,
          .tick 9] = some s ∧ ¬ TimeoutMeansSilence 5 s.log := by
  refine ⟨_, rfl, fun h => ?_⟩
  have hlate := h [.armed (some 5) none, .accepted 0 none, .armed none (some 5), .received 3,
    .armed none (some 8), .received 6, .armed none (some 8)] 9 [] rfl 6 (Or.inl (by decide))
  omega

end Httperf.Loop
