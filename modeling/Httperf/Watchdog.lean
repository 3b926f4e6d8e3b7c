-- The watchdog of a connection (`core.c`). Each dispatch cancels it, and relies on `do_send`,
-- `do_recv` and `core_send` to arm it again. Which dispatches do?
import Httperf.Loop

namespace Httperf.Loop

/-! ## Guarded connections -/

/-- A connection below `S_CLOSING` that waits for something has an armed watchdog. -/
def Guarded (s : Conn) : Prop :=
  s.state.closing = false → s.state = .S_CONNECTING ∨ s.sendq ≠ [] ∨ s.recvq ≠ [] →
    s.watchdog.isSome = true

/-- What holds in every state: nothing is queued on a connection that is not established, and
the calls in `recvq` have a deadline. -/
structure Sound (s : Conn) : Prop where
  started : s.state ≠ .S_INITIAL
  idle : s.isOpen = false → s.sendq = [] ∧ s.recvq = []
  timed : ∀ c ∈ s.recvq, 0 < c.timeout

/-- Some handler sends a call. -/
def sends (as : List Act) : Prop := ∃ c, .send c ∈ as

def Turn.acts : Turn → List Act
  | .inside reading _ => reading
  | .ends reading as => reading ++ as

/-- The number of replies that end. -/
def replies : List Turn → Nat
  | [] => 0
  | .inside _ _ :: ts => replies ts
  | .ends _ _ :: ts => replies ts + 1

/-- A read that closes the connection, or lets `set_active` arm the watchdog, or leaves nothing
to wait for. -/
def Read.covers (s : Conn) : Read → Prop
  | .EAGAIN => False
  | .error => True
  | .eof as =>
    s.state ≠ .S_REPLY_DATA ∨ .close ∈ as ∨ s.sendq = [] ∧ (sends as ∨ s.recvq.length = 1)
  | .data t ts =>
    .close ∈ (t :: ts).flatMap Turn.acts ∨ s.sendq = [] ∨ replies (t :: ts) < s.recvq.length

/-- The first call of `writev` does not return `EAGAIN`. -/
def writes (ws : List Write) : Prop := ∃ w, ws.head? = some w ∧ w ≠ .EAGAIN

/-- A dispatch that finds work to do in a direction that is ready. -/
def Covered (s : Conn) (e : Ready) : Prop :=
  if s.state = .S_CONNECTING then e.EPOLLOUT = true
  else s.sendq = [] ∧ s.recvq = [] ∨
    ((e.EPOLLIN || e.EPOLLHUP) = true ∧ s.recvq ≠ [] ∧ e.read.covers s) ∨
    (e.EPOLLOUT = true ∧ s.sendq ≠ [] ∧ writes e.writes)

/-! ## set_active -/

section

variable (dir : Dir) (s : Conn)

@[simp] theorem set_active_state : (set_active dir s).state = s.state := by
  unfold set_active
  cases dir <;> cases s.watchdog <;> rfl

@[simp] theorem set_active_sendq : (set_active dir s).sendq = s.sendq := by
  unfold set_active
  cases dir <;> cases s.watchdog <;> rfl

@[simp] theorem set_active_recvq : (set_active dir s).recvq = s.recvq := by
  unfold set_active
  cases dir <;> cases s.watchdog <;> rfl

@[simp] theorem clear_active_state : (clear_active dir s).state = s.state := by cases dir <;> rfl

@[simp] theorem clear_active_sendq : (clear_active dir s).sendq = s.sendq := by cases dir <;> rfl

@[simp] theorem clear_active_recvq : (clear_active dir s).recvq = s.recvq := by cases dir <;> rfl

@[simp] theorem clear_active_watchdog : (clear_active dir s).watchdog = s.watchdog := by
  cases dir <;> rfl

@[simp] theorem set_active_isOpen : (set_active dir s).isOpen = s.isOpen := by
  simp [Conn.isOpen]

end

/-- `set_active` arms the watchdog when the call in front has a deadline. -/
theorem set_active_armed {dir : Dir} {s : Conn} (htimed : ∀ c ∈ s.recvq, 0 < c.timeout)
    (hfront : s.recvq ≠ [] ∨ ∃ c rest, s.sendq = c :: rest ∧ 0 < c.timeout) :
    (set_active dir s).watchdog.isSome = true := by
  have hdeadline : 0 < deadline (s.sendq.head?.map Call.timeout)
      (s.recvq.head?.map Call.timeout) := by
    unfold deadline
    rcases hq : s.recvq with _ | ⟨c, rest⟩
    · obtain ⟨c, rest, hs, hc⟩ := hfront.resolve_left (by simp [hq])
      simpa [hs] using hc
    · have hc := htimed c (by simp [hq])
      simp only [List.head?_cons, Option.map_some]
      split <;> omega
  unfold set_active
  cases dir <;> cases hw : s.watchdog <;> simp [hdeadline]

/-! ## What the handlers do -/

theorem isOpen_of {s : Conn} (hstart : s.state ≠ .S_INITIAL) (hclosing : s.state.closing = false)
    (hconnecting : s.state ≠ .S_CONNECTING) : s.isOpen = true := by
  unfold Conn.isOpen
  cases hs : s.state <;> simp_all [ConnState.closing]

theorem closing_of_isOpen {s : Conn} (h : s.isOpen = true) : s.state.closing = false := by
  unfold Conn.isOpen at h
  cases hs : s.state <;> simp_all [ConnState.closing]

theorem not_open_of_closing {s : Conn} (h : s.state.closing = true) : s.isOpen = false := by
  cases ho : s.isOpen
  · rfl
  · rw [closing_of_isOpen ho] at h
    cases h

theorem core_close_closing (s : Conn) : (core_close s).state.closing = true := by
  unfold core_close
  split
  · assumption
  · rfl

theorem core_close_sound {s : Conn} (h : Sound s) : Sound (core_close s) := by
  unfold core_close
  split
  · exact h
  · exact ⟨by simp, by simp, by simp⟩

/-- Nothing is sent on a connection that is not open. -/
theorem acts_closing (p : Param) (now : Nat) (as : List Act) {s : Conn}
    (h : s.state.closing = true) : acts p now as s = s := by
  have hopen := not_open_of_closing h
  unfold acts
  induction as with
  | nil => rfl
  | cons a as ih =>
    cases a with
    | send c => simpa [act, core_send, hopen] using ih
    | close => simpa [act, core_close, h] using ih

theorem core_send_spec {p : Param} (hp : 0 < p.timeout) (now : Nat) (c : Call) {s : Conn}
    (h : Sound s) (hopen : s.isOpen = true) :
    Sound (core_send p now c s) ∧ (core_send p now c s).state = s.state ∧
      (core_send p now c s).recvq = s.recvq ∧ (core_send p now c s).sendq ≠ [] ∧
      ((core_send p now c s).watchdog.isSome = true ↔ s.watchdog.isSome = true ∨ s.sendq = []) := by
  unfold core_send
  rw [if_pos hopen]
  split
  · rename_i hq
    have harmed : (set_active .WRITE { s with
        sendq := [{ c with timeout := if p.timeout = 0 then 0 else now + p.timeout }] }
        ).watchdog.isSome = true := by
      refine set_active_armed h.timed (Or.inr ⟨_, [], rfl, ?_⟩)
      dsimp only
      split <;> omega
    refine ⟨⟨by simpa using h.started, ?_, by simpa using h.timed⟩, by simp, by simp, by simp, ?_⟩
    · rw [set_active_isOpen]
      exact fun hno => absurd (hopen.symm.trans hno) (by simp)
    · simp [harmed, hq]
  · rename_i hq
    refine ⟨⟨h.started, ?_, h.timed⟩, rfl, rfl, by simp, by simp [hq]⟩
    exact fun hno => absurd (hopen.symm.trans hno) (by simp)

/-- The handlers close the connection, or they arm the watchdog with the first call that they
send on an empty queue. -/
theorem acts_spec {p : Param} (hp : 0 < p.timeout) (now : Nat) (as : List Act) {s : Conn}
    (h : Sound s) (hopen : s.isOpen = true) :
    Sound (acts p now as s) ∧
      (.close ∈ as → (acts p now as s).state.closing = true) ∧
      (.close ∉ as → (acts p now as s).state = s.state ∧ (acts p now as s).recvq = s.recvq ∧
        ((acts p now as s).sendq = [] ↔ s.sendq = [] ∧ ¬ sends as) ∧
        ((acts p now as s).watchdog.isSome = true ↔
          s.watchdog.isSome = true ∨ s.sendq = [] ∧ sends as)) := by
  induction as generalizing s with
  | nil => exact ⟨h, by simp, fun _ => ⟨rfl, rfl, by simp [acts, sends], by simp [acts, sends]⟩⟩
  | cons a as ih =>
    cases a with
    | close =>
      have hc := core_close_closing s
      have hs : acts p now (.close :: as) s = core_close s := acts_closing p now as hc
      rw [hs]
      exact ⟨core_close_sound h, fun _ => hc, by simp⟩
    | send c =>
      obtain ⟨hsound, hstate, hrecvq, hsendq, harmed⟩ := core_send_spec hp now c h hopen
      have hopen' : (core_send p now c s).isOpen = true := by
        unfold Conn.isOpen
        rw [hstate]
        exact hopen
      obtain ⟨h1, h2, h3⟩ := ih hsound hopen'
      refine ⟨h1, fun hmem => h2 (by simpa using hmem), fun hmem => ?_⟩
      obtain ⟨k1, k2, k3, k4⟩ := h3 (by simpa using hmem)
      have hsends : sends (.send c :: as) := ⟨c, List.mem_cons_self⟩
      refine ⟨k1.trans hstate, k2.trans hrecvq, ?_, ?_⟩
      · constructor
        · exact fun hnil => absurd (k3.mp hnil).1 hsendq
        · exact fun hno => absurd hsends hno.2
      · refine k4.trans ?_
        simp [harmed, hsendq, hsends]

/-! ## do_recv -/

theorem reply_timeout_pos {p : Param} (hp : 0 < p.timeout) (now : Nat) :
    0 < reply_timeout p now := by
  unfold reply_timeout
  split <;> omega

theorem recv_done_spec {p : Param} (hp : 0 < p.timeout) (now : Nat) (as : List Act) {s : Conn}
    {c : Call} {rest : List Call} (h : Sound s) (hopen : s.isOpen = true)
    (hq : s.recvq = c :: rest) :
    Sound (recv_done p now rest as s) ∧
      (.close ∈ as → (recv_done p now rest as s).state.closing = true) ∧
      (.close ∉ as → (recv_done p now rest as s).state = s.state ∧
        (recv_done p now rest as s).recvq = rest ∧
        ((recv_done p now rest as s).sendq = [] ↔ s.sendq = [] ∧ ¬ sends as) ∧
        ((recv_done p now rest as s).watchdog.isSome = true ↔
          s.watchdog.isSome = true ∨ s.sendq = [] ∧ sends as)) := by
  unfold recv_done
  dsimp only
  generalize hs' : (if rest = [] then clear_active .READ { s with recvq := rest }
    else { s with recvq := rest }) = s'
  have heq : s'.state = s.state ∧ s'.recvq = rest ∧ s'.sendq = s.sendq ∧
      s'.watchdog = s.watchdog := by
    rw [← hs']
    split <;> simp
  obtain ⟨h1, h2, h3, h4⟩ := heq
  have hopen' : s'.isOpen = true := by
    unfold Conn.isOpen
    rw [h1]
    exact hopen
  have hsound : Sound s' := by
    refine ⟨h1 ▸ h.started, fun hno => absurd (hopen'.symm.trans hno) (by simp), ?_⟩
    rw [h2]
    exact fun d hd => h.timed d (hq ▸ List.mem_cons_of_mem _ hd)
  have hspec := acts_spec hp now as hsound hopen'
  rw [h1, h2, h3, h4] at hspec
  exact hspec

theorem sends_append (as bs : List Act) : sends (as ++ bs) ↔ sends as ∨ sends bs := by
  simp [sends, exists_or]

/-- The calls that two rows of handlers send arm the watchdog once. -/
theorem armed_twice_iff (armed idle first second : Prop) :
    ((armed ∨ idle ∧ first) ∨ (idle ∧ ¬ first) ∧ second) ↔ (armed ∨ idle ∧ (first ∨ second)) := by
  by_cases idle <;> by_cases first <;> simp [*]

theorem Sound.of_open {s : Conn} (hopen : s.isOpen = true) (htimed : ∀ c ∈ s.recvq, 0 < c.timeout) :
    Sound s := by
  refine ⟨?_, fun hno => absurd (hopen.symm.trans hno) (by simp), htimed⟩
  intro hst
  unfold Conn.isOpen at hopen
  rw [hst] at hopen
  cases hopen

/-- A turn leaves the connection closed, or it takes the call of a reply that ends off the queue. -/
theorem do_recv_turn_spec {p : Param} (hp : 0 < p.timeout) (now : Nat) (t : Turn) {s : Conn}
    {c : Call} {rest : List Call} (h : Sound s) (hopen : s.isOpen = true)
    (hq : s.recvq = c :: rest) :
    Sound (do_recv_turn p now t c rest s).1 ∧
      (.close ∈ t.acts → (do_recv_turn p now t c rest s).1.state.closing = true) ∧
      (.close ∉ t.acts → (do_recv_turn p now t c rest s).2 = false ∧
        (do_recv_turn p now t c rest s).1.isOpen = true ∧
        (do_recv_turn p now t c rest s).1.recvq.length + replies [t] = s.recvq.length ∧
        ((do_recv_turn p now t c rest s).1.sendq = [] ↔ s.sendq = [] ∧ ¬ sends t.acts) ∧
        ((do_recv_turn p now t c rest s).1.watchdog.isSome = true ↔
          s.watchdog.isSome = true ∨ s.sendq = [] ∧ sends t.acts)) := by
  unfold do_recv_turn
  dsimp only
  generalize hc : (if s.state = .S_REPLY_STATUS then
    { c with timeout := reply_timeout p now } else c) = c1
  have htimed : ∀ d ∈ c1 :: rest, 0 < d.timeout := by
    intro d hd
    rcases List.mem_cons.mp hd with rfl | hd
    · rw [← hc]
      split
      · exact reply_timeout_pos hp now
      · exact h.timed c (hq ▸ List.mem_cons_self)
    · exact h.timed d (hq ▸ List.mem_cons_of_mem _ hd)
  have hreading := acts_spec hp now t.reading (s := { s with recvq := c1 :: rest })
    (.of_open hopen htimed) hopen
  generalize acts p now t.reading { s with recvq := c1 :: rest } = s1 at hreading
  obtain ⟨h1, h2, h3⟩ := hreading
  by_cases hclose : Act.close ∈ t.reading
  · -- a handler closes the connection under the parser
    rw [if_pos (h2 hclose)]
    have hmem : Act.close ∈ t.acts := by
      cases t with
      | inside reading st => exact hclose
      | ends reading as => exact List.mem_append_left _ hclose
    exact ⟨h1, fun _ => h2 hclose, fun hno => absurd hmem hno⟩
  · obtain ⟨k1, k2, k3, k4⟩ := h3 hclose
    dsimp only at k1 k3 k4
    have hopen1 : s1.isOpen = true := by
      unfold Conn.isOpen
      rw [k1]
      exact hopen
    rw [if_neg (by simp [closing_of_isOpen hopen1])]
    cases t with
    | inside reading st =>
      have hopen2 : Conn.isOpen { s1 with state := st.val } = true := by
        have hst := st.property
        unfold receiving at hst
        unfold Conn.isOpen
        revert hst
        cases st.val <;> simp
      refine ⟨.of_open hopen2 h1.timed, fun hmem => absurd hmem hclose,
        fun _ => ⟨rfl, hopen2, ?_, k3, k4⟩⟩
      simp [k2, hq, replies]
    | ends reading as =>
      have hdone := recv_done_spec (s := { s1 with state := .S_REPLY_DONE }) hp now as
        (.of_open rfl h1.timed) rfl k2
      dsimp only
      generalize recv_done p now rest as { s1 with state := .S_REPLY_DONE } = s2 at hdone
      obtain ⟨m1, m2, m3⟩ := hdone
      by_cases hmem : Act.close ∈ as
      · rw [if_pos (m2 hmem)]
        exact ⟨m1, fun _ => m2 hmem, fun hno => absurd (List.mem_append_right _ hmem) hno⟩
      · obtain ⟨n1, n2, n3, n4⟩ := m3 hmem
        dsimp only at n3 n4
        rw [if_neg (by simp [n1, ConnState.closing])]
        refine ⟨.of_open rfl m1.timed, fun hno => ?_, fun _ => ⟨rfl, rfl, ?_, ?_, ?_⟩⟩
        · rcases List.mem_append.mp hno with hno | hno
          · exact absurd hno hclose
          · exact absurd hno hmem
        · simp [n2, hq, replies]
        · simp only [Turn.acts, sends_append]
          rw [n3, k3, not_or, and_assoc]
          rfl
        · simp only [Turn.acts, sends_append]
          rw [n4, k4, k3]
          exact armed_twice_iff ..

theorem do_recv_loop_cons (p : Param) (now : Nat) {s : Conn} {c : Call} {rest : List Call}
    (hq : s.recvq = c :: rest) (t : Turn) (ts : List Turn) :
    do_recv_loop p now (t :: ts) s =
      if (do_recv_turn p now t c rest s).2 then some (do_recv_turn p now t c rest s).1
      else do_recv_loop p now ts (do_recv_turn p now t c rest s).1 := by
  obtain ⟨state, sendq, recvq, watchdog, reading, writing, events, log⟩ := s
  subst hq
  rfl

/-- The loop ends at once on a connection that is closed. -/
theorem do_recv_loop_closed {p : Param} {now : Nat} {ts : List Turn} {s s' : Conn}
    (hq : s.recvq = []) (hrun : do_recv_loop p now ts s = some s') : s' = s := by
  cases ts with
  | nil => simpa [do_recv_loop, hq, eq_comm] using hrun
  | cons t ts => simp [do_recv_loop, hq] at hrun

theorem replies_cons (t : Turn) (ts : List Turn) :
    replies (t :: ts) = replies [t] + replies ts := by
  cases t <;> simp [replies, Nat.add_comm]

/-- The loop leaves the connection closed, or it takes the calls of the replies that end off the
queue, and arms the watchdog for the ones behind. -/
theorem do_recv_loop_spec {p : Param} (hp : 0 < p.timeout) (now : Nat) (ts : List Turn)
    {s s' : Conn} (h : Sound s) (hopen : s.isOpen = true)
    (hrun : do_recv_loop p now ts s = some s') :
    Sound s' ∧ (.close ∈ ts.flatMap Turn.acts → s'.state.closing = true) ∧
      (.close ∉ ts.flatMap Turn.acts → s'.isOpen = true ∧
        s'.recvq.length + replies ts = s.recvq.length ∧
        (s'.sendq = [] ↔ s.sendq = [] ∧ ¬ sends (ts.flatMap Turn.acts)) ∧
        (s'.watchdog.isSome = true ↔ s'.recvq ≠ [] ∨ s.watchdog.isSome = true ∨
          s.sendq = [] ∧ sends (ts.flatMap Turn.acts))) := by
  induction ts generalizing s with
  | nil =>
    simp only [do_recv_loop, Option.some.injEq] at hrun
    split at hrun
    · rename_i hq
      subst hrun
      exact ⟨h, by simp, fun _ => ⟨hopen, by simp [replies], by simp [sends], by simp [hq, sends]⟩⟩
    · rename_i hq
      subst hrun
      have harmed : (set_active .READ s).watchdog.isSome = true :=
        set_active_armed h.timed (Or.inl hq)
      refine ⟨⟨by simpa using h.started, by simpa using h.idle, by simpa using h.timed⟩, by simp,
        fun _ => ⟨by simpa using hopen, by simp [replies], by simp [sends], ?_⟩⟩
      simp [harmed, hq]
  | cons t ts ih =>
    rcases hq : s.recvq with _ | ⟨c, rest⟩
    · simp [do_recv_loop, hq] at hrun
    · rw [do_recv_loop_cons p now hq] at hrun
      obtain ⟨h1, h2, h3⟩ := do_recv_turn_spec hp now t h hopen hq
      rw [hq] at h3
      generalize do_recv_turn p now t c rest s = x at *
      obtain ⟨s1, returns⟩ := x
      dsimp only at *
      simp only [List.flatMap_cons, List.mem_append, sends_append]
      by_cases hclose : Act.close ∈ t.acts
      · have hs' : s' = s1 := by
          split at hrun
          · exact (Option.some.inj hrun).symm
          · exact do_recv_loop_closed (h1.idle (not_open_of_closing (h2 hclose))).2 hrun
        subst hs'
        exact ⟨h1, fun _ => h2 hclose, fun hno => absurd (Or.inl hclose) hno⟩
      · obtain ⟨rfl, k1, k2, k3, k4⟩ := h3 hclose
        rw [if_neg (by simp)] at hrun
        obtain ⟨m1, m2, m3⟩ := ih h1 k1 hrun
        refine ⟨m1, fun hmem => m2 (hmem.resolve_left hclose), fun hno => ?_⟩
        obtain ⟨n1, n2, n3, n4⟩ := m3 fun hmem => hno (Or.inr hmem)
        refine ⟨n1, ?_, ?_, ?_⟩
        · rw [replies_cons]
          omega
        · rw [n3, k3, not_or, and_assoc]
        · rw [n4, k4, k3]
          exact or_congr_right (armed_twice_iff ..)

/-! ## do_send -/

@[simp] theorem accept_state (now nsent : Nat) (s : Conn) :
    (accept now nsent s).state = s.state := by
  unfold accept
  split <;> rfl

@[simp] theorem accept_recvq (now nsent : Nat) (s : Conn) :
    (accept now nsent s).recvq = s.recvq := by
  unfold accept
  split <;> rfl

/-- A call of `writev` that takes bytes of the call in front. -/
theorem do_send_sent {p : Param} (hp : 0 < p.timeout) (now nsent : Nat) (ws : List Write) {s : Conn}
    {c : Call} {rest : List Call} (h : Sound s) (hopen : s.isOpen = true)
    (hq : s.sendq = c :: rest) :
    ∃ s1, Sound s1 ∧ s1.isOpen = true ∧ s1.watchdog.isSome = true ∧
      (do_send p now (.sent nsent :: ws) s = s1 ∨ do_send p now (.sent nsent :: ws) s =
        do_send p now ws s1) := by
  simp only [do_send, hq]
  by_cases hpart : nsent < c.left
  · rw [if_pos hpart]
    refine ⟨_, .of_open ?_ ?_, ?_, ?_, Or.inl rfl⟩
    · simpa [Conn.isOpen] using hopen
    · simpa using h.timed
    · simpa [Conn.isOpen] using hopen
    · refine set_active_armed (by simpa using h.timed) (Or.inr ⟨_, rest, rfl, ?_⟩)
      dsimp only
      split <;> omega
  · rw [if_neg hpart]
    generalize hs3 :
      (if rest = [] then clear_active .WRITE { accept now nsent s with sendq := rest }
      else { accept now nsent s with sendq := rest }) = s3
    have hstate : s3.state = s.state ∧ s3.recvq = s.recvq := by
      rw [← hs3]
      split <;> simp
    generalize hs4 : set_active .READ { s3 with
      recvq := s3.recvq ++ [{ c with left := 0, timeout := reply_timeout p now }] } = s4
    have htimed : ∀ d ∈ s3.recvq ++ [{ c with left := 0, timeout := reply_timeout p now }],
        0 < d.timeout := by
      intro d hd
      rcases List.mem_append.mp hd with hd | hd
      · exact h.timed d (hstate.2 ▸ hd)
      · rw [List.mem_singleton.mp hd]
        exact reply_timeout_pos hp now
    have harmed : s4.watchdog.isSome = true := by
      rw [← hs4]
      exact set_active_armed htimed (Or.inl (by simp))
    have hopen4 : s4.isOpen = true := by
      rw [← hs4]
      simpa [Conn.isOpen, hstate.1] using hopen
    have htimed4 : ∀ d ∈ s4.recvq, 0 < d.timeout := by
      rw [← hs4]
      simpa using htimed
    generalize hs5 :
      (if s4.state = .S_CONNECTED then { s4 with state := .S_REPLY_STATUS } else s4) = s5
    have hopen5 : s5.isOpen = true := by
      rw [← hs5]
      split
      · rfl
      · exact hopen4
    have hrest : (∀ d ∈ s5.recvq, 0 < d.timeout) ∧ s5.watchdog.isSome = true := by
      rw [← hs5]
      split <;> exact ⟨htimed4, harmed⟩
    refine ⟨s5, .of_open hopen5 hrest.1, hopen5, hrest.2, ?_⟩
    split
    · exact Or.inl rfl
    · exact Or.inr rfl

/-- A watchdog that is armed stays armed, or the connection is closed. -/
theorem do_send_keeps {p : Param} (hp : 0 < p.timeout) (now : Nat) (ws : List Write) {s : Conn}
    (h : Sound s) (hopen : s.isOpen = true) :
    Sound (do_send p now ws s) ∧
      (s.watchdog.isSome = true → Guarded (do_send p now ws s)) := by
  induction ws generalizing s with
  | nil => exact ⟨h, fun harmed _ _ => harmed⟩
  | cons w ws ih =>
    cases w with
    | EAGAIN => exact ⟨h, fun harmed _ _ => harmed⟩
    | error =>
      refine ⟨core_close_sound h, fun _ hno => ?_⟩
      simp [do_send, core_close_closing] at hno
    | sent nsent =>
      rcases hq : s.sendq with _ | ⟨c, rest⟩
      · simp only [do_send, hq]
        exact ⟨h, fun harmed _ _ => harmed⟩
      · obtain ⟨s1, hsound, hopen1, harmed1, heq | heq⟩ := do_send_sent hp now nsent ws h hopen hq
        · rw [heq]
          exact ⟨hsound, fun _ _ _ => harmed1⟩
        · rw [heq]
          exact ⟨(ih hsound hopen1).1, fun _ => (ih hsound hopen1).2 harmed1⟩

/-- A first call of `writev` that does not return `EAGAIN` arms the watchdog. -/
theorem do_send_writes {p : Param} (hp : 0 < p.timeout) (now : Nat) {ws : List Write} {s : Conn}
    (h : Sound s) (hopen : s.isOpen = true) (hq : s.sendq ≠ []) (hw : writes ws) :
    Guarded (do_send p now ws s) := by
  obtain ⟨w, hhead, hne⟩ := hw
  obtain ⟨ws', rfl⟩ := List.head?_eq_some_iff.mp hhead
  cases w with
  | EAGAIN => exact absurd rfl hne
  | error =>
    intro hno
    simp [do_send, core_close_closing] at hno
  | sent nsent =>
    obtain ⟨c, rest, hcons⟩ := List.exists_cons_of_ne_nil hq
    obtain ⟨s1, hsound, hopen1, harmed1, heq | heq⟩ := do_send_sent hp now nsent ws' h hopen hcons
    · rw [heq]
      exact fun _ _ => harmed1
    · rw [heq]
      exact (do_send_keeps hp now ws' hsound hopen1).2 harmed1

theorem do_send_idle (p : Param) (now : Nat) {ws : List Write} (s : Conn) (hw : ¬ writes ws) :
    do_send p now ws s = s := by
  cases ws with
  | nil => rfl
  | cons w ws =>
    cases w with
    | EAGAIN => rfl
    | sent nsent => exact absurd ⟨_, rfl, by simp⟩ hw
    | error => exact absurd ⟨_, rfl, by simp⟩ hw

/-! ## One dispatch -/

theorem guarded_of_closing {s : Conn} (h : s.state.closing = true) : Guarded s := by
  intro hno
  rw [h] at hno
  cases hno

/-- An established connection without a watchdog is guarded when it waits for nothing. -/
theorem guarded_open_iff {s : Conn} (hopen : s.isOpen = true) :
    Guarded s ↔ s.watchdog.isSome = true ∨ s.sendq = [] ∧ s.recvq = [] := by
  have hconn : s.state ≠ .S_CONNECTING := by
    intro hst
    simp [Conn.isOpen, hst] at hopen
  simp only [Guarded, closing_of_isOpen hopen, hconn, true_implies, false_or]
  by_cases hs : s.sendq = [] <;> by_cases hr : s.recvq = [] <;> simp [hs, hr]

theorem Sound.open_of_sendq {s : Conn} (h : Sound s) (hq : s.sendq ≠ []) : s.isOpen = true := by
  by_contra hno
  exact hq (h.idle (by simpa using hno)).1

/-- What a read leaves of an established connection that has no watchdog. -/
theorem do_recv_spec {p : Param} (hp : 0 < p.timeout) (now : Nat) (r : Read) {s s' : Conn}
    (h : Sound s) (hopen : s.isOpen = true) (hq : s.recvq ≠ []) (hw : s.watchdog = none)
    (hrun : do_recv p now r s = some s') :
    Sound s' ∧ (Guarded s' ↔ r.covers s) ∧
      (¬ Guarded s' → (s'.sendq = [] ↔ s.sendq = [])) := by
  have hclosed : Sound (core_close s) ∧ Guarded (core_close s) :=
    ⟨core_close_sound h, guarded_of_closing (core_close_closing s)⟩
  cases r with
  | EAGAIN =>
    obtain rfl := Option.some.inj hrun
    refine ⟨h, ?_, fun _ => Iff.rfl⟩
    simp [guarded_open_iff hopen, hw, hq, Read.covers]
  | error =>
    obtain rfl := Option.some.inj hrun
    exact ⟨hclosed.1, by simp [hclosed.2, Read.covers], fun hno => absurd hclosed.2 hno⟩
  | eof as =>
    simp only [do_recv] at hrun
    by_cases hst : s.state = .S_REPLY_DATA
    · rw [if_pos hst, Option.some.injEq] at hrun
      subst hrun
      obtain ⟨c, rest, hcons⟩ := List.exists_cons_of_ne_nil hq
      have hspec := @recv_done_spec p hp now as { s with state := .S_REPLY_DONE } c rest
        ⟨by simp, fun hno => by simp [Conn.isOpen] at hno, h.timed⟩ rfl hcons
      have htail : s.recvq.tail = rest := by rw [hcons, List.tail_cons]
      rw [htail]
      generalize recv_done p now rest as { s with state := .S_REPLY_DONE } = s1 at hspec
      obtain ⟨h1, h2, h3⟩ := hspec
      by_cases hclose : Act.close ∈ as
      · have hg := guarded_of_closing (h2 hclose)
        exact ⟨h1, by simp [hg, Read.covers, hclose], fun hno => absurd hg hno⟩
      · obtain ⟨k1, k2, k3, k4⟩ := h3 hclose
        have hopen1 : s1.isOpen = true := by simp [Conn.isOpen, k1]
        have hlen : s.recvq.length = 1 ↔ rest = [] := by simp [hcons]
        rw [guarded_open_iff hopen1, k2, k3, k4]
        refine ⟨h1, ?_, ?_⟩
        · simp only [Read.covers, hst, hclose, hlen, hw]
          by_cases hs : s.sendq = [] <;> by_cases hsends : sends as <;> simp [hs, hsends]
        · simp only [hw]
          by_cases hs : s.sendq = [] <;> by_cases hsends : sends as <;> simp [hs, hsends]
    · rw [if_neg hst, Option.some.injEq] at hrun
      subst hrun
      exact ⟨hclosed.1, by simp [hclosed.2, Read.covers, hst], fun hno => absurd hclosed.2 hno⟩
  | data t ts =>
    obtain ⟨h1, h2, h3⟩ :=
      do_recv_loop_spec (s := { s with log := s.log ++ [.received now] }) hp now
      (t :: ts) ⟨h.started, h.idle, h.timed⟩ hopen hrun
    dsimp only at h3
    have hcovers : Read.covers s (.data t ts) = (.close ∈ (t :: ts).flatMap Turn.acts ∨
      s.sendq = [] ∨ replies (t :: ts) < s.recvq.length) := rfl
    rw [hcovers]
    generalize (t :: ts).flatMap Turn.acts = as at h2 h3
    by_cases hclose : Act.close ∈ as
    · have hg := guarded_of_closing (h2 hclose)
      exact ⟨h1, by simp [hg, hclose], fun hno => absurd hg hno⟩
    · obtain ⟨k1, k2, k3, k4⟩ := h3 hclose
      have hlen : replies (t :: ts) < s.recvq.length ↔ s'.recvq ≠ [] := by
        rw [← k2, ← List.length_pos_iff]
        omega
      rw [guarded_open_iff k1, k3, k4, hw]
      refine ⟨h1, ?_, ?_⟩
      · rw [hlen]
        by_cases hs : s.sendq = [] <;> by_cases hr : s'.recvq = [] <;>
          by_cases hsends : sends as <;> simp [hs, hr, hsends, hclose]
      · by_cases hs : s.sendq = [] <;> by_cases hsends : sends as <;> simp [hs, hsends]

/-- A write behind the read: it makes up for a read that leaves the connection without a
watchdog. -/
theorem do_send_guarded_iff {p : Param} (hp : 0 < p.timeout) (now : Nat) (ws : List Write)
    {s : Conn} (h : Sound s) (hq : s.sendq ≠ []) : Guarded (do_send p now ws s) ↔
    Guarded s ∨ writes ws := by
  have hopen := h.open_of_sendq hq
  by_cases hw : writes ws
  · simp [hw, do_send_writes hp now h hopen hq hw]
  · rw [do_send_idle p now s hw]
    simp [hw]

/-- A connection that is not established only closes. -/
theorem acts_not_open (p : Param) (now : Nat) (as : List Act) {s : Conn}
    (hopen : ¬ s.isOpen = true) :
    acts p now as s = s ∨ acts p now as s = core_close s := by
  induction as with
  | nil => exact Or.inl rfl
  | cons a as ih =>
    cases a with
    | send c =>
      have hs : core_send p now c s = s := by
        unfold core_send
        rw [if_neg hopen]
      have hcons : acts p now (.send c :: as) s = acts p now as s := congrArg (acts p now as) hs
      rw [hcons]
      exact ih
    | close => exact Or.inr (acts_closing p now as (core_close_closing s))

theorem acts_sound {p : Param} (hp : 0 < p.timeout) (now : Nat) (as : List Act) {s : Conn}
    (h : Sound s) : Sound (acts p now as s) := by
  by_cases hopen : s.isOpen = true
  · exact (acts_spec hp now as h hopen).1
  · rcases acts_not_open p now as hopen with heq | heq
    · rw [heq]
      exact h
    · rw [heq]
      exact core_close_sound h

/-- The handlers keep a guarded connection guarded. -/
theorem acts_guarded {p : Param} (hp : 0 < p.timeout) (now : Nat) (as : List Act) {s : Conn}
    (h : Sound s) (hg : Guarded s) : Guarded (acts p now as s) := by
  by_cases hopen : s.isOpen = true
  · obtain ⟨_, h2, h3⟩ := acts_spec hp now as h hopen
    by_cases hclose : Act.close ∈ as
    · exact guarded_of_closing (h2 hclose)
    · obtain ⟨k1, k2, k3, k4⟩ := h3 hclose
      have hopen' : (acts p now as s).isOpen = true := by
        unfold Conn.isOpen
        rw [k1]
        exact hopen
      rw [guarded_open_iff hopen', k2, k3, k4]
      rcases (guarded_open_iff hopen).mp hg with harmed | ⟨hs, hr⟩
      · exact Or.inl (Or.inl harmed)
      · by_cases hsends : sends as <;> simp [hs, hr, hsends]
  · rcases acts_not_open p now as hopen with heq | heq
    · rw [heq]
      exact hg
    · rw [heq]
      exact guarded_of_closing (core_close_closing s)

/-- The read of a dispatch on a connection that is not connecting. -/
theorem received_guarded_iff {p : Param} (hp : 0 < p.timeout) (now : Nat) (e : Ready) {s s2 : Conn}
    (h : Sound s) (hconn : s.state ≠ .S_CONNECTING)
    (hrun : (if (e.EPOLLIN || e.EPOLLHUP) ∧ s.recvq ≠ [] then
      do_recv p now e.read { s with watchdog := none } else some { s with watchdog := none }) =
        some s2) :
    Sound s2 ∧ (¬ Guarded s2 → (s2.sendq = [] ↔ s.sendq = [])) ∧
      (Guarded s2 ↔ s.sendq = [] ∧ s.recvq = [] ∨
        (e.EPOLLIN || e.EPOLLHUP) = true ∧ s.recvq ≠ [] ∧ e.read.covers s) := by
  have hs1 : Sound { s with watchdog := none } := ⟨h.started, h.idle, h.timed⟩
  split at hrun
  · rename_i hin
    have hopen : s.isOpen = true := by
      by_contra hno
      exact hin.2 (h.idle (by simpa using hno)).2
    obtain ⟨h1, h2, h3⟩ := do_recv_spec hp now e.read hs1 hopen hin.2 rfl hrun
    refine ⟨h1, h3, h2.trans ?_⟩
    have hcovers : e.read.covers { s with watchdog := none } ↔ e.read.covers s := by
      cases e.read <;> rfl
    simp [hcovers, hin.1, hin.2]
  · rename_i hin
    obtain rfl := Option.some.inj hrun
    refine ⟨hs1, fun _ => Iff.rfl, ?_⟩
    rw [← and_assoc, or_iff_left fun hread => hin hread.1]
    by_cases hclosing : s.state.closing = true
    · exact iff_of_true (guarded_of_closing hclosing) (h.idle (not_open_of_closing hclosing))
    · have hopen : Conn.isOpen { s with watchdog := none } = true :=
        isOpen_of hs1.started (by simpa using hclosing) hconn
      simp [guarded_open_iff hopen]

/-- A dispatch leaves the connection guarded exactly when it finds work to do in a direction that
is ready. -/
theorem dispatch_guarded_iff {p : Param} (hp : 0 < p.timeout) (now : Nat) (e : Ready) {s s' : Conn}
    (h : Sound s) (hrun : dispatch p now e s = some s') :
    Sound s' ∧ (Guarded s' ↔ Covered s e) := by
  unfold dispatch at hrun
  dsimp only at hrun
  unfold Covered
  by_cases hconn : s.state = .S_CONNECTING
  · rw [if_pos hconn, Option.some.injEq] at hrun
    rw [if_pos hconn]
    by_cases hout : e.EPOLLOUT = true
    · rw [if_pos hout] at hrun
      subst hrun
      -- nothing is queued yet
      have hidle := h.idle (by simp [Conn.isOpen, hconn])
      have hs1 : Sound { clear_active .WRITE { s with watchdog := none } with
          state := .S_CONNECTED } :=
        ⟨by simp, fun hno => by simp [Conn.isOpen] at hno, h.timed⟩
      have hg1 : Guarded { clear_active .WRITE { s with watchdog := none } with
          state := .S_CONNECTED } :=
        fun _ hwait => by simp [hidle] at hwait
      exact ⟨acts_sound hp now e.connected hs1,
        iff_of_true (acts_guarded hp now e.connected hs1 hg1) hout⟩
    · rw [if_neg hout] at hrun
      subst hrun
      refine ⟨⟨h.started, h.idle, h.timed⟩, ?_⟩
      simp [Guarded, hconn, ConnState.closing, hout]
  · rw [if_neg hconn] at hrun
    rw [if_neg hconn]
    obtain ⟨s2, hread, rfl⟩ := Option.map_eq_some_iff.mp hrun
    obtain ⟨h1, h2, h3⟩ := received_guarded_iff hp now e h hconn hread
    rw [← or_assoc, ← h3]
    by_cases hwrite : e.EPOLLOUT ∧ s2.sendq ≠ []
    · rw [if_pos hwrite]
      refine ⟨(do_send_keeps hp now e.writes h1 (h1.open_of_sendq hwrite.2)).1, ?_⟩
      rw [do_send_guarded_iff hp now e.writes h1 hwrite.2]
      by_cases hg : Guarded s2
      · simp [hg]
      · simp [hg, hwrite.1, ← h2 hg, hwrite.2]
    · rw [if_neg hwrite]
      refine ⟨h1, ?_⟩
      by_cases hg : Guarded s2
      · simp [hg]
      · simp only [hg, false_or, false_iff]
        rintro ⟨hout, hq, _⟩
        exact hwrite ⟨hout, mt (h2 hg).mp hq⟩

/-! ## Runs -/

/-- The law of the state, where the program still runs. -/
def AllGuarded : Option Conn → Prop
  | none => True
  | some s => Guarded s

/-- The condition of a step: a dispatch that does not end the program finds work to do. -/
def StepCovered (p : Param) : Option Conn → Step → Prop
  | some s, .ready now e => dispatch p now e s ≠ none → Covered s e
  | _, _ => True

def AllSound : Option Conn → Prop
  | none => True
  | some s => Sound s

theorem tick_sound (now : Nat) {s : Conn} (h : Sound s) : Sound (tick now s) := by
  unfold tick
  split
  · exact core_close_sound ⟨h.started, h.idle, h.timed⟩
  · exact h

theorem tick_guarded (now : Nat) {s : Conn} (hg : Guarded s) : Guarded (tick now s) := by
  unfold tick
  split
  · exact guarded_of_closing (core_close_closing _)
  · exact hg

theorem core_connect_guarded {p : Param} (hp : 0 < p.timeout) (now : Nat) (c : Connect) :
    Sound (core_connect p now conn_init c) ∧ Guarded (core_connect p now conn_init c) := by
  cases c with
  | done as =>
    have hs : Sound { conn_init with state := .S_CONNECTED } :=
      ⟨by simp, fun _ => ⟨rfl, rfl⟩, by simp [conn_init]⟩
    have hg : Guarded { conn_init with state := .S_CONNECTED } :=
      fun _ hwait => by simp [conn_init] at hwait
    exact ⟨acts_sound hp now as hs, acts_guarded hp now as hs hg⟩
  | EINPROGRESS =>
    simp only [core_connect, if_pos hp]
    refine ⟨⟨by simp, fun _ => ?_, ?_⟩, fun _ _ => rfl⟩
    · simp [conn_init]
    · simp [conn_init]

theorem step_sound {p : Param} (hp : 0 < p.timeout) (s : Option Conn) (st : Step)
    (h : AllSound s) : AllSound (step p s st) := by
  rcases s with _ | s
  · cases st <;> trivial
  · cases st with
    | ready now e =>
      rcases hrun : dispatch p now e s with _ | s'
      · simp [step, hrun, AllSound]
      · simpa [step, hrun, AllSound] using (dispatch_guarded_iff hp now e h hrun).1
    | tick now => exact tick_sound now h
    | other now as => exact acts_sound hp now as h

theorem step_guarded_iff {p : Param} (hp : 0 < p.timeout) (s : Option Conn) (st : Step)
    (h : AllSound s) (hg : AllGuarded s) : AllGuarded (step p s st) ↔ StepCovered p s st := by
  rcases s with _ | s
  · cases st <;> exact Iff.rfl
  · cases st with
    | ready now e =>
      rcases hrun : dispatch p now e s with _ | s'
      · simp [step, hrun, AllGuarded, StepCovered]
      · simpa [step, hrun, AllGuarded, StepCovered] using (dispatch_guarded_iff hp now e h hrun).2
    | tick now => exact iff_of_true (tick_guarded now hg) trivial
    | other now as => exact iff_of_true (acts_guarded hp now as h hg) trivial

/-- Outstanding work is guarded by a watchdog at any time exactly when each dispatch finds work to
do in a direction that is ready. -/
theorem outstanding_work_is_guarded_iff (p : Param) (hp : 0 < p.timeout) (now : Nat) (c : Connect)
    (steps : List Step) :
    Runs.Always (step p) AllGuarded (some (core_connect p now conn_init c)) steps ↔
      Runs.Meets (step p) (StepCovered p) (some (core_connect p now conn_init c)) steps := by
  apply Runs.always_iff_meets (I := AllSound) (step_sound hp) (step_guarded_iff hp)
  · exact (core_connect_guarded hp now c).1
  · exact (core_connect_guarded hp now c).2

/-- A request is sent and answered in one go. -/
theorem outstanding_work_is_guarded_one_call :
    Runs.Always (step ⟨5, 0⟩) AllGuarded (some (core_connect ⟨5, 0⟩ 0 conn_init .EINPROGRESS))
      [.ready 1 ⟨false, false, true, [.send ⟨1, 9, 0⟩], .EAGAIN, []⟩,
        .ready 2 ⟨false, false, true, [], .EAGAIN, [.sent 9]⟩,
        .ready 3 ⟨true, false, false, [], .data (.ends [] [.close]) [], []⟩] :=
  (outstanding_work_is_guarded_iff ⟨5, 0⟩ (by decide) 0 .EINPROGRESS _).mpr
    ⟨fun _ => rfl, fun _ => Or.inr (Or.inr ⟨rfl, by decide, _, rfl, by decide⟩),
      fun _ => Or.inr (Or.inl ⟨rfl, by decide, Or.inl (by decide)⟩), trivial⟩

/-- Two dispatches that find no work: the socket takes no byte of the request, and the connection
that is being set up is reported for a reason other than `EPOLLOUT`. -/
theorem idle_dispatch_leaves_no_watchdog :
    (∃ s, run ⟨5, 0⟩ 0 (.done [.send ⟨1, 9, 0⟩])
      [.ready 1 ⟨false, false, true, [], .EAGAIN, [.EAGAIN]⟩] = some s ∧ ¬ Guarded s) ∧
    ∃ s, run ⟨5, 0⟩ 0 .EINPROGRESS
      [.ready 1 ⟨false, true, false, [], .EAGAIN, []⟩] = some s ∧ ¬ Guarded s := by
  refine ⟨⟨_, rfl, fun hg => ?_⟩, _, rfl, fun hg => ?_⟩
  · exact absurd (hg rfl (Or.inr (Or.inl (by decide)))) (by decide)
  · exact absurd (hg rfl (Or.inl rfl)) (by decide)

end Httperf.Loop
