-- The invariant of the connections of a run, and what one step can do to the collector. A law about
-- the calls and the reply in progress is carried along (`Law`).
import Httperf.Traffic

namespace Httperf.Traffic

/-! ## The reply in progress -/

def InProgress.basis (p : InProgress) (c : Call) : Basis :=
  ⟨c.id, c.isHead, p.base, recorded p.line, p.cut.flatten.length⟩

/-- The bytes that the parser has taken between `r` and `r'`. -/
def consumed (r r' : Rx) : List Byte := r.buf.take (r.buf.length - r'.buf.length)

/-- A law of the calls in `sendq`, of those that wait for the reply, and of the reply in
progress. -/
structure Law where
  queued : Queued → Prop
  waiting : Call → Prop
  reading : InProgress → Conn → Call → Prop

/-- A reply behind its status line. -/
structure Reading (L : Law) (p : InProgress) (s : Conn) (c : Call) : Prop where
  past : Past (p.basis c) p.taken.length s c
  law : L.reading p s c

/-- The connection waits for the status line, or has a part of it. -/
structure Waits (p : InProgress) (s : Conn) : Prop where
  state : s.state = .S_REPLY_STATUS
  line : s.line = p.cut.flatten
  pieces : p.pieces = []

/-- What the reads that ended inside the status line brought. -/
structure Cut (p : InProgress) : Prop where
  ne : ∀ q ∈ p.cut, q ≠ []
  short : p.cut.flatten.length < MAX_HDR_LINE_LEN - 1

/-- The reply behind the status line `line`, which the parser takes from `r` to `r'`. -/
def InProgress.start (h : Handlers) (r r' : Rx) (line : List Byte) (p : InProgress) : InProgress :=
  { p with line, number := statusNumber h r, base := r.c.reply, pieces := [consumed r r'] }

def InProgress.go (r r' : Rx) (p : InProgress) : InProgress :=
  { p with pieces := p.pieces ++ [consumed r r'] }

/-- `writev` and the parser keep the law. -/
structure Law.Kept (L : Law) : Prop where
  writes : ∀ {q past w}, L.queued q → w.count ≤ (offered q.call.req).length →
    L.queued { q with call.req := do_send past q.call.req w }
  waits : ∀ {q}, L.queued q → L.waiting q.call
  starts : ∀ {h r r' p line}, L.waiting r.c → Waits p r.s → Cut p → statusLine r = some line →
    http_process_reply_bytes h r = .ok r' → r'.s.state.closing = false →
      L.reading (p.start h { r with log := r.log ++ [.EV_CALL_RECV_RAW_DATA r.c.id r.buf] } r' line)
        r'.s r'.c
  goes : ∀ {h r r' p}, Reading L p r.s r.c → http_process_reply_bytes h r = .ok r' →
    r'.s.state.closing = false → L.reading (p.go r r') r'.s r'.c
  done : ∀ {p s c}, L.reading p s c → s.state = .S_REPLY_DATA →
    L.reading p { s with state := .S_REPLY_DONE } c
  queue : ∀ {p s c} q, L.reading p s c → L.reading p { s with recvq := q } c

/-- The law that says nothing. -/
def Law.nothing : Law := ⟨fun _ => True, fun _ => True, fun _ _ _ => True⟩

theorem Law.nothing_kept : Law.nothing.Kept :=
  ⟨by simp [nothing], by simp [nothing], by simp [nothing], by simp [nothing], by simp [nothing],
    by simp [nothing]⟩

/-- What `core_send` puts into `sendq` keeps the law. -/
def Step.Allowed (L : Law) : Step → Prop
  | .core_send _ p fqdname c => ∀ c' ∈ Httperf.core_send p fqdname c, L.queued ⟨c', offered c'.req⟩
  | _ => True

theorem nothing_allowed (a : Step) : a.Allowed .nothing := by
  cases a <;> simp [Step.Allowed, Law.nothing]

/-- The invariant of a connection. -/
structure Link.Inv (L : Law) (time_recv_start : Nat → ℚ) (l : Link) : Prop where
  sendq : ∀ q ∈ l.sendq, L.queued q
  recvq : l.eof = false → ∀ c next, l.s.recvq = c :: next →
    (∀ c' ∈ next, L.waiting c') ∧ (l.s.state = .S_REPLY_STATUS → L.waiting c)
  cut : Cut l.reply
  shut : l.s.state.closing = true → l.gone = true ∧ l.s.recvq = []
  eof : l.eof = true → l.unread = [] ∧ l.s.state ≠ .S_REPLY_DATA
  idle : l.eof = false → l.gone = false → l.s.recvq = [] →
    (l.s.state = .S_REPLY_STATUS ∨ before_reply l.s.state = true) ∧ l.s.line = [] ∧
      l.reply = .nothing
  busy : l.eof = false → ∀ c next, l.s.recvq = c :: next →
    Waits l.reply l.s ∨ (Reading L l.reply l.s c ∧ 0 < time_recv_start c.id)

/-- A reply that is complete. -/
structure Completed.Sound (L : Law) (d : Completed) : Prop where
  done : d.s.state = .S_REPLY_DONE
  cut : Cut d.reply
  reading : Reading L d.reply d.s d.c

/-- No byte of a reply has been counted. -/
def Reply.Uncounted (r : Reply) : Prop := r.header_bytes = 0 ∧ r.content_bytes = 0

instance (r : Reply) : Decidable (Reply.Uncounted r) := inferInstanceAs (Decidable (_ ∧ _))

/-- A reply without chunks, to a fresh call: what is not counted came with the reads that ended
inside the status line. -/
theorem Completed.Sound.counts {L : Law} {d : Completed} (hd : d.Sound L)
    (hfresh : Reply.Uncounted d.reply.base) (hplain : ¬ d.s.ChunkedBody) :
    d.c.reply.header_bytes + d.c.reply.content_bytes + UInt64.ofNat d.reply.cut.flatten.length =
      UInt64.ofNat d.reply.taken.length := by
  have hcounts := hd.reading.past.counts
  unfold Counts at hcounts
  rw [hd.done] at hcounts
  have hbody := hcounts.2.resolve_left hplain
  unfold BodyCount InProgress.basis at hbody
  simp only [hfresh.1, hfresh.2] at hbody
  simpa using hbody

section
variable {L : Law} {l : Link} {time time' : Nat → ℚ}

theorem Link.Inv.later (hl : l.Inv L time) (htime : ∀ id, 0 < time id → 0 < time' id) :
    l.Inv L time' := by
  refine ⟨hl.sendq, hl.recvq, hl.cut, hl.shut, hl.eof, hl.idle, fun heof c next hq => ?_⟩
  exact (hl.busy heof c next hq).imp id fun ⟨hread, ht⟩ => ⟨hread, htime _ ht⟩

theorem cut_nothing : Cut .nothing := ⟨by simp [InProgress.nothing], by decide⟩

theorem Link.inv_new : Link.new.Inv L time where
  sendq := by simp [Link.new]
  recvq := by simp [Link.new]
  cut := cut_nothing
  shut := by simp [Link.new, ConnState.closing]
  eof := by simp [Link.new]
  idle := fun _ _ _ => ⟨.inr rfl, rfl, rfl⟩
  busy := by simp [Link.new]

theorem close_recvq (hl : l.Inv L time) :
    l.s.close.recvq = [] ∧ l.s.close.state ≠ .S_REPLY_DATA := by
  unfold Conn.close
  split
  · rename_i hclosing
    refine ⟨(hl.shut hclosing).2, fun hdata => ?_⟩
    rw [hdata] at hclosing
    cases hclosing
  · exact ⟨rfl, by simp⟩

/-- A connection that is closed. -/
theorem Link.inv_gone {l' : Link} (hsendq : ∀ q ∈ l'.sendq, L.queued q) (hcut : Cut l'.reply)
    (hgone : l'.gone = true) (hq : l'.s.recvq = [])
    (heof : l'.eof = true → l'.unread = [] ∧ l'.s.state ≠ .S_REPLY_DATA) :
    l'.Inv L time where
  sendq := hsendq
  recvq := by simp [hq]
  cut := hcut
  shut := fun _ => ⟨hgone, hq⟩
  eof := heof
  idle := by simp [hgone]
  busy := by simp [hq]

/-- The reply is over, and the connection waits for the next one. -/
theorem Link.Inv.next {c : Call} {next : List Call} (hl : l.Inv L time) (heof : l.eof = false)
    (hq : l.s.recvq = c :: next) {s : Conn} (hs : s.recvq = next)
    (hstate : s.state = .S_REPLY_STATUS) (hline : s.line = []) (unread : List Byte) (gone : Bool) :
    Link.Inv L time' { l with s, unread, gone, reply := .nothing } where
  sendq := hl.sendq
  recvq := by
    rintro - c' next' hnext
    have hwaiting := (hl.recvq heof c next hq).1
    rw [← hs, hnext] at hwaiting
    exact ⟨fun c'' hc'' => hwaiting c'' (List.mem_cons_of_mem _ hc''),
      fun _ => hwaiting c' (List.mem_cons_self ..)⟩
  cut := cut_nothing
  shut := fun hclosing => by simp [hstate, ConnState.closing] at hclosing
  eof := by simp [heof]
  idle := fun _ _ _ => ⟨.inl hstate, hline, rfl⟩
  busy := fun _ _ _ _ => .inl ⟨hstate, hline, rfl⟩

/-- The reply goes on in the next read. -/
theorem Link.Inv.part {c c' : Call} {next : List Call} (hl : l.Inv L time) (heof : l.eof = false)
    (hq : l.s.recvq = c :: next) {s : Conn} {p : InProgress} (hs : s.recvq = c' :: next)
    (hopen : ¬ s.state.closing = true) (hcut : Cut p)
    (hwaiting : s.state = .S_REPLY_STATUS → L.waiting c')
    (hbusy : Waits p s ∨ (Reading L p s c' ∧ 0 < time' c'.id)) (unread : List Byte) (gone : Bool) :
    Link.Inv L time' { l with s, unread, gone, reply := p } where
  sendq := hl.sendq
  recvq := by
    rintro - c'' next'' hnext
    obtain ⟨rfl, rfl⟩ := List.cons.inj (hs.symm.trans hnext)
    exact ⟨(hl.recvq heof c _ hq).1, hwaiting⟩
  cut := hcut
  shut := fun hclosing => absurd hclosing hopen
  eof := by simp [heof]
  idle := fun _ _ hnil => by simp [hs] at hnil
  busy := by
    rintro - c'' next'' hnext
    obtain ⟨rfl, rfl⟩ := List.cons.inj (hs.symm.trans hnext)
    exact hbusy

theorem Link.Inv.close (hl : l.Inv L time) : l.close.Inv L time := by
  obtain ⟨hq, hdata⟩ := close_recvq hl
  exact Link.inv_gone (by simp [Link.close]) hl.cut rfl hq fun heof => ⟨(hl.eof heof).1, hdata⟩

end

theorem Reading.queue {L : Law} (hL : L.Kept) {p : InProgress} {s : Conn}
    {c : Call} (h : Reading L p s c) (q : List Call) : Reading L p { s with recvq := q } c :=
  ⟨⟨h.past.id, h.past.head, h.past.status, h.past.counts⟩, hL.queue q h.law⟩

/-! ## What a turn comes to -/

/-- The clock of the calls behind the events `es`. -/
def Later (time : Nat → ℚ) (es : List Event) (time' : Nat → ℚ) : Prop :=
  (∀ id, 0 < time id → 0 < time' id) ∧
    ∀ id status, .EV_CALL_RECV_START id status ∈ es → 0 < time' id

/-- A part of a reply has come, or the end of one. -/
inductive Came (L : Law) (time : Nat → ℚ) (log : List Event) :
    Received → Prop where
  | part {l : Link} {es : List Event} (quiet : ∀ e ∈ es, e.isStop = false)
      (inv : ∀ time', Later time es time' → l.Inv L time') : Came L time log ⟨l, log ++ es, none⟩
  | whole {l : Link} {es : List Event} {d : Completed} (quiet : ∀ e ∈ es, e.isStop = false)
      (sound : d.Sound L)
      (started : 0 < time d.c.id ∨ ∃ status, .EV_CALL_RECV_START d.c.id status ∈ es)
      (inv : ∀ time', Later time es time' → l.Inv L time') :
      Came L time log ⟨l, log ++ es ++ [.EV_CALL_RECV_STOP d.c.id d.c.reply], some d⟩

theorem consumed_eq {r r' : Rx} {x : List Byte} (h : r.buf = x ++ r'.buf) : consumed r r' = x := by
  unfold consumed
  rw [h, List.length_append, Nat.add_sub_cancel, List.take_left]

theorem InProgress.taken_go (r r' : Rx) (p : InProgress) :
    (p.go r r').taken = p.taken ++ consumed r r' := by
  unfold InProgress.go InProgress.taken
  simp

theorem InProgress.taken_start (h : Handlers) (r r' : Rx) (line : List Byte) (p : InProgress) :
    (p.start h r r' line).taken = p.cut.flatten ++ consumed r r' := by
  unfold InProgress.start InProgress.taken
  simp

section
variable {L : Law} {h : Handlers} {r r' : Rx} {p : InProgress}

/-- The parser goes on with a reply. -/
theorem reading_goes (hL : L.Kept) (hp : Reading L p r.s r.c)
    (hs : http_process_reply_bytes h r = .ok r') :
    r'.Logs r.log ∧
    (r'.s.state.closing = true ∨ Reading L (p.go r r') r'.s r'.c ∧ r'.c.id = r.c.id) := by
  obtain ⟨x, hx, hlogs, hpast⟩ := http_process_past h hp.past hs
  refine ⟨hlogs, ?_⟩
  rcases Bool.eq_false_or_eq_true r'.s.state.closing with hclosing | hopen
  · exact .inl hclosing
  · right
    have hpast' := hpast.resolve_left (by simp [hopen])
    have hbasis : (p.go r r').basis r'.c = p.basis r.c := by
      have hid : r'.c.id = r.c.id := hpast'.id
      have hhead : r'.c.isHead = r.c.isHead := hpast'.head
      unfold InProgress.basis InProgress.go
      rw [hid, hhead]
    refine ⟨⟨?_, hL.goes hp hs hopen⟩, hpast'.id⟩
    rw [hbasis, InProgress.taken_go, consumed_eq hx, List.length_append]
    exact hpast'

/-- The parser starts on a reply. -/
theorem reading_starts (hL : L.Kept) (hc : L.waiting r.c) (hw : Waits p r.s) (hcut : Cut p)
    {line : List Byte} (hline : statusLine r = some line)
    (hs : http_process_reply_bytes h r = .ok r') :
    r'.Logs r.log ∧ (∃ es, r'.log = r.log ++ es ∧ .EV_CALL_RECV_START r.c.id (recorded line) ∈ es) ∧
      (r'.s.state.closing = true ∨
        Reading L
          (p.start h { r with log := r.log ++ [.EV_CALL_RECV_RAW_DATA r.c.id r.buf] } r' line)
          r'.s r'.c ∧ r'.c.id = r.c.id) := by
  obtain ⟨x, hx, ⟨hlogs, hpast⟩, hstart⟩ := http_process_status_whole h hw.state hline hs
  refine ⟨hlogs, hstart, ?_⟩
  rcases Bool.eq_false_or_eq_true r'.s.state.closing with hclosing | hopen
  · exact .inl hclosing
  · right
    have hpast' := hpast.resolve_left (by simp [hopen])
    have hid : r'.c.id = r.c.id := hpast'.id
    have hhead : r'.c.isHead = r.c.isHead := hpast'.head
    refine ⟨⟨?_, hL.starts hc hw hcut hline hs hopen⟩, hid⟩
    have hconsumed : consumed { r with log := r.log ++ [.EV_CALL_RECV_RAW_DATA r.c.id r.buf] } r' =
        x :=
      consumed_eq hx
    rw [InProgress.taken_start, hconsumed, List.length_append, ← hw.line]
    have hbasis : (p.start h { r with log := r.log ++ [.EV_CALL_RECV_RAW_DATA r.c.id r.buf] } r'
        line).basis r'.c = r.basis line := by
      unfold InProgress.basis InProgress.start Rx.basis
      rw [hid, hhead, hw.line]
    rw [hbasis]
    exact hpast'

theorem http_process_shut (hs : http_process_reply_bytes h r = .ok r') : r'.s.Shut :=
  (http_process_loop_stop h _ r' (http_process_raw hs)).2

/-- What the parser makes of the reply in progress in one read. -/
theorem read_spec (hL : L.Kept) {time : Nat → ℚ} (hcut : Cut p) (hb : r.buf ≠ [])
    (hp : Waits p r.s ∨ Reading L p r.s r.c ∧ 0 < time r.c.id)
    (hc : r.s.state = .S_REPLY_STATUS → L.waiting r.c)
    (hs : http_process_reply_bytes h r = .ok r') :
    let p' :=
      p.read h { r with log := r.log ++ [.EV_CALL_RECV_RAW_DATA r.c.id r.buf] } (consumed r r')
    Cut p' ∧ ∃ es, r'.log = r.log ++ es ∧ (∀ e ∈ es, e.isStop = false) ∧
      (r'.s.state.closing = true ∨ Waits p' r'.s ∧ r'.c = r.c ∧ r.s.state = .S_REPLY_STATUS ∨
        (Reading L p' r'.s r'.c ∧ r'.c.id = r.c.id ∧
          (0 < time r.c.id ∨ ∃ status, .EV_CALL_RECV_START r.c.id status ∈ es))) := by
  unfold InProgress.read
  dsimp only
  rcases hp with hw | ⟨hread, htime⟩
  · rw [if_pos hw.state, statusLine_log]
    have hshort : r.s.line.length < MAX_HDR_LINE_LEN - 1 := by
      rw [hw.line]
      exact hcut.short
    cases hline : statusLine r with
    | none =>
      obtain ⟨h1, h2, h3, h4, h5, ⟨es, hes, hquiet⟩, -⟩ :=
        http_process_status_part h hw.state hshort hline hs
      have hall : consumed r r' = r.buf := consumed_eq (by rw [h4, List.append_nil])
      have hflat : (p.cut ++ [r.buf]).flatten = r'.s.line := by
        rw [h2, hw.line]
        simp
      dsimp only
      rw [hall]
      refine ⟨⟨?_, ?_⟩, es, hes, hquiet, .inr (.inl ⟨⟨h1, hflat.symm, hw.pieces⟩, h5,
        hw.state⟩)⟩
      · intro q hq
        rcases List.mem_append.mp hq with hq | hq
        · exact hcut.ne q hq
        · rw [List.mem_singleton.mp hq]
          exact hb
      · dsimp only
        rw [hflat]
        exact h3
    | some line =>
      obtain ⟨⟨es, hes, hquiet⟩, ⟨es', hes', hstart⟩, hread⟩ :=
        reading_starts hL (hc hw.state) hw hcut hline hs
      obtain rfl : es = es' := List.append_cancel_left (hes.symm.trans hes')
      exact ⟨⟨hcut.ne, hcut.short⟩, es, hes, hquiet,
        hread.imp id fun h => .inr ⟨h.1, h.2, .inr ⟨_, hstart⟩⟩⟩
  · rw [if_neg hread.past.not_closing.2]
    obtain ⟨⟨es, hes, hquiet⟩, hgo⟩ := reading_goes hL hread hs
    exact ⟨⟨hcut.ne, hcut.short⟩, es, hes, hquiet,
      hgo.imp id fun h => .inr ⟨h.1, h.2, .inl htime⟩⟩

/-- `recv_done` takes the call off the queue, and its handlers may close the connection. -/
theorem recv_done_spec (next : List Call) (hopen : r.s.state.closing = false) :
    (recv_done h next r).log = r.log ++ [.EV_CALL_RECV_STOP r.c.id r.c.reply] ∧
      (recv_done h next r).buf = r.buf ∧
      (((recv_done h next r).s.state.closing = true ∧ (recv_done h next r).s.recvq = []) ∨
        (recv_done h next r).s = { r.s with recvq := next }) := by
  refine ⟨rfl, rfl, ?_⟩
  unfold recv_done event_signal Conn.close
  dsimp only
  split_ifs with hcloses hclosing
  · rw [hopen] at hclosing
    cases hclosing
  · exact .inl ⟨rfl, rfl⟩
  · exact .inr rfl

end

/-- One turn of the loop of `do_recv`. -/
theorem turn_came {L : Law} (hL : L.Kept) {time : Nat → ℚ}
    {h : Handlers} {log : List Event} {l : Link} {t : Received} (hl : l.Inv L time)
    (hne : l.unread ≠ []) (ht : l.turn h log = .ok t) : Came L time log t := by
  have heof : l.eof = false := by
    by_contra hc
    exact hne (hl.eof (by simpa using hc)).1
  unfold Link.turn at ht
  cases hq : l.s.recvq with
  | nil =>
    rw [hq] at ht
    cases ht
  | cons c next =>
    rw [hq] at ht
    dsimp only at ht
    cases hp : http_process_reply_bytes h ⟨l.s, c, l.unread, log⟩ with
    | error e =>
      rw [hp] at ht
      cases ht
    | ok r =>
      rw [hp] at ht
      dsimp only at ht
      obtain ⟨hcut, es, hes, hquiet, hread⟩ :=
        read_spec (r := ⟨l.s, c, l.unread, log⟩) hL hl.cut hne
        (hl.busy heof c next hq) (hl.recvq heof c next hq).2 hp
      have hshut := http_process_shut hp
      unfold consumed at hcut hread
      dsimp only at hcut hes hread
      generalize l.reply.read h _ _ = p at ht hcut hread
      have hends : r.s.state = .S_REPLY_DONE → Reading L p r.s r.c ∧ r.c.id = c.id ∧
          (0 < time c.id ∨ ∃ status, .EV_CALL_RECV_START c.id status ∈ es) := by
        intro hdone
        rcases hread with hc | ⟨hw, -⟩ | hr
        · rw [hdone] at hc
          cases hc
        · rw [hw.state] at hdone
          cases hdone
        · exact hr
      split_ifs at ht with hdone hclosing
      · -- the reply ends, and a handler closes the connection
        obtain rfl := Except.ok.inj ht
        obtain ⟨hlog, -, hs⟩ := recv_done_spec (h := h) next (r := r) (by rw [hdone]; rfl)
        obtain ⟨hsound, hid, hstart⟩ := hends hdone
        rw [hlog, hes]
        refine .whole (d := ⟨p, r.s, r.c⟩) hquiet ⟨hdone, hcut, hsound⟩ (by rw [hid]; exact hstart)
          fun time' _ => Link.inv_gone hl.sendq cut_nothing rfl ?_ (by simp [heof])
        rcases hs with ⟨-, hs⟩ | hs
        · exact hs
        · rw [hs, hdone] at hclosing
          cases hclosing
      · -- the reply ends, and the next one follows
        obtain rfl := Except.ok.inj ht
        obtain ⟨hlog, -, hs⟩ := recv_done_spec (h := h) next (r := r) (by rw [hdone]; rfl)
        obtain ⟨hsound, hid, hstart⟩ := hends hdone
        have hs' := hs.resolve_left fun hc => hclosing hc.1
        have hline : r.s.line = [] := by
          have := hsound.past.counts
          unfold Counts at this
          rw [hdone] at this
          exact this.1
        rw [hlog, hes, hs']
        refine .whole (d := ⟨p, r.s, r.c⟩) hquiet ⟨hdone, hcut, hsound⟩ (by rw [hid]; exact hstart)
          fun time' _ =>
            hl.next (s := { r.s with recvq := next, state := .S_REPLY_STATUS }) heof hq rfl rfl
              hline ..
      · -- the reply goes on in the next read
        obtain rfl := Except.ok.inj ht
        rw [hes]
        refine .part hquiet fun time' htime => ?_
        cases hqr : r.s.recvq with
        | nil =>
          rw [Rx.store_nil hqr]
          exact Link.inv_gone hl.sendq hcut (by simp) hqr (by simp [heof])
        | cons c' next' =>
          have hopen : ¬ r.s.state.closing = true := by
            intro hc
            rw [hshut hc] at hqr
            cases hqr
          rw [Rx.store_cons (by rw [hqr]; exact List.cons_ne_nil _ _)]
          refine hl.part (s := { r.s with recvq := r.c :: next }) heof hq rfl hopen hcut
            (fun hstatus => ?_) ?_ ..
          · rcases hread.resolve_left hopen with ⟨-, hc, hstate⟩ | ⟨hread, -⟩
            · rw [hc]
              exact (hl.recvq heof c next hq).2 hstate
            · exact absurd hstatus hread.past.not_closing.2
          rcases hread.resolve_left hopen with ⟨hw, -⟩ | ⟨hread, hid, hstart⟩
          · exact .inl ⟨hw.state, hw.line, hw.pieces⟩
          · refine .inr ⟨hread.queue hL _, ?_⟩
            rw [hid]
            rcases hstart with hpos | ⟨status, hmem⟩
            · exact htime.1 _ hpos
            · exact htime.2 _ _ hmem

theorem conn_failure_shut {L : Law} {time : Nat → ℚ} {l : Link}
    (hl : l.Inv L time) (h : Handlers) (c : Call) (log : List Event) :
    (conn_failure h ⟨l.s, c, [], log⟩).1.recvq = [] ∧
      (conn_failure h ⟨l.s, c, [], log⟩).1.state ≠ .S_REPLY_DATA := by
  unfold conn_failure event_signal
  dsimp only
  split
  · exact close_recvq hl.close
  · exact close_recvq hl

theorem fail_came {L : Law} {time : Nat → ℚ} {l : Link}
    (hl : l.Inv L time) (hunread : l.unread = []) (h : Handlers) (c : Call) (log : List Event) :
    Came L time log (l.fail h log c) := by
  obtain ⟨hrecvq, hdata⟩ := conn_failure_shut hl h c log
  have hquiet : ∀ e ∈ [Event.EV_CONN_FAILED], e.isStop = false := by simp [Event.isStop]
  exact .part hquiet fun time' _ => Link.inv_gone (by simp) hl.cut rfl hrecvq fun _ =>
    ⟨hunread, hdata⟩

/-- `read` returns 0. -/
theorem end_of_stream_came {L : Law} (hL : L.Kept) {time : Nat → ℚ}
    (h : Handlers) (log : List Event) {l : Link} (hl : l.Inv L time) (hunread : l.unread = []) :
    Came L time log (l.end_of_stream h log) := by
  unfold Link.end_of_stream
  cases hq : l.s.recvq with
  | nil =>
    have hcame : Came L time log ⟨l, log ++ [], none⟩ :=
      .part (by simp) fun time' htime => hl.later htime.1
    rwa [List.append_nil] at hcame
  | cons c next =>
    dsimp only
    split_ifs with hdata
    · -- a failure
      obtain ⟨hrecvq, hdata'⟩ := conn_failure_shut hl h c log
      have hquiet : ∀ e ∈ [Event.EV_CONN_FAILED], e.isStop = false := by simp [Event.isStop]
      exact .part hquiet fun time' _ =>
        Link.inv_gone (by simp [Link.fail]) hl.cut rfl hrecvq fun _ => ⟨hunread, hdata'⟩
    · rw [not_not] at hdata
      have heof : l.eof = false := by
        by_contra hc
        exact (hl.eof (by simpa using hc)).2 hdata
      have hread : Reading L l.reply l.s c ∧ 0 < time c.id := by
        rcases hl.busy heof c next hq with hw | hr
        · rw [hw.state] at hdata
          cases hdata
        · exact hr
      have hcounts := hread.1.past.counts
      unfold Counts at hcounts
      rw [hdata] at hcounts
      have hsound : Reading L l.reply { l.s with state := .S_REPLY_DONE } c :=
        ⟨⟨hread.1.past.id, hread.1.past.head, hread.1.past.status, hcounts.1, .inr hcounts.2⟩,
          hL.done hread.1.law hdata⟩
      obtain ⟨hlog, -, hs⟩ := recv_done_spec (h := h) next
        (r := ⟨{ l.s with state := .S_REPLY_DONE }, c, [], log⟩) rfl
      dsimp only at hlog
      have hcame : Came L time log ⟨{ l with
          s := (recv_done h next ⟨{ l.s with state := .S_REPLY_DONE }, c, [], log⟩).s
          eof := true
          gone := l.gone || (recv_done h next
            ⟨{ l.s with state := .S_REPLY_DONE }, c, [], log⟩).s.state.closing
          reply := .nothing }, log ++ [] ++ [.EV_CALL_RECV_STOP c.id c.reply],
          some ⟨l.reply, { l.s with state := .S_REPLY_DONE }, c⟩⟩ := by
        have hquiet : ∀ e ∈ ([] : List Event), e.isStop = false := by simp
        have hcompleted : (⟨l.reply, { l.s with state := .S_REPLY_DONE }, c⟩ : Completed).Sound L :=
          ⟨rfl, hl.cut, hsound⟩
        refine .whole hquiet hcompleted (.inl hread.2) fun time' _ => ?_
        refine ⟨hl.sendq, (fun he => by cases he), cut_nothing, ?_, ?_, (fun he => by cases he),
          (fun he => by cases he)⟩
        · rcases hs with ⟨hclosing, hnil⟩ | hs
          · exact fun _ => ⟨by simp [hclosing], hnil⟩
          · rw [hs]
            exact fun hc => by cases hc
        · rcases hs with ⟨hclosing, -⟩ | hs
          · refine fun _ => ⟨hunread, fun hdata' => ?_⟩
            rw [hdata'] at hclosing
            cases hclosing
          · rw [hs]
            exact fun _ => ⟨hunread, by simp⟩
      rw [List.append_nil] at hcame
      rw [hlog]
      exact hcame

/-! ## What a step can do -/

/-- The invariant of a run: the connections as long as the program runs, and the replies so far. -/
structure Inv (L : Law) (s : State) : Prop where
  links : s.ended = none → ∀ i, (s.link i).Inv L s.basic.time_recv_start
  completed : ∀ d ∈ s.completed, d.Sound L

/-- A request is sent in whole, a reply is complete, or nothing of the kind. -/
inductive Effect (L : Law) (s s' : State) : Prop where
  | other (ended : ∀ a, s'.ended ≠ some (.assertion a))
    (total : total_size s'.basic = total_size s.basic)
      (sent : s'.sent = s.sent) (completed : s'.completed = s.completed)
  | sent (q : Queued) (law : L.queued q) (whole : ¬ q.call.req.iov_index < IE_LEN)
      (ended : s'.ended = none)
      (total : total_size s'.basic = total_size s.basic + UInt64.ofNat q.call.req.size)
      (sent : s'.sent = s.sent ++ [q.request]) (completed : s'.completed = s.completed)
  | completed (d : Completed) (sound : d.Sound L)
      (ended : s'.ended = if HasClass d.c.reply.status then none else some (.assertion .index))
      (total : total_size s'.basic =
        if HasClass d.c.reply.status then
          total_size s.basic + (d.c.reply.header_bytes + d.c.reply.content_bytes)
        else total_size s.basic)
      (sent : s'.sent = s.sent) (completed : s'.completed = s.completed ++ [d])

section
variable {L : Law} {s : State}

/-- The events of a turn reach the collector. -/
theorem receive_spec (hs : Inv L s) (hended : s.ended = none) (i : Nat) (now : Time) {r : Received}
    (hr : Came L s.basic.time_recv_start s.log r) :
    Inv L (s.receive i now r) ∧ Effect L s (s.receive i now r) := by
  have hlinks := hs.links hended
  have hall : ∀ {l : Link} {es : List Event} {basic' : Basic},
      (∀ time', Later s.basic.time_recv_start es time' → l.Inv L time') →
      s.basic.Extends basic' →
      (∀ id status, .EV_CALL_RECV_START id status ∈ es → 0 < basic'.time_recv_start id) →
      ∀ j, (Function.update s.link i l j).Inv L basic'.time_recv_start := by
    intro l es basic' hl hext hstart j
    by_cases hj : j = i
    · rw [hj, Function.update_self]
      exact hl _ ⟨hext.2, hstart⟩
    · rw [Function.update_of_ne hj]
      exact (hlinks j).later hext.2
  unfold State.receive
  cases hr with
  | @part l es hquiet hinv =>
    obtain ⟨basic', hevents, hext, hstart⟩ := on_events_quiet now hquiet s.basic
    dsimp only
    rw [List.drop_left, hevents]
    dsimp only
    refine ⟨⟨fun _ => hall hinv hext hstart, by simpa using hs.completed⟩, ?_⟩
    exact .other (by simp [hended]) hext.1 rfl (by simp)
  | @whole l es d hquiet hsound hstarted hinv =>
    obtain ⟨basic', hevents, hext, hstart⟩ := on_events_quiet now hquiet s.basic
    have hpos : 0 < basic'.time_recv_start d.c.id := by
      rcases hstarted with hpos | ⟨status, hmem⟩
      · exact hext.2 _ hpos
      · exact hstart _ _ hmem
    have hcompleted : ∀ d' ∈ s.completed ++ [d], d'.Sound L := by
      intro d' hd'
      rcases List.mem_append.mp hd' with hd' | hd'
      · exact hs.completed d' hd'
      · rw [List.mem_singleton.mp hd']
        exact hsound
    have hone : ∀ (e : Event) (basic : Basic), on_events now [e] basic = on_event now basic e := by
      intro e basic
      rw [on_events]
      cases on_event now basic e <;> rfl
    dsimp only
    rw [List.append_assoc, List.drop_left, on_events_append, hevents]
    dsimp only
    rw [hone]
    rcases recv_stop_spec d.c.reply hpos with ⟨hclass, basic2, hstop, htotal,
      htime⟩ | ⟨hclass, hstop⟩
    · have hevent : on_event now basic' (.EV_CALL_RECV_STOP d.c.id d.c.reply) = .ok basic2 := hstop
      rw [hevent]
      dsimp only
      refine ⟨⟨fun _ j => ?_, hcompleted⟩, ?_⟩
      · dsimp only
        rw [htime]
        exact hall hinv hext hstart j
      · refine .completed d hsound ?_ ?_ rfl rfl
        · rw [if_pos hclass]
          exact hended
        · rw [if_pos hclass, ← hext.1]
          exact htotal
    · have hevent : on_event now basic' (.EV_CALL_RECV_STOP d.c.id d.c.reply) = .error .index :=
        hstop
      rw [hevent]
      dsimp only
      refine ⟨⟨(fun hnone => by cases hnone), hcompleted⟩, ?_⟩
      refine .completed d hsound ?_ ?_ rfl rfl
      · rw [if_neg hclass]
      · rw [if_neg hclass]

/-- A step that only touches one connection. -/
theorem link_spec (hs : Inv L s) (hended : s.ended = none) (i : Nat) {l : Link}
    (hl : l.Inv L s.basic.time_recv_start) :
    Inv L { s with link := Function.update s.link i l } ∧
      Effect L s { s with link := Function.update s.link i l } := by
  refine ⟨⟨fun _ j => ?_, hs.completed⟩, .other (by simp [hended]) rfl rfl rfl⟩
  dsimp only
  by_cases hj : j = i
  · rw [hj, Function.update_self]
    exact hl
  · rw [Function.update_of_ne hj]
    exact hs.links hended j

/-- A step that leaves all as it is. -/
theorem same_spec (hs : Inv L s) (hended : s.ended = none) : Inv L s ∧ Effect L s s :=
  ⟨hs, .other (by simp [hended]) rfl rfl rfl⟩

/-- Sending does not touch the replies. -/
theorem sendq_inv {l : Link} {time : Nat → ℚ} (hl : l.Inv L time) {sendq : List Queued}
    (hsendq : ∀ q ∈ sendq, L.queued q) : { l with sendq }.Inv L time :=
  ⟨hsendq, hl.recvq, hl.cut, hl.shut, hl.eof, hl.idle, hl.busy⟩

theorem before_reply_past {b : Basis} {n : Nat} {s : Conn} {c : Call} (h : Past b n s c) :
    before_reply s.state = false := by
  have := h.counts
  unfold Counts at this
  cases hst : s.state <;> simp_all [before_reply]

/-- A call that goes to the end of `recvq`. -/
theorem sent_inv (hL : L.Kept) {l : Link} {time : Nat → ℚ} (hl : l.Inv L time)
    (hgone : l.gone = false) {c : Call} (hc : L.waiting c) {rest : List Queued}
    (hrest : ∀ q ∈ rest, L.queued q) (closes : Bool) :
    (l.sent c rest closes).Inv L time := by
  have hopen : l.s.state.closing = false := by
    by_contra hc
    rw [(hl.shut (by simpa using hc)).1] at hgone
    cases hgone
  unfold Link.sent
  split
  · exact hl.close
  · refine ⟨hrest, ?_, hl.cut, ?_, ?_, fun _ _ hnil => absurd hnil (by simp), ?_⟩
    · intro heof c' next hq
      dsimp only at heof hq
      cases hr : l.s.recvq with
      | nil =>
        rw [hr] at hq
        obtain ⟨rfl, rfl⟩ := List.cons.inj hq
        exact ⟨by simp, fun _ => hc⟩
      | cons c0 next0 =>
        obtain ⟨htail, hhead⟩ := hl.recvq heof c0 next0 hr
        rw [hr, List.cons_append] at hq
        obtain ⟨rfl, rfl⟩ := List.cons.inj hq
        refine ⟨fun c' hc' => ?_, fun hstatus => hhead ?_⟩
        · rcases List.mem_append.mp hc' with hc' | hc'
          · exact htail c' hc'
          · rw [List.mem_singleton.mp hc']
            exact hc
        · rcases hl.busy heof c0 next0 hr with hw | ⟨hread, -⟩
          · exact hw.state
          · rw [before_reply_past hread.past] at hstatus
            exact hstatus
    · intro hclosing
      dsimp only at hclosing
      split at hclosing
      · cases hclosing
      · rw [hopen] at hclosing
        cases hclosing
    · intro heof
      refine ⟨(hl.eof heof).1, ?_⟩
      dsimp only
      split
      · exact fun hdata => by cases hdata
      · exact (hl.eof heof).2
    · intro heof c' next hq
      dsimp only at hq ⊢
      cases hr : l.s.recvq with
      | nil =>
        obtain ⟨hstate, hline, hreply⟩ := hl.idle heof hgone hr
        have hstatus : (if before_reply l.s.state = true then ConnState.S_REPLY_STATUS
            else l.s.state) = .S_REPLY_STATUS := by
          rcases hstate with hstate | hstate
          · rw [hstate]
            rfl
          · rw [if_pos hstate]
        rw [hreply]
        exact .inl ⟨hstatus, hline, rfl⟩
      | cons c0 next0 =>
        rw [hr, List.cons_append] at hq
        obtain ⟨rfl, -⟩ := List.cons.inj hq
        rcases hl.busy heof c0 next0 hr with hw | ⟨hread, htime⟩
        · left
          refine ⟨?_, hw.line, hw.pieces⟩
          dsimp only
          rw [hw.state]
          rfl
        · right
          refine ⟨?_, htime⟩
          rw [if_neg (by rw [before_reply_past hread.past]; decide)]
          exact hread.queue hL _

theorem writev_spec (hL : L.Kept) (hs : Inv L s) (hended : s.ended = none) (i : Nat)
    (hgone : (s.link i).gone = false) (past : Iovec) (w : Written) (closes : Bool) :
    Inv L (s.writev i past w closes) ∧ Effect L s (s.writev i past w closes) := by
  have hl := hs.links hended i
  unfold State.writev
  cases hq : (s.link i).sendq with
  | nil => exact same_spec hs hended
  | cons q rest =>
    have hsendq := hl.sendq
    rw [hq] at hsendq
    obtain ⟨hqueued, hrest⟩ := List.forall_mem_cons.mp hsendq
    dsimp only
    split_ifs with hmore hindex
    · exact same_spec hs hended
    · exact link_spec hs hended i (sendq_inv hl
        (List.forall_mem_cons.mpr ⟨hL.writes hqueued (not_lt.mp hmore), hrest⟩))
    · refine ⟨⟨fun _ j => ?_, hs.completed⟩, ?_⟩
      · dsimp only
        by_cases hj : j = i
        · rw [hj, Function.update_self]
          exact sent_inv hL hl hgone (hL.waits (hL.writes hqueued (not_lt.mp hmore))) hrest closes
        · rw [Function.update_of_ne hj]
          exact hs.links hended j
      · refine .sent _ (hL.writes hqueued (not_lt.mp hmore)) hindex hended ?_ rfl rfl
        unfold send_stop total_size
        dsimp only
        ac_rfl

/-- What `read` gives. -/
theorem read_inv (hL : L.Kept) (hs : Inv L s) (hended : s.ended = none) (i : Nat)
    (hunread : (s.link i).unread = []) (h : Handlers) (r : Read) (now : Time) :
    Inv L (s.read i h now r) ∧ Effect L s (s.read i h now r) := by
  have hl := hs.links hended i
  unfold State.read
  cases r with
  | data buf =>
    dsimp only
    split_ifs with hdata
    · refine link_spec hs hended i
        ⟨hl.sendq, hl.recvq, hl.cut, hl.shut, fun heof => ?_, hl.idle, hl.busy⟩
      rw [hdata.1] at heof
      cases heof
    · exact same_spec hs hended
  | eof => exact receive_spec hs hended i now (end_of_stream_came hL h s.log hl hunread)
  | error eagain =>
    dsimp only
    split
    · rename_i c _ _
      exact receive_spec hs hended i now (fail_came hl hunread h c s.log)
    · exact same_spec hs hended

theorem step_running (hL : L.Kept) (hs : Inv L s) (hended : s.ended = none) {a : Step}
    (ha : a.Allowed L) : Inv L (step s a) ∧ Effect L s (step s a) := by
  have hl := hs.links hended
  unfold step
  rw [if_neg (by simp [hended])]
  cases a with
  | conn_new i =>
    dsimp only
    split
    · exact link_spec hs hended i Link.inv_new
    · exact same_spec hs hended
  | core_send i p fqdname c =>
    dsimp only
    split
    · exact same_spec hs hended
    · cases hsend : (s.link i).core_send p fqdname c with
      | none => exact ⟨⟨(fun hnone => by cases hnone), hs.completed⟩, .other (by simp) rfl rfl rfl⟩
      | some l =>
        unfold Link.core_send at hsend
        obtain ⟨c', hsome, rfl⟩ := Option.map_eq_some_iff.mp hsend
        refine link_spec hs hended i (sendq_inv (hl i) fun q hq => ?_)
        rcases List.mem_append.mp hq with hq | hq
        · exact (hl i).sendq q hq
        · rw [List.mem_singleton.mp hq]
          exact ha c' hsome
  | writev i past w closes =>
    dsimp only
    split
    · exact same_spec hs hended
    · rename_i hgone
      exact writev_spec hL hs hended i (Bool.not_eq_true _ ▸ hgone) past w closes
  | read i h r now =>
    dsimp only
    split
    · exact read_inv hL hs hended i (by tauto) h r now
    · exact same_spec hs hended
  | turn i h now =>
    dsimp only
    split
    · exact same_spec hs hended
    · rename_i hne
      cases hturn : (s.link i).turn h s.log with
      | error e =>
        exact ⟨⟨(fun hnone => by cases hnone), hs.completed⟩, .other (by simp) rfl rfl rfl⟩
      | ok r => exact receive_spec hs hended i now (turn_came hL (hl i) hne hturn)
  | core_close i => exact link_spec hs hended i (hl i).close

theorem step_ended (h : s.ended ≠ none) (a : Step) : step s a = s := by
  unfold step
  rw [if_pos (by simpa [Option.isSome_iff_ne_none] using h)]

end

/-! ## Runs -/

theorem inv_init (L : Law) : Inv L init where
  links := fun _ _ => Link.inv_gone (by simp [init, Link.new]) cut_nothing rfl rfl
    (by simp [init, Link.new])
  completed := by simp [init]

theorem step_inv {L : Law} (hL : L.Kept) {s : State} {a : Step} (ha : a.Allowed L) (hs : Inv L s) :
    Inv L (step s a) := by
  by_cases hended : s.ended = none
  · exact (step_running hL hs hended ha).1
  · rwa [step_ended hended]

/-- Every reply that a run completes keeps the law of its counters, and the one that is carried
along. -/
theorem run_inv {L : Law} (hL : L.Kept) {steps : List Step} (hsteps : ∀ a ∈ steps, a.Allowed L) :
    Inv L (Runs.run step init steps) :=
  (Runs.Meets.always (C := fun _ a => a.Allowed L) (Runs.meets_iff_forall.mpr hsteps)
    (fun _ _ hs ha => step_inv hL ha hs) (inv_init L)).last

end Httperf.Traffic
