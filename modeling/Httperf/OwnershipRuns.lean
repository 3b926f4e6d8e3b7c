-- The references to calls over whole runs of `core.c`: each function keeps the books as long as
-- what it has in hand behind an event is as it was, and the run that shows where `do_recv` does not
-- look.
import Httperf.OwnershipInv

namespace Httperf.Ownership

open Lib

variable {g g' : Ledger (Nat × Dir) Nat} {w : World} {x x' xc xc' : List Nat} {s : List Frame}
  {f : Frame} {c a : Nat} {k : Conn} {timed : Bool}

/-! ## Open connections -/

/-- The books of a connection that is open for calls. -/
theorem ConnOk.of_connected {l : Dir → List Nat} {held holds closers : Nat} {starting : Prop}
    (hconn : connected k.state = true) (href : k.ref_count = held + 1 + holds)
    (hlists : ∀ d, l d = k.queue d) (hactive : ∀ d, k.active d = true ↔ k.queue d ≠ [])
    (hzero : closers = 0) :
    ConnOk k l held holds closers starting where
  refs := by
    rw [closing_of_connected hconn]
    exact href
  free := by
    constructor
    · intro h
      rw [h] at hconn
      cases hconn
    · intro h
      omega
  lists _ := hlists
  closed h := by
    rw [closing_of_connected hconn] at h
    cases h
  watchdog h := by
    rw [closing_of_connected hconn] at h
    cases h
  early _ h := by
    rw [hconn] at h
    cases h
  initial h := by
    rw [h] at hconn
    cases hconn
  reading _ := hactive .READ
  writing _ := ⟨(hactive .WRITE).mp, fun h => Or.inl ((hactive .WRITE).mpr h)⟩
  closers_le := by omega
  closers_closing h := absurd h (by omega)

theorem ConnOk.open_refs {l : Dir → List Nat} {held holds closers : Nat} {starting : Prop}
    (h : ConnOk k l held holds closers starting) (hconn : k.state.closing = false) :
    k.ref_count = held + 1 + holds ∧ closers = 0 := by
  have hrefs := h.refs
  rw [hconn] at hrefs
  refine ⟨hrefs, ?_⟩
  rcases Nat.eq_zero_or_pos closers with h0 | hpos
  · exact h0
  · rw [h.closers_closing hpos] at hconn
    cases hconn

/-- An open connection with something in a queue is connected. -/
theorem ConnOk.connected_of_queue {l : Dir → List Nat} {held holds closers : Nat} {starting : Prop}
    (h : ConnOk k l held holds closers starting) (hopen : k.state.closing = false) {d : Dir}
    (hq : k.queue d ≠ []) : connected k.state = true := by
  cases hconn : connected k.state with
  | true => rfl
  | false => exact absurd ((h.early hopen hconn).1 d) hq

/-- A call that is in no queue stands in no list of the ledger. -/
theorem Inv.owner_none (h : Inv g w x xc) (hq : ¬ Queued w a) : g.owner a = none := by
  apply Ledger.owner_none
  rintro ⟨c, d⟩ hin
  have hc := h.conns c
  apply hq
  cases hclosing : (w.conn c).state.closing with
  | false => exact Or.inl ⟨c, d, hclosing, hc.lists hclosing d ▸ hin⟩
  | true =>
    rcases Nat.eq_zero_or_pos ((closers w.stack).count c) with h0 | hpos
    · have hnil := ((hc.closed hclosing h0).1 d).1
      rw [hnil] at hin
      cases hin
    · -- `core_close` is at it
      obtain ⟨f, hf, hcl⟩ := List.mem_flatMap.mp (List.count_pos_iff.mp hpos)
      have hok := h.frames f hf
      right
      cases f with
      | closing d' c' rest =>
        obtain rfl := List.mem_singleton.mp hcl
        refine ⟨d', c, rest, hf, ?_⟩
        cases d' with
        | WRITE =>
          cases d with
          | WRITE => exact Or.inl (hok.1 ▸ hin)
          | READ => exact Or.inr ⟨rfl, hok.2 ▸ hin⟩
        | READ =>
          cases d with
          | READ => exact Or.inl (hok.1 ▸ hin)
          | WRITE =>
            rw [hok.2.1] at hin
            cases hin
      | conn_close c' sd =>
        obtain rfl := List.mem_singleton.mp hcl
        rw [(hok.1 d).1] at hin
        cases hin
      | _ => cases hcl

theorem set_active_keeps (d : Dir) (l : Dir → List Nat) : Keeps k (set_active timed d k) l l := by
  cases d <;> exact Keeps.of_eq rfl rfl (fun d => by cases d <;> rfl) rfl

/-- `set_active` for a queue with something in it. -/
theorem ConnOk.set_active {l : Dir → List Nat} {held holds closers : Nat} {starting : Prop}
    (h : ConnOk k l held holds closers starting) (hopen : k.state.closing = false) {d : Dir}
    (hq : k.queue d ≠ []) : ConnOk (set_active timed d k) l held holds closers starting := by
  have hconn := h.connected_of_queue hopen hq
  have hstate : (Ownership.set_active timed d k).state = k.state := by cases d <;> rfl
  have hqueue : ∀ d', (Ownership.set_active timed d k).queue d' = k.queue d' := by
    cases d <;> intro d' <;> cases d' <;> rfl
  have hconn' : connected (Ownership.set_active timed d k).state = true := by rw [hstate, hconn]
  have hopen' := closing_of_connected hconn'
  refine ⟨?_, ?_, ?_, ?_, ?_, ?_, ?_, ?_, ?_, h.closers_le, ?_⟩
  · cases d <;> exact h.refs
  · cases d <;> exact h.free
  · intro _ d'
    rw [hqueue]
    exact h.lists hopen d'
  · intro hno
    rw [hopen'] at hno
    cases hno
  · intro hno
    rw [hopen'] at hno
    cases hno
  · intro _ hno
    rw [hconn'] at hno
    cases hno
  · intro hno
    rw [hno] at hconn'
    cases hconn'
  · intro _
    cases d with
    | READ => exact ⟨fun _ => hq, fun _ => rfl⟩
    | WRITE => exact h.reading hconn
  · intro _
    cases d with
    | READ => exact h.writing hconn
    | WRITE => exact ⟨fun _ => hq, fun _ => Or.inl rfl⟩
  · rw [hstate]
    exact h.closers_closing

/-- A change to one call. -/
theorem Inv.set_call {k : Call} {held made : Nat → Nat} (h : Inv g w x xc)
    (hconn : ∀ c d, g.owner a = some (c, d) → k.conn = some c)
    (hcount : k.ref_count = held a + g.share a + (x' ++ hands w.stack).count a)
    (hmade : made a = w.gone a + if k.ref_count = 0 then 0 else 1)
    (hother : ∀ b ≠ a, held b = w.held b ∧ made b = w.made b ∧ x'.count b = x.count b) :
    Inv g { w.set_call a k with held, made } x' xc where
  conn_of b c d hb := by
    by_cases hba : b = a
    · subst hba
      simpa [World.set_call] using hconn c d hb
    · simpa [World.set_call, hba] using h.conn_of b c d hb
  count b := by
    by_cases hba : b = a
    · subst hba
      simpa [World.set_call] using hcount
    · obtain ⟨h1, _, h3⟩ := hother b hba
      have hb := h.count b
      rw [List.count_append] at hb ⊢
      rw [h3]
      simpa [World.set_call, hba, h1] using hb
  made b := by
    by_cases hba : b = a
    · subst hba
      simpa [World.set_call] using hmade
    · obtain ⟨_, h2, _⟩ := hother b hba
      simpa [World.set_call, hba, h2] using h.made b
  conns := h.conns
  frames := h.frames
  based := h.based

/-! ## core_send -/

theorem inv_started (h : Inv g w x xc) (hs : w.stack = .send_start c a :: s)
    (hcond : (w.conn c).state.closing = true ∨ (w.conn c).sendq ≠ []) :
    Inv g (started timed c { w with stack := s }) x xc ∧
      (started timed c { w with stack := s }).failure = w.failure := by
  unfold started
  dsimp only
  cases hclosing : (w.conn c).state.closing with
  | true =>
    rw [if_pos rfl]
    refine ⟨h.pop hs rfl ?_, rfl⟩
    intro c' hc'
    obtain rfl := List.mem_singleton.mp hc'
    exact Or.inl hclosing
  | false =>
    rw [if_neg Bool.false_ne_true]
    rw [hclosing] at hcond
    have hq := hcond.resolve_left Bool.false_ne_true
    have hset : Inv g (w.set_conn c (set_active timed .WRITE (w.conn c))) x xc :=
      h.set_conn ((h.conns c).set_active hclosing (d := .WRITE) hq) (set_active_keeps .WRITE _)
    refine ⟨hset.pop hs rfl ?_, rfl⟩
    intro c' hc'
    obtain rfl := List.mem_singleton.mp hc'
    right
    simp [World.set_conn, set_active]

/-- One more call at the end of `sendq`. -/
theorem ConnOk.send {l l' : Dir → List Nat} {held holds closers : Nat} {starting : Prop}
    (h : ConnOk k l held holds closers starting) (hconn : connected k.state = true)
    (hl : ∀ d, l' d = { k with sendq := k.sendq ++ [a] }.queue d)
    (hstart : k.sendq = [] → starting) :
    ConnOk { k with sendq := k.sendq ++ [a] } l' held holds closers starting := by
  have hopen := closing_of_connected hconn
  exact { h with
    lists := fun _ => hl
    closed := fun hno => by
      dsimp only at hno
      rw [hopen] at hno
      cases hno
    early := fun _ hno => by
      dsimp only at hno
      rw [hconn] at hno
      cases hno
    writing := fun _ => by
      refine ⟨fun _ => by simp, fun _ => ?_⟩
      by_cases hq : k.sendq = []
      · exact Or.inr (hstart hq)
      · exact (h.writing hconn).2 hq }

theorem inv_issued (h : Inv g w x xc) (hs : w.stack = .issue c a :: s)
    (hconn : connected (w.conn c).state = true) (halive : 0 < (w.call a).ref_count)
    (hq : ¬ Queued w a) :
    ∃ g', Inv g' (issued c a { w with stack := s }) x xc ∧
      (issued c a { w with stack := s }).failure = w.failure := by
  have hnone := h.owner_none hq
  have hopen := closing_of_connected hconn
  have hpop : Inv g { w with stack := s } x xc :=
    h.pop hs rfl fun _ hno => absurd hno List.not_mem_nil
  -- the reference that goes with the place in `sendq`
  have hcall : Inv g ({ w with stack := s }.set_call a ⟨(w.call a).ref_count + 1, some c⟩)
      (a :: x) xc := by
    refine hpop.set_call (fun c' d hno => ?_) ?_ ?_ fun b hb => ⟨rfl, rfl, ?_⟩
    · rw [hnone] at hno
      cases hno
    · have hcount := hpop.count a
      rw [List.cons_append, List.count_cons_self]
      dsimp only at hcount ⊢
      omega
    · have hmade := h.made a
      rw [if_neg (Nat.ne_of_gt halive)] at hmade
      rw [if_neg (Nat.succ_ne_zero _)]
      exact hmade
    · rw [List.count_cons_of_ne hb.symm]
  have hadd : ∀ w' : World, Inv g w' (a :: x) xc → w'.conn = w.conn →
      (w'.call a).conn = some c → ((w.conn c).sendq = [] → c ∈ starters w'.stack) →
      Inv (g.add (c, .WRITE) a hnone)
        (w'.set_conn c { w.conn c with sendq := (w.conn c).sendq ++ [a] }) x xc := by
    intro w' hw' hsame hconn_a hstart
    have hc := hw'.conns c
    rw [hsame] at hc
    refine hw'.add hnone hconn_a (hc.send hconn ?_ hstart) ?_
    · intro d
      have hl := hc.lists hopen d
      cases d with
      | READ =>
        rw [Ledger.add_list, Function.update_of_ne (by simp)]
        exact hl
      | WRITE =>
        rw [Ledger.add_list, Function.update_self]
        exact congrArg (· ++ [a]) (hc.lists hopen .WRITE)
    · refine hw'.frames_keeps ⟨fun hno => ?_, fun _ => Or.inr ?_⟩ (add_other hnone)
      · rw [hsame, hopen] at hno
        cases hno
      · rw [hsame]
        refine ⟨id, fun d b hb => ?_⟩
        cases d with
        | READ => exact hb
        | WRITE =>
          have hb' : (w.conn c).sendq.head? = some b := hb
          show ((w.conn c).sendq ++ [a]).head? = some b
          rw [List.head?_append, hb', Option.some_or]
  have hself : (({ w with stack := s }.set_call a ⟨(w.call a).ref_count + 1, some c⟩).call a).conn =
      some c := by
    simp [World.set_call]
  unfold issued
  dsimp only
  by_cases hempty : (w.conn c).sendq = []
  · have hpush : Inv g (({ w with stack := s }.set_call a ⟨(w.call a).ref_count + 1, some c⟩).push
        (.send_start c a)) (a :: x) xc := hcall.push_event rfl rfl rfl rfl trivial
    rw [if_pos hempty]
    exact ⟨_, hadd _ hpush rfl hself fun _ => List.mem_cons_self, rfl⟩
  · rw [if_neg hempty]
    exact ⟨_, hadd _ hcall rfl hself fun hno => absurd hno hempty, rfl⟩

/-! ## do_send -/

/-- The books are in order, and no assertion of `conn_deinit` has failed. -/
def Good (w : World) : Prop :=
  w.failure ≠ some .conn_deinit ∧ ∃ g, Inv g w [] []

/-- `do_send` or `do_recv` goes on with its connection, when only `core_loop` is below. -/
theorem Inv.serving (h : Inv g w x xc) (hs : w.stack = f :: s) (hf : f.doing = some c) :
    (∃ dirs, s = [.core_loop c dirs]) ∧ Inv g { w with stack := s } (f.hand ++ x) xc := by
  have hbased : Based (f :: s) := hs ▸ h.based
  refine ⟨hbased.doing hf, ?_⟩
  have hholder : f.holder = [] := by cases f <;> first | rfl | cases hf
  have hstarter : f.starter = [] := by cases f <;> first | rfl | cases hf
  have hcloser : f.closer = [] := by cases f <;> first | rfl | cases hf
  have hpop := h.pop hs hcloser (by
    rw [hstarter]
    exact fun _ hno => absurd hno List.not_mem_nil)
  rw [hholder] at hpop
  exact hpop

theorem frames_of_loop {dirs : List Dir} {l : Nat × Dir → List Nat} {conn : Nat → Conn}
    (hs : w.stack = [.core_loop c dirs]) : ∀ f ∈ w.stack, FrameOk l conn f := by
  intro f hf
  rw [hs] at hf
  obtain rfl := List.mem_singleton.mp hf
  trivial

/-- While only `core_loop` is at work, `writing` says what it should. -/
theorem Inv.active_iff {dirs : List Dir} (h : Inv g w x xc) (hs : w.stack = [.core_loop c dirs])
    (hconn : connected (w.conn c).state = true) (d : Dir) :
    (w.conn c).active d = true ↔ (w.conn c).queue d ≠ [] := by
  have hc := h.conns c
  cases d with
  | READ => exact hc.reading hconn
  | WRITE =>
    refine ⟨(hc.writing hconn).1, fun hq => ?_⟩
    rcases (hc.writing hconn).2 hq with hw | hno
    · exact hw
    · rw [hs] at hno
      cases hno

/-- The first call of a queue comes into the hand, and the connection stays open. -/
theorem Inv.dequeue {dirs : List Dir} {d : Dir} {q : List Nat} (h : Inv g w x xc)
    (hs : w.stack = [.core_loop c dirs]) (hconn : connected (w.conn c).state = true)
    (hq : (w.conn c).queue d = a :: q) :
    ∃ g', Inv g' (w.set_conn c (dequeue d (w.conn c))) (a :: x) xc := by
  have hopen := closing_of_connected hconn
  have hc := h.conns c
  have hlist : g.list (c, d) = a :: q := (hc.lists hopen d).trans hq
  obtain ⟨href, hzero⟩ := hc.open_refs hopen
  have hactive := h.active_iff hs hconn
  refine ⟨_, h.drop hlist ?_ (frames_of_loop hs)⟩
  refine ConnOk.of_connected ?_ ?_ (fun d' => ?_) (fun d' => ?_) hzero
  · rw [dequeue_state]
    exact hconn
  · rw [dequeue_ref_count]
    exact href
  · rw [Ledger.drop_list]
    by_cases hd : d' = d
    · rw [hd, Function.update_self, dequeue_queue_self, hq, List.tail_cons]
    · rw [Function.update_of_ne (by simpa using hd), dequeue_queue_of_ne d _ hd]
      exact hc.lists hopen d'
  · by_cases hd : d' = d
    · have hon : (w.conn c).active d = true := (hactive d).mpr (by
        rw [hq]
        exact List.cons_ne_nil a q)
      rw [hd, dequeue_active_self, dequeue_queue_self]
      exact and_iff_right hon
    · rw [dequeue_active_of_ne d _ hd, dequeue_queue_of_ne d _ hd]
      exact hactive d'

theorem good_wrote {r : Writev} (h : Inv g w [] []) (hw : w.failure ≠ some .conn_deinit)
    (hs : w.stack = .raw_data c a :: s)
    (hcond : r = .eagain ∨ r = .error ∨ (w.conn c).state.closing = false) :
    Good (wrote r timed c a { w with stack := s }) := by
  obtain ⟨⟨dirs, hloop⟩, hpop⟩ := h.serving hs rfl
  have hok : Still (w.conn c) fun k => k.sendq.head? = some a :=
    h.frames (.raw_data c a) (hs ▸ List.mem_cons_self)
  cases r with
  | eagain => exact ⟨hw, g, hpop⟩
  | error => exact ⟨hw, g, hpop.push_event rfl rfl rfl rfl trivial⟩
  | part =>
    have hopen := (hcond.resolve_left (by simp)).resolve_left (by simp)
    obtain ⟨hconn, hhead⟩ := hok.resolve_left (by rw [hopen]; exact Bool.false_ne_true)
    obtain ⟨q, hsendq⟩ := List.head?_eq_some_iff.mp hhead
    have hq : (w.conn c).queue .WRITE ≠ [] :=
      fun hno => List.cons_ne_nil a q (hsendq.symm.trans hno)
    exact ⟨hw, g, hpop.set_conn ((hpop.conns c).set_active hopen hq) (set_active_keeps .WRITE _)⟩
  | whole =>
    have hopen := (hcond.resolve_left (by simp)).resolve_left (by simp)
    obtain ⟨hconn, hhead⟩ := hok.resolve_left (by rw [hopen]; exact Bool.false_ne_true)
    obtain ⟨q, hsendq⟩ := List.head?_eq_some_iff.mp hhead
    obtain ⟨g', hdone⟩ := hpop.dequeue (d := .WRITE) hloop hconn hsendq
    refine ⟨hw, g', hdone.push rfl ?_ ⟨dirs, hloop⟩⟩
    right
    refine ⟨?_, trivial⟩
    simp only [World.set_conn, Function.update_self, dequeue_state]
    exact hconn

theorem good_stopped (h : Inv g w [] []) (hw : w.failure ≠ some .conn_deinit)
    (hs : w.stack = .send_stop c a :: s)
    (hcond : (w.conn c).state.closing = true ∨ (w.call a).conn = some c ∧ ¬ Queued w a) :
    Good (stopped timed c a { w with stack := s }) := by
  obtain ⟨⟨dirs, hloop⟩, hpop⟩ := h.serving hs rfl
  have hok : Still (w.conn c) fun _ => True :=
    h.frames (.send_stop c a) (hs ▸ List.mem_cons_self)
  unfold stopped
  dsimp only
  cases hclosing : (w.conn c).state.closing with
  | true =>
    rw [if_pos rfl]
    obtain ⟨hdone, hfail⟩ := Inv.call_dec_ref hpop
    exact ⟨fun hno => hw (hfail.symm.trans hno), g, hdone⟩
  | false =>
    rw [if_neg Bool.false_ne_true]
    rw [hclosing] at hcond
    obtain ⟨hconn_a, hq⟩ := hcond.resolve_left Bool.false_ne_true
    have hnone := h.owner_none hq
    obtain ⟨hconn, _⟩ := hok.resolve_left (by rw [hclosing]; exact Bool.false_ne_true)
    have hc := hpop.conns c
    obtain ⟨href, hzero⟩ := hc.open_refs hclosing
    have hactive := hpop.active_iff hloop hconn
    have hstate : connected (if replying (w.conn c).state then (w.conn c).state
        else .S_REPLY_STATUS) = true := by
      split
      · exact hconn
      · rfl
    have hadd := hpop.add (d := .READ) hnone hconn_a (k := set_active timed .READ
      { w.conn c with
        recvq := (w.conn c).recvq ++ [a]
        state := if replying (w.conn c).state then (w.conn c).state else .S_REPLY_STATUS }) ?_
      (frames_of_loop hloop)
    · by_cases hempty : (w.conn c).sendq = []
      · rw [if_pos hempty]
        exact ⟨hw, _, hadd⟩
      · rw [if_neg hempty]
        refine ⟨hw, _, hadd.push rfl ?_ ⟨dirs, hloop⟩⟩
        right
        obtain ⟨b, q, hsendq⟩ := List.exists_cons_of_ne_nil hempty
        simp only [World.set_conn, Function.update_self]
        refine ⟨hstate, b, ?_⟩
        show (w.conn c).sendq.head? = some b
        rw [hsendq]
        rfl
    · refine ConnOk.of_connected hstate href (fun d => ?_) (fun d => ?_) hzero
      · rw [Ledger.add_list]
        cases d with
        | READ =>
          rw [Function.update_self]
          exact congrArg (· ++ [a]) (hc.lists hclosing .READ)
        | WRITE =>
          rw [Function.update_of_ne (by simp)]
          exact hc.lists hclosing .WRITE
      · cases d with
        | READ => exact ⟨fun _ => by simp [set_active, Conn.queue], fun _ => rfl⟩
        | WRITE => exact hactive .WRITE

section
variable {dirs : List Dir} (h : Inv g w [] []) (hw : w.failure ≠ some .conn_deinit)
include h

/-- A connection with something in a queue is open when only `core_loop` is at work. -/
theorem Inv.connected_of_queue (hs : w.stack = [.core_loop c dirs]) {d : Dir}
    (hq : (w.conn c).queue d ≠ []) : connected (w.conn c).state = true := by
  have hc := h.conns c
  have hopen : (w.conn c).state.closing = false := by
    cases hclosing : (w.conn c).state.closing with
    | false => rfl
    | true =>
      have hzero : (closers w.stack).count c = 0 := by
        rw [hs]
        rfl
      exact absurd ((hc.closed hclosing hzero).1 d).2 hq
  exact hc.connected_of_queue hopen hq

theorem Inv.connected_of_cons (hs : w.stack = [.core_loop c dirs]) {d : Dir} {q : List Nat}
    (hq : (w.conn c).queue d = a :: q) : connected (w.conn c).state = true := by
  apply h.connected_of_queue hs (d := d)
  rw [hq]
  exact List.cons_ne_nil a q

include hw

theorem good_do_send (hs : w.stack = [.core_loop c dirs]) (hq : (w.conn c).sendq ≠ []) :
    Good (do_send c w) := by
  have hconn := h.connected_of_queue hs (d := .WRITE) hq
  unfold do_send
  split
  · rename_i hno
    exact absurd hno hq
  · rename_i a q hsendq
    refine ⟨hw, g, Inv.push h rfl (Or.inr ⟨hconn, ?_⟩) ⟨dirs, hs⟩⟩
    dsimp only
    rw [hsendq]
    rfl

/-! ## do_recv -/

theorem good_next_reply (hs : w.stack = [.core_loop c dirs]) : Good (next_reply c w) := by
  unfold next_reply
  split
  · exact ⟨fun hno => (nomatch hno), g, h.fail .do_recv⟩
  · rename_i a q hrecvq
    have hconn := h.connected_of_cons hs (d := .READ) hrecvq
    refine ⟨hw, g, Inv.push h rfl (Or.inr ⟨hconn, ?_⟩) ⟨dirs, hs⟩⟩
    dsimp only
    rw [hrecvq]
    rfl

theorem good_end_recv (hs : w.stack = [.core_loop c dirs])
    (hcond : (w.conn c).recvq = [] ∨ (w.call a).conn = some c) :
    Good (end_recv timed c a w) := by
  unfold end_recv
  by_cases hempty : (w.conn c).recvq = []
  · rw [if_pos hempty]
    exact ⟨hw, g, h⟩
  · rw [if_neg hempty, hcond.resolve_left hempty]
    have hopen := closing_of_connected (h.connected_of_queue hs (d := .READ) hempty)
    exact ⟨hw, g, h.set_conn ((h.conns c).set_active hopen (d := .READ) hempty)
      (set_active_keeps .READ _)⟩

theorem good_recv_done {more : Option Bool} {q : List Nat} (hs : w.stack = [.core_loop c dirs])
    (hrecvq : (w.conn c).recvq = a :: q) : Good (recv_done c a more w) := by
  have hconn := h.connected_of_cons hs (d := .READ) hrecvq
  have hlist : g.list (c, .READ) = a :: q :=
    ((h.conns c).lists (closing_of_connected hconn) .READ).trans hrecvq
  have hown : g.owner a = some (c, .READ) := by
    rw [← g.mem_iff, hlist]
    exact List.mem_cons_self
  unfold recv_done
  rw [h.conn_of a c .READ hown]
  obtain ⟨g', hdone⟩ := h.dequeue (d := .READ) hs hconn hrecvq
  refine ⟨hw, g', hdone.push rfl ?_ ⟨dirs, hs⟩⟩
  right
  refine ⟨?_, trivial⟩
  simp only [World.set_conn, Function.update_self, dequeue_state]
  exact hconn

end

theorem ConnOk.set_state {l : Dir → List Nat} {held holds closers : Nat} {starting : Prop}
    {state : ConnState} (h : ConnOk k l held holds closers starting)
    (hconn : connected k.state = true) (hstate : connected state = true) :
    ConnOk { k with state } l held holds closers starting := by
  obtain ⟨href, hzero⟩ := h.open_refs (closing_of_connected hconn)
  have hopen := closing_of_connected hstate
  refine ⟨?_, ?_, ?_, ?_, ?_, ?_, ?_, ?_, ?_, h.closers_le, fun hno => absurd hno (by omega)⟩
  · dsimp only
    rw [hopen]
    exact href
  · constructor
    · rintro rfl
      cases hstate
    · intro hno
      dsimp only at hno
      omega
  · intro _ d
    exact (h.lists (closing_of_connected hconn) d).trans (by cases d <;> rfl)
  · intro hno
    dsimp only at hno
    rw [hopen] at hno
    cases hno
  · intro hno
    dsimp only at hno
    rw [hopen] at hno
    cases hno
  · intro _ hno
    dsimp only at hno
    rw [hstate] at hno
    cases hno
  · rintro rfl
    cases hstate
  · exact fun _ => h.reading hconn
  · exact fun _ => h.writing hconn

theorem Inv.set_state {state : ConnState} (h : Inv g w x xc)
    (hconn : connected (w.conn c).state = true) (hstate : connected state = true) :
    Inv g (w.set_conn c { w.conn c with state }) x xc := by
  refine h.set_conn ((h.conns c).set_state hconn hstate) (Keeps.of_eq ?_ ?_ ?_ rfl)
  · exact (closing_of_connected hstate).trans (closing_of_connected hconn).symm
  · exact hstate.trans hconn.symm
  · intro d
    cases d <;> rfl

theorem good_do_recv {r : Read} {dirs : List Dir} {q : List Nat} (h : Inv g w [] [])
    (hw : w.failure ≠ some .conn_deinit) (hs : w.stack = [.core_loop c dirs])
    (hrecvq : (w.conn c).recvq = a :: q) : Good (do_recv r c a w) := by
  have hconn := h.connected_of_cons hs (d := .READ) hrecvq
  cases r with
  | eagain => exact ⟨hw, g, h⟩
  | error => exact ⟨hw, g, h.push_event rfl rfl rfl rfl trivial⟩
  | eof =>
    unfold do_recv
    dsimp only
    split
    · exact ⟨hw, g, h.push_event rfl rfl rfl rfl trivial⟩
    · refine good_recv_done (h.set_state hconn rfl) hw (q := q) hs ?_
      simpa [World.set_conn] using hrecvq
  | data =>
    refine ⟨hw, g, Inv.push h rfl (Or.inr ⟨hconn, ?_⟩) ⟨dirs, hs⟩⟩
    dsimp only
    rw [hrecvq]
    rfl

theorem good_replied {more : Bool} (h : Inv g w [] []) (hw : w.failure ≠ some .conn_deinit)
    (hs : w.stack = .reply c a :: s) :
    Good (replied more timed c a { w with stack := s }) := by
  obtain ⟨⟨dirs, hloop⟩, hpop⟩ := h.serving hs rfl
  have hok : Still (w.conn c) fun k => k.recvq.head? = some a :=
    h.frames (.reply c a) (hs ▸ List.mem_cons_self)
  unfold replied
  dsimp only
  by_cases hdone : (w.conn c).state = .S_REPLY_DONE
  · rw [if_pos hdone]
    obtain ⟨_, hhead⟩ := hok.resolve_left (by rw [hdone]; exact Bool.false_ne_true)
    obtain ⟨q, hrecvq⟩ := List.head?_eq_some_iff.mp hhead
    exact good_recv_done hpop hw hloop hrecvq
  · rw [if_neg hdone]
    cases more with
    | true => exact good_next_reply hpop hw hloop
    | false =>
      refine good_end_recv hpop hw hloop ?_
      by_cases hempty : (w.conn c).recvq = []
      · exact Or.inl hempty
      · right
        have hconn := hpop.connected_of_queue hloop (d := .READ) hempty
        obtain ⟨_, hhead⟩ := hok.resolve_left (by
          rw [closing_of_connected hconn]
          exact Bool.false_ne_true)
        have hin : a ∈ g.list (c, .READ) := by
          rw [(hpop.conns c).lists (closing_of_connected hconn) .READ]
          exact List.mem_of_mem_head? hhead
        exact hpop.conn_of a c .READ ((g.mem_iff a _).mp hin)

theorem good_go_on {more : Bool} (h : Inv g w [] []) (hw : w.failure ≠ some .conn_deinit)
    (hs : w.stack = .received c a more :: s)
    (hcond : more = false → (w.conn c).state.closing = true ∨ (w.conn c).recvq = [] ∨
      (w.call a).conn = some c) : Good (go_on more timed c a { w with stack := s }) := by
  obtain ⟨⟨dirs, hloop⟩, hpop⟩ := h.serving hs rfl
  have hok : Still (w.conn c) fun _ => True :=
    h.frames (.received c a more) (hs ▸ List.mem_cons_self)
  unfold go_on
  dsimp only
  cases hclosing : (w.conn c).state.closing with
  | true =>
    rw [if_pos rfl]
    exact ⟨hw, g, hpop⟩
  | false =>
    rw [if_neg Bool.false_ne_true]
    obtain ⟨hconn, _⟩ := hok.resolve_left (by rw [hclosing]; exact Bool.false_ne_true)
    have hset : Inv g ({ w with stack := s }.set_conn c
        { w.conn c with state := .S_REPLY_STATUS }) [] [] := hpop.set_state hconn rfl
    cases more with
    | true => exact good_next_reply hset hw hloop
    | false =>
      refine good_end_recv hset hw hloop ?_
      rw [hclosing] at hcond
      rcases (hcond rfl).resolve_left Bool.false_ne_true with hempty | hconn_a
      · left
        simpa [World.set_conn] using hempty
      · exact Or.inr hconn_a

/-- What the parser does to the state. -/
theorem good_set_state {state : ConnState} (h : Inv g w x xc) (hs : w.stack = .reply c a :: s)
    (hstate : replying state = true)
    (hcond : state ≠ .S_REPLY_CONTINUE ∨ (w.conn c).state.closing = false) :
    Inv g (set_state state c w) x xc := by
  have hok : Still (w.conn c) fun k => k.recvq.head? = some a :=
    h.frames (.reply c a) (hs ▸ List.mem_cons_self)
  have hconn : connected state = true := by cases state <;> first | rfl | cases hstate
  unfold Ownership.set_state
  dsimp only
  cases hclosing : (w.conn c).state.closing with
  | true =>
    rw [hclosing] at hcond
    have hne := hcond.resolve_right (by simp)
    rw [if_pos ⟨rfl, hne⟩]
    exact h
  | false =>
    rw [if_neg fun hno => Bool.false_ne_true hno.1]
    obtain ⟨hopen, _⟩ := hok.resolve_left (by rw [hclosing]; exact Bool.false_ne_true)
    exact h.set_state hopen hconn

/-! ## core_loop and core_connect -/

theorem Inv.reloop {dirs : List Dir} (h : Inv g w x xc) (hs : w.stack = .core_loop c dirs :: s)
    (dirs' : List Dir) : s = [] ∧ Inv g { w with stack := .core_loop c dirs' :: s } x xc := by
  have hbased : Based (.core_loop c dirs :: s) := hs ▸ h.based
  have hnil : s = [] := hbased
  subst hnil
  refine ⟨rfl, h.conn_of, ?_, h.made, ?_, ?_, rfl⟩
  · intro b
    have hb := h.count b
    rw [hs] at hb
    exact hb
  · intro c'
    have hc := h.conns c'
    rw [hs] at hc
    exact hc
  · exact frames_of_loop (w := { w with stack := [.core_loop c dirs'] }) rfl

theorem good_loop_end (h : Inv g w [] []) (hw : w.failure ≠ some .conn_deinit)
    (hs : w.stack = .core_loop c [] :: s) : Good (conn_dec_ref c { w with stack := s }) := by
  have hpop := h.pop hs rfl fun _ hno => absurd hno List.not_mem_nil
  obtain ⟨hdone, hfail⟩ := Inv.conn_dec_ref hpop
  exact ⟨fun hno => hw (hfail.symm.trans hno), g, hdone⟩

/-- A connection that has just been made. -/
theorem ConnOk.fresh {l : Dir → List Nat} {held holds closers : Nat} {starting : Prop}
    (hconn : connected k.state = true) (href : k.ref_count = held + 1 + holds)
    (hl : ∀ d, l d = []) (hq : ∀ d, k.queue d = []) (hactive : ∀ d, k.active d = false)
    (hzero : closers = 0) : ConnOk k l held holds closers starting := by
  refine ConnOk.of_connected hconn href (fun d => (hl d).trans (hq d).symm) (fun d => ?_) hzero
  rw [hq d, hactive d]
  simp

theorem good_ready {dirs : List Dir} (h : Inv g w [] []) (hw : w.failure ≠ some .conn_deinit)
    (hs : w.stack = []) (hpos : 0 < (w.conn c).ref_count) : Good (ready c dirs w) := by
  have hc := h.conns c
  have hfree : (w.conn c).state ≠ .S_FREE := fun hno => absurd (hc.free.mp hno) (Nat.ne_of_gt hpos)
  have hrefs := hc.refs
  have hcount : ([c] ++ holders w.stack).count c = ([] ++ holders w.stack).count c + 1 := by
    rw [List.count_append, List.count_singleton_self, List.nil_append]
    omega
  have hother : ∀ c' ≠ c, w.conn_held c' = w.conn_held c' ∧ [c].count c' = [].count c' := by
    intro c' hne
    exact ⟨rfl, List.count_cons_of_ne hne.symm⟩
  have hset : ∀ k : Conn, ConnOk k (fun d => g.list (c, d)) (w.conn_held c)
      (([c] ++ holders w.stack).count c) ((closers w.stack).count c) (c ∈ starters w.stack) →
      ∀ dirs, Inv g ((w.set_conn c k).push (.core_loop c dirs)) [] [] := by
    intro k hk dirs
    have hchange : Inv g (w.set_conn c k) [] [c] := by
      refine h.change h.conn_of (fun _ => rfl) (fun _ _ _ => rfl) hother hk fun f hf => ?_
      rw [hs] at hf
      cases hf
    exact Inv.push hchange rfl trivial hs
  have hheld : ConnOk { w.conn c with ref_count := (w.conn c).ref_count + 1, watchdog := false }
      (fun d => g.list (c, d)) (w.conn_held c) (([c] ++ holders w.stack).count c)
      ((closers w.stack).count c) (c ∈ starters w.stack) := by
    refine { hc with refs := ?_, free := ?_, watchdog := fun _ => rfl }
    · rw [hcount, hrefs]
      rfl
    · exact ⟨fun hno => absurd hno hfree, fun hno => (nomatch hno)⟩
  unfold ready
  dsimp only
  by_cases hconnecting : (w.conn c).state = .S_CONNECTING
  · rw [if_pos hconnecting]
    split
    · have hopen : (w.conn c).state.closing = false := by
        rw [hconnecting]
        rfl
      obtain ⟨hq, hreading⟩ := hc.early hopen (by rw [hconnecting]; rfl)
      obtain ⟨href, hzero⟩ := hc.open_refs hopen
      have hnew := hset { clear_active .WRITE { w.conn c with
        ref_count := (w.conn c).ref_count + 1, watchdog := false } with state := .S_CONNECTED } ?_
          []
      · exact ⟨hw, g, hnew.push_event rfl rfl rfl rfl trivial⟩
      · refine ConnOk.fresh rfl ?_ (fun d => (hc.lists hopen d).trans (hq d)) ?_ ?_ hzero
        · rw [hcount]
          exact congrArg (· + 1) href
        · intro d
          cases d with
          | READ => exact hq .READ
          | WRITE => exact hq .WRITE
        · intro d
          cases d with
          | READ => exact hreading
          | WRITE => rfl
    · exact ⟨hw, g, hset _ hheld []⟩
  · rw [if_neg hconnecting]
    exact ⟨hw, g, hset _ hheld dirs⟩

theorem good_timer (h : Inv g w [] []) (hw : w.failure ≠ some .conn_deinit) :
    Good ((w.set_conn c { w.conn c with watchdog := false }).push (.conn_failed c)) := by
  refine ⟨hw, g, Inv.push_event ?_ rfl rfl rfl rfl trivial⟩
  refine h.set_conn { h.conns c with watchdog := fun _ => rfl } (Keeps.of_eq rfl rfl ?_ rfl)
  intro d
  cases d <;> rfl

theorem good_core_connect {r : Socket} (h : Inv g w [] []) (hw : w.failure ≠ some .conn_deinit)
    (hstate : (w.conn c).state = .S_INITIAL) : Good (core_connect r c w) := by
  have hopen : (w.conn c).state.closing = false := by
    rw [hstate]
    rfl
  have hset : Inv g (w.set_conn c { w.conn c with sd := true }) [] [] := by
    refine h.set_conn { h.conns c with closed := fun hno => ?_ } ⟨fun hno => ?_, fun _ => ?_⟩
    · dsimp only at hno
      rw [hopen] at hno
      cases hno
    · rw [hopen] at hno
      cases hno
    · exact Or.inr ⟨id, fun d a => by cases d <;> exact id⟩
  cases r with
  | none => exact ⟨hw, g, h.push_event rfl rfl rfl rfl trivial⟩
  | unknown_host => exact ⟨hw, g, hset.push_event rfl rfl rfl rfl trivial⟩
  | ok => exact ⟨hw, g, hset.push_event rfl rfl rfl rfl trivial⟩

theorem good_connect {r : Connect} (h : Inv g w [] []) (hw : w.failure ≠ some .conn_deinit)
    (hs : w.stack = .connecting c :: s)
    (hcond : r = .fails ∨ (w.conn c).state.closing = true ∨ (w.conn c).state = .S_INITIAL) :
    Good (connect r timed c { w with stack := s }) := by
  have hpop : Inv g { w with stack := s } [] [] :=
    h.pop hs rfl fun _ hno => absurd hno List.not_mem_nil
  have hfailed := hpop.push_event (f := .conn_failed c) rfl rfl rfl rfl trivial
  unfold connect
  dsimp only
  cases hclosing : (w.conn c).state.closing with
  | true =>
    rw [if_pos rfl]
    exact ⟨hw, g, hfailed⟩
  | false =>
    rw [if_neg Bool.false_ne_true]
    rw [hclosing] at hcond
    have hc := hpop.conns c
    obtain ⟨href, hzero⟩ := hc.open_refs hclosing
    cases r with
    | fails => exact ⟨hw, g, hfailed⟩
    | succeeds =>
      have hinit := (hcond.resolve_left (by simp)).resolve_left Bool.false_ne_true
      obtain ⟨hq, hreading⟩ := hc.early hclosing (by dsimp only; rw [hinit]; rfl)
      refine ⟨hw, g, Inv.push_event ?_ rfl rfl rfl rfl trivial⟩
      refine hpop.set_conn
        (ConnOk.fresh rfl href (fun d => (hc.lists hclosing d).trans (hq d)) ?_ ?_
          hzero) ⟨fun hno => ?_, fun _ => Or.inr ⟨fun _ => rfl, ?_⟩⟩
      · intro d
        cases d with
        | READ => exact hq .READ
        | WRITE => exact hq .WRITE
      · intro d
        cases d with
        | READ => exact hreading
        | WRITE => exact hc.initial hinit
      · dsimp only at hno
        rw [hclosing] at hno
        cases hno
      · intro d a
        cases d <;> exact id
    | in_progress =>
      have hinit := (hcond.resolve_left (by simp)).resolve_left Bool.false_ne_true
      obtain ⟨hq, hreading⟩ := hc.early hclosing (by dsimp only; rw [hinit]; rfl)
      refine ⟨hw, g, hpop.set_conn ?_ ⟨fun hno => ?_, fun _ => Or.inr ⟨fun hno => ?_, ?_⟩⟩⟩
      · refine ⟨href, ?_, fun _ d => ?_, fun hno => (nomatch hno), fun hno => (nomatch hno),
          fun _ _ => ⟨fun d => ?_, hreading⟩, fun hno => (nomatch hno), fun hno => (nomatch hno),
          fun hno => (nomatch hno), hc.closers_le, fun hno => absurd hno (by omega)⟩
        · refine ⟨fun hno => (nomatch hno), fun hno => ?_⟩
          have href' : (w.conn c).ref_count = 0 := hno
          dsimp only at href
          omega
        · cases d with
          | READ => exact hc.lists hclosing .READ
          | WRITE => exact hc.lists hclosing .WRITE
        · cases d with
          | READ => exact hq .READ
          | WRITE => exact hq .WRITE
      · dsimp only at hno
        rw [hclosing] at hno
        cases hno
      · dsimp only at hno
        rw [hinit] at hno
        cases hno
      · intro d a
        cases d <;> exact id

/-! ## What the handlers call -/

theorem good_call_new (h : Inv g w [] []) (hw : w.failure ≠ some .conn_deinit)
    (hzero : (w.call a).ref_count = 0) :
    Good { w.set_call a ⟨1, none⟩ with
      held := Function.update w.held a 1
      made := Function.update w.made a (w.made a + 1) } := by
  have hcount := h.count a
  have hmade := h.made a
  rw [hzero, if_pos rfl] at hmade
  have hnone : g.owner a = none := by
    cases hown : g.owner a with
    | none => rfl
    | some p =>
      have hshare := Ledger.share_mem ((g.mem_iff a p).mpr hown)
      omega
  refine ⟨hw, g, h.set_call (fun c d hno => ?_) ?_ ?_ fun b hb => ⟨?_, ?_, rfl⟩⟩
  · rw [hnone] at hno
    cases hno
  · rw [Function.update_self]
    dsimp only
    omega
  · rw [Function.update_self, hmade]
    rfl
  · exact Function.update_of_ne hb 1 w.held
  · exact Function.update_of_ne hb _ w.made

theorem good_call_inc_ref (h : Inv g w [] []) (hw : w.failure ≠ some .conn_deinit)
    (hpos : 0 < (w.call a).ref_count) :
    Good { w.set_call a { w.call a with ref_count := (w.call a).ref_count + 1 } with
      held := Function.update w.held a (w.held a + 1) } := by
  have hcount := h.count a
  have hmade := h.made a
  rw [if_neg (Nat.ne_of_gt hpos)] at hmade
  refine ⟨hw, g, h.set_call (fun c d => h.conn_of a c d) ?_ ?_ fun b hb => ⟨?_, rfl, rfl⟩⟩
  · rw [Function.update_self]
    dsimp only
    omega
  · rw [if_neg (Nat.succ_ne_zero _)]
    exact hmade
  · exact Function.update_of_ne hb _ w.held

theorem good_call_dec_ref (h : Inv g w [] []) (hw : w.failure ≠ some .conn_deinit)
    (hpos : 0 < w.held a) :
    Good (call_dec_ref a { w with held := Function.update w.held a (w.held a - 1) }) := by
  have htake : Inv g { w with held := Function.update w.held a (w.held a - 1) } [a] [] := by
    refine ⟨h.conn_of, fun b => ?_, h.made, h.conns, h.frames, h.based⟩
    have hb := h.count b
    dsimp only
    rw [List.singleton_append]
    by_cases hba : b = a
    · subst hba
      rw [Function.update_self, List.count_cons_self]
      rw [List.nil_append] at hb
      omega
    · have hab : a ≠ b := fun heq => hba heq.symm
      rw [Function.update_of_ne hba, List.count_cons_of_ne hab]
      exact hb
  obtain ⟨hdone, hfail⟩ := Inv.call_dec_ref htake
  exact ⟨fun hno => hw (hfail.symm.trans hno), g, hdone⟩

theorem good_conn_new (h : Inv g w [] []) (hw : w.failure ≠ some .conn_deinit)
    (hzero : (w.conn c).ref_count = 0) : Good (w.set_conn c conn_init) := by
  have hc := h.conns c
  have hrefs := hc.refs
  have hfree : (w.conn c).state = .S_FREE := hc.free.mpr hzero
  have hclosing : (w.conn c).state.closing = true := by
    rw [hfree]
    rfl
  rw [hclosing, List.nil_append] at hrefs
  have hnone : (closers w.stack).count c = 0 := by
    have hle := closers_le w.stack c
    omega
  have hlists := (hc.closed hclosing hnone).1
  refine ⟨hw, g, h.change h.conn_of (fun _ => rfl) (fun _ _ _ => rfl) (fun _ _ => ⟨rfl, rfl⟩) ?_
    fun f hf => ?_⟩
  · refine ⟨?_, ⟨fun hno => (nomatch hno), fun hno => (nomatch hno)⟩, fun _ d => ?_,
      fun hno => (nomatch hno), fun _ => rfl, fun _ _ => ⟨fun d => ?_, rfl⟩, fun _ => rfl,
      fun hno => (nomatch hno), fun hno => (nomatch hno), hc.closers_le,
      fun hno => absurd hno (by omega)⟩
    · dsimp only [conn_init, ConnState.closing]
      rw [List.nil_append]
      simp only [Bool.false_eq_true, if_false]
      omega
    · rw [(hlists d).1]
      cases d <;> rfl
    · cases d <;> rfl
  · refine (h.frames f hf).of_others (c := c) (fun hdoing => ?_) (fun hcl => ?_) fun c' hc' =>
      ⟨Function.update_of_ne hc' _ _, fun _ => rfl⟩
    · have hheld := List.count_pos_iff.mpr (h.based.held hf hdoing)
      omega
    · rw [h.closing hf hcl] at hfree
      cases hfree

theorem good_conn_inc_ref (h : Inv g w [] []) (hw : w.failure ≠ some .conn_deinit)
    (hpos : 0 < (w.conn c).ref_count) :
    Good { w.set_conn c { w.conn c with ref_count := (w.conn c).ref_count + 1 } with
      conn_held := Function.update w.conn_held c (w.conn_held c + 1) } := by
  have hc := h.conns c
  refine ⟨hw, g, h.change h.conn_of (fun _ => rfl) (fun _ _ _ => rfl) (fun c' hc' => ⟨?_, rfl⟩) ?_
    (h.frames_keeps (Keeps.of_eq rfl rfl ?_ rfl) fun _ _ _ => rfl)⟩
  · exact Function.update_of_ne hc' _ w.conn_held
  · rw [Function.update_self]
    refine { hc with refs := ?_, free := ?_ }
    · have hrefs := hc.refs
      dsimp only
      omega
    · have hfree := hc.free
      refine ⟨fun hno => ?_, fun hno => (nomatch hno)⟩
      have hno' := hfree.mp hno
      omega
  · intro d
    cases d <;> rfl

theorem good_conn_dec_ref (h : Inv g w [] []) (hw : w.failure ≠ some .conn_deinit)
    (hpos : 0 < w.conn_held c) :
    Good (conn_dec_ref c
      { w with conn_held := Function.update w.conn_held c (w.conn_held c - 1) }) := by
  have htake : Inv g { w with conn_held := Function.update w.conn_held c (w.conn_held c - 1) }
      [] [c] := by
    refine ⟨h.conn_of, h.count, h.made, fun c' => ?_, h.frames, h.based⟩
    have hc := h.conns c'
    rw [List.nil_append] at hc
    dsimp only
    rw [List.singleton_append]
    by_cases hcc : c' = c
    · subst hcc
      rw [Function.update_self, List.count_cons_self]
      refine { hc with refs := ?_ }
      have hrefs := hc.refs
      omega
    · have hne : c ≠ c' := fun heq => hcc heq.symm
      rw [Function.update_of_ne hcc, List.count_cons_of_ne hne]
      exact hc
  obtain ⟨hdone, hfail⟩ := Inv.conn_dec_ref htake
  exact ⟨fun hno => hw (hfail.symm.trans hno), g, hdone⟩

/-! ## Every run -/

theorem good_back (h : Inv g w [] []) (hw : w.failure ≠ some .conn_deinit)
    (hcond : Intact w (.back timed)) : Good (back timed w) := by
  have hsame : ∀ {w' : World} {g' : Ledger (Nat × Dir) Nat},
      Inv g' w' [] [] → w'.failure = w.failure → Good w' := by
    intro w' g' hinv hfail
    exact ⟨fun hno => hw (hfail.symm.trans hno), g', hinv⟩
  have hstart : ∀ c ∈ ([] : List Nat), (w.conn c).state.closing = true ∨
      (w.conn c).writing = true := fun _ hno => absurd hno List.not_mem_nil
  obtain ⟨hcond, hfresh⟩ := hcond
  unfold back
  unfold intact at hcond
  unfold enters at hfresh
  cases hs : w.stack with
  | nil => exact ⟨hw, g, h⟩
  | cons f s =>
    rw [hs] at hcond hfresh
    cases f with
    | issue c a =>
      simp only [Bool.and_eq_true, bne_iff_ne] at hcond
      obtain ⟨g', hdone, hfail⟩ := inv_issued h hs hcond.1 (Nat.pos_of_ne_zero hcond.2)
        (hfresh a rfl)
      exact hsame hdone hfail
    | send_start c a =>
      simp only [Bool.or_eq_true, Bool.not_eq_true', List.isEmpty_eq_false_iff] at hcond
      obtain ⟨hdone, hfail⟩ := inv_started h hs hcond
      exact hsame hdone hfail
    | send_stop c a =>
      simp only [Bool.or_eq_true, beq_iff_eq] at hcond
      refine good_stopped h hw hs ?_
      cases hclosing : (w.conn c).state.closing with
      | true => exact Or.inl rfl
      | false =>
        rw [hclosing] at hcond
        exact Or.inr ⟨hcond.resolve_left Bool.false_ne_true, hfresh a (by simp [hclosing])⟩
    | send_next c =>
      obtain ⟨⟨dirs, hloop⟩, hpop⟩ := h.serving hs rfl
      have hok : Still (w.conn c) fun k => ∃ a, k.sendq.head? = some a :=
        h.frames (.send_next c) (hs ▸ List.mem_cons_self)
      dsimp only
      cases hclosing : (w.conn c).state.closing with
      | true => exact ⟨hw, g, hpop⟩
      | false =>
        rw [if_neg Bool.false_ne_true]
        obtain ⟨_, a, hhead⟩ := hok.resolve_left (by rw [hclosing]; exact Bool.false_ne_true)
        refine good_do_send hpop hw hloop fun hno => ?_
        dsimp only at hno
        rw [hno] at hhead
        cases hhead
    | recv_stop c a more =>
      obtain ⟨⟨dirs, hloop⟩, hpop⟩ := h.serving hs rfl
      cases more with
      | none =>
        obtain ⟨hdone, hfail⟩ := Inv.call_dec_ref hpop
        exact hsame hdone hfail
      | some more =>
        have hok : FrameOk g.list w.conn (.received c a more) :=
          h.frames (.recv_stop c a (some more)) (hs ▸ List.mem_cons_self)
        have hpush : Inv g ({ w with stack := s }.push (.received c a more)) [a] [] :=
          Inv.push hpop rfl hok ⟨dirs, hloop⟩
        obtain ⟨hdone, hfail⟩ := Inv.call_dec_ref hpush
        exact hsame hdone hfail
    | received c a more =>
      refine good_go_on h hw hs fun hmore => ?_
      subst hmore
      simpa [or_assoc] using hcond
    | closing queue c rest =>
      obtain ⟨g', hdone, hfail⟩ := inv_close_queue h hs
      exact hsame hdone hfail
    | conn_close c sd =>
      obtain ⟨hdone, hfail⟩ := inv_closed h hs
      exact hsame hdone hfail
    | conn_failed c =>
      obtain ⟨hdone, hfail⟩ := inv_core_close (c := c) (h.pop hs rfl hstart)
      exact hsame hdone hfail
    | call_destroyed a => exact ⟨hw, g, h.pop hs rfl hstart⟩
    | conn_destroyed c => exact ⟨hw, g, h.pop hs rfl hstart⟩
    | conn_connected c => exact ⟨hw, g, h.pop hs rfl hstart⟩
    | core_loop c dirs =>
      cases dirs with
      | nil => exact good_loop_end h hw hs
      | cons d dirs =>
        obtain ⟨rfl, hloop⟩ := h.reloop hs dirs
        cases d with
        | WRITE =>
          dsimp only
          split
          · exact ⟨hw, g, hloop⟩
          · rename_i hq
            exact good_do_send hloop hw rfl hq
        | READ =>
          dsimp only
          split
          · exact ⟨hw, g, hloop⟩
          · exact ⟨hw, g, h⟩
    | raw_data c a => exact ⟨hw, g, h⟩
    | reply c a => exact ⟨hw, g, h⟩
    | connecting c => exact ⟨hw, g, h⟩

theorem good_step (s : Step) (h : Good w) (hallowed : Allowed w s) (hintact : Intact w s) :
    Good (step w s) := by
  obtain ⟨hw, g, hinv⟩ := h
  obtain ⟨hallowed, _⟩ := hallowed
  unfold step
  split
  · exact ⟨hw, g, hinv⟩
  unfold permitted at hallowed
  cases s with
  | call_new a =>
    simp only [Bool.and_eq_true, beq_iff_eq] at hallowed
    exact good_call_new hinv hw hallowed.1.2
  | call_inc_ref a =>
    simp only [Bool.and_eq_true, bne_iff_ne] at hallowed
    exact good_call_inc_ref hinv hw (Nat.pos_of_ne_zero hallowed.2)
  | call_dec_ref a =>
    simp only [Bool.and_eq_true, bne_iff_ne] at hallowed
    exact good_call_dec_ref hinv hw (Nat.pos_of_ne_zero hallowed.2)
  | conn_new c =>
    simp only [Bool.and_eq_true, beq_iff_eq] at hallowed
    exact good_conn_new hinv hw hallowed.1.2
  | conn_inc_ref c =>
    simp only [Bool.and_eq_true, bne_iff_ne] at hallowed
    exact good_conn_inc_ref hinv hw (Nat.pos_of_ne_zero hallowed.2)
  | conn_dec_ref c =>
    simp only [Bool.and_eq_true, bne_iff_ne] at hallowed
    exact good_conn_dec_ref hinv hw (Nat.pos_of_ne_zero hallowed.2)
  | core_connect c r =>
    simp only [Bool.and_eq_true, beq_iff_eq] at hallowed
    exact good_core_connect hinv hw hallowed.2
  | core_send c a => exact ⟨hw, g, hinv.push_event rfl rfl rfl rfl trivial⟩
  | core_close c =>
    obtain ⟨hdone, hfail⟩ := inv_core_close (c := c) hinv
    exact ⟨fun hno => hw (hfail.symm.trans hno), g, hdone⟩
  | ready c dirs =>
    simp only [Bool.and_eq_true, List.isEmpty_iff, bne_iff_ne] at hallowed
    exact good_ready hinv hw hallowed.1 (Nat.pos_of_ne_zero hallowed.2)
  | timer c => exact good_timer hinv hw
  | back timed => exact good_back hinv hw hintact
  | writev r timed =>
    have hcond := hintact.1
    unfold intact at hcond
    cases hs : w.stack with
    | nil => exact ⟨hw, g, hinv⟩
    | cons f s =>
      rw [hs] at hcond
      cases f with
      | raw_data c a =>
        refine good_wrote hinv hw hs ?_
        simpa [or_assoc] using hcond
      | _ => exact ⟨hw, g, hinv⟩
  | read r =>
    cases hs : w.stack with
    | nil => exact ⟨hw, g, hinv⟩
    | cons f s =>
      cases f with
      | core_loop c dirs =>
        rcases dirs with _ | ⟨_ | _, dirs⟩
        · exact ⟨hw, g, hinv⟩
        · obtain ⟨rfl, hloop⟩ := hinv.reloop hs dirs
          dsimp only
          split
          · exact ⟨hw, g, hinv⟩
          · rename_i a q hrecvq
            exact good_do_recv hloop hw rfl hrecvq
        · exact ⟨hw, g, hinv⟩
      | _ => exact ⟨hw, g, hinv⟩
  | parse state event more timed =>
    have hcond := hintact.1
    unfold intact at hcond
    cases hs : w.stack with
    | nil => exact ⟨hw, g, hinv⟩
    | cons f s =>
      rw [hs] at hcond
      cases f with
      | reply c a =>
        have hset := good_set_state hinv hs hallowed (by simpa using hcond)
        have hw' : (set_state state c w).failure ≠ some .conn_deinit := by rwa [set_state_failure]
        dsimp only
        split
        · exact ⟨hw', g, hset⟩
        · exact good_replied hset hw' (by rwa [set_state_stack])
      | _ => exact ⟨hw, g, hinv⟩
  | connect r timed =>
    have hcond := hintact.1
    unfold intact at hcond
    cases hs : w.stack with
    | nil => exact ⟨hw, g, hinv⟩
    | cons f s =>
      rw [hs] at hcond
      cases f with
      | connecting c =>
        refine good_connect hinv hw hs ?_
        simpa [or_assoc] using hcond
      | _ => exact ⟨hw, g, hinv⟩

/-- Between two events there is nothing but the queues. -/
theorem Good.law (h : Good w) : Law w := by
  obtain ⟨hw, g, hinv⟩ := h
  refine ⟨fun hs => ?_, hw⟩
  have hlist : ∀ c d, g.list (c, d) = (w.conn c).queue d := by
    intro c d
    have hc := hinv.conns c
    cases hclosing : (w.conn c).state.closing with
    | false => exact hc.lists hclosing d
    | true =>
      have hnil := (hc.closed hclosing (by rw [hs]; rfl)).1 d
      rw [hnil.1, hnil.2]
  have hcount : ∀ a, (w.call a).ref_count = w.held a + g.share a := by
    intro a
    have ha := hinv.count a
    rw [hs] at ha
    exact ha
  refine ⟨fun c d => ?_, fun a c d c' d' hin hin' => ?_, fun a c d hin => ?_, fun a hnone => ?_,
    hinv.made, fun c hconn => ?_, fun c hconn => (hinv.conns c).reading hconn⟩
  · rw [← hlist]
    exact g.nodup (c, d)
  · rw [← hlist] at hin hin'
    exact Prod.mk.inj (Ledger.owner_eq hin hin')
  · rw [← hlist] at hin
    rw [hcount, Ledger.share_mem hin]
  · rw [hcount, Ledger.share_none, Nat.add_zero]
    exact Ledger.owner_none fun p => hlist p.1 p.2 ▸ hnone p.1 p.2
  · refine ⟨((hinv.conns c).writing hconn).1, fun hq => ?_⟩
    rcases ((hinv.conns c).writing hconn).2 hq with h | hno
    · exact h
    · rw [hs] at hno
      cases hno

theorem good_start : Good start := ⟨fun hno => (nomatch hno), Ledger.empty, inv_start⟩

/-- A call whose references are all accounted for is in no queue. -/
theorem Good.not_queued (h : Good w)
    (hcount : (w.call a).ref_count = w.held a + (hands w.stack).count a) : ¬ Queued w a := by
  obtain ⟨_, g, hinv⟩ := h
  have hnot : ∀ p, a ∉ g.list p := by
    intro p hin
    have ha := hinv.count a
    rw [Ledger.share_mem hin, List.nil_append] at ha
    omega
  rintro (⟨c, d, hopen, hin⟩ | ⟨d, c, rest, hf, hin⟩)
  · exact hnot (c, d) ((hinv.conns c).lists hopen d ▸ hin)
  · have hok := hinv.frames _ hf
    cases d with
    | WRITE =>
      rcases hin with hin | ⟨_, hin⟩
      · exact hnot (c, .WRITE) (hok.1 ▸ hin)
      · exact hnot (c, .READ) (hok.2 ▸ hin)
    | READ =>
      rcases hin with hin | ⟨hno, _⟩
      · exact hnot (c, .READ) (hok.1 ▸ hin)
      · cases hno

/-- The references of the calls that a step is about to queue are all accounted for. -/
def settled (w : World) (s : Step) : Bool :=
  let free a := (w.call a).ref_count == w.held a + (hands w.stack).count a
  (match s with | .core_send _ a => free a | _ => true) && (enters w s).all free

theorem Good.fresh {s : Step} (h : Good w) (hs : settled w s = true) :
    (∀ c a, s = .core_send c a → ¬ Queued w a) ∧ ∀ a, enters w s = some a → ¬ Queued w a := by
  unfold settled at hs
  rw [Bool.and_eq_true, Option.all_eq_true] at hs
  refine ⟨?_, fun a ha => ?_⟩
  · rintro c a rfl
    exact h.not_queued (by simpa using hs.1)
  · exact h.not_queued (by simpa using hs.2 a ha)

/-- A run that can be looked through. -/
def checked : World → List Step → Bool
  | _, [] => true
  | w, s :: steps => permitted w s && intact w s && settled w s && checked (step w s) steps

theorem meets_of_checked {steps : List Step} (h : Good w) (hc : checked w steps = true) :
    Runs.Meets step (fun w s => Allowed w s ∧ Intact w s) w steps := by
  induction steps generalizing w with
  | nil => trivial
  | cons s steps ih =>
    unfold checked at hc
    simp only [Bool.and_eq_true] at hc
    obtain ⟨⟨⟨hp, hi⟩, hs⟩, hrest⟩ := hc
    obtain ⟨hsend, henters⟩ := h.fresh hs
    have hgood := good_step s h ⟨hp, hsend⟩ ⟨hi, henters⟩
    exact ⟨⟨⟨hp, hsend⟩, hi, henters⟩, ih hgood hrest⟩

/-- What a run may do that could be looked through, but for its last steps. -/
theorem allowed_of_checked {steps last : List Step} (h : checked start steps = true)
    (hlast : Runs.Meets step Allowed (Runs.run step start steps) last) :
    Runs.Meets step Allowed start (steps ++ last) := by
  refine Runs.Meets.append ?_ hlast
  exact (meets_of_checked good_start h).imp (Q := fun _ => True) (fun _ _ _ hs => hs.1)
    (fun _ _ _ _ => trivial) trivial

theorem allowed_back (w : World) : Allowed w (.back false) := ⟨rfl, fun _ _ hno => (nomatch hno)⟩

/-- Two connections, and two calls in the `recvq` of the first one. The handler of
`EV_CALL_RECV_STOP` sends the first call again, on the other connection. -/
def sent_again : List Step :=
  [.call_new 0, .call_new 1, .conn_new 0, .core_connect 0 .ok, .connect .succeeds false,
    .back false, .conn_new 1, .core_connect 1 .ok, .connect .succeeds false, .back false,
    .core_send 0 0, .back false, .back false, .core_send 0 1, .back false,
    .ready 0 [.WRITE], .back false, .writev .whole false, .back false, .back false,
    .writev .whole false, .back false, .back false,
    .ready 0 [.READ], .read .data, .parse .S_REPLY_DONE false false false,
    .core_send 1 0, .back false, .back false, .back false]

/-- The handler of `EV_CALL_ISSUE` sends another call, and the handler of its `EV_CALL_SEND_START`
closes the connection. Somebody else holds a reference to it. -/
def closed_inside_issue : List Step :=
  [.call_new 0, .call_new 1, .conn_new 0, .conn_inc_ref 0, .core_connect 0 .ok,
    .connect .succeeds false, .back false, .core_send 0 0, .core_send 0 1, .back false,
    .core_close 0, .back false, .back false, .back false, .back false, .back false]

/-- The handler of `EV_CALL_SEND_START` closes the connection and makes a new one, which gets the
same memory. -/
def made_again : List Step :=
  [.call_new 0, .conn_new 0, .core_connect 0 .ok, .connect .succeeds false, .back false,
    .core_send 0 0, .back false, .core_close 0, .back false, .back false, .back false, .back false,
    .back false, .conn_new 0, .core_connect 0 .ok, .connect .succeeds false, .back false]

theorem sent_again_checked : checked start sent_again = true := by
  decide +kernel

end Httperf.Ownership
