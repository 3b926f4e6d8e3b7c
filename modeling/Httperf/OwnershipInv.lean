-- The invariant behind the references to calls and connections: a ledger of the queues, the books
-- of each connection, and what each function on the stack may still rely on.
import Httperf.Ownership

namespace Httperf.Ownership

open Lib

/-! ## The stack -/

/-- The calls whose reference a frame carries from one place to another. -/
def Frame.hand : Frame → List Nat
  | .send_stop _ a | .recv_stop _ a _ => [a]
  | _ => []

/-- The connections that a frame holds a reference to. -/
def Frame.holder : Frame → List Nat
  | .core_loop c _ | .closing _ c _ | .conn_close c _ => [c]
  | _ => []

/-- The connections that a frame is closing. -/
def Frame.closer : Frame → List Nat
  | .closing _ c _ | .conn_close c _ => [c]
  | _ => []

/-- The connections that a frame has put the first call into `sendq` of. -/
def Frame.starter : Frame → List Nat
  | .send_start c _ => [c]
  | _ => []

/-- The connection that `do_send` or `do_recv` is at work on. -/
def Frame.doing : Frame → Option Nat
  | .raw_data c _ | .send_stop c _ | .send_next c => some c
  | .reply c _ | .recv_stop c _ _ | .received c _ _ => some c
  | _ => none

def hands (s : List Frame) : List Nat := s.flatMap Frame.hand
def holders (s : List Frame) : List Nat := s.flatMap Frame.holder
def closers (s : List Frame) : List Nat := s.flatMap Frame.closer
def starters (s : List Frame) : List Nat := s.flatMap Frame.starter

@[simp] theorem hands_cons (f : Frame) (s : List Frame) : hands (f :: s) = f.hand ++ hands s := rfl

@[simp] theorem holders_cons (f : Frame) (s : List Frame) :
    holders (f :: s) = f.holder ++ holders s := rfl

@[simp] theorem closers_cons (f : Frame) (s : List Frame) :
    closers (f :: s) = f.closer ++ closers s := rfl

@[simp] theorem starters_cons (f : Frame) (s : List Frame) :
    starters (f :: s) = f.starter ++ starters s := rfl

/-- `core_loop` is at the bottom, and `do_send` and `do_recv` are called by nobody else. -/
def Based : List Frame → Prop
  | [] => True
  | f :: s =>
    match f.doing, f with
    | some c, _ => ∃ dirs, s = [.core_loop c dirs]
    | none, .core_loop _ _ => s = []
    | none, _ => Based s

/-- A frame that may stand anywhere. -/
def Frame.nested : Frame → Bool
  | .core_loop _ _ => false
  | f => f.doing.isNone

theorem based_cons {f : Frame} {s : List Frame} (hf : f.nested) : Based (f :: s) ↔ Based s := by
  cases f <;> first | exact Iff.rfl | cases hf

theorem Based.tail {f : Frame} {s : List Frame} (h : Based (f :: s)) : Based s := by
  by_cases hf : f.nested
  · exact (based_cons hf).mp h
  · cases f <;> first
      | (obtain ⟨dirs, rfl⟩ := h; rfl)
      | (obtain rfl := h; trivial)
      | exact absurd rfl hf

theorem Based.doing {f : Frame} {c : Nat} {s : List Frame} (h : Based (f :: s))
    (hf : f.doing = some c) : ∃ dirs, s = [.core_loop c dirs] := by
  unfold Based at h
  rw [hf] at h
  exact h

/-- `core_loop` holds the connection that `do_send` or `do_recv` is at work on. -/
theorem Based.held {f : Frame} {c : Nat} {s : List Frame} (h : Based s) (hin : f ∈ s)
    (hf : f.doing = some c) : c ∈ holders s := by
  induction s with
  | nil => cases hin
  | cons f' s ih =>
    rw [holders_cons]
    apply List.mem_append_right
    rcases List.mem_cons.mp hin with rfl | hin
    · obtain ⟨dirs, rfl⟩ := h.doing hf
      exact List.mem_cons_self
    · exact ih h.tail hin

theorem closers_le (s : List Frame) (c : Nat) : (closers s).count c ≤ (holders s).count c := by
  induction s with
  | nil => exact Nat.le_refl _
  | cons f s ih =>
    have hf : f.closer.count c ≤ f.holder.count c := by
      cases f <;> simp [Frame.closer, Frame.holder]
    rw [closers_cons, holders_cons, List.count_append, List.count_append]
    omega

/-! ## The books -/

theorem closing_of_connected {s : ConnState} (h : connected s = true) : s.closing = false := by
  cases s <;> first | rfl | cases h

/-- The books of a connection, which has `held` references outside of `core.c` and `holds` on the
stack. `l` are the calls in its queues. -/
structure ConnOk (k : Conn) (l : Dir → List Nat) (held holds closers : Nat) (starting : Prop) :
    Prop where
  refs : k.ref_count = held + (if k.state.closing then 0 else 1) + holds
  free : k.state = .S_FREE ↔ k.ref_count = 0
  lists : k.state.closing = false → ∀ d, l d = k.queue d
  closed : k.state.closing = true → closers = 0 → (∀ d, l d = [] ∧ k.queue d = []) ∧ k.sd = false
  watchdog : k.state.closing = true → k.watchdog = false
  early : k.state.closing = false → connected k.state = false →
    (∀ d, k.queue d = []) ∧ k.reading = false
  initial : k.state = .S_INITIAL → k.writing = false
  reading : connected k.state = true → (k.reading = true ↔ k.recvq ≠ [])
  writing : connected k.state = true →
    (k.writing = true → k.sendq ≠ []) ∧ (k.sendq ≠ [] → k.writing = true ∨ starting)
  closers_le : closers ≤ 1
  closers_closing : 0 < closers → k.state = .S_CLOSING

/-- A connection that `core_loop` holds was closed meanwhile, or `P` still holds of it. -/
def Still (k : Conn) (P : Conn → Prop) : Prop :=
  k.state.closing = true ∨ connected k.state = true ∧ P k

/-- What a frame relies on. -/
def FrameOk (l : Nat × Dir → List Nat) (conn : Nat → Conn) : Frame → Prop
  | .raw_data c a => Still (conn c) fun k => k.sendq.head? = some a
  | .send_next c => Still (conn c) fun k => ∃ a, k.sendq.head? = some a
  | .reply c a => Still (conn c) fun k => k.recvq.head? = some a
  | .send_stop c _ | .recv_stop c _ _ | .received c _ _ => Still (conn c) fun _ => True
  | .closing .WRITE c rest => l (c, .WRITE) = rest ∧ l (c, .READ) = (conn c).recvq
  | .closing .READ c rest => l (c, .READ) = rest ∧ l (c, .WRITE) = [] ∧ (conn c).sendq = []
  | .conn_close c _ => (∀ d, l (c, d) = [] ∧ (conn c).queue d = []) ∧ (conn c).sd = false
  | _ => True

/-- The books, while the function that is running has the references to the calls `x` and to the
connections `xc` in hand. -/
structure Inv (g : Ledger (Nat × Dir) Nat) (w : World) (x xc : List Nat) : Prop where
  conn_of : ∀ a c d, g.owner a = some (c, d) → (w.call a).conn = some c
  count : ∀ a, (w.call a).ref_count = w.held a + g.share a + (x ++ hands w.stack).count a
  made : ∀ a, w.made a = w.gone a + if (w.call a).ref_count = 0 then 0 else 1
  conns : ∀ c, ConnOk (w.conn c) (fun d => g.list (c, d)) (w.conn_held c)
    ((xc ++ holders w.stack).count c) ((closers w.stack).count c) (c ∈ starters w.stack)
  frames : ∀ f ∈ w.stack, FrameOk g.list w.conn f
  based : Based w.stack

theorem inv_start : Inv Ledger.empty start [] [] where
  conn_of _ _ _ h := nomatch h
  count _ := rfl
  made _ := rfl
  conns c := {
    refs := rfl
    free := ⟨fun _ => rfl, fun _ => rfl⟩
    lists := fun h => nomatch h
    closed := fun _ _ => ⟨fun d => ⟨rfl, by cases d <;> rfl⟩, rfl⟩
    watchdog := fun _ => rfl
    early := fun h => nomatch h
    initial := fun h => nomatch h
    reading := fun h => nomatch h
    writing := fun h => nomatch h
    closers_le := Nat.zero_le _
    closers_closing := fun h => absurd h (Nat.lt_irrefl 0) }
  frames _ hf := absurd hf List.not_mem_nil
  based := trivial

/-! ## Changes -/

theorem ConnOk.starting_mono {k : Conn} {l : Dir → List Nat} {held holds closers : Nat} {p q : Prop}
    (h : ConnOk k l held holds closers p) (hpq : p → q) : ConnOk k l held holds closers q where
  refs := h.refs
  free := h.free
  lists := h.lists
  closed := h.closed
  watchdog := h.watchdog
  early := h.early
  initial := h.initial
  reading := h.reading
  writing hc := ⟨(h.writing hc).1, fun hq => ((h.writing hc).2 hq).imp_right hpq⟩
  closers_le := h.closers_le
  closers_closing := h.closers_closing

/-- The books of a connection that is closed. -/
theorem ConnOk.of_closing {k : Conn} {l : Dir → List Nat} {held holds closers : Nat}
    {starting : Prop} (hclosing : k.state.closing = true) (href : k.ref_count = held + holds)
    (hfree : k.state = .S_FREE ↔ k.ref_count = 0)
    (hclosed : closers = 0 → (∀ d, l d = [] ∧ k.queue d = []) ∧ k.sd = false)
    (hwatchdog : k.watchdog = false) (hle : closers ≤ 1)
    (hpos : 0 < closers → k.state = .S_CLOSING) :
    ConnOk k l held holds closers starting where
  refs := by
    rw [hclosing]
    exact href
  free := hfree
  lists h := by
    rw [hclosing] at h
    cases h
  closed _ := hclosed
  watchdog _ := hwatchdog
  early h := by
    rw [hclosing] at h
    cases h
  initial h := by
    rw [h] at hclosing
    cases hclosing
  reading h := by
    rw [closing_of_connected h] at hclosing
    cases hclosing
  writing h := by
    rw [closing_of_connected h] at hclosing
    cases hclosing
  closers_le := hle
  closers_closing := hpos

/-- A connection on which other functions are at work may change so. -/
structure Keeps (k k' : Conn) (l l' : Dir → List Nat) : Prop where
  closing : k.state.closing = true → k'.state.closing = true ∧ (∀ d, k'.queue d = k.queue d) ∧
    k'.sd = k.sd ∧ ∀ d, l' d = l d
  opened : k.state.closing = false → k'.state.closing = true ∨
    (connected k.state = true → connected k'.state = true) ∧
      ∀ d a, (k.queue d).head? = some a → (k'.queue d).head? = some a

theorem Still.keeps {k k' : Conn} {l l' : Dir → List Nat} {P : Conn → Prop} (h : Still k P)
    (hk : Keeps k k' l l')
    (hP : (∀ d a, (k.queue d).head? = some a → (k'.queue d).head? = some a) → P k → P k') :
    Still k' P := by
  rcases h with h | ⟨hc, hp⟩
  · exact Or.inl (hk.closing h).1
  · rcases hk.opened (closing_of_connected hc) with h | ⟨hstate, hhead⟩
    · exact Or.inl h
    · exact Or.inr ⟨hstate hc, hP hhead hp⟩

variable {l l' : Nat × Dir → List Nat} {conn conn' : Nat → Conn} {f : Frame} {c : Nat}

/-- A frame that is about other connections. -/
theorem FrameOk.of_others (h : FrameOk l conn f) (hdoing : f.doing ≠ some c) (hcl : c ∉ f.closer)
    (hother : ∀ c' ≠ c, conn' c' = conn c' ∧ ∀ d, l' (c', d) = l (c', d)) :
    FrameOk l' conn' f := by
  cases f with
  | raw_data c' _ | send_next c' | reply c' _ | send_stop c' _ | recv_stop c' _ _
  | received c' _ _ =>
    have hc : c' ≠ c := fun heq => hdoing (heq ▸ rfl)
    simpa only [FrameOk, hother c' hc] using h
  | closing d c' rest =>
    have hc : c' ≠ c := fun heq => hcl (heq ▸ List.mem_cons_self)
    cases d <;> simpa only [FrameOk, hother c' hc] using h
  | conn_close c' sd =>
    have hc : c' ≠ c := fun heq => hcl (heq ▸ List.mem_cons_self)
    simpa only [FrameOk, hother c' hc] using h
  | _ => trivial

/-- What is at work on a connection that is closed has nothing more to rely on. -/
theorem FrameOk.of_closing (h : FrameOk l conn f) (hcl : c ∉ f.closer)
    (hclosing : (conn' c).state.closing = true)
    (hother : ∀ c' ≠ c, conn' c' = conn c' ∧ ∀ d, l' (c', d) = l (c', d)) :
    FrameOk l' conn' f := by
  by_cases hdoing : f.doing = some c
  · cases f <;> first
      | (obtain rfl := Option.some.inj hdoing; exact Or.inl hclosing)
      | cases hdoing
  · exact h.of_others hdoing hcl hother

theorem FrameOk.keeps (h : FrameOk l conn f)
    (hk : Keeps (conn c) (conn' c) (fun d => l (c, d)) (fun d => l' (c, d)))
    (hother : ∀ c' ≠ c, conn' c' = conn c' ∧ ∀ d, l' (c', d) = l (c', d))
    (hcl : c ∈ f.closer → (conn c).state.closing = true) : FrameOk l' conn' f := by
  by_cases hdoing : f.doing = some c
  · cases f with
    | raw_data c' a =>
      obtain rfl := Option.some.inj hdoing
      unfold FrameOk at h ⊢
      exact Still.keeps h hk fun hhead hp => hhead .WRITE a hp
    | send_next c' =>
      obtain rfl := Option.some.inj hdoing
      unfold FrameOk at h ⊢
      exact Still.keeps h hk fun hhead ⟨a, hp⟩ => ⟨a, hhead .WRITE a hp⟩
    | reply c' a =>
      obtain rfl := Option.some.inj hdoing
      unfold FrameOk at h ⊢
      exact Still.keeps h hk fun hhead hp => hhead .READ a hp
    | send_stop c' a | recv_stop c' a _ | received c' a _ =>
      obtain rfl := Option.some.inj hdoing
      unfold FrameOk at h ⊢
      exact Still.keeps h hk fun _ _ => trivial
    | _ => cases hdoing
  · by_cases hin : c ∈ f.closer
    · obtain ⟨_, hq, hsd, hl⟩ := hk.closing (hcl hin)
      cases f with
      | closing d c' rest =>
        obtain rfl := List.mem_singleton.mp hin
        have hsendq : (conn' c).sendq = (conn c).sendq := hq .WRITE
        have hrecvq : (conn' c).recvq = (conn c).recvq := hq .READ
        cases d with
        | READ => simpa only [FrameOk, hl, hsendq] using h
        | WRITE => simpa only [FrameOk, hl, hrecvq] using h
      | conn_close c' sd =>
        obtain rfl := List.mem_singleton.mp hin
        simpa only [FrameOk, hl, hq, hsd] using h
      | _ => cases hin
    · exact h.of_others hdoing hin hother

variable {g g' : Ledger (Nat × Dir) Nat} {w : World} {x x' xc xc' : List Nat} {s : List Frame}

theorem Inv.closing (h : Inv g w x xc) (hin : f ∈ w.stack) (hf : c ∈ f.closer) :
    (w.conn c).state = .S_CLOSING := by
  apply (h.conns c).closers_closing
  exact List.count_pos_iff.mpr (List.mem_flatMap.mpr ⟨f, hin, hf⟩)

/-- What is at work on a connection does not mind a change that keeps to the rules. -/
theorem Inv.frames_keeps (h : Inv g w x xc) {k : Conn}
    (hk : Keeps (w.conn c) k (fun d => g.list (c, d)) (fun d => g'.list (c, d)))
    (hlist : ∀ c' ≠ c, ∀ d, g'.list (c', d) = g.list (c', d)) :
    ∀ f ∈ w.stack, FrameOk g'.list (Function.update w.conn c k) f := by
  intro f hf
  have hself : Function.update w.conn c k c = k := Function.update_self c k w.conn
  refine (h.frames f hf).keeps (c := c) (by rw [hself]; exact hk) ?_ ?_
  · intro c' hc'
    exact ⟨Function.update_of_ne hc' k w.conn, hlist c' hc'⟩
  · intro hcl
    rw [h.closing hf hcl]
    rfl

/-- A change to one connection, which may move calls between its queues and the hand. -/
theorem Inv.change (h : Inv g w x xc) {k : Conn} {held : Nat → Nat}
    (hconn_of : ∀ a c d, g'.owner a = some (c, d) → (w.call a).conn = some c)
    (hcount : ∀ a, g'.share a + x'.count a = g.share a + x.count a)
    (hlist : ∀ c' ≠ c, ∀ d, g'.list (c', d) = g.list (c', d))
    (hheld : ∀ c' ≠ c, held c' = w.conn_held c' ∧ xc'.count c' = xc.count c')
    (hk : ConnOk k (fun d => g'.list (c, d)) (held c) ((xc' ++ holders w.stack).count c)
      ((closers w.stack).count c) (c ∈ starters w.stack))
    (hframes : ∀ f ∈ w.stack, FrameOk g'.list (Function.update w.conn c k) f) :
    Inv g' { w with conn := Function.update w.conn c k, conn_held := held } x' xc' where
  conn_of := hconn_of
  count a := by
    have h1 := h.count a
    have h2 := hcount a
    rw [List.count_append] at h1 ⊢
    dsimp only
    omega
  made := h.made
  conns c' := by
    by_cases hc : c' = c
    · subst hc
      dsimp only
      rw [Function.update_self]
      exact hk
    · have h1 := h.conns c'
      obtain ⟨h2, h3⟩ := hheld c' hc
      rw [List.count_append] at h1 ⊢
      dsimp only
      rw [Function.update_of_ne hc, h2, h3]
      simp only [hlist c' hc]
      exact h1
  frames := hframes
  based := h.based

/-- A change to one connection that leaves the calls alone. -/
theorem Inv.set_conn (h : Inv g w x xc) {k : Conn}
    (hk : ConnOk k (fun d => g.list (c, d)) (w.conn_held c) ((xc ++ holders w.stack).count c)
      ((closers w.stack).count c) (c ∈ starters w.stack))
    (hkeeps : Keeps (w.conn c) k (fun d => g.list (c, d)) (fun d => g.list (c, d))) :
    Inv g (w.set_conn c k) x xc :=
  h.change h.conn_of (fun _ => rfl) (fun _ _ _ => rfl) (fun _ _ => ⟨rfl, rfl⟩) hk
    (h.frames_keeps hkeeps fun _ _ _ => rfl)

theorem Inv.push (h : Inv g w (f.hand ++ x) (f.holder ++ xc)) (hc : f.closer = [])
    (hf : FrameOk g.list w.conn f) (hb : Based (f :: w.stack)) : Inv g (w.push f) x xc where
  conn_of := h.conn_of
  count a := by
    have h1 := h.count a
    simp only [World.push, hands_cons, List.count_append] at h1 ⊢
    omega
  made := h.made
  conns c := by
    have h1 := h.conns c
    have hcount : ((xc ++ holders (w.push f).stack).count c) =
        ((f.holder ++ xc) ++ holders w.stack).count c := by
      simp only [World.push, holders_cons, List.count_append]
      omega
    rw [hcount]
    simp only [World.push, closers_cons, hc, List.nil_append]
    exact h1.starting_mono fun hin => List.mem_append_right _ hin
  frames f' hf' := by
    rcases List.mem_cons.mp hf' with rfl | hin
    · exact hf
    · exact h.frames f' hin
  based := hb

theorem Inv.pop (h : Inv g w x xc) (hs : w.stack = f :: s) (hc : f.closer = [])
    (hstart : ∀ c ∈ f.starter, (w.conn c).state.closing = true ∨ (w.conn c).writing = true) :
    Inv g { w with stack := s } (f.hand ++ x) (f.holder ++ xc) where
  conn_of := h.conn_of
  count a := by
    have h1 := h.count a
    rw [hs] at h1
    simp only [hands_cons, List.count_append] at h1 ⊢
    omega
  made := h.made
  conns c := by
    have h1 := h.conns c
    rw [hs] at h1
    have hcount : (((f.holder ++ xc) ++ holders s).count c) =
        (xc ++ holders (f :: s)).count c := by
      simp only [holders_cons, List.count_append]
      omega
    dsimp only
    rw [hcount]
    simp only [closers_cons, starters_cons, hc, List.nil_append, List.mem_append] at h1
    refine { h1 with writing := fun hconn => ⟨(h1.writing hconn).1, fun hq => ?_⟩ }
    rcases (h1.writing hconn).2 hq with hw | hin | hin
    · exact Or.inl hw
    · rcases hstart c hin with hcl | hw
      · rw [closing_of_connected hconn] at hcl
        cases hcl
      · exact Or.inl hw
    · exact Or.inr hin
  frames f' hf' := h.frames f' (hs ▸ List.mem_cons_of_mem f hf')
  based := (hs ▸ h.based : Based (f :: s)).tail

/-- A frame at an event that is about no connection in particular. -/
theorem Inv.push_event (h : Inv g w x xc) (hn : f.nested) (hh : f.holder = []) (hc : f.closer = [])
    (hx : f.hand = []) (hf : FrameOk g.list w.conn f) : Inv g (w.push f) x xc := by
  refine Inv.push ?_ hc hf ((based_cons hn).mpr h.based)
  rw [hh, hx]
  exact h

theorem Inv.fail (h : Inv g w x xc) (r : Failure) : Inv g (w.fail r) x xc :=
  ⟨h.conn_of, h.count, h.made, h.conns, h.frames, h.based⟩

/-! ## References -/

theorem Inv.call_dec_ref {a : Nat} (h : Inv g w (a :: x) xc) :
    Inv g (call_dec_ref a w) x xc ∧ (call_dec_ref a w).failure = w.failure := by
  have hcount := h.count a
  rw [List.cons_append, List.count_cons_self] at hcount
  have hset : ∀ r, (w.call a).ref_count = r + 1 →
      Inv g { w.set_call a { w.call a with ref_count := r } with
        gone := if r = 0 then Function.update w.gone a (w.gone a + 1) else w.gone } x xc := by
    intro r hr
    refine ⟨?_, ?_, ?_, h.conns, h.frames, h.based⟩
    · intro b c d hb
      have hconn := h.conn_of b c d hb
      by_cases hba : b = a
      · subst hba
        simpa [World.set_call] using hconn
      · simpa [World.set_call, hba] using hconn
    · intro b
      have hb := h.count b
      by_cases hba : b = a
      · subst hba
        simp only [World.set_call, Function.update_self]
        omega
      · have hab : a ≠ b := fun heq => hba heq.symm
        rw [List.cons_append, List.count_cons_of_ne hab] at hb
        simpa [World.set_call, hba] using hb
    · intro b
      have hb := h.made b
      by_cases hba : b = a
      · subst hba
        rw [hr, if_neg (Nat.succ_ne_zero r)] at hb
        by_cases hr0 : r = 0
        · simp [World.set_call, hr0, hb]
        · simp [World.set_call, hr0, hb]
      · by_cases hr0 : r = 0
        · simpa [World.set_call, hr0, hba] using hb
        · simpa [World.set_call, hr0, hba] using hb
  obtain ⟨r, hr⟩ : ∃ r, (w.call a).ref_count = r + 1 := ⟨_, hcount⟩
  have hr' := hset r hr
  unfold Ownership.call_dec_ref
  dsimp only
  rw [hr, if_neg (Nat.succ_ne_zero r), Nat.add_sub_cancel]
  by_cases hr0 : r = 0
  · subst hr0
    rw [if_pos rfl]
    exact ⟨hr'.push_event rfl rfl rfl rfl trivial, rfl⟩
  · rw [if_neg (by omega)]
    rw [if_neg hr0] at hr'
    exact ⟨hr', rfl⟩

theorem Keeps.of_eq {k k' : Conn} {l : Dir → List Nat}
    (hclosing : k'.state.closing = k.state.closing)
    (hconnected : connected k'.state = connected k.state) (hq : ∀ d, k'.queue d = k.queue d)
    (hsd : k'.sd = k.sd) : Keeps k k' l l where
  closing h := ⟨hclosing.trans h, hq, hsd, fun _ => rfl⟩
  opened _ := Or.inr ⟨fun h => hconnected.trans h, fun d _ h => (hq d).symm ▸ h⟩

/-- The last reference to a connection goes only when `core_close` is through with it. -/
theorem Inv.conn_dec_ref (h : Inv g w x (c :: xc)) :
    Inv g (conn_dec_ref c w) x xc ∧ (conn_dec_ref c w).failure = w.failure := by
  have hc := h.conns c
  have hrefs := hc.refs
  rw [List.cons_append, List.count_cons_self] at hrefs
  unfold Ownership.conn_dec_ref
  dsimp only
  rw [if_neg (by omega)]
  have hother : ∀ c' ≠ c, w.conn_held c' = w.conn_held c' ∧ xc.count c' = (c :: xc).count c' := by
    intro c' hne
    exact ⟨rfl, (List.count_cons_of_ne hne.symm).symm⟩
  by_cases hone : (w.conn c).ref_count = 1
  · rw [if_pos hone]
    -- nobody is at work on it any more
    have hclosing : (w.conn c).state.closing = true := by
      cases hcl : (w.conn c).state.closing with
      | true => rfl
      | false =>
        rw [hcl] at hrefs
        simp only [Bool.false_eq_true, if_false] at hrefs
        omega
    have hzero : w.conn_held c = 0 ∧ (xc ++ holders w.stack).count c = 0 := by
      constructor <;> omega
    have hnone : (closers w.stack).count c = 0 := by
      have hle := closers_le w.stack c
      rw [List.count_append] at hzero
      omega
    have hfree : (w.conn c).state ≠ .S_FREE := by
      intro hf
      have hno := hc.free.mp hf
      omega
    obtain ⟨hq, hsd⟩ := hc.closed hclosing hnone
    have hidle : (w.conn c).idle = true := by
      have hs : (w.conn c).sendq = [] := (hq .WRITE).2
      have hr : (w.conn c).recvq = [] := (hq .READ).2
      simp [Conn.idle, hsd, hfree, hs, hr, hc.watchdog hclosing]
    rw [if_pos hidle]
    refine ⟨Inv.push_event ?_ rfl rfl rfl rfl trivial, rfl⟩
    refine h.change h.conn_of (fun _ => rfl) (fun _ _ _ => rfl) hother ?_ (h.frames_keeps ?_ ?_)
    · refine ConnOk.of_closing rfl ?_ ⟨fun _ => rfl, fun _ => rfl⟩ (fun _ => ⟨hq, hsd⟩)
        (hc.watchdog hclosing) hc.closers_le fun hpos => absurd hnone (Nat.ne_of_gt hpos)
      rw [hzero.1, hzero.2]
    · refine ⟨fun _ => ⟨rfl, fun d => ?_, rfl, fun _ => rfl⟩, fun _ => Or.inl rfl⟩
      cases d <;> rfl
    · exact fun _ _ _ => rfl
  · rw [if_neg hone]
    refine ⟨h.change h.conn_of (fun _ => rfl) (fun _ _ _ => rfl) hother ?_ (h.frames_keeps ?_ ?_),
      rfl⟩
    · exact { hc with
        refs := by
          dsimp only
          omega
        free := by
          have hfree := hc.free
          dsimp only
          constructor
          · intro hf
            have hno := hfree.mp hf
            omega
          · intro hno
            omega }
    · exact Keeps.of_eq rfl rfl (fun d => by cases d <;> rfl) rfl
    · exact fun _ _ _ => rfl

/-! ## Calls that come and go -/

section
variable {a : Nat} {d : Dir} {q : List Nat}

theorem count_cons_eq (b : Nat) : (a :: x).count b = [a].count b + x.count b := by
  rw [← List.count_append, List.singleton_append]

theorem Inv.conn_of_add (h : Inv g w x xc) (hnone : g.owner a = none)
    (hconn : (w.call a).conn = some c) :
    ∀ b c' d', (g.add (c, d) a hnone).owner b = some (c', d') → (w.call b).conn = some c' := by
  intro b c' d' hb
  by_cases hba : b = a
  · subst hba
    rw [Ledger.add_owner_self hnone, Option.some.injEq, Prod.mk.injEq] at hb
    rw [hconn, hb.1]
  · rw [Ledger.add_owner_of_ne hnone hba] at hb
    exact h.conn_of b c' d' hb

theorem add_count (hnone : g.owner a = none) (b : Nat) :
    (g.add (c, d) a hnone).share b + x.count b = g.share b + (a :: x).count b := by
  have hcount := count_cons_eq (a := a) (x := x) b
  rw [Ledger.add_share]
  omega

theorem add_other (hnone : g.owner a = none) :
    ∀ c' ≠ c, ∀ d', (g.add (c, d) a hnone).list (c', d') = g.list (c', d') := by
  intro c' hc' d'
  rw [Ledger.add_list, Function.update_of_ne]
  intro heq
  exact hc' (congrArg Prod.fst heq)

theorem Inv.conn_of_drop (h : Inv g w x xc) (hl : g.list (c, d) = a :: q) :
    ∀ b c' d', (g.drop (c, d) a q hl).owner b = some (c', d') → (w.call b).conn = some c' := by
  intro b c' d' hb
  by_cases hba : b = a
  · rw [hba, Ledger.drop_owner_self] at hb
    cases hb
  · rw [Ledger.drop_owner_of_ne hl hba] at hb
    exact h.conn_of b c' d' hb

theorem drop_count (hl : g.list (c, d) = a :: q) (b : Nat) :
    (g.drop (c, d) a q hl).share b + (a :: x).count b = g.share b + x.count b := by
  have hcount := count_cons_eq (a := a) (x := x) b
  rw [← Ledger.drop_share hl b]
  omega

theorem drop_other (hl : g.list (c, d) = a :: q) :
    ∀ c' ≠ c, ∀ d', (g.drop (c, d) a q hl).list (c', d') = g.list (c', d') := by
  intro c' hc' d'
  rw [Ledger.drop_list, Function.update_of_ne]
  intro heq
  exact hc' (congrArg Prod.fst heq)

/-- A call goes from the hand into a queue. -/
theorem Inv.add {k : Conn} (h : Inv g w (a :: x) xc) (hnone : g.owner a = none)
    (hconn : (w.call a).conn = some c)
    (hk : ConnOk k (fun d' => (g.add (c, d) a hnone).list (c, d')) (w.conn_held c)
      ((xc ++ holders w.stack).count c) ((closers w.stack).count c) (c ∈ starters w.stack))
    (hframes : ∀ f ∈ w.stack, FrameOk (g.add (c, d) a hnone).list (Function.update w.conn c k) f) :
    Inv (g.add (c, d) a hnone) (w.set_conn c k) x xc :=
  h.change (h.conn_of_add hnone hconn) (add_count hnone) (add_other hnone)
    (fun _ _ => ⟨rfl, rfl⟩) hk
    hframes

/-- The first call of a queue comes into the hand. -/
theorem Inv.drop {k : Conn} (h : Inv g w x xc) (hl : g.list (c, d) = a :: q)
    (hk : ConnOk k (fun d' => (g.drop (c, d) a q hl).list (c, d')) (w.conn_held c)
      ((xc ++ holders w.stack).count c) ((closers w.stack).count c) (c ∈ starters w.stack))
    (hframes : ∀ f ∈ w.stack, FrameOk (g.drop (c, d) a q hl).list (Function.update w.conn c k) f) :
    Inv (g.drop (c, d) a q hl) (w.set_conn c k) (a :: x) xc :=
  h.change (h.conn_of_drop hl) (drop_count hl) (drop_other hl) (fun _ _ => ⟨rfl, rfl⟩) hk hframes

end

/-! ## core_close -/

theorem closer_holder (hf : f.closer = [c]) :
    f.holder = [c] ∧ f.hand = [] ∧ f.starter = [] ∧ f.nested = true := by
  cases f <;> first | exact ⟨hf, rfl, rfl, rfl⟩ | cases hf

/-- Only one function at a time closes a connection. -/
theorem Inv.one_closer (h : Inv g w x xc) (hs : w.stack = f :: s) (hf : f.closer = [c]) :
    (closers s).count c = 0 := by
  have hle := (h.conns c).closers_le
  rw [hs, closers_cons, hf, List.singleton_append, List.count_cons_self] at hle
  omega

theorem Inv.not_closer (h : Inv g w x xc) (hs : w.stack = f :: s) (hf : f.closer = [c])
    {f' : Frame} (hin : f' ∈ s) : c ∉ f'.closer := by
  intro hno
  have hzero := h.one_closer hs hf
  exact List.count_eq_zero.mp hzero (List.mem_flatMap.mpr ⟨f', hin, hno⟩)

/-- `core_close` goes on from `f` to `f'`. -/
theorem Inv.close_step {f' : Frame} {k : Conn} (h : Inv g w x xc) (hs : w.stack = f :: s)
    (hf : f.closer = [c]) (hf' : f'.closer = [c])
    (hconn_of : ∀ a c d, g'.owner a = some (c, d) → (w.call a).conn = some c)
    (hcount : ∀ a, g'.share a + x'.count a = g.share a + x.count a)
    (hlist : ∀ c' ≠ c, ∀ d, g'.list (c', d) = g.list (c', d))
    (hstate : k.state = (w.conn c).state) (href : k.ref_count = (w.conn c).ref_count)
    (hwatchdog : k.watchdog = (w.conn c).watchdog)
    (hok : FrameOk g'.list (Function.update w.conn c k) f') :
    Inv g' { w with conn := Function.update w.conn c k, stack := f' :: s } x' xc := by
  obtain ⟨hholder, hhand, hstarter, _⟩ := closer_holder hf
  obtain ⟨hholder', hhand', hstarter', hnested⟩ := closer_holder hf'
  have hclosing : (w.conn c).state = .S_CLOSING := by
    refine h.closing (f := f) (hs ▸ List.mem_cons_self) ?_
    rw [hf]
    exact List.mem_cons_self
  have hbased : Based (f :: s) := hs ▸ h.based
  refine ⟨hconn_of, ?_, h.made, ?_, ?_, (based_cons hnested).mpr hbased.tail⟩
  · intro a
    have h1 := h.count a
    have h2 := hcount a
    rw [hs] at h1
    simp only [hands_cons, hhand, hhand', List.nil_append, List.count_append] at h1 ⊢
    omega
  · intro c'
    have h1 := h.conns c'
    rw [hs] at h1
    simp only [holders_cons, closers_cons, starters_cons, hholder, hf, hstarter] at h1
    simp only [holders_cons, closers_cons, starters_cons, hholder', hf', hstarter']
    by_cases hc : c' = c
    · subst hc
      rw [Function.update_self]
      have hkclosing : k.state.closing = true := by
        rw [hstate, hclosing]
        rfl
      have hrefs := h1.refs
      rw [hclosing] at hrefs
      refine ConnOk.of_closing hkclosing (href.trans hrefs) ?_ ?_ ?_ h1.closers_le fun _ =>
        hstate.trans hclosing
      · rw [hstate, href]
        exact h1.free
      · intro hno
        rw [List.singleton_append, List.count_cons_self] at hno
        cases hno
      · rw [hwatchdog]
        exact h1.watchdog (hstate ▸ hkclosing)
    · rw [Function.update_of_ne hc]
      simp only [hlist c' hc]
      exact h1
  · intro f0 hf0
    rcases List.mem_cons.mp hf0 with rfl | hin
    · exact hok
    · refine (h.frames f0 (hs ▸ List.mem_cons_of_mem f hin)).of_closing (c := c)
        (h.not_closer hs hf hin) ?_ ?_
      · dsimp only
        rw [Function.update_self, hstate, hclosing]
        rfl
      · intro c' hc'
        exact ⟨Function.update_of_ne hc' k w.conn, hlist c' hc'⟩

theorem inv_core_close (h : Inv g w x xc) :
    Inv g (core_close c w) x xc ∧ (core_close c w).failure = w.failure := by
  have hc := h.conns c
  unfold core_close
  dsimp only
  cases hclosing : (w.conn c).state.closing with
  | true => exact ⟨h, rfl⟩
  | false =>
    rw [if_neg Bool.false_ne_true]
    refine ⟨?_, rfl⟩
    have hnone : (closers w.stack).count c = 0 := by
      rcases Nat.eq_zero_or_pos ((closers w.stack).count c) with h0 | hpos
      · exact h0
      · rw [hc.closers_closing hpos] at hclosing
        cases hclosing
    have hlists := hc.lists hclosing
    have hrefs := hc.refs
    rw [hclosing] at hrefs
    simp only [Bool.false_eq_true, if_false] at hrefs
    refine ⟨h.conn_of, h.count, h.made, ?_, ?_, (based_cons rfl).mpr h.based⟩
    · intro c'
      have h1 := h.conns c'
      simp only [World.push, World.set_conn, holders_cons, closers_cons, starters_cons,
        Frame.holder, Frame.closer, Frame.starter, List.nil_append, List.count_append]
      by_cases hcc : c' = c
      · subst hcc
        rw [Function.update_self, List.count_singleton_self, hnone]
        rw [List.count_append] at hrefs
        refine ConnOk.of_closing rfl ?_ ?_ (fun hno => nomatch hno) rfl (Nat.le_refl 1) fun _ => rfl
        · dsimp only
          omega
        · dsimp only
          refine ⟨fun hno => (nomatch hno), fun hno => ?_⟩
          omega
      · have hne : c ≠ c' := fun heq => hcc heq.symm
        rw [Function.update_of_ne hcc, List.count_singleton, if_neg (by simpa using hne),
          Nat.zero_add, Nat.zero_add, ← List.count_append]
        exact h1
    · intro f0 hf0
      rcases List.mem_cons.mp hf0 with rfl | hin
      · refine ⟨hlists .WRITE, ?_⟩
        simp only [World.push, World.set_conn, Function.update_self]
        exact hlists .READ
      · have hkeeps : Keeps (w.conn c) { w.conn c with state := .S_CLOSING, watchdog := false }
            (fun d => g.list (c, d)) (fun d => g.list (c, d)) := by
          refine ⟨fun hno => ?_, fun _ => Or.inl rfl⟩
          rw [hclosing] at hno
          cases hno
        exact h.frames_keeps hkeeps (fun _ _ _ => rfl) f0 hin

theorem inv_close_queue {d : Dir} {rest : List Nat} (h : Inv g w x xc)
    (hs : w.stack = .closing d c rest :: s) :
    ∃ g', Inv g' (close_queue d c rest { w with stack := s }) x xc ∧
      (close_queue d c rest { w with stack := s }).failure = w.failure := by
  have hok := h.frames _ (hs ▸ List.mem_cons_self)
  cases rest with
  | cons a rest =>
    have hlist : g.list (c, d) = a :: rest := by
      cases d <;> exact hok.1
    have hstep : Inv (g.drop (c, d) a rest hlist)
        { w with conn := Function.update w.conn c (w.conn c), stack := .closing d c rest :: s }
        (a :: x) xc := by
      refine h.close_step hs rfl rfl (h.conn_of_drop hlist) (drop_count hlist)
        (drop_other hlist) rfl
        rfl rfl ?_
      rw [Function.update_eq_self, Ledger.drop_list]
      cases d with
      | READ =>
        refine ⟨Function.update_self .., ?_, hok.2.2⟩
        rw [Function.update_of_ne (by simp)]
        exact hok.2.1
      | WRITE =>
        refine ⟨Function.update_self .., ?_⟩
        rw [Function.update_of_ne (by simp)]
        exact hok.2
    rw [Function.update_eq_self] at hstep
    have hdone := Inv.call_dec_ref hstep
    refine ⟨g.drop (c, d) a rest hlist, ?_⟩
    cases d <;> exact hdone
  | nil =>
    have hself : ∀ k, Function.update w.conn c k c = k := fun k => Function.update_self c k w.conn
    cases d with
    | WRITE =>
      refine ⟨g, h.close_step hs rfl rfl h.conn_of (fun _ => rfl) (fun _ _ _ => rfl) rfl rfl rfl ?_,
        rfl⟩
      refine ⟨hok.2, hok.1, ?_⟩
      rw [hself]
    | READ =>
      refine ⟨g, h.close_step hs rfl rfl h.conn_of (fun _ => rfl) (fun _ _ _ => rfl) rfl rfl rfl ?_,
        rfl⟩
      refine ⟨fun d => ?_, ?_⟩
      · rw [hself]
        cases d with
        | READ => exact ⟨hok.1, rfl⟩
        | WRITE => exact ⟨hok.2.1, hok.2.2⟩
      · rw [hself]

/-- `core_close` lets the connection go. -/
theorem Inv.close_end {sd : Bool} {k : Conn} (h : Inv g w x xc)
    (hs : w.stack = .conn_close c sd :: s)
    (hk : k = w.conn c ∨ k = { w.conn c with reading := false, writing := false }) :
    Inv g { w with conn := Function.update w.conn c k, stack := s } x (c :: xc) := by
  have hok := h.frames _ (hs ▸ List.mem_cons_self)
  have hclosing : (w.conn c).state = .S_CLOSING :=
    h.closing (f := .conn_close c sd) (hs ▸ List.mem_cons_self) List.mem_cons_self
  have hkstate : k.state = .S_CLOSING := by rcases hk with rfl | rfl <;> exact hclosing
  have hkref : k.ref_count = (w.conn c).ref_count := by rcases hk with rfl | rfl <;> rfl
  have hkwatch : k.watchdog = (w.conn c).watchdog := by rcases hk with rfl | rfl <;> rfl
  have hkqueue : ∀ d, k.queue d = (w.conn c).queue d := by
    rcases hk with rfl | rfl <;> intro d <;> cases d <;> rfl
  have hksd : k.sd = (w.conn c).sd := by rcases hk with rfl | rfl <;> rfl
  have hbased : Based (.conn_close c sd :: s) := hs ▸ h.based
  have hzero := h.one_closer (f := .conn_close c sd) hs rfl
  refine ⟨h.conn_of, ?_, h.made, ?_, ?_, hbased.tail⟩
  · intro a
    have h1 := h.count a
    rw [hs] at h1
    exact h1
  · intro c'
    have h1 := h.conns c'
    rw [hs] at h1
    simp only [holders_cons, closers_cons, starters_cons, Frame.holder, Frame.closer, Frame.starter,
      List.nil_append, List.singleton_append] at h1
    have hcount : ((c :: xc) ++ holders s).count c' = (xc ++ c :: holders s).count c' := by
      simp only [List.cons_append, List.count_append, List.count_cons]
      omega
    dsimp only
    rw [hcount]
    by_cases hc : c' = c
    · subst hc
      rw [Function.update_self]
      have hkclosing : k.state.closing = true := by
        rw [hkstate]
        rfl
      have hrefs := h1.refs
      rw [hclosing] at hrefs
      refine ConnOk.of_closing hkclosing (hkref.trans hrefs) ?_ (fun _ => ?_) ?_ ?_ fun _ => hkstate
      · rw [hkstate, hkref, ← hclosing]
        exact h1.free
      · exact ⟨fun d => ⟨(hok.1 d).1, (hkqueue d).trans (hok.1 d).2⟩, hksd.trans hok.2⟩
      · rw [hkwatch]
        exact h1.watchdog (by rw [hclosing]; rfl)
      · rw [hzero]
        exact Nat.zero_le 1
    · have hne : c ≠ c' := fun heq => hc heq.symm
      rw [List.count_cons_of_ne hne] at h1
      rw [Function.update_of_ne hc]
      exact h1
  · intro f0 hin
    refine (h.frames f0 (hs ▸ List.mem_cons_of_mem _ hin)).of_closing (c := c)
      (h.not_closer hs rfl hin) ?_ fun c' hc' => ⟨Function.update_of_ne hc' k w.conn, fun _ => rfl⟩
    dsimp only
    rw [Function.update_self, hkstate]
    rfl

theorem inv_closed {sd : Bool} (h : Inv g w x xc) (hs : w.stack = .conn_close c sd :: s) :
    Inv g (closed c sd { w with stack := s }) x xc ∧
      (closed c sd { w with stack := s }).failure = w.failure := by
  have hclosing : (w.conn c).state = .S_CLOSING :=
    h.closing (f := .conn_close c sd) (hs ▸ List.mem_cons_self) List.mem_cons_self
  unfold closed
  dsimp only
  rw [if_pos hclosing]
  cases sd with
  | true => exact Inv.conn_dec_ref (h.close_end hs (Or.inr rfl))
  | false =>
    have hsame := h.close_end hs (Or.inl rfl)
    rw [Function.update_eq_self] at hsame
    exact Inv.conn_dec_ref hsame

end Httperf.Ownership
