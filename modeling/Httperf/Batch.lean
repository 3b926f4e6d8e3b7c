-- The events that one `epoll_wait` returns (`core_loop` in `core.c`). The handlers of an event can
-- close connections, and make new ones in their memory, before the loop comes to the events behind.
import Httperf.Lib.Pool
import Httperf.Lib.Runs

namespace Httperf.Batch

open Lib

/-- `closing` is a state from `S_CLOSING` on. -/
structure Conn where
  closing : Bool

/-- The connections, and `conn_info[k].conn` of each session. `created` holds the connections that
the handlers made. -/
structure State where
  conns : Pool Conn
  conn_info : Nat → Nat → Option Nat
  created : List Nat

def init : State := ⟨Pool.empty ⟨true⟩, fun _ _ => none, []⟩

/-- `core_close`, with its guard against recursive calls. -/
def core_close (a : Nat) (s : State) : State :=
  if (s.conns.cells a).body.closing then s
  else { s with conns := (s.conns.modify a fun _ => ⟨true⟩).release a }

/-- What a handler does. A row of these is all that happens before the handler returns, with the
handlers that run inside it. -/
inductive Act where
  /-- `create_conn` for slot `k` of session `i` -/
  | create_conn (i k : Nat)
  /-- `core_close` of the connection of the event, or of one that the handlers made -/
  | core_close (a : Nat)
  /-- `ci->conn = 0` in `call_done` -/
  | forget (i k : Nat)
  /-- the turn of slot `k` in the loop of `sess_destroyed` -/
  | close_slot (i k : Nat)
  deriving DecidableEq, Repr

/-- The loop of `sess_destroyed`, when nothing else happens in it. -/
def sess_destroyed (max_conns i : Nat) : List Act := (List.range max_conns).map (.close_slot i)

/-- A handler knows the connection `me` of its event, and those that it made. -/
def Mine (me : Option Nat) (s : State) (a : Nat) : Prop := me = some a ∨ a ∈ s.created

instance (me : Option Nat) (s : State) (a : Nat) : Decidable (Mine me s a) :=
  inferInstanceAs (Decidable (_ ∨ _))

def set_slot (i k : Nat) (v : Option Nat) (s : State) : State :=
  { s with conn_info := Function.update s.conn_info i (Function.update (s.conn_info i) k v) }

/-- A slot gets a connection when it has none, or when the one it has failed. -/
def act (me : Option Nat) (s : State) : Act → State
  | .create_conn i k =>
    if ∀ a ∈ s.conn_info i k, Mine me s a then
      set_slot i k (some s.conns.top)
        { s with conns := s.conns.alloc ⟨false⟩, created := s.conns.top :: s.created }
    else s
  | .core_close a => if Mine me s a then core_close a s else s
  | .forget i k => if ∀ a ∈ s.conn_info i k, Mine me s a then set_slot i k none s else s
  | .close_slot i k =>
    match s.conn_info i k with
    | none => s
    | some a => core_close a s

def handle (me : Option Nat) (acts : List Act) (s : State) : State :=
  acts.foldl (act me) { s with created := [] }

/-- An event, with what its handlers do. -/
structure Event where
  conn : Nat
  acts : List Act
  deriving DecidableEq, Repr

/-- The body of the loop over the events. -/
def dispatch (s : State) (e : Event) : State :=
  let s1 := handle (some e.conn) e.acts { s with conns := s.conns.retain e.conn }
  { s1 with conns := s1.conns.release e.conn }

/-! ## Runs -/

inductive Step where
  /-- a callback of the timer, for `me` if it is one of a connection -/
  | timer (me : Option Nat) (acts : List Act)
  /-- the events of one `epoll_wait` -/
  | batch (es : List Event)

/-- `epoll_wait` returns connections that are not closed, and each of them once. -/
def Ready (s : State) (es : List Event) : Prop :=
  (es.map Event.conn).Nodup ∧
    ∀ e ∈ es, e.conn < s.conns.size ∧ (s.conns.cells e.conn).body.closing = false

instance (s : State) (es : List Event) : Decidable (Ready s es) :=
  inferInstanceAs (Decidable (_ ∧ _))

def step (s : State) : Step → State
  | .timer me acts => handle me acts s
  | .batch es => if Ready s es then es.foldl dispatch s else s

/-- At `a` there is the connection that was there in state `s`, and it is not closed. -/
def Living (s : State) (a : Nat) (t : State) : Prop :=
  (t.conns.cells a).serial = (s.conns.cells a).serial ∧ (t.conns.cells a).body.closing = false

/-- Every event of a batch is delivered to the living connection that it was about. -/
def Delivers (s : State) : Step → Prop
  | .timer _ _ => True
  | .batch es => Ready s es → Runs.Meets dispatch (fun t e => Living s e.conn t) s es

/-- No event of a batch ends a session that has the connection of a later event in a slot. -/
def Spares (s : State) : Step → Prop
  | .timer _ _ => True
  | .batch es => Ready s es → es.Pairwise fun e e' =>
    ∀ i k, Act.close_slot i k ∈ e.acts → s.conn_info i k ≠ some e'.conn

/-! ## One handler -/

/-- Each connection has its own reference until it is closed, and the one whose event is handled has
another one. -/
structure Sound (held : Option Nat) (s : State) : Prop where
  pool : s.conns.Sound
  refs : ∀ a < s.conns.size, (s.conns.cells a).refs =
    (if (s.conns.cells a).body.closing then 0 else 1) + if held = some a then 1 else 0
  unused : ∀ a, s.conns.size ≤ a → (s.conns.cells a).body.closing = true
  held_lt : ∀ a, held = some a → a < s.conns.size

theorem init_sound : Sound none init :=
  ⟨Pool.empty_sound _, fun a ha => absurd ha (Nat.not_lt_zero a), fun _ _ => rfl,
    fun _ h => by cases h⟩

variable {held me : Option Nat} {s t : State} {a c : Nat}

theorem Sound.lt_of_open (h : Sound held t) (ha : (t.conns.cells a).body.closing = false) :
    a < t.conns.size := by
  by_contra hge
  rw [h.unused a (by omega)] at ha
  cases ha

theorem Sound.refs_of_open (h : Sound held t) (ha : (t.conns.cells a).body.closing = false) :
    (t.conns.cells a).refs ≠ 0 := by
  rw [h.refs a (h.lt_of_open ha), ha, if_neg Bool.false_ne_true]
  omega

theorem Sound.refs_of_held (h : Sound held t) (ha : held = some a) :
    (t.conns.cells a).refs ≠ 0 := by
  rw [h.refs a (h.held_lt a ha), if_pos ha]
  omega

theorem core_close_sound (h : Sound held t) (a : Nat) : Sound held (core_close a t) := by
  unfold core_close
  split
  · exact h
  · rename_i ha
    rw [Bool.not_eq_true] at ha
    have hlt := h.lt_of_open ha
    have hrefs := h.refs a hlt
    rw [ha, if_neg Bool.false_ne_true] at hrefs
    refine ⟨(h.pool.modify a _).release hlt ?_, fun b hb => ?_, fun b hb => ?_, h.held_lt⟩
    · simpa [Pool.modify] using h.refs_of_open ha
    · by_cases hba : b = a
      · subst hba
        simp only [Pool.release, Pool.modify, Function.update_self, if_true]
        omega
      · simpa [Pool.release, Pool.modify, hba] using h.refs b hb
    · by_cases hba : b = a
      · subst hba
        simp [Pool.release, Pool.modify]
      · simpa [Pool.release, Pool.modify, hba] using h.unused b hb

theorem alloc_sound (h : Sound held t) :
    Sound held { t with conns := t.conns.alloc ⟨false⟩ } := by
  refine ⟨h.pool.alloc _, fun b hb => ?_, fun b hb => ?_, fun b hb => ?_⟩
  · by_cases hbt : b = t.conns.top
    · subst hbt
      have hne : held ≠ some t.conns.top := fun hh =>
        h.pool.ne_top (h.held_lt _ hh) (h.refs_of_held hh) rfl
      simp only [Pool.alloc_cells_top, if_neg hne]
      rfl
    · simp only [Pool.alloc_cells_of_ne _ hbt]
      exact h.refs b (Pool.lt_size_of_alloc hb hbt)
  · have hbt : b ≠ t.conns.top := by
      have := h.pool.top_lt_alloc ⟨false⟩
      dsimp only at hb
      omega
    simp only [Pool.alloc_cells_of_ne _ hbt]
    exact h.unused b (Nat.le_trans (Pool.size_le_alloc _) hb)
  · exact Nat.lt_of_lt_of_le (h.held_lt b hb) (Pool.size_le_alloc _)

theorem act_sound (h : Sound held t) (x : Act) : Sound held (act me t x) := by
  cases x with
  | create_conn i k =>
    simp only [act]
    split
    · have ha := alloc_sound h
      exact ⟨ha.pool, ha.refs, ha.unused, ha.held_lt⟩
    · exact h
  | core_close a =>
    simp only [act]
    split
    · exact core_close_sound h a
    · exact h
  | forget i k =>
    simp only [act]
    split
    · exact ⟨h.pool, h.refs, h.unused, h.held_lt⟩
    · exact h
  | close_slot i k =>
    simp only [act]
    split
    · exact h
    · exact core_close_sound h _

theorem acts_sound (h : Sound held t) (acts : List Act) : Sound held (acts.foldl (act me) t) := by
  induction acts generalizing t with
  | nil => exact h
  | cons x acts ih => exact ih (act_sound h x)

theorem handle_sound (h : Sound held t) (acts : List Act) : Sound held (handle me acts t) := by
  have hstart : Sound held { t with created := [] } := ⟨h.pool, h.refs, h.unused, h.held_lt⟩
  exact acts_sound hstart acts

theorem retain_sound (h : Sound none t) (ha : (t.conns.cells a).body.closing = false) :
    Sound (some a) { t with conns := t.conns.retain a } := by
  have hlt := h.lt_of_open ha
  refine ⟨h.pool.retain (h.refs_of_open ha), fun b hb => ?_, fun b hb => ?_, fun b hb => ?_⟩
  · have hrefs := h.refs b hb
    by_cases hba : b = a
    · subst hba
      simpa [Pool.retain] using hrefs
    · simpa [Pool.retain, hba, Ne.symm hba] using hrefs
  · by_cases hba : b = a
    · subst hba
      exact absurd hlt (by dsimp only [Pool.retain] at hb; omega)
    · simpa [Pool.retain, hba] using h.unused b hb
  · cases hb
    exact hlt

theorem release_sound (h : Sound (some a) t) :
    Sound none { t with conns := t.conns.release a } := by
  have ha := h.held_lt a rfl
  refine ⟨h.pool.release ha (h.refs_of_held rfl), fun b hb => ?_, fun b hb => ?_,
    fun _ hb => by cases hb⟩
  · have hrefs := h.refs b hb
    by_cases hba : b = a
    · subst hba
      simp only [if_true] at hrefs
      simp [Pool.release, hrefs]
    · simpa [Pool.release, hba, Ne.symm hba] using hrefs
  · by_cases hba : b = a
    · subst hba
      exact absurd ha (by dsimp only [Pool.release] at hb; omega)
    · simpa [Pool.release, hba] using h.unused b hb

theorem dispatch_sound {e : Event} (h : Sound none t)
    (ha : (t.conns.cells e.conn).body.closing = false) : Sound none (dispatch t e) := by
  have hhandle := @handle_sound _ (some e.conn) _ (retain_sound h ha) e.acts
  unfold dispatch
  exact release_sound hhandle

/-! ## A connection whose event is still to come -/

/-- While the events in front of it are handled, the connection at `c` lives on in its slots. -/
structure Kept (s : State) (c : Nat) (t : State) : Prop where
  living : Living s c t
  slots : ∀ i k, t.conn_info i k = some c ↔ s.conn_info i k = some c

/-- The handlers that run now did not make it. -/
structure Foreign (s : State) (c : Nat) (t : State) : Prop extends Kept s c t where
  foreign : c ∉ t.created

theorem core_close_foreign (h : Foreign s c t) (hne : a ≠ c) : Foreign s c (core_close a t) := by
  unfold core_close
  split
  · exact h
  · refine ⟨⟨?_, h.slots⟩, h.foreign⟩
    simpa [Living, Pool.release, Pool.modify, hne.symm] using h.living

theorem act_foreign (hs : Sound held t) (h : Foreign s c t) (hme : me ≠ some c) (x : Act)
    (hx : ∀ i k, x = .close_slot i k → s.conn_info i k ≠ some c) : Foreign s c (act me t x) := by
  have hnot : ∀ b, Mine me t b → b ≠ c := by
    rintro b (hb | hb) rfl
    · exact hme hb
    · exact h.foreign hb
  cases x with
  | create_conn i k =>
    simp only [act]
    split
    · rename_i hslot
      -- the new connection is made in other memory, and it is put into another slot
      have hopen := h.living.2
      have htop := hs.pool.ne_top (hs.lt_of_open hopen) (hs.refs_of_open hopen)
      refine ⟨⟨?_, fun i' k' => ?_⟩, ?_⟩
      · simpa [Living, set_slot, Pool.alloc_cells_of_ne _ htop] using h.living
      · rw [← h.slots i' k']
        by_cases hik : i' = i ∧ k' = k
        · obtain ⟨rfl, rfl⟩ := hik
          simp only [set_slot, Function.update_self, Option.some.injEq]
          constructor
          · rintro rfl
            exact absurd rfl htop
          · intro hc
            exact absurd rfl (hnot c (hslot c hc))
        · by_cases hi : i' = i
          · subst hi
            have hk : k' ≠ k := fun hk => hik ⟨rfl, hk⟩
            simp [set_slot, hk]
          · simp [set_slot, hi]
      · simpa [set_slot, htop] using h.foreign
    · exact h
  | core_close b =>
    simp only [act]
    split
    · rename_i hb
      exact core_close_foreign h (hnot b hb)
    · exact h
  | forget i k =>
    simp only [act]
    split
    · rename_i hslot
      refine ⟨⟨h.living, fun i' k' => ?_⟩, h.foreign⟩
      rw [← h.slots i' k']
      by_cases hi : i' = i
      · subst hi
        by_cases hk : k' = k
        · subst hk
          simp only [set_slot, Function.update_self, reduceCtorEq, false_iff]
          intro hc
          exact absurd rfl (hnot c (hslot c hc))
        · simp [set_slot, hk]
      · simp [set_slot, hi]
    · exact h
  | close_slot i k =>
    simp only [act]
    split
    · exact h
    · rename_i b hb
      apply core_close_foreign h
      rintro rfl
      exact hx i k rfl ((h.slots i k).mp hb)

/-- The connection that was at `c` is closed, and what is there now is not it. -/
structure Gone (s : State) (c : Nat) (t : State) : Prop where
  serial_lt : (s.conns.cells c).serial < t.conns.serial
  not_living : ¬ Living s c t

theorem core_close_gone (h : Gone s c t) (a : Nat) : Gone s c (core_close a t) := by
  unfold core_close
  split
  · exact h
  · refine ⟨h.serial_lt, ?_⟩
    intro hl
    apply h.not_living
    by_cases hca : c = a
    · subst hca
      simp [Living, Pool.release, Pool.modify] at hl
    · simpa [Living, Pool.release, Pool.modify, hca] using hl

theorem act_gone (h : Gone s c t) (x : Act) : Gone s c (act me t x) := by
  cases x with
  | create_conn i k =>
    simp only [act]
    split
    · refine ⟨Nat.lt_succ_of_lt h.serial_lt, fun hl => ?_⟩
      by_cases hct : c = t.conns.top
      · -- the next object in the same memory has another number
        have hserial := hl.1
        simp only [set_slot] at hserial
        rw [hct, Pool.alloc_cells_top, ← hct] at hserial
        exact absurd hserial.symm (Nat.ne_of_lt h.serial_lt)
      · apply h.not_living
        simpa [Living, set_slot, Pool.alloc_cells_of_ne _ hct] using hl
    · exact h
  | core_close b =>
    simp only [act]
    split
    · exact core_close_gone h b
    · exact h
  | forget i k =>
    simp only [act]
    split
    · exact ⟨h.serial_lt, h.not_living⟩
    · exact h
  | close_slot i k =>
    simp only [act]
    split
    · exact h
    · exact core_close_gone h _

theorem acts_gone (h : Gone s c t) (acts : List Act) : Gone s c (acts.foldl (act me) t) := by
  induction acts generalizing t with
  | nil => exact h
  | cons x acts ih => exact ih (act_gone h x)

/-- The turn of its slot in `sess_destroyed` closes the connection. -/
theorem close_slot_gone {i k : Nat} (hs : Sound held t) (h : Foreign s c t)
    (hslot : s.conn_info i k = some c) : Gone s c (act me t (.close_slot i k)) := by
  have hopen := h.living.2
  have hlt := hs.lt_of_open hopen
  have hclose : act me t (.close_slot i k) = core_close c t := by
    simp only [act, (h.slots i k).mpr hslot]
  rw [hclose, core_close, if_neg (by simp [hopen])]
  refine ⟨?_, fun hl => ?_⟩
  · rw [← h.living.1]
    exact hs.pool.serial_lt c hlt
  · simp [Living, Pool.release, Pool.modify] at hl

theorem acts_cases {acts : List Act} (hs : Sound held t) (h : Foreign s c t) (hme : me ≠ some c) :
    ((∀ i k, Act.close_slot i k ∈ acts → s.conn_info i k ≠ some c) ∧
      Foreign s c (acts.foldl (act me) t)) ∨
    ((∃ i k, Act.close_slot i k ∈ acts ∧ s.conn_info i k = some c) ∧
      Gone s c (acts.foldl (act me) t)) := by
  induction acts generalizing t with
  | nil => exact Or.inl ⟨fun _ _ hmem => absurd hmem List.not_mem_nil, h⟩
  | cons x acts ih =>
    by_cases hx : ∃ i k, x = .close_slot i k ∧ s.conn_info i k = some c
    · obtain ⟨i, k, rfl, hslot⟩ := hx
      exact Or.inr ⟨⟨i, k, List.mem_cons_self, hslot⟩, acts_gone (close_slot_gone hs h hslot) acts⟩
    · have hspares : ∀ i k, x = .close_slot i k → s.conn_info i k ≠ some c :=
        fun i k hxe hslot => hx ⟨i, k, hxe, hslot⟩
      obtain ⟨hall, hk⟩ | ⟨⟨i, k, hmem, hslot⟩, hg⟩ :=
        ih (act_sound hs x) (act_foreign hs h hme x hspares)
      · refine Or.inl ⟨fun i k hmem => ?_, hk⟩
        rcases List.mem_cons.mp hmem with hxe | hmem
        · exact hspares i k hxe.symm
        · exact hall i k hmem
      · exact Or.inr ⟨⟨i, k, List.mem_cons_of_mem x hmem, hslot⟩, hg⟩

theorem dispatch_cases {e : Event} (hs : Sound none t)
    (ha : (t.conns.cells e.conn).body.closing = false) (h : Kept s c t) (hne : e.conn ≠ c) :
    ((∀ i k, Act.close_slot i k ∈ e.acts → s.conn_info i k ≠ some c) ∧ Kept s c (dispatch t e)) ∨
    ((∃ i k, Act.close_slot i k ∈ e.acts ∧ s.conn_info i k = some c) ∧
      Gone s c (dispatch t e)) := by
  have hsound := retain_sound hs ha
  have hstart : Sound (some e.conn) { t with conns := t.conns.retain e.conn, created := [] } :=
    ⟨hsound.pool, hsound.refs, hsound.unused, hsound.held_lt⟩
  have hforeign : Foreign s c { t with conns := t.conns.retain e.conn, created := [] } := by
    refine ⟨⟨?_, h.slots⟩, List.not_mem_nil⟩
    simpa [Living, Pool.retain, hne.symm] using h.living
  unfold dispatch handle
  obtain ⟨hall, hk⟩ | ⟨hhit, hg⟩ := acts_cases hstart hforeign fun hc => hne (Option.some.inj hc)
  · refine Or.inl ⟨hall, ?_, hk.slots⟩
    simpa [Living, Pool.release, hne.symm] using hk.living
  · refine Or.inr ⟨hhit, hg.serial_lt, fun hl => hg.not_living ?_⟩
    simpa [Living, Pool.release, hne.symm] using hl

theorem dispatch_gone {e : Event} (h : Gone s c t) : Gone s c (dispatch t e) := by
  have hstart : Gone s c { t with conns := t.conns.retain e.conn, created := [] } := by
    refine ⟨h.serial_lt, fun hl => h.not_living ?_⟩
    by_cases hce : c = e.conn
    · subst hce
      simpa [Living, Pool.retain] using hl
    · simpa [Living, Pool.retain, hce] using hl
  have hacts := @acts_gone (some e.conn) _ _ _ hstart e.acts
  unfold dispatch handle
  refine ⟨hacts.serial_lt, fun hl => hacts.not_living ?_⟩
  by_cases hce : c = e.conn
  · subst hce
    simpa [Living, Pool.release] using hl
  · simpa [Living, Pool.release, hce] using hl

/-! ## The events of a batch -/

theorem not_delivers_of_gone {es : List Event} {e : Event} (he : e ∈ es) (h : Gone s e.conn t) :
    ¬ Runs.Meets dispatch (fun t e => Living s e.conn t) t es := by
  induction es generalizing t with
  | nil => cases he
  | cons e' es ih =>
    rintro ⟨hl, hmeets⟩
    rcases List.mem_cons.mp he with rfl | he
    · exact h.not_living hl
    · exact ih he (dispatch_gone h) hmeets

theorem delivers_iff_pairwise {es : List Event} (hs : Sound none t)
    (hnodup : (es.map Event.conn).Nodup) (hkept : ∀ e ∈ es, Kept s e.conn t) :
    Runs.Meets dispatch (fun t e => Living s e.conn t) t es ↔ es.Pairwise fun e e' =>
      ∀ i k, Act.close_slot i k ∈ e.acts → s.conn_info i k ≠ some e'.conn := by
  induction es generalizing t with
  | nil => exact ⟨fun _ => .nil, fun _ => trivial⟩
  | cons e es ih =>
    rw [List.map_cons, List.nodup_cons] at hnodup
    have hliving := (hkept e List.mem_cons_self).living
    have hne : ∀ e' ∈ es, e.conn ≠ e'.conn := fun e' he' heq =>
      hnodup.1 (heq ▸ List.mem_map_of_mem he')
    have hcases := fun e' he' => dispatch_cases hs hliving.2
      (hkept e' (List.mem_cons_of_mem e he')) (hne e' he')
    rw [List.pairwise_cons]
    constructor
    · rintro ⟨_, hmeets⟩
      have hall : ∀ e' ∈ es, (∀ i k, Act.close_slot i k ∈ e.acts → s.conn_info i k ≠ some e'.conn) ∧
          Kept s e'.conn (dispatch t e) := by
        intro e' he'
        obtain hk | ⟨_, hg⟩ := hcases e' he'
        · exact hk
        · exact absurd hmeets (not_delivers_of_gone he' hg)
      exact ⟨fun e' he' => (hall e' he').1,
        (ih (dispatch_sound hs hliving.2) hnodup.2 fun e' he' => (hall e' he').2).mp hmeets⟩
    · rintro ⟨hspares, hpairs⟩
      have hkept' : ∀ e' ∈ es, Kept s e'.conn (dispatch t e) := by
        intro e' he'
        obtain ⟨_, hk⟩ | ⟨⟨i, k, hmem, hslot⟩, _⟩ := hcases e' he'
        · exact hk
        · exact absurd hslot (hspares e' he' i k hmem)
      exact ⟨hliving, (ih (dispatch_sound hs hliving.2) hnodup.2 hkept').mpr hpairs⟩

theorem batch_sound {es : List Event} (hs : Sound none t)
    (h : Runs.Meets dispatch (fun t e => Living s e.conn t) t es) :
    Sound none (es.foldl dispatch t) := by
  induction es generalizing t with
  | nil => exact hs
  | cons e es ih => exact ih (dispatch_sound hs h.1.2) h.2

theorem delivers_iff_spares (hs : Sound none s) (x : Step) : Delivers s x ↔ Spares s x := by
  cases x with
  | timer => exact Iff.rfl
  | batch es =>
    apply forall_congr'
    intro hready
    apply delivers_iff_pairwise hs hready.1
    intro e he
    exact ⟨⟨rfl, (hready.2 e he).2⟩, fun _ _ => Iff.rfl⟩

/-- In every run all events are delivered to living connections exactly as long as no event of a
batch ends a session that has the connection of a later event in a slot. -/
theorem events_reach_living_connections_iff (steps : List Step) :
    Runs.Meets step Delivers init steps ↔ Runs.Meets step Spares init steps := by
  apply Runs.meets_iff_meets_of_invariant (Q := Sound none)
  · intro s x hs
    exact delivers_iff_spares hs x
  · intro s x hs hspares
    cases x with
    | timer me acts => exact handle_sound hs acts
    | batch es =>
      simp only [step]
      split
      · rename_i hready
        exact batch_sound hs ((delivers_iff_spares hs (.batch es)).mpr hspares hready)
      · exact hs
  · exact init_sound

/-- Two connections of a session are ready. The first event ends the session, the next session gets
its connection in the memory of the second one, and the second event is delivered to it. -/
theorem an_event_reaches_the_next_session :
    ¬ Runs.Meets step Delivers init
      [.timer none [.create_conn 0 0, .create_conn 0 1],
        .batch [⟨0, sess_destroyed 2 0 ++ [.create_conn 1 0]⟩, ⟨1, []⟩]] := by
  rintro ⟨_, hbatch, _⟩
  obtain ⟨_, hsecond, _⟩ := hbatch (by decide)
  exact absurd hsecond.1 (by decide)

end Httperf.Batch
