-- What becomes of a connection while its failure is signalled (`conn_failure`, `conn_timeout` and
-- `core_close` in `core.c`, `session.c`, `sess.c`, `rate.c`). The handlers can end the session, the
-- end of a session can start the next one, and then `core_close` uses the pointer once more.
import Httperf.Batch

namespace Httperf.FailedConn

open Lib

structure Param where
  max_conns : Nat
  retry_on_failure : Bool
  /-- a rate of 0: the end of a session starts the next one -/
  sequential : Bool
  num_sessions : Nat

/-- A call that has not returned, with what is left of it. -/
inductive Frame where
  | create_conn (i k : Nat)
  /-- the handler of `EV_CONN_FAILED` -/
  | conn_failed (a : Nat)
  | sess_failure (i : Nat)
  /-- the loop of `sess_destroyed` in `session.c`, from slot `k` on -/
  | sess_destroyed (i k : Nat)
  /-- the handler of the rate generator for `EV_SESS_DESTROYED` -/
  | done
  /-- `conn_failure` or `conn_timeout` behind the signal. The number of the connection and its
  `place` are no data of the source. -/
  | core_close (a serial : Nat) (place : Pool.Place)
  deriving DecidableEq, Repr

/-- What `conn_new` and `core_connect` come to. -/
inductive Outcome where
  | connects
  | fails
  | no_memory
  deriving DecidableEq, Repr

/-- `core` holds the connections and `conn_info[k].conn` of each session, and `owner` what the
private data of a connection points to. A session is `dead` when it has failed or is destroyed.
`held` is the connection whose event `core_loop` handles. -/
structure State where
  core : Batch.State
  owner : Nat → Nat × Nat
  is_successful : Nat → Nat → Bool
  dead : Nat → Bool
  generated : Nat
  held : Option Nat
  stack : List Frame

def init : State :=
  ⟨Batch.init, fun _ => (0, 0), fun _ _ => false, fun _ => false, 0, none, []⟩

/-! ## The functions -/

variable (p : Param)

def track (g : Nat → Pool.Place → Pool.Place) : Frame → Frame
  | .core_close a serial place => .core_close a serial (g a place)
  | f => f

/-- `conn_new`, with the fields that `create_conn` sets. -/
def conn_new (i k : Nat) (s : State) : State :=
  let a := s.core.conns.top
  { s with
    core := Batch.set_slot i k (some a) { s.core with conns := s.core.conns.alloc ⟨false⟩ }
    owner := Function.update s.owner a (i, k)
    is_successful := Function.update s.is_successful i (Function.update (s.is_successful i) k false)
    stack := s.stack.map (track fun _ => Pool.Place.made) }

/-- Without a second reference the connection is destroyed. -/
def core_close (a : Nat) (s : State) : State :=
  let c := s.core.conns.cells a
  { s with
    core := Batch.core_close a s.core
    stack := if c.body.closing = false ∧ c.refs = 1
      then s.stack.map (track fun b => Pool.Place.destroyed (a = b)) else s.stack }

def close_slot (i k : Nat) (s : State) : State :=
  match s.core.conn_info i k with
  | none => s
  | some a => core_close a s

/-- Until `EV_CONN_FAILED` is signalled. -/
def conn_failure (a : Nat) (s : State) : State :=
  { s with stack :=
    .conn_failed a :: .core_close a (s.core.conns.cells a).serial .living :: s.stack }

/-- Until `EV_CONN_TIMEOUT` is handled by `conn_timeout` of `session.c`. -/
def conn_timeout (a : Nat) (s : State) : State :=
  { s with stack :=
    .sess_failure (s.owner a).1 :: .core_close a (s.core.conns.cells a).serial .living :: s.stack }

/-- `malloc` is asked only when the free list is empty. -/
def create_conn (o : Outcome) (i k : Nat) (s : State) : State :=
  if o = .no_memory ∧ s.core.conns.free = [] then
    { s with core := Batch.set_slot i k none s.core, stack := .sess_failure i :: s.stack }
  else
    let s1 := conn_new i k s
    if o = .fails then
      conn_failure s.core.conns.top { s1 with stack := .sess_failure i :: s1.stack }
    else s1

/-- `sess_create` of a generator. The first call of a session goes to its first slot. -/
def sess_create (s : State) : State :=
  { s with generated := s.generated + 1, stack := .create_conn s.generated 0 :: s.stack }

/-- The call that is on top of the stack goes on. -/
def run (o : Outcome) (s : State) : State :=
  match s.stack with
  | [] => s
  | .create_conn i k :: rest => create_conn o i k { s with stack := rest }
  | .conn_failed a :: rest =>
    let (i, k) := s.owner a
    if s.is_successful i k ∨ p.retry_on_failure then { s with stack := .create_conn i k :: rest }
    else { s with stack := .sess_failure i :: rest }
  | .sess_failure i :: rest =>
    if s.dead i then { s with stack := rest }
    else { s with dead := Function.update s.dead i true, stack := .sess_destroyed i 0 :: rest }
  | .sess_destroyed i k :: rest =>
    if k < p.max_conns then close_slot i k { s with stack := .sess_destroyed i (k + 1) :: rest }
    else { s with stack := .done :: rest }
  | .done :: rest =>
    if p.sequential ∧ s.generated < p.num_sessions then sess_create { s with stack := rest }
    else { s with stack := rest }
  | .core_close a _ _ :: rest => core_close a { s with stack := rest }

/-! ## Runs -/

inductive Step where
  | run (o : Outcome)
  /-- `rate_generator_start`, and with a rate the timer of the generator -/
  | tick
  /-- a call for slot `k` of session `i` -/
  | issue (i k : Nat)
  /-- a reply, for `is_successful` -/
  | reply (i k : Nat)
  /-- `call_done` closes the connection with a version below 1.1 -/
  | forget (i k : Nat)
  | timeout (a : Nat)
  /-- `do_recv` or `do_send` comes to `conn_failure` -/
  | failure (a : Nat)
  /-- the failure status -/
  | fail (i : Nat)
  /-- the last call of a session -/
  | ends (i : Nat)
  | dispatch (a : Nat)
  | dispatched
  deriving DecidableEq, Repr

def Open (s : State) (a : Nat) : Prop := (s.core.conns.cells a).body.closing = false

instance (s : State) (a : Nat) : Decidable (Open s a) := inferInstanceAs (Decidable (_ = _))

/-- The loop of `sess_destroyed` destroys calls, and `wsess` issues others then. -/
def destroys (s : State) (i : Nat) : Bool :=
  match s.stack with
  | .sess_destroyed j _ :: _ => j = i
  | _ => false

def step (s : State) : Step → State
  | .run o => run p o s
  | .tick =>
    if s.stack = [] ∧ s.generated < p.num_sessions ∧ (p.sequential → s.generated = 0) then
      sess_create s
    else s
  | .issue i k =>
    if (s.stack = [] ∨ destroys s i) ∧ i < s.generated ∧ s.core.conn_info i k = none then
      { s with stack := .create_conn i k :: s.stack }
    else s
  | .reply i k =>
    if s.stack = [] then
      { s with is_successful :=
        Function.update s.is_successful i (Function.update (s.is_successful i) k true) }
    else s
  | .forget i k =>
    if s.stack = [] then
      let s1 := close_slot i k s
      { s1 with core := Batch.set_slot i k none s1.core }
    else s
  | .timeout a => if s.stack = [] ∧ s.held = none ∧ Open s a then conn_timeout a s else s
  | .failure a => if s.stack = [] ∧ s.held = some a ∧ Open s a then conn_failure a s else s
  | .fail i =>
    if s.stack = [] ∧ s.dead i = false then { s with stack := [.sess_failure i] } else s
  | .ends i =>
    if s.stack = [] ∧ s.dead i = false then
      { s with dead := Function.update s.dead i true, stack := [.sess_destroyed i 0] }
    else s
  | .dispatch a =>
    if s.stack = [] ∧ s.held = none ∧ Open s a then
      { s with core := { s.core with conns := s.core.conns.retain a }, held := some a }
    else s
  | .dispatched =>
    if s.stack = [] then
      match s.held with
      | none => s
      | some a => { s with core := { s.core with conns := s.core.conns.release a }, held := none }
    else s

/-- The `core_close` behind a signal acts on the connection that failed, or it does nothing. -/
def Own (s : State) : Step → Prop
  | .run _ => ∀ a serial place rest, s.stack = .core_close a serial place :: rest →
    (s.core.conns.cells a).body.closing = true ∨ (s.core.conns.cells a).serial = serial
  | _ => True

/-- By the count of the connections that were made and destroyed since it was destroyed itself, its
memory is not in use again. -/
def Spared (s : State) : Step → Prop
  | .run _ => ∀ a serial place rest, s.stack = .core_close a serial place :: rest → place ≠ .taken
  | _ => True

/-! ## The memory of a failed connection -/

/-- For each signal that is running, the books say what its pointer denotes. The connection of
`core_loop` is not destroyed. -/
structure Sound (s : State) : Prop where
  core : Batch.Sound s.held s.core
  books : ∀ a serial place, .core_close a serial place ∈ s.stack → s.core.conns.At a serial place
  held : ∀ a serial place, .core_close a serial place ∈ s.stack → s.held = some a → place = .living

variable {p} {s : State} {a : Nat}

theorem init_sound : Sound init :=
  ⟨Batch.init_sound, fun _ _ _ h => (nomatch h), fun _ _ _ h => nomatch h⟩

theorem mem_track {g : Nat → Pool.Place → Pool.Place} {stack : List Frame} {serial : Nat}
    {place : Pool.Place} (h : .core_close a serial place ∈ stack.map (track g)) :
    ∃ place', .core_close a serial place' ∈ stack ∧ place = g a place' := by
  obtain ⟨f, hf, heq⟩ := List.mem_map.mp h
  cases f with
  | core_close b m place' =>
    obtain ⟨rfl, rfl, rfl⟩ : b = a ∧ m = serial ∧ g b place' = place := by simpa [track] using heq
    exact ⟨place', hf, rfl⟩
  | create_conn => cases heq
  | conn_failed => cases heq
  | sess_failure => cases heq
  | sess_destroyed => cases heq
  | done => cases heq

/-- The stack changes, and no signal begins. -/
theorem Sound.stack (h : Sound s) {stack : List Frame}
    (hsub : ∀ a serial place, .core_close a serial place ∈ stack →
      .core_close a serial place ∈ s.stack) : Sound { s with stack } :=
  ⟨h.core, fun a serial place hmem => h.books a serial place (hsub a serial place hmem),
    fun a serial place hmem => h.held a serial place (hsub a serial place hmem)⟩

theorem Sound.pop (h : Sound s) {f : Frame} {rest : List Frame} (hs : s.stack = f :: rest) :
    Sound { s with stack := rest } :=
  h.stack fun _ _ _ hmem => hs ▸ List.mem_cons_of_mem f hmem

theorem Sound.push (h : Sound s) (f : Frame)
    (hf : ∀ a serial place, f ≠ .core_close a serial place) :
    Sound { s with stack := f :: s.stack } := by
  apply h.stack
  intro a serial place hmem
  rcases List.mem_cons.mp hmem with heq | hmem
  · exact absurd heq.symm (hf a serial place)
  · exact hmem

theorem set_slot_sound (h : Sound s) (i k : Nat) (v : Option Nat) :
    Sound { s with core := Batch.set_slot i k v s.core } :=
  ⟨⟨h.core.pool, h.core.refs, h.core.unused, h.core.held_lt⟩, h.books, h.held⟩

/-- A signal begins, and the connection is still open. -/
theorem signal_sound (h : Sound s) (ha : Open s a) :
    Sound { s with stack := .core_close a (s.core.conns.cells a).serial .living :: s.stack } := by
  refine ⟨h.core, fun b serial place hmem => ?_, fun b serial place hmem hheld => ?_⟩
  · rcases List.mem_cons.mp hmem with heq | hmem
    · cases heq
      exact h.core.pool.at_living (h.core.lt_of_open ha) (h.core.refs_of_open ha)
    · exact h.books b serial place hmem
  · rcases List.mem_cons.mp hmem with heq | hmem
    · cases heq
      rfl
    · exact h.held b serial place hmem hheld

theorem conn_failure_sound (h : Sound s) (ha : Open s a) : Sound (conn_failure a s) :=
  (signal_sound h ha).push (.conn_failed a) fun _ _ _ heq => nomatch heq

theorem conn_timeout_sound (h : Sound s) (ha : Open s a) : Sound (conn_timeout a s) :=
  (signal_sound h ha).push (.sess_failure (s.owner a).1) fun _ _ _ heq => nomatch heq

theorem conn_new_sound (h : Sound s) (i k : Nat) : Sound (conn_new i k s) := by
  have hcore := Batch.alloc_sound h.core
  refine ⟨⟨hcore.pool, hcore.refs, hcore.unused, hcore.held_lt⟩, fun a serial place hmem => ?_,
    fun a serial place hmem hheld => ?_⟩
  · obtain ⟨place', hmem', rfl⟩ := mem_track hmem
    exact (h.books a serial place' hmem').alloc h.core.pool ⟨false⟩
  · obtain ⟨place', hmem', rfl⟩ := mem_track hmem
    rw [h.held a serial place' hmem' hheld]
    rfl

theorem core_close_sound (h : Sound s) (a : Nat) : Sound (core_close a s) := by
  have hcore := Batch.core_close_sound h.core a
  unfold core_close
  dsimp only
  by_cases ha : (s.core.conns.cells a).body.closing = true
  · have hsame : Batch.core_close a s.core = s.core := if_pos ha
    rw [hsame] at hcore ⊢
    rw [if_neg fun hno => Bool.false_ne_true (hno.1.symm.trans ha)]
    exact h
  · rw [Bool.not_eq_true] at ha
    have hclose : (Batch.core_close a s.core).conns =
        (s.core.conns.modify a fun _ => ⟨true⟩).release a := by
      unfold Batch.core_close
      rw [ha, if_neg Bool.false_ne_true]
    have hrefs := h.core.refs a (h.core.lt_of_open ha)
    have hmodify : ((s.core.conns.modify a fun _ => (⟨true⟩ : Batch.Conn)).cells a).refs =
        (s.core.conns.cells a).refs := by simp [Pool.modify]
    rw [ha, if_neg Bool.false_ne_true] at hrefs
    by_cases hheld : s.held = some a
    · rw [if_pos hheld] at hrefs
      rw [if_neg (by omega)]
      refine ⟨hcore, fun b serial place hmem => ?_, h.held⟩
      dsimp only
      rw [hclose]
      exact ((h.books b serial place hmem).modify a _).release (by omega)
    · rw [if_neg hheld] at hrefs
      rw [if_pos ⟨ha, hrefs⟩]
      refine ⟨hcore, fun b serial place hmem => ?_, fun b serial place hmem hb => ?_⟩
      · obtain ⟨place', hmem', rfl⟩ := mem_track hmem
        dsimp only
        rw [hclose]
        exact ((h.books b serial place' hmem').modify a _).destroy (by omega)
      · obtain ⟨place', hmem', rfl⟩ := mem_track hmem
        have hab : a ≠ b := fun hab => hheld (hab ▸ hb)
        rw [h.held b serial place' hmem' hb]
        simp [Pool.Place.destroyed, hab]

theorem close_slot_sound (h : Sound s) (i k : Nat) : Sound (close_slot i k s) := by
  unfold close_slot
  split
  · exact h
  · exact core_close_sound h _

theorem create_conn_sound (h : Sound s) (o : Outcome) (i k : Nat) :
    Sound (create_conn o i k s) := by
  unfold create_conn
  split
  · exact (set_slot_sound h i k none).push (.sess_failure i) fun _ _ _ heq => nomatch heq
  · have hnew := conn_new_sound h i k
    dsimp only
    split
    · have hpush := hnew.push (.sess_failure i) fun _ _ _ heq => nomatch heq
      apply conn_failure_sound hpush
      change ((s.core.conns.alloc ⟨false⟩).cells s.core.conns.top).body.closing = false
      rw [Pool.alloc_cells_top]
    · exact hnew

theorem run_sound (h : Sound s) (o : Outcome) : Sound (run p o s) := by
  unfold run
  split
  · exact h
  · rename_i i k rest hs
    exact create_conn_sound (h.pop hs) o i k
  · rename_i a rest hs
    dsimp only
    split
    · exact (h.pop hs).push (.create_conn _ _) fun _ _ _ heq => nomatch heq
    · exact (h.pop hs).push (.sess_failure _) fun _ _ _ heq => nomatch heq
  · rename_i i rest hs
    split
    · exact h.pop hs
    · have hpush := (h.pop hs).push (.sess_destroyed i 0) fun _ _ _ heq => nomatch heq
      exact ⟨hpush.core, hpush.books, hpush.held⟩
  · rename_i i k rest hs
    split
    · exact close_slot_sound ((h.pop hs).push (.sess_destroyed i (k + 1))
        fun _ _ _ heq => nomatch heq) i k
    · exact (h.pop hs).push .done fun _ _ _ heq => nomatch heq
  · rename_i rest hs
    split
    · have hpush := (h.pop hs).push (.create_conn s.generated 0) fun _ _ _ heq => nomatch heq
      exact ⟨hpush.core, hpush.books, hpush.held⟩
    · exact h.pop hs
  · rename_i a _ _ rest hs
    exact core_close_sound (h.pop hs) a

theorem step_sound (h : Sound s) (x : Step) : Sound (step p s x) := by
  have nomem : ∀ {t : State}, t.stack = [] → ∀ a serial place,
      ¬ Frame.core_close a serial place ∈ t.stack := by
    intro t ht a serial place hmem
    rw [ht] at hmem
    exact List.not_mem_nil hmem
  unfold step
  cases x with
  | run o => exact run_sound h o
  | tick =>
    dsimp only
    split
    · have hpush := h.push (.create_conn s.generated 0) fun _ _ _ heq => nomatch heq
      exact ⟨hpush.core, hpush.books, hpush.held⟩
    · exact h
  | issue i k =>
    dsimp only
    split
    · exact h.push (.create_conn i k) fun _ _ _ heq => nomatch heq
    · exact h
  | reply i k =>
    dsimp only
    split
    · exact ⟨h.core, h.books, h.held⟩
    · exact h
  | forget i k =>
    dsimp only
    split
    · exact set_slot_sound (close_slot_sound h i k) i k none
    · exact h
  | timeout a =>
    dsimp only
    split
    · rename_i ha
      exact conn_timeout_sound h ha.2.2
    · exact h
  | failure a =>
    dsimp only
    split
    · rename_i ha
      exact conn_failure_sound h ha.2.2
    · exact h
  | fail i =>
    dsimp only
    split
    · exact h.stack fun _ _ _ hmem => by simp at hmem
    · exact h
  | ends i =>
    dsimp only
    split
    · have hends : Sound { s with stack := [.sess_destroyed i 0] } :=
        h.stack fun _ _ _ hmem => by simp at hmem
      exact ⟨hends.core, hends.books, hends.held⟩
    · exact h
  | dispatch a =>
    dsimp only
    split
    · rename_i ha
      have hcore := h.core
      rw [ha.2.1] at hcore
      exact ⟨Batch.retain_sound hcore ha.2.2,
        fun b n place hmem => absurd hmem (nomem ha.1 b n place), fun b n place hmem =>
          absurd hmem (nomem ha.1 b n place)⟩
    · exact h
  | dispatched =>
    dsimp only
    split
    · rename_i hstack
      split
      · exact h
      · rename_i a ha
        have hcore := h.core
        rw [ha] at hcore
        exact ⟨Batch.release_sound hcore, fun b n place hmem =>
          absurd hmem (nomem hstack b n place),
          fun b n place hmem => absurd hmem (nomem hstack b n place)⟩
    · exact h

/-- In a row of calls of any depth, the pointer of a signal denotes the connection that failed, or a
dead one, exactly when the books say so. -/
theorem own_iff_spared (h : Sound s) (x : Step) : Own s x ↔ Spared s x := by
  cases x with
  | run o =>
    apply forall_congr'
    intro a
    apply forall_congr'
    intro serial
    apply forall_congr'
    intro place
    apply forall_congr'
    intro rest
    apply forall_congr'
    intro hs
    have hmem : Frame.core_close a serial place ∈ s.stack := by
      rw [hs]
      exact List.mem_cons_self
    have hat := h.books a serial place hmem
    have hrefs := h.core.refs a hat.lt_size
    have hcell := hat.cell
    cases place with
    | living => exact ⟨fun _ => nofun, fun _ => Or.inr hcell.2⟩
    | buried above =>
      refine ⟨fun _ => nofun, fun _ => Or.inl ?_⟩
      by_contra hopen
      rw [if_neg hopen] at hrefs
      omega
    | taken =>
      have hheld : s.held ≠ some a := fun hheld => nomatch h.held a serial .taken hmem hheld
      rw [if_neg hheld] at hrefs
      constructor
      · rintro (hclosing | hsame)
        · rw [if_pos hclosing] at hrefs
          exact absurd hrefs hcell.1
        · exact absurd hsame hcell.2
      · intro htaken
        exact absurd rfl htaken
  | _ => exact Iff.rfl

/-- In every run, each `core_close` behind a signal acts on the connection that failed exactly when,
at each of them, no other connection is left in the memory of a destroyed one: the connections made
since have not outnumbered those destroyed since, or the one that took the memory is destroyed
again. -/
theorem core_close_acts_on_the_failed_iff (p : Param) (steps : List Step) :
    Runs.Meets (step p) Own init steps ↔ Runs.Meets (step p) Spared init steps := by
  apply Runs.meets_iff_meets_of_invariant (Q := Sound)
  · intro s x hs
    exact own_iff_spared hs x
  · intro s x hs _
    exact step_sound hs x
  · exact init_sound

/-- Sequential sessions with one connection each. The connection of the first one times out, the
next session gets its connection in the same memory, and `core_close` closes it. -/
theorem a_timeout_closes_the_next_session :
    ¬ Runs.Meets (step ⟨1, false, true, 2⟩) Own init
      [.tick, .run .connects, .timeout 0, .run .connects, .run .connects, .run .connects,
        .run .connects, .run .connects, .run .connects] := by
  rintro ⟨_, _, _, _, _, _, _, _, hlast, _⟩
  exact absurd (hlast 0 0 .taken [] rfl) (by decide)

/-! ## Sessions at a rate -/

/-- The calls that make a connection. -/
def Frame.makes : Frame → Bool
  | .create_conn _ _ => true
  | .conn_failed _ => true
  | _ => false

/-- No connection is made any more, and none was made in the memory of a destroyed one. -/
structure Still (stack : List Frame) : Prop where
  makes : ∀ f ∈ stack, f.makes = false
  spared : ∀ a serial place, .core_close a serial place ∈ stack → place ≠ .taken

/-- A connection is made only while all connections whose failure is signalled are in use. -/
def Calm (stack : List Frame) : Prop :=
  Still stack ∨ ∃ f rest, stack = f :: rest ∧ f.makes = true ∧ Still rest ∧
    ∀ a serial place, .core_close a serial place ∈ rest → place = .living

/-- No call is issued for a session that is being destroyed. -/
def Heeds (s : State) : Step → Prop
  | .issue _ _ => s.stack = []
  | _ => True

section

variable {f : Frame} {rest stack : List Frame}

theorem still_nil : Still [] := ⟨fun _ h => (nomatch h), fun _ _ _ h => nomatch h⟩

theorem Still.push (h : Still rest) (hf : f.makes = false)
    (ht : ∀ a serial, f ≠ .core_close a serial .taken) : Still (f :: rest) := by
  refine ⟨fun g hg => ?_, fun a serial place hmem => ?_⟩
  · rcases List.mem_cons.mp hg with rfl | hg
    · exact hf
    · exact h.makes g hg
  · rcases List.mem_cons.mp hmem with heq | hmem
    · rintro rfl
      exact ht a serial heq.symm
    · exact h.spared a serial place hmem

theorem Still.tail (h : Still (f :: rest)) : Still rest :=
  ⟨fun g hg => h.makes g (List.mem_cons_of_mem f hg),
    fun a serial place hmem => h.spared a serial place (List.mem_cons_of_mem f hmem)⟩

theorem Still.track {g : Nat → Pool.Place → Pool.Place} (h : Still stack)
    (hg : ∀ a serial place, .core_close a serial place ∈ stack → g a place ≠ .taken) :
    Still (stack.map (track g)) := by
  refine ⟨fun f' hf' => ?_, fun a serial place hmem => ?_⟩
  · obtain ⟨f, hf, rfl⟩ := List.mem_map.mp hf'
    have hmakes := h.makes f hf
    cases f <;> exact hmakes
  · obtain ⟨place', hmem', rfl⟩ := mem_track hmem
    exact hg a serial place' hmem'

theorem core_close_still (h : Still s.stack) (a : Nat) : Still (core_close a s).stack := by
  unfold core_close
  dsimp only
  split
  · apply h.track
    intro b serial place hmem
    have hspared := h.spared b serial place hmem
    cases place with
    | living => by_cases hab : a = b <;> simp [Pool.Place.destroyed, hab]
    | buried above => simp [Pool.Place.destroyed]
    | taken => exact absurd rfl hspared
  · exact h

theorem Calm.of_top (h : Calm (f :: rest)) : Still rest := by
  obtain hstill | ⟨f', rest', heq, _, hstill, _⟩ := h
  · exact hstill.tail
  · cases heq
    exact hstill

theorem Calm.of_makes (h : Calm (f :: rest)) (hf : f.makes = true) :
    ∀ a serial place, .core_close a serial place ∈ rest → place = .living := by
  obtain hstill | ⟨f', rest', heq, _, _, hliving⟩ := h
  · exact absurd (hstill.makes f List.mem_cons_self) (by simp [hf])
  · cases heq
    exact hliving

theorem create_conn_calm (o : Outcome) (i k : Nat) (h : Still s.stack)
    (hliving : ∀ a serial place, .core_close a serial place ∈ s.stack → place = .living) :
    Calm (create_conn o i k s).stack := by
  have hnew : Still (conn_new i k s).stack := by
    apply h.track
    intro a serial place hmem
    rw [hliving a serial place hmem]
    simp [Pool.Place.made]
  unfold create_conn
  split
  · exact Or.inl (h.push rfl fun _ _ => nofun)
  · dsimp only
    split
    · have hpush : Still (.sess_failure i :: (conn_new i k s).stack) :=
        hnew.push rfl fun _ _ => nofun
      refine Or.inr
        ⟨_, _, rfl, rfl, hpush.push rfl fun _ _ => by simp, fun a serial place hmem => ?_⟩
      rcases List.mem_cons.mp hmem with heq | hmem
      · cases heq
        rfl
      · rcases List.mem_cons.mp hmem with heq | hmem
        · cases heq
        · obtain ⟨place', hmem', rfl⟩ := mem_track hmem
          rw [hliving a serial place' hmem']
          rfl
    · exact Or.inl hnew

theorem run_calm (hp : p.sequential = false) (o : Outcome) (h : Calm s.stack) :
    Calm (run p o s).stack := by
  unfold run
  split
  · exact h
  · rename_i i k rest hs
    rw [hs] at h
    exact create_conn_calm o i k (s := { s with stack := rest }) h.of_top (h.of_makes rfl)
  · rename_i a rest hs
    rw [hs] at h
    dsimp only
    split
    · exact Or.inr ⟨_, _, rfl, rfl, h.of_top, h.of_makes rfl⟩
    · exact Or.inl (h.of_top.push rfl fun _ _ => nofun)
  · rename_i i rest hs
    rw [hs] at h
    split
    · exact Or.inl h.of_top
    · exact Or.inl (h.of_top.push rfl fun _ _ => nofun)
  · rename_i i k rest hs
    rw [hs] at h
    split
    · left
      have hpush : Still (.sess_destroyed i (k + 1) :: rest) := h.of_top.push rfl fun _ _ => nofun
      unfold close_slot
      split
      · exact hpush
      · exact core_close_still (s := { s with stack := .sess_destroyed i (k + 1) :: rest }) hpush _
    · exact Or.inl (h.of_top.push rfl fun _ _ => nofun)
  · rename_i rest hs
    rw [hs] at h
    rw [hp, if_neg fun hno => Bool.false_ne_true hno.1]
    exact Or.inl h.of_top
  · rename_i a _ _ rest hs
    rw [hs] at h
    exact Or.inl (core_close_still (s := { s with stack := rest }) h.of_top a)

theorem step_calm (hp : p.sequential = false) (x : Step) (h : Calm s.stack) (hx : Heeds s x) :
    Calm (step p s x).stack := by
  unfold step
  cases x with
  | run o => exact run_calm hp o h
  | tick =>
    dsimp only
    split
    · rename_i hs
      exact Or.inr ⟨_, _, rfl, rfl, hs.1 ▸ still_nil, fun _ _ _ hmem => by simp [hs.1] at hmem⟩
    · exact h
  | issue i k =>
    have hs : s.stack = [] := hx
    dsimp only
    split
    · exact Or.inr ⟨_, _, rfl, rfl, hs ▸ still_nil, fun _ _ _ hmem => by simp [hs] at hmem⟩
    · exact h
  | reply i k =>
    dsimp only
    split <;> exact h
  | forget i k =>
    dsimp only
    split
    · rename_i hs
      left
      have hstill : Still s.stack := hs ▸ still_nil
      unfold close_slot
      split
      · exact hstill
      · exact core_close_still hstill _
    · exact h
  | timeout a =>
    dsimp only
    split
    · rename_i hs
      have hstill : Still s.stack := hs.1 ▸ still_nil
      exact Or.inl ((hstill.push rfl fun _ _ => by simp).push rfl fun _ _ => nofun)
    · exact h
  | failure a =>
    dsimp only
    split
    · rename_i hs
      have hstill : Still s.stack := hs.1 ▸ still_nil
      refine Or.inr ⟨_, _, rfl, rfl, hstill.push rfl fun _ _ => by simp, fun _ _ _ hmem => ?_⟩
      rcases List.mem_cons.mp hmem with heq | hmem
      · cases heq
        rfl
      · simp [hs.1] at hmem
    · exact h
  | fail i =>
    dsimp only
    split
    · exact Or.inl (still_nil.push rfl fun _ _ => nofun)
    · exact h
  | ends i =>
    dsimp only
    split
    · exact Or.inl (still_nil.push rfl fun _ _ => nofun)
    · exact h
  | dispatch a =>
    dsimp only
    split <;> exact h
  | dispatched =>
    dsimp only
    split
    · split <;> exact h
    · exact h

end

/-- At a rate, where no generator issues calls for a session that is being destroyed, `core_close`
always acts on the connection that failed. -/
theorem core_close_acts_on_the_failed_at_a_rate (p : Param) (hp : p.sequential = false)
    (steps : List Step) (hsteps : Runs.Meets (step p) Heeds init steps) :
    Runs.Meets (step p) Own init steps := by
  apply hsteps.imp (Q := fun s => Sound s ∧ Calm s.stack)
  · rintro s x ⟨hsound, hcalm⟩ _
    rw [own_iff_spared hsound]
    cases x with
    | run o =>
      intro a serial place rest hs
      rw [hs] at hcalm
      obtain hstill | ⟨f, _, heq, hf, _, _⟩ := hcalm
      · exact hstill.spared a serial place List.mem_cons_self
      · cases heq
        cases hf
    | _ => trivial
  · rintro s x ⟨hsound, hcalm⟩ hx
    exact ⟨step_sound hsound x, step_calm hp x hcalm hx⟩
  · exact ⟨init_sound, Or.inl still_nil⟩

end Httperf.FailedConn
