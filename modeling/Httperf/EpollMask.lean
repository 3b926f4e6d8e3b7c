-- The mask of epoll against the descriptor sets of select (`set_active` and `clear_active` of
-- `core.c`). Select has one bit for each direction. Each operation of epoll writes the whole
-- mask, and looks at its own direction only.
import Httperf.Loop

namespace Httperf.Loop

/-! ## The two backends -/

/-- The sets of the select backend, as far as one descriptor is concerned. -/
structure FdSets where
  rdfds : Bool
  wrfds : Bool
  deriving DecidableEq, Repr

def FdSets.clear_active (dir : Dir) (f : FdSets) : FdSets :=
  match dir with
  | .WRITE => { f with wrfds := false }
  | .READ => { f with rdfds := false }

def FdSets.set_active (dir : Dir) (f : FdSets) : FdSets :=
  match dir with
  | .WRITE => { f with wrfds := true }
  | .READ => { f with rdfds := true }

/-- What `core.c` does with the activity of a connection. -/
inductive Op where
  | set_active (dir : Dir)
  | clear_active (dir : Dir)
  deriving DecidableEq, Repr

/-- An operation on the connection, and the same one on the sets of the select backend. -/
def both : Conn × FdSets → Op → Conn × FdSets
  | (s, f), .set_active dir => (set_active dir s, f.set_active dir)
  | (s, f), .clear_active dir => (clear_active dir s, f.clear_active dir)

/-- Epoll watches the directions that are active, and they are those that select watches. -/
def SameMask : Conn × FdSets → Prop
  | (s, f) => s.events = ⟨s.reading, s.writing⟩ ∧ s.events = ⟨f.rdfds, f.wrfds⟩

/-- A direction is set while the other one is idle, and cleared while the other one is active. -/
def OneActive : Conn × FdSets → Op → Prop
  | (s, _), .set_active .READ => s.writing = false
  | (s, _), .set_active .WRITE => s.reading = false
  | (s, _), .clear_active .READ => s.writing = true
  | (s, _), .clear_active .WRITE => s.reading = true

/-! ## One operation -/

theorem set_active_flags (dir : Dir) (s : Conn) :
    (set_active dir s).events = ⟨dir = .READ, dir = .WRITE⟩ ∧
      (set_active dir s).reading = (s.reading || dir = .READ) ∧
      (set_active dir s).writing = (s.writing || dir = .WRITE) := by
  unfold set_active
  cases dir <;> cases s.watchdog <;> simp

theorem clear_active_flags (dir : Dir) (s : Conn) :
    (clear_active dir s).events = ⟨dir = .WRITE, dir = .READ⟩ ∧
      (clear_active dir s).reading = (s.reading && dir = .WRITE) ∧
      (clear_active dir s).writing = (s.writing && dir = .READ) := by
  cases dir <;> simp [clear_active]

/-- An operation keeps the mask right exactly when it leaves one direction active. -/
theorem sameMask_both_iff {x : Conn × FdSets} (h : SameMask x) (op : Op) :
    SameMask (both x op) ↔ OneActive x op := by
  obtain ⟨s, f⟩ := x
  obtain ⟨hflags, hsets⟩ := h
  rw [hflags, Events.mk.injEq] at hsets
  cases op with
  | set_active dir =>
    obtain ⟨h1, h2, h3⟩ := set_active_flags dir s
    cases dir <;> simp [both, SameMask, OneActive, FdSets.set_active, h1, h2, h3, ← hsets.1,
      ← hsets.2]
  | clear_active dir =>
    obtain ⟨h1, h2, h3⟩ := clear_active_flags dir s
    cases dir <;> simp [both, SameMask, OneActive, FdSets.clear_active, h1, h2, h3, ← hsets.1,
      ← hsets.2]

/-! ## All operations -/

/-- Epoll watches what select watches, at any time, exactly when no operation finds both
directions active, or leaves both idle. -/
theorem epoll_watches_what_select_watches_iff (ops : List Op) :
    Runs.Always both SameMask (conn_init, ⟨false, false⟩) ops ↔
      Runs.Meets both OneActive (conn_init, ⟨false, false⟩) ops :=
  Runs.always_iff_meets (fun _ _ h => h) (fun _ op _ h => sameMask_both_iff h op)
    (I := fun _ => True) trivial ⟨rfl, rfl⟩ ops

/-- The connection is established, and nothing is sent yet: epoll watches it for reading. With
two requests sent in one go and the first reply read, it does not watch for the other one. -/
theorem epoll_watches_an_idle_direction :
    (run ⟨5, 0⟩ 0 .EINPROGRESS [.ready 1 ⟨false, false, true, [], .EAGAIN, []⟩]).map
        (fun s => (s.reading, s.events)) = some (false, ⟨true, false⟩) ∧
      (run ⟨5, 0⟩ 0 (.done [.send ⟨1, 9, 0⟩])
        [.ready 1 ⟨false, false, true, [], .EAGAIN, [.sent 9]⟩, .other 2 [.send ⟨2, 9, 0⟩]]).map
        (fun s => (s.reading, s.writing, s.events)) = some (true, true, ⟨false, true⟩) := by
  decide

end Httperf.Loop
