-- Sessions that replay a template (`wsesslog.c`). The handler of `EV_CALL_DESTROYED` decides
-- between the next calls of the burst, the think time behind it and the end of the session.
import Httperf.Clib
import Httperf.Lib.Runs
import Httperf.SessionQueue

namespace Httperf.WsessLog

/-! ## Templates -/

inductive Method where
  | HM_DELETE | HM_GET | HM_HEAD | HM_OPTIONS | HM_POST | HM_PUT | HM_PROPFIND | HM_REPORT
  | HM_TRACE
  deriving DecidableEq, Repr

def call_method_name : Method → List Byte
  | .HM_DELETE => bytes "DELETE"
  | .HM_GET => bytes "GET"
  | .HM_HEAD => bytes "HEAD"
  | .HM_OPTIONS => bytes "OPTIONS"
  | .HM_POST => bytes "POST"
  | .HM_PUT => bytes "PUT"
  | .HM_PROPFIND => bytes "PROPFIND"
  | .HM_REPORT => bytes "REPORT"
  | .HM_TRACE => bytes "TRACE"

structure Req where
  method : Method
  uri : List Byte
  contents : List Byte
  extra_hdrs : List Byte
  deriving DecidableEq, Repr

/-- A burst. `parse_config` makes a burst with its first request, and counts the requests. -/
structure Burst where
  user_think_time : Nat
  req_list : List Req
  nonempty : req_list ≠ []

def Burst.num_reqs (b : Burst) : Nat := b.req_list.length

theorem Burst.num_reqs_pos (b : Burst) : 0 < b.num_reqs := List.length_pos_iff.mpr b.nonempty

/-- The requests of some bursts. -/
def requests (bursts : List Burst) : List Req := bursts.flatMap Burst.req_list

/-- A session of the configuration file. -/
structure Template where
  bursts : List Burst
  nonempty : bursts ≠ []

def Template.total_num_reqs (t : Template) : Nat := (requests t.bursts).length

/-! ## The session -/

/-- What `issue_calls` fills in. -/
structure Call where
  method : List Byte
  uri : List Byte
  /-- the header and the contents, if there are any -/
  contents : Option (List Byte × List Byte)
  deriving DecidableEq, Repr

def new_call (r : Req) : Call where
  method := call_method_name r.method
  uri := r.uri
  contents := if r.contents.length > 0 then some (r.extra_hdrs, r.contents) else none

/-- A call that was issued, with the number of calls that were destroyed by then, and of think
timers that had expired. -/
structure Issue where
  call : Call
  destroyed : Nat
  thinks : Nat
  deriving DecidableEq, Repr

/-- The session with its private data. The lists `current_burst` and `current_req` are what the
pointers lead to. `issues`, `thinks` and `dec_refs` are no fields of the source: `dec_refs` says
how many calls were destroyed at each `sess_dec_ref`. -/
structure Sess where
  num_calls_in_this_burst : Nat
  num_calls_target : Nat
  num_calls_destroyed : Nat
  timer : Option Nat
  total_num_reqs : Nat
  current_burst : List Burst
  current_req : List Req
  failed : Bool
  ref_count : Nat
  slots : List (List Nat)
  issues : List Issue
  thinks : Nat
  dec_refs : List Nat

/-- How the program can end. -/
inductive Abort where
  | too_many_calls_pending
  | requests_ran_past_end
  | assert_no_timer
  | assert_ref_count
  | no_burst
  deriving DecidableEq, Repr

variable (p : SessionParam)

/-- The loop of `issue_calls`. -/
def issue_loop : Nat → Sess → Except Abort Sess
  | 0, s => .ok s
  | i + 1, s =>
    match s.current_req with
    | [] => .error .requests_ran_past_end
    | req :: next =>
      match session_issue_call p s.issues.length s.slots with
      | none => .error .too_many_calls_pending
      | some slots => issue_loop i { s with
          current_req := next
          slots
          issues := s.issues ++ [⟨new_call req, s.num_calls_destroyed, s.thinks⟩] }

def issue_calls (s : Sess) : Except Abort Sess :=
  let to_create : Except Abort Nat :=
    if s.num_calls_in_this_burst > 0 then
      match s.current_burst with
      | [] => .error .no_burst
      | b :: _ => .ok (b.num_reqs - s.num_calls_in_this_burst)
    else .ok 1
  match to_create with
  | .error e => .error e
  | .ok to_create =>
    let n := session_max_qlen p - session_current_qlen s.slots
    let to_create := if n < to_create then n else to_create
    issue_loop p to_create
      { s with num_calls_in_this_burst := s.num_calls_in_this_burst + to_create }

def prepare_for_next_burst (s : Sess) : Except Abort Sess :=
  match s.current_burst with
  | [] => .ok s
  | b :: rest =>
    let s1 := { s with current_burst := rest }
    match rest with
    | [] => .ok s1
    | next :: _ =>
      if s.timer.isSome then .error .assert_no_timer
      else .ok { s1 with
        current_req := next.req_list
        num_calls_in_this_burst := 0
        num_calls_target := s.num_calls_target + next.num_reqs
        timer := some b.user_think_time }

/-- The handler of `EV_CALL_DESTROYED`, where `dec_ref` is what `sess_dec_ref` does. -/
def on_destroyed (dec_ref : Sess → Except Abort Sess) (s : Sess) : Except Abort Sess :=
  if s.failed then .ok s
  else
    let s1 := { s with num_calls_destroyed := s.num_calls_destroyed + 1 }
    if s1.num_calls_destroyed ≥ s1.total_num_reqs then dec_ref s1
    else
      match s1.current_burst with
      | [] => .error .no_burst
      | b :: _ =>
        if s1.num_calls_in_this_burst < b.num_reqs then issue_calls p s1
        else if s1.num_calls_destroyed ≥ s1.num_calls_target then prepare_for_next_burst s1
        else .ok s1

/-- `sess_dec_ref`. The last reference takes the timer and the pending calls with it. While these
are destroyed the count is 0, and the assertion of `object_dec_ref` fails. -/
def sess_dec_ref (s : Sess) : Except Abort Sess :=
  if s.ref_count = 0 then .error .assert_ref_count
  else
    let s1 := { s with
      ref_count := s.ref_count - 1
      dec_refs := s.dec_refs ++ [s.num_calls_destroyed] }
    if s1.ref_count = 0 then
      s.slots.flatten.foldlM (fun s _ => on_destroyed p (fun _ => .error .assert_ref_count) s)
        { s1 with timer := none, slots := no_calls p }
    else .ok s1

def call_destroyed (s : Sess) : Except Abort Sess := on_destroyed p (sess_dec_ref p) s

def user_think_time_expired (s : Sess) : Except Abort Sess :=
  issue_calls p { s with timer := none, thinks := s.thinks + 1 }

def sess_create (t : Template) : Except Abort Sess :=
  issue_calls p {
    num_calls_in_this_burst := 0
    num_calls_target := (t.bursts.head t.nonempty).num_reqs
    num_calls_destroyed := 0
    timer := none
    total_num_reqs := t.total_num_reqs
    current_burst := t.bursts
    current_req := (t.bursts.head t.nonempty).req_list
    failed := false
    ref_count := 1
    slots := no_calls p
    issues := []
    thinks := 0
    dec_refs := [] }

/-! ## Runs -/

/-- What happens to a session without failures. -/
inductive Step where
  /-- the reply to the call in front of the connection `i` is there, and the call is destroyed -/
  | completed (i : Nat)
  /-- the think timer expires, if it is armed -/
  | think
  deriving DecidableEq, Repr

def step (s : Except Abort Sess) (st : Step) : Except Abort Sess :=
  s.bind fun s =>
    match st with
    | .completed i =>
      match call_done i s.slots with
      | none => .ok s
      | some slots => call_destroyed p { s with slots }
    | .think => if s.timer.isSome then user_think_time_expired p s else .ok s

def run (t : Template) (steps : List Step) : Except Abort Sess :=
  Runs.run (step p) (sess_create p t) steps

/-! ## Replays -/

/-- The call number `i` goes out in time. It belongs to a burst behind the bursts `done`, whose
think timers have expired. The first call of the burst waits for all calls of these, and the
others wait for the first one. -/
def InTime (t : Template) (i : Nat) (e : Issue) : Prop :=
  ∃ done b rest, t.bursts = done ++ b :: rest ∧ (requests done).length ≤ i ∧
    i < (requests done).length + b.num_reqs ∧ e.thinks = done.length ∧
    (i = (requests done).length → e.destroyed = i) ∧
    ((requests done).length < i → (requests done).length < e.destroyed)

/-- The step does something: a call is pending on the connection, or the think timer is armed. -/
def Sess.moves (s : Sess) : Step → Bool
  | .completed i => (call_done i s.slots).isSome
  | .think => s.timer.isSome

/-- The completions and the think times that are still to come. -/
def toCome (t : Template) (s : Sess) : Nat :=
  (t.total_num_reqs - s.num_calls_destroyed) + (t.bursts.length - 1 - s.thinks)

/-- All requests of the template have been issued, each once, and the session has given up its
reference once, behind the last call. -/
structure Finished (t : Template) (s : Sess) : Prop where
  calls : s.issues.map Issue.call = (requests t.bursts).map new_call
  destroyed : s.num_calls_destroyed = t.total_num_reqs
  dec_refs : s.dec_refs = [t.total_num_reqs]

/-- The session replays its template. -/
structure Replays (t : Template) (s : Sess) : Prop where
  calls : s.issues.map Issue.call <+: (requests t.bursts).map new_call
  inTime : ∀ i (h : i < s.issues.length), InTime t i s.issues[i]
  /-- the session ends with its last call -/
  ended : s.dec_refs ≠ [] → Finished t s
  /-- and until then a call is pending, or a think timer is armed -/
  going : s.dec_refs = [] → ∃ st, s.moves st = true
  /-- each of them leaves less to come -/
  lowers : ∀ st, s.moves st = true →
    ∃ s', step p (.ok s) st = .ok s' ∧ toCome t s' + 1 = toCome t s
  /-- so that the session comes to its end -/
  finishes : ∃ more s', Runs.run (step p) (.ok s) more = .ok s' ∧ Finished t s'

/-! ## Issuing calls -/

/-- What holds of a session whatever it waits for. -/
structure Sound (t : Template) (s : Sess) : Prop where
  fits : Fits p s.slots
  qlen : session_current_qlen s.slots + s.num_calls_destroyed = s.issues.length
  calls : s.issues.map Issue.call <+: (requests t.bursts).map new_call
  inTime : ∀ i (h : i < s.issues.length), InTime t i s.issues[i]
  alive : s.failed = false
  total : s.total_num_reqs = t.total_num_reqs

/-- The session is at work on the burst `b`, of which some calls are issued. -/
structure Working (t : Template) (s : Sess) (done : List Burst) (b : Burst) (rest : List Burst) :
    Prop where
  bursts : t.bursts = done ++ b :: rest
  timer : s.timer = none
  current_burst : s.current_burst = b :: rest
  current_req : s.current_req = b.req_list.drop s.num_calls_in_this_burst
  le : s.num_calls_in_this_burst ≤ b.num_reqs
  issued : s.issues.length = (requests done).length + s.num_calls_in_this_burst
  target : s.num_calls_target = (requests done).length + b.num_reqs
  behind : (requests done).length ≤ s.num_calls_destroyed
  first : 1 < s.num_calls_in_this_burst → (requests done).length < s.num_calls_destroyed
  thinks : s.thinks = done.length
  ref_count : s.ref_count = 1
  dec_refs : s.dec_refs = []

/-- A think timer runs, and the burst `b` is the next one. -/
structure Thinking (t : Template) (s : Sess) (done : List Burst) (b : Burst) (rest : List Burst) :
    Prop where
  bursts : t.bursts = done ++ b :: rest
  timer : s.timer.isSome = true
  current_burst : s.current_burst = b :: rest
  current_req : s.current_req = b.req_list
  fresh : s.num_calls_in_this_burst = 0
  issued : s.issues.length = (requests done).length
  target : s.num_calls_target = (requests done).length + b.num_reqs
  behind : s.num_calls_destroyed = (requests done).length
  thinks : s.thinks + 1 = done.length
  ref_count : s.ref_count = 1
  dec_refs : s.dec_refs = []

/-- The session is over. -/
structure Ended (t : Template) (s : Sess) : Prop where
  timer : s.timer = none
  pending : session_current_qlen s.slots = 0
  issued : s.issues.length = t.total_num_reqs
  destroyed : s.num_calls_destroyed = t.total_num_reqs
  dec_refs : s.dec_refs = [t.total_num_reqs]

/-- The phases of a session. -/
def Phase (t : Template) (s : Sess) : Prop :=
  (∃ done b rest, Working t s done b rest ∧ 0 < session_current_qlen s.slots) ∨
    (∃ done b rest, Thinking t s done b rest) ∨ Ended t s

/-- No call was destroyed between the two states, and no think timer has expired. -/
def SameCounts (s s' : Sess) : Prop :=
  s'.num_calls_destroyed = s.num_calls_destroyed ∧ s'.thinks = s.thinks

variable {p} {t : Template}

/-- The calls of the loop of `issue_calls`. -/
theorem issue_loop_spec (k : Nat) {s : Sess} (hfits : Fits p s.slots)
    (hreq : k ≤ s.current_req.length)
    (hroom : session_current_qlen s.slots + k ≤ session_max_qlen p) :
    ∃ slots, issue_loop p k s = .ok { s with
        current_req := s.current_req.drop k
        slots
        issues := s.issues ++ (s.current_req.take k).map
          (⟨new_call ·, s.num_calls_destroyed, s.thinks⟩) } ∧
      Fits p slots ∧ session_current_qlen slots = session_current_qlen s.slots + k := by
  induction k generalizing s with
  | zero => exact ⟨s.slots, by simp [issue_loop], hfits, rfl⟩
  | succ k ih =>
    rcases hr : s.current_req with _ | ⟨req, next⟩
    · simp [hr] at hreq
    · obtain ⟨slots1, hissue, hfits1, hqlen1⟩ :=
        session_issue_call_spec s.issues.length hfits (by omega)
      obtain ⟨slots2, hloop, hfits2, hqlen2⟩ := ih (s := { s with
        current_req := next
        slots := slots1
        issues := s.issues ++ [⟨new_call req, s.num_calls_destroyed, s.thinks⟩] }) hfits1
        (by simp only [hr, List.length_cons] at hreq; dsimp only; omega)
        (by dsimp only; omega)
      refine ⟨slots2, ?_, hfits2, by dsimp only at hqlen2; omega⟩
      simp only [issue_loop, hr, hissue, hloop, List.drop_succ_cons, List.take_succ_cons,
        List.map_cons, List.append_assoc, List.singleton_append]

theorem requests_append (as bs : List Burst) : requests (as ++ bs) = requests as ++ requests bs :=
  List.flatMap_append

theorem requests_cons (b : Burst) (bs : List Burst) :
    requests (b :: bs) = b.req_list ++ requests bs :=
  List.flatMap_cons

/-- The calls of the burst that is at work go on where the last ones ended. -/
theorem calls_append {done rest : List Burst} {b : Burst} {calls : List Call} {n : Nat} (k : Nat)
    (hb : t.bursts = done ++ b :: rest) (hcalls : calls <+: (requests t.bursts).map new_call)
    (hlen : calls.length = (requests done).length + n) (hn : n ≤ b.num_reqs) :
    calls ++ ((b.req_list.drop n).take k).map new_call <+: (requests t.bursts).map new_call := by
  have hall : requests t.bursts = requests done ++ (b.req_list ++ requests rest) := by
    rw [hb, requests_append, requests_cons]
  have hsplit : calls = (requests done ++ b.req_list.take n).map new_call := by
    rw [List.prefix_iff_eq_take.mp hcalls, hlen, ← List.map_take, hall,
      List.take_length_add_append, List.take_append_of_le_length hn]
  rw [hsplit, ← List.map_append, List.append_assoc, ← List.take_add, hall]
  apply List.IsPrefix.map
  rw [List.prefix_append_right_inj]
  exact (List.take_prefix _ _).trans (List.prefix_append _ _)

/-- The number of calls that `issue_calls` issues: one at the begin of a burst, and else what is
left of the burst or of the queue. -/
theorem issue_calls_number {s : Sess} {done rest : List Burst} {b : Burst}
    (hw : Working t s done b rest) (hmore : s.num_calls_in_this_burst < b.num_reqs)
    (hroom : session_current_qlen s.slots < session_max_qlen p) :
    ∃ k, issue_calls p s =
      issue_loop p k { s with num_calls_in_this_burst := s.num_calls_in_this_burst + k } ∧
      0 < k ∧ session_current_qlen s.slots + k ≤ session_max_qlen p ∧
      s.num_calls_in_this_burst + k ≤ b.num_reqs ∧ (s.num_calls_in_this_burst = 0 → k = 1) := by
  by_cases hzero : s.num_calls_in_this_burst = 0
  · refine ⟨1, ?_, by omega, by omega, by omega, fun _ => rfl⟩
    unfold issue_calls
    simp only [hzero, gt_iff_lt, Nat.lt_irrefl, if_false]
    rw [if_neg (by omega)]
  · refine ⟨min (b.num_reqs - s.num_calls_in_this_burst)
      (session_max_qlen p - session_current_qlen s.slots), ?_, by omega, by omega, by omega,
      fun hno => absurd hno hzero⟩
    unfold issue_calls
    simp only [if_pos (Nat.pos_of_ne_zero hzero), hw.current_burst]
    have hmin : (if session_max_qlen p - session_current_qlen s.slots <
          b.num_reqs - s.num_calls_in_this_burst
        then session_max_qlen p - session_current_qlen s.slots
        else b.num_reqs - s.num_calls_in_this_burst) =
        min (b.num_reqs - s.num_calls_in_this_burst)
          (session_max_qlen p - session_current_qlen s.slots) := by
      split <;> omega
    rw [hmin]

/-- `issue_calls` issues calls of the burst, as many as the queue takes, and one at least. -/
theorem issue_calls_spec {s : Sess} {done rest : List Burst} {b : Burst} (h : Sound p t s)
    (hw : Working t s done b rest) (hmore : s.num_calls_in_this_burst < b.num_reqs)
    (hroom : session_current_qlen s.slots < session_max_qlen p)
    (hfirst : s.num_calls_in_this_burst = 0 → s.num_calls_destroyed = (requests done).length)
    (hnext : 0 < s.num_calls_in_this_burst → (requests done).length < s.num_calls_destroyed) :
    ∃ s', issue_calls p s = .ok s' ∧ Sound p t s' ∧ Phase t s' ∧ SameCounts s s' := by
  obtain ⟨k, hk, hkpos, hkroom, hkburst, hkfirst⟩ := issue_calls_number hw hmore hroom
  have hreq : k ≤ s.current_req.length := by
    rw [hw.current_req, List.length_drop]
    have hnum : b.req_list.length = b.num_reqs := rfl
    omega
  obtain ⟨slots, hloop, hfits, hqlen⟩ := issue_loop_spec k (s := { s with
    num_calls_in_this_burst := s.num_calls_in_this_burst + k }) h.fits hreq hkroom
  rw [hk, hloop]
  have hlen : (s.current_req.take k).length = k := List.length_take_of_le hreq
  refine ⟨_, rfl, ⟨hfits, ?_, ?_, ?_, h.alive, h.total⟩, Or.inl ⟨done, b, rest, ?_, ?_⟩, rfl, rfl⟩
  · have hq := h.qlen
    simp only [List.length_append, List.length_map, hlen]
    dsimp only at hqlen
    omega
  · have hissued := hw.issued
    have happ := calls_append k hw.bursts h.calls (by simpa using hissued) hw.le
    simpa [hw.current_req, List.map_map, Function.comp_def] using happ
  · -- a call that goes out now
    intro i hi
    dsimp only at hi ⊢
    by_cases hold : i < s.issues.length
    · rw [List.getElem_append_left hold]
      exact h.inTime i hold
    · rw [List.getElem_append_right (Nat.le_of_not_lt hold), List.getElem_map]
      simp only [List.length_append, List.length_map, hlen] at hi
      have hissued := hw.issued
      refine ⟨done, b, rest, hw.bursts, by omega, by omega, hw.thinks, ?_, ?_⟩
      · intro heq
        dsimp only
        rw [hfirst (by omega), heq]
      · intro hlt
        dsimp only
        by_cases hzero : s.num_calls_in_this_burst = 0
        · have := hkfirst hzero
          omega
        · exact hnext (Nat.pos_of_ne_zero hzero)
  · refine ⟨hw.bursts, hw.timer, hw.current_burst, ?_, hkburst, ?_, hw.target, hw.behind, ?_,
      hw.thinks, hw.ref_count, hw.dec_refs⟩
    · dsimp only
      rw [hw.current_req, List.drop_drop]
    · have hissued := hw.issued
      simp only [List.length_append, List.length_map, hlen]
      omega
    · intro hlt
      dsimp only at hlt ⊢
      by_cases hzero : s.num_calls_in_this_burst = 0
      · have := hkfirst hzero
        omega
      · exact hnext (Nat.pos_of_ne_zero hzero)
  · dsimp only at hqlen ⊢
    omega

/-! ## One step -/

theorem total_eq {done rest : List Burst} {b : Burst} (hb : t.bursts = done ++ b :: rest) :
    t.total_num_reqs = (requests done).length + b.num_reqs + (requests rest).length := by
  unfold Template.total_num_reqs Burst.num_reqs
  rw [hb, requests_append, requests_cons, List.length_append, List.length_append, Nat.add_assoc]

theorem Sound.issued_le {s : Sess} (h : Sound p t s) : s.issues.length ≤ t.total_num_reqs := by
  have hle := h.calls.length_le
  simpa [Template.total_num_reqs] using hle

theorem sess_create_spec (p : SessionParam) (t : Template) :
    ∃ s, sess_create p t = .ok s ∧ Sound p t s ∧ Phase t s := by
  obtain ⟨b, rest, hb⟩ := List.exists_cons_of_ne_nil t.nonempty
  have hhead : t.bursts.head t.nonempty = b := by simp [hb]
  unfold sess_create
  rw [hhead]
  refine Exists.imp (fun _ h => ⟨h.1, h.2.1, h.2.2.1⟩)
    (@issue_calls_spec p t _ [] rest b ?_ ?_ ?_ ?_ ?_ ?_)
  · exact ⟨no_calls_fits p, by simp [no_calls_qlen], by simp, fun i hi => by simp at hi, rfl, rfl⟩
  · refine ⟨hb, rfl, hb, rfl, Nat.zero_le _, rfl, ?_, Nat.zero_le _, fun hlt => ?_, rfl, rfl, rfl⟩
    · simp [requests]
    · simp at hlt
  · exact b.num_reqs_pos
  · dsimp only
    rw [no_calls_qlen]
    exact session_max_qlen_pos p
  · exact fun _ => rfl
  · exact fun hlt => absurd hlt (Nat.lt_irrefl _)

/-- The last call is destroyed: the session gives up its reference. -/
theorem sess_dec_ref_spec {s : Sess} (h : Sound p t s)
    (href : s.ref_count = 1) (hdec : s.dec_refs = [])
    (hlast : t.total_num_reqs ≤ s.num_calls_destroyed) :
    ∃ s', sess_dec_ref p s = .ok s' ∧ Sound p t s' ∧ Phase t s' ∧ SameCounts s s' := by
  have hle := h.issued_le
  have hqlen := h.qlen
  have hflat : s.slots.flatten = [] := by
    rw [← List.length_eq_zero_iff, List.length_flatten]
    have hzero : session_current_qlen s.slots = 0 := by omega
    exact hzero
  have hdestroyed : s.num_calls_destroyed = t.total_num_reqs := by omega
  unfold sess_dec_ref
  rw [if_neg (by omega)]
  simp only [href, Nat.sub_self, if_true, hflat, List.foldlM_nil, hdec, List.nil_append]
  refine ⟨_, rfl, ⟨no_calls_fits p, ?_, h.calls, h.inTime, h.alive, h.total⟩,
    Or.inr (Or.inr ⟨rfl, no_calls_qlen p, ?_, hdestroyed, by rw [hdestroyed]⟩), rfl, rfl⟩
  · dsimp only
    rw [no_calls_qlen]
    omega
  · dsimp only
    omega

/-- A burst is over, and another one is left. -/
theorem prepare_for_next_burst_spec {s : Sess} {done rest : List Burst} {b : Burst}
    (h : Sound p t s) (hw : Working t s done b rest)
    (hfull : s.num_calls_in_this_burst = b.num_reqs)
    (hover : s.num_calls_target ≤ s.num_calls_destroyed)
    (hmore : s.num_calls_destroyed < t.total_num_reqs) :
    ∃ s', prepare_for_next_burst s = .ok s' ∧ Sound p t s' ∧ Phase t s' ∧ SameCounts s s' := by
  have htarget := hw.target
  have hissued := hw.issued
  have hqlen := h.qlen
  have htotal := total_eq hw.bursts
  rcases rest with _ | ⟨next, rest⟩
  · simp only [requests, List.flatMap_nil, List.length_nil] at htotal htarget hissued
    omega
  · have hdone : (requests (done ++ [b])).length = (requests done).length + b.num_reqs := by
      rw [requests_append, requests_cons, List.length_append, List.length_append]
      rfl
    unfold prepare_for_next_burst
    simp only [hw.current_burst, hw.timer, Option.isSome_none, Bool.false_eq_true, if_false]
    refine ⟨_, rfl, ⟨h.fits, hqlen, h.calls, h.inTime, h.alive, h.total⟩,
      Or.inr (Or.inl ⟨done ++ [b], next, rest, ?_, rfl, rfl, rfl, rfl, ?_, ?_, ?_, ?_,
        hw.ref_count, hw.dec_refs⟩), rfl, rfl⟩
    · rw [hw.bursts, List.append_assoc, List.singleton_append]
    · dsimp only
      omega
    · dsimp only
      omega
    · dsimp only
      omega
    · dsimp only
      rw [hw.thinks, List.length_append, List.length_singleton]

/-- A call is done and destroyed. -/
theorem completed_spec {s : Sess} {slots : List (List Nat)} {i : Nat} (h : Sound p t s)
    (hphase : Phase t s) (hdone : call_done i s.slots = some slots) :
    ∃ s', call_destroyed p { s with slots } = .ok s' ∧ Sound p t s' ∧ Phase t s' ∧
      s'.num_calls_destroyed = s.num_calls_destroyed + 1 ∧ s'.thinks = s.thinks := by
  obtain ⟨hfits, hq⟩ := call_done_spec h.fits hdone
  have hqlen := h.qlen
  have hmax := h.fits.qlen_le
  rcases hphase with ⟨done, b, rest, hw, _⟩ | ⟨done, b, rest, hthink⟩ | hended
  · have hissued := hw.issued
    have hbehind := hw.behind
    have h1 : Sound p t { s with slots, num_calls_destroyed := s.num_calls_destroyed + 1 } :=
      ⟨hfits, by dsimp only; omega, h.calls, h.inTime, h.alive, h.total⟩
    have hw1 : Working t { s with slots, num_calls_destroyed := s.num_calls_destroyed + 1 } done b
        rest :=
      ⟨hw.bursts, hw.timer, hw.current_burst, hw.current_req, hw.le, hw.issued, hw.target,
        Nat.le_succ_of_le hw.behind, fun _ => Nat.lt_succ_of_le hw.behind, hw.thinks, hw.ref_count,
        hw.dec_refs⟩
    unfold call_destroyed on_destroyed
    rw [if_neg (by simp [h.alive])]
    dsimp only
    split
    · rename_i hlast
      rw [h.total] at hlast
      exact sess_dec_ref_spec h1 hw.ref_count hw.dec_refs hlast
    · rename_i hmore
      rw [h.total] at hmore
      split
      · rename_i hnone
        rw [hw.current_burst] at hnone
        cases hnone
      · rename_i b' rest' hsome
        obtain ⟨rfl, rfl⟩ := List.cons.inj (hw.current_burst.symm.trans hsome)
        split
        · rename_i hburst
          apply issue_calls_spec h1 hw1 hburst
          · dsimp only
            omega
          · intro hzero
            dsimp only at hzero
            omega
          · exact fun _ => Nat.lt_succ_of_le hw.behind
        · rename_i hfull
          have hle := hw.le
          split
          · rename_i hover
            exact prepare_for_next_burst_spec h1 hw1 (by dsimp only; omega) hover
              (Nat.lt_of_not_le hmore)
          · rename_i hover
            refine ⟨_, rfl, h1, Or.inl ⟨done, b, rest, hw1, ?_⟩, rfl, rfl⟩
            have htarget := hw.target
            dsimp only
            omega
  · have hissued := hthink.issued
    have hbehind := hthink.behind
    omega
  · have hissued := hended.issued
    have hdestroyed := hended.destroyed
    omega

/-- The think timer expires. -/
theorem think_spec {s : Sess} {done rest : List Burst} {b : Burst} (h : Sound p t s)
    (hthink : Thinking t s done b rest) :
    ∃ s', user_think_time_expired p s = .ok s' ∧ Sound p t s' ∧ Phase t s' ∧
      s'.num_calls_destroyed = s.num_calls_destroyed ∧ s'.thinks = s.thinks + 1 := by
  have hissued := hthink.issued
  have hbehind := hthink.behind
  have hqlen := h.qlen
  have hpos := session_max_qlen_pos p
  unfold user_think_time_expired
  apply @issue_calls_spec p t _ done rest b
  · exact ⟨h.fits, h.qlen, h.calls, h.inTime, h.alive, h.total⟩
  · refine ⟨hthink.bursts, rfl, hthink.current_burst, ?_, ?_, ?_, hthink.target, ?_, ?_,
      hthink.thinks, hthink.ref_count, hthink.dec_refs⟩
    · simp [hthink.current_req, hthink.fresh]
    · simp [hthink.fresh]
    · simp [hthink.fresh, hissued]
    · exact Nat.le_of_eq hbehind.symm
    · simp [hthink.fresh]
  · simp [hthink.fresh, b.num_reqs_pos]
  · dsimp only
    omega
  · exact fun _ => hbehind
  · simp [hthink.fresh]

/-! ## All steps -/

/-- The session is well at any time. -/
def Well (p : SessionParam) (t : Template) (o : Except Abort Sess) : Prop :=
  ∃ s, o = .ok s ∧ Sound p t s ∧ Phase t s

/-- A step that does something leaves one thing less to come. -/
theorem step_moves {s : Sess} (h : Sound p t s) (hphase : Phase t s) {st : Step}
    (hmoves : s.moves st = true) :
    ∃ s', step p (.ok s) st = .ok s' ∧ Sound p t s' ∧ Phase t s' ∧
    toCome t s' + 1 = toCome t s := by
  unfold toCome
  cases st with
  | completed i =>
    obtain ⟨slots, hdone⟩ := Option.isSome_iff_exists.mp hmoves
    obtain ⟨s', hok, hsound, hphase', hdestroyed, hthinks⟩ := completed_spec h hphase hdone
    refine ⟨s', by simp [step, Except.bind, hdone, hok], hsound, hphase', ?_⟩
    have hpending := (call_done_spec h.fits hdone).2
    have hqlen := h.qlen
    have hle := h.issued_le
    omega
  | think =>
    have htimer : s.timer.isSome = true := hmoves
    rcases hphase with ⟨done, b, rest, hw, _⟩ | ⟨done, b, rest, hthink⟩ | hended
    · rw [hw.timer] at htimer
      cases htimer
    · obtain ⟨s', hok, hsound, hphase', hdestroyed, hthinks⟩ := think_spec h hthink
      refine ⟨s', by simp [step, Except.bind, htimer, hok], hsound, hphase', ?_⟩
      have hbefore := hthink.thinks
      have hbursts := congrArg List.length hthink.bursts
      rw [List.length_append, List.length_cons] at hbursts
      omega
    · rw [hended.timer] at htimer
      cases htimer

theorem step_still {s : Sess} {st : Step} (hstill : s.moves st = false) :
    step p (.ok s) st = .ok s := by
  cases st with
  | completed i =>
    have hnone : call_done i s.slots = none :=
      Option.isNone_iff_eq_none.mp (by simpa [Sess.moves] using hstill)
    simp [step, Except.bind, hnone]
  | think =>
    have htimer : s.timer.isSome = false := hstill
    simp [step, Except.bind, htimer]

theorem step_well (o : Except Abort Sess) (st : Step) (h : Well p t o) :
    Well p t (step p o st) := by
  obtain ⟨s, rfl, hsound, hphase⟩ := h
  cases hmoves : s.moves st with
  | true =>
    obtain ⟨s', hok, hsound', hphase', -⟩ := step_moves hsound hphase hmoves
    exact ⟨s', hok, hsound', hphase'⟩
  | false => exact ⟨s, step_still hmoves, hsound, hphase⟩

/-- Until the end there is something to do. -/
theorem exists_moves {s : Sess} (hphase : Phase t s) (hdec : s.dec_refs = []) :
    ∃ st, s.moves st = true := by
  rcases hphase with ⟨done, b, rest, _, hpending⟩ | ⟨done, b, rest, hthink⟩ | hended
  · obtain ⟨i, slots, hdone⟩ := exists_call_done hpending
    exact ⟨.completed i, by simp [Sess.moves, hdone]⟩
  · exact ⟨.think, hthink.timer⟩
  · rw [hended.dec_refs] at hdec
    cases hdec

theorem finished_of_phase {s : Sess} (h : Sound p t s) (hphase : Phase t s)
    (hdec : s.dec_refs ≠ []) :
    Finished t s := by
  rcases hphase with ⟨done, b, rest, hw, _⟩ | ⟨done, b, rest, hthink⟩ | hended
  · exact absurd hw.dec_refs hdec
  · exact absurd hthink.dec_refs hdec
  · refine ⟨h.calls.eq_of_length ?_, hended.destroyed, hended.dec_refs⟩
    rw [List.length_map, List.length_map, hended.issued]
    rfl

/-- The server can answer the calls, and the user think, until the session is over. -/
theorem finishes {s : Sess} (h : Sound p t s) (hphase : Phase t s) :
    ∃ more s', Runs.run (step p) (.ok s) more = .ok s' ∧ Finished t s' := by
  let rank (o : Except Abort Sess) : Nat := o.toOption.elim 0 (toCome t)
  have hstep : ∀ o, Well p t o → ¬ (∃ s, o = .ok s ∧ s.dec_refs ≠ []) →
      ∃ st, Well p t (step p o st) ∧ rank (step p o st) < rank o := by
    rintro o ⟨s, rfl, hsound, hphase⟩ hnot
    have hdec : s.dec_refs = [] := by
      by_contra hdec
      exact hnot ⟨s, rfl, hdec⟩
    obtain ⟨st, hmoves⟩ := exists_moves hphase hdec
    obtain ⟨s', hok, hsound', hphase', hless⟩ := step_moves hsound hphase hmoves
    refine ⟨st, ⟨s', hok, hsound', hphase'⟩, ?_⟩
    rw [hok]
    exact Nat.lt_of_succ_le (Nat.le_of_eq hless)
  have hwell : Well p t (.ok s) := ⟨s, rfl, h, hphase⟩
  obtain ⟨more, ⟨s', hrun, hsound, hphase⟩, s'', hover, hdec⟩ := Runs.exists_done rank hstep hwell
  obtain rfl := Except.ok.inj (hrun.symm.trans hover)
  exact ⟨more, s', hrun, finished_of_phase hsound hphase hdec⟩

theorem replays_of_phase {s : Sess} (h : Sound p t s) (hphase : Phase t s) : Replays p t s where
  calls := h.calls
  inTime := h.inTime
  ended := finished_of_phase h hphase
  going := exists_moves hphase
  lowers := fun _ hmoves =>
    Exists.imp (fun _ hs' => ⟨hs'.1, hs'.2.2.2⟩) (step_moves h hphase hmoves)
  finishes := finishes h hphase

theorem run_replays (p : SessionParam) (t : Template) (steps : List Step) :
    ∃ s, run p t steps = .ok s ∧ Replays p t s := by
  have hall : Runs.Always (step p) (Well p t) (sess_create p t) steps :=
    Runs.always_of_step step_well (sess_create_spec p t) steps
  obtain ⟨s, hrun, hsound, hphase⟩ := hall.last
  exact ⟨s, hrun, replays_of_phase hsound hphase⟩

/-- A burst of three requests and one of a single request. -/
def threeAndOne : Template where
  bursts := [⟨5, [⟨.HM_GET, bytes "/a", [], []⟩, ⟨.HM_GET, bytes "/b", [], []⟩,
      ⟨.HM_POST, bytes "/c", bytes "x", bytes "Content-length: 1\r\n"⟩], by decide⟩,
    ⟨0, [⟨.HM_HEAD, bytes "/d", [], []⟩], by decide⟩]
  nonempty := by decide

end Httperf.WsessLog
