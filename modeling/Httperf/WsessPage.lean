-- Sessions that fetch pages with their embedded objects (`wsesspage.c`). The end of a burst is
-- found by two counters: the calls created in this burst, and the calls destroyed in the session.
import Httperf.Clib
import Httperf.Lib.Runs
import Httperf.SessionQueue

namespace Httperf.WsessPage

structure Param extends SessionParam where
  num_reqs : Nat
  think_time : Nat

/-- A call: the URI of an embedded object, or the page. -/
abbrev Call := Option (List Byte)

/-- The session with its private data. The fields behind `slots` are not in the source. `earlier`
is the number of calls that the bursts before this one destroyed, `bursts` counts the bursts,
`completions` says how many calls were pending whenever `num_reqs_completed` grew, and `timers` and
`dec_refs` count the calls of `timer_schedule` and of `sess_dec_ref`. -/
structure Sess where
  num_created : Nat
  num_destroyed : Nat
  num_reqs_completed : Nat
  timer : Option Nat
  uri_list : List (List Byte)
  failed : Bool
  ref_count : Nat
  slots : List (List Call)
  earlier : Nat
  bursts : Nat
  completions : List Nat
  timers : Nat
  dec_refs : Nat

/-- How the program can end. -/
inductive Abort where
  | too_many_calls_pending
  | assert_no_timer
  | assert_ref_count
  deriving DecidableEq, Repr

variable (p : Param)

/-- The loop of `issue_calls`. -/
def issue_loop (embedded : Bool) : Nat → Sess → Except Abort Sess
  | 0, s => .ok s
  | i + 1, s =>
    if !embedded || !s.uri_list.isEmpty then
      let call := if embedded then s.uri_list.head? else none
      match session_issue_call p.toSessionParam call s.slots with
      | none => .error .too_many_calls_pending
      | some slots => issue_loop embedded i { s with
          num_created := s.num_created + 1
          uri_list := if embedded then s.uri_list.tail else s.uri_list
          slots }
    else .ok s

def issue_calls (s : Sess) : Except Abort Sess :=
  if s.num_created > 0 then
    issue_loop p true (session_max_qlen p.toSessionParam - session_current_qlen s.slots) s
  else issue_loop p false 1 s

/-- `fetch_uri`, for a URI that is on the server. -/
def fetch_uri (uri : List Byte) (s : Sess) : Except Abort Sess :=
  issue_calls p { s with uri_list := uri :: s.uri_list }

def user_think_time_expired (s : Sess) : Except Abort Sess :=
  issue_calls p { s with timer := none, bursts := s.bursts + 1 }

/-- The handler of `EV_CALL_DESTROYED`, where `dec_ref` is what `sess_dec_ref` does. -/
def on_destroyed (dec_ref : Sess → Except Abort Sess) (s : Sess) : Except Abort Sess :=
  let s1 := { s with num_destroyed := s.num_destroyed + 1 }
  if s1.failed then .ok s1
  else if s1.uri_list ≠ [] then issue_calls p s1
  else if s1.num_destroyed ≥ s1.num_created then
    let s2 := { s1 with
      num_reqs_completed := s1.num_reqs_completed + 1
      completions := s1.completions ++ [session_current_qlen s1.slots] }
    if s2.num_reqs_completed ≥ p.num_reqs then dec_ref s2
    else if s2.timer.isSome then .error .assert_no_timer
    else .ok { s2 with
      num_created := 0
      timer := some p.think_time
      timers := s2.timers + 1
      earlier := s2.num_destroyed }
  else .ok s1

/-- `sess_dec_ref`. The last reference takes the timer and the pending calls with it. While these
are destroyed the count is 0, and the assertion of `object_dec_ref` fails. -/
def sess_dec_ref (s : Sess) : Except Abort Sess :=
  if s.ref_count = 0 then .error .assert_ref_count
  else
    let s1 := { s with ref_count := s.ref_count - 1, dec_refs := s.dec_refs + 1 }
    if s1.ref_count = 0 then
      s.slots.flatten.foldlM (fun s _ => on_destroyed p (fun _ => .error .assert_ref_count) s)
        { s1 with timer := none, slots := no_calls p.toSessionParam }
    else .ok s1

def call_destroyed (s : Sess) : Except Abort Sess := on_destroyed p (sess_dec_ref p) s

def sess_create : Except Abort Sess :=
  issue_calls p {
    num_created := 0
    num_destroyed := 0
    num_reqs_completed := 0
    timer := none
    uri_list := []
    failed := false
    ref_count := 1
    slots := no_calls p.toSessionParam
    earlier := 0
    bursts := 1
    completions := []
    timers := 0
    dec_refs := 0 }

/-! ## Runs -/

/-- What happens to a session without failures. -/
inductive Step where
  /-- the reply to the call in front of the connection `i` names an object of the page -/
  | found (i : Nat) (uri : List Byte)
  /-- the reply to the call in front of the connection `i` is there, and the call is destroyed -/
  | completed (i : Nat)
  /-- the think timer expires, if it is armed -/
  | think
  deriving DecidableEq, Repr

def step (s : Except Abort Sess) (st : Step) : Except Abort Sess :=
  s.bind fun s =>
    match st with
    | .found i uri =>
      match call_done i s.slots with
      | none => .ok s
      | some _ => fetch_uri p uri s
    | .completed i =>
      match call_done i s.slots with
      | none => .ok s
      | some slots => call_destroyed p { s with slots }
    | .think => if s.timer.isSome then user_think_time_expired p s else .ok s

def run (steps : List Step) : Except Abort Sess := Runs.run (step p) (sess_create p) steps

/-- Each burst is counted once, when its last call is destroyed and no URI waits, and the session
ends once, with its last burst. -/
structure Counted (s : Sess) : Prop where
  complete : ∀ pending ∈ s.completions, pending = 0
  once :
    s.completions.length + (if session_current_qlen s.slots > 0 ∨ s.uri_list ≠ [] then 1 else 0) =
    s.bursts
  count : s.num_reqs_completed = s.completions.length
  timers : s.timers + s.dec_refs = s.completions.length
  ended : s.dec_refs = if 0 < s.completions.length ∧ p.num_reqs ≤ s.completions.length then 1 else 0

/-- No assertion fails, and the bursts are counted. -/
def Right : Except Abort Sess → Prop
  | .error _ => False
  | .ok s => Counted p s

/-- While other calls of the burst are pending, no call is destroyed that leaves no URI and no
more pending calls than the bursts before destroyed. -/
def Spared : Except Abort Sess → Step → Prop
  | .ok s, .completed i => call_done i s.slots ≠ none → s.uri_list = [] →
      1 < session_current_qlen s.slots → s.earlier + 1 < session_current_qlen s.slots
  | _, _ => True

/-! ## The phases of a session -/

/-- What holds of a session whose bursts were counted so far. -/
structure Sound (s : Sess) : Prop where
  fits : Fits p.toSessionParam s.slots
  alive : s.failed = false
  complete : ∀ pending ∈ s.completions, pending = 0
  count : s.num_reqs_completed = s.completions.length

/-- Some calls of the burst are pending. -/
structure Working (s : Sess) : Prop where
  pending : 0 < session_current_qlen s.slots
  timer : s.timer = none
  created : s.num_destroyed + session_current_qlen s.slots = s.earlier + s.num_created
  earlier : s.earlier ≤ s.num_destroyed
  bursts : s.completions.length + 1 = s.bursts
  more : s.completions.length = 0 ∨ s.completions.length < p.num_reqs
  timers : s.timers = s.completions.length
  ref_count : s.ref_count = 1
  dec_refs : s.dec_refs = 0

/-- The user thinks. -/
structure Thinking (s : Sess) : Prop where
  idle : session_current_qlen s.slots = 0
  uri_list : s.uri_list = []
  created : s.num_created = 0
  earlier : s.earlier = s.num_destroyed
  bursts : s.completions.length = s.bursts
  more : s.completions.length < p.num_reqs
  timers : s.timers = s.completions.length
  ref_count : s.ref_count = 1
  dec_refs : s.dec_refs = 0

/-- The session is over. -/
structure Ended (s : Sess) : Prop where
  idle : session_current_qlen s.slots = 0
  uri_list : s.uri_list = []
  timer : s.timer = none
  bursts : s.completions.length = s.bursts
  last : 0 < s.completions.length ∧ p.num_reqs ≤ s.completions.length
  timers : s.timers + 1 = s.completions.length
  dec_refs : s.dec_refs = 1

def Phase (s : Sess) : Prop := Working p s ∨ Thinking p s ∨ Ended p s

variable {p}

theorem counted_of_phase {s : Sess} (h : Sound p s) (hphase : Phase p s) : Counted p s := by
  refine ⟨h.complete, ?_, h.count, ?_, ?_⟩
  · rcases hphase with hw | ht | he
    · rw [if_pos (Or.inl hw.pending), hw.bursts]
    · rw [if_neg (by simp [ht.idle, ht.uri_list]), Nat.add_zero, ht.bursts]
    · rw [if_neg (by simp [he.idle, he.uri_list]), Nat.add_zero, he.bursts]
  · rcases hphase with hw | ht | he
    · rw [hw.timers, hw.dec_refs, Nat.add_zero]
    · rw [ht.timers, ht.dec_refs, Nat.add_zero]
    · rw [he.dec_refs, he.timers]
  · rcases hphase with hw | ht | he
    · have hmore := hw.more
      rw [hw.dec_refs, if_neg (by omega)]
    · have hmore := ht.more
      rw [ht.dec_refs, if_neg (by omega)]
    · rw [he.dec_refs, if_pos he.last]

/-! ## Issuing calls -/

/-- The loop of `issue_calls` for embedded objects: it takes URIs as long as there are some. -/
theorem issue_loop_embedded (n : Nat) {s : Sess} (hfits : Fits p.toSessionParam s.slots)
    (hroom : session_current_qlen s.slots + n ≤ session_max_qlen p.toSessionParam) :
    ∃ slots, issue_loop p true n s = .ok { s with
        num_created := s.num_created + min n s.uri_list.length
        uri_list := s.uri_list.drop n
        slots } ∧
      Fits p.toSessionParam slots ∧
      session_current_qlen slots = session_current_qlen s.slots + min n s.uri_list.length := by
  induction n generalizing s with
  | zero => exact ⟨s.slots, by simp [issue_loop], hfits, by simp⟩
  | succ n ih =>
    rcases hu : s.uri_list with _ | ⟨uri, rest⟩
    · refine ⟨s.slots, ?_, hfits, by simp⟩
      cases s
      dsimp only at hu
      subst hu
      simp [issue_loop]
    · obtain ⟨slots1, hissue, hfits1, hqlen1⟩ :=
        session_issue_call_spec (some uri) hfits (by omega)
      obtain ⟨slots2, hloop, hfits2, hqlen2⟩ := ih (s := { s with
        num_created := s.num_created + 1
        uri_list := rest
        slots := slots1 }) hfits1 (by dsimp only; omega)
      refine ⟨slots2, ?_, hfits2, ?_⟩
      · simp only [issue_loop, hu, List.isEmpty_cons, Bool.not_false, Bool.or_true, if_true,
          List.head?_cons, hissue, List.tail_cons, hloop, List.drop_succ_cons, List.length_cons]
        simp only [Except.ok.injEq, Sess.mk.injEq, and_true]
        omega
      · dsimp only at hqlen2
        simp only [List.length_cons]
        omega

/-- What is known of a session in a burst, before `issue_calls` looks at the URIs. -/
theorem issue_calls_working {s : Sess} (h : Sound p s) (hcreated : 0 < s.num_created)
    (hpending : 0 < session_current_qlen s.slots ∨ s.uri_list ≠ []) (htimer : s.timer = none)
    (hsum : s.num_destroyed + session_current_qlen s.slots = s.earlier + s.num_created)
    (hearlier : s.earlier ≤ s.num_destroyed) (hbursts : s.completions.length + 1 = s.bursts)
    (hmore : s.completions.length = 0 ∨ s.completions.length < p.num_reqs)
    (htimers : s.timers = s.completions.length) (href : s.ref_count = 1) (hdec : s.dec_refs = 0) :
    ∃ s', issue_calls p s = .ok s' ∧ Sound p s' ∧ Phase p s' := by
  have hle := h.fits.qlen_le
  have hpos := session_max_qlen_pos p.toSessionParam
  obtain ⟨slots, hloop, hfits, hqlen⟩ := issue_loop_embedded
    (session_max_qlen p.toSessionParam - session_current_qlen s.slots) h.fits (by omega)
  unfold issue_calls
  rw [if_pos hcreated, hloop]
  refine ⟨_, rfl, ⟨hfits, h.alive, h.complete, h.count⟩,
    Or.inl ⟨?_, htimer, ?_, hearlier, hbursts, hmore, htimers, href, hdec⟩⟩
  · dsimp only
    rcases hpending with hpending | huri
    · omega
    · have hlen := List.length_pos_iff.mpr huri
      omega
  · dsimp only
    omega

/-- The first call of a burst goes out alone. -/
theorem issue_calls_page {s : Sess} (h : Sound p s) (hcreated : s.num_created = 0)
    (hidle : session_current_qlen s.slots = 0) (htimer : s.timer = none)
    (hearlier : s.earlier = s.num_destroyed) (hbursts : s.completions.length + 1 = s.bursts)
    (hmore : s.completions.length = 0 ∨ s.completions.length < p.num_reqs)
    (htimers : s.timers = s.completions.length) (href : s.ref_count = 1) (hdec : s.dec_refs = 0) :
    ∃ s', issue_calls p s = .ok s' ∧ Sound p s' ∧ Phase p s' := by
  have hpos := session_max_qlen_pos p.toSessionParam
  obtain ⟨slots, hissue, hfits, hqlen⟩ :=
    session_issue_call_spec (none : Call) h.fits (by omega)
  unfold issue_calls
  rw [if_neg (by omega)]
  simp only [issue_loop, Bool.not_false, Bool.true_or, if_true, Bool.false_eq_true,
    if_false, hissue]
  refine ⟨_, rfl, ⟨hfits, h.alive, h.complete, h.count⟩,
    Or.inl ⟨?_, htimer, ?_, Nat.le_of_eq hearlier, hbursts, hmore, htimers, href, hdec⟩⟩
  · dsimp only
    omega
  · dsimp only
    omega

/-! ## One step -/

theorem sess_create_spec (p : Param) :
    ∃ s, sess_create p = .ok s ∧ Sound p s ∧ Phase p s := by
  unfold sess_create
  apply issue_calls_page
  · exact ⟨no_calls_fits _, rfl, by simp, rfl⟩
  · rfl
  · exact no_calls_qlen _
  · rfl
  · rfl
  · rfl
  · exact Or.inl rfl
  · rfl
  · rfl
  · rfl

theorem found_spec {s : Sess} {i : Nat} {slots : List (List Call)} (uri : List Byte)
    (h : Sound p s) (hphase : Phase p s) (hdone : call_done i s.slots = some slots) :
    ∃ s', fetch_uri p uri s = .ok s' ∧ Sound p s' ∧ Phase p s' := by
  obtain ⟨_, hq⟩ := call_done_spec h.fits hdone
  rcases hphase with hw | ht | he
  · have hsum := hw.created
    have hearlier := hw.earlier
    have hcreated : 0 < s.num_created := by omega
    unfold fetch_uri
    exact issue_calls_working ⟨h.fits, h.alive, h.complete, h.count⟩ hcreated (Or.inr (by simp))
      hw.timer hw.created hw.earlier hw.bursts hw.more hw.timers hw.ref_count hw.dec_refs
  · have hidle := ht.idle
    omega
  · have hidle := he.idle
    omega

theorem think_spec {s : Sess} (h : Sound p s) (ht : Thinking p s) :
    ∃ s', user_think_time_expired p s = .ok s' ∧ Sound p s' ∧ Phase p s' := by
  unfold user_think_time_expired
  apply issue_calls_page
  · exact ⟨h.fits, h.alive, h.complete, h.count⟩
  · exact ht.created
  · exact ht.idle
  · rfl
  · exact ht.earlier
  · exact congrArg (· + 1) ht.bursts
  · exact Or.inr ht.more
  · exact ht.timers
  · exact ht.ref_count
  · exact ht.dec_refs

/-- The last call of a burst is destroyed. -/
theorem burst_over_spec {s : Sess} {slots : List (List Call)} (h : Sound p s) (hw : Working p s)
    (hfits : Fits p.toSessionParam slots) (hidle : session_current_qlen slots = 0)
    (huri : s.uri_list = []) (hover : s.num_destroyed + 1 ≥ s.num_created) :
    ∃ s', call_destroyed p { s with slots } = .ok s' ∧ Sound p s' ∧ Phase p s' := by
  have hcomplete : ∀ pending ∈ s.completions ++ [session_current_qlen slots], pending = 0 := by
    intro pending hmem
    rcases List.mem_append.mp hmem with hmem | hmem
    · exact h.complete pending hmem
    · rw [List.mem_singleton.mp hmem, hidle]
  have hcount := h.count
  have hbursts := hw.bursts
  have htimers := hw.timers
  unfold call_destroyed on_destroyed
  dsimp only
  rw [if_neg (by simp [h.alive]), if_neg (by simp [huri]), if_pos hover]
  split
  · -- this was the last burst
    rename_i hlast
    have hflat : slots.flatten = [] := by
      rw [← List.length_eq_zero_iff, List.length_flatten]
      exact hidle
    unfold sess_dec_ref
    dsimp only
    rw [if_neg (by rw [hw.ref_count]; simp), if_pos (by rw [hw.ref_count]), hflat]
    refine ⟨_, rfl, ⟨no_calls_fits _, h.alive, hcomplete, ?_⟩,
      Or.inr (Or.inr ⟨no_calls_qlen _, huri, rfl, ?_, ⟨?_, ?_⟩, ?_, ?_⟩)⟩
    · simp [hcount]
    · simpa using hbursts
    · simp
    · simp only [List.length_append, List.length_singleton]
      omega
    · simp [htimers]
    · simp [hw.dec_refs]
  · rename_i hmore
    rw [if_neg (by simp [hw.timer])]
    refine ⟨_, rfl, ⟨hfits, h.alive, hcomplete, ?_⟩,
      Or.inr (Or.inl ⟨hidle, huri, rfl, rfl, ?_, ?_, ?_, hw.ref_count, hw.dec_refs⟩)⟩
    · simp [hcount]
    · simpa using hbursts
    · simp only [List.length_append, List.length_singleton]
      omega
    · simp [htimers]

theorem completed_spec {s : Sess} {i : Nat} {slots : List (List Call)} (h : Sound p s)
    (hphase : Phase p s) (hdone : call_done i s.slots = some slots)
    (hspared : s.uri_list = [] → 1 < session_current_qlen s.slots →
      s.earlier + 1 < session_current_qlen s.slots) :
    ∃ s', call_destroyed p { s with slots } = .ok s' ∧ Sound p s' ∧ Phase p s' := by
  obtain ⟨hfits, hq⟩ := call_done_spec h.fits hdone
  rcases hphase with hw | ht | he
  · have hsum := hw.created
    have hearlier := hw.earlier
    by_cases huri : s.uri_list = []
    · by_cases hover : s.num_destroyed + 1 ≥ s.num_created
      · have hidle : session_current_qlen slots = 0 := by
          by_contra hno
          have := hspared huri (by omega)
          omega
        exact burst_over_spec h hw hfits hidle huri hover
      · unfold call_destroyed on_destroyed
        dsimp only
        rw [if_neg (by simp [h.alive]), if_neg (by simp [huri]), if_neg hover]
        refine ⟨_, rfl, ⟨hfits, h.alive, h.complete, h.count⟩, Or.inl ⟨?_, hw.timer, ?_, ?_,
          hw.bursts, hw.more, hw.timers, hw.ref_count, hw.dec_refs⟩⟩
        · dsimp only
          omega
        · dsimp only
          omega
        · dsimp only
          omega
    · unfold call_destroyed on_destroyed
      dsimp only
      rw [if_neg (by simp [h.alive]), if_pos huri]
      apply issue_calls_working
      · exact ⟨hfits, h.alive, h.complete, h.count⟩
      · dsimp only
        omega
      · exact Or.inr huri
      · exact hw.timer
      · dsimp only
        omega
      · dsimp only
        omega
      · exact hw.bursts
      · exact hw.more
      · exact hw.timers
      · exact hw.ref_count
      · exact hw.dec_refs
  · have hidle := ht.idle
    omega
  · have hidle := he.idle
    omega

/-- A burst that ends while calls of it are pending. -/
theorem completed_too_early {s : Sess} {i : Nat} {slots : List (List Call)} (h : Sound p s)
    (hphase : Phase p s) (hdone : call_done i s.slots = some slots) (huri : s.uri_list = [])
    (hpending : 1 < session_current_qlen s.slots)
    (hbad : session_current_qlen s.slots ≤ s.earlier + 1) :
    ¬ Right p (call_destroyed p { s with slots }) := by
  obtain ⟨hfits, hq⟩ := call_done_spec h.fits hdone
  rcases hphase with hw | ht | he
  · have hsum := hw.created
    have hover : s.num_destroyed + 1 ≥ s.num_created := by omega
    unfold call_destroyed on_destroyed
    dsimp only
    rw [if_neg (by simp [h.alive]), if_neg (by simp [huri]), if_pos hover]
    split
    · -- the pending calls are destroyed with the session, and end it once more
      rename_i hlast
      obtain ⟨c, rest, hflat⟩ : ∃ c rest, slots.flatten = c :: rest := by
        apply List.exists_cons_of_ne_nil
        rw [← List.length_pos_iff, List.length_flatten]
        have hpos : 0 < session_current_qlen slots := by omega
        exact hpos
      unfold sess_dec_ref
      dsimp only
      rw [if_neg (by rw [hw.ref_count]; simp), if_pos (by rw [hw.ref_count]), hflat,
        List.foldlM_cons]
      have hdead : on_destroyed p (fun _ => .error .assert_ref_count) { s with
          num_destroyed := s.num_destroyed + 1
          num_reqs_completed := s.num_reqs_completed + 1
          timer := none
          ref_count := s.ref_count - 1
          slots := no_calls p.toSessionParam
          completions := s.completions ++ [session_current_qlen slots]
          dec_refs := s.dec_refs + 1 } = .error .assert_ref_count := by
        unfold on_destroyed
        dsimp only
        rw [if_neg (by simp [h.alive]), if_neg (by simp [huri]), if_pos (by omega),
          if_pos (by omega)]
      rw [hdead]
      exact id
    · rw [if_neg (by simp [hw.timer])]
      intro hright
      have hzero := hright.complete (session_current_qlen slots) (by simp)
      omega
  · have hidle := ht.idle
    omega
  · have hidle := he.idle
    omega

/-! ## All steps -/

/-- The session is well. -/
def Well (p : Param) (o : Except Abort Sess) : Prop := ∃ s, o = .ok s ∧ Sound p s ∧ Phase p s

theorem step_well (o : Except Abort Sess) (st : Step) (h : Well p o) (hspared : Spared o st) :
    Well p (step p o st) := by
  obtain ⟨s, rfl, hsound, hphase⟩ := h
  cases st with
  | found i uri =>
    rcases hdone : call_done i s.slots with _ | slots
    · exact ⟨s, by simp [step, Except.bind, hdone], hsound, hphase⟩
    · have hspec := found_spec uri hsound hphase hdone
      simpa [step, Except.bind, hdone, Well] using hspec
  | completed i =>
    rcases hdone : call_done i s.slots with _ | slots
    · exact ⟨s, by simp [step, Except.bind, hdone], hsound, hphase⟩
    · have hspec := completed_spec hsound hphase hdone (hspared (by simp [hdone]))
      simpa [step, Except.bind, hdone, Well] using hspec
  | think =>
    by_cases htimer : s.timer.isSome = true
    · rcases hphase with hw | ht | he
      · rw [hw.timer] at htimer
        cases htimer
      · have hspec := think_spec hsound ht
        simpa [step, Except.bind, htimer, Well] using hspec
      · rw [he.timer] at htimer
        cases htimer
    · exact ⟨s, by simp [step, Except.bind, htimer], hsound, hphase⟩

theorem step_wrong (o : Except Abort Sess) (st : Step) (h : Well p o) (hno : ¬ Spared o st) :
    ¬ Right p (step p o st) := by
  obtain ⟨s, rfl, hsound, hphase⟩ := h
  cases st with
  | found i uri => exact absurd trivial hno
  | completed i =>
    simp only [Spared, Classical.not_imp] at hno
    obtain ⟨hsome, huri, hpending, hbad⟩ := hno
    obtain ⟨slots, hdone⟩ := Option.ne_none_iff_exists'.mp hsome
    have hwrong := completed_too_early hsound hphase hdone huri hpending (by omega)
    simpa [step, Except.bind, hdone] using hwrong
  | think => exact absurd trivial hno

/-- Each user request is counted once, at the end of its burst, exactly when no call is destroyed
while the calls of the burst that are still pending are no more than those that earlier bursts
destroyed. -/
theorem each_burst_counts_once_iff (p : Param) (steps : List Step) :
    Runs.Always (step p) (Right p) (sess_create p) steps ↔
      Runs.Meets (step p) Spared (sess_create p) steps := by
  apply Runs.always_iff_meets_of_invariant (Q := Well p)
  · rintro _ ⟨s, rfl, hsound, hphase⟩
    exact counted_of_phase hsound hphase
  · exact step_well
  · exact step_wrong
  · exact sess_create_spec p

/-- Two requests for a page with two objects: in the second burst the page is destroyed and then
one of the two objects. The burst ends with the other object pending. -/
theorem second_burst_ends_early :
    ¬ Right ⟨⟨4, 1, by decide, by decide⟩, 2, 0⟩
      (run ⟨⟨4, 1, by decide, by decide⟩, 2, 0⟩
        [.found 0 (bytes "/a"), .found 0 (bytes "/b"), .completed 0, .completed 1, .completed 2,
          .think, .found 0 (bytes "/a"), .found 0 (bytes "/b"), .completed 0, .completed 1]) := by
  have hrun : run ⟨⟨4, 1, by decide, by decide⟩, 2, 0⟩
      [.found 0 (bytes "/a"), .found 0 (bytes "/b"), .completed 0, .completed 1, .completed 2,
        .think, .found 0 (bytes "/a"), .found 0 (bytes "/b"), .completed 0, .completed 1] =
      .error .assert_ref_count := rfl
  rw [hrun]
  exact id

end Httperf.WsessPage
