-- How `main` puts the program together: which generators and collectors it chooses, what each of
-- them asks of `localevent.c` and `object.c` when it is initialized, and who is told of an event
-- then.
import Mathlib.Data.List.Basic
import Mathlib.Data.List.Count
import Mathlib.Data.List.Induction

namespace Httperf.Wiring

/-! ## The choice of the modules -/

/-- The collectors, the generators, and the two modules that the generators are made with. -/
inductive Module where
  | stats_basic
  | session_stat
  | stats_print_reply
  | call_seq
  | uri_fixed
  | conn_rate
  | uri_wlog
  | uri_wset
  | wsess
  | wsesspage
  | wsesslog
  | sess_cookie
  | misc
  | session
  | rate
  deriving DecidableEq

/-- The options that choose a generator, as they come. -/
inductive Choice where
  | wlog
  | wset
  | wsess
  | wsesspage
  | wsesslog
  deriving DecidableEq

/-- `PRINT_HEADER` and `PRINT_BODY`. -/
structure Print where
  header : Bool
  body : Bool
  deriving DecidableEq

/-- The parameters that choose modules too, as they are after the options. `paced` says that
`rate_param` is positive, and a string says only whether it is there. -/
structure Param where
  print_request : Print
  print_reply : Print
  session_cookies : Bool
  additional_header : Bool
  additional_header_file : Bool
  method : Bool
  paced : Bool

/-- The variables of `main`. A slot that holds NULL is `none`. -/
structure Main where
  gen : List (Option Module)
  num_gen : Nat
  stat : List (Option Module)
  num_stats : Nat
  session_workload : Bool

def Main.init : Main where
  gen := [some .call_seq, some .uri_fixed, some .conn_rate, none, none]
  num_gen := 3
  stat := [some .stats_basic, none, none]
  num_stats := 1
  session_workload := false

/-- A write behind the end of an array has no result. -/
def write (slots : List (Option Module)) (i : Nat) (m : Module) : Option (List (Option Module)) :=
  if i < slots.length then some (slots.set i (some m)) else none

/-- What the options of the three session workloads have in common. -/
def session_option (m : Module) (num_gen : Nat) (s : Main) : Option Main := do
  let gen ← write s.gen 0 m
  let stat ← write s.stat s.num_stats .session_stat
  return { gen, num_gen, stat, num_stats := s.num_stats + 1, session_workload := true }

def choose (s : Main) : Choice → Option Main
  | .wlog => (write s.gen 1 .uri_wlog).map fun gen => { s with gen }
  | .wset => (write s.gen 1 .uri_wset).map fun gen => { s with gen }
  | .wsess => session_option .wsess 2 s
  | .wsesspage => session_option .wsesspage 2 s
  | .wsesslog => session_option .wsesslog 1 s

/-- `stat[num_stats++] = m`. -/
def add_stat (m : Module) (s : Main) : Option Main :=
  (write s.stat s.num_stats m).map fun stat => { s with stat, num_stats := s.num_stats + 1 }

/-- `gen[num_gen++] = m`. -/
def add_gen (m : Module) (s : Main) : Option Main :=
  (write s.gen s.num_gen m).map fun gen => { s with gen, num_gen := s.num_gen + 1 }

/-- The first `n` slots, none of which may hold NULL. -/
def modules (slots : List (Option Module)) (n : Nat) : Option (List Module) :=
  (slots.take n).mapM id

inductive Outcome where
  /-- `--session-cookie` without a session workload. -/
  | exits
  | ready (stats gens : List Module)
  deriving DecidableEq

def Param.prints (p : Param) : Bool :=
  p.print_reply.header || p.print_reply.body || p.print_request.header || p.print_request.body

def Param.needs_misc (p : Param) : Bool :=
  p.additional_header || p.additional_header_file || p.method

/-- An `if` without an `else`. -/
def add_if (asked : Bool) (add : Main → Option Main) (s : Main) : Option Main :=
  if asked then add s else some s

/-- From the end of the options to the initialization. -/
def conclude (p : Param) (s : Main) : Option Outcome :=
  (add_if p.prints (add_stat .stats_print_reply) s).bind fun s1 =>
    if p.session_cookies && !s1.session_workload then some .exits
    else
      (add_if p.session_cookies (add_gen .sess_cookie) s1).bind fun s2 =>
        (add_if p.needs_misc (add_gen .misc) s2).bind fun s3 =>
          (modules s3.stat s3.num_stats).bind fun stats =>
            (modules s3.gen s3.num_gen).map fun gens => .ready stats gens

def boot (choices : List Choice) (p : Param) : Option Outcome := do
  let s ← choices.foldlM choose .init
  conclude p s

/-! ## The initialization -/

inductive Event_Type where
  | EV_PERF_SAMPLE
  | EV_HOSTNAME_LOOKUP_START
  | EV_HOSTNAME_LOOKUP_STOP
  | EV_SESS_NEW
  | EV_SESS_FAILED
  | EV_SESS_DESTROYED
  | EV_CONN_NEW
  | EV_CONN_CONNECTING
  | EV_CONN_CONNECTED
  | EV_CONN_CLOSE
  | EV_CONN_DESTROYED
  | EV_CONN_FAILED
  | EV_CONN_TIMEOUT
  | EV_CALL_NEW
  | EV_CALL_ISSUE
  | EV_CALL_SEND_START
  | EV_CALL_SEND_RAW_DATA
  | EV_CALL_SEND_STOP
  | EV_CALL_RECV_START
  | EV_CALL_RECV_HDR
  | EV_CALL_RECV_RAW_DATA
  | EV_CALL_RECV_DATA
  | EV_CALL_RECV_FOOTER
  | EV_CALL_RECV_STOP
  | EV_CALL_DESTROYED
  deriving DecidableEq

inductive Object_Type where
  | OBJ_CONN
  | OBJ_CALL
  | OBJ_SESS
  deriving DecidableEq

/-- What a module asks for: to be told of an event, or room for its data in each object of a type.
No module has two handlers for one event, or asks twice for room in one type. -/
inductive Action where
  | event_register_handler (et : Event_Type)
  | object_expand (type : Object_Type)
  deriving DecidableEq

open Event_Type Object_Type Wiring.Action

def asks (m : Module) (actions : List Action) : List (Module × Action) :=
  actions.map fun a => (m, a)

def session_init : List (Module × Action) :=
  asks .session [object_expand OBJ_SESS, object_expand OBJ_CONN, object_expand OBJ_CALL,
    event_register_handler EV_SESS_DESTROYED, event_register_handler EV_CONN_CONNECTED,
    event_register_handler EV_CONN_FAILED, event_register_handler EV_CONN_TIMEOUT,
    event_register_handler EV_CALL_RECV_STOP]

/-- The `init` functions. That of `wsesslog` calls `session_init` last. -/
def init (p : Param) : Module → List (Module × Action)
  | .stats_basic => asks .stats_basic [event_register_handler EV_PERF_SAMPLE,
      event_register_handler EV_CONN_FAILED, event_register_handler EV_CONN_TIMEOUT,
      event_register_handler EV_CONN_NEW, event_register_handler EV_CONN_CONNECTING,
      event_register_handler EV_CONN_CONNECTED, event_register_handler EV_CONN_DESTROYED,
      event_register_handler EV_CALL_SEND_START, event_register_handler EV_CALL_SEND_STOP,
      event_register_handler EV_CALL_RECV_START, event_register_handler EV_CALL_RECV_STOP]
  | .session_stat =>
    asks .session_stat [object_expand OBJ_SESS, event_register_handler EV_PERF_SAMPLE,
      event_register_handler EV_SESS_NEW, event_register_handler EV_SESS_DESTROYED,
      event_register_handler EV_CONN_CONNECTED, event_register_handler EV_CALL_RECV_STOP]
  | .stats_print_reply => asks .stats_print_reply ([object_expand OBJ_CALL] ++
      (if p.print_request.header || p.print_request.body then
        [event_register_handler EV_CALL_SEND_RAW_DATA] else []) ++
      (if p.print_reply.header then [event_register_handler EV_CALL_RECV_RAW_DATA] else []) ++
      (if p.print_reply.body then [event_register_handler EV_CALL_RECV_DATA] else []) ++
      (if p.print_reply.header || p.print_reply.body then
        [event_register_handler EV_CALL_RECV_STOP] else []) ++
      [event_register_handler EV_CALL_DESTROYED])
  | .call_seq => asks .call_seq [object_expand OBJ_CONN, event_register_handler EV_CONN_CONNECTED,
      event_register_handler EV_CALL_RECV_STOP, event_register_handler EV_CALL_DESTROYED]
  | .uri_fixed => asks .uri_fixed [event_register_handler EV_CALL_NEW]
  | .conn_rate => asks .conn_rate [event_register_handler EV_CONN_DESTROYED]
  | .uri_wlog => asks .uri_wlog [event_register_handler EV_CALL_NEW]
  | .uri_wset => asks .uri_wset [object_expand OBJ_CALL, event_register_handler EV_CALL_NEW]
  | .wsess => session_init ++ asks .wsess [object_expand OBJ_SESS,
      event_register_handler EV_SESS_DESTROYED, event_register_handler EV_CALL_DESTROYED]
  | .wsesspage => session_init ++ asks .wsesspage [object_expand OBJ_CALL, object_expand OBJ_SESS,
      event_register_handler EV_CALL_RECV_HDR, event_register_handler EV_CALL_RECV_DATA,
      event_register_handler EV_SESS_DESTROYED, event_register_handler EV_CALL_DESTROYED]
  | .wsesslog => asks .wsesslog [object_expand OBJ_SESS, event_register_handler EV_SESS_DESTROYED,
      event_register_handler EV_CALL_DESTROYED] ++ session_init
  | .sess_cookie => asks .sess_cookie [object_expand OBJ_SESS, object_expand OBJ_CALL,
      event_register_handler EV_CALL_ISSUE, event_register_handler EV_CALL_RECV_HDR]
  | .misc => asks .misc [event_register_handler EV_CALL_NEW]
  | .session => []
  | .rate => []

/-- `rate_generator_start`, up to the first object that it has made. -/
def rate_generator_start (p : Param) (completion_event : Event_Type) : List (Module × Action) :=
  if p.paced then [] else asks .rate [event_register_handler completion_event]

/-- The `start` functions. -/
def start (p : Param) : Module → List (Module × Action)
  | .conn_rate => rate_generator_start p EV_CONN_DESTROYED
  | .wsess | .wsesspage | .wsesslog => rate_generator_start p EV_SESS_DESTROYED
  | _ => []

/-! ## The tables -/

def MAX_NUM_OPS : Nat := 4

/-- The room of a module in the objects of a type. -/
structure Area where
  owner : Module
  type : Object_Type
  offset : Nat
  size : Nat

structure Tables where
  ops : Event_Type → List Module
  type_size : Object_Type → Nat
  areas : List Area

/-- The size of the room that a module asks for, and the size of the plain objects. -/
structure Sizes where
  room : Module → Object_Type → Nat
  plain : Object_Type → Nat

/-- `ALIGN (s)`: the next multiple of the size of a `double`. -/
def ALIGN (s : Nat) : Nat := (s + 7) / 8 * 8

def Tables.init (sizes : Sizes) : Tables where
  ops _ := []
  type_size type := ALIGN (sizes.plain type)
  areas := []

/-- A handler that finds no place ends the program. -/
def perform (sizes : Sizes) (t : Tables) : Module × Action → Option Tables
  | (m, event_register_handler et) =>
    if (t.ops et).length ≥ MAX_NUM_OPS then none
    else some { t with ops := fun e => if e = et then t.ops et ++ [m] else t.ops e }
  | (m, object_expand type) =>
    some { t with
      type_size := fun y =>
        if y = type then t.type_size type + ALIGN (sizes.room m type) else t.type_size y
      areas := t.areas ++ [⟨m, type, t.type_size type, sizes.room m type⟩] }

/-- All that is asked for before there is an object. -/
def actions (p : Param) (stats gens : List Module) : List (Module × Action) :=
  stats.flatMap (init p) ++ gens.flatMap (init p) ++ gens.flatMap (start p)

/-! ## What is chosen -/

def Choice.session? : Choice → Option Module
  | .wsess => some .wsess
  | .wsesspage => some .wsesspage
  | .wsesslog => some .wsesslog
  | _ => none

def Choice.uri? : Choice → Option Module
  | .wlog => some .uri_wlog
  | .wset => some .uri_wset
  | _ => none

/-- How often a session workload is asked for. -/
def sessions (choices : List Choice) : Nat := (choices.filterMap Choice.session?).length

/-- The last one counts. -/
def workload (choices : List Choice) : Option Module := (choices.filterMap Choice.session?).getLast?

/-- The last one counts here too, wherever it stands among the session workloads. -/
def uri (choices : List Choice) : Module := (choices.filterMap Choice.uri?).getLast?.getD .uri_fixed

/-- A log of sessions has its own URIs. -/
def base (choices : List Choice) : List Module :=
  match workload choices with
  | none => [.call_seq, uri choices, .conn_rate]
  | some .wsesslog => [.wsesslog]
  | some m => [m, uri choices]

def collectors (choices : List Choice) (p : Param) : List Module :=
  [.stats_basic] ++ List.replicate (sessions choices) .session_stat ++
    if p.prints then [.stats_print_reply] else []

def generators (choices : List Choice) (p : Param) : List Module :=
  base choices ++ (if p.session_cookies then [.sess_cookie] else []) ++
    if p.needs_misc then [.misc] else []

/-! ## The options -/

theorem workload_cases (choices : List Choice) :
    (workload choices = none ∧ sessions choices = 0) ∨
      ((workload choices = some .wsess ∨ workload choices = some .wsesspage ∨
        workload choices = some .wsesslog) ∧ 0 < sessions choices) := by
  unfold workload sessions
  rcases List.eq_nil_or_concat (choices.filterMap Choice.session?) with hnil | ⟨ms, m, hsnoc⟩
  · rw [hnil]
    exact .inl ⟨rfl, rfl⟩
  · refine .inr ⟨?_, by simp [hsnoc]⟩
    obtain ⟨c, -, hc⟩ :=
      List.mem_filterMap.mp (show m ∈ choices.filterMap Choice.session? by simp [hsnoc])
    have hlast : (choices.filterMap Choice.session?).getLast? = c.session? := by simp [hsnoc, hc]
    rw [hlast]
    cases c <;> simp_all [Choice.session?]

/-- How many generators a workload has by itself. -/
def base_num : Option Module → Nat
  | none => 3
  | some .wsesslog => 1
  | some _ => 2

/-- The variables after the options. -/
def Main.chosen (choices : List Choice) : Main where
  gen := [some ((workload choices).getD .call_seq), some (uri choices), some .conn_rate, none, none]
  num_gen := base_num (workload choices)
  stat := [some .stats_basic] ++ List.replicate (sessions choices) (some .session_stat) ++
    List.replicate (2 - sessions choices) none
  num_stats := sessions choices + 1
  session_workload := (workload choices).isSome

theorem choose_uri {choices : List Choice} {c : Choice} {m : Module} (hc : c.uri? = some m)
    (hs : c.session? = none) :
    Main.chosen (choices ++ [c]) =
      { Main.chosen choices with gen := (Main.chosen choices).gen.set 1 (some m) } := by
  simp [Main.chosen, workload, uri, sessions, hc, hs]

theorem choose_session {choices : List Choice} {c : Choice} {m : Module} (hs : c.session? = some m)
    (hc : c.uri? = none) :
    session_option m (base_num (some m)) (Main.chosen choices) =
      if sessions choices < 2 then some (Main.chosen (choices ++ [c])) else none := by
  have hcount : sessions (choices ++ [c]) = sessions choices + 1 := by simp [sessions, hs]
  have hwork : workload (choices ++ [c]) = some m := by simp [workload, hs]
  have huri : uri (choices ++ [c]) = uri choices := by simp [uri, hc]
  have hgen : write (Main.chosen choices).gen 0 m = some (Main.chosen (choices ++ [c])).gen := by
    simp [write, Main.chosen, hwork, huri]
  unfold session_option
  by_cases hk : sessions choices < 2
  · have hstat : write (Main.chosen choices).stat (Main.chosen choices).num_stats .session_stat =
        some (Main.chosen (choices ++ [c])).stat := by
      obtain hk | hk : sessions choices = 0 ∨ sessions choices = 1 := by omega
      all_goals simp [write, Main.chosen, hcount, hk, List.replicate_succ]
    rw [if_pos hk, hgen, hstat]
    simp [Main.chosen, hcount, hwork]
  · have hfull : write (Main.chosen choices).stat (Main.chosen choices).num_stats .session_stat =
        none := by
      refine if_neg ?_
      simp [Main.chosen]
      omega
    rw [if_neg hk, hgen, hfull]
    rfl

theorem choose_chosen (choices : List Choice) (c : Choice) (hk : sessions choices ≤ 2) :
    choose (Main.chosen choices) c =
      if sessions (choices ++ [c]) ≤ 2 then some (Main.chosen (choices ++ [c])) else none := by
  have hsame : c.session? = none → sessions (choices ++ [c]) = sessions choices := by
    intro hs
    simp [sessions, hs]
  have hmore : ∀ m, c.session? = some m →
      (sessions (choices ++ [c]) ≤ 2 ↔ sessions choices < 2) := by
    intro m hs
    have hone : sessions (choices ++ [c]) = sessions choices + 1 := by simp [sessions, hs]
    omega
  cases c with
  | wlog => rw [if_pos (by rw [hsame rfl]; exact hk), @choose_uri _ _ .uri_wlog rfl rfl]; rfl
  | wset => rw [if_pos (by rw [hsame rfl]; exact hk), @choose_uri _ _ .uri_wset rfl rfl]; rfl
  | wsess => simp only [hmore .wsess rfl]; exact choose_session rfl rfl
  | wsesspage => simp only [hmore .wsesspage rfl]; exact choose_session rfl rfl
  | wsesslog => simp only [hmore .wsesslog rfl]; exact choose_session rfl rfl

theorem options_chosen (choices : List Choice) :
    choices.foldlM choose .init = if sessions choices ≤ 2 then some (Main.chosen choices)
      else none := by
  induction choices using List.reverseRecOn with
  | nil => rfl
  | append_singleton choices c ih =>
    rw [List.foldlM_append, ih]
    by_cases hk : sessions choices ≤ 2
    · rw [if_pos hk, ← choose_chosen choices c hk]
      simp
    · have hmore : sessions choices ≤ sessions (choices ++ [c]) := by
        simp [sessions, List.filterMap_append]
      rw [if_neg hk, if_neg fun hle => hk (Nat.le_trans hmore hle)]
      rfl

/-- The options and parameters that the arrays of `main` have room for. -/
def Fits (choices : List Choice) (p : Param) : Prop :=
  sessions choices + (if p.prints then 1 else 0) ≤ 2

instance (choices : List Choice) (p : Param) : Decidable (Fits choices p) :=
  inferInstanceAs (Decidable (_ ≤ _))

/-! ## The arrays -/

/-- The first slots hold `l`, `n` counts them, and so many slots are behind them. -/
def Holds (slots : List (Option Module)) (n : Nat) (l : List Module) (free : Nat) : Prop :=
  ∃ r, slots = l.map some ++ r ∧ r.length = free ∧ n = l.length

section
variable {slots : List (Option Module)} {n free : Nat} {l : List Module}

theorem Holds.write (h : Holds slots n l (free + 1)) (m : Module) :
    ∃ slots', write slots n m = some slots' ∧ Holds slots' (n + 1) (l ++ [m]) free := by
  obtain ⟨r, rfl, hr, rfl⟩ := h
  obtain ⟨x, r, rfl⟩ := List.exists_cons_of_length_eq_add_one hr
  refine ⟨(l ++ [m]).map some ++ r, ?_, r, rfl, Nat.succ.inj hr, by simp⟩
  simp [Wiring.write]

theorem Holds.full (h : Holds slots n l 0) (m : Module) : Wiring.write slots n m = none := by
  obtain ⟨r, rfl, hr, rfl⟩ := h
  obtain rfl := List.eq_nil_of_length_eq_zero hr
  exact if_neg (by simp)

theorem Holds.modules (h : Holds slots n l free) : modules slots n = some l := by
  obtain ⟨r, rfl, -, rfl⟩ := h
  unfold Wiring.modules
  rw [List.take_left' (List.length_map _)]
  clear r
  induction l with
  | nil => rfl
  | cons m l ih =>
    rw [List.map_cons, List.mapM_cons, ih]
    rfl

end

theorem chosen_stat (choices : List Choice) :
    Holds (Main.chosen choices).stat (Main.chosen choices).num_stats
      ([.stats_basic] ++ List.replicate (sessions choices) .session_stat) (2 - sessions choices) :=
  ⟨List.replicate (2 - sessions choices)
    none, by simp [Main.chosen], by simp, by simp [Main.chosen]⟩

/-- There are always two slots for `sess_cookie` and `misc`. -/
theorem chosen_gen (choices : List Choice) : ∃ free,
    Holds (Main.chosen choices).gen (Main.chosen choices).num_gen (base choices) (free + 2) := by
  rcases workload_cases choices with ⟨hw, -⟩ | ⟨hw | hw | hw, -⟩
  · exact ⟨0, [none, none], by simp [Main.chosen, base, hw],
      rfl, by simp [Main.chosen, base, base_num, hw]⟩
  · exact ⟨1, [some .conn_rate, none, none], by simp [Main.chosen, base, hw], rfl,
      by simp [Main.chosen, base, base_num, hw]⟩
  · exact ⟨1, [some .conn_rate, none, none], by simp [Main.chosen, base, hw], rfl,
      by simp [Main.chosen, base, base_num, hw]⟩
  · exact ⟨2, [some (uri choices), some .conn_rate, none, none], by simp [Main.chosen, base, hw],
      rfl, by simp [Main.chosen, base, base_num, hw]⟩

/-- A generator that is added when it is asked for. -/
theorem add_gen_spec {s : Main} {l : List Module} {free : Nat}
    (h : Holds s.gen s.num_gen l (free + 1)) (asked : Bool) (m : Module) :
    ∃ gen num_gen free', add_if asked (add_gen m) s = some { s with gen, num_gen } ∧
      free ≤ free' ∧ Holds gen num_gen (l ++ if asked then [m] else []) free' := by
  cases asked with
  | false => exact ⟨s.gen, s.num_gen, free + 1, rfl, Nat.le_succ _, by simpa using h⟩
  | true =>
    obtain ⟨gen, hwrite, hgen⟩ := h.write m
    refine ⟨gen, s.num_gen + 1, free, ?_, Nat.le_refl _, hgen⟩
    simp [add_if, add_gen, hwrite]

/-- The collector of the replies, when there is room for it. -/
theorem add_stat_spec (choices : List Choice) (p : Param) (hk : sessions choices ≤ 2) :
    (¬ Fits choices p ∧
      add_if p.prints (add_stat .stats_print_reply) (Main.chosen choices) = none) ∨
    (Fits choices p ∧ ∃ stat num_stats free,
      add_if p.prints (add_stat .stats_print_reply) (Main.chosen choices) =
        some { Main.chosen choices with stat, num_stats } ∧
      Holds stat num_stats (collectors choices p) free) := by
  have hstat := chosen_stat choices
  unfold Fits collectors
  cases p.prints with
  | false =>
    rw [← List.append_nil ([Module.stats_basic] ++ _)] at hstat
    exact .inr ⟨by simpa using hk, _, _, _, rfl, hstat⟩
  | true =>
    by_cases hroom : sessions choices + 1 ≤ 2
    · have hfree : 2 - sessions choices = 1 - sessions choices + 1 := by omega
      rw [hfree] at hstat
      obtain ⟨stat, hwrite, hholds⟩ := hstat.write .stats_print_reply
      refine .inr ⟨by simpa using hroom, stat, _, _, ?_, by simpa using hholds⟩
      simp [add_if, add_stat, hwrite]
    · have hfree : 2 - sessions choices = 0 := by omega
      rw [hfree] at hstat
      refine .inl ⟨by simpa using hroom, ?_⟩
      simp [add_if, add_stat, hstat.full]

theorem conclude_chosen (choices : List Choice) (p : Param) (hk : sessions choices ≤ 2) :
    conclude p (Main.chosen choices) =
      if Fits choices p then
        if p.session_cookies ∧ sessions choices = 0 then some .exits
        else some (.ready (collectors choices p) (generators choices p))
      else none := by
  have hnone : (Main.chosen choices).session_workload = true ↔ sessions choices ≠ 0 := by
    change (workload choices).isSome = true ↔ _
    rcases workload_cases choices with ⟨hw, hs⟩ | ⟨hw | hw | hw, hs⟩ <;> simp [hw]
    all_goals omega
  unfold conclude
  rcases add_stat_spec choices p hk with ⟨hfull, hadd⟩ | ⟨hfits, stat, num_stats, free, hadd, hstat⟩
  · rw [hadd, if_neg hfull]
    rfl
  · rw [hadd, if_pos hfits]
    obtain ⟨free0, hgen0⟩ := chosen_gen choices
    let s1 : Main := { Main.chosen choices with stat, num_stats }
    obtain ⟨gen1, num_gen1, free1, hcookie, hfree1, hgen1⟩ :=
      @add_gen_spec s1 _ _ hgen0 p.session_cookies .sess_cookie
    obtain ⟨free1, rfl⟩ := Nat.exists_eq_add_of_le' (Nat.le_trans (Nat.le_add_left 1 free0) hfree1)
    obtain ⟨gen2, num_gen2, free2, hmisc, -, hgen2⟩ :=
      @add_gen_spec { s1 with gen := gen1, num_gen := num_gen1 } _ _ hgen1 p.needs_misc .misc
    rw [Option.bind_some]
    by_cases hexit : p.session_cookies ∧ sessions choices = 0
    · have hcond : (p.session_cookies && !s1.session_workload) = true := by
        have hno : s1.session_workload ≠ true := fun hyes => hnone.mp hyes hexit.2
        simp [hexit.1, hno]
      rw [if_pos hcond, if_pos hexit]
    · have hcond : ¬ (p.session_cookies && !s1.session_workload) = true := by
        intro hboth
        rw [Bool.and_eq_true, Bool.not_eq_true', ← Bool.not_eq_true] at hboth
        exact hexit ⟨hboth.1, not_not.mp fun hne => hboth.2 (hnone.mpr hne)⟩
      rw [if_neg hcond, if_neg hexit, hcookie, Option.bind_some, hmisc, Option.bind_some]
      change (modules stat num_stats).bind (fun stats => (modules gen2 num_gen2).map _) = _
      rw [hstat.modules, hgen2.modules]
      rfl

/-- Which modules are chosen, and when the arrays are too short. -/
theorem boot_eq (choices : List Choice) (p : Param) :
    boot choices p =
      if Fits choices p then
        if p.session_cookies ∧ sessions choices = 0 then some .exits
        else some (.ready (collectors choices p) (generators choices p))
      else none := by
  change (choices.foldlM choose .init).bind (conclude p) = _
  rw [options_chosen]
  by_cases hk : sessions choices ≤ 2
  · rw [if_pos hk]
    exact conclude_chosen choices p hk
  · have hnot : ¬ Fits choices p := fun hfits => hk (Nat.le_trans (Nat.le_add_right _ _) hfits)
    rw [if_neg hk, if_neg hnot]
    rfl

/-! ## The tables -/

/-- Who asks to be told of an event, in the order of the requests. -/
def listeners (e : Event_Type) (as : List (Module × Action)) : List Module :=
  as.filterMap fun a => if a.2 = event_register_handler e then some a.1 else none

theorem listeners_snoc (e : Event_Type) (as : List (Module × Action)) (a : Module × Action) :
    listeners e (as ++ [a]) =
      listeners e as ++ if a.2 = event_register_handler e then [a.1] else [] := by
  unfold listeners
  rw [List.filterMap_append]
  by_cases ha : a.2 = event_register_handler e <;> simp [ha]

/-- Who asks for room, and in which objects. -/
def tenants (as : List (Module × Action)) : List (Module × Object_Type) :=
  as.filterMap fun a =>
    match a.2 with
    | object_expand type => some (a.1, type)
    | event_register_handler _ => none

/-- Each room begins behind the plain object where a `double` may stand, lies in the object, and
shares nothing with another one. -/
structure Laid (sizes : Sizes) (as : List (Module × Action)) (t : Tables) : Prop where
  asked : t.areas.map (fun a => (a.owner, a.type)) = tenants as
  size : ∀ a ∈ t.areas, a.size = sizes.room a.owner a.type
  aligned : ∀ a ∈ t.areas, a.offset % 8 = 0
  behind : ∀ a ∈ t.areas, sizes.plain a.type ≤ a.offset
  inside : ∀ a ∈ t.areas, a.offset + a.size ≤ t.type_size a.type
  apart : t.areas.Pairwise fun a b => a.type = b.type → a.offset + a.size ≤ b.offset
  objects : ∀ type, t.type_size type % 8 = 0 ∧ sizes.plain type ≤ t.type_size type

theorem le_ALIGN (n : Nat) : n ≤ ALIGN n := by
  unfold ALIGN
  omega

theorem ALIGN_mod (n : Nat) : ALIGN n % 8 = 0 := Nat.mul_mod_left _ 8

theorem laid_init (sizes : Sizes) : Laid sizes [] (Tables.init sizes) where
  asked := rfl
  size _ ha := absurd ha List.not_mem_nil
  aligned _ ha := absurd ha List.not_mem_nil
  behind _ ha := absurd ha List.not_mem_nil
  inside _ ha := absurd ha List.not_mem_nil
  apart := .nil
  objects _ := ⟨ALIGN_mod _, le_ALIGN _⟩

theorem Laid.register {sizes : Sizes} {as : List (Module × Action)} {t : Tables}
    (h : Laid sizes as t) (m : Module) (et : Event_Type) (ops : Event_Type → List Module) :
    Laid sizes (as ++ [(m, event_register_handler et)]) { t with ops } :=
  ⟨by simpa [tenants] using h.asked, h.size, h.aligned, h.behind, h.inside, h.apart, h.objects⟩

theorem Laid.expand {sizes : Sizes} {as : List (Module × Action)} {t : Tables} (h : Laid sizes as t)
    (m : Module) (type : Object_Type) :
    Laid sizes (as ++ [(m, object_expand type)]) { t with
      type_size := fun y =>
        if y = type then t.type_size type + ALIGN (sizes.room m type) else t.type_size y
      areas := t.areas ++ [⟨m, type, t.type_size type, sizes.room m type⟩] } := by
  have hgrow : ∀ y, t.type_size y ≤
      if y = type then t.type_size type + ALIGN (sizes.room m type) else t.type_size y := by
    intro y
    split
    · rename_i hy
      exact hy ▸ Nat.le_add_right _ _
    · exact Nat.le_refl _
  have hnew : ∀ {q : Area → Prop}, (∀ a ∈ t.areas, q a) →
      q ⟨m, type, t.type_size type, sizes.room m type⟩ →
      ∀ a ∈ t.areas ++ [⟨m, type, t.type_size type, sizes.room m type⟩], q a := by
    intro q hold hlast a ha
    rcases List.mem_append.mp ha with ha | ha
    · exact hold a ha
    · exact List.mem_singleton.mp ha ▸ hlast
  refine ⟨by simpa [tenants] using h.asked, hnew h.size rfl, hnew h.aligned (h.objects type).1,
    hnew h.behind (h.objects type).2, hnew
      (fun a ha => Nat.le_trans (h.inside a ha) (hgrow a.type)) ?_, ?_,
    fun y => ⟨?_, Nat.le_trans (h.objects y).2 (hgrow y)⟩⟩
  · change _ ≤ if type = type then _ else _
    rw [if_pos rfl]
    exact Nat.add_le_add_left (le_ALIGN _) _
  · refine List.pairwise_append.mpr
      ⟨h.apart, List.pairwise_singleton _ _, fun a ha b hb htype => ?_⟩
    obtain rfl := List.mem_singleton.mp hb
    have hinside := h.inside a ha
    rw [htype] at hinside
    exact hinside
  · change (if y = type then _ else _) % 8 = 0
    split
    · rw [Nat.add_mod, (h.objects type).1, ALIGN_mod]
    · exact (h.objects y).1

/-- When no event has too many listeners, every request is met. -/
theorem perform_all (sizes : Sizes) (as : List (Module × Action))
    (hroom : ∀ e, (listeners e as).length ≤ MAX_NUM_OPS) :
    ∃ t, as.foldlM (perform sizes) (Tables.init sizes) = some t ∧ (∀ e, t.ops e = listeners e as) ∧
      Laid sizes as t := by
  induction as using List.reverseRecOn with
  | nil => exact ⟨_, rfl, fun _ => rfl, laid_init sizes⟩
  | append_singleton as a ih =>
    obtain ⟨t, ht, hops, hlaid⟩ := ih fun e => Nat.le_trans (by simp [listeners_snoc]) (hroom e)
    have hfold : (as ++ [a]).foldlM (perform sizes) (Tables.init sizes) = perform sizes t a := by
      rw [List.foldlM_append, ht]
      simp
    rw [hfold]
    obtain ⟨m, et | type⟩ := a
    · have hfree : ¬ (t.ops et).length ≥ MAX_NUM_OPS := by
        have hle := hroom et
        rw [listeners_snoc, if_pos rfl, List.length_append, ← hops] at hle
        exact Nat.not_le_of_lt hle
      refine ⟨_, if_neg hfree, fun e => ?_, hlaid.register m et _⟩
      rw [listeners_snoc]
      by_cases he : e = et
      · subst he
        simp [hops]
      · simp [he, Ne.symm he, hops]
    · refine ⟨_, rfl, fun e => ?_, hlaid.expand m type⟩
      rw [listeners_snoc, if_neg nofun, List.append_nil]
      exact hops e

/-! ## Who is told -/

/-- The collectors only look on. -/
def Module.collects : Module → Bool
  | .stats_basic | .session_stat | .stats_print_reply => true
  | _ => false

theorem asks_owner {m : Module} {actions : List Action} : ∀ a ∈ asks m actions, a.1 = m := by
  intro a ha
  obtain ⟨_, -, rfl⟩ := List.mem_map.mp ha
  rfl

theorem init_owner (p : Param) (m : Module) : ∀ a ∈ init p m, a.1.collects = m.collects := by
  intro a ha
  cases m with
  | wsess | wsesspage | wsesslog =>
    rcases List.mem_append.mp ha with ha | ha
    all_goals exact (congrArg Module.collects (asks_owner a ha)).trans rfl
  | session | rate => exact absurd ha List.not_mem_nil
  | _ => exact congrArg Module.collects (asks_owner a ha)

theorem rate_generator_start_owner (p : Param) (e : Event_Type) :
    ∀ a ∈ rate_generator_start p e, a.1 = .rate := by
  intro a ha
  unfold rate_generator_start at ha
  split at ha
  · exact absurd ha List.not_mem_nil
  · exact asks_owner a ha

theorem start_owner (p : Param) (m : Module) : ∀ a ∈ start p m, a.1.collects = false := by
  intro a ha
  cases m with
  | conn_rate | wsess | wsesspage | wsesslog =>
    exact (congrArg Module.collects (rate_generator_start_owner p _ a ha)).trans rfl
  | _ => exact absurd ha List.not_mem_nil

theorem uri_mem (choices : List Choice) :
    uri choices ∈ [Module.uri_fixed, .uri_wlog, .uri_wset] := by
  unfold uri
  cases h : (choices.filterMap Choice.uri?).getLast? with
  | none => exact List.mem_cons_self
  | some m =>
    obtain ⟨c, -, hc⟩ := List.mem_filterMap.mp (List.mem_of_getLast? h)
    cases c with
    | wlog | wset =>
      obtain rfl := Option.some.inj hc
      simp
    | _ => cases hc

theorem base_owner (choices : List Choice) : ∀ m ∈ base choices, m.collects = false := by
  have huri : (uri choices).collects = false := by
    have h : ∀ m ∈ [Module.uri_fixed, .uri_wlog, .uri_wset], m.collects = false := by decide
    exact h _ (uri_mem choices)
  intro m hm
  unfold base at hm
  rcases workload_cases choices with ⟨hw, -⟩ | ⟨hw | hw | hw, -⟩
  all_goals simp only [hw, List.mem_cons, List.not_mem_nil, or_false] at hm
  · rcases hm with rfl | rfl | rfl
    · rfl
    · exact huri
    · rfl
  · rcases hm with rfl | rfl
    · rfl
    · exact huri
  · rcases hm with rfl | rfl
    · rfl
    · exact huri
  · exact hm ▸ rfl

theorem generators_owner (choices : List Choice) (p : Param) :
    ∀ m ∈ generators choices p, m.collects = false := by
  intro m hm
  unfold generators at hm
  rw [List.mem_append, List.mem_append] at hm
  rcases hm with (hm | hm) | hm
  · exact base_owner choices m hm
  · split at hm
    · exact List.mem_singleton.mp hm ▸ rfl
    · exact absurd hm List.not_mem_nil
  · split at hm
    · exact List.mem_singleton.mp hm ▸ rfl
    · exact absurd hm List.not_mem_nil

theorem collectors_owner (choices : List Choice) (p : Param) :
    ∀ m ∈ collectors choices p, m.collects = true := by
  intro m hm
  unfold collectors at hm
  rw [List.mem_append, List.mem_append] at hm
  rcases hm with (hm | hm) | hm
  · exact List.mem_singleton.mp hm ▸ rfl
  · exact List.eq_of_mem_replicate hm ▸ rfl
  · split at hm
    · exact List.mem_singleton.mp hm ▸ rfl
    · exact absurd hm List.not_mem_nil

theorem mem_listeners {e : Event_Type} {as : List (Module × Action)} {m : Module}
    (h : m ∈ listeners e as) : ∃ a ∈ as, a.1 = m := by
  obtain ⟨a, ha, hm⟩ := List.mem_filterMap.mp h
  split at hm
  · exact ⟨a, ha, Option.some.inj hm⟩
  · cases hm

/-- The collectors are told first. -/
theorem collectors_first (choices : List Choice) (p : Param) (e : Event_Type) :
    (listeners e (actions p (collectors choices p) (generators choices p))).Pairwise
      fun a b => b.collects → a.collects := by
  have hfirst : ∀ m ∈ listeners e ((collectors choices p).flatMap (init p)), m.collects = true := by
    intro m hm
    obtain ⟨a, ha, rfl⟩ := mem_listeners hm
    obtain ⟨c, hc, ha⟩ := List.mem_flatMap.mp ha
    rw [init_owner p c a ha, collectors_owner choices p c hc]
  have hthen : ∀ m ∈ listeners e ((generators choices p).flatMap (init p) ++
      (generators choices p).flatMap (start p)), m.collects = false := by
    intro m hm
    obtain ⟨a, ha, rfl⟩ := mem_listeners hm
    rcases List.mem_append.mp ha with ha | ha
    · obtain ⟨c, hc, ha⟩ := List.mem_flatMap.mp ha
      rw [init_owner p c a ha, generators_owner choices p c hc]
    · obtain ⟨c, -, ha⟩ := List.mem_flatMap.mp ha
      exact start_owner p c a ha
  unfold actions
  rw [List.append_assoc]
  unfold listeners at *
  rw [List.filterMap_append]
  refine List.pairwise_append.mpr ⟨?_, ?_, fun a ha b _ _ => hfirst a ha⟩
  · exact List.pairwise_of_forall_mem_list fun a ha b _ _ => hfirst a ha
  · refine List.pairwise_of_forall_mem_list fun a _ b hb hyes => ?_
    rw [hthen b hb] at hyes
    cases hyes

/-! ## How many are told -/

def told (e : Event_Type) (as : List (Module × Action)) : Nat := (listeners e as).length

theorem told_append (e : Event_Type) (as bs : List (Module × Action)) :
    told e (as ++ bs) = told e as + told e bs := by
  simp [told, listeners]

theorem told_replicate (e : Event_Type) (k : Nat) (m : Module)
    (f : Module → List (Module × Action)) :
    told e ((List.replicate k m).flatMap f) = k * told e (f m) := by
  induction k with
  | zero => rw [Nat.zero_mul]; rfl
  | succ k ih =>
    rw [List.replicate_succ, List.flatMap_cons, told_append, ih, Nat.succ_mul, Nat.add_comm]

theorem told_if (e : Event_Type) (asked : Bool) (m : Module) (f : Module → List (Module × Action)) :
    told e ((if asked then [m] else []).flatMap f) = if asked then told e (f m) else 0 := by
  cases asked
  · rfl
  · change told e ([m].flatMap f) = told e (f m)
    rw [List.flatMap_singleton]

theorem told_actions (choices : List Choice) (p : Param) (e : Event_Type) :
    told e (actions p (collectors choices p) (generators choices p)) =
      told e (init p .stats_basic) + sessions choices * told e (init p .session_stat) +
        (if p.prints then told e (init p .stats_print_reply) else 0) +
      (told e ((base choices).flatMap (init p)) +
        (if p.session_cookies then told e (init p .sess_cookie) else 0) +
        (if p.needs_misc then told e (init p .misc) else 0)) +
      told e ((base choices).flatMap (start p)) := by
  have hnone : ∀ m, start p m = [] → ∀ asked : Bool,
      (if asked then told e (start p m) else 0) = 0 := by
    intro m hm asked
    rw [hm]
    cases asked <;> rfl
  unfold actions collectors generators
  simp only [told_append, List.flatMap_append, told_replicate, told_if, List.flatMap_singleton,
    hnone .sess_cookie rfl, hnone .misc rfl, Nat.add_zero]

/-- All handlers that there can be. -/
def loud (paced : Bool) : Param := ⟨⟨true, true⟩, ⟨true, true⟩, true, true, true, true, paced⟩

theorem told_print_le (e : Event_Type) (p : Param) :
    told e (init p .stats_print_reply) ≤ told e (init (loud p.paced) .stats_print_reply) := by
  have hasked : ∀ (asked : Bool) (a : Action), (if asked then [a] else []).Sublist [a] := by
    intro asked a
    cases asked
    · exact List.nil_sublist _
    · exact List.Sublist.refl _
  have hsub : (init p .stats_print_reply).Sublist (init (loud p.paced) .stats_print_reply) :=
    List.Sublist.map _ (((((List.Sublist.refl _).append (hasked _ _)).append (hasked _ _)).append
      (hasked _ _)).append (hasked _ _) |>.append (List.Sublist.refl _))
  exact (hsub.filterMap _).length_le

def Event_Type.all : List Event_Type :=
  [EV_PERF_SAMPLE, EV_HOSTNAME_LOOKUP_START, EV_HOSTNAME_LOOKUP_STOP, EV_SESS_NEW, EV_SESS_FAILED,
    EV_SESS_DESTROYED, EV_CONN_NEW, EV_CONN_CONNECTING, EV_CONN_CONNECTED, EV_CONN_CLOSE,
    EV_CONN_DESTROYED, EV_CONN_FAILED, EV_CONN_TIMEOUT, EV_CALL_NEW, EV_CALL_ISSUE,
    EV_CALL_SEND_START, EV_CALL_SEND_RAW_DATA, EV_CALL_SEND_STOP, EV_CALL_RECV_START,
    EV_CALL_RECV_HDR, EV_CALL_RECV_RAW_DATA, EV_CALL_RECV_DATA, EV_CALL_RECV_FOOTER,
    EV_CALL_RECV_STOP, EV_CALL_DESTROYED]

theorem Event_Type.mem_all (e : Event_Type) : e ∈ all := by
  cases e <;> decide

/-- The generators of the workloads, and whether they make sessions. -/
def workloads : List (Bool × List Module) :=
  [(true, [.wsesslog])] ++ [.uri_fixed, .uri_wlog, .uri_wset].flatMap fun u =>
    [(false, [.call_seq, u, .conn_rate]), (true, [.wsess, u]), (true, [.wsesspage, u])]

theorem base_mem (choices : List Choice) :
    ((workload choices).isSome, base choices) ∈ workloads := by
  have huri := uri_mem choices
  unfold base workloads
  rcases workload_cases choices with ⟨hw, -⟩ | ⟨hw | hw | hw, -⟩
  all_goals simp only [hw]
  · exact List.mem_append_right _ (List.mem_flatMap.mpr ⟨_, huri, by simp⟩)
  · exact List.mem_append_right _ (List.mem_flatMap.mpr ⟨_, huri, by simp⟩)
  · exact List.mem_append_right _ (List.mem_flatMap.mpr ⟨_, huri, by simp⟩)
  · exact List.mem_append_left _ List.mem_cons_self

/-- How many listen at most when session workloads are asked for `k` times. -/
def crowd (e : Event_Type) (k : Nat) (prints paced : Bool) (gens : List Module) : Nat :=
  told e (init (loud paced) .stats_basic) + k * told e (init (loud paced) .session_stat) +
    (if prints then told e (init (loud paced) .stats_print_reply) else 0) +
  (told e (gens.flatMap (init (loud paced))) + told e (init (loud paced) .sess_cookie) +
    told e (init (loud paced) .misc)) + told e (gens.flatMap (start (loud paced)))

theorem crowd_le : ∀ w ∈ workloads, ∀ e ∈ Event_Type.all, ∀ prints ∈ [false, true],
    ∀ paced ∈ [false, true], ∀ k ∈ [0, 1, 2], k + (if prints then 1 else 0) ≤ 2 → (k ≤ 1 ∨ paced) →
    (k = 2 → w.1) →
      crowd e k prints paced w.2 ≤ MAX_NUM_OPS := by
  decide +kernel

/-- Only `stats_print_reply` has handlers that depend on the parameters. -/
theorem init_eq (p q : Param) {m : Module} (hm : m ≠ .stats_print_reply) : init p m = init q m := by
  cases m <;> first | rfl | exact absurd rfl hm

theorem start_eq (p : Param) (m : Module) : start p m = start (loud p.paced) m := by
  cases m <;> rfl

theorem base_init (choices : List Choice) (p : Param) :
    (base choices).flatMap (init p) = (base choices).flatMap (init (loud p.paced)) := by
  refine List.flatMap_congr fun m hm => init_eq p (loud p.paced) fun heq => ?_
  have howner := base_owner choices m hm
  rw [heq] at howner
  cases howner

theorem base_start (choices : List Choice) (p : Param) :
    (base choices).flatMap (start p) = (base choices).flatMap (start (loud p.paced)) :=
  List.flatMap_congr fun m _ => start_eq p m

theorem told_actions_le (choices : List Choice) (p : Param) (e : Event_Type) :
    told e (actions p (collectors choices p) (generators choices p)) ≤
      crowd e (sessions choices) p.prints p.paced (base choices) := by
  have hprint := told_print_le e p
  have hbasic : init p .stats_basic = init (loud p.paced) .stats_basic := rfl
  have hsess : init p .session_stat = init (loud p.paced) .session_stat := rfl
  have hcookie : init p .sess_cookie = init (loud p.paced) .sess_cookie := rfl
  have hmisc : init p .misc = init (loud p.paced) .misc := rfl
  rw [told_actions, base_init, base_start, hbasic, hsess, hcookie, hmisc]
  unfold crowd
  split <;> split <;> split <;> omega

theorem sessions_told : ∀ w ∈ workloads, w.1 = true →
    told EV_SESS_DESTROYED (w.2.flatMap (init (loud false))) = 2 ∧
      told EV_SESS_DESTROYED (w.2.flatMap (start (loud false))) = 1 := by
  decide +kernel

theorem mem_bools (b : Bool) : b ∈ [false, true] := by
  cases b <;> decide

/-- No event has too many handlers, unless a session workload is asked for twice and its sessions
follow one another. -/
theorem listeners_le {choices : List Choice} {p : Param} (hfits : Fits choices p)
    (hrate : sessions choices ≤ 1 ∨ p.paced) (e : Event_Type) :
    (listeners e (actions p (collectors choices p) (generators choices p))).length ≤
      MAX_NUM_OPS := by
  have hk : sessions choices ≤ 2 := Nat.le_trans (Nat.le_add_right _ _) hfits
  refine Nat.le_trans (told_actions_le choices p e) ?_
  refine crowd_le _ (base_mem choices) e e.mem_all _ (mem_bools _) _ (mem_bools _) _ ?_ hfits hrate
    fun htwo => ?_
  · simp only [List.mem_cons, List.not_mem_nil, or_false]
    omega
  · rcases workload_cases choices with ⟨-, hnone⟩ | ⟨hw | hw | hw, -⟩
    · omega
    all_goals rw [hw]; rfl

/-- Then the end of a session has five. -/
theorem listeners_gt {choices : List Choice} {p : Param} (htwo : 1 < sessions choices)
    (hpaced : p.paced = false) :
    MAX_NUM_OPS <
      (listeners EV_SESS_DESTROYED
        (actions p (collectors choices p) (generators choices p))).length := by
  have hsome : (workload choices).isSome = true := by
    rcases workload_cases choices with ⟨-, hnone⟩ | ⟨hw | hw | hw, -⟩
    · omega
    all_goals rw [hw]; rfl
  have hbase := sessions_told _ (base_mem choices) hsome
  have hstat : told EV_SESS_DESTROYED (init p .session_stat) = 1 := rfl
  change 4 < told EV_SESS_DESTROYED _
  rw [told_actions, hstat, base_init, base_start, hpaced, hbase.1, hbase.2]
  omega

/-- Requests that are all met. -/
theorem perform_ops (sizes : Sizes) (as : List (Module × Action)) {t : Tables}
    (h : as.foldlM (perform sizes) (Tables.init sizes) = some t) (e : Event_Type) :
    t.ops e = listeners e as ∧ (listeners e as).length ≤ MAX_NUM_OPS := by
  induction as using List.reverseRecOn generalizing t with
  | nil =>
    obtain rfl := Option.some.inj h
    exact ⟨rfl, Nat.zero_le _⟩
  | append_singleton as a ih =>
    rw [List.foldlM_append] at h
    obtain ⟨t0, ht0, hstep⟩ := Option.bind_eq_some_iff.mp h
    obtain ⟨hops, hle⟩ := ih ht0
    have hstep : perform sizes t0 a = some t := by simpa using hstep
    rw [listeners_snoc]
    obtain ⟨m, et | type⟩ := a
    · change (if (t0.ops et).length ≥ MAX_NUM_OPS then none else some _) = some t at hstep
      by_cases hfull : (t0.ops et).length ≥ MAX_NUM_OPS
      · rw [if_pos hfull] at hstep
        cases hstep
      · rw [if_neg hfull] at hstep
        obtain rfl := Option.some.inj hstep
        by_cases he : e = et
        · subst he
          rw [if_pos rfl, ← hops]
          refine ⟨if_pos rfl, ?_⟩
          rw [List.length_append]
          exact Nat.lt_of_not_le hfull
        · rw [if_neg fun heq => he (event_register_handler.inj heq).symm, List.append_nil]
          exact ⟨(if_neg he).trans hops, hle⟩
    · obtain rfl := Option.some.inj hstep
      rw [if_neg nofun, List.append_nil]
      exact ⟨hops, hle⟩

/-- How the program is put together, for every row of the options that choose modules and all other
parameters: which modules run, that only the array of the collectors can be too short, and when.
With room in the arrays, the initialization ends the program exactly when two session workloads are
asked for and no rate is given. Otherwise each event is told to the modules that asked for it, in
the order of the initialization, the collectors first, and the rooms of the modules in the objects
are apart. -/
theorem every_start_is_wired (choices : List Choice) (p : Param) (sizes : Sizes) :
    boot choices p =
      (if Fits choices p then
        if p.session_cookies ∧ sessions choices = 0 then some .exits
        else some (.ready (collectors choices p) (generators choices p))
      else none) ∧
    (Fits choices p →
      let as := actions p (collectors choices p) (generators choices p)
      ((as.foldlM (perform sizes) (Tables.init sizes)).isSome ↔ sessions choices ≤ 1 ∨ p.paced) ∧
      ∀ t, as.foldlM (perform sizes) (Tables.init sizes) = some t →
        (∀ e, t.ops e = listeners e as ∧ (t.ops e).Pairwise fun a b => b.collects → a.collects) ∧
        Laid sizes as t) := by
  refine ⟨boot_eq choices p, fun hfits => ⟨⟨fun hsome => ?_, fun hrate => ?_⟩, fun t ht => ?_⟩⟩
  · obtain ⟨t, ht⟩ := Option.isSome_iff_exists.mp hsome
    by_contra hno
    rw [not_or, Nat.not_le, Bool.not_eq_true] at hno
    exact absurd (perform_ops sizes _ ht EV_SESS_DESTROYED).2
      (Nat.not_le.mpr (listeners_gt hno.1 hno.2))
  · obtain ⟨t, ht, -⟩ := perform_all sizes _ (listeners_le hfits hrate)
    rw [ht]
    rfl
  · have hops := perform_ops sizes _ ht
    obtain ⟨t', ht', -, hlaid⟩ := perform_all sizes _ fun e => (hops e).2
    obtain rfl := Option.some.inj (ht.symm.trans ht')
    refine ⟨fun e => ⟨(hops e).1, ?_⟩, hlaid⟩
    rw [(hops e).1]
    exact collectors_first choices p e

/-- `--session-cookie --print-reply`, and no rate. -/
def someParam : Param := ⟨⟨false, false⟩, ⟨true, true⟩, true, false, false, false, false⟩

def someSizes : Sizes := ⟨fun _ _ => 20, fun _ => 100⟩

theorem every_start_is_wired_some :
    boot [.wset, .wsess] someParam = some (.ready [.stats_basic, .session_stat, .stats_print_reply]
      [.wsess, .uri_wset, .sess_cookie]) ∧
    ∃ t, (actions someParam (collectors [.wset, .wsess] someParam)
        (generators [.wset, .wsess] someParam)).foldlM (perform someSizes)
          (Tables.init someSizes) = some t ∧
      t.ops EV_SESS_DESTROYED = [.session_stat, .session, .wsess, .rate] ∧
      Laid someSizes (actions someParam (collectors [.wset, .wsess] someParam)
        (generators [.wset, .wsess] someParam)) t := by
  obtain ⟨hboot, hstart⟩ := every_start_is_wired [.wset, .wsess] someParam someSizes
  obtain ⟨hiff, hall⟩ := hstart (by decide)
  obtain ⟨t, ht⟩ := Option.isSome_iff_exists.mp (hiff.mpr (.inl (by decide)))
  obtain ⟨hops, hlaid⟩ := hall t ht
  exact ⟨hboot.trans (by decide), t, ht, (hops EV_SESS_DESTROYED).1.trans (by decide), hlaid⟩

end Httperf.Wiring
