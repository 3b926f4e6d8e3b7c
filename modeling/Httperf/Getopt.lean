-- `lib/getopt.c`: the scan of the command line. `getopt_internal` goes over the argument vector
-- once, and exchanges blocks of it in place, so that in the end the options stand in front of the
-- other arguments.
import Httperf.Clib
import Httperf.Lib.Cycles

namespace Httperf.Getopt

abbrev Text := List Byte

def COLON : Byte := 58

def MINUS : Byte := 45

def EQUALS : Byte := 61

/-! ## The exchange of two blocks -/

/-- `none` is the division by zero. -/
def gcd (a b : Nat) : Option Nat :=
  if _h : b = 0 then none
  else if a % b = 0 then some b
  else gcd b (a % b)
termination_by b
decreasing_by exact Nat.mod_lt _ (Nat.pos_of_ne_zero _h)

/-- The turns of one cycle. `none` is an access outside of `nargv`. -/
def cycle_loop (panonopt_end nnonopts nopts cstart : Nat) :
    Nat → Nat → List Text → Option (List Text)
  | 0, _, nargv => some nargv
  | j + 1, pos, nargv =>
    let pos := if panonopt_end ≤ pos then pos - nnonopts else pos + nopts
    match nargv[pos]?, nargv[cstart]? with
    | some swap, some first =>
      cycle_loop panonopt_end nnonopts nopts cstart j pos ((nargv.set pos first).set cstart swap)
    | _, _ => none

def cycles_loop (panonopt_end nnonopts nopts cyclelen : Nat) :
    Nat → Nat → List Text → Option (List Text)
  | _, 0, nargv => some nargv
  | i, left + 1, nargv =>
    match cycle_loop panonopt_end nnonopts nopts (panonopt_end + i) cyclelen (panonopt_end + i)
      nargv with
    | none => none
    | some nargv => cycles_loop panonopt_end nnonopts nopts cyclelen (i + 1) left nargv

def permute_args (panonopt_start panonopt_end opt_end : Nat) (nargv : List Text) :
    Option (List Text) :=
  let nnonopts := panonopt_end - panonopt_start
  let nopts := opt_end - panonopt_end
  match gcd nnonopts nopts with
  | none => none
  | some ncycle =>
    cycles_loop panonopt_end nnonopts nopts ((opt_end - panonopt_start) / ncycle) 0 ncycle nargv

theorem cycle_loop_length {panonopt_end nnonopts nopts cstart j pos : Nat}
    {nargv nargv' : List Text}
    (h : cycle_loop panonopt_end nnonopts nopts cstart j pos nargv = some nargv') :
    nargv'.length = nargv.length := by
  induction j generalizing pos nargv with
  | zero =>
    cases h
    rfl
  | succ j ih =>
    unfold cycle_loop at h
    dsimp only at h
    split at h
    · have hrest := ih h
      rwa [List.length_set, List.length_set] at hrest
    · cases h

theorem cycles_loop_length {panonopt_end nnonopts nopts cyclelen i left : Nat}
    {nargv nargv' : List Text}
    (h : cycles_loop panonopt_end nnonopts nopts cyclelen i left nargv = some nargv') :
    nargv'.length = nargv.length := by
  induction left generalizing i nargv with
  | zero =>
    cases h
    rfl
  | succ left ih =>
    unfold cycles_loop at h
    split at h
    · cases h
    · rename_i hcycle
      exact (ih h).trans (cycle_loop_length hcycle)

/-- The vector keeps its length. -/
theorem permute_args_length {panonopt_start panonopt_end opt_end : Nat} {nargv nargv' : List Text}
    (h : permute_args panonopt_start panonopt_end opt_end nargv = some nargv') :
    nargv'.length = nargv.length := by
  unfold permute_args at h
  dsimp only at h
  split at h
  · cases h
  · exact cycles_loop_length h

/-! ## The scan -/

inductive HasArg where
  | no_argument
  | required_argument
  | optional_argument
deriving DecidableEq

/-- `struct option`. `flag` is the place where `val` is put, if there is one. -/
structure LongOption where
  name : Text
  has_arg : HasArg
  flag : Option Nat
  val : Int

/-- What the caller passes, and what the scan finds set. -/
structure Env where
  options : Text
  long_options : Option (List LongOption)
  permute : Bool
  longonly : Bool
  posixly_correct : Bool
  opterr : Bool

/-- The static data of `getopt.c`, the argument vector, `*idx`, the flags, and what is on `stderr`.
`place` is the text that is left of the argument at `optind`, and `nonopt_start` and `nonopt_end`
are `none` for `-1`. -/
structure State where
  nargv : List Text
  optind : Nat
  optopt : Int
  optarg : Option Text
  optreset : Bool
  place : Text
  nonopt_start : Option Nat
  nonopt_end : Option Nat
  idx : Int
  flags : Nat → Int
  err : List Text

def BADCH : Int := 63

/-- The options without the sign in front. -/
def Env.letters (e : Env) : Text :=
  match e.options with
  | 43 :: rest => rest
  | 45 :: rest => rest
  | options => options

def Env.permutes (e : Env) : Bool :=
  e.permute && !(e.posixly_correct || e.options.head? = some 43)

def Env.allargs (e : Env) : Bool :=
  !(e.posixly_correct || e.options.head? = some 43) && e.options.head? = some MINUS

def Env.quiet (e : Env) : Bool := e.letters.head? = some COLON

def Env.BADARG (e : Env) : Int := if e.quiet then 58 else 63

/-- `PRINT_ERROR`. -/
def Env.print (e : Env) (text : Text) : List Text := if e.opterr && !e.quiet then [text] else []

/-- A `char` as an `int`. -/
def char_int (c : Byte) : Int := if c < 128 then c.toNat else c.toNat - 256

def ambig (name : Text) : Text := bytes "ambiguous option -- " ++ name ++ [LF]

def noarg (name : Text) : Text := bytes "option doesn't take an argument -- " ++ name ++ [LF]

def recarg (name : Text) : Text := bytes "option requires an argument -- " ++ name ++ [LF]

def illopt (name : Text) : Text := bytes "unknown option -- " ++ name ++ [LF]

/-- The loop over `long_options`, which are counted from `i` on. `none` is an abbreviation of more
than one of them. -/
def find_match (current_argv : Text) (short_too : Bool) :
    List LongOption → Nat → Option (Nat × LongOption) → Option (Option (Nat × LongOption))
  | [], _, found => some found
  | o :: os, i, found =>
    if !current_argv.isPrefixOf o.name then find_match current_argv short_too os (i + 1) found
    else if o.name.length = current_argv.length then some (some (i, o))
    else if short_too && current_argv.length = 1 then
      find_match current_argv short_too os (i + 1) found
    else
      match found with
      | none => find_match current_argv short_too os (i + 1) (some (i, o))
      | some _ => none

/-- `optopt` when an argument is missing, or one too many. -/
def LongOption.blamed (o : LongOption) : Int := if o.flag = none then o.val else 0

def parse_long_options (e : Env) (long_options : List LongOption) (short_too : Bool) (s : State) :
    Int × State :=
  let current_argv := s.place.takeWhile (· ≠ EQUALS)
  let has_equal := EQUALS ∈ s.place
  let value := (s.place.dropWhile (· ≠ EQUALS)).tail
  let s := { s with optind := s.optind + 1 }
  match find_match current_argv short_too long_options 0 none with
  | none => (BADCH, { s with err := s.err ++ e.print (ambig current_argv), optopt := 0 })
  | some none =>
    if short_too then (-1, { s with optind := s.optind - 1 })
    else (BADCH, { s with err := s.err ++ e.print (illopt s.place), optopt := 0 })
  | some (some (i, o)) =>
    if o.has_arg = .no_argument ∧ has_equal then
      (e.BADARG, { s with err := s.err ++ e.print (noarg current_argv), optopt := o.blamed })
    else
      let s :=
        if o.has_arg = .no_argument then s
        else if has_equal then { s with optarg := some value }
        else if o.has_arg = .required_argument then
          { s with optarg := s.nargv[s.optind]?, optind := s.optind + 1 }
        else s
      if o.has_arg = .required_argument ∧ s.optarg = none then
        (e.BADARG, { s with
          err := s.err ++ e.print (recarg s.place)
          optopt := o.blamed
          optind := s.optind - 1 })
      else
        let s := { s with idx := i }
        match o.flag with
        | some flag => (0, { s with flags := Function.update s.flags flag o.val })
        | none => (o.val, s)

inductive Scanned where
  | ret (ch : Int)
  | letters

/-- From `start` to the letters of an argument. `none` is an access outside of `nargv`, or the
division by zero. -/
def scan (e : Env) (s : State) : Option (Scanned × State) :=
  if s.optreset || s.place = [] then
    if hend : s.nargv.length ≤ s.optind then
      let s := { s with optreset := false, place := [] }
      match s.nonopt_start, s.nonopt_end with
      | some nonopt_start, some nonopt_end =>
        match permute_args nonopt_start nonopt_end s.optind s.nargv with
        | none => none
        | some nargv =>
          some (.ret (-1), { s with
            nargv
            optind := s.optind - (nonopt_end - nonopt_start)
            nonopt_start := none
            nonopt_end := none })
      | some nonopt_start, none =>
        some (.ret (-1),
          { s with optind := nonopt_start, nonopt_start := none, nonopt_end := none })
      | none, _ => some (.ret (-1), { s with nonopt_start := none, nonopt_end := none })
    else
      let arg := s.nargv[s.optind]
      if arg.head? ≠ some MINUS ∨ (arg.tail = [] ∧ MINUS ∉ e.letters) then
        if e.allargs then
          some (.ret 1, { s with
            optreset := false, place := [], optarg := some arg, optind := s.optind + 1 })
        else if !e.permutes then some (.ret (-1), { s with optreset := false, place := [] })
        else
          match s.nonopt_start, s.nonopt_end with
          | none, _ =>
            scan e { s with
              optreset := false, place := [], nonopt_start := some s.optind,
              optind := s.optind + 1 }
          | some nonopt_start, some nonopt_end =>
            match _hpermuted : permute_args nonopt_start nonopt_end s.optind s.nargv with
            | none => none
            | some nargv =>
              scan e { s with
                optreset := false
                place := []
                nargv
                nonopt_start := some (s.optind - (nonopt_end - nonopt_start))
                nonopt_end := none
                optind := s.optind + 1 }
          | some _, none => scan e { s with optreset := false, place := [], optind := s.optind + 1 }
      else
        let nonopt_end :=
          if s.nonopt_start.isSome ∧ s.nonopt_end = none then some s.optind else s.nonopt_end
        let s := { s with optreset := false, nonopt_end }
        if arg.tail = [MINUS] then
          let s := { s with optind := s.optind + 1, place := [] }
          match s.nonopt_start, s.nonopt_end with
          | some nonopt_start, some nonopt_end =>
            match permute_args nonopt_start nonopt_end s.optind s.nargv with
            | none => none
            | some nargv =>
              some (.ret (-1), { s with
                nargv
                optind := s.optind - (nonopt_end - nonopt_start)
                nonopt_start := none
                nonopt_end := none })
          | _, _ => some (.ret (-1), { s with nonopt_start := none, nonopt_end := none })
        else some (.letters, { s with place := if arg.tail = [] then arg else arg.tail })
  else some (.letters, s)
termination_by s.nargv.length - s.optind
decreasing_by
  · omega
  · have hlength := permute_args_length _hpermuted
    omega
  · omega

/-- The letter at `place`. `oli` is what stands behind it in the options. -/
def letter (e : Env) (s : State) : Option (Int × State) :=
  match s.place with
  | [] => none
  | c :: rest =>
    let s := { s with place := rest }
    let optchar := char_int c
    let oli := (e.letters.dropWhile (· ≠ c)).tail
    if c = COLON ∨ (c = MINUS ∧ rest ≠ []) ∨ c ∉ e.letters then
      if c = MINUS ∧ rest = [] then some (-1, s)
      else
        some (BADCH, { s with
          optind := if rest = [] then s.optind + 1 else s.optind
          err := s.err ++ e.print (illopt [c])
          optopt := optchar })
    else if e.long_options.isSome ∧ c = 87 ∧ oli.head? = some 59 then
      if rest = [] ∧ s.nargv.length ≤ s.optind + 1 then
        some (e.BADARG, { s with
          optind := s.optind + 1, place := [], err := s.err ++ e.print (recarg [c]),
          optopt := optchar })
      else
        let s := if rest = [] then
            { s with optind := s.optind + 1, place := s.nargv.getD (s.optind + 1) [] }
          else s
        let r := parse_long_options e (e.long_options.getD []) false s
        some (r.1, { r.2 with place := [] })
    else if oli.head? ≠ some COLON then
      some (optchar, { s with optind := if rest = [] then s.optind + 1 else s.optind })
    else if rest ≠ [] then
      some (optchar, { s with optarg := some rest, place := [], optind := s.optind + 1 })
    else if oli.tail.head? = some COLON then
      some (optchar, { s with optarg := none, place := [], optind := s.optind + 1 })
    else if s.nargv.length ≤ s.optind + 1 then
      some (e.BADARG, { s with
        optarg := none
        optind := s.optind + 1
        place := []
        err := s.err ++ e.print (recarg [c])
        optopt := optchar })
    else
      some (optchar, { s with
        optarg := s.nargv[s.optind + 1]?, place := [], optind := s.optind + 1 + 1 })

/-- The rest of `getopt_internal`. `place` is inside of the argument unless it has its length. -/
def letters (e : Env) (s : State) : Option (Int × State) :=
  match e.long_options with
  | none => letter e s
  | some long_options =>
    if s.place.length ≠ (s.nargv.getD s.optind []).length ∧
        (s.place.head? = some MINUS ∨ e.longonly) then
      let dashes := s.place.head? = some MINUS
      let short_too := !dashes && (match s.place with
        | [] => false
        | c :: _ => c ≠ COLON && c ∈ e.letters)
      let s := if dashes then { s with place := s.place.tail } else s
      let r := parse_long_options e long_options short_too s
      if r.1 ≠ -1 then some (r.1, { r.2 with place := [] })
      else letter e r.2
    else letter e s

def getopt_internal (e : Env) (s : State) : Option (Int × State) :=
  let s := if s.optind = 0 then { s with optind := 1, optreset := true } else s
  let s := { s with optarg := none }
  let s := if s.optreset then { s with nonopt_start := none, nonopt_end := none } else s
  match scan e s with
  | none => none
  | some (.ret ch, s) => some (ch, s)
  | some (.letters, s) => letters e s

def getopt (options : Text) (posixly_correct opterr : Bool) : State → Option (Int × State) :=
  getopt_internal ⟨options, none, false, false, posixly_correct, opterr⟩

/-- What `getopt_long` passes on. -/
def longEnv (options : Text) (long_options : List LongOption) (posixly_correct opterr : Bool) :
    Env :=
  ⟨options, some long_options, true, false, posixly_correct, opterr⟩

def getopt_long (options : Text) (long_options : List LongOption) (posixly_correct opterr : Bool) :
    State → Option (Int × State) :=
  getopt_internal (longEnv options long_options posixly_correct opterr)

def getopt_long_only (options : Text) (long_options : List LongOption)
    (posixly_correct opterr : Bool) :
    State → Option (Int × State) :=
  getopt_internal ⟨options, some long_options, true, true, posixly_correct, opterr⟩

/-- What `main` looks at after a call. -/
structure Seen where
  ch : Int
  optarg : Option Text
  longindex : Option Int
deriving DecidableEq

def State.seen (s : State) (ch : Int) : Seen := ⟨ch, s.optarg, if ch = 0 then some s.idx else none⟩

/-- The calls of `main`, up to the first one that returns a negative number. -/
def calls (getopt : State → Option (Int × State)) : Nat → State → Option (List Seen × State)
  | 0, _ => none
  | n + 1, s =>
    match getopt s with
    | none => none
    | some (ch, s) =>
      if ch < 0 then some ([], s)
      else (calls getopt n s).map fun r => (s.seen ch :: r.1, r.2)

/-- Before the first call. -/
def init (nargv : List Text) : State where
  nargv := nargv
  optind := 1
  optopt := BADCH
  optarg := none
  optreset := false
  place := []
  nonopt_start := none
  nonopt_end := none
  idx := 0
  flags := fun _ => 0
  err := []

/-! ## What the exchange does -/

theorem gcd_eq (a : Nat) {b : Nat} (hb : b ≠ 0) : gcd a b = some (Nat.gcd a b) := by
  induction b using Nat.strongRecOn generalizing a with
  | ind b ih =>
    have hstep : Nat.gcd a b = Nat.gcd b (a % b) := by rw [Nat.gcd_comm, Nat.gcd_rec, Nat.gcd_comm]
    rw [gcd, dif_neg hb]
    by_cases hmod : a % b = 0
    · rw [if_pos hmod, hstep, hmod, Nat.gcd_zero_right]
    · rw [if_neg hmod, ih (a % b) (Nat.mod_lt _ (Nat.pos_of_ne_zero hb)) b hmod, hstep]

/-- The vector as a function of the place. -/
def view (nargv : List Text) (i : Nat) : Text := nargv.getD i []

theorem view_set {nargv : List Text} {i : Nat} (hi : i < nargv.length) (x : Text) :
    view (nargv.set i x) = Function.update (view nargv) i x := by
  funext k
  unfold view
  by_cases hk : k = i
  · rw [hk, Function.update_self, List.getD_eq_getElem _ _ (by rwa [List.length_set]),
      List.getElem_set_self]
  · rw [Function.update_of_ne hk, List.getD_eq_getElem?_getD, List.getElem?_set_ne (Ne.symm hk),
      List.getD_eq_getElem?_getD]

theorem view_left {xs : List Text} (ys : List Text) {i : Nat} (hi : i < xs.length) :
    view (xs ++ ys) i = view xs i := List.getD_append _ _ _ _ hi

theorem view_right (xs ys : List Text) (i : Nat) : view (xs ++ ys) (xs.length + i) = view ys i := by
  unfold view
  rw [List.getD_append_right _ _ _ _ (Nat.le_add_right _ _), Nat.add_sub_cancel_left]

theorem ext_view {xs ys : List Text} (hlen : xs.length = ys.length)
    (h : ∀ i, i < xs.length → view xs i = view ys i) : xs = ys := by
  apply List.ext_getElem hlen
  intro i hx hy
  have hi := h i hx
  unfold view at hi
  rwa [List.getD_eq_getElem _ _ hx, List.getD_eq_getElem _ _ hy] at hi

section
variable {start a b : Nat} {nargv : List Text}

theorem shift_lt (h : start + a + b ≤ nargv.length) {x : Nat} (hx : x < nargv.length) :
    Cycles.shift start a b x < nargv.length := by
  unfold Cycles.shift
  split_ifs <;> omega

theorem cycle_loop_spec {cstart pos : Nat} (j : Nat) (h : start + a + b ≤ nargv.length)
    (hc : cstart < nargv.length) (hpos : pos < nargv.length) :
    ∃ nargv', cycle_loop (start + a) a b cstart j pos nargv = some nargv' ∧
      nargv'.length = nargv.length ∧
      view nargv' = Cycles.cycle (Cycles.shift start a b) cstart j pos (view nargv) := by
  induction j generalizing pos nargv with
  | zero => exact ⟨nargv, rfl, rfl, rfl⟩
  | succ j ih =>
    have hnext := shift_lt h hpos
    have hturn : cycle_loop (start + a) a b cstart (j + 1) pos nargv =
        cycle_loop (start + a) a b cstart j (Cycles.shift start a b pos)
          ((nargv.set (Cycles.shift start a b pos) nargv[cstart]).set cstart
            nargv[Cycles.shift start a b pos]) := by
      rw [cycle_loop]
      change (match nargv[Cycles.shift start a b pos]?, nargv[cstart]? with
        | some swap, some first => _
        | _, _ => none) = _
      rw [List.getElem?_eq_getElem hnext, List.getElem?_eq_getElem hc]
      rfl
    have hroom : start + a + b ≤ ((nargv.set (Cycles.shift start a b pos) nargv[cstart]).set cstart
        nargv[Cycles.shift start a b pos]).length := by rwa [List.length_set, List.length_set]
    obtain ⟨nargv', hloop, hlen, hview⟩ := ih hroom (by rwa [List.length_set, List.length_set])
      (by rwa [List.length_set, List.length_set])
    refine ⟨nargv', hturn.trans hloop, ?_, ?_⟩
    · rw [hlen, List.length_set, List.length_set]
    · have hswap : Cycles.swap (view nargv) (Cycles.shift start a b pos) cstart =
          Function.update (Function.update (view nargv) (Cycles.shift start a b pos) nargv[cstart])
            cstart nargv[Cycles.shift start a b pos] := by
        unfold Cycles.swap view
        rw [List.getD_eq_getElem _ _ hnext, List.getD_eq_getElem _ _ hc]
      rw [hview, view_set (by rwa [List.length_set]), view_set hnext, ← hswap]
      rfl

theorem cycles_loop_spec (len : Nat) {i n : Nat} (h : start + a + b ≤ nargv.length)
    (hi : i + n ≤ b) :
    ∃ nargv', cycles_loop (start + a) a b len i n nargv = some nargv' ∧
      nargv'.length = nargv.length ∧
      view nargv' = Cycles.cycles (Cycles.shift start a b) (fun i => start + a + i) len i n
        (view nargv) := by
  induction n generalizing i nargv with
  | zero => exact ⟨nargv, rfl, rfl, rfl⟩
  | succ n ih =>
    have hstart : start + a + i < nargv.length := by omega
    obtain ⟨nargv1, hone, hlen1, hview1⟩ := cycle_loop_spec len h hstart hstart
    obtain ⟨nargv2, hrest, hlen2, hview2⟩ := ih (hlen1 ▸ h) (by omega : i + 1 + n ≤ b)
    refine ⟨nargv2, ?_, hlen2.trans hlen1, ?_⟩
    · rw [cycles_loop, hone]
      exact hrest
    · rw [hview2, hview1]
      rfl

end

/-- The two blocks change places, and each keeps its order. -/
theorem permute_args_spec (front nonopts : List Text) {opts : List Text} (rest : List Text)
    (hopts : opts ≠ []) :
    permute_args front.length (front.length + nonopts.length)
        (front.length + nonopts.length + opts.length) (front ++ (nonopts ++ (opts ++ rest))) =
      some (front ++ (opts ++ (nonopts ++ rest))) := by
  have hpos := List.length_pos_iff.mpr hopts
  have hgcd : 0 < Nat.gcd nonopts.length opts.length := Nat.gcd_pos_of_pos_right _ hpos
  have hroom : front.length + nonopts.length + opts.length ≤
      (front ++ (nonopts ++ (opts ++ rest))).length := by
    simp only [List.length_append]
    omega
  have hfirst : 0 + Nat.gcd nonopts.length opts.length ≤ opts.length := by
    rw [Nat.zero_add]
    exact Nat.gcd_le_right _ hpos
  obtain ⟨nargv, hloop, hlen, hview⟩ := cycles_loop_spec
    ((nonopts.length + opts.length) / Nat.gcd nonopts.length opts.length) hroom hfirst
  obtain ⟨hmoved, hothers⟩ := Cycles.cycles_shift (a := nonopts.length) front.length hpos
    (view (front ++ (nonopts ++ (opts ++ rest))))
  rw [← hview] at hmoved hothers
  have hresult : nargv = front ++ (opts ++ (nonopts ++ rest)) := by
    apply ext_view
    · rw [hlen]
      simp only [List.length_append]
      omega
    intro i hi
    simp only [hlen, List.length_append] at hi
    rcases Nat.lt_or_ge i front.length with hfront | hge
    · rw [hothers i (.inl hfront), view_left _ hfront, view_left _ hfront]
    obtain ⟨r, rfl⟩ := Nat.exists_eq_add_of_le hge
    rw [view_right]
    rcases Nat.lt_or_ge r opts.length with hopt | hge
    · -- an option comes from behind the other block
      have hfrom : Cycles.shift front.length nonopts.length opts.length
          (front.length + (nonopts.length + r)) = front.length + r := by
        unfold Cycles.shift
        rw [if_pos (by omega)]
        omega
      rw [← hfrom, hmoved _ (by omega), view_right, view_right, view_left _ hopt, view_left _ hopt]
    obtain ⟨r, rfl⟩ := Nat.exists_eq_add_of_le hge
    rw [view_right]
    rcases Nat.lt_or_ge r nonopts.length with hnonopt | hge
    · have hfrom : Cycles.shift front.length nonopts.length opts.length (front.length + r) =
          front.length + (opts.length + r) := by
        unfold Cycles.shift
        rw [if_neg (by omega)]
        omega
      rw [← hfrom, hmoved _ (by omega), view_right, view_left _ hnonopt, view_left _ hnonopt]
    · obtain ⟨r, rfl⟩ := Nat.exists_eq_add_of_le hge
      have hplace : opts.length + (nonopts.length + r) = nonopts.length + (opts.length + r) := by
        omega
      rw [hothers _ (.inr (by omega)), view_right, hplace, view_right, view_right, view_right]
  unfold permute_args
  have h1 : front.length + nonopts.length - front.length = nonopts.length := by omega
  have h2 : front.length + nonopts.length + opts.length - (front.length + nonopts.length) =
      opts.length := by omega
  have h3 : front.length + nonopts.length + opts.length - front.length =
      nonopts.length + opts.length := by omega
  dsimp only
  rw [h1, h2, h3, gcd_eq _ (Nat.ne_of_gt hpos)]
  dsimp only
  rw [hloop, hresult]

/-! ## The command line in its order -/

/-- What one call finds: what it returns, and what it sets and prints. -/
structure Found where
  ch : Int
  optarg : Option Text
  optopt : Option Int
  long : Option (Nat × LongOption)
  message : Option Text

def Found.option (ch : Int) (optarg : Option Text) : Found := ⟨ch, optarg, none, none, none⟩

def Found.error (ch optopt : Int) (message : Text) : Found :=
  ⟨ch, none, some optopt, none, some message⟩

def Found.seen (f : Found) : Seen :=
  ⟨f.ch, f.optarg, if f.ch = 0 then f.long.map (fun x => (x.1 : Int)) else none⟩

/-- What a long option puts in its flag. -/
def Found.set (f : Found) (flags : Nat → Int) : Nat → Int :=
  match f.long with
  | none => flags
  | some (_, o) =>
    match o.flag with
    | some flag => Function.update flags flag o.val
    | none => flags

def Found.print (e : Env) (f : Found) : List Text :=
  match f.message with
  | none => []
  | some text => e.print text

/-- What a call returns for a long option. -/
def LongOption.ret (o : LongOption) : Int :=
  match o.flag with
  | some _ => 0
  | none => o.val

section
variable (e : Env) (longs : List LongOption)

/-- A long option without its dashes, in front of the argument `next`. The second value says whether
it takes that argument. -/
def longOption (text : Text) (next : Option Text) : Found × Bool :=
  let name := text.takeWhile (· ≠ EQUALS)
  let value := (text.dropWhile (· ≠ EQUALS)).tail
  match find_match name false longs 0 none with
  | none => (.error BADCH 0 (ambig name), false)
  | some none => (.error BADCH 0 (illopt text), false)
  | some (some (i, o)) =>
    let found (optarg : Option Text) : Found := ⟨o.ret, optarg, none, some (i, o), none⟩
    match o.has_arg with
    | .no_argument =>
      if EQUALS ∈ text then (.error e.BADARG o.blamed (noarg name), false) else (found none, false)
    | .optional_argument => (found (if EQUALS ∈ text then some value else none), false)
    | .required_argument =>
      if EQUALS ∈ text then (found (some value), false)
      else
        match next with
        | some arg => (found (some arg), true)
        | none => (.error e.BADARG o.blamed (recarg text), false)

/-- The first letter of a text behind a dash. The second value is `none` where the text goes on, and
says otherwise whether the next argument is taken. -/
def firstLetter (c : Byte) (rest : Text) (next : Option Text) : Found × Option Bool :=
  let oli := (e.letters.dropWhile (· ≠ c)).tail
  if c = MINUS then
    let r := longOption e longs rest next
    (r.1, some r.2)
  else if c = COLON ∨ c ∉ e.letters then (.error BADCH (char_int c) (illopt [c]), none)
  else if oli.head? ≠ some COLON then (.option (char_int c) none, none)
  else if rest ≠ [] then (.option (char_int c) (some rest), some false)
  else if oli.tail.head? = some COLON then (.option (char_int c) none, some false)
  else
    match next with
    | some arg => (.option (char_int c) (some arg), some true)
    | none => (.error e.BADARG (char_int c) (recarg [c]), some false)

/-- An argument without the dash in front. -/
def optionArg : Text → Option Text → List Found × Bool
  | [], _ => ([], false)
  | c :: rest, next =>
    match firstLetter e longs c rest next with
    | (f, some took) => ([f], took)
    | (f, none) => (f :: (optionArg rest next).1, (optionArg rest next).2)

structure Parsed where
  founds : List Found
  used : List Text
  operands : List Text

def isOperand (arg : Text) : Bool := arg.head? ≠ some MINUS || arg.tail = []

/-- The arguments one after the other: the options with what they take, and the others. -/
def parse : List Text → Parsed
  | [] => ⟨[], [], []⟩
  | a :: args =>
    if isOperand a then
      let r := parse args
      ⟨r.founds, r.used, a :: r.operands⟩
    else if a.tail = [MINUS] then ⟨[], [a], args⟩
    else
      let x := optionArg e longs a.tail args.head?
      let r := parse (args.drop x.2.toNat)
      ⟨x.1 ++ r.founds, a :: (args.take x.2.toNat ++ r.used), r.operands⟩
termination_by args => args.length
decreasing_by
  · exact Nat.lt_succ_self _
  · rw [List.length_drop]
    exact Nat.lt_succ_of_le (Nat.sub_le _ _)

end

/-- The options are as `getopt_long` promises for them: letters without a sign in front, none of
which is a dash or stands for long options, and no long option returns the number that ends the
scan. -/
structure Plain (e : Env) (longs : List LongOption) : Prop where
  long_options : e.long_options = some longs
  permute : e.permute = true
  longonly : e.longonly = false
  posixly_correct : e.posixly_correct = false
  sign : e.options.head? ≠ some 43
  dash : MINUS ∉ e.options
  word : 87 ∉ e.options
  ascii : ∀ c ∈ e.options, 0 < c ∧ c < 128
  vals : ∀ o ∈ longs, o.flag = none → 0 ≤ o.val

/-! ## One option -/

/-- What a call leaves, but for the place where it stops. -/
def Found.apply (e : Env) (f : Found) (s : State) : State :=
  { s with
    optarg := f.optarg
    optopt := f.optopt.getD s.optopt
    idx := (f.long.map fun x => (x.1 : Int)).getD s.idx
    flags := f.set s.flags
    err := s.err ++ f.print e }

section
variable {e : Env} {longs : List LongOption} {s : State}

theorem parse_long_options_spec (harg : s.optarg = none) :
    parse_long_options e longs false s =
      ((longOption e longs s.place s.nargv[s.optind + 1]?).1.ch,
        { (longOption e longs s.place s.nargv[s.optind + 1]?).1.apply e s with
          optind :=
            s.optind + 1 + (longOption e longs s.place s.nargv[s.optind + 1]?).2.toNat }) := by
  obtain ⟨nargv, optind, optopt, optarg, optreset, place, nonopt_start, nonopt_end, idx, flags,
      err⟩ := s
  obtain rfl : optarg = none := harg
  unfold parse_long_options longOption
  dsimp only
  rcases hmatch : find_match (place.takeWhile (· ≠ EQUALS)) false longs 0 none with _ | _ | ⟨i, o⟩
  · rfl
  · rfl
  · obtain ⟨name, has_arg, flag, val⟩ := o
    dsimp only
    cases has_arg with
    | no_argument =>
      by_cases heq : EQUALS ∈ place
      · simp [heq, Found.error, Found.apply, Found.set, Found.print]
      · cases flag <;> simp [heq, LongOption.ret, Found.apply, Found.set, Found.print]
    | optional_argument =>
      by_cases heq : EQUALS ∈ place
      · cases flag <;> simp [heq, LongOption.ret, Found.apply, Found.set, Found.print]
      · cases flag <;> simp [heq, LongOption.ret, Found.apply, Found.set, Found.print]
    | required_argument =>
      by_cases heq : EQUALS ∈ place
      · cases flag <;> simp [heq, LongOption.ret, Found.apply, Found.set, Found.print]
      · cases hnext : nargv[optind + 1]? with
        | none => simp [heq, Found.error, Found.apply, Found.set, Found.print]
        | some arg => cases flag <;> simp [heq, LongOption.ret, Found.apply, Found.set, Found.print]

theorem Plain.letters (h : Plain e longs) : e.letters = e.options := by
  unfold Env.letters
  have hsign := h.sign
  have hdash := h.dash
  split
  · rename_i heq
    rw [heq] at hsign
    exact absurd rfl hsign
  · rename_i heq
    rw [heq] at hdash
    exact absurd List.mem_cons_self hdash
  · rfl

theorem find_match_mem {name : Text} {short_too : Bool} {os : List LongOption} {i j : Nat}
    {found : Option (Nat × LongOption)} {o : LongOption}
    (h : find_match name short_too os i found = some (some (j, o))) : found = some (j, o) ∨
    o ∈ os := by
  induction os generalizing i found with
  | nil => exact .inl (Option.some.inj h)
  | cons x os ih =>
    unfold find_match at h
    split_ifs at h with hprefix hwhole hshort
    · exact (ih h).imp_right (List.mem_cons_of_mem x)
    · obtain ⟨-, rfl⟩ := Prod.mk.inj (Option.some.inj (Option.some.inj h))
      exact .inr List.mem_cons_self
    · exact (ih h).imp_right (List.mem_cons_of_mem x)
    · cases found with
      | none =>
        rcases ih h with heq | hmem
        · obtain ⟨-, rfl⟩ := Prod.mk.inj (Option.some.inj heq)
          exact .inr List.mem_cons_self
        · exact .inr (List.mem_cons_of_mem x hmem)
      | some y => cases h

theorem badarg_nonneg (e : Env) : 0 ≤ e.BADARG := by
  unfold Env.BADARG
  split_ifs <;> decide

theorem Plain.long_nonneg (h : Plain e longs) (text : Text) (next : Option Text) :
    0 ≤ (longOption e longs text next).1.ch := by
  have hbad := badarg_nonneg e
  have hbadch : (0 : Int) ≤ BADCH := by decide
  unfold longOption
  dsimp only
  rcases hmatch : find_match (text.takeWhile (· ≠ EQUALS)) false longs 0 none with _ | _ | ⟨i, o⟩
  · exact hbadch
  · exact hbadch
  · have hmem : o ∈ longs := (find_match_mem hmatch).resolve_left (by simp)
    have hret : 0 ≤ o.ret := by
      unfold LongOption.ret
      split
      · exact Int.le_refl 0
      · exact h.vals o hmem ‹o.flag = none›
    dsimp only
    cases o.has_arg with
    | no_argument => by_cases heq : EQUALS ∈ text <;> simp [heq, Found.error, hret, hbad]
    | optional_argument => exact hret
    | required_argument =>
      by_cases heq : EQUALS ∈ text
      · simp [heq, hret]
      · cases next <;> simp [heq, Found.error, hret, hbad]

theorem Plain.char_pos (h : Plain e longs) {c : Byte} (hc : c ∈ e.options) : 0 < char_int c := by
  obtain ⟨hpos, hlt⟩ := h.ascii c hc
  unfold char_int
  rw [if_pos hlt]
  have hne : 0 < c.toNat := UInt8.lt_iff_toNat_lt.mp hpos
  omega

theorem Plain.first_nonneg (h : Plain e longs) (c : Byte) (rest : Text) (next : Option Text) :
    0 ≤ (firstLetter e longs c rest next).1.ch := by
  have hbadch : (0 : Int) ≤ BADCH := by decide
  unfold firstLetter
  dsimp only
  split_ifs with hdash hill hplain hrest hoptional
  · exact h.long_nonneg rest next
  · exact hbadch
  all_goals rw [not_or, not_not, h.letters] at hill
  · exact (h.char_pos hill.2).le
  · exact (h.char_pos hill.2).le
  · exact (h.char_pos hill.2).le
  · split
    · exact (h.char_pos hill.2).le
    · exact badarg_nonneg e

/-- Where a call stops that has read the letter in front of `rest`. -/
def stop (rest : Text) : Option Bool → Text × Nat
  | some took => ([], 1 + took.toNat)
  | none => (rest, if rest = [] then 1 else 0)

/-- One letter, or the long option behind two dashes. -/
theorem letters_spec (h : Plain e longs) {c : Byte} {rest : Text} (hplace : s.place = c :: rest)
    (harg : s.optarg = none) (hinside : s.place.length ≠ (s.nargv.getD s.optind []).length) :
    letters e s =
      some ((firstLetter e longs c rest s.nargv[s.optind + 1]?).1.ch,
        { (firstLetter e longs c rest s.nargv[s.optind + 1]?).1.apply e s with
          place := (stop rest (firstLetter e longs c rest s.nargv[s.optind + 1]?).2).1
          optind :=
            s.optind + (stop rest (firstLetter e longs c rest s.nargv[s.optind + 1]?).2).2 }) := by
  have hopts := h.letters
  have hword : c ∈ e.letters → c ≠ 87 := fun hc heq => h.word (heq ▸ hopts ▸ hc)
  have hdashes : MINUS ∉ e.letters := by rw [hopts]; exact h.dash
  unfold letters
  rw [h.long_options]
  dsimp only
  by_cases hc : c = MINUS
  · -- a long option
    subst hc
    have hlong := @parse_long_options_spec e longs { s with place := rest } harg
    have hne := h.long_nonneg rest s.nargv[s.optind + 1]?
    rw [if_pos ⟨hinside, .inl (by rw [hplace]; rfl)⟩]
    simp only [hplace, List.head?_cons, List.tail_cons, decide_true, if_true, Bool.not_true,
      Bool.false_and]
    rw [hlong]
    dsimp only
    rw [if_pos (by omega)]
    unfold firstLetter stop
    dsimp only
    rw [if_pos rfl, Nat.add_assoc]
    rfl
  · have hhead : s.place.head? ≠ some MINUS := by
      rw [hplace]
      simpa using hc
    rw [if_neg (by rw [h.longonly]; simp [hhead])]
    unfold letter firstLetter
    rw [hplace]
    dsimp only
    rw [if_neg hc]
    by_cases hill : c = COLON ∨ c ∉ e.letters
    · rw [if_pos (hill.imp_right .inr), if_neg (fun hminus => hc hminus.1), if_pos hill]
      by_cases hrest : rest = [] <;>
        simp [hrest, stop, Found.error, Found.apply, Found.set, Found.print, harg]
    · have hmem : c ∈ e.letters := by simpa using (not_or.mp hill).2
      rw [if_neg
        (fun hbad => hill (hbad.imp_right fun hor => hor.resolve_left fun hminus => hc hminus.1)),
        if_neg (fun hword' => hword hmem hword'.2.1), if_neg hill]
      by_cases harg' : (e.letters.dropWhile (· ≠ c)).tail.head? = some COLON
      · rw [if_neg (not_not.mpr harg'), if_neg (not_not.mpr harg')]
        by_cases hrest : rest = []
        · rw [if_neg (not_not.mpr hrest), if_neg (not_not.mpr hrest)]
          by_cases hoptional : (e.letters.dropWhile (· ≠ c)).tail.tail.head? = some COLON
          · rw [if_pos hoptional, if_pos hoptional]
            simp [stop, Found.option, Found.apply, Found.set, Found.print]
          · rw [if_neg hoptional, if_neg hoptional]
            by_cases hend : s.nargv.length ≤ s.optind + 1
            · rw [if_pos hend, List.getElem?_eq_none hend]
              simp [stop, Found.error, Found.apply, Found.set, Found.print]
            · rw [if_neg hend, List.getElem?_eq_getElem (Nat.lt_of_not_le hend)]
              simp [stop, Found.option, Found.apply, Found.set, Found.print, Nat.add_assoc]
        · rw [if_pos hrest, if_pos hrest]
          simp [stop, Found.option, Found.apply, Found.set, Found.print]
      · rw [if_pos harg', if_pos harg']
        by_cases hrest : rest = [] <;>
          simp [hrest, stop, Found.option, Found.apply, Found.set, Found.print, harg]

/-! ## The blocks of the vector -/

/-- The marks of the block of other arguments: there is none, it ends where the scan is, or `opts`
are the options behind it. -/
def Marks (front operands opts : List Text) (nonopt_start nonopt_end : Option Nat) : Prop :=
  (operands = [] ∧ nonopt_start = none ∧ nonopt_end = none) ∨
    (opts = [] ∧ nonopt_start = some front.length ∧ nonopt_end = none) ∨
    (nonopt_start = some front.length ∧ nonopt_end = some (front.length + operands.length))

/-- The scan has come to `rest`: `used` are the options up to here with what they took, and
`operands` the other arguments, which stand somewhere between the options. -/
structure Blocks (s : State) (used operands rest front opts : List Text) : Prop where
  split : used = front ++ opts
  nargv : s.nargv = front ++ (operands ++ (opts ++ rest))
  optind : s.optind = used.length + operands.length
  named : used ≠ []
  reset : s.optreset = false
  marks : Marks front operands opts s.nonopt_start s.nonopt_end

/-- Between two arguments. -/
def Between (s : State) (used operands rest : List Text) : Prop :=
  s.place = [] ∧ ∃ front opts, Blocks s used operands rest front opts ∧
    (s.nonopt_end ≠ none → opts ≠ [])

/-- Inside of an option, where nothing is skipped any more. -/
def Inside (s : State) (used operands rest : List Text) : Prop :=
  ∃ front opts, Blocks s used operands rest front opts ∧
    (s.nonopt_end = none → s.nonopt_start = none)

section
variable {used operands rest front opts : List Text}

theorem Blocks.optind_eq (h : Blocks s used operands rest front opts) :
    s.optind = front.length + operands.length + opts.length := by
  rw [h.optind, h.split, List.length_append]
  omega

theorem Blocks.next (h : Blocks s used operands rest front opts) (i : Nat) :
    s.nargv[s.optind + i]? = rest[i]? := by
  have hplace : s.optind + i = front.length + (operands.length + (opts.length + i)) := by
    rw [h.optind_eq]
    omega
  rw [h.nargv, hplace, List.getElem?_append_right (by omega), Nat.add_sub_cancel_left,
    List.getElem?_append_right (by omega), Nat.add_sub_cancel_left,
    List.getElem?_append_right (by omega), Nat.add_sub_cancel_left]

theorem Blocks.length (h : Blocks s used operands rest front opts) :
    s.nargv.length = s.optind + rest.length := by
  rw [h.nargv, h.optind_eq]
  simp only [List.length_append]
  omega

/-- All options stand in front when the blocks have changed places. -/
theorem Blocks.permuted (h : Blocks s used operands rest front opts) (hopts : opts ≠ []) :
    permute_args front.length (front.length + operands.length) s.optind s.nargv =
      some (used ++ (operands ++ rest)) := by
  rw [h.optind_eq, h.nargv, permute_args_spec front operands rest hopts, h.split, List.append_assoc]

/-! ## The scan over the arguments -/

theorem Plain.permutes (h : Plain e longs) : e.permutes = true := by
  unfold Env.permutes
  simp [h.permute, h.posixly_correct, h.sign]

theorem Plain.allargs (h : Plain e longs) : e.allargs = false := by
  have hhead : e.options.head? ≠ some MINUS := fun heq => h.dash (List.mem_of_head? heq)
  unfold Env.allargs
  simp [hhead]

theorem Blocks.arg {a : Text} (h : Blocks s used operands (a :: rest) front opts) :
    ∃ hlt : s.optind < s.nargv.length, s.nargv[s.optind] = a := by
  have hlen := h.length
  have hget := h.next 0
  rw [List.length_cons] at hlen
  rw [Nat.add_zero, List.getElem?_eq_getElem (by omega)] at hget
  exact ⟨by omega, Option.some.inj hget⟩

/-- An argument that is no option is skipped. -/
theorem scan_operand (h : Plain e longs) {a : Text} (hb : Between s used operands (a :: rest))
    (ha : isOperand a = true) :
    ∃ s', scan e s = scan e s' ∧ Between s' used (operands ++ [a]) rest ∧
      s'.flags = s.flags ∧ s'.err = s.err ∧ s'.optarg = s.optarg := by
  obtain ⟨hplace, front, opts, hblocks, hopts⟩ := hb
  obtain ⟨hlt, harg⟩ := hblocks.arg
  have hoperand : a.head? ≠ some MINUS ∨ (a.tail = [] ∧ MINUS ∉ e.letters) := by
    have hdash : MINUS ∉ e.letters := by rw [h.letters]; exact h.dash
    unfold isOperand at ha
    simpa [hdash] using ha
  have hoptind := hblocks.optind
  have hsplit := hblocks.split
  rw [scan, if_pos (by rw [hplace]; simp), dif_neg (Nat.not_le.mpr hlt)]
  dsimp only
  rw [harg, if_pos hoperand, h.allargs, h.permutes]
  simp only [Bool.false_eq_true, if_false, Bool.not_true]
  rcases hblocks.marks with ⟨hnone, hstart, hend⟩ | ⟨hnil, hstart, hend⟩ | ⟨hstart, hend⟩
  · -- the first of a block
    simp only [hstart]
    refine ⟨_, rfl, ⟨rfl, used, [], ⟨?_, ?_, ?_, hblocks.named, rfl, .inr (.inl ⟨rfl, ?_, hend⟩)⟩,
      fun hne => absurd hend hne⟩, rfl, rfl, rfl⟩
    · rw [List.append_nil]
    · rw [hnone, hsplit]
      simpa [hnone] using hblocks.nargv
    · rw [hoptind, hnone]
      rfl
    · rw [hoptind, hnone]
      rfl
  · simp only [hstart, hend]
    refine ⟨_, rfl, ⟨rfl, front, [], ⟨?_, ?_, ?_, hblocks.named, rfl, .inr (.inl ⟨rfl, rfl, rfl⟩)⟩,
      fun hne => absurd rfl hne⟩, rfl, rfl, rfl⟩
    · rw [hsplit, hnil]
    · simpa [hnil] using hblocks.nargv
    · rw [hoptind, List.length_append, Nat.add_assoc]
      rfl
  · -- the block in front moves behind the options
    have hpermute := hblocks.permuted (hopts (by rw [hend]; simp))
    simp only [hstart, hend]
    split
    · rename_i hfail
      rw [hpermute] at hfail
      cases hfail
    · rename_i nargv hdone
      rw [hpermute] at hdone
      obtain rfl := Option.some.inj hdone
      refine ⟨_, rfl, ⟨rfl, used, [], ⟨?_, ?_, ?_, hblocks.named, rfl, .inr (.inl ⟨rfl, ?_, rfl⟩)⟩,
        fun hne => absurd rfl hne⟩, rfl, rfl, rfl⟩
      · rw [List.append_nil]
      · simp
      · rw [hoptind, List.length_append, Nat.add_assoc]
        rfl
      · rw [hoptind, Nat.add_sub_cancel_left, Nat.add_sub_cancel_right]

/-- An option, with its dash taken away. -/
theorem scan_option (e : Env) {a : Text} (hb : Between s used operands (a :: rest))
    (ha : isOperand a = false) (hdashes : a.tail ≠ [MINUS]) :
    ∃ s', scan e s = some (.letters, s') ∧ Inside s' used operands (a :: rest) ∧ s'.place = a.tail ∧
      s'.flags = s.flags ∧ s'.err = s.err ∧ s'.optarg = s.optarg := by
  obtain ⟨hplace, front, opts, hblocks, hopts⟩ := hb
  obtain ⟨hlt, harg⟩ := hblocks.arg
  unfold isOperand at ha
  rw [Bool.or_eq_false_iff, decide_eq_false_iff_not, decide_eq_false_iff_not, not_not] at ha
  obtain ⟨hhead, htail⟩ := ha
  rw [scan, if_pos (by rw [hplace]; simp), dif_neg (Nat.not_le.mpr hlt)]
  dsimp only
  rw [harg, if_neg (by simp [hhead, htail]), if_neg hdashes, if_neg htail]
  refine ⟨_, rfl,
    ⟨front, opts, ⟨hblocks.split, hblocks.nargv, hblocks.optind, hblocks.named, rfl, ?_⟩, ?_⟩,
    rfl, rfl, rfl, rfl⟩
  · rcases hblocks.marks with ⟨hnone, hstart, hend⟩ | ⟨hnil, hstart, hend⟩ | ⟨hstart, hend⟩
    · exact .inl ⟨hnone, hstart, by simp [hstart, hend]⟩
    · refine .inr (.inr ⟨hstart, ?_⟩)
      rw [if_pos ⟨by rw [hstart]; rfl, hend⟩, hblocks.optind_eq, hnil]
      rfl
    · exact .inr (.inr ⟨hstart, by simp [hend]⟩)
  · rcases hblocks.marks with ⟨-, hstart, -⟩ | ⟨-, hstart, hend⟩ | ⟨hstart, hend⟩
    · exact fun _ => hstart
    · simp [hstart, hend]
    · simp [hend]

/-- The scan ends: what is behind the options is what is left. -/
structure Ended (s s' : State) (used operands : List Text) : Prop where
  nargv : s'.nargv = used ++ operands
  optind : s'.optind = used.length
  flags : s'.flags = s.flags
  err : s'.err = s.err

theorem scan_end (e : Env) (hb : Between s used operands []) :
    ∃ s', scan e s = some (.ret (-1), s') ∧ Ended s s' used operands := by
  obtain ⟨hplace, front, opts, hblocks, hopts⟩ := hb
  have hlen := hblocks.length
  have hoptind := hblocks.optind
  have hsplit := hblocks.split
  rw [scan, if_pos (by rw [hplace]; simp), dif_pos (by rw [hlen]; exact Nat.le_refl _)]
  dsimp only
  rcases hblocks.marks with ⟨hnone, hstart, hend⟩ | ⟨hnil, hstart, hend⟩ | ⟨hstart, hend⟩
  · simp only [hstart]
    refine ⟨_, rfl, ?_, ?_, rfl, rfl⟩
    · simpa [hnone, hsplit] using hblocks.nargv
    · simpa [hnone] using hoptind
  · simp only [hstart, hend]
    refine ⟨_, rfl, ?_, ?_, rfl, rfl⟩
    · simpa [hnil, hsplit] using hblocks.nargv
    · rw [hsplit, hnil, List.append_nil]
  · have hpermute := hblocks.permuted (hopts (by rw [hend]; simp))
    simp only [hstart, hend, hpermute]
    refine ⟨_, rfl, ?_, ?_, rfl, rfl⟩
    · rw [List.append_nil]
    · change s.optind - (front.length + operands.length - front.length) = used.length
      omega

/-- So it does behind `--`. -/
theorem scan_dashes (e : Env) {a : Text} (hb : Between s used operands (a :: rest))
    (ha : isOperand a = false) (hdashes : a.tail = [MINUS]) :
    ∃ s', scan e s = some (.ret (-1), s') ∧ Ended s s' (used ++ [a]) (operands ++ rest) := by
  obtain ⟨hplace, front, opts, hblocks, hopts⟩ := hb
  obtain ⟨hlt, harg⟩ := hblocks.arg
  have hoptind := hblocks.optind
  have hsplit := hblocks.split
  unfold isOperand at ha
  rw [Bool.or_eq_false_iff, decide_eq_false_iff_not, decide_eq_false_iff_not, not_not] at ha
  obtain ⟨hhead, htail⟩ := ha
  rw [scan, if_pos (by rw [hplace]; simp), dif_neg (Nat.not_le.mpr hlt)]
  dsimp only
  rw [harg, if_neg (by simp [hhead, htail]), if_pos hdashes]
  have hoptions : s.optind + 1 = front.length + operands.length + (opts ++ [a]).length := by
    rw [hblocks.optind_eq, List.length_append, List.length_singleton, Nat.add_assoc]
  have hnargv : s.nargv = front ++ (operands ++ (opts ++ [a] ++ rest)) := by
    rw [hblocks.nargv, List.append_assoc opts]
    rfl
  have hpermute : permute_args front.length (front.length + operands.length)
      (s.optind + 1) s.nargv =
      some (used ++ [a] ++ (operands ++ rest)) := by
    rw [hoptions, hnargv, permute_args_spec front operands rest (by simp), hsplit]
    simp
  by_cases hnone : s.nonopt_start = none
  · simp only [hnone]
    have hoperands : operands = [] := by
      rcases hblocks.marks with ⟨hnil, -, -⟩ | ⟨-, hstart, -⟩ | ⟨hstart, -⟩
      · exact hnil
      · rw [hnone] at hstart
        cases hstart
      · rw [hnone] at hstart
        cases hstart
    refine ⟨_, rfl, ?_, ?_, rfl, rfl⟩
    · rw [hnargv, hoperands, hsplit]
      simp
    · rw [hoptind, hoperands, List.length_append]
      rfl
  · have hmarks : s.nonopt_start = some front.length ∧
        (if s.nonopt_start.isSome ∧ s.nonopt_end = none then some s.optind else s.nonopt_end) =
          some (front.length + operands.length) := by
      rcases hblocks.marks with ⟨-, hstart, -⟩ | ⟨hnil, hstart, hend⟩ | ⟨hstart, hend⟩
      · exact absurd hstart hnone
      · refine ⟨hstart, ?_⟩
        rw [if_pos ⟨by rw [hstart]; rfl, hend⟩, hblocks.optind_eq, hnil]
        rfl
      · refine ⟨hstart, ?_⟩
        rw [if_neg (by simp [hend]), hend]
    obtain ⟨hstart, hend⟩ := hmarks
    rw [hend]
    simp only [hstart, hpermute]
    refine ⟨_, rfl, rfl, ?_, rfl, rfl⟩
    change s.optind + 1 - (front.length + operands.length - front.length) = _
    rw [hoptind, List.length_append, List.length_singleton]
    omega

/-! ## The calls -/

theorem getopt_eq (e : Env) (hoptind : s.optind ≠ 0) (hreset : s.optreset = false) :
    getopt_internal e s =
      match scan e { s with optarg := none } with
      | none => none
      | some (.ret ch, s) => some (ch, s)
      | some (.letters, s) => letters e s := by
  obtain ⟨nargv, optind, optopt, optarg, optreset, place, nonopt_start, nonopt_end, idx, flags,
      err⟩ := s
  obtain rfl : optreset = false := hreset
  have hoptind : optind ≠ 0 := hoptind
  unfold getopt_internal
  simp only [hoptind, if_false, Bool.false_eq_true]

theorem Blocks.fresh (h : Blocks s used operands rest front opts) :
    Blocks { s with optarg := none } used operands rest front opts :=
  ⟨h.split, h.nargv, h.optind, h.named, h.reset, h.marks⟩

theorem Between.fresh (h : Between s used operands rest) :
    Between { s with optarg := none } used operands rest := by
  obtain ⟨hplace, front, opts, hblocks, hopts⟩ := h
  exact ⟨hplace, front, opts, hblocks.fresh, hopts⟩

theorem Blocks.optind_ne (h : Blocks s used operands rest front opts) : s.optind ≠ 0 := by
  have hpos := List.length_pos_iff.mpr h.named
  rw [h.optind]
  omega

/-- A call that starts inside of an option goes on with it. -/
theorem getopt_inside (e : Env) (h : Inside s used operands rest) (hplace : s.place ≠ []) :
    getopt_internal e s = letters e { s with optarg := none } := by
  obtain ⟨front, opts, hblocks, -⟩ := h
  have hreset := hblocks.reset
  rw [getopt_eq e hblocks.optind_ne hreset, scan, if_neg (by simp [hreset, hplace])]

theorem calls_congr {getopt : State → Option (Int × State)} {t : State} (h : getopt s = getopt t)
    (n : Nat) :
    calls getopt n s = calls getopt n t := by
  cases n with
  | zero => rfl
  | succ n =>
    unfold calls
    rw [h]

theorem calls_operand (h : Plain e longs) {a : Text} (hb : Between s used operands (a :: rest))
    (ha : isOperand a = true) :
    ∃ s', (∀ n, calls (getopt_internal e) n s = calls (getopt_internal e) n s') ∧
      Between s' used (operands ++ [a]) rest ∧ s'.flags = s.flags ∧ s'.err = s.err := by
  obtain ⟨s', hscan, hb', hflags, herr, harg⟩ := scan_operand h hb.fresh ha
  refine ⟨s', fun n => calls_congr ?_ n, hb', hflags, herr⟩
  have hsame : { s' with optarg := none } = s' := by
    obtain ⟨nargv, optind, optopt, optarg, optreset, place, nonopt_start, nonopt_end, idx, flags,
        err⟩ := s'
    obtain rfl : optarg = none := harg
    rfl
  obtain ⟨-, front, opts, hblocks, -⟩ := hb
  obtain ⟨-, front', opts', hblocks', -⟩ := hb'
  rw [getopt_eq e hblocks.optind_ne hblocks.reset, getopt_eq e hblocks'.optind_ne hblocks'.reset,
    hsame, hscan]

theorem calls_option (e : Env) {a : Text} (hb : Between s used operands (a :: rest))
    (ha : isOperand a = false) (hdashes : a.tail ≠ [MINUS]) :
    ∃ s', (∀ n, calls (getopt_internal e) n s = calls (getopt_internal e) n s') ∧
      Inside s' used operands (a :: rest) ∧ s'.place = a.tail ∧ s'.flags = s.flags ∧
      s'.err = s.err := by
  obtain ⟨s', hscan, hin, hplace, hflags, herr, harg⟩ := scan_option e hb.fresh ha hdashes
  have hne : s'.place ≠ [] := by
    unfold isOperand at ha
    rw [Bool.or_eq_false_iff, decide_eq_false_iff_not, decide_eq_false_iff_not] at ha
    rw [hplace]
    exact ha.2
  refine ⟨s', fun n => calls_congr ?_ n, hin, hplace, hflags, herr⟩
  have hsame : { s' with optarg := none } = s' := by
    obtain ⟨nargv, optind, optopt, optarg, optreset, place, nonopt_start, nonopt_end, idx, flags,
        err⟩ := s'
    obtain rfl : optarg = none := harg
    rfl
  obtain ⟨-, front, opts, hblocks, -⟩ := hb
  rw [getopt_eq e hblocks.optind_ne hblocks.reset, getopt_inside e hin hne, hscan, hsame]

theorem calls_end {s' : State} (hb : Between s used operands rest)
    (hscan : scan e { s with optarg := none } = some (.ret (-1), s')) :
    calls (getopt_internal e) 1 s = some ([], s') := by
  obtain ⟨-, front, opts, hblocks, -⟩ := hb
  unfold calls
  rw [getopt_eq e hblocks.optind_ne hblocks.reset, hscan]
  rfl

theorem Plain.long_isSome (h : Plain e longs) (c : Byte) (text : Text) (next : Option Text)
    (hch : (firstLetter e longs c text next).1.ch = 0) :
    (firstLetter e longs c text next).1.long.isSome := by
  have hbad : e.BADARG ≠ 0 := by
    unfold Env.BADARG
    split_ifs <;> decide
  have hbadch : BADCH ≠ 0 := by decide
  unfold firstLetter at hch ⊢
  dsimp only at hch ⊢
  split_ifs at hch ⊢ with hdash hill hplain hrest hoptional
  · unfold longOption at hch ⊢
    dsimp only at hch ⊢
    rcases hmatch : find_match (text.takeWhile (· ≠ EQUALS)) false longs 0 none with _ | _ | ⟨i, o⟩
    · rw [hmatch] at hch
      exact absurd hch hbadch
    · rw [hmatch] at hch
      exact absurd hch hbadch
    · rw [hmatch] at hch
      dsimp only at hch ⊢
      cases harg : o.has_arg with
      | no_argument =>
        by_cases heq : EQUALS ∈ text
        · simp [harg, heq, Found.error, hbad] at hch
        · simp [heq]
      | optional_argument => rfl
      | required_argument =>
        by_cases heq : EQUALS ∈ text
        · simp [heq]
        · cases next with
          | none => simp [harg, heq, Found.error, hbad] at hch
          | some arg => simp [heq]
  · exact absurd hch hbadch
  all_goals rw [not_or, not_not, h.letters] at hill
  · exact absurd hch (h.char_pos hill.2).ne'
  · exact absurd hch (h.char_pos hill.2).ne'
  · exact absurd hch (h.char_pos hill.2).ne'
  · cases next with
    | none => exact absurd hch hbad
    | some arg => exact absurd hch (h.char_pos hill.2).ne'

theorem Plain.seen (h : Plain e longs) (c : Byte) (text : Text) (next : Option Text) (place : Text)
    (optind : Nat) (s : State) :
    State.seen { (firstLetter e longs c text next).1.apply e s with place, optind }
      (firstLetter e longs c text next).1.ch = (firstLetter e longs c text next).1.seen := by
  unfold State.seen Found.seen Found.apply
  dsimp only
  by_cases hch : (firstLetter e longs c text next).1.ch = 0
  · obtain ⟨x, hx⟩ := Option.isSome_iff_exists.mp (h.long_isSome c text next hch)
    rw [if_pos hch, if_pos hch, hx]
    rfl
  · rw [if_neg hch, if_neg hch]

/-- The scan is behind the arguments that have been taken. -/
theorem Blocks.advance {taken : List Text} {t : State}
    (h : Blocks s used operands (taken ++ rest) front opts) (hnargv : t.nargv = s.nargv)
    (hoptind : t.optind = s.optind + taken.length) (hreset : t.optreset = false)
    (hmarks : s.nonopt_end = none → s.nonopt_start = none)
    (hstart : t.nonopt_start = s.nonopt_start) (hend : t.nonopt_end = s.nonopt_end) :
    Blocks t (used ++ taken) operands rest front (opts ++ taken) where
  split := by rw [h.split, List.append_assoc]
  nargv := by rw [hnargv, h.nargv, List.append_assoc opts]
  optind := by
    rw [hoptind, h.optind, List.length_append]
    omega
  named := by simp [h.named]
  reset := hreset
  marks := by
    rw [hstart, hend]
    rcases h.marks with hnone | ⟨-, hsome, hnone⟩ | hboth
    · exact .inl hnone
    · rw [hmarks hnone] at hsome
      cases hsome
    · exact .inr (.inr hboth)

/-- Only an argument that is there is taken. -/
theorem longOption_next (e : Env) (longs : List LongOption) (text : Text) :
    (longOption e longs text none).2 = false := by
  unfold longOption
  dsimp only
  rcases find_match (text.takeWhile (· ≠ EQUALS)) false longs 0 none with _ | _ | ⟨i, o⟩
  · rfl
  · rfl
  · dsimp only
    cases o.has_arg <;> by_cases heq : EQUALS ∈ text <;> simp [heq]

theorem taken_length {c : Byte} {text : Text} {args : List Text} {took : Bool} {f : Found}
    (htook : firstLetter e longs c text args.head? = (f, some took)) :
    (args.take took.toNat).length = took.toNat := by
  cases took with
  | false => rfl
  | true =>
    cases args with
    | nil =>
      unfold firstLetter at htook
      dsimp only [List.head?_nil] at htook
      rw [longOption_next] at htook
      split_ifs at htook <;> simp at htook
    | cons b args => rfl

/-- The call that reads the next letter. -/
theorem getopt_letter (h : Plain e longs) {a : Text} {args : List Text} {c : Byte} {text : Text}
    (hin : Inside s used operands (a :: args)) (hplace : s.place = c :: text)
    (hlen : (c :: text).length < a.length) :
    getopt_internal e s = some ((firstLetter e longs c text args.head?).1.ch,
      { (firstLetter e longs c text args.head?).1.apply e s with
        place := (stop text (firstLetter e longs c text args.head?).2).1
        optind := s.optind + (stop text (firstLetter e longs c text args.head?).2).2 }) := by
  have hcall := getopt_inside e hin (by rw [hplace]; simp)
  obtain ⟨front, opts, hblocks, -⟩ := hin
  have harg := hblocks.next 0
  have hnext := hblocks.next 1
  rw [Nat.add_zero] at harg
  have hhead : s.nargv[s.optind + 1]? = args.head? := by
    rw [hnext, List.head?_eq_getElem?]
    rfl
  have hletters := letters_spec (s := { s with optarg := none }) h hplace rfl (by
    dsimp only
    rw [hplace, List.getD_eq_getElem?_getD, harg]
    exact Nat.ne_of_lt hlen)
  rw [hcall, hletters]
  dsimp only
  rw [hhead]
  rfl

/-- The calls that read one argument. -/
theorem calls_optionArg (h : Plain e longs) {a : Text} {args : List Text} {text : Text}
    (hne : text ≠ []) (hin : Inside s used operands (a :: args)) (hplace : s.place = text)
    (hlen : text.length < a.length) :
    ∃ s', Between s' (used ++ a :: args.take (optionArg e longs text args.head?).2.toNat) operands
        (args.drop (optionArg e longs text args.head?).2.toNat) ∧
      s'.flags = (optionArg e longs text args.head?).1.foldl (fun flags f => f.set flags) s.flags ∧
      s'.err = s.err ++ (optionArg e longs text args.head?).1.flatMap (Found.print e) ∧
      ∀ n, calls (getopt_internal e) (n + (optionArg e longs text args.head?).1.length) s =
        (calls (getopt_internal e) n s').map fun r =>
          ((optionArg e longs text args.head?).1.map Found.seen ++ r.1, r.2) := by
  induction text generalizing s with
  | nil => exact absurd rfl hne
  | cons c text ih =>
    have hcall := getopt_letter h hin hplace hlen
    have hnonneg := h.first_nonneg c text args.head?
    have hseen := fun place optind => h.seen c text args.head? place optind s
    obtain ⟨front, opts, hblocks, hmarks⟩ := hin
    unfold optionArg
    rcases hfirst : firstLetter e longs c text args.head? with ⟨f, took⟩
    rw [hfirst] at hcall hnonneg hseen
    dsimp only at hcall hnonneg hseen
    have hone : ∀ n, calls (getopt_internal e) (n + 1) s =
        (calls (getopt_internal e) n { f.apply e s with
          place := (stop text took).1, optind := s.optind + (stop text took).2 }).map
          fun r => (f.seen :: r.1, r.2) := by
      intro n
      rw [calls, hcall]
      dsimp only
      rw [if_neg (by omega), hseen]
    cases took with
    | some took =>
      have htaken := taken_length hfirst
      have hargs : (a :: args.take took.toNat) ++ args.drop took.toNat = a :: args := by
        rw [List.cons_append, List.take_append_drop]
      rw [← hargs] at hblocks
      refine ⟨{ f.apply e s with place := [], optind := s.optind + (1 + took.toNat) },
        ⟨rfl, front, opts ++ a :: args.take took.toNat,
          hblocks.advance rfl ?_ hblocks.reset hmarks rfl rfl,
          fun _ => by simp⟩, rfl, ?_, fun n => hone n⟩
      · rw [List.length_cons, htaken, Nat.add_comm 1]
      · simp [Found.apply]
    | none =>
      by_cases htext : text = []
      · -- this was the last letter
        subst htext
        have hblocks : Blocks s used operands ([a] ++ args) front opts := hblocks
        refine ⟨{ f.apply e s with place := [], optind := s.optind + 1 },
          ⟨rfl, front, opts ++ [a], hblocks.advance rfl rfl hblocks.reset hmarks rfl rfl,
            fun _ => by simp⟩, rfl, ?_, fun n => hone n⟩
        simp [Found.apply, optionArg]
      · have hstop : stop text none = (text, 0) := by
          unfold stop
          rw [if_neg htext]
        rw [hstop] at hone
        obtain ⟨s', hb, hflags, herr, hcalls⟩ := ih
          (s := { f.apply e s with place := text, optind := s.optind + 0 }) htext
          ⟨front, opts, ⟨hblocks.split, hblocks.nargv, hblocks.optind, hblocks.named, hblocks.reset,
            hblocks.marks⟩, hmarks⟩ rfl (Nat.lt_of_succ_lt hlen)
        refine ⟨s', hb, hflags, ?_, fun n => ?_⟩
        · rw [herr]
          simp [Found.apply, List.append_assoc]
        · dsimp only
          rw [List.length_cons, ← Nat.add_assoc, hone, hcalls, Option.map_map]
          rfl

theorem calls_all (h : Plain e longs) {args : List Text} (hb : Between s used operands args) :
    ∃ n t, calls (getopt_internal e) n s = some ((parse e longs args).founds.map Found.seen, t) ∧
      t.nargv = used ++ (parse e longs args).used ++ (operands ++ (parse e longs args).operands) ∧
      t.optind = (used ++ (parse e longs args).used).length ∧
      t.flags = (parse e longs args).founds.foldl (fun flags f => f.set flags) s.flags ∧
      t.err = s.err ++ (parse e longs args).founds.flatMap (Found.print e) := by
  induction hn : args.length using Nat.strongRecOn generalizing s used operands args with
  | ind n ih =>
    cases args with
    | nil =>
      obtain ⟨s', hscan, hend⟩ := scan_end e hb.fresh
      rw [parse]
      exact ⟨1, s', calls_end hb hscan, by rw [hend.nargv]; simp, by rw [hend.optind]; simp,
        hend.flags, by rw [hend.err]; simp⟩
    | cons a args =>
      rw [parse]
      cases ha : isOperand a with
      | true =>
        obtain ⟨s', hcalls, hb', hflags, herr⟩ := calls_operand h hb ha
        obtain ⟨m, t, hrest, hnargv, hoptind, hflags', herr'⟩ :=
          ih args.length (by rw [← hn]; exact Nat.lt_succ_self _) hb' rfl
        refine ⟨m, t, (hcalls m).trans hrest, ?_, hoptind, hflags ▸ hflags', herr ▸ herr'⟩
        rw [hnargv]
        simp
      | false =>
        dsimp only
        rw [if_neg Bool.false_ne_true]
        by_cases hdashes : a.tail = [MINUS]
        · obtain ⟨s', hscan, hend⟩ := scan_dashes e hb.fresh ha hdashes
          rw [if_pos hdashes]
          exact ⟨1, s', calls_end hb hscan, hend.nargv, hend.optind,
            hend.flags, by rw [hend.err]; simp⟩
        · rw [if_neg hdashes]
          obtain ⟨s1, hcalls1, hin, hplace, hflags1, herr1⟩ := calls_option e hb ha hdashes
          have htail : a.tail ≠ [] ∧ a.tail.length < a.length := by
            cases a with
            | nil => cases ha
            | cons c text =>
              refine ⟨fun hnil => ?_, Nat.lt_succ_self _⟩
              have hnil : text = [] := hnil
              simp [isOperand, hnil] at ha
          obtain ⟨s2, hb2, hflags2, herr2, hcalls2⟩ := calls_optionArg h htail.1 hin hplace htail.2
          obtain ⟨m, t, hrest, hnargv, hoptind, hflags', herr'⟩ :=
            ih (args.drop (optionArg e longs a.tail args.head?).2.toNat).length
              (by rw [← hn, List.length_drop]; exact Nat.lt_succ_of_le (Nat.sub_le _ _)) hb2 rfl
          refine ⟨m + (optionArg e longs a.tail args.head?).1.length, t, ?_, ?_, ?_, ?_, ?_⟩
          · rw [hcalls1, hcalls2, hrest]
            simp
          · rw [hnargv]
            simp
          · rw [hoptind]
            simp
          · rw [hflags', hflags2, hflags1, List.foldl_append]
          · rw [herr', herr2, herr1, List.flatMap_append, List.append_assoc]

end

/-- No argument is lost, and those of each kind stay in their order. -/
theorem parse_split (e : Env) (longs : List LongOption) (args : List Text) :
    ((parse e longs args).used ++ (parse e longs args).operands).Perm args ∧
      (parse e longs args).used.Sublist args ∧ (parse e longs args).operands.Sublist args := by
  induction hn : args.length using Nat.strongRecOn generalizing args with
  | ind n ih =>
    cases args with
    | nil =>
      rw [parse]
      exact ⟨.refl _, .refl _, .refl _⟩
    | cons a args =>
      rw [parse]
      split_ifs with ha hdashes
      · obtain ⟨hperm, hused, hoperands⟩ :=
          ih args.length (by rw [← hn]; exact Nat.lt_succ_self _) args rfl
        exact ⟨List.perm_middle.trans (hperm.cons a), hused.cons a, hoperands.cons_cons a⟩
      · exact ⟨.refl _, (List.nil_sublist args).cons_cons a, (List.Sublist.refl args).cons a⟩
      · obtain ⟨hperm, hused, hoperands⟩ :=
          ih (args.drop (optionArg e longs a.tail args.head?).2.toNat).length
            (by rw [← hn, List.length_drop]; exact Nat.lt_succ_of_le (Nat.sub_le _ _)) _ rfl
        dsimp only
        have htake := List.take_append_drop (optionArg e longs a.tail args.head?).2.toNat args
        refine ⟨?_, ?_, ?_⟩
        · rw [List.cons_append, List.append_assoc]
          have hwhole := hperm.append_left (args.take (optionArg e longs a.tail args.head?).2.toNat)
          rw [htake] at hwhole
          exact hwhole.cons a
        · have hwhole := hused.append_left (args.take (optionArg e longs a.tail args.head?).2.toNat)
          rw [htake] at hwhole
          exact hwhole.cons_cons a
        · exact (hoperands.trans (List.drop_sublist _ _)).cons a

end

/-- The whole scan of a command line: the calls find the options in their order, each with its
argument. Then the options stand in front and the other arguments behind them, where `optind`
points, and each kind is in the order it was in. No access is outside of the vector, and nothing is
divided by zero. -/
theorem getopt_long_reads_the_command_line {options : Text} {longs : List LongOption}
    {opterr : Bool} (h : Plain (longEnv options longs false opterr) longs) (program : Text)
    (args : List Text) :
    ∃ n t, calls (getopt_long options longs false opterr) n (init (program :: args)) =
        some ((parse (longEnv options longs false opterr) longs args).founds.map Found.seen, t) ∧
      t.nargv = program :: ((parse (longEnv options longs false opterr) longs args).used ++
        (parse (longEnv options longs false opterr) longs args).operands) ∧
      t.nargv.drop t.optind = (parse (longEnv options longs false opterr) longs args).operands ∧
      t.flags = (parse (longEnv options longs false opterr) longs args).founds.foldl
        (fun flags f => f.set flags) (fun _ => 0) ∧
      t.err = (parse (longEnv options longs false opterr) longs args).founds.flatMap
        (Found.print (longEnv options longs false opterr)) ∧
      t.nargv.Perm (program :: args) ∧
      (parse (longEnv options longs false opterr) longs args).used.Sublist args ∧
      (parse (longEnv options longs false opterr) longs args).operands.Sublist args := by
  have hb : Between (init (program :: args)) [program] [] args :=
    ⟨rfl, [], [program], ⟨rfl, rfl, rfl, by simp, rfl, .inl ⟨rfl, rfl, rfl⟩⟩,
      fun hne => absurd rfl hne⟩
  obtain ⟨n, t, hcalls, hnargv, hoptind, hflags, herr⟩ := calls_all h hb
  have hvector :
      t.nargv = program :: ((parse (longEnv options longs false opterr) longs args).used ++
        (parse (longEnv options longs false opterr) longs args).operands) := by
    simpa using hnargv
  obtain ⟨hperm, hused, hoperands⟩ := parse_split (longEnv options longs false opterr) longs args
  refine ⟨n, t, hcalls, hvector, ?_, hflags, by simpa [init] using herr, ?_, hused, hoperands⟩
  · rw [hnargv, hoptind, List.drop_left]
    rfl
  · rw [hvector]
    exact hperm.cons program

/-- Three of the long options of `main`, and a command line. -/
def someLongs : List LongOption :=
  [⟨bytes "wsess", .required_argument, some 1, 0⟩, ⟨bytes "hog", .no_argument, some 2, 1⟩,
    ⟨bytes "verbose", .no_argument, none, 118⟩]

def someArgs : List Text := [bytes "x", bytes "--hog", bytes "y", bytes "-vd", bytes "3"]

theorem getopt_long_reads_the_command_line_some :
    ∃ n t, calls (getopt_long (bytes "d:hvVn") someLongs false true) n
        (init (bytes "httperf" :: someArgs)) =
        some ((parse (longEnv (bytes "d:hvVn") someLongs false true) someLongs someArgs).founds.map
          Found.seen, t) ∧
      t.nargv = bytes "httperf" ::
        ((parse (longEnv (bytes "d:hvVn") someLongs false true) someLongs someArgs).used ++
          (parse (longEnv (bytes "d:hvVn") someLongs false true) someLongs someArgs).operands) ∧
      t.nargv.drop t.optind =
        (parse (longEnv (bytes "d:hvVn") someLongs false true) someLongs someArgs).operands ∧
      t.flags =
        (parse (longEnv (bytes "d:hvVn") someLongs false true) someLongs someArgs).founds.foldl
        (fun flags f => f.set flags) (fun _ => 0) ∧
      t.err =
        (parse (longEnv (bytes "d:hvVn") someLongs false true) someLongs someArgs).founds.flatMap
        (Found.print (longEnv (bytes "d:hvVn") someLongs false true)) ∧
      t.nargv.Perm (bytes "httperf" :: someArgs) ∧
      (parse (longEnv (bytes "d:hvVn") someLongs false true) someLongs someArgs).used.Sublist
        someArgs ∧
      (parse (longEnv (bytes "d:hvVn") someLongs false true) someLongs someArgs).operands.Sublist
        someArgs :=
  getopt_long_reads_the_command_line
    ⟨rfl, rfl, rfl, rfl, by decide, by decide, by decide, by decide +kernel, by
      intro o ho
      simp only [someLongs, List.mem_cons, List.not_mem_nil, or_false] at ho
      rcases ho with rfl | rfl | rfl <;> simp⟩ _ _

end Httperf.Getopt
