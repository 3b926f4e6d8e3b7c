-- The connections and the reply rate in the report of `stat/basic.c`, with exact rationals for the
-- times. The bins of the lifetimes and the median are those of `Lifetimes`.
import Httperf.Lifetimes
import Httperf.SessStat

namespace Httperf.BasicStat

open Lives
open SessStat (DBL_MAX VAR mean spread)

/-! ## The functions -/

/-- `++n` of a `u_long`. -/
def succ (n : Nat) : Nat := (n + 1) % 2 ^ 64

/-- The five counters that are kept of a row of values: `basic` has them for the lifetimes of the
connections and for the reply rates. -/
structure Series where
  num : Nat
  sum : ℚ
  sum2 : ℚ
  min : ℚ
  max : ℚ

def Series.init : Series := ⟨0, 0, 0, DBL_MAX, 0⟩

def Series.add (x : ℚ) (s : Series) : Series where
  num := succ s.num
  sum := s.sum + x
  sum2 := s.sum2 + x * x
  min := if x < s.min then x else s.min
  max := if x > s.max then x else s.max

/-- `basic`, with the static variables. -/
structure Basic where
  num_conns_issued : Nat
  max_conns : Nat
  conn_lifetime : Series
  reply_rate : Series
  num_connects : Nat
  conn_connect_sum : ℚ
  conn_lifetime_hist : Nat → UInt32
  num_active_conns : Nat
  num_replies : Nat

/-- `s->basic` of a connection. -/
structure ConnBasic where
  time_connect_start : ℚ
  num_calls_completed : Nat

/-- What happens in the life of a connection. The times are those of `timer_now`. -/
inductive Heard where
  | conn_connecting (now : ℚ)
  | conn_connected (now : ℚ)
  | recv_stop
  deriving DecidableEq

def perf_sample (weight : ℚ) (basic : Basic) : Basic :=
  { basic with reply_rate := basic.reply_rate.add (weight * basic.num_replies), num_replies := 0 }

def conn_created (basic : Basic) : Basic :=
  let num_active_conns := succ basic.num_active_conns
  { basic with
    num_active_conns
    max_conns := if num_active_conns > basic.max_conns then num_active_conns else basic.max_conns }

def conn_connecting (basic : Basic) : Basic :=
  { basic with num_conns_issued := succ basic.num_conns_issued }

def conn_connected (now : ℚ) (s : ConnBasic) (basic : Basic) : Basic :=
  { basic with
    conn_connect_sum := basic.conn_connect_sum + (now - s.time_connect_start)
    num_connects := succ basic.num_connects }

def recv_stop (basic : Basic) : Basic := { basic with num_replies := succ basic.num_replies }

/-- `++basic.conn_lifetime_hist[bin]`. There is no result for a negative lifetime, and none for one
whose bin is the cell behind the array. -/
def count_lifetime (lifetime : ℚ) (hist : Nat → UInt32) : Option (Nat → UInt32) :=
  if 0 ≤ lifetime then
    (Lifetimes.bin lifetime).bind fun bin =>
      if bin < Lifetimes.NUM_BINS then some (Function.update hist bin (hist bin + 1)) else none
  else none

/-- `none` is the assertion that a connection is active, or a write outside of the histogram. -/
def conn_destroyed (now : ℚ) (s : ConnBasic) (basic : Basic) : Option Basic :=
  if basic.num_active_conns > 0 then
    if s.num_calls_completed > 0 then
      let lifetime := now - s.time_connect_start
      (count_lifetime lifetime basic.conn_lifetime_hist).map fun conn_lifetime_hist =>
        { basic with
          conn_lifetime := basic.conn_lifetime.add lifetime
          conn_lifetime_hist
          num_active_conns := basic.num_active_conns - 1 }
    else some { basic with num_active_conns := basic.num_active_conns - 1 }
  else none

def init : Basic := ⟨0, 0, .init, .init, 0, 0, fun _ => 0, 0, 0⟩

/-- What `dump` prints of them, in seconds. A variance is what `STDDEV` takes the root of. -/
@[ext]
structure Printed where
  connections : Nat
  period : ℚ
  max_conns : Nat
  lifetime_min : ℚ
  lifetime_avg : ℚ
  lifetime_max : ℚ
  lifetime_median : ℚ
  lifetime_variance : ℚ
  connect : ℚ
  rate_min : ℚ
  rate_avg : ℚ
  rate_max : ℚ
  rate_variance : ℚ
  samples : Nat

/-- `delta` is the duration of the test. -/
def dump (delta : ℚ) (basic : Basic) : Printed where
  connections := basic.num_conns_issued
  period := if basic.num_conns_issued > 0 then delta / basic.num_conns_issued else 0
  max_conns := basic.max_conns
  lifetime_min := if basic.conn_lifetime.num > 0 then basic.conn_lifetime.min else 0
  lifetime_avg :=
    if basic.conn_lifetime.num > 0 then basic.conn_lifetime.sum / basic.conn_lifetime.num else 0
  lifetime_max := basic.conn_lifetime.max
  lifetime_median :=
    Lifetimes.lifetime_median ⟨.ofNat basic.conn_lifetime.num, basic.conn_lifetime_hist⟩
  lifetime_variance :=
    if basic.conn_lifetime.num > 0 then
      if basic.conn_lifetime.num > 1 then
        VAR basic.conn_lifetime.sum basic.conn_lifetime.sum2 basic.conn_lifetime.num
      else 0
    else 0
  connect := if basic.num_connects > 0 then basic.conn_connect_sum / basic.num_connects else 0
  rate_min := if basic.reply_rate.num > 0 then basic.reply_rate.min else 0
  rate_avg := if basic.reply_rate.num > 0 then basic.reply_rate.sum / basic.reply_rate.num else 0
  rate_max := basic.reply_rate.max
  rate_variance :=
    if basic.reply_rate.num > 0 then
      if basic.reply_rate.num > 1 then
        VAR basic.reply_rate.sum basic.reply_rate.sum2 basic.reply_rate.num
      else 0
    else 0
  samples := basic.reply_rate.num

/-- The handlers that `init` registers. `object_new` has cleared a new connection, and a sample
comes with its weight. -/
def stats_basic : Collector Unit Heard ℚ ℚ ConnBasic Basic where
  start _ := ⟨0, 0⟩
  hear s
    | .conn_connecting now => { s with time_connect_start := now }
    | .conn_connected _ => s
    | .recv_stop => { s with num_calls_completed := (s.num_calls_completed + 1) % 2 ^ 32 }
  react basic
    | .made _ => some (conn_created basic)
    | .hears _ (.conn_connecting _) => some (conn_connecting basic)
    | .hears s (.conn_connected now) => some (conn_connected now s basic)
    | .hears _ .recv_stop => some (recv_stop basic)
    | .dies s now => conn_destroyed now s basic
    | .other weight => some (perf_sample weight basic)

/-! ## What it is for -/

abbrev Event := Occurrence Nat Unit Heard ℚ ℚ

/-- An event with the life of its connection so far. -/
abbrev Report := Seen Unit Heard ℚ ℚ (Unit × List Heard)

/-- When the connection was started last. -/
def started (heard : List Heard) : ℚ :=
  heard.foldl (fun t e => match e with | .conn_connecting now => now | _ => t) 0

def replies (heard : List Heard) : Nat := heard.count .recv_stop

/-- A connection begins to connect. -/
def attempt : Report → Bool
  | .hears _ (.conn_connecting _) => true
  | _ => false

/-- How often a connection was started. -/
def issued (rs : List Report) : Nat := rs.countP attempt

/-- How long it took to connect. -/
def connectTime : Report → Option ℚ
  | .hears life (.conn_connected now) => some (now - started life.2)
  | _ => none

def connectTimes (rs : List Report) : List ℚ := rs.filterMap connectTime

/-- A connection without a reply has no lifetime. -/
def lifetime : Report → Option ℚ
  | .dies life now => if replies life.2 > 0 then some (now - started life.2) else none
  | _ => none

def lifetimes (rs : List Report) : List ℚ := rs.filterMap lifetime

/-- A reply is counted until the next sample makes a rate of the count. -/
def sample (s : Nat × List ℚ) : Report → Nat × List ℚ
  | .hears _ .recv_stop => (s.1 + 1, s.2)
  | .other weight => (0, s.2 ++ [weight * s.1])
  | _ => s

/-- How many replies came since the last sample, and the rates that were found so far. -/
def sampled (rs : List Report) : Nat × List ℚ := rs.foldl sample (0, [])

def rates (rs : List Report) : List ℚ := (sampled rs).2

/-- How many connections there are at the end. -/
def living (events : List Event) : Nat := (alive events.reverse).length

/-- The largest number of connections that there were at one time. -/
def most (events : List Event) : Nat := (events.inits.map living).foldl max 0

/-- The minimum of a row, where 0 stands for none. -/
def least (xs : List ℚ) : ℚ := if xs = [] then 0 else xs.foldl min DBL_MAX

def variance (xs : List ℚ) : ℚ := if xs.length > 1 then spread xs else 0

/-- The centre of the bin of the median, where 0 stands for none. -/
def medianBin (xs : List ℚ) : ℚ :=
  (Histogram.median xs).elim 0 fun m => Lifetimes.centre (Lifetimes.binOf m)

/-- The report that the events make. -/
def report (delta : ℚ) (events : List Event) : Printed :=
  let rs := reports [] events
  { connections := issued rs
    period := if issued rs > 0 then delta / issued rs else 0
    max_conns := most events
    lifetime_min := least (lifetimes rs)
    lifetime_avg := mean (lifetimes rs)
    lifetime_max := (lifetimes rs).foldl max 0
    lifetime_median := medianBin (lifetimes rs)
    lifetime_variance := variance (lifetimes rs)
    connect := mean (connectTimes rs)
    rate_min := least (rates rs)
    rate_avg := mean (rates rs)
    rate_max := (rates rs).foldl max 0
    rate_variance := variance (rates rs)
    samples := (rates rs).length }

/-- The replies of the connection whose end is reported. -/
def ended : Report → Nat
  | .dies life _ => replies life.2
  | _ => 0

/-- There are fewer events than a `u_long` counts, and fewer replies on a connection and fewer
lifetimes than a `u_int` counts. The lifetimes are below the end of the histogram. -/
structure Fits (events : List Event) : Prop where
  replies : ∀ r ∈ reports [] events, ended r < 2 ^ 32
  length : events.length < 2 ^ 64
  range : ∀ x ∈ lifetimes (reports [] events), 0 ≤ x ∧ x < Lifetimes.MAX_LIFETIME
  count : (lifetimes (reports [] events)).length < 2 ^ 32

/-! ## The counters -/

theorem succ_eq {n : Nat} (h : n + 1 < 2 ^ 64) : succ n = n + 1 := Nat.mod_eq_of_lt h

/-- The counters of a row of values. -/
def Series.of (xs : List ℚ) : Series :=
  ⟨xs.length, xs.sum, (xs.map fun x => x * x).sum, xs.foldl Min.min DBL_MAX, xs.foldl Max.max 0⟩

theorem Series.add_of {xs : List ℚ} (h : xs.length + 1 < 2 ^ 64) (x : ℚ) :
    (of xs).add x = of (xs ++ [x]) := by
  unfold of add
  rw [List.foldl_concat, List.foldl_concat, succ_eq h, min_comm, min_def_lt, max_def_lt]
  simp

/-- What is kept with a connection. -/
theorem kept_eq (heard : List Heard) :
    stats_basic.kept ((), heard) = ⟨started heard, replies heard % 2 ^ 32⟩ := by
  induction heard using List.reverseRecOn with
  | nil => rfl
  | append_singleton heard e ih =>
    rw [Collector.kept_snoc, ih]
    cases e <;> simp [stats_basic, started, replies, List.count_append]

/-! ## The histogram -/

/-- The bins after these lifetimes. -/
def bins (xs : List ℚ) (i : Nat) : UInt32 := .ofNat (Histogram.inBin Lifetimes.binOf xs i)

theorem bins_concat (xs : List ℚ) (x : ℚ) :
    bins (xs ++ [x]) =
      Function.update (bins xs) (Lifetimes.binOf x) (bins xs (Lifetimes.binOf x) + 1) := by
  funext i
  unfold bins Histogram.inBin
  rw [List.countP_append, List.countP_singleton, UInt32.ofNat_add]
  by_cases hi : i = Lifetimes.binOf x
  · simp [hi]
  · simp [hi, Ne.symm hi]

/-- A lifetime below the end of the histogram is counted in its bin. -/
theorem count_lifetime_bins (xs : List ℚ) {x : ℚ} (hpos : 0 ≤ x)
    (hlt : x < Lifetimes.MAX_LIFETIME) :
    count_lifetime x (bins xs) = some (bins (xs ++ [x])) := by
  have hbin := (Lifetimes.binOf_lt_iff hpos).mpr hlt
  have hsmall : Lifetimes.NUM_BINS ≤ 2 ^ 32 := by rw [Lifetimes.num_bins_eq]; decide
  unfold count_lifetime
  rw [if_pos hpos, Lifetimes.bin_eq, if_pos (Nat.lt_of_lt_of_le hbin hsmall),
    Nat.min_eq_left hbin.le, Option.bind_some, if_pos hbin, bins_concat]

/-- Connections with these lifetimes. -/
def livedFor (xs : List ℚ) (h : ∀ x ∈ xs, 0 ≤ x) : List Lifetimes.Destroyed :=
  xs.attach.map fun x => ⟨1, 0, x.1, h x.1 x.2⟩

theorem lifetimes_livedFor {xs : List ℚ} (h : ∀ x ∈ xs, 0 ≤ x) :
    Lifetimes.lifetimes (livedFor xs h) = xs := by
  have hcompleted : ∀ s ∈ livedFor xs h, decide (s.num_calls_completed > 0) = true := by
    intro s hs
    obtain ⟨x, -, rfl⟩ := List.mem_map.mp hs
    rfl
  unfold Lifetimes.lifetimes
  rw [List.filter_eq_self.mpr hcompleted, livedFor, List.map_map]
  have hlifetime :
      (Lifetimes.Destroyed.lifetime ∘ fun x : { x // x ∈ xs } => ⟨1, 0, x.1, h x.1 x.2⟩) =
      Subtype.val := by
    funext x
    exact sub_zero x.1
  rw [hlifetime]
  exact List.attach_map_subtype_val xs

/-- The median of the bins is that of the lifetimes. -/
theorem lifetime_median_bins {xs : List ℚ}
    (hrange : ∀ x ∈ xs, 0 ≤ x ∧ x < Lifetimes.MAX_LIFETIME) (hlength : xs.length < 2 ^ 32) :
    Lifetimes.lifetime_median ⟨.ofNat xs.length, bins xs⟩ = medianBin xs := by
  have hlived := lifetimes_livedFor fun x hx => (hrange x hx).1
  generalize livedFor xs _ = ds at hlived
  have hbelow : ∀ x ∈ Lifetimes.lifetimes ds, x < Lifetimes.MAX_LIFETIME := by
    rw [hlived]
    exact fun x hx => (hrange x hx).2
  have hrun : Lifetimes.run ds = ⟨.ofNat xs.length, bins xs⟩ := by
    have hnum := (Lifetimes.run_counts ds).1
    have hhist := funext (Lifetimes.hist_eq hbelow)
    rw [hlived] at hnum hhist
    rw [← hnum]
    change _ = Lifetimes.Basic.mk _ fun i => .ofNat (Histogram.inBin Lifetimes.binOf xs i)
    rw [← hhist]
  rw [← hrun]
  unfold medianBin
  cases hm : Histogram.median xs with
  | none =>
    have hnil : xs = [] := Histogram.median_eq_none.mp hm
    rw [hrun, hnil]
    rfl
  | some m =>
    have hnum : (Lifetimes.run ds).num_lifetimes.toNat = (Lifetimes.lifetimes ds).length := by
      rw [hrun, hlived]
      exact UInt64.toNat_ofNat_of_lt' (Nat.lt_trans hlength (by decide))
    have hupTo : Histogram.upTo Lifetimes.binOf (Lifetimes.lifetimes ds) (Lifetimes.binOf m) <
        2 ^ 32 := by
      rw [hlived]
      exact Nat.lt_of_le_of_lt List.countP_le_length hlength
    exact (Lifetimes.median_iff hbelow hnum (hlived ▸ hm)).mpr hupTo

/-! ## What the counters say -/

/-- The counters after these reports, when so many connections live, and so many lived at a time. -/
def known (rs : List Report) (living most : Nat) : Basic where
  num_conns_issued := issued rs
  max_conns := most
  conn_lifetime := .of (lifetimes rs)
  reply_rate := .of (rates rs)
  num_connects := (connectTimes rs).length
  conn_connect_sum := (connectTimes rs).sum
  conn_lifetime_hist := bins (lifetimes rs)
  num_active_conns := living
  num_replies := (sampled rs).1

theorem sampled_snoc (rs : List Report) (r : Report) :
    sampled (rs ++ [r]) = sample (sampled rs) r :=
  List.foldl_concat ..

theorem lifetimes_snoc (rs : List Report) (r : Report) :
    lifetimes (rs ++ [r]) = lifetimes rs ++ (lifetime r).toList := filterMap_concat lifetime rs r

theorem connectTimes_snoc (rs : List Report) (r : Report) :
    connectTimes (rs ++ [r]) = connectTimes rs ++ (connectTime r).toList :=
  filterMap_concat connectTime rs r

theorem issued_snoc (rs : List Report) (r : Report) :
    issued (rs ++ [r]) = issued rs + if attempt r then 1 else 0 := by
  unfold issued
  rw [List.countP_append, List.countP_singleton]

/-- The counters that one report more changes. -/
theorem known_snoc (rs : List Report) (r : Report) (n m : Nat) :
    known (rs ++ [r]) n m =
      { num_conns_issued := issued rs + if attempt r then 1 else 0
        max_conns := m
        conn_lifetime := .of (lifetimes rs ++ (lifetime r).toList)
        reply_rate := .of (sample (sampled rs) r).2
        num_connects := (connectTimes rs ++ (connectTime r).toList).length
        conn_connect_sum := (connectTimes rs ++ (connectTime r).toList).sum
        conn_lifetime_hist := bins (lifetimes rs ++ (lifetime r).toList)
        num_active_conns := n
        num_replies := (sample (sampled rs) r).1 } := by
  unfold known rates
  rw [issued_snoc, lifetimes_snoc, connectTimes_snoc, sampled_snoc]

theorem issued_le (rs : List Report) : issued rs ≤ rs.length := List.countP_le_length

theorem lifetimes_le (rs : List Report) : (lifetimes rs).length ≤ rs.length :=
  List.length_filterMap_le _ _

theorem connectTimes_le (rs : List Report) : (connectTimes rs).length ≤ rs.length :=
  List.length_filterMap_le _ _

theorem sampled_le (rs : List Report) : (sampled rs).1 + (rates rs).length ≤ rs.length := by
  induction rs using List.reverseRecOn with
  | nil => exact Nat.le_refl _
  | append_singleton rs r ih =>
    unfold rates at *
    rw [sampled_snoc, List.length_append, List.length_singleton]
    unfold sample
    split
    · simp only
      omega
    · simp only [List.length_append, List.length_singleton]
      omega
    · omega

section
variable {rs : List Report} (n m : Nat)

theorem made_known (rs : List Report) (u : Unit) (hn : n + 1 < 2 ^ 64) :
    conn_created (known rs n m) = known (rs ++ [.made u]) (n + 1) (max m (n + 1)) := by
  rw [known_snoc, max_def_lt]
  simp only [conn_created, known, succ_eq hn, attempt, lifetime, connectTime, sample,
    Option.toList_none, List.append_nil]
  rfl

theorem hears_known (hrs : rs.length + 1 < 2 ^ 64) (life : Unit × List Heard) (e : Heard) :
    stats_basic.react (known rs n m) (.hears (stats_basic.kept life) e) =
      some (known (rs ++ [.hears life e]) n m) := by
  obtain ⟨⟨⟩, heard⟩ := life
  rw [kept_eq, known_snoc]
  cases e with
  | conn_connecting now =>
    have hle := issued_le rs
    have hissued : succ (issued rs) = issued rs + 1 := succ_eq (by omega)
    simp [stats_basic, conn_connecting, known, rates, attempt, lifetime, connectTime, sample,
      hissued]
  | conn_connected now =>
    have hle := connectTimes_le rs
    have hconnects : succ (connectTimes rs).length = (connectTimes rs).length + 1 :=
      succ_eq (by omega)
    simp [stats_basic, conn_connected, known, rates, attempt, lifetime, connectTime, sample,
      hconnects]
  | recv_stop =>
    have hle := sampled_le rs
    have hreplies : succ (sampled rs).1 = (sampled rs).1 + 1 := succ_eq (by omega)
    simp [stats_basic, recv_stop, known, rates, attempt, lifetime, connectTime, sample, hreplies]

/-- The end of one of the connections. -/
theorem dies_known (hrs : rs.length + 1 < 2 ^ 64) (life : Unit × List Heard) (now : ℚ)
    (hcalls : replies life.2 < 2 ^ 32)
    (hrange : ∀ x ∈ lifetime (.dies life now), 0 ≤ x ∧ x < Lifetimes.MAX_LIFETIME) (hn : n > 0) :
    conn_destroyed now (stats_basic.kept life) (known rs n m) =
      some (known (rs ++ [.dies life now]) (n - 1) m) := by
  obtain ⟨⟨⟩, heard⟩ := life
  have hle := lifetimes_le rs
  have hadd := @Series.add_of (lifetimes rs) (by omega) (now - started heard)
  change replies heard < 2 ^ 32 at hcalls
  rw [kept_eq, Nat.mod_eq_of_lt hcalls, known_snoc]
  by_cases hreplied : replies heard > 0
  · obtain ⟨hpos, hlt⟩ := hrange (now - started heard) (by simp [lifetime, hreplied])
    have hcount := count_lifetime_bins (lifetimes rs) hpos hlt
    simp [conn_destroyed, known, rates, attempt, lifetime, connectTime, sample, hn, hreplied, hadd,
      hcount]
  · simp [conn_destroyed, known, rates, attempt, lifetime, connectTime, sample, hn, hreplied]

theorem other_known (hrs : rs.length + 1 < 2 ^ 64) (weight : ℚ) :
    perf_sample weight (known rs n m) = known (rs ++ [.other weight]) n m := by
  have hle := sampled_le rs
  have hadd := @Series.add_of (rates rs) (by omega) (weight * (sampled rs).1)
  rw [known_snoc]
  simp [perf_sample, known, attempt, lifetime, connectTime, sample, hadd]
  rfl

end

/-! ## The report -/

theorem living_concat (events : List Event) (e : Event) :
    living (events ++ [e]) = (alive (e :: events.reverse)).length := by
  unfold living
  rw [List.reverse_concat]

theorem most_concat (events : List Event) (e : Event) :
    most (events ++ [e]) = max (most events) (living (events ++ [e])) := by
  unfold most
  rw [List.inits_append]
  simp

theorem living_le_most (events : List Event) : living events ≤ most events := by
  induction events using List.reverseRecOn with
  | nil => exact Nat.zero_le _
  | append_singleton events e _ =>
    rw [most_concat]
    exact Nat.le_max_right _ _

theorem living_le_length (events : List Event) : living events ≤ events.length := by
  have hle := alive_length_le events.reverse
  rwa [List.length_reverse] at hle

theorem react_known {events : List Event} {e : Event} {r : Report} (ht : Tells events.reverse)
    (hr : Lives.report events.reverse e = some r) (hlength : events.length + 1 < 2 ^ 64)
    (hcalls : ended r < 2 ^ 32)
    (hrange : ∀ x ∈ lifetime r, 0 ≤ x ∧ x < Lifetimes.MAX_LIFETIME) :
    stats_basic.react (known (reports [] events) (living events) (most events))
      (r.map stats_basic.kept) =
      some (known (reports [] events ++ [r]) (living (events ++ [e])) (most (events ++ [e]))) := by
  have hrs : (reports [] events).length + 1 < 2 ^ 64 :=
    Nat.lt_of_le_of_lt (Nat.succ_le_succ (reports_length_le [] events)) hlength
  have hmost := living_le_most events
  rw [most_concat, living_concat]
  cases e with
  | made i b =>
    have hn : living events + 1 < 2 ^ 64 :=
      Nat.lt_of_le_of_lt (Nat.succ_le_succ (living_le_length events)) hlength
    rw [Lives.report] at hr
    split at hr
    · obtain rfl := Option.some.inj hr
      exact congrArg some (made_known _ _ _ b hn)
    · cases hr
  | hears i e =>
    obtain ⟨life, -, rfl⟩ := Option.map_eq_some_iff.mp hr
    change _ = some (known _ (living events) (max (most events) (living events)))
    rw [Nat.max_eq_left hmost]
    exact hears_known _ _ hrs life e
  | dies i now =>
    have hmem := ht.mem_of_dies (Option.isSome_of_eq_some hr)
    have hn : living events > 0 := List.length_pos_of_mem hmem
    obtain ⟨life, -, rfl⟩ := Option.map_eq_some_iff.mp hr
    rw [alive, List.length_erase_of_mem hmem]
    change _ = some (known _ (living events - 1) (max (most events) (living events - 1)))
    rw [Nat.max_eq_left (Nat.le_trans (Nat.sub_le _ _) hmost)]
    exact dies_known _ _ hrs life now hcalls hrange hn
  | other weight =>
    obtain rfl := Option.some.inj hr
    change _ = some (known _ (living events) (max (most events) (living events)))
    rw [Nat.max_eq_left hmost]
    exact congrArg some (other_known _ _ hrs weight)

/-- Everything that is reported is known, and the assertion holds. -/
theorem reports_known {events : List Event} (hproper : Proper [] events) (hfits : Fits events) :
    (reports [] events).foldlM
        (fun basic r => stats_basic.react basic (r.map stats_basic.kept)) init =
      some (known (reports [] events) (living events) (most events)) := by
  induction events using List.reverseRecOn with
  | nil => rfl
  | append_singleton events e ih =>
    obtain ⟨hbefore, he⟩ := proper_concat.mp hproper
    rw [List.append_nil] at he
    obtain ⟨r, hr⟩ := Option.isSome_iff_exists.mp he
    have hreports : reports [] (events ++ [e]) = reports [] events ++ [r] := by
      rw [reports_concat, List.append_nil, hr]
      rfl
    obtain ⟨hcalls, hlength, hrange, hcount⟩ := hfits
    rw [hreports] at hcalls ⊢
    rw [List.length_append, List.length_singleton] at hlength
    rw [hreports, lifetimes_snoc] at hrange hcount
    have hfits : Fits events := {
      replies := fun r hr => hcalls r (List.mem_append_left _ hr)
      length := Nat.lt_of_succ_lt hlength
      range := fun x hx => hrange x (List.mem_append_left _ hx)
      count := by
        rw [List.length_append] at hcount
        omega }
    have hlast : ∀ x ∈ lifetime r, 0 ≤ x ∧ x < Lifetimes.MAX_LIFETIME := fun x hx =>
      hrange x (List.mem_append_right _ (Option.mem_toList.mpr hx))
    rw [List.foldlM_append, ih hbefore hfits]
    simpa using react_known hbefore.tells hr hlength (hcalls r (by simp)) hlast

theorem least_eq (xs : List ℚ) :
    (if (Series.of xs).num > 0 then (Series.of xs).min else 0) = least xs := by
  cases xs <;> simp [Series.of, least]

theorem variance_eq (xs : List ℚ) :
    (if (Series.of xs).num > 0 then
      if (Series.of xs).num > 1 then
        VAR (Series.of xs).sum (Series.of xs).sum2 (Series.of xs).num
      else 0
    else 0) = variance xs := by
  unfold variance
  change (if xs.length > 0 then if xs.length > 1 then VAR xs.sum _ xs.length else 0 else 0) = _
  by_cases hmany : xs.length > 1
  · rw [if_pos hmany, if_pos (Nat.zero_lt_of_lt hmany), if_pos hmany]
    exact SessStat.VAR_eq hmany
  · rw [if_neg hmany, if_neg hmany, ite_self]

theorem dump_known (delta : ℚ) {events : List Event} (hfits : Fits events) :
    dump delta (known (reports [] events) (living events) (most events)) = report delta events :=
  Printed.ext rfl rfl rfl (least_eq _) (SessStat.mean_eq rfl rfl) rfl
    (lifetime_median_bins hfits.range hfits.count) (variance_eq _) (SessStat.mean_eq rfl rfl)
    (least_eq _) (SessStat.mean_eq rfl rfl) rfl (variance_eq _) rfl

/-- The counters after a run. -/
def run (events : List Event) : Option Basic :=
  (stats_basic.run events (fun _ => none, init)).map Prod.snd

/-- What is printed at the end is what the lives of the connections say, as the events alone have
them. No connection is destroyed while none is active, and no lifetime is counted outside of the
histogram. The number of concurrent connections that is printed is the largest number of connections
that lived at a time. -/
theorem the_connection_report_is_true {events : List Event} (hproper : Proper [] events)
    (hfits : Fits events) (delta : ℚ) : (run events).map (dump delta) =
      some (report delta events) := by
  have hrun : run events = some (known (reports [] events) (living events) (most events)) :=
    (stats_basic.run_spec events hproper (fun i => rfl) init).trans (reports_known hproper hfits)
  rw [hrun, Option.map_some, dump_known delta hfits]

/-- Two connections at a time, one of them with two replies, and a third one where the first one
was. -/
def someEvents : List Event :=
  [.made 1 (), .hears 1 (.conn_connecting 0), .made 2 (), .hears 1 (.conn_connected 1),
    .hears 1 .recv_stop, .hears 1 .recv_stop, .other (1 / 5), .dies 1 6, .made 1 (),
    .hears 1 (.conn_connecting 7), .dies 2 8, .dies 1 9]

theorem someEvents_fit : Fits someEvents where
  replies := by decide
  length := by decide
  range := by decide +kernel
  count := by decide

theorem the_connection_report_is_true_some :
    (run someEvents).map (dump 10) = some (report 10 someEvents) :=
  the_connection_report_is_true (by decide) someEvents_fit 10

end Httperf.BasicStat
