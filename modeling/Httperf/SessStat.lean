-- The collector of the sessions (`stat/sess_stat.c`), with exact rationals for the times. What it
-- prints at the end is what the lives of the sessions say.
import Httperf.Lib.Lives
import Mathlib

namespace Httperf.SessStat

open Lives

/-! ## The functions -/

/-- The largest `double`. -/
def DBL_MAX : ℚ := (2 ^ 53 - 1) * 2 ^ 971

/-- `++n` of a `u_int`. -/
def succ (n : Nat) : Nat := (n + 1) % 2 ^ 32

/-- A cell of the histogram that was never written is `none`. -/
structure St where
  num_rate_samples : Nat
  num_completed_since_last_sample : Nat
  rate_sum : ℚ
  rate_sum2 : ℚ
  rate_min : ℚ
  rate_max : ℚ
  num_completed : Nat
  lifetime_sum : ℚ
  num_failed : Nat
  failtime_sum : ℚ
  num_conns : Nat
  longest_session : Nat
  len_hist_alloced : Nat
  len_hist : List (Option Nat)

structure Sess_Private_Data where
  num_calls_completed : Nat
  num_conns : Nat
  birth_time : ℚ

/-- What happens in the life of a session. -/
inductive Heard where
  | conn_connected
  | call_done
  deriving DecidableEq

/-- `EV_SESS_DESTROYED`, with the clock. -/
structure Destroyed where
  failed : Bool
  now : ℚ

def perf_sample (weight : ℚ) (st : St) : St :=
  let rate := weight * st.num_completed_since_last_sample
  { st with
    num_completed_since_last_sample := 0
    num_rate_samples := succ st.num_rate_samples
    rate_sum := st.rate_sum + rate
    rate_sum2 := st.rate_sum2 + rate * rate
    rate_min := if rate < st.rate_min then rate else st.rate_min
    rate_max := if rate > st.rate_max then rate else st.rate_max }

/-- The private data are zero when `object_new` signals the session. -/
def sess_created (now : ℚ) : Sess_Private_Data := ⟨0, 0, now⟩

def conn_connected (priv : Sess_Private_Data) : Sess_Private_Data :=
  { priv with num_conns := succ priv.num_conns }

def call_done (priv : Sess_Private_Data) : Sess_Private_Data :=
  { priv with num_calls_completed := succ priv.num_calls_completed }

/-- What is behind the old end is not written. -/
def realloc (a : List (Option Nat)) (n : Nat) : List (Option Nat) :=
  a.take n ++ List.replicate (n - a.length) none

/-- `memset` to 0 of the cells from `lo` up to `hi`. -/
def zero (a : List (Option Nat)) (lo hi : Nat) : Option (List (Option Nat)) :=
  if lo ≤ hi ∧ hi ≤ a.length then some (a.take lo ++ List.replicate (hi - lo) (some 0) ++ a.drop hi)
  else none

/-- `++a[i]`, of a cell that was written. -/
def incr (a : List (Option Nat)) (i : Nat) : Option (List (Option Nat)) := do
  let cell ← a[i]?
  let n ← cell
  return a.set i (some (succ n))

/-- A longest session that the histogram has no cell for makes it larger. -/
def lengthen (calls : Nat) (st : St) : Option St :=
  if calls > st.longest_session then
    if calls ≥ st.len_hist_alloced then
      let alloced := (calls + 16) % 2 ^ 32
      (zero (realloc st.len_hist alloced) st.len_hist_alloced alloced).map fun len_hist =>
        { st with longest_session := calls, len_hist_alloced := alloced, len_hist }
    else some { st with longest_session := calls }
  else some st

/-- The counters for a session that is destroyed. -/
def count (priv : Sess_Private_Data) (d : Destroyed) (st : St) : St :=
  let delta := d.now - priv.birth_time
  if d.failed then
    { st with num_failed := succ st.num_failed, failtime_sum := st.failtime_sum + delta }
  else { st with
    num_conns := (st.num_conns + priv.num_conns) % 2 ^ 32
    num_completed_since_last_sample := succ st.num_completed_since_last_sample
    num_completed := succ st.num_completed
    lifetime_sum := st.lifetime_sum + delta }

def sess_destroyed (priv : Sess_Private_Data) (d : Destroyed) (st : St) : Option St := do
  let st1 ← lengthen priv.num_calls_completed (count priv d st)
  let len_hist ← incr st1.len_hist priv.num_calls_completed
  return { st1 with len_hist }

def init : St where
  num_rate_samples := 0
  num_completed_since_last_sample := 0
  rate_sum := 0
  rate_sum2 := 0
  rate_min := DBL_MAX
  rate_max := 0
  num_completed := 0
  lifetime_sum := 0
  num_failed := 0
  failtime_sum := 0
  num_conns := 0
  longest_session := 0
  len_hist_alloced := 16
  len_hist := List.replicate 16 (some 0)

/-- The numbers that `dump` prints. `variance` is what `STDDEV` takes the root of. -/
@[ext]
structure Printed where
  rate_min : ℚ
  rate_avg : ℚ
  rate_max : ℚ
  variance : ℚ
  completed : Nat
  all : Nat
  conns_per_session : ℚ
  lifetime : ℚ
  failtime : ℚ
  lengths : List Nat

def VAR (s s2 : ℚ) (n : Nat) : ℚ := if n < 2 then 0 else (s2 - s * s / n) / (n - 1)

/-- `delta` is the duration of the test. The index of the histogram is an `int`, counted up past
each cell. -/
def dump (delta : ℚ) (st : St) : Option Printed := do
  let lengths ← (List.range (st.longest_session + 1)).mapM fun i =>
    if i + 1 < 2 ^ 31 then st.len_hist[i]?.join else none
  return {
    rate_min := if st.num_rate_samples > 0 then st.rate_min else 0
    rate_avg := if delta > 0 then st.num_completed / delta else 0
    rate_max := st.rate_max
    variance :=
      if st.num_rate_samples > 1 then VAR st.rate_sum st.rate_sum2 st.num_rate_samples else 0
    completed := st.num_completed
    all := (st.num_completed + st.num_failed) % 2 ^ 32
    conns_per_session := if st.num_completed > 0 then st.num_conns / st.num_completed else 0
    lifetime := if st.num_completed > 0 then st.lifetime_sum / st.num_completed else 0
    failtime := if st.num_failed > 0 then st.failtime_sum / st.num_failed else 0
    lengths }

/-- The handlers that `init` registers. A sample comes with its weight. -/
def session_stat : Collector ℚ Heard Destroyed ℚ Sess_Private_Data St where
  start := sess_created
  hear priv
    | .conn_connected => conn_connected priv
    | .call_done => call_done priv
  react st
    | .made _ => some st
    | .hears _ _ => some st
    | .dies priv d => sess_destroyed priv d st
    | .other weight => some (perf_sample weight st)

/-! ## What it is for -/

/-- A session that is over. -/
structure Life where
  birth : ℚ
  death : ℚ
  conns : Nat
  calls : Nat
  failed : Bool

/-- An event with the life of its session so far. -/
abbrev Report := Seen ℚ Heard Destroyed ℚ (ℚ × List Heard)

def lived (life : ℚ × List Heard) (d : Destroyed) : Life :=
  ⟨life.1, d.now, life.2.count .conn_connected, life.2.count .call_done, d.failed⟩

def lifeOf : Report → Option Life
  | .dies life d => some (lived life d)
  | _ => none

def lives (rs : List Report) : List Life := rs.filterMap lifeOf

def completed (ls : List Life) : List Life := ls.filter fun l => !l.failed

def failed (ls : List Life) : List Life := ls.filter (·.failed)

def Life.length (l : Life) : ℚ := l.death - l.birth

def longest (ls : List Life) : Nat := (ls.map Life.calls).foldr max 0

/-- How many sessions made that many calls. -/
def ofLength (ls : List Life) (k : Nat) : Nat := ls.countP fun l => l.calls = k

/-- How many sessions were completed since the last sample, and the rates that were found so far. -/
def sampled (rs : List Report) : Nat × List ℚ :=
  rs.foldl (fun s r =>
    match r with
    | .dies _ d => if d.failed then s else (s.1 + 1, s.2)
    | .other weight => (0, s.2 ++ [weight * s.1])
    | _ => s) (0, [])

def rates (rs : List Report) : List ℚ := (sampled rs).2

def mean (xs : List ℚ) : ℚ := xs.sum / xs.length

/-- The sample variance. -/
def spread (xs : List ℚ) : ℚ := (xs.map fun x => (x - mean xs) ^ 2).sum / (xs.length - 1)

/-- The report that the lives of the sessions make. -/
def report (delta : ℚ) (ls : List Life) (rates : List ℚ) : Printed where
  rate_min := if rates = [] then 0 else rates.foldl min DBL_MAX
  rate_avg := if delta > 0 then (completed ls).length / delta else 0
  rate_max := rates.foldl max 0
  variance := if rates.length > 1 then spread rates else 0
  completed := (completed ls).length
  all := ls.length
  conns_per_session := mean ((completed ls).map fun l => (l.conns : ℚ))
  lifetime := mean ((completed ls).map Life.length)
  failtime := mean ((failed ls).map Life.length)
  lengths := (List.range (longest ls + 1)).map (ofLength ls)

/-- No number is too large for its type: the calls of a session for an `int`, the others for a
`u_int`. -/
structure Fits (rs : List Report) : Prop where
  calls : ∀ l ∈ lives rs, l.calls + 1 < 2 ^ 31
  sessions : (lives rs).length < 2 ^ 32
  conns : ((completed (lives rs)).map Life.conns).sum < 2 ^ 32
  samples : (rates rs).length < 2 ^ 32

/-! ## The histogram -/

theorem succ_eq {n : Nat} (h : n + 1 < 2 ^ 32) : succ n = n + 1 := Nat.mod_eq_of_lt h

/-- The cells that hold the values of `f`. -/
def cells (f : Nat → Nat) (n : Nat) : List (Option Nat) := (List.range n).map fun k => some (f k)

theorem cells_length (f : Nat → Nat) (n : Nat) : (cells f n).length = n := by
  simp [cells]

theorem cells_get {f : Nat → Nat} {n i : Nat} (h : i < n) :
    (cells f n)[i]? = some (some (f i)) := by
  simp [cells, h]

theorem incr_cells {f : Nat → Nat} {n i : Nat} (hi : i < n) (hfit : f i + 1 < 2 ^ 32) :
    incr (cells f n) i = some (cells (fun k => if k = i then f k + 1 else f k) n) := by
  unfold incr
  rw [cells_get hi]
  simp only [Option.bind_eq_bind, Option.bind_some, succ_eq hfit]
  refine congrArg some (List.ext_getElem? fun k => ?_)
  rw [List.getElem?_set, cells_length]
  by_cases hk : k < n
  · by_cases hki : i = k
    · subst hki
      rw [if_pos rfl, if_pos hk, cells_get hk, if_pos rfl]
    · rw [if_neg hki, cells_get hk, cells_get hk, if_neg (Ne.symm hki)]
  · have hlong : ∀ g, (cells g n)[k]? = none := fun g =>
      List.getElem?_eq_none (by rw [cells_length]; exact Nat.le_of_not_lt hk)
    rw [hlong, hlong, if_neg fun hik : i = k => hk (hik ▸ hi)]

/-- The new cells are zero, as their values are. -/
theorem grow_cells {f : Nat → Nat} {n m : Nat} (h : n ≤ m) (hf : ∀ k, n ≤ k → f k = 0) :
    zero (realloc (cells f n) m) n m = some (cells f m) := by
  have hlength : (realloc (cells f n) m).length = m := by
    simp [realloc, cells_length]
    omega
  unfold zero
  rw [if_pos ⟨h, hlength.ge⟩, List.drop_of_length_le hlength.le, List.append_nil]
  have htake : (realloc (cells f n) m).take n = cells f n := by
    have hfront : (cells f n).take m = cells f n :=
      List.take_of_length_le (by rw [cells_length]; exact h)
    rw [realloc, hfront, List.take_left' (cells_length f n)]
  rw [htake]
  refine congrArg some (List.ext_getElem? fun k => ?_)
  by_cases hkn : k < n
  · rw [List.getElem?_append_left (by rw [cells_length]; exact hkn), cells_get hkn,
      cells_get (Nat.lt_of_lt_of_le hkn h)]
  · rw [List.getElem?_append_right (by rw [cells_length]; omega), cells_length]
    by_cases hkm : k < m
    · rw [cells_get hkm, hf k (Nat.le_of_not_lt hkn), List.getElem?_replicate_of_lt (by omega)]
    · rw [List.getElem?_eq_none (by rw [List.length_replicate]; omega),
        List.getElem?_eq_none (by rw [cells_length]; omega)]

/-! ## The lists of lives -/

theorem lives_snoc (rs : List Report) (r : Report) :
    lives (rs ++ [r]) = lives rs ++ (lifeOf r).toList :=
  filterMap_concat lifeOf rs r

theorem lives_dies (rs : List Report) (life : ℚ × List Heard) (d : Destroyed) :
    lives (rs ++ [.dies life d]) = lives rs ++ [lived life d] :=
  lives_snoc rs (.dies life d)

theorem longest_snoc (ls : List Life) (l : Life) :
    longest (ls ++ [l]) = max (longest ls) l.calls := by
  unfold longest
  induction ls with
  | nil => simp
  | cons a ls ih => simp only [List.cons_append, List.map_cons, List.foldr_cons, ih, max_assoc]

theorem calls_le_longest {ls : List Life} {l : Life} (hl : l ∈ ls) : l.calls ≤ longest ls := by
  induction ls with
  | nil => exact absurd hl List.not_mem_nil
  | cons a ls ih =>
    rcases List.mem_cons.mp hl with rfl | hl
    · exact Nat.le_max_left _ _
    · exact Nat.le_trans (ih hl) (Nat.le_max_right _ _)

theorem ofLength_snoc (ls : List Life) (l : Life) :
    ofLength (ls ++ [l]) = fun k => if k = l.calls then ofLength ls k + 1 else ofLength ls k := by
  funext k
  unfold ofLength
  rw [List.countP_append, List.countP_singleton]
  by_cases h : l.calls = k
  · simp [h]
  · simp [h, Ne.symm h]

theorem ofLength_eq_zero {ls : List Life} {k : Nat} (h : longest ls < k) : ofLength ls k = 0 := by
  refine List.countP_eq_zero.mpr fun l hl => ?_
  have hle := calls_le_longest hl
  simp only [decide_eq_true_eq]
  omega

theorem ofLength_le (ls : List Life) (k : Nat) : ofLength ls k ≤ ls.length := List.countP_le_length

theorem completed_append (ls ms : List Life) :
    completed (ls ++ ms) = completed ls ++ completed ms :=
  List.filter_append _ _

theorem completed_add_failed (ls : List Life) :
    (completed ls).length + (failed ls).length = ls.length := by
  have h := List.length_eq_length_filter_add (l := ls) (fun l => !l.failed)
  simpa [completed, failed] using h.symm

/-! ## What is known -/

/-- The counters after these reports. -/
structure Counts (rs : List Report) (st : St) : Prop where
  num_rate_samples : st.num_rate_samples = (rates rs).length
  since : st.num_completed_since_last_sample = (sampled rs).1
  rate_sum : st.rate_sum = (rates rs).sum
  rate_sum2 : st.rate_sum2 = ((rates rs).map fun x => x * x).sum
  rate_min : st.rate_min = (rates rs).foldl min DBL_MAX
  rate_max : st.rate_max = (rates rs).foldl max 0
  num_completed : st.num_completed = (completed (lives rs)).length
  lifetime_sum : st.lifetime_sum = ((completed (lives rs)).map Life.length).sum
  num_failed : st.num_failed = (failed (lives rs)).length
  failtime_sum : st.failtime_sum = ((failed (lives rs)).map Life.length).sum
  num_conns : st.num_conns = ((completed (lives rs)).map Life.conns).sum

/-- The histogram when these sessions are over. -/
structure Lengths (ls : List Life) (st : St) : Prop where
  longest_session : st.longest_session = longest ls
  len_hist : st.len_hist = cells (ofLength ls) st.len_hist_alloced
  room : st.longest_session < st.len_hist_alloced

theorem init_counts : Counts [] init := ⟨rfl, rfl, rfl, rfl, rfl, rfl, rfl, rfl, rfl, rfl, rfl⟩

theorem init_lengths : Lengths [] init := ⟨rfl, rfl, by decide⟩

/-- The histogram is no counter. -/
theorem Counts.lengths {rs : List Report} {st : St} (h : Counts rs st)
    (longest_session len_hist_alloced : Nat) (len_hist : List (Option Nat)) :
    Counts rs { st with longest_session, len_hist_alloced, len_hist } :=
  ⟨h.num_rate_samples, h.since, h.rate_sum, h.rate_sum2, h.rate_min, h.rate_max, h.num_completed,
    h.lifetime_sum, h.num_failed, h.failtime_sum, h.num_conns⟩

/-- Other reports of the same lives and samples. -/
theorem Counts.same {rs rs' : List Report} {st : St} (h : Counts rs st)
    (hsampled : sampled rs' = sampled rs) (hlives : lives rs' = lives rs) : Counts rs' st := by
  have hrates : rates rs' = rates rs := by
    unfold rates
    rw [hsampled]
  constructor
  all_goals first | rw [hrates] | rw [hsampled] | rw [hlives]
  · exact h.num_rate_samples
  · exact h.since
  · exact h.rate_sum
  · exact h.rate_sum2
  · exact h.rate_min
  · exact h.rate_max
  · exact h.num_completed
  · exact h.lifetime_sum
  · exact h.num_failed
  · exact h.failtime_sum
  · exact h.num_conns

/-- What is kept with a session counts what it heard, as a `u_int` counts. -/
theorem kept_eq (birth : ℚ) (heard : List Heard) :
    session_stat.kept (birth, heard) =
      ⟨heard.count .call_done % 2 ^ 32, heard.count .conn_connected % 2 ^ 32, birth⟩ := by
  induction heard using List.reverseRecOn with
  | nil => rfl
  | append_singleton heard e ih =>
    rw [Collector.kept_snoc, ih]
    cases e <;> simp [session_stat, conn_connected, call_done, succ, List.count_append]

theorem lengthen_spec {ls : List Life} {st : St} (h : Lengths ls st) {calls : Nat}
    (hcalls : calls + 1 < 2 ^ 31) :
    ∃ alloced, lengthen calls st = some { st with
        longest_session := max (longest ls) calls
        len_hist_alloced := alloced
        len_hist := cells (ofLength ls) alloced } ∧ max (longest ls) calls < alloced := by
  obtain ⟨hlongest, hhist, hroom⟩ := h
  unfold lengthen
  by_cases hlong : calls > st.longest_session
  · have hmax : max (longest ls) calls = calls := Nat.max_eq_right (hlongest ▸ hlong.le)
    rw [if_pos hlong, hmax]
    by_cases hfull : calls ≥ st.len_hist_alloced
    · have hwrap : (calls + 16) % 2 ^ 32 = calls + 16 := Nat.mod_eq_of_lt (by omega)
      rw [if_pos hfull]
      refine ⟨calls + 16, ?_, by omega⟩
      simp only [hwrap, hhist]
      rw [grow_cells (by omega) fun k hk => ofLength_eq_zero (by omega)]
      rfl
    · rw [if_neg hfull]
      exact ⟨st.len_hist_alloced, by rw [← hhist], Nat.lt_of_not_le hfull⟩
  · have hmax : max (longest ls) calls = st.longest_session := by
      rw [← hlongest]
      exact Nat.max_eq_left (Nat.le_of_not_lt hlong)
    rw [if_neg hlong, hmax]
    exact ⟨st.len_hist_alloced, by rw [← hhist], hroom⟩

theorem sampled_dies (rs : List Report) (life : ℚ × List Heard) (d : Destroyed) :
    sampled (rs ++ [.dies life d]) =
      if d.failed then sampled rs else ((sampled rs).1 + 1, (sampled rs).2) := by
  simp [sampled]

theorem sampled_other (rs : List Report) (weight : ℚ) :
    sampled (rs ++ [.other weight]) = (0, rates rs ++ [weight * (sampled rs).1]) := by
  simp [sampled, rates]

/-- What came before fits too. -/
theorem Fits.init {rs : List Report} {r : Report} (h : Fits (rs ++ [r])) : Fits rs := by
  have hlives := lives_snoc rs r
  refine ⟨fun l hl => h.calls l ?_, Nat.lt_of_le_of_lt ?_ h.sessions, Nat.lt_of_le_of_lt ?_ h.conns,
    Nat.lt_of_le_of_lt ?_ h.samples⟩
  · rw [hlives]
    exact List.mem_append_left _ hl
  · rw [hlives, List.length_append]
    exact Nat.le_add_right _ _
  · rw [hlives, completed_append, List.map_append, List.sum_append]
    exact Nat.le_add_right _ _
  · cases r with
    | made b => simp [rates, sampled]
    | hears life e => simp [rates, sampled]
    | dies life d =>
      unfold rates
      rw [sampled_dies]
      split <;> exact Nat.le_refl _
    | other weight =>
      unfold rates
      rw [sampled_other, List.length_append]
      exact Nat.le_add_right _ _

theorem sampled_le (rs : List Report) : (sampled rs).1 ≤ (completed (lives rs)).length := by
  induction rs using List.reverseRecOn with
  | nil => exact Nat.le_refl _
  | append_singleton rs r ih =>
    rw [lives_snoc, completed_append, List.length_append]
    refine Nat.le_trans ?_ (Nat.add_le_add_right ih _)
    cases r with
    | made b => simp [sampled]
    | hears life e => simp [sampled]
    | dies life d =>
      rw [sampled_dies]
      cases hd : d.failed <;> simp [lifeOf, lived, completed, hd]
    | other weight => simp [sampled_other]

/-- The numbers of a session fit. -/
theorem Fits.dies {rs : List Report} {life : ℚ × List Heard} {d : Destroyed}
    (h : Fits (rs ++ [.dies life d])) :
    (lived life d).calls + 1 < 2 ^ 31 ∧ (lives rs).length + 1 < 2 ^ 32 ∧
      (d.failed = false →
        ((completed (lives rs)).map Life.conns).sum + (lived life d).conns < 2 ^ 32) := by
  have hlives := lives_dies rs life d
  refine ⟨h.calls (lived life d) (by simp [hlives]), ?_, fun hd => ?_⟩
  · have hsessions := h.sessions
    rw [hlives, List.length_append] at hsessions
    exact hsessions
  · have hconns := h.conns
    rw [hlives, completed_append, List.map_append, List.sum_append] at hconns
    simpa [completed, lived, hd] using hconns

theorem count_spec {rs : List Report} {st : St} (h : Counts rs st) {life : ℚ × List Heard}
    {d : Destroyed} (hfits : Fits (rs ++ [.dies life d])) :
    Counts (rs ++ [.dies life d]) (count (session_stat.kept life) d st) := by
  obtain ⟨-, hsessions, hconns⟩ := hfits.dies
  have hsum := completed_add_failed (lives rs)
  have hle := sampled_le rs
  rcases hd : d.failed with _ | _
  · have hsampled : sampled (rs ++ [.dies life d]) = ((sampled rs).1 + 1, (sampled rs).2) := by
      rw [sampled_dies, hd]
      rfl
    have hok : completed (lives (rs ++ [.dies life d])) =
        completed (lives rs) ++ [lived life d] := by
      simp [lives_dies, completed, lived, hd]
    have hko : failed (lives (rs ++ [.dies life d])) = failed (lives rs) := by
      simp [lives_dies, failed, lived, hd]
    have hrates : rates (rs ++ [.dies life d]) = rates rs := by
      unfold rates
      rw [hsampled]
    have hconns := hconns hd
    have hcount : count (session_stat.kept life) d st = { st with
        num_conns := (st.num_conns + (lived life d).conns % 2 ^ 32) % 2 ^ 32
        num_completed_since_last_sample := succ st.num_completed_since_last_sample
        num_completed := succ st.num_completed
        lifetime_sum := st.lifetime_sum + (lived life d).length } := by
      rw [kept_eq, count, hd]
      rfl
    rw [hcount]
    constructor
    · rw [hrates, ← h.num_rate_samples]
    · rw [hsampled]
      exact (congrArg succ h.since).trans (succ_eq (by omega))
    · rw [hrates, ← h.rate_sum]
    · rw [hrates, ← h.rate_sum2]
    · rw [hrates, ← h.rate_min]
    · rw [hrates, ← h.rate_max]
    · rw [hok, List.length_append]
      exact (congrArg succ h.num_completed).trans (succ_eq (by omega))
    · rw [hok, List.map_append, List.sum_append, ← h.lifetime_sum]
      simp
    · rw [hko, ← h.num_failed]
    · rw [hko, ← h.failtime_sum]
    · rw [hok, List.map_append, List.sum_append, ← h.num_conns]
      rw [← h.num_conns] at hconns
      simp only [List.map_cons, List.map_nil, List.sum_cons, List.sum_nil, Nat.add_zero]
      rw [Nat.add_mod_mod, Nat.mod_eq_of_lt hconns]
  · have hsampled : sampled (rs ++ [.dies life d]) = sampled rs := by
      rw [sampled_dies, hd]
      rfl
    have hok : completed (lives (rs ++ [.dies life d])) = completed (lives rs) := by
      simp [lives_dies, completed, lived, hd]
    have hko : failed (lives (rs ++ [.dies life d])) = failed (lives rs) ++ [lived life d] := by
      simp [lives_dies, failed, lived, hd]
    have hrates : rates (rs ++ [.dies life d]) = rates rs := congrArg Prod.snd hsampled
    have hcount : count (session_stat.kept life) d st = { st with
        num_failed := succ st.num_failed
        failtime_sum := st.failtime_sum + (lived life d).length } := by
      rw [kept_eq, count, hd]
      rfl
    rw [hcount]
    constructor
    · rw [hrates, ← h.num_rate_samples]
    · rw [hsampled, ← h.since]
    · rw [hrates, ← h.rate_sum]
    · rw [hrates, ← h.rate_sum2]
    · rw [hrates, ← h.rate_min]
    · rw [hrates, ← h.rate_max]
    · rw [hok, ← h.num_completed]
    · rw [hok, ← h.lifetime_sum]
    · rw [hko, List.length_append]
      exact (congrArg succ h.num_failed).trans (succ_eq (by omega))
    · rw [hko, List.map_append, List.sum_append, ← h.failtime_sum]
      simp
    · rw [hok, ← h.num_conns]

theorem count_lengths {ls : List Life} {st : St} (h : Lengths ls st) (priv : Sess_Private_Data)
    (d : Destroyed) : Lengths ls (count priv d st) := by
  unfold count
  cases d.failed <;> exact ⟨h.longest_session, h.len_hist, h.room⟩

/-- The end of a session. -/
theorem sess_destroyed_spec {rs : List Report} {st : St} (hc : Counts rs st)
    (hl : Lengths (lives rs) st) {life : ℚ × List Heard} {d : Destroyed}
    (hfits : Fits (rs ++ [.dies life d])) :
    ∃ st', sess_destroyed (session_stat.kept life) d st = some st' ∧
      Counts (rs ++ [.dies life d]) st' ∧ Lengths (lives (rs ++ [.dies life d])) st' := by
  obtain ⟨hcalls, hsessions, -⟩ := hfits.dies
  have hkept : (session_stat.kept life).num_calls_completed = (lived life d).calls := by
    rw [kept_eq]
    exact Nat.mod_eq_of_lt (Nat.lt_trans (Nat.lt_of_succ_lt hcalls) (by decide))
  obtain ⟨alloced, hlengthen, hroom⟩ :=
    lengthen_spec (count_lengths hl (session_stat.kept life) d) hcalls
  have hincr := incr_cells (Nat.lt_of_le_of_lt (Nat.le_max_right _ _) hroom)
    (Nat.lt_of_le_of_lt (Nat.succ_le_succ (ofLength_le (lives rs) (lived life d).calls)) hsessions)
  rw [← ofLength_snoc] at hincr
  rw [lives_dies, ← longest_snoc] at *
  refine ⟨_, ?_, (count_spec hc hfits).lengths (longest (lives rs ++ [lived life d])) alloced
    (cells (ofLength (lives rs ++ [lived life d])) alloced), rfl, rfl, hroom⟩
  unfold sess_destroyed
  rw [hkept, hlengthen]
  simp only [Option.bind_eq_bind, Option.bind_some, hincr]
  rfl

theorem perf_sample_counts {rs : List Report} {st : St} (h : Counts rs st) {weight : ℚ}
    (hfits : Fits (rs ++ [.other weight])) :
    Counts (rs ++ [.other weight]) (perf_sample weight st) := by
  have hlives : lives (rs ++ [.other weight]) = lives rs := by simp [lives_snoc, lifeOf]
  have hrates : rates (rs ++ [.other weight]) = rates rs ++ [weight * (sampled rs).1] :=
    congrArg Prod.snd (sampled_other rs weight)
  have hsamples := hfits.samples
  rw [hrates, List.length_append] at hsamples
  constructor
  · rw [hrates, List.length_append, perf_sample, h.num_rate_samples]
    exact succ_eq hsamples
  · rw [sampled_other]
    rfl
  · simp [perf_sample, hrates, h.rate_sum, h.since]
  · simp [perf_sample, hrates, h.rate_sum2, h.since]
  · rw [hrates, List.foldl_concat, ← h.rate_min, ← h.since, min_comm, min_def_lt]
    rfl
  · rw [hrates, List.foldl_concat, ← h.rate_max, ← h.since, max_def_lt]
    rfl
  all_goals rw [hlives]
  · exact h.num_completed
  · exact h.lifetime_sum
  · exact h.num_failed
  · exact h.failtime_sum
  · exact h.num_conns

theorem react_spec {rs : List Report} {st : St} (hc : Counts rs st) (hl : Lengths (lives rs) st)
    {r : Report} (hfits : Fits (rs ++ [r])) :
    ∃ st', session_stat.react st (r.map session_stat.kept) = some st' ∧ Counts (rs ++ [r]) st' ∧
      Lengths (lives (rs ++ [r])) st' := by
  cases r with
  | made birth =>
    exact ⟨st, rfl, hc.same (by simp [sampled]) (by simp [lives_snoc, lifeOf]),
      by simpa [lives_snoc, lifeOf] using hl⟩
  | hears life e =>
    exact ⟨st, rfl, hc.same (by simp [sampled]) (by simp [lives_snoc, lifeOf]),
      by simpa [lives_snoc, lifeOf] using hl⟩
  | dies life d => exact sess_destroyed_spec hc hl hfits
  | other weight =>
    refine ⟨_, rfl, perf_sample_counts hc hfits, ?_⟩
    rw [lives_snoc]
    simpa [lifeOf] using ⟨hl.longest_session, hl.len_hist, hl.room⟩

/-- Everything that is reported is known. -/
theorem reports_known (rs : List Report) (hfits : Fits rs) :
    ∃ st, rs.foldlM (fun st r => session_stat.react st (r.map session_stat.kept)) init = some st ∧
      Counts rs st ∧ Lengths (lives rs) st := by
  induction rs using List.reverseRecOn with
  | nil => exact ⟨init, rfl, init_counts, init_lengths⟩
  | append_singleton rs r ih =>
    obtain ⟨st, hst, hc, hl⟩ := ih hfits.init
    obtain ⟨st', hreact, hknown⟩ := react_spec hc hl hfits
    refine ⟨st', ?_, hknown⟩
    rw [List.foldlM_append, hst]
    simpa using hreact

/-! ## The report -/

theorem sum_sq_sub (xs : List ℚ) (c : ℚ) :
    (xs.map fun x => (x - c) ^ 2).sum = (xs.map fun x => x * x).sum - 2 * c * xs.sum +
      xs.length * c ^ 2 := by
  induction xs with
  | nil => simp
  | cons x xs ih =>
    simp only [List.map_cons, List.sum_cons, ih, List.length_cons]
    push_cast
    ring

/-- The two ways to compute the sample variance. -/
theorem VAR_eq {xs : List ℚ} (h : xs.length > 1) :
    VAR xs.sum (xs.map fun x => x * x).sum xs.length = spread xs := by
  have hn : (xs.length : ℚ) ≠ 0 := Nat.cast_ne_zero.mpr (by omega)
  unfold VAR spread
  rw [if_neg (by omega), sum_sq_sub]
  congr 1
  unfold mean
  field_simp
  ring

theorem longest_lt {ls : List Life} {n : Nat} (h : ∀ l ∈ ls, l.calls < n) (hn : 0 < n) :
    longest ls < n := by
  induction ls with
  | nil => exact hn
  | cons l ls ih =>
    exact Nat.max_lt.mpr ⟨h l List.mem_cons_self, ih fun k hk => h k (List.mem_cons_of_mem _ hk)⟩

theorem mapM_some {α β : Type} {f : α → Option β} {g : α → β} {xs : List α}
    (h : ∀ x ∈ xs, f x = some (g x)) : xs.mapM f = some (xs.map g) := by
  induction xs with
  | nil => rfl
  | cons x xs ih =>
    rw [List.mapM_cons, h x List.mem_cons_self, ih fun y hy => h y (List.mem_cons_of_mem _ hy)]
    rfl

/-- A mean that is asked for only when there is something. -/
theorem mean_eq {xs : List ℚ} {s : ℚ} {n : Nat} (hs : s = xs.sum) (hn : n = xs.length) :
    (if n > 0 then s / n else 0) = mean xs := by
  subst hs hn
  unfold mean
  split
  · rfl
  · rename_i hzero
    rw [Nat.eq_zero_of_not_pos hzero, Nat.cast_zero, div_zero]

theorem dump_spec {rs : List Report} {st : St} (hc : Counts rs st) (hl : Lengths (lives rs) st)
    (hfits : Fits rs) (delta : ℚ) : dump delta st = some (report delta (lives rs) (rates rs)) := by
  have hlengths : ((List.range (st.longest_session + 1)).mapM fun i =>
      if i + 1 < 2 ^ 31 then st.len_hist[i]?.join else none) =
        some ((List.range (st.longest_session + 1)).map (ofLength (lives rs))) := by
    refine mapM_some fun i hi => ?_
    have hle := Nat.le_of_lt_succ (List.mem_range.mp hi)
    have hlongest : longest (lives rs) < 2 ^ 31 - 1 :=
      longest_lt (fun l hl => Nat.lt_sub_of_add_lt (hfits.calls l hl)) (by decide)
    rw [hl.longest_session] at hle
    rw [if_pos (by omega), hl.len_hist, cells_get
      (Nat.lt_of_le_of_lt (hl.longest_session ▸ hle) hl.room)]
    rfl
  have hsum := completed_add_failed (lives rs)
  have hsessions := hfits.sessions
  unfold dump
  rw [hlengths]
  refine congrArg some (Printed.ext ?_ ?_ hc.rate_max ?_ hc.num_completed ?_ ?_ ?_ ?_ ?_)
  · change (if st.num_rate_samples > 0 then st.rate_min else 0) = if rates rs = [] then 0 else _
    rw [hc.num_rate_samples, hc.rate_min]
    cases rates rs <;> simp
  · change (if delta > 0 then (st.num_completed : ℚ) / delta else 0) = _
    rw [hc.num_completed]
    rfl
  · change (if st.num_rate_samples > 1 then VAR _ _ _ else 0) = if (rates rs).length > 1 then _
      else 0
    rw [hc.num_rate_samples, hc.rate_sum, hc.rate_sum2]
    split
    · rename_i hmany
      exact VAR_eq hmany
    · rfl
  · change (st.num_completed + st.num_failed) % 2 ^ 32 = (lives rs).length
    rw [hc.num_completed, hc.num_failed, hsum, Nat.mod_eq_of_lt hsessions]
  · refine mean_eq ?_ (by rw [List.length_map]; exact hc.num_completed)
    rw [hc.num_conns, Nat.cast_list_sum, List.map_map]
    rfl
  · exact mean_eq hc.lifetime_sum (by rw [List.length_map]; exact hc.num_completed)
  · exact mean_eq hc.failtime_sum (by rw [List.length_map]; exact hc.num_failed)
  · change _ = (List.range (longest (lives rs) + 1)).map _
    rw [← hl.longest_session]

/-- The report of a run. -/
def run (events : List (Occurrence Nat ℚ Heard Destroyed ℚ)) : Option St :=
  (session_stat.run events (fun _ => none, init)).map Prod.snd

/-- What is printed at the end is what the lives of the sessions say: the rates, the durations, the
connections, and for each number of calls how many sessions made so many. No cell of the histogram
is read or written that does not exist or was never written, however long the sessions get. -/
theorem the_session_report_is_true {events : List (Occurrence Nat ℚ Heard Destroyed ℚ)}
    (hproper : Proper [] events) (hfits : Fits (reports [] events)) (delta : ℚ) :
    (run events).bind (dump delta) =
      some (report delta (lives (reports [] events)) (rates (reports [] events))) := by
  obtain ⟨st, hst, hc, hl⟩ := reports_known (reports [] events) hfits
  have hrun : run events = some st :=
    (session_stat.run_spec events hproper (fun i => rfl) init).trans hst
  rw [hrun, Option.bind_some, dump_spec hc hl hfits]

/-- A session of twenty calls, one that fails, and one without calls where the first one was. -/
def someEvents : List (Occurrence Nat ℚ Heard Destroyed ℚ) :=
  [.made 1 0, .hears 1 .conn_connected] ++ List.replicate 20 (.hears 1 .call_done) ++
    [.made 2 1, .dies 1 ⟨false, 3⟩, .other (1 / 5), .made 1 4, .dies 2 ⟨true, 5⟩,
      .dies 1 ⟨false, 6⟩]

theorem the_session_report_is_true_some :
    (run someEvents).bind (dump 7) =
      some (report 7 (lives (reports [] someEvents)) (rates (reports [] someEvents))) :=
  the_session_report_is_true (by decide) ⟨by decide, by decide, by decide, by decide⟩ 7

end Httperf.SessStat
