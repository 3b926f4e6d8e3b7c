-- A batch of ready descriptors as `core_loop` serves it after `select` (`core.c` without epoll and
-- kqueue). `select` counts bits and the loop counts descriptors, so that a descriptor in both sets
-- keeps the loop going round.
import Httperf.Lib.Bits
import Mathlib.Algebra.BigOperators.Group.Finset.Basic
import Mathlib.Algebra.GroupWithZero.Nat
import Mathlib.Data.List.Perm.Subperm

namespace Httperf.Select

open Lib

def NFDBITS : Nat := 64

/-- The words of an `fd_set`. -/
abbrev FdSet := Nat → BitVec NFDBITS

def FD_ISSET (sd : Nat) (fds : FdSet) : Bool := (fds (sd / NFDBITS)).getLsbD (sd % NFDBITS)

/-- `sendq` and `recvq` only as far as there is something in them. -/
structure Conn where
  connecting : Bool
  sendq : Bool
  recvq : Bool

/-- Each descriptor that the loop waits for lies between `min_sd` and `max_sd`. -/
structure World where
  rdfds : FdSet
  wrfds : FdSet
  min_sd : Nat
  max_sd : Nat
  sd_to_conn : Nat → Conn
  within : ∀ sd, FD_ISSET sd rdfds ∨ FD_ISSET sd wrfds → min_sd ≤ sd ∧ sd ≤ max_sd

/-- What happens inside the calls, with the handlers of their events: connections are closed and
made, and descriptors are used again. -/
structure Handlers where
  /-- `clear_active` and `EV_CONN_CONNECTED` -/
  connected : Nat → World → World
  /-- also gives the connection, which the descriptor may no longer stand for -/
  do_send : Nat → World → World × Conn
  do_recv : Nat → World → World
  timer_tick : World → World

/-- The sets that `select` gives back. -/
structure Selected (w : World) where
  readable : FdSet
  writable : FdSet
  rdfds : ∀ sd, FD_ISSET sd readable → FD_ISSET sd w.rdfds
  wrfds : ∀ sd, FD_ISSET sd writable → FD_ISSET sd w.wrfds

/-- `log` has the descriptors that were dispatched, the latest first. -/
structure State where
  i : Nat
  n : Int
  world : World
  log : List Nat

/-! ## The loop -/

section
variable (h : Handlers)

def dispatch (sd : Nat) (is_readable is_writable : Bool) (w : World) : World :=
  let conn := w.sd_to_conn sd
  if conn.connecting then
    if is_writable then h.connected sd w else w
  else
    let (w, conn) := if is_writable && conn.sendq then h.do_send sd w else (w, conn)
    if is_readable && conn.recvq then h.do_recv sd w else w

variable (readable writable : FdSet)

/-- One bit of the mask. -/
def serve (sd : Nat) (s : State) : State :=
  let n := s.n - 1
  let is_readable := FD_ISSET sd readable && FD_ISSET sd s.world.rdfds
  let is_writable := FD_ISSET sd writable && FD_ISSET sd s.world.wrfds
  if is_readable || is_writable then
    let w := dispatch h sd is_readable is_writable s.world
    { s with n, world := if 0 < n then h.timer_tick w else w, log := sd :: s.log }
  else { s with n }

theorem shift_lt {mask : BitVec NFDBITS} (hmask : mask >>> 1 ≠ 0) :
    (mask >>> 1).toNat < mask.toNat := by
  rw [BitVec.toNat_ushiftRight, Nat.shiftRight_eq_div_pow]
  refine Nat.div_lt_self (Nat.pos_of_ne_zero fun h0 => hmask ?_) (by decide)
  rw [BitVec.eq_of_toNat_eq (y := 0) h0]
  rfl

def serve_mask (mask : BitVec NFDBITS) (sd : Nat) (s : State) : State :=
  let s := if mask.getLsbD 0 then serve h readable writable sd s else s
  if mask >>> 1 = 0 then s else serve_mask (mask >>> 1) (sd + 1) s
termination_by mask.toNat
decreasing_by exact shift_lt (by assumption)

variable (min_i max_i : Nat)

def mask (i : Nat) : BitVec NFDBITS := readable i ||| writable i

def next (i : Nat) : Nat := if max_i < i + 1 then min_i else i + 1

/-- The index of the next word that has something going on. -/
def find : Nat → Nat → Option Nat
  | 0, _ => none
  | fuel + 1, i =>
    let i := next min_i max_i i
    if mask readable writable i = 0 then find fuel i else some i

def serve_all : Nat → State → Option State
  | 0, _ => none
  | fuel + 1, s =>
    if 0 < s.n then
      match find readable writable min_i max_i fuel s.i with
      | none => none
      | some i => serve_all fuel
          (serve_mask h readable writable (mask readable writable i) (i * NFDBITS) { s with i })
    else some s

end

/-- The bits that are set in the words up to `max_i`. -/
def count (fds : FdSet) (max_i : Nat) : Nat :=
  ((List.range (max_i + 1)).map fun i => (Bits.ones (fds i)).length).sum

/-- Behind `select`, with the word that the last batch has left. -/
def selected (w : World) (sel : Selected w) (i : Nat) : State :=
  ⟨i, count sel.readable (w.max_sd / NFDBITS) + count sel.writable (w.max_sd / NFDBITS), w, []⟩

def batch (h : Handlers) (w : World) (sel : Selected w) (i fuel : Nat) : Option State :=
  serve_all h sel.readable sel.writable (w.min_sd / NFDBITS) (w.max_sd / NFDBITS) fuel
    (selected w sel i)

/-- The batch comes to an end, and no descriptor is dispatched twice. -/
def ServesOnce (w : World) (sel : Selected w) (i : Nat) : Prop :=
  ∀ h : Handlers, ∃ s, (∃ least, ∀ fuel ≥ least, batch h w sel i fuel = some s) ∧ s.log.Nodup

/-- No descriptor is both readable and writable. -/
def Disjoint (w : World) (sel : Selected w) : Prop :=
  ∀ sd, FD_ISSET sd sel.readable → FD_ISSET sd sel.writable = false

/-! ## A word -/

variable {h : Handlers} {readable writable : FdSet} {min_i max_i : Nat}

/-- The descriptors of word `i` that `mask` shows. -/
def descriptors (mask : BitVec NFDBITS) (i : Nat) : List Nat :=
  (Bits.ones mask).map (i * NFDBITS + ·)

theorem descriptors_nodup (mask : BitVec NFDBITS) (i : Nat) : (descriptors mask i).Nodup :=
  List.Nodup.map (fun _ _ hab => Nat.add_left_cancel hab) (Bits.ones_nodup mask)

theorem div_of_mem {m : BitVec NFDBITS} {i sd : Nat} (hsd : sd ∈ descriptors m i) :
    sd / NFDBITS = i := by
  obtain ⟨b, hb, rfl⟩ := List.mem_map.mp hsd
  have hlt := BitVec.lt_of_getLsbD (Bits.mem_ones.mp hb)
  unfold NFDBITS at *
  omega

theorem isset_of_mem {i sd : Nat} (hsd : sd ∈ descriptors (mask readable writable i) i) :
    FD_ISSET sd readable = true ∨ FD_ISSET sd writable = true := by
  have hdiv := div_of_mem hsd
  obtain ⟨b, hb, rfl⟩ := List.mem_map.mp hsd
  have hbit := Bits.mem_ones.mp hb
  have hlt := BitVec.lt_of_getLsbD hbit
  have hmod : (i * NFDBITS + b) % NFDBITS = b := by
    unfold NFDBITS at *
    omega
  unfold FD_ISSET
  rw [hdiv, hmod]
  unfold mask at hbit
  rw [BitVec.getLsbD_or, Bool.or_eq_true] at hbit
  exact hbit

/-- The loop over a mask serves the descriptors that it shows, one after the other. -/
theorem serve_mask_eq (m : BitVec NFDBITS) (sd : Nat) (s : State) :
    serve_mask h readable writable m sd s =
      ((Bits.ones m).map (sd + ·)).foldl (fun s sd => serve h readable writable sd s) s := by
  induction hm : m.toNat using Nat.strong_induction_on generalizing m sd s with
  | h k ih =>
    have hrest : ∀ s, (if m >>> 1 = 0 then s else
        serve_mask h readable writable (m >>> 1) (sd + 1) s) =
        (((Bits.ones (m >>> 1)).map (· + 1)).map (sd + ·)).foldl
          (fun s sd => serve h readable writable sd s) s := by
      intro s
      by_cases hzero : m >>> 1 = 0
      · rw [if_pos hzero, Bits.ones_eq_nil_iff.mpr hzero]
        rfl
      · rw [if_neg hzero, ih _ (hm ▸ shift_lt hzero) (m >>> 1) (sd + 1) s rfl, List.map_map]
        congr 2
        funext b
        exact Nat.add_right_comm sd 1 b
    rw [serve_mask, hrest, Bits.ones_shift m, List.map_append, List.foldl_append]
    by_cases hlow : m.getLsbD 0 = true
    · rw [if_pos hlow, if_pos hlow]
      rfl
    · rw [if_neg hlow, if_neg hlow]
      rfl

theorem serve_n (sd : Nat) (s : State) : (serve h readable writable sd s).n = s.n - 1 := by
  unfold serve
  dsimp only
  split <;> rfl

theorem serve_i (sd : Nat) (s : State) : (serve h readable writable sd s).i = s.i := by
  unfold serve
  dsimp only
  split <;> rfl

theorem serve_log (h : Handlers) (readable writable : FdSet) (sd : Nat) (s : State) :
    (serve h readable writable sd s).log = s.log ∨
      (serve h readable writable sd s).log = sd :: s.log := by
  unfold serve
  dsimp only
  split
  · exact .inr rfl
  · exact .inl rfl

/-- The state behind a row of descriptors. -/
structure Served (sds : List Nat) (s s' : State) : Prop where
  i : s'.i = s.i
  n : s'.n = s.n - sds.length
  log : ∀ sd ∈ s'.log, sd ∈ s.log ∨ sd ∈ sds
  nodup : s.log.Nodup → sds.Nodup → (∀ sd ∈ sds, sd ∉ s.log) → s'.log.Nodup

theorem foldl_served (sds : List Nat) (s : State) :
    Served sds s (sds.foldl (fun s sd => serve h readable writable sd s) s) := by
  induction sds generalizing s with
  | nil => exact ⟨rfl, by simp, fun sd hsd => .inl hsd, fun hlog _ _ => hlog⟩
  | cons x sds ih =>
    have hrest := ih (serve h readable writable x s)
    have hhead : ∀ sd ∈ (serve h readable writable x s).log, sd ∈ s.log ∨ sd = x := by
      intro sd hsd
      rcases serve_log h readable writable x s with hl | hl
      · rw [hl] at hsd
        exact .inl hsd
      · rw [hl, List.mem_cons] at hsd
        exact hsd.symm
    refine ⟨hrest.i.trans (serve_i x s), ?_, ?_, ?_⟩
    · have hn := hrest.n
      rw [serve_n] at hn
      rw [List.foldl_cons, hn, List.length_cons]
      omega
    · intro sd hsd
      rcases hrest.log sd hsd with h1 | h1
      · rcases hhead sd h1 with h2 | h2
        · exact .inl h2
        · exact .inr (h2 ▸ List.mem_cons_self)
      · exact .inr (List.mem_cons_of_mem x h1)
    · intro hlog hsds hnew
      rw [List.nodup_cons] at hsds
      refine hrest.nodup ?_ hsds.2 ?_
      · rcases serve_log h readable writable x s with hl | hl
        · rw [hl]
          exact hlog
        · rw [hl]
          exact List.nodup_cons.mpr ⟨hnew x List.mem_cons_self, hlog⟩
      · intro sd hsd hin
        rcases hhead sd hin with h1 | h1
        · exact hnew sd (List.mem_cons_of_mem x hsd) h1
        · exact hsds.1 (h1 ▸ hsd)

theorem serve_mask_served (h : Handlers) (readable writable : FdSet) (m : BitVec NFDBITS) (i : Nat)
    (s : State) :
    Served (descriptors m i) s (serve_mask h readable writable m (i * NFDBITS) s) := by
  rw [serve_mask_eq]
  exact foldl_served _ s

/-! ## The way round -/

/-- From word `i` the loop comes to these words, one after the other. -/
def Path (min_i max_i : Nat) : Nat → List Nat → Prop
  | _, [] => True
  | i, w :: ws => w = next min_i max_i i ∧ Path min_i max_i w ws

/-- Once round from word `i` on. -/
def round (min_i max_i i : Nat) : List Nat :=
  List.range' (i + 1) (max_i - i) ++ List.range' min_i (min i max_i + 1 - min_i)

theorem path_up {i k : Nat} {ws : List Nat} (hk : i + k ≤ max_i)
    (hws : Path min_i max_i (i + k) ws) :
    Path min_i max_i i (List.range' (i + 1) k ++ ws) := by
  induction k generalizing i with
  | zero => exact hws
  | succ k ih =>
    rw [List.range'_succ, List.cons_append]
    refine ⟨(if_neg (by omega)).symm, ih (by omega) ?_⟩
    rw [Nat.add_right_comm]
    exact hws

theorem path_wrap {i k : Nat} (hi : max_i ≤ i) (hk : min_i + k ≤ max_i + 1) :
    Path min_i max_i i (List.range' min_i k) := by
  cases k with
  | zero => trivial
  | succ k =>
    rw [List.range'_succ]
    refine ⟨(if_pos (by omega)).symm, ?_⟩
    have hnil : Path min_i max_i (min_i + k) [] := trivial
    have hup := path_up (by omega) hnil
    rw [List.append_nil] at hup
    exact hup

theorem path_round (hle : min_i ≤ max_i) (i : Nat) :
    Path min_i max_i i (round min_i max_i i) := by
  unfold round
  by_cases hi : i ≤ max_i
  · apply path_up (by omega)
    rw [Nat.add_sub_cancel' hi, Nat.min_eq_left hi]
    by_cases hmin : min_i ≤ i + 1
    · exact path_wrap (Nat.le_refl _) (by omega)
    · rw [Nat.sub_eq_zero_of_le (by omega)]
      trivial
  · rw [Nat.sub_eq_zero_of_le (by omega)]
    exact path_wrap (by omega) (by omega)

theorem round_nodup (min_i max_i i : Nat) : (round min_i max_i i).Nodup := by
  unfold round
  rw [List.nodup_append]
  refine ⟨List.nodup_range', List.nodup_range', fun a ha b hb => ?_⟩
  rw [List.mem_range'_1] at ha hb
  omega

theorem mem_round {i w : Nat} (hmin : min_i ≤ w) (hmax : w ≤ max_i) :
    w ∈ round min_i max_i i := by
  unfold round
  rw [List.mem_append, List.mem_range'_1, List.mem_range'_1]
  omega

/-- The next word of the way that has something going on, and the rest of the way. -/
theorem find_path (readable writable : FdSet) {i : Nat} {ws : List Nat}
    (hpath : Path min_i max_i i ws) (hready : ∃ w ∈ ws, mask readable writable w ≠ 0) :
    ∃ pre w post, ws = pre ++ w :: post ∧ (∀ v ∈ pre, mask readable writable v = 0) ∧
      mask readable writable w ≠ 0 ∧ Path min_i max_i w post ∧
      ∀ fuel, find readable writable min_i max_i fuel i =
        if pre.length < fuel then some w else none := by
  induction ws generalizing i with
  | nil =>
    obtain ⟨w, hw, _⟩ := hready
    cases hw
  | cons x ws ih =>
    obtain ⟨rfl, hpath⟩ := hpath
    by_cases hx : mask readable writable (next min_i max_i i) = 0
    · have hrest : ∃ w ∈ ws, mask readable writable w ≠ 0 := by
        obtain ⟨w, hw, hne⟩ := hready
        rcases List.mem_cons.mp hw with rfl | hw
        · exact absurd hx hne
        · exact ⟨w, hw, hne⟩
      obtain ⟨pre, w, post, rfl, hpre, hw, hpost, hfind⟩ := ih hpath hrest
      refine ⟨next min_i max_i i :: pre, w, post, rfl, ?_, hw, hpost, ?_⟩
      · intro v hv
        rcases List.mem_cons.mp hv with rfl | hv
        · exact hx
        · exact hpre v hv
      · intro fuel
        cases fuel with
        | zero => rfl
        | succ fuel =>
          rw [find, if_pos hx, hfind, List.length_cons]
          simp only [Nat.add_lt_add_iff_right]
    · refine ⟨[], _, ws, rfl, fun v hv => (nomatch hv), hx, hpath, fun fuel => ?_⟩
      cases fuel with
      | zero => rfl
      | succ fuel =>
        rw [find, if_neg hx]
        exact (if_pos (Nat.succ_pos fuel)).symm

/-! ## The end of a batch -/

/-- The loop ends: each word that it stops at has a descriptor to count. -/
theorem serve_all_ends (hready : ∃ w, min_i ≤ w ∧ w ≤ max_i ∧ mask readable writable w ≠ 0)
    (m : Nat) (s : State) (hm : s.n ≤ m) :
    ∃ s' least, ∀ fuel ≥ least,
      serve_all h readable writable min_i max_i fuel s = some s' := by
  induction m generalizing s with
  | zero =>
    refine ⟨s, 1, fun fuel hfuel => ?_⟩
    obtain ⟨fuel, rfl⟩ := Nat.exists_eq_add_of_le' hfuel
    rw [serve_all, if_neg (by omega)]
  | succ m ih =>
    by_cases hn : 0 < s.n
    · obtain ⟨w, hmin, hmax, hw⟩ := hready
      obtain ⟨pre, v, post, hround, _, hv, _, hfind⟩ :=
        find_path readable writable (path_round (hmin.trans hmax) s.i)
          ⟨w, mem_round hmin hmax, hw⟩
      have hserved := serve_mask_served h readable writable
        (mask readable writable v) v { s with i := v }
      have hpos : 0 < (descriptors (mask readable writable v) v).length := by
        rw [List.length_pos_iff]
        intro hnil
        exact hv (Bits.ones_eq_nil_iff.mp (List.map_eq_nil_iff.mp hnil))
      have hless := hserved.n
      dsimp only at hless
      obtain ⟨s', least, hends⟩ := ih (serve_mask h readable writable (mask readable writable v)
        (v * NFDBITS) { s with i := v }) (by omega)
      refine ⟨s', pre.length + least + 2, fun fuel hfuel => ?_⟩
      obtain ⟨fuel, rfl⟩ := Nat.exists_eq_add_of_le' hfuel
      rw [← Nat.add_assoc, serve_all, if_pos hn, hfind, if_pos (by omega)]
      exact hends _ (by omega)
    · refine ⟨s, 1, fun fuel hfuel => ?_⟩
      obtain ⟨fuel, rfl⟩ := Nat.exists_eq_add_of_le' hfuel
      rw [serve_all, if_neg hn]

/-- The descriptors in these words. -/
def total (readable writable : FdSet) (ws : List Nat) : Nat :=
  (ws.map fun w => (descriptors (mask readable writable w) w).length).sum

theorem total_of_zero {ws : List Nat} (hws : ∀ w ∈ ws, mask readable writable w = 0) :
    total readable writable ws = 0 := by
  unfold total
  rw [List.sum_eq_zero_iff_forall_eq_nat]
  intro x hx
  obtain ⟨w, hw, rfl⟩ := List.mem_map.mp hx
  unfold descriptors
  rw [hws w hw, Bits.ones_eq_nil_iff.mpr rfl]
  rfl

/-- As long as `n` is the number of descriptors ahead, none comes twice. -/
theorem serve_all_nodup (fuel : Nat) {s s' : State} {ws : List Nat}
    (hpath : Path min_i max_i s.i ws) (hws : ws.Nodup)
    (hn : s.n = total readable writable ws) (hlog : s.log.Nodup)
    (hdone : ∀ sd ∈ s.log, sd / NFDBITS ∉ ws)
    (hrun : serve_all h readable writable min_i max_i fuel s = some s') : s'.log.Nodup := by
  induction fuel generalizing s ws with
  | zero => cases hrun
  | succ fuel ih =>
    rw [serve_all] at hrun
    by_cases hpos : 0 < s.n
    · rw [if_pos hpos] at hrun
      have hready : ∃ w ∈ ws, mask readable writable w ≠ 0 := by
        by_contra hno
        have hzero : total readable writable ws = 0 :=
          total_of_zero fun w hw => by_contra fun h => hno ⟨w, hw, h⟩
        omega
      obtain ⟨pre, w, post, rfl, hpre, _, hpost, hfind⟩ := find_path readable writable hpath hready
      rw [hfind] at hrun
      by_cases hfuel : pre.length < fuel
      · rw [if_pos hfuel] at hrun
        have hserved := serve_mask_served h readable writable
          (mask readable writable w) w { s with i := w }
        obtain ⟨_, hnodup, hdisj⟩ := List.nodup_append.mp hws
        obtain ⟨hw, hnodup⟩ := List.nodup_cons.mp hnodup
        refine ih (hserved.i ▸ hpost) hnodup ?_ ?_ ?_ hrun
        · rw [hserved.n]
          dsimp only
          have hsplit : total readable writable (pre ++ w :: post) =
              total readable writable pre + ((descriptors (mask readable writable w) w).length +
                total readable writable post) := by
            unfold total
            rw [List.map_append, List.sum_append, List.map_cons, List.sum_cons]
          rw [total_of_zero hpre] at hsplit
          omega
        · apply hserved.nodup hlog (descriptors_nodup _ w)
          intro sd hsd hin
          apply hdone sd hin
          rw [div_of_mem hsd]
          exact List.mem_append_right pre List.mem_cons_self
        · intro sd hsd
          rcases hserved.log sd hsd with hold | hnew
          · intro hin
            exact hdone sd hold (List.mem_append_right pre (List.mem_cons_of_mem w hin))
          · rw [div_of_mem hnew]
            exact hw
      · rw [if_neg hfuel] at hrun
        cases hrun
    · rw [if_neg hpos] at hrun
      cases hrun
      exact hlog

/-! ## The count -/

variable {w : World} {sel : Selected w}

/-- The words of the descriptors that `select` reports. -/
theorem word_within {sd : Nat}
    (hsd : FD_ISSET sd sel.readable = true ∨ FD_ISSET sd sel.writable = true) :
    w.min_sd / NFDBITS ≤ sd / NFDBITS ∧ sd / NFDBITS ≤ w.max_sd / NFDBITS := by
  obtain ⟨hmin, hmax⟩ := w.within sd (hsd.imp (sel.rdfds sd) (sel.wrfds sd))
  exact ⟨Nat.div_le_div_right hmin, Nat.div_le_div_right hmax⟩

theorem mask_within {i : Nat} (hi : mask sel.readable sel.writable i ≠ 0) :
    w.min_sd / NFDBITS ≤ i ∧ i ≤ w.max_sd / NFDBITS := by
  rw [Ne, ← Bits.ones_eq_nil_iff] at hi
  obtain ⟨b, hb⟩ := List.exists_mem_of_ne_nil _ hi
  have hsd : i * NFDBITS + b ∈ descriptors (mask sel.readable sel.writable i) i :=
    List.mem_map_of_mem hb
  have hwithin := word_within (isset_of_mem hsd)
  rw [div_of_mem hsd] at hwithin
  exact hwithin

theorem mem_descriptors {sd : Nat}
    (hsd : FD_ISSET sd readable = true ∨ FD_ISSET sd writable = true) :
    sd ∈ descriptors (mask readable writable (sd / NFDBITS)) (sd / NFDBITS) := by
  unfold descriptors
  rw [List.mem_map]
  refine ⟨sd % NFDBITS, Bits.mem_ones.mpr ?_, Nat.div_add_mod' sd NFDBITS⟩
  unfold mask
  rw [BitVec.getLsbD_or, Bool.or_eq_true]
  exact hsd

/-- The bits that both sets have. -/
def shared (readable writable : FdSet) (max_i : Nat) : Nat :=
  ((List.range (max_i + 1)).map fun i => (Bits.ones (readable i &&& writable i)).length).sum

/-- `select` counts what both sets have twice. -/
theorem count_add_count (readable writable : FdSet) (max_i : Nat) :
    count readable max_i + count writable max_i =
      total readable writable (List.range (max_i + 1)) + shared readable writable max_i := by
  unfold count total shared
  rw [← List.sum_map_add, ← List.sum_map_add]
  refine congrArg List.sum (List.map_congr_left fun i _ => ?_)
  unfold descriptors
  rw [List.length_map]
  exact (Bits.ones_or_and (readable i) (writable i)).symm

theorem shared_eq_zero_iff :
    shared sel.readable sel.writable (w.max_sd / NFDBITS) = 0 ↔ Disjoint w sel := by
  unfold shared
  rw [List.sum_eq_zero_iff_forall_eq_nat, List.forall_mem_map]
  constructor
  · intro hzero sd hr
    have hi := hzero (sd / NFDBITS)
      (List.mem_range.mpr (Nat.lt_succ_of_le (word_within (.inl hr)).2))
    rw [List.length_eq_zero_iff, Bits.ones_eq_nil_iff, Bits.eq_zero_iff] at hi
    have hbit := hi (sd % NFDBITS) (Nat.mod_lt sd (by decide))
    rw [BitVec.getLsbD_and, Bool.and_eq_false_iff] at hbit
    exact hbit.resolve_left (by rw [Bool.not_eq_false]; exact hr)
  · intro hdisj i _
    rw [List.length_eq_zero_iff, Bits.ones_eq_nil_iff, Bits.eq_zero_iff]
    intro b hb
    have hdiv : (i * NFDBITS + b) / NFDBITS = i := by
      unfold NFDBITS at *
      omega
    have hmod : (i * NFDBITS + b) % NFDBITS = b := by
      unfold NFDBITS at *
      omega
    have hsd := hdisj (i * NFDBITS + b)
    unfold FD_ISSET at hsd
    rw [hdiv, hmod] at hsd
    rw [BitVec.getLsbD_and, Bool.and_eq_false_iff]
    cases hr : (sel.readable i).getLsbD b with
    | false => exact .inl rfl
    | true => exact .inr (hsd hr)

theorem count_of_none (hnone : ∀ i, mask readable writable i = 0) (max_i : Nat) :
    count readable max_i + count writable max_i = 0 := by
  have hzero : ∀ i, readable i = 0 ∧ writable i = 0 := fun i => BitVec.or_eq_zero_iff.mp (hnone i)
  rw [count_add_count, total_of_zero fun i _ => hnone i, Nat.zero_add]
  unfold shared
  rw [List.sum_eq_zero_iff_forall_eq_nat, List.forall_mem_map]
  intro i _
  rw [(hzero i).1, (hzero i).2, Bits.ones_eq_nil_iff.mpr (BitVec.and_self)]
  rfl

/-- Once round, the loop comes by all words that have something going on. -/
theorem total_round (i : Nat) :
    total sel.readable sel.writable (round (w.min_sd / NFDBITS) (w.max_sd / NFDBITS) i) =
      total sel.readable sel.writable (List.range (w.max_sd / NFDBITS + 1)) := by
  unfold total
  rw [← List.sum_toFinset _ (round_nodup _ _ i), ← List.sum_toFinset _ List.nodup_range]
  have hzero : ∀ v, ¬ (mask sel.readable sel.writable v ≠ 0) →
      (descriptors (mask sel.readable sel.writable v) v).length = 0 := by
    intro v hv
    unfold descriptors
    rw [Bits.ones_eq_nil_iff.mpr (not_not.mp hv)]
    rfl
  refine Finset.sum_congr_of_eq_on_inter ?_ ?_ fun _ _ _ => rfl
  · intro v _ hv
    refine hzero v fun hne => hv ?_
    rw [List.mem_toFinset, List.mem_range]
    exact Nat.lt_succ_of_le (mask_within hne).2
  · intro v _ hv
    refine hzero v fun hne => hv ?_
    rw [List.mem_toFinset]
    exact mem_round (mask_within hne).1 (mask_within hne).2

/-! ## Handlers that change nothing -/

/-- Part of a request is sent, part of a reply comes in. -/
def idle : Handlers :=
  ⟨fun _ w => w, fun sd w => (w, w.sd_to_conn sd), fun _ w => w, fun w => w⟩

theorem dispatch_idle (sd : Nat) (r wr : Bool) (w : World) : dispatch idle sd r wr w = w := by
  unfold dispatch idle
  dsimp only
  split
  · split <;> rfl
  · split <;> split <;> rfl

/-- All descriptors of the log were ready, and it is as long as `n` has got smaller. -/
structure Idle (w : World) (sel : Selected w) (n : Int) (s : State) : Prop where
  world : s.world = w
  length : s.log.length + s.n = n
  ready : ∀ sd ∈ s.log, FD_ISSET sd sel.readable = true ∨ FD_ISSET sd sel.writable = true

theorem serve_idle {n : Int} {s : State} (hs : Idle w sel n s) {sd : Nat}
    (hsd : FD_ISSET sd sel.readable = true ∨ FD_ISSET sd sel.writable = true) :
    Idle w sel n (serve idle sel.readable sel.writable sd s) := by
  have hset : (FD_ISSET sd sel.readable && FD_ISSET sd s.world.rdfds ||
      FD_ISSET sd sel.writable && FD_ISSET sd s.world.wrfds) = true := by
    rw [hs.world, Bool.or_eq_true, Bool.and_eq_true, Bool.and_eq_true]
    exact hsd.imp (fun h => ⟨h, sel.rdfds sd h⟩) fun h => ⟨h, sel.wrfds sd h⟩
  have hlength := hs.length
  unfold serve
  dsimp only
  rw [if_pos hset]
  refine ⟨?_, ?_, ?_⟩
  · dsimp only
    rw [dispatch_idle, hs.world]
    exact ite_self w
  · dsimp only
    rw [List.length_cons]
    omega
  · intro x hx
    rcases List.mem_cons.mp hx with rfl | hx
    · exact hsd
    · exact hs.ready x hx

theorem foldl_idle {n : Int} (sds : List Nat) {s : State} (hs : Idle w sel n s)
    (hsds : ∀ sd ∈ sds, FD_ISSET sd sel.readable = true ∨ FD_ISSET sd sel.writable = true) :
    Idle w sel n (sds.foldl (fun s sd => serve idle sel.readable sel.writable sd s) s) := by
  induction sds generalizing s with
  | nil => exact hs
  | cons x sds ih =>
    exact ih (serve_idle hs (hsds x List.mem_cons_self))
      fun sd hsd => hsds sd (List.mem_cons_of_mem x hsd)

theorem serve_all_idle {n : Int} (fuel : Nat) {s s' : State} (hs : Idle w sel n s)
    (hrun : serve_all idle sel.readable sel.writable min_i max_i fuel s = some s') :
    Idle w sel n s' ∧ s'.n ≤ 0 := by
  induction fuel generalizing s with
  | zero => cases hrun
  | succ fuel ih =>
    rw [serve_all] at hrun
    split at hrun
    · split at hrun
      · cases hrun
      · apply ih _ hrun
        rw [serve_mask_eq]
        exact foldl_idle _ ⟨hs.world, hs.length, hs.ready⟩ fun sd hsd => isset_of_mem hsd
    · cases hrun
      exact ⟨hs, by omega⟩

/-- There are no more descriptors than that in a log without repetitions. -/
theorem length_le_total {log : List Nat} (hnodup : log.Nodup)
    (hready : ∀ sd ∈ log, FD_ISSET sd sel.readable = true ∨ FD_ISSET sd sel.writable = true) :
    log.length ≤ total sel.readable sel.writable (List.range (w.max_sd / NFDBITS + 1)) := by
  have hsub : log ⊆ (List.range (w.max_sd / NFDBITS + 1)).flatMap
      fun i => descriptors (mask sel.readable sel.writable i) i := by
    intro sd hsd
    rw [List.mem_flatMap]
    exact ⟨sd / NFDBITS, List.mem_range.mpr (Nat.lt_succ_of_le (word_within (hready sd hsd)).2),
      mem_descriptors (hready sd hsd)⟩
  have hle := (List.subperm_of_subset hnodup hsub).length_le
  rw [List.length_flatMap] at hle
  exact hle

/-! ## The law -/

theorem batch_ends (h : Handlers) (w : World) (sel : Selected w) (i : Nat) :
    ∃ s least, ∀ fuel ≥ least, batch h w sel i fuel = some s := by
  by_cases hready : ∃ v, mask sel.readable sel.writable v ≠ 0
  · obtain ⟨v, hv⟩ := hready
    exact serve_all_ends ⟨v, (mask_within hv).1, (mask_within hv).2, hv⟩ _ _ (Int.le_refl _)
  · have hzero := count_of_none (fun v => by_contra fun hv => hready ⟨v, hv⟩)
      (w.max_sd / NFDBITS)
    refine ⟨selected w sel i, 1, fun fuel hfuel => ?_⟩
    obtain ⟨fuel, rfl⟩ := Nat.exists_eq_add_of_le' hfuel
    unfold batch
    rw [serve_all, if_neg]
    dsimp only [selected]
    omega

theorem disjoint_of_once {i : Nat} (honce : ServesOnce w sel i) : Disjoint w sel := by
  have hcount := count_add_count sel.readable sel.writable (w.max_sd / NFDBITS)
  obtain ⟨s, ⟨least, hends⟩, hnodup⟩ := honce idle
  have hrun := hends least (Nat.le_refl least)
  have hfirst : Idle w sel (selected w sel i).n (selected w sel i) :=
    ⟨rfl, Int.zero_add _, List.forall_mem_nil _⟩
  obtain ⟨hidle, hn⟩ := serve_all_idle least hfirst hrun
  have hle := length_le_total hnodup hidle.ready
  have hlength := hidle.length
  dsimp only [selected] at hlength
  rw [← shared_eq_zero_iff]
  omega

/-- Then `n` counts descriptors. -/
theorem once_of_disjoint (hdisj : Disjoint w sel) (i : Nat) : ServesOnce w sel i := by
  intro h
  have hcount := count_add_count sel.readable sel.writable (w.max_sd / NFDBITS)
  have hzero := shared_eq_zero_iff.mpr hdisj
  obtain ⟨s, least, hends⟩ := batch_ends h w sel i
  have hrun := hends least (Nat.le_refl least)
  refine ⟨s, ⟨least, hends⟩, ?_⟩
  by_cases hle : w.min_sd / NFDBITS ≤ w.max_sd / NFDBITS
  · refine serve_all_nodup least (path_round hle i) (round_nodup _ _ i) ?_ List.nodup_nil
      (List.forall_mem_nil _) hrun
    dsimp only [selected]
    rw [total_round]
    omega
  · -- with no word to look at there is nothing to serve
    have hnone : ∀ v, mask sel.readable sel.writable v = 0 := by
      intro v
      by_contra hv
      have hwithin := mask_within hv
      omega
    have hcount := count_of_none hnone (w.max_sd / NFDBITS)
    have hpath : Path (w.min_sd / NFDBITS) (w.max_sd / NFDBITS) i [] := trivial
    have hempty : total sel.readable sel.writable [] = 0 := rfl
    refine serve_all_nodup least hpath List.nodup_nil ?_ List.nodup_nil (List.forall_mem_nil _) hrun
    dsimp only [selected]
    rw [hempty]
    omega

/-- A batch serves each descriptor once exactly when none is in both sets. -/
theorem serves_once_iff (w : World) (sel : Selected w) (i : Nat) :
    ServesOnce w sel i ↔ Disjoint w sel :=
  ⟨disjoint_of_once, fun h => once_of_disjoint h i⟩

/-- Descriptor 5 alone. -/
def five : FdSet := fun i => if i = 0 then BitVec.ofNat NFDBITS 1 <<< 5 else 0

theorem eq_of_five {sd : Nat} (hsd : FD_ISSET sd five = true) : sd = 5 := by
  unfold FD_ISSET five at hsd
  by_cases hword : sd / NFDBITS = 0
  · rw [if_pos hword, Bits.getLsbD_bit (by decide), decide_eq_true_eq] at hsd
    unfold NFDBITS at *
    omega
  · rw [if_neg hword] at hsd
    exact absurd hsd (by simp)

/-- A connection that sends one request while the reply to another comes in. -/
def busy : World where
  rdfds := five
  wrfds := five
  min_sd := 5
  max_sd := 5
  sd_to_conn := fun _ => ⟨false, true, true⟩
  within := by
    rintro sd (hsd | hsd)
    · exact ⟨(eq_of_five hsd).ge, (eq_of_five hsd).le⟩
    · exact ⟨(eq_of_five hsd).ge, (eq_of_five hsd).le⟩

/-- It is both readable and writable, and the loop, with one bit left to count, comes round to it
again. -/
theorem a_busy_connection_is_served_twice :
    ¬ ServesOnce busy ⟨five, five, fun _ h => h, fun _ h => h⟩ 0 := by
  intro honce
  have hfive := disjoint_of_once honce 5 (by decide)
  exact absurd hfive (by decide)

end Httperf.Select
