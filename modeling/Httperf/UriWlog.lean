-- The log of URIs of `--wlog` (`uri_wlog.c`). The length of a URI is kept in an `int`.
import Httperf.Clib

namespace Httperf.UriWlog

/-! ## The generator -/

/-- The file in memory and the option `do_loop`. -/
structure Wlog where
  file : List Byte
  do_loop : Bool

/-- The cursor, as its distance to `fbase`, and the calls of `core_exit`. -/
structure State where
  fcurrent : Int
  exits : Nat
  deriving DecidableEq

/-- How `set_uri` ends: with the bytes of a URI, in the panic, or by reading outside of the file. -/
inductive Ended where
  | uri (uri : List Byte) (st : State)
  | panic (exits : Nat)
  | outside
  deriving DecidableEq

variable (w : Wlog)

def Wlog.fend : Int := w.file.length

/-- `strlen (fcurrent)`, if the string ends in the file. -/
def Wlog.strlen (fcurrent : Int) : Option Nat :=
  let rest := w.file.drop fcurrent.toNat
  if 0 ≤ fcurrent ∧ 0 ∈ rest then some (cstr rest).length else none

/-- The cursor goes back to `fbase`. -/
def wrap (st : State) : State := ⟨0, if w.do_loop then st.exits else st.exits + 1⟩

/-- The loop of `set_uri`. A string is passed by if it leaves nothing in the `int`. -/
def uri_loop : Nat → Bool → State → Option Ended
  | 0, _, _ => none
  | turns + 1, did_wrap, st =>
    if w.fend ≤ st.fcurrent ∧ did_wrap then some (.panic st.exits)
    else
      let uri := if w.fend ≤ st.fcurrent then wrap w st else st
      match w.strlen uri.fcurrent with
      | none => some .outside
      | some len =>
        let behind := ⟨uri.fcurrent + int_of len + 1, uri.exits⟩
        if int_of len = 0 then uri_loop turns (did_wrap || w.fend ≤ st.fcurrent) behind
        else some (.uri ((w.file.drop uri.fcurrent.toNat).take (size_t (int_of len))) behind)

/-- Every turn but the one that wraps takes the cursor on, so that these are enough. -/
def set_uri (st : State) : Option Ended := uri_loop w (2 * w.file.length + 2) false st

/-- One more call. The program goes on only with a URI. -/
def next_call : Except Ended (State × List (List Byte)) →
    Option (Except Ended (State × List (List Byte)))
  | .error ended => some (.error ended)
  | .ok (st, given) => (set_uri w st).map fun ended =>
    match ended with
    | .uri uri st => .ok (st, given ++ [uri])
    | ended => .error ended

/-- The state behind `n` calls, with their URIs, or how the last of them ended. -/
def calls : Nat → Option (Except Ended (State × List (List Byte)))
  | 0 => some (.ok (⟨0, 0⟩, []))
  | n + 1 => (calls n).bind (next_call w)

variable {w}

/-! ## One turn -/

theorem uri_loop_panic {st : State} (hend : w.fend ≤ st.fcurrent) (turns : Nat) :
    uri_loop w (turns + 1) true st = some (.panic st.exits) := by
  unfold uri_loop
  rw [if_pos ⟨hend, rfl⟩]

/-- Behind the last string the loop goes on as from the first one. -/
theorem uri_loop_wrap {st : State} (hend : w.fend ≤ st.fcurrent) (hfile : 0 < w.fend)
    (turns : Nat) :
    uri_loop w (turns + 1) false st = uri_loop w (turns + 1) true (wrap w st) := by
  have hstart : ¬ w.fend ≤ (wrap w st).fcurrent := Int.not_le.mpr hfile
  have hsecond : ¬ (w.fend ≤ (wrap w st).fcurrent ∧ true = true) := fun h => hstart h.1
  have hfirst : ¬ (w.fend ≤ st.fcurrent ∧ false = true) := fun h => absurd h.2 (by decide)
  unfold uri_loop
  rw [if_neg hfirst, if_neg hsecond, if_pos hend, if_neg hstart]
  simp only [hend, decide_true, Bool.or_true, Bool.true_or]

theorem uri_loop_read {st : State} (hend : ¬ w.fend ≤ st.fcurrent) {len : Nat}
    (hlen : w.strlen st.fcurrent = some len) (turns : Nat) (did_wrap : Bool) :
    uri_loop w (turns + 1) did_wrap st =
      if int_of len = 0 then uri_loop w turns did_wrap ⟨st.fcurrent + int_of len + 1, st.exits⟩
      else some (.uri ((w.file.drop st.fcurrent.toNat).take (size_t (int_of len)))
        ⟨st.fcurrent + int_of len + 1, st.exits⟩) := by
  conv_lhs => unfold uri_loop
  rw [if_neg (fun h => hend h.1), if_neg hend]
  dsimp only
  rw [hlen, decide_eq_false hend, Bool.or_false]

/-! ## The strings of the file -/

/-- The strings that are URIs. -/
def uris (strings : List (List Byte)) : List (List Byte) := strings.filter (· ≠ [])

/-- URI `i` of the endless repetition. -/
def replay (strings : List (List Byte)) (i : Nat) : List Byte :=
  (uris strings).getD (i % (uris strings).length) []

variable {strings front : List (List Byte)}

theorem strlen_listing {do_loop : Bool} {s : List Byte} {rest : List (List Byte)} (hs : 0 ∉ s) :
    Wlog.strlen ⟨listing (front ++ s :: rest), do_loop⟩ (listing front).length = some s.length := by
  unfold Wlog.strlen
  dsimp only
  rw [Int.toNat_natCast, listing_drop, cstr_append hs, if_pos ⟨Int.natCast_nonneg _, by simp⟩]

theorem not_at_end {do_loop : Bool} {s : List Byte} {rest : List (List Byte)} :
    ¬ Wlog.fend ⟨listing (front ++ s :: rest), do_loop⟩ ≤ ((listing front).length : Int) := by
  unfold Wlog.fend
  dsimp only
  rw [listing_append, listing_cons, List.length_append, List.length_append, List.length_cons]
  omega

/-- Empty strings are passed by. -/
theorem skip_empty (do_loop did_wrap : Bool) (front empties rest : List (List Byte))
    (hempties : ∀ s ∈ empties, s = []) (turns exits : Nat) :
    uri_loop ⟨listing (front ++ empties ++ rest), do_loop⟩ (turns + empties.length) did_wrap
        ⟨(listing front).length, exits⟩ =
      uri_loop ⟨listing (front ++ empties ++ rest), do_loop⟩ turns did_wrap
        ⟨(listing (front ++ empties)).length, exits⟩ := by
  induction empties generalizing front with
  | nil => rw [List.append_nil]; rfl
  | cons s empties ih =>
    obtain rfl := hempties s (List.mem_cons_self ..)
    have hrest := ih (front ++ [[]]) (fun s hs => hempties s (List.mem_cons_of_mem _ hs))
    have hlist : front ++ [] :: empties ++ rest = front ++ [] :: (empties ++ rest) := by
      rw [List.append_assoc, List.cons_append]
    simp only [List.append_assoc, List.singleton_append] at hrest ⊢
    have hzero : int_of ([] : List Byte).length = 0 := by decide
    rw [List.length_cons, ← Nat.add_assoc, uri_loop_read not_at_end (strlen_listing (by simp)),
      if_pos hzero, hzero]
    rw [listing_concat_length] at hrest
    simpa using hrest

theorem uris_append (front rest : List (List Byte)) :
    uris (front ++ rest) = uris front ++ uris rest :=
  List.filter_append ..

/-- Cursor behind `i` of the URIs. -/
def Behind (strings : List (List Byte)) (i : Nat) (fcurrent : Int) : Prop :=
  ∃ front rest, strings = front ++ rest ∧ fcurrent = (listing front).length ∧
    (uris front).length = i

theorem length_le_listing (strings : List (List Byte)) :
    strings.length ≤ (listing strings).length := by
  induction strings with
  | nil => exact Nat.le_refl _
  | cons s strings ih =>
    rw [listing_cons, List.length_append, List.length_cons, List.length_cons]
    omega

/-- The loop gets to the next URI in front of it. -/
theorem uri_loop_reach (do_loop : Bool) {i : Nat} {fcurrent : Int}
    (hbehind : Behind strings i fcurrent) (hi : i < (uris strings).length) (turns : Nat)
    (hturns : strings.length + 2 ≤ turns) (did_wrap : Bool) (exits : Nat) :
    ∃ pre s post left, strings = pre ++ s :: post ∧ s ≠ [] ∧ (uris pre).length = i ∧
      uri_loop ⟨listing strings, do_loop⟩ turns did_wrap ⟨fcurrent, exits⟩ =
        uri_loop ⟨listing strings, do_loop⟩ (left + 2) did_wrap ⟨(listing pre).length, exits⟩ := by
  obtain ⟨front, rest, rfl, rfl, rfl⟩ := hbehind
  have hsome : ∃ s ∈ rest, s ≠ [] := by
    by_contra hnone
    have hnil : uris rest = [] := by
      unfold uris
      rw [List.filter_eq_nil_iff]
      intro s hs
      simpa using fun h => hnone ⟨s, hs, h⟩
    rw [uris_append, hnil, List.append_nil] at hi
    exact absurd hi (Nat.lt_irrefl _)
  cases hfind : rest.find? (· ≠ []) with
  | none =>
    obtain ⟨s, hs, hne⟩ := hsome
    exact absurd (List.find?_eq_none.mp hfind s hs) (by simpa using hne)
  | some s =>
    rw [List.find?_eq_some_iff_append] at hfind
    obtain ⟨hne, empties, post, rfl, hempties⟩ := hfind
    have hall : ∀ e ∈ empties, e = [] := fun e he => by simpa using hempties e he
    have hlen : (front ++ (empties ++ s :: post)).length = front.length + empties.length +
        (post.length + 1) := by
      simp only [List.length_append, List.length_cons]
      omega
    obtain ⟨left, rfl⟩ := Nat.exists_eq_add_of_le' (show empties.length + 2 ≤ turns by omega)
    refine ⟨front ++ empties, s, post, left, (List.append_assoc ..).symm, by simpa using hne, ?_,
      ?_⟩
    · have hnil : uris empties = [] := by
        unfold uris
        rw [List.filter_eq_nil_iff]
        intro e he
        simp [hall e he]
      rw [uris_append, hnil, List.append_nil]
    · have hskip := skip_empty do_loop did_wrap front empties (s :: post) hall (left + 2) exits
      rw [List.append_assoc] at hskip
      rw [← hskip]
      congr 1
      omega

/-- Behind the last URI the loop gets to the end of the file. -/
theorem uri_loop_end (do_loop : Bool) {fcurrent : Int}
    (hbehind : Behind strings (uris strings).length fcurrent) (turns : Nat)
    (hturns : strings.length ≤ turns) (did_wrap : Bool) (exits : Nat) :
    ∃ left, turns ≤ left + strings.length ∧
      uri_loop ⟨listing strings, do_loop⟩ turns did_wrap ⟨fcurrent, exits⟩ =
        uri_loop ⟨listing strings, do_loop⟩ left did_wrap ⟨(listing strings).length, exits⟩ := by
  obtain ⟨front, rest, rfl, rfl, hall⟩ := hbehind
  have hempties : ∀ s ∈ rest, s = [] := by
    rw [uris_append, List.length_append, Nat.left_eq_add, List.length_eq_zero_iff] at hall
    intro s hs
    simpa using List.filter_eq_nil_iff.mp hall s hs
  have hskip := skip_empty do_loop did_wrap front rest [] hempties (turns - rest.length) exits
  rw [List.append_nil] at hskip
  rw [List.length_append] at hturns ⊢
  rw [Nat.sub_add_cancel (by omega)] at hskip
  exact ⟨turns - rest.length, by omega, hskip⟩

/-- The file ends behind its last string. -/
theorem fend_listing (do_loop : Bool) (strings : List (List Byte)) :
    Wlog.fend ⟨listing strings, do_loop⟩ = (listing strings).length := rfl

/-- A call gets to its URI, and it wraps if the cursor is behind all of them. -/
theorem set_uri_reach (do_loop : Bool) {i : Nat} {st : State}
    (hbehind : Behind strings i st.fcurrent) (hsome : 0 < (uris strings).length)
    (hi : i ≤ (uris strings).length) :
    ∃ pre s post left did_wrap, strings = pre ++ s :: post ∧ s ≠ [] ∧
      (uris pre).length = i % (uris strings).length ∧
      set_uri ⟨listing strings, do_loop⟩ st =
        uri_loop ⟨listing strings, do_loop⟩ (left + 2) did_wrap
        ⟨(listing pre).length, if i = (uris strings).length ∧ do_loop = false then st.exits + 1
          else st.exits⟩ := by
  have hlen := length_le_listing strings
  have hpos : 0 < strings.length := Nat.lt_of_lt_of_le hsome (List.length_filter_le ..)
  unfold set_uri
  by_cases hall : i = (uris strings).length
  · subst hall
    obtain ⟨left, hleft, hend⟩ := uri_loop_end do_loop hbehind
      (2 * (listing strings).length + 2) (by omega) false st.exits
    obtain ⟨left, rfl⟩ := Nat.exists_eq_add_of_le' (show 1 ≤ left by omega)
    have hstart : Behind strings 0 0 := ⟨[], strings, rfl, rfl, rfl⟩
    have hreach := uri_loop_reach do_loop hstart hsome (left + 1) (by omega) true
      (if do_loop then st.exits else st.exits + 1)
    obtain ⟨pre, s, post, left', hstrings, hne, hcount, hloop⟩ := hreach
    refine ⟨pre, s, post, left', true, hstrings, hne, by rw [hcount, Nat.mod_self], ?_⟩
    rw [hend, uri_loop_wrap (by rw [fend_listing]) (by rw [fend_listing]; omega)]
    unfold wrap
    rw [hloop]
    cases do_loop <;> simp
  · obtain ⟨pre, s, post, left, hstrings, hne, hcount, hloop⟩ := uri_loop_reach do_loop hbehind
      (by omega) (2 * (listing strings).length + 2) (by omega) false st.exits
    refine ⟨pre, s, post, left, false, hstrings, hne, by rw [hcount, Nat.mod_eq_of_lt (by omega)],
      ?_⟩
    rw [if_neg (fun h => hall h.1)]
    exact hloop

/-- The URI that a call reads is the next one of the repetition. -/
theorem replay_eq {pre post : List (List Byte)} {s : List Byte} (hne : s ≠ []) {n : Nat}
    (hcount : (uris pre).length = n % (uris (pre ++ s :: post)).length) :
    replay (pre ++ s :: post) n = s := by
  unfold replay
  rw [← hcount, uris_append]
  have hcons : uris (s :: post) = s :: uris post := List.filter_cons_of_pos (by simpa using hne)
  rw [hcons, List.getD_eq_getElem?_getD, List.getElem?_append_right (Nat.le_refl _), Nat.sub_self]
  rfl

/-- A short string is given as it is. -/
theorem uri_loop_short (pre post : List (List Byte)) {s : List Byte} (do_loop : Bool) (hne : s ≠ [])
    (hnul : 0 ∉ s) (hshort : s.length < 2 ^ 31) (turns : Nat) (did_wrap : Bool) (exits : Nat) :
    uri_loop ⟨listing (pre ++ s :: post), do_loop⟩ (turns + 1) did_wrap
      ⟨(listing pre).length, exits⟩ =
      some (.uri s ⟨(listing (pre ++ [s])).length, exits⟩) := by
  have hpos : 0 < s.length := List.length_pos_iff.mpr hne
  have hsize : size_t s.length = s.length := by
    unfold size_t
    omega
  rw [uri_loop_read not_at_end (strlen_listing hnul), int_of_eq hshort, if_neg (by omega), hsize]
  dsimp only
  rw [Int.toNat_natCast, listing_drop, List.take_left, listing_concat_length]
  push_cast
  rfl

theorem int_of_cases (len : Nat) : int_of len < 2 ^ 31 ∧ -2 ^ 31 ≤ int_of len ∧
    (int_of len - len) % 2 ^ 32 = 0 := by
  unfold int_of
  rw [Int.bmod_def]
  split_ifs <;> omega

/-- A long string leaves a number in the `int` that is below its length or, as a `size_t`, above it.
If it leaves nothing, the next turn reads from its second byte on. -/
theorem uri_loop_long (pre post : List (List Byte)) {s : List Byte} (do_loop : Bool) (hnul : 0 ∉ s)
    (hlong : 2 ^ 31 ≤ s.length) (hoff : s.length < 2 ^ 63) (turns : Nat) (did_wrap : Bool)
    (exits : Nat) :
    ∃ uri st, uri_loop ⟨listing (pre ++ s :: post), do_loop⟩ (turns + 2) did_wrap
      ⟨(listing pre).length, exits⟩ =
      some (.uri uri st) ∧ uri ≠ s := by
  have hbeyond {text rest : List Byte} {size : Nat} (hsize : text.length < size) :
      (text ++ 0 :: rest).take size ≠ s := by
    intro heq
    apply hnul
    rw [← heq, List.take_append, List.mem_append]
    right
    obtain ⟨k, hk⟩ := Nat.exists_eq_add_of_lt hsize
    rw [show size - text.length = k + 1 by omega, List.take_succ_cons]
    exact List.mem_cons_self ..
  have hint := int_of_cases s.length
  by_cases hzero : int_of s.length = 0
  · obtain ⟨c, t, rfl⟩ :=
      List.exists_cons_of_ne_nil (List.length_pos_iff.mp (show 0 < s.length by omega))
    have htail : 0 ∉ t := fun h => hnul (List.mem_cons_of_mem _ h)
    have hdrop : (listing (pre ++ (c :: t) :: post)).drop ((listing pre).length + 1) =
        t ++ 0 :: listing post := by
      rw [← List.drop_drop, listing_drop]
      rfl
    have hint' := int_of_cases t.length
    rw [List.length_cons] at hint hzero hoff
    have hone : int_of t.length = -1 := by omega
    have hlen : Wlog.strlen ⟨listing (pre ++ (c :: t) :: post), do_loop⟩
        ((listing pre).length + 1 : Nat) =
        some t.length := by
      unfold Wlog.strlen
      dsimp only
      rw [Int.toNat_natCast, hdrop, cstr_append htail, if_pos ⟨Int.natCast_nonneg _, by simp⟩]
    have hend : ¬ Wlog.fend ⟨listing (pre ++ (c :: t) :: post), do_loop⟩ ≤
        ((listing pre).length + 1 : Nat) := by
      rw [fend_listing, listing_append, listing_cons, List.length_append, List.length_append]
      simp only [List.length_cons]
      omega
    rw [uri_loop_read not_at_end (strlen_listing hnul), List.length_cons, if_pos hzero, hzero]
    change ∃ uri st,
      uri_loop _ (turns + 1) did_wrap ⟨((listing pre).length + 1 : Nat), exits⟩ = _ ∧ _
    rw [uri_loop_read hend hlen, hone, if_neg (by decide)]
    refine ⟨_, _, rfl, ?_⟩
    dsimp only
    rw [Int.toNat_natCast, hdrop]
    apply hbeyond
    have hsize : size_t (-1) = 2 ^ 64 - 1 := by decide
    omega
  · rw [uri_loop_read not_at_end (strlen_listing hnul), if_neg hzero]
    refine ⟨_, _, rfl, ?_⟩
    dsimp only
    rw [Int.toNat_natCast, listing_drop]
    by_cases hneg : int_of s.length < 0
    · apply hbeyond
      unfold size_t
      omega
    · intro heq
      have hlen := congrArg List.length heq
      have hsize : size_t (int_of s.length) < s.length := by
        unfold size_t
        omega
      rw [List.length_take] at hlen
      omega

/-! ## The calls -/

/-- The state behind `n` calls that have got their URIs. -/
structure At (strings : List (List Byte)) (do_loop : Bool) (n : Nat) (st : State) : Prop where
  behind : Behind strings (if n = 0 then 0 else (n - 1) % (uris strings).length + 1) st.fcurrent
  exits : st.exits = if do_loop then 0 else (n - 1) / (uris strings).length

theorem dvd_succ_iff {m k : Nat} (hm : 0 < m) : m ∣ k + 1 ↔ k % m + 1 = m := by
  have hlt := Nat.mod_lt k hm
  rw [Nat.dvd_iff_mod_eq_zero, ← Nat.mod_add_mod]
  constructor
  · intro h
    by_contra hne
    rw [Nat.mod_eq_of_lt (by omega)] at h
    cases h
  · intro h
    rw [h, Nat.mod_self]

theorem at_succ {do_loop : Bool} {n : Nat} {st : State} (hat : At strings do_loop n st)
    (hsome : 0 < (uris strings).length) : ∃ pre s post left did_wrap exits, strings =
      pre ++ s :: post ∧ s ≠ [] ∧
      replay strings n = s ∧ set_uri ⟨listing strings, do_loop⟩ st =
        uri_loop ⟨listing strings, do_loop⟩ (left + 2) did_wrap ⟨(listing pre).length, exits⟩ ∧
      At strings do_loop (n + 1) ⟨(listing (pre ++ [s])).length, exits⟩ := by
  have hle : (if n = 0 then 0 else (n - 1) % (uris strings).length + 1) ≤
      (uris strings).length := by
    split_ifs
    · exact Nat.zero_le _
    · exact Nat.mod_lt _ hsome
  obtain ⟨pre, s, post, left, did_wrap, hstrings, hne, hcount, hcall⟩ :=
    set_uri_reach do_loop hat.behind hsome hle
  have hround : (if n = 0 then 0 else (n - 1) % (uris strings).length + 1) % (uris strings).length =
      n % (uris strings).length := by
    split_ifs with h0
    · rw [h0]
    · rw [Nat.mod_add_mod, Nat.sub_add_cancel (by omega)]
  rw [hround] at hcount
  refine ⟨pre, s, post, left, did_wrap, _, hstrings, hne, ?_, hcall, ?_, ?_⟩
  · rw [hstrings] at hcount ⊢
    exact replay_eq hne hcount
  · refine ⟨pre ++ [s], post, by rw [hstrings]; simp, rfl, ?_⟩
    have hone : uris [s] = [s] := List.filter_cons_of_pos (by simpa using hne)
    rw [uris_append, List.length_append, hone, hcount, if_neg (Nat.succ_ne_zero n),
      Nat.add_sub_cancel]
    rfl
  · dsimp only
    rw [hat.exits, Nat.add_sub_cancel]
    cases do_loop with
    | true => simp
    | false =>
      simp only [and_true, Bool.false_eq_true, if_false]
      cases n with
      | zero => simp [Nat.ne_of_lt hsome]
      | succ k =>
        rw [if_neg (Nat.succ_ne_zero k), Nat.add_sub_cancel, Nat.succ_div]
        have hlast := dvd_succ_iff (k := k) hsome
        by_cases hdvd : (uris strings).length ∣ k + 1
        · rw [if_pos hdvd, if_pos (hlast.mp hdvd)]
        · rw [if_neg hdvd, if_neg (fun h => hdvd (hlast.mpr h)), Nat.add_zero]

theorem calls_succ {n : Nat} {st : State} {given : List (List Byte)}
    (hcalls : calls w n = some (.ok (st, given))) {uri : List Byte} {st' : State}
    (hcall : set_uri w st = some (.uri uri st')) :
    calls w (n + 1) = some (.ok (st', given ++ [uri])) := by
  change (calls w n).bind (next_call w) = _
  rw [hcalls]
  change (set_uri w st).map _ = _
  rw [hcall]
  rfl

/-- As long as the URIs are short. -/
theorem calls_short (do_loop : Bool) (hnul : ∀ s ∈ strings, 0 ∉ s)
    (hsome : 0 < (uris strings).length) (n : Nat)
    (hshort : ∀ i < n, (replay strings i).length < 2 ^ 31) : ∃ st, At strings do_loop n st ∧
      calls ⟨listing strings, do_loop⟩ n =
        some (.ok (st, (List.range n).map (replay strings))) := by
  induction n with
  | zero => exact ⟨⟨0, 0⟩, ⟨⟨[], strings, rfl, rfl, rfl⟩, by simp⟩, rfl⟩
  | succ n ih =>
    obtain ⟨st, hat, hcalls⟩ := ih (fun i hi => hshort i (by omega))
    obtain ⟨pre, s, post, left, did_wrap, exits, hstrings, hne, hreplay, hcall, hnext⟩ :=
      at_succ hat hsome
    have hs := hshort n (Nat.lt_succ_self n)
    have hnul' := hnul s (by rw [hstrings]; simp)
    rw [hreplay] at hs
    have hread := uri_loop_short pre post do_loop hne hnul' hs (left + 1) did_wrap exits
    rw [← hstrings, ← hcall] at hread
    refine ⟨_, hnext, ?_⟩
    rw [calls_succ hcalls hread, List.range_succ, List.map_append, List.map_singleton, hreplay]

/-- With nothing but empty strings the second round ends in the panic. -/
theorem calls_empty (do_loop : Bool) (hstrings : strings ≠ []) (hempty : ∀ s ∈ strings, s = [])
    (n : Nat) :
    calls ⟨listing strings, do_loop⟩ (n + 1) =
      some (.error (.panic (if do_loop then 0 else 1))) := by
  have hnone : uris strings = [] := by
    unfold uris
    rw [List.filter_eq_nil_iff]
    intro s hs
    simp [hempty s hs]
  have hlen := length_le_listing strings
  have hpos := List.length_pos_iff.mpr hstrings
  have hstart : Behind strings (uris strings).length 0 :=
    ⟨[], strings, rfl, rfl, by rw [hnone]; rfl⟩
  have hfirst : set_uri ⟨listing strings, do_loop⟩ ⟨0, 0⟩ =
      some (.panic (if do_loop then 0 else 1)) := by
    unfold set_uri
    obtain ⟨left, hleft, hloop⟩ := uri_loop_end do_loop hstart
      (2 * (listing strings).length + 2) (by omega) false 0
    obtain ⟨left, rfl⟩ := Nat.exists_eq_add_of_le' (show 1 ≤ left by omega)
    rw [hloop, uri_loop_wrap (by rw [fend_listing]) (by rw [fend_listing]; omega)]
    obtain ⟨left', hleft', hloop'⟩ := uri_loop_end do_loop hstart (left + 1) (by omega) true
      (if do_loop then 0 else 1)
    obtain ⟨left', rfl⟩ := Nat.exists_eq_add_of_le' (show 1 ≤ left' by omega)
    exact hloop'.trans (uri_loop_panic (by rw [fend_listing]) left')
  induction n with
  | zero =>
    change (set_uri _ ⟨0, 0⟩).map _ = _
    rw [hfirst]
    rfl
  | succ n ih =>
    change (calls _ (n + 1)).bind _ = _
    rw [ih]
    rfl

/-! ## The log is replayed -/

/-- What the calls get, and when `core_exit` is called for the first time. -/
structure Replayed (strings : List (List Byte)) (do_loop : Bool) : Prop where
  given : uris strings ≠ [] → ∀ n, ∃ st,
    calls ⟨listing strings, do_loop⟩ n = some (.ok (st, (List.range n).map (replay strings)))
  inside : ∀ n, calls ⟨listing strings, do_loop⟩ n ≠ some (.error .outside)
  panic : (∃ n exits, calls ⟨listing strings, do_loop⟩ n = some (.error (.panic exits))) ↔
    ∀ s ∈ strings, s = []
  exits : do_loop = false →
    (∀ n st given, calls ⟨listing strings, do_loop⟩ n = some (.ok (st, given)) →
      (0 < st.exits ↔ (uris strings).length < n)) ∧
    ∀ n exits, calls ⟨listing strings, do_loop⟩ n = some (.error (.panic exits)) → 0 < exits

theorem uris_eq_nil_iff : uris strings = [] ↔ ∀ s ∈ strings, s = [] := by
  unfold uris
  rw [List.filter_eq_nil_iff]
  simp

theorem replay_mem (hsome : uris strings ≠ []) (i : Nat) : replay strings i ∈ strings := by
  have hlt := Nat.mod_lt i (List.length_pos_iff.mpr hsome)
  unfold replay
  rw [List.getD_eq_getElem _ _ hlt]
  exact (List.mem_filter.mp (List.getElem_mem hlt)).1

theorem exists_replay {s : List Byte} (hs : s ∈ strings) (hne : s ≠ []) :
    ∃ i, replay strings i = s := by
  have hmem : s ∈ uris strings := List.mem_filter.mpr ⟨hs, by simpa using hne⟩
  obtain ⟨i, hi, rfl⟩ := List.mem_iff_getElem.mp hmem
  refine ⟨i, ?_⟩
  unfold replay
  rw [Nat.mod_eq_of_lt hi, List.getD_eq_getElem _ _ hi]

theorem replayed_of_short {do_loop : Bool} (hstrings : strings ≠ []) (hnul : ∀ s ∈ strings, 0 ∉ s)
    (hshort : ∀ s ∈ strings, s.length < 2 ^ 31) : Replayed strings do_loop := by
  by_cases hnone : uris strings = []
  · have hempty := uris_eq_nil_iff.mp hnone
    have hcalls := calls_empty do_loop hstrings hempty
    refine ⟨fun h => absurd hnone h, ?_, iff_of_true ⟨1, _, hcalls 0⟩ hempty, fun hloop => ⟨?_, ?_⟩⟩
    · intro n
      cases n with
      | zero => exact fun h => by cases h
      | succ n =>
        rw [hcalls n]
        exact fun h => by cases h
    · intro n st given hn
      cases n with
      | zero =>
        cases hn
        simp
      | succ n =>
        rw [hcalls n] at hn
        cases hn
    · intro n exits hn
      cases n with
      | zero => cases hn
      | succ n =>
        rw [hcalls n, hloop] at hn
        cases hn
        decide
  · have hsome := List.length_pos_iff.mpr hnone
    have hcalls (n : Nat) := calls_short do_loop hnul hsome n
      (fun i _ => hshort _ (replay_mem hnone i))
    refine ⟨?_, ?_, ?_, fun hloop => ⟨?_, ?_⟩⟩
    · intro _ n
      obtain ⟨st, -, hn⟩ := hcalls n
      exact ⟨st, hn⟩
    · intro n hout
      obtain ⟨st, -, hn⟩ := hcalls n
      rw [hn] at hout
      cases hout
    · refine iff_of_false ?_ (fun h => hnone (uris_eq_nil_iff.mpr h))
      rintro ⟨n, exits, hpanic⟩
      obtain ⟨st, -, hn⟩ := hcalls n
      rw [hn] at hpanic
      cases hpanic
    · intro n st given hgiven
      obtain ⟨st', hat, hn⟩ := hcalls n
      rw [hn] at hgiven
      cases hgiven
      rw [hat.exits, hloop, if_neg (by decide), Nat.div_pos_iff]
      omega
    · intro n exits hpanic
      obtain ⟨st, -, hn⟩ := hcalls n
      rw [hn] at hpanic
      cases hpanic

/-- The first long string is not given as it is. -/
theorem short_of_replayed {do_loop : Bool} (hnul : ∀ s ∈ strings, 0 ∉ s)
    (hsize : (listing strings).length < 2 ^ 63) (h : Replayed strings do_loop) :
    ∀ s ∈ strings, s.length < 2 ^ 31 := by
  by_contra hlong
  simp only [not_forall, Nat.not_lt] at hlong
  obtain ⟨s, hs, hlong⟩ := hlong
  have hne : s ≠ [] := List.length_pos_iff.mp (by omega)
  have hnone : uris strings ≠ [] := fun hnil => hne (uris_eq_nil_iff.mp hnil s hs)
  have hfirst : ∃ i, 2 ^ 31 ≤ (replay strings i).length := by
    obtain ⟨i, hi⟩ := exists_replay hs hne
    exact ⟨i, by rw [hi]; exact hlong⟩
  obtain ⟨st, hat, hcalls⟩ := calls_short do_loop hnul (List.length_pos_iff.mpr hnone) _
    (fun i hi => Nat.not_le.mp (Nat.find_min hfirst hi))
  obtain ⟨pre, s', post, left, did_wrap, exits, hstrings, hne', hreplay, hcall, -⟩ :=
    at_succ hat (List.length_pos_iff.mpr hnone)
  have hfind := Nat.find_spec hfirst
  rw [hreplay] at hfind
  have hoff : s'.length < 2 ^ 63 := by
    rw [hstrings, listing_append, listing_cons, List.length_append, List.length_append] at hsize
    omega
  have hnul' := hnul s' (by rw [hstrings]; simp)
  obtain ⟨uri, st', hread, hwrong⟩ := uri_loop_long pre post do_loop hnul' hfind hoff left
    did_wrap exits
  rw [← hstrings, ← hcall] at hread
  obtain ⟨st'', hgiven⟩ := h.given hnone (Nat.find hfirst + 1)
  rw [calls_succ hcalls hread, List.range_succ, List.map_append, List.map_singleton,
    hreplay] at hgiven
  injection hgiven with hgiven
  injection hgiven with hgiven
  have hlast := List.append_cancel_left (Prod.mk.inj hgiven).2
  exact hwrong (List.cons.inj hlast).1

/-- `st_size` is an `off_t`. -/
theorem replayed_iff (do_loop : Bool) (hstrings : strings ≠ []) (hnul : ∀ s ∈ strings, 0 ∉ s)
    (hsize : (listing strings).length < 2 ^ 63) :
    Replayed strings do_loop ↔ ∀ s ∈ strings, s.length < 2 ^ 31 :=
  ⟨short_of_replayed hnul hsize, replayed_of_short hstrings hnul⟩

theorem replayed_iff_two :
    Replayed [bytes "/a", [], bytes "/b"] false ↔
      ∀ s ∈ [bytes "/a", [], bytes "/b"], s.length < 2 ^ 31 :=
  replayed_iff false (by decide) (by decide +kernel) (by decide +kernel)

/-- One URI of 2147483648 bytes. -/
theorem a_long_uri_is_not_replayed : ¬ Replayed [List.replicate (2 ^ 31) 97] true := by
  have hlen : (List.replicate (2 ^ 31) (97 : Byte)).length = 2 ^ 31 := List.length_replicate
  intro h
  have hshort := short_of_replayed ?_ ?_ h (List.replicate (2 ^ 31) 97) (List.mem_singleton_self _)
  · rw [hlen] at hshort
    exact absurd hshort (Nat.lt_irrefl _)
  · intro s hs hmem
    rw [List.mem_singleton] at hs
    subst hs
    cases List.eq_of_mem_replicate hmem
  · rw [listing_cons, List.length_append, hlen]
    decide

end Httperf.UriWlog
