-- A call that is sent again (`conn_failed`, `create_conn` and `send_calls` of `session.c`).
-- `core_send` starts over at the first element, but it does not put back an element that the
-- broken attempt has cut.
import Httperf.Send

namespace Httperf

/-- One attempt to send a call: the host of its connection, and what the `writev` calls give
until the connection fails or the request is sent. -/
structure Attempt where
  fqdname : List Byte
  writes : List Written
  deriving DecidableEq, Repr

/-- A row of attempts that the program can make: the version is one that `core_send` knows,
and the socket takes no more than it is given. -/
def History (p : SendParam) (past : Iovec) : Call → List Attempt → Prop
  | _, [] => True
  | c, a :: as => ∃ c', core_send p a.fqdname c = some c' ∧ Accepts past c'.req a.writes ∧
      History p past { c' with req := do_sends past c'.req a.writes } as

/-- From the byte `t` of `full` on, the socket is given the rest of `full`. -/
def Offers (past : Iovec) (full : List Byte) : Request → Nat → List Written → Prop
  | r, t, [] => offered r = full.drop t
  | r, t, w :: ws => offered r = full.drop t ∧ Offers past full (do_send past r w) (t + w.count) ws

/-- Each attempt offers all of `full`, from its first byte on. -/
def SendsWhole (p : SendParam) (past : Iovec) (full : List Byte) : Call → List Attempt → Prop
  | _, [] => True
  | c, a :: as => ∀ c', core_send p a.fqdname c = some c' →
      Offers past full c'.req 0 a.writes ∧
        SendsWhole p past full { c' with req := do_sends past c'.req a.writes } as

/-- The byte `t` of the request lies on the border of an element, or inside the protocol
line, which `core_send` writes anew. -/
def CutSafe (iov : IovArray) (t : Nat) : Prop :=
  ∀ k < IE_LEN, start iov.toList k < t → t < start iov.toList (k + 1) → k = IE_PROTL

/-! ## One attempt -/

theorem sending_core_send {p : SendParam} {fqdname : List Byte} {c c' : Call}
    (h : core_send p fqdname c = some c') : Sending c'.req.iov.toList c'.req 0 0 := by
  unfold core_send at h
  obtain ⟨line, _, rfl⟩ := Option.map_eq_some_iff.mp h
  refine ⟨rfl, by decide, ?_, ?_, Or.inl rfl⟩
  · rw [advance_zero, List.getElem?_eq_getElem (by rw [iov_length]; decide), Option.getD_some,
      List.set_getElem_self]
  · intro v hv
    rw [List.getElem?_eq_getElem (by rw [iov_length]; decide), Option.some.injEq] at hv
    simpa [IE_METHOD] using hv

/-- A write moves on inside the request, and the array stays in order. -/
theorem sending_do_send {l : List Iovec} (past : Iovec) {r : Request} {k j : Nat} (w : Written)
    (hl : l.length = IE_LEN) (h : Sending l r k j) (hw : w.count ≤ (offered r).length) :
    ∃ k' j', Sending l (do_send past r w) k' j' ∧ start l k' + j' = start l k + j + w.count := by
  cases w with
  | eagain => exact ⟨k, j, h, rfl⟩
  | sent nsent =>
    rw [h.offered_eq, List.length_drop] at hw
    have hle := h.le
    have hsize : Sending l { r with size := r.size + nsent } k j :=
      ⟨h.index, h.bound, h.array, h.saved, h.inside⟩
    exact sending_fragments past hl hsize (by simp only [Written.count] at hw; omega)

theorem sending_do_sends {l : List Iovec} (past : Iovec) {r : Request} {k j : Nat}
    (ws : List Written) (hl : l.length = IE_LEN) (h : Sending l r k j) (hw : Accepts past r ws) :
    Offers past (dataOf l) r (start l k + j) ws ∧
      ∃ k' j', Sending l (do_sends past r ws) k' j' ∧
        start l k' + j' = start l k + j + total ws := by
  induction ws generalizing r k j with
  | nil => exact ⟨h.offered_eq, k, j, h, by simp [total]⟩
  | cons w ws ih =>
    obtain ⟨k', j', hs, hpos⟩ := sending_do_send past w hl h hw.1
    obtain ⟨hoffers, k'', j'', hs', hpos'⟩ := ih hs hw.2
    rw [hpos] at hoffers
    refine ⟨⟨h.offered_eq, hoffers⟩, k'', j'', hs', ?_⟩
    simp only [total, List.map_cons, List.sum_cons] at hpos' ⊢
    omega

/-! ## From one attempt to the next -/

/-- What `core_send` has filled in: the host, and the protocol line for the version. -/
structure Filled (p : SendParam) (version : Nat) (l : List Iovec) : Prop where
  length : l.length = IE_LEN
  host : ∃ b, l[IE_HOST]? = some (some b) ∧ (p.no_host_hdr = true → b = [])
  protl : ∃ line, protl p version = some line ∧ l[IE_PROTL]? = some (some line)

theorem issued_toList (p : SendParam) (fqdname line : List Byte) (iov : IovArray) {v : Iovec}
    (hv : iov.toList[IE_HOST]? = some v) :
    (issued p fqdname line iov).toList =
      (iov.toList.set IE_HOST (host p fqdname v)).set IE_PROTL (some line) := by
  rw [List.getElem?_eq_getElem (by rw [iov_length]; decide), Option.some.injEq] at hv
  have hget : iov[IE_HOST] = v := by simpa using hv
  simp only [issued, Vector.toList_set, hget]

theorem exists_host (iov : IovArray) : ∃ v, iov.toList[IE_HOST]? = some v :=
  ⟨_, List.getElem?_eq_getElem (by rw [iov_length]; decide)⟩

theorem filled_core_send {p : SendParam} {fqdname : List Byte} {c c' : Call}
    (h : core_send p fqdname c = some c') :
    Filled p c.req.version c'.req.iov.toList ∧ c'.req.version = c.req.version := by
  unfold core_send at h
  obtain ⟨line, hline, rfl⟩ := Option.map_eq_some_iff.mp h
  obtain ⟨v, hv⟩ := exists_host c.req.iov
  have hlen := iov_length c.req.iov
  have hne : IE_PROTL ≠ IE_HOST := by decide
  refine ⟨⟨iov_length _, ?_, line, hline, ?_⟩, rfl⟩
  · rw [issued_toList p fqdname line c.req.iov hv, List.getElem?_set_ne hne,
      List.getElem?_set_self (by rw [hlen]; decide)]
    by_cases hno : p.no_host_hdr = true
    · exact ⟨[], by simp [Httperf.host, hno], fun _ => rfl⟩
    · exact ⟨v.getD fqdname, by simp [Httperf.host, hno], fun h => absurd h hno⟩
  · rw [issued_toList p fqdname line c.req.iov hv,
      List.getElem?_set_self (by rw [List.length_set, hlen]; decide)]

/-- The host that is there stays. -/
theorem host_filled {p : SendParam} {b : List Byte} (fqdname : List Byte)
    (hb : p.no_host_hdr = true → b = []) : host p fqdname (some b) = some b := by
  unfold host
  split
  · rename_i h
    rw [hb h]
  · rfl

theorem set_of_getElem? {α : Type} {l : List α} {i : Nat} {a : α} (h : l[i]? = some a) :
    l.set i a = l := by
  obtain ⟨hi, rfl⟩ := List.getElem?_eq_some_iff.mp h
  exact List.set_getElem_self hi

/-- An element that is cut is still a host. -/
theorem host_cut {p : SendParam} {l : List Iovec} {b : List Byte} (k j : Nat)
    (hb : l[IE_HOST]? = some (some b)) (hno : p.no_host_hdr = true → b = []) :
    ∃ b', (l.set k ((l[k]?.getD none).advance j))[IE_HOST]? = some (some b') ∧
      (p.no_host_hdr = true → b' = []) := by
  by_cases hk : k = IE_HOST
  · subst hk
    have hlt : IE_HOST < l.length := (List.getElem?_eq_some_iff.mp hb).1
    refine ⟨b.drop j, ?_, fun h => by rw [hno h, List.drop_nil]⟩
    rw [List.getElem?_set_self hlt, hb]
    rfl
  · exact ⟨b, by rw [List.getElem?_set_ne hk]; exact hb, hno⟩

/-- The next attempt starts with the element that was cut, unless it was cut at its border or
was the protocol line. -/
theorem core_send_cut {p : SendParam} {fqdname : List Byte} {c c' : Call} {l : List Iovec}
    {k j : Nat} (hf : Filled p c.req.version l) (hs : Sending l c.req k j)
    (h : core_send p fqdname c = some c') :
    c'.req.iov.toList = if j = 0 ∨ k = IE_PROTL then l
      else l.set k ((l[k]?.getD none).advance j) := by
  obtain ⟨b, hhost, hb⟩ := hf.host
  obtain ⟨line, hline, hprotl⟩ := hf.protl
  unfold core_send at h
  rw [hline] at h
  obtain rfl := Option.some.inj h
  have hkeep : l.set IE_PROTL (some line) = l := set_of_getElem? hprotl
  obtain ⟨b', hhost', hb'⟩ := host_cut k j hhost hb
  rw [← hs.array] at hhost'
  have hissued : (issued p fqdname line c.req.iov).toList =
      (l.set k ((l[k]?.getD none).advance j)).set IE_PROTL (some line) := by
    rw [issued_toList p fqdname line c.req.iov hhost', host_filled fqdname hb',
      set_of_getElem? hhost', hs.array]
  change (issued p fqdname line c.req.iov).toList = _
  rw [hissued]
  by_cases hj : j = 0
  · subst hj
    have hback : l.set k ((l[k]?.getD none).advance 0) = l := by
      rw [advance_zero]
      rcases hk : l[k]? with _ | v
      · rw [List.set_eq_of_length_le (List.getElem?_eq_none_iff.mp hk)]
      · exact set_of_getElem? hk
    rw [hback, hkeep, if_pos (Or.inl rfl)]
  · by_cases hk : k = IE_PROTL
    · subst hk
      rw [List.set_set, hkeep, if_pos (Or.inr rfl)]
    · rw [List.set_comm _ _ hk, hkeep, if_neg (by simp [hj, hk])]

/-- The place where an attempt stops is safe exactly when the next one starts anew. -/
theorem cutSafe_iff {iov : IovArray} {r : Request} {k j : Nat} (h : Sending iov.toList r k j) :
    CutSafe iov (start iov.toList k + j) ↔ j = 0 ∨ k = IE_PROTL := by
  constructor
  · intro hsafe
    rcases h.inside with rfl | ⟨v, hv, hj⟩
    · exact Or.inl rfl
    · rcases Nat.eq_zero_or_pos j with rfl | hpos
      · exact Or.inl rfl
      · have hk : k < IE_LEN := by
          rw [← iov_length iov]
          exact (List.getElem?_eq_some_iff.mp hv).1
        refine Or.inr (hsafe k hk (by omega) ?_)
        rw [start_succ hv]
        omega
  · intro hor m _ hlo hhi
    rcases Nat.lt_trichotomy m k with hm | rfl | hm
    · -- the element `m` is sent
      have := start_mono iov.toList (show m + 1 ≤ k from hm)
      omega
    · rcases hor with rfl | hk
      · omega
      · exact hk
    · -- the element `m` is not reached
      have hle := start_mono iov.toList (show k + 1 ≤ m from hm)
      rcases h.inside with rfl | ⟨v, hv, hj⟩
      · have := start_mono iov.toList (Nat.le_of_lt hm)
        omega
      · rw [start_succ hv] at hle
        omega

/-! ## All attempts -/

theorem offers_start {past : Iovec} {full : List Byte} {r : Request} {ws : List Written}
    (h : Offers past full r 0 ws) : offered r = full := by
  cases ws with
  | nil => simpa [Offers] using h
  | cons w ws => simpa using h.1

/-- A request that has lost bytes of an element is not the whole request. -/
theorem dataOf_cut_ne {l : List Iovec} {k j : Nat} {v : Iovec} (hv : l[k]? = some v)
    (hj : 0 < j) (hlt : j < v.iov_len) :
    dataOf (l.set k ((l[k]?.getD none).advance j)) ≠ dataOf l := by
  obtain ⟨hk, rfl⟩ := List.getElem?_eq_some_iff.mp hv
  intro heq
  have hlen := congrArg List.length heq
  have hwhole : dataOf l = dataOf (l.take k) ++ (l[k].data ++ dataOf (l.drop (k + 1))) := by
    conv_lhs => rw [← List.take_append_drop k l, List.drop_eq_getElem_cons hk]
    rw [dataOf_append, dataOf_cons]
  rw [List.set_eq_take_append_cons_drop, if_pos hk, hv, hwhole, dataOf_append, dataOf_cons] at hlen
  simp only [List.length_append, Option.getD_some, advance_data, List.length_drop] at hlen
  unfold Iovec.iov_len at hlt
  omega

theorem send_fragments_version (past : Iovec) (r : Request) (nsent : Nat) :
    (send_fragments past r nsent).version = r.version := by
  induction r, nsent using send_fragments.induct past with
  | case1 r nsent hk hlt =>
    rw [send_fragments]
    simp only [hk, hlt, dite_true, if_true]
  | case2 r nsent hk hlt ih =>
    rw [send_fragments]
    simp only [hk, hlt, dite_true, if_false]
    exact ih
  | case3 r nsent hk =>
    rw [send_fragments]
    simp only [hk, dite_false]

theorem do_sends_version (past : Iovec) (r : Request) (ws : List Written) :
    (do_sends past r ws).version = r.version := by
  induction ws generalizing r with
  | nil => rfl
  | cons w ws ih =>
    have hone : (do_send past r w).version = r.version := by
      cases w with
      | eagain => rfl
      | sent nsent => exact send_fragments_version past _ nsent
    exact (ih _).trans hone

/-- The next attempt starts with the same array if this one stopped at a safe place, and
with a shorter request if not. -/
theorem next_attempt {p : SendParam} {past : Iovec} {fqdname fqdname' : List Byte}
    {ws : List Written} {c c' c'' : Call} (h : core_send p fqdname c = some c')
    (hacc : Accepts past c'.req ws)
    (hnext : core_send p fqdname' { c' with req := do_sends past c'.req ws } = some c'') :
    (CutSafe c'.req.iov (total ws) → c''.req.iov = c'.req.iov) ∧
      (¬ CutSafe c'.req.iov (total ws) → offered c''.req ≠ c'.req.full) := by
  obtain ⟨_, k, j, hs, hpos⟩ := sending_do_sends past ws (iov_length _) (sending_core_send h) hacc
  have hzero : start c'.req.iov.toList 0 + 0 = 0 := rfl
  rw [hzero, Nat.zero_add] at hpos
  obtain ⟨hf, hversion⟩ := filled_core_send h
  have hf' : Filled p (do_sends past c'.req ws).version c'.req.iov.toList := by
    rw [do_sends_version, hversion]
    exact hf
  have hcut := core_send_cut (c := { c' with req := do_sends past c'.req ws }) hf' hs hnext
  rw [← hpos, cutSafe_iff hs]
  constructor
  · intro hsafe
    rw [if_pos hsafe] at hcut
    exact Vector.toList_inj.mp hcut
  · intro hsafe hoff
    rw [if_neg hsafe] at hcut
    rw [(sending_core_send hnext).offered_eq, hcut] at hoff
    rcases hs.inside with hj | ⟨v, hv, hj⟩
    · exact hsafe (Or.inl hj)
    · have hpos : 0 < j := Nat.pos_of_ne_zero fun hj => hsafe (Or.inl hj)
      exact dataOf_cut_ne hv hpos hj hoff

/-- A call is sent in whole by all its attempts exactly when each attempt that is followed by
another one stopped at the border of an element or inside the protocol line. -/
theorem every_attempt_sends_the_whole_request_iff {p : SendParam} {past : Iovec} {c c' : Call}
    {a : Attempt} {as : List Attempt} (h : core_send p a.fqdname c = some c')
    (hist : History p past c (a :: as)) :
    SendsWhole p past c'.req.full c (a :: as) ↔
      ∀ b ∈ (a :: as).dropLast, CutSafe c'.req.iov (total b.writes) := by
  induction as generalizing a c c' with
  | nil =>
    obtain ⟨d, hd, hacc, _⟩ := hist
    rw [h, Option.some.injEq] at hd
    subst hd
    have hoffers := (sending_do_sends past a.writes (iov_length _) (sending_core_send h) hacc).1
    constructor
    · intro _ b hb
      cases hb
    · intro _ d hd
      rw [h, Option.some.injEq] at hd
      subst hd
      exact ⟨hoffers, trivial⟩
  | cons b as ih =>
    obtain ⟨d, hd, hacc, hnext⟩ := hist
    rw [h, Option.some.injEq] at hd
    subst hd
    have hoffers := (sending_do_sends past a.writes (iov_length _) (sending_core_send h) hacc).1
    obtain ⟨c'', hc'', hnacc, hnhist⟩ := hnext
    obtain ⟨hsame, hother⟩ := next_attempt h hacc hc''
    have ih' := ih hc'' ⟨c'', hc'', hnacc, hnhist⟩
    rw [List.dropLast_cons_cons, List.forall_mem_cons]
    by_cases hsafe : CutSafe c'.req.iov (total a.writes)
    · -- the array is as before, and the rest of the history decides
      have hiov := hsame hsafe
      have hfull : c''.req.full = c'.req.full := by
        unfold Request.full
        rw [hiov]
      rw [hfull, hiov] at ih'
      constructor
      · intro hwhole
        exact ⟨hsafe, ih'.mp (hwhole c' h).2⟩
      · rintro ⟨_, hrest⟩ d hd
        rw [h, Option.some.injEq] at hd
        subst hd
        exact ⟨hoffers, ih'.mpr hrest⟩
    · constructor
      · intro hwhole
        have hoff := offers_start ((hwhole c' h).2 c'' hc'').1
        exact absurd hoff (hother hsafe)
      · rintro ⟨hcut, _⟩
        exact absurd hcut hsafe

instance (iov : IovArray) (t : Nat) : Decidable (CutSafe iov t) := by
  unfold CutSafe
  infer_instance

/-! ## GET /a -/

/-- `GET /a`, with the version 1.1. -/
def getA : Call :=
  let c := call_init 0 0x10001
  { c with req.iov := c.req.iov.set IE_URI (some (bytes "/a")) }

/-- The call after `core_send`. -/
def issuedA : Call := (core_send ⟨false, bytes "0.9"⟩ (bytes "h") getA).getD getA

/-- The call that is sent again after `writev` took `nsent` bytes. -/
def resentA (nsent : Nat) : Call :=
  let c := { issuedA with req := do_sends none issuedA.req [.sent nsent] }
  (core_send ⟨false, bytes "0.9"⟩ (bytes "h") c).getD c

/-- The first attempt ends behind the method and the second one is not cut. -/
theorem every_attempt_sends_the_whole_request_iff_getA :
    SendsWhole ⟨false, bytes "0.9"⟩ none issuedA.req.full getA
      [⟨bytes "h", [.sent 3, .eagain]⟩, ⟨bytes "h", [.sent 5]⟩] := by
  refine (every_attempt_sends_the_whole_request_iff (by decide +kernel) ?_).mpr ?_
  · exact ⟨issuedA, by decide +kernel, ⟨by decide +kernel, by decide +kernel, trivial⟩, resentA 3,
      by decide +kernel, ⟨by decide +kernel, trivial⟩, trivial⟩
  · decide +kernel

/-- The first attempt ends inside the URI, after `GET /`. The second one offers `GET a`. -/
theorem a_cut_uri_is_sent_short :
    core_send ⟨false, bytes "0.9"⟩ (bytes "h") getA = some issuedA ∧
      History ⟨false, bytes "0.9"⟩ none getA [⟨bytes "h", [.sent 5]⟩, ⟨bytes "h", []⟩] ∧
      ¬ SendsWhole ⟨false, bytes "0.9"⟩ none issuedA.req.full getA
        [⟨bytes "h", [.sent 5]⟩, ⟨bytes "h", []⟩] := by
  have hfirst : core_send ⟨false, bytes "0.9"⟩ (bytes "h") getA = some issuedA := by
    decide +kernel
  have hsecond : core_send ⟨false, bytes "0.9"⟩ (bytes "h")
      { issuedA with req := do_sends none issuedA.req [.sent 5] } = some (resentA 5) := by
    decide +kernel
  refine ⟨hfirst, ⟨issuedA, hfirst, ⟨by decide +kernel, trivial⟩, resentA 5, hsecond, trivial,
    trivial⟩, ?_⟩
  intro hwhole
  have hoff := offers_start ((hwhole issuedA hfirst).2 (resentA 5) hsecond).1
  exact absurd hoff (by decide +kernel)

end Httperf
