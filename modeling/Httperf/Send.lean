-- Sending a request (`core_send` and `do_send` of `core.c`). The pieces of the request stand
-- in `req.iov`. `do_send` edits the array while it sends, and keeps one saved element to put
-- the array right again.
import Httperf.Call

namespace Httperf

/-! ## core_send -/

/-- The part of `param` that the request line depends on, and the macro `VERSION`. -/
structure SendParam where
  no_host_hdr : Bool
  VERSION : List Byte

def http10req (p : SendParam) : List Byte :=
  bytes " HTTP/1.0\r\nUser-Agent: httperf/" ++ p.VERSION ++
    bytes "\r\nConnection: keep-alive\r\nHost: "

def http11req (p : SendParam) : List Byte :=
  bytes " HTTP/1.1\r\nUser-Agent: httperf/" ++ p.VERSION ++ bytes "\r\nHost: "

def http10req_nohost (p : SendParam) : List Byte :=
  bytes " HTTP/1.0\r\nUser-Agent: httperf/" ++ p.VERSION ++ bytes "\r\nConnection: keep-alive"

def http11req_nohost (p : SendParam) : List Byte :=
  bytes " HTTP/1.1\r\nUser-Agent: httperf/" ++ p.VERSION

/-- The `switch` on the version. `none` is the `exit (1)` of its default case. -/
def protl (p : SendParam) (version : Nat) : Option (List Byte) :=
  if version = 0x10000 then some (if p.no_host_hdr then http10req_nohost p else http10req p)
  else if version = 0x10001 then some (if p.no_host_hdr then http11req_nohost p else http11req p)
  else none

/-- The element `IE_HOST`: a call without a host gets the one of its connection. -/
def host (p : SendParam) (fqdname : List Byte) (v : Iovec) : Iovec :=
  if p.no_host_hdr then some [] else some (v.getD fqdname)

/-- The array as `core_send` leaves it. -/
def issued (p : SendParam) (fqdname line : List Byte) (iov : IovArray) : IovArray :=
  (iov.set IE_HOST (host p fqdname iov[IE_HOST])).set IE_PROTL (some line)

theorem IE_METHOD_lt : IE_METHOD < IE_LEN := by decide

/-- What `core_send` does to the call, on a connection to the host `fqdname`. -/
def core_send (p : SendParam) (fqdname : List Byte) (c : Call) : Option Call :=
  (protl p c.req.version).map fun line =>
    { c with
      req.iov := issued p fqdname line c.req.iov
      req.iov_index := 0
      req.iov_saved := getElem (issued p fqdname line c.req.iov) IE_METHOD IE_METHOD_lt }

/-! ## do_send -/

/-- An element that has lost its first `n` bytes. -/
def Iovec.advance (v : Iovec) (n : Nat) : Iovec := v.map (List.drop n)

/-- The inner loop of `do_send`, for `nsent` bytes. `past` is what lies in memory behind the
array: it is read into `iov_saved` after the last element. -/
def send_fragments (past : Iovec) (r : Request) (nsent : Nat) : Request :=
  if _h : r.iov_index < IE_LEN then
    if nsent < r.iov[r.iov_index].iov_len then
      { r with iov := r.iov.set r.iov_index (r.iov[r.iov_index].advance nsent) }
    else
      -- we're done with this fragment
      send_fragments past
        { r with
          iov := r.iov.set r.iov_index r.iov_saved
          iov_index := r.iov_index + 1
          iov_saved := (r.iov.toList[r.iov_index + 1]?).getD past }
        (nsent - r.iov[r.iov_index].iov_len)
  else r
termination_by IE_LEN - r.iov_index

theorem send_fragments_size (past : Iovec) (r : Request) (nsent : Nat) :
    (send_fragments past r nsent).size = r.size := by
  induction r, nsent using send_fragments.induct past with
  | case1 r nsent hk hlt =>
    rw [send_fragments]
    simp only [hk, hlt, dite_true, if_true]
  | case2 r nsent hk hlt ih =>
    rw [send_fragments]
    simp only [hk, hlt, dite_true, if_false]
    exact ih
  | case3 r nsent hk =>
    rw [send_fragments]
    simp only [hk, dite_false]

/-- What `writev` gives: a number of bytes, or the error `EAGAIN`. -/
inductive Written where
  | sent (nsent : Nat)
  | eagain
  deriving DecidableEq, Repr

/-- One turn of `do_send`. -/
def do_send (past : Iovec) (r : Request) : Written → Request
  | .eagain => r
  | .sent nsent => send_fragments past { r with size := r.size + nsent } nsent

/-- The bytes that `writev` is given. -/
def offered (r : Request) : List Byte :=
  ((r.iov.toList.drop r.iov_index).map Iovec.data).flatten

/-- The number of bytes that the socket took. -/
def Written.count : Written → Nat
  | .sent nsent => nsent
  | .eagain => 0

def total (ws : List Written) : Nat := (ws.map Written.count).sum

/-- The request after a row of `writev` calls. -/
def do_sends (past : Iovec) : Request → List Written → Request
  | r, [] => r
  | r, w :: ws => do_sends past (do_send past r w) ws

/-- No `writev` takes more than it is given. -/
def Accepts (past : Iovec) : Request → List Written → Prop
  | _, [] => True
  | r, w :: ws => w.count ≤ (offered r).length ∧ Accepts past (do_send past r w) ws

/-! ## The array while it is sent -/

/-- The bytes of a row of elements. -/
def dataOf (l : List Iovec) : List Byte := (l.map Iovec.data).flatten

/-- Where the element `k` starts in the request. -/
def start (l : List Iovec) (k : Nat) : Nat := (dataOf (l.take k)).length

/-- The first `k` elements of `l` are sent, and `j` bytes of the next one. All others stand
in the array as in `l`, and the saved element is the whole of the next one. -/
structure Sending (l : List Iovec) (r : Request) (k j : Nat) : Prop where
  index : r.iov_index = k
  bound : k ≤ IE_LEN
  array : r.iov.toList = l.set k ((l[k]?.getD none).advance j)
  saved : ∀ v, l[k]? = some v → r.iov_saved = v
  inside : j = 0 ∨ ∃ v, l[k]? = some v ∧ j < v.iov_len

theorem dataOf_append (a b : List Iovec) : dataOf (a ++ b) = dataOf a ++ dataOf b := by
  simp [dataOf]

theorem dataOf_cons (v : Iovec) (l : List Iovec) : dataOf (v :: l) = v.data ++ dataOf l := rfl

theorem advance_zero (v : Iovec) : v.advance 0 = v := by
  cases v <;> rfl

theorem advance_advance (v : Iovec) (m n : Nat) : (v.advance m).advance n = v.advance (m + n) := by
  cases v <;> simp [Iovec.advance]

theorem advance_data (v : Iovec) (n : Nat) : (v.advance n).data = v.data.drop n := by
  cases v <;> simp [Iovec.advance, Iovec.data]

theorem start_succ {l : List Iovec} {k : Nat} {v : Iovec} (h : l[k]? = some v) :
    start l (k + 1) = start l k + v.iov_len := by
  unfold start Iovec.iov_len
  rw [List.take_add_one, h, dataOf_append, List.length_append]
  simp [dataOf]

theorem iov_length (iov : IovArray) : iov.toList.length = IE_LEN := Vector.length_toList

theorem start_mono (l : List Iovec) {m n : Nat} (h : m ≤ n) : start l m ≤ start l n := by
  obtain ⟨d, rfl⟩ := Nat.exists_eq_add_of_le h
  unfold start
  rw [List.take_add, dataOf_append, List.length_append]
  omega

theorem start_le (l : List Iovec) (k : Nat) : start l k ≤ (dataOf l).length := by
  have h := start_mono l (Nat.le_max_left k l.length)
  have hall : start l (max k l.length) = (dataOf l).length := by
    unfold start
    rw [List.take_of_length_le (Nat.le_max_right _ _)]
  omega

/-- What is sent ends inside the request. -/
theorem Sending.le {l : List Iovec} {r : Request} {k j : Nat} (h : Sending l r k j) :
    start l k + j ≤ (dataOf l).length := by
  rcases h.inside with rfl | ⟨v, hv, hj⟩
  · exact start_le l k
  · have h1 := start_le l (k + 1)
    rw [start_succ hv] at h1
    omega

/-- The socket is given what is left of the request. -/
theorem Sending.offered_eq {l : List Iovec} {r : Request} {k j : Nat} (h : Sending l r k j) :
    offered r = (dataOf l).drop (start l k + j) := by
  have hsplit : dataOf l = dataOf (l.take k) ++ dataOf (l.drop k) := by
    rw [← dataOf_append, List.take_append_drop]
  unfold offered start
  rw [h.index, h.array, hsplit, ← List.drop_drop, List.drop_left]
  rcases Nat.lt_or_ge k l.length with hk | hk
  · -- the element that is being sent comes first
    have hset : (l.set k ((l[k]?.getD none).advance j)).drop k =
        (l[k].advance j) :: l.drop (k + 1) := by
      rw [List.drop_eq_getElem_cons (by simpa using hk), List.drop_set_of_lt (by omega)]
      simp [hk]
    have hdrop : l.drop k = l[k] :: l.drop (k + 1) := List.drop_eq_getElem_cons hk
    have hj : j ≤ l[k].data.length := by
      rcases h.inside with rfl | ⟨v, hv, hj⟩
      · omega
      · rw [List.getElem?_eq_getElem hk, Option.some.injEq] at hv
        rw [hv]
        exact Nat.le_of_lt hj
    rw [hset, hdrop]
    simp only [dataOf, List.map_cons, List.flatten_cons, advance_data]
    rw [List.drop_append_of_le_length hj]
  · have hj : j = 0 := by
      rcases h.inside with rfl | ⟨v, hv, _⟩
      · rfl
      · rw [List.getElem?_eq_none hk] at hv
        cases hv
    rw [List.drop_eq_nil_of_le (by simpa using hk), List.drop_eq_nil_of_le hk, hj]
    rfl

/-- The element that is being sent. -/
theorem Sending.current {l : List Iovec} {r : Request} {k j : Nat} (h : Sending l r k j)
    (hk : k < l.length) (hr : r.iov_index < IE_LEN) : r.iov[r.iov_index] = l[k].advance j := by
  have hget : r.iov.toList[r.iov_index]? = some (l[k].advance j) := by
    rw [h.array, h.index]
    simp [hk]
  rw [List.getElem?_eq_getElem (by simpa using hr), Option.some.injEq] at hget
  simpa using hget

theorem advance_iov_len (v : Iovec) (j : Nat) : (v.advance j).iov_len = v.iov_len - j := by
  unfold Iovec.iov_len
  rw [advance_data, List.length_drop]

/-- The inner loop keeps the array in order and moves on by `nsent` bytes. -/
theorem sending_fragments {l : List Iovec} (past : Iovec) {r : Request} {k j nsent : Nat}
    (hl : l.length = IE_LEN) (h : Sending l r k j)
    (hn : start l k + j + nsent ≤ (dataOf l).length) :
    ∃ k' j', Sending l (send_fragments past r nsent) k' j' ∧
      start l k' + j' = start l k + j + nsent := by
  induction r, nsent using send_fragments.induct past generalizing k j with
  | case1 r nsent hk hlt =>
    have hkl : k < l.length := by rw [hl, ← h.index]; exact hk
    have hv : l[k]? = some l[k] := List.getElem?_eq_getElem hkl
    have hcur := h.current hkl hk
    rw [send_fragments]
    simp only [hk, hlt, dite_true, if_true]
    rw [hcur, advance_iov_len] at hlt
    refine ⟨k, j + nsent, ⟨h.index, h.bound, ?_, h.saved, ?_⟩, by omega⟩
    · rw [Vector.toList_set, h.array, hcur, h.index, List.set_set, hv, Option.getD_some,
        advance_advance]
    · exact Or.inr ⟨l[k], hv, by omega⟩
  | case2 r nsent hk hlt ih =>
    have hkl : k < l.length := by rw [hl, ← h.index]; exact hk
    have hv : l[k]? = some l[k] := List.getElem?_eq_getElem hkl
    have hcur := h.current hkl hk
    have hj : j ≤ l[k].iov_len := by
      rcases h.inside with rfl | ⟨v, hv', hj⟩
      · omega
      · rw [hv, Option.some.injEq] at hv'
        rw [hv']
        omega
    have hstart := start_succ hv
    rw [send_fragments]
    simp only [hk, hlt, dite_true, if_false]
    rw [hcur, advance_iov_len] at hlt ⊢
    have hrest : start l (k + 1) + 0 + (nsent - (l[k].iov_len - j)) ≤ (dataOf l).length := by
      omega
    -- the saved element puts the array right
    have hback : (r.iov.set r.iov_index r.iov_saved).toList = l := by
      rw [Vector.toList_set, h.array, h.saved _ hv, h.index, List.set_set,
        List.set_getElem_self hkl]
    have hnext : Sending l { r with
        iov := r.iov.set r.iov_index r.iov_saved
        iov_index := r.iov_index + 1
        iov_saved := (r.iov.toList[r.iov_index + 1]?).getD past } (k + 1) 0 := by
      refine ⟨congrArg (· + 1) h.index, by omega, ?_, ?_, Or.inl rfl⟩
      · rw [hback, advance_zero]
        rcases Nat.lt_or_ge (k + 1) l.length with hk1 | hk1
        · rw [List.getElem?_eq_getElem hk1, Option.getD_some, List.set_getElem_self hk1]
        · rw [List.set_eq_of_length_le hk1]
      · intro v hv1
        have hne : k ≠ k + 1 := by omega
        simp only [h.array, h.index, List.getElem?_set_ne hne, hv1, Option.getD_some]
    obtain ⟨k', j', hs, hpos⟩ := ih hnext (by rw [hcur, advance_iov_len]; exact hrest)
    rw [hcur, advance_iov_len] at hs hpos
    exact ⟨k', j', hs, by omega⟩
  | case3 r nsent hk =>
    have hkl : l.length ≤ k := by rw [hl, ← h.index]; omega
    have hend : start l k = (dataOf l).length := by
      unfold start
      rw [List.take_of_length_le hkl]
    rw [send_fragments]
    simp only [hk, dite_false]
    exact ⟨k, j, h, by omega⟩

end Httperf
