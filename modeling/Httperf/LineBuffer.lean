-- The line buffer under `get_line` (`http.c`, `conn.h`), byte by byte: which indices into
-- `line_buf` are used.
import Httperf.Http
import Httperf.Lib.Runs

namespace Httperf.LineBuffer

open Runs

/-! ## The memory -/

/-- `line` and `line_buf` of a `Conn`. An index is a `size_t`, so that `size_t (-1)` is the byte in
front of `line_buf`, in which the bit fields stand. `used` are the indices that were used, and
`wrapped` says that `iov_len` went below zero. -/
structure Line where
  iov_len : Nat
  line_buf : Nat → Byte
  used : List Nat
  wrapped : Bool

def Line.read (l : Line) (i : Nat) : Byte × Line := (l.line_buf i, { l with used := i :: l.used })

def Line.write (l : Line) (i : Nat) (b : Byte) : Line :=
  { l with line_buf := Function.update l.line_buf i b, used := i :: l.used }

/-- `--s->line.iov_len`. -/
def Line.decrement (l : Line) : Line :=
  { l with iov_len := size_t (l.iov_len - 1), wrapped := l.wrapped || l.iov_len = 0 }

def memcpy (l : Line) (i : Nat) : List Byte → Line
  | [] => l
  | b :: bytes => memcpy (l.write i b) ((i + 1) % 2 ^ 64) bytes

/-! ## The function -/

def to_copy (iov_len : Nat) (buf : List Byte) : Nat :=
  if MAX_HDR_LINE_LEN ≤ (iov_len + eol buf) % 2 ^ 64 then size_t (MAX_HDR_LINE_LEN - 1 - iov_len)
  else eol buf

/-- Chops off `\r\n` at the tail. -/
def chop (l : Line) : Line :=
  let (last, l) := l.read (size_t (l.iov_len - 1))
  if last = LF then
    let l := l.decrement
    let (last, l) := l.read (size_t (l.iov_len - 1))
    if last = CR then l.decrement else l
  else l

/-- The copy of the line, or of its first part, behind what the buffer has of it. -/
def copy (l : Line) (buf : List Byte) : Line :=
  let n := to_copy l.iov_len buf
  let l := memcpy l l.iov_len (buf.take n)
  { l with iov_len := (l.iov_len + n) % 2 ^ 64 }

/-- The result, the line, and what is left of the input. -/
def get_line (l : Line) (buf : List Byte) : Bool × Line × List Byte :=
  if buf.length ≤ 0 then (false, l, buf)
  else
    let l := copy l buf
    let (last, l) := l.read (size_t (l.iov_len - 1))
    if last = LF ∨ l.iov_len = MAX_HDR_LINE_LEN - 1 then
      let l := chop l
      (true, l.write l.iov_len 0, buf.drop (eol buf))
    else (false, l, buf.drop (eol buf))

/-! ## Calls -/

/-- What a call finds: the byte of the bit fields, and the input. No object has more than
`PTRDIFF_MAX` bytes. -/
structure Turn where
  flags : Byte
  buf : List Byte
  length_lt : buf.length < 2 ^ 63

def found (l : Line) (t : Turn) : Line :=
  ⟨l.iov_len, Function.update l.line_buf (size_t (-1)) t.flags, [], false⟩

def call (l : Line) (t : Turn) : Bool × Line × List Byte := get_line (found l t) t.buf

/-- The line is empty again for the call that follows a complete one. -/
def step (l : Line) (t : Turn) : Line :=
  let (complete, l, _) := call l t
  if complete then { l with iov_len := 0 } else l

/-- The call stays inside `line_buf`, and `iov_len` does not go below zero. -/
def Inside (l : Line) (t : Turn) : Prop :=
  (∀ i ∈ (call l t).2.1.used, i < MAX_HDR_LINE_LEN) ∧ (call l t).2.1.wrapped = false

/-- The call does not find a bare LF as a whole line. -/
def NotBare (l : Line) (t : Turn) : Prop := ¬ (l.iov_len = 0 ∧ t.buf.head? = some LF)

/-! ## The copy -/

theorem Line.write_self (l : Line) (i : Nat) (b : Byte) : (l.write i b).line_buf i = b := by
  unfold Line.write
  exact Function.update_self ..

theorem Line.write_of_ne (l : Line) {i j : Nat} (hj : j ≠ i) (b : Byte) :
    (l.write i b).line_buf j = l.line_buf j := by
  unfold Line.write
  exact Function.update_of_ne hj ..

section
variable (l : Line) (i : Nat) (bytes : List Byte)

@[simp] theorem memcpy_iov_len : (memcpy l i bytes).iov_len = l.iov_len := by
  induction bytes generalizing l i with
  | nil => rfl
  | cons b bytes ih => exact ih _ _

@[simp] theorem memcpy_wrapped : (memcpy l i bytes).wrapped = l.wrapped := by
  induction bytes generalizing l i with
  | nil => rfl
  | cons b bytes ih => exact ih _ _

end

section
variable {l : Line} {i : Nat} {bytes : List Byte}

/-- A copy that fits uses the places that it fills. -/
theorem memcpy_used (hfit : i + bytes.length < 2 ^ 64) {j : Nat}
    (hj : j ∈ (memcpy l i bytes).used) :
    j ∈ l.used ∨ j < i + bytes.length := by
  induction bytes generalizing l i with
  | nil => exact .inl hj
  | cons b bytes ih =>
    rw [List.length_cons] at hfit ⊢
    rw [memcpy, Nat.mod_eq_of_lt (by omega)] at hj
    rcases ih (by omega) hj with hold | hlt
    · rcases List.mem_cons.mp hold with rfl | hold
      · exact .inr (by omega)
      · exact .inl hold
    · exact .inr (by omega)

/-- Places in front of the copy and behind it stay as they are. -/
theorem memcpy_frame (hfit : i + bytes.length < 2 ^ 64) {j : Nat}
    (hj : j < i ∨ i + bytes.length ≤ j) :
    (memcpy l i bytes).line_buf j = l.line_buf j := by
  induction bytes generalizing l i with
  | nil => rfl
  | cons b bytes ih =>
    rw [List.length_cons] at hfit hj
    have hrest := ih (l := l.write i b) (i := i + 1) (by omega) (by omega)
    rw [memcpy, Nat.mod_eq_of_lt (by omega)]
    exact hrest.trans (l.write_of_ne (by omega) b)

theorem memcpy_get (hfit : i + bytes.length < 2 ^ 64) {k : Nat} (hk : k < bytes.length) :
    (memcpy l i bytes).line_buf (i + k) = bytes[k] := by
  induction bytes generalizing l i k with
  | nil => nomatch hk
  | cons b bytes ih =>
    rw [List.length_cons] at hfit hk
    rw [memcpy, Nat.mod_eq_of_lt (by omega)]
    cases k with
    | zero =>
      have hfirst : (memcpy (l.write i b) (i + 1) bytes).line_buf i = (l.write i b).line_buf i :=
        memcpy_frame (by omega) (.inl (Nat.lt_succ_self i))
      exact hfirst.trans (l.write_self i b)
    | succ k =>
      have hrest := ih (l := l.write i b) (i := i + 1) (by omega) (Nat.lt_of_succ_lt_succ hk)
      rwa [Nat.succ_add_eq_add_succ] at hrest

end

section
variable {l : Line} {buf : List Byte} (hlen : l.iov_len < MAX_HDR_LINE_LEN - 1) (hbuf : buf ≠ [])
  (hlong : buf.length < 2 ^ 63)
include hlen hbuf hlong

/-- At least one byte is copied, and a place is left for the NUL. -/
theorem to_copy_spec : 1 ≤ to_copy l.iov_len buf ∧ to_copy l.iov_len buf ≤ eol buf ∧
    l.iov_len + to_copy l.iov_len buf < MAX_HDR_LINE_LEN := by
  have hpos := eol_pos buf hbuf
  have hle := eol_le buf
  unfold MAX_HDR_LINE_LEN at hlen
  unfold to_copy size_t MAX_HDR_LINE_LEN
  rw [Nat.mod_eq_of_lt (by omega)]
  split <;> omega

end

/-! ## The chop -/

theorem size_t_pred {n : Nat} (h1 : 1 ≤ n) (hlt : n < 2 ^ 64) : size_t ((n : Int) - 1) = n - 1 := by
  unfold size_t
  omega

/-- The line and the indices are inside. -/
structure Safe (l : Line) : Prop where
  used : ∀ i ∈ l.used, i < MAX_HDR_LINE_LEN
  wrapped : l.wrapped = false
  len : l.iov_len < MAX_HDR_LINE_LEN

section
variable {l : Line}

theorem Safe.read (h : Safe l) {i : Nat} (hi : i < MAX_HDR_LINE_LEN) : Safe (l.read i).2 := by
  refine ⟨?_, h.wrapped, h.len⟩
  intro j hj
  rcases List.mem_cons.mp hj with rfl | hj
  · exact hi
  · exact h.used j hj

theorem Safe.write (h : Safe l) {i : Nat} (hi : i < MAX_HDR_LINE_LEN) (b : Byte) :
    Safe (l.write i b) := by
  refine ⟨?_, h.wrapped, h.len⟩
  intro j hj
  rcases List.mem_cons.mp hj with rfl | hj
  · exact hi
  · exact h.used j hj

theorem Safe.pred (h : Safe l) (hpos : 1 ≤ l.iov_len) : size_t (l.iov_len - 1) = l.iov_len - 1 := by
  have hlen := h.len
  unfold MAX_HDR_LINE_LEN at hlen
  exact size_t_pred hpos (by omega)

theorem Safe.decrement (h : Safe l) (hpos : 1 ≤ l.iov_len) :
    Safe l.decrement ∧ l.decrement.iov_len = l.iov_len - 1 := by
  have hlen := h.len
  have hpred := h.pred hpos
  refine ⟨⟨h.used, ?_, ?_⟩, hpred⟩
  · unfold Line.decrement
    rw [Bool.or_eq_false_iff]
    exact ⟨h.wrapped, decide_eq_false (by omega)⟩
  · unfold Line.decrement
    dsimp only
    omega

theorem chop_no_lf (hlf : l.line_buf (size_t (l.iov_len - 1)) ≠ LF) :
    chop l = (l.read (size_t (l.iov_len - 1))).2 :=
  if_neg hlf

/-- `d` is the line without its LF. -/
theorem chop_lf (hlf : l.line_buf (size_t (l.iov_len - 1)) = LF) {d : Line}
    (hd : (l.read (size_t (l.iov_len - 1))).2.decrement = d) :
    chop l =
      if d.line_buf (size_t (d.iov_len - 1)) = CR then (d.read (size_t (d.iov_len - 1))).2.decrement
      else (d.read (size_t (d.iov_len - 1))).2 := by
  subst hd
  exact if_pos hlf

theorem chop_safe (h : Safe l) (hpos : 1 ≤ l.iov_len)
    (hbare : ¬ (l.iov_len = 1 ∧ l.line_buf 0 = LF)) :
    Safe (chop l) := by
  have hlen := h.len
  have hpred := h.pred hpos
  have hread : Safe (l.read (size_t (l.iov_len - 1))).2 := h.read (by omega)
  by_cases hlf : l.line_buf (size_t (l.iov_len - 1)) = LF
  · obtain ⟨d, hd⟩ : ∃ d, (l.read (size_t (l.iov_len - 1))).2.decrement = d := ⟨_, rfl⟩
    obtain ⟨hdec, hiov⟩ := hread.decrement hpos
    rw [hd] at hdec hiov
    change d.iov_len = l.iov_len - 1 at hiov
    have htwo : 1 ≤ d.iov_len := by
      by_contra hno
      have hone : l.iov_len = 1 := by omega
      rw [hpred, hone] at hlf
      exact hbare ⟨hone, hlf⟩
    have hagain : Safe (d.read (size_t (d.iov_len - 1))).2 :=
      hdec.read (by rw [hdec.pred htwo]; omega)
    rw [chop_lf hlf hd]
    split
    · exact (hagain.decrement htwo).1
    · exact hagain
  · rw [chop_no_lf hlf]
    exact hread

/-- The byte in front of the buffer is read. -/
theorem chop_bare (hone : l.iov_len = 1) (hlf : l.line_buf 0 = LF) :
    size_t (-1) ∈ (chop l).used := by
  have hzero : size_t (l.iov_len - 1) = 0 := by
    rw [hone]
    rfl
  have hdec : (l.read (size_t (l.iov_len - 1))).2.decrement.iov_len = 0 := hzero
  rw [chop_lf (by rw [hzero]; exact hlf) rfl, hdec]
  split
  · exact List.mem_cons_self
  · exact List.mem_cons_self

end

/-! ## One call -/

/-- What holds of the line once the input is in it. -/
structure Copied (l m : Line) (buf : List Byte) : Prop where
  len : m.iov_len = l.iov_len + to_copy l.iov_len buf
  used : ∀ i ∈ m.used, i ∈ l.used ∨ i < m.iov_len
  wrapped : m.wrapped = l.wrapped
  below : ∀ i < l.iov_len, m.line_buf i = l.line_buf i
  front : m.line_buf (size_t (-1)) = l.line_buf (size_t (-1))
  get : ∀ k < to_copy l.iov_len buf, buf[k]? = some (m.line_buf (l.iov_len + k))

section
variable {l : Line} {buf : List Byte} (hlen : l.iov_len < MAX_HDR_LINE_LEN - 1) (hbuf : buf ≠ [])
  (hlong : buf.length < 2 ^ 63)
include hlen hbuf hlong

theorem copy_spec : Copied l (copy l buf) buf := by
  obtain ⟨hpos, hle, hfit⟩ := to_copy_spec hlen hbuf hlong
  have heol := eol_le buf
  unfold MAX_HDR_LINE_LEN at hfit
  have htake : (buf.take (to_copy l.iov_len buf)).length = to_copy l.iov_len buf :=
    List.length_take_of_le (Nat.le_trans hle heol)
  have hcopied : l.iov_len + (buf.take (to_copy l.iov_len buf)).length < 2 ^ 64 := by
    rw [htake]
    omega
  have hiov : (copy l buf).iov_len = l.iov_len + to_copy l.iov_len buf := by
    unfold copy
    dsimp only
    rw [memcpy_iov_len, Nat.mod_eq_of_lt (by omega)]
  have hfront : size_t (-1) = 2 ^ 64 - 1 := rfl
  refine ⟨hiov, ?_, memcpy_wrapped .., ?_, memcpy_frame hcopied (.inr ?_), ?_⟩
  · intro i hi
    rw [hiov]
    rcases memcpy_used hcopied hi with hold | hlt
    · exact .inl hold
    · rw [htake] at hlt
      exact .inr hlt
  · intro i hi
    exact memcpy_frame hcopied (.inl hi)
  · rw [hfront, htake]
    omega
  · intro k hk
    have hget := memcpy_get (l := l) hcopied (k := k) (by rwa [htake])
    rw [List.getElem_take] at hget
    rw [List.getElem?_eq_getElem (by omega)]
    exact congrArg some hget.symm

end

theorem call_eq (l : Line) (t : Turn) (hbuf : t.buf ≠ []) {m : Line}
    (hm : copy (found l t) t.buf = m) :
    call l t =
      if m.line_buf (size_t (m.iov_len - 1)) = LF ∨ m.iov_len = MAX_HDR_LINE_LEN - 1 then
        (true, (chop (m.read (size_t (m.iov_len - 1))).2).write
          (chop (m.read (size_t (m.iov_len - 1))).2).iov_len 0,
          t.buf.drop (eol t.buf))
      else (false, (m.read (size_t (m.iov_len - 1))).2, t.buf.drop (eol t.buf)) := by
  have hpos : ¬ t.buf.length ≤ 0 := by
    rw [Nat.le_zero, List.length_eq_zero_iff]
    exact hbuf
  unfold call get_line
  rw [if_neg hpos, hm]
  rfl

theorem call_empty (l : Line) (t : Turn) (hbuf : t.buf = []) :
    call l t = (false, found l t, []) := by
  unfold call get_line
  rw [hbuf]
  rfl

section
variable {l : Line} {t : Turn} (hlen : l.iov_len < MAX_HDR_LINE_LEN - 1)
include hlen

/-- The line with the input in it, before the end is looked at. -/
theorem copy_safe (hbuf : t.buf ≠ []) {m : Line} (hm : copy (found l t) t.buf = m) :
    Copied (found l t) m t.buf ∧ Safe m ∧ 1 ≤ m.iov_len := by
  obtain ⟨hpos, _, hfit⟩ := to_copy_spec hlen hbuf t.length_lt
  have hcopied := copy_spec (l := found l t) hlen hbuf t.length_lt
  rw [hm] at hcopied
  have hiov : m.iov_len = l.iov_len + to_copy l.iov_len t.buf := hcopied.len
  refine ⟨hcopied, ⟨?_, hcopied.wrapped, by omega⟩, by omega⟩
  intro i hi
  have hlt := (hcopied.used i hi).resolve_left List.not_mem_nil
  omega

/-- The line is a bare LF exactly when the call finds an empty line and a bare LF. -/
theorem copy_bare_iff (hbuf : t.buf ≠ []) {m : Line} (hm : copy (found l t) t.buf = m) :
    m.iov_len = 1 ∧ m.line_buf 0 = LF ↔ ¬ NotBare l t := by
  obtain ⟨hcopied, _, _⟩ := copy_safe hlen hbuf hm
  obtain ⟨hpos, hle, _⟩ := to_copy_spec hlen hbuf t.length_lt
  have hiov : m.iov_len = l.iov_len + to_copy l.iov_len t.buf := hcopied.len
  have hget (hzero : l.iov_len = 0) : t.buf.head? = some (m.line_buf 0) := by
    have hfirst := hcopied.get 0 hpos
    change t.buf[0]? = some (m.line_buf (l.iov_len + 0)) at hfirst
    rwa [← List.head?_eq_getElem?, hzero] at hfirst
  unfold NotBare
  rw [not_not]
  constructor
  · rintro ⟨hone, hlf⟩
    have hzero : l.iov_len = 0 := by omega
    exact ⟨hzero, by rw [hget hzero, hlf]⟩
  · rintro ⟨hzero, hhead⟩
    have heol : eol t.buf = 1 := by
      obtain ⟨rest, hrest⟩ := List.head?_eq_some_iff.mp hhead
      rw [hrest]
      rfl
    rw [hget hzero] at hhead
    exact ⟨by omega, Option.some.inj hhead⟩

/-- A call that finds no bare LF is safe, and leaves room for the next one. -/
theorem call_safe (hbare : NotBare l t) :
    Safe (call l t).2.1 ∧ (step l t).iov_len < MAX_HDR_LINE_LEN - 1 := by
  by_cases hbuf : t.buf = []
  · unfold step
    rw [call_empty l t hbuf]
    exact ⟨⟨fun i hi => absurd hi List.not_mem_nil, rfl, Nat.lt_of_lt_of_le hlen (Nat.sub_le _ _)⟩,
      hlen⟩
  · obtain ⟨m, hm⟩ : ∃ m, copy (found l t) t.buf = m := ⟨_, rfl⟩
    obtain ⟨_, hsafe, hone⟩ := copy_safe hlen hbuf hm
    have hread : Safe (m.read (size_t (m.iov_len - 1))).2 :=
      hsafe.read (by rw [hsafe.pred hone]; exact Nat.lt_of_le_of_lt (Nat.sub_le _ _) hsafe.len)
    have hchop := chop_safe hread hone (mt (copy_bare_iff hlen hbuf hm).mp (not_not.mpr hbare))
    unfold step
    rw [call_eq l t hbuf hm]
    split
    · exact ⟨hchop.write hchop.len 0, Nat.zero_lt_succ 1022⟩
    · rename_i hmore
      have hlast := hsafe.len
      have hnfull := (not_or.mp hmore).2
      refine ⟨hread, ?_⟩
      change m.iov_len < MAX_HDR_LINE_LEN - 1
      omega

/-- A bare LF as a whole line lets the code read the byte in front of the buffer. -/
theorem call_bare (hbare : ¬ NotBare l t) : size_t (-1) ∈ (call l t).2.1.used := by
  have hbuf : t.buf ≠ [] := by
    intro hnil
    have hhead := (not_not.mp hbare).2
    rw [hnil] at hhead
    nomatch hhead
  obtain ⟨m, hm⟩ : ∃ m, copy (found l t) t.buf = m := ⟨_, rfl⟩
  obtain ⟨hone, hlf⟩ := (copy_bare_iff hlen hbuf hm).mpr hbare
  have hlast : m.line_buf (size_t (m.iov_len - 1)) = LF := by
    rw [hone]
    exact hlf
  rw [call_eq l t hbuf hm, if_pos (.inl hlast)]
  exact List.mem_cons_of_mem _ (chop_bare hone hlf)

theorem inside_iff_not_bare : Inside l t ↔ NotBare l t := by
  constructor
  · intro hin
    by_contra hbare
    exact absurd (hin.1 _ (call_bare hlen hbare)) (by decide)
  · intro hbare
    have hsafe := (call_safe hlen hbare).1
    exact ⟨hsafe.used, hsafe.wrapped⟩

/-- `get_line` stays inside the line buffer in all calls exactly when no call finds an empty line
that ends with a bare LF. -/
theorem get_line_inside_iff (turns : List Turn) :
    Meets step Inside l turns ↔ Meets step NotBare l turns := by
  apply meets_iff_meets_of_invariant (Q := fun l => l.iov_len < MAX_HDR_LINE_LEN - 1)
  · intro l t hlen
    exact inside_iff_not_bare hlen
  · intro l t hlen hbare
    exact (call_safe hlen hbare).2
  · exact hlen

end

/-- An empty line with a CR, in two pieces. -/
theorem crlf_in_two_pieces_is_inside :
    Meets step Inside ⟨0, fun _ => 0, [], false⟩
      [⟨13, [CR], by decide⟩, ⟨13, [LF], by decide⟩] := by
  refine (get_line_inside_iff (by decide) _).mpr ⟨?_, ?_, trivial⟩
  · rintro ⟨_, hhead⟩
    nomatch hhead
  · rintro ⟨hzero, _⟩
    nomatch hzero

/-- A bare LF, while the byte in front of the buffer is 13: a reply with a body, on a connection
that reads and writes. -/
theorem bare_lf_is_outside :
    ¬ Meets step Inside ⟨0, fun _ => 0, [], false⟩ [⟨13, [LF], by decide⟩] := by
  rintro ⟨hin, _⟩
  exact (inside_iff_not_bare (by decide)).mp hin ⟨rfl, rfl⟩

/-- The length wraps there. -/
example : (call ⟨0, fun _ => 0, [], false⟩ ⟨13, [LF], by decide⟩).2.1.iov_len = 2 ^ 64 - 1 := by
  decide

/-! ## The line as a list -/

/-- The first `iov_len` bytes of `line_buf`. -/
def Line.bytes (l : Line) : List Byte := (List.range l.iov_len).map l.line_buf

section
variable {l : Line}

theorem Line.length_bytes (l : Line) : l.bytes.length = l.iov_len := by
  unfold Line.bytes
  rw [List.length_map, List.length_range]

theorem Line.getElem?_bytes {i : Nat} (hi : i < l.iov_len) : l.bytes[i]? = some (l.line_buf i) := by
  unfold Line.bytes
  rw [List.getElem?_map, List.getElem?_range hi]
  rfl

theorem Line.getLast?_bytes (hpos : 1 ≤ l.iov_len) :
    l.bytes.getLast? = some (l.line_buf (l.iov_len - 1)) := by
  rw [List.getLast?_eq_getElem?, l.length_bytes]
  exact Line.getElem?_bytes (Nat.sub_lt hpos Nat.one_pos)

theorem Safe.bytes_decrement (h : Safe l) (hpos : 1 ≤ l.iov_len) :
    l.decrement.bytes = l.bytes.dropLast := by
  obtain ⟨n, hn⟩ := Nat.exists_eq_add_of_le' hpos
  have hiov := (h.decrement hpos).2
  rw [hn, Nat.add_sub_cancel] at hiov
  unfold Line.bytes
  rw [hiov, hn, List.range_succ, List.map_append, List.map_singleton, List.dropLast_concat]
  rfl

/-- The NUL stands behind the line. -/
theorem Line.bytes_write (l : Line) (b : Byte) : (l.write l.iov_len b).bytes = l.bytes := by
  unfold Line.bytes
  apply List.map_congr_left
  intro i hi
  exact l.write_of_ne (Nat.ne_of_lt (List.mem_range.mp hi)) b

theorem Copied.bytes {m : Line} {buf : List Byte} (h : Copied l m buf)
    (hle : to_copy l.iov_len buf ≤ buf.length) :
    m.bytes = l.bytes ++ buf.take (to_copy l.iov_len buf) := by
  apply List.ext_getElem?
  intro i
  by_cases hi : i < m.iov_len
  · rw [Line.getElem?_bytes hi]
    by_cases hold : i < l.iov_len
    · rw [List.getElem?_append_left (by rwa [l.length_bytes]), Line.getElem?_bytes hold,
        h.below i hold]
    · have hlen := h.len
      have hget := h.get (i - l.iov_len) (by omega)
      rw [Nat.add_sub_cancel' (Nat.le_of_not_lt hold)] at hget
      rw [List.getElem?_append_right (by rw [l.length_bytes]; omega), l.length_bytes,
        List.getElem?_take_of_lt (by omega), hget]
  · have hlen := h.len
    rw [List.getElem?_eq_none (by rw [m.length_bytes]; omega), List.getElem?_eq_none]
    rw [List.length_append, l.length_bytes, List.length_take]
    omega

theorem length_chop_le (line : List Byte) : (Httperf.chop line).length ≤ line.length := by
  unfold Httperf.chop
  dsimp only
  split_ifs
  · simp
    omega
  · simp
  · exact Nat.le_refl _

/-- The chop of the list, where the byte in front of the buffer is no CR or is not looked at. -/
theorem chop_bytes (h : Safe l) (hpos : 1 ≤ l.iov_len)
    (hfront : ¬ (l.iov_len = 1 ∧ l.line_buf 0 = LF) ∨ l.line_buf (size_t (-1)) ≠ CR) :
    (chop l).bytes = Httperf.chop l.bytes := by
  have hlen := h.len
  have hpred := h.pred hpos
  have hlast := Line.getLast?_bytes hpos
  unfold Httperf.chop
  by_cases hlf : l.line_buf (l.iov_len - 1) = LF
  · obtain ⟨d, hd⟩ : ∃ d, (l.read (size_t (l.iov_len - 1))).2.decrement = d := ⟨_, rfl⟩
    have hread : Safe (l.read (size_t (l.iov_len - 1))).2 := h.read (by omega)
    obtain ⟨hdec, hiov⟩ := hread.decrement hpos
    have hbytes := hread.bytes_decrement hpos
    rw [hd] at hdec hiov hbytes
    change d.iov_len = l.iov_len - 1 at hiov
    change d.bytes = l.bytes.dropLast at hbytes
    rw [if_pos (by rw [hlast, hlf]), ← hbytes, chop_lf (by rwa [hpred]) hd]
    dsimp only
    by_cases hempty : l.iov_len = 1
    · -- the byte in front of the buffer is looked at
      have hfirst : l.line_buf 0 = LF := by rwa [hempty] at hlf
      have hcr : d.line_buf (size_t (d.iov_len - 1)) ≠ CR := by
        rw [hiov, hempty, ← hd]
        exact hfront.resolve_left (not_not.mpr ⟨hempty, hfirst⟩)
      have hnil : d.bytes = [] := by
        apply List.eq_nil_of_length_eq_zero
        rw [d.length_bytes, hiov, hempty]
      rw [if_neg hcr, if_neg (by rw [hnil]; exact nofun)]
      rfl
    · have htwo : 1 ≤ d.iov_len := by omega
      have hagain : Safe (d.read (size_t (d.iov_len - 1))).2 :=
        hdec.read (by rw [hdec.pred htwo]; omega)
      rw [Line.getLast?_bytes htwo, hdec.pred htwo]
      by_cases hcr : d.line_buf (d.iov_len - 1) = CR
      · rw [if_pos hcr, if_pos (congrArg some hcr), ← hdec.pred htwo]
        exact hagain.bytes_decrement htwo
      · rw [if_neg hcr, if_neg (mt Option.some.inj hcr)]
        rfl
  · rw [if_neg (by rw [hlast]; exact mt Option.some.inj hlf), chop_no_lf (by rwa [hpred])]
    rfl

theorem to_copy_eq {buf : List Byte} (hlen : l.iov_len < MAX_HDR_LINE_LEN - 1)
    (hlong : buf.length < 2 ^ 63) :
    Httperf.to_copy l.bytes buf = to_copy l.iov_len buf := by
  have heol := eol_le buf
  unfold MAX_HDR_LINE_LEN at hlen
  unfold Httperf.to_copy to_copy size_t MAX_HDR_LINE_LEN
  rw [l.length_bytes, Nat.mod_eq_of_lt (by omega)]
  split
  · omega
  · rfl

/-- Byte by byte, `get_line` does what it does to the line as a list, where the byte in front of the
buffer is no CR or is not looked at. -/
theorem get_line_refines {t : Turn} {r : Rx} (hlen : l.iov_len < MAX_HDR_LINE_LEN - 1)
    (hline : r.s.line = l.bytes) (hbuf : r.buf = t.buf) (hfront : NotBare l t ∨ t.flags ≠ CR) :
    (call l t).1 = (Httperf.get_line r).1 ∧ (call l t).2.1.bytes = (Httperf.get_line r).2.s.line ∧
      (call l t).2.2 = (Httperf.get_line r).2.buf := by
  have hfound : (found l t).bytes = l.bytes := by
    unfold Line.bytes
    apply List.map_congr_left
    intro i hi
    have hlt := List.mem_range.mp hi
    have hfront : size_t (-1) = 2 ^ 64 - 1 := rfl
    unfold MAX_HDR_LINE_LEN at hlen
    exact Function.update_of_ne (by change i < l.iov_len at hlt; omega) ..
  unfold Httperf.get_line
  by_cases hnil : t.buf = []
  · rw [hbuf, if_pos hnil, call_empty l t hnil]
    exact ⟨rfl, hfound.trans hline.symm, by rw [hbuf, hnil]⟩
  · obtain ⟨m, hm⟩ : ∃ m, copy (found l t) t.buf = m := ⟨_, rfl⟩
    obtain ⟨hcopied, hsafe, hone⟩ := copy_safe hlen hnil hm
    obtain ⟨_, hle, hfit⟩ := to_copy_spec hlen hnil t.length_lt
    have heol := eol_le t.buf
    have hcopy : Httperf.to_copy l.bytes t.buf = to_copy l.iov_len t.buf :=
      to_copy_eq hlen t.length_lt
    have hbytes : m.bytes = l.bytes ++ t.buf.take (Httperf.to_copy l.bytes t.buf) := by
      rw [hcopied.bytes (Nat.le_trans hle heol), hfound, hcopy]
      rfl
    have hlast := Line.getLast?_bytes hone
    have hread : Safe (m.read (size_t (m.iov_len - 1))).2 :=
      hsafe.read (by rw [hsafe.pred hone]; exact Nat.lt_of_le_of_lt (Nat.sub_le _ _) hsafe.len)
    have hchop : (chop (m.read (size_t (m.iov_len - 1))).2).bytes = Httperf.chop m.bytes := by
      apply chop_bytes hread hone
      rcases hfront with hbare | hflags
      · exact .inl (mt (copy_bare_iff hlen hnil hm).mp (not_not.mpr hbare))
      · right
        change m.line_buf (size_t (-1)) ≠ CR
        rw [hcopied.front]
        unfold found
        dsimp only
        rwa [Function.update_self]
    rw [if_neg (by rwa [hbuf]), call_eq l t hnil hm, hsafe.pred hone, hline, hbuf, ← hbytes]
    dsimp only
    rw [hlast, m.length_bytes]
    by_cases hend : m.line_buf (m.iov_len - 1) = LF ∨ m.iov_len = MAX_HDR_LINE_LEN - 1
    · rw [if_pos hend, if_pos]
      · refine ⟨rfl, ?_, rfl⟩
        rw [hsafe.pred hone] at hchop
        rw [Line.bytes_write, hchop]
      · simpa using hend
    · rw [if_neg hend, if_neg]
      · exact ⟨rfl, rfl, rfl⟩
      · simpa using hend

theorem chop_line_buf (l : Line) : (chop l).line_buf = l.line_buf := by
  unfold chop Line.read Line.decrement
  dsimp only
  split_ifs <;> rfl

/-- Where the byte in front of the buffer is no CR or is not looked at, it stays as it is, and a
line that is complete ends in a NUL. -/
theorem call_keeps_front {t : Turn} (hlen : l.iov_len < MAX_HDR_LINE_LEN - 1)
    (hfront : NotBare l t ∨ t.flags ≠ CR) :
    (call l t).2.1.line_buf (size_t (-1)) = t.flags ∧
      if (call l t).1 then
        (call l t).2.1.line_buf (call l t).2.1.iov_len = 0 ∧
          (call l t).2.1.iov_len < MAX_HDR_LINE_LEN
      else (call l t).2.1.iov_len < MAX_HDR_LINE_LEN - 1 := by
  have hfound : (found l t).line_buf (size_t (-1)) = t.flags := by
    unfold found
    dsimp only
    rw [Function.update_self]
  by_cases hnil : t.buf = []
  · rw [call_empty l t hnil]
    exact ⟨hfound, hlen⟩
  · obtain ⟨m, hm⟩ : ∃ m, copy (found l t) t.buf = m := ⟨_, rfl⟩
    obtain ⟨hcopied, hsafe, hone⟩ := copy_safe hlen hnil hm
    have hflags : m.line_buf (size_t (-1)) = t.flags := hcopied.front.trans hfound
    rw [call_eq l t hnil hm]
    by_cases hend : m.line_buf (size_t (m.iov_len - 1)) = LF ∨ m.iov_len = MAX_HDR_LINE_LEN - 1
    · have hread : Safe (m.read (size_t (m.iov_len - 1))).2 :=
        hsafe.read (by rw [hsafe.pred hone]; exact Nat.lt_of_le_of_lt (Nat.sub_le _ _) hsafe.len)
      obtain ⟨d, hd⟩ : ∃ d, chop (m.read (size_t (m.iov_len - 1))).2 = d := ⟨_, rfl⟩
      have hshort : d.iov_len < MAX_HDR_LINE_LEN := by
        have hbytes := chop_bytes hread hone
          (hfront.imp (mt (copy_bare_iff hlen hnil hm).mp ∘ not_not.mpr) fun hno => by
            rwa [show (m.read (size_t (m.iov_len - 1))).2.line_buf = m.line_buf from rfl, hflags])
        have hle := congrArg List.length hbytes
        rw [hd, d.length_bytes] at hle
        have hchop := length_chop_le (m.read (size_t (m.iov_len - 1))).2.bytes
        rw [Line.length_bytes] at hchop
        have hm := hsafe.len
        change _ ≤ m.iov_len at hchop
        omega
      have hbuf : d.line_buf = m.line_buf := by
        rw [← hd, chop_line_buf]
        rfl
      rw [if_pos hend, hd]
      refine ⟨?_, ?_⟩
      · have hne : size_t (-1) ≠ d.iov_len := by
          have hbig : size_t (-1) = 2 ^ 64 - 1 := rfl
          unfold MAX_HDR_LINE_LEN at hshort
          omega
        change (d.write d.iov_len 0).line_buf (size_t (-1)) = t.flags
        rw [d.write_of_ne hne, hbuf, hflags]
      · exact ⟨d.write_self d.iov_len 0, hshort⟩
    · rw [if_neg hend]
      have hlast := hsafe.len
      have hnfull := (not_or.mp hend).2
      refine ⟨hflags, ?_⟩
      change m.iov_len < MAX_HDR_LINE_LEN - 1
      omega

end

end Httperf.LineBuffer
