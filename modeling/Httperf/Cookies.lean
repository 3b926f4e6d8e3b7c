-- The cookie of a session (`sess_cookie.c`): one buffer for the session, a copy in each call, and
-- the places of the call's extra headers (`call.c`), which the options and the session file fill as
-- well.
import Httperf.Call
import Httperf.Lib.Runs

namespace Httperf.Cookies

open Runs

def MAX_COOKIE_LEN : Nat := 256

/-! ## The buffers -/

/-- `char cookie[MAX_COOKIE_LEN]`. -/
structure Buffer where
  mem : List Byte
  size : mem.length = MAX_COOKIE_LEN
  deriving DecidableEq

/-- A buffer that `object_new` cleared. -/
def Buffer.zero : Buffer := ⟨List.replicate MAX_COOKIE_LEN 0, List.length_replicate⟩

/-- The first `len` bytes, which a `memcpy` takes. -/
def Buffer.read (buf : Buffer) (len : Nat) : Option (List Byte) :=
  if len ≤ MAX_COOKIE_LEN then some (buf.mem.take len) else none

/-- `memcpy (buf + pos, src, n)` of the bytes `src`. `none` is a copy that leaves the buffer. -/
def Buffer.memcpy (buf : Buffer) (pos : Nat) (src : List Byte) : Option Buffer :=
  if h : pos + src.length ≤ MAX_COOKIE_LEN then
    some ⟨buf.mem.take pos ++ src ++ buf.mem.drop (pos + src.length), by
      have := buf.size
      simp only [List.length_append, List.length_take, List.length_drop]
      omega⟩
  else none

/-! ## The objects -/

structure Sess_Private_Data where
  cookie_len : Nat
  cookie : Buffer
  deriving DecidableEq

structure Call_Private_Data where
  cookie_present : Bool
  cookie : Buffer
  deriving DecidableEq

/-- What the `iov_base` of an extra header points to: a text that stays as it is, or the cookie of
the call. -/
inductive Base where
  | text (b : List Byte)
  | cookie
  deriving DecidableEq

structure Header where
  iov_base : Base
  iov_len : Nat
  deriving DecidableEq

/-- A call, with its extra headers that are in use. `refused` counts the calls of
`call_append_request_header` that returned -1. -/
structure Call where
  priv : Call_Private_Data
  extra_hdrs : List Header
  refused : Nat
  deriving DecidableEq

/-- The calls in the order in which they were made. -/
structure Sess where
  priv : Sess_Private_Data
  calls : List Call
  deriving DecidableEq

def Sess.fresh : Sess := ⟨⟨0, Buffer.zero⟩, []⟩

/-- What `--add-header` and `--add-header-file` give (`misc.c`). -/
structure Options where
  extra : List Byte
  extra_file : List Byte

/-! ## The handlers -/

def call_append_request_header (c : Call) (hdr : Base) (len : Nat) : Call :=
  if c.extra_hdrs.length ≥ MAX_EXTRA_HEADERS then { c with refused := c.refused + 1 }
  else { c with extra_hdrs := c.extra_hdrs ++ [⟨hdr, len⟩] }

/-- `call_created` (`misc.c`), which `object_new` calls. -/
def call_created (opts : Options) (c : Call) : Call :=
  let c :=
    if opts.extra.length > 0 then call_append_request_header c (.text opts.extra) opts.extra.length
    else c
  if opts.extra_file.length > 0 then
    call_append_request_header c (.text opts.extra_file) opts.extra_file.length
  else c

def call_new (opts : Options) : Call := call_created opts ⟨⟨false, Buffer.zero⟩, [], 0⟩

/-- The part of `issue_calls` (`wsesslog.c`) that makes a call. `extra_hdrs` has the length of the
contents. -/
def issue_calls (opts : Options) (contents_len : Nat) (extra_hdrs : List Byte) : Call :=
  let call := call_new opts
  if contents_len > 0 then call_append_request_header call (.text extra_hdrs) extra_hdrs.length
  else call

def call_issue (priv : Sess_Private_Data) (call : Call) : Option Call :=
  if call.priv.cookie_present then some call
  else if priv.cookie_len > 0 then do
    let text ← priv.cookie.read (priv.cookie_len + 1)
    let cookie ← call.priv.cookie.memcpy 0 text
    some (call_append_request_header { call with priv := ⟨true, cookie⟩ } .cookie priv.cookie_len)
  else some call

def strchr (s : List Byte) (c : Byte) : Option Nat := (cstr s).idxOf? c

/-- `end - start`, and at most `MAX_COOKIE_LEN - 11`. -/
def munch_len (start : List Byte) : Nat :=
  let len := (strchr start 59).getD start.length
  if len + 10 ≥ MAX_COOKIE_LEN then MAX_COOKIE_LEN - 11 else len

/-- `line` holds the `iov_len` bytes of the line, which a NUL follows. -/
def call_recv_hdr (priv : Sess_Private_Data) (line : List Byte) : Option Sess_Private_Data :=
  if tolower (line.headD 0) = 115 ∧ line.length > 12 ∧
    strncaseeq (line.drop 1) (bytes "et-cookie: ") then do
    let start := line.drop 12
    let len := munch_len start
    let cookie ← priv.cookie.memcpy 0 (bytes "Cookie: ")
    let cookie ← cookie.memcpy 8 (start.take len)
    let cookie ← cookie.memcpy (8 + len) [CR, LF]
    let cookie ← cookie.memcpy (10 + len) [0]
    some ⟨len + 10, cookie⟩
  else some priv

/-! ## The session -/

/-- `core_send i` sends the call `i`, for the first time or once more, and signals `EV_CALL_ISSUE`
first. -/
inductive Event where
  | issue_calls (contents_len : Nat) (extra_hdrs : List Byte)
  | core_send (i : Nat)
  | recv_hdr (line : List Byte)
  deriving DecidableEq

def step (opts : Options) (s : Sess) : Event → Option Sess
  | .issue_calls contents_len extra_hdrs =>
    some { s with calls := s.calls ++ [issue_calls opts contents_len extra_hdrs] }
  | .core_send i =>
    match s.calls[i]? with
    | none => some s
    | some call => (call_issue s.priv call).map fun call => { s with calls := s.calls.set i call }
  | .recv_hdr line => (call_recv_hdr s.priv line).map fun priv => { s with priv }

/-- The bytes that `writev` takes from an extra header. -/
def Header.data (call : Call) (h : Header) : List Byte :=
  match h.iov_base with
  | .text b => b.take h.iov_len
  | .cookie => call.priv.cookie.mem.take h.iov_len

/-- The headers of a call that `call_issue` put there, as they would be sent now. -/
def Call.cookies (call : Call) : List (List Byte) :=
  (call.extra_hdrs.filter fun h => h.iov_base = .cookie).map (Header.data call)

/-! ## What is promised -/

/-- A `Set-Cookie: ` line, in letters of either case. -/
def is_set_cookie (line : List Byte) : Bool := strncaseeq line (bytes "Set-Cookie: ")

/-- The value of a cookie, cut at the first `;` and at 245 bytes. -/
def cut (value : List Byte) : List Byte := (value.takeWhile (· ≠ 59)).take 245

/-- The values of the `Set-Cookie: ` lines of a session, the last one first. -/
abbrev Heard := List (List Byte)

/-- The header that a session owes that has heard these values. -/
def promised (heard : Heard) : List Byte := bytes "Cookie: " ++ cut (heard.headD []) ++ [CR, LF]

/-- A session that is watched: what it has heard so far, and what it had heard when a call was first
issued while a cookie was there. -/
structure Watched where
  sess : Sess
  heard : Heard
  first : Nat → Option Heard

def Watched.fresh : Watched := ⟨Sess.fresh, [], fun _ => none⟩

def hear (heard : Heard) : Event → Heard
  | .recv_hdr line => if is_set_cookie line then line.drop 12 :: heard else heard
  | _ => heard

/-- The event issues the call `i` for the first time while a cookie is there. -/
def Watched.Installs (w : Watched) (ev : Event) (i : Nat) : Prop :=
  ev = .core_send i ∧ i < w.sess.calls.length ∧ w.first i = none ∧ 0 < w.sess.priv.cookie_len

instance (w : Watched) (ev : Event) (i : Nat) : Decidable (w.Installs ev i) :=
  inferInstanceAs (Decidable (_ ∧ _))

def Watched.mark (w : Watched) (ev : Event) (i : Nat) : Option Heard :=
  if w.Installs ev i then some w.heard else w.first i

def watch (opts : Options) (w : Watched) (ev : Event) : Option Watched :=
  (step opts w.sess ev).map fun sess => ⟨sess, hear w.heard ev, w.mark ev⟩

/-- A copy outside of the buffers ends the run. -/
def watch? (opts : Options) (w : Option Watched) (ev : Event) : Option Watched :=
  w.bind (watch opts · ev)

/-- Every call has the cookie header it is owed and no other, and no header was refused. -/
structure Stable (w : Watched) : Prop where
  installed : ∀ i (call : Call), w.sess.calls[i]? = some call →
    call.cookies = ((w.first i).map promised).toList
  accepted : ∀ call ∈ w.sess.calls, call.refused = 0

/-- No copy has left a buffer, and the headers are as they should be. -/
def Lawful (w : Option Watched) : Prop := ∃ w', w = some w' ∧ Stable w'

/-- The event leaves the cookie headers of all calls that have one as they are. -/
def Keeps (opts : Options) (w : Option Watched) (ev : Event) : Prop :=
  ∀ w₁ w₂ : Watched, w = some w₁ → watch opts w₁ ev = some w₂ → ∀ (i : Nat) (call : Call),
    w₁.sess.calls[i]? = some call → call.cookies ≠ [] →
      ∃ call' : Call, w₂.sess.calls[i]? = some call' ∧ call'.cookies = call.cookies

/-! ## The condition -/

/-- No NUL stands in front of a `;` that cuts the value. -/
def Plain (value : List Byte) : Prop := 0 ∉ value.takeWhile (· ≠ 59) ∨ 59 ∉ value.take 245

/-- The last line heard has a plain value. Where it has none at all, the last line that has a value
starts it with `;`. -/
def Faithful : Heard → Prop
  | [] => True
  | [] :: earlier => ∀ value, earlier.find? (· ≠ []) = some value → value.head? = some 59
  | value :: _ => Plain value

/-- A call that is now issued with a cookie for the first time gets the last one that was heard. -/
def Sound (w : Option Watched) (ev : Event) : Prop :=
  ∀ w' i, w = some w' → w'.Installs ev i → Faithful w'.heard

/-! ## The value -/

theorem strchr_cons {b c : Byte} (hc : c ≠ 0) (s : List Byte) :
    strchr (b :: s) c = if b = c then some 0 else if b = 0 then none
      else (strchr s c).map (· + 1) := by
  unfold strchr cstr
  by_cases h0 : b = 0
  · subst h0
    simp [Ne.symm hc]
  · rw [List.takeWhile_cons_of_pos (by simpa using h0), List.idxOf?_cons]
    simp [h0]

theorem takeWhile_of_strchr {c : Byte} (hc : c ≠ 0) {s : List Byte} {k : Nat}
    (h : strchr s c = some k) :
    s.takeWhile (· ≠ c) = s.take k ∧ 0 ∉ s.takeWhile (· ≠ c) := by
  induction s generalizing k with
  | nil => cases h
  | cons b s ih =>
    rw [strchr_cons hc] at h
    split at h
    · next hb =>
      cases h
      simp [hb]
    · next hb =>
      split at h
      · cases h
      · next h0 =>
        obtain ⟨j, hj, rfl⟩ := Option.map_eq_some_iff.mp h
        obtain ⟨htake, hnul⟩ := ih hj
        rw [List.takeWhile_cons_of_pos (by simpa using hb)]
        refine ⟨by rw [htake, List.take_succ_cons], ?_⟩
        rw [List.mem_cons]
        rintro (h | h)
        · exact h0 h.symm
        · exact hnul h

theorem takeWhile_of_strchr_none {c : Byte} (hc : c ≠ 0) {s : List Byte} (h : strchr s c = none)
    (hnul : 0 ∉ s.takeWhile (· ≠ c)) : s.takeWhile (· ≠ c) = s := by
  induction s with
  | nil => rfl
  | cons b s ih =>
    rw [strchr_cons hc] at h
    split at h
    · cases h
    · next hb =>
      rw [List.takeWhile_cons_of_pos (by simpa using hb)] at hnul ⊢
      rw [List.mem_cons, not_or] at hnul
      rw [if_neg (Ne.symm hnul.1)] at h
      rw [ih (Option.map_eq_none_iff.mp h) hnul.2]

/-- The value that `call_recv_hdr` takes. -/
def munched (value : List Byte) : List Byte := value.take (munch_len value)

theorem munch_len_eq (value : List Byte) :
    munch_len value = min ((strchr value 59).getD value.length) 245 := by
  unfold munch_len MAX_COOKIE_LEN
  dsimp only
  by_cases h : (strchr value 59).getD value.length + 10 ≥ 256
  · rw [if_pos h]
    omega
  · rw [if_neg h]
    omega

theorem munch_len_le (value : List Byte) : munch_len value ≤ 245 := by
  rw [munch_len_eq]
  exact min_le_right _ _

theorem strchr_le {value : List Byte} {k : Nat} (h : strchr value 59 = some k) :
    k ≤ value.length := by
  unfold strchr at h
  have hk := (List.idxOf?_eq_some_iff.mp h).1
  exact le_trans (le_of_lt hk) (List.takeWhile_sublist _).length_le

theorem munch_len_le_length (value : List Byte) : munch_len value ≤ value.length := by
  rw [munch_len_eq]
  cases h : strchr value 59 with
  | none => exact min_le_left _ _
  | some k => exact le_trans (min_le_left _ _) (strchr_le h)

/-- What the code takes is what is promised, exactly when the value is plain. -/
theorem munched_eq_cut_iff (value : List Byte) : munched value = cut value ↔ Plain value := by
  unfold munched cut Plain
  rw [munch_len_eq]
  cases h : strchr value 59 with
  | some k =>
    obtain ⟨htake, hnul⟩ := takeWhile_of_strchr (by decide) h
    rw [Option.getD_some, htake, List.take_take, min_comm]
    exact iff_of_true rfl (Or.inl (htake ▸ hnul))
  | none =>
    rw [Option.getD_none, min_comm, ← List.take_take, List.take_length]
    by_cases hnul : 0 ∈ value.takeWhile (· ≠ 59)
    · constructor
      · intro heq
        right
        rw [heq]
        intro hmem
        simpa using List.mem_takeWhile_imp (List.mem_of_mem_take hmem)
      · rintro (hno | hno)
        · exact absurd hnul hno
        · rw [List.take_takeWhile]
          symm
          rw [List.takeWhile_eq_self_iff]
          intro b hb
          rw [decide_eq_true_eq]
          rintro rfl
          exact hno hb
    · rw [takeWhile_of_strchr_none (by decide) h hnul]
      exact iff_of_true rfl (Or.inl (by rwa [takeWhile_of_strchr_none (by decide) h hnul] at hnul))

/-- An empty value is taken only where the `;` comes first. -/
theorem munched_eq_nil_iff {value : List Byte} (hvalue : value ≠ []) :
    munched value = [] ↔ value.head? = some 59 := by
  cases value with
  | nil => exact absurd rfl hvalue
  | cons b s =>
    unfold munched
    rw [munch_len_eq, strchr_cons (by decide), List.head?_cons, Option.some_inj]
    by_cases hb : b = 59
    · simp [hb]
    · rw [if_neg hb]
      split <;> simp [hb]

/-! ## The buffer of the session -/

theorem Buffer.memcpy_take (buf : Buffer) {pos : Nat} {src : List Byte}
    (h : pos + src.length ≤ MAX_COOKIE_LEN) :
    ∃ buf', buf.memcpy pos src = some buf' ∧
      buf'.mem.take (pos + src.length) = buf.mem.take pos ++ src := by
  refine ⟨_, dif_pos h, ?_⟩
  have hpos : (buf.mem.take pos).length = pos := by
    rw [List.length_take, buf.size]
    omega
  apply List.take_left'
  rw [List.length_append, hpos]

/-- The header of a cookie with this value, as `call_recv_hdr` writes it. -/
def header (value : List Byte) : List Byte := bytes "Cookie: " ++ munched value ++ [CR, LF]

theorem header_length (value : List Byte) : (header value).length = munch_len value + 10 := by
  have hlen : (munched value).length = munch_len value :=
    List.length_take_of_le (munch_len_le_length value)
  rw [header, List.length_append, List.length_append, hlen]
  rw [show (bytes "Cookie: ").length = 8 by decide, List.length_cons, List.length_singleton]
  omega

theorem is_set_cookie_cons (b : Byte) (s : List Byte) :
    is_set_cookie (b :: s) = (tolower b == 115 && strncaseeq s (bytes "et-cookie: ")) := by
  have hlit : (bytes "Set-Cookie: ").map tolower = 115 :: (bytes "et-cookie: ").map tolower := by
    decide
  unfold is_set_cookie strncaseeq
  rw [hlit, show (bytes "Set-Cookie: ").length = (bytes "et-cookie: ").length + 1 by decide]
  rw [List.take_succ_cons, List.map_cons]
  rfl

/-- The comparison of the first character apart from the rest. -/
theorem munches_iff (line : List Byte) :
    (tolower (line.headD 0) = 115 ∧ line.length > 12 ∧
      strncaseeq (line.drop 1) (bytes "et-cookie: ")) ↔
      is_set_cookie line ∧ line.drop 12 ≠ [] := by
  rw [Ne, List.drop_eq_nil_iff, not_le]
  cases line with
  | nil => simp
  | cons b s =>
    rw [is_set_cookie_cons, Bool.and_eq_true, beq_iff_eq, List.headD_cons, List.drop_one,
      List.tail_cons]
    exact ⟨fun h => ⟨⟨h.1, h.2.2⟩, h.2.1⟩, fun h => ⟨h.1.1, h.2, h.1.2⟩⟩

theorem call_recv_hdr_skips {priv : Sess_Private_Data} {line : List Byte}
    (h : ¬ (is_set_cookie line ∧ line.drop 12 ≠ [])) : call_recv_hdr priv line = some priv :=
  if_neg (mt (munches_iff line).mp h)

theorem call_recv_hdr_munches (priv : Sess_Private_Data) {line : List Byte}
    (h : is_set_cookie line ∧ line.drop 12 ≠ []) :
    ∃ priv', call_recv_hdr priv line = some priv' ∧
    priv'.cookie_len = (header (line.drop 12)).length ∧
      priv'.cookie.mem.take priv'.cookie_len = header (line.drop 12) := by
  have hle := munch_len_le (line.drop 12)
  have hlen : (munched (line.drop 12)).length = munch_len (line.drop 12) :=
    List.length_take_of_le (munch_len_le_length _)
  have hsize : (bytes "Cookie: ").length = 8 := by decide
  generalize hvalue : line.drop 12 = value at hle hlen
  obtain ⟨b₁, h₁, hb₁⟩ :=
    priv.cookie.memcpy_take (show 0 + (bytes "Cookie: ").length ≤ MAX_COOKIE_LEN by decide)
  obtain ⟨b₂, h₂, hb₂⟩ := b₁.memcpy_take (show 8 + (munched value).length ≤ MAX_COOKIE_LEN by
    rw [hlen, MAX_COOKIE_LEN]
    omega)
  obtain ⟨b₃, h₃, hb₃⟩ :=
    b₂.memcpy_take (show 8 + munch_len value + [CR, LF].length ≤ MAX_COOKIE_LEN by
      rw [List.length_cons, List.length_singleton, MAX_COOKIE_LEN]
      omega)
  obtain ⟨b₄, h₄, hb₄⟩ :=
    b₃.memcpy_take (show 10 + munch_len value + [(0 : Byte)].length ≤ MAX_COOKIE_LEN by
      rw [List.length_singleton, MAX_COOKIE_LEN]
      omega)
  refine ⟨⟨munch_len value + 10, b₄⟩, ?_, (header_length value).symm, ?_⟩
  · unfold call_recv_hdr
    rw [if_pos ((munches_iff line).mpr h), hvalue]
    dsimp only
    rw [show value.take (munch_len value) = munched value from rfl]
    simp only [Option.bind_eq_bind, h₁, h₂, h₃, h₄, Option.bind_some]
  · have hcut : b₄.mem.take (munch_len value + 10) =
        (b₃.mem.take (10 + munch_len value) ++ [0]).take (munch_len value + 10) := by
      rw [← hb₄, List.take_take, List.length_singleton, min_eq_left (by omega)]
    have hlen₃ : (b₃.mem.take (10 + munch_len value)).length = munch_len value + 10 := by
      rw [List.length_take, b₃.size, MAX_COOKIE_LEN]
      omega
    rw [hcut, List.take_left' hlen₃]
    rw [show 10 + munch_len value = 8 + munch_len value + [CR, LF].length by
      rw [List.length_cons, List.length_singleton]
      omega, hb₃]
    rw [hlen] at hb₂
    rw [hb₂]
    rw [hsize, Nat.zero_add] at hb₁
    rw [hb₁, List.take_zero, List.nil_append]
    rfl

/-! ## The headers of a call -/

/-- A call without a cookie, and with at most `n` other extra headers. -/
structure Unsent (n : Nat) (call : Call) : Prop where
  present : call.priv.cookie_present = false
  cookies : call.cookies = []
  slots : call.extra_hdrs.length ≤ n
  accepted : call.refused = 0

variable {n : Nat} {call : Call}

theorem Unsent.skip (h : Unsent n call) : Unsent (n + 1) call :=
  ⟨h.present, h.cookies, le_trans h.slots (Nat.le_succ n), h.accepted⟩

theorem append_of_lt (h : call.extra_hdrs.length < MAX_EXTRA_HEADERS) (hdr : Base) (len : Nat) :
    call_append_request_header call hdr len =
      { call with extra_hdrs := call.extra_hdrs ++ [⟨hdr, len⟩] } :=
  if_neg (not_le.mpr h)

theorem Unsent.append (h : Unsent n call) (hn : n < MAX_EXTRA_HEADERS) (b : List Byte) (len : Nat) :
    Unsent (n + 1) (call_append_request_header call (.text b) len) := by
  rw [append_of_lt (lt_of_le_of_lt h.slots hn)]
  refine ⟨h.present, ?_, ?_, h.accepted⟩
  · have hold := h.cookies
    unfold Call.cookies at hold ⊢
    rw [List.map_eq_nil_iff] at hold ⊢
    rw [List.filter_append, hold]
    rfl
  · rw [List.length_append, List.length_singleton]
    exact Nat.succ_le_succ h.slots

/-- The options fill two places at most, and the contents of a request one more. -/
theorem issue_calls_unsent (opts : Options) (contents_len : Nat) (extra_hdrs : List Byte) :
    Unsent 3 (issue_calls opts contents_len extra_hdrs) := by
  have hzero : Unsent 0 ⟨⟨false, Buffer.zero⟩, [], 0⟩ := ⟨rfl, rfl, le_rfl, rfl⟩
  have hnew : Unsent 2 (call_new opts) := by
    unfold call_new call_created
    dsimp only
    by_cases hextra : opts.extra.length > 0
    · rw [if_pos hextra]
      have h := hzero.append (by decide) opts.extra opts.extra.length
      split
      · exact h.append (by decide) _ _
      · exact h.skip
    · rw [if_neg hextra]
      split
      · exact hzero.skip.append (by decide) _ _
      · exact hzero.skip.skip
  unfold issue_calls
  dsimp only
  split
  · exact hnew.append (by decide) _ _
  · exact hnew.skip

/-- What the buffer of a session holds that has heard these values. -/
def held (heard : Heard) : List Byte :=
  match heard.find? (· ≠ []) with
  | none => []
  | some value => header value

/-- A call that was issued with a cookie when this had been heard. -/
structure Sent (heard : Heard) (call : Call) : Prop where
  present : call.priv.cookie_present = true
  cookies : call.cookies = [held heard]
  available : held heard ≠ []
  accepted : call.refused = 0

theorem held_length_le (heard : Heard) : (held heard).length ≤ 255 := by
  unfold held
  split
  · exact Nat.zero_le _
  · next value _ =>
    rw [header_length]
    have := munch_len_le value
    omega

/-- The session's buffer holds what it should. -/
structure Holds (heard : Heard) (priv : Sess_Private_Data) : Prop where
  len : priv.cookie_len = (held heard).length
  text : priv.cookie.mem.take priv.cookie_len = held heard

variable {heard : Heard} {priv : Sess_Private_Data}

theorem Holds.available_iff (h : Holds heard priv) : 0 < priv.cookie_len ↔ held heard ≠ [] := by
  rw [h.len, List.length_pos_iff]

theorem call_issue_present (h : call.priv.cookie_present = true) :
    call_issue priv call = some call := if_pos h

theorem call_issue_none (h : ¬ 0 < priv.cookie_len) : call_issue priv call = some call := by
  unfold call_issue
  rw [if_neg h]
  exact ite_self _

/-- The first issue with a cookie takes the last place at most. -/
theorem call_issue_sent (hpriv : Holds heard priv) (hcall : Unsent 3 call)
    (hlen : 0 < priv.cookie_len) :
    ∃ call', call_issue priv call = some call' ∧ Sent heard call' := by
  have hle : priv.cookie_len + 1 ≤ MAX_COOKIE_LEN := by
    rw [hpriv.len]
    exact Nat.succ_le_succ (held_length_le heard)
  have hread : (priv.cookie.mem.take (priv.cookie_len + 1)).length = priv.cookie_len + 1 := by
    rw [List.length_take, priv.cookie.size]
    exact min_eq_left hle
  obtain ⟨cookie, hcookie, htake⟩ := call.priv.cookie.memcpy_take
    (show 0 + (priv.cookie.mem.take (priv.cookie_len + 1)).length ≤ MAX_COOKIE_LEN by omega)
  have htext : cookie.mem.take priv.cookie_len = held heard := by
    have hshort : cookie.mem.take priv.cookie_len =
        (cookie.mem.take (priv.cookie_len + 1)).take priv.cookie_len := by
      rw [List.take_take, min_eq_left (Nat.le_succ _)]
    rw [hread, Nat.zero_add] at htake
    rw [hshort, htake, List.take_zero, List.nil_append, List.take_take, min_eq_left (Nat.le_succ _),
      hpriv.text]
  have hroom : call.extra_hdrs.length < MAX_EXTRA_HEADERS := Nat.lt_succ_of_le hcall.slots
  refine ⟨call_append_request_header { call with priv := ⟨true, cookie⟩ } .cookie priv.cookie_len,
    ?_, ?_⟩
  · unfold call_issue
    rw [hcall.present, if_neg Bool.false_ne_true, if_pos hlen, Buffer.read, if_pos hle]
    rw [Option.bind_eq_bind, Option.bind_some, hcookie]
    rfl
  · rw [append_of_lt (by exact hroom)]
    refine ⟨rfl, ?_, hpriv.available_iff.mp hlen, hcall.accepted⟩
    have hold := hcall.cookies
    unfold Call.cookies at hold ⊢
    rw [List.map_eq_nil_iff] at hold
    rw [List.filter_append, hold, List.nil_append]
    exact congrArg (fun text => [text]) htext

/-! ## What holds in every run -/

/-- What is known of a call, from what was heard when it was first issued with a cookie. -/
def CallInv : Option Heard → Call → Prop
  | none => Unsent 3
  | some heard => Sent heard

structure Inv (w : Watched) : Prop where
  priv : Holds w.heard w.sess.priv
  call : ∀ i call, w.sess.calls[i]? = some call → CallInv (w.first i) call
  unborn : ∀ i, w.sess.calls.length ≤ i → w.first i = none

theorem Inv.fresh : Inv Watched.fresh where
  priv := ⟨rfl, rfl⟩
  call _ _ h := by cases h
  unborn _ _ := rfl

variable {opts : Options} {w : Watched} {ev : Event}

theorem mark_eq (i : Nat) (h : ¬ w.Installs ev i) : w.mark ev i = w.first i := if_neg h

theorem mark_of_first {i : Nat} (h : w.first i = some heard) : w.mark ev i = some heard := by
  rw [mark_eq i, h]
  rintro ⟨_, _, hfirst, _⟩
  rw [h] at hfirst
  cases hfirst

theorem held_cons (value : List Byte) (heard : Heard) :
    held (value :: heard) = if value = [] then held heard else header value := by
  unfold held
  rw [List.find?_cons]
  by_cases h : value = []
  · simp [h]
  · simp [h]

theorem Inv.recv_hdr (h : Inv w) (line : List Byte) :
    ∃ w', watch opts w (.recv_hdr line) = some w' ∧ Inv w' := by
  have hmark (i : Nat) : w.mark (.recv_hdr line) i = w.first i := mark_eq i fun hno => by
    cases hno.1
  have hkeep (priv : Sess_Private_Data) (hcall : call_recv_hdr w.sess.priv line = some priv)
      (hpriv : Holds (hear w.heard (.recv_hdr line)) priv) :
      ∃ w', watch opts w (.recv_hdr line) = some w' ∧ Inv w' := by
    refine ⟨⟨{ w.sess with priv }, hear w.heard (.recv_hdr line), w.mark (.recv_hdr line)⟩, ?_,
      hpriv, ?_, ?_⟩
    · rw [watch, step, hcall]
      rfl
    · intro i call hi
      dsimp only
      rw [hmark]
      exact h.call i call hi
    · intro i hi
      dsimp only
      rw [hmark]
      exact h.unborn i hi
  have hhear : hear w.heard (.recv_hdr line) =
      if is_set_cookie line then line.drop 12 :: w.heard else w.heard := rfl
  by_cases hset : is_set_cookie line
  · rw [hhear, if_pos hset] at hkeep
    by_cases hvalue : line.drop 12 = []
    · apply hkeep w.sess.priv (call_recv_hdr_skips fun hno => hno.2 hvalue)
      rw [hvalue]
      constructor
      · rw [held_cons, if_pos rfl]
        exact h.priv.len
      · rw [held_cons, if_pos rfl]
        exact h.priv.text
    · obtain ⟨priv, hcall, hlen, htext⟩ := call_recv_hdr_munches w.sess.priv ⟨hset, hvalue⟩
      apply hkeep priv hcall
      constructor
      · rw [held_cons, if_neg hvalue]
        exact hlen
      · rw [held_cons, if_neg hvalue]
        exact htext
  · rw [hhear, if_neg hset] at hkeep
    exact hkeep w.sess.priv (call_recv_hdr_skips fun hno => hset hno.1) h.priv

theorem Inv.issue_calls (h : Inv w) (contents_len : Nat) (extra_hdrs : List Byte) :
    ∃ w', watch opts w (.issue_calls contents_len extra_hdrs) = some w' ∧ Inv w' := by
  have hmark (i : Nat) : w.mark (.issue_calls contents_len extra_hdrs) i = w.first i :=
    mark_eq i fun hno => by cases hno.1
  refine ⟨_, rfl, h.priv, ?_, ?_⟩
  · intro i call hi
    dsimp only at hi ⊢
    rw [hmark]
    by_cases hlt : i < w.sess.calls.length
    · rw [List.getElem?_append_left hlt] at hi
      exact h.call i call hi
    · rw [List.getElem?_append_right (not_lt.mp hlt), List.getElem?_singleton] at hi
      rw [h.unborn i (not_lt.mp hlt)]
      split at hi
      · cases hi
        exact issue_calls_unsent opts contents_len extra_hdrs
      · cases hi
  · intro i hi
    dsimp only at hi ⊢
    rw [List.length_append] at hi
    rw [hmark]
    exact h.unborn i (le_trans (Nat.le_add_right _ _) hi)

theorem Inv.core_send (h : Inv w) (i : Nat) :
    ∃ w', watch opts w (.core_send i) = some w' ∧ Inv w' := by
  have hmark (j : Nat) (hj : j ≠ i) : w.mark (.core_send i) j = w.first j :=
    mark_eq j fun hno => hj (by cases hno.1; rfl)
  cases hi : w.sess.calls[i]? with
  | none =>
    have hlen : w.sess.calls.length ≤ i := List.getElem?_eq_none_iff.mp hi
    have hall : w.mark (.core_send i) = w.first := by
      funext j
      by_cases hj : j = i
      · subst hj
        exact mark_eq j fun hno => absurd hno.2.1 (not_lt.mpr hlen)
      · exact hmark j hj
    refine ⟨⟨w.sess, w.heard, w.mark (.core_send i)⟩, ?_, h.priv, ?_, ?_⟩
    · rw [watch, step, hi]
      rfl
    · rw [hall]
      exact h.call
    · rw [hall]
      exact h.unborn
  | some call =>
    have hlt : i < w.sess.calls.length := (List.getElem?_eq_some_iff.mp hi).1
    have hcall := h.call i call hi
    -- the call that is left, and what is known of it
    have hissue : ∃ call', call_issue w.sess.priv call = some call' ∧
        CallInv (w.mark (.core_send i) i) call' := by
      cases hfirst : w.first i with
      | some heard =>
        rw [hfirst] at hcall
        rw [mark_of_first hfirst]
        exact ⟨call, call_issue_present hcall.present, hcall⟩
      | none =>
        rw [hfirst] at hcall
        by_cases hlen : 0 < w.sess.priv.cookie_len
        · rw [Watched.mark, if_pos ⟨rfl, hlt, hfirst, hlen⟩]
          exact call_issue_sent h.priv hcall hlen
        · rw [mark_eq i fun hno => hlen hno.2.2.2, hfirst]
          exact ⟨call, call_issue_none hlen, hcall⟩
    obtain ⟨call', hcall', hinv⟩ := hissue
    refine ⟨⟨{ w.sess with calls := w.sess.calls.set i call' }, w.heard, w.mark (.core_send i)⟩, ?_,
      h.priv, ?_, ?_⟩
    · rw [watch, step, hi]
      dsimp only
      rw [hcall']
      rfl
    · intro j other hj
      dsimp only at hj ⊢
      by_cases hji : j = i
      · subst hji
        rw [List.getElem?_set_self hlt] at hj
        cases hj
        exact hinv
      · rw [List.getElem?_set_ne (Ne.symm hji)] at hj
        rw [hmark j hji]
        exact h.call j other hj
    · intro j hj
      dsimp only at hj ⊢
      rw [List.length_set] at hj
      rw [hmark j (by omega)]
      exact h.unborn j hj

/-- No event leads outside of the buffers, and every event keeps the invariant. -/
theorem Inv.step (opts : Options) (h : Inv w) (ev : Event) :
    ∃ w', watch opts w ev = some w' ∧ Inv w' := by
  cases ev with
  | issue_calls contents_len extra_hdrs => exact h.issue_calls contents_len extra_hdrs
  | core_send i => exact h.core_send i
  | recv_hdr line => exact h.recv_hdr line

theorem watch_spec {w' : Watched} (h : watch opts w ev = some w') :
    w'.heard = hear w.heard ev ∧ w'.first = w.mark ev := by
  obtain ⟨sess, _, rfl⟩ := Option.map_eq_some_iff.mp h
  exact ⟨rfl, rfl⟩

/-! ## When the headers are as promised -/

theorem held_eq_promised_iff (h : held heard ≠ []) :
    held heard = promised heard ↔ Faithful heard := by
  have hwrap (a b : List Byte) : bytes "Cookie: " ++ a ++ [CR, LF] =
      bytes "Cookie: " ++ b ++ [CR, LF] ↔ a = b := by
    rw [List.append_left_inj, List.append_right_inj]
  cases heard with
  | nil => exact absurd rfl h
  | cons value earlier =>
    unfold promised
    rw [held_cons, List.headD_cons] at *
    by_cases hvalue : value = []
    · subst hvalue
      rw [if_pos rfl] at *
      unfold held Faithful at *
      cases hfind : earlier.find? (· ≠ []) with
      | none =>
        rw [hfind] at h
        exact absurd rfl h
      | some old =>
        have hold : old ≠ [] := by simpa using List.find?_some hfind
        dsimp only
        rw [header, hwrap, show cut [] = [] from rfl, munched_eq_nil_iff hold]
        exact ⟨fun h value hv => Option.some_inj.mp (hfind.symm.trans hv) ▸ h, fun h => h old hfind⟩
    · rw [if_neg hvalue, header, hwrap, munched_eq_cut_iff]
      cases value with
      | nil => exact absurd rfl hvalue
      | cons b s => exact Iff.rfl

theorem Inv.stable_iff (h : Inv w) : Stable w ↔ ∀ i heard, w.first i = some heard →
    Faithful heard := by
  constructor
  · intro hstable i heard hfirst
    have hlt : i < w.sess.calls.length := by
      by_contra hno
      rw [h.unborn i (not_lt.mp hno)] at hfirst
      cases hfirst
    have hi : w.sess.calls[i]? = some w.sess.calls[i] := List.getElem?_eq_getElem hlt
    have hsent := h.call i _ hi
    have hcookies := hstable.installed i _ hi
    rw [hfirst] at hsent hcookies
    rw [hsent.cookies] at hcookies
    exact (held_eq_promised_iff hsent.available).mp (List.singleton_inj.mp hcookies)
  · intro hfaithful
    constructor
    · intro i call hi
      have hcall := h.call i call hi
      cases hfirst : w.first i with
      | none =>
        rw [hfirst] at hcall
        exact hcall.cookies
      | some heard =>
        rw [hfirst] at hcall
        rw [hcall.cookies, (held_eq_promised_iff hcall.available).mpr (hfaithful i heard hfirst)]
        rfl
    · intro call hmem
      obtain ⟨i, hi⟩ := List.mem_iff_getElem?.mp hmem
      have hcall := h.call i call hi
      cases hfirst : w.first i with
      | none =>
        rw [hfirst] at hcall
        exact hcall.accepted
      | some heard =>
        rw [hfirst] at hcall
        exact hcall.accepted

theorem Inv.stable_step_iff {w' : Watched} (h : Inv w) (h' : Inv w')
    (hw : watch opts w ev = some w') (hstable : Stable w) : Stable w' ↔ ∀ i, w.Installs ev i →
    Faithful w.heard := by
  rw [h'.stable_iff, (watch_spec hw).2]
  have hold := h.stable_iff.mp hstable
  constructor
  · intro hall i hi
    exact hall i w.heard (if_pos hi)
  · intro hall i heard hmark
    by_cases hi : w.Installs ev i
    · rw [Watched.mark, if_pos hi] at hmark
      cases hmark
      exact hall i hi
    · rw [mark_eq i hi] at hmark
      exact hold i heard hmark

theorem Inv.keeps (h : Inv w) (ev : Event) : Keeps opts (some w) ev := by
  intro w₁ w₂ hw₁ hw₂ i call hi hcookies
  cases hw₁
  obtain ⟨w', hw', hinv⟩ := h.step opts ev
  rw [hw₂] at hw'
  cases hw'
  have hcall := h.call i call hi
  cases hfirst : w.first i with
  | none =>
    rw [hfirst] at hcall
    exact absurd hcall.cookies hcookies
  | some heard =>
    rw [hfirst] at hcall
    have hmark : w₂.first i = some heard := by
      rw [(watch_spec hw₂).2]
      exact mark_of_first hfirst
    have hlt : i < w₂.sess.calls.length := by
      by_contra hno
      rw [hinv.unborn i (not_lt.mp hno)] at hmark
      cases hmark
    have hi' : w₂.sess.calls[i]? = some w₂.sess.calls[i] := List.getElem?_eq_getElem hlt
    have hsent := hinv.call i _ hi'
    rw [hmark] at hsent
    exact ⟨_, hi', hsent.cookies.trans hcall.cookies.symm⟩

/-- What holds behind every step. -/
def Inv? (w : Option Watched) : Prop := ∃ w', w = some w' ∧ Inv w'

theorem Inv?.step (opts : Options) {w : Option Watched} (h : Inv? w) (ev : Event) :
    Inv? (watch? opts w ev) := by
  obtain ⟨w, rfl, hinv⟩ := h
  exact hinv.step opts ev

/-- Cookies are stable exactly in those runs in which every call gets its cookie behind a plain
line. -/
theorem cookies_stable_iff (opts : Options) (evs : List Event) :
    (Always (watch? opts) Lawful (some .fresh) evs ∧
      Meets (watch? opts) (Keeps opts) (some .fresh) evs) ↔
      Meets (watch? opts) Sound (some .fresh) evs := by
  have hkeeps : Meets (watch? opts) (Keeps opts) (some .fresh) evs := by
    apply Meets.imp (Q := Inv?) (C := fun _ _ => True)
    · rintro _ ev ⟨w, rfl, hinv⟩ _
      exact hinv.keeps ev
    · exact fun _ ev h _ => h.step opts ev
    · exact ⟨_, rfl, Inv.fresh⟩
    · exact meets_iff_forall.mpr fun _ _ => trivial
  rw [and_iff_left hkeeps]
  apply always_iff_meets (I := Inv?)
  · exact fun _ ev h => h.step opts ev
  · rintro _ ev ⟨w, rfl, hinv⟩ ⟨w₁, hw₁, hstable⟩
    cases hw₁
    obtain ⟨w', hw', hinv'⟩ := hinv.step opts ev
    have hiff := hinv.stable_step_iff hinv' hw' hstable
    rw [show watch? opts (some w) ev = some w' from hw']
    constructor
    · rintro ⟨w₂, hw₂, hstable'⟩ w₁ i hw₁ hi
      cases hw₂
      cases hw₁
      exact hiff.mp hstable' i hi
    · intro hsound
      exact ⟨w', rfl, hiff.mpr fun i hi => hsound w i rfl hi⟩
  · exact ⟨_, rfl, Inv.fresh⟩
  · exact ⟨_, rfl, Inv.fresh.stable_iff.mpr fun _ _ h => by cases h⟩

/-- The line that has `a`, a NUL and `; b`: `strchr` stops in front of the `;`, and the whole line
is the value. -/
theorem a_nul_hides_the_semicolon :
    ¬ Always (watch? ⟨[], []⟩) Lawful (some .fresh)
      [.recv_hdr (bytes "Set-Cookie: a" ++ 0 :: bytes "; b"), .issue_calls 0 [], .core_send 0] := by
  intro h
  obtain ⟨w, hw, hstable⟩ := h.last
  have hcookies : (some w).map (fun w => w.sess.calls.map Call.cookies) =
      some [[bytes "Cookie: a" ++ 0 :: bytes "; b" ++ [CR, LF]]] := by
    rw [← hw]
    decide +kernel
  have hpromised : (some w).map (fun w => (w.first 0).map promised) =
      some (some (bytes "Cookie: a" ++ 0 :: [CR, LF])) := by
    rw [← hw]
    decide +kernel
  obtain ⟨call, hcalls, hcall⟩ := List.map_eq_singleton_iff.mp (Option.some_inj.mp hcookies)
  rw [Option.map_some, Option.some_inj] at hpromised
  have hinstalled := hstable.installed 0 call (by rw [hcalls]; rfl)
  rw [hcall, hpromised] at hinstalled
  exact absurd hinstalled (by decide +kernel)

end Httperf.Cookies
