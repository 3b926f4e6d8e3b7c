-- The printer of replies (`stat/print_reply.c`): what comes bit by bit is printed line by line.
import Httperf.Http
import Httperf.Lib.Lines
import Httperf.Lib.Search

namespace Httperf.PrintReply

open Lib

/-! ## Bytes and where they come from -/

/-- A byte that is given to `print_buf`. `inside` is not there in the source: it tells the bytes of
the pieces of a body from all others. A line feed ends lines, and is no byte of one. -/
structure Octet where
  val : Byte
  inside : Bool
  lf : val = LF → inside = false
  deriving DecidableEq

def NL : Octet := ⟨LF, false, fun _ => rfl⟩

def octet (inside : Bool) (b : Byte) : Octet := ⟨b, inside && b ≠ LF, fun h => by simp [h]⟩

def octets (inside : Bool) (s : List Byte) : List Octet := s.map (octet inside)

def vals (s : List Octet) : List Byte := s.map Octet.val

/-- The string at `s`, where a NUL ends it. -/
def text (s : List Octet) : List Octet := s.takeWhile fun o => o.val ≠ 0

/-! ## The line buffer -/

/-- `Call_Private_Data`. `line` is the first `len` bytes of the line buffer, which has room for
`size`. -/
structure Priv where
  done_with_reply_hdr : Bool
  size : Nat
  line : List Octet

/-- A line of the output. -/
structure Line where
  pre : List Byte
  id : Nat
  text : List Octet
  deriving DecidableEq

/-- `printf ("%s%ld:", prefix, call->id)`. -/
def tag (pre : List Byte) (id : Nat) : List Byte := pre ++ bytes (toString id) ++ bytes ":"

/-- What stands in the output. -/
def Line.show (l : Line) : List Byte := tag l.pre l.id ++ vals l.text ++ [LF]

/-- `printf ("%.*s", precision, s)`. A precision below zero is none. -/
def printf_s (precision : Int) (s : List Octet) : List Octet :=
  text (if precision < 0 then s else s.take precision.toNat)

/-- The same for the line buffer, that no NUL ends: `none` reads on behind it. -/
def printf_line (line : List Octet) : Option (List Octet) :=
  if 0 ≤ int_of line.length ∨ 0 ∈ vals line then some (printf_s (int_of line.length) line) else none

/-- What is printed of the bytes in the line buffer, where their line comes to its end. -/
def rest (line : List Octet) : Option (List Octet) :=
  if line = [] then some [] else printf_line line

def flush_print_buf (id : Nat) (pre : List Byte) (priv : Priv) : Option (List Line × Priv) :=
  if priv.line = [] then some ([], priv)
  else (printf_line priv.line).map fun text => ([⟨pre, id, text⟩], { priv with line := [] })

/-- The loop of `print_buf`, where `n` bytes are left up to `end`. The LF is looked for up to the
NUL behind `buf`. -/
def print_loop (id : Nat) (pre : List Byte) :
    Nat → List Octet → Nat → Priv → Option (List Line × Priv)
  | 0, _, _, priv => some ([], priv)
  | turns + 1, buf, n, priv =>
    if n = 0 then some ([], priv)
    else match strchr_lf (vals buf) with
      | some line_len => do
        let first ← rest priv.line
        let text := if line_len > 0 then printf_s (int_of line_len) buf else []
        let (lines, priv) ←
          print_loop id pre turns (buf.drop (line_len + 1)) (n - (line_len + 1))
            { priv with line := [] }
        some (⟨pre, id, first ++ text⟩ :: lines, priv)
      | none =>
        print_loop id pre turns (buf.drop n) 0
          { priv with
            size := max priv.size (priv.line.length + n)
            line := priv.line ++ buf.take n }

/-- The lines that are printed for the first `len` bytes of `buf`. -/
def print_buf (id : Nat) (pre : List Byte) (buf : List Octet) (len : Int) (priv : Priv) :
    Option (List Line × Priv) :=
  print_loop id pre len.toNat buf len.toNat priv

/-! ## The handlers -/

/-- `strstr (buf, word)`. -/
def strstr (buf word : List Byte) : Option Nat := find word (cstr buf)

def CRLFCRLF : List Byte := [CR, LF, CR, LF]

def LFLF : List Byte := [LF, LF]

/-- `eoh - buf`, and whether the reply header is done. -/
def end_of_header (buf : List Byte) (len : Nat) : Nat × Bool :=
  match strstr buf CRLFCRLF with
  | some i => (i + 4, true)
  | none =>
    match strstr buf LFLF with
    | some i => (i + 2, true)
    | none => (len, false)

/-- What `print_reply_hdr` passes to `print_buf` of the first `len` bytes of `buf`, and whether the
header is done. -/
def reply_hdr (buf : List Byte) (len : Int) (done : Bool) : List Byte × Bool :=
  if len ≤ 0 ∨ done then ([], done)
  else
    let (n, done) := end_of_header buf len.toNat
    (buf.take n, done)

def print_reply_hdr (id : Nat) (buf : List Octet) (len : Int) (priv : Priv) :
    Option (List Line × Priv) :=
  if len ≤ 0 ∨ priv.done_with_reply_hdr then some ([], priv)
  else
    let (n, done) := end_of_header (vals buf) len.toNat
    print_buf id (bytes "RH") buf (int_of n) { priv with done_with_reply_hdr := done }

/-- The handler of the bytes of one read, for the call that they belong to. -/
def recv_raw_data (id : Nat) (data : List Byte) (priv : Priv) : Option (List Line × Priv) :=
  print_reply_hdr id (octets false data) (int_of data.length) priv

/-- The body comes as the first bytes of what a read has left. -/
def recv_data (id : Nat) (data behind : List Byte) (priv : Priv) : Option (List Line × Priv) :=
  print_buf id (bytes "RB") (octets true data ++ octets false behind) (int_of data.length) priv

/-- The flush of `recv_stop`. -/
def recv_stop (id : Nat) (priv : Priv) : Option (List Line × Priv) :=
  flush_print_buf id (bytes "RB") priv

/-! ## Octets -/

section
variable {s t : List Octet}

theorem eq_nl {o : Octet} (h : o.val = LF) : o = NL := by
  rcases o with ⟨val, inside, lf⟩
  obtain rfl : inside = false := lf h
  obtain rfl : val = LF := h
  rfl

theorem mem_vals_lf : LF ∈ vals s ↔ NL ∈ s := by
  constructor
  · intro h
    obtain ⟨o, ho, hval⟩ := List.mem_map.mp h
    rwa [← eq_nl hval]
  · exact List.mem_map_of_mem

theorem not_mem_vals : 0 ∉ vals s ↔ ∀ o ∈ s, o.val ≠ 0 :=
  ⟨fun h _ ho hval => h (hval ▸ List.mem_map_of_mem ho),
    fun h hmem => (List.mem_map.mp hmem).elim fun o ho => h o ho.1 ho.2⟩

theorem vals_append (s t : List Octet) : vals (s ++ t) = vals s ++ vals t := List.map_append

theorem vals_nl (t : List Octet) : vals (NL :: t) = LF :: vals t := rfl

theorem vals_length (s : List Octet) : (vals s).length = s.length := List.length_map ..

theorem vals_take (s : List Octet) (n : Nat) : vals (s.take n) = (vals s).take n := List.map_take

theorem vals_octets (inside : Bool) (s : List Byte) : vals (octets inside s) = s := by
  unfold vals octets
  rw [List.map_map]
  exact List.map_id s

theorem text_eq (hnul : 0 ∉ vals s) : text s = s := by
  unfold text
  rw [List.takeWhile_eq_self_iff]
  intro o ho
  simpa using not_mem_vals.mp hnul o ho

theorem text_append (hnul : 0 ∉ vals s) (t : List Octet) : text (s ++ t) = s ++ text t := by
  unfold text
  apply List.takeWhile_append_of_pos
  intro o ho
  simpa using not_mem_vals.mp hnul o ho

theorem not_mem_text (s : List Octet) : 0 ∉ vals (text s) := by
  intro h
  obtain ⟨o, ho, hval⟩ := List.mem_map.mp h
  have hne := List.mem_takeWhile_imp ho
  simp [hval] at hne

/-- The bytes from the first NUL on. -/
def behind_nul (s : List Octet) : List Octet := s.dropWhile fun o => o.val ≠ 0

theorem text_append_behind_nul (s : List Octet) : text s ++ behind_nul s = s :=
  List.takeWhile_append_dropWhile

theorem behind_nul_eq (hnul : 0 ∉ vals s) : behind_nul s = [] := by
  have hwhole := text_append_behind_nul s
  rw [text_eq hnul] at hwhole
  exact List.append_right_eq_self.mp hwhole

theorem behind_nul_append (hnul : 0 ∉ vals s) (t : List Octet) :
    behind_nul (s ++ t) = behind_nul t := by
  have hwhole := text_append_behind_nul (s ++ t)
  rw [text_append hnul, List.append_assoc] at hwhole
  have hrest := List.append_cancel_left hwhole
  rw [← text_append_behind_nul t] at hrest
  rw [text_append_behind_nul] at hrest
  exact List.append_cancel_left (hrest.trans (text_append_behind_nul t).symm)

theorem behind_nul_head (hnul : 0 ∈ vals s) : ∃ o r, behind_nul s = o :: r ∧ o.val = 0 := by
  cases h : behind_nul s with
  | nil =>
    have hwhole := text_append_behind_nul s
    rw [h, List.append_nil] at hwhole
    rw [← hwhole] at hnul
    exact absurd hnul (not_mem_text s)
  | cons o r =>
    have hhead := List.head?_dropWhile_not (fun o : Octet => decide (o.val ≠ 0)) s
    have hdrop : s.dropWhile (fun o : Octet => decide (o.val ≠ 0)) = o :: r := h
    rw [hdrop] at hhead
    exact ⟨o, r, rfl, by simpa using hhead⟩

end

/-! ## The header -/

theorem end_of_header_le (b : List Byte) : (end_of_header b b.length).1 ≤ b.length := by
  have hfound {word : List Byte} {i : Nat} (h : strstr b word = some i) :
      i + word.length ≤ b.length := by
    obtain ⟨q, r, hqr, rfl⟩ := find_eq_some h
    have hlen : (cstr b).length ≤ b.length := (List.takeWhile_prefix _).length_le
    rw [hqr, List.length_append, List.length_append] at hlen
    omega
  unfold end_of_header
  cases hcrlf : strstr b CRLFCRLF with
  | some i => exact hfound hcrlf
  | none =>
    cases hlf : strstr b LFLF with
    | some i => exact hfound hlf
    | none => exact le_rfl

/-- What is printed is what `reply_hdr` gives. -/
theorem print_reply_hdr_eq (id : Nat) {buf : List Octet} (hfits : buf.length ≤ 8192) (priv : Priv)
    {passed : List Byte × Bool}
    (hpassed : reply_hdr (vals buf) (int_of buf.length) priv.done_with_reply_hdr = passed) :
    passed.1 <+: vals buf ∧ print_reply_hdr id buf (int_of buf.length) priv =
      print_buf id (bytes "RH") buf (int_of passed.1.length)
        { priv with done_with_reply_hdr := passed.2 } := by
  unfold reply_hdr at hpassed
  unfold print_reply_hdr
  split_ifs at hpassed ⊢
  · subst hpassed
    have hzero : (int_of ([] : List Byte).length).toNat = 0 := rfl
    refine ⟨List.nil_prefix, ?_⟩
    unfold print_buf
    dsimp only
    rw [hzero]
    rfl
  · have hlen : (int_of buf.length).toNat = (vals buf).length := by
      rw [int_of_eq (by omega), Int.toNat_natCast, vals_length]
    rw [hlen] at hpassed ⊢
    have hle := end_of_header_le (vals buf)
    rcases hend : end_of_header (vals buf) (vals buf).length with ⟨n, ended⟩
    rw [hend] at hpassed hle
    subst hpassed
    dsimp only
    rw [List.length_take_of_le hle]
    exact ⟨List.take_prefix _ _, rfl⟩

/-! ## What a turn prints -/

/-- What stands behind the bytes up to an LF. The last line of them, where it has no end, takes it
along. -/
def extra (data behind : List Octet) : List Octet :=
  if 0 ∈ vals data ∨ pending NL [] data = [] then []
  else match strchr_lf (vals behind) with
    | some i => behind.take (i + 1)
    | none => []

/-- What `print_buf` takes for lines of these bytes. What comes behind a NUL goes to the line
buffer. -/
def seen (data behind : List Octet) : List Octet := text data ++ extra data behind

/-- How the line at the start of `text` begins. -/
def start (line text : List Octet) : Option (List Octet) :=
  if NL ∈ text then rest line else some line

theorem nl_val_ne : 0 ∉ vals [NL] := by decide

theorem seen_line {s : List Octet} (hnul : 0 ∉ vals s) (data behind : List Octet) :
    seen (s ++ NL :: data) behind = s ++ NL :: seen data behind ∧
      behind_nul (s ++ NL :: data) = behind_nul data := by
  have hline : 0 ∉ vals (s ++ [NL]) := by
    rw [vals_append, List.mem_append]
    exact not_or.mpr ⟨hnul, nl_val_ne⟩
  have hmem : 0 ∈ vals (s ++ NL :: data) ↔ 0 ∈ vals data := by
    rw [List.append_cons, vals_append, List.mem_append, or_iff_right hline]
  have hextra : extra (s ++ NL :: data) behind = extra data behind := by
    unfold extra
    simp only [hmem, pending_append, pending_sep]
  constructor
  · unfold seen
    rw [hextra, List.append_cons s NL data, text_append hline, List.append_assoc, List.append_assoc,
      List.singleton_append]
  · rw [List.append_cons, behind_nul_append hline]

theorem seen_open {data behind : List Octet} (hnul : 0 ∉ vals data) (hlf : NL ∉ data)
    (hne : data ≠ []) :
    seen data behind = data ++ match strchr_lf (vals behind) with
      | some i => behind.take (i + 1)
      | none => [] := by
  have hopen : ¬ (0 ∈ vals data ∨ pending NL [] data = []) := by
    rw [pending_of_not_mem hlf, List.nil_append]
    exact not_or.mpr ⟨hnul, hne⟩
  unfold seen extra
  rw [if_neg hopen, text_eq hnul]

theorem seen_cut {data : List Octet} (hnul : 0 ∈ vals data) (behind : List Octet) :
    seen data behind = text data := by
  unfold seen extra
  rw [if_pos (.inl hnul), List.append_nil]

theorem printf_s_eq {n : Nat} (hn : n < 2 ^ 31) {s : List Octet} (hnul : 0 ∉ vals (s.take n)) :
    printf_s (int_of n) s = s.take n := by
  unfold printf_s
  rw [int_of_eq hn, if_neg (by omega), Int.toNat_natCast, text_eq hnul]

theorem print_loop_done (id : Nat) (pre : List Byte) (turns : Nat) (buf : List Octet)
    (priv : Priv) :
    print_loop id pre turns buf 0 priv = some ([], priv) := by
  cases turns with
  | zero => rfl
  | succ turns => exact if_pos rfl

/-- A turn that finds the end of the line `s`. -/
theorem print_loop_line (id : Nat) (pre : List Byte) {turns n : Nat} {buf s : List Octet}
    {priv : Priv} (hn : n ≠ 0) (hstrchr : strchr_lf (vals buf) = some s.length)
    (htake : buf.take s.length = s) (hnul : 0 ∉ vals s) (hlen : s.length < 2 ^ 31) :
    print_loop id pre (turns + 1) buf n priv = (rest priv.line).bind fun h =>
      (print_loop id pre turns (buf.drop (s.length + 1)) (n - (s.length + 1))
        { priv with line := [] }).map
        fun q => (⟨pre, id, h ++ s⟩ :: q.1, q.2) := by
  have htext : (if s.length > 0 then printf_s (int_of s.length) buf else []) = s := by
    split
    · rw [printf_s_eq hlen (by rwa [htake]), htake]
    · rename_i hzero
      exact (List.eq_nil_of_length_eq_zero (Nat.eq_zero_of_not_pos hzero)).symm
  rw [print_loop, if_neg hn, hstrchr]
  dsimp only
  rw [htext]
  cases rest priv.line with
  | none => rfl
  | some h =>
    rw [Option.bind_eq_bind, Option.bind_some, Option.bind_some]
    cases print_loop id pre turns (buf.drop (s.length + 1)) (n - (s.length + 1))
      { priv with line := [] } with
    | none => rfl
    | some q => rfl

/-- The lines that `e` ends, where the line buffer comes first, or nothing where it cannot be
printed. What has no end is in the line buffer then, and `kept` behind it. -/
def Prints (id : Nat) (pre : List Byte) (priv : Priv) (e kept : List Octet)
    (printed : Option (List Line × Priv)) : Prop :=
  match start priv.line e with
  | none => printed = none
  | some p => ∃ size, printed =
      some ((complete NL p e).map (Line.mk pre id),
        { priv with size := size, line := pending NL p e ++ kept })

/-- The line `s`, and what the turns behind it print. -/
theorem prints_line {id : Nat} {pre : List Byte} {turns n : Nat} {buf s e kept : List Octet}
    {priv : Priv} (hn : n ≠ 0) (hstrchr : strchr_lf (vals buf) = some s.length)
    (htake : buf.take s.length = s) (hlf : NL ∉ s) (hnul : 0 ∉ vals s) (hlen : s.length < 2 ^ 31)
    (hrest : Prints id pre { priv with line := [] } e kept
      (print_loop id pre turns (buf.drop (s.length + 1)) (n - (s.length + 1))
        { priv with line := [] })) :
    Prints id pre priv (s ++ NL :: e) kept (print_loop id pre (turns + 1) buf n priv) := by
  have hstart : start ([] : List Octet) e = some [] := by
    unfold start
    split
    · rfl
    · rfl
  unfold Prints at hrest
  dsimp only at hrest
  rw [hstart] at hrest
  obtain ⟨size, hsize⟩ := hrest
  have hmem : NL ∈ s ++ NL :: e := List.mem_append_right _ List.mem_cons_self
  unfold Prints start
  rw [if_pos hmem, print_loop_line id pre hn hstrchr htake hnul hlen, hsize]
  cases rest priv.line with
  | none => rfl
  | some p =>
    refine ⟨size, ?_⟩
    rw [complete_append, complete_of_not_mem hlf, pending_append, pending_of_not_mem hlf,
      complete_sep, pending_sep, List.nil_append]
    rfl

/-- A turn that finds no LF. -/
theorem prints_kept {id : Nat} {pre : List Byte} {turns n : Nat} {buf e kept : List Octet}
    {priv : Priv} (hn : n ≠ 0) (hnone : strchr_lf (vals buf) = none)
    (htake : buf.take n = e ++ kept) (hlf : NL ∉ e) :
    Prints id pre priv e kept (print_loop id pre (turns + 1) buf n priv) := by
  unfold Prints start
  rw [if_neg hlf, print_loop, if_neg hn, hnone]
  dsimp only
  rw [print_loop_done, htake, complete_of_not_mem hlf, pending_of_not_mem hlf, List.append_assoc]
  exact ⟨_, rfl⟩

/-- An LF that is found. -/
theorem strchr_lf_vals {s : List Octet} {j : Nat} (h : strchr_lf (vals s) = some j) :
    j < s.length ∧ s.take (j + 1) = s.take j ++ [NL] ∧ NL ∉ s.take j ∧ 0 ∉ vals (s.take j) := by
  obtain ⟨hget, hlf, hnul⟩ := strchr_lf_some h
  rw [← vals_take] at hlf hnul
  obtain ⟨o, hgeto, hval⟩ : ∃ o, s[j]? = some o ∧ o.val = LF := by
    unfold vals at hget
    rw [List.getElem?_map] at hget
    exact Option.map_eq_some_iff.mp hget
  obtain rfl := eq_nl hval
  obtain ⟨hj, -⟩ := List.getElem?_eq_some_iff.mp hgeto
  refine ⟨hj, ?_, mt mem_vals_lf.mpr hlf, hnul⟩
  rw [List.take_add_one, hgeto]
  rfl

/-- The bytes begin with a line. -/
theorem exists_line {data : List Octet} (hlf : NL ∈ text data) :
    ∃ s data', data = s ++ NL :: data' ∧ NL ∉ s ∧ 0 ∉ vals s := by
  obtain ⟨s, t, hst, hs⟩ := List.eq_append_cons_of_mem hlf
  refine ⟨s, t ++ behind_nul data, ?_, hs, fun hmem => ?_⟩
  · rw [← List.cons_append, ← List.append_assoc, ← hst, text_append_behind_nul]
  · apply not_mem_text data
    rw [hst, vals_append]
    exact List.mem_append_left _ hmem

/-- The line goes on behind a NUL, so that no LF is found. -/
theorem strchr_lf_cut {data : List Octet} (hlf : NL ∉ text data) (hnul : 0 ∈ vals data)
    (behind : List Octet) : strchr_lf (vals (data ++ behind)) = none := by
  obtain ⟨o, r, hkept, hval⟩ := behind_nul_head hnul
  have hzero : vals (o :: r ++ behind) = 0 :: vals (r ++ behind) := by
    rw [← hval]
    rfl
  conv_lhs => rw [← text_append_behind_nul data, hkept]
  rw [List.append_assoc, vals_append, strchr_lf_append (mt mem_vals_lf.mp hlf) (not_mem_text data),
    hzero]
  rfl

/-- The line that the bytes `data` have begun ends behind them. -/
theorem prints_behind {id : Nat} {pre : List Byte} {turns j : Nat} {data behind : List Octet}
    {priv : Priv} (hdata : data ≠ []) (hlf : NL ∉ data) (hnul : 0 ∉ vals data)
    (hbehind : strchr_lf (vals behind) = some j) (hlen : (data ++ behind).length < 2 ^ 31) :
    Prints id pre priv (data ++ behind.take (j + 1)) []
      (print_loop id pre (turns + 1) (data ++ behind) data.length priv) := by
  obtain ⟨hj, htake, hjlf, hjnul⟩ := strchr_lf_vals hbehind
  have hlength : (data ++ behind.take j).length = data.length + j := by
    rw [List.length_append, List.length_take_of_le (Nat.le_of_lt hj)]
  have hall := strchr_lf_append (mt mem_vals_lf.mp hlf) hnul (vals behind)
  rw [← vals_append, hbehind, Option.map_some] at hall
  rw [List.length_append] at hlen
  rw [htake, ← List.append_assoc]
  apply prints_line (mt List.eq_nil_of_length_eq_zero hdata) (by rw [hall, hlength, vals_length])
  · rw [hlength, List.take_length_add_append]
  · exact fun hmem => (List.mem_append.mp hmem).elim hlf hjlf
  · rw [vals_append]
    exact fun hmem => (List.mem_append.mp hmem).elim hnul hjnul
  · omega
  · rw [Nat.sub_eq_zero_of_le (by omega), print_loop_done]
    refine ⟨priv.size, ?_⟩
    rw [List.append_nil]
    rfl

theorem prints_nothing (id : Nat) (pre : List Byte) (turns : Nat) (behind : List Octet)
    (priv : Priv) :
    Prints id pre priv (seen [] behind) (behind_nul [])
      (print_loop id pre turns ([] ++ behind) 0 priv) := by
  rw [print_loop_done]
  refine ⟨priv.size, ?_⟩
  rw [show seen [] behind = [] from rfl, show behind_nul [] = [] from rfl, List.append_nil]
  rfl

/-- The turns of the loop, for bytes that a receive buffer holds. -/
theorem print_loop_spec (id : Nat) (pre : List Byte) {turns : Nat} {data behind : List Octet}
    {priv : Priv} (hturns : data.length ≤ turns) (hlen : (data ++ behind).length < 2 ^ 31) :
    Prints id pre priv (seen data behind) (behind_nul data)
      (print_loop id pre turns (data ++ behind) data.length priv) := by
  induction turns generalizing data priv with
  | zero =>
    obtain rfl := List.eq_nil_of_length_eq_zero (Nat.le_zero.mp hturns)
    exact prints_nothing id pre 0 behind priv
  | succ turns ih =>
    by_cases hdata : data = []
    · subst hdata
      exact prints_nothing id pre (turns + 1) behind priv
    have hn : data.length ≠ 0 := mt List.eq_nil_of_length_eq_zero hdata
    by_cases hlf : NL ∈ text data
    · obtain ⟨s, data', rfl, hs, hs0⟩ := exists_line hlf
      obtain ⟨hseen, hkept⟩ := seen_line hs0 data' behind
      rw [List.append_assoc, List.cons_append] at hlen ⊢
      rw [List.length_append, List.length_cons] at hturns hlen
      rw [hseen, hkept]
      apply prints_line hn _ List.take_left hs hs0 (by omega)
      · have hdrop : (s ++ NL :: (data' ++ behind)).drop (s.length + 1) = data' ++ behind := by
          rw [← List.drop_drop, List.drop_left]
          rfl
        have hleft : (s ++ NL :: data').length - (s.length + 1) = data'.length := by
          rw [List.length_append, List.length_cons]
          omega
        rw [hdrop, hleft]
        exact ih (by omega) (by omega)
      · rw [vals_append, vals_nl, strchr_lf_line (mt mem_vals_lf.mp hs) hs0, vals_length]
    by_cases hnul : 0 ∈ vals data
    · rw [seen_cut hnul]
      apply prints_kept hn (strchr_lf_cut hlf hnul behind) _ hlf
      rw [List.take_left, text_append_behind_nul]
    rw [text_eq hnul] at hlf
    rw [seen_open hnul hlf hdata, behind_nul_eq hnul]
    cases hbehind : strchr_lf (vals behind) with
    | none =>
      have hnone := strchr_lf_append (mt mem_vals_lf.mp hlf) hnul (vals behind)
      rw [← vals_append, hbehind, Option.map_none] at hnone
      dsimp only
      rw [List.append_nil]
      apply prints_kept hn hnone _ hlf
      rw [List.take_left, List.append_nil]
    | some j => exact prints_behind hdata hlf hnul hbehind hlen

theorem print_buf_spec (id : Nat) (pre : List Byte) {data behind : List Octet} {len : Int}
    (priv : Priv) (hdata : len.toNat = data.length) (hlen : (data ++ behind).length < 2 ^ 31) :
    Prints id pre priv (seen data behind) (behind_nul data)
      (print_buf id pre (data ++ behind) len priv) := by
  unfold print_buf
  rw [hdata]
  exact print_loop_spec id pre le_rfl hlen

end Httperf.PrintReply
