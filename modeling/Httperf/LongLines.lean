-- Lines that are longer than the line buffer. `get_line` ends a line when the buffer is full, and
-- drops what it sees of the rest: up to the LF if it is in the same read, and else only to the end
-- of the read.
import Httperf.Lib.Lines
import Httperf.RecvDecodes

namespace Httperf

open Lib

/-- The states in which the parser reads lines. -/
def Rx.AtLine (r : Rx) : Prop :=
  Decoder.reading r.s.state = true ∧ Decoder.lineMode r.s r.c = true

instance (r : Rx) : Decidable r.AtLine := inferInstanceAs (Decidable (_ ∧ _))

/-- No handler closes the connection because of raw data (those of `print_reply.c` print them). -/
def Handlers.KeepRaw (h : Handlers) : Prop :=
  ∀ log id data, h.closes (log ++ [.EV_CALL_RECV_RAW_DATA id data]) = false

/-- The next line that the parser gets from these reads, and what is left of them behind it. A read
that does not complete the line is processed, and the line goes on in the next read. -/
def nextLine (h : Handlers) : Rx → List (List Byte) → Option (List Byte × List Byte)
  | _, [] => none
  | r, buf :: bufs =>
    let p := get_line { r with buf }
    if p.1 then some (p.2.s.line, p.2.buf ++ bufs.flatten)
    else
      match http_process_reply_bytes h { r with buf } with
      | .error _ => none
      | .ok r' => nextLine h r' bufs

/-- The read in which a line of `len` bytes fills the line buffer brings the end of the line also,
and no NUL in it hides the LF, unless the read ends there. `n` bytes came with earlier reads. -/
def EndsInTime (len : Nat) : Nat → List (List Byte) → Prop
  | _, [] => False
  | n, buf :: bufs =>
    if n + buf.length < MAX_HDR_LINE_LEN - 1 then EndsInTime len (n + buf.length) bufs
    else len ≤ n + buf.length ∧ (0 ∉ buf.take (len - n) ∨ len = n + buf.length)

instance decidableEndsInTime (len : Nat) : ∀ n bufs, Decidable (EndsInTime len n bufs)
  | _, [] => .isFalse id
  | n, buf :: bufs =>
    have := decidableEndsInTime len (n + buf.length) bufs
    inferInstanceAs (Decidable (if n + buf.length < MAX_HDR_LINE_LEN - 1 then
      EndsInTime len (n + buf.length) bufs else
      len ≤ n + buf.length ∧ (0 ∉ buf.take (len - n) ∨ len = n + buf.length)))

/-! ## A part of a line -/

/-- A part of a line is stored, whatever line it is. -/
theorem http_process_part {h : Handlers} (hraw : h.KeepRaw) {r : Rx} (hr : r.AtLine)
    (hb : r.buf ≠ []) (hlf : LF ∉ r.buf)
    (hlen : (r.s.line ++ r.buf).length < MAX_HDR_LINE_LEN - 1) :
    ∃ r', http_process_reply_bytes h r = .ok r' ∧ r'.s.line = r.s.line ++ r.buf ∧ r'.AtLine := by
  have hsame : event_signal h (.EV_CALL_RECV_RAW_DATA r.c.id r.buf) r =
      { r with log := r.log ++ [.EV_CALL_RECV_RAW_DATA r.c.id r.buf] } := by
    unfold event_signal
    dsimp only
    rw [hraw]
    rfl
  unfold http_process_reply_bytes
  rw [hsame]
  generalize r.log ++ [.EV_CALL_RECV_RAW_DATA r.c.id r.buf] = log
  have hget := get_line_part (r := { r with log }) hb hlf hlen
  obtain ⟨hreading, hmode⟩ := hr
  have hone : ∃ r1, http_switch h { r with log } = .ok (some r1) ∧ r1.buf = [] ∧
      r1.s.line = r.s.line ++ r.buf ∧ r1.AtLine := by
    unfold Rx.AtLine
    unfold http_switch
    cases hst : r.s.state <;> simp only [hst, Decoder.reading, Bool.false_eq_true] at hreading ⊢
    case S_REPLY_STATUS =>
      have hget' :=
        get_line_part (r := { r with log, s.is_chunked := false, s.content_length := SIZE_MAX })
        hb hlf hlen
      refine ⟨_, rfl, ?_⟩
      unfold parse_status_line
      dsimp only
      rw [if_pos (by rw [hget']), hget']
      exact ⟨rfl, rfl, by simp [hst], by simp [Decoder.lineMode, hst]⟩
    case S_REPLY_HEADER =>
      refine ⟨_, rfl, ?_⟩
      unfold parse_headers
      rw [parse_headers_loop]
      simp only [hget, if_true]
      exact ⟨trivial, trivial, by simp [hst], by simp [Decoder.lineMode, hst]⟩
    case S_REPLY_CONTINUE =>
      refine ⟨_, rfl, ?_⟩
      unfold parse_headers
      rw [parse_headers_loop]
      simp only [hget, if_true]
      exact ⟨trivial, trivial, by simp [hst], by simp [Decoder.lineMode, hst]⟩
    case S_REPLY_FOOTER =>
      refine ⟨_, rfl, ?_⟩
      unfold parse_footers
      rw [parse_footers_loop]
      simp only [hget, if_true]
      exact ⟨trivial, trivial, by simp [hst], by simp [Decoder.lineMode, hst]⟩
    case S_REPLY_CHUNKED =>
      have hsize : r.s.content_length ≤ r.c.reply.content_bytes := by
        simpa [Decoder.lineMode, hst] using hmode
      refine ⟨_, rfl, ?_⟩
      rw [xfer_chunked]
      simp only [hb, hst, hsize, hget, ConnState.closing, Bool.false_eq_true, or_self, if_false,
        if_true]
      exact ⟨trivial, trivial, by simp, by simp [Decoder.lineMode, hsize]⟩
    case S_REPLY_DATA =>
      simp [Decoder.lineMode, hst] at hmode
  obtain ⟨r1, hswitch, hbuf, hline, hat⟩ := hone
  refine ⟨r1, ?_, hline, hat⟩
  rw [http_process_loop_some hswitch, if_neg (fun hc => hc.1 hbuf)]

/-! ## The read that fills the line buffer -/

/-- The line has the first 1023 bytes, and the read is dropped up to its first LF, or to its end. -/
theorem get_line_full {r : Rx} (hlf : LF ∉ (r.s.line ++ r.buf).take (MAX_HDR_LINE_LEN - 1))
    (hroom : r.s.line.length < MAX_HDR_LINE_LEN - 1)
    (hfull : MAX_HDR_LINE_LEN - 1 ≤ r.s.line.length + eol r.buf) :
    get_line r = (true, { r with
      buf := r.buf.drop (eol r.buf)
      s.line := (r.s.line ++ r.buf).take (MAX_HDR_LINE_LEN - 1) }) := by
  have hcopy : to_copy r.s.line r.buf = MAX_HDR_LINE_LEN - 1 - r.s.line.length := by
    unfold to_copy MAX_HDR_LINE_LEN at *
    split <;> omega
  have hline : r.s.line ++ r.buf.take (to_copy r.s.line r.buf) =
      (r.s.line ++ r.buf).take (MAX_HDR_LINE_LEN - 1) := by
    rw [hcopy, List.take_append, List.take_of_length_le (Nat.le_of_lt hroom)]
  have hne : r.buf ≠ [] := by
    intro he
    have := eol_le r.buf
    rw [he, List.length_nil] at this
    rw [he] at hfull
    omega
  have hlen : ((r.s.line ++ r.buf).take (MAX_HDR_LINE_LEN - 1)).length = MAX_HDR_LINE_LEN - 1 := by
    have := eol_le r.buf
    rw [List.length_take, List.length_append]
    omega
  have hchop : chop ((r.s.line ++ r.buf).take (MAX_HDR_LINE_LEN - 1)) =
      (r.s.line ++ r.buf).take (MAX_HDR_LINE_LEN - 1) := by
    unfold chop
    rw [if_neg]
    exact fun he => hlf (List.mem_of_getLast? he)
  unfold get_line
  simp only [hne, if_false, hline, hlen, hchop, decide_true, Bool.or_true, if_true]

/-! ## A long line -/

section
variable {line buf rest text tail : List Byte}

/-- What the line buffer and a read have of a line. -/
theorem take_of_flat (hflat : line ++ buf ++ rest = text ++ LF :: tail) {k : Nat}
    (hk : k ≤ line.length + buf.length) (hktext : k ≤ text.length) : (line ++ buf).take k =
      text.take k := by
  have htake := congrArg (List.take k) hflat
  rwa [List.take_append_of_le_length (by rwa [List.length_append]),
    List.take_append_of_le_length hktext] at htake

/-- The first LF of a read ends the line. -/
theorem seen_end (hflat : line ++ buf ++ rest = text ++ LF :: tail) (hline : LF ∉ line)
    (hlf : LF ∉ text) {i : Nat} (hget : buf[i]? = some LF) (hnoLF : LF ∉ buf.take i) :
    text.length = line.length + i ∧ buf.drop (i + 1) ++ rest = tail ∧
    buf.take (i + 1) = buf.take i ++ [LF] := by
  obtain ⟨hi, -⟩ := List.getElem?_eq_some_iff.mp hget
  have hsplit : buf.take (i + 1) = buf.take i ++ [LF] := by
    rw [List.take_add_one, hget]
    rfl
  have hcut : (line ++ buf.take i) ++ LF :: (buf.drop (i + 1) ++ rest) = text ++ LF :: tail := by
    rw [← hflat]
    conv_rhs => rw [← List.take_append_drop (i + 1) buf, hsplit]
    simp
  obtain ⟨htext, htail⟩ := append_sep_inj (by simp [hline, hnoLF]) hlf hcut
  refine ⟨?_, htail, hsplit⟩
  rw [← htext, List.length_append, List.length_take, Nat.min_eq_left (Nat.le_of_lt hi)]

/-- A read that reaches the end of the line has its LF. -/
theorem lf_in_read (hflat : line ++ buf ++ rest = text ++ LF :: tail) (hline : LF ∉ line)
    (hstart : line.length ≤ text.length + 1) (hle : text.length + 1 ≤ line.length + buf.length) :
    LF ∈ buf.take (text.length + 1 - line.length) := by
  have hall : (line ++ buf).take (text.length + 1) = text ++ [LF] := by
    have htake := congrArg (List.take (text.length + 1)) hflat
    rw [List.take_append_of_le_length (by rw [List.length_append]; omega)] at htake
    rw [htake, List.append_cons text LF tail, List.take_left' (by simp)]
  rw [List.take_append, List.take_of_length_le hstart] at hall
  have hmem : LF ∈ line ++ buf.take (text.length + 1 - line.length) := by
    rw [hall]
    simp
  exact (List.mem_append.mp hmem).resolve_left hline

end

section
variable {h : Handlers} {text tail : List Byte}

/-- What the parser makes of a long line of which it has a part. -/
theorem nextLine_iff (hraw : h.KeepRaw) (hlf : LF ∉ text)
    (hlong : MAX_HDR_LINE_LEN ≤ text.length + 1) {bufs : List (List Byte)}
    (hne : ∀ buf ∈ bufs, buf ≠ []) :
    ∀ r : Rx, r.AtLine → r.s.line.length < MAX_HDR_LINE_LEN - 1 →
      r.s.line ++ bufs.flatten = text ++ LF :: tail →
      (nextLine h r bufs = some (text.take (MAX_HDR_LINE_LEN - 1), tail) ↔
        EndsInTime (text.length + 1) r.s.line.length bufs) := by
  induction bufs with
  | nil =>
    intro r hr hroom hflat
    exact iff_of_false (by simp [nextLine]) (by simp [EndsInTime])
  | cons buf bufs ih =>
    intro r hr hroom hflat
    obtain ⟨hb, hbs⟩ := List.forall_mem_cons.mp hne
    rw [List.flatten_cons, ← List.append_assoc] at hflat
    have hlen : r.s.line.length + buf.length + bufs.flatten.length =
        text.length + 1 + tail.length := by
      have := congrArg List.length hflat
      simpa [Nat.add_assoc, Nat.add_comm, Nat.add_left_comm] using this
    unfold nextLine EndsInTime
    dsimp only
    by_cases hshort : r.s.line.length + buf.length < MAX_HDR_LINE_LEN - 1
    · -- the line goes on in the next read
      have hpart : r.s.line ++ buf = text.take (r.s.line.length + buf.length) := by
        rw [← take_of_flat hflat (Nat.le_refl _) (by omega), List.take_of_length_le (by simp)]
      have hnoLF : LF ∉ buf := by
        intro hmem
        apply hlf
        apply List.mem_of_mem_take (i := r.s.line.length + buf.length)
        rw [← hpart]
        exact List.mem_append_right _ hmem
      have hget := get_line_part (r := { r with buf }) hb hnoLF (by rwa [List.length_append])
      obtain ⟨r', hr', hline, hat⟩ := http_process_part (r := { r with buf }) hraw hr hb hnoLF
        (by rwa [List.length_append])
      dsimp only at hline
      rw [if_pos hshort, hget, if_neg (by simp), hr']
      have hnext := ih hbs r' hat (by rwa [hline, List.length_append]) (by rw [hline, hflat])
      rwa [hline, List.length_append] at hnext
    · -- the buffer is full
      have hlfirst : (r.s.line ++ buf).take (MAX_HDR_LINE_LEN - 1) =
          text.take (MAX_HDR_LINE_LEN - 1) :=
        take_of_flat hflat (by omega) (by unfold MAX_HDR_LINE_LEN at *; omega)
      have hget := get_line_full (r := { r with buf })
        (by rw [hlfirst]; exact fun hmem => hlf (List.mem_of_mem_take hmem)) hroom
      have hline : LF ∉ r.s.line := by
        have hpre :=
          take_of_flat (k := r.s.line.length) hflat (by omega)
            (by unfold MAX_HDR_LINE_LEN at *; omega)
        rw [List.take_left] at hpre
        rw [hpre]
        exact fun hmem => hlf (List.mem_of_mem_take hmem)
      rw [if_neg hshort]
      cases hstrchr : strchr_lf buf with
      | some i =>
        -- the LF is seen, and the line is dropped up to it
        obtain ⟨hget', hnoLF, hnoNUL⟩ := strchr_lf_some hstrchr
        have heol := eol_seen hstrchr
        obtain ⟨hlentext, htail, hsplit⟩ := seen_end hflat hline hlf hget' hnoLF
        obtain ⟨hi, -⟩ := List.getElem?_eq_some_iff.mp hget'
        rw [hget (by dsimp only; rw [heol]; omega), if_pos rfl, heol]
        dsimp only
        rw [hlfirst, htail]
        refine iff_of_true rfl ⟨by omega, .inl ?_⟩
        rw [show text.length + 1 - r.s.line.length = i + 1 by omega, hsplit]
        simp [hnoNUL, LF]
      | none =>
        -- no LF is seen, and the whole read is dropped
        have heol := eol_unseen hstrchr
        rw [hget (by dsimp only; rw [heol]; omega), if_pos rfl, heol]
        dsimp only
        rw [hlfirst, List.drop_length, List.nil_append]
        by_cases hend : text.length + 1 = r.s.line.length + buf.length
        · refine iff_of_true ?_ ⟨by omega, .inr hend⟩
          have htail : bufs.flatten = tail := by
            rw [List.append_cons text LF tail] at hflat
            exact List.append_inj_right' hflat (by omega)
          rw [htail]
        · refine iff_of_false ?_ ?_
          · intro heq
            rw [(Prod.mk.inj (Option.some.inj heq)).2] at hlen
            omega
          · rintro ⟨hle, hseen⟩
            have hmem := lf_in_read hflat hline (by unfold MAX_HDR_LINE_LEN at *; omega) hle
            exact (hseen.resolve_right hend) (strchr_lf_none hstrchr hmem)

/-- A long line counts as one line, and the next line begins behind it, exactly when the read that
fills the line buffer brings the end of the line also. -/
theorem long_line_is_one_line_iff (hraw : h.KeepRaw) {r : Rx} (hr : r.AtLine)
    (hline : r.s.line = []) (hlf : LF ∉ text) (hlong : MAX_HDR_LINE_LEN ≤ text.length + 1)
    {bufs : List (List Byte)} (hne : ∀ buf ∈ bufs, buf ≠ [])
    (hflat : bufs.flatten = text ++ LF :: tail) :
    nextLine h r bufs = some (text.take (MAX_HDR_LINE_LEN - 1), tail) ↔
      EndsInTime (text.length + 1) 0 bufs := by
  have hnext := nextLine_iff hraw hlf hlong hne r hr (by rw [hline]; decide)
    (by rw [hline, List.nil_append, hflat])
  rwa [hline, List.length_nil] at hnext

end

/-- The parser at the start of a header line. -/
def inHeader : Rx :=
  ⟨⟨.S_REPLY_HEADER, [], SIZE_MAX, true, false, [call_init 1 0x10001]⟩, call_init 1 0x10001, [], []⟩

theorem long_line_is_one_line_two_reads :
    nextLine ⟨fun _ => false, fun _ => 0⟩ inHeader
        [List.replicate 1000 65, List.replicate 100 65 ++ LF :: bytes "A: b\r\n"] =
      some ((List.replicate 1100 65).take (MAX_HDR_LINE_LEN - 1), bytes "A: b\r\n") :=
  (long_line_is_one_line_iff (fun _ _ _ => rfl) (by decide) rfl (by decide +kernel)
    (by decide +kernel) (by decide +kernel) (by decide +kernel)).mpr (by decide +kernel)

/-- The second read starts with the LF of a line that has filled the buffer, and it counts as an
empty line. -/
theorem the_end_of_a_long_line_is_an_empty_line :
    nextLine ⟨fun _ => false, fun _ => 0⟩ inHeader
      [List.replicate 1023 65, LF :: bytes "A: b\r\n"] ≠
        some ((List.replicate 1023 65).take (MAX_HDR_LINE_LEN - 1), bytes "A: b\r\n") ∧
      nextLine ⟨fun _ => false, fun _ => 0⟩ inHeader [LF :: bytes "A: b\r\n"] =
        some ([], bytes "A: b\r\n") := by
  decide +kernel

end Httperf
