-- Decoding undoes encoding. The decoder reads a reply line by line; each part of the reply has
-- a run of its own, and the runs follow each other.
import Httperf.RecvDecodes
import Httperf.ReplyWire

namespace Httperf

open Resume

/-! ## What a reply signals -/

/-- The counters at the end of the reply, without the header count. -/
def WireReply.reply (w : WireReply) : Reply where
  status := w.status
  version := (0x10000 * w.line.major.u_int + w.line.minor.u_int) % 2 ^ 32
  header_bytes := 0
  content_bytes := UInt64.ofNat w.framing.body.length
  footer_bytes := UInt64.ofNat w.framing.footer.length

def dataEvents (id : Nat) (body : List Byte) : List Event :=
  if body = [] then [] else [.EV_CALL_RECV_DATA id body]

/-- The events of a reply to the call `id`: the status, the header lines, the body in one
piece, the trailer lines, and the end. -/
def WireReply.events (w : WireReply) (id : Nat) : List Event :=
  .EV_CALL_RECV_START id w.status :: (w.headers.map (.EV_CALL_RECV_HDR id) ++
    (dataEvents id w.framing.body ++ (w.framing.trailers.map (.EV_CALL_RECV_FOOTER id) ++
      [.EV_CALL_RECV_STOP id w.reply])))

/-- The events of replies to the calls in order. -/
def streamEvents : List WireReply → List Call → List Event
  | w :: ws, c :: cs => w.events c.id ++ streamEvents ws cs
  | _, _ => []

/-! ## One line -/

theorem lineFits_crlf {text : List Byte} (ok : LineText text) (rest : List Byte) :
    cutLine (crlf text ++ rest) = some (crlf text, rest) ∧ lineFits [] (crlf text ++ rest) := by
  have hcut : cutLine (crlf text ++ rest) = some (crlf text, rest) := by
    have h := cutLine_line (text ++ [CR]) rest (by simpa [CR, LF] using ok.noLF)
    simpa [crlf] using h
  refine ⟨hcut, ?_⟩
  have hshort := ok.short
  simp only [lineFits, hcut, List.nil_append]
  refine ⟨?_, by simpa [crlf] using hshort⟩
  simp [crlf, ok.noNUL, CR, LF]

/-- The decoder at the start of a line reads the line. -/
theorem read_line (s : Conn) (log : List Event) {c : Call} {next : List Call} {text : List Byte}
    (hq : s.recvq = c :: next) (hr : Decoder.reading s.state = true)
    (hm : Decoder.lineMode s c = true) (hl : s.line = []) (ok : LineText text)
    (hs : Decoder.lineSound s c text) (rest : List Byte) :
    Run Decoder.machine ⟨s, log⟩ (crlf text ++ rest)
      (Decoder.settle (Decoder.join next log
        (Decoder.onLine { Decoder.prelude s with line := [], recvq := next }
          (Decoder.countFooter s (crlf text).length c) text))) rest := by
  obtain ⟨hcut, hfit⟩ := lineFits_crlf ok rest
  have hchop : chop (s.line ++ crlf text) = text := by rw [hl, List.nil_append, chop_crlf]
  have hfits : Decoder.machine.fits ⟨s, log⟩ (crlf text ++ rest) := by
    refine ⟨c, next, hq, hr, fun _ => ⟨by rw [hl]; exact hfit, ?_⟩⟩
    intro l r hc
    obtain ⟨rfl, rfl⟩ : crlf text = l ∧ rest = r := by simpa [hcut] using hc
    rwa [hchop]
  have hrun := Run.one (by simp [crlf]) hfits
  change Run _ _ _ (Decoder.step _ _).1 (Decoder.step _ _).2 at hrun
  rw [Decoder.step_line_some hq hm hcut, hchop] at hrun
  exact hrun

/-! ## The parts of a reply -/

section

variable (content_length : UInt64) (has_body is_chunked : Bool) (c : Call) (next : List Call)
  (log : List Event) {cl' : UInt64} {hb' ch' : Bool}

/-- The decoder at the start of a line. -/
def lineStart (state : ConnState) (content_length : UInt64) (has_body is_chunked : Bool)
    (recvq : List Call) (log : List Event) : Decoder :=
  ⟨⟨state, [], content_length, has_body, is_chunked, recvq⟩, log⟩

/-- The call after the status line. -/
def statusCall (l : StatusLine) (c : Call) : Call :=
  { c with
    reply.version := (0x10000 * l.major.u_int + l.minor.u_int) % 2 ^ 32
    reply.status := l.status.val }

theorem read_status_line (hc : c.isHead = false) {l : StatusLine} (ok : LineText l.text)
    (hhi : l.status.val ≤ 599) (rest : List Byte) :
    Run Decoder.machine
      (lineStart .S_REPLY_STATUS content_length has_body is_chunked (c :: next) log)
      (crlf l.text ++ rest)
      (lineStart (if l.status.val = 100 then .S_REPLY_CONTINUE else .S_REPLY_HEADER) SIZE_MAX
        (has_body_of false l.status.val) false
        (statusCall l c :: next) (log ++ [.EV_CALL_RECV_START c.id l.status.val])) rest := by
  have hscan := scan_status_line_text l hhi
  have hparse : (scan_status_line (cstr l.text)).isSome := by
    rw [cstr_eq ok.noNUL, hscan]; rfl
  have hint : u_int_to_int l.status.val = l.status.val := by
    unfold u_int_to_int
    rw [if_pos (by omega)]
  have hrun :=
    read_line ⟨.S_REPLY_STATUS, [], content_length, has_body, is_chunked, c :: next⟩ log rfl rfl rfl
      rfl ok ⟨fun _ => hparse, by simp⟩ rest
  simp only [Decoder.prelude, Decoder.countFooter, Decoder.onLine, Decoder.onStatus, if_true,
    if_false, reduceCtorEq, cstr_eq ok.noNUL, hscan, hc, hint, Bool.not_false, Bool.true_and,
    decide_eq_true_eq, Decoder.join, Option.map_some, Option.getD_some] at hrun
  rw [Decoder.settle_of_ne _ (by dsimp only; split <;> simp)] at hrun
  exact hrun

/-- The status line of a final reply. -/
theorem read_final_status_line (hc : c.isHead = false) {l : StatusLine} (ok : LineText l.text)
    (hlo : 200 ≤ l.status.val) (hhi : l.status.val ≤ 599) (rest : List Byte) :
    Run Decoder.machine
      (lineStart .S_REPLY_STATUS content_length has_body is_chunked (c :: next) log)
      (crlf l.text ++ rest)
      (lineStart .S_REPLY_HEADER SIZE_MAX (!noBody l.status.val) false
        (statusCall l c :: next) (log ++ [.EV_CALL_RECV_START c.id l.status.val])) rest := by
  have hbody : has_body_of false l.status.val = !noBody l.status.val := by
    have : l.status.val / 100 ≠ 1 := by omega
    simp [has_body_of, noBody, this, Bool.and_assoc]
  have hrun := read_status_line content_length has_body is_chunked _ next log hc ok hhi rest
  rwa [if_neg (by omega), hbody] at hrun

/-- One header line, in either of the states that read header lines. -/
theorem read_field {state : ConnState} (hs : state.inHeader) {text : List Byte}
    (ok : LineText text) (hne : text ≠ [])
    (hf : header_field ⟨state, [], content_length, has_body, is_chunked, next⟩ text =
      ⟨state, [], cl', hb', ch', next⟩) (rest : List Byte) :
    Run Decoder.machine
      (lineStart state content_length has_body is_chunked (c :: next) log)
      (crlf text ++ rest)
      (lineStart state cl' hb' ch' (c :: next)
        (log ++ [.EV_CALL_RECV_HDR c.id text])) rest := by
  have hrun :=
    read_line ⟨state, [], content_length, has_body, is_chunked, c :: next⟩ log rfl
      (by rcases hs with rfl | rfl <;> rfl) (hs.lineMode c) rfl ok
    ⟨by rcases hs with rfl | rfl <;> simp, by rcases hs with rfl | rfl <;> simp⟩ rest
  have hline : Decoder.onLine ⟨state, [], content_length, has_body, is_chunked, next⟩ c text =
      (⟨state, [], cl', hb', ch', next⟩, c, some (.EV_CALL_RECV_HDR c.id text)) := by
    rcases hs with rfl | rfl <;>
      simp only [Decoder.onLine, Decoder.onHeader, hne, if_false, cstr_eq ok.noNUL, hf]
  have hpre : Decoder.prelude ⟨state, [], content_length, has_body, is_chunked, c :: next⟩ =
      ⟨state, [], content_length, has_body, is_chunked, c :: next⟩ ∧
      Decoder.countFooter ⟨state, [], content_length, has_body, is_chunked, c :: next⟩
        (crlf text).length c = c := by
    rcases hs with rfl | rfl <;> exact ⟨rfl, rfl⟩
  rw [hpre.1, hpre.2, hline, Decoder.join, Decoder.settle_of_ne _ hs.ne_done] at hrun
  exact hrun

theorem read_plain_fields (fs : List PlainField) (rest : List Byte) :
    Run Decoder.machine
      (lineStart .S_REPLY_HEADER content_length has_body is_chunked (c :: next) log)
      ((fs.map fun f => crlf f.text).flatten ++ rest)
      (lineStart .S_REPLY_HEADER content_length has_body is_chunked (c :: next)
        (log ++ fs.map fun f => .EV_CALL_RECV_HDR c.id f.text)) rest := by
  induction fs generalizing log with
  | nil => simpa using Run.refl _ _
  | cons f fs ih =>
    have h1 := read_field _ _ _ c next log (.inl rfl) f.ok f.ne
      (header_field_plain (s := ⟨.S_REPLY_HEADER, [], content_length, has_body, is_chunked, next⟩)
        f.plain) ((fs.map fun f => crlf f.text).flatten ++ rest)
    simpa using h1.trans (ih _)

/-- The empty line after the header of a reply without a body. -/
theorem read_headers_end_none (rest : List Byte) :
    Run Decoder.machine
      (lineStart .S_REPLY_HEADER content_length false is_chunked (c :: next) log)
      (crlf [] ++ rest)
      (lineStart .S_REPLY_STATUS content_length false is_chunked next
        (pushEvent log (.EV_CALL_RECV_STOP c.id c.reply))) rest :=
  read_line ⟨.S_REPLY_HEADER, [], content_length, false, is_chunked, c :: next⟩ log rfl rfl rfl rfl
    lineText_nil ⟨by simp, by simp⟩ rest

theorem read_headers_end_length (rest : List Byte) :
    Run Decoder.machine
      (lineStart .S_REPLY_HEADER content_length true false (c :: next) log) (crlf [] ++ rest)
      (lineStart .S_REPLY_DATA content_length true false (c :: next) log) rest :=
  read_line ⟨.S_REPLY_HEADER, [], content_length, true, false, c :: next⟩ log rfl rfl rfl rfl
    lineText_nil ⟨by simp, by simp⟩ rest

theorem read_headers_end_chunked (rest : List Byte) :
    Run Decoder.machine
      (lineStart .S_REPLY_HEADER content_length true true (c :: next) log) (crlf [] ++ rest)
      (lineStart .S_REPLY_CHUNKED 0 true true (c :: next) log) rest :=
  read_line ⟨.S_REPLY_HEADER, [], content_length, true, true, c :: next⟩ log rfl rfl rfl rfl
    lineText_nil ⟨by simp, by simp⟩ rest

/-- Data that the decoder needs and finds in one piece. -/
theorem read_data (s : Conn) (log : List Event) {c : Call} {next : List Call} {body : List Byte}
    (hq : s.recvq = c :: next) (hr : Decoder.reading s.state = true)
    (hm : Decoder.lineMode s c = false) (hne : body ≠ [])
    (hn : Decoder.needed s c = body.length) (rest : List Byte) :
    Run Decoder.machine ⟨s, log⟩ (body ++ rest)
      (Decoder.settle (Decoder.onData s c next log body true)) rest := by
  have hfits : Decoder.machine.fits ⟨s, log⟩ (body ++ rest) :=
    ⟨c, next, hq, hr, fun h => by rw [hm] at h; cases h⟩
  have hrun := Run.one (by simp [hne]) hfits
  change Run _ _ _ (Decoder.step _ _).1 (Decoder.step _ _).2 at hrun
  have hmin : min (body ++ rest).length body.length = body.length := by
    rw [List.length_append]; omega
  rw [Decoder.step_data _ hq hm, hn, hmin] at hrun
  simpa using hrun

/-- A call that has received this many bytes of its body. -/
def Call.counted (c : Call) (n : Nat) : Call :=
  { c with reply.content_bytes := UInt64.ofNat n }

theorem read_body {body : List Byte} (hc : c.reply.content_bytes = 0) (hne : body ≠ [])
    (hmax : body.length < 2 ^ 64) (rest : List Byte) :
    Run Decoder.machine
      (lineStart .S_REPLY_DATA (UInt64.ofNat body.length) has_body is_chunked (c :: next) log)
      (body ++ rest)
      (lineStart .S_REPLY_STATUS (UInt64.ofNat body.length) has_body is_chunked next
        (pushEvent (pushEvent log (.EV_CALL_RECV_DATA c.id body))
          (.EV_CALL_RECV_STOP c.id (c.counted body.length).reply))) rest := by
  have hn : Decoder.needed ⟨.S_REPLY_DATA, [], UInt64.ofNat body.length, has_body, is_chunked,
      c :: next⟩ c = body.length := by
    simp only [Decoder.needed, hc, UInt64.sub_zero]
    exact UInt64.toNat_ofNat_of_lt' hmax
  have hrun := read_data _ log rfl rfl rfl hne hn rest
  simpa [Decoder.onData, Decoder.settle, lineStart, Call.counted, hc] using hrun

/-! ## Chunks -/

theorem read_chunk_line {l : SizeLine} {n : Nat} (hpos : l.size.val ≠ 0)
    (hmax : n + l.size.val < 2 ^ 64) (rest : List Byte) :
    Run Decoder.machine
      (lineStart .S_REPLY_CHUNKED (UInt64.ofNat n) has_body is_chunked (c.counted n :: next) log)
      (crlf l.text ++ rest)
      (lineStart .S_REPLY_CHUNKED (UInt64.ofNat (n + l.size.val)) has_body is_chunked
        (c.counted n :: next) (pushEvent log (.EV_CALL_RECV_DATA c.id []))) rest := by
  have ok : LineText l.text := l.ok
  have hscan := strtoul_sizeLine l (by unfold ULONG_MAX; omega)
  have hne : l.text ≠ [] := by simp [SizeLine.text, l.size.ne]
  have hn : n < 2 ^ 64 := by omega
  have hsound : Decoder.lineSound ⟨.S_REPLY_CHUNKED, [], UInt64.ofNat n, has_body, is_chunked,
      c.counted n :: next⟩ (c.counted n) l.text := by
    refine ⟨by simp, fun _ _ _ _ _ => ?_⟩
    simp only [cstr_eq ok.noNUL, hscan, Call.counted]
    rw [UInt64.toNat_ofNat_of_lt' hn]
    omega
  have hrun := read_line _ log rfl rfl (by simp [Decoder.lineMode, Call.counted]) rfl
    ok hsound rest
  simp only [Decoder.prelude, Decoder.countFooter, Decoder.onLine, Decoder.onChunk, hne, if_false,
    reduceCtorEq, cstr_eq ok.noNUL, hscan, hpos, decide_false, Bool.false_or, Bool.not_true,
    Bool.false_eq_true, Decoder.join, Option.map_some, Option.getD_some] at hrun
  rw [Decoder.settle_of_ne _ (by simp)] at hrun
  rw [UInt64.ofNat_add]
  exact hrun

/-- The line end behind the data of a chunk is an empty line. -/
theorem read_chunk_end {n : Nat} (rest : List Byte) :
    Run Decoder.machine
      (lineStart .S_REPLY_CHUNKED (UInt64.ofNat n) has_body is_chunked (c.counted n :: next) log)
      (crlf [] ++ rest)
      (lineStart .S_REPLY_CHUNKED (UInt64.ofNat n) has_body is_chunked (c.counted n :: next) log)
      rest :=
  read_line _ log rfl rfl (by simp [Decoder.lineMode]) rfl
    lineText_nil ⟨by simp, by simp⟩ rest

/-- Between the size line and the data of a chunk. -/
theorem chunk_needed {n m : Nat} (hm : m ≠ 0) (hmax : n + m < 2 ^ 64) :
    Decoder.needed ⟨.S_REPLY_CHUNKED, [], UInt64.ofNat (n + m), has_body, is_chunked,
        c.counted n :: next⟩ (c.counted n) = m ∧
      Decoder.lineMode ⟨.S_REPLY_CHUNKED, [], UInt64.ofNat (n + m), has_body, is_chunked,
        c.counted n :: next⟩ (c.counted n) = false := by
  have hn : n < 2 ^ 64 := by omega
  have hlt : UInt64.ofNat n < UInt64.ofNat (n + m) := by
    rw [UInt64.lt_iff_toNat_lt, UInt64.toNat_ofNat_of_lt' hn, UInt64.toNat_ofNat_of_lt' hmax]
    omega
  constructor
  · simp only [Decoder.needed, Call.counted]
    rw [UInt64.toNat_sub_of_le _ _ (UInt64.le_of_lt hlt), UInt64.toNat_ofNat_of_lt' hn,
      UInt64.toNat_ofNat_of_lt' hmax]
    omega
  · exact decide_eq_false (UInt64.not_le.mpr hlt)

theorem read_chunk {k : Chunk} {n : Nat} (hmax : n + k.data.length < 2 ^ 64) (rest : List Byte) :
    Run Decoder.machine
      (lineStart .S_REPLY_CHUNKED (UInt64.ofNat n) has_body is_chunked (c.counted n :: next) log)
      (k.wire ++ rest)
      (lineStart .S_REPLY_CHUNKED (UInt64.ofNat (n + k.data.length)) has_body is_chunked
        (c.counted (n + k.data.length) :: next) (pushEvent log (.EV_CALL_RECV_DATA c.id k.data)))
      rest := by
  have hpos : k.data.length ≠ 0 := fun h => k.ne (List.length_eq_zero_iff.mp h)
  obtain ⟨hn, hm⟩ := chunk_needed has_body is_chunked c next hpos hmax
  have h1 :=
    read_chunk_line has_body is_chunked c next log (l := k.line) (n := n) (by rwa [k.size_eq])
    (by rwa [k.size_eq]) (k.data ++ (crlf [] ++ rest))
  have h2 := read_data _ (pushEvent log (.EV_CALL_RECV_DATA c.id [])) rfl rfl hm k.ne hn
    (crlf [] ++ rest)
  rw [Decoder.settle_of_ne _ (by simp [Decoder.onData])] at h2
  have h3 :=
    read_chunk_end has_body is_chunked c next (pushEvent log (.EV_CALL_RECV_DATA c.id k.data))
      (n := n + k.data.length) rest
  rw [k.size_eq] at h1
  have hstate : Decoder.onData ⟨.S_REPLY_CHUNKED, [], UInt64.ofNat (n + k.data.length), has_body,
      is_chunked, c.counted n :: next⟩ (c.counted n) next
      (pushEvent log (.EV_CALL_RECV_DATA c.id [])) k.data true =
      lineStart .S_REPLY_CHUNKED (UInt64.ofNat (n + k.data.length)) has_body is_chunked
        (c.counted (n + k.data.length) :: next)
        (pushEvent log (.EV_CALL_RECV_DATA c.id k.data)) := by
    have hpush := pushEvent_data log c.id [] k.data
    simpa [Decoder.onData, lineStart, Call.counted, UInt64.ofNat_add] using hpush
  rw [hstate] at h2
  have hwire : k.wire ++ rest = crlf k.line.text ++ (k.data ++ (crlf [] ++ rest)) := by
    simp [Chunk.wire, crlf]
  rw [hwire]
  exact h1.trans (h2.trans h3)

/-- The data that a row of chunks adds to the log. -/
def pushData (log : List Event) (id : Nat) (body : List Byte) : List Event :=
  if body = [] then log else pushEvent log (.EV_CALL_RECV_DATA id body)

theorem pushData_append (log : List Event) (id : Nat) (x y : List Byte) :
    pushData (pushEvent log (.EV_CALL_RECV_DATA id x)) id y =
      pushEvent log (.EV_CALL_RECV_DATA id (x ++ y)) := by
  unfold pushData
  split
  · simp_all
  · rw [pushEvent_data]

theorem read_chunks (ks : List Chunk) {n : Nat}
    (hmax : n + (ks.map fun k => k.data.length).sum < 2 ^ 64) (rest : List Byte) :
    Run Decoder.machine
      (lineStart .S_REPLY_CHUNKED (UInt64.ofNat n) has_body is_chunked (c.counted n :: next) log)
      ((ks.map Chunk.wire).flatten ++ rest)
      (lineStart .S_REPLY_CHUNKED (UInt64.ofNat (n + (ks.map fun k => k.data.length).sum)) has_body
        is_chunked (c.counted (n + (ks.map fun k => k.data.length).sum) :: next)
        (pushData log c.id (ks.map Chunk.data).flatten)) rest := by
  induction ks generalizing n log with
  | nil => simpa [pushData] using Run.refl _ _
  | cons k ks ih =>
    simp only [List.map_cons, List.sum_cons, List.flatten_cons, List.append_assoc] at hmax ⊢
    have h1 :=
      read_chunk has_body is_chunked c next log (k := k) (n := n) (by omega)
        ((ks.map Chunk.wire).flatten ++ rest)
    have h2 := ih (pushEvent log (.EV_CALL_RECV_DATA c.id k.data)) (n := n + k.data.length)
      (by omega)
    rw [pushData_append] at h2
    have hne : k.data ++ (ks.map Chunk.data).flatten ≠ [] := by simp [k.ne]
    rw [pushData, if_neg hne, ← Nat.add_assoc]
    exact h1.trans h2

theorem read_last_chunk {l : SizeLine} {n : Nat} (hzero : l.size.val = 0) (rest : List Byte) :
    Run Decoder.machine
      (lineStart .S_REPLY_CHUNKED (UInt64.ofNat n) has_body is_chunked (c.counted n :: next) log)
      (crlf l.text ++ rest)
      (lineStart .S_REPLY_FOOTER (UInt64.ofNat n) has_body is_chunked (c.counted n :: next) log)
      rest := by
  have ok : LineText l.text := l.ok
  have hscan := strtoul_sizeLine l (by omega)
  have hne : l.text ≠ [] := by simp [SizeLine.text, l.size.ne]
  have hsound : Decoder.lineSound ⟨.S_REPLY_CHUNKED, [], UInt64.ofNat n, has_body, is_chunked,
      c.counted n :: next⟩ (c.counted n) l.text := by
    refine ⟨by simp, fun _ _ _ _ hz => ?_⟩
    simp [cstr_eq ok.noNUL, hscan, hzero] at hz
  have hrun := read_line _ log rfl rfl (by simp [Decoder.lineMode, Call.counted]) rfl
    ok hsound rest
  simp only [Decoder.prelude, Decoder.countFooter, Decoder.onLine, Decoder.onChunk, hne, if_true,
    if_false, reduceCtorEq, cstr_eq ok.noNUL, hscan, hzero, decide_false, Bool.false_or,
    Bool.not_true, Bool.false_eq_true, Decoder.join, Option.map_none, Option.getD_none] at hrun
  rw [Decoder.settle_of_ne _ (by simp)] at hrun
  exact hrun

/-! ## The trailer -/

/-- A call whose trailer has taken this many bytes. -/
def Call.trailed (c : Call) (n : Nat) : Call :=
  { c with reply.footer_bytes := c.reply.footer_bytes + UInt64.ofNat n }

@[simp] theorem Call.trailed_id (c : Call) (n : Nat) : (c.trailed n).id = c.id := rfl

theorem trailed_trailed (c : Call) (m n : Nat) : (c.trailed m).trailed n = c.trailed (m + n) := by
  simp [Call.trailed, UInt64.ofNat_add, UInt64.add_assoc]

theorem read_trailer (l : FieldLine) (rest : List Byte) :
    Run Decoder.machine
      (lineStart .S_REPLY_FOOTER content_length has_body is_chunked (c :: next) log)
      (crlf l.text ++ rest)
      (lineStart .S_REPLY_FOOTER content_length has_body is_chunked
        (c.trailed (crlf l.text).length :: next) (log ++ [.EV_CALL_RECV_FOOTER c.id l.text]))
      rest := by
  have hrun :=
    read_line ⟨.S_REPLY_FOOTER, [], content_length, has_body, is_chunked, c :: next⟩ log rfl rfl rfl
      rfl l.ok ⟨by simp, by simp⟩ rest
  simp only [Decoder.prelude, Decoder.countFooter, Decoder.onLine, Decoder.onFooter, l.ne, if_true,
    if_false, reduceCtorEq, Decoder.join, Option.map_some, Option.getD_some] at hrun
  rw [Decoder.settle_of_ne _ (by simp)] at hrun
  exact hrun

theorem read_trailers (ls : List FieldLine) (rest : List Byte) :
    Run Decoder.machine
      (lineStart .S_REPLY_FOOTER content_length has_body is_chunked (c :: next) log)
      ((ls.map fun l => crlf l.text).flatten ++ rest)
      (lineStart .S_REPLY_FOOTER content_length has_body is_chunked
        (c.trailed (ls.map fun l => crlf l.text).flatten.length :: next)
        (log ++ ls.map fun l => .EV_CALL_RECV_FOOTER c.id l.text)) rest := by
  induction ls generalizing c log with
  | nil => simpa [Call.trailed] using Run.refl _ _
  | cons l ls ih =>
    simp only [List.map_cons, List.flatten_cons, List.append_assoc, List.length_append]
    rw [← trailed_trailed]
    have h1 := read_trailer content_length has_body is_chunked c next log l
      ((ls.map fun l => crlf l.text).flatten ++ rest)
    have h2 := ih (c.trailed (crlf l.text).length) (log ++ [.EV_CALL_RECV_FOOTER c.id l.text])
    simpa using h1.trans h2

/-- The empty line after the trailer ends the reply. -/
theorem read_trailer_end (rest : List Byte) :
    Run Decoder.machine
      (lineStart .S_REPLY_FOOTER content_length has_body is_chunked (c :: next) log)
      (crlf [] ++ rest)
      (lineStart .S_REPLY_STATUS content_length has_body is_chunked next
        (pushEvent log (.EV_CALL_RECV_STOP c.id (c.trailed 2).reply))) rest :=
  read_line ⟨.S_REPLY_FOOTER, [], content_length, has_body, is_chunked, c :: next⟩ log rfl rfl rfl
    rfl lineText_nil ⟨by simp, by simp⟩ rest

/-! ## A whole reply -/

/-- Data after something else start a new event. -/
theorem pushData_new (log : List Event) {es : List Event} (hne : es ≠ [])
    (hes : ∀ e ∈ es, ∀ id d, e ≠ .EV_CALL_RECV_DATA id d) (id : Nat) (body : List Byte) :
    pushData (log ++ es) id body = log ++ es ++ dataEvents id body := by
  unfold pushData dataEvents
  split
  · simp
  · obtain ⟨e, he⟩ : ∃ e, (log ++ es).getLast? = some e := by
      rw [List.getLast?_append_of_ne_nil _ hne, List.getLast?_eq_some_getLast hne]
      exact ⟨_, rfl⟩
    have hmem : e ∈ es := by
      rw [List.getLast?_append_of_ne_nil _ hne] at he
      exact List.mem_of_getLast? he
    unfold pushEvent
    simp only [he]
    split
    · rename_i id' d' heq
      exact absurd (by simpa using heq) (hes e hmem id' d')
    · rfl

/-- The header with the line that marks the end of the body somewhere in it. -/
theorem read_headers {field : List (List Byte)} (before after : List PlainField)
    (hfield : ∀ log rest, Run Decoder.machine
      (lineStart .S_REPLY_HEADER content_length has_body is_chunked (c :: next) log)
      ((field.map crlf).flatten ++ rest)
      (lineStart .S_REPLY_HEADER cl' hb' ch' (c :: next)
        (log ++ field.map (.EV_CALL_RECV_HDR c.id))) rest) (rest : List Byte) :
    Run Decoder.machine
      (lineStart .S_REPLY_HEADER content_length has_body is_chunked (c :: next) log)
      ((((before.map fun f => f.text) ++ (field ++ after.map fun f => f.text)).map crlf).flatten ++
        rest)
      (lineStart .S_REPLY_HEADER cl' hb' ch' (c :: next)
        (log ++ ((before.map fun f => f.text) ++ (field ++ after.map fun f => f.text)).map
          (.EV_CALL_RECV_HDR c.id))) rest := by
  have h1 := read_plain_fields content_length has_body is_chunked c next log before
    ((field.map crlf).flatten ++ ((after.map fun f => crlf f.text).flatten ++ rest))
  have h2 := hfield (log ++ before.map fun f => .EV_CALL_RECV_HDR c.id f.text)
    ((after.map fun f => crlf f.text).flatten ++ rest)
  have h3 :=
    read_plain_fields cl' hb' ch' c next
      (log ++ (before.map fun f => .EV_CALL_RECV_HDR c.id f.text) ++
        field.map (.EV_CALL_RECV_HDR c.id)) after rest
  simpa [Function.comp_def] using h1.trans (h2.trans h3)

/-- What the header of a reply leaves in the connection: `content_length`, `has_body` and
`is_chunked`. -/
def Framing.conn {status : Nat} : Framing status → UInt64 × Bool × Bool
  | .none _ => (SIZE_MAX, false, false)
  | .empty _ _ => (0, false, false)
  | .length _ body .. => (UInt64.ofNat body.length, true, false)
  | .chunked .. => (SIZE_MAX, true, true)

theorem read_framing_field {status : Nat} (f : Framing status) (log : List Event)
    (rest : List Byte) :
    Run Decoder.machine
      (lineStart .S_REPLY_HEADER SIZE_MAX (!noBody status) false (c :: next) log)
      ((f.field.map crlf).flatten ++ rest)
      (lineStart .S_REPLY_HEADER f.conn.1 f.conn.2.1 f.conn.2.2 (c :: next)
        (log ++ f.field.map (.EV_CALL_RECV_HDR c.id))) rest := by
  cases f with
  | none h => simpa [Framing.field, Framing.conn, h] using Run.refl _ _
  | empty f h =>
    have ok : LineText f.text := f.ok
    have hfield :=
      header_field_length f ⟨.S_REPLY_HEADER, [], SIZE_MAX, !noBody status, false, next⟩
      (by omega)
    have hrun := read_field _ _ _ c next log (.inl rfl) ok f.ne hfield rest
    simpa [Framing.field, Framing.conn, h] using hrun
  | length f body ne h hs hmax =>
    have ok : LineText f.text := f.ok
    have hmax' : body.length < 2 ^ 64 := Nat.lt_trans hmax (by decide)
    have hpos : body.length ≠ 0 := fun h => ne (List.length_eq_zero_iff.mp h)
    have hnz : UInt64.ofNat body.length ≠ 0 := by
      intro he
      have := congrArg UInt64.toNat he
      rw [UInt64.toNat_ofNat_of_lt' hmax'] at this
      exact hpos this
    have hfield :=
      header_field_length f ⟨.S_REPLY_HEADER, [], SIZE_MAX, !noBody status, false, next⟩
      (by unfold ULONG_MAX; omega)
    have hrun := read_field _ _ _ c next log (.inl rfl) ok f.ne hfield rest
    simpa [Framing.field, Framing.conn, h, hs, hnz] using hrun
  | chunked f chunks last trailers h hs hmax =>
    have ok : LineText f.text := f.ok
    have hrun := read_field _ _ _ c next log (.inl rfl) ok f.ne
      (header_field_chunked f ⟨.S_REPLY_HEADER, [], SIZE_MAX, true, false, next⟩) rest
    simpa [Framing.field, Framing.conn, hs] using hrun

@[simp] theorem counted_zero {c : Call} (hc : c.reply.content_bytes = 0) : c.counted 0 = c := by
  simp [Call.counted, ← hc]

/-- All chunks, the last one, and the trailer. -/
theorem read_chunked_body (hc : c.reply.content_bytes = 0) (chunks : List Chunk) {last : SizeLine}
    (trailers : List FieldLine) (h : last.size.val = 0) {n : Nat}
    (hn : (chunks.map fun k => k.data.length).sum = n) (hmax : n < 2 ^ 64) {es : List Event}
    (hne : es ≠ []) (hes : ∀ e ∈ es, ∀ id d, e ≠ .EV_CALL_RECV_DATA id d) (rest : List Byte) :
    Run Decoder.machine
      (lineStart .S_REPLY_CHUNKED 0 has_body is_chunked (c :: next) (log ++ es))
      ((chunks.map Chunk.wire).flatten ++
        (crlf last.text ++ ((trailers.map fun l => crlf l.text).flatten ++ (crlf [] ++ rest))))
      (lineStart .S_REPLY_STATUS (UInt64.ofNat n) has_body is_chunked next
        (pushEvent (log ++ es ++ dataEvents c.id (chunks.map Chunk.data).flatten ++
            trailers.map fun l => .EV_CALL_RECV_FOOTER c.id l.text)
          (.EV_CALL_RECV_STOP c.id ((c.counted n).trailed
            ((trailers.map fun l => crlf l.text).flatten.length + 2)).reply))) rest := by
  have h1 := read_chunks has_body is_chunked c next (log ++ es) chunks (n := 0) (by omega)
    (crlf last.text ++ ((trailers.map fun l => crlf l.text).flatten ++ (crlf [] ++ rest)))
  rw [hn, Nat.zero_add, pushData_new log hne hes, counted_zero hc] at h1
  have h2 :=
    read_last_chunk has_body is_chunked c next
      (log ++ es ++ dataEvents c.id (chunks.map Chunk.data).flatten) (n := n) h
    ((trailers.map fun l => crlf l.text).flatten ++ (crlf [] ++ rest))
  have h3 :=
    read_trailers (UInt64.ofNat n) has_body is_chunked (c.counted n) next
      (log ++ es ++ dataEvents c.id (chunks.map Chunk.data).flatten) trailers (crlf [] ++ rest)
  have h4 :=
    read_trailer_end (UInt64.ofNat n) has_body is_chunked
      ((c.counted n).trailed (trailers.map fun l => crlf l.text).flatten.length) next
        (log ++ es ++ dataEvents c.id (chunks.map Chunk.data).flatten ++
          trailers.map fun l => .EV_CALL_RECV_FOOTER c.id l.text) rest
  rw [trailed_trailed] at h4
  exact h1.trans (h2.trans (h3.trans h4))

/-- The end of the header, and the body. -/
theorem read_framing {status : Nat} (f : Framing status) (hc : c.reply.content_bytes = 0)
    (hf : c.reply.footer_bytes = 0) (es : List Event) (hne : es ≠ [])
    (hes : ∀ e ∈ es, ∀ id d, e ≠ .EV_CALL_RECV_DATA id d) (rest : List Byte) :
    ∃ cl hb ch, Run Decoder.machine
      (lineStart .S_REPLY_HEADER f.conn.1 f.conn.2.1 f.conn.2.2 (c :: next) (log ++ es))
      (crlf [] ++ (f.wire ++ rest))
      (lineStart .S_REPLY_STATUS cl hb ch next
        (log ++ es ++ (dataEvents c.id f.body ++ (f.trailers.map (.EV_CALL_RECV_FOOTER c.id) ++
          [.EV_CALL_RECV_STOP c.id { c.reply with
            header_bytes := 0
            content_bytes := UInt64.ofNat f.body.length
            footer_bytes := UInt64.ofNat f.footer.length }])))) rest := by
  obtain ⟨id, req, ⟨st, version, header_bytes, content_bytes, footer_bytes⟩⟩ := c
  obtain rfl : content_bytes = 0 := hc
  obtain rfl : footer_bytes = 0 := hf
  cases f with
  | none h =>
    refine ⟨SIZE_MAX, false, false, ?_⟩
    have hrun :=
      read_headers_end_none SIZE_MAX false ⟨id, req, ⟨st, version, header_bytes, 0, 0⟩⟩ next
        (log ++ es) rest
    simpa [Framing.conn, Framing.wire, Framing.body, Framing.trailers, Framing.footer, dataEvents,
      pushEvent] using hrun
  | empty f h =>
    refine ⟨0, false, false, ?_⟩
    have hrun :=
      read_headers_end_none 0 false ⟨id, req, ⟨st, version, header_bytes, 0, 0⟩⟩ next
        (log ++ es) rest
    simpa [Framing.conn, Framing.wire, Framing.body, Framing.trailers, Framing.footer, dataEvents,
      pushEvent] using hrun
  | length f body ne h hs hmax =>
    refine ⟨UInt64.ofNat body.length, true, false, ?_⟩
    have h1 :=
      read_headers_end_length (UInt64.ofNat body.length)
        ⟨id, req, ⟨st, version, header_bytes, 0, 0⟩⟩ next (log ++ es) (body ++ rest)
    have h2 :=
      read_body true false ⟨id, req, ⟨st, version, header_bytes, 0, 0⟩⟩ next (log ++ es) rfl ne
      (Nat.lt_trans hmax (by decide)) rest
    have hpush := pushData_new log hne hes id body
    rw [pushData, if_neg ne] at hpush
    rw [hpush] at h2
    simpa [Framing.conn, Framing.wire, Framing.body, Framing.trailers, Framing.footer,
      pushEvent, Call.counted] using h1.trans h2
  | chunked f chunks last trailers h hs hmax =>
    refine ⟨UInt64.ofNat (chunks.map fun k => k.data.length).sum, true, true, ?_⟩
    have h1 :=
      read_headers_end_chunked SIZE_MAX ⟨id, req, ⟨st, version, header_bytes, 0, 0⟩⟩ next
        (log ++ es)
      ((Framing.chunked f chunks last trailers h hs hmax).wire ++ rest)
    have h2 :=
      read_chunked_body true true ⟨id, req, ⟨st, version, header_bytes, 0, 0⟩⟩ next log rfl chunks
        trailers h rfl
      (Nat.lt_trans hmax (by decide)) hne hes rest
    have hlen : (chunks.map Chunk.data).flatten.length =
        (chunks.map fun k => k.data.length).sum := by
      rw [List.length_flatten, List.map_map]
      rfl
    simp only [Framing.wire, Framing.footer, List.append_assoc] at h1
    have hrun := h1.trans h2
    have hcrlf : (crlf []).length = 2 := rfl
    simpa only [Framing.conn, Framing.wire, Framing.body, Framing.trailers, Framing.footer,
      pushEvent, Call.counted, Call.trailed, hlen, hcrlf, List.length_append, List.append_assoc,
      List.map_map, Function.comp_def, UInt64.zero_add] using hrun

/-- A reply to a fresh call, from the status line to the last byte. -/
theorem read_reply (w : WireReply) (hc : c.Fresh) (hh : c.isHead = false) (rest : List Byte) :
    ∃ cl hb ch, Run Decoder.machine
      (lineStart .S_REPLY_STATUS content_length has_body is_chunked (c :: next) log)
      (w.wire ++ rest)
      (lineStart .S_REPLY_STATUS cl hb ch next (log ++ w.events c.id)) rest := by
  obtain ⟨id, req, reply⟩ := c
  obtain rfl : reply = Reply.zero := hc
  let c' := statusCall w.line ⟨id, req, Reply.zero⟩
  let es := Event.EV_CALL_RECV_START id w.status :: w.headers.map (.EV_CALL_RECV_HDR id)
  have hes : ∀ e ∈ es, ∀ id d, e ≠ .EV_CALL_RECV_DATA id d := by
    intro e he
    rcases List.mem_cons.mp he with rfl | he
    · simp
    · obtain ⟨l, _, rfl⟩ := List.mem_map.mp he
      simp
  have h1 :=
    read_final_status_line content_length has_body is_chunked _ next log hh w.ok w.lower w.upper
    ((w.headers.map crlf).flatten ++ (crlf [] ++ (w.framing.wire ++ rest)))
  have h2 := read_headers _ _ _ c' next (log ++ [.EV_CALL_RECV_START id w.status]) w.before w.after
    (read_framing_field _ _ w.framing) (crlf [] ++ (w.framing.wire ++ rest))
  obtain ⟨cl, hb, ch, h3⟩ := read_framing c' next log w.framing rfl rfl es
    (by simp [es]) hes rest
  refine ⟨cl, hb, ch, ?_⟩
  have hlog : log ++ [.EV_CALL_RECV_START id (w.status : Int)] ++
      w.headers.map (.EV_CALL_RECV_HDR id) = log ++ es := by simp [es]
  have hwire : w.wire ++ rest = crlf w.line.text ++
      ((w.headers.map crlf).flatten ++ (crlf [] ++ (w.framing.wire ++ rest))) := by
    simp [WireReply.wire]
  have hevents : log ++ w.events id = log ++ es ++ (dataEvents id w.framing.body ++
      (w.framing.trailers.map (.EV_CALL_RECV_FOOTER id) ++ [.EV_CALL_RECV_STOP id w.reply])) := by
    simp [WireReply.events, es]
  rw [hwire, hevents]
  refine h1.trans (.trans ?_ h3)
  rw [← hlog]
  exact h2

end

/-- The stream of the replies to a row of fresh calls, with more calls behind them. -/
theorem read_replies (ws : List WireReply) {cs : List Call} (more : List Call)
    (hlen : cs.length = ws.length) (hc : ∀ c ∈ cs, c.Fresh ∧ c.isHead = false)
    (content_length : UInt64) (has_body is_chunked : Bool) (log : List Event) (rest : List Byte) :
    ∃ cl hb ch, Run Decoder.machine
      (lineStart .S_REPLY_STATUS content_length has_body is_chunked (cs ++ more) log)
      ((ws.map WireReply.wire).flatten ++ rest)
      (lineStart .S_REPLY_STATUS cl hb ch more (log ++ streamEvents ws cs)) rest := by
  induction ws generalizing cs content_length has_body is_chunked log with
  | nil =>
    obtain rfl := List.length_eq_zero_iff.mp hlen
    refine ⟨content_length, has_body, is_chunked, ?_⟩
    simpa [streamEvents] using Run.refl _ _
  | cons w ws ih =>
    cases cs with
    | nil => cases hlen
    | cons c cs =>
      obtain ⟨hfresh, hhead⟩ := hc c List.mem_cons_self
      obtain ⟨cl, hb, ch, h1⟩ := read_reply content_length has_body is_chunked _ (cs ++ more) log w
        hfresh hhead ((ws.map WireReply.wire).flatten ++ rest)
      obtain ⟨cl', hb', ch', h2⟩ := ih (Nat.succ.inj hlen)
        (fun c' hc' => hc c' (List.mem_cons_of_mem _ hc')) cl hb ch (log ++ w.events c.id)
      refine ⟨cl', hb', ch', ?_⟩
      have hrun := h1.trans h2
      simpa [streamEvents] using hrun

/-! ## Any cut of the stream -/

theorem fresh_erase {c : Call} (h : c.Fresh) : c.erase = c := by
  obtain ⟨id, req, reply⟩ := c
  obtain rfl : reply = Reply.zero := h
  rfl

/-- A connection that waits for replies to fresh calls is at the start of a status line. -/
theorem decoder_waiting {s : Conn} (log : List Event) (hstate : s.state = .S_REPLY_STATUS)
    (hline : s.line = []) (hfresh : ∀ c ∈ s.recvq, c.Fresh) :
    s.decoder log = lineStart .S_REPLY_STATUS s.content_length s.has_body s.is_chunked s.recvq
      (merged log) := by
  have herase : s.recvq.map Call.erase = s.recvq := by
    rw [List.map_congr_left fun c hc => fresh_erase (hfresh c hc), List.map_id']
  simp [Conn.decoder, lineStart, herase, ← hstate, ← hline]

theorem decode_replies {h : Handlers} (hq : h.Quiet) {s : Conn} (log : List Event)
    {ws : List WireReply} {bufs : List (List Byte)}
    (hstate : s.state = .S_REPLY_STATUS) (hline : s.line = [])
    (hlen : s.recvq.length = ws.length) (hcalls : ∀ c ∈ s.recvq, c.Fresh ∧ c.isHead = false)
    (hcut : bufs.flatten = (ws.map WireReply.wire).flatten)
    (hread : ∀ b ∈ bufs, 1 ≤ b.length ∧ b.length ≤ 8192) :
    ∃ s' log', do_recvs h (bufs.map Read.data) s log = .ok (s', log') ∧
      merged log' = merged log ++ streamEvents ws s.recvq ∧
      s'.state = .S_REPLY_STATUS ∧ s'.line = [] ∧ s'.recvq = [] := by
  obtain ⟨cl, hb, ch, hrun⟩ := read_replies ws [] hlen hcalls s.content_length s.has_body
    s.is_chunked (merged log) []
  rw [List.append_nil, List.append_nil, ← hcut,
    ← decoder_waiting log hstate hline fun c hc => (hcalls c hc).1] at hrun
  have hne : ∀ b ∈ bufs, b ≠ [] := by
    intro b hb he
    have := (hread b hb).1
    simp [he] at this
  obtain ⟨s', log', hrecvs, hend⟩ := any_cut_of_the_stream_decodes hq hrun hne
  refine ⟨s', log', hrecvs, congrArg Decoder.log hend, ?_, ?_, ?_⟩
  · exact congrArg (fun d => d.s.state) hend
  · exact congrArg (fun d => d.s.line) hend
  · exact List.map_eq_nil_iff.mp (congrArg (fun d => d.s.recvq) hend)

/-- The events of the replies `ws` to the calls in order, with each body in any pieces and any
header count. -/
inductive Signals : List WireReply → List Call → List Event → Prop where
  | nil : Signals [] [] []
  | cons {w : WireReply} {ws : List WireReply} {c : Call} {cs : List Call} {es : List Event}
      (pieces : List (List Byte)) (reply : Reply) :
      pieces.flatten = w.framing.body → { reply with header_bytes := 0 } = w.reply →
      Signals ws cs es →
      Signals (w :: ws) (c :: cs) (.EV_CALL_RECV_START c.id w.status ::
        (w.headers.map (.EV_CALL_RECV_HDR c.id) ++ (pieces.map (.EV_CALL_RECV_DATA c.id) ++
          (w.framing.trailers.map (.EV_CALL_RECV_FOOTER c.id) ++
            .EV_CALL_RECV_STOP c.id reply :: es))))

/-- Events that no cut can change stand in the log as they are. -/
theorem blocks_plain (es : List Event) {log : List Event} {bs : List (List Event)}
    (hes : ∀ e ∈ es, ∀ b, isBlock b e → b = [e]) (hbs : List.Forall₂ isBlock bs (es ++ log)) :
    ∃ bs', bs.flatten = es ++ bs'.flatten ∧ List.Forall₂ isBlock bs' log := by
  induction es generalizing bs with
  | nil => exact ⟨bs, rfl, hbs⟩
  | cons e es ih =>
    cases hbs with
    | cons hb hbs =>
      obtain ⟨bs', hflat, hbs'⟩ := ih (fun e' he' => hes e' (List.mem_cons_of_mem _ he')) hbs
      refine ⟨bs', ?_, hbs'⟩
      rw [hes e List.mem_cons_self _ hb, List.flatten_cons, hflat]
      rfl

theorem signals_of_blocks {ws : List WireReply} {cs : List Call} {bs : List (List Event)}
    (hlen : cs.length = ws.length) (hbs : List.Forall₂ isBlock bs (streamEvents ws cs)) :
    Signals ws cs bs.flatten := by
  induction ws generalizing cs bs with
  | nil =>
    obtain rfl := List.length_eq_zero_iff.mp hlen
    cases hbs
    exact .nil
  | cons w ws ih =>
    cases cs with
    | nil => cases hlen
    | cons c cs =>
      simp only [streamEvents, WireReply.events, List.append_assoc, List.cons_append,
        List.nil_append] at hbs
      cases hbs with
      | cons hb hbs =>
        obtain ⟨bs1, h1, hbs⟩ := blocks_plain (w.headers.map (.EV_CALL_RECV_HDR c.id))
          (by simp [isBlock]) hbs
        -- the body, if there is one, is one event of the merged log
        obtain ⟨pieces, bs2, h2, hbody, hbs⟩ : ∃ (pieces : List (List Byte))
            (bs2 : List (List Event)),
            bs1.flatten = pieces.map (.EV_CALL_RECV_DATA c.id) ++ bs2.flatten ∧
            pieces.flatten = w.framing.body ∧
            List.Forall₂ isBlock bs2 (w.framing.trailers.map (.EV_CALL_RECV_FOOTER c.id) ++
              (.EV_CALL_RECV_STOP c.id w.reply :: streamEvents ws cs)) := by
          unfold dataEvents at hbs
          split at hbs
          · rename_i hempty
            exact ⟨[], bs1, rfl, by simp [hempty], hbs⟩
          · cases hbs with
            | cons hb hbs =>
              obtain ⟨pieces, rfl, hflat⟩ := hb
              exact ⟨pieces, _, rfl, hflat, hbs⟩
        obtain ⟨bs3, h3, hbs⟩ := blocks_plain
          (w.framing.trailers.map (.EV_CALL_RECV_FOOTER c.id)) (by simp [isBlock]) hbs
        cases hbs with
        | cons hb' hbs =>
          obtain ⟨reply, rfl, hreply⟩ := hb'
          obtain rfl : _ = [_] := hb
          have hrest := ih (by simpa using hlen) hbs
          rw [List.flatten_cons, h1, h2, h3]
          exact .cons pieces reply hbody hreply hrest

/-- The reply `HTTP/1.1 200 OK` with the body `ok`. -/
def okReply : WireReply where
  line := {
    major := ⟨bytes "1", by decide, by decide +kernel⟩
    minor := ⟨bytes "1", by decide, by decide +kernel⟩
    status := ⟨bytes "200", by decide, by decide +kernel⟩
    reason := bytes "OK" }
  ok := ⟨by decide, by decide, by decide⟩
  lower := by decide
  upper := by decide
  before := []
  framing := .length {
    name := bytes "Content-Length:"
    blanks := bytes " "
    size := ⟨bytes "2", by decide, by decide +kernel⟩
    isName := by decide
    isBlank := by decide +kernel
    ok := ⟨by decide, by decide, by decide⟩ } (bytes "ok") (by decide) (by decide) (by decide)
      (by decide)
  after := []

/-- A connection that waits for the reply to one call. -/
def oneCall : Conn where
  state := .S_REPLY_STATUS
  line := []
  content_length := SIZE_MAX
  has_body := false
  is_chunked := false
  recvq := [call_init 7 0x10001]

def quiet : Handlers := ⟨fun _ => false, fun _ => 0⟩

/-- A reply in two chunks, the second one with an extension. -/
def chunkedReply : WireReply where
  line := okReply.line
  ok := okReply.ok
  lower := okReply.lower
  upper := okReply.upper
  before := []
  framing := .chunked {
    name := bytes "Transfer-Encoding:"
    blanks := bytes " "
    value := bytes "chunked"
    isName := by decide
    isBlank := by decide +kernel
    isValue := by decide
    ok := ⟨by decide, by decide, by decide⟩ }
    [⟨⟨⟨bytes "2", by decide, by decide +kernel⟩, [], by simp, ⟨by decide, by decide, by decide⟩⟩,
      bytes "ab", by decide, by decide⟩,
    ⟨⟨⟨bytes "1", by decide, by decide +kernel⟩, bytes ";x=y", by decide +kernel,
      ⟨by decide, by decide, by decide⟩⟩,
      bytes "c", by decide, by decide⟩]
    ⟨⟨bytes "0", by decide, by decide +kernel⟩, [], by simp, ⟨by decide, by decide, by decide⟩⟩
    [] (by decide) (by decide) (by decide)
  after := []

def twoWaiting : Conn := { oneCall with recvq := [call_init 7 0x10001, call_init 8 0x10001] }

/-- A pipelined stream of replies is decoded into its replies, however it is cut into reads. -/
theorem every_cut_of_a_reply_stream_decodes {h : Handlers} (hq : h.Quiet) {s : Conn}
    {ws : List WireReply} {bufs : List (List Byte)}
    (hstate : s.state = .S_REPLY_STATUS) (hline : s.line = [])
    (hlen : s.recvq.length = ws.length) (hcalls : ∀ c ∈ s.recvq, c.Fresh ∧ c.isHead = false)
    (hcut : bufs.flatten = (ws.map WireReply.wire).flatten)
    (hread : ∀ b ∈ bufs, 1 ≤ b.length ∧ b.length ≤ 8192) :
    ∃ s' log', do_recvs h (bufs.map Read.data) s [] = .ok (s', log') ∧
      Signals ws s.recvq (signalled log') ∧
      s'.state = .S_REPLY_STATUS ∧ s'.line = [] ∧ s'.recvq = [] := by
  obtain ⟨s', log', hrecvs, hlog, hend⟩ := decode_replies hq [] hstate hline hlen hcalls
    hcut hread
  refine ⟨s', log', hrecvs, ?_, hend⟩
  obtain ⟨bs, hbs, hflat⟩ := merged_blocks log'
  rw [hlog] at hbs
  rw [← hflat]
  exact signals_of_blocks hlen hbs

/-- The second read begins in the first reply and ends inside the first chunk of the second one. -/
theorem every_cut_of_a_reply_stream_decodes_ok :
    ∃ s' log', do_recvs quiet ([okReply.wire.take 20,
          okReply.wire.drop 20 ++ chunkedReply.wire.take 51, chunkedReply.wire.drop 51].map
            Read.data)
        twoWaiting [] = .ok (s', log') ∧
      Signals [okReply, chunkedReply] twoWaiting.recvq (signalled log') ∧
      s'.state = .S_REPLY_STATUS ∧ s'.line = [] ∧ s'.recvq = [] := by
  refine every_cut_of_a_reply_stream_decodes (fun _ => rfl) rfl rfl rfl ?_ (by decide +kernel)
    (by decide +kernel)
  intro c hc
  simp only [twoWaiting, List.mem_cons, List.not_mem_nil, or_false] at hc
  rcases hc with rfl | rfl
  · exact ⟨rfl, by decide⟩
  · exact ⟨rfl, by decide⟩

end Httperf
