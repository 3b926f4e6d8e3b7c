-- The replies of a server, as it writes them: a status line, header lines, and a body that is
-- absent, of a declared length, or cut into chunks.
import Httperf.Numeral
import Httperf.Http

namespace Httperf

/-! ## Lines -/

/-- The text of a line that fits into the line buffer with its CRLF. -/
structure LineText (text : List Byte) : Prop where
  noLF : LF ∉ text
  noNUL : 0 ∉ text
  short : text.length + 2 < MAX_HDR_LINE_LEN

theorem lineText_nil : LineText [] := ⟨by simp, by simp, by decide⟩

def crlf (text : List Byte) : List Byte := text ++ [CR, LF]

/-- A header line or a trailer line. An empty line would end the header. -/
structure FieldLine where
  text : List Byte
  ok : LineText text
  ne : text ≠ []

/-- The header lines that say where the body ends. -/
def framingField (text : List Byte) : Bool :=
  strncaseeq text (bytes "content-length:") || strncaseeq text (bytes "transfer-encoding:")

/-- A header line that says nothing about the body. -/
structure PlainField extends FieldLine where
  plain : framingField text = false

structure StatusLine where
  major : Numeral 10
  minor : Numeral 10
  status : Numeral 10
  reason : List Byte

def StatusLine.text (l : StatusLine) : List Byte :=
  bytes "HTTP/" ++ (l.major.text ++ (bytes "." ++ (l.minor.text ++ (bytes " " ++
    (l.status.text ++ (bytes " " ++ l.reason))))))

/-- The statuses that never have a body. -/
def noBody (status : Nat) : Bool := status = 204 || status = 205 || status = 304

/-- A line `Content-Length: N`. -/
structure LengthField where
  name : List Byte
  blanks : List Byte
  size : Numeral 10
  isName : name.map tolower = bytes "content-length:"
  isBlank : ∀ c ∈ blanks, isspace c
  ok : LineText (name ++ (blanks ++ size.text))

def LengthField.text (f : LengthField) : List Byte := f.name ++ (f.blanks ++ f.size.text)

theorem LengthField.ne (f : LengthField) : f.text ≠ [] := by
  intro he
  have := f.isName
  simp [(List.append_eq_nil_iff.mp he).1, bytes] at this

/-- A line `Transfer-Encoding: chunked`. -/
structure ChunkedField where
  name : List Byte
  blanks : List Byte
  value : List Byte
  isName : name.map tolower = bytes "transfer-encoding:"
  isBlank : ∀ c ∈ blanks, isspace c
  isValue : value.map tolower = bytes "chunked"
  ok : LineText (name ++ (blanks ++ value))

def ChunkedField.text (f : ChunkedField) : List Byte := f.name ++ (f.blanks ++ f.value)

theorem ChunkedField.ne (f : ChunkedField) : f.text ≠ [] := by
  intro he
  have := f.isName
  simp [(List.append_eq_nil_iff.mp he).1, bytes] at this

/-- The size line of a chunk. The extension starts with a semicolon. -/
structure SizeLine where
  size : Numeral 16
  ext : List Byte
  isExt : ∀ c ∈ ext.head?, c = 59
  ok : LineText (size.text ++ ext)

def SizeLine.text (l : SizeLine) : List Byte := l.size.text ++ l.ext

structure Chunk where
  line : SizeLine
  data : List Byte
  ne : data ≠ []
  size_eq : line.size.val = data.length

def Chunk.wire (k : Chunk) : List Byte := crlf k.line.text ++ crlf k.data

/-! ## Replies -/

/-- How the end of a reply with this status is marked. -/
inductive Framing (status : Nat) where
  | none (h : noBody status = true)
  | empty (f : LengthField) (h : f.size.val = 0)
  | length (f : LengthField) (body : List Byte) (ne : body ≠ []) (h : f.size.val = body.length)
      (hs : noBody status = false) (hmax : body.length < SIZE_MAX.toNat)
  | chunked (f : ChunkedField) (chunks : List Chunk) (last : SizeLine) (trailers : List FieldLine)
      (h : last.size.val = 0) (hs : noBody status = false)
      (hmax : (chunks.map fun k => k.data.length).sum < SIZE_MAX.toNat)

namespace Framing

variable {status : Nat}

/-- The header line that marks it. -/
def field : Framing status → List (List Byte)
  | none _ => []
  | empty f _ => [f.text]
  | length f .. => [f.text]
  | chunked f .. => [f.text]

def body : Framing status → List Byte
  | none _ => []
  | empty _ _ => []
  | length _ body .. => body
  | chunked _ chunks .. => (chunks.map Chunk.data).flatten

def trailers : Framing status → List (List Byte)
  | chunked _ _ _ trailers .. => trailers.map FieldLine.text
  | _ => []

/-- The bytes that the trailer takes, with its empty line. -/
def footer : Framing status → List Byte
  | chunked _ _ _ trailers .. => (trailers.map fun l => crlf l.text).flatten ++ crlf []
  | _ => []

/-- The bytes behind the header. -/
def wire (f : Framing status) : List Byte :=
  match f with
  | none _ => []
  | empty _ _ => []
  | length _ body .. => body
  | chunked _ chunks last .. => (chunks.map Chunk.wire).flatten ++ (crlf last.text ++ f.footer)

end Framing

/-- A reply: the line that marks the end of the body may stand anywhere in the header. -/
structure WireReply where
  line : StatusLine
  ok : LineText line.text
  lower : 200 ≤ line.status.val
  upper : line.status.val ≤ 599
  before : List PlainField
  framing : Framing line.status.val
  after : List PlainField

namespace WireReply

def status (w : WireReply) : Nat := w.line.status.val

def headers (w : WireReply) : List (List Byte) :=
  (w.before.map fun f => f.text) ++ (w.framing.field ++ w.after.map fun f => f.text)

def wire (w : WireReply) : List Byte :=
  crlf w.line.text ++ ((w.headers.map crlf).flatten ++ (crlf [] ++ w.framing.wire))

end WireReply

/-- Every header line of a reply is a line with some text. -/
theorem WireReply.headers_ok (w : WireReply) {t : List Byte} (ht : t ∈ w.headers) :
    LineText t ∧ t ≠ [] := by
  simp only [WireReply.headers, List.mem_append, List.mem_map] at ht
  rcases ht with ⟨f, _, rfl⟩ | ht | ⟨f, _, rfl⟩
  · exact ⟨f.ok, f.ne⟩
  · cases hf : w.framing with
    | none h => simp [hf, Framing.field] at ht
    | empty f h =>
      obtain rfl : t = f.text := by simpa [hf, Framing.field] using ht
      exact ⟨f.ok, f.ne⟩
    | length f body ne h hs hmax =>
      obtain rfl : t = f.text := by simpa [hf, Framing.field] using ht
      exact ⟨f.ok, f.ne⟩
    | chunked f chunks last trailers h hs hmax =>
      obtain rfl : t = f.text := by simpa [hf, Framing.field] using ht
      exact ⟨f.ok, f.ne⟩
  · exact ⟨f.ok, f.ne⟩

/-! ## What the C code makes of such lines -/

theorem chop_crlf (text : List Byte) : chop (crlf text) = text := by
  have h : crlf text = text ++ [CR] ++ [LF] := by simp [crlf]
  unfold chop
  simp [h]

theorem scan_lit_append (lit s : List Byte) : scan_lit lit (lit ++ s) = some s := by
  simp [scan_lit]

theorem ends_of_head {c : Byte} (h : digit 10 c = none ∧ tolower c ≠ 120) (s : List Byte) :
    EndsNumeral 10 (c :: s) := by
  intro d hd
  obtain rfl : c = d := by simpa using hd
  exact h

/-- The status line parses, with the status of the reply. -/
theorem scan_status_line_text (l : StatusLine) (h : l.status.val ≤ 599) :
    scan_status_line l.text = some (l.major.u_int, l.minor.u_int, l.status.val) := by
  have hdot : ∀ s, EndsNumeral 10 (bytes "." ++ s) := ends_of_head (by decide)
  have hsp : ∀ s, EndsNumeral 10 (bytes " " ++ s) := ends_of_head (by decide)
  have hblank : ∀ s, (bytes " " ++ (l.status.text ++ s)).dropWhile isspace =
      l.status.text ++ s := by
    intro s
    obtain ⟨c, ds, hds⟩ := List.exists_cons_of_ne_nil l.status.ne
    have hc := (digit_shape (by omega) (l.status.isDigit c (by simp [hds]))).1
    have hspace : isspace 32 = true := rfl
    simp [bytes, hds, hc, hspace]
  have hval : l.status.u_int = l.status.val := by
    unfold Numeral.u_int ULONG_MAX
    rw [Nat.min_eq_left (by omega), Nat.mod_eq_of_lt (by omega)]
  simp only [scan_status_line, StatusLine.text, scan_lit_append, Option.bind_eq_bind,
    Option.bind_some, scan_u_numeral l.major (hdot _), scan_u_numeral l.minor (hsp _), hblank,
    scan_u_numeral l.status (hsp _), hval]

/-- A plain header line changes nothing. -/
theorem header_field_plain {s : Conn} {text : List Byte} (h : framingField text = false) :
    header_field s text = s := by
  simp only [framingField, Bool.or_eq_false_iff] at h
  simp [header_field, h.1, h.2]

/-- The name of a header line is compared without case. -/
theorem strncaseeq_name {name : List Byte} (lit s : List Byte) (h : name.map tolower = lit)
    (hlit : lit.map tolower = lit) : strncaseeq (name ++ s) lit = true := by
  have hlen : lit.length = name.length := by rw [← h, List.length_map]
  simp [strncaseeq, hlen, h, hlit]

theorem strtoul_blanks {base : Nat} {blanks : List Byte} (h : ∀ c ∈ blanks, isspace c)
    (s : List Byte) : strtoul (blanks ++ s) base = strtoul s base := by
  unfold strtoul
  rw [List.dropWhile_append_of_pos h]

theorem header_field_length (f : LengthField) (s : Conn) (h : f.size.val ≤ ULONG_MAX) :
    header_field s f.text =
      { s with
        content_length := UInt64.ofNat f.size.val
        has_body := if UInt64.ofNat f.size.val = 0 then false else s.has_body } := by
  have hname := strncaseeq_name _ (f.blanks ++ f.size.text) f.isName (by decide)
  have hdrop : f.text.drop 15 = f.blanks ++ f.size.text := by
    have hlen : f.name.length = 15 := by
      rw [← List.length_map tolower, f.isName]; decide
    simp [LengthField.text, hlen]
  have hval : (strtoul (f.blanks ++ f.size.text) 10).val = f.size.val := by
    have h2 := strtoul_numeral (by omega) f.size (show EndsNumeral 10 [] by simp [EndsNumeral]) h
    rw [List.append_nil] at h2
    rw [strtoul_blanks f.isBlank, h2]
  unfold header_field
  rw [if_pos (by exact hname)]
  simp only [hdrop, hval]

/-- The size line of a chunk reads as the size of the chunk. -/
theorem strtoul_sizeLine (l : SizeLine) (h : l.size.val ≤ ULONG_MAX) :
    strtoul l.text 16 = ⟨l.size.val, false, true⟩ := by
  apply strtoul_numeral (by omega) _ _ h
  intro c hc
  rw [l.isExt c hc]
  decide

theorem header_field_chunked (f : ChunkedField) (s : Conn) :
    header_field s f.text = { s with is_chunked := true } := by
  have hname := strncaseeq_name _ (f.blanks ++ f.value) f.isName (by decide)
  have hlen : f.name.length = 18 := by
    rw [← List.length_map tolower, f.isName]; decide
  have hother : strncaseeq f.text (bytes "content-length:") = false := by
    have htake : f.text.take 15 = f.name.take 15 := by
      rw [ChunkedField.text, List.take_append_of_le_length (by omega)]
    have : (bytes "content-length:").length = 15 := by decide
    rw [strncaseeq, this, htake, List.map_take, f.isName]
    decide
  have hvalue : (f.text.drop 18).dropWhile isspace = f.value := by
    have hdrop : f.text.drop 18 = f.blanks ++ f.value := by simp [ChunkedField.text, hlen]
    have hspace : ∀ c : Byte, tolower c = 99 → isspace c = false := by
      apply forall_byte
      decide +kernel
    obtain ⟨c, v, hv⟩ : ∃ c v, f.value = c :: v := by
      apply List.exists_cons_of_ne_nil
      intro he
      have := f.isValue
      simp [he, bytes] at this
    have hc : tolower c = 99 := by
      have := f.isValue
      rw [hv, List.map_cons] at this
      exact (List.cons.inj this).1
    rw [hdrop, List.dropWhile_append_of_pos f.isBlank, hv,
      List.dropWhile_cons_of_neg (by simp [hspace c hc])]
  unfold header_field
  rw [if_neg (by simp [hother]), if_pos (by exact hname), hvalue, if_pos]
  simp [strcaseeq, f.isValue]
  decide

end Httperf
