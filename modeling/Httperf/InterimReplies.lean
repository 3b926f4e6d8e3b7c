-- Interim replies with status 100. The header of an interim reply ends in the state that
-- reads header lines, so the status line of the reply behind it is taken for a header line.
import Httperf.ReplyDecodes

namespace Httperf

open Resume

/-- A reply `100 Continue`: a status line, any header lines, an empty line. -/
structure InterimReply where
  line : StatusLine
  ok : LineText line.text
  is100 : line.status.val = 100
  fields : List FieldLine

def InterimReply.headers (i : InterimReply) : List (List Byte) := i.fields.map fun f => f.text

def InterimReply.wire (i : InterimReply) : List Byte :=
  crlf i.line.text ++ ((i.headers.map crlf).flatten ++ crlf [])

theorem InterimReply.headers_ok (i : InterimReply) : ∀ t ∈ i.headers, LineText t ∧ t ≠ [] := by
  intro t ht
  obtain ⟨f, _, rfl⟩ := List.mem_map.mp ht
  exact ⟨f.ok, f.ne⟩

/-- An event that an interim reply may signal. -/
def interimEvent (id : Nat) (e : Event) : Prop :=
  (∃ status, e = .EV_CALL_RECV_START id status) ∨ ∃ line, e = .EV_CALL_RECV_HDR id line

/-- The interim replies `is` before the reply `w` make no difference: but for their own status
and header lines the log is that of `w`, and of the replies `ws` behind it. -/
def Transparent (is : List InterimReply) (w : WireReply) : Prop :=
  ∀ (h : Handlers) (s : Conn) (log : List Event) (ws : List WireReply) (bufs : List (List Byte))
    (c : Call) (next : List Call), h.Quiet → s.state = .S_REPLY_STATUS → s.line = [] →
    s.recvq = c :: next → next.length = ws.length →
    (∀ c' ∈ c :: next, c'.Fresh ∧ c'.isHead = false) →
    bufs.flatten = (is.map InterimReply.wire).flatten ++ ((w :: ws).map WireReply.wire).flatten →
    (∀ b ∈ bufs, 1 ≤ b.length ∧ b.length ≤ 8192) →
    ∃ s' log' es, do_recvs h (bufs.map Read.data) s log = .ok (s', log') ∧
      (∀ e ∈ es, interimEvent c.id e) ∧
      merged log' = merged log ++ es ++ streamEvents (w :: ws) (c :: next) ∧
      s'.state = .S_REPLY_STATUS ∧ s'.line = [] ∧ s'.recvq = []

/-! ## The header of an interim reply -/

section

variable (content_length : UInt64) (has_body is_chunked : Bool) (c : Call) (next : List Call)
  (log : List Event)

/-- Without a body the lines of a header change nothing that matters. -/
theorem read_fields_no_body {state : ConnState} (hs : state.inHeader) {ts : List (List Byte)}
    (hts : ∀ t ∈ ts, LineText t ∧ t ≠ []) (rest : List Byte) :
    ∃ cl ch, Run Decoder.machine
      (lineStart state content_length false is_chunked (c :: next) log)
      ((ts.map crlf).flatten ++ rest)
      (lineStart state cl false ch (c :: next) (log ++ ts.map (.EV_CALL_RECV_HDR c.id))) rest := by
  induction ts generalizing log content_length is_chunked with
  | nil => exact ⟨content_length, is_chunked, by simpa using Run.refl _ _⟩
  | cons t ts ih =>
    obtain ⟨ok, hne⟩ := hts t List.mem_cons_self
    obtain ⟨cl, ch, hf⟩ := header_field_no_body
      ⟨state, [], content_length, false, is_chunked, next⟩ t rfl
    have h1 := read_field _ _ _ c next log hs ok hne hf
      ((ts.map crlf).flatten ++ rest)
    obtain ⟨cl', ch', h2⟩ := ih cl ch (log ++ [.EV_CALL_RECV_HDR c.id t])
      fun t' ht' => hts t' (List.mem_cons_of_mem _ ht')
    exact ⟨cl', ch', by simpa using h1.trans h2⟩

theorem read_headers_end_interim (rest : List Byte) :
    Run Decoder.machine
      (lineStart .S_REPLY_CONTINUE content_length false is_chunked (c :: next) log)
      (crlf [] ++ rest)
      (lineStart .S_REPLY_HEADER content_length false is_chunked (c :: next) log) rest :=
  read_line ⟨.S_REPLY_CONTINUE, [], content_length, false, is_chunked, c :: next⟩ log rfl rfl rfl
    rfl lineText_nil ⟨by simp, by simp⟩ rest

/-- The header of an interim reply ends in the state that reads header lines. -/
theorem read_interim (i : InterimReply) (hh : c.isHead = false) (rest : List Byte) :
    ∃ cl ch, Run Decoder.machine
      (lineStart .S_REPLY_STATUS content_length has_body is_chunked (c :: next) log)
      (i.wire ++ rest)
      (lineStart .S_REPLY_HEADER cl false ch (statusCall i.line c :: next)
        (log ++ .EV_CALL_RECV_START c.id 100 :: i.headers.map (.EV_CALL_RECV_HDR c.id))) rest := by
  have hbody : has_body_of false i.line.status.val = false := by rw [i.is100]; decide
  have h1 :=
    read_status_line content_length has_body is_chunked _ next log hh i.ok (by rw [i.is100]; omega)
    ((i.headers.map crlf).flatten ++ (crlf [] ++ rest))
  rw [if_pos i.is100, hbody] at h1
  obtain ⟨cl, ch, h2⟩ :=
    read_fields_no_body SIZE_MAX false (statusCall i.line c) next
      (log ++ [.EV_CALL_RECV_START c.id i.line.status.val]) (.inr rfl) i.headers_ok
        (crlf [] ++ rest)
  have h3 :=
    read_headers_end_interim cl ch (statusCall i.line c) next
      (log ++ [.EV_CALL_RECV_START c.id i.line.status.val] ++
        i.headers.map (.EV_CALL_RECV_HDR c.id)) rest
  refine ⟨cl, ch, ?_⟩
  have hrun := h1.trans (h2.trans h3)
  simpa [InterimReply.wire, i.is100] using hrun

/-- The header that follows, of another interim reply or of the final one. -/
theorem read_header_as_fields {line : List Byte} (ok : LineText line) (hne : line ≠ [])
    {ts : List (List Byte)} (hts : ∀ t ∈ ts, LineText t ∧ t ≠ []) (rest : List Byte) :
    ∃ cl ch es, Run Decoder.machine
      (lineStart .S_REPLY_HEADER content_length false is_chunked (c :: next) log)
      (crlf line ++ ((ts.map crlf).flatten ++ (crlf [] ++ rest)))
      (lineStart .S_REPLY_STATUS cl false ch next
        (es ++ [.EV_CALL_RECV_STOP c.id { c.reply with header_bytes := 0 }])) rest := by
  have hall : ∀ t ∈ line :: ts, LineText t ∧ t ≠ [] := by
    intro t ht
    rcases List.mem_cons.mp ht with rfl | ht
    · exact ⟨ok, hne⟩
    · exact hts t ht
  obtain ⟨cl, ch, h1⟩ :=
    read_fields_no_body content_length is_chunked c next log (.inl rfl) hall (crlf [] ++ rest)
  have h2 :=
    read_headers_end_none cl ch c next (log ++ (line :: ts).map (.EV_CALL_RECV_HDR c.id)) rest
  refine ⟨cl, ch, log ++ (line :: ts).map (.EV_CALL_RECV_HDR c.id), ?_⟩
  simpa [pushEvent] using h1.trans h2

end

/-- The first bytes of a stream that starts with an interim reply, up to the end of the next
header, are taken for a whole reply with status 100. No call waits for the bytes behind it. -/
theorem interim_ends_the_reply (i : InterimReply) {line : List Byte} (ok : LineText line)
    (hne : line ≠ []) {ts : List (List Byte)} (hts : ∀ t ∈ ts, LineText t ∧ t ≠ [])
    (rest : List Byte) :
    ∃ s' log' es reply, do_recvs quiet
        (((i.wire ++ (crlf line ++ ((ts.map crlf).flatten ++ crlf []))) ++ rest).map
          fun b => Read.data [b]) oneCall [] = .ok (s', log') ∧
      merged log' = es ++ [.EV_CALL_RECV_STOP 7 reply] ∧ reply.status = 100 := by
  generalize hp : i.wire ++ (crlf line ++ ((ts.map crlf).flatten ++ crlf [])) = p
  obtain ⟨cl, ch, h1⟩ := read_interim SIZE_MAX false false (call_init 7 0x10001) [] [] i (by decide)
    (crlf line ++ ((ts.map crlf).flatten ++ (crlf [] ++ [])))
  obtain ⟨cl', ch', es, h2⟩ :=
    read_header_as_fields cl ch (statusCall i.line (call_init 7 0x10001)) []
      ([] ++ .EV_CALL_RECV_START (call_init 7 0x10001).id 100 ::
        i.headers.map (.EV_CALL_RECV_HDR (call_init 7 0x10001).id)) ok hne hts []
  have hrun := h1.trans h2
  rw [List.append_nil, hp] at hrun
  have hcut : (p.map fun b => [b]).flatten = p := by
    rw [← List.flatMap_def, List.flatMap_singleton']
  rw [← hcut] at hrun
  change Drains Decoder.machine (oneCall.decoder []) _ _ at hrun
  obtain ⟨s', log', hrecvs, hend⟩ := any_cut_of_the_stream_decodes (h := quiet) (fun _ => rfl) hrun
    (by simp)
  have hidle : s'.recvq = [] :=
    List.map_eq_nil_iff.mp (congrArg (fun d => d.s.recvq) hend)
  have hread : (p.map fun b => [b]).map Read.data = p.map fun b => Read.data [b] := by simp
  refine ⟨s', log', es, _, ?_, congrArg Decoder.log hend, ?_⟩
  · rw [List.map_append, do_recvs_append _ (hread ▸ hrecvs), do_recvs_idle _ _ _ _ hidle]
  · simp [statusCall, i.is100]

theorem WireReply.events_getLast (w : WireReply) (id : Nat) (L : List Event) :
    (L ++ w.events id).getLast? = some (.EV_CALL_RECV_STOP id w.reply) := by
  simp only [WireReply.events, ← List.append_assoc, ← List.cons_append, List.getLast?_concat]

/-- After an interim reply the next reply never ends with a status of its own. -/
theorem not_transparent_of_interim (i : InterimReply) (is : List InterimReply) (w : WireReply) :
    ¬ Transparent (i :: is) w := by
  intro ht
  -- the header behind the interim reply, and what follows it
  obtain ⟨line, ts, tail, ok, hne, hts, hnext⟩ : ∃ (line : List Byte) (ts : List (List Byte))
      (tail : List Byte), LineText line ∧ line ≠ [] ∧
      (∀ t ∈ ts, LineText t ∧ t ≠ []) ∧
      (is.map InterimReply.wire).flatten ++ w.wire =
        (crlf line ++ ((ts.map crlf).flatten ++ crlf [])) ++ tail := by
    cases is with
    | nil =>
      refine ⟨w.line.text, w.headers, w.framing.wire, w.ok, ?_, fun t => w.headers_ok, ?_⟩
      · simp [StatusLine.text, bytes]
      · simp [WireReply.wire]
    | cons j is =>
      refine ⟨j.line.text, j.headers, (is.map InterimReply.wire).flatten ++ w.wire, j.ok, ?_,
        j.headers_ok, ?_⟩
      · simp [StatusLine.text, bytes]
      · simp [InterimReply.wire]
  obtain ⟨s', log', es, reply, hrecvs, hlast, hstatus⟩ := interim_ends_the_reply i ok hne hts tail
  generalize hstream : (i.wire ++ (crlf line ++ ((ts.map crlf).flatten ++ crlf []))) ++ tail =
    stream at hrecvs
  have hcut : (stream.map fun b => [b]).flatten = stream := by
    rw [← List.flatMap_def, List.flatMap_singleton']
  obtain ⟨s1, log1, es1, hrecvs1, _, hlog, _⟩ := ht quiet oneCall [] [] (stream.map fun b => [b])
    (call_init 7 0x10001) [] (fun _ => rfl) rfl rfl rfl rfl
    (by intro c hc; obtain rfl := List.mem_singleton.mp hc; exact ⟨rfl, by decide⟩)
    (by
      rw [hcut, ← hstream, List.append_assoc, List.map_cons, List.flatten_cons]
      simp [hnext])
    (by simp)
  have hread : (stream.map fun b => [b]).map Read.data = stream.map fun b => Read.data [b] := by
    simp
  rw [hread, hrecvs, Except.ok.injEq, Prod.mk.injEq] at hrecvs1
  -- the last event of the log has one status only
  have h1 := congrArg List.getLast? (hrecvs1.2 ▸ hlast)
  rw [hlog] at h1
  simp only [streamEvents, List.append_nil, WireReply.events_getLast, List.getLast?_concat,
    Option.some.injEq, Event.EV_CALL_RECV_STOP.injEq] at h1
  have h2 := w.lower
  rw [← h1.2] at hstatus
  simp only [WireReply.reply, WireReply.status] at hstatus
  omega

/-- Interim replies make no difference exactly when there are none. -/
theorem transparent_exactly_without_interim_replies (is : List InterimReply) (w : WireReply) :
    Transparent is w ↔ is = [] := by
  constructor
  · intro ht
    cases is with
    | nil => rfl
    | cons i is => exact absurd ht (not_transparent_of_interim i is w)
  · rintro rfl h s log ws bufs c next hq hstate hline hqueue hlen hcalls hcut hread
    obtain ⟨s', log', hrecvs, hlog, hend⟩ := decode_replies hq log hstate
      hline (by simp [hqueue, hlen]) (by rwa [hqueue]) hcut hread
    exact ⟨s', log', [], hrecvs, by simp, by simpa [hqueue] using hlog, hend⟩

/-- The interim reply `HTTP/1.1 100 Continue`. -/
def continueReply : InterimReply where
  line := {
    major := okReply.line.major
    minor := okReply.line.minor
    status := ⟨bytes "100", by decide, by decide +kernel⟩
    reason := bytes "Continue" }
  ok := ⟨by decide, by decide, by decide⟩
  is100 := by decide
  fields := []

theorem one_interim_reply_is_not_transparent : ¬ Transparent [continueReply] okReply :=
  not_transparent_of_interim continueReply [] okReply

end Httperf
