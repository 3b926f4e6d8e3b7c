-- Replies that stop before their end. `do_recv` takes the end of the stream for the end of the
-- reply whenever it is among the data, also when the reply has said how long it is.
import Httperf.Segmentation

namespace Httperf

open Resume

/-! ## Nothing signalled is lost -/

namespace Decoder

variable {β : Type} {f : Event → List β}

theorem log_join (hf : Uncut f) (next : List Call) (log : List Event)
    (x : Conn × Call × Option Event) : log.flatMap f <+: (join next log x).log.flatMap f := by
  obtain ⟨s, c, e⟩ := x
  cases e with
  | none => exact List.prefix_rfl
  | some e =>
    unfold join
    dsimp only [Option.map_some, Option.getD_some]
    rw [hf.push]
    exact List.prefix_append _ _

theorem log_settle (hf : Uncut f) (d : Decoder) : d.log.flatMap f <+: d.settle.log.flatMap f := by
  unfold settle
  split
  · split
    · exact List.prefix_rfl
    · dsimp only
      rw [hf.push]
      exact List.prefix_append _ _
  · exact List.prefix_rfl

theorem log_step (hf : Uncut f) {d : Decoder} {b : List Byte} (hfit : fits d b) :
    d.log.flatMap f <+: (step d b).1.log.flatMap f := by
  obtain ⟨c, next, hq, -, -⟩ := hfit
  cases hl : lineMode d.s c with
  | true =>
    rcases hcut : cutLine b with _ | ⟨l, r⟩
    · rw [step_line_none hq hl hcut]
      exact List.prefix_rfl
    · rw [step_line_some hq hl hcut]
      exact (log_join hf next d.log _).trans (log_settle hf _)
  | false =>
    rw [step_data b hq hl]
    refine List.IsPrefix.trans ?_ (log_settle hf _)
    unfold onData
    dsimp only
    rw [hf.push]
    exact List.prefix_append _ _

theorem log_run (hf : Uncut f) {d t : Decoder} {b c : List Byte} (hrun : Run machine d b t c) :
    d.log.flatMap f <+: t.log.flatMap f := by
  induction hrun with
  | refl => exact List.prefix_rfl
  | head _ hfit _ ih => exact (log_step hf hfit).trans ih

/-- Among the data every byte leaves something in the log: data, or the end of the reply. -/
theorem log_data {d t : Decoder} {b : List Byte} {c : Call} {next : List Call}
    (hq : d.s.recvq = c :: next) (hs : d.s.state = .S_REPLY_DATA) (hb : b ≠ [])
    (hrun : Drains machine d b t) :
    d.log.flatMap (contentOf c.id) ≠ t.log.flatMap (contentOf c.id) ∨
      d.log.flatMap completionOf ≠ t.log.flatMap completionOf := by
  have hl : lineMode d.s c = false := by
    unfold lineMode
    rw [hs]
  have hpos := List.length_pos_iff.mpr hb
  obtain ⟨-, hrest⟩ := hrun.step hb
  by_cases hneed : needed d.s c = 0
  · right
    have hgrow := (log_run uncut_completion hrest).length_le
    have hstop : ((machine.step d b).1.log.flatMap completionOf).length =
        (d.log.flatMap completionOf).length + 1 := by
      change ((step d b).1.log.flatMap completionOf).length = _
      rw [step_data b hq hl, hneed, Nat.min_zero]
      unfold settle onData
      dsimp only
      rw [if_pos (by simp [hs]), uncut_completion.push, uncut_completion.push]
      simp [completionOf]
    intro heq
    rw [← heq, hstop] at hgrow
    omega
  · left
    have hgrow := (log_run (uncut_data c.id) hrest).length_le
    have hmore : (d.log.flatMap (contentOf c.id)).length <
        ((machine.step d b).1.log.flatMap (contentOf c.id)).length := by
      change _ < ((step d b).1.log.flatMap (contentOf c.id)).length
      rw [step_data b hq hl]
      refine Nat.lt_of_lt_of_le ?_ (log_settle (uncut_data c.id) _).length_le
      unfold onData
      dsimp only
      rw [(uncut_data c.id).push, List.length_append]
      simp only [contentOf, if_true, List.length_take]
      omega
    intro heq
    rw [← heq] at hgrow
    omega

end Decoder

/-! ## A reply of a declared length -/

/-- The bytes before the body. -/
def WireReply.head (w : WireReply) : List Byte :=
  crlf w.line.text ++ ((w.headers.map crlf).flatten ++ crlf [])

theorem WireReply.wire_eq (w : WireReply) : w.wire = w.head ++ w.framing.wire := by
  unfold WireReply.wire WireReply.head
  simp only [List.append_assoc]

/-- The reply has said how many bytes of content there are. -/
def Framing.declared {status : Nat} : Framing status → Bool
  | .length .. => true
  | _ => false

/-- The events of the header. -/
def WireReply.headEvents (w : WireReply) (id : Nat) : List Event :=
  .EV_CALL_RECV_START id w.status :: w.headers.map (.EV_CALL_RECV_HDR id)

section
variable {w : WireReply} {c : Call}

/-- The connection behind the header. -/
def WireReply.inData (w : WireReply) (c : Call) (next : List Call) (log : List Event) : Decoder :=
  lineStart .S_REPLY_DATA (UInt64.ofNat w.framing.body.length) true false
    (statusCall w.line c :: next) (log ++ w.headEvents c.id)

theorem read_head (hdecl : w.framing.declared = true) (hh : c.isHead = false)
    (content_length : UInt64) (has_body is_chunked : Bool) (next : List Call) (log : List Event)
    (rest : List Byte) :
    Run Decoder.machine
      (lineStart .S_REPLY_STATUS content_length has_body is_chunked (c :: next) log)
      (w.head ++ rest) (w.inData c next log) rest := by
  have hconn : w.framing.conn = (UInt64.ofNat w.framing.body.length, true, false) := by
    cases hf : w.framing with
    | length f body ne h hs hmax => rfl
    | none h => rw [hf] at hdecl; cases hdecl
    | empty f h => rw [hf] at hdecl; cases hdecl
    | chunked f chunks last trailers h hs hmax => rw [hf] at hdecl; cases hdecl
  have h1 := read_final_status_line content_length has_body is_chunked c next log hh w.ok w.lower
    w.upper ((w.headers.map crlf).flatten ++ (crlf [] ++ rest))
  have h2 := read_headers _ _ _ (statusCall w.line c) next
    (log ++ [.EV_CALL_RECV_START c.id w.status]) w.before w.after
    (read_framing_field _ _ w.framing) (crlf [] ++ rest)
  rw [hconn] at h2
  have h3 := read_headers_end_length (UInt64.ofNat w.framing.body.length) (statusCall w.line c) next
    (log ++ [.EV_CALL_RECV_START c.id w.status] ++
      w.headers.map (.EV_CALL_RECV_HDR c.id)) rest
  have hrun := h1.trans (h2.trans h3)
  simpa [WireReply.head, WireReply.inData, WireReply.headEvents] using hrun

theorem declared_length (hdecl : w.framing.declared = true) :
    w.framing.wire = w.framing.body ∧ w.framing.body.length < 2 ^ 64 := by
  cases hf : w.framing with
  | length f body ne h hs hmax => exact ⟨rfl, Nat.lt_trans hmax (by decide)⟩
  | none h => rw [hf] at hdecl; cases hdecl
  | empty f h => rw [hf] at hdecl; cases hdecl
  | chunked f chunks last trailers h hs hmax => rw [hf] at hdecl; cases hdecl

/-- A part of the body leaves the connection among the data. -/
theorem read_part (hdecl : w.framing.declared = true) (hc : c.Fresh) (next : List Call)
    (log : List Event) {x : List Byte} (hx : x.length < w.framing.body.length) :
    ∃ u, Drains Decoder.machine (w.inData c next log) x u ∧ u.s.state = .S_REPLY_DATA ∧
      u.s.recvq ≠ [] ∧ u.log.flatMap completionOf = log.flatMap completionOf := by
  have hheader : (w.inData c next log).log.flatMap completionOf = log.flatMap completionOf := by
    simp [WireReply.inData, lineStart, WireReply.headEvents, completionOf]
  by_cases hne : x = []
  · subst hne
    exact ⟨_, .refl _ _, rfl, List.cons_ne_nil _ _, hheader⟩
  · obtain ⟨-, hmax⟩ := declared_length hdecl
    have hzero : (statusCall w.line c).reply.content_bytes = 0 := by
      have hfresh : c.reply = Reply.zero := hc
      unfold statusCall
      rw [hfresh]
      rfl
    have hneed : Decoder.needed (w.inData c next log).s (statusCall w.line c) =
        w.framing.body.length := by
      unfold Decoder.needed
      rw [hzero, UInt64.sub_zero]
      exact UInt64.toNat_ofNat_of_lt' hmax
    have hfits : Decoder.machine.fits (w.inData c next log) x :=
      ⟨_, next, rfl, rfl, fun hl => absurd hl Bool.false_ne_true⟩
    have hstep := Decoder.step_midData_nil (d := w.inData c next log) (a := x) rfl rfl rfl
      (by rw [hneed]; exact hx)
    have hrun := Run.one hne hfits
    change Run _ _ _ (Decoder.step _ _).1 (Decoder.step _ _).2 at hrun
    rw [hstep] at hrun
    refine ⟨_, hrun, rfl, List.cons_ne_nil _ _, ?_⟩
    dsimp only [Decoder.midData, Decoder.onData]
    rw [uncut_completion.push, hheader]
    exact List.append_nil _

/-- A part of the header leaves the connection before the data, and nothing is complete. -/
theorem read_part_of_head (hdecl : w.framing.declared = true) (hh : c.isHead = false)
    (content_length : UInt64) (has_body is_chunked : Bool) (next : List Call) (log : List Event)
    {x y : List Byte} (hxy : x ++ y = w.head) (hy : y ≠ []) :
    ∃ u, Drains Decoder.machine
        (lineStart .S_REPLY_STATUS content_length has_body is_chunked (c :: next) log) x u ∧
      u.s.state ≠ .S_REPLY_DATA ∧ u.s.recvq ≠ [] ∧
      u.log.flatMap completionOf = log.flatMap completionOf := by
  have hrun := read_head hdecl hh content_length has_body is_chunked next log []
  rw [List.append_nil, ← hxy] at hrun
  obtain ⟨u, hu, hrest⟩ := Drains.split Decoder.machine_resumable hrun
  -- the events of a header have neither content nor completions
  have hsame : ∀ {β : Type} {f : Event → List β}, Uncut f →
      (w.headEvents c.id).flatMap f = [] → u.log.flatMap f = log.flatMap f ∧
        (w.inData c next log).log.flatMap f = log.flatMap f := by
    intro β f hf hnil
    have hend : (w.inData c next log).log.flatMap f = log.flatMap f := by
      unfold WireReply.inData lineStart
      rw [List.flatMap_append, hnil, List.append_nil]
    have h1 := Decoder.log_run hf hu
    have h2 := Decoder.log_run hf hrest
    rw [hend] at h2
    exact ⟨h2.eq_of_length_le h1.length_le, hend⟩
  have hcompletion := hsame uncut_completion (by simp [WireReply.headEvents, completionOf])
  obtain ⟨⟨c', next', hq, -, -⟩, -⟩ := hrest.step hy
  refine ⟨u, hu, fun hdata => ?_, by rw [hq]; simp, hcompletion.1⟩
  have hcontent := hsame (uncut_data c'.id) (by simp [WireReply.headEvents, contentOf])
  rcases Decoder.log_data hq hdata hy hrest with h | h
  · exact h (hcontent.1.trans hcontent.2.symm)
  · exact h (hcompletion.1.trans hcompletion.2.symm)

end

/-! ## The end of the stream -/

/-- A stream that stops `k` bytes into the reply `w`, behind the replies `ws`. -/
structure Truncated (s : Conn) (ws : List WireReply) (w : WireReply) (k : Nat)
    (bufs : List (List Byte)) : Prop where
  waiting : s.Waiting
  calls : ws.length < s.recvq.length
  requests : ∀ c ∈ s.recvq.take (ws.length + 1), c.isHead = false
  declared : w.framing.declared = true
  short : k < w.wire.length
  stream : bufs.flatten = (ws.map WireReply.wire).flatten ++ w.wire.take k
  reads : Reads bufs

/-- The connection fails at the end of the stream, and only the `n` replies before are complete. -/
def FailsAtEnd (h : Handlers) (s : Conn) (bufs : List (List Byte)) (n : Nat) : Prop :=
  ∃ s' log', do_recvs h (bufs.map Read.data ++ [.eof]) s [] = .ok (s', log') ∧
    (log'.flatMap completionOf).length = n ∧ .EV_CONN_FAILED ∈ log'

theorem stream_completions {ws : List WireReply} {cs : List Call} (hlen : cs.length = ws.length) :
    ((streamEvents ws cs).flatMap completionOf).length = ws.length := by
  induction ws generalizing cs with
  | nil => rfl
  | cons w ws ih =>
    cases cs with
    | nil => cases hlen
    | cons c cs =>
      have hdata : (dataEvents c.id w.framing.body).flatMap completionOf = [] := by
        unfold dataEvents
        split <;> rfl
      have hheaders : (w.headers.map (.EV_CALL_RECV_HDR c.id)).flatMap completionOf = [] := by
        simp [completionOf]
      have htrailers :
          (w.framing.trailers.map (.EV_CALL_RECV_FOOTER c.id)).flatMap completionOf = [] := by
        simp [completionOf]
      have hone : (w.events c.id).flatMap completionOf =
          completionOf (.EV_CALL_RECV_STOP c.id w.reply) := by
        unfold WireReply.events
        simp [hheaders, hdata, htrailers, completionOf]
      rw [streamEvents, List.flatMap_append, List.length_append, hone, ih (Nat.succ.inj hlen),
        List.length_cons, Nat.add_comm]
      rfl

/-- At the end of the stream the connection fails exactly when it is not among the data. -/
theorem fails_at_end_iff {h : Handlers} (hq : h.Quiet) {s s1 : Conn} {log1 : List Event}
    {bufs : List (List Byte)} {n : Nat}
    (hrun : do_recvs h (bufs.map Read.data) s [] = .ok (s1, log1)) (hne : s1.recvq ≠ [])
    (hn : (log1.flatMap completionOf).length = n) :
    FailsAtEnd h s bufs n ↔ s1.state ≠ .S_REPLY_DATA := by
  obtain ⟨c, next, hqueue⟩ := List.exists_cons_of_ne_nil hne
  have hall : do_recvs h (bufs.map Read.data ++ [.eof]) s [] = do_recv h .eof s1 log1 := by
    rw [do_recvs_append _ hrun, do_recvs, if_neg hne]
    cases do_recv h .eof s1 log1 with
    | error e => rfl
    | ok p => rfl
  unfold FailsAtEnd
  rw [hall]
  unfold do_recv
  rw [hqueue]
  dsimp only
  by_cases hdata : s1.state = .S_REPLY_DATA
  · rw [if_neg (not_not.mpr hdata)]
    refine ⟨fun hfails => ?_, fun h => absurd hdata h⟩
    obtain ⟨s', log', hok, hcount, -⟩ := hfails
    unfold recv_done at hok
    rw [event_signal_quiet hq] at hok
    cases hok
    rw [List.flatMap_append, List.length_append, hn] at hcount
    simp [completionOf] at hcount
  · rw [if_pos hdata]
    refine ⟨fun _ => hdata, fun _ => ⟨_, _, rfl, ?_, ?_⟩⟩
    · rw [event_signal_quiet hq]
      dsimp only
      rw [List.flatMap_append, List.length_append, hn]
      rfl
    · rw [event_signal_quiet hq]
      exact List.mem_append_right _ List.mem_cons_self

/-- The connection before the end of the stream: among the data, or with the header not complete. -/
theorem truncated_state {h : Handlers} (hq : h.Quiet) {s : Conn} {ws : List WireReply}
    {w : WireReply} {k : Nat} {bufs : List (List Byte)} (ht : Truncated s ws w k bufs) :
    ∃ s1 log1, do_recvs h (bufs.map Read.data) s [] = .ok (s1, log1) ∧ s1.recvq ≠ [] ∧
      (log1.flatMap completionOf).length = ws.length ∧
      (s1.state ≠ .S_REPLY_DATA ↔ k < w.head.length) := by
  -- the calls of the replies before, and the call of the reply that stops
  obtain ⟨c, next, hdrop⟩ : ∃ c next, s.recvq.drop ws.length = c :: next := by
    apply List.exists_cons_of_ne_nil
    rw [Ne, List.drop_eq_nil_iff, Nat.not_le]
    exact ht.calls
  have hsplit : s.recvq = s.recvq.take ws.length ++ c :: next := by
    rw [← hdrop, List.take_append_drop]
  have hlen : (s.recvq.take ws.length).length = ws.length :=
    List.length_take_of_le (Nat.le_of_lt ht.calls)
  generalize s.recvq.take ws.length = cs at hsplit hlen
  have htake : s.recvq.take (ws.length + 1) = cs ++ [c] := by
    rw [hsplit, List.take_append, hlen, Nat.add_sub_cancel_left,
      List.take_of_length_le (Nat.le_succ_of_le (Nat.le_of_eq hlen))]
    rfl
  have hreq : ∀ x ∈ cs ++ [c], x.isHead = false := htake ▸ ht.requests
  have hfresh : ∀ x ∈ s.recvq, x.Fresh := ht.waiting.fresh
  obtain ⟨cl, hb, ch, hbefore⟩ := read_replies ws (c :: next) hlen
    (fun x hx =>
      ⟨hfresh x (hsplit ▸ List.mem_append_left _ hx), hreq x (List.mem_append_left _ hx)⟩)
    s.content_length s.has_body s.is_chunked (merged []) (w.wire.take k)
  have hc : c.Fresh := hfresh c (hsplit ▸ List.mem_append_right _ List.mem_cons_self)
  have hh : c.isHead = false := hreq c (List.mem_append_right _ List.mem_cons_self)
  obtain ⟨u, hu, hstate, hqueue, hcount⟩ : ∃ u, Drains Decoder.machine
      (lineStart .S_REPLY_STATUS cl hb ch (c :: next) (merged [] ++ streamEvents ws cs))
      (w.wire.take k) u ∧ (u.s.state ≠ .S_REPLY_DATA ↔ k < w.head.length) ∧ u.s.recvq ≠ [] ∧
      u.log.flatMap completionOf = (merged [] ++ streamEvents ws cs).flatMap completionOf := by
    by_cases hk : k < w.head.length
    · have hwire : w.wire.take k = w.head.take k := by
        rw [w.wire_eq, List.take_append_of_le_length (Nat.le_of_lt hk)]
      have hrest : w.head.drop k ≠ [] := by
        rw [Ne, List.drop_eq_nil_iff, Nat.not_le]
        exact hk
      obtain ⟨u, hu, hstate, hqueue, hcount⟩ := read_part_of_head ht.declared hh cl hb ch next
        (merged [] ++ streamEvents ws cs) (List.take_append_drop k w.head) hrest
      rw [hwire]
      exact ⟨u, hu, iff_of_true hstate hk, hqueue, hcount⟩
    · have hwire : w.wire.take k = w.head ++ w.framing.body.take (k - w.head.length) := by
        rw [w.wire_eq, (declared_length ht.declared).1, List.take_append,
          List.take_of_length_le (Nat.not_lt.mp hk)]
      have hshort := ht.short
      rw [w.wire_eq, (declared_length ht.declared).1, List.length_append] at hshort
      obtain ⟨u, hu, hstate, hqueue, hcount⟩ := read_part ht.declared hc next
        (merged [] ++ streamEvents ws cs) (x := w.framing.body.take (k - w.head.length))
        (by rw [List.length_take]; omega)
      rw [hwire]
      exact ⟨u, (read_head ht.declared hh cl hb ch next _ _).trans hu,
        iff_of_false (not_not.mpr hstate) hk, hqueue, hcount⟩
  have hdrains := hbefore.trans hu
  rw [← hsplit, ← ht.stream, ← decoder_waiting [] ht.waiting.state ht.waiting.line
    hfresh] at hdrains
  obtain ⟨s1, log1, hrun, rfl⟩ := any_cut_of_the_stream_decodes hq hdrains (reads_ne ht.reads)
  refine ⟨s1, log1, hrun, fun hnil => hqueue (by unfold Conn.decoder; rw [hnil]; rfl), ?_, hstate⟩
  rw [← uncut_completion.merged log1]
  change ((s1.decoder log1).log.flatMap completionOf).length = _
  rw [hcount]
  exact stream_completions hlen

/-- A reply of a declared length that is cut off is reported as a failure exactly when it is cut off
before the end of its header. -/
theorem truncated_reply_fails_iff {h : Handlers} (hq : h.Quiet) {s : Conn} {ws : List WireReply}
    {w : WireReply} {k : Nat} {bufs : List (List Byte)} (ht : Truncated s ws w k bufs) :
    FailsAtEnd h s bufs ws.length ↔ k < w.head.length := by
  obtain ⟨s1, log1, hrun, hne, hcount, hstate⟩ := truncated_state hq ht
  rw [fails_at_end_iff hq hrun hne hcount, hstate]

/-- The first `k` bytes of a reply in one read. -/
theorem ok_truncated {k : Nat} (hpos : 1 ≤ k) (hk : k < okReply.wire.length) :
    Truncated oneCall [] okReply k [okReply.wire.take k] where
  waiting := oneCall_waiting
  calls := by decide
  requests := by
    intro c hc
    obtain rfl := List.mem_singleton.mp hc
    decide
  declared := rfl
  short := hk
  stream := List.append_nil _
  reads := by
    have hlen : okReply.wire.length ≤ 8192 := by decide
    intro b hb
    obtain rfl := List.mem_singleton.mp hb
    rw [List.length_take]
    omega

theorem ok_reply_fails_in_its_header : FailsAtEnd quiet oneCall [okReply.wire.take 20] 0 :=
  (truncated_reply_fails_iff (fun _ => rfl) (ok_truncated (by decide) (by decide))).mpr (by decide)

/-- One of two content bytes, and the reply counts as complete. -/
theorem a_reply_without_its_last_byte_is_complete :
    ¬ FailsAtEnd quiet oneCall [okReply.wire.take 39] 0 := by
  have hq : quiet.Quiet := fun _ => rfl
  obtain ⟨s1, log1, hrun, hne, hcount, hstate⟩ :=
    truncated_state hq (ok_truncated (k := 39) (by decide) (by decide))
  intro hfails
  exact absurd (hstate.mp ((fails_at_end_iff hq hrun hne hcount).mp hfails)) (by decide)

end Httperf
