-- Two cuts of one stream. The stream may hold anything that the parser takes line by line: replies
-- that it was not made for, lines that say nothing, and an end anywhere.
import Httperf.ReplyDecodes

namespace Httperf

open Resume

/-! ## The stream -/

/-- What the decoder finds next: while it reads lines, one without NUL that fits into the line
buffer, perhaps without its end. A status line parses, and the size of a chunk does not wrap. -/
structure Decoder.Sound (d : Decoder) (b : List Byte) : Prop where
  queued : d.s.recvq ≠ []
  line : ∀ c next, d.s.recvq = c :: next → Decoder.lineMode d.s c = true → lineFits d.s.line b
  status : ∀ l r, d.s.state = .S_REPLY_STATUS → cutLine b = some (l, r) →
    (scan_status_line (cstr (chop (d.s.line ++ l)))).isSome
  size : ∀ c next l r, d.s.recvq = c :: next → d.s.state = .S_REPLY_CHUNKED →
    Decoder.lineMode d.s c = true → cutLine b = some (l, r) →
    (strtoul (cstr (chop (d.s.line ++ l))) 16).erange = false →
    d.s.content_length.toNat + (strtoul (cstr (chop (d.s.line ++ l))) 16).val < 2 ^ 64

/-- All that the decoder finds in the stream is sound. -/
def StreamSound (d : Decoder) (stream : List Byte) : Prop :=
  ∀ t b, Reach Decoder.machine d stream t b → b ≠ [] → t.Sound b

/-- A connection that waits for the replies to fresh calls. -/
structure Conn.Waiting (s : Conn) : Prop where
  state : s.state = .S_REPLY_STATUS
  line : s.line = []
  fresh : ∀ c ∈ s.recvq, c.Fresh

/-- The pieces that `read` gives. -/
def Reads (bufs : List (List Byte)) : Prop := ∀ b ∈ bufs, 1 ≤ b.length ∧ b.length ≤ 8192

instance (bufs : List (List Byte)) : Decidable (Reads bufs) :=
  inferInstanceAs (Decidable (∀ b ∈ bufs, _))

/-! ## What a run comes to -/

def statusOf (id : Nat) : Event → List Int
  | .EV_CALL_RECV_START i status => if i = id then [status] else []
  | _ => []

def headerOf (id : Nat) : Event → List (List Byte)
  | .EV_CALL_RECV_HDR i line => if i = id then [line] else []
  | _ => []

def footerOf (id : Nat) : Event → List (List Byte)
  | .EV_CALL_RECV_FOOTER i line => if i = id then [line] else []
  | _ => []

def contentOf (id : Nat) : Event → List Byte
  | .EV_CALL_RECV_DATA i data => if i = id then data else []
  | _ => []

/-- A reply that is complete, with all counters but that of the header. -/
def completionOf : Event → List (Nat × Reply)
  | .EV_CALL_RECV_STOP id reply => [(id, { reply with header_bytes := 0 })]
  | _ => []

/-- The same connection, with the same calls but for their header counts, and the same events but
for the cuts. -/
structure SameOutcome (s1 s2 : Conn) (log1 log2 : List Event) : Prop where
  state : s1.state = s2.state
  line : s1.line = s2.line
  content_length : s1.content_length = s2.content_length
  has_body : s1.has_body = s2.has_body
  is_chunked : s1.is_chunked = s2.is_chunked
  calls : s1.recvq.map Call.erase = s2.recvq.map Call.erase
  status : ∀ id, log1.flatMap (statusOf id) = log2.flatMap (statusOf id)
  headers : ∀ id, log1.flatMap (headerOf id) = log2.flatMap (headerOf id)
  footers : ∀ id, log1.flatMap (footerOf id) = log2.flatMap (footerOf id)
  data : ∀ id, log1.flatMap (contentOf id) = log2.flatMap (contentOf id)
  completions : log1.flatMap completionOf = log2.flatMap completionOf

/-! ## Logs without the cuts -/

/-- A reading of events that does not see how data are cut. -/
structure Uncut {β : Type} (f : Event → List β) : Prop where
  raw : ∀ id d, f (.EV_CALL_RECV_RAW_DATA id d) = []
  data : ∀ id x y, f (.EV_CALL_RECV_DATA id (x ++ y)) =
    f (.EV_CALL_RECV_DATA id x) ++ f (.EV_CALL_RECV_DATA id y)
  stop : ∀ id reply, f (.EV_CALL_RECV_STOP id { reply with header_bytes := 0 }) =
    f (.EV_CALL_RECV_STOP id reply)

section
variable {β : Type} {f : Event → List β}

theorem Uncut.push (hf : Uncut f) (log : List Event) (e : Event) :
    (pushEvent log e).flatMap f = log.flatMap f ++ f e := by
  have hone : ∀ (L : List Event) (e : Event), (L ++ [e]).flatMap f = L.flatMap f ++ f e := by
    intro L e
    simp
  cases e with
  | EV_CALL_RECV_RAW_DATA id d => simp [pushEvent, hf.raw]
  | EV_CALL_RECV_START => exact hone _ _
  | EV_CALL_RECV_HDR => exact hone _ _
  | EV_CALL_RECV_FOOTER => exact hone _ _
  | EV_CONN_FAILED => exact hone _ _
  | EV_CALL_RECV_STOP id reply =>
    unfold pushEvent
    rw [hone, hf.stop]
  | EV_CALL_RECV_DATA id d =>
    rcases pushEvent_data_cases log id d with ⟨log', d', rfl, hpush⟩ | ⟨_, hpush⟩
    · rw [hpush, hone, hone, hf.data, List.append_assoc]
    · rw [hpush, hone]

theorem Uncut.merged (hf : Uncut f) (log : List Event) :
    (merged log).flatMap f = log.flatMap f := by
  induction log using List.reverseRecOn with
  | nil => rfl
  | append_singleton log e ih =>
    rw [merged_snoc, hf.push, ih]
    simp

end

theorem uncut_status (id : Nat) : Uncut (statusOf id) :=
  ⟨fun _ _ => rfl, fun _ _ _ => rfl, fun _ _ => rfl⟩

theorem uncut_header (id : Nat) : Uncut (headerOf id) :=
  ⟨fun _ _ => rfl, fun _ _ _ => rfl, fun _ _ => rfl⟩

theorem uncut_footer (id : Nat) : Uncut (footerOf id) :=
  ⟨fun _ _ => rfl, fun _ _ _ => rfl, fun _ _ => rfl⟩

theorem uncut_completion : Uncut completionOf :=
  ⟨fun _ _ => rfl, fun _ _ _ => rfl, fun _ _ => rfl⟩

theorem uncut_data (id : Nat) : Uncut (contentOf id) where
  raw := fun _ _ => rfl
  stop := fun _ _ => rfl
  data := by
    intro i x y
    unfold contentOf
    by_cases hi : i = id
    · simp [hi]
    · simp [hi]

/-- Connections and logs that look the same to the decoder. -/
theorem same_of_decoder {s1 s2 : Conn} {log1 log2 : List Event}
    (heq : s1.decoder log1 = s2.decoder log2) : SameOutcome s1 s2 log1 log2 := by
  have hlog : merged log1 = merged log2 := congrArg Decoder.log heq
  have hread : ∀ {β : Type} {f : Event → List β}, Uncut f → log1.flatMap f = log2.flatMap f := by
    intro β f hf
    rw [← hf.merged log1, ← hf.merged log2, hlog]
  exact {
    state := congrArg (fun d => d.s.state) heq
    line := congrArg (fun d => d.s.line) heq
    content_length := congrArg (fun d => d.s.content_length) heq
    has_body := congrArg (fun d => d.s.has_body) heq
    is_chunked := congrArg (fun d => d.s.is_chunked) heq
    calls := congrArg (fun d => d.s.recvq) heq
    status := fun id => hread (uncut_status id)
    headers := fun id => hread (uncut_header id)
    footers := fun id => hread (uncut_footer id)
    data := fun id => hread (uncut_data id)
    completions := hread uncut_completion }

/-! ## What is known of the decoder on the way -/

namespace Decoder

/-- A call has no content before its header is read, and in a chunk not more than the length. -/
def Counted (s : Conn) (c : Call) : Prop :=
  match s.state with
  | .S_REPLY_STATUS | .S_REPLY_HEADER | .S_REPLY_CONTINUE => c.reply.content_bytes = 0
  | .S_REPLY_CHUNKED => c.reply.content_bytes ≤ s.content_length
  | _ => True

/-- Before a reply that is done leaves the queue. -/
structure Stepped (d : Decoder) (c : Call) (next : List Call) : Prop where
  queue : d.s.recvq = c :: next
  state : reading d.s.state = true ∨ d.s.state = .S_REPLY_DONE
  first : Counted d.s c
  rest : ∀ x ∈ next, x.reply.content_bytes = 0

/-- Between two steps. -/
structure Between (d : Decoder) : Prop where
  state : reading d.s.state = true
  first : ∀ c ∈ d.s.recvq.head?, Counted d.s c
  rest : ∀ c ∈ d.s.recvq.tail, c.reply.content_bytes = 0

theorem Stepped.settle {d : Decoder} {c : Call} {next : List Call} (h : d.Stepped c next) :
    d.settle.Between := by
  unfold Decoder.settle
  by_cases hdone : d.s.state = .S_REPLY_DONE
  · rw [if_pos hdone, h.queue]
    refine ⟨rfl, fun x hx => ?_, fun x hx => h.rest x (List.mem_of_mem_tail hx)⟩
    exact h.rest x (List.mem_of_mem_head? hx)
  · rw [if_neg hdone]
    refine ⟨h.state.resolve_right hdone, fun x hx => ?_, fun x hx => ?_⟩
    · rw [h.queue] at hx
      obtain rfl : c = x := Option.some.inj hx
      exact h.first
    · rw [h.queue] at hx
      exact h.rest x hx

theorem counted_of_state {s s' : Conn} {c c' : Call} (hstate : s'.state = s.state)
    (hlength : s.state = .S_REPLY_CHUNKED → s'.content_length = s.content_length)
    (hbytes : c'.reply.content_bytes = c.reply.content_bytes) (h : Counted s c) :
    Counted s' c' := by
  unfold Counted at *
  rw [hstate, hbytes]
  cases hs : s.state <;> simp_all

variable {s : Conn} {c : Call} {next : List Call} {log : List Event} {l : List Byte}

theorem stepped_status (hs : s.state = .S_REPLY_STATUS) (hc : Counted s c)
    (hnext : ∀ x ∈ next, x.reply.content_bytes = 0) :
    ∃ c', (join next log (onStatus s c l)).Stepped c' next := by
  have hzero : c.reply.content_bytes = 0 := by
    unfold Counted at hc
    rw [hs] at hc
    exact hc
  unfold onStatus
  split
  · exact ⟨c, rfl, .inl (by dsimp only [join]; rw [hs]; rfl), hc, hnext⟩
  · refine ⟨_, rfl, .inl ?_, ?_, hnext⟩
    · dsimp only
      split <;> rfl
    · unfold Counted
      dsimp only
      split <;> simp_all

theorem stepped_header (hs : s.state.inHeader) (hc : Counted s c)
    (hnext : ∀ x ∈ next, x.reply.content_bytes = 0) :
    ∃ c', (join next log (onHeader s c l)).Stepped c' next := by
  have hzero : c.reply.content_bytes = 0 := by
    unfold Counted at hc
    rcases hs with hs | hs <;> rwa [hs] at hc
  have hread : reading s.state = true := by rcases hs with hs | hs <;> rw [hs] <;> rfl
  unfold onHeader
  split
  · refine ⟨c, rfl, ?_, ?_, hnext⟩
    · unfold headers_end
      dsimp only [join]
      split_ifs <;> first | exact .inl rfl | exact .inr rfl
    · unfold Counted headers_end
      dsimp only [join]
      split_ifs <;> simp_all
  · refine ⟨c, rfl, .inl ?_, ?_, hnext⟩
    · exact (header_field_s s (cstr l)).1 ▸ hread
    · refine counted_of_state (header_field_s s (cstr l)).1 (fun hch => ?_) rfl hc
      rcases hs with hs | hs <;> rw [hs] at hch <;> cases hch

theorem stepped_footer (hs : s.state = .S_REPLY_FOOTER)
    (hnext : ∀ x ∈ next, x.reply.content_bytes = 0) :
    (join next log (onFooter s c l)).Stepped c next := by
  unfold onFooter
  split
  · exact ⟨rfl, .inr rfl, trivial, hnext⟩
  · refine ⟨rfl, .inl (by dsimp only [join]; rw [hs]; rfl), ?_, hnext⟩
    unfold Counted
    dsimp only [join]
    rw [hs]
    trivial

theorem stepped_chunk (hs : s.state = .S_REPLY_CHUNKED) (hc : Counted s c)
    (hsize : (strtoul (cstr l) 16).erange = false →
      s.content_length.toNat + (strtoul (cstr l) 16).val < 2 ^ 64)
    (hnext : ∀ x ∈ next, x.reply.content_bytes = 0) :
    (join next log (onChunk s c l)).Stepped c next := by
  have hle : c.reply.content_bytes ≤ s.content_length := by
    unfold Counted at hc
    rwa [hs] at hc
  unfold onChunk
  dsimp only
  split_ifs
  · exact ⟨rfl, .inl (by dsimp only [join]; rw [hs]; rfl), hc, hnext⟩
  · exact ⟨rfl, .inl rfl, trivial, hnext⟩
  · rename_i hbad _
    rw [Bool.or_eq_true, Bool.or_eq_true, not_or, not_or, Bool.not_eq_true] at hbad
    have hsize := hsize (Bool.not_eq_true _ ▸ hbad.1.2)
    refine ⟨rfl, .inl (by dsimp only [join]; rw [hs]; rfl), ?_, hnext⟩
    unfold Counted
    dsimp only [join]
    rw [hs]
    dsimp only
    have hval : (strtoul (cstr l) 16).val < 2 ^ 64 := by omega
    rw [UInt64.le_iff_toNat_le] at hle ⊢
    rw [UInt64.toNat_add, UInt64.toNat_ofNat_of_lt' hval, Nat.mod_eq_of_lt hsize]
    omega

theorem stepped_data (log : List Event) {x : List Byte} (all : Bool) (hr : reading s.state = true)
    (hl : lineMode s c = false) (hx : x.length ≤ needed s c)
    (hnext : ∀ x ∈ next, x.reply.content_bytes = 0) :
    ∃ c', (onData s c next log x all).Stepped c' next := by
  refine ⟨_, rfl, ?_, ?_, hnext⟩
  · unfold onData
    dsimp only
    split
    · exact .inr rfl
    · exact .inl hr
  · unfold Counted onData
    dsimp only
    cases hs : s.state <;> simp only [hs, lineMode, reading, Bool.and_false, Bool.and_true,
      reduceCtorEq, decide_false, decide_true, Bool.false_eq_true, if_false] at hr hl ⊢
    case S_REPLY_DATA => cases all <;> trivial
    case S_REPLY_CHUNKED =>
      have hlt := UInt64.not_le.mp (of_decide_eq_false hl)
      have hsub := UInt64.toNat_sub_of_le _ _ (UInt64.le_of_lt hlt)
      have hsize := UInt64.toNat_lt s.content_length
      unfold needed at hx
      rw [hsub] at hx
      rw [UInt64.lt_iff_toNat_lt] at hlt
      have hval : x.length < 2 ^ 64 := by omega
      rw [UInt64.le_iff_toNat_le, UInt64.toNat_add, UInt64.toNat_ofNat_of_lt' hval,
        Nat.mod_eq_of_lt (by omega)]
      omega

theorem stepped_line (log : List Event) (hr : reading s.state = true)
    (hdata : s.state ≠ .S_REPLY_DATA) (hc : Counted s c)
    (hsize : s.state = .S_REPLY_CHUNKED → (strtoul (cstr l) 16).erange = false →
      s.content_length.toNat + (strtoul (cstr l) 16).val < 2 ^ 64)
    (hnext : ∀ x ∈ next, x.reply.content_bytes = 0) :
    ∃ c', (join next log (onLine s c l)).Stepped c' next := by
  unfold onLine
  cases hs :
    s.state <;> simp only [hs, reading, Bool.false_eq_true, ne_eq, not_true_eq_false] at hr hdata ⊢
  case S_REPLY_STATUS => exact stepped_status hs hc hnext
  case S_REPLY_HEADER => exact stepped_header (.inl hs) hc hnext
  case S_REPLY_CONTINUE => exact stepped_header (.inr hs) hc hnext
  case S_REPLY_FOOTER => exact ⟨c, stepped_footer hs hnext⟩
  case S_REPLY_CHUNKED => exact ⟨c, stepped_chunk hs hc (hsize hs) hnext⟩

/-- What is known of the decoder stays true. -/
theorem between_step {d : Decoder} {b : List Byte} (hd : d.Between) (hs : d.Sound b) :
    (step d b).1.Between := by
  obtain ⟨c, next, hq⟩ := List.exists_cons_of_ne_nil hs.queued
  have hfirst : Counted d.s c := hd.first c (by rw [hq]; rfl)
  have hrest : ∀ x ∈ next, x.reply.content_bytes = 0 := by
    intro x hx
    exact hd.rest x (by rw [hq]; exact hx)
  cases hl : lineMode d.s c with
  | false =>
    rw [step_data b hq hl]
    have hshort : (b.take (min b.length (needed d.s c))).length ≤ needed d.s c := by
      rw [List.length_take]
      omega
    obtain ⟨c', hstep⟩ :=
      stepped_data d.log (min b.length (needed d.s c) = needed d.s c) hd.state hl
      hshort hrest
    exact hstep.settle
  | true =>
    rcases hcut : cutLine b with _ | ⟨l, r⟩
    · rw [step_line_none hq hl hcut]
      refine ⟨?_, ?_, hrest⟩
      · dsimp only [midLine]
        rw [prelude_state]
        exact hd.state
      · intro x hx
        obtain rfl : countFooter d.s b.length c = x := Option.some.inj hx
        refine counted_of_state (prelude_state d.s) (fun hch => ?_)
          (countFooter_content _ _ _) hfirst
        dsimp only [midLine]
        rw [prelude_chunked d.s hch]
    · rw [step_line_some hq hl hcut]
      have hcount : ∀ q, Counted { prelude d.s with line := [], recvq := q }
          (countFooter d.s l.length c) := by
        intro q
        refine counted_of_state (prelude_state d.s) (fun hch => ?_)
          (countFooter_content _ _ _) hfirst
        dsimp only
        rw [prelude_chunked d.s hch]
      have hdata : d.s.state ≠ .S_REPLY_DATA := by
        intro hst
        unfold lineMode at hl
        rw [hst] at hl
        cases hl
      have hsize : d.s.state = .S_REPLY_CHUNKED →
          (strtoul (cstr (chop (d.s.line ++ l))) 16).erange = false →
          (prelude d.s).content_length.toNat +
            (strtoul (cstr (chop (d.s.line ++ l))) 16).val < 2 ^ 64 := by
        intro hch
        rw [prelude_chunked d.s hch]
        exact hs.size c next l r hq hch hl hcut
      rw [← prelude_state d.s] at hdata hsize
      have hread : reading (prelude d.s).state = true := (prelude_state d.s).symm ▸ hd.state
      obtain ⟨c', hstep⟩ := stepped_line (s := { prelude d.s with line := [], recvq := next }) d.log
        hread hdata (hcount next) hsize hrest
      exact hstep.settle

theorem fits_of_sound {d : Decoder} {b : List Byte} (hd : d.Between) (hs : d.Sound b) :
    fits d b := by
  obtain ⟨c, next, hq⟩ := List.exists_cons_of_ne_nil hs.queued
  refine ⟨c, next, hq, hd.state, fun hl => ⟨hs.line c next hq hl, fun l r hcut => ⟨?_, ?_⟩⟩⟩
  · intro hst
    exact hs.status l r hst hcut
  · intro hch _ hrange _ hpos
    have hsize := hs.size c next l r hq hch hl hcut hrange
    -- between two chunks the count has reached the length
    have hle : c.reply.content_bytes ≤ d.s.content_length := by
      have hfirst := hd.first c (by rw [hq]; rfl)
      unfold Counted at hfirst
      rwa [hch] at hfirst
    rw [UInt64.le_iff_toNat_le] at hle
    exact ⟨hsize, by omega⟩

/-- Data of length 0 take no byte, but they end the reply. -/
def rank (d : Decoder) (b : List Byte) : Nat :=
  2 * b.length + if d.s.state = .S_REPLY_DATA then 1 else 0

theorem rank_step {d : Decoder} {b : List Byte} (hb : b ≠ []) (hf : fits d b) :
    rank (step d b).1 (step d b).2 < rank d b := by
  obtain ⟨c, next, hq, hr, -⟩ := hf
  have hpos := List.length_pos_iff.mpr hb
  have hshort : (step d b).2.length < b.length → rank (step d b).1 (step d b).2 < rank d b := by
    intro h
    unfold rank
    split <;> split <;> omega
  cases hl : lineMode d.s c with
  | true =>
    apply hshort
    rcases hcut : cutLine b with _ | ⟨l, r⟩
    · rw [step_line_none hq hl hcut]
      exact hpos
    · rw [step_line_some hq hl hcut]
      obtain ⟨hsplit, p, hp, _⟩ := cutLine_some hcut
      dsimp only
      rw [hsplit, hp, List.length_append, List.length_append, List.length_singleton]
      omega
  | false =>
    by_cases hneed : needed d.s c = 0
    · have hstate : d.s.state = .S_REPLY_DATA := by
        unfold lineMode at hl
        split at hl
        · assumption
        · -- a chunk that is not read to its end needs some bytes
          have hlt := UInt64.not_le.mp (of_decide_eq_false hl)
          unfold needed at hneed
          rw [UInt64.toNat_sub_of_le _ _ (UInt64.le_of_lt hlt)] at hneed
          rw [UInt64.lt_iff_toNat_lt] at hlt
          omega
        · cases hl
      rw [step_data b hq hl, hneed, Nat.min_zero, List.drop_zero]
      unfold settle onData rank
      simp [hstate]
    · apply hshort
      rw [step_data b hq hl]
      dsimp only
      rw [List.length_drop]
      omega

/-- Through a sound stream the decoder comes to its end. -/
theorem drains_of_sound {d : Decoder} {stream : List Byte} (hd : d.Between)
    (hs : StreamSound d stream) : ∃ t, Drains machine d stream t := by
  have hbetween : ∀ t b, Reach machine d stream t b → t.Between := by
    intro t b hr
    induction hr with
    | refl => exact hd
    | step hr hb ih => exact between_step ih (hs _ _ hr hb)
  apply drains_of_fits rank
  · intro t b hr hb
    exact fits_of_sound (hbetween t b hr) (hs t b hr hb)
  · intro t b hb hf
    exact rank_step hb hf

theorem strtoul_val_of_not_converted {l : List Byte} {base : Nat}
    (h : (strtoul l base).converted = false) : (strtoul l base).val = 0 := by
  unfold strtoul at *
  dsimp only at *
  split_ifs at *
  rfl

/-- What the decoder reads to the end is sound. -/
theorem sound_of_drains {d t : Decoder} {stream : List Byte} (hd : Drains machine d stream t) :
    StreamSound d stream := by
  intro u b hr hb
  obtain ⟨⟨c, next, hq, -, hfit⟩, -⟩ := (hd.reach hr).step hb
  have hone : ∀ {c' n'}, u.s.recvq = c' :: n' → c' = c := by
    intro c' n' h
    exact (List.cons.inj (h.symm.trans hq)).1
  refine ⟨by rw [hq]; simp, fun c' n' h hl => (hfit (hone h ▸ hl)).1, fun l r hst hcut => ?_, ?_⟩
  · have hl : lineMode u.s c = true := by
      unfold lineMode
      rw [hst]
    exact ((hfit hl).2 l r hcut).1 hst
  · intro c' n' l r h hch hl hcut hrange
    have hsize := ((hfit (hone h ▸ hl)).2 l r hcut).2 hch
    have hlt := UInt64.toNat_lt u.s.content_length
    by_cases hzero : (strtoul (cstr (chop (u.s.line ++ l))) 16).val = 0
    · rw [hzero]
      exact hlt
    · refine (hsize (fun hnil => hzero ?_) hrange ?_ hzero).1
      · rw [hnil]
        rfl
      · by_contra hconv
        exact hzero (strtoul_val_of_not_converted (by simpa using hconv))

end Decoder

/-! ## Two cuts -/

theorem waiting_between {s : Conn} (hw : s.Waiting) (log : List Event) :
    (s.decoder log).Between := by
  have hzero : ∀ c ∈ s.recvq.map Call.erase, c.reply.content_bytes = 0 := by
    intro c hc
    obtain ⟨x, hx, rfl⟩ := List.mem_map.mp hc
    have hfresh : x.reply = Reply.zero := hw.fresh x hx
    unfold Call.erase
    rw [hfresh]
    rfl
  refine ⟨?_, fun c hc => ?_, fun c hc => hzero c (List.mem_of_mem_tail hc)⟩
  · unfold Conn.decoder
    rw [hw.state]
    rfl
  · unfold Decoder.Counted Conn.decoder
    dsimp only
    rw [hw.state]
    exact hzero c (List.mem_of_mem_head? hc)

theorem reads_ne {bufs : List (List Byte)} (hr : Reads bufs) : ∀ b ∈ bufs, b ≠ [] := by
  intro b hb
  exact List.length_pos_iff.mp (hr b hb).1

/-- Two runs over one stream come to the same, wherever their reads cut it. -/
theorem cuts_make_no_difference {h : Handlers} (hq : h.Quiet) {s : Conn} (hw : s.Waiting)
    {bufs1 bufs2 : List (List Byte)} (h1 : Reads bufs1) (h2 : Reads bufs2)
    (hcut : bufs1.flatten = bufs2.flatten) (hs : StreamSound (s.decoder []) bufs1.flatten) :
    ∃ s1 log1 s2 log2, do_recvs h (bufs1.map Read.data) s [] = .ok (s1, log1) ∧
      do_recvs h (bufs2.map Read.data) s [] = .ok (s2, log2) ∧ SameOutcome s1 s2 log1 log2 := by
  obtain ⟨t, ht⟩ := Decoder.drains_of_sound (waiting_between hw []) hs
  obtain ⟨s1, log1, hrun1, ht1⟩ := any_cut_of_the_stream_decodes hq ht (reads_ne h1)
  rw [hcut] at ht
  obtain ⟨s2, log2, hrun2, ht2⟩ := any_cut_of_the_stream_decodes hq ht (reads_ne h2)
  exact ⟨s1, log1, s2, log2, hrun1, hrun2, same_of_decoder (ht1.trans ht2.symm)⟩

theorem oneCall_waiting : oneCall.Waiting where
  state := rfl
  line := rfl
  fresh := by
    intro c hc
    obtain rfl := List.mem_singleton.mp hc
    rfl

theorem cuts_of_an_ok_reply_make_no_difference :
    ∃ s1 log1 s2 log2,
      do_recvs quiet ([okReply.wire.take 20, okReply.wire.drop 20].map Read.data) oneCall [] =
        .ok (s1, log1) ∧
      do_recvs quiet ([okReply.wire].map Read.data) oneCall [] = .ok (s2, log2) ∧
      SameOutcome s1 s2 log1 log2 := by
  have hcall : ∀ c ∈ oneCall.recvq, c.Fresh ∧ c.isHead = false := by
    intro c hc
    refine ⟨oneCall_waiting.fresh c hc, ?_⟩
    obtain rfl := List.mem_singleton.mp hc
    decide
  have hlen : oneCall.recvq.length = [okReply].length := rfl
  obtain ⟨cl, hb, ch, hrun⟩ := read_replies [okReply] [] hlen hcall SIZE_MAX false false [] []
  have hcut : [okReply.wire.take 20, okReply.wire.drop 20].flatten =
      ([okReply].map WireReply.wire).flatten ++ [] := by decide
  refine cuts_make_no_difference (fun _ => rfl) oneCall_waiting (by decide) (by decide) hcut ?_
  rw [hcut]
  exact Decoder.sound_of_drains hrun

end Httperf
