-- What the reply parser is for: a decoder that takes a stream of replies line by line and
-- piece by piece. It knows nothing of reads and buffers, and a cut of the stream makes no
-- difference to it.
import Httperf.Recv
import Httperf.Lib.Resume

namespace Httperf

/-! ## Lines of the stream -/

/-- The first line of the input with its LF, and the rest. -/
def cutLine : List Byte → Option (List Byte × List Byte)
  | [] => none
  | c :: b => if c = LF then some ([LF], b) else (cutLine b).map fun (l, r) => (c :: l, r)

theorem cutLine_append_some {a l r : List Byte} (b : List Byte) (h : cutLine a = some (l, r)) :
    cutLine (a ++ b) = some (l, r ++ b) := by
  induction a generalizing l with
  | nil => simp [cutLine] at h
  | cons c a ih =>
    simp only [cutLine, List.cons_append] at h ⊢
    split
    · rename_i hc; simp only [hc, if_true, Option.some.injEq, Prod.mk.injEq] at h
      rw [← h.1, ← h.2]
    · rename_i hc
      simp only [hc, if_false, Option.map_eq_some_iff, Prod.mk.injEq, Prod.exists] at h
      obtain ⟨l', r', hcut, rfl, rfl⟩ := h
      rw [ih hcut]
      rfl

theorem cutLine_append_none {a : List Byte} (b : List Byte) (h : cutLine a = none) :
    cutLine (a ++ b) = (cutLine b).map fun (l, r) => (a ++ l, r) := by
  induction a with
  | nil => simp
  | cons c a ih =>
    simp only [cutLine, List.cons_append] at h ⊢
    split at h
    · cases h
    · rename_i hc
      simp only [Option.map_eq_none_iff] at h
      simp only [hc, if_false, ih h, Option.map_map]
      rfl

theorem cutLine_some {b l r : List Byte} (h : cutLine b = some (l, r)) :
    b = l ++ r ∧ ∃ p, l = p ++ [LF] ∧ LF ∉ p := by
  induction b generalizing l with
  | nil => simp [cutLine] at h
  | cons c b ih =>
    simp only [cutLine] at h
    split at h
    · rename_i hc
      simp only [Option.some.injEq, Prod.mk.injEq] at h
      obtain ⟨rfl, rfl⟩ := h
      exact ⟨by simp [hc], [], rfl, by simp⟩
    · rename_i hc
      simp only [Option.map_eq_some_iff, Prod.mk.injEq, Prod.exists] at h
      obtain ⟨l', r', hcut, rfl, rfl⟩ := h
      obtain ⟨hb, p, rfl, hp⟩ := ih hcut
      exact ⟨by rw [hb]; rfl, c :: p, rfl, by simp [hp, Ne.symm hc]⟩

theorem cutLine_none {b : List Byte} (h : cutLine b = none) : LF ∉ b := by
  induction b with
  | nil => simp
  | cons c b ih =>
    simp only [cutLine] at h
    split at h
    · cases h
    · rename_i hc
      simp only [Option.map_eq_none_iff] at h
      simp [ih h, Ne.symm hc]

theorem cutLine_of_noLF {b : List Byte} (h : LF ∉ b) : cutLine b = none := by
  cases hc : cutLine b with
  | none => rfl
  | some v =>
    obtain ⟨rfl, p, hp, -⟩ := cutLine_some (l := v.1) (r := v.2) hc
    exact absurd (by rw [hp]; simp) h

/-- A line without LF, and then LF: the cut is there. -/
theorem cutLine_line (p r : List Byte) (h : LF ∉ p) :
    cutLine (p ++ LF :: r) = some (p ++ [LF], r) := by
  induction p with
  | nil => simp [cutLine]
  | cons c p ih =>
    simp only [List.mem_cons, not_or] at h
    simp [cutLine, Ne.symm h.1, ih h.2]

/-- The next line of the stream has no NUL and fits into the line buffer, after the part
`line` of it that stands there already. -/
def lineFits (line b : List Byte) : Prop :=
  match cutLine b with
  | some (l, _) => 0 ∉ line ++ l ∧ (line ++ l).length < MAX_HDR_LINE_LEN
  | none => 0 ∉ line ++ b ∧ (line ++ b).length < MAX_HDR_LINE_LEN - 1

theorem lineFits_left {line a b : List Byte} (h : lineFits line (a ++ b)) : lineFits line a := by
  unfold lineFits at *
  rcases ha : cutLine a with _ | ⟨l, r⟩
  · rw [cutLine_append_none b ha] at h
    rcases hb : cutLine b with _ | ⟨l, r⟩
    · simp only [hb, Option.map_none, MAX_HDR_LINE_LEN] at h ⊢
      simp only [List.mem_append, not_or, List.length_append] at h ⊢
      exact ⟨⟨h.1.1, h.1.2.1⟩, by omega⟩
    · simp only [hb, Option.map_some, MAX_HDR_LINE_LEN] at h ⊢
      obtain ⟨_, p, hp, _⟩ := cutLine_some hb
      simp only [hp, List.mem_append, not_or, List.length_append, List.length_singleton] at h ⊢
      exact ⟨⟨h.1.1, h.1.2.1⟩, by omega⟩
  · rw [cutLine_append_some b ha] at h
    exact h

theorem lineFits_right {line a b : List Byte} (ha : cutLine a = none)
    (h : lineFits line (a ++ b)) : lineFits (line ++ a) b := by
  unfold lineFits at *
  rw [cutLine_append_none b ha] at h
  rcases hb : cutLine b with _ | ⟨l, r⟩ <;> simpa [hb] using h

/-! ## The log without the cuts -/

/-- One more event in a log that hides how the stream was cut: pieces of data that follow
each other are one piece, and the raw data and the header count are left out. -/
def pushEvent (log : List Event) (e : Event) : List Event :=
  match e with
  | .EV_CALL_RECV_RAW_DATA _ _ => log
  | .EV_CALL_RECV_DATA id d =>
    match log.getLast? with
    | some (.EV_CALL_RECV_DATA id' d') =>
      if id' = id then log.dropLast ++ [.EV_CALL_RECV_DATA id (d' ++ d)] else log ++ [e]
    | _ => log ++ [e]
  | .EV_CALL_RECV_STOP id reply =>
    log ++ [.EV_CALL_RECV_STOP id { reply with header_bytes := 0 }]
  | e => log ++ [e]

/-- The log of a run, without the cuts. -/
def merged (log : List Event) : List Event := log.foldl pushEvent []

@[simp] theorem merged_snoc (log : List Event) (e : Event) :
    merged (log ++ [e]) = pushEvent (merged log) e := by
  simp [merged]

/-- Data join the last event of the log if it has data of the same call. -/
theorem pushEvent_data_cases (log : List Event) (id : Nat) (d : List Byte) :
    (∃ log' d', log = log' ++ [.EV_CALL_RECV_DATA id d'] ∧
      pushEvent log (.EV_CALL_RECV_DATA id d) = log' ++ [.EV_CALL_RECV_DATA id (d' ++ d)]) ∨
    ((∀ d', log.getLast? ≠ some (.EV_CALL_RECV_DATA id d')) ∧
      pushEvent log (.EV_CALL_RECV_DATA id d) = log ++ [.EV_CALL_RECV_DATA id d]) := by
  by_cases hlast : ∃ d', log.getLast? = some (.EV_CALL_RECV_DATA id d')
  · left
    obtain ⟨d', hd'⟩ := hlast
    have hlog : log = log.dropLast ++ [.EV_CALL_RECV_DATA id d'] :=
      (List.dropLast_append_getLast? _ hd').symm
    refine ⟨log.dropLast, d', hlog, ?_⟩
    unfold pushEvent
    simp [hd']
  · right
    refine ⟨fun d' h => hlast ⟨d', h⟩, ?_⟩
    unfold pushEvent
    dsimp only
    split
    · rename_i id' d' heq
      rw [if_neg]
      rintro rfl
      exact hlast ⟨d', heq⟩
    · rfl

theorem pushEvent_data (log : List Event) (id : Nat) (x y : List Byte) :
    pushEvent (pushEvent log (.EV_CALL_RECV_DATA id x)) (.EV_CALL_RECV_DATA id y) =
      pushEvent log (.EV_CALL_RECV_DATA id (x ++ y)) := by
  have hnew : ∀ (L : List Event) (d : List Byte),
      pushEvent (L ++ [.EV_CALL_RECV_DATA id d]) (.EV_CALL_RECV_DATA id y) =
        L ++ [.EV_CALL_RECV_DATA id (d ++ y)] := by
    intro L d
    simp [pushEvent]
  rcases pushEvent_data_cases log id x with ⟨log', d', rfl, hx⟩ | ⟨hlast, hx⟩
  · rw [hx, hnew, List.append_assoc]
    simp [pushEvent]
  · rw [hx, hnew]
    rcases pushEvent_data_cases log id (x ++ y) with ⟨log', d', rfl, _⟩ | ⟨_, hxy⟩
    · exact absurd List.getLast?_concat (hlast d')
    · exact hxy.symm

/-- The events that one event of a merged log stands for. -/
def isBlock (b : List Event) : Event → Prop
  | .EV_CALL_RECV_DATA id d =>
    ∃ pieces : List (List Byte), b = pieces.map (.EV_CALL_RECV_DATA id) ∧ pieces.flatten = d
  | .EV_CALL_RECV_STOP id reply =>
    ∃ reply', b = [.EV_CALL_RECV_STOP id reply'] ∧ { reply' with header_bytes := 0 } = reply
  | e => b = [e]

/-- The log without the raw data. -/
def signalled (log : List Event) : List Event :=
  log.filter fun e => match e with
    | .EV_CALL_RECV_RAW_DATA _ _ => false
    | _ => true

theorem pushEvent_blocks {log : List Event} {bs : List (List Event)}
    (hbs : List.Forall₂ isBlock bs log) (e : Event) :
    ∃ bs', List.Forall₂ isBlock bs' (pushEvent log e) ∧
      bs'.flatten = bs.flatten ++ signalled [e] := by
  have hnew : ∀ b e', isBlock b e' → b = signalled [e] → pushEvent log e = log ++ [e'] →
      ∃ bs', List.Forall₂ isBlock bs' (pushEvent log e) ∧
        bs'.flatten = bs.flatten ++ signalled [e] := by
    intro b e' hb he hpush
    exact ⟨bs ++ [b], hpush ▸ List.rel_append hbs (.cons hb .nil), by simp [he]⟩
  cases e with
  | EV_CALL_RECV_RAW_DATA id d => exact ⟨bs, hbs, by simp [signalled]⟩
  | EV_CALL_RECV_START id status => exact hnew [_] (.EV_CALL_RECV_START id status) rfl rfl rfl
  | EV_CALL_RECV_HDR id line => exact hnew [_] (.EV_CALL_RECV_HDR id line) rfl rfl rfl
  | EV_CALL_RECV_FOOTER id line => exact hnew [_] (.EV_CALL_RECV_FOOTER id line) rfl rfl rfl
  | EV_CALL_RECV_STOP id reply =>
    exact hnew [_] (.EV_CALL_RECV_STOP id { reply with header_bytes := 0 }) ⟨reply, rfl, rfl⟩
      rfl rfl
  | EV_CONN_FAILED => exact hnew [_] .EV_CONN_FAILED rfl rfl rfl
  | EV_CALL_RECV_DATA id d =>
    rcases pushEvent_data_cases log id d with ⟨log', d', rfl, hpush⟩ | ⟨_, hpush⟩
    · -- the data join the last event of the log, and its block
      have h1 := List.forall₂_take_append _ _ _ hbs
      have h2 := List.forall₂_drop_append _ _ _ hbs
      obtain ⟨b, hb, hdrop⟩ : ∃ b, isBlock b (.EV_CALL_RECV_DATA id d') ∧
          bs.drop log'.length = [b] := by
        cases hx : bs.drop log'.length with
        | nil => rw [hx] at h2; cases h2
        | cons b l =>
          rw [hx] at h2
          obtain ⟨hb, hl⟩ := List.forall₂_cons.mp h2
          cases hl
          exact ⟨b, hb, rfl⟩
      obtain ⟨pieces, rfl, hflat⟩ := hb
      refine ⟨bs.take log'.length ++ [(pieces ++ [d]).map (.EV_CALL_RECV_DATA id)], ?_, ?_⟩
      · rw [hpush]
        exact List.rel_append h1 (.cons ⟨pieces ++ [d], rfl, by simp [hflat]⟩ .nil)
      · conv_rhs => rw [← List.take_append_drop log'.length bs, hdrop]
        simp [signalled]
    · exact hnew [_] (.EV_CALL_RECV_DATA id d) ⟨[d], rfl, by simp⟩ rfl hpush

/-- A merged log hides nothing but the cuts of the data, the raw data and the header counts. -/
theorem merged_blocks (log : List Event) :
    ∃ bs, List.Forall₂ isBlock bs (merged log) ∧ bs.flatten = signalled log := by
  induction log using List.reverseRecOn with
  | nil => exact ⟨[], .nil, rfl⟩
  | append_singleton log e ih =>
    obtain ⟨bs, hbs, hflat⟩ := ih
    obtain ⟨bs', hbs', hflat'⟩ := pushEvent_blocks hbs e
    refine ⟨bs', by rwa [merged_snoc], ?_⟩
    rw [hflat', hflat, signalled, signalled, signalled, List.filter_append]

/-! ## The decoder -/

/-- The state between two steps: the connection, with the call that is read at the head of
its queue, and the log without the cuts. The header count of each call is left out. -/
structure Decoder where
  s : Conn
  log : List Event

namespace Decoder

/-- The states in which the bytes of a reply are read. -/
def reading : ConnState → Bool
  | .S_REPLY_STATUS | .S_REPLY_HEADER | .S_REPLY_CONTINUE | .S_REPLY_DATA
  | .S_REPLY_CHUNKED | .S_REPLY_FOOTER => true
  | _ => false

/-- The next bytes are a line, not data. -/
def lineMode (s : Conn) (c : Call) : Bool :=
  match s.state with
  | .S_REPLY_DATA => false
  | .S_REPLY_CHUNKED => s.content_length ≤ c.reply.content_bytes
  | _ => true

/-- A reply that is done leaves the queue at once. -/
def settle (d : Decoder) : Decoder :=
  if d.s.state = .S_REPLY_DONE then
    match d.s.recvq with
    | [] => d
    | c :: next =>
      ⟨{ d.s with recvq := next, state := .S_REPLY_STATUS },
        pushEvent d.log (.EV_CALL_RECV_STOP c.id c.reply)⟩
  else d

/-- What every piece of the status line does, complete or not. -/
def prelude (s : Conn) : Conn :=
  if s.state = .S_REPLY_STATUS then { s with is_chunked := false, content_length := SIZE_MAX }
  else s

/-- The footer count grows with each byte that is read in this state. -/
def countFooter (s : Conn) (n : Nat) (c : Call) : Call :=
  if s.state = .S_REPLY_FOOTER then
    { c with reply.footer_bytes := c.reply.footer_bytes + UInt64.ofNat n }
  else c

def onStatus (s : Conn) (c : Call) (l : List Byte) : Conn × Call × Option Event :=
  match scan_status_line (cstr l) with
  | none => (s, c, none)
  | some (major, minor, status) =>
    let reply := { c.reply with
      version := (0x10000 * major + minor) % 2 ^ 32
      status := u_int_to_int status }
    ({ s with
        has_body := has_body_of c.isHead status
        state := if !c.isHead && status = 100 then .S_REPLY_CONTINUE else .S_REPLY_HEADER },
      { c with reply }, some (.EV_CALL_RECV_START c.id reply.status))

def onHeader (s : Conn) (c : Call) (l : List Byte) : Conn × Call × Option Event :=
  if l = [] then (headers_end s, c, none)
  else (header_field s (cstr l), c, some (.EV_CALL_RECV_HDR c.id l))

def onFooter (s : Conn) (c : Call) (l : List Byte) : Conn × Call × Option Event :=
  if l = [] then ({ s with state := .S_REPLY_DONE }, c, none)
  else (s, c, some (.EV_CALL_RECV_FOOTER c.id l))

def onChunk (s : Conn) (c : Call) (l : List Byte) : Conn × Call × Option Event :=
  let n := strtoul (cstr l) 16
  if l = [] || n.erange || !n.converted then (s, c, none)
  else if n.val = 0 then ({ s with state := .S_REPLY_FOOTER }, c, none)
  else ({ s with content_length := s.content_length + UInt64.ofNat n.val }, c,
    some (.EV_CALL_RECV_DATA c.id []))

/-- A complete line, without its line end. -/
def onLine (s : Conn) (c : Call) (l : List Byte) : Conn × Call × Option Event :=
  match s.state with
  | .S_REPLY_STATUS => onStatus s c l
  | .S_REPLY_FOOTER => onFooter s c l
  | .S_REPLY_CHUNKED => onChunk s c l
  | _ => onHeader s c l

/-- The state with the call back at the head of the queue. -/
def join (next : List Call) (log : List Event) : Conn × Call × Option Event → Decoder
  | (s, c, e) => ⟨{ s with recvq := c :: next }, (e.map (pushEvent log)).getD log⟩

/-- Data of the body. -/
def onData (s : Conn) (c : Call) (next : List Call) (log : List Event) (x : List Byte)
    (all : Bool) : Decoder :=
  ⟨{ s with
      state := if all && s.state = .S_REPLY_DATA then .S_REPLY_DONE else s.state
      recvq := { c with reply.content_bytes :=
        c.reply.content_bytes + UInt64.ofNat x.length } :: next },
    pushEvent log (.EV_CALL_RECV_DATA c.id x)⟩

def needed (s : Conn) (c : Call) : Nat := (s.content_length - c.reply.content_bytes).toNat

def step (d : Decoder) (b : List Byte) : Decoder × List Byte :=
  match d.s.recvq with
  | [] => (d, b)
  | c :: next =>
    if lineMode d.s c then
      match cutLine b with
      | none =>
        (⟨{ prelude d.s with
            line := d.s.line ++ b, recvq := countFooter d.s b.length c :: next }, d.log⟩, [])
      | some (l, r) =>
        (settle (join next d.log (onLine { prelude d.s with line := [], recvq := next }
          (countFooter d.s l.length c) (chop (d.s.line ++ l)))), r)
    else
      let k := min b.length (needed d.s c)
      (settle (onData d.s c next d.log (b.take k) (k = needed d.s c)), b.drop k)

/-- A line that the decoder can act on: a status line parses, and a chunk size does not
carry the content length past the end of its type. -/
def lineSound (s : Conn) (c : Call) (l : List Byte) : Prop :=
  (s.state = .S_REPLY_STATUS → (scan_status_line (cstr l)).isSome) ∧
    (s.state = .S_REPLY_CHUNKED → l ≠ [] → (strtoul (cstr l) 16).erange = false →
      (strtoul (cstr l) 16).converted = true → (strtoul (cstr l) 16).val ≠ 0 →
      s.content_length.toNat + (strtoul (cstr l) 16).val < 2 ^ 64 ∧
        c.reply.content_bytes.toNat < s.content_length.toNat + (strtoul (cstr l) 16).val)

/-- What the decoder needs to know of the input: a call waits for it, and in line mode the
next line fits and is sound. -/
def fits (d : Decoder) (b : List Byte) : Prop :=
  ∃ c next, d.s.recvq = c :: next ∧ reading d.s.state = true ∧
    (lineMode d.s c = true → lineFits d.s.line b ∧
      ∀ l r, cutLine b = some (l, r) → lineSound d.s c (chop (d.s.line ++ l)))

def machine : Resume.Machine Decoder Byte := ⟨step, fits⟩

/-! ## A cut makes no difference -/

@[simp] theorem prelude_state (s : Conn) : (prelude s).state = s.state := by
  unfold prelude; split <;> rfl

@[simp] theorem prelude_line (s : Conn) : (prelude s).line = s.line := by
  unfold prelude; split <;> rfl

theorem prelude_line_set (s : Conn) (l : List Byte) (q : List Call) :
    prelude { prelude s with line := l, recvq := q } =
      { prelude s with line := l, recvq := q } := by
  unfold prelude; split <;> simp_all

theorem prelude_recvq (s : Conn) (q : List Call) :
    prelude { s with recvq := q } = { prelude s with recvq := q } := by
  unfold prelude; split <;> simp_all

theorem prelude_chunked (s : Conn) (h : s.state = .S_REPLY_CHUNKED) : prelude s = s := by
  unfold prelude; simp [h]

@[simp] theorem countFooter_content (s : Conn) (n : Nat) (c : Call) :
    (countFooter s n c).reply.content_bytes = c.reply.content_bytes := by
  unfold countFooter; split <;> rfl

theorem countFooter_add (s s' : Conn) (m n : Nat) (c : Call) (h : s'.state = s.state) :
    countFooter s' n (countFooter s m c) = countFooter s (m + n) c := by
  unfold countFooter
  rw [h]
  split
  · simp [UInt64.ofNat_add, UInt64.add_assoc]
  · rfl

theorem settle_of_ne (d : Decoder) (h : d.s.state ≠ .S_REPLY_DONE) : settle d = d := by
  simp [settle, h]

/-- The state in the middle of a line. -/
def midLine (d : Decoder) (c : Call) (next : List Call) (a : List Byte) : Decoder :=
  ⟨{ prelude d.s with
      line := d.s.line ++ a, recvq := countFooter d.s a.length c :: next }, d.log⟩

theorem step_line_none {d : Decoder} {c : Call} {next : List Call} {b : List Byte}
    (hq : d.s.recvq = c :: next) (hl : lineMode d.s c = true) (hb : cutLine b = none) :
    step d b = (midLine d c next b, []) := by
  simp [step, hq, hl, hb, midLine]

theorem step_line_some {d : Decoder} {c : Call} {next : List Call} {b l r : List Byte}
    (hq : d.s.recvq = c :: next) (hl : lineMode d.s c = true) (hb : cutLine b = some (l, r)) :
    step d b = (settle (join next d.log (onLine { prelude d.s with line := [], recvq := next }
      (countFooter d.s l.length c) (chop (d.s.line ++ l)))), r) := by
  simp [step, hq, hl, hb]

theorem step_data {d : Decoder} {c : Call} {next : List Call} (b : List Byte)
    (hq : d.s.recvq = c :: next) (hl : lineMode d.s c = false) :
    step d b = (settle (onData d.s c next d.log (b.take (min b.length (needed d.s c)))
      (min b.length (needed d.s c) = needed d.s c)), b.drop (min b.length (needed d.s c))) := by
  simp [step, hq, hl]

theorem lineMode_midLine {d : Decoder} {c : Call} (next : List Call) (a : List Byte)
    (hl : lineMode d.s c = true) :
    lineMode (midLine d c next a).s (countFooter d.s a.length c) = true := by
  unfold lineMode midLine at *
  simp only [prelude_state, countFooter_content]
  cases hs : d.s.state <;> simp_all [prelude_chunked]


/-- Reading goes on in the middle of a line as if the line had come in one piece. -/
theorem step_midLine {d : Decoder} {c : Call} {next : List Call} {a : List Byte} (b : List Byte)
    (hq : d.s.recvq = c :: next) (hl : lineMode d.s c = true) (ha : cutLine a = none) :
    step d (a ++ b) = step (midLine d c next a) b := by
  have hq' : (midLine d c next a).s.recvq = countFooter d.s a.length c :: next := rfl
  have hl' := lineMode_midLine next a hl
  have hst : (midLine d c next a).s.state = d.s.state := by simp [midLine]
  have hab := cutLine_append_none b ha
  have hadd : ∀ n, countFooter (midLine d c next a).s n (countFooter d.s a.length c) =
      countFooter d.s (a.length + n) c := fun n => countFooter_add _ _ _ _ _ hst
  rcases hb : cutLine b with _ | ⟨l, r⟩
  · rw [hb] at hab
    rw [step_line_none hq hl hab, step_line_none hq' hl' hb, midLine, midLine, hadd]
    simp only [midLine, prelude_line_set, List.append_assoc, List.length_append]
  · rw [hb] at hab
    rw [step_line_some hq hl hab, step_line_some hq' hl' hb, hadd]
    simp only [midLine, prelude_line_set, List.append_assoc, List.length_append]

theorem fits_midLine {d : Decoder} {c : Call} {next : List Call} {a b : List Byte}
    (hq : d.s.recvq = c :: next) (hl : lineMode d.s c = true) (ha : cutLine a = none)
    (hf : fits d (a ++ b)) : fits (midLine d c next a) b := by
  obtain ⟨c', next', hq', hr, hfit⟩ := hf
  obtain ⟨rfl, rfl⟩ : c = c' ∧ next = next' := by simpa [hq] using hq'
  obtain ⟨hline, hsound⟩ := hfit hl
  refine ⟨countFooter d.s a.length c, next, rfl, ?_, fun _ => ⟨?_, ?_⟩⟩
  · simpa [midLine] using hr
  · exact lineFits_right ha hline
  · intro l r hb
    have hab := cutLine_append_none b ha
    rw [hb] at hab
    obtain ⟨h1, h2⟩ := hsound _ _ hab
    simp only [lineSound, midLine, prelude_state, countFooter_content, List.append_assoc]
    refine ⟨h1, fun hs => ?_⟩
    rw [prelude_chunked _ hs]
    exact h2 hs

/-- The state in the middle of the data. -/
def midData (d : Decoder) (c : Call) (next : List Call) (a : List Byte) : Decoder :=
  onData d.s c next d.log a false

theorem needed_add (s : Conn) (c : Call) (k : Nat) (h : k ≤ needed s c) :
    needed s { c with reply.content_bytes := c.reply.content_bytes + UInt64.ofNat k } =
      needed s c - k := by
  have hk : k < 2 ^ 64 := Nat.lt_of_le_of_lt h (UInt64.toNat_lt _)
  unfold needed at *
  have hle : UInt64.ofNat k ≤ s.content_length - c.reply.content_bytes := by
    rw [UInt64.le_iff_toNat_le, UInt64.toNat_ofNat_of_lt' hk]
    exact h
  have hsub : s.content_length - (c.reply.content_bytes + UInt64.ofNat k) =
      s.content_length - c.reply.content_bytes - UInt64.ofNat k := by grind
  rw [hsub, UInt64.toNat_sub_of_le _ _ hle, UInt64.toNat_ofNat_of_lt' hk]

theorem lineMode_midData {d : Decoder} {c : Call} (a : List Byte) (hr : reading d.s.state = true)
    (hl : lineMode d.s c = false) (ha : a.length < needed d.s c) (next : List Call) :
    lineMode (midData d c next a).s
      { c with reply.content_bytes := c.reply.content_bytes + UInt64.ofNat a.length } = false := by
  cases hs : d.s.state <;>
    simp only [lineMode, midData, onData, hs, Bool.false_and, reading, Bool.false_eq_true, if_false,
      decide_eq_false_iff_not, reduceCtorEq, UInt64.not_le] at *
  -- more is needed, so the count is still below the length
  have hk : a.length < 2 ^ 64 := Nat.lt_trans ha (UInt64.toNat_lt _)
  unfold needed at ha
  rw [UInt64.toNat_sub_of_le _ _ (UInt64.le_of_lt hl)] at ha
  have := UInt64.toNat_lt d.s.content_length
  rw [UInt64.lt_iff_toNat_lt] at hl ⊢
  rw [UInt64.toNat_add, UInt64.toNat_ofNat_of_lt' hk, Nat.mod_eq_of_lt (by omega)]
  omega

theorem onData_midData (d : Decoder) (c : Call) (next : List Call) (a y : List Byte) (all : Bool) :
    onData (midData d c next a).s
        { c with reply.content_bytes := c.reply.content_bytes + UInt64.ofNat a.length }
        next (midData d c next a).log y all =
      onData d.s c next d.log (a ++ y) all := by
  simp [onData, midData, pushEvent_data, UInt64.ofNat_add, UInt64.add_assoc]

theorem step_midData {d : Decoder} {c : Call} {next : List Call} {a : List Byte} (b : List Byte)
    (hq : d.s.recvq = c :: next) (hr : reading d.s.state = true) (hl : lineMode d.s c = false)
    (ha : a.length < needed d.s c) :
    step d (a ++ b) = step (midData d c next a) b := by
  have hadd := needed_add d.s c a.length (Nat.le_of_lt ha)
  have hneed : needed (midData d c next a).s
      { c with reply.content_bytes := c.reply.content_bytes + UInt64.ofNat a.length } =
        needed d.s c - a.length := hadd
  have hk : min (a ++ b).length (needed d.s c) =
      a.length + min b.length (needed d.s c - a.length) := by
    rw [List.length_append]; omega
  rw [step_data _ hq hl, step_data b rfl (lineMode_midData a hr hl ha next), hneed, hk,
    onData_midData, List.take_length_add_append, List.drop_length_add_append]
  have hall : a.length + min b.length (needed d.s c - a.length) = needed d.s c ↔
      min b.length (needed d.s c - a.length) = needed d.s c - a.length := by omega
  simp only [hall]

/-- The data at hand end inside `a`, and so does the step. -/
theorem step_data_left {d : Decoder} {c : Call} {next : List Call} {a : List Byte} (b : List Byte)
    (hq : d.s.recvq = c :: next) (hl : lineMode d.s c = false) (ha : needed d.s c ≤ a.length) :
    step d (a ++ b) = ((step d a).1, (step d a).2 ++ b) := by
  have h1 : min (a ++ b).length (needed d.s c) = needed d.s c := by
    rw [List.length_append]; omega
  have h2 : min a.length (needed d.s c) = needed d.s c := by omega
  rw [step_data _ hq hl, step_data _ hq hl, h1, h2, List.take_append_of_le_length ha,
    List.drop_append_of_le_length ha]

theorem step_midData_nil {d : Decoder} {c : Call} {next : List Call} {a : List Byte}
    (hq : d.s.recvq = c :: next) (hr : reading d.s.state = true) (hl : lineMode d.s c = false)
    (ha : a.length < needed d.s c) : step d a = (midData d c next a, []) := by
  have hmin : min a.length (needed d.s c) = a.length := by omega
  have hne : a.length ≠ needed d.s c := by omega
  rw [step_data _ hq hl, hmin, List.take_length, List.drop_length, decide_eq_false hne]
  rw [settle_of_ne]
  · rfl
  · rintro hd
    simp only [onData, Bool.false_and, Bool.false_eq_true, if_false] at hd
    simp [hd, reading] at hr

theorem fits_midData {d : Decoder} {c : Call} {next : List Call} {a b : List Byte}
    (hr : reading d.s.state = true) (hl : lineMode d.s c = false)
    (ha : a.length < needed d.s c) : fits (midData d c next a) b := by
  refine ⟨_, next, rfl, ?_, fun h => ?_⟩
  · simpa [midData, onData] using hr
  · rw [lineMode_midData a hr hl ha next] at h
    cases h

/-- Any byte of a stream may be the last of a read. -/
theorem machine_resumable : Resume.Resumable machine where
  fits_left := by
    rintro d a b - ⟨c, next, hq, hr, hfit⟩
    refine ⟨c, next, hq, hr, fun hl => ⟨lineFits_left (hfit hl).1, fun l r ha => ?_⟩⟩
    exact (hfit hl).2 l _ (cutLine_append_some b ha)
  split := by
    intro d a b _ _ hf
    obtain ⟨c, next, hq, hr, hfit⟩ := id hf
    cases hl : lineMode d.s c with
    | true =>
      rcases ha : cutLine a with _ | ⟨l, r⟩
      · right
        change (step d a).2 = [] ∧ step d (a ++ b) = step (step d a).1 b ∧ fits (step d a).1 b
        rw [step_line_none hq hl ha]
        exact ⟨rfl, step_midLine b hq hl ha, fits_midLine hq hl ha hf⟩
      · left
        change step d (a ++ b) = ((step d a).1, (step d a).2 ++ b)
        rw [step_line_some hq hl ha, step_line_some hq hl (cutLine_append_some b ha)]
    | false =>
      by_cases hlt : a.length < needed d.s c
      · right
        change (step d a).2 = [] ∧ step d (a ++ b) = step (step d a).1 b ∧ fits (step d a).1 b
        rw [step_midData_nil hq hr hl hlt]
        exact ⟨rfl, step_midData b hq hr hl hlt, fits_midData hr hl hlt⟩
      · left
        exact step_data_left b hq hl (by omega)

end Decoder

end Httperf
