-- The receive path of the core (`http_process_reply_bytes` of `http.c`, and `recv_done` and
-- `do_recv` of `core.c`). Each loop ends: an iteration takes bytes or a call, or it is the
-- last one.
import Httperf.Http

namespace Httperf

/-! ## The unread bytes only shrink -/

@[simp] theorem event_signal_buf (h : Handlers) (e : Event) (r : Rx) :
    (event_signal h e r).buf = r.buf := rfl

@[simp] theorem event_signal_c (h : Handlers) (e : Event) (r : Rx) :
    (event_signal h e r).c = r.c := rfl

@[simp] theorem event_signal_log (h : Handlers) (e : Event) (r : Rx) :
    (event_signal h e r).log = r.log ++ [e] := rfl

theorem status_line_read_buf (h : Handlers) (start : Nat) (r : Rx) :
    (status_line_read h start r).buf = r.buf := by
  unfold status_line_read status_done
  dsimp only
  split
  · rfl
  · split <;> rfl

theorem parse_status_line_length (h : Handlers) (r : Rx) (hb : r.buf ≠ []) :
    (parse_status_line h r).buf.length < r.buf.length := by
  have := get_line_length { r with s.is_chunked := false, s.content_length := SIZE_MAX } hb
  unfold parse_status_line
  dsimp only
  split
  · exact this
  · rw [status_line_read_buf]; exact this

theorem parse_status_line_suffix (h : Handlers) (r : Rx) :
    (parse_status_line h r).buf <:+ r.buf := by
  have hline := get_line_suffix { r with s.is_chunked := false, s.content_length := SIZE_MAX }
  unfold parse_status_line
  dsimp only
  split
  · exact hline
  · rw [status_line_read_buf]
    exact hline

theorem parse_headers_loop_suffix (h : Handlers) (r : Rx) :
    (parse_headers_loop h r).2.buf <:+ (get_line r).2.buf := by
  induction r using parse_headers_loop.induct h with
  | case1 r hf => rw [parse_headers_loop]; simp [hf]
  | case2 r r1 hf he => rw [parse_headers_loop]; simp [hf, he, r1]
  | case3 r r1 hf he r2 r3 hc => rw [parse_headers_loop]; simp [hf, he, hc, r1, r2, r3]
  | case4 r r1 hf he r2 r3 hc ih =>
    rw [parse_headers_loop]
    simp only [hf, r1, he, r2, r3, hc, if_false, Bool.false_eq_true]
    exact ih.trans (get_line_suffix _)

theorem parse_headers_buf (h : Handlers) (r : Rx) :
    (parse_headers h r).buf = (parse_headers_loop h r).2.buf := by
  unfold parse_headers
  split <;> simp_all

theorem parse_headers_length (h : Handlers) (r : Rx) (hb : r.buf ≠ []) :
    (parse_headers h r).buf.length < r.buf.length := by
  rw [parse_headers_buf]
  exact Nat.lt_of_le_of_lt (parse_headers_loop_suffix h r).length_le (get_line_length r hb)

theorem parse_headers_suffix (h : Handlers) (r : Rx) : (parse_headers h r).buf <:+ r.buf := by
  rw [parse_headers_buf]
  exact (parse_headers_loop_suffix h r).trans (get_line_suffix r)

theorem parse_footers_loop_suffix (h : Handlers) (r : Rx) :
    (parse_footers_loop h r).2.buf <:+ (get_line r).2.buf := by
  induction r using parse_footers_loop.induct h with
  | case1 r hf => rw [parse_footers_loop]; simp [hf]
  | case2 r r1 hf he => rw [parse_footers_loop]; simp [hf, he, r1]
  | case3 r r1 hf he r2 hc => rw [parse_footers_loop]; simp [hf, he, hc, r1, r2]
  | case4 r r1 hf he r2 hc ih =>
    rw [parse_footers_loop]
    simp only [hf, r1, he, r2, hc, if_false, Bool.false_eq_true]
    exact ih.trans (get_line_suffix _)

theorem parse_footers_buf (h : Handlers) (r : Rx) :
    (parse_footers h r).buf = (parse_footers_loop h r).2.buf := by
  unfold parse_footers
  split <;> simp_all

theorem parse_footers_length (h : Handlers) (r : Rx) (hb : r.buf ≠ []) :
    (parse_footers h r).buf.length < r.buf.length := by
  rw [parse_footers_buf]
  exact Nat.lt_of_le_of_lt (parse_footers_loop_suffix h r).length_le (get_line_length r hb)

theorem parse_footers_suffix (h : Handlers) (r : Rx) : (parse_footers h r).buf <:+ r.buf := by
  rw [parse_footers_buf]
  exact (parse_footers_loop_suffix h r).trans (get_line_suffix r)

theorem xfer_chunked_suffix (h : Handlers) (r : Rx) : (xfer_chunked h r).buf <:+ r.buf := by
  induction r using xfer_chunked.induct h with
  | case1 r hc => rw [xfer_chunked]; simp [hc]
  | case2 r hc hl hf => rw [xfer_chunked]; simp [hc, hl, hf, get_line_suffix]
  | case3 r hc hl r1 hf he ih =>
    rw [xfer_chunked]
    simp only [hc, hl, hf, r1, he, if_true, if_false]
    exact ih.trans (get_line_suffix r)
  | case4 r hc hl r1 hf he n r2 hn ih =>
    rw [xfer_chunked]
    simp only [hc, hl, hf, r1, he, n, hn, if_true, if_false]
    exact ih.trans (get_line_suffix r)
  | case5 r hc hl r1 hf he n hn hz =>
    rw [xfer_chunked]
    simp only [hc, hl, hf, r1, he, n, hn, hz, if_true, if_false]
    exact get_line_suffix r
  | case6 r hc hl r1 hf he n r2 hn hz r3 ih =>
    rw [xfer_chunked]
    simp only [hc, hl, hf, r1, he, n, hn, hz, if_true, if_false]
    exact ih.trans ((parse_data_suffix h r3).trans (get_line_suffix r))
  | case7 r hc hl ih =>
    rw [xfer_chunked]
    simp only [hc, hl, if_false]
    exact ih.trans (parse_data_suffix h r)

theorem xfer_chunked_length (h : Handlers) (r : Rx) (hb : r.buf ≠ [])
    (hs : r.s.state.closing = false) : (xfer_chunked h r).buf.length < r.buf.length := by
  have hg := get_line_length r hb
  rw [xfer_chunked]
  simp only [hb, hs, Bool.false_eq_true, or_self, if_false]
  split
  · split
    · exact hg
    · split
      · exact Nat.lt_of_le_of_lt (xfer_chunked_suffix h _).length_le hg
      · split
        · exact Nat.lt_of_le_of_lt (xfer_chunked_suffix h _).length_le hg
        · split
          · exact hg
          · exact Nat.lt_of_le_of_lt (xfer_chunked_suffix h _).length_le
              (Nat.lt_of_le_of_lt (parse_data_suffix h _).length_le hg)
  · exact Nat.lt_of_le_of_lt (xfer_chunked_suffix h _).length_le
      (parse_data_length h r hb (UInt64.not_le.mp ‹_›))

/-! ## One reply -/

/-- What an iteration of the loop of `http_process_reply_bytes` makes smaller. Data of
length 0 take no byte, but they end the reply. -/
def Rx.rank (r : Rx) : Nat := 2 * r.buf.length + if r.s.state = .S_REPLY_DATA then 1 else 0

theorem Rx.rank_lt {r r' : Rx} (h : r'.buf.length < r.buf.length) : r'.rank < r.rank := by
  unfold Rx.rank
  split <;> split <;> omega

theorem parse_data_all (h : Handlers) (r : Rx) (hb : (parse_data h r).2.buf ≠ []) :
    (parse_data h r).1 = true := by
  rw [parse_data_buf] at hb
  have hlt : min r.buf.length (bytes_needed r) < r.buf.length := by
    by_contra hle
    exact hb (List.drop_eq_nil_of_le (by omega))
  simp only [parse_data, decide_eq_true_eq]
  omega

theorem http_switch_rank (h : Handlers) (r r' : Rx) (hs : http_switch h r = .ok (some r'))
    (hb : r'.buf ≠ []) (hc : ¬ r'.s.state.closing) : r'.rank < r.rank := by
  have hne : r'.buf.length ≤ r.buf.length → r.buf ≠ [] := by
    intro hle he
    rw [he, List.length_nil, Nat.le_zero, List.length_eq_zero_iff] at hle
    exact hb hle
  have hline : ∀ f : Rx → Rx, (r.buf ≠ [] → (f r).buf.length < r.buf.length) →
      ((f r).buf.length ≤ r.buf.length) → f r = r' → r'.rank < r.rank := by
    intro f hlt hle he
    subst he
    exact Rx.rank_lt (hlt (hne hle))
  cases hst : r.s.state <;> simp only [http_switch, hst, Except.ok.injEq, Option.some.injEq,
    reduceCtorEq] at hs
  case S_REPLY_STATUS =>
    exact hline (parse_status_line h) (parse_status_line_length h r)
      (parse_status_line_suffix h r).length_le hs
  case S_REPLY_HEADER =>
    exact hline (parse_headers h) (parse_headers_length h r) (parse_headers_suffix h r).length_le hs
  case S_REPLY_CONTINUE =>
    exact hline (parse_headers h) (parse_headers_length h r) (parse_headers_suffix h r).length_le hs
  case S_REPLY_FOOTER =>
    exact hline (parse_footers h) (parse_footers_length h r) (parse_footers_suffix h r).length_le hs
  case S_REPLY_CHUNKED =>
    exact hline (xfer_chunked h) (fun hb => xfer_chunked_length h r hb (by rw [hst]; rfl))
      (xfer_chunked_suffix h r).length_le hs
  case S_REPLY_DATA =>
    have hle := (parse_data_suffix h r).length_le
    have hbuf : r'.buf = (parse_data h r).2.buf := by
      rw [← hs]; split <;> rfl
    have hall := parse_data_all h r (hbuf ▸ hb)
    have hopen : (parse_data h r).2.s.state.closing = false := by
      by_contra hcl
      rw [Bool.not_eq_false] at hcl
      rw [← hs, hcl] at hc
      simp [hcl] at hc
    simp only [hall, hopen, Bool.not_false, Bool.and_self, if_true] at hs
    subst hs
    simp only [Rx.rank, hst, if_true, reduceCtorEq, if_false]
    omega

/-- The `do ... while` loop of `http_process_reply_bytes`. -/
def http_process_loop (h : Handlers) (r : Rx) : Except Abort Rx :=
  match _hs : http_switch h r with
  | .error e => .error e
  | .ok none => .ok r
  | .ok (some r') =>
    if _hc : r'.buf ≠ [] ∧ ¬ r'.s.state.closing then http_process_loop h r' else .ok r'
termination_by r.rank
decreasing_by exact http_switch_rank h r r' _hs _hc.1 _hc.2

def http_process_reply_bytes (h : Handlers) (r : Rx) : Except Abort Rx :=
  http_process_loop h (event_signal h (.EV_CALL_RECV_RAW_DATA r.c.id r.buf) r)

theorem http_process_loop_error {h : Handlers} {r : Rx} {e : Abort}
    (hs : http_switch h r = .error e) : http_process_loop h r = .error e := by
  rw [http_process_loop, hs]

theorem http_process_loop_none {h : Handlers} {r : Rx} (hs : http_switch h r = .ok none) :
    http_process_loop h r = .ok r := by
  rw [http_process_loop, hs]

theorem http_process_loop_some {h : Handlers} {r r1 : Rx} (hs : http_switch h r = .ok (some r1)) :
    http_process_loop h r =
      if r1.buf ≠ [] ∧ ¬ r1.s.state.closing then http_process_loop h r1 else .ok r1 := by
  rw [http_process_loop, hs]
  rfl

/-- `core_close` empties the queue of a connection that it closes. -/
def Conn.Shut (s : Conn) : Prop := s.state.closing = true → s.recvq = []

/-- `S_REPLY_STATUS` to `S_REPLY_DONE`. -/
def ConnState.replying : ConnState → Bool
  | .S_REPLY_STATUS | .S_REPLY_HEADER | .S_REPLY_CONTINUE | .S_REPLY_DATA | .S_REPLY_CHUNKED
  | .S_REPLY_FOOTER | .S_REPLY_DONE => true
  | _ => false

/-- A law about the connection that the parsers keep: they set no states but those of a reply, and
the handlers only close it. -/
structure Kept (Q : Conn → Prop) : Prop where
  congr : ∀ s s' : Conn, s'.state = s.state → s'.recvq = s.recvq → Q s → Q s'
  close : ∀ s, Q s → Q s.close
  replying : ∀ s : Conn, s.state.replying = true → Q s

theorem replying_open {state : ConnState} (h : state.replying = true) : state.closing = false := by
  cases state <;> simp_all [ConnState.replying, ConnState.closing]

theorem shut_kept : Kept Conn.Shut where
  congr := by
    intro s s' hst hq hs
    unfold Conn.Shut at *
    rw [hst, hq]
    exact hs
  close := by
    intro s hs
    unfold Conn.close
    split
    · exact hs
    · exact fun _ => rfl
  replying := by
    intro s hs hc
    rw [replying_open hs] at hc
    cases hc

section
variable {Q : Conn → Prop} (hk : Kept Q)
include hk

theorem event_signal_kept (h : Handlers) (e : Event) (r : Rx) (hs : Q r.s) :
    Q (event_signal h e r).s := by
  unfold event_signal
  dsimp only
  split
  · exact hk.close r.s hs
  · exact hs

end

/-- An event leaves the connection as it is, or closed. -/
theorem event_signal_open {h : Handlers} {e : Event} {r : Rx}
    (hc : ¬ (event_signal h e r).s.state.closing = true) : (event_signal h e r).s = r.s := by
  unfold event_signal Conn.close at *
  dsimp only at *
  split at hc
  · split at hc
    · exact absurd ‹_› hc
    · exact absurd rfl hc
  · rw [if_neg ‹_›]

theorem shut_of_open {s : Conn} (h : s.state.closing = false) : s.Shut := by
  intro hc
  simp [h] at hc

theorem get_line_has_body (r : Rx) : (get_line r).2.s.has_body = r.s.has_body := by
  unfold get_line
  split
  · rfl
  · dsimp only
    split <;> rfl

theorem get_line_s (r : Rx) :
    (get_line r).2.s.state = r.s.state ∧ (get_line r).2.s.recvq = r.s.recvq ∧
      (get_line r).2.c = r.c ∧ (get_line r).2.log = r.log := by
  unfold get_line
  split
  · exact ⟨rfl, rfl, rfl, rfl⟩
  · dsimp only; split <;> exact ⟨rfl, rfl, rfl, rfl⟩

theorem header_field_s (s : Conn) (hdr : List Byte) :
    (header_field s hdr).state = s.state ∧ (header_field s hdr).recvq = s.recvq := by
  unfold header_field
  dsimp only
  split_ifs <;> exact ⟨rfl, rfl⟩

/-- A reply without a body keeps none. -/
theorem header_field_no_body (s : Conn) (hdr : List Byte) (h : s.has_body = false) :
    ∃ cl ch, header_field s hdr = { s with content_length := cl, is_chunked := ch } := by
  unfold header_field
  split_ifs
  · exact ⟨UInt64.ofNat (strtoul (hdr.drop 15) 10).val, s.is_chunked, by simp [h]⟩
  · exact ⟨s.content_length, true, rfl⟩
  · exact ⟨s.content_length, s.is_chunked, rfl⟩
  · exact ⟨s.content_length, s.is_chunked, rfl⟩

theorem headers_end_replying (s : Conn) : (headers_end s).state.replying = true := by
  unfold headers_end
  split_ifs <;> rfl

section
variable {Q : Conn → Prop} (hk : Kept Q)
include hk

theorem get_line_kept (r : Rx) (hs : Q r.s) : Q (get_line r).2.s := by
  obtain ⟨h1, h2, _⟩ := get_line_s r
  exact hk.congr r.s _ h1 h2 hs

theorem status_line_read_kept (h : Handlers) (start : Nat) (r : Rx) (hs : Q r.s) :
    Q (status_line_read h start r).s := by
  unfold status_line_read status_done
  dsimp only
  split
  · exact hk.replying _ rfl
  · split
    · apply event_signal_kept hk
      exact hk.congr r.s _ rfl rfl hs
    · exact hk.replying _ rfl

theorem parse_status_line_kept (h : Handlers) (r : Rx) (hs : Q r.s) :
    Q (parse_status_line h r).s := by
  have hline := get_line_kept hk { r with s.is_chunked := false, s.content_length := SIZE_MAX }
    (hk.congr r.s _ rfl rfl hs)
  unfold parse_status_line
  dsimp only
  split
  · exact hline
  · exact status_line_read_kept hk h _ _ hline

theorem parse_headers_loop_kept (h : Handlers) (r : Rx) (hs : Q r.s) :
    Q (parse_headers_loop h r).2.s := by
  have hhdr : ∀ (e : Event) (r : Rx), Q r.s →
      Q (event_signal h e { r with s := header_field r.s (cstr r.s.line) }).s := by
    intro e r hs
    obtain ⟨h1, h2⟩ := header_field_s r.s (cstr r.s.line)
    exact event_signal_kept hk h e _ (hk.congr r.s _ h1 h2 hs)
  induction r using parse_headers_loop.induct h with
  | case1 r hf => rw [parse_headers_loop]; simp only [hf, if_true]; exact get_line_kept hk r hs
  | case2 r r1 hf he =>
    rw [parse_headers_loop]
    simp only [hf, r1, he, if_true]
    exact hk.replying _ (headers_end_replying _)
  | case3 r r1 hf he r2 r3 hc =>
    rw [parse_headers_loop]
    simp only [hf, r1, he, r2, r3, hc, if_true, if_false]
    exact hhdr _ r1 (get_line_kept hk r hs)
  | case4 r r1 hf he r2 r3 hc ih =>
    rw [parse_headers_loop]
    simp only [hf, r1, he, r2, r3, hc, if_false, Bool.false_eq_true]
    exact ih (hk.congr r3.s _ rfl rfl (hhdr _ r1 (get_line_kept hk r hs)))

theorem parse_footers_loop_kept (h : Handlers) (r : Rx) (hs : Q r.s) :
    Q (parse_footers_loop h r).2.s := by
  induction r using parse_footers_loop.induct h with
  | case1 r hf => rw [parse_footers_loop]; simp only [hf, if_true]; exact get_line_kept hk r hs
  | case2 r r1 hf he =>
    rw [parse_footers_loop]
    simp only [hf, r1, he, if_true]
    exact hk.replying _ rfl
  | case3 r r1 hf he r2 hc =>
    rw [parse_footers_loop]
    simp only [hf, r1, he, r2, hc, if_true, if_false]
    exact event_signal_kept hk h _ _ (get_line_kept hk r hs)
  | case4 r r1 hf he r2 hc ih =>
    rw [parse_footers_loop]
    simp only [hf, r1, he, r2, hc, if_false, Bool.false_eq_true]
    exact ih (hk.congr r2.s _ rfl rfl (event_signal_kept hk h _ _ (get_line_kept hk r hs)))

theorem parse_data_kept (h : Handlers) (r : Rx) (hs : Q r.s) : Q (parse_data h r).2.s :=
  event_signal_kept hk h _ r hs

theorem xfer_chunked_kept (h : Handlers) (r : Rx) (hs : Q r.s) : Q (xfer_chunked h r).s := by
  induction r using xfer_chunked.induct h with
  | case1 r hc => rw [xfer_chunked]; simpa [hc] using hs
  | case2 r hc hl hf =>
    rw [xfer_chunked]
    simp only [hc, hl, hf, if_true, if_false]
    exact get_line_kept hk r hs
  | case3 r hc hl r1 hf he ih =>
    rw [xfer_chunked]
    simp only [hc, hl, hf, r1, he, if_true, if_false]
    exact ih (get_line_kept hk r hs)
  | case4 r hc hl r1 hf he n r2 hn ih =>
    rw [xfer_chunked]
    simp only [hc, hl, hf, r1, he, n, hn, if_true, if_false]
    exact ih (hk.congr r1.s _ rfl rfl (get_line_kept hk r hs))
  | case5 r hc hl r1 hf he n hn hz =>
    rw [xfer_chunked]
    simp only [hc, hl, hf, r1, he, n, hn, hz, if_true, if_false]
    exact hk.replying _ rfl
  | case6 r hc hl r1 hf he n r2 hn hz r3 ih =>
    rw [xfer_chunked]
    simp only [hc, hl, hf, r1, he, n, hn, hz, if_true, if_false]
    exact ih (parse_data_kept hk h r3 (hk.congr r1.s _ rfl rfl (get_line_kept hk r hs)))
  | case7 r hc hl ih =>
    rw [xfer_chunked]
    simp only [hc, hl, if_false]
    exact ih (parse_data_kept hk h r hs)

theorem parse_headers_kept (h : Handlers) (r : Rx) (hs : Q r.s) : Q (parse_headers h r).s := by
  have hloop := parse_headers_loop_kept hk h r hs
  unfold parse_headers
  split <;> simp_all

theorem parse_footers_kept (h : Handlers) (r : Rx) (hs : Q r.s) : Q (parse_footers h r).s := by
  have hloop := parse_footers_loop_kept hk h r hs
  unfold parse_footers
  split <;> simp_all

theorem http_switch_kept (h : Handlers) (r r' : Rx) (hs : Q r.s)
    (he : http_switch h r = .ok (some r')) : Q r'.s := by
  cases hst : r.s.state <;> simp only [http_switch, hst, Except.ok.injEq, Option.some.injEq,
    reduceCtorEq] at he
  case S_REPLY_STATUS => exact he ▸ parse_status_line_kept hk h r hs
  case S_REPLY_HEADER => exact he ▸ parse_headers_kept hk h r hs
  case S_REPLY_CONTINUE => exact he ▸ parse_headers_kept hk h r hs
  case S_REPLY_FOOTER => exact he ▸ parse_footers_kept hk h r hs
  case S_REPLY_CHUNKED => exact he ▸ xfer_chunked_kept hk h r hs
  case S_REPLY_DATA =>
    subst he
    split
    · exact hk.replying _ rfl
    · exact parse_data_kept hk h r hs

end

theorem http_switch_closing (h : Handlers) (r : Rx) (hc : r.s.state.closing = true) :
    http_switch h r = .error .exit_bad_state := by
  unfold http_switch
  split <;> simp_all [ConnState.closing]

theorem http_switch_none (h : Handlers) (r : Rx) (hs : http_switch h r = .ok none) :
    r.s.state = .S_REPLY_DONE := by
  unfold http_switch at hs
  split at hs <;> simp_all

/-- The loop stops when the bytes are used up, at the end of the reply, or on a closed
connection. -/
theorem http_process_loop_stop (h : Handlers) (r r' : Rx) (hs : http_process_loop h r = .ok r') :
    (r'.s.state = .S_REPLY_DONE ∨ r'.buf = [] ∨ r'.s.state.closing = true) ∧ r'.s.Shut := by
  induction r using http_process_loop.induct h with
  | case1 r e he => rw [http_process_loop, he] at hs; simp at hs
  | case2 r he =>
    rw [http_process_loop, he] at hs
    simp only [Except.ok.injEq] at hs
    subst hs
    have hd := http_switch_none h r he
    exact ⟨Or.inl hd, shut_of_open (by rw [hd]; rfl)⟩
  | case3 r r1 he hc ih =>
    rw [http_process_loop, he] at hs
    exact ih (by simpa [hc] using hs)
  | case4 r r1 he hc =>
    rw [http_process_loop, he] at hs
    simp only [hc, dite_false, Except.ok.injEq] at hs
    subst hs
    have hopen : r.s.state.closing = false := by
      by_contra hcl
      rw [http_switch_closing h r (by simpa using hcl)] at he
      cases he
    refine ⟨?_, http_switch_kept shut_kept h r r1 (shut_of_open hopen) he⟩
    by_cases hb : r1.buf = []
    · exact Or.inr (Or.inl hb)
    · exact Or.inr (Or.inr (by simpa [hb] using hc))

/-! ## One read -/

/-- `recv_done`: `c` leaves the queue, and `next` is its `recvq_next`. -/
def recv_done (h : Handlers) (next : List Call) (r : Rx) : Rx :=
  event_signal h (.EV_CALL_RECV_STOP r.c.id r.c.reply) { r with s.recvq := next }

/-- The counters that the parser kept in `c` are those of the call at the head of the
queue, as long as that call is in the queue. -/
def Rx.store (next : List Call) (r : Rx) : Conn :=
  match r.s.recvq with
  | [] => r.s
  | _ :: _ => { r.s with recvq := r.c :: next }

theorem Rx.store_nil {r : Rx} (hq : r.s.recvq = []) (next : List Call) : r.store next = r.s := by
  unfold Rx.store
  rw [hq]

theorem Rx.store_cons {r : Rx} (hq : r.s.recvq ≠ []) (next : List Call) :
    r.store next = { r.s with recvq := r.c :: next } := by
  unfold Rx.store
  split
  · contradiction
  · rfl

/-- The `do ... while` loop of `do_recv`, on the unread bytes `buf`. -/
def do_recv_loop (h : Handlers) (s : Conn) (buf : List Byte) (log : List Event) :
    Except Abort (Conn × List Event) :=
  match _hq : s.recvq with
  | [] => .error .assert_recvq
  | c :: next =>
    match _hp : http_process_reply_bytes h ⟨s, c, buf, log⟩ with
    | .error e => .error e
    | .ok r =>
      if _hd : r.s.state = .S_REPLY_DONE then
        let r1 := recv_done h next r
        let s1 := { r1.s with state := .S_REPLY_STATUS }
        if _hc : r1.s.state.closing then .ok (r1.s, r1.log)
        else if r1.buf = [] then .ok (s1, r1.log)
        else do_recv_loop h s1 r1.buf r1.log
      else
        if _hb : r.buf = [] then .ok (r.store next, r.log)
        else do_recv_loop h (r.store next) r.buf r.log
termination_by s.recvq.length
decreasing_by
  · have hopen : r1.s.recvq = next := by
      by_contra hne
      unfold r1 recv_done event_signal at hne _hc
      dsimp only at hne _hc
      split at hne
      · rename_i hcl
        simp only [hcl, if_true] at _hc
        unfold Conn.close at hne _hc
        split at hne
        · exact hne rfl
        · rename_i ho
          simp only [ho, Bool.false_eq_true, if_false] at _hc
          exact _hc rfl
      · exact hne rfl
    change r1.s.recvq.length < s.recvq.length
    rw [hopen, _hq]
    simp
  · obtain ⟨hstop, hshut⟩ := http_process_loop_stop h _ r _hp
    have hcl : r.s.state.closing = true := by
      rcases hstop with h1 | h1 | h1
      · exact absurd h1 _hd
      · exact absurd h1 _hb
      · exact h1
    rw [Rx.store_nil (hshut hcl), hshut hcl, _hq]
    simp

theorem do_recv_loop_nil {h : Handlers} {s : Conn} (buf : List Byte) (log : List Event)
    (hq : s.recvq = []) : do_recv_loop h s buf log = .error .assert_recvq := by
  rw [do_recv_loop]
  split
  · rfl
  · simp_all

/-- One turn of the loop. -/
theorem do_recv_loop_cons {h : Handlers} {s : Conn} {c : Call} {next : List Call}
    (buf : List Byte) (log : List Event) (hq : s.recvq = c :: next) :
    do_recv_loop h s buf log =
      match http_process_reply_bytes h ⟨s, c, buf, log⟩ with
      | .error e => .error e
      | .ok r =>
        if r.s.state = .S_REPLY_DONE then
          if (recv_done h next r).s.state.closing then
            .ok ((recv_done h next r).s, (recv_done h next r).log)
          else if r.buf = [] then
            .ok ({ (recv_done h next r).s with state := .S_REPLY_STATUS }, (recv_done h next r).log)
          else
            do_recv_loop h { (recv_done h next r).s with state := .S_REPLY_STATUS } r.buf
              (recv_done h next r).log
        else if r.buf = [] then .ok (r.store next, r.log)
        else .error .assert_recvq := by
  rw [do_recv_loop]
  split
  · simp_all
  · rename_i c' next' hq'
    obtain ⟨rfl, rfl⟩ : c = c' ∧ next = next' := by simpa [hq] using hq'
    split
    · simp_all
    · rename_i r hp
      simp only [hp]
      split
      · rfl
      · rename_i hs
        split
        · rfl
        · -- the connection is closed, and its queue is empty
          rename_i hb
          obtain ⟨hstop, hshut⟩ := http_process_loop_stop h _ r hp
          have hcl := (hstop.resolve_left hs).resolve_left hb
          rw [do_recv_loop_nil]
          rw [Rx.store_nil (hshut hcl)]
          exact hshut hcl

/-- What `read` gives: some bytes, the end of the stream, or an error. -/
inductive Read where
  | data (buf : List Byte)
  | eof
  | error (eagain : Bool)
  deriving DecidableEq, Repr

def conn_failure (h : Handlers) (r : Rx) : Conn × List Event :=
  let r1 := event_signal h .EV_CONN_FAILED r
  (r1.s.close, r1.log)

def do_recv (h : Handlers) (read : Read) (s : Conn) (log : List Event) :
    Except Abort (Conn × List Event) :=
  match s.recvq with
  | [] => .error .assert_recvq
  | c :: next =>
    match read with
    | .error eagain => .ok (if eagain then (s, log) else conn_failure h ⟨s, c, [], log⟩)
    | .eof =>
      if s.state ≠ .S_REPLY_DATA then .ok (conn_failure h ⟨s, c, [], log⟩)
      else
        let r := recv_done h next ⟨{ s with state := .S_REPLY_DONE }, c, [], log⟩
        .ok (r.s, r.log)
    | .data buf => do_recv_loop h s buf log

/-- The reads of a run, one after the other. `core_loop` calls `do_recv` only while a call
waits for its reply. -/
def do_recvs (h : Handlers) : List Read → Conn → List Event → Except Abort (Conn × List Event)
  | [], s, log => .ok (s, log)
  | read :: reads, s, log =>
    if s.recvq = [] then .ok (s, log)
    else
      match do_recv h read s log with
      | .error e => .error e
      | .ok (s, log) => do_recvs h reads s log

theorem do_recvs_idle (h : Handlers) (reads : List Read) (s : Conn) (log : List Event)
    (hq : s.recvq = []) : do_recvs h reads s log = .ok (s, log) := by
  cases reads with
  | nil => rfl
  | cons read reads => simp [do_recvs, hq]

theorem do_recvs_append {h : Handlers} {r1 : List Read} (r2 : List Read) {s s1 : Conn}
    {log log1 : List Event} (h1 : do_recvs h r1 s log = .ok (s1, log1)) :
    do_recvs h (r1 ++ r2) s log = do_recvs h r2 s1 log1 := by
  induction r1 generalizing s log with
  | nil =>
    obtain ⟨rfl, rfl⟩ : s = s1 ∧ log = log1 := by simpa [do_recvs] using h1
    rfl
  | cons read reads ih =>
    by_cases hq : s.recvq = []
    · rw [do_recvs_idle h _ s log hq] at h1 ⊢
      obtain ⟨rfl, rfl⟩ : s = s1 ∧ log = log1 := by simpa using h1
      rw [do_recvs_idle h r2 s log hq]
    · simp only [List.cons_append, do_recvs, hq, if_false] at h1 ⊢
      cases hr : do_recv h read s log with
      | error e => simp [hr] at h1
      | ok p => exact ih (by simpa [hr] using h1)

end Httperf
