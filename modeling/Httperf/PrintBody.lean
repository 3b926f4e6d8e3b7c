-- The bodies that the printer shows (`recv_data` and `recv_stop`), against the lines that they
-- have. The raw data of each read goes through the same line buffer.
import Httperf.PrintReply

namespace Httperf.PrintReply

open Lib

/-! ## A body in pieces -/

/-- A piece of a body at the head of what is left of a read of at most 8192 bytes. -/
structure Piece where
  data : List Byte
  behind : List Byte
  no_nul : 0 ∉ data
  fits : data.length + behind.length ≤ 8192

/-- A read, from the first byte of the reply in it on. -/
structure Raw where
  buf : List Byte
  fits : buf.length ≤ 8192

/-- What the printer hears of a call: the raw data of each read, and the pieces of the body that are
in it. -/
inductive Heard where
  | raw (r : Raw)
  | data (p : Piece)

def Piece.inner (p : Piece) : List Octet := octets true p.data

def Piece.outer (p : Piece) : List Octet := octets false p.behind

def Heard.inner : Heard → List Octet
  | .raw _ => []
  | .data p => p.inner

def body (heard : List Heard) : List Octet := heard.flatMap Heard.inner

section
variable (id : Nat) (print_header : Bool)

/-- The handlers that `init` registers for the body, and for the header where it is to be printed
too. -/
def signal : Heard → Priv → Option (List Line × Priv)
  | .raw r, priv => if print_header then recv_raw_data id r.buf priv else some ([], priv)
  | .data p, priv => recv_data id p.data p.behind priv

def signals : List Heard → Priv → Option (List Line × Priv)
  | [], priv => some ([], priv)
  | x :: heard, priv => do
    let (lines, priv) ← signal id print_header x priv
    let (more, priv) ← signals heard priv
    some (lines ++ more, priv)

/-- The lines that are printed with `RB`, up to the flush of `recv_stop`. -/
def print_body (heard : List Heard) (priv : Priv) : Option (List Line) := do
  let (lines, priv) ← signals id print_header heard priv
  let (last, _) ← recv_stop id priv
  some ((lines ++ last).filter fun l => l.pre = bytes "RB")

/-- The lines are those of the body, and each byte of them is one of the pieces. -/
def Printed (heard : List Heard) (priv : Priv) : Prop :=
  print_body id print_header heard priv =
    some ((linesFrom NL [] (body heard)).map (Line.mk (bytes "RB") id))

end

/-- The output then is the text of the body, line by line. -/
theorem Printed.show {id : Nat} {print_header : Bool} {heard : List Heard} {priv : Priv}
    (h : Printed id print_header heard priv) :
    (print_body id print_header heard priv).map (List.flatMap Line.show) =
      some (unlines LF (tag (bytes "RB") id) (linesFrom LF [] (vals (body heard)))) := by
  have hlf : ∀ o : Octet, o.val = LF ↔ o = NL := fun o => ⟨eq_nl, fun ho => congrArg Octet.val ho⟩
  have hlines := linesFrom_map hlf [] (body heard)
  rw [List.map_nil] at hlines
  rw [h, Option.map_some]
  unfold vals unlines
  rw [← hlines, List.flatMap_map, List.flatMap_map]
  rfl

/-! ## The condition -/

/-- `printf ("%.*s", (int) n, s)` prints `line` of the `n` bytes `buf`: what stands in front of a
NUL, or as many bytes as `n` is as an `int`. -/
def Shows (buf line : List Octet) : Prop :=
  0 ∉ vals line ∧ ∃ more, buf = line ++ more ∧
    ((line.length : Int) = int_of buf.length ∨
      more.head?.map Octet.val = some 0 ∧ (int_of buf.length < 0 ∨ line.length ≤ int_of buf.length))

section
variable (print_header done : Bool)

/-- What is passed on of a read for its header, and whether the header is done then. -/
def Raw.header (r : Raw) : List Byte × Bool :=
  if print_header then reply_hdr r.buf (int_of r.buf.length) done else ([], done)

def Raw.taken (r : Raw) : List Octet := octets false (r.header print_header done).1

def Raw.left (r : Raw) : List Octet :=
  octets false (r.buf.drop (r.header print_header done).1.length)

/-- The lines that are seen in it, and the line behind them. -/
def Raw.seen (r : Raw) : List Octet :=
  PrintReply.seen (r.taken print_header done) (r.left print_header done)

def Piece.seen (p : Piece) : List Octet := PrintReply.seen p.inner p.outer

/-- `buf` is what `print_buf` has taken since it has last seen an LF, and `line` is what has come of
the body since its last LF. When the end of a line of the body is seen, or the body has ended, `buf`
is printed as `line`. Behind a piece that ends within a line no LF is seen; or an LF follows at
once, and the body has ended. No LF is seen in a header while the body is in a line. -/
inductive Sound : Bool → List Octet → List Octet → List Heard → Prop where
  | stop {done : Bool} {buf line : List Octet} : (buf = [] ↔ line = []) → Shows buf line →
    Sound done buf line []
  | header {done : Bool} {buf line : List Octet} {r : Raw} {heard : List Heard} :
      NL ∉ r.seen print_header done →
      Sound (r.header print_header done).2 (buf ++ r.taken print_header done) line heard →
      Sound done buf line (.raw r :: heard)
  | header_ends {done : Bool} {buf : List Octet} {r : Raw} {heard : List Heard} :
      NL ∈ r.seen print_header done → 0 ≤ int_of buf.length ∨ 0 ∈ vals buf →
      Sound (r.header print_header done).2
        (pending NL [] (r.seen print_header done) ++ behind_nul (r.taken print_header done)) []
        heard →
      Sound done buf [] (.raw r :: heard)
  | more {done : Bool} {buf line : List Octet} {p : Piece} {heard : List Heard} :
      NL ∉ p.inner → extra p.inner p.outer = [] →
      Sound done (buf ++ p.inner) (line ++ p.inner) heard → Sound done buf line (.data p :: heard)
  | ends {done : Bool} {buf line : List Octet} {p : Piece} {heard : List Heard} :
      NL ∈ p.inner → extra p.inner p.outer = [] → Shows buf line →
      Sound done (pending NL [] p.inner) (pending NL [] p.inner) heard →
      Sound done buf line (.data p :: heard)
  | last {done : Bool} {buf line : List Octet} {p : Piece} {heard : List Heard} :
      extra p.inner p.outer = [NL] → Shows buf line → body heard = [] →
      Sound done [] [] heard → Sound done buf line (.data p :: heard)

end

/-! ## The lines that are printed -/

/-- The lines that are printed with `RB`, from what stands in the line buffer. -/
def shown (print_header : Bool) : Bool → List Octet → List Heard → Option (List (List Octet))
  | _, buf, [] => if buf = [] then some [] else (printf_line buf).map ([·])
  | done, buf, .raw r :: heard => do
    let first ← start buf (r.seen print_header done)
    shown print_header (r.header print_header done).2
      (pending NL first (r.seen print_header done) ++ behind_nul (r.taken print_header done)) heard
  | done, buf, .data p :: heard => do
    let first ← start buf p.seen
    let ls ← shown print_header done (pending NL first p.seen) heard
    some (complete NL first p.seen ++ ls)

theorem inner_no_nul (p : Piece) : 0 ∉ vals p.inner := by
  unfold Piece.inner
  rw [vals_octets]
  exact p.no_nul

theorem octets_length (inside : Bool) (s : List Byte) : (octets inside s).length = s.length :=
  List.length_map ..

theorem signal_data_spec (id : Nat) (print_header : Bool) (p : Piece) (priv : Priv) :
    Prints id (bytes "RB") priv p.seen [] (signal id print_header (.data p) priv) := by
  have hfits := p.fits
  have hinner : p.inner.length = p.data.length := octets_length true p.data
  have houter : p.outer.length = p.behind.length := octets_length false p.behind
  have hdata : (int_of p.data.length).toNat = p.inner.length := by
    rw [int_of_eq (by omega), Int.toNat_natCast, hinner]
  have hlen : (p.inner ++ p.outer).length < 2 ^ 31 := by
    rw [List.length_append]
    omega
  have hspec := print_buf_spec id (bytes "RB") priv hdata hlen
  rwa [behind_nul_eq (inner_no_nul p)] at hspec

theorem Raw.header_true (done : Bool) (r : Raw) :
    r.header true done = reply_hdr r.buf (int_of r.buf.length) done := if_pos rfl

theorem Raw.header_false (done : Bool) (r : Raw) : r.header false done = ([], done) :=
  if_neg Bool.false_ne_true

attribute [local irreducible] Raw.header

theorem Raw.split (print_header done : Bool) (r : Raw)
    (hpre : (r.header print_header done).1 <+: r.buf) :
    octets false r.buf = r.taken print_header done ++ r.left print_header done := by
  unfold Raw.taken Raw.left octets
  rw [← List.map_append, List.prefix_iff_eq_append.mp hpre]

theorem signal_raw_spec (id : Nat) (print_header : Bool) (r : Raw) (priv : Priv) :
    Prints id (bytes "RH")
      { priv with done_with_reply_hdr := (r.header print_header priv.done_with_reply_hdr).2 }
      (r.seen print_header priv.done_with_reply_hdr)
      (behind_nul (r.taken print_header priv.done_with_reply_hdr))
      (signal id print_header (.raw r) priv) := by
  cases print_header with
  | false =>
    have htaken : r.taken false priv.done_with_reply_hdr = [] := by
      unfold Raw.taken
      rw [Raw.header_false]
      rfl
    have hseen : r.seen false priv.done_with_reply_hdr = [] := by
      unfold Raw.seen
      rw [htaken]
      rfl
    rw [signal, if_neg Bool.false_ne_true, hseen, htaken, Raw.header_false]
    exact ⟨priv.size, congrArg (fun line => some ([], { priv with line := line }))
      (List.append_nil _).symm⟩
  | true =>
    have hfits := r.fits
    have hbuf : (octets false r.buf).length = r.buf.length := octets_length false r.buf
    have hreply : reply_hdr (vals (octets false r.buf)) (int_of (octets false r.buf).length)
        priv.done_with_reply_hdr = r.header true priv.done_with_reply_hdr := by
      rw [vals_octets, hbuf, Raw.header_true]
    have hpassed := print_reply_hdr_eq id (by omega) priv hreply
    rw [vals_octets, hbuf] at hpassed
    have hsplit := r.split true priv.done_with_reply_hdr hpassed.1
    have htaken : (r.taken true priv.done_with_reply_hdr).length =
        (r.header true priv.done_with_reply_hdr).1.length := octets_length _ _
    have hle := hpassed.1.length_le
    have hdata : (int_of (r.header true priv.done_with_reply_hdr).1.length).toNat =
        (r.taken true priv.done_with_reply_hdr).length := by
      rw [htaken, int_of_eq (by omega), Int.toNat_natCast]
    have hlen :
        (r.taken true priv.done_with_reply_hdr ++ r.left true priv.done_with_reply_hdr).length <
          2 ^ 31 := by
      rw [← hsplit, hbuf]
      omega
    rw [signal, if_pos rfl]
    unfold recv_raw_data
    rw [hpassed.2, hsplit]
    exact print_buf_spec id (bytes "RH") _ hdata hlen

theorem print_body_cons {id : Nat} {print_header : Bool} {x : Heard} {heard : List Heard}
    {priv priv' : Priv} {lines : List Line}
    (hsignal : signal id print_header x priv = some (lines, priv')) :
    print_body id print_header (x :: heard) priv =
      (print_body id print_header heard priv').map
        ((lines.filter fun l => l.pre = bytes "RB") ++ ·) := by
  unfold print_body
  rw [signals, hsignal, Option.bind_eq_bind, Option.bind_eq_bind, Option.bind_some]
  dsimp only
  cases signals id print_header heard priv' with
  | none => rfl
  | some more =>
    rw [Option.bind_some, Option.bind_some, Option.bind_some]
    dsimp only
    cases recv_stop id more.2 with
    | none => rfl
    | some last =>
      rw [Option.bind_some, Option.bind_some, Option.map_some, List.append_assoc,
        List.filter_append]

theorem print_body_none {id : Nat} {print_header : Bool} {x : Heard} {heard : List Heard}
    {priv : Priv} (hsignal : signal id print_header x priv = none) :
    print_body id print_header (x :: heard) priv = none := by
  unfold print_body
  rw [signals, hsignal]
  rfl

theorem filter_lines (id : Nat) (ls : List (List Octet)) :
    (ls.map (Line.mk (bytes "RB") id)).filter (fun l => l.pre = bytes "RB") =
        ls.map (Line.mk (bytes "RB") id) ∧
      (ls.map (Line.mk (bytes "RH") id)).filter (fun l => l.pre = bytes "RB") = [] := by
  constructor
  · rw [List.filter_eq_self]
    intro l hl
    obtain ⟨t, -, rfl⟩ := List.mem_map.mp hl
    exact decide_eq_true rfl
  · rw [List.filter_eq_nil_iff]
    intro l hl
    obtain ⟨t, -, rfl⟩ := List.mem_map.mp hl
    have hne : bytes "RH" ≠ bytes "RB" := by decide
    simpa using hne

theorem print_body_eq (id : Nat) (print_header : Bool) (heard : List Heard) (priv : Priv) :
    print_body id print_header heard priv =
      (shown print_header priv.done_with_reply_hdr priv.line heard).map
        (List.map (Line.mk (bytes "RB") id)) := by
  induction heard generalizing priv with
  | nil =>
    unfold print_body recv_stop flush_print_buf
    rw [signals, Option.bind_eq_bind, Option.bind_some]
    dsimp only
    rw [shown]
    split
    · rfl
    · cases printf_line priv.line with
      | none => rfl
      | some text => exact congrArg some (filter_lines id [text]).1
  | cons x heard ih =>
    cases x with
    | raw r =>
      have hspec := signal_raw_spec id print_header r priv
      unfold Prints at hspec
      dsimp only at hspec
      rw [shown]
      cases hstart : start priv.line (r.seen print_header priv.done_with_reply_hdr) with
      | none =>
        rw [hstart] at hspec
        rw [print_body_none hspec]
        rfl
      | some first =>
        rw [hstart] at hspec
        obtain ⟨size, hsignal⟩ := hspec
        rw [print_body_cons hsignal, ih, (filter_lines id _).2, Option.bind_eq_bind,
          Option.bind_some]
        exact Option.map_id'
    | data p =>
      have hspec := signal_data_spec id print_header p priv
      unfold Prints at hspec
      rw [shown]
      cases hstart : start priv.line p.seen with
      | none =>
        rw [hstart] at hspec
        rw [print_body_none hspec]
        rfl
      | some first =>
        rw [hstart] at hspec
        obtain ⟨size, hsignal⟩ := hspec
        rw [List.append_nil] at hsignal
        rw [print_body_cons hsignal, ih, (filter_lines id _).1, Option.bind_eq_bind,
          Option.bind_some]
        dsimp only
        cases shown print_header priv.done_with_reply_hdr (pending NL first p.seen) heard with
        | none => rfl
        | some ls => exact congrArg some List.map_append.symm

/-! ## Which bytes are printed -/

/-- How many bytes of the pieces there are. -/
def own (s : List Octet) : Nat := s.countP Octet.inside

theorem own_append (s t : List Octet) : own (s ++ t) = own s + own t := List.countP_append

theorem own_le_of_sublist {s t : List Octet} (h : s.Sublist t) : own s ≤ own t := h.countP_le

theorem outside {s : List Byte} {o : Octet} (h : o ∈ octets false s) : o.inside = false := by
  obtain ⟨b, -, rfl⟩ := List.mem_map.mp h
  rfl

theorem own_eq_zero {s : List Octet} (h : ∀ o ∈ s, o.inside = false) : own s = 0 := by
  unfold own
  rw [List.countP_eq_zero]
  intro o ho
  simp [h o ho]

theorem own_eq_length {s : List Octet} (h : ∀ o ∈ s, o.inside = true) : own s = s.length := by
  unfold own
  rw [List.countP_eq_length]
  exact h

theorem printf_line_sublist {line t : List Octet} (h : printf_line line = some t) :
    t.Sublist line := by
  unfold printf_line at h
  split at h
  · obtain rfl := Option.some.inj h
    unfold printf_s text
    split
    · exact List.takeWhile_sublist _
    · exact (List.takeWhile_sublist _).trans (List.take_sublist _ _)
  · nomatch h

theorem rest_sublist {line t : List Octet} (h : rest line = some t) : t.Sublist line := by
  unfold rest at h
  split at h
  · obtain rfl := Option.some.inj h
    exact List.nil_sublist _
  · exact printf_line_sublist h

theorem start_sublist {line e t : List Octet} (h : start line e = some t) : t.Sublist line := by
  unfold start at h
  split at h
  · exact rest_sublist h
  · obtain rfl := Option.some.inj h
    exact List.Sublist.refl _

/-- What the last line of some bytes takes along ends with the one LF that it has. -/
theorem extra_cases (data behind : List Octet) :
    extra data behind = [] ∨ ∃ x, extra data behind = x ++ [NL] ∧ NL ∉ x ∧ x.Sublist behind ∧
      pending NL [] data ≠ [] := by
  unfold extra
  split
  · exact .inl rfl
  · rename_i hopen
    cases hbehind : strchr_lf (vals behind) with
    | none => exact .inl rfl
    | some j =>
      obtain ⟨-, htake, hlf, -⟩ := strchr_lf_vals hbehind
      exact .inr ⟨behind.take j, htake, hlf, List.take_sublist _ _, (not_or.mp hopen).2⟩

theorem extra_sublist (data behind : List Octet) : (extra data behind).Sublist behind := by
  unfold extra
  split
  · exact List.nil_sublist _
  · split
    · exact List.take_sublist _ _
    · exact List.nil_sublist _

theorem Raw.own_taken (print_header done : Bool) (r : Raw) : own (r.taken print_header done) = 0 :=
  own_eq_zero fun _ => outside

theorem Raw.own_seen (print_header done : Bool) (r : Raw) : own (r.seen print_header done) = 0 := by
  have htext : own (text (r.taken print_header done)) = 0 :=
    Nat.le_zero.mp (own_taken print_header done r ▸ own_le_of_sublist (List.takeWhile_sublist _))
  have hleft : own (r.left print_header done) = 0 := own_eq_zero fun _ => outside
  have hextra :=
    own_le_of_sublist (extra_sublist (r.taken print_header done) (r.left print_header done))
  unfold Raw.seen PrintReply.seen
  rw [own_append]
  omega

theorem Piece.seen_eq (p : Piece) : p.seen = p.inner ++ extra p.inner p.outer := by
  unfold Piece.seen PrintReply.seen
  rw [text_eq (inner_no_nul p)]

theorem Piece.own_extra (p : Piece) : own (extra p.inner p.outer) = 0 := by
  have houter : own p.outer = 0 := own_eq_zero fun _ => outside
  exact Nat.le_zero.mp (houter ▸ own_le_of_sublist (extra_sublist _ _))

/-- What stands in the line buffer behind the raw data of a read. -/
def Raw.kept (print_header done : Bool) (r : Raw) (first : List Octet) : List Octet :=
  pending NL first (r.seen print_header done) ++ behind_nul (r.taken print_header done)

theorem Raw.own_kept (print_header done : Bool) (r : Raw) (first : List Octet) :
    own (r.kept print_header done first) ≤ own first := by
  have hlines : own (complete NL first (r.seen print_header done)).flatten +
      own (pending NL first (r.seen print_header done)) =
        own first + own (r.seen print_header done) :=
    countP_complete rfl _ _
  have hseen := r.own_seen print_header done
  have hbehind : own (behind_nul (r.taken print_header done)) = 0 :=
    Nat.le_zero.mp (own_taken print_header done r ▸ own_le_of_sublist (List.dropWhile_sublist _))
  unfold Raw.kept
  rw [own_append]
  omega

theorem own_pending {p q : List Octet} (h : own q ≤ own p) (s : List Octet) :
    own (pending NL p s) + own q ≤ own p + own (pending NL q s) := by
  by_cases hs : NL ∈ s
  · rw [pending_of_mem hs p q]
    omega
  · rw [pending_of_not_mem hs, pending_of_not_mem hs, own_append, own_append]
    omega

theorem body_raw (r : Raw) (heard : List Heard) : body (.raw r :: heard) = body heard := rfl

theorem body_data (p : Piece) (heard : List Heard) :
    body (.data p :: heard) = p.inner ++ body heard :=
  List.flatMap_cons

/-- Each byte of a piece is printed once at most, and each LF of a piece ends a line. Where no line
is printed but these, the bytes behind the last LF are not printed. -/
structure Counts (buf : List Octet) (heard : List Heard) (ls : List (List Octet)) : Prop where
  printed : own ls.flatten ≤ own buf + own (body heard)
  lines : (body heard).count NL ≤ ls.length
  open_line : ls.length = (body heard).count NL →
    own ls.flatten + own (pending NL buf (body heard)) ≤ own buf + own (body heard)

/-- The flush. -/
theorem Counts.stop {buf : List Octet} {ls : List (List Octet)}
    (h : (if buf = [] then some [] else (printf_line buf).map ([·])) = some ls) :
    Counts buf [] ls := by
  split at h
  · obtain rfl := Option.some.inj h
    exact ⟨Nat.zero_le _, le_rfl, fun _ => by rw [Nat.add_comm]; exact le_rfl⟩
  · obtain ⟨t, ht, rfl⟩ := Option.map_eq_some_iff.mp h
    have hown := own_le_of_sublist (printf_line_sublist ht)
    refine ⟨?_, Nat.zero_le _, fun hno => absurd hno (by simp [body])⟩
    rw [List.flatten_singleton]
    exact Nat.le_add_right_of_le hown

theorem Counts.raw {print_header done : Bool} {buf first : List Octet} {heard : List Heard}
    {ls : List (List Octet)} {r : Raw} (h : Counts (r.kept print_header done first) heard ls)
    (hstart : start buf (r.seen print_header done) = some first) :
    Counts buf (.raw r :: heard) ls := by
  have hkept := r.own_kept print_header done first
  have hfirst := own_le_of_sublist (start_sublist hstart)
  have hown := h.printed
  have hpending := own_pending (Nat.le_trans hkept hfirst) (body heard)
  rw [← body_raw r heard] at hown hpending
  refine ⟨by omega, h.lines, fun hlines => ?_⟩
  have hopen := h.open_line hlines
  rw [← body_raw r heard] at hopen
  omega

theorem Counts.data {buf first : List Octet} {heard : List Heard} {ls : List (List Octet)}
    {p : Piece} (h : Counts (pending NL first p.seen) heard ls)
    (hstart : start buf p.seen = some first) :
    Counts buf (.data p :: heard) (complete NL first p.seen ++ ls) := by
  have hown := h.printed
  have hlines := h.lines
  have hfirst := own_le_of_sublist (start_sublist hstart)
  have hcomplete : own (complete NL first p.seen).flatten + own (pending NL first p.seen) =
      own first + own p.seen := countP_complete rfl _ _
  have hseen : own p.seen = own p.inner := by
    rw [p.seen_eq, own_append, p.own_extra, Nat.add_zero]
  have hlength : (complete NL first p.seen).length =
      p.inner.count NL + (extra p.inner p.outer).count NL := by
    rw [complete_length, p.seen_eq, List.count_append]
  have hbody := body_data p heard
  refine ⟨?_, ?_, fun hall => ?_⟩
  · rw [hbody, List.flatten_append, own_append, own_append]
    omega
  · rw [hbody, List.count_append, List.length_append]
    omega
  · rw [hbody, List.count_append, List.length_append] at hall
    -- no line is ended by an LF behind the piece
    have hno : extra p.inner p.outer = [] := by
      rcases extra_cases p.inner p.outer with hno | ⟨x, hx, -⟩
      · exact hno
      · rw [hx, List.count_append, List.count_singleton_self] at hlength
        omega
    rw [hno, List.count_nil] at hlength
    have hopen := h.open_line (by omega)
    have hwhole : p.seen = p.inner := by rw [p.seen_eq, hno, List.append_nil]
    have hsame : pending NL (pending NL buf p.inner) (body heard) =
        pending NL (pending NL first p.inner) (body heard) := by
      unfold start at hstart
      rw [hwhole] at hstart
      by_cases hmem : NL ∈ p.inner
      · rw [pending_of_mem hmem buf first]
      · rw [if_neg hmem] at hstart
        rw [Option.some.inj hstart]
    rw [hwhole] at hcomplete hopen
    rw [hwhole] at hown ⊢
    rw [hbody, List.flatten_append, own_append, own_append, pending_append, hsame]
    rw [hwhole] at hseen
    omega

theorem shown_counts {print_header done : Bool} {buf : List Octet} {heard : List Heard}
    {ls : List (List Octet)} (h : shown print_header done buf heard = some ls) :
    Counts buf heard ls := by
  induction heard generalizing done buf ls with
  | nil =>
    rw [shown] at h
    exact .stop h
  | cons x heard ih =>
    rw [shown.eq_def] at h
    cases x with
    | raw r =>
      obtain ⟨first, hstart, hrest⟩ := Option.bind_eq_some_iff.mp h
      exact Counts.raw (ih hrest) hstart
    | data p =>
      obtain ⟨first, hstart, hrest⟩ := Option.bind_eq_some_iff.mp h
      obtain ⟨ls', hls', heq⟩ := Option.bind_eq_some_iff.mp hrest
      obtain rfl := Option.some.inj heq
      exact Counts.data (ih hls') hstart

/-! ## Which lines are printed -/

theorem text_eq_iff {s line : List Octet} :
    text s = line ↔ 0 ∉ vals line ∧ ∃ more, s = line ++ more ∧
    (more = [] ∨ more.head?.map Octet.val = some 0) := by
  constructor
  · rintro rfl
    refine ⟨not_mem_text s, behind_nul s, (text_append_behind_nul s).symm, ?_⟩
    by_cases hnul : 0 ∈ vals s
    · obtain ⟨o, r, hbehind, hval⟩ := behind_nul_head hnul
      right
      rw [hbehind, ← hval]
      rfl
    · exact .inl (behind_nul_eq hnul)
  · rintro ⟨hnul, more, rfl, hmore⟩
    rw [text_append hnul]
    rcases hmore with rfl | hmore
    · exact List.append_nil line
    · obtain ⟨o, ho, hval⟩ := Option.map_eq_some_iff.mp hmore
      obtain ⟨r, rfl⟩ := List.head?_eq_some_iff.mp ho
      have htext : text (o :: r) = [] := by
        unfold text
        exact List.takeWhile_cons_of_neg (by simp [hval])
      rw [htext, List.append_nil]

theorem int_of_le (n : Nat) : int_of n ≤ n := by
  unfold int_of Int.bmod
  dsimp only
  split
  · omega
  · omega

theorem mem_vals_of_head {more : List Octet} (h : more.head?.map Octet.val = some 0)
    (line : List Octet) :
    0 ∈ vals (line ++ more) := by
  obtain ⟨o, ho, hval⟩ := Option.map_eq_some_iff.mp h
  rw [← hval]
  exact List.mem_map_of_mem (List.mem_append_right _ (List.mem_of_mem_head? ho))

theorem rest_eq (buf : List Octet) :
    rest buf = if 0 ≤ int_of buf.length ∨ 0 ∈ vals buf then some (printf_s (int_of buf.length) buf)
      else none := by
  unfold rest
  split
  · rename_i hbuf
    subst hbuf
    rfl
  · rfl

theorem rest_isSome_iff {buf : List Octet} :
    (rest buf).isSome ↔ 0 ≤ int_of buf.length ∨ 0 ∈ vals buf := by
  rw [rest_eq]
  split
  · rename_i h
    exact iff_of_true rfl h
  · rename_i h
    exact iff_of_false Bool.false_ne_true h

theorem rest_eq_some_iff {buf line : List Octet} : rest buf = some line ↔ Shows buf line := by
  have hle := int_of_le buf.length
  rw [rest_eq]
  unfold printf_s Shows
  by_cases hneg : int_of buf.length < 0
  · rw [if_pos hneg]
    by_cases hnul : 0 ∈ vals buf
    · rw [if_pos (.inr hnul), Option.some.injEq, text_eq_iff]
      refine and_congr_right fun hline => exists_congr fun more => and_congr_right fun hbuf => ?_
      have hmore : more ≠ [] := by
        rintro rfl
        rw [hbuf, List.append_nil] at hnul
        exact hline hnul
      constructor
      · exact fun h => .inr ⟨h.resolve_left hmore, .inl hneg⟩
      · exact fun h => .inr (h.resolve_left (by omega)).1
    · rw [if_neg (not_or.mpr ⟨by omega, hnul⟩)]
      refine iff_of_false (fun h => nomatch h) ?_
      rintro ⟨-, more, hbuf, hlen | ⟨hhead, -⟩⟩
      · omega
      · exact hnul (hbuf ▸ mem_vals_of_head hhead line)
  · rw [if_pos (.inl (by omega)), if_neg hneg, Option.some.injEq, text_eq_iff]
    obtain ⟨k, hk⟩ := Int.eq_ofNat_of_zero_le (by omega : 0 ≤ int_of buf.length)
    rw [hk] at hle hneg ⊢
    rw [Int.toNat_natCast]
    have htake : (buf.take k).length = k := List.length_take_of_le (by omega)
    refine and_congr_right fun hline => ?_
    constructor
    · rintro ⟨more, hbuf, hmore⟩
      refine ⟨more ++ buf.drop k, ?_, ?_⟩
      · rw [← List.append_assoc, ← hbuf, List.take_append_drop]
      have hlen := congrArg List.length hbuf
      rw [htake, List.length_append] at hlen
      rcases hmore with rfl | hhead
      · exact .inl (by rw [hlen]; rfl)
      · refine .inr ⟨?_, .inr (by omega)⟩
        obtain ⟨o, ho, hval⟩ := Option.map_eq_some_iff.mp hhead
        obtain ⟨r, rfl⟩ := List.head?_eq_some_iff.mp ho
        exact congrArg some hval
    · rintro ⟨more, rfl, hmore⟩
      refine ⟨more.take (k - line.length), ?_, ?_⟩
      · rw [List.take_append, List.take_of_length_le (by omega)]
      · by_cases hlen : k = line.length
        · rw [hlen, Nat.sub_self, List.take_zero]
          exact .inl rfl
        · obtain ⟨hhead, hshort⟩ := hmore.resolve_left (by omega)
          have hpos : k - line.length ≠ 0 := by omega
          rw [List.head?_take, if_neg hpos]
          exact .inr hhead

theorem inner_inside (p : Piece) (hlf : NL ∉ p.inner) : ∀ o ∈ p.inner, o.inside = true := by
  intro o ho
  obtain ⟨b, -, rfl⟩ := List.mem_map.mp ho
  have hne : b ≠ LF := fun hb => hlf (eq_nl (o := octet true b) hb ▸ ho)
  exact decide_eq_true hne

theorem body_inside (heard : List Heard) : ∀ o ∈ body heard, o ≠ NL → o.inside = true := by
  intro o ho hne
  obtain ⟨x, -, hx⟩ := List.mem_flatMap.mp ho
  cases x with
  | raw r => nomatch hx
  | data p =>
    obtain ⟨b, -, rfl⟩ := List.mem_map.mp hx
    exact decide_eq_true fun hb => hne (eq_nl (o := octet true b) hb)

theorem eq_nil_of_own {s : List Octet} (hinside : ∀ o ∈ s, o.inside = true) (hown : own s = 0) :
    s = [] := by
  rw [own_eq_length hinside] at hown
  exact List.eq_nil_of_length_eq_zero hown

/-- The raw data of a read, where no end of a line is seen in it. -/
theorem Raw.seen_open {print_header done : Bool} {r : Raw} (hlf : NL ∉ r.seen print_header done)
    (buf : List Octet) :
    start buf (r.seen print_header done) = some buf ∧
      r.kept print_header done buf = buf ++ r.taken print_header done := by
  refine ⟨if_neg hlf, ?_⟩
  unfold Raw.kept
  rw [pending_of_not_mem hlf, List.append_assoc]
  unfold Raw.seen PrintReply.seen at hlf ⊢
  rcases extra_cases (r.taken print_header done) (r.left print_header done) with hno | ⟨x, hx, -⟩
  · rw [hno, List.append_nil, text_append_behind_nul]
  · rw [hx] at hlf
    exact absurd (List.mem_append_right _ (List.mem_append_right _ List.mem_cons_self)) hlf

/-- Where it is seen, nothing of a piece is left behind it. -/
theorem Raw.own_kept_of_mem {print_header done : Bool} {r : Raw}
    (hlf : NL ∈ r.seen print_header done) (first : List Octet) :
    r.kept print_header done first = r.kept print_header done [] ∧
    own (r.kept print_header done []) = 0 := by
  have hown := r.own_kept print_header done []
  constructor
  · unfold Raw.kept
    rw [pending_of_mem hlf]
  · exact Nat.le_zero.mp hown

/-- The bytes of the lines are those of the line at the start, and of the text. -/
theorem own_linesFrom (p s : List Octet) : own (linesFrom NL p s).flatten = own p + own s :=
  countP_linesFrom rfl p s

variable {print_header done : Bool} {buf line : List Octet} {heard : List Heard}

/-- Once an LF behind a piece has ended a line of the body, no byte of the body may come. -/
theorem body_ends {p : List Octet} {ls : List (List Octet)} (hp : p ≠ [])
    (hls : shown print_header done [] heard = some ls)
    (heq : linesFrom NL p (body heard) = p :: ls) :
    body heard = [] := by
  obtain ⟨more, rest, hhead, hmore⟩ := linesFrom_head hp (body heard)
  rw [hhead] at heq
  obtain ⟨hpmore, rfl⟩ := List.cons.inj heq
  rcases hmore (List.append_right_eq_self.mp hpmore) with ⟨hbody, -⟩ | ⟨t, hbody, rfl⟩
  · exact hbody
  -- the LF of the body is taken for one more end of a line, and what is behind the last one is not
  -- printed
  have hcounts := shown_counts hls
  have hlines := hcounts.lines
  have hinside : ∀ o ∈ pending NL [] t, o.inside = true := by
    refine pending_forall (fun _ hno => absurd hno List.not_mem_nil) fun o ho hne => ?_
    exact body_inside heard o (hbody ▸ List.mem_cons_of_mem _ ho) hne
  have hown : own (body heard) = own t := by
    rw [hbody]
    exact List.countP_cons_of_neg (fun h => nomatch h)
  have hall : own (linesFrom NL [] t).flatten = own t := by
    rw [own_linesFrom]
    exact Nat.zero_add _
  have hlength : (linesFrom NL [] t).length =
      t.count NL + (unfinished (pending NL [] t)).length := by
    unfold linesFrom
    rw [List.length_append, complete_length]
  rw [hbody, List.count_cons_self] at hlines
  by_cases hopen : pending NL [] t = []
  · rw [hopen] at hlength
    change _ = _ + 0 at hlength
    omega
  · rw [unfinished_of_ne_nil hopen] at hlength
    have hle := hcounts.open_line (by rw [hbody, List.count_cons_self, hlength]; rfl)
    rw [hall, hown, hbody, pending_sep] at hle
    change _ + _ ≤ 0 + _ at hle
    exact absurd (eq_nil_of_own hinside (by omega)) hopen

/-- A piece behind which no end of a line is seen. -/
theorem shown_piece {p : Piece} (hno : extra p.inner p.outer = []) :
    shown print_header done buf (.data p :: heard) =
      if NL ∈ p.inner then (rest buf).bind fun first =>
        (shown print_header done (pending NL [] p.inner) heard).map (complete NL first p.inner ++ ·)
      else shown print_header done (buf ++ p.inner) heard := by
  rw [shown, p.seen_eq, hno, List.append_nil]
  unfold start
  split
  · rename_i hlf
    cases rest buf with
    | none => rfl
    | some first =>
      rw [Option.bind_eq_bind, Option.bind_some, Option.bind_some, pending_of_mem hlf first []]
      cases shown print_header done (pending NL [] p.inner) heard with
      | none => rfl
      | some ls => rfl
  · rename_i hlf
    rw [Option.bind_eq_bind, Option.bind_some, pending_of_not_mem hlf, complete_of_not_mem hlf]
    cases shown print_header done (buf ++ p.inner) heard with
    | none => rfl
    | some ls => rfl

/-- A piece behind which one is seen. -/
theorem shown_piece_extra {p : Piece} {x : List Octet} (hx : extra p.inner p.outer = x ++ [NL])
    (hlf : NL ∉ x) :
    shown print_header done buf (.data p :: heard) = (rest buf).bind fun first =>
      (shown print_header done [] heard).map
        (complete NL first p.inner ++ (pending NL first p.inner ++ x) :: ·) := by
  have hmem : NL ∈ p.inner ++ (x ++ [NL]) :=
    List.mem_append_right _ (List.mem_append_right _ List.mem_cons_self)
  rw [shown, p.seen_eq, hx]
  unfold start
  rw [if_pos hmem]
  cases rest buf with
  | none => rfl
  | some first =>
    have hlines : complete NL first (p.inner ++ (x ++ [NL])) =
        complete NL first p.inner ++ [pending NL first p.inner ++ x] := by
      rw [complete_append, complete_append, complete_of_not_mem hlf, pending_of_not_mem hlf,
        complete_sep]
      rfl
    have hopen : pending NL first (p.inner ++ (x ++ [NL])) = [] := by
      rw [pending_append, pending_append, pending_sep]
      rfl
    rw [Option.bind_eq_bind, Option.bind_some, Option.bind_some, hlines, hopen]
    cases shown print_header done [] heard with
    | none => rfl
    | some ls => exact congrArg some (List.append_assoc _ _ ls)

/-- Where what an LF behind a piece ends is a line of the body, nothing else is in it. -/
theorem extra_line {p : Piece} {first x : List Octet} {ls : List (List Octet)}
    (hline : ∀ o ∈ line, o.inside = true) (hfirst : own first ≤ line.length)
    (hopen : pending NL line p.inner ≠ []) (hx : x.Sublist p.outer)
    (hcomplete : complete NL first p.inner = complete NL line p.inner)
    (hlast : (pending NL first p.inner ++ x) :: ls =
      linesFrom NL (pending NL line p.inner) (body heard)) :
    first = line ∧ x = [] := by
  have hinner : ∀ o ∈ p.inner, o ≠ NL → o.inside = true := by
    intro o ho
    exact body_inside [.data p] o (by rw [body_data]; exact List.mem_append_left _ ho)
  have hinside : ∀ o ∈ pending NL first p.inner ++ x, o.inside = true :=
    linesFrom_forall (pending_forall hline hinner) (body_inside heard) (hlast ▸ List.mem_cons_self)
  obtain rfl : x = [] := by
    apply eq_nil_of_own fun o ho => hinside o (List.mem_append_right _ ho)
    have houter : own p.outer = 0 := own_eq_zero fun _ => outside
    exact Nat.le_zero.mp (houter ▸ own_le_of_sublist hx)
  refine ⟨?_, rfl⟩
  by_cases hlf : NL ∈ p.inner
  · obtain ⟨s, ls', hall⟩ := complete_of_mem hlf
    rw [hall, hall] at hcomplete
    exact List.append_cancel_right (List.cons.inj hcomplete).1
  · obtain ⟨more, rest, hhead, -⟩ := linesFrom_head hopen (body heard)
    rw [hhead] at hlast
    have heq := (List.cons.inj hlast).1
    rw [List.append_nil] at heq hinside
    have hmore : more = [] := by
      apply eq_nil_of_own fun o ho => hinside o (heq ▸ List.mem_append_right _ ho)
      rw [pending_of_not_mem hlf, pending_of_not_mem hlf] at heq
      have hown := congrArg own heq
      rw [own_append, own_append, own_append, own_eq_length hline] at hown
      omega
    rw [hmore, List.append_nil, pending_of_not_mem hlf, pending_of_not_mem hlf] at heq
    exact List.append_cancel_right heq

theorem shown_nil_iff : shown print_header done buf [] = some (unfinished line) ↔
    Sound print_header done buf line [] := by
  have hstop : Sound print_header done buf line [] ↔
      (buf = [] ↔ line = []) ∧ rest buf = some line := by
    rw [rest_eq_some_iff]
    exact ⟨fun h => by cases h; exact ⟨by assumption, by assumption⟩, fun h => .stop h.1 h.2⟩
  rw [hstop, shown]
  unfold unfinished rest
  by_cases hb : buf = []
  · by_cases hl : line = []
    · simp [hb, hl]
    · simp [hb, hl]
  · by_cases hl : line = []
    · simp [hb, hl]
    · simp [hb, hl]

/-- From every line buffer on: the lines of the body are shown if and only if the condition
holds. -/
def Judged (print_header : Bool) (heard : List Heard) : Prop :=
  ∀ {done : Bool} {buf line : List Octet}, (∀ o ∈ line, o.inside = true) → own buf ≤ line.length →
    (shown print_header done buf heard = some (linesFrom NL line (body heard)) ↔
      Sound print_header done buf line heard)

/-- The same from an empty line on. -/
theorem Judged.fresh (h : Judged print_header heard) (hbuf : own buf = 0) :
    shown print_header done buf heard = some (linesFrom NL [] (body heard)) ↔
      Sound print_header done buf [] heard :=
  h (fun _ hno => absurd hno List.not_mem_nil) hbuf.le

/-- A read in which no LF is seen. -/
theorem Judged.header (h : Judged print_header heard) {r : Raw}
    (hlf : NL ∉ r.seen print_header done) (hline : ∀ o ∈ line, o.inside = true)
    (hbuf : own buf ≤ line.length) :
    shown print_header done buf (.raw r :: heard) =
        some (linesFrom NL line (body (.raw r :: heard))) ↔
      Sound print_header done buf line (.raw r :: heard) := by
  obtain ⟨hstart, hkept⟩ := r.seen_open hlf buf
  have hshown : shown print_header done buf (.raw r :: heard) =
      shown print_header (r.header print_header done).2 (buf ++ r.taken print_header done)
        heard := by
    rw [shown, hstart, Option.bind_eq_bind, Option.bind_some, ← hkept]
    rfl
  rw [hshown, body_raw, h hline (by rw [own_append, r.own_taken, Nat.add_zero]; exact hbuf)]
  constructor
  · exact .header hlf
  · intro hsound
    cases hsound with
    | header _ hrest => exact hrest
    | header_ends hmem => exact absurd hmem hlf

/-- A read in which one is seen. The line of the body cannot have begun, for what is shown of it
then comes too soon. -/
theorem Judged.header_ends (h : Judged print_header heard) {r : Raw}
    (hlf : NL ∈ r.seen print_header done) (hline : ∀ o ∈ line, o.inside = true) :
    shown print_header done buf (.raw r :: heard) =
        some (linesFrom NL line (body (.raw r :: heard))) ↔
      Sound print_header done buf line (.raw r :: heard) := by
  have hshown : shown print_header done buf (.raw r :: heard) = (rest buf).bind fun _ =>
      shown print_header (r.header print_header done).2 (r.kept print_header done []) heard := by
    have hstart : start buf (r.seen print_header done) = rest buf := if_pos hlf
    rw [shown, hstart]
    exact congrArg (rest buf).bind (funext fun first => congrArg
      (shown print_header (r.header print_header done).2 · heard) (Raw.own_kept_of_mem hlf first).1)
  have hrec : shown print_header (r.header print_header done).2 _ heard = _ ↔ _ :=
    h.fresh (Raw.own_kept_of_mem hlf []).2
  rw [hshown, body_raw]
  constructor
  · intro hall
    obtain ⟨first, hfirst, hrest⟩ := Option.bind_eq_some_iff.mp hall
    have hown := (shown_counts hrest).printed
    rw [own_linesFrom, (Raw.own_kept_of_mem hlf []).2] at hown
    obtain rfl : line = [] := eq_nil_of_own hline (by omega)
    exact .header_ends hlf (rest_isSome_iff.mp (Option.isSome_of_eq_some hfirst)) (hrec.mp hrest)
  · intro hsound
    cases hsound with
    | header hno => exact absurd hlf hno
    | header_ends _ hsome hrest =>
      obtain ⟨first, hfirst⟩ := Option.isSome_iff_exists.mp (rest_isSome_iff.mpr hsome)
      rw [hfirst, Option.bind_some]
      exact hrec.mpr hrest

/-- A piece within a line. -/
theorem Judged.more (h : Judged print_header heard) {p : Piece} (hno : extra p.inner p.outer = [])
    (hlf : NL ∉ p.inner) (hline : ∀ o ∈ line, o.inside = true) (hbuf : own buf ≤ line.length) :
    shown print_header done buf (.data p :: heard) =
        some (linesFrom NL line (body (.data p :: heard))) ↔
      Sound print_header done buf line (.data p :: heard) := by
  have hinner := inner_inside p hlf
  rw [shown_piece hno, body_data, linesFrom_append, if_neg hlf, complete_of_not_mem hlf,
    pending_of_not_mem hlf, List.nil_append, h]
  · constructor
    · exact .more hlf hno
    · intro hsound
      cases hsound with
      | more _ _ hrest => exact hrest
      | ends hmem => exact absurd hmem hlf
      | last hlast => exact absurd (hno.symm.trans hlast) (List.cons_ne_nil _ _).symm
  · exact fun o ho => (List.mem_append.mp ho).elim (hline o) (hinner o)
  · rw [own_append, own_eq_length hinner, List.length_append]
    omega

/-- A piece that ends a line. -/
theorem Judged.ends (h : Judged print_header heard) {p : Piece} (hno : extra p.inner p.outer = [])
    (hlf : NL ∈ p.inner) :
    shown print_header done buf (.data p :: heard) =
        some (linesFrom NL line (body (.data p :: heard))) ↔
      Sound print_header done buf line (.data p :: heard) := by
  have hbody := body_data p heard
  obtain ⟨s, ls, hcomplete⟩ := complete_of_mem hlf
  have hinside : ∀ o ∈ pending NL [] p.inner, o.inside = true := by
    refine pending_forall (fun _ hno => absurd hno List.not_mem_nil) fun o ho hne => ?_
    exact body_inside (.data p :: heard) o (hbody ▸ List.mem_append_left _ ho) hne
  have hrec : shown print_header done (pending NL [] p.inner) heard = _ ↔ _ :=
    h hinside (own_eq_length hinside).le
  rw [shown_piece hno, hbody, linesFrom_append, if_pos hlf, pending_of_mem hlf line [],
    hcomplete line]
  constructor
  · intro hall
    obtain ⟨first, hfirst, hrest⟩ := Option.bind_eq_some_iff.mp hall
    obtain ⟨ls', hls', heq⟩ := Option.map_eq_some_iff.mp hrest
    rw [hcomplete first] at heq
    obtain ⟨hline, htail⟩ := List.cons.inj heq
    obtain rfl := List.append_cancel_right hline
    obtain rfl := List.append_cancel_left htail
    exact .ends hlf hno (rest_eq_some_iff.mp hfirst) (hrec.mp hls')
  · intro hsound
    cases hsound with
    | more hmem => exact absurd hlf hmem
    | ends _ _ hshows hrest =>
      rw [rest_eq_some_iff.mpr hshows, Option.bind_some, hrec.mpr hrest, hcomplete line]
      rfl
    | last hlast => exact absurd (hno.symm.trans hlast) (List.cons_ne_nil _ _).symm

/-- A piece behind which an LF is seen. -/
theorem Judged.last (h : Judged print_header heard) {p : Piece} {x : List Octet}
    (hx : extra p.inner p.outer = x ++ [NL]) (hxlf : NL ∉ x) (hxout : x.Sublist p.outer)
    (hopen : pending NL [] p.inner ≠ []) (hline : ∀ o ∈ line, o.inside = true)
    (hbuf : own buf ≤ line.length) :
    shown print_header done buf (.data p :: heard) =
        some (linesFrom NL line (body (.data p :: heard))) ↔
      Sound print_header done buf line (.data p :: heard) := by
  have hpending : pending NL line p.inner ≠ [] := by
    by_cases hlf : NL ∈ p.inner
    · rwa [pending_of_mem hlf line []]
    · rw [pending_of_not_mem hlf] at hopen ⊢
      exact List.append_ne_nil_of_right_ne_nil _ hopen
  have hmore : extra p.inner p.outer ≠ [] := by
    rw [hx]
    exact List.append_ne_nil_of_right_ne_nil _ (List.cons_ne_nil _ _)
  have hrec : shown print_header done [] heard = _ ↔ _ := h.fresh rfl
  rw [shown_piece_extra hx hxlf, body_data, linesFrom_append]
  constructor
  · intro hall
    obtain ⟨first, hfirst, hrest⟩ := Option.bind_eq_some_iff.mp hall
    obtain ⟨ls, hls, heq⟩ := Option.map_eq_some_iff.mp hrest
    obtain ⟨hcomplete, hlast⟩ := List.append_inj heq (by rw [complete_length, complete_length])
    have hshort := Nat.le_trans (own_le_of_sublist (rest_sublist hfirst)) hbuf
    obtain ⟨rfl, rfl⟩ := extra_line hline hshort hpending hxout hcomplete hlast
    rw [List.append_nil] at hlast
    have hend := body_ends hpending hls hlast.symm
    rw [hend, linesFrom_nil, unfinished_of_ne_nil hpending] at hlast
    obtain rfl := (List.cons.inj hlast).2
    refine .last hx (rest_eq_some_iff.mp hfirst) hend (hrec.mp ?_)
    rw [hls, hend]
    rfl
  · intro hsound
    cases hsound with
    | more _ hno => exact absurd hno hmore
    | ends _ hno => exact absurd hno hmore
    | last hlast hshows hend hrest =>
      obtain rfl : x = [] := List.append_left_eq_self.mp (hx.symm.trans hlast)
      rw [rest_eq_some_iff.mpr hshows, Option.bind_some, hrec.mpr hrest, hend, linesFrom_nil,
        linesFrom_nil, unfinished_of_ne_nil hpending, List.append_nil]
      rfl

theorem judged (print_header : Bool) (heard : List Heard) : Judged print_header heard := by
  induction heard with
  | nil => exact fun _ _ => shown_nil_iff
  | cons x heard ih =>
    intro done buf line hline hbuf
    cases x with
    | raw r =>
      by_cases hlf : NL ∈ r.seen print_header done
      · exact ih.header_ends hlf hline
      · exact ih.header hlf hline hbuf
    | data p =>
      rcases extra_cases p.inner p.outer with hno | ⟨x, hx, hxlf, hxout, hopen⟩
      · by_cases hlf : NL ∈ p.inner
        · exact ih.ends hno hlf
        · exact ih.more hno hlf hline hbuf
      · exact ih.last hx hxlf hxout hopen hline hbuf

theorem shows_self (hnul : 0 ∉ vals line) (hshort : line.length < 2 ^ 31) : Shows line line :=
  ⟨hnul, [], (List.append_nil line).symm, .inl (int_of_eq hshort).symm⟩

/-- Where no header is printed and nothing is left of an earlier print, it is enough that no LF is
seen behind the pieces, and that the body is shorter than 2^31 bytes. -/
theorem sound_of_no_extra (hnul : 0 ∉ vals line)
    (hextra : ∀ p, .data p ∈ heard → extra p.inner p.outer = [])
    (hshort : (line ++ body heard).length < 2 ^ 31) : Sound false done line line heard := by
  induction heard generalizing line with
  | nil =>
    rw [List.length_append] at hshort
    exact .stop Iff.rfl (shows_self hnul (by omega))
  | cons x heard ih =>
    have hextra' : ∀ p, .data p ∈ heard → extra p.inner p.outer = [] := fun p hp =>
      hextra p (List.mem_cons_of_mem _ hp)
    cases x with
    | raw r =>
      have htaken : r.taken false done = [] := by
        unfold Raw.taken
        rw [Raw.header_false]
        rfl
      have hseen : NL ∉ r.seen false done := by
        unfold Raw.seen
        rw [htaken]
        exact List.not_mem_nil
      refine .header hseen ?_
      rw [htaken, List.append_nil, Raw.header_false]
      exact ih hnul hextra' hshort
    | data p =>
      have hno := hextra p List.mem_cons_self
      have hinner := inner_no_nul p
      rw [body_data, List.length_append, List.length_append] at hshort
      by_cases hlf : NL ∈ p.inner
      · have hpending := pending_length_le NL [] p.inner
        rw [List.length_nil, Nat.zero_add] at hpending
        refine .ends hlf hno (shows_self hnul (by omega)) (ih ?_ hextra' ?_)
        · rw [not_mem_vals] at hinner ⊢
          exact pending_forall (fun _ hno => absurd hno List.not_mem_nil) fun o ho _ => hinner o ho
        · rw [List.length_append]
          omega
      · refine .more hlf hno (ih ?_ hextra' ?_)
        · rw [vals_append, List.mem_append]
          exact not_or.mpr ⟨hnul, hinner⟩
        · rw [List.length_append, List.length_append]
          omega

/-- The lines of the body are printed, and nothing else, if and only if the condition holds. `left`
is what stands in the line buffer before the call. -/
theorem body_printed_iff (id : Nat) (print_header done : Bool) (size : Nat) (left : List Byte)
    (heard : List Heard) :
    Printed id print_header heard ⟨done, size, octets false left⟩ ↔
      Sound print_header done (octets false left) [] heard := by
  have hnone : own (octets false left) = 0 := own_eq_zero fun _ => outside
  rw [← Judged.fresh (judged print_header heard) hnone]
  unfold Printed
  rw [print_body_eq]
  have hinj : Function.Injective (List.map (Line.mk (bytes "RB") id)) :=
    List.map_injective_iff.mpr fun s t h => (Line.mk.inj h).2.2
  dsimp only
  constructor
  · intro h
    obtain ⟨ls, hls, heq⟩ := Option.map_eq_some_iff.mp h
    rw [hls, hinj heq]
  · intro h
    rw [h]
    rfl

/-- The first chunk of a body in front of the end of its framing. -/
def chunk : Heard :=
  .data ⟨bytes "hello", bytes "\r\n0\r\n\r\n", by decide +kernel, by decide +kernel⟩

/-- The end of the header comes in two reads, so that it is not seen. -/
def cut_header : List Heard :=
  [.raw ⟨bytes "HTTP/1.1 200 OK\r\nContent-Length: 7\r\n\r", by decide +kernel⟩,
    .raw ⟨bytes "\nabc\n", by decide +kernel⟩,
    .data ⟨bytes "abc\n", [], by decide +kernel, by decide +kernel⟩,
    .raw ⟨bytes "def", by decide +kernel⟩,
    .data ⟨bytes "def", [], by decide +kernel, by decide +kernel⟩]

/-- The CR of the framing is printed with the line; and what is taken for a header that has not
ended is printed with the line too. -/
theorem framing_is_printed :
    ¬ Printed 0 false [chunk] ⟨false, 0, []⟩ ∧
      (print_body 0 false [chunk] ⟨false, 0, []⟩).map (List.flatMap Line.show) =
        some (bytes "RB0:hello\r\n") ∧
    ¬ Printed 0 true cut_header ⟨false, 0, []⟩ ∧
      (print_body 0 true cut_header ⟨false, 0, []⟩).map (List.flatMap Line.show) =
        some (bytes "RB0:abc\nRB0:defdef\n") := by
  unfold Printed
  decide +kernel

end Httperf.PrintReply
