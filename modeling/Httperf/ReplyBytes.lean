-- The counts of one reply (`header_bytes` and `content_bytes`), for any cut of the stream. Each
-- function of the parser adds what it has taken of a read, and `parse_status_line` returns early
-- when the line goes on in the next one.
import Httperf.TrafficInv
import Httperf.RecvDecodes
import Httperf.ReplyWire

namespace Httperf

/-! ## The header of a reply -/

/-- Lines with CRLF, and the empty line behind them. -/
def block (fields : List (List Byte)) : List Byte := (fields.map crlf).flatten ++ crlf []

/-- A line that with its CRLF has at most 1023 bytes. -/
structure HeadLine (text : List Byte) : Prop where
  noLF : LF ∉ text
  short : text.length + 2 < MAX_HDR_LINE_LEN

/-- What stands before the body. Behind the status 100 the final reply follows, with its status line
first among `final`. -/
structure Head where
  line : List Byte
  fields : List (List Byte)
  final : Option (List (List Byte))
  line_ok : HeadLine line
  fields_ok : ∀ f ∈ fields, HeadLine f ∧ f ≠ []
  final_ok : ∀ fs ∈ final, ∀ f ∈ fs, HeadLine f ∧ f ≠ []

theorem block_cons (f : List Byte) (fs : List (List Byte)) :
    block (f :: fs) = crlf f ++ block fs := by
  unfold block
  rw [List.map_cons, List.flatten_cons, List.append_assoc]

/-- From the first byte of the status line through the empty line that ends the header. -/
def Head.wire (hd : Head) : List Byte :=
  crlf hd.line ++ (block hd.fields ++ (hd.final.map block).getD [])

/-- The number of empty lines in the header. -/
def Head.sections (hd : Head) : Nat := if hd.final.isSome then 2 else 1

/-! ## The empty lines that are seen -/

/-- What the line buffer has of a line behind `line`, when `buf` is read: the bytes up to the first
LF that stands behind no NUL, or else all of them, as far as they fit. -/
def taken (line buf : List Byte) : List Byte := line ++ buf.take (to_copy line buf)

/-- A line ends with an LF, or when it fills the line buffer. -/
def complete (line : List Byte) : Bool :=
  line.getLast? = some LF || line.length = MAX_HDR_LINE_LEN - 1

/-- The number of bytes of these reads through the `k`-th empty line that is seen in them, where
`line` has come before. -/
def seenEnd : Nat → List Byte → List (List Byte) → Option Nat
  | 0, _, _ => some 0
  | _ + 1, _, [] => none
  | k + 1, line, buf :: bufs =>
    if _hb : buf = [] then seenEnd (k + 1) line bufs
    else
      let next := taken line buf
      (if complete next then
        seenEnd (if chop next = [] then k else k + 1) [] (buf.drop (eol buf) :: bufs)
      else seenEnd (k + 1) next (buf.drop (eol buf) :: bufs)).map (eol buf + ·)
termination_by _ _ bufs => bufs.flatten.length + bufs.length
decreasing_by
  · simp [_hb]
  all_goals
    have := List.length_pos_iff.mpr _hb
    have := eol_pos buf _hb
    simp only [List.flatten_cons, List.length_append, List.length_drop, List.length_cons]
    omega

/-- The same where the status line ends in the first of the reads. -/
def headEnd (k : Nat) : List (List Byte) → Option Nat
  | [] => none
  | buf :: bufs => (seenEnd k [] (buf.drop (eol buf) :: bufs)).map (eol buf + ·)

theorem seenEnd_zero (line : List Byte) (bufs : List (List Byte)) :
    seenEnd 0 line bufs = some 0 := by
  rw [seenEnd]

theorem seenEnd_used (k : Nat) (line : List Byte) (bufs : List (List Byte)) :
    seenEnd k line ([] :: bufs) = seenEnd k line bufs := by
  cases k with
  | zero => rw [seenEnd_zero, seenEnd_zero]
  | succ k =>
    rw [seenEnd]
    exact dif_pos rfl

theorem strchr_lf_of_append {a b : List Byte} {i : Nat} (h : strchr_lf (a ++ b) = some i)
    (hi : i < a.length) : strchr_lf a = some i := by
  unfold strchr_lf at h ⊢
  dsimp only at h ⊢
  rw [List.takeWhile_append] at h
  split_ifs at h with hall hget hget
  · obtain rfl := Option.some.inj h
    rw [List.length_append] at hi
    omega
  · obtain rfl := Option.some.inj h
    rw [List.getElem?_append_left hi] at hget
    rw [if_pos hget]

/-- What follows the end of a line does not change where it is seen. -/
theorem eol_append {y z rest : List Byte} (h : eol (y ++ (z ++ rest)) = y.length) :
    eol (y ++ z) = y.length := by
  cases hlf : strchr_lf (y ++ (z ++ rest)) with
  | none =>
    have hlen := h
    rw [eol_unseen hlf, List.length_append, List.length_append] at hlen
    obtain rfl : rest = [] := List.length_eq_zero_iff.mp (by omega)
    rwa [List.append_nil] at h
  | some i =>
    rw [eol_seen hlf] at h
    rw [← List.append_assoc] at hlf
    rw [eol_seen (strchr_lf_of_append hlf (by rw [List.length_append]; omega)), h]

theorem taken_append (line : List Byte) {y z rest : List Byte}
    (h : eol (y ++ (z ++ rest)) = y.length) : taken line (y ++ z) =
      taken line (y ++ (z ++ rest)) := by
  have hsame : to_copy line (y ++ (z ++ rest)) = to_copy line (y ++ z) := by
    unfold to_copy
    rw [h, eol_append h]
  have hle : to_copy line (y ++ z) ≤ y.length := by
    unfold to_copy
    rw [eol_append h]
    split <;> omega
  unfold taken
  rw [hsame, List.take_append_of_le_length hle, List.take_append_of_le_length hle]

theorem get_line_eq {r : Rx} (hb : r.buf ≠ []) :
    get_line r = (complete (taken r.s.line r.buf), { r with
      buf := r.buf.drop (eol r.buf)
      s.line := if complete (taken r.s.line r.buf) then chop (taken r.s.line r.buf)
        else taken r.s.line r.buf }) := by
  unfold get_line complete taken
  rw [if_neg hb]
  dsimp only
  split <;> simp_all

/-- A call of `get_line` on a read of which it takes `y`. `z` is taken of it later. -/
theorem seenEnd_get_line (k : Nat) {r : Rx} {y z rest : List Byte} (later : List (List Byte))
    (hy : r.buf = y ++ (get_line r).2.buf) (hz : (get_line r).2.buf = z ++ rest) :
    seenEnd (k + 1) r.s.line ((y ++ z) :: later) =
      (if (get_line r).1 then
        seenEnd (if (get_line r).2.s.line = [] then k else k + 1) [] (z :: later)
      else seenEnd (k + 1) (get_line r).2.s.line (z :: later)).map (y.length + ·) := by
  by_cases hb : r.buf = []
  · have hget : get_line r = (false, r) := by
      unfold get_line
      rw [if_pos hb]
    rw [hget, hb] at hy hz
    obtain ⟨rfl, -⟩ := List.append_eq_nil_iff.mp hy.symm
    obtain ⟨rfl, -⟩ := List.append_eq_nil_iff.mp hz.symm
    rw [hget]
    simp
  · have hget := get_line_eq hb
    have hbuf : (get_line r).2.buf = r.buf.drop (eol r.buf) := by rw [hget]
    have hall : r.buf = y ++ (z ++ rest) := by rw [hy, hz]
    have heol : eol (y ++ (z ++ rest)) = y.length := by
      have hlen := congrArg List.length hy
      have hle := eol_le r.buf
      rw [hbuf, List.length_append, List.length_drop] at hlen
      rw [← hall]
      omega
    have hne : y ++ z ≠ [] := by
      intro hnil
      obtain ⟨rfl, -⟩ := List.append_eq_nil_iff.mp hnil
      rw [← hall] at heol
      exact absurd heol (Nat.ne_of_gt (eol_pos r.buf hb))
    have htaken : taken r.s.line (y ++ z) = taken r.s.line r.buf := by
      rw [taken_append _ heol, hall]
    rw [seenEnd, dif_neg hne]
    dsimp only
    rw [eol_append heol, List.drop_left, htaken, hget]
    dsimp only
    split <;> rfl

/-- The parser goes from `r` to `r'`, and comes `m` bytes nearer to the end of the header. -/
def Sees (r r' : Rx) (k k' m : Nat) : Prop :=
  ∀ y z rest later, r.buf = y ++ r'.buf → r'.buf = z ++ rest →
    seenEnd k r.s.line ((y ++ z) :: later) = (seenEnd k' r'.s.line (z :: later)).map (m + ·)

theorem Sees.trans {r r1 r2 : Rx} {k k1 k2 m n : Nat} (h : Sees r r1 k k1 m)
    (h' : Sees r1 r2 k1 k2 n) (hbuf : r1.buf <:+ r.buf) (hbuf' : r2.buf <:+ r1.buf) :
    Sees r r2 k k2 (m + n) := by
  intro y z rest later hy hz
  obtain ⟨a, ha⟩ := hbuf
  obtain ⟨b, hb⟩ := hbuf'
  have hab : y = a ++ b := by
    rw [← ha, ← hb, ← List.append_assoc] at hy
    exact (List.append_cancel_right hy).symm
  rw [hab, List.append_assoc, h a (b ++ z) rest later ha.symm (by rw [← hb, hz, List.append_assoc]),
    h' b z rest later hb.symm hz, Option.map_map]
  congr 1
  funext i
  exact (Nat.add_assoc m n i).symm

theorem sees_zero (r r' : Rx) : Sees r r' 0 0 0 := by
  intro y z rest later _ _
  rw [seenEnd_zero, seenEnd_zero]
  rfl

theorem get_line_sees (k : Nat) {r r' : Rx} (hbuf : r'.buf = (get_line r).2.buf)
    (hline : r'.s.line = if (get_line r).1 then [] else (get_line r).2.s.line) :
    Sees r r' (k + 1) (if (get_line r).1 && (get_line r).2.s.line = [] then k else k + 1)
      (r.buf.length - r'.buf.length) := by
  intro y z rest later hy hz
  rw [hbuf] at hy hz
  have hlen : r.buf.length - r'.buf.length = y.length := by
    rw [hbuf, congrArg List.length hy, List.length_append, Nat.add_sub_cancel]
  rw [seenEnd_get_line k later hy hz, hline, hlen]
  cases (get_line r).1 <;> simp

/-! ## A header whose line ends are all in sight -/

/-- No LF of these first bytes stands behind a NUL of the same read. -/
def InSight : Nat → List (List Byte) → Prop
  | _, [] => True
  | n, buf :: bufs => (∀ a b, buf.take n = a ++ 0 :: b → LF ∉ b) ∧ InSight (n - buf.length) bufs

/-- What is left of a line ends in its one LF. -/
theorem HeadLine.tail {line text t : List Byte} (hline : HeadLine text) (ht : line ++ t = crlf text)
    (hne : t ≠ []) : ∃ u, t = u ++ [LF] ∧ LF ∉ line ∧ LF ∉ u := by
  have hcrlf : crlf text = (text ++ [CR]) ++ [LF] := by simp [crlf]
  have hu : t = t.dropLast ++ [t.getLast hne] := (List.dropLast_append_getLast hne).symm
  rw [hu, hcrlf, ← List.append_assoc] at ht
  obtain ⟨htext, hlast⟩ := List.append_inj' ht rfl
  obtain hlast := List.singleton_inj.mp hlast
  have hno : LF ∉ line ++ t.dropLast := by
    rw [htext]
    intro hmem
    rcases List.mem_append.mp hmem with hmem | hmem
    · exact hline.noLF hmem
    · simp [LF, CR] at hmem
  rw [List.mem_append, not_or] at hno
  exact ⟨t.dropLast, by rw [hlast] at hu; exact hu, hno⟩

/-- A line whose end is in the read. -/
theorem seenEnd_whole {line text t rest : List Byte} (hline : HeadLine text)
    (ht : line ++ t = crlf text) (hne : t ≠ []) (hseen : ∀ a b, t = a ++ 0 :: b → LF ∉ b) (k : Nat)
    (bufs : List (List Byte)) :
    seenEnd (k + 1) line ((t ++ rest) :: bufs) =
      (seenEnd (if text = [] then k else k + 1) [] (rest :: bufs)).map (t.length + ·) := by
  obtain ⟨u, rfl, -, hlf⟩ := hline.tail ht hne
  have hnul : 0 ∉ u := by
    intro hmem
    obtain ⟨a, b, rfl⟩ := List.append_of_mem hmem
    exact hseen a (b ++ [LF]) (by simp) (by simp)
  have heol : eol ((u ++ [LF]) ++ rest) = (u ++ [LF]).length := by
    rw [List.length_append]
    apply eol_seen
    rw [List.append_assoc]
    exact strchr_lf_line hlf hnul rest
  have hlen := congrArg List.length ht
  have htaken : taken line ((u ++ [LF]) ++ rest) = crlf text := by
    have hfits : to_copy line ((u ++ [LF]) ++ rest) = (u ++ [LF]).length := by
      have hshort := hline.short
      simp only [crlf, List.length_append, List.length_cons, List.length_nil] at hlen
      unfold to_copy
      rw [heol,
        if_neg (by simp only [List.length_append, List.length_cons, List.length_nil]; omega)]
    unfold taken
    rw [hfits, List.take_left, ht]
  have hcomplete : complete (crlf text) = true := by simp [complete, crlf]
  rw [seenEnd, dif_neg (by simp)]
  dsimp only
  rw [htaken, hcomplete, if_pos rfl, chop_crlf, heol, List.drop_left]

/-- A line that goes on in the next read. -/
theorem seenEnd_part {line text buf t : List Byte} (hline : HeadLine text)
    (ht : line ++ (buf ++ t) = crlf text) (hne : t ≠ []) (k : Nat) (bufs : List (List Byte)) :
    seenEnd (k + 1) line (buf :: bufs) =
      (seenEnd (k + 1) (line ++ buf) bufs).map (buf.length + ·) := by
  by_cases hb : buf = []
  · rw [hb, seenEnd_used]
    simp
  rw [← List.append_assoc] at ht
  obtain ⟨u, rfl, hlf, -⟩ := hline.tail ht hne
  have hno : strchr_lf buf = none := by
    cases hsome : strchr_lf buf with
    | none => rfl
    | some i =>
      exact absurd (List.mem_of_getElem? (strchr_lf_some hsome).1)
        (fun hmem => hlf (by simp [hmem]))
  have hlen := congrArg List.length ht
  have hshort := hline.short
  simp only [crlf, List.length_append, List.length_cons, List.length_nil] at hlen
  have htaken : taken line buf = line ++ buf := by
    unfold taken to_copy
    rw [eol_unseen hno, if_neg (by omega), List.take_length]
  have hcomplete : complete (line ++ buf) = false := by
    have hlast : ¬ (line ++ buf).getLast? = some LF := fun h => hlf (List.mem_of_getLast? h)
    simp only [complete, hlast, decide_false, Bool.false_or, decide_eq_false_iff_not,
      List.length_append]
    unfold MAX_HDR_LINE_LEN at hshort ⊢
    omega
  rw [seenEnd, dif_neg hb]
  dsimp only
  rw [htaken, hcomplete, eol_unseen hno, List.drop_length, if_neg (by decide), seenEnd_used]

/-- A line in the reads. -/
theorem seenEnd_line {text rest : List Byte} (hline : HeadLine text) (k : Nat) :
    ∀ {bufs : List (List Byte)} {n : Nat} {line t : List Byte}, line ++ t = crlf text → t ≠ [] →
      bufs.flatten = t ++ rest → t.length ≤ n → InSight n bufs →
      ∃ bufs', bufs'.flatten = rest ∧ InSight (n - t.length) bufs' ∧
        seenEnd (k + 1) line bufs =
          (seenEnd (if text = [] then k else k + 1) [] bufs').map (t.length + ·) := by
  intro bufs
  induction bufs with
  | nil =>
    intro n line t _ hne hflat
    exact absurd (List.append_eq_nil_iff.mp hflat.symm).1 hne
  | cons buf bufs ih =>
    rintro n line t ht hne hflat hn ⟨hsight, hlater⟩
    rw [List.flatten_cons] at hflat
    rcases List.append_eq_append_iff.mp hflat with ⟨t', rfl, hrest⟩ | ⟨b, rfl, hrest⟩
    · by_cases hnil : t' = []
      · -- the read ends with the line
        subst hnil
        rw [List.append_nil] at ht hne hn ⊢
        refine ⟨[] :: bufs, hrest, ⟨by simp, by simpa using hlater⟩, ?_⟩
        rw [List.take_of_length_le hn] at hsight
        have hwhole := @seenEnd_whole _ _ _ [] hline ht hne hsight k bufs
        rwa [List.append_nil] at hwhole
      · rw [List.length_append] at hn
        obtain ⟨bufs', hflat', hsight', hend⟩ := @ih (n - buf.length) (line ++ buf) t'
          (by rw [List.append_assoc, ht]) hnil hrest (by omega) hlater
        refine ⟨bufs', hflat', ?_, ?_⟩
        · rwa [List.length_append, ← Nat.sub_sub]
        · rw [seenEnd_part hline ht hnil, hend, Option.map_map, List.length_append]
          congr 1
          funext i
          exact (Nat.add_assoc ..).symm
    · refine ⟨b :: bufs, hrest.symm, ⟨?_, ?_⟩, ?_⟩
      · intro x y hxy
        apply hsight (t ++ x) y
        rw [List.take_append, List.take_of_length_le hn, hxy, List.append_assoc]
      · rwa [List.length_append, ← Nat.sub_sub] at hlater
      · apply seenEnd_whole hline ht hne
        intro x y hxy hmem
        apply hsight x (y ++ b.take (n - t.length)) ?_ (List.mem_append_left _ hmem)
        rw [List.take_append, List.take_of_length_le hn, hxy]
        simp

/-- The lines through the next empty one. -/
theorem seenEnd_block {fields : List (List Byte)} (hfields : ∀ f ∈ fields, HeadLine f ∧ f ≠ [])
    {rest : List Byte} (k : Nat) {bufs : List (List Byte)} {n : Nat}
    (hflat : bufs.flatten = block fields ++ rest) (hn : (block fields).length ≤ n)
    (hsight : InSight n bufs) :
    ∃ bufs', bufs'.flatten = rest ∧ InSight (n - (block fields).length) bufs' ∧
      seenEnd (k + 1) [] bufs = (seenEnd k [] bufs').map ((block fields).length + ·) := by
  induction fields generalizing bufs n with
  | nil =>
    have hempty : HeadLine [] := ⟨by simp, by decide⟩
    have hlast := @seenEnd_line [] rest hempty k bufs n [] (crlf []) rfl (by simp [crlf])
    rw [if_pos rfl] at hlast
    exact hlast hflat hn hsight
  | cons f fields ih =>
    rw [block_cons, List.append_assoc] at hflat
    rw [block_cons, List.length_append] at hn
    obtain ⟨hline, hne⟩ := hfields f List.mem_cons_self
    obtain ⟨bufs1, hflat1, hsight1, hend1⟩ :=
      @seenEnd_line f (block fields ++ rest) hline k bufs n []
      (crlf f) rfl (by simp [crlf]) hflat (by omega) hsight
    obtain ⟨bufs', hflat', hsight', hend⟩ := ih (fun g hg => hfields g (List.mem_cons_of_mem f hg))
      hflat1 (by omega) hsight1
    refine ⟨bufs', hflat', ?_, ?_⟩
    · rwa [block_cons, List.length_append, ← Nat.sub_sub]
    · rw [hend1, if_neg hne, hend, Option.map_map, block_cons, List.length_append]
      congr 1
      funext i
      exact (Nat.add_assoc ..).symm

/-- Where the status line comes in the first read and the ends of the lines are in sight, the empty
line that is seen as the end of the header is the one that ends it. -/
theorem Head.seen (head : Head) {first rest : List Byte} {bufs : List (List Byte)}
    (hflat : (crlf head.line ++ first) ++ bufs.flatten = head.wire ++ rest)
    (hsight : InSight head.wire.length ((crlf head.line ++ first) :: bufs)) :
    headEnd head.sections ((crlf head.line ++ first) :: bufs) = some head.wire.length := by
  obtain ⟨hfirst, hlater⟩ := hsight
  obtain ⟨lines, hlines⟩ : ∃ lines, lines = block head.fields ++ (head.final.map block).getD [] :=
    ⟨_, rfl⟩
  have hwire : head.wire = crlf head.line ++ lines := by rw [Head.wire, hlines]
  rw [hwire, List.append_assoc, List.append_assoc] at hflat
  rw [hwire, List.length_append] at hfirst hlater ⊢
  rw [List.take_length_add_append] at hfirst
  have heol : eol (crlf head.line ++ first) = (crlf head.line).length := by
    obtain ⟨u, hu, -, hlf⟩ := head.line_ok.tail (List.nil_append (crlf head.line)) (by simp [crlf])
    have hnul : 0 ∉ u := by
      intro hmem
      obtain ⟨a, b, rfl⟩ := List.append_of_mem hmem
      exact hfirst a (b ++ [LF] ++ first.take lines.length) (by rw [hu]; simp) (by simp)
    rw [hu, List.length_append]
    apply eol_seen
    rw [List.append_assoc]
    exact strchr_lf_line hlf hnul first
  have hsight : InSight lines.length (first :: bufs) := by
    refine ⟨fun a b hab => hfirst (crlf head.line ++ a) b (by rw [hab, List.append_assoc]), ?_⟩
    rwa [List.length_append, Nat.add_sub_add_left] at hlater
  have hflat : (first :: bufs).flatten = lines ++ rest := List.append_cancel_left hflat
  suffices hend : seenEnd head.sections [] (first :: bufs) = some lines.length by
    rw [headEnd, heol, List.drop_left, hend]
    rfl
  unfold Head.sections
  cases hfinal : head.final with
  | none =>
    rw [hfinal, Option.map_none, Option.getD_none, List.append_nil] at hlines
    subst hlines
    obtain ⟨bufs', -, -, hend⟩ := seenEnd_block head.fields_ok 0 hflat le_rfl hsight
    rw [Option.isSome_none, if_neg (by decide), hend, seenEnd_zero]
    rfl
  | some fields =>
    rw [hfinal, Option.map_some, Option.getD_some] at hlines
    subst hlines
    rw [List.append_assoc] at hflat
    rw [List.length_append] at hsight ⊢
    obtain ⟨bufs1, hflat1, hsight1, hend1⟩ := seenEnd_block head.fields_ok 1 hflat (by omega) hsight
    obtain ⟨bufs2, -, -, hend2⟩ :=
      seenEnd_block (head.final_ok fields hfinal) 0 hflat1 (by omega) hsight1
    rw [Option.isSome_some, if_pos rfl, hend1, hend2, seenEnd_zero]
    rfl

/-! ## The parser in the header -/

/-- How the loop of `parse_headers` ends. -/
theorem parse_headers_loop_sees (h : Handlers) (r : Rx) :
    let r' := (parse_headers_loop h r).2
    r'.s.state.closing = true ∨
      (r'.s.state = r.s.state ∧ (r.s.has_body = false → r'.s.has_body = false) ∧
        ∀ k, Sees r r' (k + 1) (k + 1) (r.buf.length - r'.buf.length)) ∨
      ((∃ s : Conn, r'.s = headers_end s ∧ s.state = r.s.state ∧
          (r.s.has_body = false → s.has_body = false)) ∧
        ∀ k, Sees r r' (k + 1) k (r.buf.length - r'.buf.length)) := by
  induction r using parse_headers_loop.induct h with
  | case1 r hf =>
    have hstate := (get_line_s r).1
    have hbody := get_line_has_body r
    have heq : (parse_headers_loop h r).2 = (get_line r).2 := by
      rw [parse_headers_loop]
      simp only [hf, if_true]
    rw [heq]
    refine .inr (.inl ⟨hstate, fun hno => hbody.trans hno, fun k => ?_⟩)
    have hsees := @get_line_sees k r (get_line r).2 rfl (by rw [hf]; rfl)
    rwa [hf] at hsees
  | case2 r r1 hf he =>
    have hstate := (get_line_s r).1
    have hbody := get_line_has_body r
    have heq : (parse_headers_loop h r).2 =
        { (get_line r).2 with s := headers_end (get_line r).2.s } := by
      rw [parse_headers_loop]
      simp only [hf, r1, he, Bool.true_eq_false, if_false, if_true]
    have hline : (headers_end (get_line r).2.s).line = [] := by
      have hkept : (headers_end (get_line r).2.s).line = (get_line r).2.s.line := by
        unfold headers_end
        split_ifs <;> rfl
      rw [hkept]
      exact he
    rw [heq]
    refine .inr (.inr ⟨⟨_, rfl, hstate, fun hno => hbody.trans hno⟩, fun k => ?_⟩)
    have hsees := @get_line_sees k r { (get_line r).2 with s := headers_end (get_line r).2.s } rfl
      (by simpa [hf] using hline)
    simpa [hf, show (get_line r).2.s.line = [] from he] using hsees
  | case3 r r1 hf he r2 r3 hc =>
    left
    have heq : (parse_headers_loop h r).2 = r3 := by
      rw [parse_headers_loop]
      simp only [hf, r1, he, r2, r3, hc, Bool.true_eq_false, if_false, if_true]
    rw [heq]
    exact hc
  | case4 r r1 hf he r2 r3 hc ih =>
    have hstate := (get_line_s r).1
    have hbody := get_line_has_body r
    have heq : parse_headers_loop h r = parse_headers_loop h { r3 with s.line := [] } := by
      rw [parse_headers_loop]
      simp only [hf, r1, he, r2, r3, hc, if_false, Bool.true_eq_false, Bool.false_eq_true]
    have hopen : r3.s = r2.s := event_signal_open hc
    have hstate3 : r3.s.state = r.s.state := by
      rw [hopen]
      exact (header_field_keeps _ _).1.trans hstate
    have hbody3 : r.s.has_body = false → r3.s.has_body = false := by
      intro hno
      obtain ⟨cl, ch, hfield⟩ := header_field_no_body (get_line r).2.s (cstr (get_line r).2.s.line)
        (hbody.trans hno)
      rw [hopen]
      simp only [r2, r1]
      rw [hfield]
      exact hbody.trans hno
    have hfirst : ∀ k, Sees r { r3 with s.line := [] } (k + 1) (k + 1)
        (r.buf.length - r3.buf.length) := by
      intro k
      have hsees := @get_line_sees k r { r3 with s.line := [] } rfl (by simp [hf])
      simpa [hf, show ¬ (get_line r).2.s.line = [] from he] using hsees
    have hsuffix : (parse_headers_loop h { r3 with s.line := [] }).2.buf <:+ r3.buf :=
      (parse_headers_loop_suffix h _).trans (get_line_suffix _)
    have hlen : r.buf.length - (parse_headers_loop h { r3 with s.line := [] }).2.buf.length =
        r.buf.length - r3.buf.length +
          (r3.buf.length - (parse_headers_loop h { r3 with s.line := [] }).2.buf.length) := by
      have h1 : r3.buf.length ≤ r.buf.length := (get_line_suffix r).length_le
      have h2 := hsuffix.length_le
      omega
    rw [heq]
    dsimp only at ih ⊢
    rw [hlen]
    refine ih.imp id (Or.imp ?_ ?_)
    · rintro ⟨h1, h2, h3⟩
      exact ⟨h1.trans hstate3, fun hno => h2 (hbody3 hno), fun k =>
        (hfirst k).trans (h3 k) (get_line_suffix r) hsuffix⟩
    · rintro ⟨⟨s, h1, h2, h3⟩, h4⟩
      exact ⟨⟨s, h1, h2.trans hstate3, fun hno => h3 (hbody3 hno)⟩, fun k =>
        (hfirst k).trans (h4 k) (get_line_suffix r) hsuffix⟩

/-- The states behind the header. -/
def ConnState.behind (state : ConnState) : Prop :=
  state = .S_REPLY_DATA ∨ state = .S_REPLY_CHUNKED ∨ state = .S_REPLY_FOOTER ∨ state = .S_REPLY_DONE

/-- So many empty lines are still to come. -/
def Stands (k : Nat) (s : Conn) : Prop :=
  (k = 0 ∧ s.state.behind) ∨ (k = 1 ∧ s.state = .S_REPLY_HEADER) ∨
    (k = 2 ∧ s.state = .S_REPLY_CONTINUE ∧ s.has_body = false)

theorem headers_end_stands {k : Nat} {s : Conn} (h : Stands (k + 1) s) :
    Stands k (headers_end s) := by
  rcases h with ⟨hno, -⟩ | ⟨hk, hstate⟩ | ⟨hk, hstate, hbody⟩
  · omega
  · obtain rfl : k = 0 := by omega
    unfold headers_end
    simp only [hstate, reduceCtorEq, if_false]
    split_ifs <;> simp [Stands, ConnState.behind]
  · obtain rfl : k = 1 := by omega
    unfold headers_end
    rw [hbody, hstate]
    simp [Stands]

/-- `parse_headers` counts what it takes. -/
theorem parse_headers_sees (h : Handlers) {r : Rx} {k : Nat} (hstands : Stands (k + 1) r.s) :
    let r' := parse_headers h r
    r'.s.state.closing = true ∨ ∃ k' m, Stands k' r'.s ∧ Sees r r' (k + 1) k' m ∧
      r'.c.reply.header_bytes = r.c.reply.header_bytes + UInt64.ofNat m := by
  have hloop := parse_headers_loop_sees h r
  obtain ⟨hc, -, hend⟩ := parse_headers_loop_spec h r
  unfold parse_headers
  rcases hp : parse_headers_loop h r with ⟨ended, r'⟩
  rw [hp] at hc hend hloop
  cases ended with
  | false => exact .inl (hend.resolve_right (by simp)).2
  | true =>
    dsimp only at hc hloop ⊢
    rw [hc]
    rcases hloop with hclosing | ⟨hstate, hbody, hsees⟩ | ⟨⟨s, hs, hstate, hbody⟩, hsees⟩
    · exact .inl hclosing
    · refine .inr ⟨k + 1, _, ?_, hsees k, rfl⟩
      rcases hstands with ⟨hno, -⟩ | ⟨hk, hst⟩ | ⟨hk, hst, hb⟩
      · omega
      · exact .inr (.inl ⟨hk, hstate.trans hst⟩)
      · exact .inr (.inr ⟨hk, hstate.trans hst, hbody hb⟩)
    · refine .inr ⟨k, _, ?_, hsees k, rfl⟩
      rw [hs]
      apply headers_end_stands
      rcases hstands with ⟨hno, -⟩ | ⟨hk, hst⟩ | ⟨hk, hst, hb⟩
      · omega
      · exact .inr (.inl ⟨hk, hstate.trans hst⟩)
      · exact .inr (.inr ⟨hk, hstate.trans hst, hbody hb⟩)

/-- Behind the header its count stands. -/
theorem http_switch_behind (h : Handlers) {b : Basis} {k : Nat} {r r' : Rx} (hr : Past b k r.s r.c)
    (hbehind : r.s.state.behind) (hs : http_switch h r = .ok (some r')) :
    r'.c.reply.header_bytes = r.c.reply.header_bytes ∧
      (r'.s.state.closing = true ∨ r'.s.state.behind) := by
  have hcounts := hr.counts
  unfold Counts at hcounts
  unfold http_switch at hs
  rcases hbehind with hst | hst | hst | hst <;>
    simp only [hst, Except.ok.injEq, Option.some.injEq, reduceCtorEq] at hs hcounts
  · -- the body
    obtain ⟨x, -, -, hc, hstate⟩ := parse_data_spec h r
    have hc' : r'.c = (parse_data h r).2.c := by
      rw [← hs]
      split <;> rfl
    refine ⟨by rw [hc', hc], ?_⟩
    rw [← hs]
    split_ifs
    · exact .inr (by simp [ConnState.behind])
    · rcases hstate with hclosing | hsame
      · exact .inl hclosing
      · exact .inr (by simp [hsame, hst, ConnState.behind])
  · -- chunks
    have hchunk := xfer_chunked_spec h (.inr ⟨hst, hcounts⟩)
    rw [hs] at hchunk
    refine ⟨hchunk.header, ?_⟩
    rcases hchunk.state with (hclosing | ⟨hstate, -⟩) | ⟨hstate, -⟩
    · exact .inl hclosing
    · exact .inr (by simp [hstate, ConnState.behind])
    · exact .inr (by simp [hstate, ConnState.behind])
  · -- the trailer
    obtain ⟨hc, -, -, hend⟩ := parse_footers_loop_spec h r
    unfold parse_footers at hs
    rcases hp : parse_footers_loop h r with ⟨ended, r1⟩
    rw [hp] at hs hc hend
    dsimp only at hc hend
    have hstate : r1.s.state.closing = true ∨ r1.s.state.behind := by
      rcases hend with hclosing | hsame | ⟨hdone, -⟩
      · exact .inl hclosing
      · exact .inr (by simp [hsame, hst, ConnState.behind])
      · exact .inr (by simp [hdone, ConnState.behind])
    cases ended with
    | false =>
      obtain rfl := hs
      exact ⟨by rw [hc], hstate⟩
    | true =>
      obtain rfl := hs
      refine ⟨?_, hstate⟩
      dsimp only
      rw [hc]

theorem http_switch_sees (h : Handlers) {b : Basis} {n k : Nat} {r r' : Rx} (hr : Past b n r.s r.c)
    (hs : http_switch h r = .ok (some r')) (hstands : Stands k r.s) :
    r'.s.state.closing = true ∨ ∃ k' m, Stands k' r'.s ∧ Sees r r' k k' m ∧
      r'.c.reply.header_bytes = r.c.reply.header_bytes + UInt64.ofNat m := by
  cases k with
  | zero =>
    have hbehind : r.s.state.behind := by
      rcases hstands with ⟨-, hbehind⟩ | ⟨hk, -⟩ | ⟨hk, -⟩
      · exact hbehind
      · omega
      · omega
    obtain ⟨hsame, hstate⟩ := http_switch_behind h hr hbehind hs
    refine hstate.imp id fun hbehind' => ⟨0, 0, .inl ⟨rfl, hbehind'⟩, sees_zero r r', ?_⟩
    rw [hsame]
    simp
  | succ k =>
    have heq : r' = parse_headers h r := by
      unfold http_switch at hs
      rcases hstands with ⟨hno, -⟩ | ⟨-, hstate⟩ | ⟨-, hstate, -⟩
      · omega
      · rw [hstate] at hs
        exact (Option.some.inj (Except.ok.inj hs)).symm
      · rw [hstate] at hs
        exact (Option.some.inj (Except.ok.inj hs)).symm
    rw [heq]
    exact parse_headers_sees h hstands

theorem http_process_loop_sees (h : Handlers) {b : Basis} {r r' : Rx}
    (hs : http_process_loop h r = .ok r') :
    ∀ n k, Past b n r.s r.c → Stands k r.s →
      r'.s.state.closing = true ∨ ∃ k' m, Stands k' r'.s ∧ Sees r r' k k' m ∧
        r'.c.reply.header_bytes = r.c.reply.header_bytes + UInt64.ofNat m := by
  induction r using http_process_loop.induct h with
  | case1 r e he =>
    rw [http_process_loop_error he] at hs
    cases hs
  | case2 r he =>
    rw [http_process_loop_none he] at hs
    obtain rfl := Except.ok.inj hs
    intro n k _ hstands
    refine .inr ⟨k, 0, hstands, fun y z rest later hy _ => ?_, by simp⟩
    have hnil : y = [] := by
      have := congrArg List.length hy
      rw [List.length_append] at this
      exact List.length_eq_zero_iff.mp (by omega)
    rw [hnil]
    simp
  | case3 r r1 he hc ih =>
    rw [http_process_loop_some he, if_pos hc] at hs
    intro n k hr hstands
    obtain ⟨y, hy, -, hpast⟩ := http_switch_past h hr he
    have hpast' := hpast.resolve_left hc.2
    obtain ⟨z, hz, -⟩ := http_process_loop_past h hpast' hs
    obtain ⟨k1, m1, hstands1, hsees1, hcount1⟩ :=
      (http_switch_sees h hr he hstands).resolve_left hc.2
    refine (ih hs _ k1 hpast' hstands1).imp id ?_
    rintro ⟨k2, m2, hstands2, hsees2, hcount2⟩
    refine ⟨k2, m1 + m2, hstands2, hsees1.trans hsees2 ⟨y, hy.symm⟩ ⟨z, hz.symm⟩, ?_⟩
    rw [hcount2, hcount1, UInt64.ofNat_add, UInt64.add_assoc]
  | case4 r r1 he hc =>
    rw [http_process_loop_some he, if_neg hc] at hs
    obtain rfl := Except.ok.inj hs
    intro n k hr hstands
    exact http_switch_sees h hr he hstands

/-! ## The status line -/

/-- The empty lines that the reply to this call has, by the number of its status line. -/
def sections (number : Nat) (c : Call) : Nat := if number = 100 ∧ c.isHead = false then 2 else 1

/-- What follows the status line. -/
theorem status_line_read_state (h : Handlers) (start : Nat) (r : Rx) :
    let r' := status_line_read h start r
    r'.s.state.closing = true ∨
      (r'.s.line = [] ∧
        (((status_values h r).2 = 100 ∧ r.c.isHead = false ∧ r'.s.state = .S_REPLY_CONTINUE ∧
            r'.s.has_body = false) ∨
          (¬ ((status_values h r).2 = 100 ∧ r.c.isHead = false) ∧
            r'.s.state = .S_REPLY_HEADER))) := by
  unfold status_line_read status_done
  dsimp only
  split_ifs with hcontinue hclosing
  · simp only [Bool.and_eq_true, Bool.not_eq_true', decide_eq_true_eq] at hcontinue
    refine .inr ⟨rfl, .inl ⟨hcontinue.2, hcontinue.1, rfl, ?_⟩⟩
    rw [hcontinue.1, hcontinue.2]
    unfold event_signal Conn.close
    dsimp only
    split_ifs <;> rfl
  · exact .inl hclosing
  · simp only [Bool.and_eq_true, Bool.not_eq_true', decide_eq_true_eq, not_and] at hcontinue
    exact .inr ⟨rfl, .inr ⟨fun hboth => hcontinue hboth.2 hboth.1, rfl⟩⟩

/-- What the read brings of the status line is counted. -/
theorem parse_status_line_sees (h : Handlers) {r : Rx} {line : List Byte}
    (hwhole : statusLine r = some line) :
    let r' := parse_status_line h r
    r'.s.state.closing = true ∨
      (Stands (sections (statusNumber h r) r.c) r'.s ∧ r'.s.line = [] ∧
        (∀ y z rest, r.buf = y ++ r'.buf → r'.buf = z ++ rest → eol (y ++ z) = y.length) ∧
        r'.c.reply.header_bytes =
          r.c.reply.header_bytes + UInt64.ofNat (r.buf.length - r'.buf.length)) := by
  have hf : (get_line { r with s.is_chunked := false, s.content_length := SIZE_MAX }).1 = true := by
    unfold statusLine at hwhole
    by_contra hne
    simp [hne] at hwhole
  have hparse : parse_status_line h r = status_line_read h r.buf.length
      (get_line { r with s.is_chunked := false, s.content_length := SIZE_MAX }).2 := by
    unfold parse_status_line
    dsimp only
    rw [if_neg (by rw [hf]; decide)]
  have hb : r.buf ≠ [] := by
    intro hnil
    unfold get_line at hf
    simp [hnil] at hf
  have hbuf : (get_line { r with s.is_chunked := false, s.content_length := SIZE_MAX }).2.buf =
      r.buf.drop (eol r.buf) := by rw [get_line_eq (by exact hb)]
  obtain ⟨-, -, hc, -⟩ := get_line_s { r with s.is_chunked := false, s.content_length := SIZE_MAX }
  have hnumber : statusNumber h r = (status_values h
      (get_line { r with s.is_chunked := false, s.content_length := SIZE_MAX }).2).2 := rfl
  dsimp only at hc
  rw [hparse, hnumber]
  generalize (get_line { r with s.is_chunked := false, s.content_length := SIZE_MAX }).2 = r1 at *
  have hcall := status_line_read_call h r.buf.length r1
  have hstate := status_line_read_state h r.buf.length r1
  dsimp only at hcall hstate ⊢
  rw [hc] at hcall hstate
  rw [status_line_read_buf]
  rcases hcall with hclosing | ⟨-, hcall⟩
  · exact .inl hclosing
  rcases hstate with hclosing | ⟨hnil, hstate⟩
  · exact .inl hclosing
  refine .inr ⟨?_, hnil, fun y z rest hy hz => ?_, by rw [hcall]⟩
  · unfold sections
    rcases hstate with ⟨h100, hhead, hcont, hbody⟩ | ⟨hno, hheader⟩
    · rw [if_pos ⟨h100, hhead⟩]
      exact .inr (.inr ⟨rfl, hcont, hbody⟩)
    · rw [if_neg hno]
      exact .inr (.inl ⟨rfl, hheader⟩)
  · apply @eol_append _ _ rest
    have hlen := congrArg List.length hy
    have hle := eol_le r.buf
    rw [hbuf, List.length_append, List.length_drop] at hlen
    rw [← hz, ← hy]
    omega

theorem http_process_status_sees (h : Handlers) {r r' : Rx} {line x : List Byte}
    (hstate : r.s.state = .S_REPLY_STATUS) (hwhole : statusLine r = some line)
    (hs : http_process_loop h r = .ok r') (hx : r.buf = x ++ r'.buf) :
    r'.s.state.closing = true ∨ ∃ k m, Stands k r'.s ∧
      (∀ later, headEnd (sections (statusNumber h r) r.c) (x :: later) =
        (seenEnd k r'.s.line later).map (m + ·)) ∧
      r'.c.reply.header_bytes = r.c.reply.header_bytes + UInt64.ofNat m := by
  obtain ⟨y, hy, ⟨-, hpast⟩, -⟩ := parse_status_line_whole h hwhole
  have hswitch : http_switch h r = .ok (some (parse_status_line h r)) := by
    unfold http_switch
    rw [hstate]
  have hstatus := parse_status_line_sees h hwhole
  dsimp only at hstatus
  rw [http_process_loop_some hswitch] at hs
  split_ifs at hs with hc
  · have hpast' := hpast.resolve_left hc.2
    obtain ⟨hstands, hnil, heol, hcount⟩ := hstatus.resolve_left hc.2
    obtain ⟨z, hz, -⟩ := http_process_loop_past h hpast' hs
    have hxy : x = y ++ z := by
      rw [hy, hz, ← List.append_assoc] at hx
      exact (List.append_cancel_right hx).symm
    have hlen : r.buf.length - (parse_status_line h r).buf.length = y.length := by
      rw [congrArg List.length hy, List.length_append, Nat.add_sub_cancel]
    refine (http_process_loop_sees h hs _ _ hpast' hstands).imp id ?_
    rintro ⟨k, m, hstands', hsees, hcount'⟩
    refine ⟨k, y.length + m, hstands', fun later => ?_, ?_⟩
    · have hrest := hsees z [] r'.buf later hz rfl
      rw [List.append_nil, hnil, seenEnd_used] at hrest
      rw [headEnd, hxy, heol y z r'.buf hy hz, List.drop_left, hrest, Option.map_map]
      congr 1
      funext i
      exact (Nat.add_assoc ..).symm
    · rw [hcount', hcount, hlen, UInt64.ofNat_add, UInt64.add_assoc]
  · obtain rfl := Except.ok.inj hs
    refine hstatus.imp id ?_
    rintro ⟨hstands, hnil, heol, hcount⟩
    have hlen : r.buf.length - (parse_status_line h r).buf.length = x.length := by
      rw [congrArg List.length hx, List.length_append, Nat.add_sub_cancel]
    refine ⟨_, x.length, hstands, fun later => ?_, by rw [hcount, hlen]⟩
    have heol' := heol x [] _ hx rfl
    rw [List.append_nil] at heol'
    rw [headEnd, heol', List.drop_length, seenEnd_used, hnil]

namespace Traffic

/-! ## Runs -/

/-- The header is counted from the read on that ends the status line, through its last empty line
that is seen. -/
def Law.seen : Law where
  queued _ := True
  waiting _ := True
  reading p s c := ∃ k m, Stands k s ∧
    (∀ later, headEnd (sections p.number c) (p.pieces ++ later) =
      (seenEnd k s.line later).map (m + ·)) ∧
    c.reply.header_bytes = p.base.header_bytes + UInt64.ofNat m

theorem Law.seen_kept : Law.seen.Kept where
  writes := fun _ _ => trivial
  waits := fun _ => trivial
  starts := by
    intro h r r' p line _ hw _ hline hs hopen
    obtain ⟨x, hx, ⟨-, hpast⟩, -⟩ := http_process_status_whole h hw.state hline hs
    have hhead : r'.c.isHead = r.c.isHead := (hpast.resolve_left (by simp [hopen])).head
    have hconsumed : consumed { r with log := r.log ++ [.EV_CALL_RECV_RAW_DATA r.c.id r.buf] } r' =
        x :=
      consumed_eq hx
    obtain ⟨k, m, hstands, hsees, hcount⟩ := (http_process_status_sees h
      (r := { r with log := r.log ++ [.EV_CALL_RECV_RAW_DATA r.c.id r.buf] }) hw.state
      ((statusLine_log r _).trans hline) (http_process_raw hs) hx).resolve_left (by simp [hopen])
    refine ⟨k, m, hstands, fun later => ?_, hcount⟩
    rw [← hsees later]
    unfold InProgress.start sections
    dsimp only
    rw [hconsumed, hhead]
    rfl
  goes := by
    rintro h r r' p ⟨hpast, k, m, hstands, hsees, hcount⟩ hs hopen
    obtain ⟨x, hx, -, hpast'⟩ := http_process_past h hpast hs
    have hhead : r'.c.isHead = r.c.isHead :=
      (hpast'.resolve_left (by simp [hopen])).head.trans hpast.head.symm
    obtain ⟨k', m', hstands', hsees', hcount'⟩ :=
      (http_process_loop_sees h (http_process_raw hs) _ k hpast hstands).resolve_left
        (by simp [hopen])
    refine ⟨k', m + m', hstands', fun later => ?_, ?_⟩
    · have hrest := hsees' x [] r'.buf later hx rfl
      rw [List.append_nil, seenEnd_used] at hrest
      have hall := hsees (x :: later)
      rw [hrest, Option.map_map] at hall
      unfold InProgress.go
      dsimp only
      rw [consumed_eq hx, List.append_assoc, List.singleton_append,
        show sections p.number r'.c = sections p.number r.c by unfold sections; rw [hhead], hall]
      congr 1
      funext i
      exact (Nat.add_assoc m m' i).symm
    · rw [hcount', hcount, UInt64.ofNat_add, UInt64.add_assoc]
      rfl
  done := by
    rintro p s c ⟨k, m, hstands, hsees, hcount⟩ hdata
    refine ⟨k, m, ?_, hsees, hcount⟩
    rcases hstands with ⟨hk, -⟩ | ⟨-, hstate⟩ | ⟨-, hstate, -⟩
    · exact .inl ⟨hk, .inr (.inr (.inr rfl))⟩
    · simp [hdata] at hstate
    · simp [hdata] at hstate
  queue := fun _ h => h

theorem run_seen (steps : List Step) : Inv .seen (Runs.run step init steps) := by
  have hallowed : ∀ a : Step, a.Allowed .seen := by
    intro a
    cases a <;> simp [Step.Allowed, Law.seen]
  exact run_inv Law.seen_kept fun a _ => hallowed a

/-- The header of a reply that is complete is counted through the empty line that is seen as its
end. -/
theorem Completed.Sound.header_bytes {d : Completed} (hd : d.Sound .seen) :
    ∃ m, headEnd (sections d.reply.number d.c) d.reply.pieces = some m ∧
      d.c.reply.header_bytes = d.reply.base.header_bytes + UInt64.ofNat m := by
  obtain ⟨k, m, hstands, hsees, hcount⟩ := hd.reading.law
  have hzero : k = 0 := by
    rcases hstands with ⟨hk, -⟩ | ⟨-, hstate⟩ | ⟨-, hstate, -⟩
    · exact hk
    · simp [hd.done] at hstate
    · simp [hd.done] at hstate
  have hend := hsees []
  rw [List.append_nil, hzero, seenEnd_zero] at hend
  exact ⟨m, hend, hcount⟩

/-- `head` is what stands in front of the reply. -/
structure Completed.Headed (d : Completed) (head : Head) : Prop where
  wire : head.wire <+: d.reply.taken
  final : head.final.isSome = true ↔ d.reply.number = 100 ∧ d.c.isHead = false

/-- The counts of the reply come to its bytes. -/
structure Completed.Accounted (d : Completed) (head : Head) : Prop where
  header : d.c.reply.header_bytes = UInt64.ofNat head.wire.length
  whole : d.c.reply.header_bytes + d.c.reply.content_bytes = UInt64.ofNat d.reply.taken.length

instance (d : Completed) (head : Head) : Decidable (d.Headed head) :=
  decidable_of_iff (_ ∧ _) ⟨fun h => ⟨h.1, h.2⟩, fun h => ⟨h.wire, h.final⟩⟩

instance (d : Completed) (head : Head) : Decidable (d.Accounted head) :=
  decidable_of_iff (_ ∧ _) ⟨fun h => ⟨h.1, h.2⟩, fun h => ⟨h.header, h.whole⟩⟩

/-- The bytes of the status line that came with earlier reads are counted only if there are none. -/
theorem Completed.Sound.cut_nil {L : Law} {d : Completed} (hd : d.Sound L)
    (hfresh : Reply.Uncounted d.reply.base) (hplain : ¬ d.s.ChunkedBody) {head : Head}
    (hacc : d.Accounted head) : d.reply.cut = [] := by
  have hcounts := hd.counts hfresh hplain
  rw [hacc.whole] at hcounts
  have hzero : UInt64.ofNat d.reply.cut.flatten.length = 0 := by
    simpa using hcounts
  have hshort := hd.cut.short
  unfold MAX_HDR_LINE_LEN at hshort
  have hlen : d.reply.cut.flatten.length = 0 := by
    have := congrArg UInt64.toNat hzero
    rw [UInt64.toNat_ofNat_of_lt' (by unfold UInt64.size; omega)] at this
    exact this
  have hflat : d.reply.cut.flatten = [] := List.length_eq_zero_iff.mp hlen
  rw [List.eq_nil_iff_forall_not_mem]
  intro q hq
  exact hd.cut.ne q hq (List.flatten_eq_nil_iff.mp hflat q hq)

/-- The empty line that is seen as the end of the header is the one that ends it. A `size_t` counts
modulo 2^64. -/
def Completed.EndSeen (d : Completed) (head : Head) : Prop :=
  ∃ m, headEnd head.sections d.reply.pieces = some m ∧
    UInt64.ofNat m = UInt64.ofNat head.wire.length

theorem Completed.Headed.sections {d : Completed} {head : Head} (h : d.Headed head) :
    sections d.reply.number d.c = head.sections := by
  unfold Httperf.sections Head.sections
  rw [if_congr h.final.symm rfl rfl]

/-- The empty line that ends the header is seen as its end if no LF of the header stands behind a
NUL of its read. -/
theorem Completed.Headed.endSeen {d : Completed} {head : Head} (h : d.Headed head)
    (hcut : d.reply.cut = []) {first : List Byte} {bufs : List (List Byte)}
    (hpieces : d.reply.pieces = (crlf head.line ++ first) :: bufs)
    (hsight : InSight head.wire.length d.reply.pieces) : d.EndSeen head := by
  obtain ⟨rest, hrest⟩ := h.wire
  refine ⟨head.wire.length, ?_, rfl⟩
  rw [hpieces] at hsight ⊢
  refine @Head.seen head first rest bufs ?_ hsight
  rw [hrest, InProgress.taken, hcut, hpieces]
  rfl

def okHead : Head where
  line := bytes "HTTP/1.1 200 OK"
  fields := [bytes "Content-Length: 2"]
  final := none
  line_ok := ⟨by decide, by decide⟩
  fields_ok := by simpa using ⟨⟨by decide, by decide⟩, by decide⟩
  final_ok := by simp

/-- A header with a NUL whose LF comes in the next read. -/
def nulHead : Head where
  line := bytes "HTTP/1.1 200 OK"
  fields := [bytes "A: " ++ [0], bytes "Content-Length: 2"]
  final := none
  line_ok := ⟨by decide, by decide⟩
  fields_ok := by
    simp only [List.mem_cons, List.not_mem_nil, or_false, forall_eq_or_imp, forall_eq]
    exact ⟨⟨⟨by decide, by decide⟩, by decide⟩, ⟨by decide, by decide⟩, by decide⟩
  final_ok := by simp

end Traffic

end Httperf
