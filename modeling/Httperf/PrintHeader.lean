-- The header of a reply that the printer shows (`recv_raw_data`), against the one that the server
-- sent.
import Httperf.PrintReply
import Httperf.Segmentation

namespace Httperf.PrintReply

open Lib

/-! ## A reply in a stream -/

/-- The status line, the header lines and the empty line, each up to its LF. A line ends with CRLF
or with LF alone. -/
structure Header where
  lines : List (List Byte)
  last : List Byte
  lines_ne : lines ≠ []
  line_ok : ∀ l ∈ lines, LF ∉ l ∧ 0 ∉ l ∧ l ≠ [] ∧ l ≠ [CR]
  last_empty : last = [] ∨ last = [CR]

def Header.bytes (h : Header) : List Byte := unlines LF [] (h.lines ++ [h.last])

/-- A reply, with what is on the connection before and behind it, and the reads. -/
structure Stream where
  before : List Byte
  header : Header
  body : List Byte
  behind : List Byte
  reads : List (List Byte)
  no_nul : 0 ∉ body
  reads_ok : Reads reads
  flat : reads.flatten = before ++ header.bytes ++ body ++ behind

/-- What the reads have from the byte `n` of the stream on. -/
def from_byte : Nat → List (List Byte) → List (List Byte)
  | _, [] => []
  | n, b :: bs => if b.length ≤ n then from_byte (n - b.length) bs else b.drop n :: bs

/-- The reads up to the one with the byte in front of `n`. -/
def up_to : Nat → List (List Byte) → List (List Byte)
  | 0, _ => []
  | _, [] => []
  | n + 1, b :: bs => b :: up_to (n + 1 - b.length) bs

/-- The raw data of the call: from the first byte of its reply on, all reads in which the reply has
a byte. -/
def Stream.raw (s : Stream) : List (List Byte) :=
  up_to (s.header.bytes.length + s.body.length) (from_byte s.before.length s.reads)

/-- All that `print_reply_hdr` passes to `print_buf` for the raw data of a call. -/
def passed : Bool → List (List Byte) → List Byte
  | _, [] => []
  | done, b :: bs =>
    (reply_hdr b (int_of b.length) done).1 ++ passed (reply_hdr b (int_of b.length) done).2 bs

/-! ## The condition -/

/-- The read in which the header ends, `n` bytes of it being left: the header ends there with a
whole CRLFCRLF; or with a whole LFLF, and no CRLFCRLF is in the read; or the reply ends there too,
and so does the read. -/
def EndsRight : Nat → List (List Byte) → Prop
  | _, [] => False
  | n, b :: bs =>
    if b.length < n then EndsRight (n - b.length) bs
    else CRLFCRLF <:+ b.take n ∨ (LFLF <:+ b.take n ∧ ¬ CRLFCRLF <:+: cstr b) ∨
      (b.drop n = [] ∧ bs = [])

/-! ## The end of the header -/

theorem unlines_first (l : List Byte) (ls : List (List Byte)) :
    unlines LF [] (l :: ls) = l ++ LF :: unlines LF [] ls := unlines_cons l ls

/-- An empty line stands only at the end of the header. -/
theorem empty_line_ends {ls : List (List Byte)} {last p u q : List Byte}
    (hok : ∀ l ∈ ls, LF ∉ l ∧ l ≠ [] ∧ l ≠ [CR]) (hlast : LF ∉ last) (hu : u = [] ∨ u = [CR])
    (heq : unlines LF [] (ls ++ [last]) = p ++ LF :: (u ++ LF :: q)) :
    q = [] := by
  have hulf : LF ∉ u := by
    rcases hu with rfl | rfl
    · exact List.not_mem_nil
    · decide
  induction ls generalizing p with
  | nil =>
    rw [List.nil_append, unlines_first, unlines_nil] at heq
    by_cases hp : LF ∈ p
    · obtain ⟨p1, p2, rfl, hp1⟩ := List.eq_append_cons_of_mem hp
      rw [List.append_assoc, List.cons_append] at heq
      exact absurd (append_sep_inj hlast hp1 heq).2.symm
        (List.append_ne_nil_of_right_ne_nil _ (List.cons_ne_nil _ _))
    · exact absurd (append_sep_inj hlast hp heq).2.symm
        (List.append_ne_nil_of_right_ne_nil _ (List.cons_ne_nil _ _))
  | cons l ls ih =>
    obtain ⟨hl, _, _⟩ := hok l List.mem_cons_self
    rw [List.cons_append, unlines_first] at heq
    by_cases hp : LF ∈ p
    · obtain ⟨p1, p2, rfl, hp1⟩ := List.eq_append_cons_of_mem hp
      rw [List.append_assoc, List.cons_append] at heq
      exact ih (fun m hm => hok m (List.mem_cons_of_mem _ hm)) (append_sep_inj hl hp1 heq).2
    · -- the line behind `l` is the empty one
      have hrest := (append_sep_inj hl hp heq).2
      cases ls with
      | nil =>
        rw [List.nil_append, unlines_first, unlines_nil] at hrest
        exact (append_sep_inj hlast hulf hrest).2.symm
      | cons l' ls =>
        obtain ⟨hl', hne, hcr⟩ := hok l' (List.mem_cons_of_mem _ List.mem_cons_self)
        rw [List.cons_append, unlines_first] at hrest
        obtain rfl := (append_sep_inj hl' hulf hrest).1
        exact absurd hu (not_or.mpr ⟨hne, hcr⟩)

section
variable (h : Header)

theorem Header.last_no_lf : LF ∉ h.last := by
  rcases h.last_empty with hlast | hlast
  · rw [hlast]
    exact List.not_mem_nil
  · rw [hlast]
    decide

theorem Header.no_nul : 0 ∉ h.bytes := by
  intro hmem
  rcases mem_unlines hmem with hlf | ⟨l, hl, hnul⟩
  · exact absurd hlf (by decide)
  · rcases List.mem_append.mp hl with hl | hl
    · exact (h.line_ok l hl).2.1 hnul
    · obtain rfl := List.mem_singleton.mp hl
      rcases h.last_empty with hlast | hlast
      · rw [hlast] at hnul
        exact List.not_mem_nil hnul
      · rw [hlast] at hnul
        exact absurd hnul (by decide)

theorem Header.crlfcrlf_ends {p q : List Byte} (heq : h.bytes = p ++ CRLFCRLF ++ q) : q = [] := by
  have hsplit : unlines LF [] (h.lines ++ [h.last]) = p ++ [CR] ++ LF :: ([CR] ++ LF :: q) := by
    rw [List.append_assoc]
    exact heq.trans (List.append_assoc ..)
  exact empty_line_ends (fun l hl => ⟨(h.line_ok l hl).1, (h.line_ok l hl).2.2⟩) h.last_no_lf
    (.inr rfl) hsplit

theorem Header.lflf_ends {p q : List Byte} (heq : h.bytes = p ++ LFLF ++ q) : q = [] := by
  have hsplit : unlines LF [] (h.lines ++ [h.last]) = p ++ LF :: ([] ++ LF :: q) :=
    heq.trans (List.append_assoc ..)
  exact empty_line_ends (fun l hl => ⟨(h.line_ok l hl).1, (h.line_ok l hl).2.2⟩) h.last_no_lf
    (.inl rfl) hsplit

/-- The rest of a header: neither of the two words stands in it before its end. -/
structure Rest (r : List Byte) : Prop where
  ne : r ≠ []
  no_nul : 0 ∉ r
  crlfcrlf : ∀ p q, r = p ++ CRLFCRLF ++ q → q = []
  lflf : ∀ p q, r = p ++ LFLF ++ q → q = []

theorem Header.rest : Rest h.bytes := by
  refine ⟨?_, h.no_nul, fun p q heq => h.crlfcrlf_ends heq, fun p q heq => h.lflf_ends heq⟩
  unfold Header.bytes
  rw [unlines_append, unlines_first]
  exact List.append_ne_nil_of_right_ne_nil _
    (List.append_ne_nil_of_right_ne_nil _ (List.cons_ne_nil _ _))

end

theorem Rest.drop {a r : List Byte} (h : Rest (a ++ r)) (hne : r ≠ []) : Rest r := by
  refine ⟨hne, fun hmem => h.no_nul (List.mem_append_right _ hmem), ?_, ?_⟩
  · rintro p q rfl
    exact h.crlfcrlf (a ++ p) q (by rw [List.append_assoc, List.append_assoc, List.append_assoc])
  · rintro p q rfl
    exact h.lflf (a ++ p) q (by rw [List.append_assoc, List.append_assoc, List.append_assoc])

/-! ## One read -/

theorem reply_hdr_done (buf : List Byte) (len : Int) : reply_hdr buf len true = ([], true) :=
  if_pos (.inr rfl)

theorem passed_done (bs : List (List Byte)) : passed true bs = [] := by
  induction bs with
  | nil => rfl
  | cons b bs ih =>
    rw [passed, reply_hdr_done]
    exact ih

theorem reply_hdr_eq {b : List Byte} (hpos : 1 ≤ b.length) (hlen : b.length ≤ 8192) :
    reply_hdr b (int_of b.length) false =
      (b.take (end_of_header b b.length).1, (end_of_header b b.length).2) := by
  have hint : int_of b.length = b.length := int_of_eq (by omega)
  have hnot : ¬ ((b.length : Int) ≤ 0 ∨ false = true) := by
    rintro (hno | hno)
    · omega
    · nomatch hno
  unfold reply_hdr
  rw [hint, if_neg hnot]
  rfl

theorem cstr_append_left {s : List Byte} (hnul : 0 ∉ s) (t : List Byte) :
    cstr (s ++ t) = s ++ cstr t := by
  unfold cstr
  apply List.takeWhile_append_of_pos
  intro c hc
  have hne : c ≠ 0 := fun he => hnul (he ▸ hc)
  simp [hne]

/-- A read within the header is passed as a whole. -/
theorem end_of_header_within {b r : List Byte} (h : Rest (b ++ r)) (hne : r ≠ []) :
    end_of_header b b.length = (b.length, false) := by
  have hcstr : cstr b = b := cstr_eq fun hmem => h.no_nul (List.mem_append_left _ hmem)
  have hnone {word : List Byte} (hend : ∀ p q, b ++ r = p ++ word ++ q → q = []) :
      strstr b word = none := by
    unfold strstr
    rw [hcstr, find_eq_none_iff]
    rintro ⟨p, q, rfl⟩
    have hq := hend p (q ++ r) (by rw [← List.append_assoc])
    exact hne (List.append_eq_nil_iff.mp hq).2
  unfold end_of_header
  rw [hnone h.crlfcrlf, hnone h.lflf]

/-- In the read in which the header ends: a word that is found ends with the header, or what is
passed is longer. -/
theorem strstr_last {r t word : List Byte} (hnul : 0 ∉ r)
    (hend : ∀ p q, r = p ++ word ++ q → q = []) {i : Nat} (hfind : strstr (r ++ t) word = some i) :
    word <:+: cstr (r ++ t) ∧
      ((word <:+ r ∧ (r ++ t).take (i + word.length) = r) ∨
        (¬ word <:+ r ∧ (r ++ t).take (i + word.length) ≠ r ∧ t ≠ [])) := by
  unfold strstr at hfind
  have hcstr := cstr_append_left hnul t
  obtain ⟨p, q, hplace, hp⟩ := find_eq_some hfind
  refine ⟨⟨p, q, hplace.symm⟩, ?_⟩
  have hinside : i + word.length ≤ r.length + t.length := by
    have hle := (List.takeWhile_prefix (p := (· ≠ (0 : Byte))) (l := r ++ t)).length_le
    have hlength := congrArg List.length hplace
    unfold cstr at hlength
    rw [List.length_append, List.length_append] at hlength
    rw [List.length_append] at hle
    omega
  rw [hcstr] at hfind
  rcases find_append hend hfind with ⟨hsuffix, heq⟩ | ⟨hsuffix, hlt⟩
  · left
    rw [heq, List.take_left]
    exact ⟨hsuffix, rfl⟩
  · right
    refine ⟨hsuffix, ?_, ?_⟩
    · intro heq
      have hlength := congrArg List.length heq
      rw [List.length_take, List.length_append] at hlength
      omega
    · rintro rfl
      rw [List.length_nil] at hinside
      omega

theorem end_of_header_pos {b : List Byte} (hpos : 1 ≤ b.length) :
    1 ≤ (end_of_header b b.length).1 := by
  unfold end_of_header
  split
  · exact Nat.le_add_left 1 _
  · split
    · exact Nat.le_add_left 1 _
    · exact hpos

theorem passed_ne_nil {bs : List (List Byte)} (hreads : Reads bs) (hne : bs ≠ []) :
    passed false bs ≠ [] := by
  cases bs with
  | nil => exact absurd rfl hne
  | cons b bs =>
    obtain ⟨hpos, hlen⟩ := hreads b List.mem_cons_self
    have hfirst := end_of_header_pos hpos
    rw [passed, reply_hdr_eq hpos hlen]
    apply List.append_ne_nil_of_left_ne_nil
    intro hnil
    have hlength := congrArg List.length hnil
    rw [List.length_take, List.length_nil] at hlength
    omega

/-! ## All reads -/

theorem passed_last_iff {r t : List Byte} {bs : List (List Byte)} (h : Rest r)
    (hreads : Reads ((r ++ t) :: bs)) :
    passed false ((r ++ t) :: bs) = r ↔
      CRLFCRLF <:+ r ∨ (LFLF <:+ r ∧ ¬ CRLFCRLF <:+: cstr (r ++ t)) ∨ (t = [] ∧ bs = []) := by
  obtain ⟨hpos, hlen⟩ := hreads (r ++ t) List.mem_cons_self
  have hrest : Reads bs := fun b hb => hreads b (List.mem_cons_of_mem _ hb)
  have hcstr := cstr_append_left h.no_nul t
  have hword {word : List Byte} (hsuffix : word <:+ r) : word <:+: cstr (r ++ t) := by
    rw [hcstr]
    exact hsuffix.isInfix.trans (List.prefix_append _ _).isInfix
  rw [passed, reply_hdr_eq hpos hlen]
  dsimp only
  unfold end_of_header
  cases hcrlf : strstr (r ++ t) CRLFCRLF with
  | some i =>
    dsimp only
    rw [passed_done, List.append_nil]
    obtain ⟨hin, hcases⟩ := strstr_last h.no_nul h.crlfcrlf hcrlf
    rcases hcases with ⟨hsuffix, htake⟩ | ⟨hsuffix, htake, ht⟩
    · exact ⟨fun _ => .inl hsuffix, fun _ => htake⟩
    · constructor
      · intro hno
        exact absurd hno htake
      · rintro (hno | ⟨_, hno⟩ | ⟨hno, _⟩)
        · exact absurd hno hsuffix
        · exact absurd hin hno
        · exact absurd hno ht
  | none =>
    have hnone : ¬ CRLFCRLF <:+: cstr (r ++ t) := find_eq_none_iff.mp hcrlf
    dsimp only
    cases hlflf : strstr (r ++ t) LFLF with
    | some i =>
      dsimp only
      rw [passed_done, List.append_nil]
      obtain ⟨hin, hcases⟩ := strstr_last h.no_nul h.lflf hlflf
      rcases hcases with ⟨hsuffix, htake⟩ | ⟨hsuffix, htake, ht⟩
      · exact ⟨fun _ => .inr (.inl ⟨hsuffix, hnone⟩), fun _ => htake⟩
      · constructor
        · intro hno
          exact absurd hno htake
        · rintro (hno | ⟨hno, _⟩ | ⟨hno, _⟩)
          · exact absurd (hword hno) hnone
          · exact absurd hno hsuffix
          · exact absurd hno ht
    | none =>
      have hnolf : ¬ LFLF <:+: cstr (r ++ t) := find_eq_none_iff.mp hlflf
      dsimp only
      rw [List.take_length, List.append_assoc, List.append_right_eq_self, List.append_eq_nil_iff]
      constructor
      · rintro ⟨ht, hbs⟩
        refine .inr (.inr ⟨ht, ?_⟩)
        by_contra hne
        exact passed_ne_nil hrest hne hbs
      · rintro (hno | ⟨hno, _⟩ | ⟨ht, rfl⟩)
        · exact absurd (hword hno) hnone
        · exact absurd (hword hno) hnolf
        · exact ⟨ht, rfl⟩

/-- The header is passed exactly when the read in which it ends is a right one. -/
theorem passed_iff {r after : List Byte} {bs : List (List Byte)} (h : Rest r) (hreads : Reads bs)
    (hflat : bs.flatten = r ++ after) : passed false bs = r ↔ EndsRight r.length bs := by
  induction bs generalizing r with
  | nil => exact absurd (List.append_eq_nil_iff.mp hflat.symm).1 h.ne
  | cons b bs ih =>
    rw [List.flatten_cons] at hflat
    by_cases hlt : b.length < r.length
    · obtain ⟨r', rfl⟩ : b <+: r := by
        apply List.prefix_of_prefix_length_le (List.prefix_append b bs.flatten) _ (Nat.le_of_lt hlt)
        rw [hflat]
        exact List.prefix_append r after
      have hne : r' ≠ [] := by
        rintro rfl
        rw [List.append_nil] at hlt
        exact Nat.lt_irrefl _ hlt
      rw [List.append_assoc] at hflat
      obtain ⟨hpos, hlen⟩ := hreads b List.mem_cons_self
      have hrec :=
        ih (h.drop hne) (fun c hc => hreads c (List.mem_cons_of_mem _ hc))
          (List.append_cancel_left hflat)
      rw [passed, reply_hdr_eq hpos hlen, end_of_header_within h hne, EndsRight, if_pos hlt,
        List.length_append, Nat.add_sub_cancel_left, ← hrec]
      dsimp only
      rw [List.take_length, List.append_cancel_left_eq]
    · obtain ⟨t, rfl⟩ : r <+: b := by
        apply List.prefix_of_prefix_length_le (List.prefix_append r after) _ (Nat.le_of_not_lt hlt)
        rw [← hflat]
        exact List.prefix_append b bs.flatten
      rw [EndsRight, if_neg hlt, List.take_left, List.drop_left]
      exact passed_last_iff h hreads

/-! ## The raw data of the call -/

theorem flatten_from_byte (n : Nat) (bs : List (List Byte)) :
    (from_byte n bs).flatten = bs.flatten.drop n := by
  induction bs generalizing n with
  | nil => exact List.drop_nil.symm
  | cons b bs ih =>
    rw [from_byte, List.flatten_cons, List.drop_append]
    split
    · rename_i hle
      rw [ih, List.drop_eq_nil_of_le hle, List.nil_append]
    · rename_i hlt
      rw [List.flatten_cons, Nat.sub_eq_zero_of_le (Nat.le_of_not_le hlt), List.drop_zero]

theorem reads_from_byte {bs : List (List Byte)} (hreads : Reads bs) (n : Nat) :
    Reads (from_byte n bs) := by
  induction bs generalizing n with
  | nil => exact hreads
  | cons b bs ih =>
    obtain ⟨hpos, hlen⟩ := hreads b List.mem_cons_self
    have hrest : Reads bs := fun c hc => hreads c (List.mem_cons_of_mem _ hc)
    rw [from_byte]
    split
    · exact ih hrest _
    · intro c hc
      rcases List.mem_cons.mp hc with rfl | hc
      · rw [List.length_drop]
        omega
      · exact hrest c hc

/-- The reads up to a byte are the first ones, and they have all bytes before it. -/
theorem up_to_spec (n : Nat) (bs : List (List Byte)) (hn : n ≤ bs.flatten.length) :
    ∃ rest, bs = up_to n bs ++ rest ∧ n ≤ (up_to n bs).flatten.length := by
  induction bs generalizing n with
  | nil => exact ⟨[], by cases n <;> rfl, hn.trans (Nat.zero_le _)⟩
  | cons b bs ih =>
    cases n with
    | zero => exact ⟨b :: bs, rfl, Nat.zero_le _⟩
    | succ n =>
      rw [List.flatten_cons, List.length_append] at hn
      obtain ⟨rest, heq, hle⟩ := ih (n + 1 - b.length) (by omega)
      refine ⟨rest, ?_, ?_⟩
      · rw [up_to, List.cons_append, ← heq]
      · rw [up_to, List.flatten_cons, List.length_append]
        omega

theorem Stream.raw_spec (s : Stream) :
    Reads s.raw ∧ ∃ after, s.raw.flatten = s.header.bytes ++ after := by
  have hfrom : (from_byte s.before.length s.reads).flatten =
      s.header.bytes ++ (s.body ++ s.behind) := by
    rw [flatten_from_byte, s.flat, List.append_assoc, List.append_assoc, List.drop_left]
  have hall : s.header.bytes.length + s.body.length ≤
      (from_byte s.before.length s.reads).flatten.length := by
    rw [hfrom, List.length_append, List.length_append]
    omega
  obtain ⟨rest, heq, hle⟩ := up_to_spec _ _ hall
  have hreads := reads_from_byte s.reads_ok s.before.length
  have hsplit : s.raw.flatten ++ rest.flatten = s.header.bytes ++ (s.body ++ s.behind) := by
    rw [← List.flatten_append, ← hfrom]
    exact congrArg List.flatten heq.symm
  refine ⟨fun b hb => hreads b ?_, ?_⟩
  · rw [heq]
    exact List.mem_append_left _ hb
  · obtain ⟨after, hafter⟩ : s.header.bytes <+: s.raw.flatten := by
      apply List.prefix_of_prefix_length_le (List.prefix_append _ (s.body ++ s.behind)) _
        (Nat.le_trans (Nat.le_add_right _ _) hle)
      rw [← hsplit]
      exact List.prefix_append _ _
    exact ⟨after, hafter.symm⟩

/-- The bytes that are printed with `RH` are those of the header exactly when the read in which it
ends is a right one. -/
theorem header_printed_iff (s : Stream) :
    passed false s.raw = s.header.bytes ↔ EndsRight s.header.bytes.length s.raw := by
  obtain ⟨hreads, after, hflat⟩ := s.raw_spec
  exact passed_iff s.header.rest hreads hflat

theorem hello_no_nul : 0 ∉ bytes "hello" := by decide +kernel

/-- A reply whose CRLFCRLF comes in two reads. -/
def cut_reply : Stream where
  before := []
  header := ⟨[bytes "HTTP/1.1 200 OK\r"], [CR], by decide, by decide +kernel, .inr rfl⟩
  body := bytes "hello"
  behind := []
  reads := [bytes "HTTP/1.1 200 OK\r\n", bytes "\r\nhello"]
  no_nul := hello_no_nul
  reads_ok := by decide +kernel
  flat := by decide +kernel

/-- The body is printed with the header. -/
theorem cut_header_takes_the_body : passed false cut_reply.raw ≠ cut_reply.header.bytes := by
  decide +kernel

end Httperf.PrintReply
