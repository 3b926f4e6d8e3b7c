-- What the scanner keeps of earlier markup: the byte behind a command of three.
import Httperf.HtmlTags

namespace Httperf.HtmlScan

open Lib.Transducer

/-! ## Scanners that agree -/

/-- The byte that `strcmp` takes for the end of `!--` is a NUL. -/
abbrev Clean (s : Scanner) : Prop := s.buf 3 = 0

/-- What a scanner goes by: outside of commands nothing but its state, inside of them what it has in
the buffer. The byte that `strcmp` reads behind a command of three may be a stale one in `s`
only. -/
structure Agree (s t : Scanner) : Prop where
  state : s.state = t.state
  len : s.state ≠ .html → s.buf_len = t.buf_len
  buf : s.state ≠ .html → ∀ i < s.buf_len, s.buf i = t.buf i
  behind : s.buf 3 = t.buf 3 ∨ Clean t

variable {s t : Scanner}

theorem Agree.store (h : Agree s t) (hstate : s.state ≠ .html) (ch : Byte) :
    Agree (s.store ch) (t.store ch) := by
  have hlen := h.len hstate
  have hget (i : Nat) (hi : i < s.buf_len + 1) : (s.store ch).buf i = (t.store ch).buf i := by
    unfold Scanner.store
    dsimp only
    rw [hlen]
    by_cases hlast : i = t.buf_len
    · rw [hlast, Function.update_self, Function.update_self]
    · rw [Function.update_of_ne hlast, Function.update_of_ne hlast]
      exact h.buf hstate i (by omega)
  refine ⟨h.state, fun _ => congrArg (· + 1) hlen, fun _ => hget, ?_⟩
  by_cases h3 : 3 < s.buf_len + 1
  · exact .inl (hget 3 h3)
  · unfold Clean Scanner.store
    dsimp only
    rw [Function.update_of_ne (by omega), Function.update_of_ne (by omega)]
    exact h.behind

theorem Agree.token_eq (h : Agree s t) (hstate : s.state ≠ .html) :
    s.token s.buf_len = t.token t.buf_len := by
  rw [← h.len hstate]
  exact token_congr (h.buf hstate)

/-- The word in the buffer is `!--`. -/
def Opener (s : Scanner) : Prop := s.buf_len = 3 ∧ s.token 3 = bytes "!--"

/-- What `strcmp` and `strncasecmp` read is the same, or leads to the same state. -/
theorem Agree.command (h : Agree s t) (hstate : s.state ≠ .html) (hclean : Opener s → Clean s) :
    s.command = t.command := by
  have hlen := h.len hstate
  have htoken (n : Nat) (hn : s.buf_len = n) : s.token n = t.token n := by
    rw [← hn]
    exact token_congr (h.buf hstate)
  have hcomment (hn : s.buf_len = 3) :
      s.token 4 = bytes "!--" ++ [0] ↔ t.token 4 = bytes "!--" ++ [0] := by
    rw [token_succ s 3, token_succ t 3, ← htoken 3 hn]
    constructor
    · intro heq
      obtain ⟨hword, hnul⟩ := List.append_inj' heq rfl
      have hs : s.buf 3 = 0 := (List.cons.inj hnul).1
      have ht : t.buf 3 = 0 := h.behind.elim (fun hsame => hsame ▸ hs) id
      rw [hword, ht]
    · intro heq
      have hword := (List.append_inj' heq rfl).1
      rw [hword, hclean ⟨hn, hword⟩]
  unfold Scanner.command
  rw [← hlen]
  by_cases h3 : s.buf_len = 3
  · rw [← htoken 3 h3]
    simp only [h3, hcomment h3, true_and]
    simp
  · by_cases h5 : s.buf_len = 5
    · rw [htoken 5 h5]
      simp [h5]
    · by_cases h6 : s.buf_len = 6
      · rw [htoken 6 h6]
        simp [h6]
      · simp [h3, h5, h6]

theorem Agree.with_state (h : Agree s t) (hstate : s.state ≠ .html) (state : ScanState) :
    Agree { s with state } { t with state } :=
  ⟨rfl, fun _ => h.len hstate, fun _ => h.buf hstate, h.behind⟩

/-- A state in which the buffer is empty. -/
theorem Agree.clear (h : Agree s t) (state : ScanState) :
    Agree { s with state, buf_len := 0 } { t with state, buf_len := 0 } :=
  ⟨rfl, fun _ => rfl, fun _ i hi => absurd hi (Nat.not_lt_zero i), h.behind⟩

theorem Agree.search (h : Agree s t) (hstate : s.state ≠ .html) {name : List Byte}
    (hname : name ≠ []) (ch : Byte) :
    Agree (s.search name ch) (t.search name ch) := by
  have hstore := h.store hstate ch
  have hlen : (s.store ch).buf_len = (t.store ch).buf_len := hstore.len hstate
  unfold Scanner.search
  by_cases hch : ch = 62
  · rw [if_pos hch, if_pos hch]
    exact h.with_state hstate .html
  · rw [if_neg hch, if_neg hch]
    dsimp only
    rw [← hlen]
    by_cases hfull : (s.store ch).buf_len = name.length
    · have htoken : (s.store ch).token name.length = (t.store ch).token name.length := by
        rw [← hfull]
        exact token_congr (hstore.buf hstate)
      rw [if_pos hfull, if_pos hfull, htoken]
      by_cases heq : strncaseeq ((t.store ch).token name.length) name = true
      · rw [if_pos heq, if_pos heq]
        exact hstore.clear .lquote
      · rw [if_neg heq, if_neg heq]
        have hpos := List.length_pos_iff.mpr hname
        have hget (i : Nat) (hi : i < name.length) : (s.store ch).buf i = (t.store ch).buf i :=
          hstore.buf hstate i (by omega)
        refine ⟨h.state, fun _ => rfl, fun _ i hi => ?_, ?_⟩
        · dsimp only at hi ⊢
          rw [if_pos hi, if_pos hi]
          exact hget _ (by omega)
        · unfold Clean
          dsimp only
          split_ifs with h3
          · exact .inl (hget _ (by omega))
          · exact hstore.behind
    · rw [if_neg hfull, if_neg hfull]
      exact hstore

/-- The end of a URI, or a character of it. -/
theorem Agree.uri (h : Agree s t) (hstate : s.state ≠ .html) (c : Prop) [Decidable c] (ch : Byte) :
    Agree
      (if c then ({ s with state := .html, buf_len := 0, buf := Function.update s.buf s.buf_len 0 },
          [s.token s.buf_len])
        else (if s.buf_len < BUF_SIZE - 1 then s.store ch else s, [])).1
      (if c then ({ t with state := .html, buf_len := 0, buf := Function.update t.buf t.buf_len 0 },
          [t.token t.buf_len])
        else (if t.buf_len < BUF_SIZE - 1 then t.store ch else t, [])).1 ∧
    (if c then
        (({ s with state := .html, buf_len := 0, buf := Function.update s.buf s.buf_len 0 } :
          Scanner), [s.token s.buf_len])
        else (if s.buf_len < BUF_SIZE - 1 then s.store ch else s, [])).2 =
      (if c then
        (({ t with state := .html, buf_len := 0, buf := Function.update t.buf t.buf_len 0 } :
          Scanner), [t.token t.buf_len])
        else (if t.buf_len < BUF_SIZE - 1 then t.store ch else t, [])).2 := by
  have hlen := h.len hstate
  by_cases hc : c
  · rw [if_pos hc, if_pos hc, h.token_eq hstate]
    refine ⟨⟨rfl, fun h => absurd rfl h, fun h => absurd rfl h, ?_⟩, rfl⟩
    unfold Clean
    dsimp only
    rw [hlen]
    by_cases h3 : 3 = t.buf_len
    · rw [← h3, Function.update_self, Function.update_self]
      exact .inl rfl
    · rw [Function.update_of_ne h3, Function.update_of_ne h3]
      exact h.behind
  · rw [if_neg hc, if_neg hc, hlen]
    refine ⟨?_, rfl⟩
    dsimp only
    split_ifs
    · exact h.store hstate ch
    · exact h

/-- A blank or a `=` ends a command. -/
abbrev Ends (ch : Byte) : Prop := isspace ch = true ∨ ch = 61

/-- Scanners that agree go on so, unless one of them takes `!--` for some other word. -/
theorem scan_char_agree (h : Agree s t) {ch : Byte}
    (hclean : s.state = .cmd → Ends ch → Opener s → Clean s) :
    Agree (scan_char s ch).1 (scan_char t ch).1 ∧ (scan_char s ch).2 = (scan_char t ch).2 := by
  by_cases hhtml : s.state = .html
  · have ht := h.state.symm.trans hhtml
    unfold scan_char
    rw [hhtml, ht]
    exact ⟨h.clear _, rfl⟩
  have hlen := h.len hhtml
  unfold scan_char
  rw [← h.state]
  cases hs : s.state with
  | html => exact absurd hs hhtml
  | initial => exact ⟨h, rfl⟩
  | cmd =>
    dsimp only
    by_cases hend : Ends ch
    · rw [if_pos hend, if_pos hend, h.command hhtml (hclean hs hend)]
      refine ⟨?_, rfl⟩
      by_cases hpos : 0 < s.buf_len
      · rw [if_pos hpos, if_pos (hlen ▸ hpos)]
        exact h.clear _
      · rw [if_neg hpos, if_neg (hlen ▸ hpos)]
        exact h.with_state hhtml _
    · rw [if_neg hend, if_neg hend]
      by_cases hrangle : ch = 62
      · rw [if_pos hrangle, if_pos hrangle]
        exact ⟨h.with_state hhtml _, rfl⟩
      · rw [if_neg hrangle, if_neg hrangle, hlen]
        refine ⟨?_, rfl⟩
        dsimp only
        split_ifs
        · exact h.store hhtml ch
        · exact h
  | dash_one | rangle =>
    dsimp only
    refine ⟨?_, rfl⟩
    split_ifs
    · exact h.with_state hhtml _
    · exact h
  | dash_two => exact ⟨h.with_state hhtml _, rfl⟩
  | src => exact ⟨h.search hhtml (by decide) ch, rfl⟩
  | data => exact ⟨h.search hhtml (by decide) ch, rfl⟩
  | lquote =>
    dsimp only
    refine ⟨?_, rfl⟩
    split_ifs
    · exact h.with_state hhtml _
    · exact h
    · exact (h.with_state hhtml .naked_uri).store (fun h => by cases h) ch
  | naked_uri | quoted_uri => exact h.uri hhtml _ ch

/-- What is fetched is the same as long as no `!--` is taken for some other word. -/
theorem scan_agree (h : Agree s t) {text : List Byte}
    (hclean : ∀ front ch back, text = front ++ ch :: back →
      (scan scan_char s front).1.state = .cmd →
      Ends ch → Opener (scan scan_char s front).1 → Clean (scan scan_char s front).1) :
    (scan scan_char s text).2 = (scan scan_char t text).2 :=
  (scan_congr (fun front ch back htext _ h => scan_char_agree h (hclean front ch back htext)) h).2

/-! ## The words of a command -/

/-- A word begins: behind a `<`, or behind another word. -/
def Begins (s : Scanner) : Prop := s.state = .cmd ∧ s.buf_len = 0

theorem search_ne_cmd {name : List Byte} (hs : s.state ≠ .cmd) (ch : Byte) :
    (s.search name ch).state ≠ .cmd := by
  unfold Scanner.search
  dsimp only
  split_ifs
  · exact nofun
  · exact nofun
  · exact hs
  · exact hs

theorem html_buf_len (hs : s.state = .html) (ch : Byte) : (scan_char s ch).1.buf_len = 0 := by
  unfold scan_char
  rw [hs]

theorem scan_char_cmd {ch : Byte} (h : (scan_char s ch).1.state = .cmd) :
    s.state = .html ∨ s.state = .cmd := by
  cases hs : s.state with
  | html => exact .inl rfl
  | cmd => exact .inr rfl
  | src | data =>
    unfold scan_char at h
    rw [hs] at h
    exact absurd h (search_ne_cmd (by rw [hs]; exact nofun) ch)
  | initial =>
    unfold scan_char at h
    rw [hs] at h
    exact absurd (hs.symm.trans h) nofun
  | _ =>
    unfold scan_char at h
    rw [hs] at h
    dsimp only at h
    split_ifs at h <;> simp_all [Scanner.store]

/-- A word that goes on takes one character more. -/
theorem word_grows {ch : Byte} (hs : s.state = .cmd) (hcmd : (scan_char s ch).1.state = .cmd)
    (hpos : (scan_char s ch).1.buf_len ≠ 0) (hlen : (scan_char s ch).1.buf_len ≤ 3) :
    (scan_char s ch).1 = s.store ch := by
  unfold scan_char at *
  rw [hs] at *
  dsimp only at *
  by_cases hend : Ends ch
  · rw [if_pos hend] at hcmd hpos
    by_cases hword : 0 < s.buf_len
    · rw [if_pos hword] at hpos
      exact absurd rfl hpos
    · rw [if_neg hword] at hcmd
      cases hcmd
  · rw [if_neg hend] at *
    by_cases hrangle : ch = 62
    · rw [if_pos hrangle] at hcmd
      cases hcmd
    · rw [if_neg hrangle] at *
      by_cases hroom : s.buf_len < BUF_SIZE
      · rw [if_pos hroom]
      · rw [if_neg hroom] at hlen
        unfold BUF_SIZE at hroom
        dsimp only at hlen
        omega

theorem token_store (s : Scanner) (ch : Byte) :
    (s.store ch).token (s.store ch).buf_len = s.token s.buf_len ++ [ch] := by
  have hholds : s.Holds s.state (s.token s.buf_len) :=
    ⟨rfl, (token_length ..).symm, by rw [token_length]⟩
  have hstore := hholds.store ch
  rw [hstore.len, hstore.token]

/-- A short word that is in the buffer has been read since a word began, and the byte behind a word
of three has been there since then. -/
theorem word_begins (hs : s.state = .html) (text : List Byte)
    (hcmd : (scan scan_char s text).1.state = .cmd) (hlen : (scan scan_char s text).1.buf_len ≤ 3) :
    ∃ front, text = front ++ (scan scan_char s text).1.token (scan scan_char s text).1.buf_len ∧
      Begins (scan scan_char s front).1 ∧
      (scan scan_char s front).1.buf 3 = (scan scan_char s text).1.buf 3 := by
  have hwhole : ∀ text, Begins (scan scan_char s text).1 →
      ∃ front, text = front ++ (scan scan_char s text).1.token (scan scan_char s text).1.buf_len ∧
        Begins (scan scan_char s front).1 ∧
        (scan scan_char s front).1.buf 3 = (scan scan_char s text).1.buf 3 := by
    intro text hbegins
    refine ⟨text, ?_, hbegins, rfl⟩
    rw [hbegins.2]
    exact (List.append_nil text).symm
  induction text using List.reverseRecOn with
  | nil =>
    rw [scan_nil, hs] at hcmd
    cases hcmd
  | append_singleton text ch ih =>
    have hstep : (scan scan_char s (text ++ [ch])).1 =
        (scan_char (scan scan_char s text).1 ch).1 := by
      rw [scan_append, scan_singleton]
    by_cases hzero : (scan scan_char s (text ++ [ch])).1.buf_len = 0
    · exact hwhole _ ⟨hcmd, hzero⟩
    rw [hstep] at hcmd hlen hzero ⊢
    rcases scan_char_cmd hcmd with hhtml | hin
    · exact absurd (html_buf_len hhtml ch) hzero
    · -- one more character of the word
      have hstore := word_grows hin hcmd hzero hlen
      rw [hstore] at hlen ⊢
      have hshort : (scan scan_char s text).1.buf_len + 1 ≤ 3 := hlen
      obtain ⟨front, htext, hbegins, hbuf⟩ := ih hin (by omega)
      refine ⟨front, ?_, hbegins, ?_⟩
      · rw [token_store, ← List.append_assoc, ← htext]
      · rw [hbuf]
        exact (Function.update_of_ne (by omega) ..).symm

/-! ## What is left behind -/

/-- The second text is scanned as by a scanner that starts with it, however the texts are cut, and a
command `!--` in it, which opens a comment, is recognized as one. -/
structure Forgets (first second : List (List Byte)) : Prop where
  same : ∀ first' lines lines', first'.flatten = first.flatten → lines.flatten = second.flatten →
    lines'.flatten = second.flatten → (recv (recv fresh first').1 lines).2 = (recv fresh lines').2
  comments : ∀ front ch back, second.flatten = front ++ bytes "!--" ++ ch :: back → Ends ch →
    Begins (scan scan_char (recv fresh first).1 front).1 →
    (scan scan_char (recv fresh first).1 (front ++ bytes "!--" ++ [ch])).1.state = .dash_one

theorem scan_opener (hs : Begins s) {ch : Byte} (hch : Ends ch) :
    (scan scan_char s (bytes "!--" ++ [ch])).1.state = if Clean s then .dash_one else .cmd := by
  obtain ⟨hholds, -, hbehind⟩ := scan_name (holds_nil hs.1 hs.2)
    (show ∀ c ∈ bytes "!--", isspace c = false ∧ c ≠ 61 ∧ c ≠ 62 by decide +kernel) (by decide)
  have h3 := hbehind 3 (by decide)
  rw [scan_append, scan_singleton]
  dsimp only
  generalize (scan scan_char s (bytes "!--")).1 = t at hholds h3
  have hlen : t.buf_len = 3 := hholds.len
  have htoken : t.token 3 = bytes "!--" := hholds.token
  have hstep : (scan_char t ch).1.state = t.command := by
    unfold scan_char
    rw [hholds.state]
    dsimp only
    rw [if_pos hch, if_pos (by omega)]
  rw [hstep]
  unfold Scanner.command
  rw [token_succ t 3, htoken, hlen, h3]
  by_cases hclean : s.buf 3 = 0
  · have hcomment : 3 = 3 ∧ bytes "!--" ++ [s.buf 3] = bytes "!--" ++ [0] := ⟨rfl, by rw [hclean]⟩
    rw [if_pos hcomment, if_pos hclean]
  · have hcomment : ¬ (3 = 3 ∧ bytes "!--" ++ [s.buf 3] = bytes "!--" ++ [0]) := by
      rintro ⟨-, h⟩
      exact hclean (List.cons.inj (List.append_cancel_left h)).1
    rw [if_neg hcomment, if_neg hclean]
    rfl

/-- A `<!-- ` in the second text is a comment. -/
theorem Forgets.recognized {first second : List (List Byte)} (h : Forgets first second)
    {front back : List Byte} (hsecond : second.flatten = front ++ bytes "<!-- " ++ back)
    (hhtml : (scan scan_char (recv fresh first).1 front).1.state = .html) :
    (scan scan_char (recv fresh first).1 (front ++ bytes "<!-- ")).1.state = .dash_one := by
  have htext : front ++ bytes "<!-- " = front ++ [60] ++ bytes "!--" ++ [32] := by
    rw [List.append_assoc, List.append_assoc]
    rfl
  rw [htext]
  apply h.comments (front ++ [60]) 32 back
  · rw [hsecond, htext, List.append_assoc _ [32]]
    rfl
  · decide
  · obtain ⟨hcmd, -, -⟩ := scan_langle hhtml
    rw [scan_append, scan_singleton]
    exact ⟨hcmd.state, hcmd.len⟩

/-- The scanner forgets the first text exactly when a NUL stands behind each `!--` of the second one
that comes as a word. -/
theorem forgets_iff (first second : List (List Byte))
    (hfirst : (recv fresh first).1.state = .html) :
    Forgets first second ↔
      ∀ front ch back, second.flatten = front ++ bytes "!--" ++ ch :: back → Ends ch →
        Begins (scan scan_char (recv fresh first).1 front).1 →
        Clean (scan scan_char (recv fresh first).1 front).1 := by
  constructor
  · intro h front ch back hsecond hch hbegins
    have hcomment := h.comments front ch back hsecond hch hbegins
    rw [List.append_assoc, scan_append] at hcomment
    have hopener := scan_opener hbegins hch
    by_contra hclean
    rw [if_neg hclean] at hopener
    rw [hopener] at hcomment
    cases hcomment
  · intro hclean
    refine ⟨fun first' lines lines' hfirst' hlines hlines' => ?_,
      fun front ch back hsecond hch hbegins => ?_⟩
    · have hagree : Agree (recv fresh first).1 fresh :=
        ⟨hfirst, fun h => absurd hfirst h, fun h => absurd hfirst h, .inr rfl⟩
      have hsame : (recv fresh first').1 = (recv fresh first).1 := by
        rw [recv_eq fresh first', recv_eq fresh first, hfirst']
      rw [hsame, recv_eq _ lines, recv_eq fresh lines', hlines, hlines']
      apply scan_agree hagree
      intro front ch back hsecond hcmd hch hopener
      obtain ⟨front', hfront, hbegins, hbuf⟩ :=
        word_begins hfirst front hcmd (Nat.le_of_eq hopener.1)
      rw [hopener.1, hopener.2] at hfront
      unfold Clean
      rw [← hbuf]
      exact hclean front' ch back (by rw [hsecond, hfront]) hch hbegins
    · rw [List.append_assoc, scan_append]
      have hopener := scan_opener hbegins hch
      rwa [if_pos (hclean front ch back hsecond hch hbegins)] at hopener

/-- `<body>` leaves its `y`, but no comment follows. -/
theorem forgets_iff_paragraph : Forgets [bytes "<body>"] [bytes "<p>hel", bytes "lo</p>"] := by
  refine (forgets_iff _ _ (by decide +kernel)).mpr fun front ch back hsecond _ _ => ?_
  have hmem : 33 ∈ front ++ bytes "!--" ++ ch :: back :=
    List.mem_append_left _ (List.mem_append_right _ List.mem_cons_self)
  rw [← hsecond] at hmem
  exact absurd hmem (by decide +kernel)

/-- Behind `<body>` a comment is taken for markup. -/
theorem a_body_is_not_forgotten : ¬ Forgets [bytes "<body>"] [bytes "<!-- img src=x "] := by
  intro h
  have hsame :=
    h.same [bytes "<body>"] [bytes "<!-- img src=x "] [bytes "<!-- img src=x "] rfl rfl rfl
  have hbehind : (recv (recv fresh [bytes "<body>"]).1 [bytes "<!-- img src=x "]).2 =
      [bytes "x"] := by
    decide +kernel
  have halone : (recv fresh [bytes "<!-- img src=x "]).2 = [] := by decide +kernel
  rw [hbehind, halone] at hsame
  cases hsame

end Httperf.HtmlScan
