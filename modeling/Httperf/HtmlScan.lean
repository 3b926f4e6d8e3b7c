-- The scanner of `--wsesspage` (`call_recv_data` in `wsesspage.c`), which looks for the objects
-- that a page embeds.
import Httperf.Clib
import Httperf.Lib.Transducer

namespace Httperf.HtmlScan

open Lib.Transducer

/-! ## The scanner -/

inductive ScanState where
  | initial
  | html
  | cmd
  | dash_one
  | dash_two
  | rangle
  | src
  | data
  | lquote
  | naked_uri
  | quoted_uri
  deriving DecidableEq, Repr

def BUF_SIZE : Nat := 1024

/-- `Call_Private_Data`. The bytes of `buf` from `buf_len` on are those that were left there
before. -/
structure Scanner where
  state : ScanState
  buf_len : Nat
  buf : Nat → Byte

/-- The first `n` bytes of `buf`. -/
def Scanner.token (s : Scanner) (n : Nat) : List Byte := (List.range n).map s.buf

/-- `buf[buf_len++] = ch`. -/
def Scanner.store (s : Scanner) (ch : Byte) : Scanner :=
  { s with buf := Function.update s.buf s.buf_len ch, buf_len := s.buf_len + 1 }

/-- Where the command in `buf` leads. `strcmp` reads the byte behind it. The name `data` is compared
with six bytes, as `iframe` is. -/
def Scanner.command (s : Scanner) : ScanState :=
  if s.buf_len = 3 ∧ s.token 4 = bytes "!--" ++ [0] then .dash_one
  else if s.buf_len = 5 ∧ strncaseeq (s.token 5) (bytes "frame") then .src
  else if s.buf_len = 6 ∧ strncaseeq (s.token 6) (bytes "iframe") then .src
  else if s.buf_len = 6 ∧ strcaseeq (cstr (s.token 6)) (bytes "data") then .data
  else if s.buf_len = 3 ∧ strncaseeq (s.token 3) (bytes "img") then .src
  else .cmd

/-- The cases `P_SRC` and `P_DATA`: the last bytes are compared with the name of the attribute. The
`memcpy` moves all but the first of them down. -/
def Scanner.search (name : List Byte) (s : Scanner) (ch : Byte) : Scanner :=
  if ch = 62 then { s with state := .html }
  else
    let s := s.store ch
    if s.buf_len = name.length then
      if strncaseeq (s.token name.length) name then { s with state := .lquote, buf_len := 0 }
      else
        { s with
          buf := fun i => if i < name.length - 1 then s.buf (i + 1) else s.buf i
          buf_len := name.length - 1 }
    else s

/-- One character, with the URI that `fetch_uri` is called with. -/
def scan_char (s : Scanner) (ch : Byte) : Scanner × List (List Byte) :=
  match s.state with
  | .initial => (s, [])
  | .html => ({ s with buf_len := 0, state := if ch = 60 then .cmd else .html }, [])
  | .cmd =>
    if isspace ch ∨ ch = 61 then
      (if 0 < s.buf_len then { s with state := s.command, buf_len := 0 }
        else { s with state := .html }, [])
    else if ch = 62 then ({ s with state := .html }, [])
    else (if s.buf_len < BUF_SIZE then s.store ch else s, [])
  | .dash_one => (if ch = 45 then { s with state := .dash_two } else s, [])
  | .dash_two => ({ s with state := if ch = 45 then .rangle else .dash_one }, [])
  | .rangle => (if ch = 62 then { s with state := .html } else s, [])
  | .src => (s.search (bytes "src=") ch, [])
  | .data => (s.search (bytes "data=") ch, [])
  | .lquote =>
    (if ch = 34 then { s with state := .quoted_uri }
      else if isspace ch then s
      else { s with state := .naked_uri }.store ch, [])
  | .naked_uri | .quoted_uri =>
    if s.state = .quoted_uri ∧ ch = 34 ∨ s.state = .naked_uri ∧ isspace ch then
      ({ s with state := .html, buf_len := 0, buf := Function.update s.buf s.buf_len 0 },
        [s.token s.buf_len])
    else (if s.buf_len < BUF_SIZE - 1 then s.store ch else s, [])

/-- `EV_CALL_RECV_DATA` with a piece of the text. -/
def call_recv_data (s : Scanner) (line : List Byte) : Scanner × List (List Byte) :=
  if s.state = .initial then (s, []) else scan scan_char s line

/-- A row of pieces. -/
def recv (s : Scanner) (lines : List (List Byte)) : Scanner × List (List Byte) :=
  scan call_recv_data s lines

/-- `Call_Private_Data` is cleared, and the `Content-Type:` is that of a page. -/
def fresh : Scanner := ⟨.html, 0, fun _ => 0⟩

example : (recv fresh [bytes "<p><img src=\"/a.g", bytes "if\">"]).2 = [bytes "/a.gif"] := by
  decide +kernel

/-! ## The pieces -/

theorem scan_initial {s : Scanner} (hs : s.state = .initial) (text : List Byte) :
    scan scan_char s text = (s, []) := by
  induction text with
  | nil => rfl
  | cons ch text ih =>
    have hstep : scan_char s ch = (s, []) := by
      unfold scan_char
      rw [hs]
    rw [scan_cons, hstep, ih]
    rfl

/-- The pieces make no difference. -/
theorem recv_eq (s : Scanner) (lines : List (List Byte)) :
    recv s lines = scan scan_char s lines.flatten := by
  apply scan_pieces
  intro s line
  unfold call_recv_data
  split_ifs with h
  · rw [scan_initial h]
  · rfl

/-! ## The buffer -/

theorem token_length (s : Scanner) (n : Nat) : (s.token n).length = n := by
  unfold Scanner.token
  rw [List.length_map, List.length_range]

theorem token_succ (s : Scanner) (n : Nat) : s.token (n + 1) = s.token n ++ [s.buf n] := by
  unfold Scanner.token
  rw [List.range_succ, List.map_append, List.map_singleton]

theorem token_congr {s t : Scanner} {n : Nat} (h : ∀ i < n, s.buf i = t.buf i) :
    s.token n = t.token n := by
  unfold Scanner.token
  apply List.map_congr_left
  intro i hi
  exact h i (List.mem_range.mp hi)

/-- The scanner is in `state`, and `text` is what it has in the buffer. -/
structure Scanner.Holds (s : Scanner) (state : ScanState) (text : List Byte) : Prop where
  state : s.state = state
  len : s.buf_len = text.length
  token : s.token text.length = text

theorem holds_nil {s : Scanner} {state : ScanState} (hstate : s.state = state)
    (hlen : s.buf_len = 0) :
    s.Holds state [] := ⟨hstate, hlen, rfl⟩

theorem Scanner.Holds.store {s : Scanner} {state : ScanState} {text : List Byte}
    (h : s.Holds state text) (ch : Byte) :
    (s.store ch).Holds state (text ++ [ch]) := by
  have hfront : (s.store ch).token text.length = text := by
    rw [← h.token, token_length]
    apply token_congr
    intro i hi
    exact Function.update_of_ne (by rw [h.len]; exact Nat.ne_of_lt hi) ..
  have hlast : (s.store ch).buf text.length = ch := by
    rw [← h.len]
    exact Function.update_self ..
  refine ⟨h.state, ?_, ?_⟩
  · rw [List.length_append, ← h.len]
    rfl
  · rw [List.length_append, List.length_singleton, token_succ, hfront, hlast]

/-- Characters that are stored one behind the other. -/
theorem scan_collect {state : ScanState} {limit : Nat} {ok : Byte → Prop}
    (hstep : ∀ s ch, s.state = state → s.buf_len < limit → ok ch →
      scan_char s ch = (s.store ch, []))
    {s : Scanner} {text more : List Byte} (h : s.Holds state text) (hok : ∀ c ∈ more, ok c)
    (hroom : text.length + more.length ≤ limit) :
    (scan scan_char s more).1.Holds state (text ++ more) ∧ (scan scan_char s more).2 = [] ∧
      ∀ i, text.length + more.length ≤ i → (scan scan_char s more).1.buf i = s.buf i := by
  induction more generalizing s text with
  | nil =>
    rw [List.append_nil]
    exact ⟨h, rfl, fun _ _ => rfl⟩
  | cons ch more ih =>
    rw [List.length_cons] at hroom
    have hlen := h.len
    have hthis := hstep s ch h.state (by omega) (hok ch (List.mem_cons_self ..))
    obtain ⟨hholds, hout, hbehind⟩ :=
      ih (h.store ch) (fun c hc => hok c (List.mem_cons_of_mem _ hc))
      (by rw [List.length_append, List.length_singleton]; omega)
    rw [scan_cons, hthis]
    refine ⟨by simpa using hholds, by simpa using hout, fun i hi => ?_⟩
    rw [List.length_cons] at hi
    dsimp only
    rw [hbehind i (by rw [List.length_append, List.length_singleton]; omega)]
    exact Function.update_of_ne (by omega) ..

/-! ## Looking for an attribute -/

/-- The text of `name` occurs, in upper or lower case. -/
def Mentions (name text : List Byte) : Prop := name <:+: text.map tolower

theorem Mentions.append_right {name front back : List Byte} (h : Mentions name front) :
    Mentions name (front ++ back) := by
  unfold Mentions
  rw [List.map_append]
  exact h.trans (List.prefix_append ..).isInfix

theorem strncaseeq_iff {text name : List Byte} (h : text.length = name.length) :
    strncaseeq text name = true ↔ text.map tolower = name.map tolower := by
  unfold strncaseeq
  rw [← h, List.take_length, beq_iff_eq]

section
variable {name : List Byte} {state : ScanState} {s : Scanner} {window : List Byte} {ch : Byte}

/-- The window is not yet as long as the name. -/
theorem search_fill (h : s.Holds state window) (hch : ch ≠ 62)
    (hlen : window.length + 1 ≠ name.length) :
    (s.search name ch).Holds state (window ++ [ch]) := by
  have hstore := h.store ch
  have hne : (s.store ch).buf_len ≠ name.length := by
    rw [hstore.len, List.length_append]
    exact hlen
  unfold Scanner.search
  rw [if_neg hch]
  dsimp only
  rw [if_neg hne]
  exact hstore

/-- What is in the window is the name. -/
theorem search_found (h : s.Holds state window) (hch : ch ≠ 62)
    (hlen : window.length + 1 = name.length)
    (hname : (window ++ [ch]).map tolower = name.map tolower) :
    (s.search name ch).Holds .lquote [] := by
  have hstore := h.store ch
  have hfull : (window ++ [ch]).length = name.length := by
    rw [List.length_append]
    exact hlen
  have hlen' : (s.store ch).buf_len = name.length := by rw [hstore.len, hfull]
  have htoken : (s.store ch).token name.length = window ++ [ch] := by rw [← hfull, hstore.token]
  have heq := (strncaseeq_iff hfull).mpr hname
  unfold Scanner.search
  rw [if_neg hch]
  dsimp only
  rw [if_pos hlen', htoken, if_pos heq]
  exact holds_nil rfl rfl

/-- What is in the window is not the name, and it moves on. -/
theorem search_slide (h : s.Holds state window) (hch : ch ≠ 62)
    (hlen : window.length + 1 = name.length)
    (hname : (window ++ [ch]).map tolower ≠ name.map tolower) :
    (s.search name ch).Holds state (window ++ [ch]).tail := by
  have hstore := h.store ch
  have hfull : (window ++ [ch]).length = name.length := by
    rw [List.length_append]
    exact hlen
  have hlen' : (s.store ch).buf_len = name.length := by rw [hstore.len, hfull]
  have htoken : (s.store ch).token name.length = window ++ [ch] := by rw [← hfull, hstore.token]
  have heq : ¬ strncaseeq (window ++ [ch]) name = true :=
    fun h => hname ((strncaseeq_iff hfull).mp h)
  unfold Scanner.search
  rw [if_neg hch]
  dsimp only
  rw [if_pos hlen', htoken, if_neg heq]
  refine ⟨hstore.state, ?_, ?_⟩
  · dsimp only
    rw [List.length_tail, hfull]
  · apply List.ext_getElem
    · rw [token_length]
    · intro i hi hi'
      have hlast : i + 1 < name.length := by
        rw [List.length_tail, hfull] at hi'
        omega
      have hget : (s.store ch).buf (i + 1) = (window ++ [ch])[i + 1] := by
        have := List.getElem_of_eq htoken (show i + 1 < ((s.store ch).token name.length).length by
          rw [token_length]; exact hlast)
        rw [← this]
        simp [Scanner.token]
      rw [List.getElem_tail, ← hget]
      simp only [Scanner.token, List.getElem_map, List.getElem_range]
      rw [if_pos (by omega)]

/-- While the name does not occur, the window holds the end of what was read. -/
theorem scan_search (hname : 0 < name.length) (hlower : name.map tolower = name)
    (hstep : ∀ s ch, s.state = state → scan_char s ch = (s.search name ch, []))
    (hs : s.Holds state []) {text : List Byte} (hrangle : 62 ∉ text)
    (hfree : ¬ Mentions name text) :
    (scan scan_char s text).1.Holds state (text.drop (text.length - (name.length - 1))) ∧
      (scan scan_char s text).2 = [] := by
  induction text using List.reverseRecOn with
  | nil =>
    rw [List.drop_nil]
    exact ⟨hs, rfl⟩
  | append_singleton text ch ih =>
    rw [List.mem_append, not_or, List.mem_singleton] at hrangle
    obtain ⟨hholds, hout⟩ := ih hrangle.1 (fun h => hfree h.append_right)
    have hch : ch ≠ 62 := fun h => hrangle.2 h.symm
    rw [scan_append, scan_singleton, hstep _ _ hholds.state, hout]
    refine ⟨?_, rfl⟩
    dsimp only
    have hwindow : (text.drop (text.length - (name.length - 1))).length =
        min text.length (name.length - 1) := by
      rw [List.length_drop]
      omega
    have hnext : text.drop (text.length - (name.length - 1)) ++ [ch] =
        (text ++ [ch]).drop (text.length - (name.length - 1)) := by
      rw [List.drop_append_of_le_length (Nat.sub_le ..)]
    rw [List.length_append, List.length_singleton]
    by_cases hfull : text.length < name.length - 1
    · have hfill := search_fill hholds hch (show _ + 1 ≠ name.length by omega)
      rw [hnext] at hfill
      rwa [show text.length + 1 - (name.length - 1) = text.length - (name.length - 1) by omega]
    · have hother : (text.drop (text.length - (name.length - 1)) ++ [ch]).map tolower ≠
          name.map tolower := by
        intro heq
        apply hfree
        unfold Mentions
        rw [← hlower, ← heq, hnext]
        exact ((List.drop_suffix ..).map tolower).isInfix
      have hslide := search_slide hholds hch (by omega) hother
      rw [hnext, List.tail_drop] at hslide
      rwa [show text.length + 1 - (name.length - 1) = text.length - (name.length - 1) + 1 by omega]

end

end Httperf.HtmlScan
