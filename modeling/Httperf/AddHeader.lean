-- The string of `--add-header` (`unescape` in `misc.c`). `cp` is what is left of the string with
-- its NUL, and `dst` what is written of the copy.
import Httperf.Numeral

namespace Httperf.AddHeader

def LONG_MAX : Nat := 2 ^ 63 - 1

def is_octal (c : Byte) : Bool := (digit 8 c).isSome

/-! ## The loop -/

/-- `strtol (s, &end, 8)` where a digit stands. The digits 8 and 9 are none of this base. -/
def strtol_octal (s : List Byte) : Nat × List Byte :=
  (min (digits 8 (s.takeWhile is_octal)) LONG_MAX, s.dropWhile is_octal)

/-- `*dp++ = ch`, in a copy of `size` bytes. -/
def put (size : Nat) (dst : List Byte) (ch : Byte) : Option (List Byte) :=
  if dst.length < size then some (dst ++ [ch]) else none

/-- The `switch` over the character behind a backslash. -/
def escape (size : Nat) (ch : Byte) (cp dst : List Byte) : Option (Byte × List Byte × List Byte) :=
  if ch = 92 then some (92, cp, dst)
  else if ch = 97 then some (10, cp, dst)
  else if ch = 114 then some (13, cp, dst)
  else if ch = 110 then (put size dst 13).map fun dst => (10, cp, dst)
  else if isdigit ch then some (UInt8.ofNat (strtol_octal (ch :: cp)).1,
    (strtol_octal (ch :: cp)).2, dst)
  else some (ch, cp, dst)

/-- How `unescape` ends: with its result, or by leaving the string or the copy. -/
inductive Ended where
  | returned (dst : List Byte)
  | outside
  deriving DecidableEq, Repr

def unescape_loop (size : Nat) : Nat → List Byte → List Byte → Option Ended
  | 0, _, _ => none
  | _ + 1, [], _ => some .outside
  | turns + 1, ch :: cp, dst =>
    if ch = 0 then some (.returned dst)
    else if ch = 92 then
      match cp with
      | [] => some .outside
      | ch :: cp =>
        match escape size ch cp dst with
        | none => some .outside
        | some (ch, cp, dst) =>
          match put size dst ch with
          | none => some .outside
          | some dst => unescape_loop size turns cp dst
    else
      match put size dst ch with
      | none => some .outside
      | some dst => unescape_loop size turns cp dst

/-- The copy has the size of the string, and every turn reads a byte or more. -/
def unescape (str : List Byte) : Option Ended :=
  unescape_loop (str.length + 1) (str.length + 2) (str ++ [0]) []

example : unescape (bytes "A: \\\\\\101\\n") = some (.returned (bytes "A: \\A\r\n")) := by
  decide +kernel

/-- The backslash in front of the NUL takes it for a character. -/
example : unescape (bytes "a\\") = some .outside := by decide +kernel

/-! ## The escapes -/

/-- What stands for a backslash and a digit other than 8 and 9: the digits go on as far as they are
octal. -/
def octal_char (ds : List Byte) : Byte := UInt8.ofNat (min (digits 8 ds) LONG_MAX)

/-- A string and what it stands for. `unknown c` is what the escape of `c` stands for when it has no
meaning. -/
inductive Unescapes (unknown : Byte → List Byte) : List Byte → List Byte → Prop where
  | nil : Unescapes unknown [] []
  | plain {c : Byte} {str dst : List Byte} : c ≠ 92 → Unescapes unknown str dst →
      Unescapes unknown (c :: str) (c :: dst)
  | backslash {str dst : List Byte} : Unescapes unknown str dst →
    Unescapes unknown (92 :: 92 :: str) (92 :: dst)
  | a {str dst : List Byte} : Unescapes unknown str dst →
    Unescapes unknown (92 :: 97 :: str) (LF :: dst)
  | r {str dst : List Byte} : Unescapes unknown str dst →
    Unescapes unknown (92 :: 114 :: str) (CR :: dst)
  | n {str dst : List Byte} : Unescapes unknown str dst →
    Unescapes unknown (92 :: 110 :: str) (CR :: LF :: dst)
  | octal {c : Byte} {str dst : List Byte} : is_octal c →
    Unescapes unknown (str.dropWhile is_octal) dst →
      Unescapes unknown (92 :: c :: str) (octal_char (c :: str.takeWhile is_octal) :: dst)
  | unknown {c : Byte} {str dst : List Byte} : c ≠ 92 → c ≠ 97 → c ≠ 114 → c ≠ 110 →
    isdigit c = false →
      Unescapes unknown str dst → Unescapes unknown (92 :: c :: str) (unknown c ++ dst)

theorem isdigit_of_is_octal {c : Byte} (hc : is_octal c) : isdigit c := by
  have hall : ∀ c : Byte, is_octal c → isdigit c := by
    apply forall_byte
    decide +kernel
  exact hall c hc

/-- A string stands for one text. -/
theorem Unescapes.unique {unknown : Byte → List Byte} {str out out' : List Byte}
    (h : Unescapes unknown str out) (h' : Unescapes unknown str out') : out = out' := by
  induction h generalizing out' with
  | nil => cases h'; rfl
  | plain hc _ ih =>
    cases h' with
    | plain _ h' => rw [ih h']
    | _ => exact absurd rfl hc
  | backslash _ ih =>
    cases h' with
    | backslash h' => rw [ih h']
    | octal hd _ => cases hd
    | unknown hne _ _ _ _ _ => exact absurd rfl hne
    | plain hc _ => exact absurd rfl hc
  | a _ ih =>
    cases h' with
    | a h' => rw [ih h']
    | octal hd _ => cases hd
    | unknown _ hne _ _ _ _ => exact absurd rfl hne
    | plain hc _ => exact absurd rfl hc
  | r _ ih =>
    cases h' with
    | r h' => rw [ih h']
    | octal hd _ => cases hd
    | unknown _ _ hne _ _ _ => exact absurd rfl hne
    | plain hc _ => exact absurd rfl hc
  | n _ ih =>
    cases h' with
    | n h' => rw [ih h']
    | octal hd _ => cases hd
    | unknown _ _ _ hne _ _ => exact absurd rfl hne
    | plain hc _ => exact absurd rfl hc
  | octal hd _ ih =>
    cases h' with
    | octal _ h' => rw [ih h']
    | unknown _ _ _ _ hno _ =>
      rw [isdigit_of_is_octal hd] at hno
      cases hno
    | plain hc _ => exact absurd rfl hc
    | _ => cases hd
  | unknown h92 h97 h114 h110 hno _ ih =>
    cases h' with
    | unknown _ _ _ _ _ h' => rw [ih h']
    | octal hd _ =>
      rw [isdigit_of_is_octal hd] at hno
      cases hno
    | plain hc _ => exact absurd rfl hc
    | backslash _ => exact absurd rfl h92
    | a _ => exact absurd rfl h97
    | r _ => exact absurd rfl h114
    | n _ => exact absurd rfl h110

/-- Every backslash that begins an escape has a character behind it, and `ok` holds of these
characters. -/
def Whole (ok : Byte → Prop) : List Byte → Prop
  | [] => True
  | c :: str =>
    if c = 92 then
      match str with
      | [] => False
      | c :: str => ok c ∧ Whole ok str
    else Whole ok str

/-- Not the escapes `\8` and `\9`. -/
def Octal (c : Byte) : Prop := c ≠ 56 ∧ c ≠ 57

theorem whole_cons {ok : Byte → Prop} {c : Byte} (hc : c ≠ 92) {str : List Byte} :
    Whole ok (c :: str) ↔ Whole ok str := by
  conv_lhs => unfold Whole
  rw [if_neg hc]

theorem whole_escape {ok : Byte → Prop} {c : Byte} {str : List Byte} :
    Whole ok (92 :: c :: str) ↔ ok c ∧ Whole ok str := by
  conv_lhs => unfold Whole
  rw [if_pos rfl]

theorem whole_dropWhile {ok : Byte → Prop} {str : List Byte} (h : Whole ok str) :
    Whole ok (str.dropWhile is_octal) := by
  induction str with
  | nil => exact h
  | cons c str ih =>
    by_cases hc : is_octal c
    · have hne : c ≠ 92 := by
        rintro rfl
        cases hc
      rw [List.dropWhile_cons_of_pos hc]
      exact ih ((whole_cons hne).mp h)
    · rw [List.dropWhile_cons_of_neg hc]
      exact h

/-- The NUL ends the digits. -/
theorem strtol_octal_nul (str : List Byte) :
    strtol_octal (str ++ [0]) =
      (min (digits 8 (str.takeWhile is_octal)) LONG_MAX, str.dropWhile is_octal ++ [0]) := by
  have hnul : is_octal 0 = false := by decide
  have hsplit : (str ++ [0]).takeWhile is_octal = str.takeWhile is_octal ∧
      (str ++ [0]).dropWhile is_octal = str.dropWhile is_octal ++ [0] := by
    induction str with
    | nil => simp [hnul]
    | cons c str ih =>
      rw [List.cons_append, List.takeWhile_cons, List.takeWhile_cons, List.dropWhile_cons,
        List.dropWhile_cons, ih.1, ih.2]
      split <;> exact ⟨rfl, rfl⟩
  unfold strtol_octal
  rw [hsplit.1, hsplit.2]

theorem is_octal_of_isdigit {c : Byte} (hc : isdigit c) (hoctal : Octal c) : is_octal c := by
  have hall : ∀ c : Byte, isdigit c → c ≠ 56 → c ≠ 57 → is_octal c := by
    apply forall_byte
    decide +kernel
  exact hall c hc hoctal.1 hoctal.2

theorem put_eq {size : Nat} {dst : List Byte} (h : dst.length < size) (ch : Byte) :
    put size dst ch = some (dst ++ [ch]) := if_pos h

/-- An unknown escape stands for its character. -/
abbrev dropped (c : Byte) : List Byte := [c]

/-- The escape of `c` in front of `str` writes `front` and `ch` and goes on at `rest`. -/
structure Escaped (c : Byte) (str : List Byte) (ch : Byte) (rest front : List Byte) : Prop where
  nul : 0 ∉ rest
  whole : ∀ ok, Whole ok str → Whole ok rest
  room : front.length + 1 + rest.length ≤ str.length + 2
  left : rest.length ≤ str.length + 1
  stands : Octal c → ∀ {out}, Unescapes dropped rest out →
    Unescapes dropped (92 :: c :: str) (front ++ ch :: out)

/-- An escape of two characters. -/
theorem escaped_short {c ch : Byte} {str front : List Byte} (hnul : 0 ∉ str)
    (hfront : front.length ≤ 1)
    (hstands : ∀ {out}, Unescapes dropped str out →
      Unescapes dropped (92 :: c :: str) (front ++ ch :: out)) :
    Escaped c str ch str front :=
  ⟨hnul, fun _ h => h, by omega, by omega, fun _ _ h => hstands h⟩

/-- An escape of octal digits. If the first one is not octal, the escape stands for a NUL and goes
on at it. -/
theorem escaped_digits {c : Byte} (hc : isdigit c) {str : List Byte} (hnul : 0 ∉ str) :
    Escaped c str (octal_char ((c :: str).takeWhile is_octal))
      ((c :: str).dropWhile is_octal) [] := by
  have hne : c ≠ 92 := by
    rintro rfl
    cases hc
  have hc0 : c ≠ 0 := by
    rintro rfl
    cases hc
  have hlen : ((c :: str).dropWhile is_octal).length ≤ (c :: str).length :=
    List.length_dropWhile_le ..
  rw [List.length_cons] at hlen
  refine ⟨?_, ?_, ?_, hlen, ?_⟩
  · intro hmem
    rcases List.mem_cons.mp ((List.dropWhile_sublist _).mem hmem) with h | h
    · exact hc0 h.symm
    · exact hnul h
  · intro ok h
    exact whole_dropWhile ((whole_cons hne).mpr h)
  · rw [List.length_nil]
    omega
  · intro hoctal out hout
    have hfirst := is_octal_of_isdigit hc hoctal
    rw [List.dropWhile_cons_of_pos hfirst] at hout
    rw [List.takeWhile_cons_of_pos hfirst]
    exact .octal hfirst hout

theorem escape_spec {size : Nat} {dst : List Byte} (hroom : dst.length < size) (c : Byte)
    {str : List Byte} (hnul : 0 ∉ str) : ∃ ch rest front, escape size c (str ++ [0]) dst =
      some (ch, rest ++ [0], dst ++ front) ∧
      Escaped c str ch rest front := by
  unfold escape
  by_cases h92 : c = 92
  · refine ⟨92, str, [], by rw [if_pos h92, List.append_nil], escaped_short hnul (by simp) ?_⟩
    intro out hout
    rw [h92]
    exact .backslash hout
  by_cases h97 : c = 97
  · refine ⟨10, str, [], by rw [if_neg h92, if_pos h97, List.append_nil],
      escaped_short hnul (by simp) ?_⟩
    intro out hout
    rw [h97]
    exact .a hout
  by_cases h114 : c = 114
  · refine ⟨13, str, [], by rw [if_neg h92, if_neg h97, if_pos h114, List.append_nil],
      escaped_short hnul (by simp) ?_⟩
    intro out hout
    rw [h114]
    exact .r hout
  by_cases h110 : c = 110
  · refine ⟨10, str, [13], ?_, escaped_short hnul (by simp) ?_⟩
    · rw [if_neg h92, if_neg h97, if_neg h114, if_pos h110, put_eq hroom]
      rfl
    · intro out hout
      rw [h110]
      exact .n hout
  rw [if_neg h92, if_neg h97, if_neg h114, if_neg h110]
  by_cases hdigit : isdigit c
  · refine ⟨_, _, [], ?_, escaped_digits hdigit hnul⟩
    rw [if_pos hdigit, ← List.cons_append, strtol_octal_nul, List.append_nil]
    rfl
  · refine ⟨c, str, [], by rw [if_neg hdigit, List.append_nil], escaped_short hnul (by simp) ?_⟩
    intro out hout
    exact .unknown h92 h97 h114 h110 (by simpa using hdigit) hout

theorem unescape_loop_spec {size turns : Nat} {str dst : List Byte} (hnul : 0 ∉ str)
    (hwhole : Whole (fun _ => True) str) (hroom : dst.length + str.length < size)
    (hturns : str.length < turns) :
    ∃ out, unescape_loop size turns (str ++ [0]) dst = some (.returned (dst ++ out)) ∧
    out.length ≤ str.length ∧
      (Whole Octal str → Unescapes dropped str out) := by
  induction turns generalizing str dst with
  | zero => omega
  | succ turns ih =>
    cases str with
    | nil =>
      refine ⟨[], ?_, Nat.le_refl _, fun _ => .nil⟩
      rw [List.append_nil]
      rfl
    | cons c str =>
      rw [List.mem_cons, not_or] at hnul
      rw [List.length_cons] at hroom hturns
      have hc0 : c ≠ 0 := fun h => hnul.1 h.symm
      by_cases hc : c = 92
      · subst hc
        cases str with
        | nil => cases hwhole
        | cons c str =>
          rw [List.mem_cons, not_or] at hnul
          rw [whole_escape] at hwhole
          rw [List.length_cons] at hroom hturns
          obtain ⟨ch, rest, front, hescape, hesc⟩ :=
            escape_spec (show dst.length < size by omega) c hnul.2.2
          have hleft := hesc.left
          have hfits := hesc.room
          have hdst : (dst ++ front ++ [ch]).length = dst.length + front.length + 1 := by
            rw [List.length_append, List.length_append, List.length_singleton]
          obtain ⟨out, hloop, hlen, hstands⟩ := ih hesc.nul (hesc.whole _ hwhole.2)
            (show (dst ++ front ++ [ch]).length + rest.length < size by omega) (by omega)
          refine ⟨front ++ ch :: out, ?_, ?_, ?_⟩
          · change (match escape size c (str ++ [0]) dst with
              | none => some Ended.outside
              | some (ch, cp, dst) => match put size dst ch with
                | none => some Ended.outside
                | some dst => unescape_loop size turns cp dst) = _
            rw [hescape]
            dsimp only
            rw [put_eq (by rw [List.length_append]; omega)]
            dsimp only
            rw [hloop, List.append_assoc, List.append_assoc, List.singleton_append]
          · rw [List.length_append, List.length_cons, List.length_cons, List.length_cons]
            omega
          · intro hoctal
            rw [whole_escape] at hoctal
            exact hesc.stands hoctal.1 (hstands (hesc.whole _ hoctal.2))
      · rw [whole_cons hc] at hwhole
        have hdst : (dst ++ [c]).length = dst.length + 1 := by
          rw [List.length_append, List.length_singleton]
        obtain ⟨out, hloop, hlen, hstands⟩ := ih hnul.2 hwhole
          (show (dst ++ [c]).length + str.length < size by omega) (by omega)
        refine ⟨c :: out, ?_, Nat.succ_le_succ hlen,
          fun hoctal => .plain hc (hstands ((whole_cons hc).mp hoctal))⟩
        rw [List.cons_append]
        unfold unescape_loop
        rw [if_neg hc0, if_neg hc, put_eq (by omega)]
        dsimp only
        rw [hloop, List.append_assoc, List.singleton_append]

/-- The manual does not say what an escape stands for that it does not name. -/
theorem unescape_decodes {str : List Byte} (hnul : 0 ∉ str) (hwhole : Whole (fun _ => True) str) :
    ∃ out, unescape str = some (.returned out) ∧ out.length ≤ str.length ∧
      (Whole Octal str → ∀ text, Unescapes dropped str text ↔ text = out) := by
  obtain ⟨out, hreturned, hlen, hstands⟩ := unescape_loop_spec hnul hwhole
    (show ([] : List Byte).length + str.length < str.length + 1 by simp)
    (show str.length < str.length + 2 by omega)
  refine ⟨out, hreturned, hlen, fun hoctal text => ⟨fun h => h.unique (hstands hoctal), ?_⟩⟩
  rintro rfl
  exact hstands hoctal

theorem unescape_decodes_header : ∃ out, unescape (bytes "A: \\101\n") = some (.returned out) ∧
    out.length ≤ (bytes "A: \\101\n").length ∧
      (Whole Octal (bytes "A: \\101\n") →
        ∀ text, Unescapes dropped (bytes "A: \\101\n") text ↔ text = out) :=
  unescape_decodes (by decide +kernel) (by simp [bytes, Whole])

/-- Copied with its backslash, an unknown escape stands for both characters. -/
theorem unescapes_x {str out : List Byte} (h : Unescapes (fun c => [92, c]) str out)
    (hstr : str = [92, 120]) :
    out = [92, 120] := by
  cases h with
  | nil => cases hstr
  | plain hc _ => exact absurd (List.cons.inj hstr).1 hc
  | backslash _ => cases hstr
  | a _ => cases hstr
  | r _ => cases hstr
  | n _ => cases hstr
  | octal hd _ =>
    cases hstr
    cases hd
  | unknown _ _ _ _ _ hrest =>
    cases hstr
    cases hrest
    rfl

/-- The backslash of an unknown escape is not copied. -/
theorem unknown_escape_is_dropped : ¬ ∀ str : List Byte, 0 ∉ str →
    ∃ out, unescape str = some (.returned out) ∧ Unescapes (fun c => [92, c]) str out := by
  intro h
  obtain ⟨out, hout, hcopied⟩ := h [92, 120] (by decide)
  have hdropped : unescape [92, 120] = some (.returned [120]) := by decide +kernel
  rw [unescapes_x hcopied rfl, hdropped] at hout
  cases hout

end Httperf.AddHeader
