-- The tags that embed an object, and what the scanner makes of them.
import Httperf.HtmlScan
import Httperf.Numeral

namespace Httperf.HtmlScan

open Lib.Transducer

/-! ## Tags -/

inductive Element where
  | img
  | frame
  | iframe
  | object
  deriving DecidableEq, Repr

def Element.name : Element → List Byte
  | .img => bytes "img"
  | .frame => bytes "frame"
  | .iframe => bytes "iframe"
  | .object => bytes "object"

/-- The attribute that names the object. -/
def Element.attr : Element → List Byte
  | .object => bytes "data="
  | _ => bytes "src="

/-- How a URI is written: in quotes, or without them and with a blank or the end of the tag behind
it. -/
inductive Written where
  | quoted
  | spaced (blank : Byte)
  | closed
  deriving DecidableEq, Repr

/-- A tag, with the text between its name and the attribute, and the text behind the URI. -/
structure Tag where
  element : Element
  name : List Byte
  blank : Byte
  before : List Byte
  attr : List Byte
  uri : List Byte
  written : Written
  after : List Byte

/-- Other attributes. -/
def Others (text : List Byte) : Prop :=
  60 ∉ text ∧ 62 ∉ text ∧ ¬ Mentions (bytes "src=") text ∧ ¬ Mentions (bytes "data=") text

/-- Letters can be of either case. In HTML there is no NUL. -/
structure Tag.WellFormed (tag : Tag) : Prop where
  name : tag.name.map tolower = tag.element.name
  blank : isspace tag.blank
  before : Others tag.before
  nul : tag.element = .object → 0 ∉ tag.before
  attr : tag.attr.map tolower = tag.element.attr
  uri : tag.uri ≠ [] ∧ tag.uri.length < BUF_SIZE ∧ ∀ c ∈ tag.uri, isspace c = false ∧
    c ≠ 34 ∧ c ≠ 62
  written : match tag.written with
    | .quoted => True
    | .spaced blank => isspace blank
    | .closed => tag.after = []
  after : Others tag.after

/-- The left quote of the URI. -/
def Tag.quote (tag : Tag) : List Byte :=
  match tag.written with
  | .quoted => [34]
  | _ => []

/-- The tag as far as to its URI. -/
def Tag.head (tag : Tag) : List Byte :=
  60 :: (tag.name ++ [tag.blank] ++ (tag.before ++ tag.attr) ++ tag.quote)

/-- The URI, and the character that ends it. -/
def Tag.value (tag : Tag) : List Byte :=
  match tag.written with
  | .quoted => tag.uri ++ [34]
  | .spaced blank => tag.uri ++ [blank]
  | .closed => tag.uri ++ [62]

/-- What is left of the tag. -/
def Tag.rest (tag : Tag) : List Byte :=
  match tag.written with
  | .closed => []
  | _ => tag.after ++ [62]

def Tag.text (tag : Tag) : List Byte := tag.head ++ tag.value ++ tag.rest

/-- The URI is fetched where it ends, nothing else is, and the scanner is ready for the next tag. -/
def Extracted (s : Scanner) (tag : Tag) : Prop :=
  ∀ lines, lines.flatten = tag.text →
    (recv s lines).1.state = .html ∧ (recv s lines).2 = [tag.uri] ∧
    (scan scan_char s (tag.head ++ tag.value)).2 = [tag.uri]

variable {s : Scanner} {tag : Tag}

/-! ## Outside of tags -/

theorem scan_html (hs : s.state = .html) {text : List Byte} (htext : 60 ∉ text) :
    (scan scan_char s text).1.state = .html ∧ (scan scan_char s text).2 = [] := by
  induction text generalizing s with
  | nil => exact ⟨hs, rfl⟩
  | cons ch text ih =>
    rw [List.mem_cons, not_or] at htext
    have hstep : scan_char s ch = ({ s with buf_len := 0, state := .html }, []) := by
      unfold scan_char
      rw [hs]
      dsimp only
      rw [if_neg (fun h => htext.1 h.symm)]
    obtain ⟨hstate, hout⟩ := ih (s := { s with buf_len := 0, state := .html }) rfl htext.2
    rw [scan_cons, hstep]
    exact ⟨hstate, hout⟩

/-- The name of a command is stored. -/
theorem scan_name (hs : s.Holds .cmd []) {name : List Byte}
    (hname : ∀ c ∈ name, isspace c = false ∧ c ≠ 61 ∧ c ≠ 62) (hlen : name.length ≤ BUF_SIZE) :
    (scan scan_char s name).1.Holds .cmd name ∧ (scan scan_char s name).2 = [] ∧
      ∀ i, name.length ≤ i → (scan scan_char s name).1.buf i = s.buf i := by
  have hstep : ∀ s ch, s.state = .cmd → s.buf_len < BUF_SIZE →
      isspace ch = false ∧ ch ≠ 61 ∧ ch ≠ 62 →
      scan_char s ch = (s.store ch, []) := by
    intro s ch hstate hroom hch
    unfold scan_char
    rw [hstate]
    dsimp only
    rw [if_neg (by simp [hch.1, hch.2.1]), if_neg hch.2.2, if_pos hroom]
  have h := scan_collect hstep hs hname (by simpa using hlen)
  simpa using h

/-- A blank ends the name. -/
theorem scan_name_blank {name : List Byte} (hs : s.Holds .cmd name) (hname : name ≠ [])
    {blank : Byte} (hblank : isspace blank) : (scan_char s blank).1.Holds s.command [] ∧
    (scan_char s blank).2 = [] := by
  have hpos : 0 < s.buf_len := by
    rw [hs.len]
    exact List.length_pos_iff.mpr hname
  have hstep : scan_char s blank = ({ s with state := s.command, buf_len := 0 }, []) := by
    unfold scan_char
    rw [hs.state]
    dsimp only
    rw [if_pos (.inl hblank), if_pos hpos]
  rw [hstep]
  exact ⟨holds_nil rfl rfl, rfl⟩

/-! ## The URI -/

theorem finish_uri {state : ScanState} {uri : List Byte} (hs : s.Holds state uri) {ch : Byte}
    (hend : state = .quoted_uri ∧ ch = 34 ∨ state = .naked_uri ∧ isspace ch) :
    (scan_char s ch).1.state = .html ∧ (scan_char s ch).2 = [uri] := by
  have hstep : scan_char s ch = ({ s with
      state := .html, buf_len := 0, buf := Function.update s.buf s.buf_len 0 },
      [s.token s.buf_len]) := by
    unfold scan_char
    rcases hend with ⟨rfl, hch⟩ | ⟨rfl, hch⟩
    · rw [hs.state]
      exact if_pos (.inl ⟨rfl, hch⟩)
    · rw [hs.state]
      exact if_pos (.inr ⟨rfl, hch⟩)
  rw [hstep, hs.len, hs.token]
  exact ⟨rfl, rfl⟩

/-- In quotes everything up to the next quote is stored. -/
theorem scan_quoted (hs : s.Holds .quoted_uri []) {uri : List Byte} (huri : 34 ∉ uri)
    (hlen : uri.length < BUF_SIZE) :
    (scan scan_char s (uri ++ [34])).1.state = .html ∧
      (scan scan_char s (uri ++ [34])).2 = [uri] := by
  have hstep : ∀ s ch, s.state = .quoted_uri → s.buf_len < BUF_SIZE - 1 → ch ≠ 34 →
      scan_char s ch = (s.store ch, []) := by
    intro s ch hstate hroom hch
    unfold scan_char
    rw [hstate]
    dsimp only
    rw [if_neg (by simp [hch]), if_pos hroom]
  obtain ⟨hholds, hout, -⟩ :=
    scan_collect hstep hs (fun c (hc : c ∈ uri) (h : c = 34) => huri (h ▸ hc))
    (by rw [List.length_nil]; omega)
  obtain ⟨hstate, hlast⟩ := finish_uri hholds (.inl ⟨rfl, rfl⟩)
  rw [scan_append, scan_singleton, hout]
  exact ⟨hstate, hlast⟩

/-- Without quotes everything up to the next blank is stored. -/
theorem scan_naked (hs : s.Holds .lquote []) {uri : List Byte} (hne : uri ≠ [])
    (huri : ∀ c ∈ uri, isspace c = false ∧ c ≠ 34) (hlen : uri.length < BUF_SIZE) :
    (scan scan_char s uri).1.Holds .naked_uri uri ∧ (scan scan_char s uri).2 = [] := by
  obtain ⟨first, more, rfl⟩ := List.exists_cons_of_ne_nil hne
  rw [List.forall_mem_cons] at huri
  have hstep : ∀ s ch, s.state = .naked_uri → s.buf_len < BUF_SIZE - 1 → isspace ch = false →
      scan_char s ch = (s.store ch, []) := by
    intro s ch hstate hroom hch
    unfold scan_char
    rw [hstate]
    dsimp only
    rw [if_neg (by simp [hch]), if_pos hroom]
  have hfirst :
      scan_char s first = (({ s with state := .naked_uri } : Scanner).store first, []) := by
    unfold scan_char
    rw [hs.state]
    dsimp only
    rw [if_neg huri.1.2, if_neg (by simp [huri.1.1])]
  have hnaked : ({ s with state := .naked_uri } : Scanner).Holds .naked_uri [] := ⟨rfl, hs.len, rfl⟩
  obtain ⟨hholds, hout, -⟩ := scan_collect hstep (hnaked.store first) (fun c hc => (huri.2 c hc).1)
    (by rw [List.length_cons] at hlen; simp; omega)
  rw [scan_cons, hfirst]
  exact ⟨hholds, hout⟩

/-! ## The head of a tag -/

/-- An occurrence ends in the first part, or it ends in the second one, which then begins with its
end or with more. -/
theorem mentions_append {name front tail : List Byte} (h : Mentions name (front ++ tail)) :
    Mentions name front ∨ ∃ c ∈ (tail.map tolower).inits, c ≠ [] ∧ (c <:+ name ∨ name <:+ c) := by
  obtain ⟨a, b, hab⟩ := h
  rw [List.map_append, List.append_eq_append_iff] at hab
  rcases hab with ⟨c, hfront, -⟩ | ⟨c, hname, htail⟩
  · exact .inl ⟨a, c, hfront.symm⟩
  · by_cases hc : c = []
    · rw [hc, List.append_nil] at hname
      exact .inl ⟨a, [], by rw [List.append_nil, hname]⟩
    · refine .inr ⟨c, by rw [List.mem_inits, htail]; exact List.prefix_append .., hc, ?_⟩
      have hsuffix : name <:+ front.map tolower ++ c := by
        rw [← hname]
        exact List.suffix_append ..
      rcases Nat.le_total c.length name.length with hle | hle
      · exact .inl (List.suffix_of_suffix_length_le (List.suffix_append ..) hsuffix hle)
      · exact .inr (List.suffix_of_suffix_length_le hsuffix (List.suffix_append ..) hle)

theorem name_char {c : Byte} (hc : tolower c ∈ bytes "imgframeobject") :
    isspace c = false ∧ c ≠ 61 ∧ c ≠ 62 ∧ c ≠ 0 := by
  revert c
  apply forall_byte
  decide +kernel

theorem mem_of_map_tolower {text lower : List Byte} (h : text.map tolower = lower) {c : Byte}
    (hc : c ∈ text) :
    tolower c ∈ lower := by
  rw [← h]
  exact List.mem_map_of_mem hc

theorem not_comment {name : List Byte} (hs : s.Holds .cmd name) {element : Element}
    (hname : name.map tolower = element.name) :
    ¬ (s.buf_len = 3 ∧ s.token 4 = bytes "!--" ++ [0]) := by
  rintro ⟨h3, h4⟩
  rw [hs.len] at h3
  rw [token_succ, ← h3, hs.token] at h4
  have hcomment := (List.append_inj h4 h3).1
  rw [hcomment] at hname
  cases element <;> exact absurd hname (by decide +kernel)

theorem command_src {name : List Byte} (hs : s.Holds .cmd name) {element : Element}
    (hobject : element ≠ .object) (hname : name.map tolower = element.name) : s.command = .src := by
  have hlen : name.length = element.name.length := by rw [← hname, List.length_map]
  have hbuf := hs.len
  have hlower : element.name.map tolower = element.name := by cases element <;> decide +kernel
  have heq : strncaseeq (s.token name.length) element.name = true := by
    rw [hs.token, strncaseeq_iff hlen, hname, hlower]
  unfold Scanner.command
  rw [if_neg (not_comment hs hname)]
  rw [hlen] at hbuf heq
  cases element with
  | object => exact absurd rfl hobject
  | frame => exact if_pos ⟨hbuf, heq⟩
  | iframe =>
    have h6 : s.buf_len = 6 := hbuf
    rw [if_neg (by omega)]
    exact if_pos ⟨hbuf, heq⟩
  | img =>
    have h3 : s.buf_len = 3 := hbuf
    rw [if_neg (by omega), if_neg (by omega), if_neg (by omega)]
    exact if_pos ⟨hbuf, heq⟩

/-- The name `object` is not known. -/
theorem command_object {name : List Byte} (hs : s.Holds .cmd name)
    (hname : name.map tolower = bytes "object") :
    s.command = .cmd := by
  have hlen : name.length = 6 := by rw [← List.length_map (f := tolower), hname]; rfl
  have hbuf := hs.len
  have htoken := hs.token
  rw [hlen] at hbuf htoken
  have hframe : ¬ strncaseeq name (bytes "iframe") = true := by
    rw [strncaseeq_iff hlen, hname]
    decide +kernel
  have hnul : 0 ∉ name := by
    intro h
    have := mem_of_map_tolower hname h
    exact absurd this (by decide +kernel)
  have hdata : ¬ strcaseeq (cstr name) (bytes "data") = true := by
    unfold strcaseeq
    rw [cstr_eq hnul, hname]
    decide +kernel
  unfold Scanner.command
  rw [if_neg (not_comment hs (show name.map tolower = Element.name .object from hname)),
    if_neg (by omega), htoken, if_neg (fun h => hframe h.2), if_neg (fun h => hdata h.2),
    if_neg (by omega)]

/-- The name of a tag and the blank behind it. -/
theorem scan_tag_name (hs : s.Holds .cmd []) (htag : tag.WellFormed) :
    (scan scan_char s (tag.name ++ [tag.blank])).1.Holds
      (if tag.element = .object then .cmd else .src) [] ∧
      (scan scan_char s (tag.name ++ [tag.blank])).2 = [] := by
  have hchars : ∀ c ∈ tag.name, isspace c = false ∧ c ≠ 61 ∧ c ≠ 62 := by
    intro c hc
    have hletter : tolower c ∈ bytes "imgframeobject" := by
      have hmem := mem_of_map_tolower htag.name hc
      have hall : ∀ element : Element, ∀ c ∈ element.name, c ∈ bytes "imgframeobject" := by
        intro element
        cases element <;> decide +kernel
      exact hall _ _ hmem
    obtain ⟨h1, h2, h3, -⟩ := name_char hletter
    exact ⟨h1, h2, h3⟩
  have hlen : tag.name.length = tag.element.name.length := by rw [← htag.name, List.length_map]
  have hsize : 0 < tag.element.name.length ∧ tag.element.name.length ≤ BUF_SIZE := by
    cases tag.element <;> decide +kernel
  obtain ⟨hholds, hout, -⟩ := scan_name hs hchars (by omega)
  obtain ⟨hnext, hout'⟩ := scan_name_blank hholds (List.length_pos_iff.mp (by omega)) htag.blank
  rw [scan_append, scan_singleton, hout]
  refine ⟨?_, hout'⟩
  by_cases hobject : tag.element = .object
  · rw [if_pos hobject]
    rwa [command_object hholds (by rw [htag.name, hobject]; rfl)] at hnext
  · rw [if_neg hobject]
    rwa [command_src hholds hobject htag.name] at hnext

/-- A command begins. -/
theorem scan_langle (hs : s.state = .html) :
    (scan_char s 60).1.Holds .cmd [] ∧ (scan_char s 60).2 = [] ∧
    (scan_char s 60).1.buf = s.buf := by
  have hstep : scan_char s 60 = ({ s with state := .cmd, buf_len := 0 }, []) := by
    unfold scan_char
    rw [hs]
    rfl
  rw [hstep]
  exact ⟨holds_nil rfl rfl, rfl, rfl⟩

/-- The name of the attribute is written in letters, with a `=` behind them. -/
theorem attr_split {attr : List Byte} (hattr : attr.map tolower = bytes "src=") :
    ∃ letters, attr = letters ++ [61] ∧ letters.map tolower = bytes "src" := by
  have hne : attr ≠ [] := by
    rintro rfl
    cases hattr
  obtain ⟨letters, last, rfl⟩ := List.eq_nil_or_concat attr |>.resolve_left hne
  rw [List.concat_eq_append, List.map_append] at hattr
  obtain ⟨hletters, hlast⟩ :=
    List.append_inj' (hattr.trans (show bytes "src=" = bytes "src" ++ [61] by decide)) rfl
  have hall : ∀ c : Byte, tolower c = 61 → c = 61 := by
    apply forall_byte
    decide +kernel
  have h61 := hall last (List.cons.inj hlast).1
  exact ⟨letters, by rw [List.concat_eq_append, h61], hletters⟩

/-- The window finds the attribute. -/
theorem scan_attr (hs : s.Holds .src []) (htag : tag.WellFormed) (hobject : tag.element ≠ .object) :
    (scan scan_char s (tag.before ++ tag.attr)).1.Holds .lquote [] ∧
      (scan scan_char s (tag.before ++ tag.attr)).2 = [] := by
  have hattr : tag.attr.map tolower = bytes "src=" := by
    rw [htag.attr]
    cases helement : tag.element <;> first | rfl | exact absurd helement hobject
  obtain ⟨letters, hsplit, hletters⟩ := attr_split hattr
  have hstep : ∀ s ch, s.state = .src → scan_char s ch = (s.search (bytes "src=") ch, []) := by
    intro s ch hstate
    unfold scan_char
    rw [hstate]
  have hrangle : 62 ∉ tag.before ++ letters := by
    rw [List.mem_append, not_or]
    refine ⟨htag.before.2.1, fun h => ?_⟩
    have hmem := mem_of_map_tolower hletters h
    exact absurd hmem (by decide +kernel)
  have hfree : ¬ Mentions (bytes "src=") (tag.before ++ letters) := by
    intro h
    rcases mentions_append h with h | ⟨c, hc, hne, hoverlap⟩
    · exact htag.before.2.2.1 h
    · rw [hletters] at hc
      have hnone : ∀ c ∈ (bytes "src").inits, c ≠ [] →
          ¬ (c <:+ bytes "src=" ∨ bytes "src=" <:+ c) := by
        decide +kernel
      exact hnone c hc hne hoverlap
  have hlen : letters.length = 3 := by rw [← List.length_map (f := tolower), hletters]; rfl
  obtain ⟨hholds, hout⟩ :=
    scan_search (show 0 < (bytes "src=").length by decide) (by decide +kernel) hstep hs hrangle
    hfree
  have hname : (bytes "src=").length - 1 = 3 := by decide
  have hwindow : (tag.before ++ letters).drop
      ((tag.before ++ letters).length - ((bytes "src=").length - 1)) =
      letters := by
    rw [hname, List.length_append, hlen, Nat.add_sub_cancel, List.drop_left]
  rw [hwindow] at hholds
  have hfound :
      (Scanner.search (bytes "src=") (scan scan_char s (tag.before ++ letters)).1 61).Holds .lquote
        [] := by
    apply search_found hholds (by decide)
    · rw [hlen]
      decide
    · rw [← hsplit, hattr]
      decide +kernel
  rw [hsplit, ← List.append_assoc, scan_append, scan_singleton, hstep _ _ hholds.state, hout]
  exact ⟨hfound, rfl⟩

/-! ## The tags whose objects are found -/

/-- Up to the URI. -/
theorem scan_head (hs : s.state = .html) (htag : tag.WellFormed) (hobject : tag.element ≠ .object) :
    (scan scan_char s tag.head).1.Holds
        (if tag.written = .quoted then .quoted_uri else .lquote) [] ∧
      (scan scan_char s tag.head).2 = [] := by
  obtain ⟨hcmd, hopen, -⟩ := scan_langle hs
  obtain ⟨hname, hout⟩ := scan_tag_name hcmd htag
  rw [if_neg hobject] at hname
  obtain ⟨hattr, hout'⟩ := scan_attr hname htag hobject
  unfold Tag.head Tag.quote
  rw [scan_cons, scan_append, scan_append, hopen, hout, hout']
  cases hwritten : tag.written with
  | quoted =>
    have hquote {t : Scanner} (ht : t.Holds .lquote []) :
        scan_char t 34 = ({ t with state := .quoted_uri }, []) := by
      unfold scan_char
      rw [ht.state]
      rfl
    rw [scan_singleton, hquote hattr]
    exact ⟨⟨rfl, hattr.len, rfl⟩, rfl⟩
  | spaced blank => exact ⟨hattr, rfl⟩
  | closed => exact ⟨hattr, rfl⟩

theorem scan_value (hs : s.Holds (if tag.written = .quoted then .quoted_uri else .lquote) [])
    (htag : tag.WellFormed) (hclosed : tag.written ≠ .closed) :
    (scan scan_char s tag.value).1.state = .html ∧ (scan scan_char s tag.value).2 = [tag.uri] := by
  obtain ⟨hne, hlen, huri⟩ := htag.uri
  have hwell := htag.written
  unfold Tag.value
  cases hwritten : tag.written with
  | quoted =>
    rw [hwritten, if_pos rfl] at hs
    exact scan_quoted hs (fun h => (huri 34 h).2.1 rfl) hlen
  | spaced blank =>
    rw [hwritten, if_neg (by simp)] at hs
    rw [hwritten] at hwell
    obtain ⟨hholds, hout⟩ := scan_naked hs hne (fun c hc => ⟨(huri c hc).1, (huri c hc).2.1⟩) hlen
    obtain ⟨hstate, hlast⟩ := finish_uri hholds (.inr ⟨rfl, hwell⟩)
    dsimp only
    rw [scan_append, scan_singleton, hout]
    exact ⟨hstate, hlast⟩
  | closed => exact absurd hwritten hclosed

/-- An unquoted URI does not end at the end of the tag. -/
theorem scan_closed (hs : s.Holds .lquote []) (htag : tag.WellFormed)
    (hclosed : tag.written = .closed) :
    (scan scan_char s tag.value).2 = [] := by
  obtain ⟨hne, hlen, huri⟩ := htag.uri
  obtain ⟨hholds, hout⟩ := scan_naked hs hne (fun c hc => ⟨(huri c hc).1, (huri c hc).2.1⟩) hlen
  have hstep {t : Scanner} (ht : t.state = .naked_uri) : (scan_char t 62).2 = [] := by
    unfold scan_char
    rw [ht]
    rfl
  unfold Tag.value
  rw [hclosed]
  dsimp only
  rw [scan_append, scan_singleton, hout, hstep hholds.state]
  rfl

theorem extracted_of_found (hs : s.state = .html) (htag : tag.WellFormed)
    (hobject : tag.element ≠ .object) (hclosed : tag.written ≠ .closed) : Extracted s tag := by
  intro lines hlines
  obtain ⟨hhead, hout⟩ := scan_head hs htag hobject
  obtain ⟨hvalue, hout'⟩ := scan_value hhead htag hclosed
  have hrest : 60 ∉ tag.rest := by
    unfold Tag.rest
    cases tag.written with
    | closed => simp
    | _ =>
      rw [List.mem_append, not_or]
      exact ⟨htag.after.1, by decide⟩
  obtain ⟨hstate, hout''⟩ := scan_html hvalue hrest
  rw [recv_eq, hlines]
  unfold Tag.text
  rw [scan_append, scan_append, hout, hout', hout'']
  exact ⟨hstate, rfl, rfl⟩

/-! ## The tags whose objects are not found -/

/-- Nothing has been fetched, and no attribute has been found: what the window holds was read last,
and the name of a command has no NUL. -/
def Idle (text : List Byte) (s : Scanner) : Prop :=
  match s.state with
  | .cmd => 0 ∉ s.token s.buf_len
  | .src => s.buf_len < 4 ∧ s.token s.buf_len <:+ text
  | .data | .lquote | .naked_uri | .quoted_uri => False
  | _ => True

theorem holds_self (s : Scanner) : s.Holds s.state (s.token s.buf_len) :=
  ⟨rfl, (token_length ..).symm, by rw [token_length]⟩

theorem Scanner.Holds.idle_cmd {text name : List Byte} (h : s.Holds .cmd name) (hnul : 0 ∉ name) :
    Idle text s := by
  unfold Idle
  rw [h.state]
  dsimp only
  rw [h.len, h.token]
  exact hnul

theorem Scanner.Holds.idle_src {text window : List Byte} (h : s.Holds .src window)
    (hlen : window.length < 4) (hsuffix : window <:+ text) : Idle text s := by
  unfold Idle
  rw [h.state]
  dsimp only
  rw [h.len, h.token]
  exact ⟨hlen, hsuffix⟩

/-- A name without a NUL does not lead to `P_DATA`. -/
theorem command_ne_data (hnul : 0 ∉ s.token s.buf_len) :
    s.command = .dash_one ∨ s.command = .src ∨ s.command = .cmd := by
  unfold Scanner.command
  split_ifs with h1 h2 h3 h4 h5
  · exact .inl rfl
  · exact .inr (.inl rfl)
  · exact .inr (.inl rfl)
  · have hlen := congrArg List.length (beq_iff_eq.mp h4.2)
    rw [h4.1] at hnul
    rw [cstr_eq hnul, List.length_map, token_length, List.length_map] at hlen
    exact absurd hlen (by decide)
  · exact .inr (.inl rfl)
  · exact .inr (.inr rfl)

theorem scan_idle_cmd {text : List Byte} (hs : s.state = .cmd) (hidle : 0 ∉ s.token s.buf_len)
    {ch : Byte} (hch : ch ≠ 0) :
    Idle (text ++ [ch]) (scan_char s ch).1 ∧ (scan_char s ch).2 = [] := by
  unfold scan_char
  rw [hs]
  dsimp only
  split_ifs with hend hpos hrangle hroom
  · refine ⟨?_, rfl⟩
    rcases command_ne_data hidle with h | h | h <;> rw [h]
    · trivial
    · exact (holds_nil rfl rfl : Scanner.Holds _ .src []).idle_src (by decide) (List.nil_suffix ..)
    · exact (holds_nil rfl rfl : Scanner.Holds _ .cmd []).idle_cmd (by simp)
  · exact ⟨trivial, rfl⟩
  · exact ⟨trivial, rfl⟩
  · have hstore := (holds_self s).store ch
    rw [hs] at hstore
    refine ⟨hstore.idle_cmd ?_, rfl⟩
    rw [List.mem_append, not_or]
    exact ⟨hidle, by simpa using hch.symm⟩
  · have hself := holds_self s
    rw [hs] at hself
    exact ⟨hself.idle_cmd hidle, rfl⟩

theorem scan_idle_src {text : List Byte} (hs : s.state = .src)
    (hidle : s.buf_len < 4 ∧ s.token s.buf_len <:+ text) {ch : Byte}
    (hfree : ¬ Mentions (bytes "src=") (text ++ [ch])) :
    Idle (text ++ [ch]) (scan_char s ch).1 ∧ (scan_char s ch).2 = [] := by
  have hself := holds_self s
  rw [hs] at hself
  have hwindow : (s.token s.buf_len).length = s.buf_len := token_length ..
  have hsuffix : s.token s.buf_len ++ [ch] <:+ text ++ [ch] :=
    List.suffix_append_self_iff.mpr hidle.2
  have hstep : scan_char s ch = (s.search (bytes "src=") ch, []) := by
    unfold scan_char
    rw [hs]
  rw [hstep]
  refine ⟨?_, rfl⟩
  by_cases hch : ch = 62
  · unfold Scanner.search
    rw [if_pos hch]
    trivial
  · by_cases hfull : (s.token s.buf_len).length + 1 = (bytes "src=").length
    · have hother : (s.token s.buf_len ++ [ch]).map tolower ≠ (bytes "src=").map tolower := by
        intro heq
        apply hfree
        unfold Mentions
        rw [show bytes "src=" = (bytes "src=").map tolower by decide +kernel, ← heq]
        exact (hsuffix.map tolower).isInfix
      have hslide := search_slide hself hch hfull hother
      apply hslide.idle_src
      · rw [List.length_tail, List.length_append, List.length_singleton, hwindow]
        exact hidle.1
      · exact (List.tail_suffix _).trans hsuffix
    · have hfill := search_fill hself hch hfull
      apply hfill.idle_src
      · rw [List.length_append, List.length_singleton]
        rw [hwindow] at hfull ⊢
        have hname : (bytes "src=").length = 4 := by decide
        omega
      · exact hsuffix

theorem scan_idle {text : List Byte} (hs : Idle [] s) (hnul : 0 ∉ text)
    (hfree : ¬ Mentions (bytes "src=") text) :
    Idle text (scan scan_char s text).1 ∧ (scan scan_char s text).2 = [] := by
  induction text using List.reverseRecOn with
  | nil => exact ⟨hs, rfl⟩
  | append_singleton text ch ih =>
    rw [List.mem_append, not_or, List.mem_singleton] at hnul
    obtain ⟨hidle, hout⟩ := ih hnul.1 (fun h => hfree h.append_right)
    rw [scan_append, scan_singleton, hout]
    generalize (scan scan_char s text).1 = t at hidle
    cases hstate : t.state with
    | cmd =>
      unfold Idle at hidle
      rw [hstate] at hidle
      exact scan_idle_cmd hstate hidle (fun h => hnul.2 h.symm)
    | src =>
      unfold Idle at hidle
      rw [hstate] at hidle
      exact scan_idle_src hstate hidle hfree
    | data | lquote | naked_uri | quoted_uri =>
      unfold Idle at hidle
      rw [hstate] at hidle
      cases hidle
    | html =>
      unfold scan_char
      rw [hstate]
      refine ⟨?_, rfl⟩
      dsimp only
      split_ifs
      · exact (holds_nil rfl rfl : Scanner.Holds _ .cmd []).idle_cmd (by simp)
      · trivial
    | initial =>
      unfold scan_char
      rw [hstate]
      refine ⟨?_, rfl⟩
      unfold Idle
      rw [hstate]
      trivial
    | dash_one | dash_two | rangle =>
      unfold scan_char
      rw [hstate]
      refine ⟨?_, rfl⟩
      dsimp only
      split_ifs <;> simp [Idle, hstate]

/-- Up to the URI of an object nothing is found. -/
theorem scan_object_head (hs : s.state = .html) (htag : tag.WellFormed)
    (hobject : tag.element = .object) :
    ∃ text, Idle text (scan scan_char s tag.head).1 ∧ (scan scan_char s tag.head).2 = [] := by
  obtain ⟨hcmd, hopen, -⟩ := scan_langle hs
  obtain ⟨hname, hout⟩ := scan_tag_name hcmd htag
  rw [if_pos hobject] at hname
  have hattr : tag.attr.map tolower = bytes "data=" := by
    rw [htag.attr, hobject]
    rfl
  have hquote : tag.quote = [34] ∨ tag.quote = [] := by
    unfold Tag.quote
    cases tag.written <;> simp
  have hhead :
      tag.head = 60 :: (tag.name ++ [tag.blank] ++ (tag.before ++ (tag.attr ++ tag.quote))) := by
    unfold Tag.head
    simp only [List.append_assoc]
  generalize tag.quote = quote at hquote hhead
  have hnul : 0 ∉ tag.before ++ (tag.attr ++ quote) := by
    rw [List.mem_append, List.mem_append, not_or, not_or]
    refine ⟨htag.nul hobject, fun h => ?_, ?_⟩
    · exact absurd (mem_of_map_tolower hattr h) (by decide +kernel)
    · rcases hquote with rfl | rfl <;> decide
  have hfree : ¬ Mentions (bytes "src=") (tag.before ++ (tag.attr ++ quote)) := by
    intro h
    rcases mentions_append h with h | ⟨c, hc, hne, hoverlap⟩
    · exact htag.before.2.2.1 h
    · rw [List.map_append, hattr] at hc
      have hnone : ∀ quote ∈ [[34], ([] : List Byte)],
          ∀ c ∈ (bytes "data=" ++ quote.map tolower).inits, c ≠ [] →
          ¬ (c <:+ bytes "src=" ∨ bytes "src=" <:+ c) := by
        decide +kernel
      exact hnone quote (by rcases hquote with rfl | rfl <;> decide) c hc hne hoverlap
  obtain ⟨hidle, hout'⟩ := scan_idle (hname.idle_cmd (by simp)) hnul hfree
  rw [hhead, scan_cons, scan_append, hopen, hout]
  exact ⟨_, hidle, hout'⟩

def ScanState.reads_uri : ScanState → Bool
  | .lquote | .naked_uri | .quoted_uri => true
  | _ => false

/-- Of `n` characters, a URI that is being read has one less, and a URI that was fetched has two
less. -/
structure Late (n : Nat) (s : Scanner) (out : List (List Byte)) : Prop where
  out : ∀ uri ∈ out, uri.length + 2 ≤ n
  lquote : s.state = .lquote → s.buf_len = 0 ∧ 1 ≤ n
  uri : s.state = .naked_uri ∨ s.state = .quoted_uri → s.buf_len + 1 ≤ n

theorem late_of_outside {n : Nat} {out : List (List Byte)} (hout : ∀ uri ∈ out, uri.length + 2 ≤ n)
    (hs : s.state.reads_uri = false) : Late n s out := by
  refine ⟨hout, fun h => ?_, fun h => ?_⟩
  · rw [h] at hs
    cases hs
  · rcases h with h | h <;> rw [h] at hs <;> cases hs

theorem command_outside (s : Scanner) : s.command.reads_uri = false := by
  unfold Scanner.command
  split_ifs <;> rfl

theorem search_late {n : Nat} {out : List (List Byte)} (hout : ∀ uri ∈ out, uri.length + 2 ≤ n + 1)
    (hs : s.state.reads_uri = false) (name : List Byte) (ch : Byte) :
    Late (n + 1) (s.search name ch) out := by
  unfold Scanner.search
  split_ifs with hend
  · exact late_of_outside hout rfl
  · dsimp only
    split_ifs
    · exact ⟨hout, fun _ => ⟨rfl, Nat.succ_le_succ (Nat.zero_le n)⟩,
        fun h => by rcases h with h | h <;> cases h⟩
    · exact late_of_outside hout hs
    · exact late_of_outside hout hs

/-- A character of a URI is stored, or there is no room for it. -/
theorem late_store {n : Nat} {out : List (List Byte)} (h : Late n s out)
    (hs : s.state = .naked_uri ∨ s.state = .quoted_uri) (ch : Byte) :
    Late (n + 1) (if s.buf_len < BUF_SIZE - 1 then s.store ch else s) out := by
  have hlen := h.uri hs
  have hout : ∀ uri ∈ out, uri.length + 2 ≤ n + 1 :=
    fun uri huri => (h.out uri huri).trans (Nat.le_succ n)
  have hno : s.state ≠ .lquote := by rcases hs with hs | hs <;> rw [hs] <;> decide
  split_ifs
  · exact ⟨hout, fun h => absurd h hno, fun _ => Nat.succ_le_succ hlen⟩
  · exact ⟨hout, fun h => absurd h hno, fun _ => hlen.trans (Nat.le_succ n)⟩

theorem late_fetch {n : Nat} {out : List (List Byte)} (h : Late n s out)
    (hs : s.state = .naked_uri ∨ s.state = .quoted_uri) {t : Scanner} (ht : t.state = .html) :
    Late (n + 1) t (out ++ [s.token s.buf_len]) := by
  have hlen := h.uri hs
  apply late_of_outside
  · intro uri huri
    rcases List.mem_append.mp huri with huri | huri
    · exact (h.out uri huri).trans (Nat.le_succ n)
    · rw [List.mem_singleton.mp huri, token_length]
      omega
  · rw [ht]
    rfl

theorem scan_late {n : Nat} {out : List (List Byte)} (h : Late n s out) (ch : Byte) :
    Late (n + 1) (scan_char s ch).1 (out ++ (scan_char s ch).2) := by
  have hout : ∀ uri ∈ out, uri.length + 2 ≤ n + 1 :=
    fun uri huri => (h.out uri huri).trans (Nat.le_succ n)
  have hquiet (hnone : (scan_char s ch).2 = [])
      (hnext : (scan_char s ch).1.state.reads_uri = false) :
      Late (n + 1) (scan_char s ch).1 (out ++ (scan_char s ch).2) := by
    rw [hnone, List.append_nil]
    exact late_of_outside hout hnext
  cases hs : s.state with
  | src | data =>
    unfold scan_char
    rw [hs]
    dsimp only
    rw [List.append_nil]
    exact search_late hout (by rw [hs]; rfl) _ ch
  | lquote =>
    obtain ⟨hlen, hn⟩ := h.lquote hs
    unfold scan_char
    rw [hs]
    dsimp only
    rw [List.append_nil]
    split_ifs
    · refine ⟨hout, (fun h => by cases h), fun _ => ?_⟩
      change s.buf_len + 1 ≤ n + 1
      omega
    · refine ⟨hout, fun _ => ⟨hlen, hn.trans (Nat.le_succ n)⟩, fun h => ?_⟩
      rw [hs] at h
      rcases h with h | h <;> cases h
    · refine ⟨hout, (fun h => by cases h), fun _ => ?_⟩
      change s.buf_len + 1 + 1 ≤ n + 1
      omega
  | naked_uri | quoted_uri =>
    have huri : s.state = .naked_uri ∨ s.state = .quoted_uri := by simp [hs]
    have hcases : (scan_char s ch).1.state = .html ∧ (scan_char s ch).2 = [s.token s.buf_len] ∨
        scan_char s ch = (if s.buf_len < BUF_SIZE - 1 then s.store ch else s, []) := by
      unfold scan_char
      rw [hs]
      dsimp only
      split
      · exact .inl ⟨rfl, rfl⟩
      · exact .inr rfl
    rcases hcases with ⟨hstate, hfetch⟩ | hstore
    · rw [hfetch]
      exact late_fetch h huri hstate
    · rw [hstore, List.append_nil]
      exact late_store h huri ch
  | cmd =>
    apply hquiet <;> unfold scan_char <;> rw [hs] <;> dsimp only
    · split_ifs <;> rfl
    · split_ifs
      · exact command_outside s
      · rfl
      · rfl
      · exact (congrArg ScanState.reads_uri hs).trans rfl
      · exact (congrArg ScanState.reads_uri hs).trans rfl
  | initial =>
    apply hquiet <;> unfold scan_char <;> rw [hs]
    exact (congrArg ScanState.reads_uri hs).trans rfl
  | html | dash_two =>
    apply hquiet <;> unfold scan_char <;> rw [hs]
    dsimp only
    split_ifs <;> rfl
  | dash_one | rangle =>
    apply hquiet <;> unfold scan_char <;> rw [hs]
    dsimp only
    split_ifs
    · rfl
    · exact (congrArg ScanState.reads_uri hs).trans rfl

/-- The object of an `object` tag is not fetched by the end of its URI. -/
theorem scan_object_value (hs : s.state = .html) (htag : tag.WellFormed)
    (hobject : tag.element = .object) :
    (scan scan_char s (tag.head ++ tag.value)).2 ≠ [tag.uri] := by
  obtain ⟨text, hidle, hout⟩ := scan_object_head hs htag hobject
  have houtside : (scan scan_char s tag.head).1.state.reads_uri = false := by
    unfold Idle at hidle
    cases hstate : (scan scan_char s tag.head).1.state <;> rw [hstate] at hidle <;>
      first | rfl | cases hidle
  have hlate := scan_induction (P := fun as t out => Late as.length t out)
    (late_of_outside (by simp) houtside)
    (fun as a t out h => by
      rw [List.length_append]
      exact scan_late h a) tag.value
  have hlen : tag.value.length = tag.uri.length + 1 := by
    unfold Tag.value
    cases tag.written <;> simp
  rw [scan_append, hout, List.nil_append]
  intro heq
  rw [heq, hlen] at hlate
  have := hlate.out tag.uri (List.mem_singleton_self _)
  omega

/-! ## What is extracted -/

/-- Neither are the objects of `object` tags fetched, nor those of an unquoted URI that the tag ends
with. The text in front of the tag is in the state `s`, which is any one in `html`, and the scanner
is in `html` again behind the tag, whatever text follows. -/
theorem extracted_iff (tag : Tag) (hs : s.state = .html) (htag : tag.WellFormed) :
    Extracted s tag ↔ tag.element ≠ .object ∧ tag.written ≠ .closed := by
  constructor
  · intro h
    have hvalue := (h [tag.text] (by simp)).2.2
    have hobject : tag.element ≠ .object := fun hobject => scan_object_value hs htag hobject hvalue
    refine ⟨hobject, fun hclosed => ?_⟩
    obtain ⟨hhead, hout⟩ := scan_head hs htag hobject
    rw [if_neg (by rw [hclosed]; decide)] at hhead
    rw [scan_append, hout, scan_closed hhead htag hclosed] at hvalue
    cases hvalue
  · rintro ⟨hobject, hclosed⟩
    exact extracted_of_found hs htag hobject hclosed

/-- `<IMG alt="" src="/a.gif" width=1>`. -/
theorem extracted_iff_image :
    Extracted fresh ⟨.img, bytes "IMG", 32, bytes "alt=\"\" ", bytes "src=", bytes "/a.gif",
      .quoted, bytes " width=1"⟩ ↔
      Element.img ≠ .object ∧ Written.quoted ≠ .closed :=
  extracted_iff ⟨.img, bytes "IMG", 32, bytes "alt=\"\" ", bytes "src=", bytes "/a.gif", .quoted,
    bytes " width=1"⟩ rfl
    { name := by decide +kernel
      blank := by decide
      before := by unfold Others Mentions; decide +kernel
      nul := by decide +kernel
      attr := by decide +kernel
      uri := by decide +kernel
      written := trivial
      after := by unfold Others Mentions; decide +kernel }

/-- `<object data="/a.swf">`. -/
theorem an_object_is_not_fetched :
    ¬ Extracted fresh
      ⟨.object, bytes "object", 32, [], bytes "data=", bytes "/a.swf", .quoted, []⟩ := by
  intro h
  have hfetched := (h [bytes "<object data=\"/a.swf\">"] (by decide +kernel)).2.1
  have hnone : (recv fresh [bytes "<object data=\"/a.swf\">"]).2 = [] := by decide +kernel
  rw [hnone] at hfetched
  cases hfetched

end Httperf.HtmlScan
