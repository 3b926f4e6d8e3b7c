-- The requests on the wire (`call.h`, `call.c`, and `core_send` of `core.c`). The modules fill in a
-- call with the macros of `call.h`, in any order, and `writev` sends the pieces of `req.iov` one
-- behind the other. A server reads the same request back from these bytes, also when many of them
-- follow each other.
import Httperf.Lib.Codec
import Httperf.Decoder
import Httperf.Pipeline
import Httperf.ReplyWire

namespace Httperf

open Codec

/-! ## Filling in a call -/

theorem IE_LOC_lt : IE_LOC < IE_LEN := by decide
theorem IE_URI_lt : IE_URI < IE_LEN := by decide
theorem IE_CONTENT_lt : IE_CONTENT < IE_LEN := by decide

def call_set_method (c : Call) (method : List Byte) : Call :=
  { c with req.iov := c.req.iov.set IE_METHOD (some method) IE_METHOD_lt }

def call_set_location (c : Call) (loc : List Byte) : Call :=
  { c with req.iov := c.req.iov.set IE_LOC (some loc) IE_LOC_lt }

def call_set_uri (c : Call) (uri : List Byte) : Call :=
  { c with req.iov := c.req.iov.set IE_URI (some uri) IE_URI_lt }

def call_set_contents (c : Call) (content : List Byte) : Call :=
  { c with req.iov := c.req.iov.set IE_CONTENT (some content) IE_CONTENT_lt }

/-- The first field is what is returned. -/
def call_append_request_header (c : Call) (hdr : List Byte) : Int × Call :=
  let num_hdrs := c.req.num_extra_hdrs
  if MAX_EXTRA_HEADERS ≤ num_hdrs then (-1, c)
  else
    (0, { c with
      req.iov := c.req.iov.setIfInBounds (IE_FIRST_HEADER + num_hdrs) (some hdr)
      req.num_extra_hdrs := num_hdrs + 1 })

/-- The bytes of a row of header lines. -/
def headerText (lines : List (List Byte)) : List Byte := (lines.map crlf).flatten

/-- What a module sets in a call. -/
inductive Setting where
  | method (method : List Byte)
  | location (loc : List Byte)
  | uri (uri : List Byte)
  | header (lines : List (List Byte))
  | contents (content : List Byte)

def Setting.apply (c : Call) : Setting → Call
  | .method m => call_set_method c m
  | .location l => call_set_location c l
  | .uri u => call_set_uri c u
  | .header lines => (call_append_request_header c (headerText lines)).2
  | .contents b => call_set_contents c b

/-! ## What has been set -/

/-- The request that a row of settings stands for. -/
structure Asked where
  method : List Byte
  location : Iovec
  uri : Iovec
  headers : List (List (List Byte))
  contents : Iovec

def Asked.default : Asked := ⟨bytes "GET", none, none, [], none⟩

/-- A header is left out when the places for headers are taken. -/
def Asked.set (a : Asked) : Setting → Asked
  | .method m => { a with method := m }
  | .location l => { a with location := some l }
  | .uri u => { a with uri := some u }
  | .header lines =>
    if a.headers.length < MAX_EXTRA_HEADERS then { a with headers := a.headers ++ [lines] } else a
  | .contents b => { a with contents := some b }

/-- The places for headers. -/
def Asked.headerSlots (a : Asked) : List Iovec :=
  a.headers.map (fun lines => some (headerText lines)) ++
    List.replicate (MAX_EXTRA_HEADERS - a.headers.length) none

/-- The array `req.iov` with these settings. -/
def Asked.slots (a : Asked) (protl host : Iovec) : List Iovec :=
  [some a.method, some (bytes " "), a.location, a.uri, protl, host, some [CR, LF]] ++
    (a.headerSlots ++ [some [CR, LF], a.contents])

/-- The call stands for these settings. -/
structure Filling (c : Call) (a : Asked) (protl host : Iovec) : Prop where
  slots : c.req.iov.toList = a.slots protl host
  num : c.req.num_extra_hdrs = a.headers.length
  few : a.headers.length ≤ MAX_EXTRA_HEADERS

theorem filling_init (id http_version : Nat) :
    Filling (call_init id http_version) Asked.default none none := ⟨rfl, rfl, by decide⟩

theorem headerSlots_length {a : Asked} (h : a.headers.length ≤ MAX_EXTRA_HEADERS) :
    a.headerSlots.length = MAX_EXTRA_HEADERS := by
  unfold Asked.headerSlots
  rw [List.length_append, List.length_map, List.length_replicate]
  omega

/-- The next header takes the first free place. -/
theorem headerSlots_set {a : Asked} (lines : List (List Byte))
    (h : a.headers.length < MAX_EXTRA_HEADERS) :
    a.headerSlots.set a.headers.length (some (headerText lines)) =
      (a.set (.header lines)).headerSlots := by
  obtain ⟨k, hk⟩ := Nat.exists_eq_add_of_lt h
  have hfree : MAX_EXTRA_HEADERS - a.headers.length = k + 1 := by omega
  have hleft : MAX_EXTRA_HEADERS - (a.headers.length + 1) = k := by omega
  unfold Asked.set Asked.headerSlots
  dsimp only
  rw [if_pos h, hfree, List.replicate_succ, List.set_append_right _ _ (by simp)]
  simp [hleft]

theorem Filling.setting {c : Call} {a : Asked} {protl host : Iovec} (h : Filling c a protl host)
    (s : Setting) : Filling (s.apply c) (a.set s) protl host := by
  obtain ⟨hslots, hnum, hfew⟩ := h
  cases s with
  | method m =>
    refine ⟨?_, hnum, hfew⟩
    rw [Setting.apply, call_set_method, Vector.toList_set, hslots]
    rfl
  | location l =>
    refine ⟨?_, hnum, hfew⟩
    rw [Setting.apply, call_set_location, Vector.toList_set, hslots]
    rfl
  | uri u =>
    refine ⟨?_, hnum, hfew⟩
    rw [Setting.apply, call_set_uri, Vector.toList_set, hslots]
    rfl
  | contents b =>
    refine ⟨?_, hnum, hfew⟩
    have hlen := headerSlots_length hfew
    rw [Setting.apply, call_set_contents, Vector.toList_set, hslots]
    unfold Asked.slots
    have hplace : IE_CONTENT = 7 + (MAX_EXTRA_HEADERS + 1) := by decide
    rw [hplace, List.set_append_right _ _ (by simp), List.set_append_right _ _ (by simp [hlen]),
      List.length_cons, hlen]
    rfl
  | header lines =>
    rcases Nat.lt_or_ge a.headers.length MAX_EXTRA_HEADERS with hlt | hge
    · have hset : a.set (.header lines) = { a with headers := a.headers ++ [lines] } := if_pos hlt
      have happ : Setting.apply c (.header lines) = { c with
          req.iov := c.req.iov.setIfInBounds (IE_FIRST_HEADER + c.req.num_extra_hdrs)
            (some (headerText lines))
          req.num_extra_hdrs := c.req.num_extra_hdrs + 1 } := by
        unfold Setting.apply call_append_request_header
        dsimp only
        rw [if_neg (by omega)]
      refine ⟨?_, ?_, ?_⟩
      · have hlen := headerSlots_length hfew
        rw [happ]
        dsimp only
        rw [Vector.toList_setIfInBounds, hslots, hnum]
        unfold Asked.slots
        rw [List.set_append_right _ _ (by simp [IE_FIRST_HEADER]),
          List.set_append_left _ _ (by simp [IE_FIRST_HEADER, hlen, hlt])]
        have hplace : IE_FIRST_HEADER + a.headers.length -
            [some a.method, some (bytes " "), a.location, a.uri, protl, host,
              some [CR, LF]].length =
              a.headers.length := by simp [IE_FIRST_HEADER]
        rw [hplace, headerSlots_set lines hlt, hset]
      · rw [happ, hset]
        simp [hnum]
      · rw [hset]
        simpa using hlt
    · have hset : a.set (.header lines) = a := if_neg (by omega)
      have happ : Setting.apply c (.header lines) = c := by
        unfold Setting.apply call_append_request_header
        dsimp only
        rw [if_pos (by omega)]
      rw [hset, happ]
      exact ⟨hslots, hnum, hfew⟩

theorem Filling.settings {c : Call} {a : Asked} {protl host : Iovec} (h : Filling c a protl host)
    (ss : List Setting) : Filling (ss.foldl Setting.apply c) (ss.foldl Asked.set a) protl host := by
  induction ss generalizing c a with
  | nil => exact h
  | cons s ss ih => exact ih (h.setting s)

/-- The settings leave the rest of the call as it is. -/
theorem setting_frame (c : Call) (s : Setting) :
    (s.apply c).id = c.id ∧ (s.apply c).reply = c.reply ∧
      (s.apply c).req.version = c.req.version := by
  cases s with
  | header lines =>
    unfold Setting.apply call_append_request_header
    dsimp only
    split <;> exact ⟨rfl, rfl, rfl⟩
  | _ => exact ⟨rfl, rfl, rfl⟩

theorem settings_frame (c : Call) (ss : List Setting) :
    (ss.foldl Setting.apply c).id = c.id ∧ (ss.foldl Setting.apply c).reply = c.reply ∧
      (ss.foldl Setting.apply c).req.version = c.req.version := by
  induction ss generalizing c with
  | nil => exact ⟨rfl, rfl, rfl⟩
  | cons s ss ih =>
    obtain ⟨h1, h2, h3⟩ := ih (s.apply c)
    obtain ⟨g1, g2, g3⟩ := setting_frame c s
    exact ⟨h1.trans g1, h2.trans g2, h3.trans g3⟩

/-! ## A request as a server reads it -/

structure HttpRequest where
  method : List Byte
  target : List Byte
  version : List Byte
  headers : List (List Byte)
  content : List Byte
  deriving DecidableEq, Repr

/-- A line, without its line end. -/
def line : Dec Byte (List Byte) := Codec.map chop cutLine

/-- The lines up to the empty one. -/
def headerLines : Dec Byte (List (List Byte)) := rows (fun l => l.isEmpty) line

/-- The first `Content-Length`, or 0. -/
def contentLength : List (List Byte) → Nat
  | [] => 0
  | l :: ls =>
    if strncaseeq l (bytes "content-length:") then (strtoul (l.drop 15) 10).val
    else contentLength ls

/-- Method, target and version, with a blank between them. -/
def requestLine (l : List Byte) : List Byte × List Byte × List Byte :=
  let rest := (l.dropWhile (· ≠ 32)).drop 1
  (l.takeWhile (· ≠ 32), rest.takeWhile (· ≠ 32), (rest.dropWhile (· ≠ 32)).drop 1)

def httpRequest : Dec Byte HttpRequest :=
  Codec.seq line fun l => Codec.seq headerLines fun headers =>
    Codec.map
      (fun content =>
        ⟨(requestLine l).1, (requestLine l).2.1, (requestLine l).2.2, headers, content⟩)
      (Codec.take (contentLength headers))

theorem stable_line : Stable line := by
  apply Stable.map
  intro b l r c h
  exact cutLine_append_some c h

theorem takes_line : Takes line := by
  intro b l r h
  obtain ⟨⟨l', r'⟩, hcut, heq⟩ := Option.map_eq_some_iff.mp h
  obtain ⟨-, rfl⟩ := Prod.mk.inj heq
  obtain ⟨rfl, p, rfl, -⟩ := cutLine_some hcut
  simp only [List.length_append, List.length_singleton]
  omega

theorem fronts_line : Fronts line := by
  apply Fronts.map
  intro b l r h
  obtain ⟨rfl, -⟩ := cutLine_some h
  exact List.suffix_append l r

theorem stable_httpRequest : Stable httpRequest :=
  stable_line.seq fun _ => (stable_line.rows takes_line).seq fun _ => (stable_take _).map _

theorem takes_httpRequest : Takes httpRequest :=
  takes_line.seq fun _ => (fronts_line.rows takes_line).seq fun _ => (fronts_take _).map _

/-- A line that is sent is the line that is read. -/
theorem codes_line {l : List Byte} (h : LF ∉ l) : Codes line (crlf l) l := by
  intro r
  have hcr : LF ∉ l ++ [CR] := by
    rw [List.mem_append, List.mem_singleton, not_or]
    exact ⟨h, by decide⟩
  have hsplit : crlf l ++ r = (l ++ [CR]) ++ LF :: r := by simp [crlf]
  have hwhole : l ++ [CR] ++ [LF] = crlf l := by simp [crlf]
  unfold line Codec.map
  rw [hsplit, cutLine_line _ _ hcr, Option.map_some, hwhole, chop_crlf]

/-- Header lines with text in them, and the empty line. -/
theorem codes_headerLines {lines : List (List Byte)} (h : ∀ l ∈ lines, LF ∉ l ∧ l ≠ []) :
    Codes headerLines (headerText lines ++ [CR, LF]) lines := by
  have hempty : Codes line [CR, LF] [] := codes_line List.not_mem_nil
  refine codes_rows takes_line ?_ hempty rfl
  intro l hl
  exact ⟨codes_line (h l hl).1, by simpa using (h l hl).2⟩

theorem takeWhile_word {w : List Byte} (h : 32 ∉ w) (t : List Byte) :
    (w ++ 32 :: t).takeWhile (· ≠ 32) = w ∧ (w ++ 32 :: t).dropWhile (· ≠ 32) = 32 :: t := by
  induction w with
  | nil => simp
  | cons c w ih =>
    rw [List.mem_cons, not_or] at h
    obtain ⟨htake, hdrop⟩ := ih h.2
    have hc : decide (c ≠ 32) = true := decide_eq_true (Ne.symm h.1)
    rw [List.cons_append, List.takeWhile_cons, List.dropWhile_cons, hc, htake, hdrop]
    exact ⟨rfl, rfl⟩

theorem requestLine_eq {method target : List Byte} (hm : 32 ∉ method) (ht : 32 ∉ target)
    (version : List Byte) :
    requestLine (method ++ 32 :: (target ++ 32 :: version)) = (method, target, version) := by
  unfold requestLine
  rw [(takeWhile_word hm _).1, (takeWhile_word hm _).2]
  rw [List.drop_one, List.tail_cons]
  dsimp only
  rw [(takeWhile_word ht _).1, (takeWhile_word ht _).2]
  rfl

/-- A request in the form in which a server reads it. -/
theorem codes_httpRequest {method target version content : List Byte} {headers : List (List Byte)}
    (hm : 32 ∉ method) (ht : 32 ∉ target)
    (hline : LF ∉ method ++ 32 :: (target ++ 32 :: version))
    (hheaders : ∀ l ∈ headers, LF ∉ l ∧ l ≠ []) (hlen : contentLength headers = content.length) :
    Codes httpRequest
      ((method ++ 32 :: (target ++ 32 :: version) ++ [CR, LF]) ++
        ((headerText headers ++ [CR, LF]) ++ content))
      ⟨method, target, version, headers, content⟩ := by
  refine (codes_line hline).seq ((codes_headerLines hheaders).seq ?_)
  have hcontent := (codes_take content).map fun content : List Byte =>
    (⟨(requestLine (method ++ 32 :: (target ++ 32 :: version))).1,
      (requestLine (method ++ 32 :: (target ++ 32 :: version))).2.1,
      (requestLine (method ++ 32 :: (target ++ 32 :: version))).2.2, headers, content⟩ :
      HttpRequest)
  rw [hlen]
  rw [requestLine_eq hm ht version] at hcontent ⊢
  exact hcontent

/-! ## What httperf sends -/

/-- The text of a version that `core_send` knows. -/
def versionText (version : Nat) : List Byte :=
  if version = 0x10000 then bytes "HTTP/1.0" else bytes "HTTP/1.1"

/-- The header lines that every request has. -/
def standardHeaders (p : SendParam) (version : Nat) (host : List Byte) : List (List Byte) :=
  (bytes "User-Agent: httperf/" ++ p.VERSION) ::
    ((if version = 0x10000 then [bytes "Connection: keep-alive"] else []) ++
      if p.no_host_hdr then [] else [bytes "Host: " ++ host])

def Asked.target (a : Asked) : List Byte := a.location.data ++ a.uri.data

/-- The request as it is meant. `fqdname` is the host of the connection, and `host` the one that the
call has got on an earlier attempt, if any. -/
def Asked.request (a : Asked) (p : SendParam) (version : Nat) (fqdname : List Byte) (host : Iovec) :
    HttpRequest where
  method := a.method
  target := a.target
  version := versionText version
  headers := standardHeaders p version (host.getD fqdname) ++ a.headers.flatten
  content := a.contents.data

/-- The texts are those of a request: no blank and no line end stands where it would cut something
off, and the contents are as long as a header says. -/
structure Asked.Sound (a : Asked) (p : SendParam) (fqdname : List Byte) (host : Iovec) : Prop where
  method : 32 ∉ a.method ∧ LF ∉ a.method
  target : 32 ∉ a.target ∧ LF ∉ a.target
  product : LF ∉ p.VERSION
  host : LF ∉ host.getD fqdname
  headers : ∀ l ∈ a.headers.flatten, LF ∉ l ∧ l ≠ []
  contents : contentLength a.headers.flatten = a.contents.data.length

theorem headerText_append (ls ms : List (List Byte)) :
    headerText (ls ++ ms) = headerText ls ++ headerText ms := by
  simp [headerText]

theorem headerSlots_data (a : Asked) : dataOf a.headerSlots = headerText a.headers.flatten := by
  have hnone : ∀ n, dataOf (List.replicate n none) = [] := by
    intro n
    induction n with
    | zero => rfl
    | succ n ih => exact ih
  have hsome : ∀ hs : List (List (List Byte)),
      dataOf (hs.map fun lines => some (headerText lines)) = headerText hs.flatten := by
    intro hs
    induction hs with
    | nil => rfl
    | cons h hs ih => rw [List.map_cons, dataOf_cons, ih, List.flatten_cons, headerText_append]; rfl
  rw [Asked.headerSlots, dataOf_append, hsome, hnone, List.append_nil]

/-- The line of the protocol and the host, with the line end behind them. -/
theorem protl_text {p : SendParam} {version : Nat} {line : List Byte}
    (h : protl p version = some line) (fqdname : List Byte) (v : Iovec) :
    line ++ ((host p fqdname v).data ++ [CR, LF]) =
      32 :: versionText version ++ [CR, LF] ++
        headerText (standardHeaders p version (v.getD fqdname)) := by
  have h10 : bytes " HTTP/1.0\r\nUser-Agent: httperf/" =
      32 :: bytes "HTTP/1.0" ++ [CR, LF] ++ bytes "User-Agent: httperf/" := rfl
  have h11 : bytes " HTTP/1.1\r\nUser-Agent: httperf/" =
      32 :: bytes "HTTP/1.1" ++ [CR, LF] ++ bytes "User-Agent: httperf/" := rfl
  have hkeep : bytes "\r\nConnection: keep-alive" = [CR, LF] ++ bytes "Connection: keep-alive" :=
    rfl
  have hhost : bytes "\r\nHost: " = [CR, LF] ++ bytes "Host: " := rfl
  have hboth : bytes "\r\nConnection: keep-alive\r\nHost: " =
      [CR, LF] ++ bytes "Connection: keep-alive" ++ [CR, LF] ++ bytes "Host: " := rfl
  unfold protl at h
  unfold host versionText standardHeaders headerText crlf
  by_cases hv : version = 0x10000
  · rw [if_pos hv, Option.some.injEq] at h
    subst h
    cases hno : p.no_host_hdr
    · simp [hv, http10req, h10, hboth, Iovec.data]
    · simp [hv, http10req_nohost, h10, hkeep, Iovec.data]
  · rw [if_neg hv, Option.ite_none_right_eq_some] at h
    obtain ⟨-, h⟩ := h
    obtain rfl := Option.some.inj h
    cases hno : p.no_host_hdr
    · simp [hv, http11req, h11, hhost, Iovec.data]
    · simp [hv, http11req_nohost, h11, Iovec.data]

/-- `core_send` fills in the protocol and the host. -/
theorem Filling.issued {p : SendParam} {fqdname : List Byte} {c c' : Call} {a : Asked}
    {protl host : Iovec} (h : Filling c a protl host) (hsend : core_send p fqdname c = some c') :
    ∃ line, Httperf.protl p c.req.version = some line ∧
      Filling c' a (some line) (Httperf.host p fqdname host) := by
  unfold core_send at hsend
  obtain ⟨line, hline, rfl⟩ := Option.map_eq_some_iff.mp hsend
  refine ⟨line, hline, ?_, h.num, h.few⟩
  have hget : c.req.iov.toList[IE_HOST]? = some host := by rw [h.slots]; rfl
  rw [issued_toList p fqdname line c.req.iov hget, h.slots]
  rfl

/-- A header line that starts with another letter says nothing about the contents. -/
theorem contentLength_skip {c : Byte} (hc : tolower c ≠ 99) (l : List Byte)
    (ls : List (List Byte)) :
    contentLength ((c :: l) :: ls) = contentLength ls := by
  have hname : bytes "content-length:" = 99 :: bytes "ontent-length:" := rfl
  have h99 : tolower 99 = 99 := by decide
  rw [contentLength, if_neg]
  unfold strncaseeq
  rw [hname, List.length_cons, List.take_succ_cons, List.map_cons, List.map_cons, h99, beq_iff_eq,
    List.cons.injEq]
  exact fun h => hc h.1

/-- The lines that every request has are lines of text, and say nothing about the contents. -/
theorem standardHeaders_ok {p : SendParam} {host : List Byte} (version : Nat) (hp : LF ∉ p.VERSION)
    (hhost : LF ∉ host) :
    (∀ l ∈ standardHeaders p version host, LF ∉ l ∧ l ≠ []) ∧
      ∀ ls, contentLength (standardHeaders p version host ++ ls) = contentLength ls := by
  have hagent : bytes "User-Agent: httperf/" = 85 :: bytes "ser-Agent: httperf/" := rfl
  have hname : bytes "Host: " = 72 :: bytes "ost: " := rfl
  have hagentLF : LF ∉ bytes "User-Agent: httperf/" := by decide
  have hnameLF : LF ∉ bytes "Host: " := by decide
  have hkeep : LF ∉ bytes "Connection: keep-alive" ∧ bytes "Connection: keep-alive" ≠ [] := by
    decide
  have hskip : ∀ ls, contentLength (bytes "Connection: keep-alive" :: ls) = contentLength ls := by
    intro ls
    rw [contentLength, if_neg (by decide)]
  constructor
  · intro l hl
    unfold standardHeaders at hl
    rcases List.mem_cons.mp hl with rfl | hl
    · exact ⟨by rw [List.mem_append, not_or]; exact ⟨hagentLF, hp⟩, by rw [hagent]; simp⟩
    · rcases List.mem_append.mp hl with hl | hl
      · split_ifs at hl
        · obtain rfl := List.mem_singleton.mp hl
          exact hkeep
        · cases hl
      · split_ifs at hl
        · cases hl
        · obtain rfl := List.mem_singleton.mp hl
          exact ⟨by rw [List.mem_append, not_or]; exact ⟨hnameLF, hhost⟩, by rw [hname]; simp⟩
  · intro ls
    have hrest : contentLength ((if p.no_host_hdr then [] else [bytes "Host: " ++ host]) ++ ls) =
        contentLength ls := by
      split_ifs
      · rfl
      · rw [List.singleton_append, hname]
        exact contentLength_skip (by decide) _ _
    unfold standardHeaders
    rw [hagent, List.cons_append, List.cons_append, contentLength_skip (by decide),
      List.append_assoc]
    by_cases hv : version = 0x10000
    · rw [if_pos hv, List.singleton_append, hskip]
      exact hrest
    · rw [if_neg hv]
      exact hrest

/-- The request that is sent is read as it is meant, whatever comes behind it. -/
theorem Filling.codes {p : SendParam} {fqdname : List Byte} {c c' : Call} {a : Asked}
    {protl host : Iovec} (h : Filling c a protl host) (hsend : core_send p fqdname c = some c')
    (hsound : a.Sound p fqdname host) :
    Codes httpRequest c'.req.full (a.request p c.req.version fqdname host) := by
  obtain ⟨line, hline, hfill⟩ := h.issued hsend
  have hversion : LF ∉ versionText c.req.version := by
    unfold versionText
    split_ifs
    · decide
    · decide
  have hbytes : c'.req.full =
      (a.method ++ 32 :: (a.target ++ 32 :: versionText c.req.version) ++ [CR, LF]) ++
        ((headerText (a.request p c.req.version fqdname host).headers ++ [CR, LF]) ++
          a.contents.data) := by
    have hblank : Iovec.data (some (bytes " ")) = [32] := rfl
    have hdata : ∀ b : List Byte, Iovec.data (some b) = b := fun _ => rfl
    have hnil : dataOf [] = [] := rfl
    have htext := protl_text hline fqdname host
    have hheaders := headerText_append (standardHeaders p c.req.version (host.getD fqdname))
      a.headers.flatten
    change dataOf c'.req.iov.toList = _
    unfold Asked.request
    dsimp only
    rw [hfill.slots, Asked.slots, dataOf_append, dataOf_append, headerSlots_data, hheaders]
    simp only [dataOf_cons, hblank, hdata, hnil, List.append_nil, htext, Asked.target,
      List.append_assoc, List.cons_append, List.nil_append]
  rw [hbytes]
  refine codes_httpRequest hsound.method.1 hsound.target.1 ?_ ?_ ?_
  · have hsp : LF ≠ 32 := by decide
    simp only [List.mem_append, List.mem_cons, not_or]
    exact ⟨hsound.method.2, hsp, hsound.target.2, hsp, hversion⟩
  · intro l hl
    rcases List.mem_append.mp hl with hl | hl
    · exact (standardHeaders_ok _ hsound.product hsound.host).1 l hl
    · exact hsound.headers l hl
  · exact ((standardHeaders_ok _ hsound.product hsound.host).2 _).trans hsound.contents

/-! ## A row of requests -/

/-- A call as the modules make it: its id, the version, and what they set. -/
structure Plan where
  id : Nat
  version : Nat
  settings : List Setting

def Plan.call (x : Plan) : Call := x.settings.foldl Setting.apply (call_init x.id x.version)

def Plan.asked (x : Plan) : Asked := x.settings.foldl Asked.set Asked.default

theorem Plan.filling (x : Plan) : Filling x.call x.asked none none :=
  (filling_init x.id x.version).settings x.settings

theorem Plan.codes {p : SendParam} {fqdname : List Byte} {x : Plan} {c : Call}
    (hsend : core_send p fqdname x.call = some c) (hsound : x.asked.Sound p fqdname none) :
    Codes httpRequest c.req.full (x.asked.request p x.version fqdname none) := by
  have hversion : x.call.req.version = x.version := (settings_frame _ x.settings).2.2
  have hcodes := x.filling.codes hsend hsound
  rwa [hversion] at hcodes

/-- The bytes that are sent for a plan. -/
def Plan.word (p : SendParam) (fqdname : List Byte) (x : Plan) : List Byte :=
  ((core_send p fqdname x.call).map fun c => c.req.full).getD []

section
variable {p : SendParam} {fqdname : List Byte} {plans : List Plan} {calls : List Call}

theorem plan_words (hsend : plans.map (fun x => core_send p fqdname x.call) = calls.map some) :
    plans.map (Plan.word p fqdname) = calls.map fun c => c.req.full := by
  have h := congrArg (List.map fun o : Option Call => (o.map fun c => c.req.full).getD []) hsend
  rw [List.map_map, List.map_map] at h
  exact h

theorem plan_codes (hsend : plans.map (fun x => core_send p fqdname x.call) = calls.map some)
    (hsound : ∀ x ∈ plans, x.asked.Sound p fqdname none) :
    ∀ x ∈ plans, Codes httpRequest (x.word p fqdname)
      (x.asked.request p x.version fqdname none) := by
  intro x hx
  have hmem : core_send p fqdname x.call ∈ calls.map some := hsend ▸ List.mem_map.mpr ⟨x, hx, rfl⟩
  obtain ⟨c, -, hc⟩ := List.mem_map.mp hmem
  have hword : x.word p fqdname = c.req.full := by
    unfold Plan.word
    rw [← hc]
    rfl
  rw [hword]
  exact Plan.codes hc.symm (hsound x hx)

end

/-- A server that has read any part of the bytes of these calls has got exactly the requests whose
calls are in it as a whole, and waits with the rest. -/
def ReadAs (calls : List Call) (requests : List HttpRequest) : Prop :=
  ∀ b, b <+: (calls.map fun c => c.req.full).flatten →
    ∃ n, n ≤ calls.length ∧
      ((calls.take n).map fun c => c.req.full).flatten <+: b ∧
      (∀ c, calls[n]? = some c →
        b.length < (((calls.take n).map fun c => c.req.full).flatten ++ c.req.full).length) ∧
      all httpRequest b =
        (requests.take n, b.drop ((calls.take n).map fun c => c.req.full).flatten.length)

theorem plans_readAs {p : SendParam} {fqdname : List Byte} {plans : List Plan} {calls : List Call}
    (hsend : plans.map (fun x => core_send p fqdname x.call) = calls.map some)
    (hsound : ∀ x ∈ plans, x.asked.Sound p fqdname none) :
    ReadAs calls (plans.map fun x => x.asked.request p x.version fqdname none) := by
  intro b hb
  have hwords := plan_words hsend
  have htake (n : Nat) : (plans.take n).map (Plan.word p fqdname) =
      (calls.take n).map fun c => c.req.full := by
    rw [List.map_take, List.map_take, hwords]
  rw [← hwords] at hb
  obtain ⟨n, hn, hfront, hnext, hall⟩ :=
    all_prefix stable_httpRequest takes_httpRequest (plan_codes hsend hsound) hb
  rw [htake] at hfront hall
  have hlen : plans.length = calls.length := by
    simpa using congrArg List.length hsend
  refine ⟨n, hlen ▸ hn, hfront, fun c hc => ?_, by rw [hall, List.map_take]⟩
  have hword : (plans[n]?).map (Plan.word p fqdname) = some c.req.full := by
    rw [← List.getElem?_map, hwords, List.getElem?_map, hc]
    rfl
  obtain ⟨x, hx, hxc⟩ := Option.map_eq_some_iff.mp hword
  have hlt := hnext x hx
  rwa [htake, hxc] at hlt

/-- The calls are filled in, and given to `core_send` on a connection to `fqdname`. A server that
has read any part of the stream of these requests has got exactly those that are in it as a whole,
as they were meant, and waits with the rest of that part. -/
theorem requests_are_read_as_they_were_filled_in (p : SendParam) (fqdname : List Byte)
    {plans : List Plan} {calls : List Call}
    (hsend : plans.map (fun x => core_send p fqdname x.call) = calls.map some)
    (hsound : ∀ x ∈ plans, x.asked.Sound p fqdname none) {b : List Byte}
    (hb : b <+: (calls.map fun c => c.req.full).flatten) :
    ∃ n, n ≤ calls.length ∧
      ((calls.take n).map fun c => c.req.full).flatten <+: b ∧
      (∀ c, calls[n]? = some c →
        b.length < (((calls.take n).map fun c => c.req.full).flatten ++ c.req.full).length) ∧
      all httpRequest b =
        ((plans.take n).map fun x => x.asked.request p x.version fqdname none,
          b.drop ((calls.take n).map fun c => c.req.full).flatten.length) := by
  obtain ⟨n, hn, hfront, hnext, hall⟩ := plans_readAs hsend hsound b hb
  rw [← List.map_take] at hall
  exact ⟨n, hn, hfront, hnext, hall⟩

/-- A post, and a call that is as it was made but for the URI. -/
def twoPlans : List Plan :=
  [⟨1, 0x10001, [.uri (bytes "/a"), .method (bytes "POST"), .header [bytes "Content-Length: 2"],
    .contents (bytes "hi")]⟩, ⟨2, 0x10000, [.uri (bytes "/b")]⟩]

def twoCalls : List Call :=
  twoPlans.filterMap fun x => core_send ⟨false, bytes "0.9"⟩ (bytes "h") x.call

theorem requests_are_read_as_they_were_filled_in_two :
    ∃ n, n ≤ twoCalls.length ∧
      ((twoCalls.take n).map fun c => c.req.full).flatten <+:
        ((twoCalls.map fun c => c.req.full).flatten.take 100) ∧
      (∀ c, twoCalls[n]? = some c →
        ((twoCalls.map fun c => c.req.full).flatten.take 100).length <
          (((twoCalls.take n).map fun c => c.req.full).flatten ++ c.req.full).length) ∧
      all httpRequest ((twoCalls.map fun c => c.req.full).flatten.take 100) =
        ((twoPlans.take n).map fun x =>
            x.asked.request ⟨false, bytes "0.9"⟩ x.version (bytes "h") none,
          ((twoCalls.map fun c => c.req.full).flatten.take 100).drop
            ((twoCalls.take n).map fun c => c.req.full).flatten.length) := by
  refine requests_are_read_as_they_were_filled_in ⟨false, bytes "0.9"⟩ (bytes "h") rfl ?_
    (List.take_prefix _ _)
  intro x hx
  rcases List.mem_cons.mp hx with rfl | hx
  · exact ⟨by decide +kernel, by decide +kernel, by decide, by decide, by decide +kernel,
      by decide +kernel⟩
  · obtain rfl := List.mem_singleton.mp hx
    exact ⟨by decide +kernel, by decide +kernel, by decide, by decide, by decide +kernel,
      by decide +kernel⟩

end Httperf
