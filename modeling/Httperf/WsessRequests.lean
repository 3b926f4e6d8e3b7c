-- From the session file to the server. `parse_config` reads the file into templates, a session
-- replays its template and `issue_calls` (`wsesslog.c`) fills in its calls, with what `misc.c` and
-- `sess_cookie.c` add, and the server reads the requests of the file from the bytes that are sent.
import Httperf.RequestWire
import Httperf.WsessReadBack

namespace Httperf.WsessRequests

open Codec
open WsessLog (ReqData LINE_SIZE call_method_name)

/-! ## Numbers as `%d` writes them -/

theorem isDigit_byte {c : Char} (h : c.isDigit = true) :
    digit 10 c.toNat.toUInt8 = some (c.toNat - 48) := by
  have hall : ∀ n : Fin 10, digit 10 (48 + n.val).toUInt8 = some n.val := by decide
  have hends : '0'.toNat = 48 ∧ '9'.toNat = 57 := by decide
  rw [Char.isDigit_iff_toNat, hends.1, hends.2] at h
  have hd := hall ⟨c.toNat - 48, by omega⟩
  have hc : 48 + (c.toNat - 48) = c.toNat := by omega
  rwa [hc] at hd

theorem digits_chars (cs : List Char) (h : ∀ c ∈ cs, c.isDigit = true) (acc : Nat) :
    (cs.map fun c => c.toNat.toUInt8).foldl (fun acc c => acc * 10 + (digit 10 c).getD 0) acc =
      Nat.ofDigitChars 10 cs acc := by
  induction cs generalizing acc with
  | nil => rfl
  | cons c cs ih =>
    rw [List.map_cons, List.foldl_cons, isDigit_byte (h c List.mem_cons_self), Option.getD_some,
      ih fun d hd => h d (List.mem_cons_of_mem _ hd), Nat.ofDigitChars_cons, Nat.mul_comm]
    rfl

/-- The text that `%d` gives is a numeral for the number. -/
def decimal (n : Nat) : Numeral 10 where
  text := bytes (toString n)
  ne := by
    unfold bytes
    rw [Nat.toString_eq_ofList_toDigits, String.toList_ofList, Ne, List.map_eq_nil_iff]
    exact Nat.toDigits_ne_nil
  isDigit := by
    intro c hc
    unfold bytes at hc
    rw [Nat.toString_eq_ofList_toDigits, String.toList_ofList] at hc
    obtain ⟨d, hd, rfl⟩ := List.mem_map.mp hc
    rw [isDigit_byte (Nat.isDigit_of_mem_toDigits (by decide) (by decide) hd)]
    rfl

theorem decimal_val (n : Nat) : (decimal n).val = n := by
  unfold Numeral.val decimal digits bytes
  dsimp only
  rw [Nat.toString_eq_ofList_toDigits, String.toList_ofList,
    digits_chars _ fun c hc => Nat.isDigit_of_mem_toDigits (by decide) (by decide) hc]
  exact Nat.ofDigitChars_ten_toDigits

/-- The line of `extra_hdrs` tells the length. -/
theorem contentLength_decimal {n : Nat} (hn : n ≤ ULONG_MAX) (ls : List (List Byte)) :
    contentLength ((bytes "Content-length: " ++ bytes (toString n)) :: ls) = n := by
  have hname : bytes "Content-length: " = bytes "Content-length:" ++ [32] := rfl
  have hlen : (bytes "Content-length:").length = 15 := rfl
  have hval :=
    strtoul_numeral (by decide) (decimal n) (show EndsNumeral 10 [] by simp [EndsNumeral])
    (by rw [decimal_val]; exact hn)
  rw [List.append_nil, decimal_val] at hval
  have hcase : strncaseeq (bytes "Content-length:" ++ ([32] ++ bytes (toString n)))
      (bytes "content-length:") = true := strncaseeq_name _ _ rfl rfl
  have hblank : ∀ c ∈ ([32] : List Byte), isspace c = true := by decide +kernel
  rw [contentLength, hname, List.append_assoc, if_pos hcase, ← hlen, List.drop_left,
    strtoul_blanks hblank]
  exact congrArg Strtoul.val hval

/-! ## The call of a request -/

/-- What `init` of `misc.c` has made of `--method`, `--add-header` and `--add-header-file`: the
bytes with their lengths. -/
structure MiscParam where
  method : List Byte
  extra : List Byte
  extra_file : List Byte

/-- `call_created` (`misc.c`). -/
def call_created (misc : MiscParam) (c : Call) : Call :=
  let c := if misc.method.length > 0 then call_set_method c misc.method else c
  let c := if misc.extra.length > 0 then (call_append_request_header c misc.extra).2 else c
  if misc.extra_file.length > 0 then (call_append_request_header c misc.extra_file).2 else c

/-- `call_issue` (`sess_cookie.c`) on a new call. `cookie` is the one of the session. -/
def call_issue (cookie : List Byte) (c : Call) : Call :=
  if cookie.length > 0 then (call_append_request_header c cookie).2 else c

/-- The part of `issue_calls` that fills in the new call. -/
def fill_in (req : ReqData) (c : Call) : Call :=
  let c := call_set_method c (call_method_name req.method)
  let c := call_set_uri c (req.uri.take req.uri_len)
  if req.contents_len > 0 then
    call_set_contents (call_append_request_header c (req.extra_hdrs.take req.extra_hdrs_len)).2
      ((req.contents.getD []).take req.contents_len)
  else c

/-- How a call comes about: its id, and the cookie line of its session at that time, if any. -/
structure Occasion where
  id : Nat
  cookie : List (List Byte)

/-- The same for a call of a session. -/
def fill (call : WsessLog.Call) (c : Call) : Call :=
  let c := call_set_uri (call_set_method c call.method) call.uri
  match call.contents with
  | some (extra_hdrs, contents) =>
    call_set_contents (call_append_request_header c extra_hdrs).2 contents
  | none => c

/-- The request of the session that a `REQ` stands for. -/
def reqOf (req : ReqData) : WsessLog.Req where
  method := req.method
  uri := req.uri.take req.uri_len
  contents := (req.contents.getD []).take req.contents_len
  extra_hdrs := req.extra_hdrs.take req.extra_hdrs_len

/-- The session fills in what `issue_calls` reads from the `REQ`. -/
theorem fill_in_eq {req : ReqData} (hlength : req.contents_len ≤ (req.contents.getD []).length)
    (c : Call) : fill_in req c = fill (WsessLog.new_call (reqOf req)) c := by
  have hcontents : ((req.contents.getD []).take req.contents_len).length = req.contents_len :=
    List.length_take_of_le hlength
  unfold fill_in fill WsessLog.new_call reqOf
  dsimp only
  rw [hcontents]
  split <;> rfl

/-- The template is made of these `REQ`s. -/
def Plays (t : WsessLog.Template) (data : List (List ReqData)) : Prop :=
  t.bursts.map WsessLog.Burst.req_list = data.map fun burst => burst.map reqOf

/-- From `call_new` to `core_send`. -/
def issue (p : SendParam) (fqdname : List Byte) (version : Nat) (misc : MiscParam) (i : Occasion)
    (call : WsessLog.Call) : Option Call :=
  core_send p fqdname
    (call_issue (headerText i.cookie) (fill call (call_created misc (call_init i.id version))))

/-! ## What it stands for -/

/-- The lines of `--add-header` and `--add-header-file`, as text. -/
structure MiscLines where
  method : List Byte
  extra : List (List Byte)
  extra_file : List (List Byte)

def MiscLines.param (m : MiscLines) : MiscParam where
  method := m.method
  extra := headerText m.extra
  extra_file := headerText m.extra_file

/-- The request that is meant. -/
def meant (p : SendParam) (fqdname : List Byte) (version : Nat) (misc : MiscLines) (i : Occasion)
    (r : WsessLog.Request) : HttpRequest where
  method := call_method_name r.method
  target := r.uri
  version := versionText version
  headers := standardHeaders p version fqdname ++ (misc.extra ++ (misc.extra_file ++
    ((r.contents.map fun c => bytes "Content-length: " ++ bytes (toString c.length)).toList ++
      i.cookie)))
  content := r.contents.getD []

/-- A header setting, where there are lines. -/
def headerSetting (lines : List (List Byte)) : List Setting :=
  if lines = [] then [] else [.header lines]

/-- What `issue_calls` sets. -/
def requestSettings (r : WsessLog.Request) : List Setting :=
  [.method (call_method_name r.method), .uri r.uri] ++
    match r.contents with
    | none => []
    | some c => [.header [bytes "Content-length: " ++ bytes (toString c.length)], .contents c]

/-- What the modules set. -/
def settings (misc : MiscLines) (i : Occasion) (r : WsessLog.Request) : List Setting :=
  (if misc.method = [] then [] else [.method misc.method]) ++ (headerSetting misc.extra ++
    (headerSetting misc.extra_file ++ (requestSettings r ++ headerSetting i.cookie)))

theorem headerText_pos {lines : List (List Byte)} : (headerText lines).length > 0 ↔ lines ≠ [] := by
  cases lines with
  | nil => simp [headerText]
  | cons l ls => simp [headerText, crlf]

theorem append_headerText (lines : List (List Byte)) (c : Call) :
    (if (headerText lines).length > 0 then (call_append_request_header c (headerText lines)).2
      else c) =
      (headerSetting lines).foldl Setting.apply c := by
  unfold headerSetting
  by_cases hne : lines = []
  · rw [if_neg (by rw [headerText_pos]; exact fun h => h hne), if_pos hne]
    rfl
  · rw [if_pos (headerText_pos.mpr hne), if_neg hne]
    rfl

theorem call_created_eq (misc : MiscLines) (c : Call) :
    call_created misc.param c =
      ((if misc.method = [] then [] else [Setting.method misc.method]) ++
        (headerSetting misc.extra ++
          headerSetting misc.extra_file)).foldl Setting.apply c := by
  have hmethod : (if misc.method.length > 0 then call_set_method c misc.method else c) =
      (if misc.method = [] then [] else [Setting.method misc.method]).foldl Setting.apply c := by
    by_cases hne : misc.method = []
    · rw [if_neg (by simp [hne]), if_pos hne]
      rfl
    · rw [if_pos (List.length_pos_iff.mpr hne), if_neg hne]
      rfl
  unfold call_created MiscLines.param
  dsimp only
  rw [hmethod, append_headerText, append_headerText, List.foldl_append, List.foldl_append]

/-- The fields of the `REQ` say what the request says. -/
theorem fill_in_data {r : WsessLog.Request} (hr : r.contents ≠ some []) (c : Call) :
    fill_in r.data c = (requestSettings r).foldl Setting.apply c := by
  obtain ⟨method, uri, contents⟩ := r
  unfold fill_in WsessLog.Request.data requestSettings
  cases contents with
  | none => simp [Setting.apply]
  | some b =>
    have hne : b ≠ [] := fun he => hr (by rw [he])
    have hpos : b.length > 0 := List.length_pos_iff.mpr hne
    have htext : headerText [bytes "Content-length: " ++ bytes (toString b.length)] =
        bytes "Content-length: " ++ bytes (toString b.length) ++ bytes "\r\n" := by
      simp [headerText, crlf]
      rfl
    simp only [Option.getD_some, hpos, if_true, Option.map_some, List.take_length,
      List.cons_append, List.nil_append, List.foldl_cons, List.foldl_nil, Setting.apply, htext]

theorem issue_eq (p : SendParam) (fqdname : List Byte) (version : Nat) (misc : MiscLines)
    (i : Occasion) {r : WsessLog.Request} (hr : r.contents ≠ some []) :
    issue p fqdname version misc.param i (WsessLog.new_call (reqOf r.data)) =
      core_send p fqdname (Plan.call ⟨i.id, version, settings misc i r⟩) := by
  unfold issue call_issue Plan.call settings
  rw [append_headerText, ← fill_in_eq (Nat.le_refl _), fill_in_data hr, call_created_eq,
    ← List.foldl_append, ← List.foldl_append]
  simp only [List.append_assoc]

/-- `core_send` takes every call of a version that it knows. -/
theorem core_send_some {version : Nat} (hversion : version = 0x10000 ∨ version = 0x10001)
    (p : SendParam) (fqdname : List Byte) (id : Nat) (ss : List Setting) :
    ∃ c, core_send p fqdname (Plan.call ⟨id, version, ss⟩) = some c := by
  have hkept : (Plan.call ⟨id, version, ss⟩).req.version = version := (settings_frame _ ss).2.2
  unfold core_send protl
  rw [hkept]
  rcases hversion with rfl | rfl
  · exact ⟨_, rfl⟩
  · exact ⟨_, rfl⟩

/-- The lines of a header setting, as one header or none. -/
def places (lines : List (List Byte)) : List (List (List Byte)) :=
  if lines = [] then [] else [lines]

theorem places_length (lines : List (List Byte)) : (places lines).length ≤ 1 := by
  unfold places
  split_ifs
  · exact Nat.zero_le 1
  · exact Nat.le_refl 1

theorem places_flatten (lines : List (List Byte)) : (places lines).flatten = lines := by
  unfold places
  split_ifs with h
  · rw [h]
    rfl
  · simp

theorem headerSetting_set (lines : List (List Byte)) {a : Asked}
    (h : a.headers.length < MAX_EXTRA_HEADERS) :
    (headerSetting lines).foldl Asked.set a = { a with headers := a.headers ++ places lines } := by
  unfold headerSetting places
  split_ifs
  · simp
  · simp [Asked.set, h]

/-- What has been set: there are places for all headers, so that nothing is left out. -/
theorem settings_asked (misc : MiscLines) (i : Occasion) (r : WsessLog.Request) :
    (settings misc i r).foldl Asked.set Asked.default = {
      method := call_method_name r.method
      location := none
      uri := some r.uri
      headers := places misc.extra ++ places misc.extra_file ++ (r.contents.map fun c =>
        [bytes "Content-length: " ++ bytes (toString c.length)]).toList ++ places i.cookie
      contents := r.contents } := by
  have hmax : MAX_EXTRA_HEADERS = 4 := rfl
  have h1 := places_length misc.extra
  have h2 := places_length misc.extra_file
  -- after the headers of the options there is room for two more
  let hs := places misc.extra ++ places misc.extra_file
  have hroom : hs.length < MAX_EXTRA_HEADERS - 1 := by
    unfold hs
    rw [List.length_append]
    omega
  let hs' := hs ++ (r.contents.map fun c =>
    [bytes "Content-length: " ++ bytes (toString c.length)]).toList
  have hroom' : hs'.length < MAX_EXTRA_HEADERS := by
    unfold hs'
    rw [List.length_append]
    cases r.contents with
    | none => simpa using Nat.lt_of_lt_of_le hroom (Nat.sub_le _ _)
    | some c => simpa using Nat.add_lt_of_lt_sub hroom
  obtain ⟨m, hm⟩ : ∃ m, (if misc.method = [] then [] else [Setting.method misc.method]).foldl
      Asked.set Asked.default = ⟨m, none, none, [], none⟩ := by
    split_ifs
    · exact ⟨_, rfl⟩
    · exact ⟨misc.method, rfl⟩
  have hextra : (headerSetting misc.extra).foldl Asked.set ⟨m, none, none, [], none⟩ =
      ⟨m, none, none, places misc.extra, none⟩ := headerSetting_set _ (Nat.zero_lt_succ 3)
  have hfile : (headerSetting misc.extra_file).foldl Asked.set
      ⟨m, none, none, places misc.extra, none⟩ = ⟨m, none, none, hs, none⟩ :=
    headerSetting_set _ (Nat.lt_of_le_of_lt h1 (by decide))
  have hreq : (requestSettings r).foldl Asked.set ⟨m, none, none, hs, none⟩ =
      ⟨call_method_name r.method, none, some r.uri, hs', r.contents⟩ := by
    unfold hs' requestSettings
    cases r.contents with
    | none => simp [Asked.set]
    | some c => simp [Asked.set, Nat.lt_of_lt_of_le hroom (Nat.sub_le _ _)]
  have hcookie : (headerSetting i.cookie).foldl Asked.set
      ⟨call_method_name r.method, none, some r.uri, hs', r.contents⟩ =
        ⟨call_method_name r.method, none, some r.uri, hs' ++ places i.cookie, r.contents⟩ :=
    headerSetting_set _ hroom'
  rw [settings, List.foldl_append, hm, List.foldl_append, hextra, List.foldl_append, hfile,
    List.foldl_append, hreq, hcookie]

/-! ## What the server reads -/

/-- The header lines that are added are text, and say nothing about the contents. -/
def Plain (lines : List (List Byte)) : Prop :=
  ∀ l ∈ lines, LF ∉ l ∧ l ≠ [] ∧ strncaseeq l (bytes "content-length:") = false

theorem contentLength_plain {lines : List (List Byte)} (h : Plain lines) (ls : List (List Byte)) :
    contentLength (lines ++ ls) = contentLength ls := by
  induction lines with
  | nil => rfl
  | cons l lines ih =>
    rw [List.cons_append, contentLength, if_neg (by rw [(h l List.mem_cons_self).2.2]; decide)]
    exact ih fun m hm => h m (List.mem_cons_of_mem _ hm)

/-- What the texts outside the session file must be. -/
structure Surroundings (p : SendParam) (fqdname : List Byte) (misc : MiscLines) : Prop where
  product : LF ∉ p.VERSION
  host : LF ∉ fqdname
  extra : Plain misc.extra
  extra_file : Plain misc.extra_file

theorem plan_request (p : SendParam) (fqdname : List Byte) (version : Nat) (misc : MiscLines)
    (i : Occasion) (r : WsessLog.Request) :
    (Plan.asked ⟨i.id, version, settings misc i r⟩).request p version fqdname none =
      meant p fqdname version misc i r := by
  unfold Plan.asked
  rw [settings_asked]
  unfold Asked.request meant
  simp only [Asked.target, List.flatten_append, places_flatten, List.append_assoc]
  cases r.contents with
  | none => rfl
  | some c => simp [Iovec.data]

theorem plan_sound {p : SendParam} {fqdname : List Byte} {misc : MiscLines}
    (h : Surroundings p fqdname misc) {i : Occasion} (hcookie : Plain i.cookie)
    {r : WsessLog.Request} (huri : ∀ c ∈ r.uri, isspace c = false)
    (hcontents : ∀ c, r.contents = some c → c.length ≤ ULONG_MAX) (version : Nat) :
    (Plan.asked ⟨i.id, version, settings misc i r⟩).Sound p fqdname none := by
  have hmethod : ∀ m, 32 ∉ call_method_name m ∧ LF ∉ call_method_name m := by
    intro m
    cases m <;> decide
  have htarget : 32 ∉ r.uri ∧ LF ∉ r.uri :=
    ⟨fun hc => absurd (huri _ hc) (by decide), fun hc => absurd (huri _ hc) (by decide)⟩
  unfold Plan.asked
  rw [settings_asked]
  refine ⟨hmethod r.method, htarget, h.product, h.host, ?_, ?_⟩
  · simp only [List.flatten_append, places_flatten]
    intro l hl
    rcases List.mem_append.mp hl with hl | hl
    · rcases List.mem_append.mp hl with hl | hl
      · rcases List.mem_append.mp hl with hl | hl
        · exact ⟨(h.extra l hl).1, (h.extra l hl).2.1⟩
        · exact ⟨(h.extra_file l hl).1, (h.extra_file l hl).2.1⟩
      · cases hc : r.contents with
        | none => simp [hc] at hl
        | some c =>
          obtain rfl : l = bytes "Content-length: " ++ bytes (toString c.length) := by
            simpa [hc] using hl
          have hlf : LF ∉ bytes (toString c.length) := by
            intro hmem
            exact absurd ((decimal c.length).isDigit LF hmem) (by decide)
          have hname : LF ∉ bytes "Content-length: " := by decide
          have hne : bytes "Content-length: " ≠ [] := by decide
          exact ⟨by rw [List.mem_append, not_or]; exact ⟨hname, hlf⟩,
            List.append_ne_nil_of_left_ne_nil hne _⟩
    · exact ⟨(hcookie l hl).1, (hcookie l hl).2.1⟩
  · simp only [List.flatten_append, places_flatten, List.append_assoc]
    rw [contentLength_plain h.extra, contentLength_plain h.extra_file]
    cases hc : r.contents with
    | none =>
      have hnil := contentLength_plain hcookie []
      rw [List.append_nil] at hnil
      exact hnil
    | some c => exact contentLength_decimal (hcontents c hc) _

/-- A request of the file: its URI is the word that is written, and its contents, if any, are
shorter than the buffer. -/
theorem request_of_text {t : WsessLog.RequestText} (hfits : t.Fits) :
    t.request.uri = t.uri ∧ ∀ c, t.request.contents = some c → c ≠ [] ∧ c.length < LINE_SIZE := by
  have hfold : ∀ (args : List WsessLog.ArgText) (r : WsessLog.Request), (∀ a ∈ args, a.arg.Fits) →
      (∀ c, r.contents = some c → c ≠ [] ∧ c.length < LINE_SIZE) →
        (args.foldl (fun q a => q.set a.arg) r).uri = r.uri ∧
          ∀ c, (args.foldl (fun q a => q.set a.arg) r).contents = some c →
            c ≠ [] ∧ c.length < LINE_SIZE := by
    intro args
    induction args with
    | nil => exact fun r _ hr => ⟨rfl, hr⟩
    | cons a args ih =>
      intro r hargs hr
      obtain ⟨ha, hargs⟩ := List.forall_mem_cons.mp hargs
      have hset : (r.set a.arg).uri = r.uri ∧
          ∀ c, (r.set a.arg).contents = some c → c ≠ [] ∧ c.length < LINE_SIZE := by
        cases harg : a.arg with
        | method m => exact ⟨rfl, hr⟩
        | contents cs ne =>
          rw [harg] at ha
          refine ⟨rfl, fun c hc => ?_⟩
          obtain rfl := Option.some.inj hc
          exact ⟨by simpa using ne, by rw [List.length_map]; exact ha⟩
      obtain ⟨huri, hcontents⟩ := ih (r.set a.arg) hargs hset.2
      exact ⟨huri.trans hset.1, hcontents⟩
  exact hfold t.args _ hfits fun c hc => by cases hc

/-- Every request of a session of the file comes from a text of the file. -/
theorem mem_session {f : WsessLog.FileText} {session : List (List WsessLog.Request)}
    (hsession : session ∈ f.sessions) {r : WsessLog.Request} (hr : r ∈ session.flatten) :
    ∃ t ∈ f.requests, t.request = r := by
  obtain ⟨st, hst, rfl⟩ := List.mem_map.mp hsession
  obtain ⟨burst, hburst, hr⟩ := List.mem_flatten.mp hr
  obtain ⟨bt, hbt, rfl⟩ := List.mem_map.mp hburst
  obtain ⟨t, ht, rfl⟩ := List.mem_map.mp hr
  exact ⟨t, List.mem_flatMap.mpr ⟨st, hst, List.mem_flatMap.mpr ⟨bt, hbt, ht⟩⟩, rfl⟩

/-- Calls of a session, each on its occasion and with the request that it stands for. -/
theorem session_read {f : WsessLog.FileText} (hfits : ∀ r ∈ f.requests, r.Fits) {p : SendParam}
    {fqdname : List Byte} {misc : MiscLines} (hmisc : Surroundings p fqdname misc) {version : Nat}
    (hversion : version = 0x10000 ∨ version = 0x10001)
    {session : List (List WsessLog.Request)} (hsession : session ∈ f.sessions)
    {xs : List (Occasion × WsessLog.Issue × WsessLog.Request)}
    (hmem : ∀ x ∈ xs, x.2.2 ∈ session.flatten ∧ x.2.1.call = WsessLog.new_call (reqOf x.2.2.data))
    (hcookies : ∀ x ∈ xs, Plain x.1.cookie) :
    ∃ calls, xs.map (fun x => issue p fqdname version misc.param x.1 x.2.1.call) = calls.map some ∧
      ReadAs calls (xs.map fun x => meant p fqdname version misc x.1 x.2.2) := by
  have hreq : ∀ x ∈ xs, (∀ c ∈ x.2.2.uri, isspace c = false) ∧
      ∀ c, x.2.2.contents = some c → c ≠ [] ∧ c.length < LINE_SIZE := by
    intro x hx
    obtain ⟨t, ht, hrt⟩ := mem_session hsession (hmem x hx).1
    obtain ⟨huri, hcontents⟩ := request_of_text (hfits t ht)
    rw [hrt] at huri hcontents
    exact ⟨fun c hc => (t.word c (huri ▸ hc)).2, hcontents⟩
  let plan (x : Occasion × WsessLog.Issue × WsessLog.Request) : Plan :=
    ⟨x.1.id, version, settings misc x.1 x.2.2⟩
  have hissue : ∀ x ∈ xs, issue p fqdname version misc.param x.1 x.2.1.call =
      core_send p fqdname (plan x).call := by
    intro x hx
    rw [(hmem x hx).2]
    exact issue_eq p fqdname version misc x.1 fun hnil => ((hreq x hx).2 [] hnil).1 rfl
  obtain ⟨calls, hcalls⟩ : ∃ calls : List Call,
      xs.map (fun x => issue p fqdname version misc.param x.1 x.2.1.call) = calls.map some := by
    refine ⟨xs.map fun x => ((core_send p fqdname (plan x).call).getD (plan x).call), ?_⟩
    rw [List.map_map]
    refine List.map_congr_left fun x hx => ?_
    obtain ⟨c, hc⟩ := core_send_some hversion p fqdname x.1.id (settings misc x.1 x.2.2)
    rw [hissue x hx, Function.comp_apply, hc]
    rfl
  have hsend : (xs.map plan).map (fun x => core_send p fqdname x.call) = calls.map some := by
    rw [← hcalls, List.map_map]
    exact List.map_congr_left fun x hx => (hissue x hx).symm
  have hsound : ∀ x ∈ xs.map plan, x.asked.Sound p fqdname none := by
    intro y hy
    obtain ⟨x, hx, rfl⟩ := List.mem_map.mp hy
    obtain ⟨huri, hcontents⟩ := hreq x hx
    refine plan_sound hmisc (hcookies x hx) huri (fun c hc => ?_) version
    exact Nat.le_of_lt (Nat.lt_of_lt_of_le (hcontents c hc).2 (by decide))
  refine ⟨calls, hcalls, ?_⟩
  have hread := plans_readAs hsend hsound
  rw [List.map_map] at hread
  have hmeant : xs.map ((fun x => x.asked.request p x.version fqdname none) ∘ plan) =
      xs.map fun x => meant p fqdname version misc x.1 x.2.2 :=
    List.map_congr_left fun x _ => plan_request p fqdname version misc x.1 x.2.2
  rwa [hmeant] at hread

/-! ## The template of a session -/

theorem requests_of_plays {t : WsessLog.Template} {data : List (List ReqData)} (h : Plays t data) :
    WsessLog.requests t.bursts = data.flatten.map reqOf := by
  have hflat := congrArg List.flatten h
  rwa [← List.flatMap_def, ← List.map_flatten] at hflat

/-- The sessions of a file are not empty, and neither are their bursts. -/
theorem exists_plays {f : WsessLog.FileText} {session : List (List WsessLog.Request)}
    (hsession : session ∈ f.sessions) (think : Nat) :
    ∃ t, Plays t (session.map fun burst => burst.map WsessLog.Request.data) := by
  obtain ⟨st, -, rfl⟩ := List.mem_map.mp hsession
  let burst (b : WsessLog.BurstText) : WsessLog.Burst := {
    user_think_time := think
    req_list := (b.requests.map WsessLog.Request.data).map reqOf
    nonempty := by simp [WsessLog.BurstText.requests] }
  refine ⟨⟨st.bursts.map burst, by simp [WsessLog.SessionText.bursts]⟩, ?_⟩
  unfold Plays WsessLog.SessionText.session
  rw [List.map_map, List.map_map, List.map_map]
  rfl

/-- What a session has issued stands for the requests of the file, one by one. -/
theorem issued_requests {sp : SessionParam} {t : WsessLog.Template} {s : WsessLog.Sess}
    (hreplays : WsessLog.Replays sp t s) {session : List (List WsessLog.Request)}
    (hplays : Plays t (session.map fun burst => burst.map WsessLog.Request.data)) :
    s.issues.length ≤ session.flatten.length ∧ ∀ x ∈ s.issues.zip session.flatten,
      x.2 ∈ session.flatten ∧ x.1.call = WsessLog.new_call (reqOf x.2.data) := by
  have hcalls := hreplays.calls
  have hflat : (session.map fun burst => burst.map WsessLog.Request.data).flatten =
      session.flatten.map WsessLog.Request.data := List.map_flatten.symm
  rw [requests_of_plays hplays, hflat, List.map_map, List.map_map] at hcalls
  have hle := hcalls.length_le
  rw [List.length_map, List.length_map] at hle
  refine ⟨hle, fun x hx => ⟨(List.of_mem_zip hx).2, ?_⟩⟩
  obtain ⟨i, hi, rfl⟩ := List.mem_iff_getElem.mp hx
  rw [List.length_zip] at hi
  rw [List.getElem_zip]
  have hget := hcalls.getElem (show i < (s.issues.map WsessLog.Issue.call).length by
    rw [List.length_map]; omega)
  rwa [List.getElem_map, List.getElem_map] at hget

/-- However the session file is written: a session that replays one of the templates that
`parse_config` makes of it issues its calls in the order of the file. All of them can be sent, and
whatever part of the bytes of those that go over one connection the server has read, it has got the
requests of the file that are in it, one by one, with the header lines of the options and the
cookies. -/
theorem a_session_file_reaches_the_server {τ : Type} (think_time : τ)
    (scan_lf : List Byte → Option τ) (f : WsessLog.FileText) (hshort : WsessLog.Short f.text)
    (hfits : ∀ r ∈ f.requests, r.Fits) {p : SendParam} {fqdname : List Byte} {misc : MiscLines}
    (hmisc : Surroundings p fqdname misc) {version : Nat}
    (hversion : version = 0x10000 ∨ version = 0x10001) :
    ∃ s, WsessLog.parse_config think_time scan_lf f.text = .ok s ∧
      s.num_templates = f.sessions.length ∧
      ∀ i session, f.sessions[i]? = some session →
        ∃ data, s.Holds think_time i data ∧ (∃ t, Plays t data) ∧
          ∀ t, Plays t data → ∀ sp steps,
            ∃ sess, WsessLog.run sp t steps = .ok sess ∧ WsessLog.Replays sp t sess ∧
              sess.issues.length ≤ session.flatten.length ∧
              ∀ xs : List (Occasion × WsessLog.Issue × WsessLog.Request),
                (xs.map Prod.snd).Sublist (sess.issues.zip session.flatten) →
                (∀ x ∈ xs, Plain x.1.cookie) →
                ∃ calls,
                  xs.map (fun x => issue p fqdname version misc.param x.1 x.2.1.call) =
                    calls.map some ∧
                  ReadAs calls (xs.map fun x => meant p fqdname version misc x.1 x.2.2) := by
  obtain ⟨s, hparse, hnum, hholds⟩ := WsessLog.parse_config_file think_time scan_lf f hshort hfits
  refine ⟨s, hparse, hnum, fun i session hi => ?_⟩
  have hsession := List.mem_of_getElem? hi
  refine ⟨session.map fun burst => burst.map WsessLog.Request.data, hholds i session hi,
    exists_plays hsession 0, fun t hplays sp steps => ?_⟩
  obtain ⟨sess, hrun, hreplays⟩ := WsessLog.run_replays sp t steps
  obtain ⟨hle, hissued⟩ := issued_requests hreplays hplays
  refine ⟨sess, hrun, hreplays, hle, fun xs hxs hcookies => ?_⟩
  exact session_read hfits hmisc hversion hsession
    (fun x hx => hissued x.2 (hxs.subset (List.mem_map_of_mem hx))) hcookies

/-- The option `--add-header`, and no other. -/
def oneHeader : MiscLines := ⟨[], [bytes "Accept: */*"], []⟩

theorem a_session_file_reaches_the_server_two_sessions :
    ∃ s, WsessLog.parse_config 0 (fun _ => none) WsessLog.two_sessions.text = .ok s ∧
      ∃ data, s.Holds 0 0 data ∧ ∃ t, Plays t data ∧ ∀ sp steps,
        ∃ sess, WsessLog.run sp t steps = .ok sess ∧
          ∃ calls,
            (sess.issues.zip WsessLog.two_sessions.first.session.flatten).map (fun x =>
              issue ⟨false, bytes "0.9"⟩ (bytes "h") 0x10001 oneHeader.param ⟨1, []⟩ x.1.call) =
                calls.map some ∧
            ReadAs calls
              ((sess.issues.zip WsessLog.two_sessions.first.session.flatten).map fun x =>
                meant ⟨false, bytes "0.9"⟩ (bytes "h") 0x10001 oneHeader ⟨1, []⟩ x.2) := by
  have hshort : WsessLog.Short WsessLog.two_sessions.text :=
    WsessLog.short_of_length (by decide +kernel)
  have hfits : ∀ r ∈ WsessLog.two_sessions.requests, r.Fits := by
    simp [WsessLog.FileText.requests, WsessLog.FileText.all, WsessLog.two_sessions,
      WsessLog.SessionText.bursts, WsessLog.RequestText.Fits, WsessLog.Arg.Fits, LINE_SIZE]
  have hmisc : Surroundings ⟨false, bytes "0.9"⟩ (bytes "h") oneHeader := by
    refine ⟨by decide, by decide, ?_, fun l hl => by cases hl⟩
    intro l hl
    obtain rfl := List.mem_singleton.mp hl
    decide +kernel
  obtain ⟨s, hparse, -, hall⟩ := a_session_file_reaches_the_server 0 (fun _ => none)
    WsessLog.two_sessions hshort hfits hmisc (.inr rfl)
  obtain ⟨data, hholds, ⟨t, hplays⟩, hruns⟩ := hall 0 _ rfl
  refine ⟨s, hparse, data, hholds, t, hplays, fun sp steps => ?_⟩
  obtain ⟨sess, hrun, -, -, hread⟩ := hruns t hplays sp steps
  refine ⟨sess, hrun, ?_⟩
  -- all calls go over one connection, without cookies
  obtain ⟨calls, hcalls, hreads⟩ := hread
    ((sess.issues.zip WsessLog.two_sessions.first.session.flatten).map fun x => (⟨1, []⟩, x))
    (by rw [List.map_map]; exact (List.map_id _).symm ▸ List.Sublist.refl _)
    (fun x hx l hl => by
      obtain ⟨y, -, rfl⟩ := List.mem_map.mp hx
      cases hl)
  rw [List.map_map] at hcalls hreads
  exact ⟨calls, hcalls, hreads⟩

end Httperf.WsessRequests
