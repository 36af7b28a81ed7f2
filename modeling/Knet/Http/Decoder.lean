import Mathlib.Data.Int.Notation
import Mathlib.Data.List.Basic

/-!
# Decoding HTTP messages

`HttpDecoder` hands the bytes of one package to the vendored `http_parser` and keeps what the parser
reports through its callbacks. The parser is a parameter: it is a list of calls for every sequence
of bytes, and the number of bytes it says it has parsed.

Three habits of the callbacks decide what a handler gets to see.

* `parse_value` adds a header each time it is called, and `parse_body` replaces the body each time.
A value or a body that the parser reports in several pieces is therefore not put together.
* Nothing is reset when a message ends. What the parser reports for the bytes behind the first
message is added to what it reported for that one.
* `http_path` is a view into `request_url`. Once a second URL is assigned to that string, the view
refers to bytes that are gone, until the end of the second head sets it again.

`seen_eq_iff` says exactly when a decoder still shows the first request that it was given.
-/

namespace Knet.Http

/-! ## The parser -/

/-- `http_parser_type`. -/
inductive HttpParserType
  | httpRequest
  | httpResponse
  deriving DecidableEq, Repr

/-- A call that the parser makes through `http_parser_settings`, with the bytes it hands over.
Callbacks that only write to the log are left out. -/
inductive Callback
  | onUrl (bytes : List UInt8)
  | onStatus (bytes : List UInt8) (statusCode : ℕ)
  | onHeaderField (bytes : List UInt8)
  | onHeaderValue (bytes : List UInt8)
  | onHeadersComplete
  | onBody (bytes : List UInt8)
  deriving DecidableEq, Repr

/-- The fields of `http_parser_url` that are read. -/
structure UrlInfo where
  path : Option (List UInt8)
  query : Option (List UInt8)
  deriving DecidableEq, Repr

/-- What is used of the vendored parser. -/
structure HttpParser where
  /-- `http_parser_execute` on a parser that has just been initialised: the calls it makes as long
  as none of them refuses, each with the number it returns if that one does, and the number it
  returns in the end. -/
  execute : HttpParserType → List UInt8 → List (ℕ × Callback) × ℕ
  /-- `http_parser_parse_url`, or `none` when it fails. -/
  parseUrl : List UInt8 → Option UrlInfo

/-! ## The decoder -/

/-- The members of `HttpDecoder` and those of the message that its callbacks write. -/
structure HttpDecoder where
  requestUrl : List UInt8 := []
  httpStatus : List UInt8 := []
  httpBody : List UInt8 := []
  /-- A view into `request_url`, or `none` when that string has been assigned to since. -/
  httpPath : Option (List UInt8) := some []
  httpQuery : Option (List UInt8) := some []
  headers : List (List UInt8 × List UInt8) := []
  parseHeader : List UInt8 × List UInt8 := ([], [])
  httpUrl : List UInt8 := []
  statusCode : ℕ := 0
  deriving DecidableEq, Repr

/-- A view into a string that is assigned to. Of an empty view nothing is read. -/
def reassigned (view : Option (List UInt8)) : Option (List UInt8) :=
  if view = some [] then some [] else none

namespace HttpDecoder

variable (p : HttpParser)

/-- `HttpParseHelper<_, HttpRequest>::parse_url`. -/
def parseUrl (d : HttpDecoder) (bytes : List UInt8) : HttpDecoder :=
  { d with
    requestUrl := bytes, httpUrl := bytes
    httpPath := reassigned d.httpPath, httpQuery := reassigned d.httpQuery }

/-- `HttpParseHelper<_, HttpRequest>::parse_header_complete`, with the value it returns. -/
def parseHeaderComplete (d : HttpDecoder) : HttpDecoder × ℤ :=
  match p.parseUrl d.requestUrl with
  | none => (d, 0)
  | some ⟨none, _⟩ => (d, -1)
  | some ⟨some path, query⟩ =>
    ({ d with httpPath := some path, httpQuery := query.or d.httpQuery }, 0)

/-- `HttpParseHelper<_, HttpResponse>::parse_status`. -/
def parseStatus (d : HttpDecoder) (bytes : List UInt8) (statusCode : ℕ) : HttpDecoder :=
  { d with httpStatus := bytes, statusCode := statusCode }

/-- `parse_field`. -/
def parseField (d : HttpDecoder) (bytes : List UInt8) : HttpDecoder :=
  { d with parseHeader := (bytes, d.parseHeader.2) }

/-- `parse_value`. -/
def parseValue (d : HttpDecoder) (bytes : List UInt8) : HttpDecoder :=
  { d with
    parseHeader := (d.parseHeader.1, bytes)
    headers := d.headers ++ [(d.parseHeader.1, bytes)] }

/-- `parse_body`. -/
def parseBody (d : HttpDecoder) (bytes : List UInt8) : HttpDecoder := { d with httpBody := bytes }

/-- The callback that `init_parser` has set for a call, and what it returns. -/
def handle (kind : HttpParserType) (d : HttpDecoder) : Callback → HttpDecoder × ℤ
  | .onUrl bytes =>
    match kind with
    | .httpRequest => (d.parseUrl bytes, 0)
    | .httpResponse => (d, 0)
  | .onStatus bytes statusCode =>
    match kind with
    | .httpRequest => (d, 0)
    | .httpResponse => (d.parseStatus bytes statusCode, 0)
  | .onHeaderField bytes => (d.parseField bytes, 0)
  | .onHeaderValue bytes => (d.parseValue bytes, 0)
  | .onHeadersComplete =>
    match kind with
    | .httpRequest => d.parseHeaderComplete p
    | .httpResponse => (d, 0)
  | .onBody bytes => (d.parseBody bytes, 0)

/-- The decoder after these calls, of which those behind a refusal are not made. -/
def collect (kind : HttpParserType) (d : HttpDecoder) : List Callback → HttpDecoder
  | [] => d
  | call :: calls =>
    if (d.handle p kind call).2 = 0 then collect kind (d.handle p kind call).1 calls
    else (d.handle p kind call).1

/-- The number that `http_parser_execute` returns after these calls. -/
def parsed (kind : HttpParserType) (d : HttpDecoder) : List (ℕ × Callback) → ℕ → ℕ
  | [], n => n
  | (off, call) :: calls, n =>
    if (d.handle p kind call).2 = 0 then parsed kind (d.handle p kind call).1 calls n else off

end HttpDecoder

section Parse

variable (p : HttpParser) (kind : HttpParserType) (data : List UInt8)

/-- The calls that the parser makes as long as none refuses. -/
def HttpParser.calls : List Callback := (p.execute kind data).1.map Prod.snd

/-- `parse_request` and `parse_response` on a fresh decoder: what it holds, and what is returned.
Whether the bytes are copied first makes no difference to either. -/
def parse : HttpDecoder × ℕ :=
  (HttpDecoder.collect p kind {} (p.calls kind data),
    HttpDecoder.parsed p kind {} (p.execute kind data).1 (p.execute kind data).2)

/-- `HttpDecoder::parse_request`. -/
def parseRequest : HttpDecoder × ℕ := parse p .httpRequest data

/-- `HttpDecoder::parse_response`. -/
def parseResponse : HttpDecoder × ℕ := parse p .httpResponse data

end Parse

/-! ## Requests -/

/-- A header line, its value in the pieces in which the parser reports it. -/
structure Field where
  name : List UInt8
  parts : List (List UInt8)
  /-- An empty value is reported too. -/
  parts_ne_nil : parts ≠ []

/-- A request, its body in the pieces in which the parser reports it. -/
structure Request where
  url : List UInt8
  fields : List Field
  body : List (List UInt8)
  /-- The parser reports no empty piece of a body. -/
  body_ne_nil : ∀ piece ∈ body, piece ≠ []
  /-- The header lines behind the last chunk of a chunked body. -/
  trailers : List Field

/-- What a handler asks a request for. -/
structure Seen where
  path : Option (List UInt8)
  headers : List (List UInt8 × List UInt8)
  body : List UInt8
  deriving DecidableEq, Repr

/-- `path()`, the headers and `body()` of a decoded request. -/
def HttpDecoder.seen (d : HttpDecoder) : Seen := ⟨d.httpPath, d.headers, d.httpBody⟩

/-- `parse_header_complete` refuses a URL in which there is no path. -/
def HttpParser.stops (p : HttpParser) (url : List UInt8) : Bool :=
  match p.parseUrl url with
  | some ⟨none, _⟩ => true
  | _ => false

namespace Field

/-- The calls for a header line. -/
def calls (f : Field) : List Callback := .onHeaderField f.name :: f.parts.map .onHeaderValue

/-- The header that the line stands for. -/
def header (f : Field) : List UInt8 × List UInt8 := (f.name, f.parts.flatten)

/-- The headers that `parse_value` makes of the line. -/
def entries (f : Field) : List (List UInt8 × List UInt8) := f.parts.map fun part ↦ (f.name, part)

end Field

namespace Request

variable (p : HttpParser) (r : Request)

/-- The calls for the request. -/
def calls : List Callback :=
  .onUrl r.url :: (r.fields.flatMap Field.calls ++
    .onHeadersComplete :: (r.body.map .onBody ++ r.trailers.flatMap Field.calls))

/-- The path of the request, empty when there is none. -/
def path : List UInt8 :=
  match p.parseUrl r.url with
  | some ⟨some path, _⟩ => path
  | _ => []

/-- What a handler of this request, and of nothing else, sees. -/
def seen : Seen := ⟨some (r.path p), r.fields.map Field.header, r.body.flatten⟩

/-- What stands behind the request in the same package is reported by the calls `rest`, and it adds
no header and leaves the path. -/
def Undisturbed (rest : List Callback) : Prop :=
  let d := HttpDecoder.collect p .httpRequest
    { requestUrl := r.url, httpPath := some (r.path p) } rest
  d.headers = [] ∧ d.httpPath = some (r.path p)

instance decidableUndisturbed (rest : List Callback) : Decidable (r.Undisturbed p rest) :=
  inferInstanceAs (Decidable (_ ∧ _))

/-- The callbacks can show the request as it is: every header value is reported in one piece, and
so is the body, of which nothing is reported if the URL has no path. If it has one, the parser goes
on, and there are no trailers and nothing behind the request that changes the picture. -/
structure Shown (rest : List Callback) : Prop where
  fields : ∀ f ∈ r.fields, f.parts.length = 1
  body : r.body.length ≤ 1
  stopped : p.stops r.url = true → r.body = []
  trailers : p.stops r.url = false → r.trailers = []
  undisturbed : p.stops r.url = false → r.Undisturbed p rest

end Request

/-- Before the first piece of a body some header value has been reported. -/
def BodyAnnounced : List Callback → Prop
  | [] => True
  | .onHeaderValue _ :: _ => True
  | .onBody _ :: _ => False
  | _ :: calls => BodyAnnounced calls

/-! ## Collecting calls -/

namespace HttpDecoder

variable {p : HttpParser} {kind : HttpParserType} {d e : HttpDecoder} {calls : List Callback}

theorem collect_cons_of_eq_zero {call : Callback} (h : (d.handle p kind call).2 = 0) :
    collect p kind d (call :: calls) = collect p kind (d.handle p kind call).1 calls := by
  rw [collect, if_pos h]

theorem collect_cons_of_ne_zero {call : Callback} (h : (d.handle p kind call).2 ≠ 0) :
    collect p kind d (call :: calls) = (d.handle p kind call).1 := by
  rw [collect, if_neg h]

theorem eq_onHeadersComplete_of_ne_zero {call : Callback} (h : (d.handle p kind call).2 ≠ 0) :
    call = .onHeadersComplete := by
  cases call with
  | onUrl bytes => cases kind <;> exact absurd rfl h
  | onStatus bytes code => cases kind <;> exact absurd rfl h
  | onHeaderField bytes => exact absurd rfl h
  | onHeaderValue bytes => exact absurd rfl h
  | onHeadersComplete => rfl
  | onBody bytes => exact absurd rfl h

/-- The parser says that it has parsed something, whether or not it is stopped. -/
theorem parsed_pos {calls : List (ℕ × Callback)} {n : ℕ} (hn : 0 < n)
    (hoff : ∀ off, (off, .onHeadersComplete) ∈ calls → 0 < off) :
    0 < parsed p kind d calls n := by
  induction calls generalizing d with
  | nil => exact hn
  | cons x calls ih =>
    obtain ⟨off, call⟩ := x
    rw [parsed]
    split_ifs with hzero
    · exact ih fun off' h ↦ hoff off' (List.mem_cons_of_mem _ h)
    · obtain rfl := eq_onHeadersComplete_of_ne_zero hzero
      exact hoff off List.mem_cons_self

/-! ### What a head and a body leave behind -/

/-- The decoder after a header line. -/
def addField (d : HttpDecoder) (f : Field) : HttpDecoder :=
  f.parts.foldl parseValue (d.parseField f.name)

/-- The decoder after the pieces of a body. -/
def addBody (d : HttpDecoder) (body : List (List UInt8)) : HttpDecoder := body.foldl parseBody d

theorem collect_values (parts : List (List UInt8)) :
    collect p kind d (parts.map .onHeaderValue ++ calls)
      = collect p kind (parts.foldl parseValue d) calls := by
  induction parts generalizing d with
  | nil => rfl
  | cons part parts ih =>
    rw [List.map_cons, List.cons_append, collect_cons_of_eq_zero rfl, ih]
    rfl

theorem collect_field (f : Field) :
    collect p kind d (f.calls ++ calls) = collect p kind (d.addField f) calls := by
  rw [Field.calls, List.cons_append, collect_cons_of_eq_zero rfl, collect_values]
  rfl

theorem collect_fields (fs : List Field) :
    collect p kind d (fs.flatMap Field.calls ++ calls)
      = collect p kind (fs.foldl addField d) calls := by
  induction fs generalizing d with
  | nil => rfl
  | cons f fs ih => rw [List.flatMap_cons, List.append_assoc, collect_field, ih, List.foldl_cons]

theorem collect_body (body : List (List UInt8)) :
    collect p kind d (body.map .onBody ++ calls) = collect p kind (d.addBody body) calls := by
  induction body generalizing d with
  | nil => rfl
  | cons piece body ih =>
    rw [List.map_cons, List.cons_append, collect_cons_of_eq_zero rfl, ih]
    rfl

/-- A header line adds one header for each piece of its value and touches nothing else. -/
theorem foldl_parseValue (parts : List (List UInt8)) : ∃ header,
    parts.foldl parseValue d = { d with
      parseHeader := header
      headers := d.headers ++ parts.map fun part ↦ (d.parseHeader.1, part) } := by
  induction parts generalizing d with
  | nil => exact ⟨d.parseHeader, by simp⟩
  | cons part parts ih =>
    obtain ⟨header, h⟩ := ih (d := d.parseValue part)
    exact ⟨header, by rw [List.foldl_cons, h]; simp [parseValue]⟩

theorem foldl_addField (fs : List Field) : ∃ header,
    fs.foldl addField d = { d with
      parseHeader := header, headers := d.headers ++ fs.flatMap Field.entries } := by
  induction fs generalizing d with
  | nil => exact ⟨d.parseHeader, by simp⟩
  | cons f fs ih =>
    obtain ⟨header, h⟩ := ih (d := d.addField f)
    obtain ⟨header', h'⟩ := foldl_parseValue (d := d.parseField f.name) f.parts
    refine ⟨header, ?_⟩
    rw [List.foldl_cons, h, addField, h']
    simp [parseField, Field.entries]

theorem addBody_eq (body : List (List UInt8)) :
    d.addBody body = { d with httpBody := body.getLastD d.httpBody } := by
  induction body generalizing d with
  | nil => rfl
  | cons piece body ih =>
    rw [addBody, List.foldl_cons, ← addBody, ih, List.getLastD_cons]
    rfl

/-! ### Calls that add no header -/

/-- Two decoders that hold the same URL and path, the second with as many headers more than `e` as
the first has more than `d`. -/
structure Alike (d e d' e' : HttpDecoder) : Prop where
  requestUrl : d'.requestUrl = e'.requestUrl
  httpPath : d'.httpPath = e'.httpPath
  headers : ∃ more more', more.length = more'.length
    ∧ d'.headers = d.headers ++ more ∧ e'.headers = e.headers ++ more'

theorem Alike.refl (hurl : d.requestUrl = e.requestUrl) (hpath : d.httpPath = e.httpPath) :
    Alike d e d e :=
  ⟨hurl, hpath, [], [], rfl, (List.append_nil _).symm, (List.append_nil _).symm⟩

theorem Alike.trans {d' e' d'' e'' : HttpDecoder} (h : Alike d e d' e')
    (h' : Alike d' e' d'' e'') : Alike d e d'' e'' := by
  obtain ⟨more₁, more₁', hlen₁, hd₁, he₁⟩ := h.headers
  obtain ⟨more₂, more₂', hlen₂, hd₂, he₂⟩ := h'.headers
  refine ⟨h'.requestUrl, h'.httpPath, more₁ ++ more₂, more₁' ++ more₂', ?_, ?_, ?_⟩
  · rw [List.length_append, List.length_append, hlen₁, hlen₂]
  · rw [hd₂, hd₁, List.append_assoc]
  · rw [he₂, he₁, List.append_assoc]

/-- A callback looks at nothing but the URL, the path and the key of the header before. -/
theorem alike_handle (hurl : d.requestUrl = e.requestUrl) (hpath : d.httpPath = e.httpPath)
    (call : Callback) : (d.handle p kind call).2 = (e.handle p kind call).2
      ∧ Alike d e (d.handle p kind call).1 (e.handle p kind call).1 := by
  have hrefl := Alike.refl hurl hpath
  cases call with
  | onUrl bytes =>
    cases kind with
    | httpRequest => exact ⟨rfl, rfl, congrArg reassigned hpath, hrefl.headers⟩
    | httpResponse => exact ⟨rfl, hrefl⟩
  | onStatus bytes code =>
    cases kind with
    | httpRequest => exact ⟨rfl, hrefl⟩
    | httpResponse => exact ⟨rfl, hurl, hpath, hrefl.headers⟩
  | onHeaderField bytes => exact ⟨rfl, hurl, hpath, hrefl.headers⟩
  | onHeaderValue bytes =>
    exact ⟨rfl, hurl, hpath, [(d.parseHeader.1, bytes)], [(e.parseHeader.1, bytes)], rfl, rfl, rfl⟩
  | onHeadersComplete =>
    cases kind with
    | httpRequest =>
      simp only [handle, parseHeaderComplete, hurl]
      split
      · exact ⟨rfl, hrefl⟩
      · exact ⟨rfl, hrefl⟩
      · exact ⟨rfl, rfl, rfl, hrefl.headers⟩
    | httpResponse => exact ⟨rfl, hrefl⟩
  | onBody bytes => exact ⟨rfl, hurl, hpath, hrefl.headers⟩

theorem alike_collect (hurl : d.requestUrl = e.requestUrl) (hpath : d.httpPath = e.httpPath) :
    Alike d e (collect p kind d calls) (collect p kind e calls) := by
  induction calls generalizing d e with
  | nil => exact Alike.refl hurl hpath
  | cons call calls ih =>
    obtain ⟨hret, halike⟩ := @alike_handle p kind d e hurl hpath call
    by_cases hzero : (d.handle p kind call).2 = 0
    · rw [collect_cons_of_eq_zero hzero, collect_cons_of_eq_zero (hret ▸ hzero)]
      exact halike.trans (ih halike.requestUrl halike.httpPath)
    · rw [collect_cons_of_ne_zero hzero, collect_cons_of_ne_zero (hret ▸ hzero)]
      exact halike

theorem prefix_headers_collect : d.headers <+: (collect p kind d calls).headers := by
  obtain ⟨more, -, -, h, -⟩ :=
    (@alike_collect p kind d d calls rfl rfl).headers
  exact ⟨more, h.symm⟩

theorem httpBody_collect (h : BodyAnnounced calls)
    (hheaders : (collect p kind d calls).headers = d.headers) :
    (collect p kind d calls).httpBody = d.httpBody := by
  induction calls generalizing d with
  | nil => rfl
  | cons call calls ih =>
    -- a call that leaves the headers and the body can be dropped from the front
    have hdrop : (d.handle p kind call).1.headers = d.headers →
        (d.handle p kind call).1.httpBody = d.httpBody → BodyAnnounced calls →
        (collect p kind d (call :: calls)).httpBody = d.httpBody := by
      intro hh hb hrest
      by_cases hzero : (d.handle p kind call).2 = 0
      · rw [collect_cons_of_eq_zero hzero] at hheaders ⊢
        rw [ih hrest (hheaders.trans hh.symm), hb]
      · rw [collect_cons_of_ne_zero hzero, hb]
    cases call with
    | onUrl bytes => cases kind <;> exact hdrop rfl rfl h
    | onStatus bytes code => cases kind <;> exact hdrop rfl rfl h
    | onHeaderField bytes => exact hdrop rfl rfl h
    | onHeaderValue bytes =>
      rw [collect_cons_of_eq_zero rfl] at hheaders
      have hlen := (@prefix_headers_collect p kind (d.handle p kind (.onHeaderValue bytes)).1
        calls).length_le
      rw [hheaders, handle, parseValue, List.length_append, List.length_singleton] at hlen
      omega
    | onHeadersComplete =>
      cases kind with
      | httpRequest =>
        refine hdrop ?_ ?_ h <;> simp only [handle, parseHeaderComplete] <;> split <;> rfl
      | httpResponse => exact hdrop rfl rfl h
    | onBody bytes => exact h.elim

end HttpDecoder

/-! ## What a handler sees -/

theorem Field.length_entries_pos (f : Field) : 0 < f.entries.length := by
  rw [Field.entries, List.length_map]
  exact List.length_pos_iff.mpr f.parts_ne_nil

theorem Field.entries_of_length_eq_one {f : Field} (h : f.parts.length = 1) :
    f.entries = [f.header] := by
  obtain ⟨part, hpart⟩ := List.length_eq_one_iff.mp h
  rw [Field.entries, Field.header, hpart]
  simp

theorem flatMap_entries_eq_nil {fs : List Field} : fs.flatMap Field.entries = [] ↔ fs = [] := by
  constructor
  · intro h
    cases fs with
    | nil => rfl
    | cons f fs =>
      rw [List.flatMap_cons, List.append_eq_nil_iff] at h
      exact absurd (congrArg List.length h.1) (Nat.ne_of_gt f.length_entries_pos)
  · rintro rfl
    rfl

theorem length_le_flatMap_entries (fs : List Field) :
    fs.length ≤ (fs.flatMap Field.entries).length := by
  induction fs with
  | nil => exact Nat.zero_le _
  | cons f fs ih =>
    have := f.length_entries_pos
    rw [List.flatMap_cons, List.length_append, List.length_cons]
    omega

/-- The headers collected are those of the request if each value came in one piece and nothing was
added. -/
theorem flatMap_entries_append_eq_iff {fs : List Field} {more : List (List UInt8 × List UInt8)} :
    fs.flatMap Field.entries ++ more = fs.map Field.header
      ↔ (∀ f ∈ fs, f.parts.length = 1) ∧ more = [] := by
  induction fs with
  | nil => simp
  | cons f fs ih =>
    have hlen := length_le_flatMap_entries fs
    constructor
    · intro h
      -- one header for each line leaves room for one piece of this value only
      have hcount := congrArg List.length h
      simp only [List.flatMap_cons, List.length_append, List.length_map, List.length_cons,
        Field.entries] at hcount
      have hpos := f.length_entries_pos
      rw [Field.entries, List.length_map] at hpos
      have hone : f.parts.length = 1 := by omega
      rw [List.flatMap_cons, Field.entries_of_length_eq_one hone, List.map_cons,
        List.append_assoc, List.singleton_append, List.cons.injEq] at h
      obtain ⟨hrest, hmore⟩ := ih.mp h.2
      exact ⟨List.forall_mem_cons.mpr ⟨hone, hrest⟩, hmore⟩
    · rintro ⟨hall, rfl⟩
      obtain ⟨hone, hrest⟩ := List.forall_mem_cons.mp hall
      rw [List.flatMap_cons, Field.entries_of_length_eq_one hone, List.map_cons,
        List.append_assoc, List.singleton_append, ih.mpr ⟨hrest, rfl⟩]

theorem flatten_eq_nil_iff_of_ne_nil {body : List (List UInt8)} (h : ∀ piece ∈ body, piece ≠ []) :
    body.flatten = [] ↔ body = [] := by
  cases body with
  | nil => exact iff_of_true rfl rfl
  | cons piece body =>
    refine iff_of_false (fun hnil ↦ ?_) (List.cons_ne_nil piece body)
    rw [List.flatten_cons, List.append_eq_nil_iff] at hnil
    exact h piece List.mem_cons_self hnil.1

/-- The last piece of a body is the whole body if there is at most one. -/
theorem getLastD_eq_flatten_iff {body : List (List UInt8)} (h : ∀ piece ∈ body, piece ≠ []) :
    body.getLastD [] = body.flatten ↔ body.length ≤ 1 := by
  rcases List.eq_nil_or_concat' body with rfl | ⟨front, last, rfl⟩
  · simp
  · rw [List.getLastD_concat, List.flatten_append, List.flatten_singleton, List.self_eq_append_left,
      List.length_append, List.length_singleton]
    constructor
    · intro hnil
      cases front with
      | nil => exact Nat.le_refl _
      | cons piece front =>
        rw [List.flatten_cons, List.append_eq_nil_iff] at hnil
        exact absurd hnil.1 (h piece (List.mem_append_left _ List.mem_cons_self))
    · intro hlen
      rw [List.length_eq_zero_iff.mp (show front.length = 0 by omega), List.flatten_nil]

namespace Request

variable {p : HttpParser} {r : Request} {rest : List Callback}

/-- The decoder at the end of the head. -/
def atHead (r : Request) : HttpDecoder :=
  r.fields.foldl HttpDecoder.addField (({} : HttpDecoder).parseUrl r.url)

theorem atHead_eq (r : Request) : ∃ header, r.atHead =
    { requestUrl := r.url, httpUrl := r.url, parseHeader := header
      headers := r.fields.flatMap Field.entries } := by
  obtain ⟨header, h⟩ := HttpDecoder.foldl_addField (d := ({} : HttpDecoder).parseUrl r.url) r.fields
  exact ⟨header, h⟩

theorem collect_atHead :
    HttpDecoder.collect p .httpRequest {} (r.calls ++ rest) = HttpDecoder.collect p .httpRequest
      r.atHead (.onHeadersComplete :: (r.body.map .onBody
        ++ (r.trailers.flatMap Field.calls ++ rest))) := by
  rw [calls, List.cons_append, HttpDecoder.collect_cons_of_eq_zero rfl, List.append_assoc,
    HttpDecoder.collect_fields, List.cons_append, List.append_assoc]
  rfl

theorem collect_stopped (h : p.stops r.url = true) :
    HttpDecoder.collect p .httpRequest {} (r.calls ++ rest) = r.atHead := by
  obtain ⟨header, hhead⟩ := r.atHead_eq
  have hrefused : r.atHead.handle p .httpRequest .onHeadersComplete = (r.atHead, -1) := by
    rw [hhead]
    simp only [HttpDecoder.handle, HttpDecoder.parseHeaderComplete]
    rw [HttpParser.stops] at h
    split at h
    · rename_i hurl
      simp only [hurl]
    · exact absurd h Bool.false_ne_true
  have hne : (r.atHead.handle p .httpRequest .onHeadersComplete).2 ≠ 0 := by
    rw [hrefused]
    exact Int.neg_ne_zero.mpr Int.one_ne_zero
  rw [collect_atHead, HttpDecoder.collect_cons_of_ne_zero hne, hrefused]

/-- With a path in the URL, or a URL that cannot be parsed, the head is accepted. -/
theorem handle_atHead (h : p.stops r.url = false) : ∃ query,
    r.atHead.handle p .httpRequest .onHeadersComplete
      = ({ r.atHead with httpPath := some (r.path p), httpQuery := query }, 0) := by
  obtain ⟨header, hhead⟩ := r.atHead_eq
  rw [hhead]
  simp only [HttpDecoder.handle, HttpDecoder.parseHeaderComplete, path]
  rw [HttpParser.stops] at h
  cases hurl : p.parseUrl r.url with
  | none => exact ⟨some [], rfl⟩
  | some info =>
    obtain ⟨path, query⟩ := info
    cases path with
    | none =>
      rw [hurl] at h
      exact absurd h.symm Bool.false_ne_true
    | some path => exact ⟨_, rfl⟩

theorem collect_goesOn (h : p.stops r.url = false) : ∃ header query,
    HttpDecoder.collect p .httpRequest {} (r.calls ++ rest) = HttpDecoder.collect p .httpRequest
      { requestUrl := r.url, httpUrl := r.url, httpPath := some (r.path p), httpQuery := query
        parseHeader := header, httpBody := r.body.getLastD []
        headers := r.fields.flatMap Field.entries ++ r.trailers.flatMap Field.entries } rest := by
  obtain ⟨header, hhead⟩ := r.atHead_eq
  obtain ⟨query, hhandle⟩ := handle_atHead h
  obtain ⟨header', htrailers⟩ := HttpDecoder.foldl_addField
    (d := ({ r.atHead with httpPath := some (r.path p), httpQuery := query }).addBody r.body)
    r.trailers
  refine ⟨header', query, ?_⟩
  rw [collect_atHead, HttpDecoder.collect_cons_of_eq_zero (by rw [hhandle]), hhandle,
    HttpDecoder.collect_body, HttpDecoder.collect_fields, htrailers, HttpDecoder.addBody_eq, hhead]

theorem flatten_body_eq_nil : r.body.flatten = [] ↔ r.body = [] :=
  flatten_eq_nil_iff_of_ne_nil r.body_ne_nil

theorem path_of_stops (h : p.stops r.url = true) : r.path p = [] := by
  rw [HttpParser.stops] at h
  rw [path]
  split at h
  · rename_i hurl
    rw [hurl]
  · exact absurd h Bool.false_ne_true

theorem seen_stopped (h : p.stops r.url = true) :
    (HttpDecoder.collect p .httpRequest {} (r.calls ++ rest)).seen = r.seen p
      ↔ (∀ f ∈ r.fields, f.parts.length = 1) ∧ r.body = [] := by
  obtain ⟨header, hhead⟩ := r.atHead_eq
  have hheaders := @flatMap_entries_append_eq_iff r.fields []
  rw [List.append_nil] at hheaders
  rw [collect_stopped h, hhead, HttpDecoder.seen, seen, path_of_stops h, Seen.mk.injEq, hheaders,
    eq_comm (a := ([] : List UInt8)), flatten_body_eq_nil]
  simp

theorem seen_goesOn (h : p.stops r.url = false) (hrest : BodyAnnounced rest) :
    (HttpDecoder.collect p .httpRequest {} (r.calls ++ rest)).seen = r.seen p
      ↔ (∀ f ∈ r.fields, f.parts.length = 1) ∧ r.body.length ≤ 1 ∧ r.trailers = []
        ∧ r.Undisturbed p rest := by
  obtain ⟨header, query, hcollect⟩ := @collect_goesOn p r rest h
  set d : HttpDecoder := { requestUrl := r.url, httpUrl := r.url, httpPath := some (r.path p)
                           httpQuery := query, parseHeader := header, httpBody := r.body.getLastD []
                           headers := r.fields.flatMap Field.entries
                             ++ r.trailers.flatMap Field.entries } with hd
  set e : HttpDecoder := { requestUrl := r.url, httpPath := some (r.path p) } with he
  have halike := @HttpDecoder.alike_collect p .httpRequest d e rest rfl rfl
  obtain ⟨more, more', hlen, hmore, hmore'⟩ := halike.headers
  have hnil : more = [] ↔ (HttpDecoder.collect p .httpRequest e rest).headers = [] := by
    rw [hmore', he, List.nil_append, ← List.length_eq_zero_iff, hlen, List.length_eq_zero_iff]
  have hkept : more = [] →
      (HttpDecoder.collect p .httpRequest d rest).httpBody = r.body.getLastD [] := by
    intro hm
    rw [hm, List.append_nil] at hmore
    exact HttpDecoder.httpBody_collect hrest hmore
  rw [hcollect, HttpDecoder.seen, seen, Seen.mk.injEq, halike.httpPath, hmore, hd,
    List.append_assoc, flatMap_entries_append_eq_iff, List.append_eq_nil_iff,
    flatMap_entries_eq_nil, Undisturbed]
  -- on both sides nothing was added to the headers, which leaves the body alone
  constructor
  · rintro ⟨hpath, ⟨hfields, htrailers, hm⟩, hbody⟩
    rw [hkept hm, getLastD_eq_flatten_iff r.body_ne_nil] at hbody
    exact ⟨hfields, hbody, htrailers, hnil.mp hm, hpath⟩
  · rintro ⟨hfields, hbody, htrailers, hheaders, hpath⟩
    have hm := hnil.mpr hheaders
    refine ⟨hpath, ⟨hfields, htrailers, hm⟩, ?_⟩
    rw [hkept hm, getLastD_eq_flatten_iff r.body_ne_nil]
    exact hbody

/-- **What the handler sees is the first request of the package, and only that, exactly if the
callbacks can show it.** -/
theorem seen_eq_iff (hrest : BodyAnnounced rest) :
    (HttpDecoder.collect p .httpRequest {} (r.calls ++ rest)).seen = r.seen p
      ↔ r.Shown p rest := by
  cases hstops : p.stops r.url with
  | true =>
    rw [seen_stopped hstops]
    constructor
    · rintro ⟨hfields, hbody⟩
      refine ⟨hfields, by rw [hbody]; exact Nat.zero_le _, fun _ ↦ hbody, ?_, ?_⟩
      · intro hgo
        exact absurd (hgo.symm.trans hstops) Bool.false_ne_true
      · intro hgo
        exact absurd (hgo.symm.trans hstops) Bool.false_ne_true
    · intro hshown
      exact ⟨hshown.fields, hshown.stopped hstops⟩
  | false =>
    rw [seen_goesOn hstops hrest]
    constructor
    · rintro ⟨hfields, hbody, htrailers, hquiet⟩
      refine ⟨hfields, hbody, ?_, fun _ ↦ htrailers, fun _ ↦ hquiet⟩
      intro hstop
      exact absurd (hstops.symm.trans hstop) Bool.false_ne_true
    · intro hshown
      exact ⟨hshown.fields, hshown.body, hshown.trailers hstops, hshown.undisturbed hstops⟩

end Request

end Knet.Http
