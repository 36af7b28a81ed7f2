import Knet.Http.Encoder

/-!
# Requests

`HttpRequest(method, url, content, type)` and `add_header` collect what `encode` writes. What is
written is read by the message grammar as the same request, but for one method: the text for `PATCH`
is that of `TRACE`. `roundTrips_iff` has the other conditions. They are those on the caller: a
target that is not empty, values without whitespace around them, and no word on the length of the
body but the right one, nor on its coding.
-/

namespace Knet.Http

open Bytes
open HttpMessage (isSpace lower readNumber readRequest IsToken InLine Trimmed trim)
open OrderedMap (lastSet)

/-- `HttpRequest`, as far as it is encoded. -/
structure HttpRequest extends HttpEncoder where
  httpMethod : HttpMethod
  httpUrl : List UInt8

namespace HttpRequest

/-- `HttpRequest(method, url, content, type)`. -/
def new (method : HttpMethod) (url content type : List UInt8) : HttpRequest where
  httpMethod := method
  httpUrl := url
  toHttpEncoder := ({} : HttpEncoder).setContent content type

/-- `HttpRequest::add_header`. -/
def addHeader (r : HttpRequest) (h : List UInt8 × List UInt8) : HttpRequest :=
  { r with toHttpEncoder := r.toHttpEncoder.addHeader h.1 h.2 }

/-- `HttpEncoderHelper<_, HttpRequest>::encode`. -/
def encode (r : HttpRequest) : List UInt8 :=
  httpMethodString r.httpMethod ++ ofString " " ++ r.httpUrl ++ ofString " " ++ httpVersion11
    ++ ofString "\r\n" ++ r.headerLines ++ ofString "\r\n" ++ r.content

end HttpRequest

/-- The name of a method. -/
def HttpMethod.name : HttpMethod → List UInt8
  | .httpPatch => httpMethodPatch
  | method => httpMethodString method

/-- How a request is built: the arguments of the constructor, and those of the calls of
`add_header`. -/
structure Built where
  method : HttpMethod
  url : List UInt8
  content : List UInt8
  type : List UInt8
  calls : List (List UInt8 × List UInt8)
  url_word : ∀ c ∈ url, isSpace c = false
  calls_ok : ∀ h ∈ calls, IsToken h.1 ∧ InLine h.2

namespace Built

variable (b : Built)

/-- The request. -/
def request : HttpRequest :=
  b.calls.foldl HttpRequest.addHeader (HttpRequest.new b.method b.url b.content b.type)

/-- The header that the constructor sets for the content. -/
def lengthHeader : List (List UInt8 × List UInt8) :=
  if b.content ≠ [] then [(ofString "Content-Length", Text.decimal b.content.length)] else []

/-- The headers that were set, one after the other. -/
def sets : List (List UInt8 × List UInt8) := b.lengthHeader ++ b.calls

/-- **The round trip.** What is encoded is one request, with the same method, target and body, and
for each name the value that was set last. -/
def RoundTrips : Prop :=
  ∃ m, readRequest b.request.encode = some m ∧ m.method = b.method.name ∧ m.target = b.url
    ∧ (m.fields.map HttpMessage.Field.name).Nodup
    ∧ (∀ name value, ⟨name, value⟩ ∈ m.fields ↔ lastSet name b.sets = some value)
    ∧ m.body = b.content

/-- The method is not `PATCH`, there is a target, no value has whitespace around it, the length of
the body is given once at most and then it is right, and the body is not said to be coded. -/
structure Plain : Prop where
  method : b.method ≠ .httpPatch
  url : b.url ≠ []
  trimmed : ∀ name value, lastSet name b.sets = some value → Trimmed value
  length : ∀ name value, name.map lower = ofString "content-length" →
    lastSet name b.sets = some value → readNumber value = some b.content.length
  once : ∀ name name', name.map lower = ofString "content-length" →
    name'.map lower = ofString "content-length" → lastSet name b.sets ≠ none →
    lastSet name' b.sets ≠ none → name = name'
  coding : ∀ name, name.map lower = ofString "transfer-encoding" → lastSet name b.sets = none

/-! ## What is encoded -/

theorem foldl_addHeader (r : HttpRequest) (calls : List (List UInt8 × List UInt8)) :
    calls.foldl HttpRequest.addHeader r = { r with
      httpHeaders := calls.foldl OrderedMap.insert r.httpHeaders } := by
  induction calls generalizing r with
  | nil => rfl
  | cons h calls ih => rw [List.foldl_cons, ih, List.foldl_cons]; rfl

/-- The headers hold what was set last, and the content is what the constructor was given. -/
theorem request_eq : b.request.httpHeaders = b.sets.foldl OrderedMap.insert .empty
    ∧ b.request.content = b.content ∧ b.request.httpMethod = b.method
    ∧ b.request.httpUrl = b.url := by
  rw [request, foldl_addHeader]
  refine ⟨?_, ?_, rfl, rfl⟩
  · rw [sets, List.foldl_append, lengthHeader, HttpRequest.new, HttpEncoder.setContent]
    split_ifs <;> rfl
  · simp only [HttpRequest.new, HttpEncoder.setContent]
    split_ifs with h
    · rfl
    · exact (not_not.mp h).symm

theorem mem_fields {name value : List UInt8} :
    ⟨name, value⟩ ∈ b.request.fields ↔ lastSet name b.sets = some value := by
  rw [HttpEncoder.fields, b.request_eq.1]
  have hmem := @OrderedMap.mem_foldl_insert _ _ _ _ _ _ _ _ .empty b.sets name value
  simp only [OrderedMap.empty, List.not_mem_nil, and_false, or_false] at hmem
  rw [← hmem]
  constructor
  · intro h
    obtain ⟨entry, hentry, heq⟩ := List.mem_map.mp h
    cases heq
    exact hentry
  · intro h
    exact List.mem_map.mpr ⟨_, h, rfl⟩

theorem nodup_fields : (b.request.fields.map HttpMessage.Field.name).Nodup := by
  have h := b.request.httpHeaders.nodup_keys
  rw [HttpEncoder.fields, List.map_map]
  exact h

theorem sets_ok : ∀ h ∈ b.sets, IsToken h.1 ∧ InLine h.2 := by
  intro h hmem
  rw [sets, List.mem_append] at hmem
  rcases hmem with hmem | hmem
  · rw [lengthHeader] at hmem
    split_ifs at hmem
    · obtain rfl := List.mem_singleton.mp hmem
      have htoken : IsToken (ofString "Content-Length") := by decide +kernel
      refine ⟨htoken, ?_, ?_⟩
      · intro hcr
        exact absurd (Text.isDigit_decimal _ hcr) (by decide)
      · intro hlf
        exact absurd (Text.isDigit_decimal _ hlf) (by decide)
    · exact absurd hmem List.not_mem_nil
  · exact b.calls_ok h hmem

theorem fields_ok : ∀ f ∈ b.request.fields, IsToken f.name ∧ InLine f.value := by
  intro f hf
  exact b.sets_ok _ (OrderedMap.mem_of_lastSet (b.mem_fields.mp hf))

/-- The first line. -/
def startLine : List UInt8 := httpMethodString b.method ++ 32 :: (b.url ++ 32 :: httpVersion11)

/-- All methods. -/
def methods : List HttpMethod :=
  [.httpGet, .httpHead, .httpPost, .httpPut, .httpDelete, .httpTrace, .httpOptions, .httpConnect,
    .httpPatch]

theorem mem_methods (m : HttpMethod) : m ∈ methods := by
  cases m <;> decide

theorem methods_table : ∀ m ∈ methods,
    (32 ∉ httpMethodString m ∧ 13 ∉ httpMethodString m) ∧ IsToken (httpMethodString m)
      ∧ (httpMethodString m = m.name ↔ m ≠ .httpPatch) := by
  decide +kernel

theorem method_word (m : HttpMethod) : 32 ∉ httpMethodString m ∧ 13 ∉ httpMethodString m :=
  (methods_table m (mem_methods m)).1

theorem isToken_method (m : HttpMethod) : IsToken (httpMethodString m) :=
  (methods_table m (mem_methods m)).2.1

theorem not_mem_url {c : UInt8} (hc : isSpace c = true) : c ∉ b.url := by
  intro h
  exact absurd ((b.url_word c h).symm.trans hc) Bool.false_ne_true

theorem encode_eq : b.request.encode =
    HttpMessage.lines (b.startLine :: b.request.fields.map HttpMessage.fieldLine)
      ++ 13 :: 10 :: b.content := by
  have hspace : ofString " " = [32] := by decide +kernel
  obtain ⟨-, hcontent, hmethod, hurl⟩ := b.request_eq
  have hnames : ∀ f ∈ b.request.fields, f.name ≠ [] := fun f hf ↦ (b.fields_ok f hf).1.1
  rw [HttpRequest.encode, HttpEncoder.headerLines_eq hnames, hcontent, hmethod, hurl, hspace,
    HttpEncoder.ofString_crlf, startLine, HttpMessage.lines, HttpMessage.lines, List.flatMap_cons]
  simp

/-- The fields as they are read. -/
def readBack : List HttpMessage.Field := b.request.fields.map fun f ↦ ⟨f.name, trim f.value⟩

theorem readRequest_encode : readRequest b.request.encode =
    if b.url ≠ [] then
      (HttpMessage.readBody b.readBack b.content (if b.content = [] then some [] else none)).map
        fun body ↦ ⟨httpMethodString b.method, b.url, b.readBack, body⟩
    else none := by
  have hversion : 32 ∉ httpVersion11 ∧ 13 ∉ httpVersion11 := by decide +kernel
  have hstart : 13 ∉ b.startLine ∧ b.startLine ≠ [] := by
    have hurl := b.not_mem_url (c := 13) (by decide)
    rw [startLine]
    simp [hversion.2, hurl, (method_word b.method).2]
  rw [encode_eq, HttpMessage.readRequest_lines hstart b.fields_ok, startLine,
    HttpMessage.readRequestLine_eq (method_word b.method).1 (b.not_mem_url (by decide)) hversion.1]
  by_cases hurl : b.url = []
  · rw [if_neg (fun h ↦ h.2.1 hurl), if_neg (not_not.mpr hurl)]
    rfl
  · have hword : b.url.all (fun c ↦ !isSpace c) = true := by
      rw [List.all_eq_true]
      intro c hc
      rw [b.url_word c hc, Bool.not_false]
    rw [if_pos ⟨isToken_method b.method, hurl, hword, rfl⟩, if_pos hurl]
    rfl

/-! ## The round trip -/

variable {b}

theorem httpMethodString_eq_name_iff {m : HttpMethod} :
    httpMethodString m = m.name ↔ m ≠ .httpPatch :=
  (methods_table m (mem_methods m)).2.2

/-- What is read back holds the values that were set if there is no whitespace around them. -/
theorem readBack_eq (h : ∀ name value, lastSet name b.sets = some value → Trimmed value) :
    b.readBack = b.request.fields := by
  rw [readBack, ← List.map_id b.request.fields, List.map_map]
  refine List.map_congr_left fun f hf ↦ ?_
  rw [Function.comp_apply, id, HttpMessage.trim_eq_self_iff.mpr (h _ _ (b.mem_fields.mp hf))]

theorem content_eq_nil (h : HttpMessage.lengths b.request.fields = []) : b.content = [] := by
  by_contra hne
  have hset : (ofString "Content-Length", Text.decimal b.content.length) ∈ b.sets := by
    rw [sets, lengthHeader, if_pos hne]
    exact List.mem_append_left _ List.mem_cons_self
  obtain ⟨value, hvalue⟩ := Option.ne_none_iff_exists'.mp (OrderedMap.lastSet_ne_none hset)
  have hname : (ofString "Content-Length").map lower = ofString "content-length" := by
    decide +kernel
  exact HttpMessage.valuesOf_eq_nil_iff.mp h _ (b.mem_fields.mpr hvalue) hname

/-- **The exact condition.** A request is read back as it was built exactly if it is plain. -/
theorem roundTrips_iff (b : Built) : b.RoundTrips ↔ b.Plain := by
  have hlength := HttpMessage.readBody_eq_some_iff (content_eq_nil (b := b))
  rw [HttpMessage.codings, HttpMessage.valuesOf_eq_nil_iff, HttpMessage.lengths,
    HttpMessage.valuesOf_atMostOne_iff b.nodup_fields] at hlength
  rw [RoundTrips, readRequest_encode]
  constructor
  · rintro ⟨m, hread, hmethod, -, -, hfields, hbody⟩
    have hurl : b.url ≠ [] := by
      intro hurl
      rw [if_neg (not_not.mpr hurl)] at hread
      exact absurd hread.symm (Option.some_ne_none m)
    rw [if_pos hurl] at hread
    obtain ⟨body, hsome, rfl⟩ := Option.map_eq_some_iff.mp hread
    -- a value that was set is read back without the whitespace around it
    have htrimmed : ∀ name value, lastSet name b.sets = some value → Trimmed value := by
      intro name value hset
      have hmem : ⟨name, trim value⟩ ∈ b.readBack :=
        List.mem_map.mpr ⟨_, b.mem_fields.mpr hset, rfl⟩
      have hagain := (hfields _ _).mp hmem
      rw [hset, Option.some.injEq] at hagain
      exact HttpMessage.trim_eq_self_iff.mp hagain.symm
    have hbody : body = b.content := hbody
    rw [readBack_eq htrimmed, hbody] at hsome
    obtain ⟨hcoding, hvalue, hname⟩ := hlength.mp hsome
    refine ⟨httpMethodString_eq_name_iff.mp hmethod, hurl, htrimmed, ?_, ?_, ?_⟩
    · intro name value hlower hset
      exact hvalue _ (b.mem_fields.mpr hset) hlower
    · intro name name' hlower hlower' hset hset'
      obtain ⟨value, hset⟩ := Option.ne_none_iff_exists'.mp hset
      obtain ⟨value', hset'⟩ := Option.ne_none_iff_exists'.mp hset'
      exact hname _ (b.mem_fields.mpr hset) _ (b.mem_fields.mpr hset') hlower hlower'
    · intro name hlower
      by_contra hset
      obtain ⟨value, hset⟩ := Option.ne_none_iff_exists'.mp hset
      exact hcoding _ (b.mem_fields.mpr hset) hlower
  · rintro ⟨hmethod, hurl, htrimmed, hvalue, honce, hcoding⟩
    rw [readBack_eq htrimmed, if_pos hurl]
    have hread := hlength.mpr ⟨?_, ?_, ?_⟩
    · refine ⟨_, by rw [hread]; rfl, ?_, rfl, b.nodup_fields, fun _ _ ↦ b.mem_fields, rfl⟩
      exact httpMethodString_eq_name_iff.mpr hmethod
    · intro f hf hlower
      have hset := b.mem_fields.mp hf
      rw [hcoding f.name hlower] at hset
      exact absurd hset.symm (Option.some_ne_none _)
    · intro f hf hlower
      exact hvalue _ _ hlower (b.mem_fields.mp hf)
    · intro f hf g hg hlower hlower'
      refine honce _ _ hlower hlower' ?_ ?_
      · rw [b.mem_fields.mp hf]
        exact Option.some_ne_none _
      · rw [b.mem_fields.mp hg]
        exact Option.some_ne_none _

/-- A request for a change to the root. -/
def patchRequest : Built where
  method := .httpPatch
  url := ofString "/"
  content := ofString "x"
  type := ofString "txt"
  calls := []
  url_word := by decide +kernel
  calls_ok := by simp

/-- **A `PATCH` is sent as a `TRACE`.** -/
theorem patch_read_as_trace : ¬patchRequest.RoundTrips := by
  rintro ⟨m, hread, hmethod, -⟩
  have htrace : (readRequest patchRequest.request.encode).map HttpMessage.Request.method
      = some (ofString "TRACE") := by
    decide +kernel
  rw [hread, Option.map_some, hmethod] at htrace
  exact absurd htrace (by decide +kernel)

end Built

end Knet.Http
