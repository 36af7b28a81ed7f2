import Knet.Lib.HttpMessage
import Knet.Lib.OrderedMap

/-!
# Encoding HTTP messages

The texts of `http_message.hpp` and the part of `HttpEncoder` that requests and responses share: an
ordered map of headers, and the content of the message, whose length is one of the headers as soon
as there is any content.
-/

namespace Knet.Http

open Bytes

/-! ## Texts -/

/-- `HttpMethod`. -/
inductive HttpMethod
  | httpGet
  | httpHead
  | httpPost
  | httpPut
  | httpDelete
  | httpTrace
  | httpOptions
  | httpConnect
  | httpPatch
  deriving DecidableEq, Repr

def httpVersion11 : List UInt8 := ofString "HTTP/1.1"

def httpMethodGet : List UInt8 := ofString "GET"

def httpMethodHead : List UInt8 := ofString "HEAD"

def httpMethodPost : List UInt8 := ofString "POST"

def httpMethodPut : List UInt8 := ofString "PUT"

def httpMethodDelete : List UInt8 := ofString "DELETE"

def httpMethodTrace : List UInt8 := ofString "TRACE"

def httpMethodOptions : List UInt8 := ofString "OPTIONS"

def httpMethodConnect : List UInt8 := ofString "CONNECT"

def httpMethodPatch : List UInt8 := ofString "PATCH"

/-- `http_method_string`. -/
def httpMethodString : HttpMethod → List UInt8
  | .httpGet => httpMethodGet
  | .httpPost => httpMethodPost
  | .httpHead => httpMethodHead
  | .httpPut => httpMethodPut
  | .httpDelete => httpMethodDelete
  | .httpTrace => httpMethodTrace
  | .httpOptions => httpMethodOptions
  | .httpConnect => httpMethodConnect
  | .httpPatch => httpMethodTrace

/-- `mime_types::mappings`. -/
def mappings : List (List UInt8 × List UInt8) :=
  [(ofString "gif", ofString "image/gif"), (ofString "htm", ofString "text/html"),
    (ofString "html", ofString "text/html"), (ofString "jpg", ofString "image/jpeg"),
    (ofString "png", ofString "image/png"), (ofString "txt", ofString "text/html")]

/-- `mime_types::to_mime`. -/
def toMime (ext : List UInt8) : List UInt8 :=
  ((mappings.find? fun m ↦ m.1 = ext).map Prod.snd).getD (ofString "text/plain")

/-- `status_strings::to_string`. -/
def statusString : ℕ → List UInt8
  | 101 => ofString "HTTP/1.1 101  Web Socket Protocol Handshake"
  | 200 => ofString "HTTP/1.0 200 OK"
  | 201 => ofString "HTTP/1.0 201 Created"
  | 202 => ofString "HTTP/1.0 202 Accepted"
  | 204 => ofString "HTTP/1.0 204 No Content"
  | 300 => ofString "HTTP/1.0 300 Multiple Choices"
  | 301 => ofString "HTTP/1.0 301 Moved Permanently"
  | 302 => ofString "HTTP/1.0 302 Moved Temporarily"
  | 304 => ofString "HTTP/1.0 304 Not Modified"
  | 400 => ofString "HTTP/1.0 400 Bad Request"
  | 401 => ofString "HTTP/1.0 401 Unauthorized"
  | 403 => ofString "HTTP/1.0 403 Forbidden"
  | 404 => ofString "HTTP/1.0 404 Not Found"
  | 500 => ofString "HTTP/1.0 500 Internal Server Error"
  | 501 => ofString "HTTP/1.0 501 Not Implemented"
  | 502 => ofString "HTTP/1.0 502 Bad Gateway"
  | 503 => ofString "HTTP/1.0 503 Service Unavailable"
  | _ => ofString "HTTP/1.0 400 Bad Request"

/-! ## The encoder -/

/-- `HttpEncoder`, with the members of the message that it writes. -/
structure HttpEncoder where
  httpHeaders : OrderedMap (List UInt8) (List UInt8) := .empty
  contentType : List UInt8 := []
  content : List UInt8 := []

namespace HttpEncoder

/-- `add_header`. -/
def addHeader (e : HttpEncoder) (key value : List UInt8) : HttpEncoder :=
  { e with httpHeaders := e.httpHeaders.insert (key, value) }

/-- `set_content_type`. -/
def setContentType (e : HttpEncoder) (v : List UInt8) : HttpEncoder :=
  e.addHeader (ofString "Content-Type") v

/-- `set_content`. -/
def setContent (e : HttpEncoder) (body type : List UInt8) : HttpEncoder :=
  if body ≠ [] then
    ({ e with contentType := toMime type, content := body }).addHeader (ofString "Content-Length")
      (Text.decimal body.length)
  else e

/-- The headers as `encode` writes them. -/
def headerLines (e : HttpEncoder) : List UInt8 :=
  (e.httpHeaders.entries.filter (·.1 ≠ [])).flatMap fun h ↦
    h.1 ++ ofString ": " ++ h.2 ++ ofString "\r\n"

/-- The headers as the field lines that they are meant to be. -/
def fields (e : HttpEncoder) : List HttpMessage.Field :=
  e.httpHeaders.entries.map fun h ↦ ⟨h.1, h.2⟩

theorem ofString_colon : ofString ": " = [58, 32] := by decide +kernel

theorem ofString_crlf : ofString "\r\n" = [13, 10] := by decide +kernel

theorem headerLines_eq {e : HttpEncoder} (h : ∀ f ∈ e.fields, f.name ≠ []) :
    e.headerLines = HttpMessage.lines (e.fields.map HttpMessage.fieldLine) := by
  have hall : e.httpHeaders.entries.filter (·.1 ≠ []) = e.httpHeaders.entries := by
    refine List.filter_eq_self.mpr ?_
    intro entry hentry
    exact decide_eq_true (h ⟨entry.1, entry.2⟩ (List.mem_map_of_mem hentry))
  rw [headerLines, hall, fields, HttpMessage.lines, List.map_map, List.flatMap_map, ofString_colon,
    ofString_crlf]
  simp [HttpMessage.fieldLine]

end HttpEncoder

end Knet.Http
