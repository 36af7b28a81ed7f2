import Knet.Lib.Bytes
import Mathlib.Data.List.Infix
import Mathlib.Data.Nat.Basic

/-!
# The path of a URL

`HttpUrl::path()` parses the URL when it is first asked for a part of it. Where the URL is not valid
in some part, whichever that is, it throws `parse_error`. Otherwise the path is decoded and then
normalised: empty segments and those that stand for a directory itself or the one above are gone.

`normalize_IPv6` writes behind its arrays for some addresses. Its result does not matter here; that
it comes back with one is the parameter `returns`.
-/

namespace Knet.Http.HttpUrl

open Bytes

/-! ## Characters -/

/-- `tbl`, up to the characters that are in no class. -/
def tbl : List UInt8 :=
  [0, 0, 0, 0, 0, 0, 0, 0,
    0, 0, 0, 0, 0, 0, 0, 0,
    0, 0, 0, 0, 0, 0, 0, 0,
    0, 0, 0, 0, 0, 0, 0, 0,
    0x00, 0x01, 0x00, 0x00, 0x01, 0x20, 0x01, 0x01,
    0x01, 0x01, 0x01, 0x01, 0x01, 0x01, 0x01, 0x08,
    0x01, 0x01, 0x01, 0x01, 0x01, 0x01, 0x01, 0x01,
    0x01, 0x01, 0x04, 0x01, 0x00, 0x01, 0x00, 0x10,
    0x02, 0x01, 0x01, 0x01, 0x01, 0x01, 0x01, 0x01,
    0x01, 0x01, 0x01, 0x01, 0x01, 0x01, 0x01, 0x01,
    0x01, 0x01, 0x01, 0x01, 0x01, 0x01, 0x01, 0x01,
    0x01, 0x01, 0x01, 0x00, 0x00, 0x00, 0x00, 0x01,
    0x00, 0x01, 0x01, 0x01, 0x01, 0x01, 0x01, 0x01,
    0x01, 0x01, 0x01, 0x01, 0x01, 0x01, 0x01, 0x01,
    0x01, 0x01, 0x01, 0x01, 0x01, 0x01, 0x01, 0x01,
    0x01, 0x01, 0x01, 0x00, 0x00, 0x00, 0x01, 0x00]

/-- `is_char`. -/
def isChar (mask c : UInt8) : Bool := tbl.getD c.toNat 0 &&& mask != 0

/-- `is_chars`. -/
def isChars (s : List UInt8) (mask : UInt8) : Bool := s.all (isChar mask)

/-- `is_alpha`. -/
def isAlpha (c : UInt8) : Bool := (65 ≤ c && c ≤ 90) || (97 ≤ c && c ≤ 122)

/-- `is_num`. -/
def isNum (c : UInt8) : Bool := 48 ≤ c && c ≤ 57

/-- `get_hex_digit`, or `none` for `-1`. -/
def getHexDigit (c : UInt8) : Option UInt8 :=
  if 48 ≤ c && c ≤ 57 then some (c - 48)
  else if 65 ≤ c && c ≤ 70 then some (c - 55)
  else if 97 ≤ c && c ≤ 102 then some (c - 87)
  else none

/-- `is_hexdigit`. -/
def isHexdigit (c : UInt8) : Bool := (getHexDigit c).isSome

/-- `is_uint`: what is left behind the number, or `none` when there is none or it is too large. The
value is a `uint32_t`. -/
def isUint (max : ℕ) : List UInt8 → Option (List UInt8)
  | [] => none
  | c :: t =>
    if isNum c then
      if c = 48 then some t
      else if (t.takeWhile isNum).foldl (fun v d ↦ (v * 10 + (d.toNat - 48)) % 2 ^ 32)
          (c.toNat - 48) ≤ max then some (t.dropWhile isNum)
      else none
    else none

/-- What is in front of the first character of `q`, and the rest from there on. -/
def cutAt (q s : List UInt8) : List UInt8 × List UInt8 :=
  (s.takeWhile fun c ↦ !q.contains c, s.dropWhile fun c ↦ !q.contains c)

/-! ## Parts -/

/-- `is_scheme`. -/
def isScheme : List UInt8 → Bool
  | [] => false
  | c :: t => isAlpha c && t.all fun c ↦ isAlpha c || isNum c || [43, 45, 46].contains c

/-- `is_ipv4`. -/
def isIpv4 (s : List UInt8) : Bool :=
  7 ≤ s.length && s.length ≤ 254 && s.all fun c ↦ c == 46 || isNum c

/-- `is_reg_name`. -/
def isRegName (s : List UInt8) : Bool := isChars s 0x01

/-- `is_ipv6`. -/
def isIpv6 (s : List UInt8) : Bool :=
  2 ≤ s.length && s.length ≤ 254 && s.all fun c ↦ c == 58 || c == 46 || isHexdigit c

/-- `is_port`. -/
def isPort (s : List UInt8) : Bool := isUint 65535 s == some []

/-- `decode`, or `none` when it throws. -/
def decode : List UInt8 → Option (List UInt8)
  | [] => some []
  | 37 :: a :: b :: s =>
    match getHexDigit a, getHexDigit b with
    | some a, some b => (decode s).map ((a <<< 4 ||| b) :: ·)
    | _, _ => none
  | c :: s => if c = 37 then none else (decode s).map (c :: ·)

/-- `decode_plus`. -/
def decodePlus (s : List UInt8) : Option (List UInt8) :=
  decode (s.map fun c ↦ if c = 43 then 32 else c)

/-- The elements on the stack of `normalize_path` before the last one is read. -/
def pushAll : List (List UInt8) → List (List UInt8) → List (List UInt8)
  | elems, [] => elems
  | elems, elem :: rest =>
    if elem = [] ∨ elem = ofString "." then pushAll elems rest
    else if elem = ofString ".." then pushAll elems.dropLast rest
    else pushAll (elems ++ [elem]) rest

/-- The elements of a normalised path. An empty last one makes it end with a slash. -/
def normalElems (elems : List (List UInt8)) : List (List UInt8) :=
  let last := elems.getLastD []
  let elems := pushAll [] elems.dropLast
  if last = ofString "." then elems ++ [[]]
  else if last = ofString ".." then elems.dropLast
  else elems ++ [last]

/-- `normalize_path`. -/
def normalizePath (s : List UInt8) : List UInt8 :=
  if s = [] then s
  else (if s.head? = some 47 then [47] else []) ++ [47].intercalate (normalElems (s.splitOn 47))

section Parse

variable (returns : List UInt8 → Bool)

/-- `normalize_IPv6` neither throws nor runs out of its arrays. -/
def normalizesIPv6 (s : List UInt8) : Bool := isIpv6 s && returns s

/-- `parse_url` on what stands in brackets: whether it goes on behind them. `ip_v` is the digit
behind the `v`, and `6` has the host normalised. -/
def literalOk : List UInt8 → Bool
  | 118 :: h :: 46 :: host =>
    isHexdigit h && isChars host 0x05 && (h != 54 || normalizesIPv6 returns host)
  | 118 :: _ => false
  | host => normalizesIPv6 returns host

/-- `parse_url` on what follows the host. -/
def portOk : List UInt8 → Bool
  | 58 :: port => isPort port
  | _ => true

/-- `parse_url` on an authority. -/
def authorityOk (auth : List UInt8) : Bool :=
  let user := cutAt [64] auth
  (user.2 = [] || isChars user.1 0x05) &&
    match (if user.2 = [] then auth else user.2.tail) with
    | 91 :: b =>
      let literal := cutAt [93] b
      literal.2 != [] && literalOk returns literal.1 && portOk literal.2.tail
    | b =>
      let host := cutAt [58] b
      (isIpv4 host.1 || isRegName host.1) && portOk host.2

/-- `parse_url` on one key of a query and its value. -/
def keyVal (s : List UInt8) : Option (List UInt8 × List UInt8) :=
  let key := cutAt [61] s
  if isChars key.1 0x3F && isChars key.2.tail 0x3F then
    (decodePlus key.1).bind fun k ↦ (decodePlus key.2.tail).map fun v ↦ (k, v)
  else none

/-- `parse_url` on a query. -/
def parseQuery (s : List UInt8) : Option (List (List UInt8 × List UInt8)) :=
  if s = [] then some [] else (s.splitOnP fun c ↦ c == 59 || c == 38).mapM keyVal

/-- `parse_url` from the path on. -/
def pathOf (s : List UInt8) : Option (List UInt8) :=
  let path := cutAt [63, 35] s
  let query := if path.2.head? = some 63 then cutAt [35] path.2.tail else ([], path.2)
  let fragment := query.2.tail
  if isChars path.1 0x2F && isChars fragment 0x3F then
    (decode path.1).bind fun p ↦ (parseQuery query.1).bind fun _ ↦ (decode fragment).map fun _ ↦
      normalizePath p
  else none

/-- `HttpUrl(url).path()`, or `none` when it throws. -/
def path (url : List UInt8) : Option (List UInt8) :=
  if url = [] then some []
  else if 8000 < url.length then none
  else
    let scheme := cutAt [58, 47, 63, 35] url
    if scheme.2.head? = some 58 && !isScheme scheme.1 then none
    else
      match (if scheme.2.head? = some 58 then scheme.2.tail else url) with
      | 47 :: 47 :: s =>
        let auth := cutAt [47, 63, 35] s
        if authorityOk returns auth.1 then pathOf auth.2 else none
      | s => pathOf s

end Parse

end Knet.Http.HttpUrl
