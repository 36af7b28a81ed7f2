import Knet.Http.NormalizeIpv6
import Mathlib.Data.List.TakeWhile

/-!
# `parse_url`

`parse_url` marks the parts of the text with pairs of pointers, checks the characters of most of
them, and then decodes and normalises each. The members change at the very end. Here a pointer is
the index of a character; the functions that go over a part (`is_chars`, `find_first_of`, `decode`
and so on) read nothing but that part, which has to lie inside the text.

`scan` says the same about the text alone, without indices: `scanAt_eq`.
-/

namespace Knet.Http.HttpUrl

open Bytes Checked

/-! ## The object -/

/-- A query. -/
abbrev Query := List (List UInt8 × List UInt8)

/-- What is parsed. No version is `-1`. -/
structure Parts where
  scheme : List UInt8 := []
  user : List UInt8 := []
  host : List UInt8 := []
  ipV : ℤ := -1
  port : List UInt8 := []
  path : List UInt8 := []
  query : Query := []
  fragment : List UInt8 := []
deriving DecidableEq

/-- `HttpUrl`. -/
structure Url extends Parts where
  url : List UInt8 := []
  parse : Bool := true
  built : Bool := true
deriving DecidableEq

/-- `HttpUrl::clear`. -/
def Url.clear (_ : Url) : Url := {}

/-- `HttpUrl(url_str)`. -/
def Url.ofText (s : List UInt8) : Url := { url := s, parse := false, built := false }

/-- The parts that are marked, as they stand in the text. -/
structure Raw where
  scheme : Option (List UInt8) := none
  user : Option (List UInt8) := none
  host : Option (List UInt8) := none
  ipV : ℤ := -1
  port : Option (List UInt8) := none
  path : List UInt8 := []
  query : Option (List UInt8) := none
  fragment : Option (List UInt8) := none

/-! ## Pointers -/

/-- `throw` unless a check is passed. -/
def require (ok : Bool) (e : ParseError) : Checked Unit :=
  if ok then .ok () else .error (.threw e)

/-- `find_first_of`. -/
def findFirstOf (s : List UInt8) (b e : ℕ) (q : List UInt8) : Checked ℕ := do
  let cs ← slice s b e
  return b + (cutAt q cs).1.length

/-- `get_hex_digit` of a digit, as a version. -/
def version (c : UInt8) : ℤ := ((getHexDigit c).map fun d ↦ (d.toNat : ℤ)).getD (-1)

/-- The version behind a `v` at `b`. A second digit pushes the first one out of the eight bits. -/
def versionAt (s : List UInt8) (b p : ℕ) : Checked (ℤ × ℕ) := do
  let c ← charAt s (b + 1)
  let d ← if isHexdigit c then charAt s (b + 2) else pure 0
  let (ipV, b) :=
    if isHexdigit c then (if isHexdigit d then version d else version c, b + 2) else (-1, b + 1)
  require (ipV ≠ -1) .hostAddress
  let c ← charAt s b
  require (c = 46) .hostAddress
  let host ← slice s (b + 1) p
  require (isChars host 0x05) .hostAddress
  return (ipV, b + 1)

/-- The version and the first character of a literal at `b`. -/
def literalAt (s : List UInt8) (b p : ℕ) : Checked (ℤ × ℕ) := do
  let c ← charAt s b
  if c = 118 then versionAt s b p
  else do
    let host ← slice s b p
    require (isIpv6 host) .hostAddress
    return (6, b)

/-- A host in brackets, its version, and what is behind. -/
def bracketAt (s : List UInt8) (b ea : ℕ) : Checked (List UInt8 × ℤ × ℕ) := do
  let p ← findFirstOf s b ea [93]
  let c ← charAt s p
  require (c = 93) .missingBracket
  let (ipV, b) ← literalAt s b p
  let host ← slice s b p
  return (host, ipV, p + 1)

/-- A host without brackets. -/
def nameAt (s : List UInt8) (b ea : ℕ) : Checked (List UInt8 × ℤ × ℕ) := do
  let p ← findFirstOf s b ea [58]
  let host ← slice s b p
  require (isIpv4 host || isRegName host) .hostAddress
  return (host, if isIpv4 host then 4 else 0, p)

/-- A port. What is not one is not looked at. -/
def portAt (s : List UInt8) (b ea : ℕ) : Checked (Option (List UInt8)) :=
  if b = ea then return none
  else do
    let c ← charAt s b
    if c = 58 then do
      let port ← slice s (b + 1) ea
      require (isPort port) (.port port)
      return some port
    else return none

/-- The user info, and where the host begins. -/
def userAt (s : List UInt8) (b ea : ℕ) : Checked (Option (List UInt8) × ℕ) := do
  let p ← findFirstOf s b ea [64]
  if p = ea then return (none, b)
  else do
    let user ← slice s b p
    require (isChars user 0x05) .userInfo
    return (some user, p + 1)

/-- A host, its version, and what is behind. -/
def hostAt (s : List UInt8) (b ea : ℕ) : Checked (List UInt8 × ℤ × ℕ) := do
  let c ← charAt s b
  if c = 91 then bracketAt s (b + 1) ea
  else nameAt s b ea

/-- An authority. -/
def authorityAt (s : List UInt8) (b ea : ℕ) : Checked Raw := do
  let (user, b) ← userAt s b ea
  let (host, ipV, b) ← hostAt s b ea
  let port ← portAt s b ea
  return { user, host := some host, ipV, port }

/-- The scheme, and where the rest begins and its first mark is. -/
def schemeAt (s : List UInt8) (p : ℕ) : Checked (Option (List UInt8) × ℕ × ℕ) := do
  let c ← charAt s p
  if c = 58 then do
    let scheme ← slice s 0 p
    require (isScheme scheme) .scheme
    let p' ← findFirstOf s (p + 1) s.length [47, 63, 35]
    return (some scheme, p + 1, p')
  else return (none, 0, p)

/-- Two slashes at `b`. -/
def slashesAt (s : List UInt8) (b p : ℕ) : Checked Bool :=
  if p = s.length then return false
  else do
    let c ← charAt s p
    if c ≠ 47 ∨ s.length - b ≤ 1 then return false
    else do
      let c ← charAt s b
      if c ≠ 47 then return false
      else do
        let c ← charAt s (b + 1)
        return c = 47

/-- The query. -/
def queryAt (s : List UInt8) (p : ℕ) : Checked (Option (List UInt8) × ℕ) :=
  if p = s.length then return (none, p)
  else do
    let c ← charAt s p
    if c = 63 then do
      let p' ← findFirstOf s (p + 1) s.length [35]
      let query ← slice s (p + 1) p'
      return (some query, p')
    else return (none, p)

/-- The fragment. -/
def fragmentAt (s : List UInt8) (p : ℕ) : Checked (Option (List UInt8)) :=
  if p = s.length then return none
  else do
    let c ← charAt s p
    if c = 35 then do
      let fragment ← slice s (p + 1) s.length
      require (isChars fragment 0x3F) (.fragment fragment)
      return some fragment
    else return none

/-- From the path on. -/
def pathAt (s : List UInt8) (b : ℕ) (raw : Raw) : Checked Raw := do
  let p ← findFirstOf s b s.length [63, 35]
  let path ← slice s b p
  require (isChars path 0x2F) (.path path)
  let (query, p) ← queryAt s p
  let fragment ← fragmentAt s p
  return { raw with path, query, fragment }

/-- From the authority on, when the first mark is at `p`. -/
def hierAt (s : List UInt8) (b p : ℕ) (scheme : Option (List UInt8)) : Checked Raw := do
  let slashes ← slashesAt s b p
  if slashes then do
    let ea ← findFirstOf s (b + 2) s.length [47, 63, 35]
    let raw ← authorityAt s (b + 2) ea
    pathAt s ea { raw with scheme }
  else pathAt s b { scheme }

/-- `parse_url` up to where the parts are decoded. -/
def scanAt (s : List UInt8) : Checked Raw := do
  require (s.length ≤ 8000) .tooLong
  let p ← findFirstOf s 0 s.length [58, 47, 63, 35]
  if p = s.length then do
    let path ← slice s 0 p
    require (isChars path 0x2F) (.path path)
    return { path }
  else do
    let (scheme, b, p) ← schemeAt s p
    hierAt s b p scheme

/-! ## Decoding -/

/-- `to_lower`. -/
def toLower (s : List UInt8) : List UInt8 :=
  s.map fun c ↦ if 65 ≤ c && c ≤ 90 then c ||| 0x20 else c

/-- What `decode` gives, or its exception. -/
def decoded : Option (List UInt8) → Checked (List UInt8)
  | some s => .ok s
  | none => .error (.threw .percentEncoding)

/-- The host, as its version says. -/
def hostOf (ipV : ℤ) (host : List UInt8) : Checked (List UInt8) := do
  let host ← decoded (decode host)
  if ipV = 0 then return toLower host
  else if ipV = 6 then normalizeIPv6 host
  else return host

/-- The loop over a query from `b` on. -/
def queryLoop (q : List UInt8) : (fuel b : ℕ) → Checked Query
  | 0, _ => .error .outside
  | fuel + 1, b => do
    let p ← findFirstOf q b q.length [61, 59, 38]
    let key ← slice q b p
    require (isChars key 0x3F) (.queryKey key)
    let key ← decoded (decodePlus key)
    if p = q.length then return [(key, [])]
    else do
      let c ← charAt q p
      if c = 61 then do
        let p' ← findFirstOf q (p + 1) q.length [59, 38]
        let val ← slice q (p + 1) p'
        require (isChars val 0x3F) (.queryValue val)
        let val ← decoded (decodePlus val)
        if p' = q.length then return [(key, val)]
        else do
          let rest ← queryLoop q fuel (p' + 1)
          return (key, val) :: rest
      else do
        let rest ← queryLoop q fuel (p + 1)
        return (key, []) :: rest

/-- A query. -/
def queryOf (q : List UInt8) : Checked Query :=
  if q = [] then return [] else queryLoop q (q.length + 1) 0

/-- The parts, decoded and normalised. -/
def Raw.decode (raw : Raw) : Checked Parts := do
  let scheme := toLower (raw.scheme.getD [])
  let user ← decoded (HttpUrl.decode (raw.user.getD []))
  let host ← match raw.host with
    | some host => hostOf raw.ipV host
    | none => pure []
  let port := raw.port.getD []
  let path ← decoded (HttpUrl.decode raw.path)
  let query ← queryOf (raw.query.getD [])
  let fragment ← decoded (HttpUrl.decode (raw.fragment.getD []))
  return ⟨scheme, user, host, raw.ipV, port, normalizePath path, query, fragment⟩

/-- `parse_url`: how it ends, and the object then. -/
def Url.parseUrl (u : Url) : Except (Fault ParseError) Unit × Url :=
  if u.url = [] then (.ok (), { u.clear with parse := true, built := true })
  else
    match (do let raw ← scanAt u.url; raw.decode : Checked Parts) with
    | .ok parts => (.ok (), { toParts := parts, url := u.url, parse := true, built := false })
    | .error e => (.error e, u)

/-! ## The text alone -/

/-- What stands in brackets: its version and the host. -/
def literal : List UInt8 → Checked (ℤ × List UInt8)
  | 118 :: h :: 46 :: host => do
    require (isHexdigit h && isChars host 0x05) .hostAddress
    return (version h, host)
  | 118 :: _ => .error (.threw .hostAddress)
  | host => do
    require (isIpv6 host) .hostAddress
    return (6, host)

/-- A host in brackets, its version, and what is behind. -/
def bracket (s : List UInt8) : Checked (List UInt8 × ℤ × List UInt8) := do
  let lit := cutAt [93] s
  require (lit.2 ≠ []) .missingBracket
  let (ipV, host) ← literal lit.1
  return (host, ipV, lit.2.tail)

/-- A host without brackets. -/
def name (s : List UInt8) : Checked (List UInt8 × ℤ × List UInt8) := do
  let host := cutAt [58] s
  require (isIpv4 host.1 || isRegName host.1) .hostAddress
  return (host.1, if isIpv4 host.1 then 4 else 0, host.2)

/-- A port. -/
def portPart : List UInt8 → Checked (Option (List UInt8))
  | 58 :: port => do
    require (isPort port) (.port port)
    return some port
  | _ => return none

/-- The user info, and the host. -/
def userPart (s : List UInt8) : Checked (Option (List UInt8) × List UInt8) :=
  let user := cutAt [64] s
  if user.2 = [] then return (none, s)
  else do
    require (isChars user.1 0x05) .userInfo
    return (some user.1, user.2.tail)

/-- A host, its version, and what is behind. -/
def hostPart (s : List UInt8) : Checked (List UInt8 × ℤ × List UInt8) :=
  if s.head? = some 91 then bracket s.tail else name s

/-- An authority. -/
def authority (s : List UInt8) : Checked Raw := do
  let (user, s) ← userPart s
  let (host, ipV, s) ← hostPart s
  let port ← portPart s
  return { user, host := some host, ipV, port }

/-- The query, and what is behind. -/
def queryPart : List UInt8 → Option (List UInt8) × List UInt8
  | 63 :: s => (some (cutAt [35] s).1, (cutAt [35] s).2)
  | s => (none, s)

/-- The fragment. -/
def fragmentPart : List UInt8 → Checked (Option (List UInt8))
  | 35 :: fragment => do
    require (isChars fragment 0x3F) (.fragment fragment)
    return some fragment
  | _ => return none

/-- From the path on. -/
def pathPart (s : List UInt8) (raw : Raw) : Checked Raw := do
  let path := cutAt [63, 35] s
  require (isChars path.1 0x2F) (.path path.1)
  let fragment ← fragmentPart (queryPart path.2).2
  return { raw with path := path.1, query := (queryPart path.2).1, fragment }

/-- From the authority on. -/
def hierPart (s : List UInt8) (scheme : Option (List UInt8)) : Checked Raw :=
  match s with
  | 47 :: 47 :: s => do
    let auth := cutAt [47, 63, 35] s
    let raw ← authority auth.1
    pathPart auth.2 { raw with scheme }
  | s => pathPart s { scheme }

/-- `parse_url` up to where the parts are decoded. -/
def scan (s : List UInt8) : Checked Raw := do
  require (s.length ≤ 8000) .tooLong
  let cut := cutAt [58, 47, 63, 35] s
  if cut.2 = [] then do
    require (isChars s 0x2F) (.path s)
    return { path := s }
  else if cut.2.head? = some 58 then do
    require (isScheme cut.1) .scheme
    hierPart cut.2.tail (some cut.1)
  else hierPart s none

/-- A key, and the value behind the first `=`. -/
def pairOf (s : List UInt8) : Checked (List UInt8 × List UInt8) := do
  let cut := cutAt [61] s
  require (isChars cut.1 0x3F) (.queryKey cut.1)
  let key ← decoded (decodePlus cut.1)
  require (isChars cut.2.tail 0x3F) (.queryValue cut.2.tail)
  let val ← decoded (decodePlus cut.2.tail)
  return (key, val)

/-- The mark behind a pair. -/
def isMark (c : UInt8) : Bool := c == 59 || c == 38

/-- The pairs of a query. -/
def pairsOf (q : List UInt8) : Checked Query :=
  if q = [] then return [] else (q.splitOnP isMark).mapM pairOf

section Positions

variable {s pre mid post q : List UInt8} {b e : ℕ}

theorem cutAt_append (q s : List UInt8) : (cutAt q s).1 ++ (cutAt q s).2 = s :=
  List.takeWhile_append_dropWhile

theorem cutAt_head {q s r : List UInt8} {c : UInt8} (h : (cutAt q s).2 = c :: r) : c ∈ q := by
  have hnot := List.head?_dropWhile_not (fun c ↦ !q.contains c) s
  rw [show (s.dropWhile fun c ↦ !q.contains c) = c :: r from h] at hnot
  simpa using hnot

theorem not_mem_cutAt {q : List UInt8} {c : UInt8} (hc : c ∈ q) (s : List UInt8) :
    c ∉ (cutAt q s).1 := by
  intro hmem
  have hnot := List.mem_takeWhile_imp hmem
  simp [hc] at hnot

theorem findFirstOf_eq (hs : s = pre ++ (mid ++ post)) (hb : pre.length = b)
    (he : b + mid.length = e) : findFirstOf s b e q = .ok (b + (cutAt q mid).1.length) := by
  rw [findFirstOf, hs, slice_append hb he]
  rfl

theorem require_bind {α : Type} {ok : Bool} {err : ParseError} {f : Unit → Checked α} :
    (require ok err >>= f) = if ok then f () else .error (.threw err) := by
  rw [require]
  split_ifs <;> rfl

theorem version_ne {c : UInt8} (h : isHexdigit c = true) : version c ≠ -1 := by
  rw [isHexdigit] at h
  obtain ⟨d, hd⟩ := Option.isSome_iff_exists.mp h
  rw [version, hd, Option.map_some, Option.getD_some]
  omega

theorem literal_of_ne {h c : UInt8} {t : List UInt8} (hc : c ≠ 46) :
    literal (118 :: h :: c :: t) = .error (.threw .hostAddress) := by
  rw [literal]
  rintro _ _ ⟨⟩
  exact hc rfl

theorem versionAt_eq {t : List UInt8} (hs : s = pre ++ (118 :: t ++ 93 :: post))
    (hb : pre.length = b) (he : b + 1 + t.length = e) :
    versionAt s b e = (literal (118 :: t)).map fun r ↦ (r.1, e - r.2.length) := by
  subst hb
  -- Nothing stands behind the `v` but the bracket, or a character `c` of the literal.
  rcases t with _ | ⟨c, t⟩
  · have hc : charAt (ε := ParseError) s (pre.length + 1) = .ok 93 := by
      rw [hs, List.cons_append, List.append_cons]
      exact charAt_append (by simp)
    rw [versionAt, hc, ok_bind]
    rfl
  · have hc : charAt (ε := ParseError) s (pre.length + 1) = .ok c := by
      rw [hs, List.cons_append, List.append_cons]
      exact charAt_append (by simp)
    rw [versionAt, hc, ok_bind]
    by_cases hhex : isHexdigit c = true
    -- The second character may be the bracket: it is read, and is no digit.
    · obtain ⟨d, r, hr⟩ : ∃ d r, t ++ 93 :: post = d :: r :=
        List.exists_cons_of_ne_nil (by simp)
      have hd : charAt (ε := ParseError) s (pre.length + 2) = .ok d := by
        rw [hs, List.cons_append, List.cons_append, hr, List.append_cons, List.append_cons]
        exact charAt_append (by simp)
      -- So only what follows decides: a second digit stays where a dot is expected.
      have hversion : (if isHexdigit d then version d else version c) ≠ -1 := by
        split_ifs with hd'
        · exact version_ne hd'
        · exact version_ne hhex
      simp only [hhex, if_true, hd, ok_bind, require_bind, decide_eq_true_eq, hversion, ne_eq,
        not_false_eq_true]
      by_cases hdot : d = 46
      · subst hdot
        rcases t with _ | ⟨d, host⟩
        · exact absurd (List.cons.inj hr).1 (by decide)
        obtain rfl : d = 46 := (List.cons.inj hr).1
        have hslice : slice (ε := ParseError) s (pre.length + 2 + 1) e = .ok host := by
          rw [hs, show pre ++ (118 :: c :: 46 :: host ++ 93 :: post) =
            (pre ++ [118, c, 46]) ++ (host ++ 93 :: post) by simp]
          exact slice_append (by simp) (by rw [← he]; simp only [List.length_cons]; omega)
        rw [if_pos rfl, hslice, ok_bind, literal, hhex, require_bind, Bool.true_and]
        have hend : pre.length + 2 + 1 = e - host.length := by
          rw [← he]
          simp only [List.length_cons]
          omega
        rw [hend, if_neg (show ¬isHexdigit 46 = true by decide)]
        split_ifs <;> rfl
      · rw [if_neg hdot]
        have hlit : literal (118 :: c :: t) = .error (.threw .hostAddress) := by
          rcases t with _ | ⟨d', t⟩
          · rfl
          · exact literal_of_ne fun h ↦ hdot ((List.cons.inj hr).1.symm.trans h)
        rw [hlit]
        rfl
    · have hlit : literal (118 :: c :: t) = .error (.threw .hostAddress) := by
        rcases t with _ | ⟨d, t⟩
        · rfl
        · by_cases hdot : d = 46
          · rw [hdot, literal, Bool.eq_false_iff.mpr hhex]
            rfl
          · exact literal_of_ne hdot
      rw [hlit]
      simp only [hhex]
      rfl

theorem literal_of_head_ne {c : UInt8} {t : List UInt8} (hc : c ≠ 118) :
    literal (c :: t) = (do require (isIpv6 (c :: t)) .hostAddress; return (6, c :: t)) := by
  rw [literal]
  · rintro _ _ ⟨⟩
    exact hc rfl
  · rintro _ ⟨⟩
    exact hc rfl

theorem literalAt_eq {lit : List UInt8} (hs : s = pre ++ (lit ++ 93 :: post))
    (hb : pre.length = b) (he : b + lit.length = e) :
    literalAt s b e = (literal lit).map fun r ↦ (r.1, e - r.2.length) := by
  have hslice : slice (ε := ParseError) s b e = .ok lit := hs ▸ slice_append hb he
  rcases lit with _ | ⟨c, t⟩
  · have hc : charAt (ε := ParseError) s b = .ok 93 := by rw [hs]; exact charAt_append hb
    rw [literalAt, hc, ok_bind, if_neg (by decide), hslice]
    rfl
  · have hc : charAt (ε := ParseError) s b = .ok c := by rw [hs]; exact charAt_append hb
    rw [literalAt, hc, ok_bind]
    by_cases h : c = 118
    · rw [if_pos h]
      subst h
      exact versionAt_eq hs hb (by rw [List.length_cons] at he; omega)
    · rw [if_neg h, hslice, ok_bind, literal_of_head_ne h, require_bind, require_bind]
      split_ifs
      · have hend : e - (c :: t).length = b := by omega
        rw [← hend]
        rfl
      · rfl

theorem literal_suffix {lit host : List UInt8} {ipV : ℤ} (h : literal lit = .ok (ipV, host)) :
    host <:+ lit := by
  rw [literal.eq_def] at h
  split at h
  · rw [require_bind] at h
    split_ifs at h
    rw [← (Prod.mk.inj (Except.ok.inj h)).2]
    exact ⟨[118, _, 46], rfl⟩
  · exact absurd h (by simp)
  · rw [require_bind] at h
    split_ifs at h
    rw [← (Prod.mk.inj (Except.ok.inj h)).2]

theorem bracketAt_eq (hs : s = pre ++ (mid ++ post)) (hb : pre.length = b)
    (he : b + mid.length = e) (hpost : post.head? ≠ some 93) :
    bracketAt s b e = (bracket mid).map fun r ↦ (r.1, r.2.1, e - r.2.2.length) := by
  have hcut := cutAt_append [93] mid
  rw [bracketAt, findFirstOf_eq hs hb he, ok_bind, bracket]
  dsimp only
  rcases hlit : cutAt [93] mid with ⟨lit, r⟩
  rw [hlit] at hcut
  dsimp only at hcut ⊢
  rcases r with _ | ⟨c, r⟩
  · -- no bracket
    rw [List.append_nil] at hcut
    subst hcut
    have hc : ∃ c, charAt (ε := ParseError) s (b + lit.length) = .ok c ∧ c ≠ 93 := by
      rcases post with _ | ⟨c, post⟩
      · exact ⟨0, charAt_length (by rw [hs]; simp [hb]), by decide⟩
      · refine ⟨c, ?_, by simpa using hpost⟩
        rw [hs, ← List.append_assoc]
        exact charAt_append (by simp [hb])
    obtain ⟨c, hc, hne⟩ := hc
    rw [hc, ok_bind, require_bind, require_bind, if_neg (by simpa using hne), if_neg (by simp)]
    rfl
  · obtain rfl : c = 93 := by simpa using cutAt_head (congrArg Prod.snd hlit)
    subst hcut
    have hs' : s = pre ++ (lit ++ 93 :: (r ++ post)) := by rw [hs]; simp
    have hc : charAt (ε := ParseError) s (b + lit.length) = .ok 93 := by
      rw [hs', ← List.append_assoc]
      exact charAt_append (by simp [hb])
    rw [hc, ok_bind, require_bind, require_bind, if_pos (by simp), if_pos (by simp),
      literalAt_eq hs' hb rfl]
    rcases hres : literal lit with err | ⟨ipV, host⟩
    · rfl
    · obtain ⟨v, rfl⟩ := literal_suffix hres
      have hslice :
          slice (ε := ParseError) s (b + v.length) (b + (v ++ host).length) = .ok host := by
        rw [hs', List.append_assoc v, ← List.append_assoc pre]
        exact slice_append (by simp [hb]) (by simp [Nat.add_assoc])
      have hbegin : b + (v ++ host).length - host.length = b + v.length := by
        rw [List.length_append]
        omega
      have hend : e - r.length = b + (v ++ host).length + 1 := by
        rw [← he]
        simp only [List.length_append, List.length_cons]
        omega
      rw [Except.map, ok_bind, hbegin, hslice, ok_bind, ok_bind, List.tail_cons]
      exact congrArg (fun p ↦ Except.ok (host, ipV, p)) hend.symm

theorem exists_before {r : List UInt8} (hs : s = pre ++ (mid ++ post)) (hb : pre.length = b)
    (he : b + mid.length = e) (hr : r <:+ mid) :
    ∃ pre', s = pre' ++ (r ++ post) ∧ pre'.length = e - r.length ∧ e - r.length + r.length = e := by
  obtain ⟨v, rfl⟩ := hr
  rw [List.length_append] at he
  exact ⟨pre ++ v, by rw [hs]; simp, by rw [List.length_append]; omega, by omega⟩

theorem cutAt_suffix (q s : List UInt8) : (cutAt q s).2 <:+ s := ⟨_, cutAt_append q s⟩

theorem bracket_suffix {host r : List UInt8} {ipV : ℤ} (h : bracket mid = .ok (host, ipV, r)) :
    r <:+ mid := by
  obtain ⟨_, -, h⟩ := bind_eq_ok.mp h
  obtain ⟨_, -, h⟩ := bind_eq_ok.mp h
  cases h
  exact (List.tail_suffix _).trans (cutAt_suffix _ _)

theorem name_suffix {host r : List UInt8} {ipV : ℤ} (h : name mid = .ok (host, ipV, r)) :
    r <:+ mid := by
  obtain ⟨_, -, h⟩ := bind_eq_ok.mp h
  cases h
  exact cutAt_suffix _ _

theorem userPart_suffix {user : Option (List UInt8)} {r : List UInt8}
    (h : userPart mid = .ok (user, r)) : r <:+ mid := by
  by_cases hcut : (cutAt [64] mid).2 = []
  · rw [userPart, if_pos hcut] at h
    cases h
    exact List.suffix_rfl
  · rw [userPart, if_neg hcut] at h
    obtain ⟨_, -, h⟩ := bind_eq_ok.mp h
    cases h
    exact (List.tail_suffix _).trans (cutAt_suffix _ _)

theorem nameAt_eq (hs : s = pre ++ (mid ++ post)) (hb : pre.length = b) (he : b + mid.length = e) :
    nameAt s b e = (name mid).map fun r ↦ (r.1, r.2.1, e - r.2.2.length) := by
  have hcut := cutAt_append [58] mid
  rw [nameAt, findFirstOf_eq hs hb he, ok_bind, name]
  generalize cutAt [58] mid = cut at hcut ⊢
  obtain ⟨host, r⟩ := cut
  dsimp only at hcut ⊢
  subst hcut
  have hslice : slice (ε := ParseError) s b (b + host.length) = .ok host := by
    rw [hs, List.append_assoc host]
    exact slice_append hb rfl
  have hend : b + host.length = e - r.length := by
    rw [← he, List.length_append]
    omega
  rw [hslice, ok_bind, require_bind, require_bind, hend]
  split_ifs <;> rfl

theorem portAt_eq (hs : s = pre ++ (mid ++ post)) (hb : pre.length = b) (he : b + mid.length = e) :
    portAt s b e = portPart mid := by
  rcases mid with _ | ⟨c, r⟩
  · rw [portAt, if_pos (by simpa using he)]
    rfl
  · have hc : charAt (ε := ParseError) s b = .ok c := by rw [hs]; exact charAt_append hb
    rw [portAt, if_neg (by rw [← he, List.length_cons]; omega), hc, ok_bind]
    by_cases h : c = 58
    · have hslice : slice (ε := ParseError) s (b + 1) e = .ok r := by
        rw [hs, List.cons_append, List.append_cons]
        exact slice_append (by simp [hb]) (by rw [← he, List.length_cons]; omega)
      rw [if_pos h, hslice, ok_bind, h]
      rfl
    · rw [if_neg h, portPart]
      rintro _ ⟨⟩
      exact h rfl

theorem userAt_eq (hs : s = pre ++ (mid ++ post)) (hb : pre.length = b) (he : b + mid.length = e) :
    userAt s b e = (userPart mid).map fun r ↦ (r.1, e - r.2.length) := by
  have hcut := cutAt_append [64] mid
  rw [userAt, findFirstOf_eq hs hb he, ok_bind, userPart]
  generalize cutAt [64] mid = cut at hcut ⊢
  obtain ⟨user, r⟩ := cut
  dsimp only at hcut ⊢
  subst hcut
  rw [List.length_append] at he
  rcases r with _ | ⟨c, r⟩
  · have hend : e - (user ++ []).length = b := by
      rw [← he, List.append_nil, List.length_nil]
      omega
    rw [if_pos (by simpa using he), if_pos rfl, ← hend]
    rfl
  · have hslice : slice (ε := ParseError) s b (b + user.length) = .ok user := by
      rw [hs, List.append_assoc user]
      exact slice_append hb rfl
    have hend : b + user.length + 1 = e - r.length := by
      rw [← he, List.length_cons]
      omega
    rw [if_neg (by rw [← he, List.length_cons]; omega), if_neg (List.cons_ne_nil _ _), hslice,
      ok_bind, require_bind, require_bind, hend]
    split_ifs <;> rfl

theorem hostPart_suffix {host r : List UInt8} {ipV : ℤ} (h : hostPart s = .ok (host, ipV, r)) :
    r <:+ s := by
  rw [hostPart] at h
  split_ifs at h with hopen
  · exact (bracket_suffix h).trans (List.tail_suffix s)
  · exact name_suffix h

theorem hostAt_eq (hs : s = pre ++ (mid ++ post)) (hb : pre.length = b)
    (he : b + mid.length = e) (hopen : post.head? ≠ some 91) (hclose : post.head? ≠ some 93) :
    hostAt s b e = (hostPart mid).map fun (host, ipV, r) ↦ (host, ipV, e - r.length) := by
  -- An empty host has the mark behind the authority, or the terminator, at its front.
  have hhead : ∃ c, charAt (ε := ParseError) s b = .ok c ∧ (c = 91 ↔ mid.head? = some 91) := by
    rcases mid with _ | ⟨c, r⟩
    · rcases post with _ | ⟨c, post⟩
      · exact ⟨0, charAt_length (by rw [hs]; simpa using hb), by simp⟩
      · exact ⟨c, by rw [hs]; exact charAt_append hb, by simpa using hopen⟩
    · exact ⟨c, by rw [hs]; exact charAt_append hb, by simp⟩
  obtain ⟨c, hc, hiff⟩ := hhead
  rw [hostAt, hostPart, hc, ok_bind]
  by_cases hbr : c = 91
  · obtain ⟨t, rfl⟩ := List.head?_eq_some_iff.mp (hiff.mp hbr)
    rw [List.length_cons] at he
    rw [if_pos hbr, List.head?_cons, if_pos rfl, List.tail_cons]
    exact bracketAt_eq (show s = (pre ++ [91]) ++ (t ++ post) by rw [hs]; simp)
      (by rw [List.length_append, hb, List.length_singleton]) (by omega) hclose
  · rw [if_neg hbr, if_neg (fun h ↦ hbr (hiff.mpr h))]
    exact nameAt_eq hs hb he

theorem authorityAt_eq (hs : s = pre ++ (mid ++ post)) (hb : pre.length = b)
    (he : b + mid.length = e) (hopen : post.head? ≠ some 91) (hclose : post.head? ≠ some 93) :
    authorityAt s b e = authority mid := by
  rw [authorityAt, authority, userAt_eq hs hb he]
  rcases huser : userPart mid with err | ⟨user, r⟩
  · rfl
  rw [Except.map, ok_bind, ok_bind]
  -- Each part leaves a suffix, and the index is where that begins.
  obtain ⟨pre', hs', hb', he'⟩ := exists_before hs hb he (userPart_suffix huser)
  dsimp only
  rw [hostAt_eq hs' hb' he' hopen hclose]
  rcases hhost : hostPart r with err | ⟨host, ipV, r'⟩
  · rfl
  rw [Except.map, ok_bind, ok_bind]
  obtain ⟨pre'', hs'', hb'', he''⟩ := exists_before hs' hb' he' (hostPart_suffix hhost)
  dsimp only
  rw [portAt_eq hs'' hb'' he'']

theorem queryPart_suffix (s : List UInt8) : (queryPart s).2 <:+ s := by
  rw [queryPart.eq_def]
  split
  · exact (cutAt_suffix _ _).trans (List.suffix_cons _ _)
  · exact List.suffix_rfl

theorem queryAt_eq (hs : s = pre ++ mid) (hb : pre.length = b) :
    queryAt s b = .ok ((queryPart mid).1, s.length - (queryPart mid).2.length) := by
  rcases mid with _ | ⟨c, r⟩
  · have hend : b = s.length := by rw [hs, List.append_nil, hb]
    rw [queryAt, if_pos hend, hend]
    rfl
  · have hlen : b + 1 + r.length = s.length := by
      rw [hs, List.length_append, List.length_cons]
      omega
    have hc : charAt (ε := ParseError) s b = .ok c := by rw [hs]; exact charAt_append hb
    rw [queryAt, if_neg (by omega), hc, ok_bind]
    by_cases h : c = 63
    · subst h
      have hs' : s = (pre ++ [63]) ++ (r ++ []) := by rw [hs]; simp
      have hb' : (pre ++ [63]).length = b + 1 := by simp [hb]
      have hcut := cutAt_append [35] r
      rw [if_pos rfl, findFirstOf_eq hs' hb' hlen, ok_bind, queryPart]
      generalize cutAt [35] r = cut at hcut ⊢
      obtain ⟨query, r'⟩ := cut
      dsimp only at hcut ⊢
      subst hcut
      have hslice : slice (ε := ParseError) s (b + 1) (b + 1 + query.length) = .ok query := by
        rw [hs', List.append_nil]
        exact slice_append hb' rfl
      have hend : b + 1 + query.length = s.length - r'.length := by
        rw [← hlen, List.length_append]
        omega
      rw [hslice, ok_bind, hend]
      rfl
    · have hpart : queryPart (c :: r) = (none, c :: r) := by
        rw [queryPart]
        rintro _ ⟨⟩
        exact h rfl
      have hend : s.length - (c :: r).length = b := by rw [List.length_cons]; omega
      rw [if_neg h, hpart, hend]
      rfl

theorem fragmentAt_eq (hs : s = pre ++ mid) (hb : pre.length = b) :
    fragmentAt s b = fragmentPart mid := by
  rcases mid with _ | ⟨c, r⟩
  · rw [fragmentAt, if_pos (by rw [hs, List.append_nil, hb])]
    rfl
  · have hlen : b + 1 + r.length = s.length := by
      rw [hs, List.length_append, List.length_cons]
      omega
    have hc : charAt (ε := ParseError) s b = .ok c := by rw [hs]; exact charAt_append hb
    rw [fragmentAt, if_neg (by omega), hc, ok_bind]
    by_cases h : c = 35
    · have hslice : slice (ε := ParseError) s (b + 1) s.length = .ok r := by
        rw [← hlen, hs, show pre ++ c :: r = (pre ++ [c]) ++ (r ++ []) by simp]
        exact slice_append (by simp [hb]) rfl
      rw [if_pos h, hslice, ok_bind, h]
      rfl
    · rw [if_neg h, fragmentPart]
      rintro _ ⟨⟩
      exact h rfl

theorem pathAt_eq (hs : s = pre ++ mid) (hb : pre.length = b) (raw : Raw) :
    pathAt s b raw = pathPart mid raw := by
  have hs' : s = pre ++ (mid ++ []) := by rw [hs, List.append_nil]
  have hlen : b + mid.length = s.length := by rw [hs, List.length_append, hb]
  have hcut := cutAt_append [63, 35] mid
  rw [pathAt, findFirstOf_eq hs' hb hlen, ok_bind, pathPart]
  generalize cutAt [63, 35] mid = cut at hcut ⊢
  obtain ⟨path, r⟩ := cut
  dsimp only at hcut ⊢
  subst hcut
  have hslice : slice (ε := ParseError) s b (b + path.length) = .ok path := by
    rw [hs', List.append_assoc path]
    exact slice_append hb rfl
  have hr : s = (pre ++ path) ++ r := by rw [hs, List.append_assoc]
  have hb' : (pre ++ path).length = b + path.length := by rw [List.length_append, hb]
  obtain ⟨pre', hs'', hb'', -⟩ := exists_before
    (show s = (pre ++ path) ++ (r ++ []) by rw [hr, List.append_nil]) hb'
    (show b + path.length + r.length = s.length by rw [← hlen, List.length_append, Nat.add_assoc])
    (queryPart_suffix r)
  rw [hslice, ok_bind, queryAt_eq hr hb']
  simp only [ok_bind, fragmentAt_eq (hs''.trans (by rw [List.append_nil])) hb'']

theorem schemeAt_eq {c : UInt8} {r : List UInt8} (hs : s = pre ++ c :: r) (hb : pre.length = b) :
    schemeAt s b =
      if c = 58 then do
        require (isScheme pre) .scheme
        return (some pre, b + 1, b + 1 + (cutAt [47, 63, 35] r).1.length)
      else return (none, 0, b) := by
  have hc : charAt (ε := ParseError) s b = .ok c := by rw [hs]; exact charAt_append hb
  rw [schemeAt, hc, ok_bind]
  split_ifs with h
  · have hslice : slice (ε := ParseError) s 0 b = .ok pre := by
      rw [hs]
      exact slice_append (x := []) rfl (by rw [Nat.zero_add, hb])
    rw [hslice, ok_bind, findFirstOf_eq
      (show s = (pre ++ [c]) ++ (r ++ []) by rw [hs]; simp) (by simp [hb])
      (by rw [hs, List.length_append, List.length_cons]; omega)]
    rfl
  · rfl

theorem slashesAt_eq {x y : List UInt8} {p : ℕ} (hs : s = pre ++ mid) (hb : pre.length = b)
    (hmid : mid = x ++ y) (hp : p = b + x.length) (hx : 47 ∉ x) :
    slashesAt s b p = .ok (decide (mid.take 2 = [47, 47])) := by
  have hlen : s.length = b + mid.length := by rw [hs, List.length_append, hb]
  -- The first slash is the first mark, so two slashes at `b` mean that nothing is in front of it.
  have hnot (hhead : y.head? ≠ some 47) : mid.take 2 ≠ [47, 47] := by
    intro htake
    rw [hmid] at htake
    rcases x with _ | ⟨d, x⟩
    · rcases y with _ | ⟨d, y⟩
      · exact absurd htake (by simp)
      · exact hhead (congrArg some (List.cons.inj htake).1)
    · exact hx ((List.cons.inj htake).1 ▸ List.mem_cons_self)
  rw [slashesAt]
  rcases y with _ | ⟨c, y⟩
  · rw [if_pos (by rw [hp, hlen, hmid, List.append_nil]), decide_eq_false (hnot (by simp))]
    rfl
  · have hc : charAt (ε := ParseError) s p = .ok c := by
      rw [hs, hmid, ← List.append_assoc]
      exact charAt_append (by rw [hp, List.length_append, hb])
    rw [if_neg (by rw [hp, hlen, hmid, List.length_append, List.length_cons]; omega), hc, ok_bind]
    by_cases hslash : c = 47
    · rcases mid with _ | ⟨m, _ | ⟨m', r⟩⟩
      · exact absurd hmid (by simp)
      · rw [if_pos (.inr (by rw [hlen, List.length_singleton]; omega)),
          decide_eq_false (fun h ↦ absurd (congrArg List.length h) (by simp))]
        rfl
      · have hm : charAt (ε := ParseError) s b = .ok m := by rw [hs]; exact charAt_append hb
        have hm' : charAt (ε := ParseError) s (b + 1) = .ok m' := by
          rw [hs, List.append_cons]
          exact charAt_append (by simp [hb])
        have hlong : ¬(c ≠ 47 ∨ s.length - b ≤ 1) := by
          rw [not_or, hlen, List.length_cons, List.length_cons]
          exact ⟨not_not.mpr hslash, by omega⟩
        rw [if_neg hlong, hm, ok_bind]
        by_cases h : m = 47
        · rw [if_neg (by simpa using h), hm', ok_bind]
          simp [h]
          rfl
        · rw [if_pos h]
          simp [h]
          rfl
    · rw [if_pos (.inl hslash), decide_eq_false (hnot (by simpa using hslash))]
      rfl

theorem hierAt_eq {x y : List UInt8} {p : ℕ} (hs : s = pre ++ mid) (hb : pre.length = b)
    (hmid : mid = x ++ y) (hp : p = b + x.length) (hx : 47 ∉ x) (scheme : Option (List UInt8)) :
    hierAt s b p scheme = hierPart mid scheme := by
  rw [hierAt, slashesAt_eq hs hb hmid hp hx, ok_bind]
  by_cases h : mid.take 2 = [47, 47]
  · rw [if_pos (by simpa using h)]
    obtain ⟨r, rfl⟩ : ∃ r, mid = 47 :: 47 :: r :=
      ⟨mid.drop 2, by rw [← List.take_append_drop 2 mid, h]; rfl⟩
    have hs' : s = (pre ++ [47, 47]) ++ (r ++ []) := by rw [hs]; simp
    have hb' : (pre ++ [47, 47]).length = b + 2 := by simp [hb]
    have hlen : b + 2 + r.length = s.length := by
      rw [hs, List.length_append, List.length_cons, List.length_cons]
      omega
    have hcut := cutAt_append [47, 63, 35] r
    have hhead : ∀ c ∈ (cutAt [47, 63, 35] r).2.head?, c ∈ [47, 63, 35] := by
      intro c hc
      obtain ⟨t, ht⟩ := List.head?_eq_some_iff.mp (Option.mem_def.mp hc)
      exact cutAt_head ht
    rw [findFirstOf_eq hs' hb' hlen, ok_bind, hierPart]
    generalize cutAt [47, 63, 35] r = cut at hcut hhead ⊢
    obtain ⟨auth, rest⟩ := cut
    dsimp only at hcut hhead ⊢
    subst hcut
    rw [List.append_nil] at hs'
    rw [authorityAt_eq hs' hb' rfl (fun h ↦ absurd (hhead _ h) (by decide))
      (fun h ↦ absurd (hhead _ h) (by decide))]
    simp only [pathAt_eq (hs'.trans (List.append_assoc _ _ _).symm)
      (show (pre ++ [47, 47] ++ auth).length = b + 2 + auth.length by
        rw [List.length_append, hb'])]
  · rw [if_neg (by simpa using h), hierPart, pathAt_eq hs hb]
    rintro r rfl
    exact h rfl

end Positions

/-- **Every pointer stays inside** while the parts are marked. -/
theorem scanAt_eq (s : List UInt8) : scanAt s = scan s := by
  have hs : s = [] ++ (s ++ []) := by simp
  have hcut := cutAt_append [58, 47, 63, 35] s
  have hfind := findFirstOf_eq (q := [58, 47, 63, 35]) hs List.length_nil (Nat.zero_add s.length)
  have hslash := not_mem_cutAt (show (47 : UInt8) ∈ [58, 47, 63, 35] by decide) s
  rw [scanAt, scan, hfind, require_bind, require_bind, ok_bind, Nat.zero_add]
  generalize cutAt [58, 47, 63, 35] s = cut at hcut hslash ⊢
  obtain ⟨x, y⟩ := cut
  dsimp only at hcut hslash ⊢
  subst hcut
  congr 1
  rcases y with _ | ⟨c, r⟩
  · have hslice := slice_append (ε := ParseError) (x := []) (y := x) (z := []) rfl
      (Nat.zero_add x.length)
    rw [List.nil_append, List.append_nil, List.length_nil] at hslice
    rw [List.append_nil, if_pos rfl, if_pos rfl, hslice, ok_bind]
  · rw [if_neg (by rw [List.length_append, List.length_cons]; omega),
      if_neg (List.cons_ne_nil _ _), schemeAt_eq rfl rfl, List.head?_cons, List.tail_cons]
    by_cases hc : c = 58
    · have hr := cutAt_append [47, 63, 35] r
      have hs' : x ++ c :: r = (x ++ [c]) ++ r := by simp
      rw [if_pos hc, if_pos (congrArg some hc), require_bind, require_bind]
      split_ifs
      · exact hierAt_eq hs' (by simp) hr.symm rfl
          (not_mem_cutAt (by decide) r) (some x)
      · rfl
    · rw [if_neg hc, if_neg (fun h ↦ hc (Option.some.inj h))]
      exact hierAt_eq (List.nil_append _).symm rfl rfl (Nat.zero_add _).symm hslash none

/-! ## Queries -/

theorem cutAt_of_not_mem {q s : List UInt8} (h : ∀ c ∈ s, c ∉ q) : cutAt q s = (s, []) := by
  have hall : ∀ c ∈ s, (!q.contains c) = true := fun c hc ↦ by simpa using h c hc
  rw [cutAt, List.takeWhile_eq_self_iff.mpr hall, List.dropWhile_eq_nil_iff.mpr hall]

theorem cutAt_of_mem {q s r : List UInt8} {c : UInt8} (h : ∀ d ∈ s, d ∉ q) (hc : c ∈ q) :
    cutAt q (s ++ c :: r) = (s, c :: r) := by
  have hall : ∀ d ∈ s, (!q.contains d) = true := fun d hd ↦ by simpa using h d hd
  rw [cutAt, List.takeWhile_append_of_pos hall, List.dropWhile_append_of_pos hall,
    List.takeWhile_cons_of_neg (by simpa using hc), List.dropWhile_cons_of_neg (by simpa using hc),
    List.append_nil]

theorem cutAt_of_head {q s r : List UInt8} (h : ∀ c ∈ s, c ∉ q) (hr : ∀ c ∈ r.head?, c ∈ q) :
    cutAt q (s ++ r) = (s, r) := by
  rcases r with _ | ⟨c, r⟩
  · rw [List.append_nil, cutAt_of_not_mem h]
  · exact cutAt_of_mem h (hr c rfl)

theorem exists_cut (marks s : List UInt8) :
    ∃ x r, x ++ r = s ∧ (∀ c ∈ x, c ∉ marks) ∧ ∀ c ∈ r.head?, c ∈ marks := by
  refine ⟨_, _, cutAt_append marks s, fun c hc hmem ↦ not_mem_cutAt hmem s hc, fun c hc ↦ ?_⟩
  obtain ⟨t, ht⟩ := List.head?_eq_some_iff.mp hc
  exact cutAt_head ht

theorem findFirstOf_cut {q pre x r marks : List UInt8} {b : ℕ} (hq : q = pre ++ (x ++ r))
    (hb : pre.length = b) (hx : ∀ c ∈ x, c ∉ marks) (hr : ∀ c ∈ r.head?, c ∈ marks) :
    findFirstOf q b q.length marks = .ok (b + x.length) ∧
      slice (ε := ParseError) q b (b + x.length) = .ok x ∧
      (r = [] → b + x.length = q.length) ∧
      ∀ c t, r = c :: t → b + x.length ≠ q.length ∧
        charAt (ε := ParseError) q (b + x.length) = .ok c := by
  have hlen : b + (x ++ r).length = q.length := by rw [hq, ← hb, ← List.length_append]
  refine ⟨?_, hq ▸ slice_append hb rfl, ?_, ?_⟩
  · rw [findFirstOf_eq (show q = pre ++ ((x ++ r) ++ []) by rw [hq, List.append_nil]) hb hlen,
      cutAt_of_head hx hr]
  · rintro rfl
    rwa [List.append_nil] at hlen
  · rintro c t rfl
    rw [List.length_append, List.length_cons] at hlen
    refine ⟨by omega, ?_⟩
    rw [hq, ← List.append_assoc]
    exact charAt_append (by rw [List.length_append, hb])

theorem mapM_pair_cons (s : List UInt8) (ss : List (List UInt8)) :
    (s :: ss).mapM pairOf = (do
      let pair ← pairOf s
      let rest ← ss.mapM pairOf
      return pair :: rest) := List.mapM_cons

section Pairs

variable {s r key val : List UInt8} {c : UInt8}

theorem isMark_of_not_mem (h : ∀ c ∈ s, c ∉ ([59, 38] : List UInt8)) :
    ∀ c ∈ s, isMark c = false := by
  intro c hc
  rw [isMark, Bool.or_eq_false_iff, beq_eq_false_iff_ne, beq_eq_false_iff_ne]
  exact ⟨fun heq ↦ h c hc (by rw [heq]; decide), fun heq ↦ h c hc (by rw [heq]; decide)⟩

theorem isMark_of_mem (h : c ∈ ([59, 38] : List UInt8)) : isMark c = true := by
  simp only [List.mem_cons, List.not_mem_nil, or_false] at h
  rcases h with rfl | rfl
  · rfl
  · rfl

theorem pairs_last (h : ∀ c ∈ s, isMark c = false) :
    (s.splitOnP isMark).mapM pairOf = (do
      let pair ← pairOf s
      return [pair]) := by
  rw [List.splitOnP_eq_singleton h, mapM_pair_cons]
  rfl

theorem pairs_mark (h : ∀ c ∈ s, isMark c = false) (hc : isMark c = true) :
    ((s ++ c :: r).splitOnP isMark).mapM pairOf = (do
      let pair ← pairOf s
      let rest ← (r.splitOnP isMark).mapM pairOf
      return pair :: rest) := by
  rw [List.splitOnP_append_cons_of_forall_mem h c hc, mapM_pair_cons]

theorem pairOf_key (h : ∀ c ∈ key, c ∉ ([61] : List UInt8)) : pairOf key = (do
    require (isChars key 0x3F) (.queryKey key)
    let key ← decoded (decodePlus key)
    return (key, [])) := by
  rw [pairOf, cutAt_of_not_mem h]
  rfl

theorem pairOf_value (h : ∀ c ∈ key, c ∉ ([61] : List UInt8)) : pairOf (key ++ 61 :: val) = (do
    require (isChars key 0x3F) (.queryKey key)
    let key ← decoded (decodePlus key)
    require (isChars val 0x3F) (.queryValue val)
    let val ← decoded (decodePlus val)
    return (key, val)) := by
  rw [pairOf, cutAt_of_mem h (List.mem_singleton_self 61)]
  rfl

end Pairs

/-- **The loop over a query ends**, with the pairs of the query. -/
theorem queryLoop_eq {q pre r : List UInt8} {fuel b : ℕ} (hq : q = pre ++ r) (hb : pre.length = b)
    (hfuel : r.length < fuel) :
    queryLoop q fuel b = (r.splitOnP isMark).mapM pairOf := by
  induction fuel generalizing pre r b with
  | zero => exact absurd hfuel (Nat.not_lt_zero _)
  | succ fuel ih =>
    obtain ⟨key, y, rfl, hkey, hy⟩ := exists_cut [61, 59, 38] r
    obtain ⟨hfind, hslice, hend, hmore⟩ := findFirstOf_cut hq hb hkey hy
    -- The loop looks for `=` and a mark at once; the text is cut at the mark first, then at `=`.
    have hkey61 : ∀ c ∈ key, c ∉ ([61] : List UInt8) := fun c hc hmem ↦
      hkey c hc (List.mem_append_left [59, 38] hmem)
    have hmark : ∀ c ∈ key, isMark c = false :=
      isMark_of_not_mem fun c hc hmem ↦ hkey c hc (List.mem_cons_of_mem 61 hmem)
    rw [queryLoop, hfind, ok_bind, hslice, ok_bind]
    rcases y with _ | ⟨c, y⟩
    · -- the last key
      rw [List.append_nil, pairs_last hmark, pairOf_key hkey61]
      simp only [hend rfl, if_true, bind_assoc, pure_bind]
    · obtain ⟨hne, hc⟩ := hmore c y rfl
      rw [List.length_append, List.length_cons] at hfuel
      simp only [hne, if_false, hc, ok_bind]
      by_cases heq : c = 61
      · subst heq
        obtain ⟨val, z, rfl, hval, hz⟩ := exists_cut [59, 38] y
        have hq' : q = (pre ++ (key ++ [61])) ++ (val ++ z) := by rw [hq]; simp
        have hb' : (pre ++ (key ++ [61])).length = b + key.length + 1 := by
          simp only [List.length_append, List.length_singleton]
          omega
        obtain ⟨hfind', hslice', hend', hmore'⟩ := findFirstOf_cut hq' hb' hval hz
        have hpair : ∀ c ∈ key ++ 61 :: val, isMark c = false := by
          intro c hc
          rcases List.mem_append.mp hc with hc | hc
          · exact hmark c hc
          · rcases List.mem_cons.mp hc with rfl | hc
            · rfl
            · exact isMark_of_not_mem hval c hc
        simp only [hfind', hslice', ok_bind, if_true]
        rcases z with _ | ⟨d, z⟩
        · rw [List.append_nil, pairs_last hpair, pairOf_value hkey61]
          simp only [hend' rfl, if_true, bind_assoc, pure_bind]
        · obtain ⟨hne', -⟩ := hmore' d z rfl
          rw [List.length_append, List.length_cons] at hfuel
          have hrest := ih (b := b + key.length + 1 + val.length + 1)
            (show q = (pre ++ (key ++ 61 :: (val ++ [d]))) ++ z by rw [hq]; simp)
            (by simp only [List.length_append, List.length_cons, List.length_nil]; omega) (by omega)
          rw [show key ++ 61 :: (val ++ d :: z) = (key ++ 61 :: val) ++ d :: z by simp,
            pairs_mark hpair (isMark_of_mem (hz d rfl)), pairOf_value hkey61]
          simp only [hne', if_false, hrest, bind_assoc, pure_bind]
      · -- no value
        have hcmark : isMark c = true :=
          isMark_of_mem ((List.mem_cons.mp (hy c rfl)).resolve_left heq)
        have hrest := ih (b := b + key.length + 1)
          (show q = (pre ++ (key ++ [c])) ++ y by rw [hq]; simp)
          (by simp only [List.length_append, List.length_singleton]; omega) (by omega)
        rw [pairs_mark hmark hcmark, pairOf_key hkey61]
        simp only [heq, if_false, hrest, bind_assoc, pure_bind]

theorem queryOf_eq (q : List UInt8) : queryOf q = pairsOf q := by
  rw [queryOf, pairsOf]
  split_ifs
  · rfl
  · exact queryLoop_eq (List.nil_append q).symm rfl (Nat.lt_succ_self _)

end Knet.Http.HttpUrl
