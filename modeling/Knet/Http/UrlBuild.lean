import Knet.Http.UrlHost

/-!
# `build_url`

`str()` writes the parts one behind the other, each with its mark and with the characters escaped
that could not stand in it. What throws is what could not be told apart from another part when it is
read again. The user info and the host are written as they are: the characters that `parse_url` lets
through have nothing to escape.
-/

namespace Knet.Http.HttpUrl

open Bytes Checked

/-! ## The text of the parts -/

/-- `http` on port 80, or `https` on port 443. -/
def Parts.defaultPort (p : Parts) : Bool :=
  (p.scheme == ofString "http" && p.port == ofString "80") ||
    (p.scheme == ofString "https" && p.port == ofString "443")

/-- The host. `std::hex` writes an `int`. -/
def hostText (ipV : ℤ) (host : List UInt8) : List UInt8 :=
  if ipV = 0 ∨ ipV = 4 then host
  else if ipV = 6 then 91 :: (host ++ [93])
  else 91 :: 118 :: (Inet.hexDigits 8 (ipV % 2 ^ 32).toNat ++ 46 :: (host ++ [93]))

/-- The scheme. -/
def Parts.schemeText (p : Parts) : List UInt8 := if p.scheme = [] then [] else p.scheme ++ [58]

/-- The user info. -/
def Parts.userText (p : Parts) : Checked (List UInt8) :=
  if p.user = [] then return []
  else do
    let user ← encode p.user 0x05
    return user ++ [64]

/-- The port. -/
def Parts.portText (p : Parts) : List UInt8 :=
  if p.port = [] ∨ p.defaultPort = true then [] else 58 :: p.port

/-- The authority. -/
def Parts.authorityText (p : Parts) : Checked (List UInt8) := do
  let user ← p.userText
  return 47 :: 47 :: (user ++ (hostText p.ipV p.host ++ p.portText))

/-- There is no host. -/
def Parts.noAuthority (p : Parts) : Checked (List UInt8) := do
  require (p.user = []) (.build .userInfo)
  require (p.port = []) (.build .port)
  require (p.path = [] || (cutAt [58, 47] p.path).2.head? ≠ some 58) (.build .segment)
  return []

/-- The path. -/
def Parts.pathText (p : Parts) : Checked (List UInt8) :=
  if p.path = [] then return []
  else do
    require (p.path.head? = some 47 || p.host = []) (.build .path)
    encode p.path 0x0F

/-- A key, and the value when there is one. -/
def pairText (e : BuildError) (kv : List UInt8 × List UInt8) : Checked (List UInt8) := do
  require (kv.1 ≠ []) (.build e)
  let key ← encodeQueryKey kv.1 0x1F
  if kv.2 = [] then return key
  else do
    let val ← encodeQueryVal kv.2 0x1F
    return key ++ 61 :: val

/-- The pairs behind the first one. -/
def pairsText : Query → Checked (List UInt8)
  | [] => return []
  | kv :: q => do
    let pair ← pairText .key kv
    let rest ← pairsText q
    return 38 :: (pair ++ rest)

/-- The query. -/
def queryText : Query → Checked (List UInt8)
  | [] => return []
  | kv :: q => do
    let pair ← pairText .firstKey kv
    let rest ← pairsText q
    return 63 :: (pair ++ rest)

/-- The fragment. -/
def Parts.fragmentText (p : Parts) : Checked (List UInt8) :=
  if p.fragment = [] then return []
  else do
    let fragment ← encode p.fragment 0x1F
    return 35 :: fragment

/-- The text that `build_url` writes. -/
def Parts.text (p : Parts) : Checked (List UInt8) := do
  let auth ← if p.host = [] then p.noAuthority else p.authorityText
  let path ← p.pathText
  let query ← queryText p.query
  let fragment ← p.fragmentText
  return p.schemeText ++ (auth ++ (path ++ (query ++ fragment)))

/-- `build_url`: how it ends, and the object then. -/
def Url.buildUrl (u : Url) : Except (Fault ParseError) Unit × Url :=
  match u.lazyParse with
  | (.error e, u) => (.error e, u)
  | (.ok (), u) =>
    match u.toParts.text with
    | .error e => (.error e, u)
    | .ok t => (.ok (), { u with url := t, built := false })

/-- `str()`. -/
def Url.str (u : Url) : Except (Fault ParseError) (List UInt8) × Url :=
  if u.built then (.ok u.url, u)
  else
    match u.buildUrl with
    | (.error e, u) => (.error e, u)
    | (.ok (), u) => (.ok u.url, u)

/-! ## Escaped texts -/

section Encoded

variable {s out : List UInt8} {mask : UInt8}

theorem encode_eq_ok_iff :
    encode s mask = .ok out ↔ (∀ c ∈ s, c < 0x80) ∧ encoded s mask = out := by
  constructor
  · intro h
    have hlow := low_of_output (fun c hc ↦ encodeChar_of_le hc) h
    exact ⟨hlow, Except.ok.inj ((encode_eq mask hlow).symm.trans h)⟩
  · rintro ⟨hlow, rfl⟩
    exact encode_eq mask hlow

theorem low_of_isChars (h : isChars s mask = true) : ∀ c ∈ s, c < 0x80 := by
  intro c hc
  by_contra hnot
  have hchar := List.all_eq_true.mp h c hc
  rw [isChar_of_le c hnot] at hchar
  cases hchar

theorem encoded_of_isChars (h : isChars s mask = true) : encoded s mask = s := by
  induction s with
  | nil => rfl
  | cons c s ih =>
    rw [isChars, List.all_cons, Bool.and_eq_true] at h
    have hrest : encoded s mask = s := ih h.2
    rw [encoded] at hrest
    rw [encoded, List.flatMap_cons, hrest, if_pos h.1]
    rfl

theorem encodes_encoded (hmask : isChar mask 37 = false) (hlow : ∀ c ∈ s, c < 0x80) :
    decode (encoded s mask) = some s ∧ Escaped (fun c ↦ isChar mask c = true) (encoded s mask) := by
  obtain ⟨out, hout, hdec, hesc, -⟩ := (encode_iff hmask s).mpr hlow
  obtain ⟨-, rfl⟩ := encode_eq_ok_iff.mp hout
  exact ⟨hdec, hesc⟩

theorem Escaped.isChars {plain : UInt8 → Prop} (h : Escaped plain s)
    (hmask : ∀ c, plain c ∨ c = 37 ∨ isHexdigit c = true → isChar mask c = true) :
    isChars s mask = true := by
  rw [HttpUrl.isChars]
  induction h with
  | nil => rfl
  | char hc _ ih => rw [List.all_cons, hmask _ (.inl hc), ih]; rfl
  | percent ha hb _ ih =>
    rw [List.all_cons, List.all_cons, List.all_cons, hmask 37 (.inr (.inl rfl)),
      hmask _ (.inr (.inr ha)), hmask _ (.inr (.inr hb)), ih]
    rfl

theorem isChar_of_path : ∀ c : UInt8, isChar 0x0F c = true ∨ c = 37 ∨ isHexdigit c = true →
    isChar 0x2F c = true :=
  forall_byte (by decide +kernel)

theorem isChar_of_query : ∀ c : UInt8, isChar 0x1F c = true ∨ c = 37 ∨ isHexdigit c = true →
    isChar 0x3F c = true :=
  forall_byte (by decide +kernel)

theorem not_mem_escape_colon : ∀ c : UInt8, 58 ∉ escape c ∧ 47 ∉ escape c :=
  forall_byte (by decide +kernel)

theorem not_mem_encoded {c : UInt8} (hc : ∀ d, c ∉ escape d) (h : c ∉ s) : c ∉ encoded s mask := by
  intro hmem
  obtain ⟨d, hd, hmem⟩ := List.mem_flatMap.mp hmem
  split_ifs at hmem
  · exact h (List.mem_singleton.mp hmem ▸ hd)
  · exact hc d hmem

theorem cutAt_encoded (s : List UInt8) :
    cutAt [58, 47] (encoded s 0x0F) =
      (encoded (cutAt [58, 47] s).1 0x0F, encoded (cutAt [58, 47] s).2 0x0F) := by
  obtain ⟨x, y, rfl, hx, hy⟩ := exists_cut [58, 47] s
  rw [cutAt_of_head hx hy, encoded, List.flatMap_append]
  apply cutAt_of_head
  · refine not_mem_of_not_mem fun c hc ↦ not_mem_encoded (fun d ↦ ?_) fun hmem ↦ hx c hmem hc
    obtain ⟨h58, h47⟩ := not_mem_escape_colon d
    simp only [List.mem_cons, List.not_mem_nil, or_false] at hc
    rcases hc with rfl | rfl
    · exact h58
    · exact h47
  · rcases y with _ | ⟨c, y⟩
    · exact forall_mem_none
    · have hc := hy c rfl
      have hplain : isChar 0x0F c = true := by
        simp only [List.mem_cons, List.not_mem_nil, or_false] at hc
        rcases hc with rfl | rfl <;> rfl
      rw [List.flatMap_cons, if_pos hplain]
      rintro _ ⟨⟩
      exact hc

theorem head?_encoded_slash (h : s.head? = some 47) : (encoded s 0x0F).head? = some 47 := by
  obtain ⟨t, rfl⟩ := List.head?_eq_some_iff.mp h
  rfl

end Encoded

/-! ## Queries -/

/-- A pair that can be written: its key is not empty. -/
structure Writable (kv : List UInt8 × List UInt8) : Prop where
  key : kv.1 ≠ []
  lowKey : ∀ c ∈ kv.1, c < 0x80
  lowVal : ∀ c ∈ kv.2, c < 0x80

/-- The text of a pair. -/
structure PairText (kv : List UInt8 × List UInt8) (x : List UInt8) : Prop where
  marks : ∀ c ∈ x, isMark c = false
  fragment : 35 ∉ x
  read : pairOf x = .ok kv

/-- Of a query, the three marks are not in a key and two are not in a value. -/
theorem isChars_of_query {s : List UInt8} (h : Escaped queryChar s) : isChars s 0x3F = true := by
  refine h.isChars fun c hc ↦ ?_
  rcases hc with (hc | rfl) | hc
  · exact isChar_of_query c (.inl hc)
  · rfl
  · exact isChar_of_query c (.inr hc)

/-- **A pair is read back** from its text. -/
theorem exists_pairText (e : BuildError) {kv : List UInt8 × List UInt8} (h : Writable kv) :
    ∃ x, pairText e kv = .ok x ∧ PairText kv x := by
  -- What the encoders give holds none of the marks, so the pair is cut where it was put together.
  obtain ⟨key, hkey, hdecKey, hescKey, hmarksKey⟩ := (encodeQueryKey_iff kv.1).mpr h.lowKey
  obtain ⟨val, hval, hdecVal, hescVal, hmarksVal⟩ := (encodeQueryVal_iff kv.2).mpr h.lowVal
  have hcharsKey := isChars_of_query hescKey
  have hcharsVal := isChars_of_query hescVal
  have h61 : ∀ c ∈ key, c ∉ ([61] : List UInt8) :=
    not_mem_of_not_mem fun c hc ↦ hmarksKey c (List.mem_append_left [38, 59] hc)
  have hmark {s : List UInt8} (h38 : 38 ∉ s) (h59 : 59 ∉ s) : ∀ c ∈ s, isMark c = false :=
    isMark_of_not_mem (not_mem_of_not_mem (by simp [h38, h59]))
  have hmarkKey := hmark (hmarksKey 38 (by decide)) (hmarksKey 59 (by decide))
  have hmarkVal := hmark (hmarksVal 38 (by decide)) (hmarksVal 59 (by decide))
  have h35Key : 35 ∉ key := not_mem_of_isChars hcharsKey (by decide)
  have h35Val : 35 ∉ val := not_mem_of_isChars hcharsVal (by decide)
  rw [pairText, require_bind, if_pos (decide_eq_true h.key), hkey, ok_bind]
  -- An empty value is written without `=`, and is read as empty again.
  split_ifs with hnil
  · refine ⟨key, rfl, hmarkKey, h35Key, ?_⟩
    rw [pairOf_key h61, require_bind, if_pos hcharsKey, hdecKey, ← hnil]
    rfl
  · rw [hval, ok_bind]
    refine ⟨key ++ 61 :: val, rfl, ?_, by simp [h35Key, h35Val], ?_⟩
    · intro c hc
      rcases List.mem_append.mp hc with hc | hc
      · exact hmarkKey c hc
      · rcases List.mem_cons.mp hc with rfl | hc
        · rfl
        · exact hmarkVal c hc
    · rw [pairOf_value h61, require_bind, if_pos hcharsKey, hdecKey, decoded, ok_bind, require_bind,
        if_pos hcharsVal, hdecVal]
      rfl

theorem writable_of_pairText {e : BuildError} {kv : List UInt8 × List UInt8} {x : List UInt8}
    (h : pairText e kv = .ok x) : Writable kv := by
  obtain ⟨hkey, h⟩ := require_bind_eq_ok.mp h
  obtain ⟨key, henc, h⟩ := bind_eq_ok.mp h
  refine ⟨of_decide_eq_true hkey, low_of_output (fun c hc ↦ encodeKeyChar_of_le hc) henc, ?_⟩
  split_ifs at h with hnil
  · rw [hnil]
    exact fun c hc ↦ absurd hc List.not_mem_nil
  · obtain ⟨val, hval, -⟩ := bind_eq_ok.mp h
    exact low_of_output (fun c hc ↦ encodeValChar_of_le hc) hval

theorem exists_pairsText {q : Query} (h : ∀ kv ∈ q, Writable kv) :
    ∃ r, pairsText q = .ok r ∧ 35 ∉ r ∧ ∀ kv x, PairText kv x →
      ((x ++ r).splitOnP isMark).mapM pairOf = .ok (kv :: q) := by
  -- The pair in front is any pair, so that the first one, which is written elsewhere, fits as well.
  induction q with
  | nil =>
    refine ⟨[], rfl, List.not_mem_nil, fun kv x hx ↦ ?_⟩
    rw [List.append_nil, pairs_last hx.marks, hx.read]
    rfl
  | cons kv q ih =>
    obtain ⟨x, hpair, hx⟩ := exists_pairText .key (h kv List.mem_cons_self)
    obtain ⟨r, hr, h35, hread⟩ := ih fun kv hkv ↦ h kv (List.mem_cons_of_mem _ hkv)
    refine ⟨38 :: (x ++ r), ?_, by simp [hx.fragment, h35], fun kv' x' hx' ↦ ?_⟩
    · rw [pairsText, hpair, ok_bind, hr]
      rfl
    · rw [pairs_mark hx'.marks rfl, hx'.read, ok_bind, hread kv x hx]
      rfl

theorem writable_of_pairsText {q : Query} {r : List UInt8} (h : pairsText q = .ok r) :
    ∀ kv ∈ q, Writable kv := by
  induction q generalizing r with
  | nil => exact fun kv hkv ↦ absurd hkv List.not_mem_nil
  | cons kv q ih =>
    obtain ⟨x, hx, h⟩ := bind_eq_ok.mp h
    obtain ⟨r, hr, -⟩ := bind_eq_ok.mp h
    intro kv' hkv'
    rcases List.mem_cons.mp hkv' with rfl | hkv'
    · exact writable_of_pairText hx
    · exact ih hr kv' hkv'

/-- **A query is read back** from its text. -/
theorem exists_queryText {q : Query} (h : ∀ kv ∈ q, Writable kv) :
    ∃ query : Option (List UInt8), queryText q = .ok (marked 63 query) ∧ (∀ x ∈ query, 35 ∉ x) ∧
      queryOf (query.getD []) = .ok q := by
  rcases q with _ | ⟨kv, q⟩
  · exact ⟨none, rfl, forall_mem_none, rfl⟩
  · have hkv := h kv List.mem_cons_self
    obtain ⟨x, hpair, hx⟩ := exists_pairText .firstKey hkv
    obtain ⟨r, hr, h35, hread⟩ := exists_pairsText fun kv hkv ↦ h kv (List.mem_cons_of_mem _ hkv)
    refine ⟨some (x ++ r), ?_, ?_, ?_⟩
    · rw [queryText, hpair, ok_bind, hr]
      rfl
    · rintro _ ⟨⟩
      simp [hx.fragment, h35]
    -- An empty query would be read as no pair at all; a pair has a key.
    · have hne : x ++ r ≠ [] := by
        intro hnil
        have hx' := hx.read
        rw [(List.append_eq_nil_iff.mp hnil).1] at hx'
        exact hkv.key (congrArg Prod.fst (Except.ok.inj hx')).symm
      rw [Option.getD_some, queryOf_eq, pairsOf, if_neg hne, hread kv x hx]

theorem writable_of_queryText {q : Query} {r : List UInt8} (h : queryText q = .ok r) :
    ∀ kv ∈ q, Writable kv := by
  rcases q with _ | ⟨kv, q⟩
  · exact fun kv hkv ↦ absurd hkv List.not_mem_nil
  · obtain ⟨x, hx, h⟩ := bind_eq_ok.mp h
    obtain ⟨r, hr, -⟩ := bind_eq_ok.mp h
    intro kv' hkv'
    rcases List.mem_cons.mp hkv' with rfl | hkv'
    · exact writable_of_pairText hx
    · exact writable_of_pairsText hr kv' hkv'

/-! ## The parts in their text -/

/-- A part that is written unless it is empty. -/
def optional (s : List UInt8) : Option (List UInt8) := if s = [] then none else some s

theorem getD_optional (s : List UInt8) : (optional s).getD [] = s := by
  rw [optional]
  split_ifs with h
  · exact h.symm
  · rfl

theorem mem_optional {s x : List UInt8} (h : x ∈ optional s) : x = s ∧ s ≠ [] := by
  rw [optional] at h
  split_ifs at h with hnil
  · exact absurd h (Option.not_mem_none x)
  · exact ⟨(Option.some.inj h).symm, hnil⟩

theorem optional_eq_none_iff {s : List UInt8} : optional s = none ↔ s = [] := by
  rw [optional]
  split_ifs with h
  · exact iff_of_true rfl h
  · exact iff_of_false id h

/-- The parts without a port that is the default one. -/
def Parts.withoutDefault (p : Parts) : Parts :=
  { p with port := if p.defaultPort then [] else p.port }

/-- The parts as they are marked in the text that is written. -/
def Parts.raw (p : Parts) (query : Option (List UInt8)) : Raw where
  scheme := optional p.scheme
  user := optional p.user
  host := optional p.host
  ipV := if p.host = [] then -1 else p.ipV
  port := optional p.withoutDefault.port
  path := encoded p.path 0x0F
  query := query
  fragment := (optional p.fragment).map (encoded · 0x1F)

section Text

variable {p : Parts} {out : List UInt8}

theorem schemeText_eq (p : Parts) : p.schemeText = schemeText (optional p.scheme) := by
  rw [Parts.schemeText, optional]
  split_ifs <;> rfl

theorem userText_eq (h : isChars p.user 0x05 = true) :
    p.userText = .ok (userText (optional p.user)) := by
  rw [Parts.userText, optional]
  split_ifs
  · rfl
  · rw [encode_eq _ (low_of_isChars h), encoded_of_isChars h]
    rfl

theorem portText_eq (p : Parts) : p.portText = marked 58 (optional p.withoutDefault.port) := by
  rw [Parts.portText, optional, Parts.withoutDefault]
  dsimp only
  -- A default port is dropped, and an empty one is none.
  by_cases hdefault : p.defaultPort = true
  · rw [if_pos (.inr hdefault), if_pos hdefault, if_pos rfl]
    rfl
  · rw [if_neg hdefault]
    by_cases hnil : p.port = []
    · rw [if_pos (.inl hnil), if_pos hnil]
      rfl
    · rw [if_neg (not_or.mpr ⟨hnil, hdefault⟩), if_neg hnil]
      rfl

theorem pathText_eq_ok : p.pathText = .ok out ↔
    (p.host ≠ [] → ∀ c ∈ p.path.head?, c = 47) ∧ (∀ c ∈ p.path, c < 0x80) ∧
      encoded p.path 0x0F = out := by
  rw [Parts.pathText]
  split_ifs with hnil
  · rw [return_eq_ok, hnil]
    simp [encoded]
  · obtain ⟨c, path, hpath⟩ := List.exists_cons_of_ne_nil hnil
    rw [require_bind_eq_ok, encode_eq_ok_iff, hpath]
    refine and_congr_left fun _ ↦ ?_
    by_cases hhost : p.host = []
    · simp [hhost]
    · simp [hhost]

theorem fragmentText_eq_ok : p.fragmentText = .ok out ↔
    (∀ c ∈ p.fragment, c < 0x80) ∧
      marked 35 ((optional p.fragment).map (encoded · 0x1F)) = out := by
  rw [Parts.fragmentText, optional]
  split_ifs with hnil
  · rw [return_eq_ok, hnil]
    simp [marked]
  · rw [bind_eq_ok]
    simp only [encode_eq_ok_iff, return_eq_ok]
    constructor
    · rintro ⟨_, ⟨hlow, rfl⟩, rfl⟩
      exact ⟨hlow, rfl⟩
    · rintro ⟨hlow, rfl⟩
      exact ⟨_, ⟨hlow, rfl⟩, rfl⟩

theorem noAuthority_eq_ok : p.noAuthority = .ok out ↔
    p.user = [] ∧ p.port = [] ∧ (cutAt [58, 47] p.path).2.head? ≠ some 58 ∧ [] = out := by
  rw [Parts.noAuthority, require_bind_eq_ok, require_bind_eq_ok, require_bind_eq_ok, return_eq_ok,
    decide_eq_true_eq, decide_eq_true_eq, Bool.or_eq_true, decide_eq_true_eq, decide_eq_true_eq]
  rw [or_iff_right_of_imp]
  intro hnil
  rw [hnil]
  exact nofun

/-- What the text of the parts needs. -/
structure Parts.Written (p : Parts) : Prop where
  noHost : p.host = [] → p.user = [] ∧ p.port = [] ∧ (cutAt [58, 47] p.path).2.head? ≠ some 58
  rooted : p.host ≠ [] → ∀ c ∈ p.path.head?, c = 47
  path : ∀ c ∈ p.path, c < 0x80
  query : ∀ kv ∈ p.query, Writable kv
  fragment : ∀ c ∈ p.fragment, c < 0x80

theorem authority_eq_ok (huser : isChars p.user 0x05 = true) :
    (if p.host = [] then p.noAuthority else p.authorityText) = .ok out ↔
      (p.host = [] → p.user = [] ∧ p.port = [] ∧ (cutAt [58, 47] p.path).2.head? ≠ some 58) ∧
      (if optional p.host = none then [] else 47 :: 47 :: (userText (optional p.user) ++
        (hostText p.ipV p.host ++ marked 58 (optional p.withoutDefault.port)))) = out := by
  by_cases hhost : p.host = []
  · rw [if_pos hhost, noAuthority_eq_ok, if_pos (optional_eq_none_iff.mpr hhost)]
    simp [hhost, and_assoc]
  · rw [if_neg hhost, Parts.authorityText, userText_eq huser, ok_bind, return_eq_ok, portText_eq,
      if_neg (mt optional_eq_none_iff.mp hhost)]
    simp [hhost]

theorem text_eq_bind (p : Parts) : p.text = (do
    let auth ← (if p.host = [] then p.noAuthority else p.authorityText : Checked (List UInt8))
    let path ← p.pathText
    let query ← queryText p.query
    let fragment ← p.fragmentText
    return p.schemeText ++ (auth ++ (path ++ (query ++ fragment)))) := by
  rw [Parts.text]
  split_ifs <;> rfl

theorem text_eq_ok (huser : isChars p.user 0x05 = true) (h : p.text = .ok out) :
    p.Written ∧ ∃ query : Option (List UInt8), (p.raw query).text (hostText p.ipV p.host) = out ∧
      (∀ x ∈ query, 35 ∉ x) ∧ queryOf (query.getD []) = .ok p.query := by
  rw [text_eq_bind] at h
  obtain ⟨auth, hauth, h⟩ := bind_eq_ok.mp h
  obtain ⟨path, hpath, h⟩ := bind_eq_ok.mp h
  obtain ⟨qtext, hquery, h⟩ := bind_eq_ok.mp h
  obtain ⟨fragment, hfragment, h⟩ := bind_eq_ok.mp h
  obtain ⟨hnoHost, rfl⟩ := (authority_eq_ok huser).mp hauth
  obtain ⟨hrooted, hlowPath, rfl⟩ := pathText_eq_ok.mp hpath
  obtain ⟨hlowFragment, rfl⟩ := fragmentText_eq_ok.mp hfragment
  have hwritable := writable_of_queryText hquery
  obtain ⟨query, hquery', h35, hread⟩ := exists_queryText hwritable
  obtain rfl := Except.ok.inj (hquery'.symm.trans hquery)
  refine ⟨⟨hnoHost, hrooted, hlowPath, hwritable, hlowFragment⟩, query, ?_, h35, hread⟩
  rw [← return_eq_ok.mp h, schemeText_eq]
  rfl

theorem exists_text (huser : isChars p.user 0x05 = true) (h : p.Written) :
    ∃ out, p.text = .ok out := by
  obtain ⟨query, hquery, -⟩ := exists_queryText h.query
  rw [text_eq_bind, (authority_eq_ok huser).mpr ⟨h.noHost, rfl⟩, ok_bind,
    pathText_eq_ok.mpr ⟨h.rooted, h.path, rfl⟩, ok_bind, hquery, ok_bind,
    fragmentText_eq_ok.mpr ⟨h.fragment, rfl⟩, ok_bind]
  exact ⟨_, rfl⟩

end Text

end Knet.Http.HttpUrl
