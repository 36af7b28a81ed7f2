import Knet.Http.Ipv6Normal
import Knet.Http.UrlSafety

/-!
# Setting the host

`parse_url` takes a host by the characters it is made of, and `host(h)` checks an address as a
whole. A registered name that is made of hexadecimal digits and dots is an IPv6 address for the
setter, which asks for the characters only, too. So the two agree on fewer hosts than can be parsed:
`Settable`.
-/

namespace Knet.Http.HttpUrl

open Bytes Checked Inet NormalizeIpv6

/-! ## The setter -/

/-- `lazy_parse`. -/
def Url.lazyParse (u : Url) : Except (Fault ParseError) Unit × Url :=
  if u.parse then (.ok (), u) else u.parseUrl

/-- The host and the version that are set, where `-1` is `255`. -/
def hostValue (h : List UInt8) (ipV : UInt8) : Checked (List UInt8 × UInt8) :=
  if h = [] then return ([], 255)
  else if isIpv4 h then do
    require (isValidIpv4 h) (.invalidIpv4 h)
    return (h, 4)
  else if ipV ≠ 0 ∧ ipV ≠ 4 ∧ ipV ≠ 6 then do
    require (isIpv6 h) (.invalidIpvFuture h)
    return (h, ipV)
  else if isIpv6 h then do
    require (isValidIpv6 h) (.invalidIpv6 h)
    let o ← normalizeIPv6 h
    return (o, 6)
  else do
    require (isRegName h) (.invalidHost h)
    return (toLower h, 0)

/-- `host(h, ip_v)`: how it ends, and the object then. The version of the object is an `int8_t`,
which is compared with the `uint8_t`. -/
def Url.setHost (u : Url) (h : List UInt8) (ipV : UInt8) : Except (Fault ParseError) Unit × Url :=
  if 253 < h.length then (.error (.threw (.hostTooLong h)), u)
  else
    match u.lazyParse with
    | (.error e, u) => (.error e, u)
    | (.ok (), u) =>
      match hostValue h ipV with
      | .error e => (.error e, u)
      | .ok (o, v) =>
        if u.host ≠ o ∨ u.ipV ≠ v.toNat then
          (.ok (), { u with host := o, ipV := v.toInt8.toInt, built := false })
        else (.ok (), u)

/-- The text of the authority. -/
def authorityOf (s : List UInt8) : Option (List UInt8) :=
  let cut := cutAt [58, 47, 63, 35] s
  match (if cut.2.head? = some 58 then cut.2.tail else s) with
  | 47 :: 47 :: r => some (cutAt [47, 63, 35] r).1
  | _ => none

/-- The host is an IPvFuture literal. -/
def isFuture (s : List UInt8) : Bool :=
  match authorityOf s with
  | some auth =>
    (if (cutAt [64] auth).2 = [] then auth else (cutAt [64] auth).2.tail).take 2 == [91, 118]
  | none => false

/-- The setter takes the host of a parsed URL, and has the same host and version then. -/
def Agrees (u : Url) : Prop :=
  (({} : Url).setHost u.host 0).1 = .ok () ∧ (({} : Url).setHost u.host 0).2.host = u.host ∧
    (({} : Url).setHost u.host 0).2.ipV = u.ipV

/-- The hosts that are parsed and set alike: names of at most 253 characters that are not made of
hexadecimal digits and dots, IPv4 addresses, and IPv6 addresses in canonical form. -/
inductive Settable : ℤ → List UInt8 → Prop
  | name {h : List UInt8} : h.length ≤ 253 → isIpv6 h = false → Settable 0 h
  | ipv4 (q : Quad) : Wraps q → q.text.length ≤ 253 → Settable 4 q.text
  | ipv6 (t : Ipv6) : Accepted t → t.Canonical → t.text.length ≤ 39 → Settable 6 t.text

/-! ## Hosts that are no IPvFuture literal -/

/-- The version of such a host; a name is a registered name. -/
def PlainHost (ipV : ℤ) (h : List UInt8) : Prop :=
  ipV = 0 ∧ isRegName h = true ∧ isIpv4 h = false ∨ ipV = 4 ∨ ipV = 6

theorem literal_plain {s host : List UInt8} {ipV : ℤ} (h : literal s = .ok (ipV, host))
    (hs : s.head? ≠ some 118) : ipV = 6 := by
  rw [literal.eq_def] at h
  split at h
  · exact absurd rfl hs
  · exact absurd rfl hs
  · obtain ⟨-, hres⟩ := require_bind_eq_ok.mp h
    exact (Prod.mk.inj (Except.ok.inj hres)).1.symm

theorem hostPart_plain {s host r : List UInt8} {ipV : ℤ} (h : hostPart s = .ok (host, ipV, r))
    (hs : s.take 2 ≠ [91, 118]) : PlainHost ipV host := by
  rw [hostPart] at h
  split_ifs at h with hopen
  · obtain ⟨t, rfl⟩ := List.head?_eq_some_iff.mp hopen
    obtain ⟨-, hrest⟩ := require_bind_eq_ok.mp h
    obtain ⟨⟨ipV', host'⟩, hlit, hres⟩ := bind_eq_ok.mp hrest
    cases hres
    refine .inr (.inr (literal_plain hlit fun hhead ↦ hs ?_))
    obtain ⟨t', rfl⟩ := List.head?_eq_some_iff.mp (head?_cutAt hhead)
    rfl
  · obtain ⟨hok, hres⟩ := require_bind_eq_ok.mp h
    cases hres
    rw [Bool.or_eq_true] at hok
    split_ifs with hv4
    · exact .inr (.inl rfl)
    · exact .inl ⟨rfl, hok.resolve_left hv4, Bool.eq_false_iff.mpr hv4⟩

theorem userPart_eq_host {s r : List UInt8} {user : Option (List UInt8)}
    (h : userPart s = .ok (user, r)) :
    r = if (cutAt [64] s).2 = [] then s else (cutAt [64] s).2.tail := by
  rw [userPart] at h
  split_ifs at h ⊢
  · exact (Prod.mk.inj (Except.ok.inj h)).2.symm
  · obtain ⟨-, hres⟩ := require_bind_eq_ok.mp h
    exact (Prod.mk.inj (Except.ok.inj hres)).2.symm

theorem authority_plain {s : List UInt8} {raw : Raw} (h : authority s = .ok raw)
    (hs : (if (cutAt [64] s).2 = [] then s else (cutAt [64] s).2.tail).take 2 ≠ [91, 118]) :
    ∀ host ∈ raw.host, PlainHost raw.ipV host := by
  obtain ⟨⟨user, r⟩, huser, hrest⟩ := bind_eq_ok.mp h
  obtain ⟨⟨host, ipV, r'⟩, hhost, hrest⟩ := bind_eq_ok.mp hrest
  obtain ⟨port, -, hres⟩ := bind_eq_ok.mp hrest
  cases hres
  rintro _ ⟨⟩
  exact hostPart_plain hhost (userPart_eq_host huser ▸ hs)

theorem hierPart_plainHost {s : List UInt8} {scheme : Option (List UInt8)} {raw : Raw}
    (h : hierPart s scheme = .ok raw)
    (hs : ∀ r, s = 47 :: 47 :: r → ∀ auth, auth = (cutAt [47, 63, 35] r).1 →
      (if (cutAt [64] auth).2 = [] then auth else (cutAt [64] auth).2.tail).take 2 ≠ [91, 118]) :
    ∀ host ∈ raw.host, PlainHost raw.ipV host := by
  rw [hierPart.eq_def] at h
  split at h
  · obtain ⟨raw₁, hauth, hpath⟩ := bind_eq_ok.mp h
    have hplain := authority_plain hauth (hs _ rfl _ rfl)
    obtain ⟨-, -, hhost, hipV, -⟩ := (pathPart_ends hpath).same
    dsimp only at hhost hipV
    rwa [hhost, hipV] at hplain
  · obtain ⟨-, -, hhost, -, -⟩ := (pathPart_ends h).same
    rw [← hhost]
    exact forall_mem_none

theorem scan_plain {s : List UInt8} {raw : Raw} (h : scan s = .ok raw) (hs : isFuture s = false) :
    ∀ host ∈ raw.host, PlainHost raw.ipV host := by
  have hlen : s.length ≤ 8000 := of_decide_eq_true (require_bind_eq_ok.mp h).1
  rw [scan_eq hlen] at h
  rw [isFuture, authorityOf] at hs
  split_ifs at h with hcolon
  · obtain ⟨-, hhier⟩ := require_bind_eq_ok.mp h
    apply hierPart_plainHost hhier
    rintro r hr _ rfl htake
    rw [if_pos hcolon, hr] at hs
    simp [htake] at hs
  · apply hierPart_plainHost h
    rintro r hr _ rfl htake
    rw [if_neg hcolon, hr] at hs
    simp [htake] at hs

/-! ## What the setter does -/

section Setter

variable {u : Url} {h : List UInt8}

theorem agrees_iff (hne : u.host ≠ []) : Agrees u ↔
    u.host.length ≤ 253 ∧ ∃ v, hostValue u.host 0 = .ok (u.host, v) ∧ v.toInt8.toInt = u.ipV := by
  -- The fresh object has no host, so whatever is set changes it.
  by_cases hlen : 253 < u.host.length
  · have hset : ({} : Url).setHost u.host 0 = (.error (.threw (.hostTooLong u.host)), {}) := by
      rw [Url.setHost, if_pos hlen]
    constructor
    · rintro ⟨hok, -⟩
      rw [hset] at hok
      cases hok
    · rintro ⟨hle, -⟩
      omega
  · rcases hvalue : hostValue u.host 0 with e | ⟨o, v⟩
    · have hset : ({} : Url).setHost u.host 0 = (.error e, {}) := by
        rw [Url.setHost, if_neg hlen]
        simp only [Url.lazyParse, if_true, hvalue]
      constructor
      · rintro ⟨hok, -⟩
        rw [hset] at hok
        cases hok
      · rintro ⟨-, v, h, -⟩
        cases h
    · by_cases ho : o = u.host
      · subst ho
        have hset : ({} : Url).setHost u.host 0 =
            (.ok (), { host := u.host, ipV := v.toInt8.toInt, built := false }) := by
          rw [Url.setHost, if_neg hlen]
          simp only [Url.lazyParse, if_true, hvalue]
          rw [if_pos (.inl (Ne.symm hne))]
        rw [Agrees, hset]
        constructor
        · rintro ⟨-, -, hv⟩
          exact ⟨not_lt.mp hlen, v, rfl, hv⟩
        · rintro ⟨-, v', h, hv⟩
          cases h
          exact ⟨rfl, rfl, hv⟩
      · constructor
        · rintro ⟨-, hhost, -⟩
          rw [Url.setHost, if_neg hlen] at hhost
          simp only [Url.lazyParse, if_true, hvalue] at hhost
          split_ifs at hhost with hchanged
          · exact absurd hhost ho
          · exact absurd hhost.symm hne
        · rintro ⟨-, v', h, -⟩
          cases h
          exact absurd rfl ho

theorem return_eq_ok {α : Type} {a b : α} : (return a : Checked α) = .ok b ↔ a = b :=
  ⟨Except.ok.inj, congrArg Except.ok⟩

theorem hostValue_eq_self_iff {v : UInt8} (hne : h ≠ []) : hostValue h 0 = .ok (h, v) ↔
    (isIpv4 h = true ∧ isValidIpv4 h = true ∧ v = 4) ∨
    (isIpv4 h = false ∧ isIpv6 h = true ∧ isValidIpv6 h = true ∧ normalizeIPv6 h = .ok h ∧ v = 6) ∨
    (isIpv4 h = false ∧ isIpv6 h = false ∧ isRegName h = true ∧ toLower h = h ∧ v = 0) := by
  rw [hostValue, if_neg hne, if_neg (show ¬((0 : UInt8) ≠ 0 ∧ _) from fun hcon ↦ hcon.1 rfl)]
  -- The setter asks for the shape first, and throws where the shape is right and the address
  -- is not.
  rcases hv4 : isIpv4 h with _ | _
  · rw [if_neg Bool.false_ne_true]
    rcases hv6 : isIpv6 h with _ | _
    · rw [if_neg Bool.false_ne_true, require_bind_eq_ok, return_eq_ok, Prod.mk.injEq]
      simp [@eq_comm _ 0 v]
    · rw [if_pos rfl, require_bind_eq_ok, bind_eq_ok]
      simp only [return_eq_ok, Prod.mk.injEq]
      constructor
      · rintro ⟨hvalid, _, hnormal, rfl, rfl⟩
        exact .inr (.inl ⟨trivial, trivial, hvalid, hnormal, rfl⟩)
      · rintro (⟨hfalse, -⟩ | ⟨-, -, hvalid, hnormal, rfl⟩ | ⟨-, hfalse, -⟩)
        · cases hfalse
        · exact ⟨hvalid, h, hnormal, rfl, rfl⟩
        · cases hfalse
  · rw [if_pos rfl, require_bind_eq_ok, return_eq_ok, Prod.mk.injEq]
    simp [@eq_comm _ 4 v]

theorem colon_mem_text {t : Ipv6} (ht : Accepted t) : (58 : UInt8) ∈ t.text := by
  rw [Ipv6.text]
  split
  · next hafter =>
    obtain ⟨g, g', gs, hbefore⟩ := ht.two_groups hafter
    rw [hbefore, List.map_cons, List.map_cons, List.cons_append, List.cons_append,
      List.intercalate_cons_cons]
    exact List.mem_append_left _ (List.mem_append_right _ List.mem_cons_self)
  · exact List.mem_append_right _ List.mem_cons_self

theorem isIpv4_of_colon (hmem : (58 : UInt8) ∈ h) : isIpv4 h = false := by
  rw [isIpv4, Bool.and_eq_false_iff]
  refine .inr (List.all_eq_false.mpr ⟨58, hmem, by decide⟩)

theorem isIpv4_text {q : Quad} (hlen : q.text.length ≤ 254) : isIpv4 q.text = true := by
  have hpos (n : ℕ) := List.length_pos_iff.mpr (Text.decimal_ne_nil n)
  have hseven : 7 ≤ q.text.length := by
    have ha := hpos q.a
    have hb := hpos q.b
    have hc := hpos q.c
    have hd := hpos q.d
    rw [Quad.text_eq]
    simp only [List.length_append, List.length_cons]
    omega
  have hall : (q.text.all fun c ↦ c == 46 || isNum c) = true := by
    apply List.all_eq_true.mpr
    intro c hc
    rcases Quad.mem_text hc with rfl | hc
    · rfl
    · rw [Bool.or_eq_true]
      exact .inr hc
  rw [isIpv4, hall, decide_eq_true hseven, decide_eq_true hlen]
  rfl

theorem isValidIpv6_of_isRegName (hreg : isRegName h = true) : isValidIpv6 h = false := by
  -- There is a colon in every address, and none in a name.
  by_contra hvalid
  obtain ⟨-, t, ht, rfl⟩ := isValidIpv6_iff.mp (Bool.not_eq_false _ ▸ hvalid)
  exact not_mem_of_isChars hreg (by decide) (colon_mem_text ht)

theorem toLower_toLower (h : List UInt8) : toLower (toLower h) = toLower h := by
  have hchar : ∀ c : UInt8, (fun c : UInt8 ↦ if 65 ≤ c && c ≤ 90 then c ||| 0x20 else c)
      (if 65 ≤ c && c ≤ 90 then c ||| 0x20 else c) = if 65 ≤ c && c ≤ 90 then c ||| 0x20 else c :=
    forall_byte (by decide +kernel)
  rw [toLower, toLower, List.map_map]
  exact List.map_congr_left fun c _ ↦ hchar c

theorem isRegName_toLower (hreg : isRegName h = true) : isRegName (toLower h) = true := by
  have hchar : ∀ c : UInt8, isChar 0x01 c = true →
      isChar 0x01 (if 65 ≤ c && c ≤ 90 then c ||| 0x20 else c) = true :=
    forall_byte (by decide +kernel)
  rw [isRegName, isChars, List.all_eq_true] at hreg ⊢
  intro c hc
  obtain ⟨d, hd, rfl⟩ := List.mem_map.mp hc
  exact hchar d (hreg d hd)

theorem isIpv4_toLower (h : List UInt8) : isIpv4 (toLower h) = isIpv4 h := by
  have hchar : ∀ c : UInt8, ((if 65 ≤ c && c ≤ 90 then c ||| 0x20 else c) == 46 ||
      isNum (if 65 ≤ c && c ≤ 90 then c ||| 0x20 else c)) = (c == 46 || isNum c) :=
    forall_byte (by decide +kernel)
  rw [isIpv4, isIpv4, toLower, List.length_map, List.all_map]
  congr 2
  exact funext hchar

/-- A name is taken unless it looks like an IPv6 address. -/
theorem agrees_name_iff (hne : u.host ≠ []) (hipV : u.ipV = 0) (hreg : isRegName u.host = true)
    (hv4 : isIpv4 u.host = false) (hlower : toLower u.host = u.host) :
    Agrees u ↔ Settable u.ipV u.host := by
  rw [agrees_iff hne]
  simp only [hostValue_eq_self_iff hne]
  constructor
  · rintro ⟨hlen, v, ⟨htrue, -⟩ | ⟨-, -, hvalid, -⟩ | ⟨-, hv6, -⟩, -⟩
    · rw [hv4] at htrue
      cases htrue
    · rw [isValidIpv6_of_isRegName hreg] at hvalid
      cases hvalid
    · rw [hipV]
      exact .name hlen hv6
  · rw [hipV]
    rintro (⟨hlen, hv6⟩ | - | -)
    exact ⟨hlen, 0, .inr (.inr ⟨hv4, hv6, hreg, hlower, rfl⟩), rfl⟩

theorem agrees_ipv4_iff (hne : u.host ≠ []) (hipV : u.ipV = 4) :
    Agrees u ↔ Settable u.ipV u.host := by
  rw [agrees_iff hne]
  simp only [hostValue_eq_self_iff hne]
  rw [hipV]
  constructor
  · rintro ⟨hlen, v, ⟨-, hvalid, rfl⟩ | ⟨-, -, -, -, rfl⟩ | ⟨-, -, -, -, rfl⟩, hv⟩
    · obtain ⟨q, hq, htext⟩ := isValidIpv4_iff.mp hvalid
      rw [← htext] at hlen ⊢
      exact .ipv4 q hq hlen
    · exact absurd hv (by decide)
    · exact absurd hv (by decide)
  · intro hset
    generalize u.host = h at hset
    rcases hset with - | ⟨q, hq, hlen⟩ | -
    exact ⟨hlen, 4, .inl ⟨isIpv4_text (by omega), isValidIpv4_iff.mpr ⟨q, hq, rfl⟩, rfl⟩, rfl⟩

theorem agrees_ipv6_iff (hne : u.host ≠ []) (hipV : u.ipV = 6) :
    Agrees u ↔ Settable u.ipV u.host := by
  rw [agrees_iff hne]
  simp only [hostValue_eq_self_iff hne]
  rw [hipV]
  constructor
  · rintro ⟨-, v, ⟨-, -, rfl⟩ | ⟨-, -, hvalid, hnormal, rfl⟩ | ⟨-, -, -, -, rfl⟩, hv⟩
    · exact absurd hv (by decide)
    · obtain ⟨t, ht, hcanon, htext⟩ := (normalizeIPv6_eq_self_iff hvalid).mp hnormal
      have hlen := (isValidIpv6_iff.mp hvalid).1
      rw [← htext] at hlen ⊢
      exact .ipv6 t ht hcanon hlen
    · exact absurd hv (by decide)
  · intro hset
    generalize u.host = h at hset
    rcases hset with - | - | ⟨t, ht, hcanon, hlen⟩
    have hvalid := isValidIpv6_iff.mpr ⟨hlen, t, ht, rfl⟩
    refine ⟨by omega, 6, .inr (.inl ⟨isIpv4_of_colon (colon_mem_text ht),
      isIpv6_of_isValidIpv6 hvalid, hvalid, ?_, rfl⟩), rfl⟩
    exact (normalizeIPv6_eq_self_iff hvalid).mpr ⟨t, ht, hcanon, rfl⟩

end Setter

/-- **When the parser and the setter agree**: the host of a parsed URL that is no IPvFuture literal
is a name that does not look like an IPv6 address, or a valid address. -/
theorem setHost_agrees_iff {s : List UInt8} {u : Url} (h : (Url.ofText s).parseUrl = (.ok (), u))
    (hhost : u.host ≠ []) (hfuture : isFuture s = false) : Agrees u ↔ Settable u.ipV u.host := by
  by_cases hs : s = []
  · subst hs
    cases h
    exact absurd rfl hhost
  · obtain ⟨raw, hscan, hdecoded, -⟩ := parseUrl_eq_ok h hs
    have hplain := scan_plain hscan hfuture
    have hmarked := scan_marked hscan
    rcases hraw : raw.host with _ | host
    · exact absurd (hdecoded.noHost hraw) hhost
    · obtain ⟨t, ht⟩ := hmarked.host host hraw
      have hdecode := hdecoded.host host hraw
      rw [hostOf_eq ht] at hdecode
      -- Of an address only the version matters: the setter checks it as a whole.
      rcases hplain host hraw with ⟨hipV, hreg, hv4⟩ | hipV | hipV
      · rw [if_pos hipV] at hdecode
        have hlower : u.host = toLower host := (Except.ok.inj hdecode).symm
        apply agrees_name_iff hhost (hdecoded.ipV.trans hipV)
        · rw [hlower]
          exact isRegName_toLower hreg
        · rw [hlower, isIpv4_toLower, hv4]
        · rw [hlower, toLower_toLower]
      · exact agrees_ipv4_iff hhost (hdecoded.ipV.trans hipV)
      · exact agrees_ipv6_iff hhost (hdecoded.ipV.trans hipV)

/-- A name that is set as it is. -/
theorem setHost_agrees_org :
    let u := ((Url.ofText (ofString "http://example.org/")).parseUrl).2
    Agrees u ↔ Settable u.ipV u.host :=
  setHost_agrees_iff (s := ofString "http://example.org/") (by decide) (by decide) (by decide)

/-- The setter takes `cafe` for an IPv6 address. -/
theorem setHost_rejects_cafe : ¬∀ s u, (Url.ofText s).parseUrl = (.ok (), u) → u.host ≠ [] →
    isFuture s = false → Agrees u := by
  intro h
  have hagrees := h (ofString "http://cafe/") ((Url.ofText (ofString "http://cafe/")).parseUrl).2
    (by decide) (by decide) (by decide)
  exact absurd hagrees.1 (by decide)

end Knet.Http.HttpUrl
