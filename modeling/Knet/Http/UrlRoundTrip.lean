import Knet.Http.NormalizePath
import Knet.Http.UrlBuild

/-!
# Parsing what was built

The parts of a parsed URL are known well enough (`Parts.Parsed`) that the text which `build_url`
writes for them is one where `parse_url` marks them again. What is left to ask is that there is
something to mark: an empty host is not written, and a host is written by its version, whatever it
is made of.
-/

namespace Knet.Http.HttpUrl

open Bytes Checked NormalizeIpv6

/-! ## The parts of a parsed URL -/

/-- What is known of parts that were parsed. -/
structure Parts.Parsed (p : Parts) : Prop where
  scheme : ∀ x ∈ optional p.scheme, isScheme x = true
  lower : toLower p.scheme = p.scheme
  user : isChars p.user 0x05 = true
  host : isChars p.host 0x05 = true
  port : ∀ x ∈ optional p.port, isPort x = true
  noAuthority : p.ipV = -1 → p.user = [] ∧ p.port = []
  version : p.host ≠ [] → ∃ c, isHexdigit c = true ∧ version c = p.ipV
  name : p.ipV = 0 → toLower p.host = p.host
  ipv6 : p.ipV = 6 → 118 ∉ p.host
  path : normalizePath p.path = p.path
  single : p.path.take 2 ≠ [47, 47]
  rooted : p.host ≠ [] → ∀ c ∈ p.path.head?, c = 47

theorem isScheme_toLower {s : List UInt8} (h : isScheme s = true) : isScheme (toLower s) = true := by
  have halpha : ∀ c : UInt8, isAlpha c = true →
      isAlpha (if 65 ≤ c && c ≤ 90 then c ||| 0x20 else c) = true :=
    forall_byte (by decide +kernel)
  have hchar : ∀ c : UInt8, (isAlpha c || isNum c || [43, 45, 46].contains c) = true →
      (isAlpha (if 65 ≤ c && c ≤ 90 then c ||| 0x20 else c) ||
        isNum (if 65 ≤ c && c ≤ 90 then c ||| 0x20 else c) ||
        [43, 45, 46].contains (if 65 ≤ c && c ≤ 90 then c ||| 0x20 else c)) = true :=
    forall_byte (by decide +kernel)
  rcases s with _ | ⟨c, t⟩
  · exact h
  · rw [isScheme, Bool.and_eq_true, List.all_eq_true] at h
    rw [toLower, List.map_cons, isScheme, halpha c h.1, Bool.true_and, List.all_eq_true]
    intro d hd
    obtain ⟨e, he, rfl⟩ := List.mem_map.mp hd
    exact hchar e (h.2 e he)

theorem isChars_toLower {s : List UInt8} (h : isChars s 0x05 = true) :
    isChars (toLower s) 0x05 = true := by
  have hchar : ∀ c : UInt8, isChar 0x05 c = true →
      isChar 0x05 (if 65 ≤ c && c ≤ 90 then c ||| 0x20 else c) = true :=
    forall_byte (by decide +kernel)
  rw [isChars, List.all_eq_true] at h ⊢
  intro c hc
  obtain ⟨d, hd, rfl⟩ := List.mem_map.mp hc
  exact hchar d (h d hd)

theorem HostText.version {ipV : ℤ} {h t : List UInt8} (ht : HostText ipV h t) :
    ∃ c, isHexdigit c = true ∧ HttpUrl.version c = ipV := by
  rcases ht with - | - | - | ⟨hhex, -⟩
  · exact ⟨48, rfl, rfl⟩
  · exact ⟨52, rfl, rfl⟩
  · exact ⟨54, rfl, rfl⟩
  · exact ⟨_, hhex, rfl⟩

theorem isChars_normalizeIPv6 {s out : List UInt8} (h : normalizeIPv6 s = .ok out) :
    isChars out 0x05 = true ∧ 118 ∉ out := by
  obtain ⟨hs, hmem⟩ := normalizeIPv6_chars h
  have hall : ∀ c ∈ out, (c == 58 || c == 46 || isHexdigit c) = true := by
    intro c hc
    rcases hmem c hc with rfl | hhex | hc
    · rfl
    · rw [isHexdigit_eq, hhex, Bool.or_true]
    · rw [isIpv6, Bool.and_eq_true] at hs
      exact List.all_eq_true.mp hs.2 c hc
  exact ⟨List.all_eq_true.mpr fun c hc ↦ isChar_of_ipv6 c (hall c hc),
    fun hv ↦ absurd (hall 118 hv) (by decide)⟩

/-- How a host is decoded, by its version. -/
inductive HostDecoded (ipV : ℤ) (host : List UInt8) : List UInt8 → Prop
  | name : ipV = 0 → HostDecoded ipV host (toLower host)
  | ipv6 {out : List UInt8} : ipV = 6 → normalizeIPv6 host = .ok out → HostDecoded ipV host out
  | other : ipV ≠ 0 → ipV ≠ 6 → HostDecoded ipV host host

theorem hostDecoded_of_ok {ipV : ℤ} {host out t : List UInt8} (ht : HostText ipV host t)
    (h : hostOf ipV host = .ok out) : HostDecoded ipV host out := by
  rw [hostOf_eq ht] at h
  split_ifs at h with h0 h6
  · rw [← Except.ok.inj h]
    exact .name h0
  · exact .ipv6 h6 h
  · rw [← Except.ok.inj h]
    exact .other h0 h6

section Decoded

variable {ipV : ℤ} {host out t : List UInt8}

theorem HostDecoded.isChars (h : HostDecoded ipV host out) (ht : HostText ipV host t) :
    isChars out 0x05 = true := by
  rcases h with - | ⟨-, hnormal⟩ | -
  · exact isChars_toLower ht.isChars
  · exact (isChars_normalizeIPv6 hnormal).1
  · exact ht.isChars

theorem HostDecoded.lower (h : HostDecoded ipV host out) (hipV : ipV = 0) : toLower out = out := by
  rcases h with - | ⟨h6, -⟩ | ⟨h0, -⟩
  · exact toLower_toLower host
  · exact absurd (h6.symm.trans hipV) (by decide)
  · exact absurd hipV h0

theorem HostDecoded.not_mem (h : HostDecoded ipV host out) (hipV : ipV = 6) : 118 ∉ out := by
  rcases h with h0 | ⟨-, hnormal⟩ | ⟨-, h6⟩
  · exact absurd (h0.symm.trans hipV) (by decide)
  · exact (isChars_normalizeIPv6 hnormal).2
  · exact absurd hipV h6

end Decoded

theorem Raw.Decoded.user_eq {raw : Raw} {p : Parts} (hd : raw.Decoded p) (h : raw.Marked) :
    p.user = raw.user.getD [] ∧ isChars p.user 0x05 = true := by
  have hchars : isChars (raw.user.getD []) 0x05 = true := by
    rcases huser : raw.user with _ | user
    · rfl
    · exact h.user user huser
  have heq := (decode_of_not_mem (not_mem_of_isChars hchars (by decide))).symm.trans hd.user
  obtain heq := Option.some.inj heq
  exact ⟨heq.symm, heq ▸ hchars⟩

theorem rooted_normalizePath {s p : List UInt8} (hs : ∀ c ∈ s.head?, c = 47)
    (hdecode : decode s = some p) : ∀ c ∈ (normalizePath p).head?, c = 47 := by
  rcases s with _ | ⟨c, s⟩
  · cases hdecode
    exact forall_mem_none
  · obtain rfl : c = 47 := hs c rfl
    rw [decode_cons (by decide)] at hdecode
    obtain ⟨r, -, rfl⟩ := Option.map_eq_some_iff.mp hdecode
    rw [(clean_normalizePath (47 :: r)).leading.mpr rfl]
    rintro _ ⟨⟩
    rfl

theorem parsed_of_decoded {raw : Raw} {p : Parts} (h : raw.Marked) (hd : raw.Decoded p) :
    p.Parsed := by
  have hsome (hne : p.host ≠ []) : raw.host ≠ none := fun hnone ↦ hne (hd.noHost hnone)
  -- All that is known of the host comes from how it stands in the text and how it is decoded.
  have hhost : raw.host = none ∧ p.host = [] ∨ ∃ host t, raw.host = some host ∧
      HostText p.ipV host t ∧ HostDecoded p.ipV host p.host := by
    rcases hraw : raw.host with _ | host
    · exact .inl ⟨rfl, hd.noHost hraw⟩
    · obtain ⟨t, ht⟩ := h.host host hraw
      exact .inr ⟨host, t, rfl, hd.ipV ▸ ht, hd.ipV ▸ hostDecoded_of_ok ht (hd.host host hraw)⟩
  obtain ⟨path, hpath, hnormal⟩ := hd.path
  refine ⟨?_, ?_, (hd.user_eq h).2, ?_, ?_, ?_, ?_, ?_, ?_, ?_, ?_, ?_⟩
  · intro x hx
    obtain ⟨rfl, hne⟩ := mem_optional hx
    rw [hd.scheme] at hne ⊢
    rcases hscheme : raw.scheme with _ | scheme
    · rw [hscheme] at hne
      exact absurd rfl hne
    · exact isScheme_toLower (h.scheme scheme hscheme)
  · rw [hd.scheme, toLower_toLower]
  · rcases hhost with ⟨-, hnil⟩ | ⟨host, t, -, ht, hdec⟩
    · rw [hnil]
      rfl
    · exact hdec.isChars ht
  · intro x hx
    obtain ⟨rfl, hne⟩ := mem_optional hx
    rw [hd.port] at hne ⊢
    rcases hport : raw.port with _ | port
    · rw [hport] at hne
      exact absurd rfl hne
    · exact h.port port hport
  · intro hipV
    rcases hhost with ⟨hnone, -⟩ | ⟨host, t, -, ht, -⟩
    · obtain ⟨-, huser, hport⟩ := h.noHost hnone
      rw [(hd.user_eq h).1, hd.port, huser, hport]
      exact ⟨rfl, rfl⟩
    · obtain ⟨c, hc, hversion⟩ := ht.version
      exact absurd (hversion.trans hipV) (version_ne hc)
  · intro hne
    rcases hhost with ⟨-, hnil⟩ | ⟨host, t, -, ht, -⟩
    · exact absurd hnil hne
    · exact ht.version
  · intro hipV
    rcases hhost with ⟨-, hnil⟩ | ⟨host, t, -, -, hdec⟩
    · rw [hnil]
      rfl
    · exact hdec.lower hipV
  · intro hipV
    rcases hhost with ⟨-, hnil⟩ | ⟨host, t, -, -, hdec⟩
    · rw [hnil]
      exact List.not_mem_nil
    · exact hdec.not_mem hipV
  · rw [← hnormal]
    exact (clean_normalizePath path).eq
  · rw [← hnormal]
    exact single_normalizePath path
  · intro hne
    rw [← hnormal]
    exact rooted_normalizePath (h.absolute (hsome hne)) hpath

/-! ## The host where it is written -/

/-- A host that is taken for the same one by its version: an IPvFuture literal of version 0, 4 or 6
is written like a name or an address. -/
structure StandsFor (ipV : ℤ) (host : List UInt8) : Prop where
  name : ipV = 0 → isRegName host = true ∧ isIpv4 host = false
  ipv4 : ipV = 4 → isIpv4 host = true
  ipv6 : ipV = 6 → isIpv6 host = true ∧ normalizeIPv6 host = .ok host

theorem hexDigits_version : ∀ c : UInt8, isHexdigit c = true →
    ∃ d, Inet.hexDigits 8 (version c % 2 ^ 32).toNat = [d] ∧ isHexdigit d = true ∧
      version d = version c := by
  have hdigit : ∀ c : UInt8, isHexdigit c = true →
      (fun d ↦ Inet.hexDigits 8 (version c % 2 ^ 32).toNat = [d] ∧ isHexdigit d = true ∧
        version d = version c) ((Inet.hexDigits 8 (version c % 2 ^ 32).toNat).headD 0) :=
    forall_byte (by decide +kernel)
  exact fun c hc ↦ ⟨_, hdigit c hc⟩

section Host

variable {p : Parts} {port : Option (List UInt8)} {h host r : List UInt8} {ipV : ℤ}

theorem StandsFor.hostText (hp : p.Parsed) (hne : p.host ≠ []) (hstands : StandsFor p.ipV p.host) :
    HostText p.ipV p.host (hostText p.ipV p.host) ∧ hostOf p.ipV p.host = .ok p.host := by
  have hchars := hp.host
  have hlower := hp.name
  obtain ⟨c, hc, hversion⟩ := hp.version hne
  generalize p.ipV = ipV at hstands hlower hversion ⊢
  generalize p.host = host at hstands hlower hchars ⊢
  -- An IPvFuture literal keeps its version only where the version is none of these three.
  by_cases h0 : ipV = 0
  · subst h0
    obtain ⟨hreg, hv4⟩ := hstands.name rfl
    have ht : HostText 0 host host := .name hreg hv4
    exact ⟨ht, by rw [hostOf_eq ht, if_pos rfl, hlower rfl]⟩
  · by_cases h4 : ipV = 4
    · subst h4
      have ht : HostText 4 host host := .ipv4 (hstands.ipv4 rfl)
      exact ⟨ht, hostOf_eq ht⟩
    · by_cases h6 : ipV = 6
      · subst h6
        obtain ⟨hv6, hnormal⟩ := hstands.ipv6 rfl
        have ht : HostText 6 host (91 :: (host ++ [93])) := .ipv6 hv6
        exact ⟨ht, by rw [hostOf_eq ht, if_neg (by decide), if_pos rfl, hnormal]⟩
      · obtain ⟨d, hd, hdhex, hdversion⟩ := hexDigits_version c hc
        have ht : HostText ipV host (HttpUrl.hostText ipV host) := by
          rw [HttpUrl.hostText, if_neg (not_or.mpr ⟨h0, h4⟩), if_neg h6, ← hversion, hd, ← hdversion]
          exact .future hdhex hchars
        exact ⟨ht, by rw [hostOf_eq ht, if_neg h0, if_neg h6]⟩

theorem hostPart_bare (hchars : isChars h 0x05 = true) (hne : h ≠ [])
    (hpart : hostPart (h ++ marked 58 port) = .ok (host, ipV, r)) (hlen : host.length = h.length) :
    host = h ∧ isRegName h = true ∧ ipV = if isIpv4 h then 4 else 0 := by
  have hopen : (h ++ marked 58 port).head? ≠ some 91 := by
    rw [List.head?_append_of_ne_nil _ hne]
    exact fun hmem ↦ not_mem_of_isChars hchars (c := 91) (by decide) (List.mem_of_mem_head? hmem)
  rw [hostPart, if_neg hopen] at hpart
  obtain ⟨hok, hres⟩ := require_bind_eq_ok.mp hpart
  cases hres
  have happend := cutAt_append [58] (h ++ marked 58 port)
  obtain ⟨heq, -⟩ := List.append_inj happend hlen
  rw [heq] at hok ⊢
  refine ⟨rfl, ?_, rfl⟩
  rw [Bool.or_eq_true] at hok
  exact hok.elim isRegName_of_isIpv4 id

theorem hostPart_bracket (hclose : 93 ∉ h) (hv : 118 ∉ h) (hne : h ≠ [])
    (hpart : hostPart (91 :: (h ++ [93]) ++ marked 58 port) = .ok (host, ipV, r)) :
    host = h ∧ isIpv6 h = true := by
  rw [List.cons_append, List.append_assoc, hostPart, if_pos List.head?_cons, List.tail_cons,
    bracket, List.singleton_append,
    cutAt_of_mem (not_mem_of_not_mem (by simpa using hclose)) (List.mem_singleton_self 93)] at hpart
  obtain ⟨-, hpart⟩ := require_bind_eq_ok.mp hpart
  obtain ⟨⟨ipV', host'⟩, hlit, hres⟩ := bind_eq_ok.mp hpart
  cases hres
  obtain ⟨c, t, rfl⟩ := List.exists_cons_of_ne_nil hne
  rw [literal_of_head_ne fun heq ↦ hv (heq ▸ List.mem_cons_self)] at hlit
  obtain ⟨hv6, hres⟩ := require_bind_eq_ok.mp hlit
  cases hres
  exact ⟨rfl, hv6⟩

end Host

/-- The host is marked by what stands where the authority is, whatever that is. -/
theorem scan_host {raw raw' : Raw} {x : List UInt8} (hscheme : ∀ y ∈ raw.scheme, isScheme y = true)
    (huser : ∀ y ∈ raw.user, isChars y 0x05 = true) (hport : ∀ y ∈ raw.port, isPort y = true)
    (hrooted : ∀ c ∈ raw.path.head?, c = 47) (hhost : raw.host ≠ none)
    (hx : ∀ c ∈ ([47, 63, 35, 64] : List UInt8), c ∉ x) (h : scan (raw.text x) = .ok raw') :
    ∃ host r, raw'.host = some host ∧
      hostPart (x ++ marked 58 raw.port) = .ok (host, raw'.ipV, r) := by
  have hlen : (raw.text x).length ≤ 8000 := of_decide_eq_true (require_bind_eq_ok.mp h).1
  rw [Raw.text, if_neg hhost, List.cons_append, List.cons_append] at h hlen
  rw [scan_schemeText hscheme (fun _ ↦ head?_cutAt_slash _) hlen,
    hierPart_authority _ (fun c hc ↦ not_mem_authority huser hport hc
      (hx c (List.mem_append_left [64] hc))) (head?_behind hrooted)] at h
  obtain ⟨raw₁, hauth, hpath⟩ := bind_eq_ok.mp h
  have hnot : 64 ∉ x ++ marked 58 raw.port := by
    rw [List.mem_append, not_or]
    exact ⟨hx 64 (by decide), not_mem_port hport (by decide) (by decide)⟩
  rw [authority_userText huser hnot] at hauth
  obtain ⟨⟨host, ipV, r⟩, hpart, hauth⟩ := bind_eq_ok.mp hauth
  obtain ⟨port, -, hres⟩ := bind_eq_ok.mp hauth
  cases hres
  obtain ⟨-, -, hhost', hipV, -⟩ := (pathPart_ends hpath).same
  exact ⟨host, r, hhost'.symm, hipV ▸ hpart⟩

theorem HostDecoded.length_eq {ipV : ℤ} {host out : List UInt8} (h : HostDecoded ipV host out)
    (h6 : ipV ≠ 6) : host.length = out.length := by
  rcases h with - | ⟨hipV, -⟩ | -
  · exact (List.length_map _).symm
  · exact absurd hipV h6
  · rfl

theorem HostDecoded.normalizes {ipV : ℤ} {host out : List UInt8} (h : HostDecoded ipV host out)
    (h6 : ipV = 6) : normalizeIPv6 host = .ok out := by
  rcases h with h0 | ⟨-, hnormal⟩ | ⟨-, hnot⟩
  · exact absurd (h0.symm.trans h6) (by decide)
  · exact hnormal
  · exact absurd h6 hnot

theorem standsFor_of_hostPart {p : Parts} {port : Option (List UInt8)} {host r : List UInt8}
    (hp : p.Parsed) (hne : p.host ≠ [])
    (hpart : hostPart (hostText p.ipV p.host ++ marked 58 port) = .ok (host, p.ipV, r))
    (hdec : HostDecoded p.ipV host p.host) : StandsFor p.ipV p.host := by
  -- Version 0 and 4 are written without brackets, so the host is cut at a colon; a shorter one
  -- would be found.
  have hbare (hipV : p.ipV = 0 ∨ p.ipV = 4) :
      isRegName p.host = true ∧ p.ipV = if isIpv4 p.host then 4 else 0 := by
    have h6 : p.ipV ≠ 6 := by
      rintro h6
      rw [h6] at hipV
      exact absurd hipV (by decide)
    rw [hostText, if_pos hipV] at hpart
    exact (hostPart_bare hp.host hne hpart (hdec.length_eq h6)).2
  refine ⟨fun h0 ↦ ?_, fun h4 ↦ ?_, fun h6 ↦ ?_⟩
  · obtain ⟨hreg, hipV⟩ := hbare (.inl h0)
    refine ⟨hreg, Bool.eq_false_iff.mpr fun hv4 ↦ ?_⟩
    rw [hv4, if_pos rfl] at hipV
    exact absurd (h0.symm.trans hipV) (by decide)
  · obtain ⟨-, hipV⟩ := hbare (.inr h4)
    by_contra hv4
    rw [if_neg hv4] at hipV
    exact absurd (h4.symm.trans hipV) (by decide)
  -- In brackets the whole host is found, and has to pass `is_ipv6` again.
  · have hclose : 93 ∉ p.host := not_mem_of_isChars hp.host (by decide)
    have hv := hp.ipv6 h6
    rw [hostText, if_neg (by rw [h6]; decide), if_pos h6] at hpart
    obtain ⟨heq, hv6⟩ := hostPart_bracket hclose hv hne hpart
    rw [heq] at hdec
    exact ⟨hv6, hdec.normalizes h6⟩

theorem not_mem_hostText {p : Parts} (hp : p.Parsed) (hne : p.host ≠ []) {c : UInt8}
    (hc : c ∈ ([47, 63, 35, 64] : List UInt8)) : c ∉ hostText p.ipV p.host := by
  have hchar :
      isChar 0x05 c = false ∧ isHexdigit c = false ∧ c ∉ ([91, 93, 118, 46] : List UInt8) := by
    simp only [List.mem_cons, List.not_mem_nil, or_false] at hc
    rcases hc with rfl | rfl | rfl | rfl <;> decide
  obtain ⟨hchar, hhex, hother⟩ := hchar
  have hnot := not_mem_of_isChars hp.host hchar
  simp only [List.mem_cons, List.not_mem_nil, or_false, not_or] at hother
  obtain ⟨d, hd, hversion⟩ := hp.version hne
  obtain ⟨e, he, hehex, -⟩ := hexDigits_version d hd
  have hdigit : c ≠ e := by
    rintro rfl
    rw [hehex] at hhex
    cases hhex
  rw [hostText, ← hversion, he]
  split_ifs
  · exact hnot
  · simp [hnot, hother]
  · simp [hnot, hother, hdigit]

/-! ## The round trip -/

theorem parse_ofText_iff {t : List UInt8} {parts : Parts} :
    (∃ v, (Url.ofText t).parseUrl = (.ok (), v) ∧ v.toParts = parts) ↔
      ∃ raw, scan t = .ok raw ∧ raw.Decoded parts := by
  -- No text is the one of no parts: nothing is marked in it.
  by_cases hnil : t = []
  · subst hnil
    constructor
    · rintro ⟨_, hparse, rfl⟩
      cases hparse
      exact ⟨{}, rfl, decode_eq_ok.mp rfl⟩
    · rintro ⟨raw, hscan, hd⟩
      cases hscan
      have hparts := decode_eq_ok.mpr hd
      cases hparts
      exact ⟨_, rfl, rfl⟩
  · constructor
    · rintro ⟨v, hparse, rfl⟩
      obtain ⟨raw, hscan, hd, -⟩ := parseUrl_eq_ok hparse hnil
      exact ⟨raw, hscan, hd⟩
    · rintro ⟨raw, hscan, hd⟩
      have hres : (do let raw ← scan t; raw.decode : Checked Parts) = .ok parts := by
        rw [hscan]
        exact decode_eq_ok.mpr hd
      exact ⟨_, parseUrl_of_ok (u := Url.ofText t) hnil hres, rfl⟩

theorem str_of_parse {s : List UInt8} {u : Url} (h : (Url.ofText s).parseUrl = (.ok (), u)) :
    u.str.1 = u.toParts.text := by
  by_cases hnil : s = []
  · subst hnil
    cases h
    rfl
  · obtain ⟨-, -, -, hparsed, hbuilt⟩ := parseUrl_eq_ok h hnil
    rw [Url.str, hbuilt, if_neg Bool.false_ne_true, Url.buildUrl, Url.lazyParse, if_pos hparsed]
    dsimp only
    rcases u.toParts.text with e | t
    · rfl
    · rfl

/-- What parts need to be found again where they are written: without a host there was no authority
and there is no colon in front of the first slash, a host stands for its version, no byte is `0x80`
or greater, no key is empty, and the text is not too long. -/
structure Parts.Rebuildable (p : Parts) : Prop where
  noHost : p.host = [] → p.ipV = -1 ∧ (cutAt [58, 47] p.path).2.head? ≠ some 58
  host : p.host ≠ [] → StandsFor p.ipV p.host
  path : ∀ c ∈ p.path, c < 0x80
  query : ∀ kv ∈ p.query, Writable kv
  fragment : ∀ c ∈ p.fragment, c < 0x80
  length : ∀ t, p.text = .ok t → t.length ≤ 8000

/-- `str()` gives a text, and these parts are parsed from it. -/
def Url.Reparses (u : Url) (parts : Parts) : Prop :=
  ∃ t, u.str.1 = .ok t ∧ ∃ v, (Url.ofText t).parseUrl = (.ok (), v) ∧ v.toParts = parts

section RoundTrip

variable {p : Parts} {query : Option (List UInt8)}

theorem raw_port (hp : p.Parsed) : ∀ x ∈ (p.raw query).port, isPort x = true := by
  intro x hx
  obtain ⟨rfl, hne⟩ := mem_optional hx
  rw [Parts.withoutDefault] at hne ⊢
  dsimp only at hne ⊢
  split_ifs at hne ⊢ with hdefault
  · exact absurd rfl hne
  · exact hp.port p.port (if_neg hne)

theorem raw_rooted (hw : p.Written) (hne : p.host ≠ []) :
    ∀ c ∈ (p.raw query).path.head?, c = 47 := by
  rcases hpath : p.path with _ | ⟨c, path⟩
  · rw [Parts.raw, hpath]
    exact forall_mem_none
  · have hc := hw.rooted hne c (by rw [hpath]; rfl)
    rw [Parts.raw]
    dsimp only
    rw [head?_encoded_slash (by rw [hpath, hc]; rfl)]
    rintro _ ⟨⟩
    rfl

theorem single_encoded {path : List UInt8} (hlow : ∀ c ∈ path, c < 0x80)
    (h : path.take 2 ≠ [47, 47]) :
    (encoded path 0x0F).take 2 ≠ [47, 47] := by
  intro htake
  have hslashes : [47, 47] ++ (encoded path 0x0F).drop 2 = encoded path 0x0F :=
    htake ▸ List.take_append_drop 2 (encoded path 0x0F)
  have hdecode := (encodes_encoded (show isChar 0x0F 37 = false from rfl) hlow).1
  rw [← hslashes, List.cons_append, List.cons_append, decode_cons (by decide),
    decode_cons (by decide), Option.map_map] at hdecode
  obtain ⟨x, -, hx⟩ := Option.map_eq_some_iff.mp hdecode
  exact h (by rw [← hx]; rfl)

theorem head?_encoded_colon {s : List UInt8} (h : (encoded s 0x0F).head? = some 58) :
    s.head? = some 58 := by
  rcases s with _ | ⟨c, s⟩
  · exact h
  · rw [encoded, List.flatMap_cons] at h
    split_ifs at h
    · exact h
    · exact absurd (Option.some.inj h) (by decide)

theorem forall_mem_optional {q : List UInt8 → Prop} {s : List UInt8} (h : q s) :
    ∀ x ∈ optional s, q x := by
  intro x hx
  rw [(mem_optional hx).1]
  exact h

theorem optional_of_nil {s : List UInt8} (h : s = []) : optional s = none :=
  optional_eq_none_iff.mpr h

theorem decode_optional {s : List UInt8} {mask : UInt8} (hmask : isChar mask 37 = false)
    (hlow : ∀ c ∈ s, c < 0x80) : decode (((optional s).map (encoded · mask)).getD []) = some s := by
  rw [optional]
  split_ifs with hnil
  · rw [hnil]
    rfl
  · exact (encodes_encoded hmask hlow).1

/-- **The parts are marked** in the text that is written for them. -/
theorem raw_marked (hp : p.Parsed) (hw : p.Written) (h35 : ∀ x ∈ query, 35 ∉ x)
    (hstands : p.host ≠ [] → StandsFor p.ipV p.host) : (p.raw query).Marked where
  scheme := hp.scheme
  user := forall_mem_optional hp.user
  host := by
    intro x hx
    obtain ⟨rfl, hne⟩ := mem_optional hx
    refine ⟨hostText p.ipV p.host, ?_⟩
    rw [Parts.raw, if_neg hne]
    exact ((hstands hne).hostText hp hne).1
  noHost := by
    intro hnone
    have hnil := optional_eq_none_iff.mp hnone
    obtain ⟨huser, hport, -⟩ := hw.noHost hnil
    refine ⟨if_pos hnil, optional_of_nil huser, optional_of_nil ?_⟩
    rw [Parts.withoutDefault, hport, ite_self]
  port := raw_port hp
  path := (encodes_encoded rfl hw.path).2.isChars isChar_of_path
  query := h35
  fragment := by
    intro x hx
    obtain ⟨y, hy, rfl⟩ := Option.map_eq_some_iff.mp hx
    rw [(mem_optional hy).1]
    exact (encodes_encoded rfl hw.fragment).2.isChars isChar_of_query
  absolute := fun hhost ↦ raw_rooted hw fun hnil ↦ hhost (optional_of_nil hnil)
  single := fun _ ↦ single_encoded hw.path hp.single
  relative := by
    intro hnone _ hcolon
    rw [Parts.raw] at hcolon
    dsimp only at hcolon
    rw [cutAt_encoded] at hcolon
    exact (hw.noHost (optional_eq_none_iff.mp hnone)).2.2 (head?_encoded_colon hcolon)

/-- **The parts are decoded** from the text that is written for them. -/
theorem raw_decoded (hp : p.Parsed) (hw : p.Written) (hread : queryOf (query.getD []) = .ok p.query)
    (hnone : p.host = [] → p.ipV = -1) (hstands : p.host ≠ [] → StandsFor p.ipV p.host) :
    (p.raw query).Decoded p.withoutDefault where
  scheme := by
    rw [Parts.raw, getD_optional, hp.lower]
    rfl
  user := by
    rw [Parts.raw, getD_optional]
    exact decode_of_not_mem (not_mem_of_isChars hp.user (by decide))
  host := by
    intro x hx
    obtain ⟨rfl, hne⟩ := mem_optional hx
    rw [Parts.raw, if_neg hne]
    exact ((hstands hne).hostText hp hne).2
  noHost := fun hhost ↦ optional_eq_none_iff.mp hhost
  ipV := by
    rw [Parts.raw]
    split_ifs with hnil
    · exact hnone hnil
    · rfl
  port := by rw [Parts.raw, getD_optional]
  path := ⟨p.path, (encodes_encoded rfl hw.path).1, hp.path⟩
  query := hread
  fragment := decode_optional rfl hw.fragment

end RoundTrip

theorem exists_parsed {s : List UInt8} {u : Url} (h : (Url.ofText s).parseUrl = (.ok (), u)) :
    u.toParts.Parsed := by
  obtain ⟨raw, hscan, hd⟩ := parse_ofText_iff.mp ⟨u, h, rfl⟩
  exact parsed_of_decoded (scan_marked hscan) hd

/-- **When building undoes parsing**, but for a default port, which is not written. -/
theorem str_reparses_iff {s : List UInt8} {u : Url} (h : (Url.ofText s).parseUrl = (.ok (), u)) :
    u.Reparses u.toParts.withoutDefault ↔ u.toParts.Rebuildable := by
  have hp := exists_parsed h
  rw [Url.Reparses, str_of_parse h]
  generalize u.toParts = p at hp
  simp only [parse_ofText_iff]
  -- Forward, what is parsed from the text says what the parts were; back, the parts are marked in
  -- it again.
  constructor
  · rintro ⟨t, htext, raw', hscan, hd⟩
    obtain ⟨hw, query, rfl, h35, hread⟩ := text_eq_ok hp.user htext
    have hlen : ((p.raw query).text (hostText p.ipV p.host)).length ≤ 8000 :=
      of_decide_eq_true (require_bind_eq_ok.mp hscan).1
    refine ⟨fun hnil ↦ ⟨?_, (hw.noHost hnil).2.2⟩, fun hne ↦ ?_, hw.path, hw.query, hw.fragment,
      fun t ht ↦ ?_⟩
    · -- nothing is marked as a host
      have hnone : (p.raw query).host = none := optional_of_nil hnil
      -- Without a host the text is one where parts are marked, so they are the ones found.
      have hmarked := raw_marked hp hw h35 fun hne ↦ absurd hnil hne
      have hscan' := scan_text hmarked (t := hostText p.ipV p.host)
        (by rw [hnone]; exact forall_mem_none) hlen
      obtain rfl := Except.ok.inj (hscan'.symm.trans hscan)
      exact hd.ipV.trans (if_pos hnil)
    · have hhost : (p.raw query).host ≠ none := mt optional_eq_none_iff.mp hne
      obtain ⟨host, r, hraw, hpart⟩ := scan_host hp.scheme (forall_mem_optional hp.user)
        (raw_port hp) (raw_rooted hw hne) hhost (fun c hc ↦ not_mem_hostText hp hne hc) hscan
      obtain ⟨x, hx⟩ := (scan_marked hscan).host host hraw
      have hdec := hostDecoded_of_ok hx (hd.host host hraw)
      rw [← hd.ipV] at hpart hdec
      exact standsFor_of_hostPart hp hne hpart hdec
    · rwa [← Except.ok.inj (htext.symm.trans ht)]
  · intro hr
    have hw : p.Written := by
      refine ⟨fun hnil ↦ ?_, hp.rooted, hr.path, hr.query, hr.fragment⟩
      obtain ⟨hipV, hcolon⟩ := hr.noHost hnil
      exact ⟨(hp.noAuthority hipV).1, (hp.noAuthority hipV).2, hcolon⟩
    obtain ⟨t, htext⟩ := exists_text hp.user hw
    obtain ⟨-, query, rfl, h35, hread⟩ := text_eq_ok hp.user htext
    refine ⟨_, htext, p.raw query, ?_,
      raw_decoded hp hw hread (fun hnil ↦ (hr.noHost hnil).1) hr.host⟩
    refine scan_text (raw_marked hp hw h35 hr.host) ?_ (hr.length _ htext)
    intro x hx
    obtain ⟨rfl, hne⟩ := mem_optional hx
    rw [Parts.raw, if_neg hne]
    exact ((hr.host hne).hostText hp hne).1

/-- A URL with all parts. -/
theorem str_reparses_full :
    let u := ((Url.ofText (ofString "http://me@example.org:8080/a%20b?k=v&l#f")).parseUrl).2
    u.Reparses u.toParts.withoutDefault ↔ u.toParts.Rebuildable :=
  str_reparses_iff (s := ofString "http://me@example.org:8080/a%20b?k=v&l#f") (by decide)

/-- A default port is lost. -/
theorem str_drops_port : ¬∀ s u, (Url.ofText s).parseUrl = (.ok (), u) → u.Reparses u.toParts := by
  intro h
  obtain ⟨t, hstr, v, hparse, hparts⟩ := h (ofString "http://a:80/")
    ((Url.ofText (ofString "http://a:80/")).parseUrl).2 (by decide)
  have hbuilt :
      ((Url.ofText (ofString "http://a:80/")).parseUrl).2.str.1 = .ok (ofString "http://a/") := by
    decide
  obtain rfl := Except.ok.inj (hbuilt.symm.trans hstr)
  have hport : v.port = [] := by
    rw [show v = ((Url.ofText (ofString "http://a/")).parseUrl).2 by rw [hparse]]
    decide
  rw [hparts] at hport
  exact absurd hport (by decide)

end Knet.Http.HttpUrl
