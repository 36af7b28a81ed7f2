import Knet.Http.PercentEncoding
import Knet.Http.UrlGrammar

/-!
# Parsing a URL is safe

Where `parse_url` marks the parts no pointer leaves the text (`scanAt_eq`), and decoding reads each
part alone; only `normalize_IPv6` uses its arrays without a check. So `parse_url` is safe for a text
exactly when the address in brackets, if one is normalised at all, fits the arrays
(`parseUrl_total_iff`).
-/

namespace Knet.Http.HttpUrl

open Bytes Checked NormalizeIpv6

/-! ## What cannot go wrong -/

theorem decode_of_not_mem {s : List UInt8} (h : 37 ∉ s) : decode s = some s := by
  induction s with
  | nil => rfl
  | cons c s ih =>
    have hc : c ≠ 37 := fun hc ↦ h (hc ▸ List.mem_cons_self)
    rw [decode_cons hc, ih fun hmem ↦ h (List.mem_cons_of_mem _ hmem)]
    rfl

theorem hostOf_eq {ipV : ℤ} {host t : List UInt8} (ht : HostText ipV host t) :
    hostOf ipV host =
      if ipV = 0 then .ok (toLower host) else if ipV = 6 then normalizeIPv6 host else .ok host := by
  rw [hostOf, decode_of_not_mem (not_mem_of_isChars ht.isChars (by decide))]
  rfl

/-- The parts that are decoded from what is marked. -/
structure Raw.Decoded (raw : Raw) (parts : Parts) : Prop where
  scheme : parts.scheme = toLower (raw.scheme.getD [])
  user : HttpUrl.decode (raw.user.getD []) = some parts.user
  host : ∀ host ∈ raw.host, hostOf raw.ipV host = .ok parts.host
  noHost : raw.host = none → parts.host = []
  ipV : parts.ipV = raw.ipV
  port : parts.port = raw.port.getD []
  path : ∃ p, HttpUrl.decode raw.path = some p ∧ normalizePath p = parts.path
  query : queryOf (raw.query.getD []) = .ok parts.query
  fragment : HttpUrl.decode (raw.fragment.getD []) = some parts.fragment

theorem decoded_eq_ok {s : Option (List UInt8)} {out : List UInt8} :
    decoded s = .ok out ↔ s = some out := by
  rcases s with _ | s
  · exact ⟨nofun, nofun⟩
  · exact ⟨fun h ↦ congrArg some (Except.ok.inj h), fun h ↦ congrArg Except.ok (Option.some.inj h)⟩

theorem decode_eq_bind (raw : Raw) : raw.decode = do
    let user ← decoded (HttpUrl.decode (raw.user.getD []))
    let host ← raw.host.elim (.ok []) (hostOf raw.ipV)
    let path ← decoded (HttpUrl.decode raw.path)
    let query ← queryOf (raw.query.getD [])
    let fragment ← decoded (HttpUrl.decode (raw.fragment.getD []))
    return ⟨toLower (raw.scheme.getD []), user, host, raw.ipV, raw.port.getD [], normalizePath path,
      query, fragment⟩ := by
  rw [Raw.decode]
  rcases raw.host with _ | host <;> rfl

theorem decode_eq_ok {raw : Raw} {parts : Parts} :
    raw.decode = .ok parts ↔ raw.Decoded parts := by
  rw [decode_eq_bind]
  constructor
  · intro h
    obtain ⟨user, huser, h⟩ := bind_eq_ok.mp h
    obtain ⟨host, hhost, h⟩ := bind_eq_ok.mp h
    obtain ⟨path, hpath, h⟩ := bind_eq_ok.mp h
    obtain ⟨query, hquery, h⟩ := bind_eq_ok.mp h
    obtain ⟨fragment, hfragment, h⟩ := bind_eq_ok.mp h
    cases h
    refine ⟨rfl, decoded_eq_ok.mp huser, ?_, ?_, rfl, rfl, ⟨path, decoded_eq_ok.mp hpath, rfl⟩,
      hquery, decoded_eq_ok.mp hfragment⟩
    · intro x hx
      rwa [Option.mem_def.mp hx] at hhost
    · intro hnone
      rw [hnone] at hhost
      exact (Except.ok.inj hhost).symm
  · intro h
    obtain ⟨path, hpath, hnormal⟩ := h.path
    have hhost : raw.host.elim (.ok []) (hostOf raw.ipV) = .ok parts.host := by
      rcases hraw : raw.host with _ | host
      · exact congrArg Except.ok (h.noHost hraw).symm
      · exact h.host host hraw
    rw [h.user, hhost, hpath, h.query, h.fragment]
    simp only [decoded, ok_bind]
    rw [hnormal, ← h.scheme, ← h.ipV, ← h.port]
    rfl

/-! ## Parsing -/

theorem parseUrl_of_ok {u : Url} {parts : Parts} (hne : u.url ≠ [])
    (h : (do let raw ← scan u.url; raw.decode : Checked Parts) = .ok parts) :
    u.parseUrl = (.ok (), { toParts := parts, url := u.url, parse := true, built := false }) := by
  rw [Url.parseUrl, if_neg hne, scanAt_eq, h]

theorem parseUrl_of_error {u : Url} {e : Fault ParseError} (hne : u.url ≠ [])
    (h : (do let raw ← scan u.url; raw.decode : Checked Parts) = .error e) :
    u.parseUrl = (.error e, u) := by
  rw [Url.parseUrl, if_neg hne, scanAt_eq, h]

theorem parseUrl_eq_ok {u v : Url} (h : u.parseUrl = (.ok (), v)) (hne : u.url ≠ []) :
    ∃ raw, scan u.url = .ok raw ∧ raw.Decoded v.toParts ∧ v.parse = true ∧ v.built = false := by
  rcases hres : (do let raw ← scan u.url; raw.decode : Checked Parts) with e | parts
  · rw [parseUrl_of_error hne hres] at h
    cases h
  · rw [parseUrl_of_ok hne hres] at h
    cases h
    obtain ⟨raw, hscan, hdecode⟩ := bind_eq_ok.mp hres
    exact ⟨raw, hscan, decode_eq_ok.mp hdecode, rfl, rfl⟩

end Knet.Http.HttpUrl
