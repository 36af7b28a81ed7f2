import Knet.Http.ParseUrl

/-!
# The grammar of a URL

What `parse_url` knows of the parts once they are marked (`scan_marked`), and the text it finds such
parts in (`scan_text`).
-/

namespace Knet.Http.HttpUrl

open Bytes Checked

/-- How a host stands in an authority, by its version. -/
inductive HostText : ℤ → List UInt8 → List UInt8 → Prop
  | name {h : List UInt8} (reg : isRegName h = true) (other : isIpv4 h = false) : HostText 0 h h
  | ipv4 {h : List UInt8} (ipv4 : isIpv4 h = true) : HostText 4 h h
  | ipv6 {h : List UInt8} (ipv6 : isIpv6 h = true) : HostText 6 h (91 :: (h ++ [93]))
  | future {c : UInt8} {h : List UInt8} (hex : isHexdigit c = true)
      (chars : isChars h 0x05 = true) : HostText (version c) h (91 :: 118 :: c :: 46 :: (h ++ [93]))

/-- The parts are ones that are marked somewhere. -/
structure Raw.Marked (raw : Raw) : Prop where
  scheme : ∀ x ∈ raw.scheme, isScheme x = true
  user : ∀ x ∈ raw.user, isChars x 0x05 = true
  host : ∀ x ∈ raw.host, ∃ t, HostText raw.ipV x t
  noHost : raw.host = none → raw.ipV = -1 ∧ raw.user = none ∧ raw.port = none
  port : ∀ x ∈ raw.port, isPort x = true
  path : isChars raw.path 0x2F = true
  query : ∀ x ∈ raw.query, 35 ∉ x
  fragment : ∀ x ∈ raw.fragment, isChars x 0x3F = true
  absolute : raw.host ≠ none → ∀ c ∈ raw.path.head?, c = 47
  single : raw.host = none → raw.path.take 2 ≠ [47, 47]
  relative : raw.host = none → raw.scheme = none → (cutAt [58, 47] raw.path).2.head? ≠ some 58

/-! ## Characters -/

theorem not_mem_of_isChars {s : List UInt8} {mask c : UInt8} (h : isChars s mask = true)
    (hc : isChar mask c = false) : c ∉ s := by
  intro hmem
  have hchar := List.all_eq_true.mp h c hmem
  rw [hc] at hchar
  exact absurd hchar Bool.false_ne_true

theorem forall_not_mem {s q : List UInt8} {mask : UInt8} (h : isChars s mask = true)
    (hq : (q.any fun c ↦ isChar mask c) = false) : ∀ c ∈ q, c ∉ s :=
  fun c hc ↦ not_mem_of_isChars h (by simpa using List.any_eq_false.mp hq c hc)

theorem require_bind_eq_ok {α : Type} {ok : Bool} {e : ParseError} {f : Unit → Checked α} {a : α} :
    (require ok e >>= f) = .ok a ↔ ok = true ∧ f () = .ok a := by
  rw [require_bind]
  split_ifs with h
  · simp [h]
  · exact ⟨nofun, fun h' ↦ absurd h'.1 h⟩

/-! ## What is marked -/

theorem forall_mem_none {α : Type*} {p : α → Prop} : ∀ x ∈ (none : Option α), p x :=
  fun _ h ↦ absurd h (Option.not_mem_none _)

theorem literal_marked {s host : List UInt8} {ipV : ℤ} (h : literal s = .ok (ipV, host)) :
    ∃ t, HostText ipV host t := by
  rw [literal.eq_def] at h
  split at h
  · obtain ⟨hok, hres⟩ := require_bind_eq_ok.mp h
    cases hres
    rw [Bool.and_eq_true] at hok
    exact ⟨_, .future hok.1 hok.2⟩
  · cases h
  · obtain ⟨hok, hres⟩ := require_bind_eq_ok.mp h
    cases hres
    exact ⟨_, .ipv6 hok⟩

theorem hostPart_marked {s host r : List UInt8} {ipV : ℤ} (h : hostPart s = .ok (host, ipV, r)) :
    ∃ t, HostText ipV host t := by
  rw [hostPart] at h
  split_ifs at h
  · obtain ⟨-, hrest⟩ := require_bind_eq_ok.mp h
    obtain ⟨⟨ipV', host'⟩, hlit, hres⟩ := bind_eq_ok.mp hrest
    cases hres
    exact literal_marked hlit
  · obtain ⟨hok, hres⟩ := require_bind_eq_ok.mp h
    cases hres
    rw [Bool.or_eq_true] at hok
    split_ifs with hv4
    · exact ⟨_, .ipv4 hv4⟩
    · exact ⟨_, .name (hok.resolve_left hv4) (Bool.eq_false_iff.mpr hv4)⟩

theorem portPart_marked {s : List UInt8} {port : Option (List UInt8)} (h : portPart s = .ok port) :
    ∀ x ∈ port, isPort x = true := by
  rw [portPart.eq_def] at h
  split at h
  · obtain ⟨hok, hres⟩ := require_bind_eq_ok.mp h
    cases hres
    rintro _ ⟨⟩
    exact hok
  · cases h
    exact forall_mem_none

theorem userPart_marked {s r : List UInt8} {user : Option (List UInt8)}
    (h : userPart s = .ok (user, r)) : ∀ x ∈ user, isChars x 0x05 = true := by
  rw [userPart] at h
  split_ifs at h
  · cases h
    exact forall_mem_none
  · obtain ⟨hok, hres⟩ := require_bind_eq_ok.mp h
    cases hres
    rintro _ ⟨⟩
    exact hok

theorem fragmentPart_marked {s : List UInt8} {fragment : Option (List UInt8)}
    (h : fragmentPart s = .ok fragment) : ∀ x ∈ fragment, isChars x 0x3F = true := by
  rw [fragmentPart.eq_def] at h
  split at h
  · obtain ⟨hok, hres⟩ := require_bind_eq_ok.mp h
    cases hres
    rintro _ ⟨⟩
    exact hok
  · cases h
    exact forall_mem_none

theorem queryPart_marked (s : List UInt8) : ∀ x ∈ (queryPart s).1, 35 ∉ x := by
  rw [queryPart.eq_def]
  split
  · rintro _ ⟨⟩
    exact not_mem_cutAt (by decide) _
  · exact forall_mem_none

/-- What the path and all that follows it add. -/
structure Raw.Ends (raw₀ raw : Raw) (path : List UInt8) : Prop where
  path_eq : raw.path = path
  path : isChars path 0x2F = true
  query : ∀ x ∈ raw.query, 35 ∉ x
  fragment : ∀ x ∈ raw.fragment, isChars x 0x3F = true
  same : raw₀.scheme = raw.scheme ∧ raw₀.user = raw.user ∧ raw₀.host = raw.host ∧
    raw₀.ipV = raw.ipV ∧ raw₀.port = raw.port

theorem pathPart_ends {s : List UInt8} {raw₀ raw : Raw} (h : pathPart s raw₀ = .ok raw) :
    raw₀.Ends raw (cutAt [63, 35] s).1 := by
  obtain ⟨hok, hrest⟩ := require_bind_eq_ok.mp h
  obtain ⟨fragment, hfragment, hres⟩ := bind_eq_ok.mp hrest
  cases hres
  exact ⟨rfl, hok, queryPart_marked _, fragmentPart_marked hfragment, rfl, rfl, rfl, rfl, rfl⟩

theorem authority_marked {s : List UInt8} {raw : Raw} (h : authority s = .ok raw) :
    (∀ x ∈ raw.user, isChars x 0x05 = true) ∧ (∀ x ∈ raw.port, isPort x = true) ∧
      ∃ host t, raw.host = some host ∧ HostText raw.ipV host t := by
  obtain ⟨⟨user, r⟩, huser, hrest⟩ := bind_eq_ok.mp h
  obtain ⟨⟨host, ipV, r'⟩, hhost, hrest⟩ := bind_eq_ok.mp hrest
  obtain ⟨port, hport, hres⟩ := bind_eq_ok.mp hrest
  cases hres
  obtain ⟨t, ht⟩ := hostPart_marked hhost
  exact ⟨userPart_marked huser, portPart_marked hport, host, t, rfl, ht⟩

theorem head?_cutAt {q s : List UInt8} {c : UInt8} (h : (cutAt q s).1.head? = some c) :
    s.head? = some c := by
  rw [← cutAt_append q s, List.head?_append, h]
  rfl

theorem head?_path {s : List UInt8} :
    ∀ c ∈ (cutAt [63, 35] (cutAt [47, 63, 35] s).2).1.head?, c = 47 := by
  intro c hc
  obtain ⟨r, hr⟩ := List.head?_eq_some_iff.mp (head?_cutAt hc)
  have hmem := cutAt_head hr
  rw [hr] at hc
  simp only [List.mem_cons, List.not_mem_nil, or_false] at hmem
  rcases hmem with rfl | rfl | rfl
  · rfl
  · exact absurd hc (by simp [cutAt])
  · exact absurd hc (by simp [cutAt])

theorem single_path {s : List UInt8} (hslash : ∀ r, s = 47 :: 47 :: r → False) :
    (cutAt [63, 35] s).1.take 2 ≠ [47, 47] := by
  intro htwo
  obtain ⟨x, y, rfl, hx, hy⟩ := exists_cut [63, 35] s
  rw [cutAt_of_head hx hy] at htwo
  have hslashes : [47, 47] ++ x.drop 2 = x := htwo ▸ List.take_append_drop 2 x
  exact hslash (x.drop 2 ++ y) (congrArg (· ++ y) hslashes.symm)

/-- A colon that ends a scheme is in front of the first slash of the path. -/
theorem head?_cutAt_iff {path r : List UInt8} (hpath : ∀ c ∈ path, c ∉ ([63, 35] : List UInt8))
    (hr : ∀ c ∈ r.head?, c ∈ ([63, 35] : List UInt8)) :
    (cutAt [58, 47, 63, 35] (path ++ r)).2.head? = some 58 ↔
      (cutAt [58, 47] path).2.head? = some 58 := by
  obtain ⟨x, y, rfl, hx, hy⟩ := exists_cut [58, 47] path
  have hx' : ∀ c ∈ x, c ∉ ([58, 47, 63, 35] : List UInt8) := by
    intro c hc hmem
    rcases List.mem_append.mp (show c ∈ [58, 47] ++ [63, 35] from hmem) with hmem | hmem
    · exact hx c hc hmem
    · exact hpath c (List.mem_append_left _ hc) hmem
  rw [cutAt_of_head hx hy]
  rcases y with _ | ⟨c, y⟩
  · rw [List.append_nil, cutAt_of_head hx' fun c hc ↦
      List.mem_cons_of_mem _ (List.mem_cons_of_mem _ (hr c hc))]
    exact iff_of_false (fun hcolon ↦ absurd (hr 58 hcolon) (by decide)) nofun
  · rw [List.append_assoc, List.cons_append,
      cutAt_of_mem hx' (List.mem_append_left [63, 35] (hy c rfl))]
    rfl

theorem hierPart_marked {s : List UInt8} {scheme : Option (List UInt8)} {raw : Raw}
    (h : hierPart s scheme = .ok raw) (hscheme : ∀ x ∈ scheme, isScheme x = true)
    (hcut : scheme = none → (cutAt [58, 47, 63, 35] s).2.head? ≠ some 58) : raw.Marked := by
  rw [hierPart.eq_def] at h
  split at h
  · next s =>
    obtain ⟨raw₁, hauth, hpath⟩ := bind_eq_ok.mp h
    -- The path part leaves everything that the authority has set.
    obtain ⟨huser, hport, host, t, hhost, ht⟩ := authority_marked hauth
    have hend := pathPart_ends hpath
    obtain ⟨hscheme', huser', hhost', hipV, hport'⟩ := hend.same
    dsimp only at hscheme' huser' hhost' hipV hport'
    have hsome : raw.host = some host := by rw [← hhost', hhost]
    have hne : raw.host ≠ none := by rw [hsome]; exact Option.some_ne_none host
    refine ⟨hscheme' ▸ hscheme, huser' ▸ huser, ?_, fun hn ↦ absurd hn hne, hport' ▸ hport, ?_,
      hend.query, hend.fragment, ?_, fun hn ↦ absurd hn hne, fun hn ↦ absurd hn hne⟩
    · rw [hsome]
      rintro _ ⟨⟩
      exact ⟨t, hipV ▸ ht⟩
    · rw [hend.path_eq]
      exact hend.path
    · rw [hend.path_eq]
      exact fun _ ↦ head?_path
  · next hslash =>
    have hend := pathPart_ends h
    obtain ⟨hscheme', huser', hhost', hipV, hport'⟩ := hend.same
    refine ⟨hscheme' ▸ hscheme, ?_, ?_, fun _ ↦ ⟨hipV.symm, huser'.symm, hport'.symm⟩, ?_, ?_,
      hend.query, hend.fragment, fun hne ↦ absurd hhost'.symm hne, ?_, ?_⟩
    · rw [← huser']
      exact forall_mem_none
    · rw [← hhost']
      exact forall_mem_none
    · rw [← hport']
      exact forall_mem_none
    · rw [hend.path_eq]
      exact hend.path
    · rw [hend.path_eq]
      exact fun _ ↦ single_path hslash
    · -- a `:` would have been behind a scheme
      rw [hend.path_eq, ← hscheme']
      intro _ hnone hcolon
      apply hcut hnone
      rw [← cutAt_append [63, 35] s]
      refine (head?_cutAt_iff (fun c hc hmem ↦ not_mem_cutAt hmem s hc) fun c hc ↦ ?_).mpr hcolon
      obtain ⟨r, hr⟩ := List.head?_eq_some_iff.mp hc
      exact cutAt_head hr

/-- **What `parse_url` marks** passes its checks. -/
theorem scan_marked {s : List UInt8} {raw : Raw} (h : scan s = .ok raw) : raw.Marked := by
  obtain ⟨-, h⟩ := require_bind_eq_ok.mp h
  dsimp only at h
  split_ifs at h with hnil hcolon
  · obtain ⟨hok, hres⟩ := require_bind_eq_ok.mp h
    cases hres
    have hnot (c : UInt8) (hc : c ∈ ([58, 47, 63, 35] : List UInt8)) : c ∉ s := by
      have hmem := not_mem_cutAt hc s
      have happend := cutAt_append [58, 47, 63, 35] s
      rw [hnil, List.append_nil] at happend
      rwa [happend] at hmem
    refine ⟨forall_mem_none, forall_mem_none, forall_mem_none, fun _ ↦ ⟨rfl, rfl, rfl⟩,
      forall_mem_none, hok, forall_mem_none, forall_mem_none,
      fun hne ↦ absurd rfl hne, ?_, ?_⟩
    · intro _ htwo
      exact hnot 47 (by decide) (List.mem_of_mem_take (htwo ▸ List.mem_cons_self))
    · intro _ _ hcolon
      obtain ⟨r, hr⟩ := List.head?_eq_some_iff.mp hcolon
      apply hnot 58 (by decide)
      rw [← cutAt_append [58, 47] s, hr]
      exact List.mem_append_right _ List.mem_cons_self
  · obtain ⟨hok, hrest⟩ := require_bind_eq_ok.mp h
    refine hierPart_marked hrest ?_ fun hnone ↦ absurd hnone (Option.some_ne_none _)
    rintro _ ⟨⟩
    exact hok
  · exact hierPart_marked h forall_mem_none fun _ ↦ hcolon

/-! ## Where it is marked -/

/-- A part behind its mark. -/
def marked (c : UInt8) : Option (List UInt8) → List UInt8
  | some s => c :: s
  | none => []

/-- The scheme in front of the rest. -/
def schemeText : Option (List UInt8) → List UInt8
  | some s => s ++ [58]
  | none => []

/-- The user info in front of the host. -/
def userText : Option (List UInt8) → List UInt8
  | some s => s ++ [64]
  | none => []

/-- A text with the parts, where the host stands as `t`. -/
def Raw.text (raw : Raw) (t : List UInt8) : List UInt8 :=
  schemeText raw.scheme ++
    ((if raw.host = none then []
      else 47 :: 47 :: (userText raw.user ++ (t ++ marked 58 raw.port))) ++
    (raw.path ++ (marked 63 raw.query ++ marked 35 raw.fragment)))

theorem isChar_of_ipv4 : ∀ c : UInt8, (c == 46 || isNum c) = true → isChar 0x01 c = true :=
  forall_byte (by decide +kernel)

theorem isChar_of_ipv6 : ∀ c : UInt8,
    (c == 58 || c == 46 || isHexdigit c) = true → isChar 0x05 c = true :=
  forall_byte (by decide +kernel)

theorem isChar_of_regName : ∀ c : UInt8, isChar 0x01 c = true → isChar 0x05 c = true :=
  forall_byte (by decide +kernel)

theorem isRegName_of_isIpv4 {s : List UInt8} (h : isIpv4 s = true) : isRegName s = true := by
  rw [isIpv4, Bool.and_eq_true] at h
  exact List.all_eq_true.mpr fun c hc ↦ isChar_of_ipv4 c (List.all_eq_true.mp h.2 c hc)

theorem isChars_of_isIpv6 {s : List UInt8} (h : isIpv6 s = true) : isChars s 0x05 = true := by
  rw [isIpv6, Bool.and_eq_true] at h
  exact List.all_eq_true.mpr fun c hc ↦ isChar_of_ipv6 c (List.all_eq_true.mp h.2 c hc)

theorem isChars_of_isRegName {s : List UInt8} (h : isRegName s = true) : isChars s 0x05 = true :=
  List.all_eq_true.mpr fun c hc ↦ isChar_of_regName c (List.all_eq_true.mp h c hc)

theorem HostText.isChars {ipV : ℤ} {h t : List UInt8} (ht : HostText ipV h t) :
    isChars h 0x05 = true := by
  rcases ht with ⟨hreg, -⟩ | hv4 | hv6 | ⟨-, hchars⟩
  · exact isChars_of_isRegName hreg
  · exact isChars_of_isRegName (isRegName_of_isIpv4 hv4)
  · exact isChars_of_isIpv6 hv6
  · exact hchars

theorem HostText.not_mem {ipV : ℤ} {h t : List UInt8} {c : UInt8} (ht : HostText ipV h t)
    (hc : c ∈ ([47, 63, 35, 64] : List UInt8)) : c ∉ t := by
  have hchar :
      isChar 0x05 c = false ∧ isHexdigit c = false ∧ c ∉ ([91, 93, 118, 46] : List UInt8) := by
    simp only [List.mem_cons, List.not_mem_nil, or_false] at hc
    rcases hc with rfl | rfl | rfl | rfl <;> decide
  obtain ⟨hchar, hhex, hother⟩ := hchar
  have hnot := not_mem_of_isChars ht.isChars hchar
  simp only [List.mem_cons, List.not_mem_nil, or_false, not_or] at hother
  rcases ht with - | - | - | ⟨hx, -⟩
  · exact hnot
  · exact hnot
  · simp [hnot, hother]
  · have hne : ∀ d, isHexdigit d = true → c ≠ d := fun d hd heq ↦ by
      rw [heq, hd] at hhex
      exact Bool.noConfusion hhex
    simp [hnot, hother, hne _ hx]

theorem not_mem_of_not_mem {q s : List UInt8} (h : ∀ c ∈ q, c ∉ s) : ∀ c ∈ s, c ∉ q :=
  fun c hc hq ↦ h c hq hc

theorem portPart_marked_eq {port : Option (List UInt8)} (h : ∀ x ∈ port, isPort x = true) :
    portPart (marked 58 port) = .ok port := by
  rcases port with _ | port
  · rfl
  · rw [marked, portPart, h port rfl]
    rfl

theorem fragmentPart_marked_eq {fragment : Option (List UInt8)}
    (h : ∀ x ∈ fragment, isChars x 0x3F = true) :
    fragmentPart (marked 35 fragment) = .ok fragment := by
  rcases fragment with _ | fragment
  · rfl
  · rw [marked, fragmentPart, h fragment rfl]
    rfl

theorem queryPart_marked_eq {query : Option (List UInt8)} (h : ∀ x ∈ query, 35 ∉ x)
    (fragment : Option (List UInt8)) :
    queryPart (marked 63 query ++ marked 35 fragment) = (query, marked 35 fragment) := by
  have hhead : ∀ c ∈ (marked 35 fragment).head?, c ∈ ([35] : List UInt8) := by
    rcases fragment with _ | fragment
    · exact nofun
    · rintro _ ⟨⟩
      exact List.mem_singleton_self _
  rcases query with _ | query
  · rcases fragment with _ | fragment
    · rfl
    · rfl
  · have hcut := cutAt_of_head (s := query) (r := marked 35 fragment)
      (not_mem_of_not_mem (by simpa using h query rfl)) hhead
    rw [marked, List.cons_append, queryPart, hcut]

theorem head?_marked {query fragment : Option (List UInt8)} :
    ∀ c ∈ (marked 63 query ++ marked 35 fragment).head?, c ∈ ([63, 35] : List UInt8) := by
  rcases query with _ | query
  · rcases fragment with _ | fragment
    · exact nofun
    · rintro _ ⟨⟩
      decide
  · rintro _ ⟨⟩
    decide

theorem pathPart_eq {path : List UInt8} {query fragment : Option (List UInt8)}
    (hpath : isChars path 0x2F = true) (hquery : ∀ x ∈ query, 35 ∉ x)
    (hfragment : ∀ x ∈ fragment, isChars x 0x3F = true) (raw : Raw) :
    pathPart (path ++ (marked 63 query ++ marked 35 fragment)) raw =
      .ok { raw with path, query, fragment } := by
  have hnot : ∀ c ∈ ([63, 35] : List UInt8), c ∉ path := forall_not_mem hpath rfl
  rw [pathPart, cutAt_of_head (not_mem_of_not_mem hnot) head?_marked, require_bind, if_pos hpath]
  dsimp only
  rw [queryPart_marked_eq hquery, fragmentPart_marked_eq hfragment]
  rfl

theorem literal_eq {h : List UInt8} (hv6 : isIpv6 h = true) : literal h = .ok (6, h) := by
  rcases h with _ | ⟨c, t⟩
  · exact absurd hv6 (by decide)
  · have hc : c ≠ 118 := by
      rintro rfl
      exact absurd hv6 (by simp [isIpv6, isHexdigit, getHexDigit])
    rw [literal_of_head_ne hc, hv6]
    rfl

theorem hostPart_eq {ipV : ℤ} {h t : List UInt8} {port : Option (List UInt8)}
    (ht : HostText ipV h t) : hostPart (t ++ marked 58 port) = .ok (h, ipV, marked 58 port) := by
  -- A name and an IPv4 address stand without brackets, the other two within.
  have hname (hreg : isRegName h = true) :
      hostPart (h ++ marked 58 port) = .ok (h, if isIpv4 h then 4 else 0, marked 58 port) := by
    -- No name begins with a bracket, and an empty one is followed by a port or by nothing.
    have hopen : (h ++ marked 58 port).head? ≠ some 91 := by
      rcases h with _ | ⟨c, h⟩
      · rcases port with _ | port
        · exact nofun
        · exact fun hc ↦ absurd (Option.some.inj hc) (by decide)
      · intro hc
        obtain rfl : c = 91 := Option.some.inj hc
        exact not_mem_of_isChars hreg (c := 91) (by decide) List.mem_cons_self
    have hhead : ∀ c ∈ (marked 58 port).head?, c ∈ ([58] : List UInt8) := by
      rcases port with _ | port
      · exact nofun
      · rintro _ ⟨⟩
        exact List.mem_singleton_self _
    have hnot : 58 ∉ h := not_mem_of_isChars hreg (by decide)
    rw [hostPart, if_neg hopen, name,
      cutAt_of_head (not_mem_of_not_mem (by simpa using hnot)) hhead, require_bind,
      if_pos (by rw [hreg, Bool.or_true])]
    rfl
  have hbracket {lit : List UInt8} (hlit : literal lit = .ok (ipV, h)) (hnot : 93 ∉ lit) :
      hostPart (91 :: (lit ++ [93]) ++ marked 58 port) = .ok (h, ipV, marked 58 port) := by
    rw [List.cons_append, List.append_assoc, hostPart, if_pos List.head?_cons, List.tail_cons,
      bracket, List.singleton_append,
      cutAt_of_mem (not_mem_of_not_mem (by simpa using hnot)) (List.mem_singleton_self 93),
      require_bind, if_pos (by simp), hlit]
    rfl
  have hclose : 93 ∉ h := not_mem_of_isChars ht.isChars (by decide)
  rcases ht with ⟨hreg, hv4⟩ | hv4 | hv6 | ⟨hhex, hchars⟩
  · rw [hname hreg, hv4]
    rfl
  · rw [hname (isRegName_of_isIpv4 hv4), hv4]
    rfl
  · exact hbracket (literal_eq hv6) hclose
  · rename_i c
    have hlit : literal (118 :: c :: 46 :: h) = .ok (version c, h) := by
      rw [literal, hhex, hchars]
      rfl
    have hne : (93 : UInt8) ≠ c := by
      rintro rfl
      exact absurd hhex (by decide)
    exact hbracket hlit (by simp [hclose, hne])

theorem userPart_eq {user : Option (List UInt8)} {s : List UInt8}
    (huser : ∀ x ∈ user, isChars x 0x05 = true) (hs : 64 ∉ s) :
    userPart (userText user ++ s) = .ok (user, s) := by
  rcases user with _ | user
  · rw [userText, List.nil_append, userPart,
      cutAt_of_not_mem (not_mem_of_not_mem (by simpa using hs))]
    rfl
  · have hnot : 64 ∉ user := not_mem_of_isChars (huser user rfl) (by decide)
    rw [userText, List.append_assoc, List.singleton_append, userPart,
      cutAt_of_mem (not_mem_of_not_mem (by simpa using hnot)) (List.mem_singleton_self 64)]
    dsimp only
    rw [if_neg (List.cons_ne_nil _ _), huser user rfl]
    rfl

theorem isChars_of_isPort {s : List UInt8} (h : isPort s = true) : isChars s 0x01 = true := by
  rw [isPort, beq_iff_eq] at h
  have hdigit (c : UInt8) (hc : isNum c = true) : isChar 0x01 c = true :=
    isChar_of_ipv4 c (by rw [hc, Bool.or_true])
  rcases s with _ | ⟨c, s⟩
  · rfl
  · rw [isUint] at h
    split_ifs at h with hc h0 hle
    · rw [Option.some.inj h, h0]
      rfl
    · have hall := List.dropWhile_eq_nil_iff.mp (Option.some.inj h)
      exact List.all_eq_true.mpr fun d hd ↦ hdigit d <| by
        rcases List.mem_cons.mp hd with rfl | hd
        · exact hc
        · exact hall d hd

theorem not_mem_port {port : Option (List UInt8)} {c : UInt8} (h : ∀ x ∈ port, isPort x = true)
    (hc : isChar 0x01 c = false) (hne : c ≠ 58) : c ∉ marked 58 port := by
  rcases port with _ | port
  · exact List.not_mem_nil
  · exact List.not_mem_cons_of_ne_of_not_mem hne
      (not_mem_of_isChars (isChars_of_isPort (h port rfl)) hc)

theorem authority_userText {user : Option (List UInt8)} {s : List UInt8}
    (huser : ∀ x ∈ user, isChars x 0x05 = true) (hs : 64 ∉ s) :
    authority (userText user ++ s) = (do
      let (host, ipV, s) ← hostPart s
      let port ← portPart s
      return { user, host := some host, ipV, port }) := by
  rw [authority, userPart_eq huser hs, ok_bind]

theorem authority_eq {user port : Option (List UInt8)} {ipV : ℤ} {h t : List UInt8}
    (huser : ∀ x ∈ user, isChars x 0x05 = true) (ht : HostText ipV h t)
    (hport : ∀ x ∈ port, isPort x = true) :
    authority (userText user ++ (t ++ marked 58 port)) =
      .ok { user, host := some h, ipV, port } := by
  have hnot : 64 ∉ t ++ marked 58 port := by
    rw [List.mem_append, not_or]
    exact ⟨ht.not_mem (by decide), not_mem_port hport (by decide) (by decide)⟩
  rw [authority_userText huser hnot, hostPart_eq ht, ok_bind]
  dsimp only
  rw [portPart_marked_eq hport]
  rfl

/-- No mark of what is behind an authority stands in it when none stands in the host. -/
theorem not_mem_authority {user port : Option (List UInt8)} {t : List UInt8}
    (huser : ∀ x ∈ user, isChars x 0x05 = true) (hport : ∀ x ∈ port, isPort x = true) {c : UInt8}
    (hc : c ∈ ([47, 63, 35] : List UInt8)) (ht : c ∉ t) :
    c ∉ userText user ++ (t ++ marked 58 port) := by
  have hchar : isChar 0x05 c = false ∧ isChar 0x01 c = false ∧ c ≠ 58 ∧ c ≠ 64 := by
    simp only [List.mem_cons, List.not_mem_nil, or_false] at hc
    rcases hc with rfl | rfl | rfl <;> decide
  obtain ⟨h5, h1, h58, h64⟩ := hchar
  rw [List.mem_append, List.mem_append, not_or, not_or]
  refine ⟨?_, ht, not_mem_port hport h1 h58⟩
  rcases user with _ | user
  · exact List.not_mem_nil
  · rw [userText, List.mem_append, not_or]
    exact ⟨not_mem_of_isChars (huser user rfl) h5, by simpa using h64⟩

theorem head?_behind {path : List UInt8} {query fragment : Option (List UInt8)}
    (h : ∀ c ∈ path.head?, c = 47) :
    ∀ c ∈ (path ++ (marked 63 query ++ marked 35 fragment)).head?,
      c ∈ ([47, 63, 35] : List UInt8) := by
  rcases path with _ | ⟨c, path⟩
  · exact fun c hc ↦ List.mem_cons_of_mem _ (head?_marked c hc)
  · rintro _ ⟨⟩
    rw [h c rfl]
    decide

theorem hierPart_authority {auth rest : List UInt8} (scheme : Option (List UInt8))
    (hauth : ∀ c ∈ ([47, 63, 35] : List UInt8), c ∉ auth)
    (hrest : ∀ c ∈ rest.head?, c ∈ ([47, 63, 35] : List UInt8)) :
    hierPart (47 :: 47 :: (auth ++ rest)) scheme = (do
      let raw ← authority auth
      pathPart rest { raw with scheme }) := by
  rw [hierPart, cutAt_of_head (not_mem_of_not_mem hauth) hrest]

theorem hierPart_text {raw : Raw} {t : List UInt8} (h : raw.Marked)
    (ht : ∀ x ∈ raw.host, HostText raw.ipV x t) :
    hierPart ((if raw.host = none then []
        else 47 :: 47 :: (userText raw.user ++ (t ++ marked 58 raw.port))) ++
      (raw.path ++ (marked 63 raw.query ++ marked 35 raw.fragment))) raw.scheme = .ok raw := by
  obtain ⟨scheme, user, host, ipV, port, path, query, fragment⟩ := raw
  rcases host with _ | host
  · -- no authority
    obtain ⟨hipV, huser, hport⟩ := h.noHost rfl
    dsimp only at hipV huser hport
    subst hipV huser hport
    -- A path that begins with two slashes would be read as an authority.
    rw [if_pos rfl, List.nil_append, hierPart]
    · exact pathPart_eq h.path h.query h.fragment _
    · intro r hr
      apply h.single rfl
      dsimp only at hr ⊢
      have hno : ∀ r', marked 63 query ++ marked 35 fragment ≠ 47 :: r' := by
        intro r' hr'
        exact absurd (head?_marked 47 (by rw [hr']; rfl)) (by decide)
      rcases path with _ | ⟨c, _ | ⟨d, path⟩⟩
      · exact absurd hr (hno _)
      · exact absurd (List.cons.inj hr).2 (hno _)
      · obtain ⟨hc, htail⟩ := List.cons.inj hr
        rw [List.take_succ_cons, List.take_succ_cons, List.take_zero, hc, (List.cons.inj htail).1]
  · rw [if_neg (Option.some_ne_none host), List.cons_append, List.cons_append,
      hierPart_authority scheme
        (fun c hc ↦ not_mem_authority h.user h.port hc
          ((ht host rfl).not_mem (List.mem_append_left [64] hc)))
        (head?_behind (h.absolute (Option.some_ne_none host))),
      authority_eq h.user (ht host rfl) h.port, ok_bind]
    exact pathPart_eq h.path h.query h.fragment _

theorem hierPart_plain {s : List UInt8} (h : ∀ c ∈ s, c ∉ ([58, 47, 63, 35] : List UInt8)) :
    hierPart s none = (do
      require (isChars s 0x2F) (.path s)
      return { path := s }) := by
  have hcut : cutAt [63, 35] s = (s, []) := cutAt_of_not_mem fun c hc hmem ↦
    h c hc (List.mem_cons_of_mem _ (List.mem_cons_of_mem _ hmem))
  rw [hierPart]
  · rw [pathPart, hcut]
    rfl
  · rintro r rfl
    exact h 47 List.mem_cons_self (by decide)

theorem scan_eq {s : List UInt8} (hlen : s.length ≤ 8000) :
    scan s = if (cutAt [58, 47, 63, 35] s).2.head? = some 58 then do
        require (isScheme (cutAt [58, 47, 63, 35] s).1) .scheme
        hierPart (cutAt [58, 47, 63, 35] s).2.tail (some (cutAt [58, 47, 63, 35] s).1)
      else hierPart s none := by
  rw [scan, require_bind, if_pos (decide_eq_true hlen)]
  dsimp only
  have happend := cutAt_append [58, 47, 63, 35] s
  have hnot (c : UInt8) (hc : c ∈ ([58, 47, 63, 35] : List UInt8)) := not_mem_cutAt hc s
  by_cases hnil : (cutAt [58, 47, 63, 35] s).2 = []
  · rw [hnil, List.append_nil] at happend
    rw [happend] at hnot
    rw [if_pos hnil, hnil, if_neg (by decide), hierPart_plain (not_mem_of_not_mem hnot)]
  · rw [if_neg hnil]

theorem isChar_of_scheme : ∀ c : UInt8,
    (isAlpha c || isNum c || [43, 45, 46].contains c) = true → isChar 0x01 c = true :=
  forall_byte (by decide +kernel)

theorem isChars_of_isScheme {s : List UInt8} (h : isScheme s = true) : isChars s 0x01 = true := by
  rcases s with _ | ⟨c, s⟩
  · rfl
  · rw [isScheme, Bool.and_eq_true] at h
    have hc := isChar_of_scheme c (by rw [h.1, Bool.true_or, Bool.true_or])
    exact List.all_eq_true.mpr fun d hd ↦ by
      rcases List.mem_cons.mp hd with rfl | hd
      · exact hc
      · exact isChar_of_scheme d (List.all_eq_true.mp h.2 d hd)

theorem head?_cutAt_slash (s : List UInt8) : (cutAt [58, 47, 63, 35] (47 :: s)).2.head? ≠ some 58 :=
  fun hcolon ↦ absurd (Option.some.inj hcolon) (by decide)

theorem scan_schemeText {scheme : Option (List UInt8)} {s : List UInt8}
    (hscheme : ∀ x ∈ scheme, isScheme x = true)
    (hnone : scheme = none → (cutAt [58, 47, 63, 35] s).2.head? ≠ some 58)
    (hlen : (schemeText scheme ++ s).length ≤ 8000) :
    scan (schemeText scheme ++ s) = hierPart s scheme := by
  rw [scan_eq hlen]
  rcases scheme with _ | scheme
  · rw [schemeText, List.nil_append, if_neg (hnone rfl)]
  · have hok := hscheme scheme rfl
    have hnot : ∀ c ∈ ([58, 47, 63, 35] : List UInt8), c ∉ scheme :=
      forall_not_mem (isChars_of_isScheme hok) rfl
    rw [schemeText, List.append_assoc, List.singleton_append,
      cutAt_of_mem (not_mem_of_not_mem hnot) List.mem_cons_self]
    dsimp only
    rw [if_pos List.head?_cons, require_bind, if_pos hok]
    rfl

/-- **The parts are marked** in their text. -/
theorem scan_text {raw : Raw} {t : List UInt8} (h : raw.Marked)
    (ht : ∀ x ∈ raw.host, HostText raw.ipV x t) (hlen : (raw.text t).length ≤ 8000) :
    scan (raw.text t) = .ok raw := by
  rw [Raw.text] at hlen ⊢
  rw [scan_schemeText h.scheme _ hlen, hierPart_text h ht]
  intro hscheme
  by_cases hhost : raw.host = none
  · rw [if_pos hhost, List.nil_append]
    have hpath : ∀ c ∈ raw.path, c ∉ ([63, 35] : List UInt8) :=
      not_mem_of_not_mem (forall_not_mem h.path rfl)
    exact mt (head?_cutAt_iff hpath head?_marked).mp (h.relative hhost hscheme)
  · rw [if_neg hhost]
    exact head?_cutAt_slash _

end Knet.Http.HttpUrl
