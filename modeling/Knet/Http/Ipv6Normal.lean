import Knet.Http.Ipv6Written
import Knet.Http.Validators

/-!
# `normalize_IPv6` keeps an address

For the text of an IPv6 address the result is the text of the same address, with the first longest
run of two zeros or more left out. There are two exceptions. Eight groups of zeros become a single
colon. And in front of an IPv4 address two colons that stand for one group are written out, which
may take the text over the 39 characters of `is_valid_ipv6`.
-/

namespace Knet.Http.HttpUrl

open Checked Inet Runs NormalizeIpv6

/-- `normalize_IPv6` keeps the address of a text. -/
structure Keeps (a out : List UInt8) : Prop where
  returns : normalizeIPv6 a = .ok out
  valid : isValidIpv6 out = true
  same : ∃ address, Denotes a address ∧ Denotes out address
  compressed : ∃ t : Ipv6, t.Valid ∧ t.text = out ∧ t.Compressed
  fixed : normalizeIPv6 out = .ok out

/-- How long a text is in front of an IPv4 address when no group is left out. -/
def plainLength (values : List ℕ) (q : Quad) : ℕ :=
  (values.flatMap fun n ↦ hexDigits 4 n ++ [58]).length + q.text.length

/-- The addresses that are kept: not all of the groups are zero unless the text is `::`, and with an
IPv4 address either a run of zeros is left out or there is enough room for all groups. -/
def Kept (a : List UInt8) : Prop :=
  ∃ t : Ipv6, t.Valid ∧ t.text = a ∧
    (t.tail = none → a = [58, 58] ∨ ∃ n ∈ t.values, n ≠ 0) ∧
    ∀ q ∈ t.tail, (∃ i, IsRun 0 t.values i 2) ∨ plainLength t.values q ≤ 39

/-! ## Characters and lengths -/

theorem mem_text {t : Ipv6} {c : UInt8} (h : c ∈ t.text) :
    c = 58 ∨ c = 46 ∨ (hexDigit c).isSome = true := by
  have hrun (gs : List Group) (h : c ∈ [58].intercalate (gs.map Group.digits ++ t.tailPieces)) :
      c = 58 ∨ c = 46 ∨ (hexDigit c).isSome = true := by
    rcases mem_intercalate 58 h with rfl | ⟨x, hx, hc⟩
    · exact .inl rfl
    · rcases List.mem_append.mp hx with hx | hx
      · obtain ⟨g, -, rfl⟩ := List.mem_map.mp hx
        exact .inr (.inr (g.isHex c hc))
      · rw [Ipv6.tailPieces, Option.mem_toList, Option.map_eq_some_iff] at hx
        obtain ⟨q, -, rfl⟩ := hx
        exact .inr ((Quad.mem_text hc).imp_right hexDigit_of_isDigit)
  rw [Ipv6.text] at h
  split at h
  · exact hrun _ h
  · rcases List.mem_append.mp h with h | h
    · rcases mem_intercalate 58 h with rfl | ⟨x, hx, hc⟩
      · exact .inl rfl
      · obtain ⟨g, -, rfl⟩ := List.mem_map.mp hx
        exact .inr (.inr (g.isHex c hc))
    · rcases List.mem_cons.mp h with rfl | h
      · exact .inl rfl
      · rcases List.mem_cons.mp h with rfl | h
        · exact .inl rfl
        · exact hrun _ h

theorem isIpv6_of_isValidIpv6 {s : List UInt8} (h : isValidIpv6 s = true) : isIpv6 s = true := by
  obtain ⟨hlen, t, -, rfl⟩ := isValidIpv6_iff.mp h
  have htwo : 2 ≤ t.text.length := by
    rw [isValidIpv6] at h
    split_ifs at h with hnot
    all_goals omega
  have hall : (t.text.all fun c ↦ c == 58 || c == 46 || isHexdigit c) = true := by
    apply List.all_eq_true.mpr
    intro c hc
    rw [isHexdigit_eq]
    rcases mem_text hc with rfl | rfl | hc
    · rfl
    · rfl
    · rw [hc, Bool.or_true]
  rw [isIpv6, hall, decide_eq_true htwo, decide_eq_true (show t.text.length ≤ 254 by omega)]
  rfl

theorem length_colons_le (gs : List Group) :
    ((gs.map Group.digits).flatMap (· ++ [58])).length ≤ 5 * gs.length := by
  induction gs with
  | nil => exact le_rfl
  | cons g gs ih =>
    have := g.length_le
    rw [List.map_cons, List.flatMap_cons, List.length_append, List.length_append,
      List.length_singleton, List.length_cons]
    omega

theorem length_quad_le {q : Quad} (h : q.Valid) : q.text.length ≤ 15 := by
  have hle (n : ℕ) (hn : n ≤ 255) : (Text.decimal n).length ≤ 3 :=
    Text.length_decimal_le (by omega)
  have ha := hle _ h.a_le
  have hb := hle _ h.b_le
  have hc := hle _ h.c_le
  have hd := hle _ h.d_le
  rw [Quad.text_eq]
  simp only [List.length_append, List.length_cons]
  omega

/-! ## Addresses as they are written -/

/-- An address whose last token is the IPv4 address. -/
def ofIpv6 (t : Ipv6) : Written := ⟨t.before, t.after, t.tail.map Quad.text⟩

theorem text_ofIpv6 (t : Ipv6) : (ofIpv6 t).text = t.text := rfl

theorem tail_quad {t : Ipv6} : ∀ v ∈ t.tail.map Quad.text, 5 < v.length ∧ (58 : UInt8) ∉ v := by
  intro v hv
  rw [Option.mem_def, Option.map_eq_some_iff] at hv
  obtain ⟨q, -, rfl⟩ := hv
  constructor
  · have hpos (n : ℕ) := List.length_pos_iff.mpr (Text.decimal_ne_nil n)
    have ha := hpos q.a
    have hb := hpos q.b
    have hc := hpos q.c
    have hd := hpos q.d
    rw [Quad.text_eq]
    simp only [List.length_append, List.length_cons]
    omega
  · intro hmem
    rcases Quad.mem_text hmem with h | h
    · exact absurd h (by decide)
    · exact absurd h (by decide)

theorem ok_ofIpv6 {t : Ipv6} (h : Accepted t) : (ofIpv6 t).Ok := by
  refine ⟨?_, tail_quad⟩
  have hcount := h.count
  rw [Fits] at hcount
  rw [Written.width, ofIpv6, Written.groups, Option.isSome_map]
  rwa [Ipv6.groups] at hcount

theorem width_ofIpv6 (t : Ipv6) : (ofIpv6 t).width = t.width := by
  rw [Written.width, Ipv6.width, ofIpv6, Option.isSome_map]

theorem fields_ofIpv6 (t : Ipv6) : (ofIpv6 t).fields = t.values.map UInt16.ofNat := by
  have hmap (gs : List Group) : (gs.map Group.value).map UInt16.ofNat = gs.map fieldOf :=
    List.map_map
  rw [Written.fields, Ipv6.values, List.map_append, List.map_append, hmap, hmap,
    List.map_replicate, width_ofIpv6, List.append_assoc]
  rfl

theorem values_lt (t : Ipv6) : ∀ n ∈ t.values, n < 2 ^ 16 := by
  have hmap (gs : List Group) : ∀ n ∈ gs.map Group.value, n < 2 ^ 16 := by
    intro n hn
    obtain ⟨g, -, rfl⟩ := List.mem_map.mp hn
    exact g.value_lt
  intro n hn
  rw [Ipv6.values] at hn
  rcases List.mem_append.mp hn with hn | hn
  · rcases List.mem_append.mp hn with hn | hn
    · exact hmap _ n hn
    · rw [List.eq_of_mem_replicate hn]
      decide
  · exact hmap _ n hn

theorem toNat_values (t : Ipv6) : (t.values.map UInt16.ofNat).map UInt16.toNat = t.values := by
  rw [List.map_map]
  refine (List.map_congr_left fun n hn ↦ ?_).trans (List.map_id _)
  exact (UInt16.toNat_ofNat' ..).trans (Nat.mod_eq_of_lt (values_lt t n hn))

theorem ofNat_eq_zero {t : Ipv6} : ∀ n ∈ t.values, UInt16.ofNat n = UInt16.ofNat 0 → n = 0 := by
  intro n hn h
  have hnat := congrArg UInt16.toNat h
  rwa [UInt16.toNat_ofNat', UInt16.toNat_ofNat', Nat.mod_eq_of_lt (values_lt t n hn)] at hnat

/-- The fields that `normalize_IPv6` has for an address. -/
def fieldsFor (t : Ipv6) : List UInt16 := t.values.map UInt16.ofNat

/-- The address that is written. -/
def shortened (t : Ipv6) (nullPos nullLen : ℕ) : Ipv6 :=
  let w := canonical (fieldsFor t) (t.tail.map Quad.text) nullPos nullLen
  ⟨w.before, w.after, t.tail⟩

theorem ofIpv6_shortened (t : Ipv6) (nullPos nullLen : ℕ) :
    ofIpv6 (shortened t nullPos nullLen) =
      canonical (fieldsFor t) (t.tail.map Quad.text) nullPos nullLen := by
  rw [shortened, canonical]
  split_ifs <;> rfl

theorem normalizeIPv6_text {t : Ipv6} (h : Accepted t) (hs : isIpv6 t.text = true)
    (hne : t.text ≠ [58, 58]) :
    ∃ nullPos nullLen, Fields (fieldsFor t) (t.tail.map Quad.text) nullPos nullLen ∧
      normalizeIPv6 t.text = .ok (if nullLen < 8 then (shortened t nullPos nullLen).text
        else [58]) := by
  have hok := ok_ofIpv6 h
  obtain ⟨hipv4, hfields, hholds⟩ := hok.read (text_ofIpv6 t ▸ hok.splitOn_text)
  rw [fields_ofIpv6] at hfields
  obtain ⟨nullPos, nullLen, hres, heq⟩ := normalizeIPv6_fields hs hne hholds fun v hv ↦
    (tail_quad v (hipv4 ▸ hv)).2
  rw [hipv4, hfields] at hres heq
  refine ⟨nullPos, nullLen, hres, heq.trans ?_⟩
  rw [← text_ofIpv6, ofIpv6_shortened]
  rfl

section Shortened

variable {t : Ipv6} {nullPos nullLen : ℕ}

theorem values_shortened (h : Fields (fieldsFor t) (t.tail.map Quad.text) nullPos nullLen) :
    (shortened t nullPos nullLen).values = t.values := by
  have hfields := fields_ofIpv6 (shortened t nullPos nullLen)
  rw [ofIpv6_shortened, h.fields_canonical] at hfields
  rw [← toNat_values (shortened t nullPos nullLen), ← hfields, fieldsFor, toNat_values]

theorem isRun_fieldsFor {a k : ℕ} : IsRun 0 (fieldsFor t) a k ↔ IsRun 0 t.values a k :=
  isRun_map (f := UInt16.ofNat) ofNat_eq_zero

theorem isFirstLongest_fieldsFor {a k : ℕ} :
    IsFirstLongest 0 (fieldsFor t) a k ↔ IsFirstLongest 0 t.values a k :=
  isFirstLongest_map (f := UInt16.ofNat) ofNat_eq_zero

theorem length_fieldsFor (h : Fields (fieldsFor t) (t.tail.map Quad.text) nullPos nullLen) :
    (fieldsFor t).length = t.width := by
  rw [h.length, Option.isSome_map, Ipv6.width]

theorem count_shortened (h : Fields (fieldsFor t) (t.tail.map Quad.text) nullPos nullLen) :
    (2 ≤ nullLen ∧ (shortened t nullPos nullLen).after.isSome ∧
      (shortened t nullPos nullLen).before.length = nullPos ∧
      (shortened t nullPos nullLen).groups.length + nullLen = t.width) ∨
    (nullLen < 2 ∧ shortened t nullPos nullLen =
      ⟨(fieldsFor t).map groupOf, none, t.tail⟩) := by
  have hlen := length_fieldsFor h
  have hle := h.le_length
  by_cases htwo : 2 ≤ nullLen
  · refine .inl ⟨htwo, ?_⟩
    rw [shortened, canonical, if_pos htwo]
    refine ⟨rfl, ?_, ?_⟩
    · rw [List.length_map, List.length_take]
      omega
    · simp only [Ipv6.groups, Option.getD_some, List.length_append, List.length_map,
        List.length_take, List.length_drop]
      omega
  · refine .inr ⟨not_le.mp htwo, ?_⟩
    rw [shortened, canonical, if_neg htwo]

theorem valid_shortened (ht : t.Valid)
    (h : Fields (fieldsFor t) (t.tail.map Quad.text) nullPos nullLen) :
    (shortened t nullPos nullLen).Valid := by
  refine ⟨?_, ht.tail⟩
  have hwidth : (shortened t nullPos nullLen).width = t.width := rfl
  rw [Ipv6.Counted, hwidth]
  rcases count_shortened h with ⟨htwo, hafter, -, hcount⟩ | ⟨-, heq⟩
  · rw [if_pos hafter]
    omega
  · rw [heq, if_neg (show ¬(none : Option (List Group)).isSome = true by decide), Ipv6.groups,
      Option.getD_none, List.append_nil, List.length_map, length_fieldsFor h]

theorem compressed_shortened (h : Fields (fieldsFor t) (t.tail.map Quad.text) nullPos nullLen) :
    (shortened t nullPos nullLen).Compressed := by
  have hwidth : (shortened t nullPos nullLen).width = t.width := rfl
  rw [Ipv6.Compressed, values_shortened h, hwidth]
  -- The run is left out when it has two zeros at least; else there is no such run.
  rcases count_shortened h with ⟨htwo, hafter, hbefore, hcount⟩ | ⟨htwo, heq⟩
  · obtain ⟨after, hafter⟩ := Option.isSome_iff_exists.mp hafter
    have hfirst : IsFirstLongest 0 (fieldsFor t) nullPos nullLen := by
      rcases h.located with ⟨hzero, -⟩ | ⟨-, hfirst⟩
      · omega
      · exact hfirst
    rw [hafter, hbefore, show t.width - (shortened t nullPos nullLen).groups.length = nullLen by
      omega]
    exact ⟨htwo, isFirstLongest_fieldsFor.mp hfirst⟩
  · rw [heq]
    intro i hrun
    have := h.maximal (isRun_fieldsFor.mpr hrun)
    omega

theorem length_plain (h : Fields (fieldsFor t) (t.tail.map Quad.text) nullPos nullLen) {q : Quad}
    (hq : t.tail = some q) (htwo : nullLen < 2) :
    (shortened t nullPos nullLen).text.length = plainLength t.values q := by
  rcases count_shortened h with ⟨hle, -⟩ | ⟨-, heq⟩
  · omega
  have hcolons (xs : List UInt16) : ((xs.map groupOf).map Group.digits).flatMap (· ++ [58]) =
      (xs.map UInt16.toNat).flatMap fun n ↦ hexDigits 4 n ++ [58] := by
    simp only [List.flatMap_map]
    rfl
  have hlen := length_intercalate 58 (show
    ((fieldsFor t).map groupOf).map Group.digits ++ [q.text] ≠ [] by simp)
  rw [heq, Ipv6.text, hq]
  have htail : Ipv6.tailPieces ⟨(fieldsFor t).map groupOf, none, some q⟩ = [q.text] := rfl
  dsimp only
  rw [htail]
  rw [List.flatMap_append, List.length_append, hcolons, show (fieldsFor t).map UInt16.toNat =
    t.values from toNat_values t, List.flatMap_singleton, List.length_append,
    List.length_singleton] at hlen
  rw [plainLength]
  omega

theorem length_shortened_le (ht : t.Valid)
    (h : Fields (fieldsFor t) (t.tail.map Quad.text) nullPos nullLen)
    (hplain : ∀ q ∈ t.tail, nullLen < 2 → plainLength t.values q ≤ 39) :
    (shortened t nullPos nullLen).text.length ≤ 39 := by
  have hwidth : t.width = if t.tail.isSome then 6 else 8 := rfl
  rcases count_shortened h with ⟨htwo, hafter, -, hcount⟩ | ⟨htwo, heq⟩
  · -- at most six groups, or four and the IPv4 address
    have htail : (shortened t nullPos nullLen).tail = t.tail := rfl
    generalize shortened t nullPos nullLen = u at hafter hcount htail
    obtain ⟨before, after, tail⟩ := u
    dsimp only at hafter htail
    subst htail
    obtain ⟨after, rfl⟩ := Option.isSome_iff_exists.mp hafter
    have hb := (length_intercalate_le 58 _).trans (length_colons_le before)
    have ha := length_intercalate_le 58 (after.map Group.digits ++ (t.tail.map Quad.text).toList)
    have ha' := length_colons_le after
    rw [List.flatMap_append, List.length_append] at ha
    rw [Ipv6.groups, List.length_append, Option.getD_some] at hcount
    dsimp only at hcount
    rw [Ipv6.text]
    simp only [List.length_append, List.length_cons, Ipv6.tailPieces]
    rcases htail : t.tail with _ | q
    · rw [htail] at ha hwidth
      simp only [Option.map_none, Option.toList_none, List.flatMap_nil, List.length_nil,
        Option.isSome_none, Bool.false_eq_true, if_false] at ha hwidth ⊢
      omega
    · have hq := length_quad_le (ht.tail q htail)
      rw [htail] at ha hwidth
      simp only [Option.map_some, Option.toList_some, List.flatMap_singleton, List.length_append,
        List.length_singleton, Option.isSome_some, if_true] at ha hwidth ⊢
      omega
  · rcases htail : t.tail with _ | q
    · have hlen := length_fieldsFor h
      have hcolons := length_colons_le ((fieldsFor t).map groupOf)
      rw [List.length_map, hlen, hwidth, htail, if_neg (by decide)] at hcolons
      have hne : ((fieldsFor t).map groupOf).map Group.digits ≠ [] := by
        intro hnil
        rw [List.map_eq_nil_iff, List.map_eq_nil_iff] at hnil
        rw [hnil, hwidth, htail] at hlen
        exact absurd hlen (by decide)
      have hjoin := length_intercalate 58 hne
      rw [heq, htail, Ipv6.text]
      dsimp only
      rw [Ipv6.tailPieces_none rfl, List.append_nil]
      omega
    · rw [length_plain h htail htwo]
      exact hplain q htail htwo

end Shortened

theorem length_values {t : Ipv6} : t.values.length = (fieldsFor t).length :=
  (List.length_map _).symm

theorem lt_eight_iff {t : Ipv6} {nullPos nullLen : ℕ}
    (h : Fields (fieldsFor t) (t.tail.map Quad.text) nullPos nullLen) :
    nullLen < 8 ↔ (t.tail = none → ∃ n ∈ t.values, n ≠ 0) := by
  constructor
  · intro hlt htail
    by_contra hzero
    have hlen : t.values.length = 8 := by
      rw [length_values, h.length, htail]
      rfl
    have hrun : IsRun 0 t.values 0 8 := by
      intro i _ hi
      have hget := List.getElem?_eq_getElem (show i < t.values.length by omega)
      rw [hget]
      by_contra hne
      exact hzero ⟨_, List.mem_of_getElem? hget, fun h0 ↦ hne (congrArg some h0)⟩
    exact absurd (h.maximal (isRun_fieldsFor.mpr hrun)) (not_le.mpr hlt)
  · intro hex
    by_contra hnot
    obtain ⟨rfl, rfl, hlen, htail⟩ := h.eq_eight hnot
    obtain ⟨n, hn, hne⟩ := hex (Option.map_eq_none_iff.mp htail)
    obtain ⟨i, hi, hget⟩ := List.mem_iff_getElem.mp hn
    have hzero := isRun_fieldsFor.mp h.isRun i (Nat.zero_le i) (by rw [length_values] at hi; omega)
    rw [List.getElem?_eq_getElem hi, hget] at hzero
    exact hne (Option.some.inj hzero)

theorem lt_two_iff {t : Ipv6} {nullPos nullLen : ℕ}
    (h : Fields (fieldsFor t) (t.tail.map Quad.text) nullPos nullLen) :
    nullLen < 2 ↔ ¬∃ i, IsRun 0 t.values i 2 := by
  constructor
  · rintro hlt ⟨i, hrun⟩
    exact absurd (h.maximal (isRun_fieldsFor.mpr hrun)) (not_le.mpr hlt)
  · intro hnot
    by_contra htwo
    exact hnot ⟨nullPos, isRun_fieldsFor.mp (h.isRun.mono le_rfl (by omega))⟩

/-! ## What is kept -/

/-- All groups are left out. -/
def unspecified : Ipv6 := ⟨[], some [], none⟩

theorem unspecified_valid : unspecified.Valid :=
  ⟨by simp [unspecified, Ipv6.Counted, Ipv6.groups, Ipv6.width], nofun⟩

theorem unspecified_compressed : unspecified.Compressed := by
  have hlen : unspecified.values.length = 8 := rfl
  refine ⟨by decide, isRun_append [] [] 8, fun a k h ↦ ?_, fun a _ ↦ Nat.zero_le a⟩
  rcases Nat.eq_zero_or_pos k with rfl | hpos
  · exact Nat.zero_le _
  · have := h.add_le_length hpos
    rw [show unspecified.width - unspecified.groups.length = 8 from rfl]
    omega

theorem keeps_unspecified : Keeps [58, 58] [58, 58] where
  returns := rfl
  valid := by decide
  same := ⟨_, ⟨_, unspecified_valid, rfl, rfl⟩, ⟨_, unspecified_valid, rfl, rfl⟩⟩
  compressed := ⟨_, unspecified_valid, rfl, unspecified_compressed⟩
  fixed := rfl

/-- **When `normalize_IPv6` keeps an address.** -/
theorem normalizeIPv6_keeps_iff {a : List UInt8} (h : isValidIpv6 a = true) :
    (∃ out, Keeps a out) ↔ Kept a := by
  have hs := isIpv6_of_isValidIpv6 h
  constructor
  · rintro ⟨out, hkeeps⟩
    obtain ⟨-, ⟨t, ht, rfl, -⟩, -⟩ := hkeeps.same
    refine ⟨t, ht, rfl, ?_⟩
    by_cases hne : t.text = [58, 58]
    · obtain rfl : t = unspecified := Ipv6.text_inj ht.counted.before_ne_nil nofun hne
      exact ⟨fun _ ↦ .inl hne, nofun⟩
    · obtain ⟨nullPos, nullLen, hfields, heq⟩ := normalizeIPv6_text (accepted_of_valid ht) hs hne
      have hout := Except.ok.inj (hkeeps.returns.symm.trans heq)
      have hvalid := hkeeps.valid
      have hlt : nullLen < 8 := by
        by_contra hnot
        rw [hout, if_neg hnot] at hvalid
        exact absurd hvalid (by decide)
      rw [hout, if_pos hlt] at hvalid
      refine ⟨fun htail ↦ .inr ((lt_eight_iff hfields).mp hlt htail), fun q hq ↦ ?_⟩
      by_cases hrun : ∃ i, IsRun 0 t.values i 2
      · exact .inl hrun
      · rw [← length_plain hfields hq ((lt_two_iff hfields).mpr hrun)]
        exact .inr (isValidIpv6_iff.mp hvalid).1
  · rintro ⟨t, ht, rfl, hzero, hplain⟩
    by_cases hne : t.text = [58, 58]
    · rw [hne]
      exact ⟨_, keeps_unspecified⟩
    · obtain ⟨nullPos, nullLen, hfields, heq⟩ := normalizeIPv6_text (accepted_of_valid ht) hs hne
      have hlt := (lt_eight_iff hfields).mpr fun htail ↦ (hzero htail).resolve_left hne
      rw [if_pos hlt] at heq
      have hvalid := valid_shortened ht hfields
      have hlen := length_shortened_le ht hfields fun q hq htwo ↦
        (hplain q hq).resolve_left ((lt_two_iff hfields).mp htwo)
      have haccepted := isValidIpv6_of_accepted (accepted_of_valid hvalid) hlen
      refine ⟨_, heq, haccepted, ⟨t.address, ⟨t, ht, rfl, rfl⟩, ⟨_, hvalid, rfl, ?_⟩⟩,
        ⟨_, hvalid, rfl, compressed_shortened hfields⟩, ?_⟩
      · rw [Ipv6.address, Ipv6.address, values_shortened hfields]
        rfl
      · have hs' := isIpv6_of_isValidIpv6 haccepted
        rw [← text_ofIpv6, ofIpv6_shortened] at hs' ⊢
        exact hfields.normalizeIPv6_canonical hlt hs'

theorem normalizeIPv6_keeps_loopback : isValidIpv6 (Bytes.ofString "0:0::0:1") = true ∧
    ((∃ out, Keeps (Bytes.ofString "0:0::0:1") out) ↔ Kept (Bytes.ofString "0:0::0:1")) :=
  ⟨by decide, normalizeIPv6_keeps_iff (by decide)⟩

/-- Nothing but a colon is left of eight zeros. -/
theorem normalizeIPv6_loses_zero : ¬∀ a, isValidIpv6 a = true → ∃ out, Keeps a out := by
  intro h
  -- A single colon comes back, which `is_valid_ipv6` does not accept.
  obtain ⟨out, hkeeps⟩ := h (Bytes.ofString "0:0:0:0:0:0:0:0") (by decide)
  have hout : normalizeIPv6 (Bytes.ofString "0:0:0:0:0:0:0:0") = .ok [58] := by decide
  obtain rfl := Except.ok.inj (hkeeps.returns.symm.trans hout)
  exact absurd hkeeps.valid (by decide)

/-! ## What is not changed -/

theorem digits_shortened {t : Ipv6} {nullPos nullLen : ℕ} :
    ∀ g ∈ (shortened t nullPos nullLen).groups, g.digits = hexDigits 4 g.value := by
  have hgroup (x : UInt16) : (groupOf x).digits = hexDigits 4 (groupOf x).value := by
    rw [groupOf, Group.value_ofNat (show x.toNat < 16 ^ 4 from x.toNat_lt)]
    rfl
  have hmap (xs : List UInt16) : ∀ g ∈ xs.map groupOf, g.digits = hexDigits 4 g.value := by
    intro g hg
    obtain ⟨x, -, rfl⟩ := List.mem_map.mp hg
    exact hgroup x
  intro g hg
  rw [shortened, canonical] at hg
  split_ifs at hg
  · rcases List.mem_append.mp hg with hg | hg
    · exact hmap _ g hg
    · exact hmap _ g hg
  · exact hmap _ g (by simpa [Ipv6.groups] using hg)

theorem groupOf_fieldOf {g : Group} (h : g.digits = hexDigits 4 g.value) :
    groupOf (fieldOf g) = g := by
  apply Inet.Group.ext
  rw [h, groupOf, fieldOf, UInt16.toNat_ofNat',
    Nat.mod_eq_of_lt (show g.value < 2 ^ 16 from g.value_lt)]
  rfl

theorem map_groupOf {gs : List Group} (h : ∀ g ∈ gs, g.digits = hexDigits 4 g.value) :
    (gs.map fieldOf).map groupOf = gs := by
  rw [List.map_map]
  exact (List.map_congr_left fun g hg ↦ groupOf_fieldOf (h g hg)).trans (List.map_id _)

theorem shortened_of_canonical {t : Ipv6} {nullPos nullLen : ℕ} (ht : Accepted t)
    (hcanon : t.Canonical) (h : Fields (fieldsFor t) (t.tail.map Quad.text) nullPos nullLen) :
    shortened t nullPos nullLen = t := by
  have hfields : fieldsFor t = t.before.map fieldOf ++
      (List.replicate (t.width - t.groups.length) 0 ++ (t.after.getD []).map fieldOf) := by
    rw [← width_ofIpv6]
    exact (fields_ofIpv6 t).symm
  have hcompressed := hcanon.compressed
  have hdigits := hcanon.digits
  rw [Ipv6.Compressed] at hcompressed
  rw [Ipv6.groups] at hdigits
  rcases hafter : t.after with _ | after
  · rw [hafter] at hcompressed hfields hdigits
    have hlt : ¬2 ≤ nullLen := fun htwo ↦
      hcompressed nullPos (isRun_fieldsFor.mp (h.isRun.mono le_rfl (by omega)))
    have hcount := ht.count
    rw [Fits, hafter, if_neg (by decide)] at hcount
    have hzero : t.width - t.groups.length = 0 := by
      rw [Ipv6.width]
      omega
    rw [hzero, List.replicate_zero, Option.getD_none, List.map_nil, List.append_nil,
      List.append_nil] at hfields
    rw [Option.getD_none, List.append_nil] at hdigits
    rw [shortened, canonical, if_neg hlt, hfields, map_groupOf hdigits, ← hafter]
  · rw [hafter] at hcompressed hfields hdigits
    obtain ⟨htwo, hfirst⟩ := hcompressed
    have hlocated := isFirstLongest_fieldsFor.mpr hfirst
    obtain ⟨rfl, rfl⟩ : nullPos = t.before.length ∧ nullLen = t.width - t.groups.length := by
      rcases h.located with ⟨-, -, hnone⟩ | ⟨-, hfirst'⟩
      · have := hnone.length_unique hlocated
        omega
      · obtain rfl := hfirst'.length_unique hlocated
        exact ⟨hfirst'.unique hlocated, rfl⟩
    rw [Option.getD_some] at hfields hdigits
    have hbefore := map_groupOf fun g hg ↦ hdigits g (List.mem_append_left _ hg)
    have hafter' := map_groupOf fun g hg ↦ hdigits g (List.mem_append_right _ hg)
    rw [shortened, canonical, if_pos htwo, hfields, List.take_left' (List.length_map _),
      ← List.append_assoc, List.drop_left' (by simp), hbefore, hafter', ← hafter]

/-- **What `normalize_IPv6` leaves as it is** are the canonical texts. -/
theorem normalizeIPv6_eq_self_iff {h : List UInt8} (hvalid : isValidIpv6 h = true) :
    normalizeIPv6 h = .ok h ↔ ∃ t : Ipv6, Accepted t ∧ t.Canonical ∧ t.text = h := by
  have hs := isIpv6_of_isValidIpv6 hvalid
  have hunspecified : Accepted unspecified := accepted_of_valid unspecified_valid
  by_cases hne : h = [58, 58]
  · subst hne
    exact iff_of_true rfl ⟨unspecified, hunspecified, ⟨nofun, unspecified_compressed⟩, rfl⟩
  constructor
  · intro hself
    obtain ⟨-, t, ht, rfl⟩ := isValidIpv6_iff.mp hvalid
    obtain ⟨nullPos, nullLen, hfields, heq⟩ := normalizeIPv6_text ht hs hne
    have hout := Except.ok.inj (hself.symm.trans heq)
    split_ifs at hout
    · have hsame : t = shortened t nullPos nullLen := by
        apply Ipv6.text_inj ht.before_ne_nil ?_ hout
        intro hafter hnil
        rcases count_shortened hfields with ⟨-, hsome, -⟩ | ⟨-, hshort⟩
        · rw [hafter] at hsome
          exact absurd hsome (by decide)
        · rw [hshort] at hnil
          have hlen := hfields.length
          rw [List.map_eq_nil_iff.mp hnil] at hlen
          split_ifs at hlen
      refine ⟨t, ht, ?_, rfl⟩
      rw [hsame]
      exact ⟨digits_shortened, compressed_shortened hfields⟩
    · rw [hout] at hvalid
      exact absurd hvalid (by decide)
  · rintro ⟨t, ht, hcanon, rfl⟩
    obtain ⟨nullPos, nullLen, hfields, heq⟩ := normalizeIPv6_text ht hs hne
    have hsame := shortened_of_canonical ht hcanon hfields
    have hlt : nullLen < 8 := by
      by_contra hnot
      obtain ⟨rfl, rfl, -, htail⟩ := hfields.eq_eight hnot
      rcases count_shortened hfields with ⟨-, hafter, -, hcount⟩ | ⟨hlt, -⟩
      · rw [hsame] at hafter hcount
        have hwidth : t.width ≤ 8 := by
          rw [Ipv6.width]
          split_ifs <;> decide
        have hgroups : t.groups = [] := List.eq_nil_of_length_eq_zero (by omega)
        obtain ⟨before, after, tail⟩ := t
        obtain ⟨after, rfl⟩ := Option.isSome_iff_exists.mp hafter
        obtain ⟨rfl, rfl⟩ := List.append_eq_nil_iff.mp hgroups
        obtain rfl := Option.map_eq_none_iff.mp htail
        exact hne rfl
      · exact absurd hlt (by decide)
    rw [heq, if_pos hlt, hsame]

end Knet.Http.HttpUrl
