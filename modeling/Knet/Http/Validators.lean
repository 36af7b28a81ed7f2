import Knet.Http.HttpUrl
import Knet.Lib.Inet
import Knet.Utils.Url

/-!
# Addresses and ports

`is_uint` reads a number into a `uint32_t`. A number of `2 ^ 32` or more comes round again, and is
accepted if what is left of it is small enough (`isUint_eq_some_iff`); so are IPv4 addresses and
ports with such numbers.
-/

namespace Knet.Http.HttpUrl

open Inet Text

/-! ## Definitions -/

/-- The dot behind a number. -/
def dot : List UInt8 → Option (List UInt8)
  | 46 :: s => some s
  | _ => none

/-- `is_valid_ipv4`. -/
def isValidIpv4 (s : List UInt8) : Bool :=
  ((((((isUint 255 s).bind dot).bind (isUint 255)).bind dot).bind (isUint 255)).bind dot).bind
    (isUint 255) == some []

/-- The loop of `is_valid_ipv6` over `p`, where the field begins at `b`. -/
def validFields (s : List UInt8) (nullField : Bool) (nfields ndigits : ℕ) (b : List UInt8) :
    List UInt8 → Bool
  | [] =>
    let nfields := if 0 < ndigits then nfields + 1 else nfields
    if ndigits = 0 ∧ s.getLast? = some 58 then
      s.dropLast.getLast? = some 58 && nfields < 8
    else !nullField && nfields == 8 || nullField && nfields < 8
  | c :: p =>
    if c = 46 then (!nullField && nfields == 6 || nullField && nfields < 7) && isValidIpv4 b
    else if c = 58 then
      if ndigits = 0 then !nullField && validFields s true nfields 0 p p
      else validFields s nullField (nfields + 1) 0 p p
    else ndigits + 1 ≤ 4 && isHexdigit c && validFields s nullField nfields (ndigits + 1) b p

/-- `is_valid_ipv6`. -/
def isValidIpv6 (s : List UInt8) : Bool :=
  if 39 < s.length ∨ s.length < 2 then false
  else if s.head? = some 58 then
    s.tail.head? = some 58 && (s.tail.tail = [] || validFields s true 0 0 s.tail.tail s.tail.tail)
  else validFields s false 0 0 s s

/-- `HttpUrl::port()` of what is stored as the port, or `none` when it throws. -/
def portNumber (port : List UInt8) : Option UInt32 :=
  if port = [] then some 80 else (Utils.stoi port).map fun n ↦ UInt32.ofInt n

/-! ## Numbers -/

theorem foldl_wrap (ds : List UInt8) (v : ℕ) :
    ds.foldl (fun v d ↦ (v * 10 + (d.toNat - 48)) % 2 ^ 32) (v % 2 ^ 32) =
      ds.foldl (fun n d ↦ 10 * n + (d.toNat - 48)) v % 2 ^ 32 := by
  induction ds generalizing v with
  | nil => rfl
  | cons d ds ih =>
    rw [List.foldl_cons, List.foldl_cons, ← ih]
    congr 1
    omega

theorem isUint_zero (max : ℕ) (r : List UInt8) : isUint max (48 :: r) = some r := rfl

theorem isUint_digits {max : ℕ} {c : UInt8} {ds r : List UInt8} (hc : isDigit c = true)
    (hzero : c ≠ 48) (hds : ∀ d ∈ ds, isDigit d = true) (hr : ∀ d ∈ r.head?, isDigit d = false) :
    isUint max (c :: (ds ++ r)) =
      if value (c :: ds) % 2 ^ 32 ≤ max then some r else none := by
  have hr' : r.takeWhile isDigit = [] ∧ r.dropWhile isDigit = r := by
    rcases r with _ | ⟨d, r⟩
    · exact ⟨rfl, rfl⟩
    · have hd := hr d rfl
      exact ⟨List.takeWhile_cons_of_neg (by simp [hd]), List.dropWhile_cons_of_neg (by simp [hd])⟩
  have htake : (ds ++ r).takeWhile isNum = ds := by
    rw [show isNum = isDigit from rfl, List.takeWhile_append_of_pos hds, hr'.1, List.append_nil]
  have hdrop : (ds ++ r).dropWhile isNum = r := by
    rw [show isNum = isDigit from rfl, List.dropWhile_append_of_pos hds, hr'.2]
  have hlt : c.toNat - 48 < 2 ^ 32 := by have := c.toNat_lt; omega
  have hwrap := foldl_wrap ds (c.toNat - 48)
  rw [Nat.mod_eq_of_lt hlt] at hwrap
  rw [isUint, if_pos (show isNum c = true from hc), if_neg hzero, htake, hdrop, hwrap]
  simp only [value, List.foldl_cons, Nat.mul_zero, Nat.zero_add]

/-- **A number.** What is left behind a numeral whose value is small enough modulo `2 ^ 32`. -/
theorem isUint_eq_some_iff {max : ℕ} {s r : List UInt8} :
    isUint max s = some r ↔ ∃ n, decimal n ++ r = s ∧ n % 2 ^ 32 ≤ max ∧
      (n ≠ 0 → ∀ d ∈ r.head?, isDigit d = false) := by
  constructor
  · intro h
    rcases s with _ | ⟨c, t⟩
    · exact absurd h (by simp [isUint])
    · by_cases hc : isDigit c = true
      · rcases eq_or_ne c 48 with rfl | hzero
        · rw [isUint_zero, Option.some.injEq] at h
          exact ⟨0, by rw [h]; rfl, Nat.zero_le _, fun h ↦ absurd rfl h⟩
        · have hds : ∀ d ∈ t.takeWhile isDigit, isDigit d = true := fun d hd ↦
            List.mem_takeWhile_imp hd
          have hr : ∀ d ∈ (t.dropWhile isDigit).head?, isDigit d = false := by
            intro d hd
            have hnot := List.head?_dropWhile_not isDigit t
            rw [Option.mem_def.mp hd] at hnot
            exact hnot
          rw [← List.takeWhile_append_dropWhile (p := isDigit) (l := t),
            isUint_digits hc hzero hds hr] at h
          split_ifs at h with hle
          have hdec : decimal (value (c :: t.takeWhile isDigit)) = c :: t.takeWhile isDigit :=
            decimal_value (List.forall_mem_cons.mpr ⟨hc, hds⟩) (List.cons_ne_nil _ _)
              (by simpa using hzero)
          refine ⟨_, ?_, hle, fun _ ↦ ?_⟩
          · rw [hdec, ← Option.some.inj h, List.cons_append, List.takeWhile_append_dropWhile]
          · rwa [← Option.some.inj h]
      · rw [isUint, if_neg (show ¬isNum c = true from hc)] at h
        exact absurd h (Option.some_ne_none r).symm
  · rintro ⟨n, rfl, hle, hr⟩
    rcases eq_or_ne n 0 with rfl | hn
    · rfl
    · obtain ⟨c, ds, hcs⟩ := List.exists_cons_of_ne_nil (decimal_ne_nil n)
      have hdigits := isDigit_decimal (n := n)
      have hhead := head_decimal (Nat.pos_of_ne_zero hn)
      have hval := value_decimal n
      rw [hcs] at hdigits hhead hval ⊢
      rw [List.cons_append, isUint_digits (hdigits c List.mem_cons_self)
        (fun h ↦ hhead (congrArg some h)) (fun d hd ↦ hdigits d (List.mem_cons_of_mem _ hd))
        (hr hn), hval, if_pos hle]

/-- The numbers are bytes modulo `2 ^ 32`. -/
structure Wraps (q : Quad) : Prop where
  a_le : q.a % 2 ^ 32 ≤ 255
  b_le : q.b % 2 ^ 32 ≤ 255
  c_le : q.c % 2 ^ 32 ≤ 255
  d_le : q.d % 2 ^ 32 ≤ 255

theorem dot_eq_some_iff {s r : List UInt8} : dot s = some r ↔ s = 46 :: r := by
  rw [dot.eq_def]
  split
  · simp
  · next hne => exact ⟨nofun, fun h ↦ absurd h (hne r)⟩

theorem isUint_bind_dot {max : ℕ} {s r : List UInt8} :
    (isUint max s).bind dot = some r ↔ ∃ n, decimal n ++ 46 :: r = s ∧ n % 2 ^ 32 ≤ max := by
  simp only [Option.bind_eq_some_iff, dot_eq_some_iff, isUint_eq_some_iff]
  constructor
  · rintro ⟨_, ⟨n, hs, hle, -⟩, rfl⟩
    exact ⟨n, hs, hle⟩
  · rintro ⟨n, hs, hle⟩
    refine ⟨46 :: r, ⟨n, hs, hle, fun _ d hd ↦ ?_⟩, rfl⟩
    rw [← Option.some.inj hd]
    rfl

theorem isUint_eq_nil_iff {max : ℕ} {s : List UInt8} :
    isUint max s = some [] ↔ ∃ n, decimal n = s ∧ n % 2 ^ 32 ≤ max := by
  simp only [isUint_eq_some_iff, List.append_nil]
  constructor
  · rintro ⟨n, hs, hle, -⟩
    exact ⟨n, hs, hle⟩
  · rintro ⟨n, hs, hle⟩
    exact ⟨n, hs, hle, fun _ d hd ↦ by simp at hd⟩

theorem isValidIpv4_iff {s : List UInt8} :
    isValidIpv4 s = true ↔ ∃ q : Quad, Wraps q ∧ q.text = s := by
  have hdot (max : ℕ) (o : Option (List UInt8)) (r : List UInt8) :
      ((o.bind (isUint max)).bind dot) = some r ↔
        ∃ t, o = some t ∧ ∃ n, decimal n ++ 46 :: r = t ∧ n % 2 ^ 32 ≤ max := by
    rw [Option.bind_assoc, Option.bind_eq_some_iff]
    simp only [isUint_bind_dot]
  rw [isValidIpv4, beq_iff_eq, Option.bind_eq_some_iff]
  simp only [hdot, isUint_bind_dot, isUint_eq_nil_iff]
  constructor
  · rintro ⟨_, ⟨_, ⟨_, ⟨a, rfl, ha⟩, b, hb', hb⟩, c, hc', hc⟩, d, hd', hd⟩
    refine ⟨⟨a, b, c, d⟩, ⟨ha, hb, hc, hd⟩, ?_⟩
    rw [Quad.text_eq, hd', hc', hb']
  · rintro ⟨q, h, rfl⟩
    exact ⟨_, ⟨_, ⟨_, ⟨q.a, (Quad.text_eq q).symm, h.a_le⟩, q.b, rfl, h.b_le⟩, q.c, rfl, h.c_le⟩,
      q.d, rfl, h.d_le⟩

theorem isHexdigit_eq (c : UInt8) : isHexdigit c = (hexDigit c).isSome := by
  rw [isHexdigit, getHexDigit, hexDigit]
  split_ifs <;> rfl

/-- How many groups `is_valid_ipv6` lets through, with two colons and without. -/
def Fits (nullField : Bool) (n : ℕ) (tail : Option Quad) : Prop :=
  if nullField then n < (if tail.isSome then 7 else 8) else n = if tail.isSome then 6 else 8

/-- The IPv4 address at the end. Its first number is read as a group before the dot is seen. -/
structure TailOk (q : Quad) : Prop extends Wraps q where
  a_le' : q.a ≤ 255

/-- The addresses that `is_valid_ipv6` lets through. -/
structure Accepted (t : Ipv6) : Prop where
  count : Fits t.after.isSome t.groups.length t.tail
  tail : ∀ q ∈ t.tail, TailOk q

variable {s b : List UInt8} {nullField : Bool} {nfields ndigits : ℕ}

theorem validFields_digits {ds r : List UInt8} (hex : ∀ c ∈ ds, (hexDigit c).isSome = true)
    (hle : ndigits + ds.length ≤ 4) : validFields s nullField nfields ndigits b (ds ++ r) =
      validFields s nullField nfields (ndigits + ds.length) b r := by
  induction ds generalizing ndigits with
  | nil => rfl
  | cons c ds ih =>
    rw [List.length_cons] at hle ⊢
    have hc := hex c List.mem_cons_self
    have hdot : c ≠ 46 := fun h ↦ by simp [h, hexDigit_dot] at hc
    have hcolon : c ≠ 58 := fun h ↦ by simp [h, hexDigit_colon] at hc
    rw [List.cons_append, validFields, if_neg hdot, if_neg hcolon, isHexdigit_eq, hc,
      decide_eq_true (by omega), Bool.true_and, Bool.true_and,
      ih (fun d hd ↦ hex d (List.mem_cons_of_mem _ hd)) (by omega)]
    congr 1
    omega

/-- **One piece**: digits of a group, or the digits in front of the first dot of an IPv4 address. -/
theorem validFields_piece {q r : List UInt8} (hq : 58 ∉ q)
    (h : validFields s nullField nfields ndigits b (q ++ r) = true) :
    ((∀ c ∈ q, (hexDigit c).isSome = true) ∧ ndigits + q.length ≤ max ndigits 4 ∧
      validFields s nullField nfields (ndigits + q.length) b r = true) ∨
    ∃ ds q', q = ds ++ 46 :: q' ∧ ndigits + ds.length ≤ max ndigits 4 ∧
      (if nullField then nfields < 7 else nfields = 6) ∧ isValidIpv4 b = true := by
  induction q generalizing ndigits with
  | nil => exact .inl ⟨nofun, le_max_left _ _, h⟩
  | cons c q ih =>
    rw [List.mem_cons, not_or] at hq
    rw [List.cons_append, validFields] at h
    split_ifs at h with hdot hcolon
    · rw [Bool.and_eq_true] at h
      refine .inr ⟨[], q, by rw [hdot]; rfl, le_max_left _ _, ?_, h.2⟩
      rcases nullField <;> simpa using h.1
    · exact absurd hcolon.symm hq.1
    · exact absurd hcolon.symm hq.1
    · simp only [Bool.and_eq_true, decide_eq_true_eq] at h
      obtain ⟨⟨hle, hex⟩, h⟩ := h
      rw [isHexdigit_eq] at hex
      rw [List.length_cons]
      rcases ih hq.2 h with ⟨hq', hlen, hr⟩ | ⟨ds, q', rfl, hlen, hfits, hipv4⟩
      · refine .inl ⟨List.forall_mem_cons.mpr ⟨hex, hq'⟩, by omega, ?_⟩
        rwa [show ndigits + (q.length + 1) = ndigits + 1 + q.length by omega]
      · exact .inr ⟨c :: ds, q', rfl, by rw [List.length_cons]; omega, hfits, hipv4⟩

theorem tailOk_of_text {q : Quad} {ds q' : List UInt8} (h : q.text = ds ++ 46 :: q')
    (hle : ds.length ≤ 4) (hq : Wraps q) : TailOk q := by
  refine ⟨hq, ?_⟩
  have hnot := not_mem_decimal (show isDigit 46 = false from rfl) q.a
  rw [Quad.text_eq] at h
  have hpre : (decimal q.a).length ≤ ds.length := by
    by_contra hlt
    have hget := congrArg (·[ds.length]?) h
    simp only [List.getElem?_append_left (not_le.mp hlt), List.getElem?_append_right le_rfl,
      Nat.sub_self, List.getElem?_cons_zero] at hget
    exact hnot (List.mem_of_getElem? hget)
  have hlt := lt_of_length_decimal (hpre.trans hle)
  have := hq.a_le
  omega

theorem isValidIpv4_piece {q r : List UInt8} (hr : r ≠ [] → r.head? = some 58)
    (h : isValidIpv4 (q ++ r) = true) : r = [] ∧ ∃ t : Quad, Wraps t ∧ t.text = q := by
  obtain ⟨t, ht, heq⟩ := isValidIpv4_iff.mp h
  have hnil : r = [] := by
    by_contra hne
    have hmem : (58 : UInt8) ∈ t.text := by
      rw [heq]
      exact List.mem_append_right _ (List.mem_of_head? (hr hne))
    rcases Quad.mem_text hmem with h | h
    · exact absurd h (by decide)
    · exact absurd h (by decide)
  rw [hnil, List.append_nil] at heq
  exact ⟨hnil, t, ht, heq⟩

/-- An IPv4 address as a piece. -/
abbrev quadPieces (tail : Option Quad) : List (List UInt8) := (tail.map Quad.text).toList

theorem validFields_end (hpos : 0 < ndigits) : validFields s nullField nfields ndigits b [] = true ↔
    Fits nullField (nfields + 1) none := by
  rw [validFields, if_neg (by simp [Nat.ne_of_gt hpos]), if_pos hpos, Fits]
  rcases nullField <;> simp

theorem validFields_colon (hpos : 0 < ndigits) (p : List UInt8) :
    validFields s nullField nfields ndigits b (58 :: p) =
      validFields s nullField (nfields + 1) 0 p p := by
  rw [validFields, if_neg (by decide), if_pos rfl, if_neg (Nat.ne_of_gt hpos)]

/-- **The pieces up to the first empty one.** -/
theorem validFields_pieces {ps : List (List UInt8)} (hne : ps ≠ []) (hcolon : ∀ p ∈ ps, 58 ∉ p)
    (hsuf : [58].intercalate ps <:+ s) (hend : ps = [[]] → s.getLast? = some 58)
    (h : validFields s nullField nfields 0 ([58].intercalate ps) ([58].intercalate ps) = true) :
    (∃ (gs : List Group) (tail : Option Quad), ps = gs.map Group.digits ++ quadPieces tail ∧
      Fits nullField (nfields + gs.length) tail ∧ ∀ q ∈ tail, TailOk q) ∨
    ∃ (gs : List Group) (rest : List (List UInt8)), ps = gs.map Group.digits ++ [] :: rest ∧
      (rest = [] ∧ s.dropLast.getLast? = some 58 ∧ nfields + gs.length < 8 ∨
        rest ≠ [] ∧ nullField = false ∧ validFields s true (nfields + gs.length) 0
          ([58].intercalate rest) ([58].intercalate rest) = true) := by
  induction ps generalizing nfields with
  | nil => exact absurd rfl hne
  | cons q ps ih =>
    have hq := hcolon q List.mem_cons_self
    -- A piece ends at a colon or with the text; an empty one is half of two colons.
    rcases eq_or_ne ps [] with rfl | hps
    · -- the last piece
      rw [List.intercalate_singleton] at h
      rcases validFields_piece hq (r := []) (by rwa [List.append_nil]) with
        ⟨hex, hlen, hr⟩ | ⟨ds, q', hsplit, hlen, hfits, hipv4⟩
      · rw [Nat.zero_add] at hlen hr
        rcases eq_or_ne q [] with rfl | hqne
        · rw [List.length_nil, validFields, if_pos ⟨rfl, hend rfl⟩, Bool.and_eq_true] at hr
          exact .inr ⟨[], [], rfl, .inl ⟨rfl, by simpa using hr.1, by simpa using hr.2⟩⟩
        · rw [validFields_end (List.length_pos_iff.mpr hqne)] at hr
          exact .inl ⟨[⟨q, hqne, by omega, hex⟩], none, rfl, hr, nofun⟩
      · obtain ⟨-, u, hu, rfl⟩ := isValidIpv4_piece (r := []) (fun h ↦ absurd rfl h)
          (by rwa [List.append_nil])
        refine .inl ⟨[], some u, rfl, hfits, ?_⟩
        rintro _ ⟨⟩
        exact tailOk_of_text hsplit (by omega) hu
    · -- a colon follows
      rw [List.intercalate_cons_of_ne_nil hps, List.append_assoc, List.singleton_append] at h hsuf
      rcases validFields_piece hq h with ⟨hex, hlen, hr⟩ | ⟨ds, q', hsplit, hlen, hfits, hipv4⟩
      · rw [Nat.zero_add] at hlen hr
        rcases eq_or_ne q [] with rfl | hqne
        · rw [List.length_nil, validFields, if_neg (by decide), if_pos rfl, if_pos rfl,
            Bool.and_eq_true] at hr
          exact .inr ⟨[], ps, rfl, .inr ⟨hps, by simpa using hr.1, hr.2⟩⟩
        · rw [validFields_colon (List.length_pos_iff.mpr hqne)] at hr
          have hsuf' : 58 :: [58].intercalate ps <:+ s := (List.suffix_append _ _).trans hsuf
          have hend' : ps = [[]] → s.getLast? = some 58 := by
            rintro rfl
            obtain ⟨pre, rfl⟩ := hsuf'
            rw [List.intercalate_singleton, List.getLast?_concat]
          -- A group has been read, so the pieces behind it are read with one more.
          let g : Group := ⟨q, hqne, by omega, hex⟩
          have hlength (gs : List Group) :
              nfields + (g :: gs).length = nfields + 1 + gs.length := by
            rw [List.length_cons]; omega
          rcases ih hps (fun p hp ↦ hcolon p (List.mem_cons_of_mem _ hp))
            ((List.suffix_cons _ _).trans hsuf') hend' hr with
            ⟨gs, tail, rfl, hfits, htail⟩ | ⟨gs, rest, rfl, hrest⟩
          · exact .inl ⟨g :: gs, tail, rfl, by rwa [hlength], htail⟩
          · exact .inr ⟨g :: gs, rest, rfl, by rwa [hlength]⟩
      -- An IPv4 address takes all that is left, so no colon follows it.
      · exact absurd (isValidIpv4_piece (fun _ ↦ rfl) hipv4).1 (List.cons_ne_nil _ _)

theorem hexDigit_of_isDigit {c : UInt8} (h : isDigit c = true) : (hexDigit c).isSome = true := by
  rw [hexDigit, if_pos (by simpa [isDigit] using h)]
  rfl

theorem validFields_run {gs : List Group} {tail : Option Quad}
    (hne : gs.map Group.digits ++ quadPieces tail ≠ [])
    (hfits : Fits nullField (nfields + gs.length) tail) (htail : ∀ q ∈ tail, TailOk q) :
    validFields s nullField nfields 0 ([58].intercalate (gs.map Group.digits ++ quadPieces tail))
      ([58].intercalate (gs.map Group.digits ++ quadPieces tail)) = true := by
  induction gs generalizing nfields with
  | nil =>
    rcases tail with _ | q
    · exact absurd rfl hne
    · have hq := htail q rfl
      have hvalid : isValidIpv4 q.text = true := isValidIpv4_iff.mpr ⟨q, hq.toWraps, rfl⟩
      have hlen : (decimal q.a).length ≤ 3 := length_decimal_le (by have := hq.a_le'; omega)
      simp only [List.map_nil, List.nil_append, quadPieces, Option.map_some, Option.toList_some,
        List.intercalate_singleton]
      nth_rewrite 2 [Quad.text_eq]
      rw [validFields_digits (fun c hc ↦ hexDigit_of_isDigit (isDigit_decimal c hc)) (by omega),
        validFields, if_pos rfl, hvalid, Bool.and_true]
      rcases nullField <;> simpa [Fits] using hfits
  | cons g gs ih =>
    rw [List.map_cons, List.cons_append]
    have hg : 0 < 0 + g.digits.length := by
      have := List.length_pos_iff.mpr g.ne_nil
      omega
    have hle : 0 + g.digits.length ≤ 4 := by rw [Nat.zero_add]; exact g.length_le
    rcases eq_or_ne (gs.map Group.digits ++ quadPieces tail) [] with hnil | hps
    · obtain ⟨hgs, hquad⟩ := List.append_eq_nil_iff.mp hnil
      rw [List.map_eq_nil_iff] at hgs
      rw [Option.toList_eq_nil_iff, Option.map_eq_none_iff] at hquad
      subst hgs hquad
      rw [hnil, List.intercalate_singleton]
      nth_rewrite 2 [← List.append_nil g.digits]
      rw [validFields_digits g.isHex hle]
      exact (validFields_end hg).mpr hfits
    · rw [List.intercalate_cons_of_ne_nil hps, List.append_assoc, List.singleton_append,
        validFields_digits g.isHex hle, validFields_colon hg]
      apply ih hps
      rwa [List.length_cons, Nat.add_comm gs.length, ← Nat.add_assoc] at hfits

theorem validFields_before {gs : List Group} (hgs : gs ≠ []) (r : List UInt8) :
    validFields s false nfields 0 ([58].intercalate (gs.map Group.digits) ++ 58 :: 58 :: r)
      ([58].intercalate (gs.map Group.digits) ++ 58 :: 58 :: r) =
        validFields s true (nfields + gs.length) 0 r r := by
  induction gs generalizing nfields with
  | nil => exact absurd rfl hgs
  | cons g gs ih =>
    have hg : 0 < 0 + g.digits.length := by
      have := List.length_pos_iff.mpr g.ne_nil
      omega
    have hle : 0 + g.digits.length ≤ 4 := by rw [Nat.zero_add]; exact g.length_le
    rcases eq_or_ne gs [] with rfl | hgs'
    · rw [List.map_cons, List.map_nil, List.intercalate_singleton, validFields_digits g.isHex hle,
        validFields_colon hg, validFields, if_neg (by decide), if_pos rfl, if_pos rfl]
      rfl
    · rw [List.map_cons, List.intercalate_cons_of_ne_nil (by simpa using hgs'), List.append_assoc,
        List.append_assoc, List.singleton_append, validFields_digits g.isHex hle,
        validFields_colon hg, ih hgs']
      congr 1
      rw [List.length_cons]
      omega

theorem Accepted.two_groups {t : Ipv6} (h : Accepted t) (hafter : t.after = none) :
    ∃ g g' gs, t.before = g :: g' :: gs := by
  obtain ⟨before, after, tail⟩ := t
  obtain rfl : after = none := hafter
  have hfits := h.count
  rw [Ipv6.groups, Option.getD_none, List.append_nil, Option.isSome_none, Fits,
    if_neg (by decide)] at hfits
  rcases before with _ | ⟨g, _ | ⟨g', gs⟩⟩
  · split_ifs at hfits
  · split_ifs at hfits <;> simp at hfits
  · exact ⟨g, g', gs, rfl⟩

theorem Accepted.before_ne_nil {t : Ipv6} (h : Accepted t) (hafter : t.after = none) :
    t.before ≠ [] := by
  obtain ⟨g, g', gs, hbefore⟩ := h.two_groups hafter
  rw [hbefore]
  exact List.cons_ne_nil _ _

theorem getLast?_dropLast_groups {gs : List Group} (hgs : gs ≠ []) (pre : List UInt8) :
    (pre ++ [58].intercalate (gs.map Group.digits ++ [[]])).dropLast.getLast? ≠ some 58 := by
  have hnil : ([] : List UInt8) ∉ gs.map Group.digits := fun h ↦
    Ipv6.nil_not_mem_run (t := ⟨[], none, none⟩) (List.mem_append_left _ h)
  have hcolon : ∀ p ∈ gs.map Group.digits, (58 : UInt8) ∉ p := fun p hp ↦
    Ipv6.colon_not_mem_run (t := ⟨[], none, none⟩) p (List.mem_append_left _ hp)
  have hmap : gs.map Group.digits ≠ [] := by simpa using hgs
  rw [intercalate_append 58 hmap (List.cons_ne_nil _ _), List.intercalate_singleton,
    ← List.append_assoc, List.dropLast_concat,
    List.getLast?_append_of_ne_nil _ (intercalate_ne_nil 58 hmap hnil)]
  exact getLast?_intercalate 58 hnil hcolon

theorem exists_behind {pre r : List UInt8} (hs : s = pre ++ 58 :: 58 :: r)
    (h : r = [] ∧ nfields < 8 ∨ validFields s true nfields 0 r r = true) :
    ∃ (gs : List Group) (tail : Option Quad),
      [58].intercalate (gs.map Group.digits ++ quadPieces tail) = r ∧
        Fits true (nfields + gs.length) tail ∧ ∀ q ∈ tail, TailOk q := by
  rcases h with ⟨rfl, hlt⟩ | h
  · exact ⟨[], none, rfl, hlt, nofun⟩
  have hjoin : [58].intercalate (r.splitOn 58) = r := List.intercalate_splitOn 58
  have hsuf : [58].intercalate (r.splitOn 58) <:+ s := by
    rw [hjoin, hs]
    exact ((List.suffix_cons _ _).trans (List.suffix_cons _ _)).trans (List.suffix_append _ _)
  -- Nothing behind the two colons means that the text ends with them.
  have hend : r.splitOn 58 = [[]] → s.getLast? = some 58 := by
    intro hsplit
    rw [hsplit] at hjoin
    rw [hs, ← hjoin]
    simp
  rw [← hjoin] at h
  rcases validFields_pieces (List.splitOn_ne_nil 58 r) (not_mem_of_mem_splitOn 58) hsuf hend h with
    ⟨gs, tail, hps, hfits, htail⟩ | ⟨gs, rest, hps, ⟨rfl, hlast, hlt⟩ | ⟨-, hfalse, -⟩⟩
  · exact ⟨gs, tail, by rw [← hps, hjoin], hfits, htail⟩
  · rcases eq_or_ne gs [] with rfl | hgs
    · refine ⟨[], none, ?_, hlt, nofun⟩
      rw [← hjoin, hps]
      rfl
    · rw [hps] at hjoin
      rw [hs, ← hjoin, show pre ++ 58 :: 58 :: [58].intercalate (gs.map Group.digits ++ [[]]) =
        (pre ++ [58, 58]) ++ [58].intercalate (gs.map Group.digits ++ [[]]) by simp] at hlast
      exact absurd hlast (getLast?_dropLast_groups hgs _)
  · exact absurd hfalse (by decide)

theorem exists_accepted (h : isValidIpv6 s = true) : ∃ t : Ipv6, Accepted t ∧ t.text = s := by
  rw [isValidIpv6] at h
  split_ifs at h with hlen hhead
  · -- two colons at the front
    obtain ⟨c, p, rfl⟩ := List.exists_cons_of_ne_nil (fun hnil : s = [] ↦ by simp [hnil] at hhead)
    rw [Bool.and_eq_true, List.tail_cons, decide_eq_true_eq] at h
    obtain ⟨d, r, rfl⟩ := List.exists_cons_of_ne_nil (fun hnil : p = [] ↦ by simp [hnil] at h)
    obtain rfl := Option.some.inj hhead
    obtain rfl := Option.some.inj h.1
    have hr : r = [] ∧ 0 < 8 ∨ validFields (58 :: 58 :: r) true 0 0 r r = true := by
      rw [Bool.or_eq_true, decide_eq_true_eq] at h
      exact h.2.imp_left fun hr ↦ ⟨hr, by decide⟩
    obtain ⟨gs, tail, rfl, hfits, htail⟩ := exists_behind (List.nil_append _).symm hr
    rw [Nat.zero_add] at hfits
    exact ⟨⟨[], some gs, tail⟩, ⟨hfits, htail⟩, rfl⟩
  · have hjoin : [58].intercalate (s.splitOn 58) = s := List.intercalate_splitOn 58
    have hend : s.splitOn 58 = [[]] → s.getLast? = some 58 := by
      intro hsplit
      rw [hsplit, List.intercalate_singleton] at hjoin
      rw [← hjoin] at hlen
      exact absurd (Or.inr (by decide)) hlen
    have hpieces : validFields s false 0 0 ([58].intercalate (s.splitOn 58))
        ([58].intercalate (s.splitOn 58)) = true := by rwa [hjoin]
    rcases validFields_pieces (List.splitOn_ne_nil 58 s) (not_mem_of_mem_splitOn 58)
        (hjoin.symm ▸ List.suffix_rfl) hend hpieces with
      ⟨gs, tail, hps, hfits, htail⟩ | ⟨gs, rest, hps, hrest⟩
    · rw [Nat.zero_add] at hfits
      exact ⟨⟨gs, none, tail⟩, ⟨by simpa [Ipv6.groups] using hfits, htail⟩,
        by rw [← hjoin, hps]; rfl⟩
    · rw [hps] at hjoin
      rcases eq_or_ne gs [] with rfl | hgs
      · -- an empty piece at the front
        rcases eq_or_ne rest [] with rfl | hne
        · rw [← hjoin] at hlen
          exact absurd (Or.inr (by decide)) hlen
        · rw [← hjoin, List.map_nil, List.nil_append, List.intercalate_cons_of_ne_nil hne] at hhead
          exact absurd rfl hhead
      · rcases hrest with ⟨rfl, hlast, -⟩ | ⟨hne, -, hr⟩
        · rw [← hjoin] at hlast
          exact absurd hlast (getLast?_dropLast_groups hgs [])
        · rw [intercalate_append 58 (by simpa using hgs) (List.cons_ne_nil _ _),
            List.intercalate_cons_of_ne_nil hne, List.nil_append, List.singleton_append] at hjoin
          obtain ⟨gs', tail, hr', hfits, htail⟩ := exists_behind hjoin.symm (.inr hr)
          refine ⟨⟨gs, some gs', tail⟩, ⟨?_, htail⟩, ?_⟩
          · simpa [Ipv6.groups] using hfits
          · rw [← hjoin, ← hr']
            rfl

theorem two_le_length_intercalate {p q : List UInt8} (hp : p ≠ []) (ps : List (List UInt8)) :
    2 ≤ ([58].intercalate (p :: q :: ps)).length := by
  have := List.length_pos_iff.mpr hp
  rw [List.intercalate_cons_cons, List.length_append, List.length_append, List.length_singleton]
  omega

theorem isValidIpv6_of_accepted {t : Ipv6} (h : Accepted t) (hlen : t.text.length ≤ 39) :
    isValidIpv6 t.text = true := by
  obtain ⟨before, after, tail⟩ := t
  have hnil (gs : List Group) : ([] : List UInt8) ∉ gs.map Group.digits ++ quadPieces tail :=
    Ipv6.nil_not_mem_run (t := ⟨before, after, tail⟩)
  have hcolon (gs : List Group) : ∀ p ∈ gs.map Group.digits ++ quadPieces tail, (58 : UInt8) ∉ p :=
    Ipv6.colon_not_mem_run (t := ⟨before, after, tail⟩)
  have hfits := h.count
  rcases after with _ | after
  · -- no two colons
    have htext : Ipv6.text ⟨before, none, tail⟩ =
      [58].intercalate (before.map Group.digits ++ quadPieces tail) := rfl
    have hcount : Fits false (0 + before.length) tail := by
      simpa [Ipv6.groups] using hfits
    obtain ⟨g, g', gs, rfl⟩ := h.two_groups rfl
    have htwo := two_le_length_intercalate g.ne_nil (q := g'.digits)
      (gs.map Group.digits ++ quadPieces tail)
    rw [htext] at hlen ⊢
    rw [isValidIpv6, if_neg (by simp only [List.map_cons, List.cons_append] at hlen ⊢; omega),
      if_neg (head?_intercalate 58 (hnil _) (hcolon _))]
    exact validFields_run (by simp) hcount h.tail
  · have htext : Ipv6.text ⟨before, some after, tail⟩ =
        [58].intercalate (before.map Group.digits) ++
          58 :: 58 :: [58].intercalate (after.map Group.digits ++ quadPieces tail) := rfl
    have hcount : Fits true (before.length + after.length) tail := by
      simpa [Ipv6.groups] using hfits
    rw [htext] at hlen ⊢
    rw [isValidIpv6, if_neg (by simp only [List.length_append, List.length_cons] at hlen ⊢; omega)]
    rcases eq_or_ne before [] with rfl | hbefore
    · rw [List.map_nil, List.intercalate_nil, List.nil_append, List.head?_cons, if_pos rfl]
      rcases eq_or_ne (after.map Group.digits ++ quadPieces tail) [] with hrun | hrun
      · rw [hrun]
        rfl
      · rw [List.length_nil] at hcount
        rw [List.tail_cons, List.head?_cons, List.tail_cons, validFields_run hrun hcount h.tail]
        exact Bool.or_true _
    · have hmap : before.map Group.digits ≠ [] := by simpa using hbefore
      have hnil' : ([] : List UInt8) ∉ before.map Group.digits := fun hmem ↦
        hnil before (List.mem_append_left _ hmem)
      rw [if_neg, validFields_before hbefore]
      · rw [Nat.zero_add]
        rcases eq_or_ne (after.map Group.digits ++ quadPieces tail) [] with hrun | hrun
        · obtain ⟨hafter, hquad⟩ := List.append_eq_nil_iff.mp hrun
          rw [Option.toList_eq_nil_iff, Option.map_eq_none_iff] at hquad
          rw [hquad, List.map_eq_nil_iff.mp hafter] at hcount
          rw [hrun, List.intercalate_nil, validFields, if_pos ⟨rfl, by simp⟩,
            List.dropLast_append_of_ne_nil (by simp)]
          simpa [Fits] using hcount
        · exact validFields_run hrun hcount h.tail
      · rw [List.head?_append_of_ne_nil _ (intercalate_ne_nil 58 hmap hnil')]
        exact head?_intercalate 58 hnil' fun p hp ↦ hcolon before p (List.mem_append_left _ hp)

theorem isValidIpv6_iff :
    isValidIpv6 s = true ↔ s.length ≤ 39 ∧ ∃ t : Ipv6, Accepted t ∧ t.text = s := by
  constructor
  · intro h
    refine ⟨?_, exists_accepted h⟩
    rw [isValidIpv6] at h
    split_ifs at h with hlen
    all_goals omega
  · rintro ⟨hlen, t, ht, rfl⟩
    exact isValidIpv6_of_accepted ht hlen

/-! ## The grammars -/

/-- The validators accept exactly the texts of addresses and ports, and the number of an accepted
port is read. -/
structure Exact (s : List UInt8) : Prop where
  ipv4 : isValidIpv4 s = true ↔ IsIpv4 s
  port : isPort s = true ↔ IsNumber 65535 s
  ipv6 : isValidIpv6 s = true ↔ IsIpv6 s
  number : isPort s = true → (portNumber s).isSome = true

theorem wraps_of_valid {q : Quad} (h : q.Valid) : Wraps q :=
  ⟨(Nat.mod_le _ _).trans h.a_le, (Nat.mod_le _ _).trans h.b_le, (Nat.mod_le _ _).trans h.c_le,
    (Nat.mod_le _ _).trans h.d_le⟩

theorem accepted_of_counted {t : Ipv6} (h : t.Counted) (htail : ∀ q ∈ t.tail, TailOk q) :
    Accepted t := by
  refine ⟨?_, htail⟩
  rw [Ipv6.Counted, Ipv6.width] at h
  rw [Fits]
  split_ifs at h ⊢ <;> omega

theorem accepted_of_valid {t : Ipv6} (h : t.Valid) : Accepted t :=
  accepted_of_counted h.counted fun q hq ↦ ⟨wraps_of_valid (h.tail q hq), (h.tail q hq).a_le⟩

/-- The count is that of an address, except for two colons beside six groups. -/
theorem Accepted.counted {t : Ipv6} (h : Accepted t)
    (hsix : t.after.isSome → t.tail.isSome → t.groups.length ≠ 6) : t.Counted := by
  have hcount := h.count
  rw [Fits] at hcount
  rw [Ipv6.Counted, Ipv6.width]
  split_ifs at hcount ⊢ with hafter htail
  · have hne := hsix hafter htail
    omega
  all_goals omega

end Knet.Http.HttpUrl
