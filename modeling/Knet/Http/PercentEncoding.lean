import Knet.Http.NormalizeIpv6

/-!
# Percent encoding

The three encoders write a character as it is when it is in the class of the mask, and else as `%`
and two digits that are looked up with the two halves of the `char`. A `char` is signed here, as
`decode` has it, which compares what `get_hex_digit` returns with `0`. So the upper half of a byte
from `0x80` on is negative, and the digit in front of the array.

Each encoder is given by what it writes for one character. That the decoder reads this back,
whatever follows, is all that the round trip of a text needs (`Reads.output`).
-/

namespace Knet.Http.HttpUrl

open Bytes Checked

/-! ## Encoders -/

/-- `c >> 4`. -/
def upperHalf (c : UInt8) : ℤ := c.toInt8.toInt >>> (4 : ℕ)

/-- `c & 0xF`. -/
def lowerHalf (c : UInt8) : ℤ := (c &&& 0xF).toNat

/-- `"0123456789ABCDEF"[i]`. -/
def digitAt : ℤ → Checked UInt8
  | .ofNat i => charAt (ofString "0123456789ABCDEF") i
  | .negSucc _ => .error .outside

/-- A character as `%` and two digits. -/
def percent (c : UInt8) : Checked (List UInt8) := do
  let a ← digitAt (upperHalf c)
  let b ← digitAt (lowerHalf c)
  return [37, a, b]

/-- What is written for the characters of a text, one after the other. -/
def output (write : UInt8 → Checked (List UInt8)) : List UInt8 → Checked (List UInt8)
  | [] => return []
  | c :: s => do
    let x ← write c
    let r ← output write s
    return x ++ r

/-- `encode` of a character. -/
def encodeChar (mask c : UInt8) : Checked (List UInt8) :=
  if isChar mask c then return [c] else percent c

/-- `encode_query_key` of a character. -/
def encodeKeyChar (mask c : UInt8) : Checked (List UInt8) :=
  if c = 32 then return [43]
  else if c = 43 then return ofString "%2B"
  else if c = 61 then return ofString "%3D"
  else if c = 38 then return ofString "%26"
  else if c = 59 then return ofString "%3B"
  else encodeChar mask c

/-- `encode_query_val` of a character. -/
def encodeValChar (mask c : UInt8) : Checked (List UInt8) :=
  if c = 32 then return [43]
  else if c = 43 then return ofString "%2B"
  else if c = 38 then return ofString "%26"
  else if c = 59 then return ofString "%3B"
  else encodeChar mask c

/-- `encode`. -/
def encode (s : List UInt8) (mask : UInt8) : Checked (List UInt8) := output (encodeChar mask) s

/-- `encode_query_key`. -/
def encodeQueryKey (s : List UInt8) (mask : UInt8) : Checked (List UInt8) :=
  output (encodeKeyChar mask) s

/-- `encode_query_val`. -/
def encodeQueryVal (s : List UInt8) (mask : UInt8) : Checked (List UInt8) :=
  output (encodeValChar mask) s

/-! ## One character -/

/-- An upper-case digit. -/
def upperDigit (d : UInt8) : UInt8 := if d < 10 then 48 + d else 55 + d

/-- `%` and the two digits of a byte. -/
def escape (c : UInt8) : List UInt8 := [37, upperDigit (c >>> 4), upperDigit (c &&& 0xF)]

/-- **The digits are found** for a byte below `0x80`. -/
theorem percent_eq : ∀ c, percent c = if c < 0x80 then .ok (escape c) else .error .outside :=
  forall_byte (by decide +kernel)

theorem escape_spec : ∀ c : UInt8, getHexDigit (upperDigit (c >>> 4)) = some (c >>> 4) ∧
    getHexDigit (upperDigit (c &&& 0xF)) = some (c &&& 0xF) ∧
      (c >>> 4) <<< 4 ||| (c &&& 0xF) = c ∧
      upperDigit (c >>> 4) ≠ 43 ∧ upperDigit (c &&& 0xF) ≠ 43 :=
  forall_byte (by decide +kernel)

/-- A text of plain characters and of `%` with two digits. -/
inductive Escaped (plain : UInt8 → Prop) : List UInt8 → Prop
  | nil : Escaped plain []
  | char {c : UInt8} {s : List UInt8} : plain c → Escaped plain s → Escaped plain (c :: s)
  | percent {a b : UInt8} {s : List UInt8} : isHexdigit a = true → isHexdigit b = true →
      Escaped plain s → Escaped plain (37 :: a :: b :: s)

/-- A decoder reads `x` as the character `c`, and then goes on. -/
def Reads (dec : List UInt8 → Option (List UInt8)) (x : List UInt8) (c : UInt8) : Prop :=
  ∀ r, dec (x ++ r) = (dec r).map (c :: ·)

/-- What an encoder writes for a character: it is read back, it is plain or escaped, and no
character of `marks` is in it. -/
structure Writes (dec : List UInt8 → Option (List UInt8)) (plain : UInt8 → Prop)
    (marks : List UInt8) (c : UInt8) (x : List UInt8) : Prop where
  reads : Reads dec x c
  escaped : ∀ s, Escaped plain s → Escaped plain (x ++ s)
  marks : ∀ m ∈ marks, m ∉ x

theorem decode_cons {c : UInt8} (hc : c ≠ 37) (r : List UInt8) :
    decode (c :: r) = (decode r).map (c :: ·) := by
  rw [decode.eq_def]
  split
  · next heq => exact absurd heq nofun
  · next heq => exact absurd (List.cons.inj heq).1 hc
  · next heq =>
    obtain ⟨rfl, rfl⟩ := List.cons.inj heq
    rw [if_neg hc]

theorem decode_percent {a b x y : UInt8} (ha : getHexDigit a = some x) (hb : getHexDigit b = some y)
    (r : List UInt8) : decode (37 :: a :: b :: r) = (decode r).map ((x <<< 4 ||| y) :: ·) := by
  rw [decode, ha, hb]

theorem reads_char {c : UInt8} (hc : c ≠ 37) : Reads decode [c] c := decode_cons hc

theorem reads_escape (c : UInt8) : Reads decode (escape c) c := by
  intro r
  obtain ⟨ha, hb, hc, -, -⟩ := escape_spec c
  rw [escape, List.cons_append, List.cons_append, List.cons_append, decode_percent ha hb, hc]
  rfl

theorem readsPlus_char {c : UInt8} (hc : c ≠ 37) (hplus : c ≠ 43) : Reads decodePlus [c] c := by
  intro r
  rw [decodePlus, List.singleton_append, List.map_cons, if_neg hplus, decode_cons hc]
  rfl

theorem readsPlus_plus : Reads decodePlus [43] 32 := by
  intro r
  rw [decodePlus, List.singleton_append, List.map_cons, if_pos rfl, decode_cons (by decide)]
  rfl

theorem readsPlus_escape (c : UInt8) : Reads decodePlus (escape c) c := by
  intro r
  obtain ⟨ha, hb, hc, ha', hb'⟩ := escape_spec c
  rw [decodePlus, escape, List.cons_append, List.cons_append, List.cons_append, List.map_cons,
    List.map_cons, List.map_cons, if_neg (by decide), if_neg ha', if_neg hb', decode_percent ha hb,
    hc]
  rfl

theorem not_mem_escape : ∀ c : UInt8, 61 ∉ escape c ∧ 38 ∉ escape c ∧ 59 ∉ escape c :=
  forall_byte (by decide +kernel)

theorem isHexdigit_of_some {c d : UInt8} (h : getHexDigit c = some d) : isHexdigit c = true := by
  rw [isHexdigit, h]
  rfl

section Character

variable {dec : List UInt8 → Option (List UInt8)} {plain : UInt8 → Prop} {marks : List UInt8}
  {mask c : UInt8}

theorem writes_char (h : Reads dec [c] c) (hplain : plain c) (hmarks : c ∉ marks) :
    Writes dec plain marks c [c] :=
  ⟨h, fun _ ↦ .char hplain, fun _ hm hmem ↦ hmarks (List.mem_singleton.mp hmem ▸ hm)⟩

theorem writes_escape (h : Reads dec (escape c) c) (hmarks : ∀ m ∈ marks, m ∈ [61, 38, 59]) :
    Writes dec plain marks c (escape c) := by
  obtain ⟨ha, hb, -⟩ := escape_spec c
  refine ⟨h, fun _ ↦ .percent (isHexdigit_of_some ha) (isHexdigit_of_some hb), fun m hm ↦ ?_⟩
  obtain ⟨h61, h38, h59⟩ := not_mem_escape c
  have hmem := hmarks m hm
  simp only [List.mem_cons, List.not_mem_nil, or_false] at hmem
  rcases hmem with rfl | rfl | rfl
  · exact h61
  · exact h38
  · exact h59

/-- A character of the class is written as it is, every other one escaped. -/
theorem writes_encodeChar (hlt : c < 0x80) (hchar : isChar mask c = true → Reads dec [c] c)
    (hescape : Reads dec (escape c) c) (hplain : isChar mask c = true → plain c)
    (hnot : c ∉ marks) (hmarks : ∀ m ∈ marks, m ∈ [61, 38, 59]) :
    ∃ x, encodeChar mask c = .ok x ∧ Writes dec plain marks c x := by
  rw [encodeChar]
  split_ifs with h
  · exact ⟨_, rfl, writes_char (hchar h) (hplain h) hnot⟩
  · rw [percent_eq, if_pos hlt]
    exact ⟨_, rfl, writes_escape hescape hmarks⟩

theorem isChar_of_le : ∀ c : UInt8, ¬c < 0x80 → ∀ mask, isChar mask c = false := by
  intro c hc mask
  rw [isChar, List.getD_eq_getElem?_getD, List.getElem?_eq_none, Option.getD_none, UInt8.zero_and]
  · rfl
  · rw [show tbl.length = 128 from rfl]
    rw [UInt8.lt_iff_toNat_lt] at hc
    exact not_lt.mp hc

theorem encodeChar_of_le (hc : ¬c < 0x80) : encodeChar mask c = .error .outside := by
  rw [encodeChar, isChar_of_le c hc, percent_eq, if_neg hc]
  rfl

end Character

/-! ## Texts -/

/-- An encoder gives a text for `s`: it is read back, it is plain or escaped, and none of `marks` is
in it. -/
def Encodes (enc : Checked (List UInt8)) (dec : List UInt8 → Option (List UInt8))
    (plain : UInt8 → Prop) (marks s : List UInt8) : Prop :=
  ∃ out, enc = .ok out ∧ dec out = some s ∧ Escaped plain out ∧ ∀ m ∈ marks, m ∉ out

section Text

variable {write : UInt8 → Checked (List UInt8)} {dec : List UInt8 → Option (List UInt8)}
  {plain : UInt8 → Prop} {marks s : List UInt8}

theorem encodes_output (hdec : dec [] = some [])
    (h : ∀ c ∈ s, ∃ x, write c = .ok x ∧ Writes dec plain marks c x) :
    Encodes (output write s) dec plain marks s := by
  induction s with
  | nil => exact ⟨[], rfl, hdec, .nil, fun _ _ ↦ List.not_mem_nil⟩
  | cons c s ih =>
    obtain ⟨x, hx, hw⟩ := h c List.mem_cons_self
    obtain ⟨r, hr, hdec', hesc, hmarks⟩ := ih fun d hd ↦ h d (List.mem_cons_of_mem _ hd)
    refine ⟨x ++ r, ?_, ?_, hw.escaped r hesc, ?_⟩
    · rw [output, hx, ok_bind, hr]
      rfl
    · rw [hw.reads, hdec']
      rfl
    · intro m hm hmem
      rcases List.mem_append.mp hmem with hmem | hmem
      · exact hw.marks m hm hmem
      · exact hmarks m hm hmem

theorem write_of_output {out : List UInt8} (h : output write s = .ok out) :
    ∀ c ∈ s, ∃ x, write c = .ok x := by
  induction s generalizing out with
  | nil => exact fun _ hc ↦ absurd hc List.not_mem_nil
  | cons c s ih =>
    obtain ⟨x, hx, hrest⟩ := bind_eq_ok.mp h
    obtain ⟨r, hr, -⟩ := bind_eq_ok.mp hrest
    intro d hd
    rcases List.mem_cons.mp hd with rfl | hd
    · exact ⟨x, hx⟩
    · exact ih hr d hd

theorem low_of_output (hhigh : ∀ c, ¬c < 0x80 → write c = .error .outside) {out : List UInt8}
    (h : output write s = .ok out) : ∀ c ∈ s, c < 0x80 := by
  intro c hc
  by_contra hnot
  obtain ⟨x, hx⟩ := write_of_output h c hc
  rw [hhigh c hnot] at hx
  cases hx

/-- **A text is encoded** when each of its characters is below `0x80`, for an encoder that finds no
digits for the others. -/
theorem encodes_iff (hdec : dec [] = some [])
    (hlow : ∀ c, c < 0x80 → ∃ x, write c = .ok x ∧ Writes dec plain marks c x)
    (hhigh : ∀ c, ¬c < 0x80 → write c = .error .outside) :
    Encodes (output write s) dec plain marks s ↔ ∀ c ∈ s, c < 0x80 := by
  constructor
  · rintro ⟨out, hout, -⟩
    exact low_of_output hhigh hout
  · exact fun h ↦ encodes_output hdec fun c hc ↦ hlow c (h c hc)

end Text

/-! ## The three encoders -/

/-- The characters that a query is written with. -/
def queryChar (c : UInt8) : Prop := isChar 0x1F c = true ∨ c = 43

/-- Percent encoding is lossless: what each encoder writes is read back, and holds no other
characters than those it is to hold. -/
structure Lossless (s : List UInt8) : Prop where
  text : ∀ mask ∈ [0x05, 0x0F, 0x1F],
    Encodes (encode s mask) decode (fun c ↦ isChar mask c = true) [] s
  key : Encodes (encodeQueryKey s 0x1F) decodePlus queryChar [61, 38, 59] s
  val : Encodes (encodeQueryVal s 0x1F) decodePlus queryChar [38, 59] s

theorem encode_iff {mask : UInt8} (h : isChar mask 37 = false) (s : List UInt8) :
    Encodes (encode s mask) decode (fun c ↦ isChar mask c = true) [] s ↔ ∀ c ∈ s, c < 0x80 := by
  -- A percent sign is in none of the classes, so it is escaped itself.
  refine encodes_iff rfl (fun c hlt ↦ ?_) fun c hc ↦ encodeChar_of_le hc
  refine writes_encodeChar hlt (fun hc ↦ reads_char ?_) (reads_escape c) id List.not_mem_nil
    fun _ hm ↦ absurd hm List.not_mem_nil
  rintro rfl
  rw [h] at hc
  exact Bool.noConfusion hc

/-- What `encode` gives for a text. -/
def encoded (s : List UInt8) (mask : UInt8) : List UInt8 :=
  s.flatMap fun c ↦ if isChar mask c then [c] else escape c

theorem encode_eq {s : List UInt8} (mask : UInt8) (h : ∀ c ∈ s, c < 0x80) :
    encode s mask = .ok (encoded s mask) := by
  induction s with
  | nil => rfl
  | cons c s ih =>
    have hc : encodeChar mask c = .ok (if isChar mask c then [c] else escape c) := by
      rw [encodeChar, percent_eq, if_pos (h c List.mem_cons_self)]
      split_ifs <;> rfl
    rw [encode] at ih
    rw [encode, output, hc, ok_bind, ih fun d hd ↦ h d (List.mem_cons_of_mem _ hd)]
    rfl

theorem encodeKeyChar_eq (mask c : UInt8) : encodeKeyChar mask c =
    if c = 61 then .ok (escape 61) else encodeValChar mask c := by
  rw [encodeKeyChar, encodeValChar]
  split_ifs with h32 h61 h43 h61 h61
  · exact absurd (h32.symm.trans h61) (by decide)
  · rfl
  · exact absurd (h43.symm.trans h61) (by decide)
  all_goals rfl

theorem writes_encodeValChar {marks : List UInt8} {c : UInt8} (hlt : c < 0x80)
    (hmarks : ∀ m ∈ marks, m ∈ [61, 38, 59]) (hnot : c ∈ marks → c = 38 ∨ c = 59) :
    ∃ x, encodeValChar 0x1F c = .ok x ∧ Writes decodePlus queryChar marks c x := by
  have hplus : 43 ∉ marks := fun hmem ↦ absurd (hmarks 43 hmem) (by decide)
  have hescape (d : UInt8) : Writes decodePlus queryChar marks d (escape d) :=
    writes_escape (readsPlus_escape d) hmarks
  -- A space becomes a plus, so a plus itself must be escaped.
  rw [encodeValChar]
  split_ifs with h32 h43 h38 h59
  · rw [h32]
    exact ⟨_, rfl, readsPlus_plus, fun _ ↦ .char (.inr rfl),
      fun _ hm hmem ↦ hplus (List.mem_singleton.mp hmem ▸ hm)⟩
  · rw [h43]
    exact ⟨_, rfl, hescape 43⟩
  · rw [h38]
    exact ⟨_, rfl, hescape 38⟩
  · rw [h59]
    exact ⟨_, rfl, hescape 59⟩
  · refine writes_encodeChar hlt (fun hc ↦ readsPlus_char ?_ h43) (readsPlus_escape c) .inl
      (fun hmem ↦ (hnot hmem).elim h38 h59) hmarks
    rintro rfl
    exact absurd hc (by decide)

theorem encodeValChar_of_le {mask c : UInt8} (hc : ¬c < 0x80) :
    encodeValChar mask c = .error .outside := by
  have hne (d : UInt8) (hd : d < 0x80) : c ≠ d := fun heq ↦ hc (heq ▸ hd)
  rw [encodeValChar, if_neg (hne 32 (by decide)), if_neg (hne 43 (by decide)),
    if_neg (hne 38 (by decide)), if_neg (hne 59 (by decide)), encodeChar_of_le hc]

theorem encodeKeyChar_of_le {mask c : UInt8} (hc : ¬c < 0x80) :
    encodeKeyChar mask c = .error .outside := by
  have hne : c ≠ 61 := by
    rintro rfl
    exact hc (by decide)
  rw [encodeKeyChar_eq, if_neg hne, encodeValChar_of_le hc]

theorem encodeQueryVal_iff (s : List UInt8) :
    Encodes (encodeQueryVal s 0x1F) decodePlus queryChar [38, 59] s ↔ ∀ c ∈ s, c < 0x80 := by
  refine encodes_iff rfl (fun c hlt ↦ ?_) fun c hc ↦ encodeValChar_of_le hc
  exact writes_encodeValChar hlt (fun m hm ↦ List.mem_cons_of_mem _ hm) fun hmem ↦ by
    simpa using hmem

theorem encodeQueryKey_iff (s : List UInt8) :
    Encodes (encodeQueryKey s 0x1F) decodePlus queryChar [61, 38, 59] s ↔ ∀ c ∈ s, c < 0x80 := by
  refine encodes_iff rfl (fun c hlt ↦ ?_) fun c hc ↦ encodeKeyChar_of_le hc
  rw [encodeKeyChar_eq]
  split_ifs with h61
  · rw [h61]
    exact ⟨_, rfl, writes_escape (readsPlus_escape 61) fun _ hm ↦ hm⟩
  · exact writes_encodeValChar hlt (fun _ hm ↦ hm) fun hmem ↦ by simpa [h61] using hmem

/-- **When percent encoding is lossless**: there is no byte from `0x80` on. -/
theorem lossless_iff (s : List UInt8) : Lossless s ↔ ∀ c ∈ s, c < 0x80 := by
  constructor
  · exact fun h ↦ (encodeQueryKey_iff s).mp h.key
  · intro h
    refine ⟨fun mask hmask ↦ (encode_iff ?_ s).mpr h, (encodeQueryKey_iff s).mpr h,
      (encodeQueryVal_iff s).mpr h⟩
    simp only [List.mem_cons, List.not_mem_nil, or_false] at hmask
    rcases hmask with rfl | rfl | rfl <;> rfl

/-- The digit in front of the array is read for the first byte of `é`. -/
theorem encode_outside : ¬∀ s, Lossless s := by
  intro h
  obtain ⟨out, hout, -⟩ := (h (ofString "é")).text 0x0F (by decide)
  have houtside : encode (ofString "é") 0x0F = .error .outside := by decide
  cases houtside.symm.trans hout

end Knet.Http.HttpUrl
