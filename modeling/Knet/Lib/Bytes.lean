import Mathlib.Algebra.Group.Nat.Defs
import Mathlib.Data.List.Basic

/-!
# Numbers and texts as bytes

Fixed-width unsigned numbers as they lie in memory, least significant byte first or last. Encoding
keeps the number modulo `256 ^ width`, as a conversion to an unsigned integer type does. A text is
its encoding in UTF-8.
-/

namespace Bytes

/-- The `width` low bytes of `n`, least significant first. -/
def toLittle : ℕ → ℕ → List UInt8
  | 0, _ => []
  | width + 1, n => UInt8.ofNat n :: toLittle width (n / 256)

/-- The number whose bytes these are, least significant first. -/
def ofLittle : List UInt8 → ℕ
  | [] => 0
  | b :: bs => b.toNat + 256 * ofLittle bs

/-- The `width` low bytes of `n`, most significant first. -/
def toBig (width n : ℕ) : List UInt8 := (toLittle width n).reverse

/-- The number whose bytes these are, most significant first. -/
def ofBig (bs : List UInt8) : ℕ := ofLittle bs.reverse

/-- The bytes of a text, in UTF-8. -/
def ofString (text : String) : List UInt8 := text.toUTF8.data.toList

@[simp] theorem length_toLittle (width n : ℕ) : (toLittle width n).length = width := by
  induction width generalizing n with
  | zero => rfl
  | succ width ih => rw [toLittle, List.length_cons, ih]

@[simp] theorem length_toBig (width n : ℕ) : (toBig width n).length = width := by
  rw [toBig, List.length_reverse, length_toLittle]

/-- What is read back is the number modulo the range of the type. -/
theorem ofLittle_toLittle (width n : ℕ) : ofLittle (toLittle width n) = n % 256 ^ width := by
  induction width generalizing n with
  | zero => rw [Nat.pow_zero, Nat.mod_one, toLittle, ofLittle]
  | succ width ih =>
    have hbyte : (UInt8.ofNat n).toNat = n % 256 := UInt8.toNat_ofNat'
    rw [toLittle, ofLittle, ih, hbyte, Nat.pow_succ, Nat.mul_comm (256 ^ width), Nat.mod_mul]

theorem ofBig_toBig (width n : ℕ) : ofBig (toBig width n) = n % 256 ^ width := by
  rw [ofBig, toBig, List.reverse_reverse, ofLittle_toLittle]

theorem ofLittle_lt (bs : List UInt8) : ofLittle bs < 256 ^ bs.length := by
  induction bs with
  | nil => exact Nat.one_pos
  | cons b bs ih =>
    have hb : b.toNat < 256 := b.toNat_lt
    rw [ofLittle, List.length_cons, Nat.pow_succ]
    omega

theorem ofBig_lt (bs : List UInt8) : ofBig bs < 256 ^ bs.length := by
  have h := ofLittle_lt bs.reverse
  rwa [List.length_reverse] at h

theorem forall_byte {p : UInt8 → Prop} (h : ∀ n < 256, p (UInt8.ofNat n)) (c : UInt8) : p c := by
  have hc := h c.toNat c.toNat_lt
  rwa [UInt8.ofNat_toNat] at hc

end Bytes
