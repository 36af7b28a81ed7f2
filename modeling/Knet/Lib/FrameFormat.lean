import Knet.Lib.Bytes

/-!
# The frame format of the WebSocket protocol

A frame is a byte with the final flag and the opcode, a byte with the mask flag and seven bits of
length, an extended length of no, two or eight bytes in big-endian order, the mask key when the flag
is set, and the payload. A writer takes the shortest of the three forms of the length; a reader
meets them all.

`declared` is what the head of a sequence of bytes says about the frame it belongs to.
-/

namespace FrameFormat

/-- The forms of the length. -/
inductive Form
  | bits7
  | bits16
  | bits64
  deriving DecidableEq, Repr

namespace Form

/-- The number of bytes of the extended length. -/
def size : Form → ℕ
  | bits7 => 0
  | bits16 => 2
  | bits64 => 8

/-- The lengths that can be written in the form are those below its limit. -/
def limit : Form → ℕ
  | bits7 => 126
  | bits16 => 2 ^ 16
  | bits64 => 2 ^ 64

/-- The seven bits of length. -/
def mark : Form → ℕ → ℕ
  | bits7, n => n
  | bits16, _ => 126
  | bits64, _ => 127

/-- The form that a writer takes. -/
def shortest (n : ℕ) : Form := if n < 126 then bits7 else if n < 2 ^ 16 then bits16 else bits64

theorem mark_lt {form : Form} {n : ℕ} (h : n < form.limit) : form.mark n < 128 := by
  cases form with
  | bits7 => exact Nat.lt_trans h (by decide)
  | bits16 => exact (by decide : 126 < 128)
  | bits64 => exact (by decide : 127 < 128)

end Form

/-- A frame. -/
structure Frame where
  /-- The final flag, the reserved bits and the opcode. -/
  first : UInt8
  form : Form
  key : Option (Vector UInt8 4)
  /-- The payload as it is transmitted, masked if there is a key. -/
  data : List UInt8
  /-- The length can be written in the form. -/
  fits : data.length < form.limit

/-- The mask key in the frame. -/
def keyBytes (key : Option (Vector UInt8 4)) : List UInt8 := (key.map Vector.toList).getD []

/-- The mask flag. -/
def maskBit (key : Option (Vector UInt8 4)) : UInt8 := if key.isSome then 0x80 else 0

/-- The head of a frame with a payload of `n` bytes. -/
def head (first : UInt8) (form : Form) (key : Option (Vector UInt8 4)) (n : ℕ) : List UInt8 :=
  first :: (UInt8.ofNat (form.mark n) ||| maskBit key)
    :: (Bytes.toBig form.size n ++ keyBytes key)

/-- The bytes of a frame. -/
def Frame.bytes (f : Frame) : List UInt8 := head f.first f.form f.key f.data.length ++ f.data

@[simp] theorem length_keyBytes (key : Option (Vector UInt8 4)) :
    (keyBytes key).length = if key.isSome then 4 else 0 := by
  cases key with
  | none => rfl
  | some key => simp [keyBytes]

@[simp] theorem length_head (first : UInt8) (form : Form) (key : Option (Vector UInt8 4)) (n : ℕ) :
    (head first form key n).length = 2 + form.size + if key.isSome then 4 else 0 := by
  rw [head, List.length_cons, List.length_cons, List.length_append, Bytes.length_toBig,
    length_keyBytes]
  omega

/-! ## Reading the head -/

/-- The seven bits of length in the second byte. -/
def markOf (b : UInt8) : ℕ := (b &&& 0x7f).toNat

/-- The mask flag in the second byte. -/
def maskedOf (b : UInt8) : Bool := b &&& 0x80 == 0x80

/-- The form that the second byte announces. -/
def formOf (b : UInt8) : Form :=
  if markOf b < 126 then .bits7 else if markOf b = 126 then .bits16 else .bits64

/-- The length of the payload, read from the second byte and what follows it. -/
def lengthOf (b : UInt8) (rest : List UInt8) : ℕ :=
  match formOf b with
  | .bits7 => markOf b
  | form => Bytes.ofBig (rest.take form.size)

/-- The length of the head that the second byte announces. -/
def headOf (b : UInt8) : ℕ := 2 + (formOf b).size + if maskedOf b then 4 else 0

/-- The length of the frame at the head of some bytes, when its length field is complete. -/
def declared : List UInt8 → Option ℕ
  | _ :: b :: rest =>
    if (formOf b).size ≤ rest.length then some (headOf b + lengthOf b rest) else none
  | _ => none

theorem lengthOf_lt {b : UInt8} {rest : List UInt8} (h : (formOf b).size ≤ rest.length) :
    lengthOf b rest < (formOf b).limit := by
  have hlen : (rest.take (formOf b).size).length = (formOf b).size := List.length_take_of_le h
  have hbig := Bytes.ofBig_lt (rest.take (formOf b).size)
  rw [hlen] at hbig
  rw [lengthOf]
  cases hform : formOf b with
  | bits7 =>
    rw [formOf] at hform
    split_ifs at hform with hs hm
    exact hs
  | bits16 =>
    rw [hform] at hbig
    exact hbig
  | bits64 =>
    rw [hform] at hbig
    exact hbig

theorem lengthOf_take {b : UInt8} {k : ℕ} (h : (formOf b).size ≤ k) (rest : List UInt8) :
    lengthOf b (rest.take k) = lengthOf b rest := by
  rw [lengthOf, lengthOf]
  cases hform : formOf b with
  | bits7 => rfl
  | bits16 =>
    rw [hform] at h
    dsimp only
    rw [List.take_take, Nat.min_eq_left h]
  | bits64 =>
    rw [hform] at h
    dsimp only
    rw [List.take_take, Nat.min_eq_left h]

theorem headOf_le (b : UInt8) : headOf b ≤ 14 := by
  rw [headOf]
  cases formOf b <;> simp only [Form.size] <;> split_ifs <;> omega

/-- No frame declares more than a head and `2 ^ 64 - 1` bytes. -/
theorem declared_lt {d : List UInt8} {n : ℕ} (hd : declared d = some n) : n < 2 ^ 64 + 14 := by
  match d with
  | a :: b :: rest =>
    simp only [declared, Option.ite_none_right_eq_some, Option.some.injEq] at hd
    obtain ⟨hsize, rfl⟩ := hd
    have hlt := lengthOf_lt hsize
    have hhead := headOf_le b
    have hlimit : (formOf b).limit ≤ 2 ^ 64 := by cases formOf b <;> decide
    omega
  | [_] => exact absurd hd (by simp [declared])
  | [] => exact absurd hd (by simp [declared])

theorem exists_declared {d : List UInt8} (h : 10 ≤ d.length) : ∃ n, declared d = some n := by
  match d, h with
  | _ :: b :: rest, h =>
    have hsize : (formOf b).size ≤ rest.length := by
      have hle : (formOf b).size ≤ 8 := by cases formOf b <;> decide
      rw [List.length_cons, List.length_cons] at h
      omega
    exact ⟨headOf b + lengthOf b rest, if_pos hsize⟩

theorem declared_take {d : List UInt8} {n : ℕ} (hd : declared d = some n) (hn : n ≤ d.length) :
    declared (d.take n) = some n := by
  match d with
  | a :: b :: rest =>
    simp only [declared, Option.ite_none_right_eq_some, Option.some.injEq] at hd
    obtain ⟨hsize, rfl⟩ := hd
    obtain ⟨k, hk⟩ : ∃ k, headOf b + lengthOf b rest = k + 2 :=
      Nat.exists_eq_add_of_le' (by rw [headOf]; omega)
    have hsize' : (formOf b).size ≤ k := by
      rw [headOf] at hk
      omega
    rw [hk, List.take_succ_cons, List.take_succ_cons, declared, lengthOf_take hsize', hk,
      if_pos (by rw [List.length_take]; omega)]
  | [_] => exact absurd hd (by simp [declared])
  | [] => exact absurd hd (by simp [declared])

theorem second_byte {n : ℕ} (h : n < 128) (key : Option (Vector UInt8 4)) :
    markOf (UInt8.ofNat n ||| maskBit key) = n
      ∧ maskedOf (UInt8.ofNat n ||| maskBit key) = key.isSome := by
  have hplain : ∀ n < 128, markOf (UInt8.ofNat n ||| 0) = n
      ∧ maskedOf (UInt8.ofNat n ||| 0) = false := by decide
  have hmasked : ∀ n < 128, markOf (UInt8.ofNat n ||| 0x80) = n
      ∧ maskedOf (UInt8.ofNat n ||| 0x80) = true := by decide
  cases key with
  | none => exact hplain n h
  | some key => exact hmasked n h

theorem formOf_of_mark {b : UInt8} {form : Form} {n : ℕ} (hn : n < form.limit)
    (hb : markOf b = form.mark n) : formOf b = form := by
  rw [formOf, hb]
  cases form with
  | bits7 => exact if_pos hn
  | bits16 => rfl
  | bits64 => rfl

/-- The length is read back from the head of a frame, whatever follows. -/
theorem lengthOf_toBig {b : UInt8} {form : Form} {n : ℕ} (hn : n < form.limit)
    (hb : markOf b = form.mark n) (tail : List UInt8) :
    lengthOf b (Bytes.toBig form.size n ++ tail) = n := by
  rw [lengthOf, formOf_of_mark hn hb]
  cases form with
  | bits7 => exact hb
  | bits16 =>
    dsimp only
    rw [List.take_left' (Bytes.length_toBig _ _), Bytes.ofBig_toBig]
    exact Nat.mod_eq_of_lt hn
  | bits64 =>
    dsimp only
    rw [List.take_left' (Bytes.length_toBig _ _), Bytes.ofBig_toBig]
    exact Nat.mod_eq_of_lt hn

/-- **A frame declares its own length**, as soon as its head is there. -/
theorem declared_head {form : Form} {n : ℕ} (hn : n < form.limit) (first : UInt8)
    (key : Option (Vector UInt8 4)) (tail : List UInt8) :
    declared (head first form key n ++ tail) = some ((head first form key n).length + n) := by
  obtain ⟨hmark, hmask⟩ := second_byte (Form.mark_lt hn) key
  have hform := formOf_of_mark hn hmark
  rw [length_head]
  simp only [head, List.cons_append, declared, headOf, hform, hmask, List.append_assoc,
    lengthOf_toBig hn hmark]
  rw [if_pos (by rw [List.length_append, Bytes.length_toBig]; omega)]

theorem Frame.length_bytes (f : Frame) :
    f.bytes.length = (head f.first f.form f.key f.data.length).length + f.data.length :=
  List.length_append

theorem Frame.declared_append (f : Frame) (tail : List UInt8) :
    declared (f.bytes ++ tail) = some f.bytes.length := by
  rw [f.length_bytes, bytes, List.append_assoc]
  exact declared_head f.fits f.first f.key _

/-- A prefix with the whole head declares the length of the whole frame. -/
theorem Frame.declared_prefix (f : Frame) {p : List UInt8} (hp : p <+: f.bytes)
    (hlen : 14 ≤ p.length) : declared p = some f.bytes.length := by
  have hhead : (head f.first f.form f.key f.data.length).length ≤ p.length := by
    rw [length_head]
    cases f.form <;> simp only [Form.size] <;> split_ifs <;> omega
  obtain ⟨tail, rfl⟩ : ∃ tail, p = head f.first f.form f.key f.data.length ++ tail := by
    obtain ⟨tail, htail⟩ := List.prefix_of_prefix_length_le
      (List.prefix_append _ f.data) hp hhead
    exact ⟨tail, htail.symm⟩
  rw [f.length_bytes]
  exact declared_head f.fits f.first f.key tail

end FrameFormat
