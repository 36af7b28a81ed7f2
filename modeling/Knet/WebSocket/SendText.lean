import Knet.Lib.CountedLoop
import Knet.Lib.FrameFormat
import Knet.WebSocket.Frame

/-!
# What `send_text` writes

`send_text` sizes a vector by one pair of comparisons on the length of the message and fills it by
another pair, with the indices written out; then it masks the message in a loop that counts in 32
bits. `WSockConnection` and `WSockSslConnection` have this code letter for letter.

The two pairs disagree for a message of 65535 bytes, and the loop has no end for one of `2 ^ 32`
bytes or more.
-/

namespace Knet.WebSocket

open Knet.Tcp
open FrameFormat (Form)

/-- `header[i] = b`, where the vector has such an element. -/
def store (header : List UInt8) (i : ℕ) (b : UInt8) : Option (List UInt8) :=
  if i < header.length then some (header.set i b) else none

/-- Assignments to elements, one after the other. -/
def storeAll : List (ℕ × UInt8) → List UInt8 → Option (List UInt8)
  | [], header => some header
  | (i, b) :: rest, header => (store header i b).bind (storeAll rest)

namespace Text

/-- The size `header` is given. -/
def headerSize (t : Text) : ℕ :=
  2 + (if 126 ≤ t.msg.length then 2 else 0) + (if 65536 ≤ t.msg.length then 6 else 0)
    + (if t.mask.isSome then 4 else 0)

/-- The assignments of the mask key, from the index `off` on. -/
def keyStores (t : Text) (off : ℕ) : List (ℕ × UInt8) :=
  match t.mask with
  | none => []
  | some maskKey =>
    [(off, maskKey.get 0), (off + 1, maskKey.get 1), (off + 2, maskKey.get 2),
      (off + 3, maskKey.get 3)]

/-- The assignments to elements of `header`. -/
def headerStores (t : Text) : List (ℕ × UInt8) :=
  let n := t.msg.length
  (0, 0x80 ||| t.op.code) ::
    if n < 126 then (1, UInt8.ofNat n ||| t.payloadByte) :: t.keyStores 2
    else if n < 65535 then
      (1, 126 ||| t.payloadByte) :: (2, UInt8.ofNat (n >>> 8)) :: (3, UInt8.ofNat (n >>> 0))
        :: t.keyStores 4
    else
      (1, 127 ||| t.payloadByte) :: (2, UInt8.ofNat (n >>> 56)) :: (3, UInt8.ofNat (n >>> 48))
        :: (4, UInt8.ofNat (n >>> 40)) :: (5, UInt8.ofNat (n >>> 32))
        :: (6, UInt8.ofNat (n >>> 24)) :: (7, UInt8.ofNat (n >>> 16))
        :: (8, UInt8.ofNat (n >>> 8)) :: (9, UInt8.ofNat (n >>> 0)) :: t.keyStores 10

/-- The loop over `sendMsg`. -/
def maskLoop (t : Text) (fuel : ℕ) : Option (List UInt8) :=
  match t.mask with
  | none => some t.msg
  | some maskKey =>
    CountedLoop.run (2 ^ 32) t.msg.length
      (fun i sendMsg ↦ sendMsg.modify i fun b ↦ b ^^^ maskKey.toList.getD (i % 4) 0) fuel 0 t.msg

/-- `send_text`: the arguments it calls `msend` with. There are none when an element is assigned
that does not exist, and when the fuel does not suffice for the loop. -/
def sendText (t : Text) (fuel : ℕ) : Option (List Arg) :=
  (storeAll t.headerStores (List.replicate t.headerSize 0)).bind fun header ↦
    (t.maskLoop fuel).map fun sendMsg ↦ [.str header, .str sendMsg]

/-- The one frame that carries the message: final flag and opcode, the shortest form of the length,
the key, and the message XORed with it. -/
def frameBytes (t : Text) : List UInt8 :=
  FrameFormat.head (0x80 ||| t.op.code) (Form.shortest t.msg.length) t.mask t.msg.length
    ++ t.sendMsg

/-- `send_text` comes to its end and hands the frame to `msend`. -/
def Emits (t : Text) : Prop :=
  ∃ fuel args, t.sendText fuel = some args ∧ (args.map Arg.bytes).flatten = t.frameBytes

end Text

/-! ## Filling the vector -/

/-- Assigning the elements of a vector in order fills its front, if the vector is long enough. -/
theorem storeAll_zipIdx (front content : List UInt8) (k : ℕ) :
    storeAll ((content.zipIdx front.length).map Prod.swap) (front ++ List.replicate k 0)
      = if content.length ≤ k then
          some (front ++ content ++ List.replicate (k - content.length) 0) else none := by
  induction content generalizing front k with
  | nil => simp [storeAll]
  | cons b content ih =>
    rw [List.zipIdx_cons, List.map_cons, Prod.swap_prod_mk, storeAll, store, List.length_append,
      List.length_replicate, List.length_cons]
    cases k with
    | zero => rw [if_neg (by omega), if_neg (by omega), Option.bind_none]
    | succ k =>
      have hset : (front ++ List.replicate (k + 1) 0).set front.length b
          = (front ++ [b]) ++ List.replicate k 0 := by
        rw [List.replicate_succ, List.set_append_right (h := Nat.le_refl _), Nat.sub_self,
          List.set_cons_zero, List.append_assoc, List.singleton_append]
      have hlen : front.length + 1 = (front ++ [b]).length := by simp
      rw [if_pos (by omega), Option.bind_some, hset, hlen, ih]
      simp [List.append_assoc]

namespace Text

variable {t : Text}

theorem toBig_two (n : ℕ) : Bytes.toBig 2 n = [UInt8.ofNat (n >>> 8), UInt8.ofNat (n >>> 0)] := by
  simp [Bytes.toBig, Bytes.toLittle, Nat.shiftRight_eq_div_pow]

theorem toBig_eight (n : ℕ) : Bytes.toBig 8 n
    = [UInt8.ofNat (n >>> 56), UInt8.ofNat (n >>> 48), UInt8.ofNat (n >>> 40),
      UInt8.ofNat (n >>> 32), UInt8.ofNat (n >>> 24), UInt8.ofNat (n >>> 16),
      UInt8.ofNat (n >>> 8), UInt8.ofNat (n >>> 0)] := by
  simp [Bytes.toBig, Bytes.toLittle, Nat.shiftRight_eq_div_pow, Nat.div_div_eq_div_mul]

theorem toList_key (key : Vector UInt8 4) :
    key.toList = [key.get 0, key.get 1, key.get 2, key.get 3] := by
  obtain ⟨⟨l⟩, hl⟩ := key
  match l, hl with
  | [a, b, c, d], _ => rfl

theorem keyStores_eq (t : Text) (off : ℕ) :
    t.keyStores off = ((FrameFormat.keyBytes t.mask).zipIdx off).map Prod.swap := by
  rw [keyStores, FrameFormat.keyBytes]
  cases t.mask with
  | none => rfl
  | some key =>
    rw [Option.map_some, Option.getD_some, toList_key]
    rfl

/-- The form of the length that is written. -/
def writtenForm (t : Text) : Form :=
  if t.msg.length < 126 then .bits7 else if t.msg.length < 65535 then .bits16 else .bits64

/-- What is assigned, in the order of the indices, is the head of a frame. -/
theorem headerStores_eq (t : Text) : t.headerStores
    = ((FrameFormat.head (0x80 ||| t.op.code) t.writtenForm t.mask t.msg.length).zipIdx
        0).map Prod.swap := by
  have hbit : t.payloadByte = FrameFormat.maskBit t.mask := rfl
  simp only [headerStores, writtenForm, FrameFormat.head]
  split_ifs with hs hm
  · rw [keyStores_eq, hbit]
    rfl
  · rw [keyStores_eq, hbit, Form.size, toBig_two]
    rfl
  · rw [keyStores_eq, hbit, Form.size, toBig_eight]
    rfl

/-- The assignments stay within the vector except for one length of the message, and fill it. -/
theorem storeAll_headerStores (t : Text) :
    storeAll t.headerStores (List.replicate t.headerSize 0) = if t.msg.length = 65535 then none
      else some (FrameFormat.head (0x80 ||| t.op.code) (Form.shortest t.msg.length) t.mask
        t.msg.length) := by
  have hfill := storeAll_zipIdx []
    (FrameFormat.head (0x80 ||| t.op.code) t.writtenForm t.mask t.msg.length) t.headerSize
  rw [List.nil_append, List.nil_append, List.length_nil, ← headerStores_eq,
    FrameFormat.length_head] at hfill
  rw [hfill]
  by_cases hedge : t.msg.length = 65535
  · have hform : t.writtenForm = .bits64 := by simp [writtenForm, hedge]
    have hshort : ¬2 + Form.bits64.size + (if t.mask.isSome then 4 else 0) ≤ t.headerSize := by
      rw [headerSize, Form.size, hedge]
      split_ifs <;> omega
    rw [if_pos hedge, hform, if_neg hshort]
  · have hform : t.writtenForm = Form.shortest t.msg.length := by
      rw [writtenForm, Form.shortest]
      split_ifs <;> first | rfl | omega
    have hsize : t.headerSize = 2 + (Form.shortest t.msg.length).size
        + if t.mask.isSome then 4 else 0 := by
      rw [headerSize, Form.shortest]
      split_ifs <;> simp only [Form.size] <;> omega
    rw [if_neg hedge, hform, if_pos (Nat.le_of_eq hsize.symm), ← hsize, Nat.sub_self,
      List.replicate_zero, List.append_nil]

/-- The loop ends for messages that are not masked, and for those that a 32-bit counter can go
through. -/
theorem exists_maskLoop_iff {sendMsg : List UInt8} : (∃ fuel, t.maskLoop fuel = some sendMsg)
    ↔ (t.mask.isSome → t.msg.length < 2 ^ 32) ∧ sendMsg = t.sendMsg := by
  simp only [maskLoop, Text.sendMsg]
  cases t.mask with
  | none => simp [eq_comm]
  | some key =>
    simp only [Option.isSome_some, forall_const]
    rw [CountedLoop.exists_run_iff (Nat.two_pow_pos 32), CountedLoop.rounds_modify_length]
    rfl

/-- `send_text` hands over the header it has filled and the payload it has masked. -/
theorem sendText_eq_some {fuel : ℕ} {args : List Arg} : t.sendText fuel = some args
    ↔ t.msg.length ≠ 65535 ∧ ∃ sendMsg, t.maskLoop fuel = some sendMsg
      ∧ args = [.str (FrameFormat.head (0x80 ||| t.op.code) (Form.shortest t.msg.length) t.mask
        t.msg.length), .str sendMsg] := by
  rw [sendText, storeAll_headerStores]
  by_cases hedge : t.msg.length = 65535
  · simp [hedge]
  · rw [if_neg hedge, Option.bind_some, Option.map_eq_some_iff, and_iff_right hedge]
    exact exists_congr fun _ ↦ and_congr_right fun _ ↦ eq_comm

/-- **When `send_text` emits exactly one frame**: for every message, opcode, mask flag and key, it
assigns only existing elements, comes to its end and hands the frame to `msend`, exactly when the
message is not 65535 bytes long and, if it is masked, is shorter than `2 ^ 32`. -/
theorem emits_iff (t : Text) :
    t.Emits ↔ t.msg.length ≠ 65535 ∧ (t.mask.isSome → t.msg.length < 2 ^ 32) := by
  constructor
  · rintro ⟨fuel, args, hsend, -⟩
    obtain ⟨hedge, sendMsg, hloop, -⟩ := sendText_eq_some.mp hsend
    exact ⟨hedge, (exists_maskLoop_iff.mp ⟨fuel, hloop⟩).1⟩
  · rintro ⟨hedge, hmask⟩
    obtain ⟨fuel, hloop⟩ := exists_maskLoop_iff.mpr ⟨hmask, rfl⟩
    refine ⟨fuel, _, sendText_eq_some.mpr ⟨hedge, _, hloop, rfl⟩, ?_⟩
    simp [frameBytes, Arg.bytes]

/-- Whatever `send_text` hands over, with any fuel, is the frame. -/
theorem payload_of_sendText {fuel : ℕ} {args : List Arg} (h : t.sendText fuel = some args) :
    (args.map Arg.bytes).flatten = t.frameBytes := by
  obtain ⟨-, sendMsg, hloop, rfl⟩ := sendText_eq_some.mp h
  rw [(exists_maskLoop_iff.mp ⟨fuel, hloop⟩).2]
  simp [frameBytes, Arg.bytes]

theorem header_eq (t : Text) : t.header = if t.msg.length = 65535 then none
    else some (FrameFormat.head (0x80 ||| t.op.code) (Form.shortest t.msg.length) t.mask
      t.msg.length) := by
  have hkey : t.key = FrameFormat.keyBytes t.mask := rfl
  have hbit : t.payloadByte = FrameFormat.maskBit t.mask := rfl
  rw [header, Form.shortest, FrameFormat.head, hkey, hbit]
  split_ifs <;> first | rfl | omega

/-- `Text.args` is what `send_text` hands over when it comes to its end. -/
theorem sendText_eq_args {fuel : ℕ} {args : List Arg} (h : t.sendText fuel = some args) :
    t.args = some args := by
  obtain ⟨hedge, sendMsg, hloop, rfl⟩ := sendText_eq_some.mp h
  rw [Text.args, header_eq, if_neg hedge, (exists_maskLoop_iff.mp ⟨fuel, hloop⟩).2]
  rfl

theorem overflows_of_length {msg : List UInt8} (h : msg.length = 65535) :
    (⟨msg, .textFrame, none⟩ : Text).headerSize = 4
      ∧ (9, UInt8.ofNat 65535) ∈ (⟨msg, .textFrame, none⟩ : Text).headerStores
      ∧ ¬(⟨msg, .textFrame, none⟩ : Text).Emits := by
  refine ⟨by simp [headerSize, h], by simp [headerStores, h, keyStores], ?_⟩
  rintro ⟨fuel, args, hsend, -⟩
  exact (sendText_eq_some.mp hsend).1 h

/-- For a message of 65535 bytes that is not masked the vector has four elements, and ten are
assigned. -/
theorem edge_overflows :
    (⟨List.replicate 65535 0, .textFrame, none⟩ : Text).headerSize = 4
      ∧ (9, UInt8.ofNat 65535)
        ∈ (⟨List.replicate 65535 0, .textFrame, none⟩ : Text).headerStores
      ∧ ¬(⟨List.replicate 65535 0, .textFrame, none⟩ : Text).Emits :=
  overflows_of_length List.length_replicate

end Text

end Knet.WebSocket
