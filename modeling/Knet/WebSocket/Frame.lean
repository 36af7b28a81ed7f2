import Knet.Lib.Bytes
import Knet.Tcp.Socket

/-!
# WebSocket frames

`send_text` writes one unfragmented frame; on the other side `handle_package` finds the length of
the frame at the head of the buffer, and `WSMessageReader::read` decodes the frame and hands the
payload to the user.

`get_message_length` wants to see `sizeof(MinFrameHead)`, which is sixteen bytes, before it looks at
anything, although the head of a frame takes two to fourteen. And the reader was given a limit of
4096 bytes, beyond which it hands on what fits behind the head without its mask.
`handlePackage_frame`, `handlePackage_part` and `messageOf_frame` are what is left of the round trip
of one frame.
-/

namespace Knet.WebSocket

open Knet.Tcp

/-! ## Sending -/

/-- `OpCode`. -/
inductive OpCode
  | errorFrame
  | continuation
  | textFrame
  | binaryFrame
  | wsockClose
  | ping
  | pong
  deriving DecidableEq, Repr

/-- The value of the enumerator. -/
def OpCode.code : OpCode → UInt8
  | .errorFrame => 0xff
  | .continuation => 0x0
  | .textFrame => 0x1
  | .binaryFrame => 0x2
  | .wsockClose => 8
  | .ping => 9
  | .pong => 0xa

/-- A call of `send_text`. -/
structure Text where
  msg : List UInt8
  op : OpCode := .textFrame
  /-- The mask key drawn for the frame, when it is masked. -/
  mask : Option (Vector UInt8 4)
  deriving DecidableEq, Repr

/-- The payload XORed with the mask key, over and over. -/
def applyMask (key data : List UInt8) : List UInt8 :=
  data.mapIdx fun i b ↦ b ^^^ key.getD (i % 4) 0

namespace Text

/-- The bytes of the mask key in the frame. -/
def key (t : Text) : List UInt8 := (t.mask.map Vector.toList).getD []

/-- `payloadByte`. -/
def payloadByte (t : Text) : UInt8 := if t.mask.isSome then 0x80 else 0

/-- The header of the frame. A message of 65535 bytes gets a vector of four bytes (and the key) and
is written as if it had ten: there is nothing to say about what follows. -/
def header (t : Text) : Option (List UInt8) :=
  if t.msg.length < 126 then
    some ((0x80 ||| t.op.code) :: (UInt8.ofNat t.msg.length ||| t.payloadByte) :: t.key)
  else if t.msg.length < 65535 then
    some ((0x80 ||| t.op.code) :: (126 ||| t.payloadByte) :: (Bytes.toBig 2 t.msg.length ++ t.key))
  else if 65536 ≤ t.msg.length then
    some ((0x80 ||| t.op.code) :: (127 ||| t.payloadByte) :: (Bytes.toBig 8 t.msg.length ++ t.key))
  else none

/-- `sendMsg`: the payload as it is sent. -/
def sendMsg (t : Text) : List UInt8 :=
  match t.mask with
  | none => t.msg
  | some key => applyMask key.toList t.msg

/-- The arguments of `msend`. -/
def args (t : Text) : Option (List Arg) := t.header.map fun h ↦ [.str h, .str t.sendMsg]

end Text

/-- A call of `send_text` and the size of `send_buffer` when its append is made. -/
structure Sent where
  pending : ℕ
  text : Text
  deriving DecidableEq, Repr

/-- The bytes the call adds to the stream. -/
def Sent.bytes (x : Sent) : Option (List UInt8) := x.text.args.map (enqueued x.pending)

/-! ## Receiving -/

/-- `sizeof(MinFrameHead)`: four bytes of bit fields, padding, and eight bytes. -/
def sizeofMinFrameHead : ℕ := 16

/-- `vals[1] & 0x7f`. -/
def payloadMark (b : UInt8) : ℕ := (b &&& 0x7f).toNat

/-- `(vals[1] & 0x80) == 0x80`. -/
def isMasked (b : UInt8) : Bool := b &&& 0x80 == 0x80

/-- The room the mask key takes. -/
def maskSize (b : UInt8) : ℕ := if isMasked b then 4 else 0

/-- `get_message_length`, a `uint64_t`. -/
def getMessageLength (d : List UInt8) : ℕ :=
  if d.length < sizeofMinFrameHead then 0
  else
    let b := d.getD 1 0
    let headSize := 2 + maskSize b
    if payloadMark b < 126 then headSize + payloadMark b
    else if payloadMark b = 126 then headSize + 2 + Bytes.ofBig ((d.drop 2).take 2)
    else (headSize + 8 + Bytes.ofBig ((d.drop 2).take 8)) % 2 ^ 64

/-- `WSockConnection::handle_package`. -/
def handlePackage (d : List UInt8) : ℤ :=
  if d.length < getMessageLength d then 0 else toInt32 (getMessageLength d)

/-- The receiving socket. -/
def receiver : Config := ⟨kReadBufferSize, fun _ d ↦ handlePackage d⟩

/-- What a call of `WSMessageReader::read` does. -/
inductive ReadResult
  /-- It reads outside the package. -/
  | undefined
  /-- It returns without calling the handler. -/
  | nothing
  /-- It calls the handler with this message. -/
  | handed (msg : List UInt8)
  deriving DecidableEq, Repr

/-- The limit of the reader, `wsock_reader(4096)`. -/
def bufferSize : ℕ := 4096

/-- Hand on `n` bytes at `off`, unmasked with the key before them if there is one. -/
def hand (d : List UInt8) (headSize : ℕ) (masked : Bool) (n : ℕ) : ReadResult :=
  if masked then
    if headSize + 4 + n ≤ d.length then
      .handed (applyMask ((d.drop headSize).take 4) ((d.drop (headSize + 4)).take n))
    else .undefined
  else if headSize + n ≤ d.length then .handed ((d.drop headSize).take n)
  else .undefined

/-- `WSMessageReader::read`. Its `status` stays `0`: the assignments to it are commented out. -/
def read (d : List UInt8) : ReadResult :=
  if d.length < 2 then .nothing
  else
    let b := d.getD 1 0
    if payloadMark b < 126 then hand d 2 (isMasked b) (payloadMark b)
    else if payloadMark b = 126 then
      if d.length < 4 then .nothing
      else
        let payloadLength := Bytes.ofBig ((d.drop 2).take 2)
        if bufferSize < payloadLength + 4 + maskSize b then
          hand d 4 (isMasked b)
            (if payloadLength < bufferSize - 4 then payloadLength else bufferSize - 4)
        else hand d 4 (isMasked b) payloadLength
    else
      if d.length < 10 then .nothing
      else
        let payloadLength := Bytes.ofBig ((d.drop 2).take 8)
        if bufferSize < (payloadLength + 10 + maskSize b) % 2 ^ 64 then
          hand d 10 false (bufferSize - 10)
        else hand d 10 (isMasked b) payloadLength

/-- The message a package makes the handler see, if there is one. -/
def messageOf (d : List UInt8) : Option (List UInt8) :=
  match read d with
  | .handed msg => some msg
  | _ => none

/-- The calls of the message handler in a history. -/
def messages (log : List Entry) : List (List UInt8) := (delivered log).filterMap messageOf

/-! ## Masking -/

@[simp] theorem length_applyMask (key data : List UInt8) :
    (applyMask key data).length = data.length := by
  rw [applyMask, List.length_mapIdx]

theorem take_applyMask (key data : List UInt8) (n : ℕ) :
    (applyMask key data).take n = applyMask key (data.take n) := by
  apply List.ext_getElem?
  intro i
  by_cases hi : i < n
  · simp [applyMask, hi]
  · rw [List.getElem?_take_eq_none (by omega), applyMask, List.getElem?_mapIdx,
      List.getElem?_take_eq_none (by omega)]
    rfl

theorem applyMask_applyMask (key data : List UInt8) :
    applyMask key (applyMask key data) = data := by
  apply List.ext_getElem?
  intro i
  simp only [applyMask, List.getElem?_mapIdx, Option.map_map, Function.comp_def, UInt8.xor_assoc,
    UInt8.xor_self, UInt8.xor_zero, Option.map_id']

/-! ## The frame of a message -/

namespace Text

/-- The bytes of the frame. -/
def frame (t : Text) : List UInt8 := t.header.getD [] ++ t.sendMsg

/-- The frame fits the receiver's buffer. -/
def Fits (t : Text) : Prop := t.frame.length ≤ kReadBufferSize

instance decidableFits (t : Text) : Decidable t.Fits := inferInstanceAs (Decidable (_ ≤ _))

@[simp] theorem length_sendMsg (t : Text) : t.sendMsg.length = t.msg.length := by
  rw [sendMsg]
  split
  · rfl
  · rw [length_applyMask]

theorem length_key (t : Text) : t.key.length = if t.mask.isSome then 4 else 0 := by
  rw [key]
  cases t.mask with
  | none => rfl
  | some key => simp

/-- A frame that fits carries less than 65535 bytes, so that its header is well defined. -/
theorem Fits.length_lt {t : Text} (h : t.Fits) : t.msg.length < 65535 := by
  rw [Fits, frame, List.length_append, length_sendMsg, kReadBufferSize] at h
  omega

theorem header_short {t : Text} (h : t.msg.length < 126) :
    t.header
      = some ((0x80 ||| t.op.code) :: (UInt8.ofNat t.msg.length ||| t.payloadByte) :: t.key) := by
  rw [header, if_pos h]

theorem header_long {t : Text} (h : 126 ≤ t.msg.length) (h' : t.msg.length < 65535) :
    t.header = some ((0x80 ||| t.op.code) :: (126 ||| t.payloadByte)
      :: (Bytes.toBig 2 t.msg.length ++ t.key)) := by
  rw [header, if_neg (by omega), if_pos h']

theorem frame_short {t : Text} (h : t.msg.length < 126) :
    t.frame = (0x80 ||| t.op.code) :: (UInt8.ofNat t.msg.length ||| t.payloadByte)
      :: (t.key ++ t.sendMsg) := by
  rw [frame, header_short h]
  rfl

theorem frame_long {t : Text} (h : 126 ≤ t.msg.length) (h' : t.msg.length < 65535) :
    t.frame = (0x80 ||| t.op.code) :: (126 ||| t.payloadByte)
      :: (Bytes.toBig 2 t.msg.length ++ (t.key ++ t.sendMsg)) := by
  rw [frame, header_long h h', ← List.append_assoc]
  rfl

/-- The second byte of a short frame tells the length and whether there is a mask. -/
theorem mark_short {t : Text} (h : t.msg.length < 126) :
    payloadMark (UInt8.ofNat t.msg.length ||| t.payloadByte) = t.msg.length
      ∧ isMasked (UInt8.ofNat t.msg.length ||| t.payloadByte) = t.mask.isSome := by
  have hplain : ∀ n < 126, payloadMark (UInt8.ofNat n ||| 0) = n
      ∧ isMasked (UInt8.ofNat n ||| 0) = false := by decide
  have hmasked : ∀ n < 126, payloadMark (UInt8.ofNat n ||| 0x80) = n
      ∧ isMasked (UInt8.ofNat n ||| 0x80) = true := by decide
  rw [payloadByte]
  cases hm : t.mask.isSome
  · exact hplain _ h
  · exact hmasked _ h

theorem mark_long (t : Text) :
    payloadMark (126 ||| t.payloadByte) = 126
      ∧ isMasked (126 ||| t.payloadByte) = t.mask.isSome := by
  rw [payloadByte]
  cases hm : t.mask.isSome <;> decide

theorem maskSize_eq {t : Text} {b : UInt8} (h : isMasked b = t.mask.isSome) :
    maskSize b = t.key.length := by
  rw [maskSize, h, length_key]

theorem length_frame_pos {t : Text} (h : t.Fits) : 2 ≤ t.frame.length := by
  rcases Nat.lt_or_ge t.msg.length 126 with hs | hl
  · rw [frame_short hs]
    simp
  · rw [frame_long hl h.length_lt]
    simp

end Text

/-! ## Finding the end of a frame -/

theorem getMessageLength_cons {a b : UInt8} {d : List UInt8} (h : 16 ≤ (a :: b :: d).length) :
    getMessageLength (a :: b :: d)
      = if payloadMark b < 126 then 2 + maskSize b + payloadMark b
        else if payloadMark b = 126 then 2 + maskSize b + 2 + Bytes.ofBig (d.take 2)
        else (2 + maskSize b + 8 + Bytes.ofBig (d.take 8)) % 2 ^ 64 := by
  rw [getMessageLength, if_neg (by rw [sizeofMinFrameHead]; omega)]
  rfl

theorem handlePackage_few {d : List UInt8} (h : d.length < 16) : handlePackage d = 0 := by
  have hzero : getMessageLength d = 0 := by rw [getMessageLength, if_pos (by exact h)]
  rw [handlePackage, hzero, if_neg (Nat.not_lt_zero _)]
  rfl

/-- The answer never reaches behind the window. -/
theorem handlePackage_le {d : List UInt8} (h : d.length < 2 ^ 31) : handlePackage d ≤ d.length := by
  rw [handlePackage]
  split
  · omega
  · rw [toInt32_of_lt (by omega)]
    omega

/-- Either the window is taken for incomplete, or the answer is the length read from the head. -/
theorem handlePackage_eq {d : List UInt8} (h : d.length < 2 ^ 31) :
    handlePackage d = 0 ∨ handlePackage d = getMessageLength d := by
  rw [handlePackage]
  split
  · exact .inl rfl
  · exact .inr (toInt32_of_lt (by omega))

/-- The length of a frame is read from its first bytes, whatever follows them: two bytes of a short
frame are enough, four of a long one. -/
theorem getMessageLength_frame {t : Text} (h : t.Fits) {u tail : List UInt8} (hu : u <+: t.frame)
    (hlen : 16 ≤ (u ++ tail).length) (htwo : 2 ≤ u.length)
    (hfour : 126 ≤ t.msg.length → 4 ≤ u.length) :
    getMessageLength (u ++ tail) = t.frame.length := by
  obtain ⟨v, hv⟩ := hu
  match u, htwo with
  | a :: b :: u, _ =>
    rcases Nat.lt_or_ge t.msg.length 126 with hs | hl
    · rw [Text.frame_short hs] at hv ⊢
      rw [List.cons_append, List.cons_append, List.cons.injEq, List.cons.injEq] at hv
      obtain ⟨rfl, rfl, hv⟩ := hv
      obtain ⟨hmark, hmask⟩ := Text.mark_short hs
      rw [List.cons_append, List.cons_append] at hlen ⊢
      rw [getMessageLength_cons hlen, hmark, if_pos hs,
        Text.maskSize_eq hmask]
      simp only [List.length_cons, List.length_append, Text.length_sendMsg]
      omega
    · rw [Text.frame_long hl h.length_lt] at hv ⊢
      rw [List.cons_append, List.cons_append, List.cons.injEq, List.cons.injEq] at hv
      obtain ⟨rfl, rfl, hv⟩ := hv
      obtain ⟨hmark, hmask⟩ := Text.mark_long t
      have hbig : (u ++ tail).take 2 = Bytes.toBig 2 t.msg.length := by
        have h2 : 2 ≤ u.length := by simpa using hfour hl
        have hfront := congrArg (List.take 2) hv
        rw [List.take_append_of_le_length h2, List.take_left' (Bytes.length_toBig _ _)] at hfront
        rw [List.take_append_of_le_length h2, hfront]
      rw [List.cons_append, List.cons_append] at hlen ⊢
      rw [getMessageLength_cons hlen, hmark,
        if_neg (Nat.lt_irrefl _), if_pos rfl, Text.maskSize_eq hmask, hbig, Bytes.ofBig_toBig,
        Nat.mod_eq_of_lt (Nat.lt_of_lt_of_le h.length_lt (by decide))]
      simp only [List.length_cons, List.length_append, Text.length_sendMsg, Bytes.length_toBig]
      omega

/-- A complete frame is found in any window of sixteen bytes or more that starts with it. -/
theorem handlePackage_frame {t : Text} (h : t.Fits) {tail : List UInt8}
    (hlen : 16 ≤ (t.frame ++ tail).length) :
    handlePackage (t.frame ++ tail) = t.frame.length := by
  have hfour : 126 ≤ t.msg.length → 4 ≤ t.frame.length := by
    intro hl
    rw [Text.frame, List.length_append, Text.length_sendMsg]
    omega
  have hle : t.frame.length ≤ (t.frame ++ tail).length := by
    rw [List.length_append]
    omega
  rw [handlePackage, getMessageLength_frame h (List.prefix_refl _) hlen (Text.length_frame_pos h)
    hfour, if_neg (by omega), toInt32_of_lt (Nat.lt_of_le_of_lt h (by decide))]

/-- A strict part of a frame is not taken for complete, whatever the window holds behind it, unless
it is a single byte and the stale length wraps around. -/
theorem handlePackage_part {t : Text} (h : t.Fits) {u tail : List UInt8} (hne : u ≠ [])
    (hu : u <+: t.frame) (hlt : u.length < t.frame.length)
    (hbuf : (u ++ tail).length ≤ kReadBufferSize)
    (hclear : u.length = 1 → handlePackage (u ++ tail) ≠ 1) :
    handlePackage (u ++ tail) ≤ 0 ∨ (u.length : ℤ) < handlePackage (u ++ tail) := by
  have hbig : (u ++ tail).length < 2 ^ 31 := Nat.lt_of_le_of_lt hbuf (by decide)
  have hpos : 0 < u.length := List.length_pos_iff.mpr hne
  rcases handlePackage_eq hbig with hzero | heq
  · exact .inl (by omega)
  rcases Nat.lt_or_ge (u ++ tail).length 16 with hfew | hlen
  · exact .inl (Int.le_of_eq (handlePackage_few hfew))
  rcases Nat.lt_or_ge u.length 2 with hone | htwo
  · have := hclear (by omega)
    omega
  by_cases hfour : 126 ≤ t.msg.length → 4 ≤ u.length
  · rw [getMessageLength_frame h hu hlen htwo hfour] at heq
    exact .inr (by omega)
  · -- the two bytes of a long length are not there yet: any value put in their place is too long
    obtain ⟨hl, hthree⟩ : 126 ≤ t.msg.length ∧ u.length < 4 := by omega
    obtain ⟨v, hv⟩ := hu
    match u, htwo with
    | a :: b :: u, _ =>
      rw [Text.frame_long hl h.length_lt, List.cons_append, List.cons_append, List.cons.injEq,
        List.cons.injEq] at hv
      obtain ⟨rfl, rfl, -⟩ := hv
      rw [List.cons_append, List.cons_append] at hlen heq ⊢
      rw [getMessageLength_cons hlen, (Text.mark_long t).1, if_neg (Nat.lt_irrefl _),
        if_pos rfl] at heq
      exact .inr (by omega)

/-! ## Decoding a frame -/

/-- What stands behind the head is the key and the payload masked with it. -/
theorem hand_payload (t : Text) (front : List UInt8) {n : ℕ} (hn : n ≤ t.msg.length) :
    hand (front ++ (t.key ++ t.sendMsg)) front.length t.mask.isSome n = .handed (t.msg.take n) := by
  have hdrop : (front ++ (t.key ++ t.sendMsg)).drop front.length = t.key ++ t.sendMsg :=
    List.drop_left
  have hlen : (front ++ (t.key ++ t.sendMsg)).length
      = front.length + (if t.mask.isSome then 4 else 0) + t.msg.length := by
    rw [List.length_append, List.length_append, t.length_key, t.length_sendMsg, Nat.add_assoc]
  rw [hand]
  cases hm : t.mask with
  | none =>
    rw [hm] at hlen
    have hkey : t.key ++ t.sendMsg = t.msg := by rw [Text.key, Text.sendMsg, hm]; rfl
    simp only [Option.isSome_none, Bool.false_eq_true, if_false] at hlen ⊢
    rw [if_pos (by omega), hdrop, hkey]
  | some key =>
    rw [hm] at hlen
    have hkey : t.key = key.toList := by rw [Text.key, hm]; rfl
    have hmsg : t.sendMsg = applyMask key.toList t.msg := by rw [Text.sendMsg, hm]
    have hfour : (t.key ++ t.sendMsg).take 4 = key.toList := by
      rw [hkey, List.take_left' (by simp)]
    have hrest : (front ++ (t.key ++ t.sendMsg)).drop (front.length + 4) = t.sendMsg := by
      rw [← List.drop_drop, hdrop, hkey, List.drop_left' (by simp)]
    simp only [Option.isSome_some, if_true] at hlen ⊢
    rw [if_pos (by omega), hdrop, hfour, hrest, hmsg, take_applyMask, applyMask_applyMask]

theorem read_short {t : Text} (h : t.msg.length < 126) : read t.frame = .handed t.msg := by
  obtain ⟨hmark, hmask⟩ := Text.mark_short h
  have hhand := hand_payload t
    [0x80 ||| t.op.code, UInt8.ofNat t.msg.length ||| t.payloadByte] (Nat.le_refl _)
  rw [List.take_length] at hhand
  rw [Text.frame_short h, read, if_neg (by simp)]
  simp only [List.getD_cons_succ, List.getD_cons_zero, hmark, hmask, if_pos h]
  exact hhand

/-- **The reader hands on at most `4092` bytes of a message.** -/
theorem messageOf_frame {t : Text} (h : t.Fits) : messageOf t.frame = some (t.msg.take 4092) := by
  rcases Nat.lt_or_ge t.msg.length 126 with hs | hl
  · rw [messageOf, read_short hs, List.take_of_length_le (by omega)]
  · obtain ⟨hmark, hmask⟩ := t.mark_long
    have hlt := h.length_lt
    have hhand : ∀ n ≤ t.msg.length, hand t.frame 4 t.mask.isSome n = .handed (t.msg.take n) := by
      intro n hn
      have hfront := hand_payload t ((0x80 ||| t.op.code) :: (126 ||| t.payloadByte)
        :: Bytes.toBig 2 t.msg.length) hn
      rw [List.length_cons, List.length_cons, Bytes.length_toBig] at hfront
      rw [Text.frame_long hl hlt]
      exact hfront
    have hsecond : t.frame.getD 1 0 = 126 ||| t.payloadByte := by
      rw [Text.frame_long hl hlt]
      rfl
    have hlength : Bytes.ofBig ((t.frame.drop 2).take 2) = t.msg.length := by
      rw [Text.frame_long hl hlt]
      simp only [List.drop_succ_cons, List.drop_zero]
      rw [List.take_left' (Bytes.length_toBig _ _), Bytes.ofBig_toBig,
        Nat.mod_eq_of_lt (Nat.lt_of_lt_of_le hlt (by decide))]
    have hfour : 4 ≤ t.frame.length := by
      rw [Text.frame, List.length_append, Text.length_sendMsg]
      omega
    rw [messageOf, read, if_neg (by omega)]
    simp only [hsecond, hmark, hmask, hlength]
    rw [if_neg (by omega), if_pos trivial, if_neg (by omega), bufferSize]
    rcases Nat.lt_or_ge t.msg.length 4092 with hlt | hge
    · rw [if_pos hlt, ite_self, hhand _ (Nat.le_refl _), List.take_length,
        List.take_of_length_le (Nat.le_of_lt hlt)]
    · rw [if_neg (show ¬t.msg.length < 4096 - 4 by omega), hhand _ hge, hhand _ (Nat.le_refl _)]
      split_ifs with hover
      · rfl
      · rw [List.take_length, List.take_of_length_le (by omega)]

theorem filterMap_messageOf {texts : List Text} (h : ∀ t ∈ texts, t.Fits) :
    (texts.map Text.frame).filterMap messageOf = texts.map fun t ↦ t.msg.take 4092 := by
  induction texts with
  | nil => rfl
  | cons t texts ih =>
    rw [List.map_cons, List.filterMap_cons_some (messageOf_frame (h t List.mem_cons_self)),
      ih fun x hx ↦ h x (List.mem_cons_of_mem _ hx), List.map_cons]

end Knet.WebSocket
