import Knet.Lib.Bytes
import Knet.Tcp.Reading
import Mathlib.Algebra.Ring.Nat
import Mathlib.Algebra.Ring.Int.Defs

/-!
# The pipe protocol

A pipe message is a head of sixteen bytes, with the length of the body and a number for the user,
followed by the body. The sender puts into the head what the overload set `pipe_data_length` makes
of the arguments, and `write_data` of the TCP socket then appends the arguments themselves; the
receiver cuts the stream by the length in the head. Both ends agree when the two overload sets do.

They do not agree on two kinds of arguments. `data_length(const char *)` is one less than the length
of the string, and the array types that `pipe_data_length` takes by value have become pointers by
then, so that the size of a pointer is counted.

## The two directions

* A stream of messages whose heads are right is recognised by `handle_package` whatever stands
behind a message in the buffer, so that every way of cutting it delivers the messages.
* Conversely, what is delivered consists of pieces of the stream, and a message delivered with its
  body takes sixteen bytes and the body. If every message has been delivered, the pieces account for
  the whole stream and must be the messages as they were written, with their heads.
-/

namespace Knet.Pipe

open Knet.Tcp

/-! ## Heads -/

/-- `PipeMsgType`. -/
inductive PipeMsgType
  | shakeHand
  | heartBeat
  | data
  | ack
  deriving DecidableEq, Repr

/-- The value of the enumerator. -/
def PipeMsgType.code : PipeMsgType → ℕ
  | .shakeHand => 1
  | .heartBeat => 2
  | .data => 3
  | .ack => 4

/-- `PipeMsgHead`: the length of the body, the type, and the number for the user. -/
structure PipeMsgHead where
  length : ℕ
  type : ℕ
  data : ℕ
  deriving DecidableEq, Repr

namespace PipeMsgHead

/-- `sizeof(PipeMsgHead)`. -/
def size : ℕ := 16

/-- The head as it lies in memory, on a little-endian machine. -/
def bytes (head : PipeMsgHead) : List UInt8 :=
  Bytes.toLittle 4 head.length ++ Bytes.toLittle 4 head.type ++ Bytes.toLittle 8 head.data

/-- The head that the bytes at a pointer are read as. -/
def read (d : List UInt8) : PipeMsgHead :=
  ⟨Bytes.ofLittle (d.take 4), Bytes.ofLittle ((d.drop 4).take 4),
    Bytes.ofLittle ((d.drop 8).take 8)⟩

@[simp] theorem length_bytes (head : PipeMsgHead) : head.bytes.length = size := by
  simp [bytes, size]

/-- A head is read back as it was written, each field modulo its range. -/
theorem read_bytes (head : PipeMsgHead) (d : List UInt8) :
    read (head.bytes ++ d)
      = ⟨head.length % 2 ^ 32, head.type % 2 ^ 32, head.data % 2 ^ 64⟩ := by
  have hlen := Bytes.length_toLittle 4 head.length
  have htype := Bytes.length_toLittle 4 head.type
  have hdata := Bytes.length_toLittle 8 head.data
  have hl : (head.bytes ++ d).take 4 = Bytes.toLittle 4 head.length := by
    rw [bytes, List.append_assoc, List.append_assoc, List.take_left' hlen]
  have ht : ((head.bytes ++ d).drop 4).take 4 = Bytes.toLittle 4 head.type := by
    rw [bytes, List.append_assoc, List.append_assoc, List.drop_left' hlen, List.take_left' htype]
  have hd : ((head.bytes ++ d).drop 8).take 8 = Bytes.toLittle 8 head.data := by
    rw [bytes, List.append_assoc, List.drop_left' (by rw [List.length_append, hlen, htype]),
      List.take_left' hdata]
  have h32 : ∀ n : ℕ, n % 256 ^ 4 = n % 2 ^ 32 := fun n ↦ rfl
  have h64 : ∀ n : ℕ, n % 256 ^ 8 = n % 2 ^ 64 := fun n ↦ rfl
  rw [read, hl, ht, hd, Bytes.ofLittle_toLittle, Bytes.ofLittle_toLittle, Bytes.ofLittle_toLittle,
    h32, h32, h64]

theorem read_append {d tail : List UInt8} (h : size ≤ d.length) : read (d ++ tail) = read d := by
  rw [size] at h
  rw [read, read, List.take_append_of_le_length (by omega),
    List.drop_append_of_le_length (by omega),
    List.drop_append_of_le_length (by omega), List.take_append_of_le_length
      (by rw [List.length_drop]; omega),
    List.take_append_of_le_length (by rw [List.length_drop]; omega)]

end PipeMsgHead

/-! ## Sending -/

/-- One argument of `PipeSession::msend`, by the overloads it selects. -/
inductive PipeArg
  /-- A trivially copyable value that is no array, as its object representation. -/
  | value (bytes : List UInt8)
  /-- An array that is no string, as its object representation. -/
  | array (bytes : List UInt8)
  /-- A `std::string`. -/
  | str (bytes : List UInt8)
  /-- A `std::string_view`. -/
  | view (bytes : List UInt8)
  /-- A C string: the characters from the pointer on. -/
  | cstr (chars : List UInt8)
  deriving DecidableEq, Repr

/-- The argument as `write_data` gets it. -/
def PipeArg.toArg : PipeArg → Arg
  | .value bytes => .value bytes
  | .array bytes => .value bytes
  | .str bytes => .str bytes
  | .view bytes => .view bytes
  | .cstr chars => .cstr (some chars)

/-- The bytes an argument stands for. -/
def PipeArg.bytes (arg : PipeArg) : List UInt8 := arg.toArg.bytes

/-- `data_length`, a `uint32_t`. An array has become a pointer when it gets here. -/
def dataLength : PipeArg → ℕ
  | .value bytes => bytes.length % 2 ^ 32
  | .array _ => 8
  | .str bytes => bytes.length % 2 ^ 32
  | .view bytes => bytes.length % 2 ^ 32
  | .cstr chars => ((cstring chars).length + (2 ^ 32 - 1)) % 2 ^ 32

/-- `pipe_data_length`, a `uint32_t`. -/
def pipeDataLength : List PipeArg → ℕ
  | [] => 0
  | arg :: args => (dataLength arg + pipeDataLength args) % 2 ^ 32

/-- A message given to a `PipeSession`. -/
inductive Message
  /-- `send(const std::string &, uint64_t)`. -/
  | send (msg : List UInt8) (obdata : UInt64)
  /-- `send(const std::string_view &)`. -/
  | sendView (msg : List UInt8)
  /-- `msend(first, rest...)`. -/
  | msend (first : PipeArg) (rest : List PipeArg)
  /-- `msend_with_obdata(obdata, first, rest...)`. -/
  | msendWithObdata (obdata : UInt64) (first : PipeArg) (rest : List PipeArg)
  deriving DecidableEq, Repr

namespace Message

/-- The arguments of the body. -/
def parts : Message → List PipeArg
  | .send msg _ => [.str msg]
  | .sendView msg => [.view msg]
  | .msend first rest => first :: rest
  | .msendWithObdata _ first rest => first :: rest

/-- The number for the user. -/
def obdata : Message → ℕ
  | .send _ obdata => obdata.toNat
  | .sendView _ => 0
  | .msend _ _ => 0
  | .msendWithObdata obdata _ _ => obdata.toNat

/-- The concatenation of the argument bytes. -/
def body (m : Message) : List UInt8 := (m.parts.map PipeArg.bytes).flatten

/-- The head a ready session builds: `send` converts the length of its string, `msend` asks
`pipe_data_length`. -/
def head : Message → PipeMsgHead
  | .send msg obdata => ⟨msg.length % 2 ^ 32, PipeMsgType.data.code, obdata.toNat⟩
  | .sendView msg => ⟨msg.length % 2 ^ 32, PipeMsgType.data.code, 0⟩
  | .msend first rest => ⟨pipeDataLength (first :: rest), PipeMsgType.data.code, 0⟩
  | .msendWithObdata obdata first rest =>
    ⟨pipeDataLength (first :: rest), PipeMsgType.data.code, obdata.toNat⟩

/-- The arguments with which a ready session calls `connection->msend`. -/
def args (m : Message) : List Arg := .value m.head.bytes :: m.parts.map PipeArg.toArg

end Message

/-- A message and the size of `send_buffer` when its append is made. -/
structure Sent where
  pending : ℕ
  message : Message
  deriving DecidableEq, Repr

/-- The bytes a message adds to the stream. -/
def Sent.bytes (x : Sent) : List UInt8 := enqueued x.pending x.message.args

/-! ## Receiving -/

/-- `PipeConnection::handle_package`. -/
def handlePackage (d : List UInt8) : ℤ :=
  if d.length < PipeMsgHead.size then 0
  else if d.length < (PipeMsgHead.read d).length + PipeMsgHead.size then 0
  else toInt32 (PipeMsgHead.size + (PipeMsgHead.read d).length)

/-- The receiving socket. -/
def receiver : Config := ⟨kReadBufferSize, fun _ d ↦ handlePackage d⟩

@[simp] theorem receiver_handlePackage (log : List Entry) (d : List UInt8) :
    receiver.handlePackage log d = handlePackage d := rfl

@[simp] theorem receiver_kReadBufferSize : receiver.kReadBufferSize = kReadBufferSize := rfl

/-- What `PipeFactory::handle_data` does with a package of a connection that is bound to a
session. -/
inductive Handled
  | notEnough
  | shakeHand
  | heartBeat
  /-- `handle_message(data + sizeof(PipeMsgHead), msg->length, msg->data)` of the session. -/
  | message (body : List UInt8) (obdata : ℕ)
  deriving DecidableEq, Repr

/-- `PipeFactory::handle_data`. -/
def handleData (d : List UInt8) : Handled :=
  let msg := PipeMsgHead.read d
  if d.length < msg.length + PipeMsgHead.size then .notEnough
  else if msg.type = PipeMsgType.shakeHand.code then .shakeHand
  else if msg.type = PipeMsgType.heartBeat.code then .heartBeat
  else .message ((d.drop PipeMsgHead.size).take msg.length) msg.data

/-- The message in a package, if there is one. -/
def messageOf (d : List UInt8) : Option (List UInt8 × ℕ) :=
  match handleData d with
  | .message body obdata => some (body, obdata)
  | _ => none

/-- The calls of `handle_message` in a history. -/
def messages (log : List Entry) : List (List UInt8 × ℕ) := (delivered log).filterMap messageOf

/-! ## When the head is right -/

/-- How many bytes an argument has beyond those that `data_length` counts. -/
def PipeArg.surplus : PipeArg → ℤ
  | .cstr _ => 1
  | .array bytes => bytes.length - 8
  | _ => 0

/-- The bytes of a message beyond those counted in its head. -/
def Message.surplus : Message → ℤ
  | .msend first rest => ((first :: rest).map PipeArg.surplus).sum
  | .msendWithObdata _ first rest => ((first :: rest).map PipeArg.surplus).sum
  | _ => 0

/-- `data_length` counts all but the surplus, modulo the range of `uint32_t`. -/
theorem dataLength_emod (arg : PipeArg) :
    (dataLength arg : ℤ) = (arg.bytes.length - arg.surplus) % 2 ^ 32 := by
  cases arg <;>
    simp only [dataLength, PipeArg.bytes, PipeArg.toArg, Arg.bytes, PipeArg.surplus] <;> omega

theorem pipeDataLength_emod (args : List PipeArg) :
    (pipeDataLength args : ℤ)
      = (((args.map PipeArg.bytes).flatten.length : ℤ) - (args.map PipeArg.surplus).sum)
        % 2 ^ 32 := by
  induction args with
  | nil => rfl
  | cons arg args ih =>
    have hone := dataLength_emod arg
    rw [pipeDataLength, List.map_cons, List.map_cons, List.flatten_cons, List.length_append,
      List.sum_cons]
    omega

/-- The length in the head is the length of the body, but for the surplus. -/
theorem headLength_emod (m : Message) :
    (m.head.length : ℤ) = ((m.body.length : ℤ) - m.surplus) % 2 ^ 32 := by
  cases m with
  | send msg obdata =>
    simp [Message.head, Message.body, Message.parts, Message.surplus, PipeArg.bytes, PipeArg.toArg,
      Arg.bytes]
  | sendView msg =>
    simp [Message.head, Message.body, Message.parts, Message.surplus, PipeArg.bytes, PipeArg.toArg,
      Arg.bytes]
  | msend first rest => exact pipeDataLength_emod (first :: rest)
  | msendWithObdata obdata first rest => exact pipeDataLength_emod (first :: rest)

/-- A body that fits the buffer is counted right exactly when the surplus vanishes. -/
theorem headLength_eq_iff {m : Message}
    (hfit : m.body.length + PipeMsgHead.size ≤ kReadBufferSize) :
    m.head.length = m.body.length ↔ (2 ^ 32 : ℤ) ∣ m.surplus := by
  have hemod := headLength_emod m
  rw [PipeMsgHead.size, kReadBufferSize] at hfit
  omega

/-- A message that is written as it should be: its arguments are counted right, and the append of
them is not cut short by a `send_buffer` of a multiple of `2 ^ 32` bytes. -/
def Sound (x : Sent) : Prop :=
  (2 ^ 32 : ℤ) ∣ x.message.surplus ∧ Uncut x.pending x.message.args

instance (x : Sent) : Decidable (Sound x) := inferInstanceAs (Decidable (_ ∧ _))

/-- The body fits the receiver's buffer together with its head. -/
def Fits (m : Message) : Prop := m.body.length + PipeMsgHead.size ≤ kReadBufferSize

instance (m : Message) : Decidable (Fits m) := inferInstanceAs (Decidable (_ ≤ _))

section Written

variable {x : Sent} {m : Message}

theorem args_bytes (m : Message) :
    (m.args.map Arg.bytes).flatten = m.head.bytes ++ m.body := by
  rw [Message.args, List.map_cons, List.flatten_cons, List.map_map, Message.body]
  rfl

theorem args_ne_null (m : Message) : ∀ a ∈ m.args, a ≠ .cstr none := by
  intro a ha
  rcases List.mem_cons.mp ha with rfl | ha
  · simp
  · obtain ⟨p, -, rfl⟩ := List.mem_map.mp ha
    cases p <;> simp [PipeArg.toArg]

/-- What a message adds to the stream begins with its head, and is no longer than it should be. -/
theorem bytes_prefix_message (x : Sent) : x.bytes <+: x.message.head.bytes ++ x.message.body := by
  rw [← args_bytes]
  exact enqueued_prefix (args_ne_null x.message) x.pending

theorem bytes_eq_iff : x.bytes = x.message.head.bytes ++ x.message.body
    ↔ Uncut x.pending x.message.args := by
  rw [← args_bytes]
  exact enqueued_eq_iff (args_ne_null x.message) x.pending

theorem read_head (m : Message) (d : List UInt8) :
    PipeMsgHead.read (m.head.bytes ++ d)
      = ⟨m.head.length, PipeMsgType.data.code, m.obdata⟩ := by
  have hlen : m.head.length < 2 ^ 32 := by
    have := headLength_emod m
    omega
  have hdata : m.head.data = m.obdata ∧ m.obdata < 2 ^ 64 := by
    cases m with
    | send msg obdata => exact ⟨rfl, obdata.toNat_lt⟩
    | sendView msg => exact ⟨rfl, Nat.two_pow_pos 64⟩
    | msend first rest => exact ⟨rfl, Nat.two_pow_pos 64⟩
    | msendWithObdata obdata first rest => exact ⟨rfl, obdata.toNat_lt⟩
  have htype : m.head.type = PipeMsgType.data.code := by cases m <;> rfl
  rw [PipeMsgHead.read_bytes, Nat.mod_eq_of_lt hlen, htype, hdata.1, Nat.mod_eq_of_lt hdata.2]
  rfl

/-- A message whose head is right is handed on as it was sent. -/
theorem messageOf_written (h : m.head.length = m.body.length) :
    messageOf (m.head.bytes ++ m.body) = some (m.body, m.obdata) := by
  have hlen : (m.head.bytes ++ m.body).length = PipeMsgHead.size + m.body.length := by
    rw [List.length_append, PipeMsgHead.length_bytes]
  have hdata : handleData (m.head.bytes ++ m.body) = .message m.body m.obdata := by
    simp only [handleData, read_head, hlen, h]
    rw [if_neg (by omega), if_neg (by decide), if_neg (by decide),
      List.drop_left' (PipeMsgHead.length_bytes _), List.take_length]
  rw [messageOf, hdata]

/-- A package from which a message was taken holds its head and its body. -/
theorem length_of_messageOf {d body : List UInt8} {obdata : ℕ}
    (h : messageOf d = some (body, obdata)) :
    body.length = (PipeMsgHead.read d).length
      ∧ (PipeMsgHead.read d).length + PipeMsgHead.size ≤ d.length := by
  simp only [messageOf, handleData] at h
  split at h
  · rename_i b o hm
    split_ifs at hm with hshort
    obtain ⟨rfl, rfl⟩ := Handled.message.inj hm
    obtain ⟨rfl, rfl⟩ := Prod.mk.inj (Option.some.inj h)
    rw [List.length_take, List.length_drop]
    omega
  · exact absurd h (by simp)

end Written

/-! ## Every cut of a sound stream delivers it -/

section Delivering

theorem handlePackage_head {d : List UInt8} (h : PipeMsgHead.size ≤ d.length)
    (hK : d.length ≤ kReadBufferSize) :
    handlePackage d = if d.length < (PipeMsgHead.read d).length + PipeMsgHead.size then 0
      else (PipeMsgHead.read d).length + PipeMsgHead.size := by
  rw [kReadBufferSize] at hK
  rw [handlePackage, if_neg (by omega)]
  split_ifs
  · rfl
  · rw [toInt32_of_lt (by omega)]
    omega

theorem handlePackage_range {d : List UInt8} (hK : d.length ≤ kReadBufferSize) :
    handlePackage d = 0
      ∨ ((PipeMsgHead.size : ℤ) ≤ handlePackage d ∧ handlePackage d ≤ d.length) := by
  by_cases h : d.length < PipeMsgHead.size
  · exact .inl (by rw [handlePackage, if_pos h])
  · rw [handlePackage_head (by omega) hK]
    split_ifs
    · exact .inl rfl
    · exact .inr ⟨by omega, by omega⟩

theorem recognises_of_sound {xs : List Sent} (hfit : ∀ x ∈ xs, Fits x.message)
    (hsound : ∀ x ∈ xs, Sound x) : TcpSocket.Recognises receiver (xs.map Sent.bytes) := by
  -- a message as it stands in the stream
  have hmem : ∀ p ∈ xs.map Sent.bytes, ∃ m : Message, p = m.head.bytes ++ m.body
      ∧ m.head.length = m.body.length ∧ p.length = m.body.length + PipeMsgHead.size
      ∧ p.length ≤ kReadBufferSize := by
    intro p hp
    obtain ⟨x, hx, rfl⟩ := List.mem_map.mp hp
    have hbytes := bytes_eq_iff.mpr (hsound x hx).2
    have hlen : x.bytes.length = x.message.body.length + PipeMsgHead.size := by
      rw [hbytes, List.length_append, PipeMsgHead.length_bytes, Nat.add_comm]
    exact ⟨x.message, hbytes, (headLength_eq_iff (hfit x hx)).mpr (hsound x hx).1, hlen,
      hlen ▸ hfit x hx⟩
  refine ⟨fun p hp ↦ ?_, fun p hp log tail hK ↦ ?_, fun p hp u hne hpre hlt log tail hK ↦ ?_⟩
  · obtain ⟨m, -, -, hlen, hK⟩ := hmem p hp
    exact ⟨by rw [hlen, PipeMsgHead.size]; omega, hK⟩
  · obtain ⟨m, rfl, hhead, hlen, -⟩ := hmem p hp
    have hsize : PipeMsgHead.size ≤ (m.head.bytes ++ m.body ++ tail).length := by
      rw [List.length_append, hlen]
      omega
    rw [receiver_handlePackage, handlePackage_head hsize hK, List.append_assoc, read_head,
      ← List.append_assoc, hhead, if_neg (by rw [List.length_append, hlen]; omega), hlen]
  · obtain ⟨m, rfl, hhead, hlen, -⟩ := hmem p hp
    have hK' : (u ++ tail).length ≤ kReadBufferSize := hK
    rw [receiver_handlePackage, receiver_kReadBufferSize]
    rcases handlePackage_range hK' with h0 | ⟨hlow, hhigh⟩
    · exact ⟨.inl (by omega), by omega⟩
    refine ⟨.inr ?_, by omega⟩
    rcases Nat.lt_or_ge u.length PipeMsgHead.size with hshort | hlong
    · omega
    · -- the head is complete, and it is the head of the message
      have hread : PipeMsgHead.read (u ++ tail)
          = ⟨m.head.length, PipeMsgType.data.code, m.obdata⟩ := by
        obtain ⟨more, hmore⟩ := hpre
        have hsame : PipeMsgHead.read (u ++ more) = PipeMsgHead.read u :=
          PipeMsgHead.read_append hlong
        rw [PipeMsgHead.read_append hlong, ← hsame, hmore, read_head]
      rw [handlePackage_head (by rw [List.length_append]; omega) hK', hread] at hlow ⊢
      split_ifs at hlow ⊢
      · rw [PipeMsgHead.size] at hlow
        omega
      · rw [hlen] at hlt
        rw [hhead]
        omega

theorem messageOf_sound {xs : List Sent} (hfit : ∀ x ∈ xs, Fits x.message)
    (hsound : ∀ x ∈ xs, Sound x) :
    (xs.map Sent.bytes).filterMap messageOf
      = xs.map fun x ↦ (x.message.body, x.message.obdata) := by
  induction xs with
  | nil => rfl
  | cons x xs ih =>
    have hx := hsound x List.mem_cons_self
    have hhead := (headLength_eq_iff (hfit x List.mem_cons_self)).mpr hx.1
    have hone : messageOf x.bytes = some (x.message.body, x.message.obdata) := by
      rw [bytes_eq_iff.mpr hx.2, messageOf_written hhead]
    rw [List.map_cons, List.filterMap_cons_some hone, List.map_cons,
      ih (fun y hy ↦ hfit y (List.mem_cons_of_mem _ hy))
        (fun y hy ↦ hsound y (List.mem_cons_of_mem _ hy))]

end Delivering

/-! ## What is delivered accounts for the stream -/

section Counting

/-- The bytes that messages take with their heads. -/
def cost (es : List (List UInt8 × ℕ)) : ℕ := (es.map fun e ↦ PipeMsgHead.size + e.1.length).sum

/-- The expected calls of `handle_message`. -/
def expected (xs : List Sent) : List (List UInt8 × ℕ) :=
  xs.map fun x ↦ (x.message.body, x.message.obdata)

theorem cost_cons (body : List UInt8) (obdata : ℕ) (es : List (List UInt8 × ℕ)) :
    cost ((body, obdata) :: es) = PipeMsgHead.size + body.length + cost es := by
  rw [cost, cost, List.map_cons, List.sum_cons]

theorem expected_cons (x : Sent) (xs : List Sent) :
    expected (x :: xs) = (x.message.body, x.message.obdata) :: expected xs := rfl

theorem cost_le (ps : List (List UInt8)) : cost (ps.filterMap messageOf) ≤ ps.flatten.length := by
  induction ps with
  | nil => exact Nat.le_refl 0
  | cons p ps ih =>
    rw [List.flatten_cons, List.length_append]
    cases hm : messageOf p with
    | none =>
      rw [List.filterMap_cons_none hm]
      omega
    | some e =>
      obtain ⟨body, obdata⟩ := e
      obtain ⟨hbody, hlen⟩ := length_of_messageOf hm
      rw [List.filterMap_cons_some hm, cost_cons]
      omega

theorem length_stream_le (xs : List Sent) :
    (xs.map Sent.bytes).flatten.length ≤ cost (expected xs) := by
  induction xs with
  | nil => exact Nat.le_refl 0
  | cons x xs ih =>
    have hx := (bytes_prefix_message x).length_le
    rw [List.length_append, PipeMsgHead.length_bytes] at hx
    rw [List.map_cons, List.flatten_cons, List.length_append, expected_cons, cost_cons]
    omega

/-- When the packages make up the stream and all messages were taken from them, every message was
written as it should be. -/
theorem sound_of_packages {ps : List (List UInt8)} {xs : List Sent}
    (hfit : ∀ x ∈ xs, Fits x.message) (hps : ps.flatten = (xs.map Sent.bytes).flatten)
    (hmsg : ps.filterMap messageOf = expected xs) : ∀ x ∈ xs, Sound x := by
  induction ps generalizing xs with
  | nil =>
    cases xs with
    | nil => simp
    | cons x xs => simp [expected] at hmsg
  | cons p ps ih =>
    have hlen := congrArg List.length hps
    rw [List.flatten_cons, List.length_append] at hlen
    have hcost := cost_le ps
    have hstream := length_stream_le xs
    cases hm : messageOf p with
    | none =>
      -- there is no room for a package that carries no message
      rw [List.filterMap_cons_none hm] at hmsg
      rw [hmsg] at hcost
      have hnil : p = [] := List.length_eq_zero_iff.mp (by omega)
      rw [hnil, List.flatten_cons, List.nil_append] at hps
      exact ih hfit hps hmsg
    | some e =>
      rw [List.filterMap_cons_some hm] at hmsg
      cases xs with
      | nil => simp [expected] at hmsg
      | cons x xs =>
        rw [expected_cons] at hmsg
        obtain ⟨rfl, htail⟩ := List.cons.inj hmsg
        obtain ⟨hbody, hfits⟩ := length_of_messageOf hm
        rw [htail] at hcost
        have hrest := length_stream_le xs
        have hx := (bytes_prefix_message x).length_le
        rw [List.length_append, PipeMsgHead.length_bytes] at hx
        rw [List.map_cons, List.flatten_cons] at hps
        rw [List.map_cons, List.flatten_cons, List.length_append] at hlen
        have hfull : x.bytes.length = (x.message.head.bytes ++ x.message.body).length := by
          rw [List.length_append, PipeMsgHead.length_bytes]
          omega
        have hbytes : x.bytes = x.message.head.bytes ++ x.message.body :=
          (bytes_prefix_message x).eq_of_length hfull
        rw [List.length_append, PipeMsgHead.length_bytes] at hfull
        obtain ⟨hp, hps'⟩ := List.append_inj hps (by omega)
        intro y hy
        rcases List.mem_cons.mp hy with rfl | hy
        · refine ⟨(headLength_eq_iff (hfit _ List.mem_cons_self)).mp ?_, bytes_eq_iff.mp hbytes⟩
          rw [hp, hbytes, read_head] at hbody
          exact hbody.symm
        · exact ih (fun z hz ↦ hfit z (List.mem_cons_of_mem _ hz)) hps' htail y hy

end Counting

/-! ## The protocol, settled -/

/-- **When the pipe protocol delivers what was sent.** For every list of messages that fit, however
full `send_buffer` was at each of them, and for every way of cutting the stream into reads at an
open receiver bound to a session: `handle_message` is called exactly once for each message, in
order, with its body and its number, if and only if every message is sound. -/
theorem messages_eq_iff_sound (xs : List Sent) {chunks : List (List UInt8)} {s s' : TcpSocket}
    (hfit : ∀ x ∈ xs, Fits x.message) (hopen : TcpSocket.Holding receiver s [])
    (hnew : delivered s.log = [] ∧ receivedBytes s.log = [])
    (hstream : chunks.flatten = (xs.map Sent.bytes).flatten)
    (hrun : (TcpSocket.system receiver).run s (TcpSocket.readsOf chunks) = some s') :
    messages s'.log = xs.map (fun x ↦ (x.message.body, x.message.obdata)) ↔ ∀ x ∈ xs, Sound x := by
  constructor
  · intro hmsg
    have hflow := (hopen.flowing (by rw [hnew.1, hnew.2]; rfl)).run hrun
    have hrec := TcpSocket.receivedBytes_run hrun
    rw [hnew.2, List.nil_append, hstream] at hrec
    -- the packages delivered are pieces of the stream, and long enough to be all of it
    have hsub : (delivered s'.log).flatten.Sublist (xs.map Sent.bytes).flatten := by
      rw [← hrec]
      exact (List.sublist_append_left _ _).trans hflow.accounted
    have hlong : (xs.map Sent.bytes).flatten.length ≤ (delivered s'.log).flatten.length :=
      calc (xs.map Sent.bytes).flatten.length
          ≤ cost (expected xs) := length_stream_le xs
        _ = cost ((delivered s'.log).filterMap messageOf) := by rw [expected, ← hmsg, messages]
        _ ≤ (delivered s'.log).flatten.length := cost_le _
    exact sound_of_packages hfit (hsub.eq_of_length_le hlong) hmsg
  · intro hsound
    have hrec := recognises_of_sound hfit hsound
    have hseg : Segments.Partial (xs.map Sent.bytes) ([] : List UInt8) := by
      intro p rest hp
      exact (hrec.fits p (hp ▸ List.mem_cons_self)).1
    obtain ⟨done, todo, rest, hps, -, hrest, hpart, -, hdel⟩ :=
      hopen.run_recognised hrec hseg
        (show [] ++ chunks.flatten ++ [] = (xs.map Sent.bytes).flatten by simpa using hstream) hrun
    obtain rfl : todo = [] := by
      cases todo with
      | nil => rfl
      | cons p todo =>
        have hlt := Segments.partial_cons.mp hpart
        rw [List.append_nil] at hrest
        rw [hrest, List.flatten_cons, List.length_append] at hlt
        omega
    rw [messages, hdel, hnew.1, List.nil_append, ← messageOf_sound hfit hsound, hps,
      List.append_nil]

/-- A string and a number followed by a string, in two reads. -/
theorem messages_two_reads :
    ∃ s', (TcpSocket.system receiver).run (accepted.initRead receiver) (TcpSocket.readsOf
        [[2, 0, 0, 0, 3, 0, 0, 0, 7, 0, 0, 0, 0, 0, 0, 0, 104, 105, 3, 0],
          [0, 0, 3, 0, 0, 0, 0, 0, 0, 0, 0, 0, 0, 0, 1, 2, 9]]) = some s'
      ∧ messages s'.log = [([104, 105], 7), ([1, 2, 9], 0)] := by
  have hiff := messages_eq_iff_sound
    [⟨0, .send [104, 105] 7⟩, ⟨18, .msend (.value [1, 2]) [.str [9]]⟩]
    (by decide) (TcpSocket.holding_accepted (Nat.succ_pos _)) ⟨rfl, rfl⟩
    (show [[2, 0, 0, 0, 3, 0, 0, 0, 7, 0, 0, 0, 0, 0, 0, 0, 104, 105, 3, 0],
      [0, 0, 3, 0, 0, 0, 0, 0, 0, 0, 0, 0, 0, 0, 1, 2, 9]].flatten = _ by decide) rfl
  exact ⟨_, rfl, hiff.mpr (by decide)⟩

/-- The C string `"hi"` is announced as one byte: the session is handed `"h"`, and the other byte
is taken for the head of the next message. -/
theorem cstring_cut_short :
    Fits (.msend (.cstr [104, 105, 0]) [])
      ∧ Sent.bytes ⟨0, .msend (.cstr [104, 105, 0]) []⟩
        = [1, 0, 0, 0, 3, 0, 0, 0, 0, 0, 0, 0, 0, 0, 0, 0, 104, 105]
      ∧ TcpSocket.Holding receiver (accepted.initRead receiver) []
      ∧ ∃ s', (TcpSocket.system receiver).run (accepted.initRead receiver) (TcpSocket.readsOf
          [[1, 0, 0, 0, 3, 0, 0, 0, 0, 0, 0, 0, 0, 0, 0, 0, 104, 105]]) = some s'
        ∧ messages s'.log = [([104], 0)]
        ∧ messages s'.log ≠ [((Message.msend (.cstr [104, 105, 0]) []).body, 0)] :=
  ⟨by decide, by decide, TcpSocket.holding_accepted (Nat.succ_pos _), _, rfl, by decide, by decide⟩

end Knet.Pipe
