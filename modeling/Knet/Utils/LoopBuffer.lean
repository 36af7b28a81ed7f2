import Knet.Lib.Ring
import Knet.Lib.StepSystem
import Mathlib.Order.Bounds.Basic

/-!
# The loop buffer

`LoopBuffer<kMaxSize>`: a byte queue in a fixed array. `head` and `tail` are 32-bit counters that
only count up; they wrap, and so do the positions in the array that are taken from their low bits.
What is in the queue is the window from `head` on of length `tail - head`, in the ring of the array
(`LoopBuffer.queue`). The two moduli go together because the size of the array is a power of two and
so divides `2 ^ 32`.

`Fifo` says what the buffer is for: a bounded queue of bytes that hands out its front up to the end
of the current turn. `refines_fifo` says that the two cannot be told apart by their callers.
-/

namespace Knet.Utils

/-! ## The size of the array -/

/-- `get_power_of_two`. -/
def getPowerOfTwo (n : UInt32) : UInt32 :=
  let n := n - 1
  let n := n ||| n >>> 1
  let n := n ||| n >>> 2
  let n := n ||| n >>> 4
  let n := n ||| n >>> 8
  let n := n ||| n >>> 16
  n + 1

/-- `BufferSize`. -/
def bufferSize (kMaxSize : ℕ) : UInt32 :=
  if kMaxSize &&& (kMaxSize - 1) ≠ 0 then getPowerOfTwo (UInt32.ofNat kMaxSize)
  else UInt32.ofNat kMaxSize

theorem toNat_getPowerOfTwo {n : UInt32} (hpos : 1 ≤ n.toNat) (hle : n.toNat ≤ 2 ^ 31) :
    (getPowerOfTwo n).toNat = 2 ^ (n.toNat - 1).size := by
  have hpred : (n - 1).toNat = n.toNat - 1 :=
    UInt32.toNat_sub_of_le n 1 (UInt32.le_iff_toNat_le.mpr hpos)
  have hsize : (n.toNat - 1).size ≤ 31 := Nat.size_le.mpr (by omega)
  have hpow : 2 ^ (n.toNat - 1).size ≤ 2 ^ 31 := Nat.pow_le_pow_right (by decide) hsize
  have hone : 0 < 2 ^ (n.toNat - 1).size := Nat.two_pow_pos _
  have hfill : (getPowerOfTwo n).toNat = (PowerOfTwo.fill (n.toNat - 1) + 1) % 2 ^ 32 := by
    rw [← hpred]
    rfl
  rw [hfill, PowerOfTwo.fill_eq (by omega), Nat.sub_add_cancel hone, Nat.mod_eq_of_lt (by omega)]

/-- **The size of the array is the least power of two from `kMaxSize` on.** -/
theorem isLeast_bufferSize {kMaxSize : ℕ} (hpos : 1 ≤ kMaxSize) (hle : kMaxSize ≤ 2 ^ 31) :
    IsLeast {n | kMaxSize ≤ n ∧ ∃ i, n = 2 ^ i} (bufferSize kMaxSize).toNat := by
  have hnat : (UInt32.ofNat kMaxSize).toNat = kMaxSize := by
    rw [UInt32.toNat_ofNat', Nat.mod_eq_of_lt (by omega)]
  rw [bufferSize]
  split_ifs with hpow
  · rw [toNat_getPowerOfTwo (by omega) (by omega), hnat]
    constructor
    · exact ⟨by have := Nat.lt_size_self (kMaxSize - 1); omega, _, rfl⟩
    · rintro n ⟨hn, i, rfl⟩
      exact Nat.pow_le_pow_right (by decide) (Nat.size_le.mpr (by omega))
  · rw [hnat]
    refine ⟨⟨Nat.le_refl _, ?_⟩, fun n hn ↦ hn.1⟩
    exact (Nat.and_sub_one_eq_zero_iff_isPowerOfTwo (by omega)).mp (not_not.mp hpow)

theorem exists_bufferSize {kMaxSize : ℕ} (hpos : 1 ≤ kMaxSize) (hle : kMaxSize ≤ 2 ^ 31) :
    ∃ i ≤ 31, (bufferSize kMaxSize).toNat = 2 ^ i := by
  obtain ⟨⟨-, i, hi⟩, hleast⟩ := isLeast_bufferSize hpos hle
  have hmax : (bufferSize kMaxSize).toNat ≤ 2 ^ 31 := hleast ⟨hle, 31, rfl⟩
  exact ⟨i, (Nat.pow_le_pow_iff_right (by decide)).mp (hi ▸ hmax), hi⟩

/-! ## The buffer -/

/-- A `LoopBuffer`. The array is the first `BufferSize` cells of `buffer`. -/
structure LoopBuffer (kMaxSize : ℕ) where
  head : UInt32 := 0
  tail : UInt32 := 0
  buffer : Memory UInt8

namespace LoopBuffer

variable {kMaxSize : ℕ}

/-- `size`. -/
def size (b : LoopBuffer kMaxSize) : UInt32 := b.tail - b.head

/-- `peek`. -/
def peek (b : LoopBuffer kMaxSize) : UInt32 := bufferSize kMaxSize - (b.tail - b.head)

/-- `empty`. -/
def empty (b : LoopBuffer kMaxSize) : Bool := b.head = b.tail

/-- `clear`. -/
def clear (b : LoopBuffer kMaxSize) : LoopBuffer kMaxSize := { b with head := 0, tail := 0 }

/-- The array after the bytes of `push` were copied into it. -/
def copyIn (b : LoopBuffer kMaxSize) (data : Memory UInt8) (dataLen : UInt32) : Memory UInt8 :=
  let writePos := b.tail &&& (bufferSize kMaxSize - 1)
  let tailSize := bufferSize kMaxSize - writePos
  if tailSize < dataLen then
    (b.buffer.write writePos.toNat (data.read 0 tailSize.toNat)).write 0
      (data.read tailSize.toNat (dataLen - tailSize).toNat)
  else b.buffer.write writePos.toNat (data.read 0 dataLen.toNat)

/-- `push(data, dataLen)`, where `data` is the memory from the pointer on. -/
def push (b : LoopBuffer kMaxSize) (data : Memory UInt8) (dataLen : UInt32) :
    LoopBuffer kMaxSize × UInt32 :=
  let bufLen := bufferSize kMaxSize - (b.tail - b.head)
  if bufLen < dataLen then (b, 0)
  else ({ b with buffer := b.copyIn data dataLen, tail := b.tail + dataLen }, dataLen)

/-- The bytes that `pop` and both overloads of `read` present, and their number. Nothing is
presented when the buffer is empty. -/
def front (b : LoopBuffer kMaxSize) : Option (List UInt8) × UInt32 :=
  let dataLen := b.tail - b.head
  if dataLen = 0 then (none, 0)
  else
    let readPos := b.head &&& (bufferSize kMaxSize - 1)
    let left := bufferSize kMaxSize - readPos
    let len := if left < dataLen then left else dataLen
    (some (b.buffer.read readPos.toNat len.toNat), len)

/-- `pop(handler)`, with the bytes given to the handler and the result. -/
def pop (b : LoopBuffer kMaxSize) : LoopBuffer kMaxSize × Option (List UInt8) × Int32 :=
  ({ b with head := b.head + b.front.2 }, b.front.1, b.front.2.toInt32)

/-- `read(handler)`, with the bytes given to the handler and the result. -/
def read (b : LoopBuffer kMaxSize) : Option (List UInt8) × Int32 := (b.front.1, b.front.2.toInt32)

/-- `read()`, with the bytes the pointer leads to. -/
def readPair (b : LoopBuffer kMaxSize) : Option (List UInt8) × UInt32 := b.front

/-- `commit`. -/
def commit (b : LoopBuffer kMaxSize) (len : UInt32) : LoopBuffer kMaxSize × UInt32 :=
  ({ b with head := b.head + len }, len)

/-- The bytes in the queue. -/
def queue (b : LoopBuffer kMaxSize) : List UInt8 :=
  b.buffer.ring (bufferSize kMaxSize).toNat b.head.toNat b.size.toNat

/-- The queue is not longer than the array. -/
def Sound (b : LoopBuffer kMaxSize) : Prop := b.size.toNat ≤ (bufferSize kMaxSize).toNat

@[simp] theorem length_queue (b : LoopBuffer kMaxSize) : b.queue.length = b.size.toNat :=
  Memory.length_ring _ _ _

/-! ### What each operation does -/

section

variable {i : ℕ} (hi : i ≤ 31) (hsize : (bufferSize kMaxSize).toNat = 2 ^ i)

include hi in
theorem two_pow_le : 2 ^ i ≤ 2 ^ 31 := Nat.pow_le_pow_right (by decide) hi

theorem toNat_tail (b : LoopBuffer kMaxSize) :
    b.tail.toNat = (b.head.toNat + b.size.toNat) % 2 ^ 32 := by
  rw [size, UInt32.toNat_sub]
  have := b.head.toNat_lt
  have := b.tail.toNat_lt
  omega

include hsize

theorem toNat_place (x : UInt32) :
    (x &&& (bufferSize kMaxSize - 1)).toNat = x.toNat % (bufferSize kMaxSize).toNat := by
  have hone : (bufferSize kMaxSize - 1).toNat = 2 ^ i - 1 := by
    rw [UInt32.toNat_sub_of_le _ _ (UInt32.le_iff_toNat_le.mpr (hsize ▸ Nat.two_pow_pos i)), hsize]
    rfl
  rw [UInt32.toNat_and, hone, hsize, Nat.and_two_pow_sub_one_eq_mod]

include hi in
theorem mod_place (n : ℕ) : n % 2 ^ 32 % (bufferSize kMaxSize).toNat
    = n % (bufferSize kMaxSize).toNat := by
  rw [hsize]
  exact Nat.mod_mod_of_dvd n (Nat.pow_dvd_pow 2 (by omega))

omit hsize in
theorem toNat_peek {b : LoopBuffer kMaxSize} (hb : b.Sound) :
    b.peek.toNat = (bufferSize kMaxSize).toNat - b.size.toNat :=
  UInt32.toNat_sub_of_le _ _ (UInt32.le_iff_toNat_le.mpr hb)

theorem toNat_sub_place (x : UInt32) :
    (bufferSize kMaxSize - (x &&& (bufferSize kMaxSize - 1))).toNat
      = (bufferSize kMaxSize).toNat - x.toNat % (bufferSize kMaxSize).toNat := by
  have hplace := toNat_place hsize x
  have hlt : x.toNat % (bufferSize kMaxSize).toNat < (bufferSize kMaxSize).toNat :=
    Nat.mod_lt _ (hsize ▸ Nat.two_pow_pos i)
  rw [UInt32.toNat_sub_of_le _ _ (UInt32.le_iff_toNat_le.mpr (by omega)), hplace]

include hi

theorem copyIn_eq (b : LoopBuffer kMaxSize) (data : Memory UInt8) (dataLen : UInt32) :
    b.copyIn data dataLen = b.buffer.ringWrite (bufferSize kMaxSize).toNat
      (b.head.toNat + b.size.toNat) (data.read 0 dataLen.toNat) := by
  have hpos : b.tail.toNat % (bufferSize kMaxSize).toNat
      = (b.head.toNat + b.size.toNat) % (bufferSize kMaxSize).toNat := by
    rw [toNat_tail, mod_place hi hsize]
  rw [copyIn, Memory.ringWrite, ← hpos, ← toNat_sub_place hsize, ← toNat_place hsize]
  simp only [Memory.length_read, UInt32.lt_iff_toNat_lt]
  split_ifs with hsplit
  · have hle := UInt32.le_iff_toNat_le.mpr (Nat.le_of_lt hsplit)
    rw [Memory.take_read _ _ (Nat.le_of_lt hsplit), Memory.drop_read, Nat.zero_add,
      UInt32.toNat_sub_of_le _ _ hle]
  · rfl

/-- **`push` appends everything when it fits.** -/
theorem push_of_le {b : LoopBuffer kMaxSize} (hb : b.Sound) (data : Memory UInt8)
    {dataLen : UInt32} (hfit : dataLen.toNat ≤ (bufferSize kMaxSize).toNat - b.size.toNat) :
    (b.push data dataLen).1.queue = b.queue ++ data.read 0 dataLen.toNat
      ∧ (b.push data dataLen).1.Sound ∧ (b.push data dataLen).1.head = b.head
      ∧ (b.push data dataLen).2 = dataLen := by
  have hroom : ¬b.peek < dataLen := by
    rw [UInt32.lt_iff_toNat_lt, toNat_peek hb]
    omega
  have hpush : b.push data dataLen
      = ({ b with buffer := b.copyIn data dataLen, tail := b.tail + dataLen }, dataLen) :=
    if_neg hroom
  have hpow := two_pow_le hi
  rw [Sound] at hb
  have hsize' : (b.tail + dataLen - b.head).toNat = b.size.toNat + dataLen.toNat := by
    have := b.head.toNat_lt
    have := b.tail.toNat_lt
    rw [UInt32.toNat_sub, UInt32.toNat_add]
    rw [size, UInt32.toNat_sub] at *
    omega
  rw [hpush]
  refine ⟨?_, ?_, rfl, rfl⟩
  · have hlen : b.size.toNat + (data.read 0 dataLen.toNat).length
        ≤ (bufferSize kMaxSize).toNat := by
      rw [Memory.length_read]
      omega
    simp only [queue, copyIn_eq hi hsize]
    rw [← Memory.ring_ringWrite_append hlen, Memory.length_read]
    exact congrArg _ hsize'
  · exact (Nat.le_of_eq hsize').trans (by omega)

omit hi hsize in
theorem push_of_lt {b : LoopBuffer kMaxSize} (hb : b.Sound) (data : Memory UInt8)
    {dataLen : UInt32} (hfull : (bufferSize kMaxSize).toNat - b.size.toNat < dataLen.toNat) :
    b.push data dataLen = (b, 0) := by
  have hroom : b.peek < dataLen := by
    rwa [UInt32.lt_iff_toNat_lt, toNat_peek hb]
  exact if_pos hroom

omit hi hsize in
theorem queue_clear (b : LoopBuffer kMaxSize) : b.clear.queue = [] ∧ b.clear.Sound := by
  have hzero : b.clear.size.toNat = 0 := by
    rw [size, clear, UInt32.sub_self]
    rfl
  rw [queue, Sound, hzero]
  exact ⟨rfl, Nat.zero_le _⟩

omit hi hsize in
theorem size_eq_zero_iff (b : LoopBuffer kMaxSize) : b.size = 0 ↔ b.queue = [] := by
  rw [← List.length_eq_zero_iff, length_queue, ← UInt32.toNat_inj]
  rfl

/-- The part of the queue up to the end of the array. -/
def lead (b : LoopBuffer kMaxSize) : List UInt8 :=
  b.queue.take ((bufferSize kMaxSize).toNat - b.head.toNat % (bufferSize kMaxSize).toNat)

omit hi in
/-- **What is presented is the queue up to the end of the array.** -/
theorem front_eq (b : LoopBuffer kMaxSize) :
    b.front.1 = (if b.queue = [] then none else some b.lead)
      ∧ b.front.2.toNat = b.lead.length := by
  have hleft := toNat_sub_place hsize b.head
  by_cases hzero : b.size = 0
  · have hfront : b.front = (none, 0) := if_pos hzero
    have hqueue := b.size_eq_zero_iff.mp hzero
    rw [hfront, lead, hqueue, List.take_nil]
    exact ⟨rfl, rfl⟩
  · generalize hlen : (if bufferSize kMaxSize - (b.head &&& (bufferSize kMaxSize - 1))
        < b.tail - b.head then bufferSize kMaxSize - (b.head &&& (bufferSize kMaxSize - 1))
        else b.tail - b.head) = len
    have hfront : b.front
        = (some (b.buffer.read (b.head &&& (bufferSize kMaxSize - 1)).toNat len.toNat), len) := by
      rw [← hlen]
      exact if_neg hzero
    have hmin : len.toNat = min ((bufferSize kMaxSize).toNat
        - b.head.toNat % (bufferSize kMaxSize).toNat) b.size.toNat := by
      rw [← hlen, ← hleft]
      split_ifs with h
      · exact (Nat.min_eq_left (Nat.le_of_lt (UInt32.lt_iff_toNat_lt.mp h))).symm
      · exact (Nat.min_eq_right (Nat.le_of_not_lt (UInt32.lt_iff_toNat_lt.not.mp h))).symm
    have htake : b.lead = b.buffer.ring (bufferSize kMaxSize).toNat b.head.toNat len.toNat := by
      rw [lead, hmin, ← Memory.take_ring _ _ (Nat.min_le_right _ _), ← queue]
      conv_lhs => rw [← List.take_length (l := b.queue), length_queue, List.take_take]
    have hlt : b.head.toNat % (bufferSize kMaxSize).toNat < (bufferSize kMaxSize).toNat :=
      Nat.mod_lt _ (hsize ▸ Nat.two_pow_pos i)
    rw [hfront, htake, if_neg (b.size_eq_zero_iff.not.mp hzero),
      Memory.ring_eq_read (by omega), toNat_place hsize, Memory.length_read]
    exact ⟨rfl, rfl⟩

theorem queue_commit {b : LoopBuffer kMaxSize} (hb : b.Sound) {len : UInt32}
    (hlen : len.toNat ≤ b.size.toNat) :
    (b.commit len).1.queue = b.queue.drop len.toNat ∧ (b.commit len).1.Sound
      ∧ (b.commit len).1.head.toNat % (bufferSize kMaxSize).toNat
        = (b.head.toNat + len.toNat) % (bufferSize kMaxSize).toNat := by
  have hpow := two_pow_le hi
  rw [Sound] at hb
  have hplace : (b.head + len).toNat % (bufferSize kMaxSize).toNat
      = (b.head.toNat + len.toNat) % (bufferSize kMaxSize).toNat := by
    rw [UInt32.toNat_add, mod_place hi hsize]
  have hsize' : (b.tail - (b.head + len)).toNat = b.size.toNat - len.toNat := by
    have := b.head.toNat_lt
    have := b.tail.toNat_lt
    rw [UInt32.toNat_sub, UInt32.toNat_add]
    rw [size, UInt32.toNat_sub] at *
    omega
  refine ⟨?_, ?_, hplace⟩
  · rw [queue, queue, Memory.drop_ring _ _ hlen, ← hsize']
    exact Memory.ring_congr_pos hplace _
  · exact (Nat.le_of_eq hsize').trans (by omega)

end

end LoopBuffer

/-! ## The calls of a sequential user -/

/-- A call. -/
inductive Op
  | push (data : Memory UInt8) (dataLen : UInt32)
  | pop
  /-- `read(handler)`. -/
  | read
  /-- `read()`. -/
  | readPair
  /-- `commit` of the length that the last `read` returned. -/
  | commit
  | size
  | peek
  | empty
  | clear

/-- What the caller gets to see: the result, and the bytes that were presented, if any. -/
inductive Out
  | length (n : UInt32)
  | handled (bs : Option (List UInt8)) (n : Int32)
  | pair (bs : Option (List UInt8)) (n : UInt32)
  | flag (b : Bool)
  | done
  deriving DecidableEq

/-- A call with its outcome. -/
abbrev Event := Op × Out

/-- The steps of a state that answers calls, with the calls and the answers as labels. -/
def answers {σ : Type*} (exec : σ → Op → Option (σ × Out)) : StepSystem σ Event where
  step s e := (exec s e.1).bind fun r ↦ if r.2 = e.2 then some r.1 else none

theorem answers_step {σ : Type*} (exec : σ → Op → Option (σ × Out)) (s : σ) (e : Event) :
    (answers exec).step s e
      = (exec s e.1).bind fun r ↦ if r.2 = e.2 then some r.1 else none := rfl

theorem answers_step_eq_some {σ : Type*} {exec : σ → Op → Option (σ × Out)} {s t : σ} {e : Event} :
    (answers exec).step s e = some t ↔ exec s e.1 = some (t, e.2) := by
  simp only [answers, Option.bind_eq_some_iff]
  constructor
  · rintro ⟨r, hr, h⟩
    split_ifs at h with hout
    rw [hr, ← hout, ← Option.some.inj h]
  · intro h
    exact ⟨_, h, if_pos rfl⟩

/-! ### The buffer and its user -/

/-- A buffer in use, and the length returned by a `read` that was not committed yet. -/
structure Used (kMaxSize : ℕ) where
  buffer : LoopBuffer kMaxSize
  reading : Option UInt32 := none

namespace Used

variable {kMaxSize : ℕ}

/-- One call. -/
def exec (u : Used kMaxSize) : Op → Option (Used kMaxSize × Out)
  | .push data dataLen =>
    let r := u.buffer.push data dataLen
    some ({ u with buffer := r.1 }, .length r.2)
  | .pop => let r := u.buffer.pop; some ({ buffer := r.1 }, .handled r.2.1 r.2.2)
  | .read =>
    let r := u.buffer.read
    some ({ u with reading := some r.2.toUInt32 }, .handled r.1 r.2)
  | .readPair => let r := u.buffer.readPair; some ({ u with reading := some r.2 }, .pair r.1 r.2)
  | .commit =>
    u.reading.map fun len ↦ let r := u.buffer.commit len; ({ buffer := r.1 }, .length r.2)
  | .size => some (u, .length u.buffer.size)
  | .peek => some (u, .length u.buffer.peek)
  | .empty => some (u, .flag u.buffer.empty)
  | .clear => some ({ buffer := u.buffer.clear }, .done)

/-- A new buffer. Its cells hold anything. -/
def start (cells : Memory UInt8) : Used kMaxSize := { buffer := { buffer := cells } }

end Used

/-! ### The queue it stands for -/

/-- A bounded queue of bytes, for a user who can take bytes from its front. -/
structure Fifo where
  queue : List UInt8 := []
  /-- How many bytes were taken since the queue was last cleared. -/
  taken : ℕ := 0
  /-- The bytes that were read and not committed yet. -/
  reading : Option (List UInt8) := none

namespace Fifo

variable (capacity : ℕ)

/-- What can be taken at once: the front of the queue, as far as the current turn goes. -/
def front (f : Fifo) : List UInt8 := f.queue.take (capacity - f.taken % capacity)

/-- What is presented to the user. -/
def presented (f : Fifo) : Option (List UInt8) :=
  if f.queue = [] then none else some (f.front capacity)

/-- The first `n` bytes are gone. -/
def advance (f : Fifo) (n : ℕ) : Fifo := { queue := f.queue.drop n, taken := f.taken + n }

/-- One call. -/
def exec (f : Fifo) : Op → Option (Fifo × Out)
  | .push data dataLen =>
    some <| if dataLen.toNat ≤ capacity - f.queue.length then
      ({ f with queue := f.queue ++ data.read 0 dataLen.toNat }, .length dataLen)
    else (f, .length 0)
  | .pop =>
    some (f.advance (f.front capacity).length,
      .handled (f.presented capacity) (UInt32.ofNat (f.front capacity).length).toInt32)
  | .read =>
    some ({ f with reading := some (f.front capacity) },
      .handled (f.presented capacity) (UInt32.ofNat (f.front capacity).length).toInt32)
  | .readPair =>
    some ({ f with reading := some (f.front capacity) },
      .pair (f.presented capacity) (UInt32.ofNat (f.front capacity).length))
  | .commit => f.reading.map fun bs ↦ (f.advance bs.length, .length (UInt32.ofNat bs.length))
  | .size => some (f, .length (UInt32.ofNat f.queue.length))
  | .peek => some (f, .length (UInt32.ofNat (capacity - f.queue.length)))
  | .empty => some (f, .flag f.queue.isEmpty)
  | .clear => some ({}, .done)

variable {capacity}

/-- Something can be taken whenever there is something. -/
theorem front_ne_nil (hcap : 0 < capacity) {f : Fifo} (hf : f.queue ≠ []) :
    f.front capacity ≠ [] := by
  have hlt : f.taken % capacity < capacity := Nat.mod_lt _ hcap
  rw [front, Ne, List.take_eq_nil_iff, not_or]
  exact ⟨by omega, hf⟩

theorem front_prefix (f : Fifo) : f.front capacity <+: f.queue := List.take_prefix _ _

end Fifo

/-! ### What a user can work out from the answers -/

/-- The bytes that were pushed and taken since the last `clear`, and those a `read` presented. -/
structure History where
  pushed : List UInt8 := []
  taken : List UInt8 := []
  reading : List UInt8 := []

/-- The history after one more call. A `push` tells how many bytes it has taken. -/
def History.next (h : History) : Event → History
  | (.push data _, .length n) => { h with pushed := h.pushed ++ data.read 0 n.toNat }
  | (.pop, .handled bs _) => { h with taken := h.taken ++ bs.getD [], reading := [] }
  | (.read, .handled bs _) => { h with reading := bs.getD [] }
  | (.readPair, .pair bs _) => { h with reading := bs.getD [] }
  | (.commit, _) => { h with taken := h.taken ++ h.reading, reading := [] }
  | (.clear, _) => {}
  | _ => h

/-- The history of a sequence of calls. -/
def history (es : List Event) : History := es.foldl History.next {}

namespace Fifo

variable (capacity : ℕ)

/-- The queue and the history belong together. -/
structure Fits (h : History) (f : Fifo) : Prop where
  balance : h.taken ++ f.queue = h.pushed
  reading : h.reading = f.reading.getD []
  le_queue : h.reading <+: f.queue

variable {capacity}

theorem presented_getD (f : Fifo) : (f.presented capacity).getD [] = f.front capacity := by
  rw [presented]
  split_ifs with hnil
  · rw [front, hnil, List.take_nil]
    rfl
  · rfl

theorem Fits.advance {h : History} {f : Fifo} (hf : Fits h f) {bs : List UInt8}
    (hbs : bs <+: f.queue) :
    Fits { h with taken := h.taken ++ bs, reading := [] } (f.advance bs.length) := by
  obtain ⟨rest, hrest⟩ := hbs
  refine ⟨?_, rfl, List.nil_prefix⟩
  rw [Fifo.advance, ← hrest, List.drop_left, List.append_assoc, hrest]
  exact hf.balance

theorem Fits.step {h : History} {f f' : Fifo} (hf : Fits h f) {e : Event}
    (hstep : (answers (exec capacity)).step f e = some f') : Fits (h.next e) f' := by
  obtain ⟨op, out⟩ := e
  rw [answers_step_eq_some] at hstep
  cases op with
  | push data dataLen =>
    simp only [exec, Option.some.injEq] at hstep
    split_ifs at hstep with hfit
    · obtain ⟨rfl, rfl⟩ := Prod.mk.inj hstep
      -- all of the data is queued, behind what a `read` may have handed out
      refine ⟨?_, hf.reading, hf.le_queue.trans (List.prefix_append _ _)⟩
      rw [History.next, ← List.append_assoc, hf.balance]
    · obtain ⟨rfl, rfl⟩ := Prod.mk.inj hstep
      -- nothing is queued, and the answer is 0
      refine ⟨?_, hf.reading, hf.le_queue⟩
      rw [History.next, hf.balance]
      exact (List.append_nil _).symm
  | pop =>
    obtain ⟨rfl, rfl⟩ := Prod.mk.inj (Option.some.inj hstep)
    rw [History.next, presented_getD]
    exact hf.advance f.front_prefix
  | read =>
    obtain ⟨rfl, rfl⟩ := Prod.mk.inj (Option.some.inj hstep)
    rw [History.next, presented_getD]
    exact ⟨hf.balance, rfl, f.front_prefix⟩
  | readPair =>
    obtain ⟨rfl, rfl⟩ := Prod.mk.inj (Option.some.inj hstep)
    rw [History.next, presented_getD]
    exact ⟨hf.balance, rfl, f.front_prefix⟩
  | commit =>
    obtain ⟨bs, hbs, heq⟩ := Option.map_eq_some_iff.mp hstep
    obtain ⟨rfl, rfl⟩ := Prod.mk.inj heq
    have hreading : h.reading = bs := by rw [hf.reading, hbs, Option.getD_some]
    rw [History.next, hreading]
    exact hf.advance (hreading ▸ hf.le_queue)
  | size =>
    obtain ⟨rfl, rfl⟩ := Prod.mk.inj (Option.some.inj hstep)
    exact hf
  | peek =>
    obtain ⟨rfl, rfl⟩ := Prod.mk.inj (Option.some.inj hstep)
    exact hf
  | empty =>
    obtain ⟨rfl, rfl⟩ := Prod.mk.inj (Option.some.inj hstep)
    exact hf
  | clear =>
    obtain ⟨rfl, rfl⟩ := Prod.mk.inj (Option.some.inj hstep)
    exact ⟨rfl, rfl, List.nil_prefix⟩

/-- **Nothing is lost, duplicated or reordered.** -/
theorem Fits.run {h : History} {f f' : Fifo} (hf : Fits h f) {es : List Event}
    (hrun : (answers (exec capacity)).run f es = some f') : Fits (es.foldl History.next h) f' := by
  induction es generalizing h f with
  | nil => exact Option.some.inj hrun ▸ hf
  | cons e es ih =>
    obtain ⟨g, hstep, hrest⟩ := StepSystem.run_cons_eq_some.mp hrun
    exact ih (hf.step hstep) hrest

end Fifo

/-! ### The refinement -/

variable {kMaxSize : ℕ}

/-- The buffer in use stands for the queue. -/
structure Stands (u : Used kMaxSize) (f : Fifo) : Prop where
  sound : u.buffer.Sound
  queue : u.buffer.queue = f.queue
  place : u.buffer.head.toNat % (bufferSize kMaxSize).toNat
    = f.taken % (bufferSize kMaxSize).toNat
  reading : u.reading.map UInt32.toNat = f.reading.map List.length
  le_size : ∀ len ∈ u.reading, len.toNat ≤ u.buffer.size.toNat

section

variable {i : ℕ} (hi : i ≤ 31) (hsize : (bufferSize kMaxSize).toNat = 2 ^ i)
  {u : Used kMaxSize} {f : Fifo}

theorem Stands.length_queue (h : Stands u f) : u.buffer.size.toNat = f.queue.length := by
  rw [← h.queue, LoopBuffer.length_queue]

include hsize in
theorem Stands.front_eq (h : Stands u f) :
    u.buffer.front.1 = f.presented (bufferSize kMaxSize).toNat
      ∧ u.buffer.front.2.toNat = (f.front (bufferSize kMaxSize).toNat).length := by
  have hlead : u.buffer.lead = f.front (bufferSize kMaxSize).toNat := by
    rw [LoopBuffer.lead, Fifo.front, h.place, h.queue]
  rw [Fifo.presented, ← hlead, ← h.queue]
  exact u.buffer.front_eq hsize

include hsize in
theorem Stands.ofNat_front (h : Stands u f) :
    UInt32.ofNat (f.front (bufferSize kMaxSize).toNat).length = u.buffer.front.2 := by
  rw [← (h.front_eq hsize).2, UInt32.ofNat_toNat]

include hsize in
theorem Stands.front_le (h : Stands u f) : u.buffer.front.2.toNat ≤ u.buffer.size.toNat := by
  rw [(h.front_eq hsize).2, h.length_queue]
  exact f.front_prefix.length_le

include hi hsize in
theorem Stands.advance (h : Stands u f) {len : UInt32} (hlen : len.toNat ≤ u.buffer.size.toNat) :
    Stands ({ buffer := (u.buffer.commit len).1 } : Used kMaxSize) (f.advance len.toNat) := by
  obtain ⟨hqueue, hsound, hplace⟩ := LoopBuffer.queue_commit hi hsize h.sound hlen
  refine ⟨hsound, ?_, ?_, rfl, by simp⟩
  · rw [hqueue, h.queue, Fifo.advance]
  · rw [hplace, Fifo.advance, Nat.add_mod, h.place, ← Nat.add_mod]

include hi hsize in
theorem Stands.push (h : Stands u f) (data : Memory UInt8) (dataLen : UInt32) :
    ∃ f', Fifo.exec (bufferSize kMaxSize).toNat f (.push data dataLen)
        = some (f', .length (u.buffer.push data dataLen).2)
      ∧ Stands { u with buffer := (u.buffer.push data dataLen).1 } f' := by
  have hlen := h.length_queue
  rw [Fifo.exec]
  by_cases hfit : dataLen.toNat ≤ (bufferSize kMaxSize).toNat - f.queue.length
  · obtain ⟨hqueue, hsound, hhead, hret⟩ := LoopBuffer.push_of_le hi hsize h.sound data
      (hlen ▸ hfit)
    rw [if_pos hfit, hret]
    refine ⟨_, rfl, hsound, by rw [hqueue, h.queue], ?_, h.reading, ?_⟩
    · rw [hhead]
      exact h.place
    · intro len hmem
      rw [← LoopBuffer.length_queue, hqueue, List.length_append, LoopBuffer.length_queue]
      exact (h.le_size len hmem).trans (Nat.le_add_right _ _)
  · rw [if_neg hfit, LoopBuffer.push_of_lt h.sound data (by omega)]
    exact ⟨f, rfl, h⟩

include hi hsize in
theorem Stands.commit (h : Stands u f) :
    Option.Rel (fun r r' ↦ r.2 = r'.2 ∧ Stands r.1 r'.1) (u.exec .commit)
      (f.exec (bufferSize kMaxSize).toNat .commit) := by
  have hreading := h.reading
  rw [Used.exec, Fifo.exec]
  cases hu : u.reading with
  | none =>
    rw [hu, Option.map_none, eq_comm, Option.map_eq_none_iff] at hreading
    rw [hreading]
    exact .none
  | some len =>
    rw [hu, Option.map_some, eq_comm, Option.map_eq_some_iff] at hreading
    obtain ⟨bs, hbs, hlen⟩ := hreading
    rw [hbs]
    refine .some ⟨?_, ?_⟩
    · simp only [hlen, UInt32.ofNat_toNat]
      rfl
    · simp only [hlen]
      exact h.advance hi hsize (h.le_size len hu)

theorem Stands.empty_eq (h : Stands u f) : u.buffer.empty = f.queue.isEmpty := by
  have hmeet : u.buffer.head = u.buffer.tail ↔ u.buffer.size = 0 := by
    rw [LoopBuffer.size]
    constructor
    · intro heq
      rw [heq, UInt32.sub_self]
    · intro heq
      rw [← UInt32.sub_add_cancel u.buffer.tail u.buffer.head, heq, UInt32.zero_add]
  refine Bool.eq_iff_iff.mpr ?_
  rw [LoopBuffer.empty, decide_eq_true_iff, List.isEmpty_iff, hmeet,
    LoopBuffer.size_eq_zero_iff, h.queue]

include hi hsize in
/-- **One call.** The buffer and the queue answer alike, or neither admits the call. -/
theorem Stands.exec (h : Stands u f) (op : Op) :
    Option.Rel (fun r r' ↦ r.2 = r'.2 ∧ Stands r.1 r'.1) (u.exec op)
      (f.exec (bufferSize kMaxSize).toNat op) := by
  obtain ⟨hpresented, hlength⟩ := h.front_eq hsize
  have hread : Stands { u with reading := some u.buffer.front.2 }
      { f with reading := some (f.front (bufferSize kMaxSize).toNat) } := by
    refine ⟨h.sound, h.queue, h.place, congrArg some hlength, ?_⟩
    rintro _ ⟨⟩
    exact h.front_le hsize
  cases op with
  | push data dataLen =>
    obtain ⟨f', hexec, hstands⟩ := h.push hi hsize data dataLen
    rw [hexec]
    exact .some ⟨rfl, hstands⟩
  | pop =>
    refine .some ⟨?_, ?_⟩
    · rw [h.ofNat_front hsize, ← hpresented]
      rfl
    · rw [← hlength]
      exact h.advance hi hsize (h.front_le hsize)
  | read =>
    refine .some ⟨?_, hread⟩
    rw [h.ofNat_front hsize, ← hpresented]
    rfl
  | readPair =>
    refine .some ⟨?_, hread⟩
    rw [h.ofNat_front hsize, ← hpresented]
    rfl
  | commit => exact h.commit hi hsize
  | size =>
    refine .some ⟨?_, h⟩
    rw [← h.length_queue, UInt32.ofNat_toNat]
  | peek =>
    refine .some ⟨?_, h⟩
    rw [← h.length_queue, ← LoopBuffer.toNat_peek h.sound, UInt32.ofNat_toNat]
  | empty => exact .some ⟨congrArg Out.flag h.empty_eq, h⟩
  | clear =>
    obtain ⟨hqueue, hsound⟩ := u.buffer.queue_clear
    exact .some ⟨rfl, ⟨hsound, hqueue, rfl, rfl, by simp⟩⟩

include hi hsize in
theorem Stands.run (h : Stands u f) (es : List Event) :
    Option.Rel Stands ((answers Used.exec).run u es)
      ((answers (Fifo.exec (bufferSize kMaxSize).toNat)).run f es) := by
  induction es generalizing u f with
  | nil => exact .some h
  | cons e es ih =>
    rw [StepSystem.run_cons, StepSystem.run_cons]
    have hexec := h.exec hi hsize e.1
    rw [answers_step, answers_step]
    revert hexec
    generalize u.exec e.1 = r
    generalize f.exec (bufferSize kMaxSize).toNat e.1 = r'
    rintro (⟨hout, hstands⟩ | _)
    · simp only [Option.bind_some, hout]
      split_ifs
      · exact ih hstands
      · exact .none
    · exact .none

end

theorem stands_start (cells : Memory UInt8) : Stands (Used.start cells : Used kMaxSize) {} := by
  obtain ⟨hqueue, hsound⟩ := (LoopBuffer.mk 0 0 cells : LoopBuffer kMaxSize).queue_clear
  exact ⟨hsound, hqueue, rfl, rfl, by simp [Used.start]⟩

/-- **The loop buffer is a bounded queue.** For every size up to `2 ^ 31`, however often the
counters wrap: the array has the least power of two of cells that is enough; in every sequence of
calls the buffer gives the answers of a queue with that capacity, no others, and holds the same
bytes, where the part that can be taken at once is empty only if the queue is; and the bytes taken
since the last `clear`, followed by those in the queue, are the bytes pushed since then. -/
theorem refines_fifo (hpos : 1 ≤ kMaxSize) (hle : kMaxSize ≤ 2 ^ 31) (cells : Memory UInt8)
    (es : List Event) :
    IsLeast {n | kMaxSize ≤ n ∧ ∃ i, n = 2 ^ i} (bufferSize kMaxSize).toNat
      ∧ ((answers Used.exec).run (Used.start cells : Used kMaxSize) es).map (·.buffer.queue)
        = ((answers (Fifo.exec (bufferSize kMaxSize).toNat)).run {} es).map (·.queue)
      ∧ (∀ f : Fifo, f.queue ≠ [] → f.front (bufferSize kMaxSize).toNat ≠ [])
      ∧ ∀ u, (answers Used.exec).run (Used.start cells : Used kMaxSize) es = some u →
        (history es).taken ++ u.buffer.queue = (history es).pushed := by
  obtain ⟨i, hi, hsize⟩ := exists_bufferSize hpos hle
  have hstart : Stands (Used.start cells : Used kMaxSize) {} := stands_start cells
  have hrun := hstart.run hi hsize es
  refine ⟨isLeast_bufferSize hpos hle, ?_,
    fun f hf ↦ Fifo.front_ne_nil (hsize ▸ Nat.two_pow_pos i) hf, ?_⟩
  · revert hrun
    generalize (answers Used.exec).run (Used.start cells : Used kMaxSize) es = r
    generalize (answers (Fifo.exec (bufferSize kMaxSize).toNat)).run {} es = r'
    rintro (hstands | _)
    · exact congrArg some hstands.queue
    · rfl
  · intro u hu
    rw [hu] at hrun
    cases hf : (answers (Fifo.exec (bufferSize kMaxSize).toNat)).run {} es with
    | none =>
      rw [hf] at hrun
      exact nomatch hrun
    | some f =>
      rw [hf] at hrun
      cases hrun with
      | some hstands =>
        rw [hstands.queue]
        exact (Fifo.Fits.run (h := {}) ⟨rfl, rfl, List.nil_prefix⟩ hf).balance

/-- A buffer of four cells for `kMaxSize = 3`; the second push wraps around the end of the array. -/
theorem refines_fifo_four_cells :
    ∃ es u, (answers Used.exec).run (Used.start (fun _ ↦ 0) : Used 3) es = some u
      ∧ u.buffer.queue = [1] ∧ (history es).pushed = [0, 1, 2, 0, 1]
      ∧ (history es).taken ++ u.buffer.queue = (history es).pushed := by
  let es : List Event := [(.push UInt8.ofNat 3, .length 3), (.pop, .handled (some [0, 1, 2]) 3),
    (.push UInt8.ofNat 2, .length 2), (.read, .handled (some [0]) 1), (.commit, .length 1),
    (.push UInt8.ofNat 4, .length 0)]
  have hrun := @refines_fifo 3 (by decide) (by decide) (fun _ ↦ 0) es
  exact ⟨es, _, rfl, rfl, rfl, hrun.2.2.2 _ rfl⟩

end Knet.Utils
