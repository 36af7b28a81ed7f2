import Knet.Utils.LoopBuffer

/-!
# Several arguments at once

`LoopBuffer::mpush` pushes its arguments one after the other, and stops where `push` returns `0`.
That is what `push` returns when an argument does not fit, after those before it have gone into the
ring, and also for an empty argument, behind which the others are left out.

The lock of the buffer is taken again by each of the nested calls, which is nothing for `NonMutex`.
-/

namespace Knet.Utils

/-- An argument of `mpush`, by the overload of `push` that it selects. -/
inductive PushArg
  /-- A value, as its object representation. -/
  | value (bytes : List UInt8)
  /-- A `std::string_view`. -/
  | view (bytes : List UInt8)
  /-- A `std::string`. -/
  | str (bytes : List UInt8)
  /-- A `const char *`, as the characters from the pointer on. -/
  | cstr (chars : List UInt8)
  deriving DecidableEq, Repr

namespace PushArg

/-- The bytes an argument stands for. -/
def bytes : PushArg → List UInt8
  | .value bytes => bytes
  | .view bytes => bytes
  | .str bytes => bytes
  | .cstr chars => chars.takeWhile (· ≠ 0)

/-- `get_data_length`, which is also the length that `push` is given. -/
def dataLength (arg : PushArg) : UInt32 := UInt32.ofNat arg.bytes.length

/-- What may stand behind an argument. -/
def around : Memory UInt8 := fun _ ↦ 0

/-- The memory from the first byte on. -/
def data (arg : PushArg) : Memory UInt8 := around.write 0 arg.bytes

theorem dataLength_le (arg : PushArg) : arg.dataLength.toNat ≤ arg.bytes.length := by
  rw [dataLength, UInt32.toNat_ofNat']
  exact Nat.mod_le _ _

theorem read_data (arg : PushArg) :
    arg.data.read 0 arg.dataLength.toNat = arg.bytes.take arg.dataLength.toNat := by
  rw [← Memory.take_read _ _ arg.dataLength_le, data, Memory.read_write]

theorem toNat_dataLength {arg : PushArg} (h : arg.bytes.length < 2 ^ 32) :
    arg.dataLength.toNat = arg.bytes.length := by
  rw [dataLength, UInt32.toNat_ofNat', Nat.mod_eq_of_lt h]

/-- The bytes of several arguments. -/
def payload (args : List PushArg) : List UInt8 := args.flatMap bytes

end PushArg

namespace LoopBuffer

open PushArg (payload)

variable {kMaxSize : ℕ}

/-- `calc_data_length`. -/
def calcDataLength : List PushArg → UInt32
  | [] => 0
  | arg :: rest => arg.dataLength + calcDataLength rest

/-- `mpush`, with the result. -/
def mpush (b : LoopBuffer kMaxSize) : List PushArg → LoopBuffer kMaxSize × Int32
  | [] => (b, 0)
  | arg :: rest =>
    let r := b.push arg.data arg.dataLength
    if 0 < r.2 then
      let q := mpush r.1 rest
      (q.1, (r.2 + q.2.toUInt32).toInt32)
    else (r.1, 0)

/-- All arguments are in the queue, and their number of bytes is returned. -/
def Appended (b : LoopBuffer kMaxSize) (args : List PushArg) : Prop :=
  (b.mpush args).1.queue = b.queue ++ payload args
    ∧ (b.mpush args).2.toInt = (payload args).length

/-- Nothing has changed, and `0` is returned. -/
def Unchanged (b : LoopBuffer kMaxSize) (args : List PushArg) : Prop :=
  (b.mpush args).1.head = b.head ∧ (b.mpush args).1.tail = b.tail
    ∧ (b.mpush args).1.queue = b.queue ∧ (b.mpush args).2 = 0

/-- Either all arguments are appended, which is so when their length fits the free space, or
nothing happens. -/
def AllOrNothing (b : LoopBuffer kMaxSize) (args : List PushArg) : Prop :=
  (b.Appended args ∨ b.Unchanged args) ∧ (calcDataLength args ≤ b.peek → b.Appended args)

/-- Where the arguments fit, no bytes stand behind an empty one, and they are fewer than `2 ^ 31`.
Where they do not, their length says so, and the first one is empty or does not fit either. -/
def Clear (b : LoopBuffer kMaxSize) (args : List PushArg) : Prop :=
  if (payload args).length ≤ b.peek.toNat then
    (∀ arg ∈ args.dropWhile fun arg ↦ arg.bytes ≠ [], arg.bytes = [])
      ∧ (payload args).length < 2 ^ 31
  else b.peek < calcDataLength args
    ∧ ∀ arg ∈ args.head?, arg.dataLength = 0 ∨ b.peek < arg.dataLength

/-! ### The two ways -/

theorem push_zero (b : LoopBuffer kMaxSize) (data : Memory UInt8) :
    (b.push data 0).1.head = b.head ∧ (b.push data 0).1.tail = b.tail := by
  rw [push]
  split_ifs
  · exact ⟨rfl, rfl⟩
  · exact ⟨rfl, UInt32.add_zero _⟩

theorem toNat_calcDataLength {args : List PushArg} (h : (payload args).length < 2 ^ 32) :
    (calcDataLength args).toNat = (payload args).length := by
  induction args with
  | nil => rfl
  | cons arg rest ih =>
    rw [payload, List.flatMap_cons, List.length_append, ← payload] at h ⊢
    rw [calcDataLength, UInt32.toNat_add, ih (by omega), PushArg.toNat_dataLength (by omega),
      Nat.mod_eq_of_lt h]

section

variable {i : ℕ} (hi : i ≤ 31) (hsize : (bufferSize kMaxSize).toNat = 2 ^ i)
  {b : LoopBuffer kMaxSize} (hb : b.Sound)

include hi hsize hb

theorem push_arg (arg : PushArg) :
    (b.push arg.data arg.dataLength).1.Sound
      ∧ (b.peek < arg.dataLength ∧ b.push arg.data arg.dataLength = (b, 0)
        ∨ arg.dataLength ≤ b.peek ∧ (b.push arg.data arg.dataLength).2 = arg.dataLength
          ∧ (b.push arg.data arg.dataLength).1.queue
            = b.queue ++ arg.bytes.take arg.dataLength.toNat) := by
  have hpeek := toNat_peek hb
  by_cases hfit : arg.dataLength ≤ b.peek
  · have hle : arg.dataLength.toNat ≤ (bufferSize kMaxSize).toNat - b.size.toNat :=
      hpeek ▸ UInt32.le_iff_toNat_le.mp hfit
    obtain ⟨hqueue, hsound, -, hret⟩ := push_of_le hi hsize hb arg.data hle
    rw [arg.read_data] at hqueue
    exact ⟨hsound, .inr ⟨hfit, hret, hqueue⟩⟩
  · have hlt : b.peek < arg.dataLength := UInt32.not_le.mp hfit
    have hpush := push_of_lt hb arg.data (hpeek ▸ UInt32.lt_iff_toNat_lt.mp hlt)
    rw [hpush]
    exact ⟨hb, .inl ⟨hlt, rfl⟩⟩

theorem prefix_mpush (args : List PushArg) :
    b.queue <+: (b.mpush args).1.queue ∧ (b.mpush args).1.Sound := by
  induction args generalizing b with
  | nil => exact ⟨List.prefix_refl _, hb⟩
  | cons arg rest ih =>
    obtain ⟨hsound, hpush⟩ := push_arg hi hsize hb arg
    have hpre : b.queue <+: (b.push arg.data arg.dataLength).1.queue := by
      rcases hpush with ⟨-, hpush⟩ | ⟨-, -, hqueue⟩
      · exact ⟨[], by rw [hpush, List.append_nil]⟩
      · exact ⟨_, hqueue.symm⟩
    rw [mpush]
    dsimp only
    split_ifs
    · exact ⟨hpre.trans (ih hsound).1, (ih hsound).2⟩
    · exact ⟨hpre, hsound⟩

theorem mpush_of_fits {args : List PushArg} (hfit : (payload args).length ≤ b.peek.toNat) :
    (b.mpush args).1.queue
        = b.queue ++ payload (args.takeWhile fun arg ↦ arg.bytes ≠ [])
      ∧ (b.mpush args).2.toUInt32
        = UInt32.ofNat (payload (args.takeWhile fun arg ↦ arg.bytes ≠ [])).length := by
  induction args generalizing b with
  | nil => exact ⟨(List.append_nil _).symm, rfl⟩
  | cons arg rest ih =>
    rw [payload, List.flatMap_cons, List.length_append, ← payload] at hfit
    have hlt := b.peek.toNat_lt
    have hlen : arg.dataLength.toNat = arg.bytes.length := PushArg.toNat_dataLength (by omega)
    obtain ⟨hsound, ⟨hfull, -⟩ | ⟨-, hret, hqueue⟩⟩ := push_arg hi hsize hb arg
    · rw [UInt32.lt_iff_toNat_lt] at hfull
      omega
    rw [hlen, List.take_length] at hqueue
    rw [mpush]
    by_cases hnil : arg.bytes = []
    · have hzero : ¬0 < (b.push arg.data arg.dataLength).2 := by
        rw [hret, UInt32.lt_iff_toNat_lt, hlen, hnil]
        decide
      rw [if_neg hzero, List.takeWhile_cons_of_neg (by simpa using hnil), hqueue, hnil]
      exact ⟨rfl, rfl⟩
    · have hpos : 0 < (b.push arg.data arg.dataLength).2 := by
        rw [hret, UInt32.lt_iff_toNat_lt, hlen]
        exact List.length_pos_iff.mpr hnil
      -- the room that is left
      have hroom : (payload rest).length
          ≤ (b.push arg.data arg.dataLength).1.peek.toNat := by
        rw [toNat_peek hsound, ← length_queue, hqueue, List.length_append, length_queue]
        rw [toNat_peek hb] at hfit
        omega
      obtain ⟨hqueue', hret'⟩ := ih hsound hroom
      rw [if_pos hpos, List.takeWhile_cons_of_pos (by simpa using hnil), payload,
        List.flatMap_cons, ← payload]
      refine ⟨?_, ?_⟩
      · rw [hqueue', hqueue, List.append_assoc]
      · rw [UInt32.toUInt32_toInt32, hret, hret', PushArg.dataLength, List.length_append,
          UInt32.ofNat_add]

/-- Arguments that do not fit leave the buffer alone exactly when the first one is empty, or does
not fit either. -/
theorem unchanged_iff_of_full {args : List PushArg} (hfull : b.peek.toNat < (payload args).length) :
    b.Unchanged args
      ↔ ∀ arg ∈ args.head?, arg.dataLength = 0 ∨ b.peek < arg.dataLength := by
  cases args with
  | nil => exact absurd hfull (Nat.not_lt_zero _)
  | cons arg rest =>
    simp only [List.head?_cons, Option.mem_def, Option.some.injEq, forall_eq']
    rw [Unchanged, mpush]
    obtain ⟨hsound, ⟨hlt, hpush⟩ | ⟨hle, hret, hqueue⟩⟩ := push_arg hi hsize hb arg
    · rw [hpush]
      exact iff_of_true ⟨rfl, rfl, rfl, rfl⟩ (.inr hlt)
    · rw [or_iff_left (UInt32.not_lt.mpr hle)]
      by_cases hzero : arg.dataLength = 0
      · have hnot : ¬0 < (b.push arg.data arg.dataLength).2 := by
          rw [hret, hzero]
          decide
        obtain ⟨hhead, htail⟩ := push_zero b arg.data
        rw [if_neg hnot, hqueue, hzero, hhead, htail]
        exact iff_of_true ⟨rfl, rfl, List.append_nil _, rfl⟩ rfl
      · have hpos : 0 < arg.dataLength := UInt32.pos_iff_ne_zero.mpr hzero
        rw [hret, if_pos hpos]
        refine iff_of_false (fun h ↦ ?_) hzero
        -- the first argument stays in the queue
        have hlonger := (prefix_mpush hi hsize hsound rest).1.length_le
        rw [h.2.2.1, hqueue, List.length_append, List.length_take] at hlonger
        have hlen : arg.dataLength.toNat ≤ arg.bytes.length := arg.dataLength_le
        rw [UInt32.lt_iff_toNat_lt] at hpos
        have hpos' : 0 < arg.dataLength.toNat := hpos
        omega

/-- Where they fit, it is enough that nothing stands behind an empty argument, and that the number
of bytes is not taken for a negative one. -/
theorem appended_iff_of_fits {args : List PushArg}
    (hfit : (payload args).length ≤ b.peek.toNat) :
    b.Appended args
      ↔ (∀ arg ∈ args.dropWhile fun arg ↦ arg.bytes ≠ [], arg.bytes = [])
        ∧ (payload args).length < 2 ^ 31 := by
  obtain ⟨hqueue, hret⟩ := mpush_of_fits hi hsize hb hfit
  have hsplit : payload args = payload (args.takeWhile fun arg ↦ arg.bytes ≠ [])
      ++ payload (args.dropWhile fun arg ↦ arg.bytes ≠ []) := by
    rw [payload, payload, payload, ← List.flatMap_append, List.takeWhile_append_dropWhile]
  have hall : (payload (args.takeWhile fun arg ↦ arg.bytes ≠ []) = payload args)
      ↔ ∀ arg ∈ args.dropWhile fun arg ↦ arg.bytes ≠ [], arg.bytes = [] := by
    rw [hsplit, List.self_eq_append_right, payload, List.flatMap_eq_nil_iff]
  rw [Appended, hqueue, List.append_cancel_left_eq, hall]
  refine and_congr_right fun hnil ↦ ?_
  have hint : (b.mpush args).2 = Int32.ofNat (payload args).length := by
    rw [← Int32.toInt32_toUInt32 (b.mpush args).2, hret, hall.mpr hnil]
    rfl
  rw [hint]
  constructor
  · intro h
    have hlt := (Int32.ofNat (payload args).length).toInt_lt
    omega
  · exact fun h ↦ Int32.toInt_ofNat_of_lt h

end

/-- **`mpush` is all-or-nothing** exactly when nothing stands behind an empty argument, or the
arguments do not fit and the first is empty or does not fit either. For every state of a buffer in
use, and all arguments. -/
theorem allOrNothing_iff {b : LoopBuffer kMaxSize} (hpos : 1 ≤ kMaxSize) (hle : kMaxSize ≤ 2 ^ 31)
    (hb : b.Sound) (args : List PushArg) : b.AllOrNothing args ↔ b.Clear args := by
  obtain ⟨i, hi, hsize⟩ := exists_bufferSize hpos hle
  have hpow := two_pow_le hi
  have hpeek := toNat_peek hb
  rw [AllOrNothing, Clear]
  split_ifs with hfit
  · have hcalc : calcDataLength args ≤ b.peek := by
      rw [UInt32.le_iff_toNat_le, toNat_calcDataLength (by omega)]
      exact hfit
    rw [← appended_iff_of_fits hi hsize hb hfit]
    exact ⟨fun h ↦ h.2 hcalc, fun h ↦ ⟨.inl h, fun _ ↦ h⟩⟩
  · rw [Nat.not_le] at hfit
    have hnot : ¬b.Appended args := by
      rintro ⟨hqueue, -⟩
      have hsound : (b.mpush args).1.Sound := (prefix_mpush hi hsize hb args).2
      rw [Sound, ← length_queue, hqueue, List.length_append, length_queue] at hsound
      omega
    rw [or_iff_right hnot, unchanged_iff_of_full hi hsize hb hfit, ← UInt32.not_le]
    exact ⟨fun h ↦ ⟨fun hle ↦ hnot (h.2 hle), h.1⟩, fun h ↦ ⟨h.2, fun hle ↦ absurd hle h.1⟩⟩

/-- A buffer that was only used is in such a state, and `mpush` leaves it in one. -/
theorem sound_of_run (hpos : 1 ≤ kMaxSize) (hle : kMaxSize ≤ 2 ^ 31) (cells : Memory UInt8)
    {es : List Event} {u : Used kMaxSize}
    (hrun : (answers Used.exec).run (Used.start cells) es = some u) (args : List PushArg) :
    u.buffer.Sound ∧ (u.buffer.mpush args).1.Sound := by
  obtain ⟨i, hi, hsize⟩ := exists_bufferSize hpos hle
  have hstands := (stands_start cells).run hi hsize es
  rw [hrun] at hstands
  have hsound : u.buffer.Sound := by
    cases hfifo : (answers (Fifo.exec (bufferSize kMaxSize).toNat)).run {} es with
    | none =>
      rw [hfifo] at hstands
      exact nomatch hstands
    | some f =>
      rw [hfifo] at hstands
      cases hstands with
      | some h => exact h.sound
  exact ⟨hsound, (prefix_mpush hi hsize hsound args).2⟩

/-- A buffer of four cells, with nothing in it. -/
def small : LoopBuffer 4 := { buffer := fun _ ↦ 0 }

theorem allOrNothing_small : small.AllOrNothing [.view [1, 2], .value [3], .str []] :=
  (allOrNothing_iff (by decide) (by decide) (by rw [Sound]; decide) _).mpr (by rw [Clear]; decide)

/-- A second argument that does not fit leaves the first in the ring, and behind an empty argument
one that would fit is left out. -/
theorem partial_and_dropped :
    ¬small.AllOrNothing [.view [1, 2, 3], .view [4, 5]]
      ∧ ¬small.AllOrNothing [.view [], .view [1]] := by
  constructor
  · rintro ⟨⟨hqueue, -⟩ | ⟨-, htail, -⟩, -⟩
    · exact absurd hqueue (by decide)
    · exact absurd htail (by decide)
  · rintro ⟨-, happended⟩
    exact absurd (happended (by decide)).1 (by decide)

end LoopBuffer

end Knet.Utils
