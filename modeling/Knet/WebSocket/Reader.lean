import Knet.Lib.CountedLoop
import Knet.WebSocket.Framing

/-!
# The reader on accepted packages

`WSMessageReader::read` with everything it does: the indices of `pData` that are read, by itself or
through the view it hands on, the calls of the handler, whether a size is the result of a sum that
wrapped around, and how it ends. It computes the length of the frame again, with other tests than
the framing has, and up to a limit of 4096 bytes. The unmasked bytes are stored behind the end of an
empty string, in the room it has reserved; they are taken to stay there.

On a package that the framing accepts, all goes well for short frames, for 16-bit lengths up to
4092, and for 64-bit lengths whose frame is within the limit. (No difference is ever negative: the
limit is subtracted from larger sums only, and heads from the limit.)
-/

namespace Knet.WebSocket

open Knet.Tcp
open FrameFormat (declared headOf lengthOf formOf markOf maskedOf)

/-- How a call of `read` ends. -/
inductive Ending
  | returned (n : ℕ)
  /-- `reserve` throws: no `std::string` is that long. -/
  | threw
  deriving DecidableEq, Repr

/-- What a call of `read` has done. -/
structure Trace where
  /-- The indices of `pData` that were read. -/
  touched : List ℕ
  /-- The payloads with which the handler was called. -/
  handed : List (List UInt8) := []
  /-- No sum has wrapped around. -/
  exact : Bool := true
  ending : Ending
  deriving DecidableEq, Repr

/-- One round of the loop that unmasks: `payload[i] = pData[payloadPos + i] ^ maskKey[i % 4]`, where
the counter and `payloadPos` are 32-bit numbers. -/
def unmaskRound (d : List UInt8) (headSize i : ℕ) (r : List ℕ × List UInt8) :
    List ℕ × List UInt8 :=
  let j := (headSize + 4 + i) % 2 ^ 32
  let k := headSize + i % 4
  (r.1 ++ [j, k], r.2 ++ [d.getD j 0 ^^^ d.getD k 0])

/-- The handler is given `n` bytes behind the head and the key. -/
def deliver (d : List UInt8) (touched : List ℕ) (headSize : ℕ) (masked : Bool) (n : ℕ)
    (exact : Bool) (ret fuel : ℕ) : Option Trace :=
  if masked then
    if 2 ^ 63 ≤ n then some ⟨touched, [], exact, .threw⟩
    else
      (CountedLoop.run (2 ^ 32) n (unmaskRound d headSize) fuel 0 (touched, [])).map fun r ↦
        ⟨r.1, [r.2], exact, .returned ret⟩
  else
    some ⟨touched ++ List.range' headSize n, [(d.drop headSize).take n], exact, .returned ret⟩

/-- `WSMessageReader::read` with the limit 4096, on the bytes `d`. -/
def traceRead (d : List UInt8) (fuel : ℕ) : Option Trace :=
  if d.length < 2 then some ⟨[], [], true, .returned 0⟩
  else
    let b := d.getD 1 0
    let masked := isMasked b
    if payloadMark b < 126 then
      deliver d [0, 1] 2 masked (payloadMark b) true (payloadMark b + 2 + maskSize b) fuel
    else if payloadMark b = 126 then
      if d.length < 4 then some ⟨[0, 1], [], true, .returned 0⟩
      else
        let n := Bytes.ofBig ((d.drop 2).take 2)
        let sum := n + 4 + maskSize b
        if bufferSize < sum then
          deliver d [0, 1, 2, 3] 4 masked (if n < bufferSize - 4 then n else bufferSize - 4) true
            d.length fuel
        else deliver d [0, 1, 2, 3] 4 masked n true sum fuel
    else
      if d.length < 10 then some ⟨[0, 1], [], true, .returned 0⟩
      else
        let n := Bytes.ofBig ((d.drop 2).take 8)
        let sum := (n + 10 + maskSize b) % 2 ^ 64
        let exact : Bool := n + 10 + maskSize b < 2 ^ 64
        if bufferSize < sum then
          deliver d (List.range 10) 10 false (bufferSize - 10) exact d.length fuel
        else deliver d (List.range 10) 10 masked n exact (sum % 2 ^ 32) fuel

/-- What a call on the package `d` should do: read within the package only, call the handler once
with as many bytes as there are behind the head, return the length of the package, and compute no
size by a sum that wraps around. -/
structure Whole (d : List UInt8) (t : Trace) : Prop where
  touched : ∀ i ∈ t.touched, i < d.length
  handed : t.handed.map List.length = [d.length - headOf (d.getD 1 0)]
  ending : t.ending = .returned d.length
  exact : t.exact = true

/-- The call comes to its end, and has done that. -/
def ReadsWhole (d : List UInt8) : Prop := ∃ fuel t, traceRead d fuel = some t ∧ Whole d t

/-- The frames that the reader hands on whole. A masked one with a 64-bit length of 4086 is among
them by its size only: the limit cuts off the last four bytes, and the key stands in their place in
front. -/
def Readable (d : List UInt8) : Prop :=
  let n := lengthOf (d.getD 1 0) (d.drop 2)
  match formOf (d.getD 1 0) with
  | .bits7 => True
  | .bits16 => n ≤ 4092
  | .bits64 => headOf (d.getD 1 0) + n ≤ 4096 ∨ maskedOf (d.getD 1 0) = true ∧ n = 4086

instance (d : List UInt8) : Decidable (Readable d) := by
  unfold Readable
  split <;> infer_instance

/-! ## Handing on -/

/-- The indices that the loop that unmasks reads. -/
def unmaskReads (headSize n : ℕ) : List ℕ :=
  (List.range n).flatMap fun i ↦ [(headSize + 4 + i) % 2 ^ 32, headSize + i % 4]

/-- The payload that it makes. -/
def unmasked (d : List UInt8) (headSize n : ℕ) : List UInt8 :=
  (List.range n).map fun i ↦
    d.getD ((headSize + 4 + i) % 2 ^ 32) 0 ^^^ d.getD (headSize + i % 4) 0

theorem rounds_unmaskRound (d : List UInt8) (headSize n : ℕ) (touched : List ℕ) :
    CountedLoop.rounds n (unmaskRound d headSize) (touched, [])
      = (touched ++ unmaskReads headSize n, unmasked d headSize n) := by
  induction n with
  | zero => simp [unmaskReads, unmasked]
  | succ n ih =>
    rw [CountedLoop.rounds_succ, ih]
    simp [unmaskRound, unmaskReads, unmasked, List.range_succ]

variable {d : List UInt8} {touched : List ℕ} {headSize n ret : ℕ} {masked exact : Bool}

/-- A delivery within the package comes to its end and reads nothing outside. -/
theorem exists_deliver (hlen : d.length < 2 ^ 32)
    (hin : headSize + (if masked then 4 else 0) + n ≤ d.length)
    (htouched : ∀ i ∈ touched, i < d.length) :
    ∃ seen payload, (∀ i ∈ seen, i < d.length) ∧ payload.length = n
      ∧ (∃ fuel, deliver d touched headSize masked n exact ret fuel
        = some ⟨seen, [payload], exact, .returned ret⟩)
      ∧ ∀ fuel t, deliver d touched headSize masked n exact ret fuel = some t →
        t = ⟨seen, [payload], exact, .returned ret⟩ := by
  cases masked with
  | true =>
    rw [if_pos rfl] at hin
    have hshort : ¬2 ^ 63 ≤ n := by omega
    have hrounds := rounds_unmaskRound d headSize n touched
    refine ⟨touched ++ unmaskReads headSize n, unmasked d headSize n, ?_, ?_, ⟨n + 1, ?_⟩,
      fun fuel t ht ↦ ?_⟩
    · intro i hi
      rw [List.mem_append, unmaskReads, List.mem_flatMap] at hi
      rcases hi with hi | ⟨j, hj, hi⟩
      · exact htouched i hi
      · rw [List.mem_range] at hj
        -- the package is short enough for 32-bit indices
        have hmod : (headSize + 4 + j) % 2 ^ 32 = headSize + 4 + j := Nat.mod_eq_of_lt (by omega)
        rw [hmod] at hi
        simp only [List.mem_cons, List.not_mem_nil, or_false] at hi
        omega
    · rw [unmasked, List.length_map, List.length_range]
    · rw [deliver, if_pos rfl, if_neg hshort, CountedLoop.run_of_lt (by omega) (by omega), hrounds]
      rfl
    · rw [deliver, if_pos rfl, if_neg hshort, Option.map_eq_some_iff] at ht
      obtain ⟨r, hrun, rfl⟩ := ht
      have hr := ((CountedLoop.exists_run_iff (by decide)).mp ⟨fuel, hrun⟩).2
      rw [hr, hrounds]
  | false =>
    rw [if_neg Bool.false_ne_true, Nat.add_zero] at hin
    refine ⟨touched ++ List.range' headSize n, (d.drop headSize).take n, ?_, ?_, ⟨0, rfl⟩,
      fun fuel t ht ↦ (Option.some.inj ht).symm⟩
    · intro i hi
      rw [List.mem_append, List.mem_range'_1] at hi
      rcases hi with hi | hi
      · exact htouched i hi
      · omega
    · rw [List.length_take, List.length_drop]
      omega

theorem exists_whole_iff (hlen : d.length < 2 ^ 32)
    (hin : headSize + (if masked then 4 else 0) + n ≤ d.length)
    (htouched : ∀ i ∈ touched, i < d.length) :
    (∃ fuel t, deliver d touched headSize masked n exact ret fuel = some t ∧ Whole d t)
      ↔ n = d.length - headOf (d.getD 1 0) ∧ ret = d.length ∧ exact = true := by
  obtain ⟨seen, payload, hseen, hpayload, ⟨fuel, hfuel⟩, hunique⟩ :=
    @exists_deliver d touched headSize n ret masked exact hlen hin htouched
  constructor
  · rintro ⟨fuel', t, ht, hwhole⟩
    obtain rfl := hunique fuel' t ht
    exact ⟨hpayload ▸ List.singleton_inj.mp hwhole.handed, Ending.returned.inj hwhole.ending,
      hwhole.exact⟩
  · rintro ⟨hn, rfl, rfl⟩
    exact ⟨fuel, _, hfuel, hseen, by simp [hpayload, hn], rfl, rfl⟩

/-! ## The forms of the length -/

theorem length_of_declared {n : ℕ} (hd : declared d = some n) :
    2 + (formOf (d.getD 1 0)).size ≤ d.length
      ∧ n = headOf (d.getD 1 0) + lengthOf (d.getD 1 0) (d.drop 2) := by
  match d with
  | _ :: b :: rest =>
    simp only [declared, Option.ite_none_right_eq_some, Option.some.injEq] at hd
    obtain ⟨hsize, rfl⟩ := hd
    refine ⟨?_, rfl⟩
    simp only [List.getD_cons_succ, List.getD_cons_zero, List.length_cons]
    omega
  | [_] => exact absurd hd (by simp [declared])
  | [] => exact absurd hd (by simp [declared])

theorem traceRead_bits7 (hform : formOf (d.getD 1 0) = .bits7) (hlen : 2 ≤ d.length) (fuel : ℕ) :
    traceRead d fuel = deliver d [0, 1] 2 (maskedOf (d.getD 1 0))
      (lengthOf (d.getD 1 0) (d.drop 2)) true
      (lengthOf (d.getD 1 0) (d.drop 2) + 2 + maskSize (d.getD 1 0)) fuel := by
  rw [lengthOf, hform]
  rw [formOf] at hform
  split_ifs at hform with hmark
  rw [traceRead, if_neg (by omega)]
  exact if_pos hmark

theorem traceRead_bits16 (hform : formOf (d.getD 1 0) = .bits16) (hlen : 4 ≤ d.length) (fuel : ℕ) :
    traceRead d fuel =
      let n := lengthOf (d.getD 1 0) (d.drop 2)
      let sum := n + 4 + maskSize (d.getD 1 0)
      if bufferSize < sum then
        deliver d [0, 1, 2, 3] 4 (maskedOf (d.getD 1 0))
          (if n < bufferSize - 4 then n else bufferSize - 4) true d.length fuel
      else deliver d [0, 1, 2, 3] 4 (maskedOf (d.getD 1 0)) n true sum fuel := by
  rw [lengthOf, hform]
  rw [formOf] at hform
  split_ifs at hform with hshort hmark
  have hlong : ¬payloadMark (d.getD 1 0) < 126 := hshort
  have hmark' : payloadMark (d.getD 1 0) = 126 := hmark
  rw [traceRead, if_neg (by omega)]
  simp only [if_neg hlong, if_pos hmark', if_neg (Nat.not_lt.mpr hlen)]
  rfl

theorem traceRead_bits64_few (hform : formOf (d.getD 1 0) = .bits64) (hlen : 2 ≤ d.length)
    (hfew : d.length < 10) (fuel : ℕ) :
    traceRead d fuel = some ⟨[0, 1], [], true, .returned 0⟩ := by
  rw [formOf] at hform
  split_ifs at hform with hshort hmark
  have hlong : ¬payloadMark (d.getD 1 0) < 126 := hshort
  have hmark' : ¬payloadMark (d.getD 1 0) = 126 := hmark
  rw [traceRead, if_neg (by omega)]
  simp only [if_neg hlong, if_neg hmark', if_pos hfew]

theorem traceRead_bits64 (hform : formOf (d.getD 1 0) = .bits64) (hlen : 10 ≤ d.length)
    (fuel : ℕ) :
    traceRead d fuel =
      let n := lengthOf (d.getD 1 0) (d.drop 2)
      let sum := (n + 10 + maskSize (d.getD 1 0)) % 2 ^ 64
      let exact : Bool := n + 10 + maskSize (d.getD 1 0) < 2 ^ 64
      if bufferSize < sum then
        deliver d (List.range 10) 10 false (bufferSize - 10) exact d.length fuel
      else deliver d (List.range 10) 10 (maskedOf (d.getD 1 0)) n exact (sum % 2 ^ 32) fuel := by
  rw [lengthOf, hform]
  rw [formOf] at hform
  split_ifs at hform with hshort hmark
  have hlong : ¬payloadMark (d.getD 1 0) < 126 := hshort
  have hmark' : ¬payloadMark (d.getD 1 0) = 126 := hmark
  rw [traceRead, if_neg (by omega)]
  simp only [if_neg hlong, if_neg hmark', if_neg (Nat.not_lt.mpr hlen)]
  rfl

/-! ## Whole packages -/

section Package

variable (hlen : d.length < 2 ^ 32) (hd : declared d = some d.length)
include hlen hd

theorem readsWhole_bits7 (hform : formOf (d.getD 1 0) = .bits7) : ReadsWhole d := by
  obtain ⟨hsize, htotal⟩ := length_of_declared hd
  have hhead : headOf (d.getD 1 0) = 2 + maskSize (d.getD 1 0) := by rw [headOf, hform]; rfl
  rw [ReadsWhole]
  simp only [traceRead_bits7 hform (by omega)]
  rw [exists_whole_iff hlen (Nat.le_of_eq (by rw [htotal, hhead]; rfl)) (by grind)]
  exact ⟨by omega, by omega, rfl⟩

theorem readsWhole_bits16_iff (hform : formOf (d.getD 1 0) = .bits16) :
    ReadsWhole d ↔ lengthOf (d.getD 1 0) (d.drop 2) ≤ 4092 := by
  obtain ⟨hsize, htotal⟩ := length_of_declared hd
  rw [hform] at hsize
  have hfour : 4 ≤ d.length := hsize
  have hhead : headOf (d.getD 1 0) = 4 + maskSize (d.getD 1 0) := by rw [headOf, hform]; rfl
  have htouched : ∀ i ∈ [0, 1, 2, 3], i < d.length := by grind
  have hmask : (if maskedOf (d.getD 1 0) then 4 else 0) = maskSize (d.getD 1 0) := rfl
  have hlimit : bufferSize = 4096 := rfl
  rw [ReadsWhole]
  simp only [traceRead_bits16 hform hfour]
  by_cases hover :
      bufferSize < lengthOf (d.getD 1 0) (d.drop 2) + 4 + maskSize (d.getD 1 0)
  · -- over the limit for the frame, the payload is cut where it does not fit behind the head
    simp only [if_pos hover]
    rw [exists_whole_iff hlen (by rw [hmask]; split_ifs <;> omega) htouched,
      and_iff_left ⟨rfl, rfl⟩]
    split_ifs <;> omega
  · simp only [if_neg hover]
    rw [exists_whole_iff hlen (by omega) htouched, and_iff_left ⟨by omega, rfl⟩]
    omega

theorem readsWhole_bits64_iff (hform : formOf (d.getD 1 0) = .bits64) :
    ReadsWhole d ↔ headOf (d.getD 1 0) + lengthOf (d.getD 1 0) (d.drop 2) ≤ 4096
      ∨ maskedOf (d.getD 1 0) = true ∧ lengthOf (d.getD 1 0) (d.drop 2) = 4086 := by
  obtain ⟨hsize, htotal⟩ := length_of_declared hd
  rw [hform] at hsize
  have hten : 10 ≤ d.length := hsize
  have hhead : headOf (d.getD 1 0) = 10 + maskSize (d.getD 1 0) := by rw [headOf, hform]; rfl
  have htouched : ∀ i ∈ List.range 10, i < d.length := fun i hi ↦
    Nat.lt_of_lt_of_le (List.mem_range.mp hi) hten
  have hmask : (if maskedOf (d.getD 1 0) then 4 else 0) = maskSize (d.getD 1 0) := rfl
  have hlimit : bufferSize = 4096 := rfl
  have hsum : (lengthOf (d.getD 1 0) (d.drop 2) + 10 + maskSize (d.getD 1 0)) % 2 ^ 64
      = d.length := by
    rw [Nat.mod_eq_of_lt (by omega)]
    omega
  rw [ReadsWhole]
  simp only [traceRead_bits64 hform hten, hsum]
  rcases Nat.lt_or_ge bufferSize d.length with hover | hfit
  · -- over the limit as many bytes are handed on as fit behind the head, from where the key stands
    simp only [if_pos hover]
    rw [exists_whole_iff hlen (by rw [if_neg Bool.false_ne_true]; omega) htouched,
      decide_eq_true_iff, and_iff_left ⟨rfl, by omega⟩]
    cases hmasked : maskedOf (d.getD 1 0) with
    | false =>
      rw [hmasked, if_neg Bool.false_ne_true] at hmask
      rw [or_iff_left fun h ↦ Bool.false_ne_true h.1]
      omega
    | true =>
      rw [hmasked, if_pos rfl] at hmask
      rw [and_iff_right rfl]
      omega
  · simp only [if_neg (Nat.not_lt.mpr hfit)]
    rw [exists_whole_iff hlen (by omega) htouched, decide_eq_true_iff]
    exact iff_of_true ⟨by omega, by omega, by omega⟩ (.inl (by omega))

/-- **Which packages are read whole.** -/
theorem readsWhole_iff : ReadsWhole d ↔ Readable d := by
  rw [Readable]
  cases hform : formOf (d.getD 1 0) with
  | bits7 => exact iff_of_true (readsWhole_bits7 hlen hd hform) trivial
  | bits16 => exact readsWhole_bits16_iff hlen hd hform
  | bits64 => exact readsWhole_bits64_iff hlen hd hform

end Package

/-! ## The message -/

theorem unmasked_eq_applyMask (hlen : d.length < 2 ^ 32) (hin : headSize + 4 + n ≤ d.length) :
    unmasked d headSize n
      = applyMask ((d.drop headSize).take 4) ((d.drop (headSize + 4)).take n) := by
  apply List.ext_getElem?
  intro i
  rw [unmasked, applyMask, List.getElem?_map, List.getElem?_mapIdx]
  rcases Nat.lt_or_ge i n with hi | hi
  · have hmod : (headSize + 4 + i) % 2 ^ 32 = headSize + 4 + i := Nat.mod_eq_of_lt (by omega)
    have hkey : i % 4 < 4 := Nat.mod_lt i (by decide)
    rw [List.getElem?_range hi, List.getElem?_take_of_lt hi, List.getElem?_drop,
      List.getElem?_eq_getElem (by omega), Option.map_some, Option.map_some, hmod]
    have hbyte : headSize + 4 + i < d.length := by omega
    simp [List.getElem?_take_of_lt hkey, List.getElem?_eq_getElem hbyte]
  · rw [List.getElem?_eq_none (by rw [List.length_range]; exact hi),
      List.getElem?_take_eq_none hi]
    rfl

/-- What a delivery within the package hands on is the message of the frame. -/
theorem exists_hand {fuel : ℕ} {t : Trace} (hlen : d.length < 2 ^ 32)
    (hin : headSize + (if masked then 4 else 0) + n ≤ d.length)
    (ht : deliver d touched headSize masked n exact ret fuel = some t) :
    ∃ msg, hand d headSize masked n = .handed msg ∧ t.handed = [msg] := by
  cases masked with
  | true =>
    rw [if_pos rfl] at hin
    rw [deliver, if_pos rfl, if_neg (by omega), Option.map_eq_some_iff] at ht
    obtain ⟨r, hrun, rfl⟩ := ht
    have hr := ((CountedLoop.exists_run_iff (by decide)).mp ⟨fuel, hrun⟩).2
    rw [hand, if_pos rfl, if_pos hin, hr, rounds_unmaskRound]
    exact ⟨_, rfl, by rw [unmasked_eq_applyMask hlen hin]⟩
  | false =>
    rw [if_neg Bool.false_ne_true, Nat.add_zero] at hin
    obtain rfl := Option.some.inj ht
    exact ⟨_, if_pos hin, rfl⟩

/-- **The reader hands on the message of the frame**, as the connection sees it. -/
theorem exists_message {fuel : ℕ} {t : Trace} (hlen : d.length < 2 ^ 32)
    (hd : declared d = some d.length) (ht : traceRead d fuel = some t) :
    ∃ msg, read d = .handed msg ∧ t.handed = [msg] := by
  obtain ⟨hsize, htotal⟩ := length_of_declared hd
  have hmask : (if isMasked (d.getD 1 0) then 4 else 0) = maskSize (d.getD 1 0) := rfl
  have hmark : FrameFormat.markOf (d.getD 1 0) = payloadMark (d.getD 1 0) := rfl
  have hhead : headOf (d.getD 1 0)
    = 2 + (formOf (d.getD 1 0)).size + maskSize (d.getD 1 0) := rfl
  have hlimit : bufferSize = 4096 := rfl
  rw [lengthOf, hhead, formOf, hmark] at htotal
  rw [formOf, hmark] at hsize
  rw [traceRead, if_neg (by omega)] at ht
  rw [read, if_neg (by omega)]
  dsimp only at ht ⊢
  split_ifs at ht hsize htotal ⊢ with hshort hlong hfew hover hcut hfew hover
  · refine exists_hand hlen ?_ ht
    rw [hmask, htotal]
    exact Nat.le_refl _
  · exact absurd hsize (Nat.not_le.mpr hfew)
  · refine exists_hand hlen ?_ ht
    rw [hmask, htotal]
    exact Nat.le_refl _
  · refine exists_hand hlen ?_ ht
    change d.length = 4 + maskSize (d.getD 1 0) + Bytes.ofBig ((d.drop 2).take 2) at htotal
    omega
  · refine exists_hand hlen ?_ ht
    rw [hmask, htotal]
    exact Nat.le_refl _
  · exact absurd hsize (Nat.not_le.mpr hfew)
  · refine exists_hand hlen ?_ ht
    change d.length = 10 + maskSize (d.getD 1 0) + Bytes.ofBig ((d.drop 2).take 8) at htotal
    rw [if_neg Bool.false_ne_true]
    omega
  · refine exists_hand hlen ?_ ht
    rw [hmask, htotal]
    exact Nat.le_refl _

/-! ## Accepted packages -/

theorem le_length_of_pos (hpos : 0 < handlePackage d) : 16 ≤ d.length := by
  by_contra hfew
  rw [handlePackage_few (by omega)] at hpos
  exact Int.lt_irrefl 0 hpos

theorem toNat_handlePackage {N : ℕ} (hlen : d.length < 2 ^ 32) (hpos : 0 < handlePackage d)
    (hd : declared d = some N) :
    (handlePackage d).toNat = N % 2 ^ 64 ∧ N % 2 ^ 64 ≤ d.length ∧ 0 < N % 2 ^ 64 := by
  have hanswer := handlePackage_declared (le_length_of_pos hpos) hd
  rw [hanswer] at hpos ⊢
  split_ifs at hpos ⊢ with hover
  · exact absurd hpos (Int.lt_irrefl 0)
  · have hhalf : N % 2 ^ 64 < 2 ^ 31 := by
      unfold toInt32 at hpos
      rw [Int.bmod_def] at hpos
      split_ifs at hpos <;> omega
    rw [toInt32_of_lt hhalf] at hpos ⊢
    omega

theorem getD_one_take {k : ℕ} (h : 2 ≤ k) : (d.take k).getD 1 0 = d.getD 1 0 := by
  rw [List.getD_eq_getElem?_getD, List.getElem?_take_of_lt (by omega),
    ← List.getD_eq_getElem?_getD]

theorem lengthOf_drop_take {k : ℕ} (h : 2 + (formOf (d.getD 1 0)).size ≤ k) :
    lengthOf (d.getD 1 0) ((d.take k).drop 2) = lengthOf (d.getD 1 0) (d.drop 2) := by
  rw [List.drop_take, FrameFormat.lengthOf_take (by omega)]

theorem readable_take_iff {N : ℕ} (hd : declared d = some N) :
    Readable (d.take N) ↔ Readable d := by
  obtain ⟨hsize, htotal⟩ := length_of_declared hd
  have hbound : 2 + (formOf (d.getD 1 0)).size ≤ N := by
    rw [htotal, headOf]
    omega
  rw [Readable, Readable, getD_one_take (by omega), lengthOf_drop_take hbound]

theorem lengthOf_declared_lt {N : ℕ} (hd : declared d = some N) :
    lengthOf (d.getD 1 0) (d.drop 2) < (formOf (d.getD 1 0)).limit
      ∧ N = headOf (d.getD 1 0) + lengthOf (d.getD 1 0) (d.drop 2) := by
  obtain ⟨hsize, htotal⟩ := length_of_declared hd
  refine ⟨FrameFormat.lengthOf_lt ?_, htotal⟩
  rw [List.length_drop]
  omega

section Wrapped

variable {N : ℕ} (hd : declared d = some N) (hN : 2 ^ 64 ≤ N)
include hd hN

theorem wrapped_form :
    formOf (d.getD 1 0) = .bits64 ∧ 2 ^ 64 - 14 ≤ lengthOf (d.getD 1 0) (d.drop 2) := by
  obtain ⟨hlength, htotal⟩ := lengthOf_declared_lt hd
  have hhead := FrameFormat.headOf_le (d.getD 1 0)
  refine ⟨?_, by omega⟩
  cases hform : formOf (d.getD 1 0) with
  | bits7 =>
    rw [hform] at hlength
    have : lengthOf (d.getD 1 0) (d.drop 2) < 126 := hlength
    omega
  | bits16 =>
    rw [hform] at hlength
    have : lengthOf (d.getD 1 0) (d.drop 2) < 2 ^ 16 := hlength
    omega
  | bits64 => rfl

theorem not_readable_wrapped : ¬Readable d := by
  obtain ⟨hform, hlength⟩ := wrapped_form hd hN
  rw [Readable, hform]
  dsimp only
  omega

/-- Nothing is handed on from what a wrapped length leaves of a package: the head is not there, or
no memory for a payload of that length. -/
theorem handed_wrapped {fuel : ℕ} {t : Trace} (hin : N - 2 ^ 64 ≤ d.length)
    (ht : traceRead (d.take (N - 2 ^ 64)) fuel = some t) : t.handed = [] := by
  obtain ⟨hform, hlength⟩ := wrapped_form hd hN
  obtain ⟨hlimit, htotal⟩ := lengthOf_declared_lt hd
  rw [hform] at hlimit
  replace hlimit : lengthOf (d.getD 1 0) (d.drop 2) < 2 ^ 64 := hlimit
  have hlen : (d.take (N - 2 ^ 64)).length = N - 2 ^ 64 := List.length_take_of_le hin
  -- there are no two bytes, no length field, or a length that no string has
  rcases Nat.lt_or_ge (N - 2 ^ 64) 2 with hfew | htwo
  · rw [traceRead, if_pos (by omega)] at ht
    obtain rfl := Option.some.inj ht
    rfl
  have hbyte := @getD_one_take d (N - 2 ^ 64) htwo
  have hform' : formOf ((d.take (N - 2 ^ 64)).getD 1 0) = .bits64 := by rw [hbyte, hform]
  rcases Nat.lt_or_ge (N - 2 ^ 64) 10 with hfew | hten
  · rw [traceRead_bits64_few hform' (by omega) (by omega)] at ht
    obtain rfl := Option.some.inj ht
    rfl
  have hhead : headOf (d.getD 1 0) = 10 + maskSize (d.getD 1 0) := by rw [headOf, hform]; rfl
  have hmasked : maskedOf (d.getD 1 0) = true := by
    by_contra hplain
    have hmask : maskSize (d.getD 1 0) = 0 := if_neg hplain
    omega
  have hsum : (lengthOf (d.getD 1 0) (d.drop 2) + 10 + maskSize (d.getD 1 0)) % 2 ^ 64
      = N - 2 ^ 64 := by
    have hle := FrameFormat.declared_lt hd
    omega
  have hfit : ¬bufferSize < N - 2 ^ 64 := by
    have hle := FrameFormat.declared_lt hd
    rw [bufferSize]
    omega
  rw [traceRead_bits64 hform' (by omega), hbyte, lengthOf_drop_take (by rw [hform]; exact hten)]
    at ht
  simp only [hsum, if_neg hfit] at ht
  rw [deliver, hmasked, if_pos rfl, if_pos (by omega)] at ht
  obtain rfl := Option.some.inj ht
  rfl

end Wrapped

theorem not_whole_of_handed {t : Trace} (h : t.handed = []) : ¬Whole d t := by
  intro hwhole
  have hone := hwhole.handed
  rw [h] at hone
  exact absurd hone (List.cons_ne_nil _ _).symm

theorem readsWhole_handlePackage_iff (hlen : d.length < 2 ^ 32) (hpos : 0 < handlePackage d) :
    ReadsWhole (d.take (handlePackage d).toNat) ↔ Readable d := by
  have henough := le_length_of_pos hpos
  obtain ⟨N, hd⟩ := @FrameFormat.exists_declared d (by omega)
  obtain ⟨hN, hin, hne⟩ := toNat_handlePackage hlen hpos hd
  have hlt := FrameFormat.declared_lt hd
  rw [hN]
  rcases Nat.lt_or_ge N (2 ^ 64) with hsmall | hwrap
  · rw [Nat.mod_eq_of_lt hsmall] at hin hne ⊢
    have htake : (d.take N).length = N := List.length_take_of_le hin
    rw [readsWhole_iff (by omega) (by rw [FrameFormat.declared_take hd hin, htake]),
      readable_take_iff hd]
  · have hmod : N % 2 ^ 64 = N - 2 ^ 64 := by omega
    rw [hmod] at hin ⊢
    refine iff_of_false ?_ (not_readable_wrapped hd hwrap)
    rintro ⟨fuel, t, ht, hwhole⟩
    exact not_whole_of_handed (handed_wrapped hd hwrap hin ht) hwhole

/-- **What becomes of an accepted package.** On an upgraded connection, with or without TLS: the
reader does with a package that the framing accepts what it should exactly when the package is
readable. -/
theorem readsWhole_accepted_iff {p : Http.HttpParser} {c : WSock} {handle : List UInt8 → ℤ}
    (hweb : c.isWebsocket = true) (hclass : handle = WSockConnection.handlePackage c
      ∨ handle = WSockSslConnection.handlePackage p c)
    (hlen : d.length < 2 ^ 32) (hpos : 0 < handle d) :
    ReadsWhole (d.take (handle d).toNat) ↔ Readable d := by
  rw [handle_upgraded hweb hclass] at hpos ⊢
  exact readsWhole_handlePackage_iff hlen hpos

/-- A masked frame whose two bytes of payload are counted in 64 bits, with the first byte of the
next frame behind it. -/
theorem readsWhole_masked :
    ReadsWhole ([0x82, 0xff, 0, 0, 0, 0, 0, 0, 0, 2, 7, 8, 9, 10, 11, 12]) :=
  (@readsWhole_accepted_iff [0x82, 0xff, 0, 0, 0, 0, 0, 0, 0, 2, 7, 8, 9, 10, 11, 12, 0x89]
    ⟨fun _ _ ↦ ([], 0), fun _ ↦ none⟩ upgraded _ rfl (.inl rfl) (by decide) (by decide)).mpr
      (by decide)

theorem over_limit {body : List UInt8} (h : body.length = 4093) :
    handlePackage ([0x82, 126, 0x0f, 0xfd] ++ body) = 4097
      ∧ ¬Readable ([0x82, 126, 0x0f, 0xfd] ++ body) := by
  have hd : declared ([0x82, 126, 0x0f, 0xfd] ++ body) = some 4097 := by
    rw [List.cons_append, List.cons_append, declared, if_pos (by simp [h]; decide)]
    rfl
  constructor
  · rw [handlePackage_declared (by simp [h]) hd, if_neg (by simp [h])]
    rfl
  · have hform : formOf (([0x82, 126, 0x0f, 0xfd] ++ body).getD 1 0) = .bits16 :=
      show formOf 126 = .bits16 by decide
    have hlength : lengthOf 126 (0x0f :: 0xfd :: body) = 4093 := rfl
    rw [Readable, hform]
    change ¬lengthOf 126 (0x0f :: 0xfd :: body) ≤ 4092
    rw [hlength]
    decide

/-- Of a frame with 4093 bytes of payload the last byte is lost, and of one that declares
`2 ^ 64 - 1` bytes nothing is handed on. -/
theorem cut_and_dropped :
    let long := [0x82, 126, 0x0f, 0xfd] ++ List.replicate 4093 0
    let wrapped := [0x82, 127] ++ List.replicate 14 255
    WSockConnection.handlePackage upgraded long = 4097 ∧ ¬ReadsWhole (long.take 4097)
      ∧ WSockConnection.handlePackage upgraded wrapped = 9 ∧ ¬ReadsWhole (wrapped.take 9) := by
  have hlong := @over_limit (List.replicate 4093 0) List.length_replicate
  have hwrapped : handlePackage ([0x82, 127] ++ List.replicate 14 255) = 9 := by decide
  have hlength : ([0x82, 126, 0x0f, 0xfd] ++ List.replicate 4093 (0 : UInt8)).length = 4097 := by
    rw [List.length_append, List.length_replicate]
    rfl
  refine ⟨hlong.1, fun h ↦ hlong.2 ?_, hwrapped, fun h ↦ ?_⟩
  · rw [← readsWhole_handlePackage_iff (by omega) (by rw [hlong.1]; decide), hlong.1]
    exact h
  · have hiff := @readsWhole_handlePackage_iff ([0x82, 127] ++ List.replicate 14 255) (by decide)
      (by rw [hwrapped]; decide)
    rw [hwrapped] at hiff
    exact absurd (hiff.mp h) (by decide)

end Knet.WebSocket
