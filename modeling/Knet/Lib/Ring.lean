import Knet.Lib.Memory
import Mathlib.Algebra.Group.Nat.Defs
import Mathlib.Data.Nat.Size

/-!
# Rings of cells

The first `size` cells of a memory, taken as a ring: positions count on without bound, and the cell
of a position is found modulo `size`. A range of positions is then a window that may wrap around the
end of the cells, and a copy into such a window falls into two parts.

The second half is about the sizes for which positions are cheap to reduce, the powers of two:
setting every bit below the highest one, by five shifts, rounds a number up to the next of them.
-/

namespace Memory

variable {α : Type*} (m : Memory α)

/-- The `len` cells from the position `pos` on, in the ring of the first `size` cells. -/
def ring (size pos len : ℕ) : List α := (List.range len).map fun i ↦ m ((pos + i) % size)

/-- Store `bs` from the position `pos` on: up to the end of the cells, and the rest in front. -/
def ringWrite (size pos : ℕ) (bs : List α) : Memory α :=
  if size - pos % size < bs.length then
    (m.write (pos % size) (bs.take (size - pos % size))).write 0 (bs.drop (size - pos % size))
  else m.write (pos % size) bs

variable {m}

@[simp] theorem length_ring (size pos len : ℕ) : (m.ring size pos len).length = len := by
  rw [ring, List.length_map, List.length_range]

@[simp] theorem ring_zero (size pos : ℕ) : m.ring size pos 0 = [] := rfl

theorem ring_add (size pos a b : ℕ) :
    m.ring size pos (a + b) = m.ring size pos a ++ m.ring size (pos + a) b := by
  rw [ring, List.range_add, List.map_append, List.map_map, ring, ring]
  congr 1
  exact List.map_congr_left fun i _ ↦ by rw [Function.comp_apply, Nat.add_assoc]

theorem take_ring (size pos : ℕ) {len k : ℕ} (h : k ≤ len) :
    (m.ring size pos len).take k = m.ring size pos k := by
  obtain ⟨r, rfl⟩ := Nat.exists_eq_add_of_le h
  rw [ring_add, List.take_left' (length_ring _ _ _)]

theorem drop_ring (size pos : ℕ) {len k : ℕ} (h : k ≤ len) :
    (m.ring size pos len).drop k = m.ring size (pos + k) (len - k) := by
  obtain ⟨r, rfl⟩ := Nat.exists_eq_add_of_le h
  rw [ring_add, List.drop_left' (length_ring _ _ _), Nat.add_sub_cancel_left]

theorem ring_congr {m' : Memory α} {size pos pos' len : ℕ}
    (h : ∀ i < len, m ((pos + i) % size) = m' ((pos' + i) % size)) :
    m.ring size pos len = m'.ring size pos' len :=
  List.map_congr_left fun i hi ↦ h i (List.mem_range.mp hi)

theorem ring_congr_pos {size pos pos' : ℕ} (h : pos % size = pos' % size) (len : ℕ) :
    m.ring size pos len = m.ring size pos' len :=
  ring_congr fun i _ ↦ by rw [Nat.add_mod, h, ← Nat.add_mod]

/-- A window that does not wrap is a range of cells. -/
theorem ring_eq_read {size pos len : ℕ} (h : pos % size + len ≤ size) :
    m.ring size pos len = m.read (pos % size) len := by
  refine List.map_congr_left fun i hi ↦ ?_
  have hlt : pos % size + i < size := by
    have := List.mem_range.mp hi
    omega
  rw [← Nat.mod_add_mod, Nat.mod_eq_of_lt hlt]

/-- **What a copy into the ring leaves in the cells**, counted from the position of the copy. -/
theorem ringWrite_apply {size : ℕ} (pos : ℕ) {bs : List α} (hbs : bs.length ≤ size) {i : ℕ}
    (hi : i < size) :
    m.ringWrite size pos bs ((pos + i) % size) = (bs[i]?).getD (m ((pos + i) % size)) := by
  have hp : pos % size < size := Nat.mod_lt _ (by omega)
  rw [ringWrite]
  generalize hcell : (pos + i) % size = c
  rw [← Nat.mod_add_mod] at hcell
  generalize pos % size = p at *
  by_cases hwrap : p + i < size
  · -- the cell lies in the first part
    rw [Nat.mod_eq_of_lt hwrap] at hcell
    subst hcell
    split_ifs with hsplit
    · rw [write, if_neg (by omega), List.getElem?_eq_none (by rw [List.length_drop]; omega),
        Option.getD_none, write, if_neg (by omega), Nat.add_sub_cancel_left,
        List.getElem?_take_of_lt (by omega)]
    · rw [write, if_neg (by omega), Nat.add_sub_cancel_left]
  · -- the cell lies in front, where only the second part reaches
    rw [Nat.mod_eq_sub_mod (by omega), Nat.mod_eq_of_lt (by omega)] at hcell
    subst hcell
    split_ifs with hsplit
    · rw [write, if_neg (by omega), Nat.sub_zero, List.getElem?_drop, write, if_pos (by omega),
        show size - p + (p + i - size) = i by omega]
    · rw [write, if_pos (by omega), List.getElem?_eq_none (by omega), Option.getD_none]

theorem ring_ringWrite {size : ℕ} (pos : ℕ) {bs : List α} (hbs : bs.length ≤ size) :
    (m.ringWrite size pos bs).ring size pos bs.length = bs := by
  refine List.ext_getElem (length_ring _ _ _) fun i h₁ h₂ ↦ ?_
  simp only [ring, List.getElem_map, List.getElem_range]
  rw [ringWrite_apply pos hbs (by omega), List.getElem?_eq_getElem h₂, Option.getD_some]

/-- A copy behind a window that leaves room for it does not touch the window. -/
theorem ring_ringWrite_of_le {size pos used : ℕ} {bs : List α} (h : used + bs.length ≤ size) :
    (m.ringWrite size (pos + used) bs).ring size pos used = m.ring size pos used := by
  refine ring_congr fun i hi ↦ ?_
  -- seen from the copy, the cell comes after what was copied, at the end of the turn
  have hcell : (pos + i) % size = (pos + used + (size - used + i)) % size := by
    rw [show pos + used + (size - used + i) = pos + i + size by omega, Nat.add_mod_right]
  rw [hcell, ringWrite_apply (pos + used) (by omega) (by omega),
    List.getElem?_eq_none (by omega), Option.getD_none]

/-- **A copy right behind a window extends it.** -/
theorem ring_ringWrite_append {size pos used : ℕ} {bs : List α} (h : used + bs.length ≤ size) :
    (m.ringWrite size (pos + used) bs).ring size pos (used + bs.length)
      = m.ring size pos used ++ bs := by
  rw [ring_add, ring_ringWrite_of_le h, ring_ringWrite _ (by omega)]

end Memory

/-! ## Rounding up to a power of two -/

namespace PowerOfTwo

theorem testBit_or_shiftRight {x y k : ℕ}
    (h : ∀ i, y.testBit i = true ↔ ∃ d < k, x.testBit (i + d) = true) (i : ℕ) :
    (y ||| y >>> k).testBit i = true ↔ ∃ d < k + k, x.testBit (i + d) = true := by
  rw [Nat.testBit_or, Nat.testBit_shiftRight, Bool.or_eq_true, h, h]
  constructor
  · rintro (⟨d, hd, hx⟩ | ⟨d, hd, hx⟩)
    · exact ⟨d, by omega, hx⟩
    · exact ⟨k + d, by omega, by rwa [show i + (k + d) = k + i + d by omega]⟩
  · rintro ⟨d, hd, hx⟩
    by_cases hdk : d < k
    · exact .inl ⟨d, hdk, hx⟩
    · exact .inr ⟨d - k, by omega, by rwa [show k + i + (d - k) = i + d by omega]⟩

/-- Set every bit below the highest one of a number of 32 bits. -/
def fill (x : ℕ) : ℕ := [1, 2, 4, 8, 16].foldl (fun y k ↦ y ||| y >>> k) x

theorem testBit_fill (x i : ℕ) :
    (fill x).testBit i = true ↔ ∃ d < 32, x.testBit (i + d) = true := by
  have hzero : ∀ i, x.testBit i = true ↔ ∃ d < 1, x.testBit (i + d) = true := by
    intro i
    constructor
    · intro h
      exact ⟨0, by decide, h⟩
    · rintro ⟨d, hd, h⟩
      rwa [show d = 0 by omega] at h
  exact testBit_or_shiftRight (testBit_or_shiftRight (testBit_or_shiftRight
    (testBit_or_shiftRight (testBit_or_shiftRight hzero)))) i

theorem fill_eq {x : ℕ} (hx : x < 2 ^ 32) : fill x = 2 ^ x.size - 1 := by
  refine Nat.eq_of_testBit_eq fun i ↦ ?_
  rw [Nat.testBit_two_pow_sub_one, Bool.eq_iff_iff, testBit_fill, decide_eq_true_iff, Nat.lt_size]
  constructor
  · rintro ⟨d, -, hd⟩
    have hpow : 2 ^ i ≤ 2 ^ (i + d) := Nat.pow_le_pow_right (by decide) (by omega)
    exact Nat.le_trans hpow (Nat.ge_two_pow_of_testBit hd)
  · intro hle
    obtain ⟨j, hij, hj⟩ := Nat.exists_ge_and_testBit_of_ge_two_pow hle
    have hjw : 2 ^ j < 2 ^ 32 := Nat.lt_of_le_of_lt (Nat.ge_two_pow_of_testBit hj) hx
    have := (Nat.pow_lt_pow_iff_right (by decide)).mp hjw
    exact ⟨j - i, by omega, by rwa [show i + (j - i) = j by omega]⟩

end PowerOfTwo
