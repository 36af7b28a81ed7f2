import Mathlib.Data.List.Basic

/-!
# Flat memory

A memory is a function from addresses to cells. A buffer inside it is a base address and a length;
reading past the end of a buffer is then not an error but a read of whatever cells lie behind it,
which is what a program that passes a wrong length to a callee does. `write` and `move` are the
effects of a receive into a buffer and of `memmove`.
-/

/-- Cells of type `α` at the addresses `0, 1, 2, …`. -/
def Memory (α : Type*) := ℕ → α

namespace Memory

variable {α : Type*} (m : Memory α)

/-- The `len` cells from address `off` on. -/
def read (off len : ℕ) : List α := (List.range len).map fun i ↦ m (off + i)

/-- Store the cells `bs` from address `off` on. -/
def write (off : ℕ) (bs : List α) : Memory α :=
  fun i ↦ if i < off then m i else (bs[i - off]?).getD (m i)

/-- Copy `len` cells from address `src` to address `dst`; the ranges may overlap. -/
def move (dst src len : ℕ) : Memory α :=
  fun i ↦ if dst ≤ i ∧ i < dst + len then m (src + (i - dst)) else m i

@[simp] theorem length_read (off len : ℕ) : (m.read off len).length = len := by
  rw [read, List.length_map, List.length_range]

@[simp] theorem read_zero (off : ℕ) : m.read off 0 = [] := rfl

theorem read_add (off a b : ℕ) : m.read off (a + b) = m.read off a ++ m.read (off + a) b := by
  rw [read, List.range_add, List.map_append, List.map_map, read, read]
  congr 1
  exact List.map_congr_left fun i _ ↦ by rw [Function.comp_apply, Nat.add_assoc]

theorem read_congr {m' : Memory α} {off off' len : ℕ}
    (h : ∀ i < len, m (off + i) = m' (off' + i)) : m.read off len = m'.read off' len :=
  List.map_congr_left fun i hi ↦ h i (List.mem_range.mp hi)

theorem drop_read (off len k : ℕ) : (m.read off len).drop k = m.read (off + k) (len - k) := by
  rcases Nat.le_total k len with h | h
  · obtain ⟨r, rfl⟩ := Nat.exists_eq_add_of_le h
    rw [read_add, List.drop_left' (length_read _ _ _), Nat.add_sub_cancel_left]
  · rw [Nat.sub_eq_zero_of_le h, read_zero, List.drop_eq_nil_of_le (by rw [length_read]; exact h)]

theorem take_read (off : ℕ) {len k : ℕ} (h : k ≤ len) : (m.read off len).take k = m.read off k := by
  obtain ⟨r, rfl⟩ := Nat.exists_eq_add_of_le h
  rw [read_add, List.take_left' (length_read _ _ _)]

theorem read_eq_append {off len : ℕ} {bs bs' : List α} (h : m.read off len = bs ++ bs') :
    m.read off bs.length = bs ∧ m.read (off + bs.length) (len - bs.length) = bs' := by
  have hle : bs.length ≤ len := by
    rw [← length_read m off len, h, List.length_append]
    exact Nat.le_add_right _ _
  refine ⟨?_, ?_⟩
  · rw [← m.take_read off hle, h, List.take_left]
  · rw [← m.drop_read, h, List.drop_left]

theorem write_before {i off : ℕ} (h : i < off) (bs : List α) : m.write off bs i = m i := if_pos h

theorem write_behind {i off : ℕ} {bs : List α} (h : off + bs.length ≤ i) :
    m.write off bs i = m i := by
  rw [write, if_neg (by omega), List.getElem?_eq_none (by omega), Option.getD_none]

theorem write_congr (m' : Memory α) {i off : ℕ} {bs : List α} (h : i < bs.length) :
    m.write off bs (off + i) = m'.write off bs (off + i) := by
  rw [write, write, if_neg (by omega), if_neg (by omega), Nat.add_sub_cancel_left,
    List.getElem?_eq_getElem h, Option.getD_some, Option.getD_some]

theorem read_write (off : ℕ) (bs : List α) : (m.write off bs).read off bs.length = bs := by
  refine List.ext_getElem (length_read _ _ _) fun i h₁ h₂ ↦ ?_
  have hnot : ¬off + i < off := by omega
  simp only [read, write, List.getElem_map, List.getElem_range, if_neg hnot,
    Nat.add_sub_cancel_left, List.getElem?_eq_getElem h₂, Option.getD_some]

theorem read_write_of_le {off off' len : ℕ} (bs : List α) (h : off' + len ≤ off) :
    (m.write off bs).read off' len = m.read off' len :=
  read_congr _ fun i hi ↦ if_pos (by omega)

theorem read_write_append (n : ℕ) (bs : List α) :
    (m.write n bs).read 0 (n + bs.length) = m.read 0 n ++ bs := by
  rw [read_add, read_write_of_le _ _ (by omega), Nat.zero_add, read_write]

@[simp] theorem move_self (off len : ℕ) : m.move off off len = m := by
  funext i
  rw [move]
  split_ifs with h
  · rw [Nat.add_sub_cancel' h.1]
  · rfl

theorem read_move (dst src len : ℕ) : (m.move dst src len).read dst len = m.read src len :=
  read_congr _ fun i hi ↦ by
    rw [move, if_pos ⟨by omega, by omega⟩, Nat.add_sub_cancel_left]

/-! ### Adjacent ranges -/

/-- The ranges `(off, len)` follow one another from `start` to `stop`, and none is empty. -/
def Tiles : ℕ → ℕ → List (ℕ × ℕ) → Prop
  | start, stop, [] => start = stop
  | start, stop, (off, len) :: ranges => off = start ∧ 0 < len ∧ Tiles (start + len) stop ranges

theorem Tiles.le {start stop : ℕ} {ranges : List (ℕ × ℕ)} (h : Tiles start stop ranges) :
    start ≤ stop := by
  induction ranges generalizing start with
  | nil => exact Nat.le_of_eq h
  | cons range ranges ih => exact Nat.le_trans (Nat.le_add_right _ _) (ih h.2.2)

/-- What stands in adjacent ranges is what stands between the first and the last. -/
theorem flatten_read_of_tiles {start stop : ℕ} {ranges : List (ℕ × ℕ)}
    (h : Tiles start stop ranges) :
    (ranges.map fun range ↦ m.read range.1 range.2).flatten = m.read start (stop - start) := by
  induction ranges generalizing start with
  | nil =>
    obtain rfl : start = stop := h
    rw [Nat.sub_self, read_zero, List.map_nil, List.flatten_nil]
  | cons range ranges ih =>
    obtain ⟨rfl, -, hrest⟩ := h
    have hle := hrest.le
    rw [List.map_cons, List.flatten_cons, ih hrest, ← read_add]
    congr 1
    omega

end Memory
