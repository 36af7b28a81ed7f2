import Mathlib.Data.BitVec
import Mathlib.Data.List.Nodup

/-!
# Serial numbers

A counter of `w` bits that wraps around is compared with another one by the sign of their
difference, read as a signed number of `w` bits. As long as the numbers that the counters stand for
are less than `2 ^ (w - 1)` apart this is the order of those numbers, wherever the counters have
wrapped (`diff_eq_sub`, `diff_eq_offset_sub`). Numbers further apart compare the wrong way round.

A window of numbers is given by its first one and its size. `offset_lt_of_window` says what the
two comparisons by which a program tests a window really give. A list of numbers of a window, in
order, is not longer than the window (`Ordered.length_le`).
-/

namespace Serial

variable {w : ℕ}

/-- How far `later` is ahead of `earlier`. -/
def diff (later earlier : BitVec w) : ℤ := (later - earlier).toInt

/-- The place of a number in a window that starts at `base`. -/
def offset (base s : BitVec w) : ℕ := (s - base).toNat

theorem diff_eq_bmod (a b : BitVec w) :
    diff a b = ((a.toNat : ℤ) - b.toNat).bmod (2 ^ w) := by
  rw [diff, BitVec.toInt_sub, BitVec.toInt_eq_toNat_bmod, BitVec.toInt_eq_toNat_bmod]
  rw [Int.bmod_sub_bmod, Int.sub_bmod_bmod]

/-- **Near numbers compare as numbers.** -/
theorem diff_eq_sub {a b : BitVec w} (hlow : -(2 ^ w : ℤ) ≤ ((a.toNat : ℤ) - b.toNat) * 2)
    (hhigh : ((a.toNat : ℤ) - b.toNat) * 2 < 2 ^ w) : diff a b = (a.toNat : ℤ) - b.toNat := by
  rw [diff_eq_bmod]
  exact Int.bmod_eq_of_le_mul_two (by push_cast; exact hlow) (by push_cast; exact hhigh)

theorem diff_nonneg_iff (a b : BitVec w) : 0 ≤ diff a b ↔ 2 * offset b a < 2 ^ w := by
  have hlt : (a - b).toNat < 2 ^ w := (a - b).isLt
  rw [diff, offset, BitVec.toInt_eq_toNat_cond]
  split_ifs with h
  · exact ⟨fun _ ↦ h, fun _ ↦ by omega⟩
  · exact ⟨fun h' ↦ by omega, fun h' ↦ absurd h' h⟩

theorem diff_eq_offset {a b : BitVec w} (h : 0 ≤ diff a b) : diff a b = offset b a := by
  have hnear := (diff_nonneg_iff a b).mp h
  rw [offset] at hnear
  rw [diff, offset, BitVec.toInt_eq_toNat_cond, if_pos hnear]

theorem diff_eq_offset_sub {base s t : BitVec w} (hs : 2 * offset base s < 2 ^ w)
    (ht : 2 * offset base t < 2 ^ w) : diff s t = (offset base s : ℤ) - offset base t := by
  have hsplit : s - t = (s - base) - (t - base) := by
    rw [sub_sub_sub_cancel_right]
  have hdiff : diff s t = diff (s - base) (t - base) := by rw [diff, diff, hsplit]
  have hpow : ((2 ^ w : ℕ) : ℤ) = 2 ^ w := by push_cast; rfl
  rw [hdiff]
  rw [offset] at hs ht
  exact diff_eq_sub (by rw [← hpow]; omega) (by rw [← hpow]; omega)

theorem offset_add {base s k : BitVec w} (h : k.toNat ≤ offset base s) :
    offset (base + k) s = offset base s - k.toNat := by
  have hsplit : s - (base + k) = (s - base) - k := sub_add_eq_sub_sub s base k
  rw [offset] at h
  rw [offset, offset, hsplit, BitVec.toNat_sub_of_le (BitVec.le_def.mpr h)]

theorem offset_eq_sub {base s t : BitVec w} (h : offset base s ≤ offset base t) :
    offset s t = offset base t - offset base s := by
  have hs : base + (s - base) = s := by rw [add_comm, sub_add_cancel]
  have hoff := @offset_add _ base t (s - base) h
  rwa [hs] at hoff

theorem offset_add_self (base k : BitVec w) : offset base (base + k) = k.toNat := by
  rw [offset, add_sub_cancel_left]

theorem offset_succ {base s : BitVec w} (h : offset base s + 1 < 2 ^ w) :
    offset base (s + 1) = offset base s + 1 := by
  have hsplit : s + 1 - base = (s - base) + 1 := by
    rw [sub_eq_add_neg, sub_eq_add_neg, add_right_comm]
  rw [offset] at h
  rw [offset, offset, hsplit, BitVec.toNat_add]
  have hone : (1 : BitVec w).toNat = 1 := by
    cases w with
    | zero => exact absurd h (by simp)
    | succ w => exact BitVec.toNat_one (Nat.succ_pos w)
  rw [hone]
  exact Nat.mod_eq_of_lt h

theorem offset_eq_zero_iff {base s : BitVec w} : offset base s = 0 ↔ s = base := by
  rw [offset, ← BitVec.toNat_zero (w := w), BitVec.toNat_inj]
  exact sub_eq_zero

theorem offset_inj {base s t : BitVec w} (h : offset base s = offset base t) : s = t :=
  sub_left_inj.mp (BitVec.eq_of_toNat_eq h)

/-- **What a window test gives**, for windows of any size. -/
theorem offset_lt_of_window {base s size : BitVec w} (hlow : 0 ≤ diff s base)
    (hhigh : diff s (base + size) < 0) : offset base s < size.toNat := by
  by_contra hge
  have hoff := offset_add (Nat.le_of_not_lt hge)
  have hnear := (diff_nonneg_iff _ _).mp hlow
  have : 0 ≤ diff s (base + size) := (diff_nonneg_iff _ _).mpr (by omega)
  omega

/-! ## Lists of numbers of a window -/

/-- The numbers are in order, seen from `base`, and less than `bound` behind it. -/
structure Ordered (base : BitVec w) (bound : ℕ) (l : List (BitVec w)) : Prop where
  sorted : (l.map (offset base)).Pairwise (· < ·)
  lt : ∀ s ∈ l, offset base s < bound

namespace Ordered

variable {base s : BitVec w} {bound : ℕ} {l l' : List (BitVec w)}

theorem nil : Ordered base bound [] := ⟨List.Pairwise.nil, fun _ h ↦ absurd h List.not_mem_nil⟩

theorem sublist (h : Ordered base bound l) (hsub : l'.Sublist l) : Ordered base bound l' where
  sorted := h.sorted.sublist (hsub.map _)
  lt s hs := h.lt s (hsub.subset hs)

theorem mono {bound' : ℕ} (h : Ordered base bound l) (hle : bound ≤ bound') :
    Ordered base bound' l where
  sorted := h.sorted
  lt s hs := (h.lt s hs).trans_le hle

/-- **No two numbers are the same, and there are not more of them than the window has room for.** -/
theorem length_le (h : Ordered base bound l) : l.Nodup ∧ l.length ≤ bound := by
  have hnodup : (l.map (offset base)).Nodup := h.sorted.imp fun hlt ↦ Nat.ne_of_lt hlt
  have hsub : l.map (offset base) ⊆ List.range bound := by
    intro n hn
    obtain ⟨s, hs, rfl⟩ := List.mem_map.mp hn
    exact List.mem_range.mpr (h.lt s hs)
  have hlen := (hnodup.subperm hsub).length_le
  rw [List.length_map, List.length_range] at hlen
  exact ⟨hnodup.of_map _, hlen⟩

theorem rebase {k : BitVec w} (h : Ordered base bound l) (hk : ∀ s ∈ l, k.toNat ≤ offset base s) :
    Ordered (base + k) (bound - k.toNat) l where
  sorted := by
    have hoff : l.map (offset (base + k)) = l.map fun s ↦ offset base s - k.toNat :=
      List.map_congr_left fun s hs ↦ offset_add (hk s hs)
    rw [hoff, List.pairwise_map]
    refine (List.pairwise_map.mp h.sorted).imp_of_mem fun {s t} hs ht hlt ↦ ?_
    have := hk s hs
    omega
  lt s hs := by
    have hlt := h.lt s hs
    have := hk s hs
    rw [offset_add this]
    omega

theorem rebase_head (h : Ordered base bound (s :: l)) :
    Ordered s (bound - offset base s) (s :: l) := by
  have hhead : base + (s - base) = s := by rw [add_comm, sub_add_cancel]
  have hle : ∀ t ∈ s :: l, (s - base).toNat ≤ offset base t := by
    refine List.forall_mem_cons.mpr ⟨Nat.le_refl _, fun t ht ↦ ?_⟩
    exact Nat.le_of_lt ((List.pairwise_cons.mp h.sorted).1 _ (List.mem_map_of_mem ht))
  have hrebase := h.rebase hle
  rwa [hhead] at hrebase

/-- When the first number is taken away, the window starts with the next one. -/
theorem next (hw : 0 < w) (h : Ordered base bound (base :: l)) :
    Ordered (base + 1) (bound - 1) l := by
  have hone : (1 : BitVec w).toNat = 1 := BitVec.toNat_one hw
  have hrest : Ordered base bound l := h.sublist (List.sublist_cons_self _ _)
  have hle : ∀ s ∈ l, (1 : BitVec w).toNat ≤ offset base s := by
    intro s hs
    have hlt := (List.pairwise_cons.mp h.sorted).1 _ (List.mem_map_of_mem hs)
    rw [hone]
    exact Nat.lt_of_le_of_lt (Nat.zero_le _) hlt
  have hrebase := hrest.rebase hle
  rwa [hone] at hrebase

theorem concat (h : Ordered base (offset base s) l) :
    Ordered base (offset base s + 1) (l ++ [s]) where
  sorted := by
    rw [List.map_append, List.map_singleton]
    refine List.pairwise_append.mpr ⟨h.sorted, List.pairwise_singleton _ _, fun a ha b hb ↦ ?_⟩
    obtain ⟨t, ht, rfl⟩ := List.mem_map.mp ha
    rw [List.mem_singleton.mp hb]
    exact h.lt t ht
  lt := by
    refine List.forall_mem_append.mpr ⟨fun t ht ↦ (h.lt t ht).trans (Nat.lt_succ_self _), ?_⟩
    exact List.forall_mem_singleton.mpr (Nat.lt_succ_self _)

end Ordered

end Serial
