import Mathlib.Data.List.Basic
import Mathlib.Data.Nat.Basic

/-!
# Runs of one value

Where a value stands several times in a row in a list, and the first longest such run.
-/

namespace Runs

variable {α : Type*} {z : α} {xs : List α} {a b j k : ℕ}

/-- `z` stands at the `k` places from `a` on. -/
def IsRun (z : α) (xs : List α) (a k : ℕ) : Prop := ∀ i, a ≤ i → i < a + k → xs[i]? = some z

/-- No run is longer, and none that is as long begins earlier. -/
structure IsFirstLongest (z : α) (xs : List α) (a k : ℕ) : Prop where
  run : IsRun z xs a k
  maximal : ∀ b j, IsRun z xs b j → j ≤ k
  first : ∀ b, IsRun z xs b k → a ≤ b

theorem isRun_zero : IsRun z xs a 0 := fun _ hle hlt ↦ absurd hlt (not_lt.mpr hle)

theorem IsRun.mono (h : IsRun z xs a k) (hab : a ≤ b) (hbj : b + j ≤ a + k) : IsRun z xs b j :=
  fun i hle hlt ↦ h i (le_trans hab hle) (lt_of_lt_of_le hlt hbj)

theorem IsRun.add_le_length (h : IsRun z xs a k) (hk : 0 < k) : a + k ≤ xs.length := by
  have hlast := h (a + k - 1) (by omega) (by omega)
  obtain ⟨hlt, -⟩ := List.getElem?_eq_some_iff.mp hlast
  omega

theorem IsFirstLongest.length_unique (h : IsFirstLongest z xs a k) (h' : IsFirstLongest z xs b j) :
    k = j := le_antisymm (h'.maximal _ _ h.run) (h.maximal _ _ h'.run)

theorem IsFirstLongest.unique (h : IsFirstLongest z xs a k) (h' : IsFirstLongest z xs b k) :
    a = b := le_antisymm (h.first _ h'.run) (h'.first _ h.run)

theorem IsRun.eq_append (h : IsRun z xs a k) :
    xs = xs.take a ++ (List.replicate k z ++ xs.drop (a + k)) := by
  have hrun : (xs.drop a).take k = List.replicate k z := by
    apply List.ext_getElem?
    intro i
    rw [List.getElem?_take, List.getElem?_replicate, List.getElem?_drop]
    split_ifs with hi
    · exact h (a + i) (Nat.le_add_right a i) (Nat.add_lt_add_left hi a)
    · rfl
  rw [← hrun, ← List.drop_drop, List.take_append_drop, List.take_append_drop]

theorem isRun_append (xs ys : List α) (k : ℕ) :
    IsRun z (xs ++ (List.replicate k z ++ ys)) xs.length k := by
  intro i hle hlt
  rw [List.getElem?_append_right hle,
    List.getElem?_append_left (by rw [List.length_replicate]; omega),
    List.getElem?_replicate, if_pos (by omega)]

theorem isRun_map {β : Type*} {f : α → β} (hf : ∀ x ∈ xs, f x = f z → x = z) :
    IsRun (f z) (xs.map f) a k ↔ IsRun z xs a k := by
  refine forall₃_congr fun i _ _ ↦ ?_
  rw [List.getElem?_map, Option.map_eq_some_iff]
  constructor
  · rintro ⟨x, hx, heq⟩
    rw [hx, hf x (List.mem_of_getElem? hx) heq]
  · exact fun h ↦ ⟨z, h, rfl⟩

theorem isFirstLongest_map {β : Type*} {f : α → β} (hf : ∀ x ∈ xs, f x = f z → x = z) :
    IsFirstLongest (f z) (xs.map f) a k ↔ IsFirstLongest z xs a k := by
  constructor
  · rintro ⟨hrun, hmax, hfirst⟩
    exact ⟨(isRun_map hf).mp hrun, fun b j h ↦ hmax b j ((isRun_map hf).mpr h),
      fun b h ↦ hfirst b ((isRun_map hf).mpr h)⟩
  · rintro ⟨hrun, hmax, hfirst⟩
    exact ⟨(isRun_map hf).mpr hrun, fun b j h ↦ hmax b j ((isRun_map hf).mp h),
      fun b h ↦ hfirst b ((isRun_map hf).mp h)⟩

theorem takeWhile_spec (p : α → Bool) (xs : List α) :
    (∀ i < (xs.takeWhile p).length, ∃ x, xs[i]? = some x ∧ p x = true) ∧
      ∀ x, xs[(xs.takeWhile p).length]? = some x → p x = false := by
  induction xs with
  | nil => exact ⟨nofun, nofun⟩
  | cons y ys ih =>
    by_cases hy : p y = true
    · rw [List.takeWhile_cons_of_pos hy, List.length_cons]
      refine ⟨fun i hi ↦ ?_, ih.2⟩
      rcases i with _ | i
      · exact ⟨y, rfl, hy⟩
      · exact ih.1 i (Nat.lt_of_succ_lt_succ hi)
    · rw [List.takeWhile_cons_of_neg hy]
      refine ⟨nofun, fun x hx ↦ ?_⟩
      rw [← Option.some.inj hx]
      simpa using hy

theorem takeWhile_drop_spec (p : α → Bool) (xs : List α) (a : ℕ) :
    (∀ i, a ≤ i → i < a + ((xs.drop a).takeWhile p).length → ∃ x, xs[i]? = some x ∧ p x = true) ∧
      ∀ x, xs[a + ((xs.drop a).takeWhile p).length]? = some x → p x = false := by
  have h := takeWhile_spec p (xs.drop a)
  simp only [List.getElem?_drop] at h
  refine ⟨fun i hle hlt ↦ ?_, h.2⟩
  have hi := h.1 (i - a) (by omega)
  rwa [Nat.add_sub_cancel' hle] at hi

end Runs
