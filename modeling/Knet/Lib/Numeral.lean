import Mathlib.Data.List.Basic
import Mathlib.Order.Nat

/-!
# Numerals that are read with a guard

A number is read digit by digit, and before a digit is added the number so far is compared with a
bound. Of a numeral with any number of digits that accepts the numbers up to a limit, and no others,
and what is accepted is the number that the digits stand for.
-/

namespace Numeral

/-- The number that digits of the base `b` stand for, behind the number `n`. -/
def value (b n : ℕ) (ds : List ℕ) : ℕ := ds.foldl (fun n d ↦ n * b + d) n

/-- One digit more, unless the number so far is too great. -/
def guarded (b bound n d : ℕ) : Option ℕ := if bound < n then none else some (n * b + d)

variable {b bound n d : ℕ} {ds : List ℕ}

theorem value_cons : value b n (d :: ds) = value b (n * b + d) ds := rfl

theorem le_value (hb : 0 < b) : n ≤ value b n ds := by
  induction ds generalizing n with
  | nil => exact Nat.le_refl n
  | cons d ds ih =>
    calc
      n ≤ n * b := Nat.le_mul_of_pos_right n hb
      _ ≤ n * b + d := Nat.le_add_right _ _
      _ ≤ value b n (d :: ds) := ih

theorem le_value_div (hb : 0 < b) : n ≤ value b n (d :: ds) / b := by
  rw [Nat.le_div_iff_mul_le hb]
  exact (Nat.le_add_right _ d).trans (le_value hb)

/-- **What is accepted:** the number without its last digit is within the bound. -/
theorem foldlM_guarded (hb : 0 < b) (h : ∀ d ∈ ds, d < b) (hne : ds ≠ []) :
    ds.foldlM (guarded b bound) n
      = if value b n ds / b ≤ bound then some (value b n ds) else none := by
  induction ds generalizing n with
  | nil => exact absurd rfl hne
  | cons d ds ih =>
    obtain ⟨hd, hds⟩ := List.forall_mem_cons.mp h
    rw [List.foldlM_cons, guarded]
    by_cases hlt : bound < n
    · have hgt : ¬value b n (d :: ds) / b ≤ bound := (hlt.trans_le (le_value_div hb)).not_ge
      rw [if_pos hlt, if_neg hgt]
      rfl
    · rw [if_neg hlt]
      cases ds with
      | nil =>
        have hdiv : value b n [d] / b = n := by
          rw [value_cons, value, List.foldl_nil, Nat.mul_comm, Nat.mul_add_div hb,
            Nat.div_eq_of_lt hd, Nat.add_zero]
        rw [if_pos (hdiv.trans_le (not_lt.mp hlt))]
        rfl
      | cons d' ds => exact ih hds (List.cons_ne_nil _ _)

end Numeral
