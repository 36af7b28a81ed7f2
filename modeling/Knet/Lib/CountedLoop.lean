import Mathlib.Algebra.Group.Nat.Defs
import Mathlib.Data.List.Basic

/-!
# Loops with a counter of fixed width

`for (i = 0; i < n; i++) body(i);` where the counter counts modulo `width` and the bound `n` is a
number of a wider type. The loop is run with fuel, so that one that never ends has no result
whatever the fuel. It ends exactly when the bound is below the width.
-/

namespace CountedLoop

variable {σ : Type*} (width n : ℕ) (body : ℕ → σ → σ)

/-- The loop from the counter `i` on; `none` when the fuel does not suffice. -/
def run : ℕ → ℕ → σ → Option σ
  | 0, _, _ => none
  | fuel + 1, i, s => if i < n then run fuel ((i + 1) % width) (body i s) else some s

/-- The rounds `0, …, n - 1`, one after the other. -/
def rounds (s : σ) : σ := (List.range n).foldl (fun s i ↦ body i s) s

@[simp] theorem rounds_zero (s : σ) : rounds 0 body s = s := rfl

theorem rounds_succ (s : σ) : rounds (n + 1) body s = body n (rounds n body s) := by
  rw [rounds, List.range_succ, List.foldl_append]
  rfl

variable {width n body} {s t : σ} {fuel i : ℕ}

/-- A counter that cannot reach the bound never ends the loop. -/
theorem run_of_le (h : width ≤ n) (hi : i < width) : run width n body fuel i s = none := by
  induction fuel generalizing i s with
  | zero => rfl
  | succ fuel ih =>
    rw [run, if_pos (by omega)]
    exact ih (Nat.mod_lt _ (by omega))

theorem run_rounds (h : n < width) (hi : i ≤ n) (hfuel : n < fuel + i) :
    run width n body fuel i (rounds i body s) = some (rounds n body s) := by
  induction fuel generalizing i with
  | zero => omega
  | succ fuel ih =>
    rw [run]
    split_ifs with hlt
    · have hnext := @ih (i + 1) hlt (by omega)
      rw [rounds_succ] at hnext
      rw [Nat.mod_eq_of_lt (by omega), hnext]
    · rw [show i = n by omega]

theorem run_of_lt (h : n < width) (hfuel : n < fuel) :
    run width n body fuel 0 s = some (rounds n body s) :=
  run_rounds h (Nat.zero_le n) hfuel

/-- More fuel does not change the result. -/
theorem run_unique {fuel' : ℕ} {t' : σ} (h : run width n body fuel i s = some t)
    (h' : run width n body fuel' i s = some t') : t = t' := by
  induction fuel generalizing fuel' i s with
  | zero => exact absurd h (Option.some_ne_none t).symm
  | succ fuel ih =>
    cases fuel' with
    | zero => exact absurd h' (Option.some_ne_none t').symm
    | succ fuel' =>
      rw [run] at h h'
      split_ifs at h h' with hlt
      · exact ih h h'
      · exact Option.some.inj (h.symm.trans h')

/-- **The loop ends exactly when the bound is below the width**, and then it has made all its
rounds. -/
theorem exists_run_iff (hw : 0 < width) :
    (∃ fuel, run width n body fuel 0 s = some t) ↔ n < width ∧ t = rounds n body s := by
  constructor
  · rintro ⟨fuel, hrun⟩
    have hlt : n < width := by
      by_contra hle
      rw [run_of_le (Nat.le_of_not_lt hle) hw] at hrun
      exact absurd hrun (Option.some_ne_none t).symm
    exact ⟨hlt, run_unique hrun (run_of_lt hlt (Nat.lt_succ_self n))⟩
  · rintro ⟨hlt, rfl⟩
    exact ⟨n + 1, run_of_lt hlt (Nat.lt_succ_self n)⟩

/-- A loop that changes each entry of a list by a function of its index. -/
theorem rounds_modify {α : Type*} (f : ℕ → α → α) (l : List α) (k : ℕ) :
    rounds k (fun i l ↦ l.modify i (f i)) l = l.mapIdx fun i a ↦ if i < k then f i a else a := by
  induction k with
  | zero =>
    apply List.ext_getElem?
    intro i
    simp
  | succ k ih =>
    rw [rounds_succ, ih]
    apply List.ext_getElem?
    intro i
    rw [List.getElem?_modify, List.getElem?_mapIdx, List.getElem?_mapIdx]
    by_cases hi : k = i
    · subst hi
      simp
    · have hlt : i < k + 1 ↔ i < k := by omega
      simp [hi, hlt]

theorem rounds_modify_length {α : Type*} (f : ℕ → α → α) (l : List α) :
    rounds l.length (fun i l ↦ l.modify i (f i)) l = l.mapIdx f := by
  rw [rounds_modify]
  apply List.ext_getElem?
  intro i
  rw [List.getElem?_mapIdx, List.getElem?_mapIdx]
  rcases Nat.lt_or_ge i l.length with hi | hi
  · rw [List.getElem?_eq_getElem hi, Option.map_some, Option.map_some, if_pos hi]
  · rw [List.getElem?_eq_none hi, Option.map_none, Option.map_none]

end CountedLoop
