import Mathlib.Data.List.Basic

/-!
# Streams cut into segments

A stream carries a list of non-empty segments one after the other, perhaps with an unfinished one at
its end. A reader has seen some prefix of the stream. `exists_split` says where that prefix stands:
some number of whole segments, then a strict part of the next one. The reader's own cuts of the
stream play no part in it.
-/

namespace Segments

variable {α : Type*}

/-- How many leading segments fit whole into `n` cells. -/
def whole : List (List α) → ℕ → ℕ
  | [], _ => 0
  | p :: ps, n => if p.length ≤ n then whole ps (n - p.length) + 1 else 0

/-- `u` is a strict part of what comes next: of the first segment, when there is one left. -/
def Partial (ps : List (List α)) (u : List α) : Prop :=
  ∀ p rest, ps = p :: rest → u.length < p.length

theorem partial_nil (u : List α) : Partial [] u := by
  intro p rest h
  exact absurd h (List.cons_ne_nil p rest).symm

theorem partial_cons {p : List α} {ps : List (List α)} {u : List α} :
    Partial (p :: ps) u ↔ u.length < p.length := by
  constructor
  · intro h
    exact h p ps rfl
  · rintro h q rest hq
    exact (List.cons.inj hq).1 ▸ h

theorem partial_prefix {ps : List (List α)} {u more : List α} (h : Partial ps u)
    (hstream : u ++ more = ps.flatten) (hne : u ≠ []) :
    ∃ p ∈ ps, u <+: p ∧ u.length < p.length := by
  cases ps with
  | nil =>
    rw [List.flatten_nil] at hstream
    exact absurd (List.append_eq_nil_iff.mp hstream).1 hne
  | cons p ps =>
    have hlt := partial_cons.mp h
    rw [List.flatten_cons] at hstream
    exact ⟨p, List.mem_cons_self, List.prefix_of_prefix_length_le ⟨more, hstream⟩
      (List.prefix_append _ _) (Nat.le_of_lt hlt), hlt⟩

/-- **Where a prefix of the stream stands.** Any prefix `a` of a stream of segments is a number of
whole segments followed by a strict part of the next. -/
theorem exists_split {ps : List (List α)} {a b t : List α} (h : a ++ b = ps.flatten ++ t) :
    ∃ done todo u, ps = done ++ todo ∧ a = done.flatten ++ u ∧ u ++ b = todo.flatten ++ t
      ∧ Partial todo u := by
  induction ps generalizing a with
  | nil => exact ⟨[], [], a, rfl, rfl, h, partial_nil a⟩
  | cons p ps ih =>
    rw [List.flatten_cons, List.append_assoc] at h
    by_cases hlen : a.length < p.length
    · exact ⟨[], p :: ps, a, rfl, rfl, by rw [h, List.flatten_cons, List.append_assoc],
        partial_cons.mpr hlen⟩
    · obtain ⟨a', rfl, hrest⟩ : ∃ a', a = p ++ a' ∧ ps.flatten ++ t = a' ++ b := by
        rcases List.append_eq_append_iff.mp h with ⟨c, hp, hb⟩ | ⟨c, ha, hb⟩
        · have hc : c = [] := by
            have := congrArg List.length hp
            rw [List.length_append] at this
            exact List.length_eq_zero_iff.mp (by omega)
          subst hc
          exact ⟨[], by rw [hp, List.append_nil, List.append_nil], by rw [hb]; rfl⟩
        · exact ⟨c, ha, hb⟩
      obtain ⟨done, todo, u, rfl, rfl, hu, hpart⟩ := ih hrest.symm
      exact ⟨p :: done, todo, u, rfl, by rw [List.flatten_cons, List.append_assoc], hu, hpart⟩

theorem whole_append {done todo : List (List α)} {n : ℕ}
    (h : done.flatten.length ≤ n) :
    whole (done ++ todo) n = done.length + whole todo (n - done.flatten.length) := by
  induction done generalizing n with
  | nil => simp
  | cons p ps ih =>
    rw [List.flatten_cons, List.length_append] at h
    rw [List.cons_append, whole, if_pos (by omega), ih (by omega), List.flatten_cons,
      List.length_append, List.length_cons, Nat.sub_add_eq]
    omega

theorem whole_eq_zero {ps : List (List α)} {u : List α} (h : Partial ps u) :
    whole ps u.length = 0 := by
  cases ps with
  | nil => rfl
  | cons p ps => rw [whole, if_neg (by have := partial_cons.mp h; omega)]

theorem whole_le_length (ps : List (List α)) (n : ℕ) : whole ps n ≤ ps.length := by
  induction ps generalizing n with
  | nil => exact Nat.le_refl 0
  | cons p ps ih =>
    rw [whole]
    split
    · exact Nat.succ_le_succ (ih _)
    · exact Nat.zero_le _

theorem whole_split {done todo : List (List α)} {u : List α} (h : Partial todo u) :
    whole (done ++ todo) (done.flatten ++ u).length = done.length := by
  rw [whole_append (by simp), List.length_append, Nat.add_sub_cancel_left, whole_eq_zero h,
    Nat.add_zero]

end Segments
