import Mathlib.Data.List.Basic
import Mathlib.Data.Nat.Basic

/-!
# Checked access

Reads and writes of arrays and texts by index, where an index that is not inside is a fault of its
own beside the exceptions of a program. A text has a terminator behind its last character, which may
be read too.
-/

/-- How a computation fails: an index is not inside, or an exception is thrown. -/
inductive Fault (ε : Type*)
  | outside
  | threw (e : ε)
deriving DecidableEq

namespace Checked

universe u v

variable {α β : Type u} {ε : Type v}

/-- The slot at an index. -/
def load (xs : List α) (i : ℕ) : Except (Fault ε) α :=
  match xs[i]? with
  | some x => .ok x
  | none => .error .outside

/-- The array with something else at an index. -/
def store (xs : List α) (i : ℕ) (x : α) : Except (Fault ε) (List α) :=
  if i < xs.length then .ok (xs.set i x) else .error .outside

/-- An unsigned index, counted down. -/
def down : ℕ → Except (Fault ε) ℕ
  | 0 => .error .outside
  | i + 1 => .ok i

/-- The part of an array between two places. -/
def slice (xs : List α) (b e : ℕ) : Except (Fault ε) (List α) :=
  if b ≤ e ∧ e ≤ xs.length then .ok ((xs.take e).drop b) else .error .outside

/-- A character of a text, or the terminator behind it. -/
def charAt (s : List UInt8) (i : ℕ) : Except (Fault ε) UInt8 := load (s ++ [0]) i

@[simp] theorem ok_bind (x : α) (f : α → Except (Fault ε) β) : (Except.ok x >>= f) = f x := rfl

@[simp] theorem error_bind (e : Fault ε) (f : α → Except (Fault ε) β) :
    (Except.error e >>= f) = .error e := rfl

theorem bind_eq_ok {x : Except (Fault ε) α} {f : α → Except (Fault ε) β} {b : β} :
    (x >>= f) = .ok b ↔ ∃ a, x = .ok a ∧ f a = .ok b := by
  rcases x with e | a
  · exact ⟨nofun, nofun⟩
  · exact ⟨fun h ↦ ⟨a, rfl, h⟩, fun ⟨_, ha, h⟩ ↦ Except.ok.inj ha ▸ h⟩

/-- No index is outside. -/
def Inside (x : Except (Fault ε) α) : Prop := x ≠ .error .outside

theorem Inside.bind {x : Except (Fault ε) α} {f : α → Except (Fault ε) β} (hx : Inside x)
    (hf : ∀ a, x = .ok a → Inside (f a)) : Inside (x >>= f) := by
  rcases x with e | a
  · exact fun h ↦ hx (congrArg Except.error (Except.error.inj h))
  · exact hf a rfl

theorem load_append {a b : List α} {y : α} {i : ℕ} (h : a.length = i) :
    load (ε := ε) (a ++ y :: b) i = .ok y := by
  rw [load, List.getElem?_append_right (Nat.le_of_eq h), h, Nat.sub_self, List.getElem?_cons_zero]

theorem store_append {a b : List α} {y x : α} {i : ℕ} (h : a.length = i) :
    store (ε := ε) (a ++ y :: b) i x = .ok (a ++ x :: b) := by
  have hlt : i < (a ++ y :: b).length := by rw [List.length_append, List.length_cons]; omega
  rw [store, if_pos hlt, ← h, List.set_append_right _ _ le_rfl, Nat.sub_self, List.set_cons_zero]

theorem store_of_le {xs : List α} {x : α} {i : ℕ} (h : xs.length ≤ i) :
    store (ε := ε) xs i x = .error .outside := if_neg (not_lt.mpr h)

theorem slice_append {x y z : List α} {b e : ℕ} (hb : x.length = b)
    (he : b + y.length = e) : slice (ε := ε) (x ++ (y ++ z)) b e = .ok y := by
  have hle : b ≤ e ∧ e ≤ (x ++ (y ++ z)).length := by
    simp only [List.length_append]
    omega
  rw [slice, if_pos hle, ← List.append_assoc, List.take_left' (by rw [List.length_append]; omega),
    List.drop_left' hb]

theorem charAt_append {s r : List UInt8} {c : UInt8} {i : ℕ} (h : s.length = i) :
    charAt (ε := ε) (s ++ c :: r) i = .ok c := by
  rw [charAt, List.append_assoc, List.cons_append, load_append h]

theorem charAt_length {s : List UInt8} {i : ℕ} (h : s.length = i) :
    charAt (ε := ε) s i = .ok 0 := load_append h

end Checked
