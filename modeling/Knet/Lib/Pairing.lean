import Mathlib.Logic.Function.Basic

/-!
# Pairs of objects that point to each other

Objects of two kinds, such as sessions and the connections they use, hold pointers to each other. To
bind two of them writes both pointers and marks the first of them live; to release an object only
takes the mark away, and a pointer is never cleared. Such a pairing is one-to-one when every live
object is pointed back at by its partner, so that no two of them share one.
-/

/-- Pointers between objects of type `α` and objects of type `β`, and the mark of the first kind. -/
structure Pairing (α : Type*) (β : Type*) where
  live : α → Bool
  partner : α → Option β
  owner : β → Option α

namespace Pairing

variable {α β : Type*} (p : Pairing α β)

/-- Every live object is pointed back at, and no two of them share a partner. -/
structure OneToOne : Prop where
  back : ∀ a, p.live a = true → ∃ b, p.partner a = some b ∧ p.owner b = some a
  unshared : ∀ a a' b, p.live a = true → p.live a' = true → p.partner a = some b →
    p.partner a' = some b → a = a'

section Operations

variable [DecidableEq α] [DecidableEq β]

/-- Let `a` and `b` point to each other. -/
def bind (a : α) (b : β) : Pairing α β :=
  ⟨Function.update p.live a true, Function.update p.partner a (some b),
    Function.update p.owner b (some a)⟩

/-- Bind the object to `b`, if there is one. -/
def tryBind (found : Option α) (b : β) : Pairing α β := found.elim p fun a ↦ p.bind a b

/-- Take the mark from `a`. -/
def release (a : α) : Pairing α β := { p with live := Function.update p.live a false }

/-- A new object `a`. -/
def clear (a : α) : Pairing α β :=
  { p with live := Function.update p.live a false, partner := Function.update p.partner a none }

theorem bind_clear (a : α) (b : β) : (p.clear a).bind a b = p.bind a b := by
  simp [bind, clear]

end Operations

namespace OneToOne

variable {p}

theorem of_back (h : ∀ a, p.live a = true → ∃ b, p.partner a = some b ∧ p.owner b = some a) :
    p.OneToOne := by
  refine ⟨h, fun a a' b ha ha' hb hb' ↦ ?_⟩
  obtain ⟨c, hc, howner⟩ := h a ha
  obtain ⟨c', hc', howner'⟩ := h a' ha'
  obtain rfl : b = c := Option.some.inj (hb.symm.trans hc)
  obtain rfl : b = c' := Option.some.inj (hb'.symm.trans hc')
  exact Option.some.inj (howner.symm.trans howner')

variable [DecidableEq α] [DecidableEq β]

/-- **Binding keeps a pairing one-to-one exactly when it takes the partner from no live object.** -/
theorem bind_iff (h : p.OneToOne) {a : α} {b : β} :
    (p.bind a b).OneToOne
      ↔ ∀ a', p.owner b = some a' → p.live a' = true → p.partner a' = some b → a' = a := by
  constructor
  · intro hbind a' howner hlive hpartner
    by_contra hne
    obtain ⟨c, hc, hback⟩ := hbind.back a' (by simpa [bind, hne] using hlive)
    have hbc : c = b := by
      simp only [bind, Function.update_of_ne hne, hpartner, Option.some.injEq] at hc
      exact hc.symm
    subst hbc
    simp only [bind, Function.update_self, Option.some.injEq] at hback
    exact hne hback.symm
  · intro hfree
    refine of_back fun a' hlive ↦ ?_
    by_cases ha : a' = a
    · subst ha
      exact ⟨b, by simp [bind], by simp [bind]⟩
    · simp only [bind, Function.update_of_ne ha] at hlive ⊢
      obtain ⟨c, hpartner, howner⟩ := h.back a' hlive
      have hcb : c ≠ b := by
        rintro rfl
        exact ha (hfree a' howner hlive hpartner)
      exact ⟨c, hpartner, by rw [Function.update_of_ne hcb]; exact howner⟩

omit [DecidableEq β] in
theorem release (h : p.OneToOne) (a : α) : (p.release a).OneToOne := by
  refine of_back fun a' hlive ↦ ?_
  by_cases ha : a' = a
  · subst ha
    simp [Pairing.release] at hlive
  · simp only [Pairing.release, Function.update_of_ne ha] at hlive
    exact h.back a' hlive

omit [DecidableEq β] in
theorem clear (h : p.OneToOne) (a : α) : (p.clear a).OneToOne := by
  refine of_back fun a' hlive ↦ ?_
  by_cases ha : a' = a
  · subst ha
    simp [Pairing.clear] at hlive
  · simp only [Pairing.clear, Function.update_of_ne ha] at hlive ⊢
    exact h.back a' hlive

end OneToOne

end Pairing
