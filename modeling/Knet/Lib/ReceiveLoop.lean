import Mathlib.Data.List.Basic
import Mathlib.Data.Bool.Basic

/-!
# Receive loops that rearm themselves

A receiver asks for one datagram at a time. The handler of a completed receive does its work and
asks for the next one, but only when the datagram was not empty; a receiver that has not asked gets
nothing any more. Each datagram comes with a key, which says whose inbox it belongs to.

`Served` is what one expects of such a receiver whatever arrives: it is waiting after each datagram,
and each inbox holds what was meant for it, once and in order. `served_iff` says when that is so.
-/

/-- A receive loop over states `σ`, keys `ι` and datagrams of cells in `α`. -/
structure ReceiveLoop (σ ι α : Type*) where
  /-- The handler's work for a datagram that is not empty. It then asks for the next one. -/
  handle : σ → ι → List α → σ
  /-- The handler's work for an empty datagram. It then returns. -/
  reject : σ → ι → σ
  /-- Whether a datagram is meant for the inbox. -/
  isUser : σ → ι → List α → Bool
  /-- Whether there is an inbox for the key. -/
  registered : σ → ι → Bool
  /-- The datagrams in the inbox for the key. -/
  inbox : σ → ι → List (List α)

namespace ReceiveLoop

variable {σ ι α : Type*} (L : ReceiveLoop σ ι α)

/-- A datagram arrives at a receiver, which waits for it or not. -/
def arrive (s : σ × Bool) (m : ι × List α) : σ × Bool :=
  if s.2 then
    if m.2 = [] then (L.reject s.1 m.1, false) else (L.handle s.1 m.1 m.2, true)
  else s

/-- Datagrams arrive one after the other. -/
def run (s : σ × Bool) (ms : List (ι × List α)) : σ × Bool := ms.foldl L.arrive s

variable {L}

theorem run_append (s : σ × Bool) (ms ms' : List (ι × List α)) :
    L.run s (ms ++ ms') = L.run (L.run s ms) ms' := List.foldl_append

theorem arrive_empty (s : σ × Bool) (i : ι) : (L.arrive s (i, [])).2 = false := by
  rw [arrive]
  cases h : s.2
  · simpa using h
  · rfl

theorem arrive_of_ne_nil {s : σ × Bool} {m : ι × List α} (hs : s.2 = true) (hm : m.2 ≠ []) :
    L.arrive s m = (L.handle s.1 m.1 m.2, true) := by
  rw [arrive, if_pos hs, if_neg hm]

variable [DecidableEq ι] (L)

/-- The handler does what it should: it opens the inbox of the key if there is none, and puts a
datagram that is meant for it there, and nothing anywhere else. -/
structure Sorts : Prop where
  registered : ∀ s i d j, L.registered (L.handle s i d) j = (decide (j = i) || L.registered s j)
  inbox : ∀ s i d j, L.inbox (L.handle s i d) j
    = L.inbox s j ++ if j = i ∧ L.isUser s i d = true then [d] else []

/-- What should be put into the inbox of the key. -/
def due : σ × Bool → List (ι × List α) → ι → List (List α)
  | _, [], _ => []
  | s, m :: ms, j =>
    (if j = m.1 ∧ m.2 ≠ [] ∧ L.isUser s.1 m.1 m.2 = true then [m.2] else [])
      ++ due (L.arrive s m) ms j

/-- After each of the datagrams the receiver waits for the next; an inbox was opened for each key at
the first datagram that was not empty; and the datagrams meant for the inboxes are there. -/
def Served (s : σ × Bool) (ms : List (ι × List α)) : Prop :=
  ∀ seen, seen <+: ms →
    (L.run s seen).2 = true
    ∧ ∀ j, (L.registered (L.run s seen).1 j = true
        ↔ L.registered s.1 j = true ∨ ∃ d, d ≠ [] ∧ (j, d) ∈ seen)
      ∧ L.inbox (L.run s seen).1 j = L.inbox s.1 j ++ L.due s seen j

variable {L}

theorem served_run (hL : L.Sorts) {s : σ × Bool} {ms : List (ι × List α)} (hs : s.2 = true)
    (hms : ∀ m ∈ ms, m.2 ≠ []) :
    (L.run s ms).2 = true
    ∧ ∀ j, (L.registered (L.run s ms).1 j = true
        ↔ L.registered s.1 j = true ∨ ∃ d, d ≠ [] ∧ (j, d) ∈ ms)
      ∧ L.inbox (L.run s ms).1 j = L.inbox s.1 j ++ L.due s ms j := by
  induction ms generalizing s with
  | nil => exact ⟨hs, fun j ↦ ⟨by simp [run], by simp [run, due]⟩⟩
  | cons m ms ih =>
    have hm : m.2 ≠ [] := hms m List.mem_cons_self
    have harr := arrive_of_ne_nil (L := L) hs hm
    have hrun : L.run s (m :: ms) = L.run (L.arrive s m) ms := rfl
    obtain ⟨harmed, hrest⟩ := @ih (L.arrive s m) (by rw [harr])
      fun x hx ↦ hms x (List.mem_cons_of_mem _ hx)
    rw [hrun]
    refine ⟨harmed, fun j ↦ ?_⟩
    obtain ⟨hreg, hbox⟩ := hrest j
    constructor
    · rw [hreg, harr, hL.registered]
      simp only [Bool.or_eq_true, decide_eq_true_eq, List.mem_cons]
      constructor
      · rintro ((rfl | h) | ⟨d, hd, hmem⟩)
        · exact .inr ⟨m.2, hm, .inl rfl⟩
        · exact .inl h
        · exact .inr ⟨d, hd, .inr hmem⟩
      · rintro (h | ⟨d, hd, rfl | hmem⟩)
        · exact .inl (.inr h)
        · exact .inl (.inl rfl)
        · exact .inr ⟨d, hd, hmem⟩
    · have hdue : (if j = m.1 ∧ m.2 ≠ [] ∧ L.isUser s.1 m.1 m.2 = true then [m.2] else [])
          = if j = m.1 ∧ L.isUser s.1 m.1 m.2 = true then [m.2] else [] := by
        simp [hm]
      rw [hbox, due, hdue, ← List.append_assoc]
      nth_rewrite 1 [harr]
      rw [hL.inbox]

/-- **A receive loop serves exactly the sequences without empty datagrams.** -/
theorem served_iff (hL : L.Sorts) {s : σ × Bool} (hs : s.2 = true) (ms : List (ι × List α)) :
    L.Served s ms ↔ ∀ m ∈ ms, m.2 ≠ [] := by
  constructor
  · intro h m hm hnil
    obtain ⟨front, back, rfl⟩ := List.append_of_mem hm
    obtain ⟨i, d⟩ := m
    obtain rfl : d = [] := hnil
    have hseen := (h (front ++ [(i, [])]) ⟨back, by simp⟩).1
    rw [run_append] at hseen
    have hoff : (L.run (L.run s front) [(i, [])]).2 = false := arrive_empty _ i
    exact Bool.false_ne_true (hoff.symm.trans hseen)
  · intro h seen hseen
    exact served_run hL hs fun m hm ↦ h m (hseen.subset hm)

end ReceiveLoop
