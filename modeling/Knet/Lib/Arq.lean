import Mathlib.Data.List.Basic
import Mathlib.Data.Set.Insert

/-!
# Selective repeat

A sender numbers the items given to it and holds each until it learns that the item has arrived. A
receiver keeps what comes ahead of order and hands the items on in order. The link between them
loses, repeats and reorders: of it only the set of everything that was ever put on it is kept.

The numbers are natural numbers; a program that uses counters of finite width has to show that they
stand for these. How the sender chooses what to transmit and when, windows, time-outs and the form
of the acknowledgements play no part.

`Sound` is the invariant that carries the whole protocol. Its last field says that **nothing is
lost**, and `out_prefix` that **what is handed on is a beginning of what was given**. There is one
rule for each thing that can happen.
-/

namespace Arq

variable {α : Type*}

/-- The sending end. -/
structure Sender (α : Type*) where
  /-- Everything given to it. -/
  items : List α
  /-- How many of the items have a number. -/
  next : ℕ
  /-- The numbers it still holds. -/
  held : List ℕ

/-- The receiving end. -/
structure Receiver (α : Type*) where
  /-- What was handed on, in order. Its length is the number expected next. -/
  out : List α
  /-- What came ahead of order. -/
  early : List (ℕ × α)

/-- Everything that was ever put on the link. -/
structure Link (α : Type*) where
  /-- Items with their numbers. -/
  data : Set (ℕ × α)
  /-- Numbers acknowledged one by one. -/
  ack : Set ℕ
  /-- Numbers below which everything is acknowledged. -/
  upTo : Set ℕ

/-- The receiver has the item with this number. -/
def Receiver.Arrived (r : Receiver α) (n : ℕ) : Prop := n < r.out.length ∨ ∃ a, (n, a) ∈ r.early

/-- The item is the one that the sender gave this number. -/
def Sender.Numbered (s : Sender α) (n : ℕ) (a : α) : Prop := n < s.next ∧ s.items[n]? = some a

/-- The invariant of the protocol. -/
structure Sound (s : Sender α) (r : Receiver α) (l : Link α) : Prop where
  next_le : s.next ≤ s.items.length
  out_le : r.out.length ≤ s.next
  out_prefix : r.out <+: s.items
  early : ∀ p ∈ r.early, s.Numbered p.1 p.2
  data : ∀ p ∈ l.data, s.Numbered p.1 p.2
  ack : ∀ n ∈ l.ack, r.Arrived n
  upTo : ∀ n ∈ l.upTo, n ≤ r.out.length
  held : ∀ n < s.next, n ∈ s.held ∨ r.Arrived n

theorem sound_start : Sound (⟨[], 0, []⟩ : Sender α) ⟨[], []⟩ ⟨∅, ∅, ∅⟩ where
  next_le := Nat.le_refl 0
  out_le := Nat.le_refl 0
  out_prefix := List.prefix_refl []
  early _ h := absurd h List.not_mem_nil
  data _ h := absurd h (Set.notMem_empty _)
  ack _ h := absurd h (Set.notMem_empty _)
  upTo _ h := absurd h (Set.notMem_empty _)
  held _ h := absurd h (Nat.not_lt_zero _)

theorem Receiver.Arrived.mono {r r' : Receiver α} {n : ℕ} (h : r.Arrived n)
    (hlen : r.out.length ≤ r'.out.length)
    (hearly : ∀ p ∈ r.early, p.1 < r'.out.length ∨ p ∈ r'.early) : r'.Arrived n := by
  rcases h with hlt | ⟨a, ha⟩
  · exact .inl (Nat.lt_of_lt_of_le hlt hlen)
  · exact (hearly _ ha).imp_right fun h ↦ ⟨a, h⟩

theorem Sender.Numbered.append {items : List α} {next n : ℕ} {held : List ℕ} {a : α}
    (h : Numbered ⟨items, next, held⟩ n a) (more : List α) (held' : List ℕ) :
    Numbered ⟨items ++ more, next, held'⟩ n a := by
  obtain ⟨hlt, hget⟩ := h
  have hn : n < items.length := (List.getElem?_eq_some_iff.mp hget).1
  exact ⟨hlt, by rw [List.getElem?_append_left hn]; exact hget⟩

namespace Sound

variable {items out : List α} {next : ℕ} {held : List ℕ} {early : List (ℕ × α)} {l : Link α}

/-! ## The sender -/

theorem give (h : Sound ⟨items, next, held⟩ ⟨out, early⟩ l) (more : List α) :
    Sound ⟨items ++ more, next, held⟩ ⟨out, early⟩ l where
  next_le := by
    have hle : next ≤ items.length := h.next_le
    show next ≤ (items ++ more).length
    rw [List.length_append]
    exact Nat.le_add_right_of_le hle
  out_le := h.out_le
  out_prefix := h.out_prefix.trans (List.prefix_append items more)
  early p hp := (h.early p hp).append more held
  data p hp := (h.data p hp).append more held
  ack := h.ack
  upTo := h.upTo
  held := h.held

theorem number (h : Sound ⟨items, next, held⟩ ⟨out, early⟩ l) (hlt : next < items.length) :
    Sound ⟨items, next + 1, held ++ [next]⟩ ⟨out, early⟩ l where
  next_le := hlt
  out_le := Nat.le_succ_of_le h.out_le
  out_prefix := h.out_prefix
  early p hp := ⟨Nat.lt_succ_of_lt (h.early p hp).1, (h.early p hp).2⟩
  data p hp := ⟨Nat.lt_succ_of_lt (h.data p hp).1, (h.data p hp).2⟩
  ack := h.ack
  upTo := h.upTo
  held n hn := by
    rcases Nat.lt_succ_iff_lt_or_eq.mp hn with hlt | rfl
    · exact (h.held n hlt).imp_left (List.mem_append_left _)
    · exact .inl (List.mem_append_right _ (List.mem_singleton_self n))

theorem release (h : Sound ⟨items, next, held⟩ ⟨out, early⟩ l) {held' : List ℕ}
    (hgone : ∀ n ∈ held, n ∈ held' ∨ n ∈ l.ack ∨ ∃ m ∈ l.upTo, n < m) :
    Sound ⟨items, next, held'⟩ ⟨out, early⟩ l where
  next_le := h.next_le
  out_le := h.out_le
  out_prefix := h.out_prefix
  early := h.early
  data := h.data
  ack := h.ack
  upTo := h.upTo
  held n hn := by
    rcases h.held n hn with hheld | harr
    · rcases hgone n hheld with hheld' | hack | ⟨m, hm, hlt⟩
      · exact .inl hheld'
      · exact .inr (h.ack n hack)
      · exact .inr (.inl (Nat.lt_of_lt_of_le hlt (h.upTo m hm)))
    · exact .inr harr

/-! ## The receiver -/

theorem arrive (h : Sound ⟨items, next, held⟩ ⟨out, early⟩ l) {early' : List (ℕ × α)}
    (hsub : ∀ p ∈ early, p ∈ early') (hnew : ∀ p ∈ early', p ∈ early ∨ p ∈ l.data) :
    Sound ⟨items, next, held⟩ ⟨out, early'⟩ l where
  next_le := h.next_le
  out_le := h.out_le
  out_prefix := h.out_prefix
  early p hp := (hnew p hp).elim (h.early p) (h.data p)
  data := h.data
  ack n hn := (h.ack n hn).mono (Nat.le_refl _) fun p hp ↦ .inr (hsub p hp)
  upTo := h.upTo
  held n hn := (h.held n hn).imp_right fun harr ↦
    harr.mono (Nat.le_refl _) fun p hp ↦ .inr (hsub p hp)

theorem handOn {a : α} (h : Sound ⟨items, next, held⟩ ⟨out, (out.length, a) :: early⟩ l) :
    Sound ⟨items, next, held⟩ ⟨out ++ [a], early⟩ l := by
  obtain ⟨hlt, hget⟩ := h.early (out.length, a) List.mem_cons_self
  have hmono : ∀ n, Receiver.Arrived ⟨out, (out.length, a) :: early⟩ n →
      Receiver.Arrived ⟨out ++ [a], early⟩ n := by
    refine fun n harr ↦ harr.mono (by simp) fun p hp ↦ ?_
    rcases List.mem_cons.mp hp with rfl | hp
    · exact .inl (by simp)
    · exact .inr hp
  refine ⟨h.next_le, ?_, ?_, fun p hp ↦ h.early p (List.mem_cons_of_mem _ hp), h.data,
    fun n hn ↦ hmono n (h.ack n hn), fun n hn ↦ ?_, fun n hn ↦ (h.held n hn).imp_right (hmono n)⟩
  · rw [List.length_append, List.length_singleton]
    exact hlt
  · obtain ⟨rest, rfl⟩ := h.out_prefix
    rw [List.getElem?_append_right (Nat.le_refl _), Nat.sub_self] at hget
    obtain ⟨b, rest, rfl⟩ : ∃ b rest', rest = b :: rest' := by
      cases rest with
      | nil => exact absurd hget (by simp)
      | cons b rest' => exact ⟨b, rest', rfl⟩
    obtain rfl := Option.some.inj hget
    exact ⟨rest, by simp⟩
  · have := h.upTo n hn
    rw [List.length_append]
    exact Nat.le_add_right_of_le this

/-! ## The link -/

theorem relink (h : Sound ⟨items, next, held⟩ ⟨out, early⟩ l) {l' : Link α}
    (hdata : ∀ p ∈ l'.data, p ∈ l.data ∨ Sender.Numbered ⟨items, next, held⟩ p.1 p.2)
    (hack : ∀ n ∈ l'.ack, n ∈ l.ack ∨ Receiver.Arrived ⟨out, early⟩ n)
    (hupTo : ∀ n ∈ l'.upTo, n ∈ l.upTo ∨ n ≤ out.length) :
    Sound ⟨items, next, held⟩ ⟨out, early⟩ l' where
  next_le := h.next_le
  out_le := h.out_le
  out_prefix := h.out_prefix
  early := h.early
  data p hp := (hdata p hp).elim (h.data p) id
  ack n hn := (hack n hn).elim (h.ack n) id
  upTo n hn := (hupTo n hn).elim (h.upTo n) id
  held := h.held

/-! ## What it is for -/

/-- **When the sender holds nothing and has numbered everything, everything has arrived.** -/
theorem arrived_of_held_eq_nil (h : Sound ⟨items, items.length, []⟩ ⟨out, early⟩ l) {n : ℕ}
    (hn : n < items.length) : Receiver.Arrived ⟨out, early⟩ n :=
  (h.held n hn).resolve_left List.not_mem_nil

/-- **When the sender holds nothing and has numbered everything, nothing is missing**: what came
ahead of order, kept in order, is what has not been handed on yet. -/
theorem complete (h : Sound ⟨items, items.length, []⟩ ⟨out, early⟩ l)
    (hsorted : (early.map (·.1)).Pairwise (· < ·)) (hahead : ∀ p ∈ early, out.length ≤ p.1) :
    out ++ early.map (·.2) = items := by
  induction early generalizing out with
  | nil =>
    have hle : items.length ≤ out.length := by
      by_contra hlt
      rcases h.arrived_of_held_eq_nil (Nat.lt_of_not_le hlt) with hless | ⟨a, ha⟩
      · exact absurd hless (Nat.lt_irrefl _)
      · exact absurd ha List.not_mem_nil
    rw [List.map_nil, List.append_nil]
    exact h.out_prefix.eq_of_length_le hle
  | cons p early ih =>
    obtain ⟨hfirst, hrest⟩ := List.pairwise_cons.mp hsorted
    have hnum := h.early p List.mem_cons_self
    have hlow := hahead p List.mem_cons_self
    have hnext : out.length = p.1 := by
      rcases h.arrived_of_held_eq_nil (Nat.lt_of_le_of_lt hlow hnum.1) with hless | ⟨a, ha⟩
      · exact absurd hless (Nat.lt_irrefl _)
      · rcases List.mem_cons.mp ha with rfl | ha
        · rfl
        · exact absurd (hfirst _ (List.mem_map_of_mem ha)) (Nat.not_lt_of_le hlow)
    obtain ⟨n, a⟩ := p
    obtain rfl : out.length = n := hnext
    have hahead' : ∀ q ∈ early, (out ++ [a]).length ≤ q.1 := by
      intro q hq
      rw [List.length_append, List.length_singleton]
      exact hfirst _ (List.mem_map_of_mem hq)
    rw [List.map_cons, List.append_cons]
    exact ih h.handOn hrest hahead'

end Sound

end Arq
