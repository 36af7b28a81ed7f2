import Mathlib.Order.Defs.Unbundled
import Mathlib.Data.List.Basic

/-!
# Ordered maps

A map as the list of its entries in the order of their keys. `insert` replaces the value of a key
that is there, so that after a sequence of insertions each key holds what was set for it last
(`mem_foldl_insert`).
-/

variable {α β : Type*} [LT α]

/-- The entries of a map, in the order of their keys. -/
structure OrderedMap (α β : Type*) [LT α] where
  entries : List (α × β)
  sorted : (entries.map Prod.fst).Pairwise (· < ·)

namespace OrderedMap

/-- The map without entries. -/
def empty : OrderedMap α β := ⟨[], .nil⟩

theorem nodup_keys [Std.Irrefl (α := α) (· < ·)] (m : OrderedMap α β) :
    (m.entries.map Prod.fst).Nodup := by
  refine m.sorted.imp ?_
  rintro a _ hlt rfl
  exact Std.Irrefl.irrefl a hlt

theorem sorted_cons [IsTrans α (· < ·)] {k k' : α} {v v' : β} {l : List (α × β)} (hlt : k < k')
    (h : (((k', v') :: l).map Prod.fst).Pairwise (· < ·)) :
    (((k, v) :: (k', v') :: l).map Prod.fst).Pairwise (· < ·) := by
  refine List.pairwise_cons.mpr ⟨?_, h⟩
  intro x hx
  rcases List.mem_cons.mp hx with rfl | hx
  · exact hlt
  · exact IsTrans.trans _ _ _ hlt ((List.pairwise_cons.mp h).1 x hx)

theorem ne_of_lt_first [IsTrans α (· < ·)] [Std.Irrefl (α := α) (· < ·)] {k k' : α}
    {l : List (α × β)} {v' : β}
    (h : (((k', v') :: l).map Prod.fst).Pairwise (· < ·)) (hlt : k < k') {e : α × β}
    (he : e ∈ (k', v') :: l) : e.1 ≠ k := by
  have hmem : e.1 ∈ ((k', v') :: l).map Prod.fst := List.mem_map_of_mem he
  have hk := (List.pairwise_cons.mp (sorted_cons (v := v') hlt h)).1 e.1 hmem
  rintro rfl
  exact Std.Irrefl.irrefl _ hk

variable [DecidableEq α]

/-- What was set for a key last. -/
def lastSet (k : α) : List (α × β) → Option β
  | [] => none
  | (k', v) :: calls => (lastSet k calls).or (if k' = k then some v else none)

omit [LT α] in
theorem mem_of_lastSet {k : α} {v : β} {calls : List (α × β)} (h : lastSet k calls = some v) :
    (k, v) ∈ calls := by
  induction calls with
  | nil => exact absurd h.symm (Option.some_ne_none v)
  | cons call calls ih =>
    obtain ⟨k', v'⟩ := call
    rw [lastSet, Option.or_eq_some_iff] at h
    rcases h with h | ⟨-, h⟩
    · exact List.mem_cons_of_mem _ (ih h)
    · split_ifs at h with hk
      rw [hk, Option.some.inj h]
      exact List.mem_cons_self

omit [LT α] in
theorem lastSet_ne_none {k : α} {v : β} {calls : List (α × β)} (h : (k, v) ∈ calls) :
    lastSet k calls ≠ none := by
  induction calls with
  | nil => exact absurd h List.not_mem_nil
  | cons call calls ih =>
    rw [lastSet, ne_eq, Option.or_eq_none_iff]
    rintro ⟨hrest, hfirst⟩
    rcases List.mem_cons.mp h with rfl | h
    · exact absurd hfirst (by simp)
    · exact ih h hrest

variable [DecidableLT α]

/-- The entries with one more, which replaces that of the same key. -/
def place (k : α) (v : β) : List (α × β) → List (α × β)
  | [] => [(k, v)]
  | (k', v') :: l =>
    if k = k' then (k, v) :: l
    else if k < k' then (k, v) :: (k', v') :: l
    else (k', v') :: place k v l

theorem mem_map_fst_place {k x : α} {v : β} {l : List (α × β)}
    (h : x ∈ (place k v l).map Prod.fst) : x = k ∨ x ∈ l.map Prod.fst := by
  induction l with
  | nil => exact .inl (List.mem_singleton.mp h)
  | cons e l ih =>
    obtain ⟨k', v'⟩ := e
    rw [place] at h
    split_ifs at h with heq hlt
    · exact (List.mem_cons.mp h).imp id (List.mem_cons_of_mem _)
    · exact List.mem_cons.mp h
    · rcases List.mem_cons.mp h with rfl | hx
      · exact .inr List.mem_cons_self
      · exact (ih hx).imp id (List.mem_cons_of_mem _)

theorem mem_place [IsTrans α (· < ·)] [Std.Irrefl (α := α) (· < ·)] {k : α} {v : β}
    {l : List (α × β)} (h : (l.map Prod.fst).Pairwise (· < ·)) {e : α × β} :
    e ∈ place k v l ↔ e = (k, v) ∨ (e ∈ l ∧ e.1 ≠ k) := by
  induction l with
  | nil => simp [place]
  | cons e' l ih =>
    obtain ⟨k', v'⟩ := e'
    obtain ⟨hfirst, hrest⟩ := List.pairwise_cons.mp h
    rw [place]
    split_ifs with heq hlt
    · subst heq
      have hother : ∀ e ∈ l, e.1 ≠ k := by
        intro e he heq
        exact Std.Irrefl.irrefl k (heq ▸ hfirst e.1 (List.mem_map_of_mem he))
      rw [List.mem_cons, List.mem_cons]
      constructor
      · rintro (rfl | he)
        · exact .inl rfl
        · exact .inr ⟨.inr he, hother e he⟩
      · rintro (rfl | ⟨rfl | he, hne⟩)
        · exact .inl rfl
        · exact absurd rfl hne
        · exact .inr he
    · rw [List.mem_cons]
      constructor
      · rintro (rfl | he)
        · exact .inl rfl
        · exact .inr ⟨he, ne_of_lt_first h hlt he⟩
      · rintro (rfl | ⟨he, -⟩)
        · exact .inl rfl
        · exact .inr he
    · rw [List.mem_cons, ih hrest, List.mem_cons]
      constructor
      · rintro (rfl | rfl | ⟨he, hne⟩)
        · exact .inr ⟨.inl rfl, Ne.symm heq⟩
        · exact .inl rfl
        · exact .inr ⟨.inr he, hne⟩
      · rintro (rfl | ⟨rfl | he, hne⟩)
        · exact .inr (.inl rfl)
        · exact .inl rfl
        · exact .inr (.inr ⟨he, hne⟩)

section

variable [IsTrans α (· < ·)] [Std.Trichotomous (α := α) (· < ·)]

theorem sorted_place {l : List (α × β)} (k : α) (v : β)
    (h : (l.map Prod.fst).Pairwise (· < ·)) :
    ((place k v l).map Prod.fst).Pairwise (· < ·) := by
  induction l with
  | nil => exact List.pairwise_singleton _ _
  | cons e l ih =>
    obtain ⟨k', v'⟩ := e
    obtain ⟨hfirst, hrest⟩ := List.pairwise_cons.mp h
    rw [place]
    split_ifs with heq hlt
    · subst heq
      exact h
    · exact sorted_cons hlt h
    · refine List.pairwise_cons.mpr ⟨?_, ih hrest⟩
      intro x hx
      rcases mem_map_fst_place hx with rfl | hx
      · -- neither equal nor smaller
        by_contra hnot
        exact heq (Std.Trichotomous.trichotomous _ _ hlt hnot)
      · exact hfirst x hx

/-- `m[k] = v`. -/
def insert (m : OrderedMap α β) (e : α × β) : OrderedMap α β :=
  ⟨place e.1 e.2 m.entries, sorted_place e.1 e.2 m.sorted⟩

variable [Std.Irrefl (α := α) (· < ·)]

theorem mem_insert {m : OrderedMap α β} {k : α} {v : β} {e : α × β} :
    e ∈ (m.insert (k, v)).entries ↔ e = (k, v) ∨ (e ∈ m.entries ∧ e.1 ≠ k) :=
  mem_place m.sorted

/-- **After a sequence of insertions each key holds what was set for it last**, or else what it held
before. -/
theorem mem_foldl_insert {m : OrderedMap α β} {calls : List (α × β)} {k : α} {v : β} :
    (k, v) ∈ (calls.foldl insert m).entries
      ↔ lastSet k calls = some v ∨ (lastSet k calls = none ∧ (k, v) ∈ m.entries) := by
  induction calls generalizing m with
  | nil => simp [lastSet]
  | cons call calls ih =>
    obtain ⟨k', v'⟩ := call
    rw [List.foldl_cons, ih, mem_insert, lastSet]
    cases hlast : lastSet k calls with
    | some w => simp
    | none =>
      by_cases hk : k' = k
      · subst hk
        simp [eq_comm]
      · have hne : k ≠ k' := Ne.symm hk
        simp [hk, hne]

end

end OrderedMap
