import Mathlib.Data.List.Basic

/-!
# Streams reported in pieces

A producer reports what it reads: events, and data of some kind in pieces of any size. A consumer
adds the reports to those before, and the newest comes first. It may `keep` every piece by itself,
or `push` it to the piece before if that is of the same kind, and then it is of no importance where
the pieces are cut.

A piece that is not at an end yet is the first of the list and gets longer (`extend`). In both ways
of adding, that is as good as to add the longer piece at once (`Adds`).
-/

namespace Pieces

universe u v w

/-- A piece of data of some kind, or an event. -/
inductive Report (τ : Type u) (β : Type v) (ν : Type w)
  | data (tag : τ) (bytes : List β)
  | notify (note : ν)
  deriving DecidableEq, Repr

variable {τ : Type u} {β : Type v} {ν : Type w} {tr : List (Report τ β ν)} {tag : τ}
  {bytes bytes' : List β}

/-- More of the piece that comes first. -/
def extend : List (Report τ β ν) → List β → List (Report τ β ν)
  | .data tag bytes :: tr, bytes' => .data tag (bytes ++ bytes') :: tr
  | tr, _ => tr

/-- What comes first is a piece of this kind. -/
def EndsIn (tag : τ) (tr : List (Report τ β ν)) : Prop := ∃ bytes rest, tr = .data tag bytes :: rest

@[simp]
theorem extend_nil : extend tr [] = tr := by
  cases tr with
  | nil => rfl
  | cons r tr =>
    cases r with
    | data tag bytes => exact congrArg (· :: tr) (congrArg _ (List.append_nil _))
    | notify note => rfl

@[simp]
theorem extend_extend : extend (extend tr bytes) bytes' = extend tr (bytes ++ bytes') := by
  cases tr with
  | nil => rfl
  | cons r tr =>
    cases r with
    | data tag before => exact congrArg (· :: tr) (congrArg _ (List.append_assoc _ _ _))
    | notify note => rfl

theorem EndsIn.extend (h : EndsIn tag tr) : EndsIn tag (Pieces.extend tr bytes) := by
  obtain ⟨before, rest, rfl⟩ := h
  exact ⟨_, rest, rfl⟩

/-! ## Ways to add a report -/

/-- **A way to add reports:** a piece may be added as long as it is, or get longer afterwards. -/
structure Adds (add : List (Report τ β ν) → Report τ β ν → List (Report τ β ν)) : Prop where
  extend_data : ∀ {tr tag bytes bytes'},
    extend (add tr (.data tag bytes)) bytes' = add tr (.data tag (bytes ++ bytes'))
  endsIn : ∀ {tr tag bytes}, EndsIn tag (add tr (.data tag bytes))

/-- Every piece by itself. -/
def keep (tr : List (Report τ β ν)) (r : Report τ β ν) : List (Report τ β ν) := r :: tr

theorem adds_keep : Adds (keep : List (Report τ β ν) → Report τ β ν → List (Report τ β ν)) :=
  ⟨rfl, ⟨_, _, rfl⟩⟩

theorem foldl_keep (rs : List (Report τ β ν)) : rs.foldl keep tr = rs.reverse ++ tr := by
  induction rs generalizing tr with
  | nil => rfl
  | cons r rs ih =>
    rw [List.foldl_cons, ih, List.reverse_cons, List.append_assoc]
    rfl

variable [DecidableEq τ]

/-- A piece goes on with the one before. -/
def push : List (Report τ β ν) → Report τ β ν → List (Report τ β ν)
  | .data tag bytes :: tr, .data tag' bytes' =>
    if tag = tag' then .data tag (bytes ++ bytes') :: tr
    else .data tag' bytes' :: .data tag bytes :: tr
  | tr, r => r :: tr

/-- What some reports say. -/
def gather (rs : List (Report τ β ν)) : List (Report τ β ν) := rs.foldl push []

theorem adds_push : Adds (push : List (Report τ β ν) → Report τ β ν → List (Report τ β ν)) := by
  constructor
  · intro tr tag bytes bytes'
    cases tr with
    | nil => rfl
    | cons r tr =>
      cases r with
      | notify note => rfl
      | data tag' before =>
        rw [push, push]
        split_ifs
        · exact congrArg (· :: tr) (congrArg _ (List.append_assoc _ _ _))
        · rfl
  · intro tr tag bytes
    cases tr with
    | nil => exact ⟨bytes, [], rfl⟩
    | cons r tr =>
      cases r with
      | notify note => exact ⟨bytes, _, rfl⟩
      | data tag' before =>
        rw [push]
        split_ifs with htag
        · exact ⟨_, tr, by rw [htag]⟩
        · exact ⟨_, _, rfl⟩

theorem push_data_nil (h : EndsIn tag tr) : push tr (.data tag []) = tr := by
  obtain ⟨bytes, rest, rfl⟩ := h
  rw [push, if_pos rfl, List.append_nil]

end Pieces
