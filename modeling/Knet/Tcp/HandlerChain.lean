import Mathlib.Data.List.ReduceOption

/-!
# The chain of handlers

`TcpConnector` keeps its handlers in a vector of pointers, and asks them one after the other until
one answers `false`. `remove_event_handler` looks for the handler with an iterator that it never
moves: it comes back when the handler is the first of the chain, and not at all when it is another
one or is not there.
-/

namespace Knet.Tcp

/-- `net_handler_chain`, of pointers to handlers of which `none` is null. -/
abbrev HandlerChain (η : Type*) := List (Option η)

namespace HandlerChain

variable {η : Type*} [DecidableEq η]

/-! ## The functions -/

/-- `add_net_handler`. -/
def addNetHandler (chain : HandlerChain η) (handler : Option η) : HandlerChain η :=
  if handler.isSome then chain ++ [handler] else chain

/-- `push_front`. -/
def pushFront (chain : HandlerChain η) (handler : Option η) : HandlerChain η :=
  if handler.isSome then handler :: chain else chain

/-- `push_back`. -/
def pushBack (chain : HandlerChain η) (handler : Option η) : HandlerChain η :=
  if handler.isSome then chain ++ [handler] else chain

/-- The loop of `remove_event_handler`, with `itr` as an index, for as many rounds as there is
fuel. -/
def removeLoop (handler : Option η) (chain : HandlerChain η) (itr : ℕ) :
    ℕ → Option (HandlerChain η)
  | 0 => none
  | fuel + 1 =>
    if itr = chain.length then some chain
    else if chain[itr]? = some handler then some (chain.eraseIdx itr)
    else removeLoop handler chain itr fuel

/-- `remove_event_handler`. -/
def removeEventHandler (chain : HandlerChain η) (handler : Option η) (fuel : ℕ) :
    Option (HandlerChain η) :=
  if handler.isSome then removeLoop handler chain 0 fuel else some chain

/-- The loop of `invoke_event_chain` and `invoke_data_chain`: the handlers that were asked, and the
result. A handler may answer by what was asked before. -/
def invokeLoop (answer : List η → η → Bool) : List η → Bool → HandlerChain η → List η × Bool
  | asked, ret, [] => (asked, ret)
  | asked, ret, none :: rest => invokeLoop answer asked ret rest
  | asked, _, some handler :: rest =>
    if answer asked handler then invokeLoop answer (asked ++ [handler]) true rest
    else (asked ++ [handler], false)

/-- `invoke_event_chain`, for what the handlers answer to the event. -/
def invokeEventChain (answer : List η → η → Bool) (chain : HandlerChain η) : List η × Bool :=
  invokeLoop answer [] true chain

/-- `invoke_data_chain`, for what they answer to the data. -/
def invokeDataChain (answer : List η → η → Bool) (chain : HandlerChain η) : List η × Bool :=
  invokeLoop answer [] true chain

/-- A call that puts a handler into the chain. -/
inductive Op (η : Type*)
  | addNetHandler (handler : Option η)
  | pushFront (handler : Option η)
  | pushBack (handler : Option η)
  deriving DecidableEq, Repr

/-- The chain after a call. -/
def apply (chain : HandlerChain η) : Op η → HandlerChain η
  | .addNetHandler handler => chain.addNetHandler handler
  | .pushFront handler => chain.pushFront handler
  | .pushBack handler => chain.pushBack handler

/-- The chain that some calls build. -/
def build (ops : List (Op η)) : HandlerChain η := ops.foldl apply []

/-! ## What they do -/

omit [DecidableEq η] in
/-- No null pointer gets into a chain. -/
theorem none_not_mem_build (ops : List (Op η)) : none ∉ build ops := by
  have hkeep : ∀ (chain : HandlerChain η) (op : Op η), none ∉ chain → none ∉ apply chain op := by
    rintro chain op h
    rcases op with (_ | handler) | (_ | handler) | (_ | handler) <;>
      simp [apply, addNetHandler, pushFront, pushBack, h]
  have hfold : ∀ (ops : List (Op η)) (chain : HandlerChain η), none ∉ chain →
      none ∉ ops.foldl apply chain := by
    intro ops
    induction ops with
    | nil => exact fun chain h ↦ h
    | cons op ops ih => exact fun chain h ↦ ih _ (hkeep chain op h)
  exact hfold ops [] List.not_mem_nil

/-- Without a move of the iterator, the search ends at the first round or not at all. -/
theorem removeLoop_eq_some_iff {handler : Option η} {chain chain' : HandlerChain η} {itr : ℕ} :
    (∃ fuel, removeLoop handler chain itr fuel = some chain')
      ↔ itr = chain.length ∧ chain' = chain
        ∨ itr ≠ chain.length ∧ chain[itr]? = some handler ∧ chain' = chain.eraseIdx itr := by
  constructor
  · rintro ⟨fuel, hfuel⟩
    induction fuel with
    | zero => exact nomatch hfuel
    | succ fuel ih =>
      rw [removeLoop] at hfuel
      split_ifs at hfuel with hend hfound
      · exact .inl ⟨hend, (Option.some.inj hfuel).symm⟩
      · exact .inr ⟨hend, hfound, (Option.some.inj hfuel).symm⟩
      · exact ih hfuel
  · rintro (⟨hend, rfl⟩ | ⟨hend, hfound, rfl⟩)
    · exact ⟨1, if_pos hend⟩
    · exact ⟨1, (if_neg hend).trans (if_pos hfound)⟩

omit [DecidableEq η] in
/-- The handlers are asked in the order of the chain: all of them, or up to the first that answers
`false`. -/
theorem invokeLoop_spec (answer : List η → η → Bool) (chain : HandlerChain η) (asked : List η)
    (ret : Bool) :
    ∃ more, (invokeLoop answer asked ret chain).1 = asked ++ more ∧ more <+: chain.reduceOption
      ∧ ((∀ before handler, answer before handler = true) → more = chain.reduceOption) := by
  induction chain generalizing asked ret with
  | nil => exact ⟨[], (List.append_nil _).symm, List.prefix_refl _, fun _ ↦ rfl⟩
  | cons pointer rest ih =>
    cases pointer with
    | none => exact ih asked ret
    | some handler =>
      rw [invokeLoop, List.reduceOption_cons_of_some]
      split_ifs with hanswer
      · obtain ⟨more, hasked, hpre, hall⟩ := ih (asked ++ [handler]) true
        refine ⟨handler :: more, ?_, List.cons_prefix_cons.mpr ⟨rfl, hpre⟩, fun h ↦ ?_⟩
        · rw [hasked, List.append_assoc, List.singleton_append]
        · rw [hall h]
      · exact ⟨[handler], rfl, ⟨_, rfl⟩, fun h ↦ absurd (h asked handler) hanswer⟩

/-- `remove_event_handler` comes back with the chain without the first occurrence of the handler,
and the two `invoke` functions ask the handlers that are left in the order they had. -/
def Removes (chain : HandlerChain η) (handler : Option η) : Prop :=
  ∃ fuel chain', chain.removeEventHandler handler fuel = some chain'
    ∧ chain' = chain.erase handler ∧ chain'.reduceOption.Sublist chain.reduceOption
    ∧ ∀ answer, ((chain'.invokeEventChain answer).1 <+: chain'.reduceOption
        ∧ (chain'.invokeDataChain answer).1 <+: chain'.reduceOption)
      ∧ ((∀ asked handler, answer asked handler = true) →
        (chain'.invokeEventChain answer).1 = chain'.reduceOption
          ∧ (chain'.invokeDataChain answer).1 = chain'.reduceOption)

theorem removes_iff_exists {chain : HandlerChain η} {handler : Option η} :
    chain.Removes handler
      ↔ ∃ fuel, chain.removeEventHandler handler fuel = some (chain.erase handler) := by
  constructor
  · rintro ⟨fuel, chain', hfuel, rfl, -⟩
    exact ⟨fuel, hfuel⟩
  · rintro ⟨fuel, hfuel⟩
    refine ⟨fuel, _, hfuel, rfl, ?_, fun answer ↦ ?_⟩
    · exact List.Sublist.filterMap _ List.erase_sublist
    · obtain ⟨more, hasked, hpre, hall⟩ := invokeLoop_spec answer (chain.erase handler) [] true
      rw [List.nil_append] at hasked
      rw [invokeEventChain, invokeDataChain, hasked]
      exact ⟨⟨hpre, hpre⟩, fun h ↦ ⟨hall h, hall h⟩⟩

/-- **`remove_event_handler` removes just the handler** exactly when the handler is null, the chain
is empty or the handler is the first. For every chain that the calls build, and every handler. -/
theorem removes_build_iff (ops : List (Op η)) (handler : Option η) :
    (build ops).Removes handler
      ↔ handler = none ∨ build ops = [] ∨ (build ops).head? = some handler := by
  rw [removes_iff_exists]
  cases handler with
  | none =>
    refine iff_of_true ⟨0, ?_⟩ (.inl rfl)
    rw [List.erase_of_not_mem (none_not_mem_build ops)]
    rfl
  | some handler =>
    have hloop : ∀ fuel, (build ops).removeEventHandler (some handler) fuel
        = removeLoop (some handler) (build ops) 0 fuel := fun _ ↦ rfl
    simp only [hloop, removeLoop_eq_some_iff, reduceCtorEq, false_or]
    cases build ops with
    | nil => simp
    | cons first rest =>
      by_cases hfirst : first = some handler
      · subst hfirst
        simp
      · simp [hfirst]

/-- The first of two. -/
example : (build [.addNetHandler (some 1), .pushBack (some 2)]).removeEventHandler (some 1) 1
    = some [some 2] := by decide

/-- The second of two handlers is not removed: the search does not come back. -/
theorem second_not_removed :
    ¬(build [.addNetHandler (some 1), .pushBack (some 2)]).Removes (some 2) := by
  rintro ⟨fuel, chain', hfuel, -⟩
  have hnone : removeLoop (some 2) [some 1, some 2] 0 fuel = none := by
    induction fuel with
    | zero => rfl
    | succ fuel ih => exact ih hfuel
  exact absurd (hfuel.symm.trans hnone) (by simp)

end HandlerChain

end Knet.Tcp
