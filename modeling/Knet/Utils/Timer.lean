import Knet.Lib.StepSystem
import Mathlib.Algebra.Group.Nat.Defs
import Mathlib.Logic.Function.Basic

/-!
# Timers

`Timer` keeps its nodes in a map and runs their handlers when the waits of their `steady_timer`s
complete. A completion that is in the queue of the io context is not recalled by a cancel, a handler
may call any function of the timer, and after it the node is armed again without another look at it;
but a handler is called in one place only, behind a look at `alive`, and nothing sets `alive` once
the node is in the map. A node that is alive is in the map, where `stop_timer` and `clear` find it.

Time is left out: a wait may complete as soon as it is made. The ids are numbers that never come
around.
-/

namespace Knet.Utils

/-- `TimerNode`. -/
structure TimerNode where
  /-- `handler` is not empty. -/
  handler : Bool
  interval : ℕ
  alive : Bool := false
  skip : Bool := false
  loop : Bool := true
  /-- The waits of `timer` whose time is not up. -/
  waits : ℕ := 0
  /-- The completions without an error that the io context has in its queue. -/
  queued : ℕ := 0
  deriving DecidableEq, Repr

namespace TimerNode

/-- `timer.cancel()`. Of the waits that it ends nothing is seen: they complete with an error. -/
def cancel (n : TimerNode) : TimerNode := { n with waits := 0 }

/-- `timer.expires_after`, which cancels as well, and `timer.async_wait`. -/
def arm (n : TimerNode) : TimerNode := { n.cancel with waits := 1 }

/-- `alive = false`, and a cancel. -/
def kill (n : TimerNode) : TimerNode := { n with alive := false }.cancel

end TimerNode

/-- One entry of the history of a `Timer`. -/
inductive TimerEntry
  /-- `start_timer` has put a node with this id into the map. -/
  | started (id : ℕ)
  /-- `stop_timer` was called. -/
  | stopped (id : ℕ)
  /-- `clear` was called. -/
  | cleared
  /-- The handler of the node is called. -/
  | invoked (id : ℕ)
  /-- It returns. -/
  | returned (id : ℕ) (ret : Bool)
  deriving DecidableEq, Repr

/-- A `Timer`, and the nodes that completions or running handlers may still hold. -/
structure Timer where
  /-- `timer_index`, which all objects share. -/
  timerIndex : ℕ
  /-- The nodes that were ever made. -/
  nodes : ℕ → Option TimerNode := fun _ ↦ none
  /-- The ids in `timer_nodes`. -/
  timerNodes : ℕ → Bool := fun _ ↦ false
  /-- The nodes whose handlers run, the last one called first: a handler may let the io context
  run. -/
  running : List ℕ := []
  log : List TimerEntry := []

namespace Timer

/-- What can happen on the io thread. -/
inductive Action
  | startTimer (handler : Bool) (interval : ℕ) (bLoop : Bool)
  /-- Another `Timer` starts one. -/
  | otherStart
  | restartTimer (timerId interval : ℕ)
  | stopTimer (timerId : ℕ)
  | resetInterval (timerId interval : ℕ)
  | clear
  /-- The time of the waits of a node is up. -/
  | expire (id : ℕ)
  /-- The io context runs a completion. -/
  | complete (id : ℕ)
  /-- The handler that was called last returns. -/
  | handlerReturn (ret : Bool)
  deriving DecidableEq, Repr

/-- Change a node, wherever it is held. -/
def modify (t : Timer) (id : ℕ) (f : TimerNode → TimerNode) : Timer :=
  { t with nodes := Function.update t.nodes id ((t.nodes id).map f) }

theorem nodes_modify_self (t : Timer) (id : ℕ) (f : TimerNode → TimerNode) :
    (t.modify id f).nodes id = (t.nodes id).map f := Function.update_self ..

theorem nodes_modify_of_ne (t : Timer) {id id' : ℕ} (h : id' ≠ id) (f : TimerNode → TimerNode) :
    (t.modify id f).nodes id' = t.nodes id' := Function.update_of_ne h ..

/-- `timer_nodes.erase`. -/
def erase (t : Timer) (id : ℕ) : Timer :=
  { t with timerNodes := Function.update t.timerNodes id false }

/-- Write to the history. -/
def record (t : Timer) (x : TimerEntry) : Timer := { t with log := t.log ++ [x] }

/-- Change a node that is found in the map. -/
def modifyFound (t : Timer) (timerId : ℕ) (f : TimerNode → TimerNode) : Timer :=
  if t.timerNodes timerId then t.modify timerId f else t

/-- `start_timer`. -/
def startTimer (t : Timer) (handler : Bool) (interval : ℕ) (bLoop : Bool) : Timer :=
  let node : TimerNode := { handler := handler, interval := interval, alive := true, loop := bLoop }
  { t with
    timerIndex := t.timerIndex + 1
    nodes := Function.update t.nodes t.timerIndex (some node.arm)
    timerNodes := Function.update t.timerNodes t.timerIndex true
    log := t.log ++ [.started t.timerIndex] }

/-- `restart_timer`, which takes the id as a `uint32_t`. -/
def restartTimer (t : Timer) (timerId interval : ℕ) : Timer :=
  t.modifyFound (timerId % 2 ^ 32) fun n ↦
    { n with skip := true, interval := if 0 < interval then interval else n.interval }

/-- `stop_timer`. -/
def stopTimer (t : Timer) (timerId : ℕ) : Timer :=
  (t.modifyFound timerId TimerNode.kill).record (.stopped timerId)

/-- `reset_interval`. -/
def resetInterval (t : Timer) (timerId interval : ℕ) : Timer :=
  t.modifyFound timerId fun n ↦ { n.cancel with interval := interval }.arm

/-- `clear`. -/
def clear (t : Timer) : Timer :=
  { t with
    nodes := fun id ↦ if t.timerNodes id then (t.nodes id).map TimerNode.kill else t.nodes id
    timerNodes := fun _ ↦ false
    log := t.log ++ [.cleared] }

/-- The end of `handle_timeout` for a node whose handler was called, skipped or empty. -/
def rearm (t : Timer) (id : ℕ) : Timer := t.modify id fun n ↦ if n.loop then n.arm else n

/-- `handle_timeout` up to the call of the handler, or to its end if there is none. -/
def handleTimeout (t : Timer) (id : ℕ) (node : TimerNode) : Timer :=
  if node.alive then
    if node.handler then
      if node.skip then (t.modify id fun n ↦ { n with skip := false }).rearm id
      else { t with running := id :: t.running }.record (.invoked id)
    else t.rearm id
  else t.erase id

/-- `handle_timeout` after the handler has returned. -/
def handlerReturned (t : Timer) (id : ℕ) (ret : Bool) : Timer :=
  if ret then (t.record (.returned id ret)).rearm id
  else ((t.modify id TimerNode.kill).erase id).record (.returned id ret)

/-- One step, or `none` when the action is not possible. -/
def step (t : Timer) : Action → Option Timer
  | .startTimer handler interval bLoop => some (t.startTimer handler interval bLoop)
  | .otherStart => some { t with timerIndex := t.timerIndex + 1 }
  | .restartTimer timerId interval => some (t.restartTimer timerId interval)
  | .stopTimer timerId => some (t.stopTimer timerId)
  | .resetInterval timerId interval => some (t.resetInterval timerId interval)
  | .clear => some t.clear
  | .expire id =>
    some (t.modify id fun n ↦ { n with waits := 0, queued := n.queued + n.waits })
  | .complete id =>
    match t.nodes id with
    | some node =>
      if 0 < node.queued then
        some ((t.modify id fun n ↦ { n with queued := n.queued - 1 }).handleTimeout id node)
      else none
    | none => none
  | .handlerReturn ret =>
    match t.running with
    | id :: rest => some ({ t with running := rest }.handlerReturned id ret)
    | [] => none

/-- The step system of a timer. -/
def system : StepSystem Timer Action := ⟨step⟩

end Timer

/-! ## Ends -/

namespace TimerEntry

/-- The entry ends the timer: it is stopped, all are cleared, or its handler returns `false`. -/
def ends (x : TimerEntry) (id : ℕ) : Prop :=
  x = .stopped id ∨ x = .cleared ∨ x = .returned id false

/-- The timer was started, and has been ended since. -/
def Over (id : ℕ) (log : List TimerEntry) : Prop :=
  ∃ before x after, log = before ++ x :: after ∧ .started id ∈ before ∧ x.ends id

/-- No handler is called once its timer is over. -/
def Silent (log : List TimerEntry) : Prop :=
  ∀ id before after, log = before ++ .invoked id :: after → ¬Over id before

variable {log : List TimerEntry} {x : TimerEntry} {id : ℕ}

/-- An entry of a longer history is the last one, or one of the history before. -/
theorem append_singleton_eq_iff {before after : List TimerEntry} {y : TimerEntry} :
    log ++ [x] = before ++ y :: after
      ↔ (after = [] ∧ before = log ∧ y = x) ∨ ∃ after', after = after' ++ [x]
        ∧ log = before ++ y :: after' := by
  rcases List.eq_nil_or_concat' after with rfl | ⟨after, z, rfl⟩
  · constructor
    · intro h
      obtain ⟨rfl, hx⟩ := List.append_inj' h rfl
      exact .inl ⟨rfl, rfl, (List.singleton_inj.mp hx).symm⟩
    · rintro (⟨-, rfl, rfl⟩ | ⟨after', h, -⟩)
      · rfl
      · simp at h
  · rw [← List.cons_append, ← List.append_assoc, List.append_singleton_inj]
    constructor
    · rintro ⟨rfl, rfl⟩
      exact .inr ⟨after, rfl, rfl⟩
    · rintro (⟨h, -, -⟩ | ⟨after', h, rfl⟩)
      · simp at h
      · obtain ⟨rfl, rfl⟩ := List.append_singleton_inj.mp h
        exact ⟨rfl, rfl⟩

theorem over_append : Over id (log ++ [x]) ↔ Over id log ∨ .started id ∈ log ∧ x.ends id := by
  constructor
  · rintro ⟨before, y, after, hlog, hstarted, hends⟩
    obtain ⟨-, rfl, rfl⟩ | ⟨after', -, hlog'⟩ := append_singleton_eq_iff.mp hlog
    · exact .inr ⟨hstarted, hends⟩
    · exact .inl ⟨before, y, after', hlog', hstarted, hends⟩
  · rintro (⟨before, y, after, rfl, hstarted, hends⟩ | ⟨hstarted, hends⟩)
    · exact ⟨before, y, after ++ [x], by simp, hstarted, hends⟩
    · exact ⟨log, x, [], rfl, hstarted, hends⟩

theorem Silent.append (h : Silent log) (hx : ∀ id, x = .invoked id → ¬Over id log) :
    Silent (log ++ [x]) := by
  intro id before after hlog
  obtain ⟨-, rfl, hinvoked⟩ | ⟨after', -, hlog'⟩ := append_singleton_eq_iff.mp hlog
  · exact hx id hinvoked.symm
  · exact h id before after' hlog'

end TimerEntry

/-! ## What a run keeps -/

namespace Timer

open TimerEntry (Over Silent)

/-- The invariant: ids are fresh, a node that is alive is in the map, and one that is over is not
alive. -/
structure Inv (t : Timer) : Prop where
  started : ∀ id, .started id ∈ t.log → id < t.timerIndex
  mapped : ∀ id node, t.nodes id = some node → node.alive = true → t.timerNodes id = true
  ended : ∀ id node, Over id t.log → t.nodes id = some node → node.alive = false
  silent : Silent t.log

/-- No node has been made alive, and those that are alive have stayed in the map. -/
structure Keeps (t t' : Timer) : Prop where
  index : t.timerIndex ≤ t'.timerIndex
  log : t'.log = t.log
  alive : ∀ id node', t'.nodes id = some node' → node'.alive = true →
    (∃ node, t.nodes id = some node ∧ node.alive = true)
      ∧ (t.timerNodes id = true → t'.timerNodes id = true)

variable {t t' : Timer} {id : ℕ}

theorem Inv.keep (h : Inv t) (hkeep : Keeps t t') : Inv t' where
  started id hid := Nat.lt_of_lt_of_le (h.started id (hkeep.log ▸ hid)) hkeep.index
  mapped id node' hnode' halive := by
    obtain ⟨⟨node, hnode, hbefore⟩, hmap⟩ := hkeep.alive id node' hnode' halive
    exact hmap (h.mapped id node hnode hbefore)
  ended id node' hover hnode' := by
    by_contra halive
    rw [Bool.not_eq_false] at halive
    obtain ⟨⟨node, hnode, hbefore⟩, -⟩ := hkeep.alive id node' hnode' halive
    rw [hkeep.log] at hover
    rw [h.ended id node hover hnode] at hbefore
    exact Bool.false_ne_true hbefore
  silent := hkeep.log ▸ h.silent

theorem Inv.record (h : Inv t) {x : TimerEntry} (hstarted : ∀ id, x ≠ .started id)
    (hinvoked : ∀ id, x = .invoked id → ¬Over id t.log)
    (hends : ∀ id node, x.ends id → t.nodes id = some node → node.alive = false) :
    Inv (t.record x) where
  started id hid := by
    rcases List.mem_append.mp hid with hid | hid
    · exact h.started id hid
    · exact absurd (List.mem_singleton.mp hid).symm (hstarted id)
  mapped := h.mapped
  ended id node hover hnode := by
    rcases TimerEntry.over_append.mp hover with hover | ⟨-, hx⟩
    · exact h.ended id node hover hnode
    · exact hends id node hx hnode
  silent := h.silent.append hinvoked

theorem keeps_modify (t : Timer) (id : ℕ) {f : TimerNode → TimerNode}
    (hf : ∀ n, (f n).alive = true → n.alive = true) : Keeps t (t.modify id f) := by
  refine ⟨Nat.le_refl _, rfl, fun id' node' hnode' halive ↦ ⟨?_, fun h ↦ h⟩⟩
  by_cases hid : id' = id
  · subst hid
    rw [nodes_modify_self, Option.map_eq_some_iff] at hnode'
    obtain ⟨node, hnode, rfl⟩ := hnode'
    exact ⟨node, hnode, hf node halive⟩
  · rw [nodes_modify_of_ne t hid] at hnode'
    exact ⟨node', hnode', halive⟩

theorem keeps_modifyFound (t : Timer) (id : ℕ) {f : TimerNode → TimerNode}
    (hf : ∀ n, (f n).alive = true → n.alive = true) : Keeps t (t.modifyFound id f) := by
  rw [modifyFound]
  split_ifs
  · exact keeps_modify t id hf
  · exact ⟨Nat.le_refl _, rfl, fun id node hnode halive ↦ ⟨⟨node, hnode, halive⟩, fun h ↦ h⟩⟩

theorem keeps_erase (h : ∀ node, t.nodes id = some node → node.alive = false) :
    Keeps t (t.erase id) := by
  refine ⟨Nat.le_refl _, rfl, fun id' node hnode halive ↦ ⟨⟨node, hnode, halive⟩, fun hmap ↦ ?_⟩⟩
  by_cases hid : id' = id
  · subst hid
    rw [h node hnode] at halive
    exact absurd halive Bool.false_ne_true
  · exact (Function.update_of_ne hid ..).trans hmap

theorem keeps_rearm (t : Timer) (id : ℕ) : Keeps t (t.rearm id) :=
  keeps_modify t id fun n h ↦ by
    split_ifs at h
    · exact h
    · exact h

theorem alive_modify_kill {node : TimerNode}
    (h : (t.modify id TimerNode.kill).nodes id = some node) : node.alive = false := by
  rw [nodes_modify_self, Option.map_eq_some_iff] at h
  obtain ⟨n, -, rfl⟩ := h
  rfl

/-! ### The functions -/

theorem Inv.startTimer (h : Inv t) (handler : Bool) (interval : ℕ) (bLoop : Bool) :
    Inv (t.startTimer handler interval bLoop) where
  started id hid := by
    rcases List.mem_append.mp hid with hid | hid
    · exact Nat.lt_succ_of_lt (h.started id hid)
    · obtain rfl := TimerEntry.started.inj (List.mem_singleton.mp hid)
      exact Nat.lt_succ_self _
  mapped id node hnode halive := by
    by_cases hid : id = t.timerIndex
    · subst hid
      exact Function.update_self ..
    · exact (Function.update_of_ne hid ..).trans
        (h.mapped id node ((Function.update_of_ne hid ..).symm.trans hnode) halive)
  ended id node hover hnode := by
    rcases TimerEntry.over_append.mp hover with hover | ⟨-, hends | hends | hends⟩
    -- the new id was never started before, so that another node is meant
    · have hlt : id < t.timerIndex := by
        obtain ⟨before, x, after, hlog, hstarted, -⟩ := hover
        exact h.started id (hlog ▸ List.mem_append_left _ hstarted)
      exact h.ended id node hover
        ((Function.update_of_ne (Nat.ne_of_lt hlt) ..).symm.trans hnode)
    · exact absurd hends (by simp)
    · exact absurd hends (by simp)
    · exact absurd hends (by simp)
  silent := h.silent.append fun _ hx ↦ absurd hx (by simp)

theorem Inv.stopTimer (h : Inv t) (timerId : ℕ) : Inv (t.stopTimer timerId) := by
  have hkill := h.keep (keeps_modifyFound t timerId fun n (halive : n.kill.alive = true) ↦
    absurd halive Bool.false_ne_true)
  refine hkill.record (by simp) (by simp) fun id node hends hnode ↦ ?_
  obtain rfl : timerId = id := by simpa [TimerEntry.ends] using hends
  rw [modifyFound] at hnode
  split_ifs at hnode with hfound
  · exact alive_modify_kill hnode
  -- what is not in the map is not alive
  · by_contra halive
    rw [Bool.not_eq_false] at halive
    exact hfound (h.mapped timerId node hnode halive)

theorem Inv.alive_clear (h : Inv t) {node : TimerNode} (hnode : t.clear.nodes id = some node) :
    node.alive = false := by
  by_cases hfound : t.timerNodes id = true
  · obtain ⟨n, -, rfl⟩ := Option.map_eq_some_iff.mp ((if_pos hfound).symm.trans hnode)
    rfl
  · by_contra halive
    rw [Bool.not_eq_false] at halive
    exact hfound (h.mapped id node ((if_neg hfound).symm.trans hnode) halive)

theorem Inv.clear (h : Inv t) : Inv t.clear where
  started id hid := by
    rcases List.mem_append.mp hid with hid | hid
    · exact h.started id hid
    · exact absurd (List.mem_singleton.mp hid) (by simp)
  mapped id node hnode halive :=
    absurd (halive.symm.trans (h.alive_clear hnode)) (by decide)
  ended id node _ hnode := h.alive_clear hnode
  silent := h.silent.append fun _ hx ↦ absurd hx (by simp)

theorem Inv.handleTimeout (h : Inv t) {node held : TimerNode} (hheld : t.nodes id = some held)
    (hnode : node.alive = held.alive) : Inv (t.handleTimeout id node) := by
  rw [Timer.handleTimeout, hnode]
  split_ifs with halive hhandler hskip
  · refine (h.keep (keeps_modify t id ?_)).keep (keeps_rearm _ id)
    exact fun n halive ↦ halive
  · have hrunning : Inv { t with running := id :: t.running } :=
      ⟨h.started, h.mapped, h.ended, h.silent⟩
    refine hrunning.record (by simp) (fun id' hx hover ↦ ?_) (by simp [TimerEntry.ends])
    obtain rfl := TimerEntry.invoked.inj hx
    exact absurd ((h.ended id held hover hheld).symm.trans halive) Bool.false_ne_true
  · exact h.keep (keeps_rearm t id)
  · refine h.keep (keeps_erase fun n hn ↦ ?_)
    obtain rfl := Option.some.inj (hheld.symm.trans hn)
    exact Bool.eq_false_iff.mpr halive

theorem Inv.handlerReturned (h : Inv t) (ret : Bool) : Inv (t.handlerReturned id ret) := by
  rw [Timer.handlerReturned]
  split_ifs with hret
  · exact (h.record (by simp) (by simp) (by simp [TimerEntry.ends, hret])).keep (keeps_rearm _ id)
  · have hdead : ∀ node, (t.modify id TimerNode.kill).nodes id = some node → node.alive = false :=
      fun node hnode ↦ alive_modify_kill hnode
    have hkill : Inv (t.modify id TimerNode.kill) :=
      h.keep (keeps_modify t id fun n halive ↦ absurd halive Bool.false_ne_true)
    refine (hkill.keep (keeps_erase hdead)).record (by simp) (by simp) fun id' node hends hnode ↦ ?_
    obtain ⟨rfl, -⟩ : id = id' ∧ ret = false := by simpa [TimerEntry.ends] using hends
    exact hdead node hnode

/-- **A step keeps the invariant.** -/
theorem Inv.step (h : Inv t) {a : Action} (hstep : system.step t a = some t') : Inv t' := by
  cases a with
  | startTimer handler interval bLoop =>
    obtain rfl := Option.some.inj hstep
    exact h.startTimer handler interval bLoop
  | otherStart =>
    obtain rfl := Option.some.inj hstep
    exact ⟨fun id hid ↦ Nat.lt_succ_of_lt (h.started id hid), h.mapped, h.ended, h.silent⟩
  | restartTimer timerId interval =>
    obtain rfl := Option.some.inj hstep
    exact h.keep (keeps_modifyFound t _ fun n halive ↦ halive)
  | stopTimer timerId =>
    obtain rfl := Option.some.inj hstep
    exact h.stopTimer timerId
  | resetInterval timerId interval =>
    obtain rfl := Option.some.inj hstep
    exact h.keep (keeps_modifyFound t timerId fun n halive ↦ halive)
  | clear =>
    obtain rfl := Option.some.inj hstep
    exact h.clear
  | expire id =>
    obtain rfl := Option.some.inj hstep
    exact h.keep (keeps_modify t id fun n halive ↦ halive)
  | complete id =>
    simp only [system, Timer.step] at hstep
    split at hstep
    · rename_i node hnode
      obtain ⟨-, hsome⟩ := Option.ite_none_right_eq_some.mp hstep
      obtain rfl := Option.some.inj hsome
      have htaken : (t.modify id fun n ↦ { n with queued := n.queued - 1 }).nodes id
          = some { node with queued := node.queued - 1 } := by
        rw [nodes_modify_self, hnode, Option.map_some]
      refine (h.keep (keeps_modify t id ?_)).handleTimeout htaken rfl
      exact fun n halive ↦ halive
    · exact absurd hstep (by simp)
  | handlerReturn ret =>
    simp only [system, Timer.step] at hstep
    split at hstep
    · rename_i id rest _
      obtain rfl := Option.some.inj hstep
      have hrunning : Inv { t with running := rest } := ⟨h.started, h.mapped, h.ended, h.silent⟩
      exact hrunning.handlerReturned ret
    · exact absurd hstep (by simp)

/-- A new `Timer`, whatever others have started before. -/
def fresh (timerIndex : ℕ) : Timer := { timerIndex := timerIndex }

theorem inv_fresh (timerIndex : ℕ) : Inv (fresh timerIndex) := by
  refine ⟨?_, ?_, ?_, ?_⟩
  · simp [fresh]
  · simp [fresh]
  · simp [fresh]
  · simp [fresh, Silent]

/-- **A stopped timer never fires.** In every run of a `Timer`, whatever calls, expirations and
completions it is made of: no handler is called after its timer was stopped, after the timers were
cleared, or after it has returned `false`. -/
theorem never_again (timerIndex : ℕ) (as : List Action) :
    system.Throughout (fun t ↦ Silent t.log) (fresh timerIndex) as := by
  exact StepSystem.throughout_of_invariant (inv_fresh timerIndex)
    (fun t a t' h hstep _ ↦ h.step hstep) (fun t h ↦ h.silent)
    (StepSystem.along_of_forall (fun _ _ ↦ trivial) _ _)

-- stopped by its own handler: the completion that follows finds a dead node
example :
    (system.run (fresh 1) [.startTimer true 10 true, .expire 1, .complete 1, .stopTimer 1,
      .handlerReturn true, .expire 1, .complete 1]).map Timer.log
      = some [.started 1, .invoked 1, .stopped 1, .returned 1 true] := rfl

end Timer

end Knet.Utils
