import Knet.Utils.Timer

/-!
# One timer in a run

`View` is what concerns one timer: its node, whether `timer_nodes` holds it, and the calls of its
handler. A step of a `Timer` does to the view what the view's own machine does (`view_step`), so
that what holds of every timer in every run can be shown on that machine.
-/

namespace Knet.Utils

namespace TimerNode

/-- What `restart_timer` does to the node. -/
def restart (interval : ℕ) (n : TimerNode) : TimerNode :=
  { n with skip := true, interval := if 0 < interval then interval else n.interval }

/-- What `reset_interval` does to it. -/
def reset (interval : ℕ) (n : TimerNode) : TimerNode := { n.cancel with interval := interval }.arm

/-- The end of `handle_timeout`. -/
def rearm (n : TimerNode) : TimerNode := if n.loop then n.arm else n

@[simp] theorem rearm_loop (n : TimerNode) : n.rearm.loop = n.loop := by
  rw [rearm]
  split_ifs <;> rfl

@[simp] theorem rearm_alive (n : TimerNode) : n.rearm.alive = n.alive := by
  rw [rearm]
  split_ifs <;> rfl

@[simp] theorem rearm_queued (n : TimerNode) : n.rearm.queued = n.queued := by
  rw [rearm]
  split_ifs <;> rfl

end TimerNode

namespace Timer

open TimerEntry (Over)

/-! ## One timer -/

/-- What a step means to one timer. -/
inductive Event
  | other
  | start (node : TimerNode)
  | restart (interval : ℕ)
  | stop
  | reset (interval : ℕ)
  | clear
  | expire
  | complete
  /-- Its handler, which was called last, returns. -/
  | ret (ret : Bool)

/-- What concerns one timer. -/
structure View where
  /-- Its node, once it was started. -/
  node : Option TimerNode
  /-- `timer_nodes` holds it. -/
  registered : Bool
  /-- The calls of its handler that have not returned. -/
  depth : ℕ
  /-- The calls of its handler. -/
  fired : ℕ

namespace View

/-- Change the node. -/
def change (v : View) (f : TimerNode → TimerNode) : View := { v with node := v.node.map f }

/-- Change the node if it is found in the map. -/
def changeFound (v : View) (f : TimerNode → TimerNode) : View :=
  if v.registered then v.change f else v

/-- The view after a completion was run: up to the call of the handler, if there is one. -/
def timeout (v : View) (node : TimerNode) : View :=
  let v := v.change fun n ↦ { n with queued := n.queued - 1 }
  if node.alive then
    if node.handler then
      if node.skip then v.change fun n ↦ { n with skip := false }.rearm
      else { v with depth := v.depth + 1, fired := v.fired + 1 }
    else v.change TimerNode.rearm
  else { v with registered := false }

/-- The view after the handler has returned. -/
def returned (v : View) (ret : Bool) : View :=
  if ret then { v.change TimerNode.rearm with depth := v.depth - 1 }
  else { v.change TimerNode.kill with registered := false, depth := v.depth - 1 }

/-- The step of one timer. -/
def next (v : View) : Event → View
  | .other => v
  | .start node => { v with node := some node, registered := true }
  | .restart interval => v.changeFound (TimerNode.restart interval)
  | .stop => v.changeFound TimerNode.kill
  | .reset interval => v.changeFound (TimerNode.reset interval)
  | .clear => { v.changeFound TimerNode.kill with registered := false }
  | .expire => v.change fun n ↦ { n with waits := 0, queued := n.queued + n.waits }
  | .complete => v.node.elim v v.timeout
  | .ret ret => v.returned ret

end View

/-- The view of the timer with this id. -/
def view (t : Timer) (id : ℕ) : View :=
  { node := t.nodes id, registered := t.timerNodes id, depth := t.running.count id,
    fired := t.log.count (.invoked id) }

/-- The node that `start_timer` makes. -/
def newNode (handler : Bool) (interval : ℕ) (bLoop : Bool) : TimerNode :=
  { handler := handler, interval := interval, alive := true, loop := bLoop, waits := 1 }

/-- What the action means to the timer with this id. -/
def event (t : Timer) (id : ℕ) : Action → Event
  | .startTimer handler interval bLoop =>
    if t.timerIndex = id then .start (newNode handler interval bLoop) else .other
  | .restartTimer timerId interval => if timerId % 2 ^ 32 = id then .restart interval else .other
  | .stopTimer timerId => if timerId = id then .stop else .other
  | .resetInterval timerId interval => if timerId = id then .reset interval else .other
  | .clear => .clear
  | .expire timerId => if timerId = id then .expire else .other
  | .complete timerId => if timerId = id then .complete else .other
  | .handlerReturn ret => if t.running.head? = some id then .ret ret else .other
  | _ => .other

/-- The action means the event to the timer with the id. -/
inductive Means (t : Timer) : ℕ → Action → Event → Prop
  | other {id : ℕ} {a : Action} : Means t id a .other
  | start (handler : Bool) (interval : ℕ) (bLoop : Bool) :
    Means t t.timerIndex (.startTimer handler interval bLoop)
      (.start (newNode handler interval bLoop))
  | restart (timerId interval : ℕ) :
    Means t (timerId % 2 ^ 32) (.restartTimer timerId interval) (.restart interval)
  | stop (timerId : ℕ) : Means t timerId (.stopTimer timerId) .stop
  | reset (timerId interval : ℕ) :
    Means t timerId (.resetInterval timerId interval) (.reset interval)
  | clear {id : ℕ} : Means t id .clear .clear
  | expire (timerId : ℕ) : Means t timerId (.expire timerId) .expire
  | complete (timerId : ℕ) : Means t timerId (.complete timerId) .complete
  | ret {id : ℕ} (ret : Bool) (h : t.running.head? = some id) :
    Means t id (.handlerReturn ret) (.ret ret)

variable {t t' : Timer} {a : Action} {id : ℕ} {v : View}

theorem means_event (t : Timer) (id : ℕ) (a : Action) : Means t id a (t.event id a) := by
  cases a with
  | startTimer handler interval bLoop =>
    rw [event]
    split_ifs with hid
    · exact hid ▸ .start handler interval bLoop
    · exact .other
  | otherStart => exact .other
  | restartTimer timerId interval =>
    rw [event]
    split_ifs with hid
    · exact hid ▸ .restart timerId interval
    · exact .other
  | stopTimer timerId =>
    rw [event]
    split_ifs with hid
    · exact hid ▸ .stop timerId
    · exact .other
  | resetInterval timerId interval =>
    rw [event]
    split_ifs with hid
    · exact hid ▸ .reset timerId interval
    · exact .other
  | clear => exact .clear
  | expire timerId =>
    rw [event]
    split_ifs with hid
    · exact hid ▸ .expire timerId
    · exact .other
  | complete timerId =>
    rw [event]
    split_ifs with hid
    · exact hid ▸ .complete timerId
    · exact .other
  | handlerReturn ret =>
    rw [event]
    split_ifs with hid
    · exact .ret ret hid
    · exact .other

/-! ### A step, seen from one timer -/

theorem view_modify (t : Timer) (k id : ℕ) (f : TimerNode → TimerNode) :
    (t.modify k f).view id = if k = id then (t.view id).change f else t.view id := by
  split_ifs with hid
  · subst hid
    rw [view, nodes_modify_self]
    rfl
  · rw [view, nodes_modify_of_ne t (Ne.symm hid)]
    rfl

theorem view_modifyFound (t : Timer) (k id : ℕ) (f : TimerNode → TimerNode) :
    (t.modifyFound k f).view id = if k = id then (t.view id).changeFound f else t.view id := by
  rw [modifyFound]
  by_cases hid : k = id
  · subst hid
    rw [if_pos rfl, View.changeFound]
    split_ifs with hfound hview hview
    · rw [view_modify, if_pos rfl]
    · exact absurd hfound hview
    · exact absurd hview hfound
    · rfl
  · rw [if_neg hid]
    split_ifs
    · rw [view_modify, if_neg hid]
    · rfl

theorem view_record (t : Timer) {x : TimerEntry} {id : ℕ} (hx : x ≠ .invoked id) :
    (t.record x).view id = t.view id := by
  have hcount : (t.record x).log.count (.invoked id) = t.log.count (.invoked id) := by
    rw [record, List.count_append, List.count_singleton]
    simp [hx]
  rw [view, hcount]
  rfl

theorem view_erase (t : Timer) (k id : ℕ) :
    (t.erase k).view id
      = if k = id then { t.view id with registered := false } else t.view id := by
  split_ifs with hid
  · subst hid
    simp [view, erase]
  · have hmap : (t.erase k).timerNodes id = t.timerNodes id :=
      Function.update_of_ne (Ne.symm hid) ..
    rw [view, hmap]
    rfl

theorem view_invoked (t : Timer) (k id : ℕ) :
    (({ t with running := k :: t.running } : Timer).record (.invoked k)).view id
      = if k = id then
          { t.view id with depth := (t.view id).depth + 1, fired := (t.view id).fired + 1 }
        else t.view id := by
  split_ifs with hid
  · subst hid
    simp [view, record]
  · simp [view, record, hid]

theorem view_handleTimeout {k : ℕ} {node : TimerNode} (hk : t.nodes k = some node) (id : ℕ) :
    ((t.modify k fun n ↦ { n with queued := n.queued - 1 }).handleTimeout k node).view id
      = (t.view id).next (if k = id then .complete else .other) := by
  by_cases hid : k = id
  · subst hid
    have hview : (t.view k).next .complete = (t.view k).timeout node :=
      congrArg (Option.elim · _ _) hk
    rw [if_pos rfl, hview, View.timeout, handleTimeout]
    split_ifs
    · rw [rearm, view_modify, if_pos rfl, view_modify, if_pos rfl, view_modify, if_pos rfl]
      simp only [View.change, Option.map_map]
      rfl
    · rw [view_invoked, if_pos rfl, view_modify, if_pos rfl]
    · rw [rearm, view_modify, if_pos rfl, view_modify, if_pos rfl]
      rfl
    · rw [view_erase, if_pos rfl, view_modify, if_pos rfl]
  · rw [if_neg hid, View.next, handleTimeout]
    split_ifs
    · rw [rearm, view_modify, if_neg hid, view_modify, if_neg hid, view_modify, if_neg hid]
    · rw [view_invoked, if_neg hid, view_modify, if_neg hid]
    · rw [rearm, view_modify, if_neg hid, view_modify, if_neg hid]
    · rw [view_erase, if_neg hid, view_modify, if_neg hid]

theorem view_handlerReturned {k : ℕ} {rest : List ℕ} (hrunning : t.running = k :: rest) (ret : Bool)
    (id : ℕ) :
    (({ t with running := rest } : Timer).handlerReturned k ret).view id
      = (t.view id).next (if t.running.head? = some id then .ret ret else .other) := by
  have hpop : ({ t with running := rest } : Timer).view id
      = { t.view id with depth := (t.view id).depth - if k = id then 1 else 0 } := by
    simp [view, hrunning, List.count_cons]
  rw [hrunning, List.head?_cons]
  by_cases hid : k = id
  · subst hid
    rw [if_pos rfl] at hpop ⊢
    rw [View.next, View.returned, handlerReturned]
    split_ifs
    · rw [rearm, view_modify, if_pos rfl, view_record _ (by simp), hpop]
      rfl
    · rw [view_record _ (by simp), view_erase, if_pos rfl, view_modify, if_pos rfl, hpop]
      rfl
  · rw [if_neg hid] at hpop
    rw [if_neg (fun h ↦ hid (Option.some.inj h)), View.next, handlerReturned]
    split_ifs
    · rw [rearm, view_modify, if_neg hid, view_record _ (by simp), hpop]
      rfl
    · rw [view_record _ (by simp), view_erase, if_neg hid, view_modify, if_neg hid, hpop]
      rfl

theorem view_clear (t : Timer) (id : ℕ) : t.clear.view id = (t.view id).next .clear := by
  have hcount : t.clear.log.count (.invoked id) = t.log.count (.invoked id) := by
    simp [clear]
  rw [view, hcount, View.next, View.changeFound, view, clear]
  split_ifs <;> simp_all [View.change]

theorem view_startTimer (t : Timer) (handler : Bool) (interval : ℕ) (bLoop : Bool) (id : ℕ) :
    (t.startTimer handler interval bLoop).view id
      = (t.view id).next (t.event id (.startTimer handler interval bLoop)) := by
  rw [event]
  split_ifs with hid
  · subst hid
    simp [view, startTimer, View.next, newNode, TimerNode.arm, TimerNode.cancel]
  · simp [view, startTimer, View.next, Function.update_of_ne (Ne.symm hid)]

/-- **A step does to a timer what the machine of that timer does.** -/
theorem view_step (hstep : system.step t a = some t') (id : ℕ) :
    t'.view id = (t.view id).next (t.event id a) := by
  cases a with
  | startTimer handler interval bLoop =>
    obtain rfl := Option.some.inj hstep
    exact view_startTimer t handler interval bLoop id
  | otherStart =>
    obtain rfl := Option.some.inj hstep
    rfl
  | restartTimer timerId interval =>
    obtain rfl := Option.some.inj hstep
    rw [event, restartTimer, view_modifyFound, apply_ite (View.next _)]
    rfl
  | stopTimer timerId =>
    obtain rfl := Option.some.inj hstep
    rw [event, stopTimer, view_record _ (by simp), view_modifyFound, apply_ite (View.next _)]
    rfl
  | resetInterval timerId interval =>
    obtain rfl := Option.some.inj hstep
    rw [event, resetInterval, view_modifyFound, apply_ite (View.next _)]
    rfl
  | clear =>
    obtain rfl := Option.some.inj hstep
    exact view_clear t id
  | expire timerId =>
    obtain rfl := Option.some.inj hstep
    rw [event, view_modify, apply_ite (View.next _)]
    rfl
  | complete timerId =>
    simp only [system, step] at hstep
    split at hstep
    · rename_i node hnode
      obtain ⟨-, hsome⟩ := Option.ite_none_right_eq_some.mp hstep
      obtain rfl := Option.some.inj hsome
      exact view_handleTimeout hnode id
    · exact absurd hstep (by simp)
  | handlerReturn ret =>
    simp only [system, step] at hstep
    split at hstep
    · rename_i k rest hrunning
      obtain rfl := Option.some.inj hstep
      exact view_handlerReturned hrunning ret id
    · exact absurd hstep (by simp)

/-! ### The history -/

/-- What a step writes to the history. -/
def entries (t : Timer) : Action → List TimerEntry
  | .startTimer .. => [.started t.timerIndex]
  | .stopTimer timerId => [.stopped timerId]
  | .clear => [.cleared]
  | .complete id =>
    (t.nodes id).elim [] fun node ↦
      if node.alive then
        if node.handler then if node.skip then [] else [.invoked id] else []
      else []
  | .handlerReturn ret => t.running.head?.elim [] fun id ↦ [.returned id ret]
  | _ => []

theorem record_modifyFound (t : Timer) (k : ℕ) (f : TimerNode → TimerNode) :
    (t.modifyFound k f).log = t.log ∧ (t.modifyFound k f).timerIndex = t.timerIndex := by
  rw [modifyFound]
  split_ifs
  · exact ⟨rfl, rfl⟩
  · exact ⟨rfl, rfl⟩

/-- The history grows by the entries of the step, and the counter counts up. -/
theorem history_step (hstep : system.step t a = some t') :
    t'.log = t.log ++ t.entries a ∧ t.timerIndex ≤ t'.timerIndex := by
  have hnil : t.log = t.log ++ [] := (List.append_nil _).symm
  cases a with
  | startTimer handler interval bLoop =>
    obtain rfl := Option.some.inj hstep
    exact ⟨rfl, Nat.le_succ _⟩
  | otherStart =>
    obtain rfl := Option.some.inj hstep
    exact ⟨hnil, Nat.le_succ _⟩
  | restartTimer timerId interval =>
    obtain rfl := Option.some.inj hstep
    obtain ⟨hlog, hindex⟩ := record_modifyFound t (timerId % 2 ^ 32) (TimerNode.restart interval)
    exact ⟨hlog.trans hnil, Nat.le_of_eq hindex.symm⟩
  | stopTimer timerId =>
    obtain rfl := Option.some.inj hstep
    obtain ⟨hlog, hindex⟩ := record_modifyFound t timerId TimerNode.kill
    exact ⟨congrArg (· ++ _) hlog, Nat.le_of_eq hindex.symm⟩
  | resetInterval timerId interval =>
    obtain rfl := Option.some.inj hstep
    obtain ⟨hlog, hindex⟩ := record_modifyFound t timerId (TimerNode.reset interval)
    exact ⟨hlog.trans hnil, Nat.le_of_eq hindex.symm⟩
  | clear =>
    obtain rfl := Option.some.inj hstep
    exact ⟨rfl, Nat.le_refl _⟩
  | expire timerId =>
    obtain rfl := Option.some.inj hstep
    exact ⟨hnil, Nat.le_refl _⟩
  | complete timerId =>
    simp only [system, step] at hstep
    split at hstep
    · rename_i node hnode
      obtain ⟨-, hsome⟩ := Option.ite_none_right_eq_some.mp hstep
      obtain rfl := Option.some.inj hsome
      rw [entries, hnode, Option.elim_some, handleTimeout]
      split_ifs
      · exact ⟨hnil, Nat.le_refl _⟩
      · exact ⟨rfl, Nat.le_refl _⟩
      · exact ⟨hnil, Nat.le_refl _⟩
      · exact ⟨hnil, Nat.le_refl _⟩
    · exact absurd hstep (by simp)
  | handlerReturn ret =>
    simp only [system, step] at hstep
    split at hstep
    · rename_i k rest hrunning
      obtain rfl := Option.some.inj hstep
      rw [entries, hrunning, List.head?_cons, Option.elim_some, handlerReturned]
      split_ifs
      · exact ⟨rfl, Nat.le_refl _⟩
      · exact ⟨rfl, Nat.le_refl _⟩
    · exact absurd hstep (by simp)

/-! ### What every run keeps -/

/-- The event kills the node. -/
def Event.Kills : Event → Prop
  | .stop => True
  | .clear => True
  | .ret b => b = false
  | _ => False

namespace View

theorem of_changeFound {v : View} {f : TimerNode → TimerNode} {node' : TimerNode}
    (h : (v.changeFound f).node = some node') :
    ∃ node, v.node = some node ∧ (node' = node ∨ node' = f node) := by
  rw [changeFound] at h
  split_ifs at h
  · obtain ⟨node, hnode, rfl⟩ := Option.map_eq_some_iff.mp h
    exact ⟨node, hnode, .inr rfl⟩
  · exact ⟨node', h, .inl rfl⟩

theorem of_timeout {v : View} {node node' : TimerNode} (hnode : v.node = some node)
    (h : (v.timeout node).node = some node') :
    node'.loop = node.loop ∧ node'.alive = node.alive := by
  rw [timeout] at h
  simp only [change, hnode, Option.map_some] at h
  split_ifs at h <;> obtain rfl := Option.some.inj h <;> simp

/-- A node is new, or it was there and loops as before; and a node that dies is killed. -/
theorem node_next {e : Event} {node' : TimerNode} (h : (v.next e).node = some node') :
    e = .start node' ∨ ∃ node, v.node = some node ∧ node'.loop = node.loop
      ∧ (node'.alive = node.alive ∨ node'.alive = false ∧ e.Kills) := by
  cases e with
  | start node => exact .inl (congrArg Event.start (Option.some.inj h))
  | other => exact .inr ⟨node', h, rfl, .inl rfl⟩
  | restart interval =>
    obtain ⟨node, hnode, rfl | rfl⟩ := of_changeFound h
    · exact .inr ⟨node', hnode, rfl, .inl rfl⟩
    · exact .inr ⟨node, hnode, rfl, .inl rfl⟩
  | stop =>
    obtain ⟨node, hnode, rfl | rfl⟩ := of_changeFound h
    · exact .inr ⟨node', hnode, rfl, .inl rfl⟩
    · exact .inr ⟨node, hnode, rfl, .inr ⟨rfl, trivial⟩⟩
  | reset interval =>
    obtain ⟨node, hnode, rfl | rfl⟩ := of_changeFound h
    · exact .inr ⟨node', hnode, rfl, .inl rfl⟩
    · exact .inr ⟨node, hnode, rfl, .inl rfl⟩
  | clear =>
    obtain ⟨node, hnode, rfl | rfl⟩ := of_changeFound h
    · exact .inr ⟨node', hnode, rfl, .inl rfl⟩
    · exact .inr ⟨node, hnode, rfl, .inr ⟨rfl, trivial⟩⟩
  | expire =>
    obtain ⟨node, hnode, rfl⟩ := Option.map_eq_some_iff.mp h
    exact .inr ⟨node, hnode, rfl, .inl rfl⟩
  | complete =>
    cases hnode : v.node with
    | none =>
      rw [next, hnode] at h
      exact absurd (hnode.symm.trans h) (by simp)
    | some node =>
      rw [next, hnode] at h
      obtain ⟨hloop, halive⟩ := of_timeout hnode h
      exact .inr ⟨node, rfl, hloop, .inl halive⟩
  | ret ret =>
    rw [next, returned] at h
    split_ifs at h with hret
    · obtain ⟨node, hnode, rfl⟩ := Option.map_eq_some_iff.mp h
      exact .inr ⟨node, hnode, node.rearm_loop, .inl node.rearm_alive⟩
    · obtain ⟨node, hnode, rfl⟩ := Option.map_eq_some_iff.mp h
      exact .inr ⟨node, hnode, rfl, .inr ⟨rfl, Bool.eq_false_iff.mpr hret⟩⟩

end View

namespace View

theorem node_next_ne_none {v : View} {node : TimerNode} (h : v.node = some node) (e : Event) :
    (v.next e).node ≠ none := by
  cases e with
  | complete =>
    rw [next, h, Option.elim_some, timeout]
    split_ifs <;> simp [change, h]
  | ret ret => cases ret <;> simp [next, returned, change, h]
  | restart interval => cases hreg : v.registered <;> simp [next, changeFound, change, h, hreg]
  | stop => cases hreg : v.registered <;> simp [next, changeFound, change, h, hreg]
  | reset interval => cases hreg : v.registered <;> simp [next, changeFound, change, h, hreg]
  | clear => cases hreg : v.registered <;> simp [next, changeFound, change, h, hreg]
  | _ => simp [next, change, h]

/-- A timer that was never started has no node, no entry and no call. -/
def Blank (v : View) : Prop := v.node = none ∧ v.registered = false ∧ v.fired = 0

theorem Blank.next {v : View} (h : v.Blank) {e : Event} (he : ∀ node, e ≠ .start node) :
    (v.next e).Blank := by
  obtain ⟨hnode, hreg, hfired⟩ := h
  cases e with
  | start node => exact absurd rfl (he node)
  | complete =>
    rw [View.next, hnode]
    exact ⟨hnode, hreg, hfired⟩
  | ret ret => cases ret <;> simp [Blank, View.next, returned, change, hnode, hreg, hfired]
  | _ => simp [Blank, View.next, changeFound, change, hnode, hreg, hfired]

end View

theorem entry_of_kills (hstep : system.step t a = some t') (hkills : (t.event id a).Kills) :
    ∃ x, t'.log = t.log ++ [x]
      ∧ (x = .stopped id ∨ x = .cleared ∨ x = .returned id false ∧ t.running.head? = some id) := by
  rw [(history_step hstep).1]
  have hmeans := means_event t id a
  generalize t.event id a = e at hkills hmeans
  cases hmeans with
  | stop => exact ⟨.stopped id, rfl, .inl rfl⟩
  | clear => exact ⟨.cleared, rfl, .inr (.inl rfl)⟩
  | ret ret hrunning =>
    obtain rfl : ret = false := hkills
    rw [entries, hrunning]
    exact ⟨.returned id false, rfl, .inr (.inr ⟨rfl, rfl⟩)⟩
  | _ => exact hkills.elim

theorem over_of_kills (hstep : system.step t a = some t') (hkills : (t.event id a).Kills)
    (hstarted : .started id ∈ t.log) : Over id t'.log := by
  obtain ⟨x, hlog, hx⟩ := entry_of_kills hstep hkills
  exact ⟨t.log, x, [], hlog, hstarted, hx.imp_right (.imp_right And.left)⟩

theorem queued_of_complete (hstep : system.step t a = some t') (he : t.event id a = .complete) :
    ∀ node ∈ t.nodes id, 0 < node.queued := by
  intro node hnode
  have hmeans := means_event t id a
  rw [he] at hmeans
  cases hmeans with
  | complete =>
    simp only [system, step, Option.mem_def.mp hnode] at hstep
    exact (Option.ite_none_right_eq_some.mp hstep).1

/-- Ids are fresh, a node was started, and a dead one is over. -/
structure Known (t : Timer) : Prop where
  fresh : ∀ id, t.timerIndex ≤ id → t.nodes id = none
  blank : ∀ id, t.nodes id = none → (t.view id).Blank
  started : ∀ id node, t.nodes id = some node → .started id ∈ t.log
  dead : ∀ id node, t.nodes id = some node → node.alive = false → Over id t.log

theorem event_eq_start {node : TimerNode} (h : t.event id a = .start node) :
    id = t.timerIndex ∧ ∃ handler interval bLoop, a = .startTimer handler interval bLoop
      ∧ node = newNode handler interval bLoop := by
  have hmeans := means_event t id a
  rw [h] at hmeans
  cases hmeans with
  | start handler interval bLoop => exact ⟨rfl, handler, interval, bLoop, rfl, rfl⟩

theorem over_append_of_over {log : List TimerEntry} (h : Over id log) (more : List TimerEntry) :
    Over id (log ++ more) := by
  obtain ⟨before, x, after, rfl, hstarted, hends⟩ := h
  exact ⟨before, x, after ++ more, by simp, hstarted, hends⟩

theorem Known.step (h : Known t) (hstep : system.step t a = some t') : Known t' where
  fresh id hid := by
    have hnone : t.nodes id = none := h.fresh id (Nat.le_trans (history_step hstep).2 hid)
    have hblank : ((t.view id).next (t.event id a)).Blank := by
      refine (h.blank id hnone).next fun node hstart ↦ ?_
      obtain ⟨rfl, handler, interval, bLoop, rfl, -⟩ := event_eq_start hstart
      obtain rfl := Option.some.inj hstep
      exact absurd hid (Nat.not_succ_le_self _)
    exact (congrArg View.node (view_step hstep id)).trans hblank.1
  blank id hnone := by
    rw [view_step hstep]
    cases hbefore : t.nodes id with
    | none =>
      refine (h.blank id hbefore).next fun node hstart ↦ ?_
      obtain ⟨rfl, handler, interval, bLoop, rfl, -⟩ := event_eq_start hstart
      obtain rfl := Option.some.inj hstep
      exact absurd hnone (by simp [startTimer])
    | some node =>
      exact absurd ((congrArg View.node (view_step hstep id)).symm.trans hnone)
        (View.node_next_ne_none hbefore _)
  started id node hnode := by
    rw [(history_step hstep).1, List.mem_append]
    have hview := (congrArg View.node (view_step hstep id)).symm.trans hnode
    rcases View.node_next hview with hstart | ⟨node, hbefore, -, -⟩
    · obtain ⟨rfl, handler, interval, bLoop, rfl, -⟩ := event_eq_start hstart
      exact .inr (List.mem_singleton.mpr rfl)
    · exact .inl (h.started id node hbefore)
  dead id node hnode halive := by
    have hview := (congrArg View.node (view_step hstep id)).symm.trans hnode
    rcases View.node_next hview with hstart | ⟨node, hbefore, -, hsame | ⟨-, hkills⟩⟩
    · obtain ⟨-, handler, interval, bLoop, -, rfl⟩ := event_eq_start hstart
      exact absurd halive (by simp [newNode])
    · rw [(history_step hstep).1]
      exact over_append_of_over (h.dead id node hbefore (hsame.symm.trans halive)) _
    · exact over_of_kills hstep hkills (h.started id node hbefore)

theorem known_fresh (timerIndex : ℕ) : Known (fresh timerIndex) :=
  ⟨fun _ _ ↦ rfl, fun _ _ ↦ ⟨rfl, rfl, rfl⟩, fun _ _ hnode ↦ absurd hnode (by simp [fresh]),
    fun _ _ hnode ↦ absurd hnode (by simp [fresh])⟩

end Timer

end Knet.Utils
