import Knet.Utils.TimerView

/-!
# The registry of the timers

An entry leaves the map when a completion finds its node dead, when the handler returns `false`, and
with `clear`. `stop_timer` kills the node and cancels its waits, but a cancelled wait completes with
an error, and its completion does not come to `handle_timeout`; nothing takes out a one-shot timer
that has fired. So the map holds what can still fire, and nothing else, as long as these two do not
happen (`registry_exact`).
-/

namespace Knet.Utils

namespace Timer

open TimerEntry (Over)

variable {t t' : Timer} {a : Action} {id : ℕ}

/-! ## What is in the map -/

/-- The timer can still call its handler: it was started and is not over, and it loops or has not
fired. -/
def CanFire (t : Timer) (id : ℕ) : Prop :=
  ∃ node, t.nodes id = some node ∧ ¬Over id t.log ∧ (node.loop = true ∨ .invoked id ∉ t.log)

/-- No completion is queued. -/
def Idle (t : Timer) : Prop := ∀ id node, t.nodes id = some node → node.queued = 0

/-- The map holds the timers that can still call their handlers. A timer whose handler is running
may go either way. -/
def Exact (t : Timer) : Prop := ∀ id, id ∉ t.running → (t.timerNodes id = true ↔ t.CanFire id)

namespace View

/-- What is found in the map can fire, or its handler is running, or a queued completion will take
it out. -/
def Settled (v : View) : Prop :=
  v.registered = true → ∀ node ∈ v.node,
    (node.alive = true ∧ (node.loop = true ∨ v.fired = 0)) ∨ 0 < v.depth
      ∨ (node.alive = false ∧ 0 < node.queued)

/-- A stopped timer leaves the map when its handler returns or with a completion that is queued, and
a handler that returns `true` is one of a timer that goes on, or will leave so. -/
def Leaves (v : View) : Event → Prop
  | .stop => v.registered = true → ∀ node ∈ v.node, 0 < v.depth ∨ 0 < node.queued
  | .ret true => v.registered = true → ∀ node ∈ v.node,
      1 < v.depth ∨ (node.alive = true ∧ node.loop = true) ∨ (node.alive = false ∧ 0 < node.queued)
  | _ => True

instance decidableLeaves (v : View) : ∀ e, Decidable (v.Leaves e)
  | .stop => inferInstanceAs (Decidable (v.registered = true → ∀ node ∈ v.node,
      0 < v.depth ∨ 0 < node.queued))
  | .ret true => inferInstanceAs (Decidable (v.registered = true → ∀ node ∈ v.node,
      1 < v.depth ∨ (node.alive = true ∧ node.loop = true)
        ∨ (node.alive = false ∧ 0 < node.queued)))
  | .ret false => isTrue trivial
  | .other => isTrue trivial
  | .start _ => isTrue trivial
  | .restart _ => isTrue trivial
  | .reset _ => isTrue trivial
  | .clear => isTrue trivial
  | .expire => isTrue trivial
  | .complete => isTrue trivial

theorem settled_changeFound {v : View} (h : v.Settled) {f : TimerNode → TimerNode}
    (hf : ∀ n, (f n).alive = n.alive ∧ (f n).loop = n.loop ∧ n.queued ≤ (f n).queued) :
    (v.changeFound f).Settled := by
  rw [changeFound]
  split_ifs with hreg
  · rintro - node' hnode'
    obtain ⟨node, hnode, rfl⟩ := Option.map_eq_some_iff.mp hnode'
    obtain ⟨halive, hloop, hqueued⟩ := hf node
    rw [halive, hloop]
    rcases h hreg node hnode with hfire | hdepth | ⟨hdead, hpos⟩
    · exact .inl hfire
    · exact .inr (.inl hdepth)
    · exact .inr (.inr ⟨hdead, Nat.lt_of_lt_of_le hpos hqueued⟩)
  · exact h

theorem settled_timeout {v : View} (h : v.Settled) {node : TimerNode} (hnode : v.node = some node) :
    (v.timeout node).Settled := by
  rw [timeout]
  split_ifs with halive hhandler hskip
  -- a skipped call, and no handler: a node that is alive stays as it was
  · rintro hreg node' hnode'
    rw [change, change, hnode] at hnode'
    obtain rfl := Option.some.inj hnode'
    rcases h hreg node hnode with hfire | hdepth | ⟨hdead, -⟩
    · exact .inl (by simpa [change] using hfire)
    · exact .inr (.inl hdepth)
    · exact absurd (halive.symm.trans hdead) (by decide)
  -- the handler is called
  · exact fun _ _ _ ↦ .inr (.inl (Nat.succ_pos _))
  · rintro hreg node' hnode'
    rw [change, change, hnode] at hnode'
    obtain rfl := Option.some.inj hnode'
    rcases h hreg node hnode with hfire | hdepth | ⟨hdead, -⟩
    · exact .inl (by simpa [change] using hfire)
    · exact .inr (.inl hdepth)
    · exact absurd (halive.symm.trans hdead) (by decide)
  -- a dead node leaves
  · exact fun hreg ↦ absurd hreg Bool.false_ne_true

theorem settled_returned {v : View} {ret : Bool} (he : v.Leaves (.ret ret)) :
    (v.returned ret).Settled := by
  rw [returned]
  split_ifs with hret
  · subst hret
    rintro hreg node' hnode'
    obtain ⟨node, hnode, rfl⟩ := Option.map_eq_some_iff.mp hnode'
    rw [node.rearm_alive, node.rearm_loop, node.rearm_queued]
    rcases he hreg node hnode with hdepth | ⟨halive, hloop⟩ | hdead
    · exact .inr (.inl (Nat.sub_pos_of_lt hdepth))
    · exact .inl ⟨halive, .inl hloop⟩
    · exact .inr (.inr hdead)
  · exact fun hreg ↦ absurd hreg Bool.false_ne_true

/-- **What happens to one timer keeps it settled.** -/
theorem Settled.next {v : View} (h : v.Settled) {e : Event} (he : v.Leaves e)
    (hstart : ∀ node, e = .start node → node.alive = true ∧ v.fired = 0) : (v.next e).Settled := by
  cases e with
  | other => exact h
  | start node =>
    obtain ⟨halive, hfired⟩ := hstart node rfl
    rintro - node' hnode'
    obtain rfl := Option.some.inj hnode'
    exact .inl ⟨halive, .inr hfired⟩
  | restart interval => exact settled_changeFound h fun n ↦ ⟨rfl, rfl, Nat.le_refl _⟩
  | stop =>
    rw [View.next, changeFound]
    split_ifs with hreg
    · rintro - node' hnode'
      obtain ⟨node, hnode, rfl⟩ := Option.map_eq_some_iff.mp hnode'
      rcases he hreg node hnode with hdepth | hqueued
      · exact .inr (.inl hdepth)
      · exact .inr (.inr ⟨rfl, hqueued⟩)
    · exact fun hreg' ↦ absurd hreg' hreg
  | reset interval => exact settled_changeFound h fun n ↦ ⟨rfl, rfl, Nat.le_refl _⟩
  | clear => exact fun hreg ↦ absurd hreg Bool.false_ne_true
  | expire =>
    rintro hreg node' hnode'
    obtain ⟨node, hnode, rfl⟩ := Option.map_eq_some_iff.mp hnode'
    rcases h hreg node hnode with hfire | hdepth | ⟨hdead, hpos⟩
    · exact .inl hfire
    · exact .inr (.inl hdepth)
    · exact .inr (.inr ⟨hdead, Nat.lt_of_lt_of_le hpos (Nat.le_add_right _ _)⟩)
  | complete =>
    cases hnode : v.node with
    | none =>
      rw [View.next, hnode]
      exact h
    | some node =>
      rw [View.next, hnode]
      exact settled_timeout h hnode
  | ret ret => exact settled_returned he

end View

/-- The condition on a step: `stop_timer` finds a completion of the timer in the queue, or its
handler running; and a handler that returns `true` belongs to a timer that is alive and loops, or
was stopped while a completion of it is queued, or is running in another call still. -/
def Leaves (t : Timer) : Action → Prop
  | .stopTimer timerId => (t.view timerId).Leaves .stop
  | .handlerReturn ret => ∀ id ∈ t.running.head?, (t.view id).Leaves (.ret ret)
  | _ => True

instance decidableLeaves (t : Timer) : ∀ a, Decidable (t.Leaves a)
  | .stopTimer timerId => inferInstanceAs (Decidable ((t.view timerId).Leaves .stop))
  | .handlerReturn ret =>
    inferInstanceAs (Decidable (∀ id ∈ t.running.head?, (t.view id).Leaves (.ret ret)))
  | .startTimer .. => isTrue trivial
  | .otherStart => isTrue trivial
  | .restartTimer .. => isTrue trivial
  | .resetInterval .. => isTrue trivial
  | .clear => isTrue trivial
  | .expire _ => isTrue trivial
  | .complete _ => isTrue trivial

theorem Leaves.event (h : t.Leaves a) (id : ℕ) : (t.view id).Leaves (t.event id a) := by
  have hmeans := means_event t id a
  generalize t.event id a = e at hmeans
  cases hmeans with
  | stop => exact h
  | ret ret hrunning => exact h id hrunning
  | _ => trivial

/-- What a run whose steps meet the condition keeps. -/
structure RegistryInv (t : Timer) : Prop where
  inv : Inv t
  known : Known t
  settled : ∀ id, (t.view id).Settled

theorem RegistryInv.step (h : RegistryInv t) (hstep : system.step t a = some t')
    (hleaves : t.Leaves a) : RegistryInv t' where
  inv := h.inv.step hstep
  known := h.known.step hstep
  settled id := by
    rw [view_step hstep]
    refine (h.settled id).next (hleaves.event id) fun node hstart ↦ ?_
    obtain ⟨rfl, handler, interval, bLoop, -, rfl⟩ := event_eq_start hstart
    exact ⟨rfl, (h.known.blank _ (h.known.fresh _ (Nat.le_refl _))).2.2⟩

/-- In an idle state, what is in the map can fire, and the other way round. -/
theorem RegistryInv.exact (h : RegistryInv t) (hidle : t.Idle) : t.Exact := by
  intro id hrunning
  constructor
  · intro hreg
    cases hnode : t.nodes id with
    | none => exact absurd hreg (Bool.eq_false_iff.mp (h.known.blank id hnode).2.1)
    | some node =>
      rcases h.settled id hreg node hnode with ⟨halive, hfire⟩ | hdepth | ⟨-, hqueued⟩
      · refine ⟨node, hnode, fun hover ↦ ?_, ?_⟩
        · exact absurd ((h.inv.ended id node hover hnode).symm.trans halive) (by decide)
        · exact hfire.imp_right List.count_eq_zero.mp
      · exact absurd (List.count_pos_iff.mp hdepth) hrunning
      · exact absurd (hidle id node hnode) (Nat.ne_of_gt hqueued)
  · rintro ⟨node, hnode, hover, -⟩
    refine h.inv.mapped id node hnode ?_
    by_contra halive
    exact hover (h.known.dead id node hnode (Bool.eq_false_iff.mpr halive))

/-- **The registry holds the timers that can fire, and no others.** In every run whose steps meet
the condition, in every state in which no completion is queued. -/
theorem registry_exact (timerIndex : ℕ) (as : List Action)
    (halong : system.Along Leaves (fresh timerIndex) as) :
    system.Throughout (fun t ↦ t.Idle → t.Exact) (fresh timerIndex) as := by
  have hfirst : RegistryInv (fresh timerIndex) :=
    ⟨inv_fresh timerIndex, known_fresh timerIndex, fun _ hreg ↦ absurd hreg Bool.false_ne_true⟩
  exact StepSystem.throughout_of_invariant hfirst (fun t a t' h hstep hc ↦ h.step hstep hc)
    (fun t h ↦ h.exact) halong

/-- A loop is stopped while its completion is queued; a one-shot timer ends with `false`. -/
theorem registry_exact_two_timers :
    system.Throughout (fun t ↦ t.Idle → t.Exact) (fresh 1)
      [.startTimer true 10 true, .startTimer true 10 false, .expire 1, .stopTimer 1, .complete 1,
        .expire 2, .complete 2, .handlerReturn false] :=
  registry_exact 1 _ (by decide)

/-- A timer that is stopped before it expires stays in the map, and so does a one-shot timer that
has fired. -/
theorem left_behind :
    ¬system.Throughout (fun t ↦ t.Idle → t.Exact) (fresh 1)
        [.startTimer true 10 true, .stopTimer 1]
      ∧ ¬system.Throughout (fun t ↦ t.Idle → t.Exact) (fresh 1)
        [.startTimer true 10 false, .expire 1, .complete 1, .handlerReturn true] := by
  constructor
  · intro h
    have hidle : Idle (((fresh 1).startTimer true 10 true).stopTimer 1) := by
      intro id node hnode
      by_cases hid : id = 1
      · subst hid
        obtain rfl := Option.some.inj hnode
        rfl
      · exact absurd hnode (by
          simp [stopTimer, modifyFound, modify, startTimer, record, fresh, hid])
    obtain ⟨node, -, hover, -⟩ := (h.last rfl hidle 1 (by decide)).mp rfl
    exact hover ⟨[.started 1], .stopped 1, [], rfl, by simp, .inl rfl⟩
  · intro h
    have hidle : ∀ t, system.run (fresh 1) [.startTimer true 10 false, .expire 1, .complete 1,
        .handlerReturn true] = some t → Idle t := by
      rintro t hrun id node hnode
      obtain rfl := Option.some.inj hrun
      by_cases hid : id = 1
      · subst hid
        obtain rfl := Option.some.inj hnode
        rfl
      · exact absurd hnode (by simp [handlerReturned, rearm, handleTimeout, modify, startTimer,
          record, fresh, hid, TimerNode.arm, TimerNode.cancel])
    obtain ⟨node, hnode, -, hfire⟩ := (h.last rfl (hidle _ rfl) 1 (by decide)).mp rfl
    obtain rfl := Option.some.inj hnode
    rcases hfire with hloop | hfired
    · exact absurd hloop (by decide)
    · exact hfired (by decide)

end Timer

end Knet.Utils
