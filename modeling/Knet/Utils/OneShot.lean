import Knet.Utils.TimerView

/-!
# One-shot timers

A timer that was started without a loop has one wait, and its handler is called when that wait has
completed. But `restart_timer` only sets a flag for the next completion to consume, which is armed
again only for a loop, so that the handler is never called; and `reset_interval` arms the timer
whatever has happened, so that it is called twice. `once_along`: in a run in which neither is done
at the wrong time, every one-shot timer has a wait until its handler is called, and that happens
once.
-/

namespace Knet.Utils

namespace Timer

variable {t t' : Timer} {a : Action} {id : ℕ}

/-- The timer was started, and has been stopped or cleared since. -/
def Recalled (id : ℕ) (log : List TimerEntry) : Prop :=
  ∃ before x after, log = before ++ x :: after ∧ .started id ∈ before
    ∧ (x = .stopped id ∨ x = .cleared)

theorem Recalled.append {log : List TimerEntry} (h : Recalled id log) (more : List TimerEntry) :
    Recalled id (log ++ more) := by
  obtain ⟨before, x, after, rfl, hstarted, hx⟩ := h
  exact ⟨before, x, after ++ more, by simp, hstarted, hx⟩

/-- A one-shot timer that was not recalled has a wait, or a completion in the queue, until its
handler is called; and it is called once at most. -/
def RunsOnce (t : Timer) : Prop :=
  ∀ id node, t.nodes id = some node → node.loop = false → ¬Recalled id t.log →
    (.invoked id ∈ t.log ∨ 0 < node.waits + node.queued) ∧ t.log.count (.invoked id) ≤ 1

namespace View

/-- The stages of a one-shot timer: waiting, fired, dead. -/
structure Staged (v : View) : Prop where
  depth : v.depth ≤ v.fired
  stage : ∀ node ∈ v.node, node.loop = false →
    (node.alive = true ∧ v.fired = 0 ∧ node.waits + node.queued = 1)
      ∨ (node.alive = true ∧ v.fired = 1 ∧ node.waits + node.queued = 0)
      ∨ (node.alive = false ∧ v.fired ≤ 1)

/-- A completion of a one-shot timer finds a handler and no restart, and `reset_interval` comes
before the handler is called, while no completion is queued. -/
def Plain (v : View) : Event → Prop
  | .complete => ∀ node ∈ v.node, node.alive = true → node.loop = false → v.fired = 0 →
      node.handler = true ∧ node.skip = false
  | .reset _ => v.registered = true → ∀ node ∈ v.node, node.alive = true → node.loop = false →
      v.fired = 0 ∧ node.queued = 0
  | _ => True

instance decidablePlain (v : View) : ∀ e, Decidable (v.Plain e)
  | .complete => inferInstanceAs (Decidable (∀ node ∈ v.node, node.alive = true →
      node.loop = false → v.fired = 0 → node.handler = true ∧ node.skip = false))
  | .reset _ => inferInstanceAs (Decidable (v.registered = true → ∀ node ∈ v.node,
      node.alive = true → node.loop = false → v.fired = 0 ∧ node.queued = 0))
  | .other => isTrue trivial
  | .start _ => isTrue trivial
  | .restart _ => isTrue trivial
  | .stop => isTrue trivial
  | .clear => isTrue trivial
  | .expire => isTrue trivial
  | .ret _ => isTrue trivial

variable {v : View}

theorem Staged.of_alive (h : v.Staged) {node : TimerNode} (hnode : v.node = some node)
    (hloop : node.loop = false) (halive : node.alive = true) :
    v.fired = 0 ∧ node.waits + node.queued = 1 ∨ v.fired = 1 ∧ node.waits + node.queued = 0 := by
  rcases h.stage node hnode hloop with ⟨-, hwaiting⟩ | ⟨-, hfired⟩ | ⟨hdead, -⟩
  · exact .inl hwaiting
  · exact .inr hfired
  · exact absurd (halive.symm.trans hdead) (by decide)

theorem Staged.fired_le (h : v.Staged) {node : TimerNode} (hnode : v.node = some node)
    (hloop : node.loop = false) : v.fired ≤ 1 := by
  have hstage := h.stage node hnode hloop
  omega

theorem Staged.changeFound (h : v.Staged) {f : TimerNode → TimerNode}
    (hf : ∀ node ∈ v.node, v.registered = true → (f node).loop = node.loop
      ∧ (node.loop = false → (f node).alive = false ∨ (f node).alive = node.alive
        ∧ (f node).waits + (f node).queued = node.waits + node.queued)) :
    (v.changeFound f).Staged := by
  rw [View.changeFound]
  split_ifs with hreg
  · refine ⟨h.depth, ?_⟩
    rintro node' hnode' hloop'
    obtain ⟨node, hnode, rfl⟩ := Option.map_eq_some_iff.mp hnode'
    obtain ⟨hsame, hf⟩ := hf node hnode hreg
    have hloop := hsame.symm.trans hloop'
    have hstage := h.stage node hnode hloop
    rcases hf hloop with hdead | ⟨halive, hsum⟩
    · exact .inr (.inr ⟨hdead, h.fired_le hnode hloop⟩)
    · rw [halive, hsum]
      exact hstage
  · exact h

theorem Staged.timeout (h : v.Staged) {node : TimerNode} (hnode : v.node = some node)
    (hqueued : 0 < node.queued) (hplain : v.Plain .complete) : (v.timeout node).Staged := by
  -- a completion in the queue is the one wait of a one-shot timer
  have hwaiting : node.alive = true → node.loop = false →
      v.fired = 0 ∧ node.waits + node.queued = 1 ∧ node.handler = true ∧ node.skip = false := by
    intro halive hloop
    rcases h.of_alive hnode hloop halive with ⟨hfired, hsum⟩ | ⟨-, hsum⟩
    · exact ⟨hfired, hsum, hplain node hnode halive hloop hfired⟩
    · omega
  rw [View.timeout]
  simp only [change, hnode, Option.map_some]
  split_ifs with halive hhandler hskip
  · refine ⟨h.depth, ?_⟩
    rintro _ ⟨⟩ hloop
    rw [TimerNode.rearm_loop] at hloop
    exact absurd (hskip.symm.trans (hwaiting halive hloop).2.2.2) (by decide)
  · refine ⟨Nat.succ_le_succ h.depth, ?_⟩
    rintro _ ⟨⟩ hloop
    obtain ⟨hfired, hsum, -⟩ := hwaiting halive hloop
    refine .inr (.inl ⟨halive, congrArg Nat.succ hfired, ?_⟩)
    show node.waits + (node.queued - 1) = 0
    omega
  · refine ⟨h.depth, ?_⟩
    rintro _ ⟨⟩ hloop
    rw [TimerNode.rearm_loop] at hloop
    exact absurd (hwaiting halive hloop).2.2.1 hhandler
  · refine ⟨h.depth, ?_⟩
    rintro _ ⟨⟩ hloop
    exact .inr (.inr ⟨Bool.eq_false_iff.mpr halive, h.fired_le hnode hloop⟩)

theorem Staged.returned (h : v.Staged) (ret : Bool) : (v.returned ret).Staged := by
  have hdepth : v.depth - 1 ≤ v.fired := Nat.le_trans (Nat.sub_le _ _) h.depth
  rw [View.returned]
  split_ifs
  · refine ⟨hdepth, ?_⟩
    rintro node' hnode' hloop
    obtain ⟨node, hnode, rfl⟩ := Option.map_eq_some_iff.mp hnode'
    rw [TimerNode.rearm_loop] at hloop
    -- nothing is armed again
    have hsame : node.rearm = node := if_neg (by rw [hloop]; decide)
    rw [hsame]
    exact h.stage node hnode hloop
  · refine ⟨hdepth, ?_⟩
    rintro node' hnode' hloop
    obtain ⟨node, hnode, rfl⟩ := Option.map_eq_some_iff.mp hnode'
    exact .inr (.inr ⟨rfl, h.fired_le hnode hloop⟩)

/-- **What happens to a one-shot timer keeps it in its stages.** -/
theorem Staged.next (h : v.Staged) {e : Event} (hplain : v.Plain e)
    (hqueued : e = .complete → ∀ node ∈ v.node, 0 < node.queued)
    (hstart : ∀ node, e = .start node → v.fired = 0 ∧ node.alive = true ∧ node.waits = 1
      ∧ node.queued = 0) : (v.next e).Staged := by
  cases e with
  | other => exact h
  | start node =>
    obtain ⟨hfired, halive, hwaits, hzero⟩ := hstart node rfl
    refine ⟨h.depth, ?_⟩
    rintro node' hnode' -
    obtain rfl := Option.some.inj hnode'
    exact .inl ⟨halive, hfired, by rw [hwaits, hzero]⟩
  | restart interval => exact h.changeFound fun n _ _ ↦ ⟨rfl, fun _ ↦ .inr ⟨rfl, rfl⟩⟩
  | stop => exact h.changeFound fun n _ _ ↦ ⟨rfl, fun _ ↦ .inl rfl⟩
  | reset interval =>
    refine h.changeFound fun n hn hreg ↦ ⟨rfl, fun hloop ↦ ?_⟩
    cases halive : n.alive with
    | false => exact .inl halive
    | true =>
      obtain ⟨hfired, hzero⟩ := hplain hreg n hn halive hloop
      have hstage := h.of_alive hn hloop halive
      refine .inr ⟨halive, ?_⟩
      show 1 + n.queued = n.waits + n.queued
      omega
  | clear =>
    have hkill : (v.changeFound TimerNode.kill).Staged :=
      h.changeFound fun n _ _ ↦ ⟨rfl, fun _ ↦ .inl rfl⟩
    exact ⟨hkill.depth, hkill.stage⟩
  | expire =>
    refine ⟨h.depth, ?_⟩
    rintro node' hnode' hloop
    obtain ⟨node, hnode, rfl⟩ := Option.map_eq_some_iff.mp hnode'
    have hstage := h.stage node hnode hloop
    show _ ∧ _ ∧ 0 + (node.queued + node.waits) = 1 ∨ _ ∧ _ ∧ 0 + (node.queued + node.waits) = 0 ∨ _
    rwa [Nat.zero_add, Nat.add_comm node.queued]
  | complete =>
    cases hnode : v.node with
    | none =>
      rw [View.next, hnode]
      exact h
    | some node =>
      rw [View.next, hnode]
      exact h.timeout hnode (hqueued rfl node hnode) hplain
  | ret ret => exact h.returned ret

theorem fired_le_next (v : View) (e : Event) : v.fired ≤ (v.next e).fired := by
  cases e with
  | complete =>
    cases hnode : v.node with
    | none =>
      rw [View.next, hnode]
      exact Nat.le_refl _
    | some node =>
      rw [View.next, hnode, Option.elim_some, View.timeout]
      split_ifs
      · exact Nat.le_refl _
      · exact Nat.le_succ _
      · exact Nat.le_refl _
      · exact Nat.le_refl _
  | ret ret => cases ret <;> exact Nat.le_refl _
  | restart interval => cases hreg : v.registered <;> simp [next, View.changeFound, change, hreg]
  | stop => cases hreg : v.registered <;> simp [next, View.changeFound, change, hreg]
  | reset interval => cases hreg : v.registered <;> simp [next, View.changeFound, change, hreg]
  | clear => cases hreg : v.registered <;> simp [next, View.changeFound, change, hreg]
  | _ => exact Nat.le_refl _

end View

/-! ## In a run -/

/-- The condition on a step: a completion of a one-shot timer that has not fired finds a handler,
and `skip` not set; and `reset_interval` of one comes before its handler is called, while no
completion of it is queued. -/
def Plain (t : Timer) : Action → Prop
  | .complete id => (t.view id).Plain .complete
  | .resetInterval timerId interval => (t.view timerId).Plain (.reset interval)
  | _ => True

instance decidablePlain (t : Timer) : ∀ a, Decidable (t.Plain a)
  | .complete id => inferInstanceAs (Decidable ((t.view id).Plain .complete))
  | .resetInterval timerId interval =>
    inferInstanceAs (Decidable ((t.view timerId).Plain (.reset interval)))
  | .startTimer .. => isTrue trivial
  | .otherStart => isTrue trivial
  | .restartTimer .. => isTrue trivial
  | .stopTimer _ => isTrue trivial
  | .clear => isTrue trivial
  | .expire _ => isTrue trivial
  | .handlerReturn _ => isTrue trivial

theorem Plain.event (h : t.Plain a) (id : ℕ) : (t.view id).Plain (t.event id a) := by
  have hmeans := means_event t id a
  generalize t.event id a = e at hmeans
  cases hmeans with
  | complete => exact h
  | reset => exact h
  | _ => trivial

/-- What a run whose steps meet the condition keeps. -/
structure OnceInv (t : Timer) : Prop where
  known : Known t
  staged : ∀ id, (t.view id).Staged
  /-- A dead node that has not fired was recalled. -/
  recalled : ∀ id node, t.nodes id = some node → node.alive = false → (t.view id).fired = 0 →
    Recalled id t.log

theorem OnceInv.step (h : OnceInv t) (hstep : system.step t a = some t') (hplain : t.Plain a) :
    OnceInv t' where
  known := h.known.step hstep
  staged id := by
    rw [view_step hstep]
    refine (h.staged id).next (hplain.event id) (fun he ↦ queued_of_complete hstep he) ?_
    intro node hstart
    obtain ⟨rfl, handler, interval, bLoop, -, rfl⟩ := event_eq_start hstart
    exact ⟨(h.known.blank _ (h.known.fresh _ (Nat.le_refl _))).2.2, rfl, rfl, rfl⟩
  recalled id node hnode hdead hfired := by
    rw [view_step hstep] at hfired
    have hbefore : (t.view id).fired = 0 :=
      Nat.le_zero.mp (hfired ▸ (t.view id).fired_le_next (t.event id a))
    have hview := (congrArg View.node (view_step hstep id)).symm.trans hnode
    rcases View.node_next hview with hstart | ⟨node, hnode, -, hsame | ⟨-, hkills⟩⟩
    · obtain ⟨-, handler, interval, bLoop, -, rfl⟩ := event_eq_start hstart
      exact absurd hdead (by simp [newNode])
    · rw [(history_step hstep).1]
      exact (h.recalled id node hnode (hsame.symm.trans hdead) hbefore).append _
    · obtain ⟨x, hlog, hx⟩ := entry_of_kills hstep hkills
      rcases hx with hx | hx | ⟨-, hrunning⟩
      · exact ⟨t.log, x, [], hlog, h.known.started id node hnode, .inl hx⟩
      · exact ⟨t.log, x, [], hlog, h.known.started id node hnode, .inr hx⟩
      -- a handler that returns was called
      · have hpos : 0 < (t.view id).depth :=
          List.count_pos_iff.mpr (List.mem_of_mem_head? hrunning)
        have hdepth := (h.staged id).depth
        omega

theorem OnceInv.runsOnce (h : OnceInv t) : t.RunsOnce := by
  intro id node hnode hloop hrecalled
  refine ⟨?_, (h.staged id).fired_le hnode hloop⟩
  by_cases hfired : (t.view id).fired = 0
  · cases halive : node.alive with
    | false => exact absurd (h.recalled id node hnode halive hfired) hrecalled
    | true =>
      have hstage := (h.staged id).of_alive hnode hloop halive
      exact .inr (by omega)
  · exact .inl (List.count_pos_iff.mp (Nat.pos_of_ne_zero hfired))

/-- **A one-shot timer runs its handler once.** In every run whose steps meet the condition, in
every state of it. -/
theorem once_along (timerIndex : ℕ) (as : List Action)
    (halong : system.Along Plain (fresh timerIndex) as) :
    system.Throughout RunsOnce (fresh timerIndex) as := by
  have hfirst : OnceInv (fresh timerIndex) :=
    ⟨known_fresh timerIndex, fun _ ↦ ⟨Nat.le_refl _, fun _ h ↦ nomatch h⟩,
      fun _ _ h ↦ nomatch h⟩
  exact StepSystem.throughout_of_invariant hfirst (fun t a t' h hstep hc ↦ h.step hstep hc)
    (fun t h ↦ h.runsOnce) halong

/-- An interval is changed in time, and a restart comes late. -/
theorem once_along_reset :
    system.Throughout RunsOnce (fresh 1)
      [.startTimer true 10 false, .resetInterval 1 20, .expire 1, .complete 1, .restartTimer 1 0,
        .handlerReturn true] :=
  once_along 1 _ (by decide)

/-- After `restart_timer` the handler is lost, and after `reset_interval` it is called again. -/
theorem lost_and_repeated :
    ¬system.Throughout RunsOnce (fresh 1)
        [.startTimer true 10 false, .restartTimer 1 0, .expire 1, .complete 1]
      ∧ ¬system.Throughout RunsOnce (fresh 1)
        [.startTimer true 10 false, .expire 1, .complete 1, .handlerReturn true,
          .resetInterval 1 20, .expire 1, .complete 1] := by
  have hrecalled : ∀ log : List TimerEntry, (∀ x ∈ log, x ≠ .stopped 1 ∧ x ≠ .cleared) →
      ¬Recalled 1 log := by
    rintro log hlog ⟨before, x, after, rfl, -, rfl | rfl⟩
    · exact (hlog _ (by simp)).1 rfl
    · exact (hlog _ (by simp)).2 rfl
  constructor
  · intro h
    rcases (h.last rfl 1 _ rfl rfl (hrecalled _ (by decide))).1 with hinvoked | hwaiting
    · exact absurd hinvoked (by decide)
    · exact absurd hwaiting (by decide)
  · intro h
    exact absurd (h.last rfl 1 _ rfl rfl (hrecalled _ (by decide))).2 (by decide)

end Timer

end Knet.Utils
