import Knet.Utils.TimerView

/-!
# What the calls of a timer touch

`start_timer` draws its ids from a counter of 64 bits, and all calls name a timer by its id. But
`Timer::restart_timer` takes the id as a `uint32_t`, so that a call for a timer from `2 ^ 32` on
reaches the timer with the low bits of its id, if there is one.
-/

namespace Knet.Utils

/-! ## The worker -/

namespace KNetWorker

/-- `KNetWorker::start_timer`. -/
def startTimer (eventTimer : Timer) (handler : Bool) (interval : ℕ) (bLoop : Bool) : Timer :=
  eventTimer.startTimer handler interval bLoop

/-- `KNetWorker::restart_timer`, where the id is a `uint64_t` still. -/
def restartTimer (eventTimer : Timer) (timerId interval : ℕ) : Timer :=
  eventTimer.restartTimer timerId interval

/-- `KNetWorker::stop_timer`. -/
def stopTimer (eventTimer : Timer) (timerId : ℕ) : Timer := eventTimer.stopTimer timerId

end KNetWorker

namespace Timer

variable {t t' : Timer} {a : Action} {id : ℕ} {f : TimerNode → TimerNode}

/-! ## One timer and no other -/

/-- The timer with the id changes by `f` if the map holds it, and no other timer does. -/
structure TouchesOnly (f : TimerNode → TimerNode) (id : ℕ) (t t' : Timer) : Prop where
  own : t'.nodes id = if t.timerNodes id then (t.nodes id).map f else t.nodes id
  others : ∀ other ≠ id, t'.nodes other = t.nodes other
  registry : t'.timerNodes = t.timerNodes

/-- The change would not be seen: the map does not hold the timer, or `f` leaves it as it is. -/
def Unmoved (f : TimerNode → TimerNode) (t : Timer) (id : ℕ) : Prop :=
  t.timerNodes id = true → (t.nodes id).map f = t.nodes id

theorem touchesOnly_modifyFound (f : TimerNode → TimerNode) (id : ℕ) (t : Timer) :
    TouchesOnly f id t (t.modifyFound id f) := by
  rw [modifyFound]
  split_ifs with hfound
  · refine ⟨?_, fun other hother ↦ nodes_modify_of_ne t hother f, rfl⟩
    rw [nodes_modify_self, if_pos hfound]
  · exact ⟨(if_neg hfound).symm, fun _ _ ↦ rfl, rfl⟩

theorem touchesOnly_modifyFound_iff {k : ℕ} (hne : k ≠ id) :
    TouchesOnly f id t (t.modifyFound k f) ↔ Unmoved f t id ∧ Unmoved f t k := by
  have hown : (t.modifyFound k f).nodes id = t.nodes id := by
    rw [modifyFound]
    split_ifs
    · exact nodes_modify_of_ne t (Ne.symm hne) f
    · rfl
  constructor
  · intro h
    constructor
    · intro hfound
      have h' := h.own
      rw [hown, if_pos hfound] at h'
      exact h'.symm
    · intro hfound
      have h' := h.others k hne
      rw [modifyFound, if_pos hfound, nodes_modify_self] at h'
      exact h'
  · rintro ⟨hid, hk⟩
    have hsame : (t.modifyFound k f).nodes = t.nodes := by
      rw [modifyFound]
      split_ifs with hfound
      · exact (congrArg _ (hk hfound)).trans (Function.update_eq_self k t.nodes)
      · rfl
    refine ⟨?_, fun other _ ↦ congrFun hsame other, ?_⟩
    · rw [hsame]
      split_ifs with hfound
      · exact (hid hfound).symm
      · rfl
    · rw [modifyFound]
      split_ifs
      · rfl
      · rfl

/-- **`restart_timer` reaches its timer** exactly when the id has 32 bits, or neither timer would
be changed. -/
theorem touchesOnly_restartTimer_iff (t : Timer) (id interval : ℕ) :
    TouchesOnly (TimerNode.restart interval) id t (KNetWorker.restartTimer t id interval)
      ↔ id < 2 ^ 32 ∨ Unmoved (TimerNode.restart interval) t id
        ∧ Unmoved (TimerNode.restart interval) t (id % 2 ^ 32) := by
  have hcall : KNetWorker.restartTimer t id interval
      = t.modifyFound (id % 2 ^ 32) (TimerNode.restart interval) := rfl
  rw [hcall]
  by_cases hid : id < 2 ^ 32
  · rw [Nat.mod_eq_of_lt hid]
    exact iff_of_true (touchesOnly_modifyFound _ id t) (.inl hid)
  · rw [touchesOnly_modifyFound_iff (by omega), or_iff_right hid]

/-! ## The ids -/

/-- The ids that `start_timer` has returned. -/
def startedIds (log : List TimerEntry) : List ℕ :=
  log.filterMap fun
    | .started id => some id
    | _ => none

theorem mem_startedIds {log : List TimerEntry} : id ∈ startedIds log ↔ .started id ∈ log := by
  rw [startedIds, List.mem_filterMap]
  constructor
  · rintro ⟨x, hx, h⟩
    cases x with
    | started k => exact Option.some.inj h ▸ hx
    | _ => exact absurd h (by simp)
  · exact fun h ↦ ⟨_, h, rfl⟩

theorem startedIds_entries (t : Timer) (a : Action) :
    startedIds (t.entries a) = [] ∨ startedIds (t.entries a) = [t.timerIndex] := by
  cases a with
  | startTimer handler interval bLoop => exact .inr rfl
  | complete id =>
    rw [entries]
    cases t.nodes id with
    | none => exact .inl rfl
    | some node =>
      rw [Option.elim_some]
      split_ifs <;> exact .inl rfl
  | handlerReturn ret =>
    rw [entries]
    cases t.running.head? with
    | none => exact .inl rfl
    | some id => exact .inl rfl
  | _ => exact .inl rfl

/-- The ids are all different. -/
structure Distinct (t : Timer) : Prop where
  inv : Inv t
  nodup : (startedIds t.log).Nodup

theorem Distinct.step (h : Distinct t) (hstep : system.step t a = some t') : Distinct t' where
  inv := h.inv.step hstep
  nodup := by
    rw [(history_step hstep).1, startedIds, List.filterMap_append, ← startedIds, ← startedIds]
    rcases startedIds_entries t a with hnone | hone
    · rw [hnone, List.append_nil]
      exact h.nodup
    · rw [hone]
      refine List.nodup_append.mpr ⟨h.nodup, by simp, ?_⟩
      rintro id hid _ hmem rfl
      obtain rfl := List.mem_singleton.mp hmem
      exact Nat.lt_irrefl _ (h.inv.started _ (mem_startedIds.mp hid))

theorem distinct_of_run {timerIndex : ℕ} {as : List Action}
    (hrun : system.run (fresh timerIndex) as = some t) : Distinct t :=
  StepSystem.invariant_of_run (C := fun _ _ ↦ True) ⟨inv_fresh timerIndex, List.nodup_nil⟩
    (fun _ _ _ h hstep _ ↦ h.step hstep) (StepSystem.along_of_forall (fun _ _ ↦ trivial) _ _) hrun

/-- **The calls touch their own timer only, with one exception.** In every state of every run, as
long as the counter has not come around: no id is returned twice; `stop_timer` and `reset_interval`
change the timer with the id they are given, and no other; and `restart_timer` does so exactly when
the id has 32 bits, or when neither that timer nor the one with the low bits of its id would be
changed. -/
theorem touchesOnly_iff {timerIndex : ℕ} {as : List Action}
    (hrun : system.run (fresh timerIndex) as = some t) (hindex : t.timerIndex ≤ 2 ^ 64) :
    (startedIds t.log).Nodup ∧ ∀ id ∈ startedIds t.log, id < 2 ^ 64
      ∧ (∀ interval,
        TouchesOnly (TimerNode.restart interval) id t (KNetWorker.restartTimer t id interval)
          ↔ id < 2 ^ 32 ∨ Unmoved (TimerNode.restart interval) t id
            ∧ Unmoved (TimerNode.restart interval) t (id % 2 ^ 32))
      ∧ TouchesOnly TimerNode.kill id t (KNetWorker.stopTimer t id)
      ∧ ∀ interval, TouchesOnly (TimerNode.reset interval) id t (t.resetInterval id interval) := by
  have hdistinct := distinct_of_run hrun
  refine ⟨hdistinct.nodup, fun id hid ↦ ⟨?_, ?_, ?_, ?_⟩⟩
  · exact Nat.lt_of_lt_of_le (hdistinct.inv.started id (mem_startedIds.mp hid)) hindex
  · exact fun interval ↦ touchesOnly_restartTimer_iff t id interval
  · obtain ⟨hown, hothers, hregistry⟩ := touchesOnly_modifyFound TimerNode.kill id t
    exact ⟨hown, hothers, hregistry⟩
  · exact fun interval ↦ touchesOnly_modifyFound _ id t

/-- One timer, with a small id. -/
theorem touchesOnly_first_timer :
    TouchesOnly (TimerNode.restart 20) 1 ((fresh 1).startTimer true 10 true)
      (KNetWorker.restartTimer ((fresh 1).startTimer true 10 true) 1 20) :=
  (((@touchesOnly_iff _ 1 [.startTimer true 10 true] rfl (by decide)).2 1 (by decide)).2.1 20).mpr
    (.inl (by decide))

theorem run_otherStart (n : ℕ) (t : Timer) (as : List Action) :
    system.run t (List.replicate n .otherStart ++ as)
      = system.run { t with timerIndex := t.timerIndex + n } as := by
  induction n generalizing t with
  | zero => rfl
  | succ n ih =>
    have hstep : system.step t .otherStart = some { t with timerIndex := t.timerIndex + 1 } := rfl
    rw [List.replicate_succ, List.cons_append, StepSystem.run_cons, hstep, Option.bind_some, ih]
    have hindex : t.timerIndex + 1 + n = t.timerIndex + (n + 1) := by omega
    exact congrArg (fun k ↦ system.run { t with timerIndex := k } as) hindex

/-- Two timers whose ids have the same low bits: `restart_timer` of the second reaches the
first. -/
theorem restarts_another :
    ∃ as t, system.run (fresh 1) as = some t ∧ t.timerIndex ≤ 2 ^ 64
      ∧ 2 ^ 32 + 1 ∈ startedIds t.log
      ∧ ¬TouchesOnly (TimerNode.restart 20) (2 ^ 32 + 1) t
        (KNetWorker.restartTimer t (2 ^ 32 + 1) 20)
      ∧ (KNetWorker.restartTimer t (2 ^ 32 + 1) 20).nodes 1 ≠ t.nodes 1 := by
  let t : Timer := ({ (fresh 1).startTimer true 10 true with timerIndex := 2 ^ 32 + 1 } : Timer)
    |>.startTimer true 10 true
  have hrun : system.run (fresh 1) (.startTimer true 10 true
      :: (List.replicate (2 ^ 32 - 1) .otherStart ++ [.startTimer true 10 true])) = some t := by
    have hstep : system.step (fresh 1) (.startTimer true 10 true)
        = some ((fresh 1).startTimer true 10 true) := rfl
    rw [StepSystem.run_cons, hstep, Option.bind_some, run_otherStart]
    rfl
  have hfirst : (KNetWorker.restartTimer t (2 ^ 32 + 1) 20).nodes 1 ≠ t.nodes 1 := by
    decide
  exact ⟨_, t, hrun, by decide, by decide, fun h ↦ hfirst (h.others 1 (by decide)), hfirst⟩

end Timer

end Knet.Utils
