import Mathlib.Data.List.Basic

/-!
# Step systems and their runs

A program that reacts to completions, timers and calls is a state that moves by labelled steps. The
step function is partial: `none` says that the label is not enabled in that state, for instance the
completion of an operation that was never started. A run is a list of labels.

Two predicates on runs carry every result about them. `Throughout P` says that `P` holds in every
state the run visits, the first and the last included; `Along C` says that every step the run takes
meets the condition `C` on the state before it and the label. The rules below reduce a statement
about runs to one about a single step.
-/

/-- A state type that moves by labelled, partial, deterministic steps. -/
structure StepSystem (σ : Type*) (α : Type*) where
  /-- The state after the label, or `none` when the label is not enabled. -/
  step : σ → α → Option σ

namespace StepSystem

variable {σ α : Type*} (S : StepSystem σ α)

/-- The state after a run, or `none` when some label of it was not enabled. -/
def run : σ → List α → Option σ
  | s, [] => some s
  | s, a :: as => (S.step s a).bind fun t ↦ run t as

/-- `P` holds in every state the run visits. -/
def Throughout (P : σ → Prop) : σ → List α → Prop
  | s, [] => P s
  | s, a :: as => P s ∧ ∀ t, S.step s a = some t → Throughout P t as

/-- Every step the run takes meets `C`. -/
def Along (C : σ → α → Prop) : σ → List α → Prop
  | _, [] => True
  | s, a :: as => ∀ t, S.step s a = some t → C s a ∧ Along C t as

/-- A condition on steps that can be tested can be tested along a run. -/
instance decidableAlong (C : σ → α → Prop) [∀ s a, Decidable (C s a)] :
    ∀ s as, Decidable (S.Along C s as)
  | _, [] => isTrue trivial
  | s, a :: as =>
    have : ∀ t, Decidable (C s a ∧ S.Along C t as) := fun t ↦
      have := decidableAlong C t as
      inferInstance
    inferInstanceAs (Decidable (∀ t ∈ S.step s a, C s a ∧ S.Along C t as))

variable {S}

theorem run_cons (s : σ) (a : α) (as : List α) :
    S.run s (a :: as) = (S.step s a).bind fun t ↦ S.run t as := rfl

theorem run_cons_eq_some {s u : σ} {a : α} {as : List α} :
    S.run s (a :: as) = some u ↔ ∃ t, S.step s a = some t ∧ S.run t as = some u := by
  rw [run_cons, Option.bind_eq_some_iff]

theorem run_append {s t u : σ} {as bs : List α} (hrun : S.run s as = some t)
    (hrest : S.run t bs = some u) : S.run s (as ++ bs) = some u := by
  induction as generalizing s with
  | nil =>
    obtain rfl := Option.some.inj hrun
    exact hrest
  | cons a as ih =>
    obtain ⟨v, hv, hmid⟩ := run_cons_eq_some.mp hrun
    exact run_cons_eq_some.mpr ⟨v, hv, ih hmid⟩

theorem Throughout.first {P : σ → Prop} {s : σ} {as : List α} (h : S.Throughout P s as) : P s := by
  cases as with
  | nil => exact h
  | cons a as => exact h.1

theorem Throughout.last {P : σ → Prop} {s t : σ} {as : List α} (h : S.Throughout P s as)
    (hrun : S.run s as = some t) : P t := by
  induction as generalizing s with
  | nil => exact Option.some.inj hrun ▸ h
  | cons a as ih =>
    obtain ⟨u, hstep, hrest⟩ := run_cons_eq_some.mp hrun
    exact ih (h.2 u hstep) hrest

theorem Throughout.mono {P Q : σ → Prop} {s : σ} {as : List α} (h : S.Throughout P s as)
    (hPQ : ∀ s, P s → Q s) : S.Throughout Q s as := by
  induction as generalizing s with
  | nil => exact hPQ s h
  | cons a as ih => exact ⟨hPQ s h.1, fun t ht ↦ ih (h.2 t ht)⟩

theorem along_of_forall {C : σ → α → Prop} (h : ∀ s a, C s a) (s : σ) (as : List α) :
    S.Along C s as := by
  induction as generalizing s with
  | nil => trivial
  | cons a as ih => exact fun t _ ↦ ⟨h s a, ih t⟩

theorem Along.mono {C D : σ → α → Prop} {s : σ} {as : List α} (h : S.Along C s as)
    (hCD : ∀ s a, C s a → D s a) : S.Along D s as := by
  induction as generalizing s with
  | nil => trivial
  | cons a as ih => exact fun t ht ↦ ⟨hCD s a (h t ht).1, ih (h t ht).2⟩

theorem Along.and {C D : σ → α → Prop} {s : σ} {as : List α} (hC : S.Along C s as)
    (hD : S.Along D s as) : S.Along (fun s a ↦ C s a ∧ D s a) s as := by
  induction as generalizing s with
  | nil => trivial
  | cons a as ih => exact fun t ht ↦ ⟨⟨(hC t ht).1, (hD t ht).1⟩, ih (hC t ht).2 (hD t ht).2⟩

/-- **The invariant rule.** An invariant that every step meeting `C` keeps, and that gives `P`,
makes `P` hold throughout every run whose steps all meet `C`. -/
theorem throughout_of_invariant {I P : σ → Prop} {C : σ → α → Prop} {s : σ} {as : List α}
    (hfirst : I s) (hkeep : ∀ s a t, I s → S.step s a = some t → C s a → I t)
    (hgive : ∀ s, I s → P s) (halong : S.Along C s as) : S.Throughout P s as := by
  induction as generalizing s with
  | nil => exact hgive s hfirst
  | cons a as ih =>
    refine ⟨hgive s hfirst, fun t hstep ↦ ?_⟩
    obtain ⟨hc, hrest⟩ := halong t hstep
    exact ih (hkeep s a t hfirst hstep hc) hrest

/-- An invariant kept by the steps that meet `C` may make them meet another condition as well. -/
theorem Along.of_invariant {I : σ → Prop} {C D : σ → α → Prop} {s : σ} {as : List α}
    (halong : S.Along C s as) (hfirst : I s)
    (hstep : ∀ s a t, I s → S.step s a = some t → C s a → D s a ∧ I t) : S.Along D s as := by
  induction as generalizing s with
  | nil => trivial
  | cons a as ih =>
    intro t ht
    obtain ⟨hc, hrest⟩ := halong t ht
    obtain ⟨hd, hI⟩ := hstep s a t hfirst ht hc
    exact ⟨hd, ih hrest hI⟩

theorem invariant_of_run {I : σ → Prop} {C : σ → α → Prop} {s t : σ} {as : List α}
    (hfirst : I s) (hkeep : ∀ s a t, I s → S.step s a = some t → C s a → I t)
    (halong : S.Along C s as) (hrun : S.run s as = some t) : I t :=
  (throughout_of_invariant hfirst hkeep (fun _ h ↦ h) halong).last hrun

/-- Two conditions on steps agree along a run when an invariant of its labels makes them agree at
every step. -/
theorem along_iff_of_mem {I : σ → Prop} {C D : σ → α → Prop} {s : σ} {as : List α} (hfirst : I s)
    (hkeep : ∀ s a t, a ∈ as → I s → S.step s a = some t → I t)
    (hstep : ∀ s a t, a ∈ as → I s → S.step s a = some t → (C s a ↔ D s a)) :
    S.Along C s as ↔ S.Along D s as := by
  induction as generalizing s with
  | nil => exact Iff.rfl
  | cons a as ih =>
    refine forall_congr' fun t ↦ forall_congr' fun ht ↦ ?_
    refine and_congr (hstep s a t List.mem_cons_self hfirst ht) (ih ?_ ?_ ?_)
    · exact hkeep s a t List.mem_cons_self hfirst ht
    · exact fun s b t hb ↦ hkeep s b t (List.mem_cons_of_mem _ hb)
    · exact fun s b t hb ↦ hstep s b t (List.mem_cons_of_mem _ hb)

/-- Two conditions on steps agree along a run when an invariant makes them agree at every step. -/
theorem along_iff_of_invariant {I : σ → Prop} {C D : σ → α → Prop} {s : σ} {as : List α}
    (hfirst : I s) (hkeep : ∀ s a t, I s → S.step s a = some t → I t)
    (hstep : ∀ s a t, I s → S.step s a = some t → (C s a ↔ D s a)) :
    S.Along C s as ↔ S.Along D s as :=
  along_iff_of_mem hfirst (fun s a t _ ↦ hkeep s a t) (fun s a t _ ↦ hstep s a t)

/-- **The exact rule.** When, from a state with `P`, a step leads to a state with `P` exactly when
it meets `C`, a run keeps `P` throughout exactly when all its steps meet `C`. -/
theorem throughout_iff_along {P : σ → Prop} {C : σ → α → Prop} {s : σ} {as : List α}
    (hfirst : P s) (hstep : ∀ s a t, P s → S.step s a = some t → (P t ↔ C s a)) :
    S.Throughout P s as ↔ S.Along C s as := by
  induction as generalizing s with
  | nil => exact ⟨fun _ ↦ trivial, fun _ ↦ hfirst⟩
  | cons a as ih =>
    constructor
    · rintro ⟨-, hrest⟩ t ht
      have hPt : P t := (hrest t ht).first
      exact ⟨(hstep s a t hfirst ht).mp hPt, (ih hPt).mp (hrest t ht)⟩
    · intro halong
      refine ⟨hfirst, fun t ht ↦ ?_⟩
      obtain ⟨hc, hrest⟩ := halong t ht
      exact (ih ((hstep s a t hfirst ht).mpr hc)).mpr hrest

/-- **The exact rule with an invariant.** In a run whose steps all meet `D`, an invariant gives `P`
and is kept by the steps that meet `C`, and `P` after a step tells that the step met `C`. -/
theorem throughout_iff_along_of_invariant {I P : σ → Prop} {C D : σ → α → Prop} {s : σ}
    {as : List α} (hfirst : I s) (hgive : ∀ s, I s → P s)
    (hstep : ∀ s a t, a ∈ as → I s → S.step s a = some t → D s a →
      (C s a → I t) ∧ (P t → C s a))
    (hD : S.Along D s as) : S.Throughout P s as ↔ S.Along C s as := by
  induction as generalizing s with
  | nil => exact ⟨fun _ ↦ trivial, fun _ ↦ hgive s hfirst⟩
  | cons a as ih =>
    have ih' : ∀ {t}, S.step s a = some t → I t → (S.Throughout P t as ↔ S.Along C t as) :=
      fun ht hI ↦ ih hI (fun s b t hb ↦ hstep s b t (List.mem_cons_of_mem _ hb)) (hD _ ht).2
    constructor
    · rintro ⟨-, hrest⟩ t ht
      obtain ⟨hkeep, htell⟩ := hstep s a t List.mem_cons_self hfirst ht (hD t ht).1
      have hC := htell (hrest t ht).first
      exact ⟨hC, (ih' ht (hkeep hC)).mp (hrest t ht)⟩
    · intro halong
      refine ⟨hgive s hfirst, fun t ht ↦ ?_⟩
      obtain ⟨hC, hrest⟩ := halong t ht
      exact (ih' ht ((hstep s a t List.mem_cons_self hfirst ht (hD t ht).1).1 hC)).mpr hrest

/-! ## History variables -/

section History

variable {ω : Type*} (S) (note : σ → α → ω → ω)

/-- The system together with a variable that every step updates and none reads. -/
def observe : StepSystem (σ × ω) α :=
  ⟨fun s a ↦ (S.step s.1 a).map fun t ↦ (t, note s.1 a s.2)⟩

variable {S note}

theorem observe_step_eq_some {s t : σ} {h k : ω} {a : α} :
    (S.observe note).step (s, h) a = some (t, k) ↔ S.step s a = some t ∧ note s a h = k := by
  simp only [observe, Option.map_eq_some_iff, Prod.mk.injEq]
  constructor
  · rintro ⟨_, hstep, rfl, rfl⟩
    exact ⟨hstep, rfl⟩
  · rintro ⟨hstep, rfl⟩
    exact ⟨t, hstep, rfl, rfl⟩

theorem exists_observe_run {s t : σ} {as : List α} (hrun : S.run s as = some t) (h : ω) :
    ∃ k, (S.observe note).run (s, h) as = some (t, k) := by
  induction as generalizing s h with
  | nil =>
    obtain rfl := Option.some.inj hrun
    exact ⟨h, rfl⟩
  | cons a as ih =>
    obtain ⟨u, hstep, hrest⟩ := run_cons_eq_some.mp hrun
    obtain ⟨k, hk⟩ := ih hrest (note s a h)
    exact ⟨k, run_cons_eq_some.mpr ⟨_, observe_step_eq_some.mpr ⟨hstep, rfl⟩, hk⟩⟩

/-- **The invariant rule with a history variable**, for a run of the system it was added to. -/
theorem observe_invariant_of_run {I : σ → ω → Prop} {C : σ × ω → α → Prop} {s t : σ} {h : ω}
    {as : List α} (hfirst : I s h)
    (hkeep : ∀ s h a t, I s h → S.step s a = some t → C (s, h) a → I t (note s a h))
    (hrun : S.run s as = some t) (halong : (S.observe note).Along C (s, h) as) :
    ∃ k, (S.observe note).run (s, h) as = some (t, k) ∧ I t k := by
  obtain ⟨k, hk⟩ := @exists_observe_run _ _ S ω note _ _ _ hrun h
  have hkeep' : ∀ w a v, I w.1 w.2 → (S.observe note).step w a = some v → C w a → I v.1 v.2 := by
    intro w a v hw hstep hc
    obtain ⟨hstep', heq⟩ := observe_step_eq_some.mp hstep
    rw [← heq]
    exact hkeep w.1 w.2 a v.1 hw hstep' hc
  exact ⟨k, hk, @invariant_of_run _ _ _ (fun w ↦ I w.1 w.2) _ _ _ _ hfirst hkeep' halong hk⟩

end History

/-! ## Runs that match up to hidden steps -/

section Matching

variable {τ β : Type*} (S) (T : StepSystem τ β)

/-- The run `as` of `S` is matched by a run of `T`, step by step: a hidden step by none, any other
by one step whose label is paired with it. The states reached look the same all along. -/
inductive Matched (same : σ → τ → Prop) (hidden : α → Prop) (paired : α → β → Prop) :
    σ → τ → List α → Prop
  | nil {s t} : same s t → Matched same hidden paired s t []
  | hide {s s' t a as} : same s t → hidden a → S.step s a = some s' →
      Matched same hidden paired s' t as → Matched same hidden paired s t (a :: as)
  | pair {s s' t t' a b as} : same s t → paired a b → S.step s a = some s' →
      T.step t b = some t' → Matched same hidden paired s' t' as →
      Matched same hidden paired s t (a :: as)

variable {S T} {same R : σ → τ → Prop} {hidden C : α → Prop} {paired : α → β → Prop}

/-- **The simulation rule.** -/
theorem matched_of_simulation (hsame : ∀ s t, R s t → same s t)
    (hsim : ∀ s t a s', R s t → C a → S.step s a = some s' →
      (hidden a ∧ R s' t) ∨ ∃ b t', paired a b ∧ T.step t b = some t' ∧ R s' t')
    {s u : σ} {t : τ} {as : List α} (hR : R s t) (hC : ∀ a ∈ as, C a)
    (hrun : S.run s as = some u) : Matched S T same hidden paired s t as := by
  induction as generalizing s t with
  | nil => exact .nil (hsame s t hR)
  | cons a as ih =>
    obtain ⟨s', hstep, hrest⟩ := run_cons_eq_some.mp hrun
    have hC' : ∀ b ∈ as, C b := fun b hb ↦ hC b (List.mem_cons_of_mem _ hb)
    rcases hsim s t a s' hR (hC a List.mem_cons_self) hstep with
      ⟨hhid, hR'⟩ | ⟨b, t', hpair, htstep, hR'⟩
    · exact .hide (hsame s t hR) hhid hstep (ih hR' hC' hrest)
    · exact .pair (hsame s t hR) hpair hstep htstep (ih hR' hC' hrest)

end Matching

end StepSystem
