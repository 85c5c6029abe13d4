import Mathlib.Logic.Relation

/-!
# Lib.Transition — labelled systems, guarded runs, invariant rules

A system is a set of initial states and an executable step: a label either
moves the state on or is not enabled (`none`). Everything a program's
environment decides (the schedule, the clock, the bytes it reads) is in the
label, so a run is a list of labels.

Many properties hold only of the runs whose steps meet a side condition. A
*guard* `ok : ι → σ → Prop` is that condition on one step, read off the label
and the state before it; `ReachableBy ok` are the states of the runs all of
whose steps meet it, and the plain `Reachable` is the guard that is always
met. The invariant rule is proved once for guarded runs, and so is the rule of
forward simulation between two systems.
-/

namespace MobiPerf.Lib

/-- A labelled transition system with an executable step. -/
structure System (σ ι : Type*) where
  Init : σ → Prop
  step : ι → σ → Option σ

namespace System

variable {σ ι : Type*} (M : System σ ι)

/-- One step under a label that meets the guard. -/
def Next (ok : ι → σ → Prop) (s s' : σ) : Prop :=
  ∃ i, ok i s ∧ M.step i s = some s'

/-- Finitely many guarded steps. -/
def Steps (ok : ι → σ → Prop) : σ → σ → Prop :=
  Relation.ReflTransGen (M.Next ok)

/-- The states of the guarded runs that start in an initial state. -/
def ReachableBy (ok : ι → σ → Prop) (s : σ) : Prop :=
  ∃ s₀, M.Init s₀ ∧ M.Steps ok s₀ s

/-- The states of all runs. -/
def Reachable (s : σ) : Prop := M.ReachableBy (fun _ _ => True) s

/-- The state a list of labels leads to, when each is enabled and meets the
guard where it is taken. -/
def runBy (ok : ι → σ → Prop) [∀ i s, Decidable (ok i s)] : List ι → σ → Option σ
  | [], s => some s
  | i :: is, s => if ok i s then (M.step i s).bind (runBy ok is) else none

/-- The state a list of labels leads to, when each of them is enabled. -/
def run (is : List ι) (s : σ) : Option σ := M.runBy (fun _ _ => True) is s

variable {M} {ok : ι → σ → Prop}

/-! ## Runs -/

theorem ReachableBy.init {s : σ} (h : M.Init s) : M.ReachableBy ok s :=
  ⟨s, h, Relation.ReflTransGen.refl⟩

theorem ReachableBy.tail {s s' : σ} {i : ι} (h : M.ReachableBy ok s) (hok : ok i s)
    (hstep : M.step i s = some s') : M.ReachableBy ok s' := by
  rcases h with ⟨s₀, hinit, hsteps⟩
  exact ⟨s₀, hinit, hsteps.tail ⟨i, hok, hstep⟩⟩

theorem ReachableBy.steps {s s' : σ} (h : M.ReachableBy ok s) (hs : M.Steps ok s s') :
    M.ReachableBy ok s' := by
  rcases h with ⟨s₀, hinit, hsteps⟩
  exact ⟨s₀, hinit, hsteps.trans hs⟩

/-- A stronger guard leaves fewer runs. -/
theorem ReachableBy.mono {ok' : ι → σ → Prop} {s : σ} (h : M.ReachableBy ok s)
    (hok : ∀ i s, ok i s → ok' i s) : M.ReachableBy ok' s := by
  rcases h with ⟨s₀, hinit, hsteps⟩
  refine ⟨s₀, hinit, Relation.ReflTransGen.mono ?_ _ _ hsteps⟩
  rintro a b ⟨i, hi, hstep⟩
  exact ⟨i, hok i a hi, hstep⟩

/-- A guard only removes runs. -/
theorem ReachableBy.reachable {s : σ} (h : M.ReachableBy ok s) : M.Reachable s :=
  h.mono fun _ _ _ => trivial

theorem steps_of_runBy [∀ i s, Decidable (ok i s)] {is : List ι} {s s' : σ}
    (h : M.runBy ok is s = some s') : M.Steps ok s s' := by
  induction is generalizing s with
  | nil =>
      cases h
      exact Relation.ReflTransGen.refl
  | cons i is ih =>
      unfold runBy at h
      split at h
      · rename_i hok
        rcases Option.bind_eq_some_iff.mp h with ⟨t, hstep, hrun⟩
        exact Relation.ReflTransGen.head ⟨i, hok, hstep⟩ (ih hrun)
      · cases h

theorem steps_of_run {is : List ι} {s s' : σ} (h : M.run is s = some s') :
    M.Steps (fun _ _ => True) s s' :=
  steps_of_runBy h

/-- An executed run ends in a reachable state. -/
theorem reachable_of_run {is : List ι} {s s' : σ} (hinit : M.Init s)
    (h : M.run is s = some s') : M.Reachable s' :=
  ⟨s, hinit, steps_of_run h⟩

/-! ## Invariant rules -/

/-- What one guarded step preserves, guarded runs preserve. -/
theorem Steps.preserves {P : σ → Prop}
    (hstep : ∀ i s s', P s → ok i s → M.step i s = some s' → P s')
    {s s' : σ} (hs : M.Steps ok s s') (h : P s) : P s' := by
  induction hs with
  | refl => exact h
  | tail _ hnext ih =>
      rcases hnext with ⟨i, hok, heq⟩
      exact hstep i _ _ ih hok heq

/-- Inductive invariance along guarded runs. -/
theorem ReachableBy.invariant {P : σ → Prop} (hinit : ∀ s, M.Init s → P s)
    (hstep : ∀ i s s', P s → ok i s → M.step i s = some s' → P s')
    {s : σ} (h : M.ReachableBy ok s) : P s := by
  rcases h with ⟨s₀, h₀, hsteps⟩
  exact hsteps.preserves hstep (hinit s₀ h₀)

/-- Inductive invariance along all runs. -/
theorem Reachable.invariant {P : σ → Prop} (hinit : ∀ s, M.Init s → P s)
    (hstep : ∀ i s s', P s → M.step i s = some s' → P s')
    {s : σ} (h : M.Reachable s) : P s :=
  ReachableBy.invariant hinit (fun i s s' hi _ => hstep i s s' hi) h

/-- Inductive invariance, where a step may use what is known of the states that
guarded runs reach. -/
theorem ReachableBy.invariant_of {P : σ → Prop} (hinit : ∀ s, M.Init s → P s)
    (hstep : ∀ i s s', M.ReachableBy ok s → P s → ok i s → M.step i s = some s' → P s')
    {s : σ} (h : M.ReachableBy ok s) : P s := by
  have hboth : M.ReachableBy ok s ∧ P s := by
    refine h.invariant (P := fun s => M.ReachableBy ok s ∧ P s) ?_ ?_
    · exact fun s₀ h₀ => ⟨ReachableBy.init h₀, hinit s₀ h₀⟩
    · rintro i s s' ⟨hreach, hs⟩ hok heq
      exact ⟨hreach.tail hok heq, hstep i s s' hreach hs hok heq⟩
  exact hboth.2

/-- A guard that another one implies in the states that satisfy an invariant. -/
theorem ReachableBy.mono_of {ok' : ι → σ → Prop} {P : σ → Prop} (hinit : ∀ s, M.Init s → P s)
    (hstep : ∀ i s s', P s → ok i s → M.step i s = some s' → P s')
    (hok : ∀ i s, P s → ok i s → ok' i s) {s : σ} (h : M.ReachableBy ok s) :
    M.ReachableBy ok' s := by
  have hboth : M.ReachableBy ok' s ∧ P s := by
    refine h.invariant (P := fun s => M.ReachableBy ok' s ∧ P s) ?_ ?_
    · exact fun s₀ h₀ => ⟨ReachableBy.init h₀, hinit s₀ h₀⟩
    · rintro i s s' ⟨hreach, hs⟩ hi heq
      exact ⟨hreach.tail (hok i s hs hi) heq, hstep i s s' hs hi heq⟩
  exact hboth.1

/-! ## Simulation -/

section Simulation

variable {τ κ : Type*} {N : System τ κ} {ok' : κ → τ → Prop} {R : σ → τ → Prop}

/-- Each step of `M` is matched by steps of `N`, possibly by none: then its runs
are, from related states on. The match may use what the reachable states of `N`
satisfy. -/
theorem Steps.simulated
    (hstep : ∀ i s s' t, N.ReachableBy ok' t → R s t → ok i s → M.step i s = some s' →
      ∃ t', N.Steps ok' t t' ∧ R s' t')
    {s s' : σ} {t : τ} (hs : M.Steps ok s s') (ht : N.ReachableBy ok' t) (h : R s t) :
    ∃ t', N.Steps ok' t t' ∧ R s' t' := by
  induction hs with
  | refl => exact ⟨t, Relation.ReflTransGen.refl, h⟩
  | tail _ hnext ih =>
      rcases ih with ⟨t₁, hsteps₁, h₁⟩
      rcases hnext with ⟨i, hok, heq⟩
      rcases hstep i _ _ t₁ (ht.steps hsteps₁) h₁ hok heq with ⟨t₂, hsteps₂, h₂⟩
      exact ⟨t₂, hsteps₁.trans hsteps₂, h₂⟩

/-- What is reachable in `M` is related to what is reachable in `N`. -/
theorem ReachableBy.simulated (hinit : ∀ s, M.Init s → ∃ t, N.Init t ∧ R s t)
    (hstep : ∀ i s s' t, N.ReachableBy ok' t → R s t → ok i s → M.step i s = some s' →
      ∃ t', N.Steps ok' t t' ∧ R s' t')
    {s : σ} (h : M.ReachableBy ok s) : ∃ t, N.ReachableBy ok' t ∧ R s t := by
  rcases h with ⟨s₀, h₀, hsteps⟩
  rcases hinit s₀ h₀ with ⟨t₀, ht₀, hR₀⟩
  rcases hsteps.simulated hstep (ReachableBy.init ht₀) hR₀ with ⟨t, ht, hR⟩
  exact ⟨t, (ReachableBy.init ht₀).steps ht, hR⟩

theorem Steps.single {s s' : σ} (i : ι) (hok : ok i s) (hstep : M.step i s = some s') :
    M.Steps ok s s' :=
  Relation.ReflTransGen.single ⟨i, hok, hstep⟩

end Simulation

end System

end MobiPerf.Lib
