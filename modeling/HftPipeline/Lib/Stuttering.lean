import Mathlib

/-!
# Runs that another system can follow

Two systems move by actions, and a view maps the states of the first to states of the second. If
every step of the first is one of the second in the view, or none, then every run is. A run has a
result exactly if no step of it is stuck.
-/
namespace Stuttering

variable {State Action Spec Move : Type} {step : State → Action → Option State} {specStep : Spec → Move → Option Spec}
  {view : State → Spec} {Inv : State → Prop} {s s' : State}

/-- In the states with `Inv`, a step is one of the other system in the view, or leaves it as it is. -/
def Simulates (step : State → Action → Option State) (specStep : Spec → Move → Option Spec)
    (view : State → Spec) (Inv : State → Prop) : Prop :=
  ∀ s a s', Inv s → step s a = some s' →
    Inv s' ∧ (view s' = view s ∨ ∃ move, specStep (view s) move = some (view s'))

theorem Simulates.run (h : Simulates step specStep view Inv) (hinv : Inv s) {actions : List Action}
    (hrun : actions.foldlM step s = some s') :
    Inv s' ∧ ∃ moves : List Move, moves.foldlM specStep (view s) = some (view s') := by
  induction actions generalizing s with
  | nil =>
    cases hrun
    exact ⟨hinv, [], rfl⟩
  | cons a actions ih =>
    rw [List.foldlM_cons] at hrun
    obtain ⟨s₁, hstep, hrest⟩ := Option.bind_eq_some_iff.mp hrun
    obtain ⟨hinv₁, hview⟩ := h s a s₁ hinv hstep
    obtain ⟨hinv', moves, hmoves⟩ := ih hinv₁ hrest
    refine ⟨hinv', ?_⟩
    rcases hview with hsame | ⟨move, hmove⟩
    · exact ⟨moves, by rw [← hsame]; exact hmoves⟩
    · exact ⟨move :: moves, by rw [List.foldlM_cons, hmove]; exact hmoves⟩

/-! ## Runs that come to a step without a result -/

/-- An action of the run is `Stuck` where its turn comes. -/
def StuckIn (step : State → Action → Option State) (Stuck : State → Action → Prop) (s : State)
    (actions : List Action) : Prop :=
  ∃ before a after s', actions = before ++ a :: after ∧ before.foldlM step s = some s' ∧ Stuck s' a

/-- In the states with `Inv`, an action has no result exactly where it is `Stuck`. -/
structure Sticks (step : State → Action → Option State) (Stuck : State → Action → Prop)
    (Inv : State → Prop) : Prop where
  stuck : ∀ s a, Stuck s a → step s a = none
  step : ∀ s a, Inv s → ¬ Stuck s a → ∃ s', step s a = some s' ∧ Inv s'

variable {Stuck : State → Action → Prop}

/-- What leads to a result is not stuck. -/
theorem Sticks.not_stuck (h : Sticks step Stuck Inv) {a : Action} (hstep : step s a = some s') : ¬ Stuck s a := by
  intro hstuck
  rw [h.stuck s a hstuck] at hstep
  cases hstep

theorem Sticks.keeps (h : Sticks step Stuck Inv) {a : Action} (hinv : Inv s) (hstep : step s a = some s') :
    Inv s' := by
  obtain ⟨s'', hstep', hinv'⟩ := h.step s a hinv (h.not_stuck hstep)
  rw [hstep] at hstep'
  cases hstep'
  exact hinv'

theorem StuckIn.cons {a : Action} {actions : List Action} (hstep : step s a = some s')
    (h : StuckIn step Stuck s' actions) : StuckIn step Stuck s (a :: actions) := by
  obtain ⟨before, b, after, s'', rfl, hrun, hstuck⟩ := h
  exact ⟨a :: before, b, after, s'', rfl, by rw [List.foldlM_cons, hstep]; exact hrun, hstuck⟩

/-- A run has no result, and then an action of it is stuck, or it ends in a state with `Inv`. -/
theorem Sticks.run (h : Sticks step Stuck Inv) (hinv : Inv s) (actions : List Action) :
    actions.foldlM step s = none ∧ StuckIn step Stuck s actions ∨
      ∃ s', actions.foldlM step s = some s' ∧ Inv s' := by
  induction actions generalizing s with
  | nil => exact Or.inr ⟨s, rfl, hinv⟩
  | cons a actions ih =>
    by_cases hstuck : Stuck s a
    · left
      refine ⟨?_, [], a, actions, s, rfl, rfl, hstuck⟩
      rw [List.foldlM_cons, h.stuck s a hstuck]
      rfl
    · obtain ⟨s₁, hstep, hinv₁⟩ := h.step s a hinv hstuck
      have hcons : (a :: actions).foldlM step s = actions.foldlM step s₁ := by
        rw [List.foldlM_cons, hstep]
        rfl
      rw [hcons]
      exact (ih hinv₁).imp_left fun hnone => ⟨hnone.1, hnone.2.cons hstep⟩

theorem Sticks.run_some (h : Sticks step Stuck Inv) (hinv : Inv s) {actions : List Action}
    (hrun : actions.foldlM step s = some s') : Inv s' := by
  rcases h.run hinv actions with ⟨hnone, -⟩ | ⟨s'', hrun', hinv'⟩
  · rw [hrun] at hnone
    cases hnone
  · rw [hrun] at hrun'
    cases hrun'
    exact hinv'

theorem Sticks.run_eq_none_iff (h : Sticks step Stuck Inv) (hinv : Inv s) (actions : List Action) :
    actions.foldlM step s = none ↔ StuckIn step Stuck s actions := by
  constructor
  · intro hnone
    rcases h.run hinv actions with ⟨-, hstuck⟩ | ⟨s', hrun, -⟩
    · exact hstuck
    · rw [hnone] at hrun
      cases hrun
  · rintro ⟨before, a, after, s', rfl, hrun, hstuck⟩
    rw [List.foldlM_append, hrun]
    show (a :: after).foldlM step s' = none
    rw [List.foldlM_cons, h.stuck s' a hstuck]
    rfl

end Stuttering
