import Mathlib

/-!
# Calls that return

A machine with a stack of calls: a step works on the call on top, which may make further
calls. `Runs below` is a piece of a run in which the calls above `below` go on, and it
`Returns` if the last of them has returned at its end.
-/
namespace CallStack

variable {State Call : Type}

/-- Some steps of the calls above `below`. -/
inductive Runs (calls : State → List Call) (step : State → Option State) (below : List Call) :
    State → State → Prop
  | refl (s : State) : Runs calls step below s s
  | step {s s₁ s' : State} {call : Call} {above : List Call} (hcalls : calls s = call :: above ++ below)
      (hstep : step s = some s₁) (hrest : Runs calls step below s₁ s') : Runs calls step below s s'

/-- The calls above `below` go on until there is none. -/
structure Returns (calls : State → List Call) (step : State → Option State) (below : List Call)
    (s s' : State) : Prop where
  runs : Runs calls step below s s'
  calls_eq : calls s' = below

variable {calls : State → List Call} {step : State → Option State} {mid below : List Call} {s s₁ s' : State}

namespace Runs

theorem first {call : Call} (hcalls : calls s = call :: below) (hstep : step s = some s₁)
    (hrest : Runs calls step below s₁ s') : Runs calls step below s s' :=
  .step (show calls s = call :: [] ++ below from hcalls) hstep hrest

/-- What goes on above a callee's caller goes on above the caller. -/
theorem trans (h : Runs calls step (mid ++ below) s s₁) (hrest : Runs calls step below s₁ s') :
    Runs calls step below s s' := by
  induction h with
  | refl => exact hrest
  | @step s s₁ _ call above hcalls hstep _ ih =>
    have hcalls' : calls s = call :: (above ++ mid) ++ below := by
      rw [hcalls, List.cons_append, List.cons_append, List.append_assoc]
    exact .step hcalls' hstep (ih hrest)

/-- A step of a call, or the calls have returned. -/
theorem cases_next (h : Runs calls step below s s') :
    s' = s ∨ ∃ s₁, step s = some s₁ ∧ Runs calls step below s₁ s' ∧ calls s ≠ below := by
  cases h with
  | refl => exact Or.inl rfl
  | @step _ s₁ _ call above hcalls hstep hrest =>
    refine Or.inr ⟨s₁, hstep, hrest, ?_⟩
    intro heq
    have hlength := congrArg List.length (heq.symm.trans hcalls)
    rw [List.length_append, List.length_cons] at hlength
    omega

end Runs

namespace Returns

theorem first {call : Call} (hcalls : calls s = call :: below) (hstep : step s = some s₁)
    (hrest : Returns calls step below s₁ s') : Returns calls step below s s' :=
  ⟨hrest.runs.first hcalls hstep, hrest.calls_eq⟩

theorem of_step {call : Call} (hcalls : calls s = call :: below) (hstep : step s = some s')
    (hcalls' : calls s' = below) : Returns calls step below s s' :=
  ⟨(Runs.refl s').first hcalls hstep, hcalls'⟩

/-- The callee returns, and then the caller. -/
theorem trans (h : Returns calls step (mid ++ below) s s₁) (hrest : Returns calls step below s₁ s') :
    Returns calls step below s s' :=
  ⟨h.runs.trans hrest.runs, hrest.calls_eq⟩

/-- A call that loops returns, if each of its rounds ends it or brings it nearer to its end. -/
theorem of_measure {β : Type} {r : β → β → Prop} (hwf : WellFounded r) (measure : State → β)
    {I Q : State → Prop} {call : Call}
    (hround : ∀ s, I s → calls s = call :: below →
      (∃ s', Returns calls step below s s' ∧ Q s') ∨
      ∃ s₁ s', step s = some s₁ ∧ Returns calls step (call :: below) s₁ s' ∧ I s' ∧ r (measure s') (measure s))
    (s : State) (hs : I s) (hcalls : calls s = call :: below) : ∃ s', Returns calls step below s s' ∧ Q s' := by
  induction hm : measure s using hwf.induction generalizing s with
  | _ m ih =>
    rcases hround s hs hcalls with hend | ⟨s₁, s', hstep, hback, hs', hless⟩
    · exact hend
    · obtain ⟨s'', hreturns, hQ⟩ := ih (measure s') (hm ▸ hless) s' hs' hback.calls_eq rfl
      have hback' : Returns calls step ([call] ++ below) s₁ s' := hback
      exact ⟨s'', (hback'.trans hreturns).first hcalls hstep, hQ⟩

end Returns

end CallStack
