/-
  Foundation/Transition.lean --- transition systems: runs, reachable states, invariants.

  A machine has a step function that gives nothing where an action is not possible.  The
  scheduler picks the actions, so a statement about every reachable state is a statement
  about every order of steps.  `allowed` restricts what the scheduler may pick: a step is
  only taken where it holds of the state before the step and of the action, and `Anything`
  restricts nothing.
-/
import Mathlib

set_option autoImplicit false

namespace BuildYourOwnRedis.Foundation

/-- A transition system on states `σ` with actions `α`.  The step is a function, so all choice
is in the actions: what a client sends, what the kernel answers and what the clock shows are
parts of them. -/
structure Machine (σ α : Type) where
  init : σ
  step : σ → α → Option σ

/-- Every step is allowed: what is possible at all may be picked.  The machines of a
development share this policy, so that a theorem about `Anything` is one about all runs. -/
def Anything {σ α : Type} (_ : σ) (_ : α) : Prop := True

instance {σ α : Type} (s : σ) (a : α) : Decidable (Anything s a) := .isTrue trivial

namespace Machine

variable {σ α : Type} (M : Machine σ α)

/-- Take the actions one after the other; all must be possible and allowed.  A run is computed,
so a concrete one can be evaluated to show that a state is reached. -/
def run (allowed : σ → α → Prop) [∀ s a, Decidable (allowed s a)] : σ → List α → Option σ
  | s, [] => some s
  | s, a :: actions =>
      if allowed s a then
        match M.step s a with
        | some s' => run allowed s' actions
        | none => none
      else none

/-- A state that some run of allowed steps leads to.  A property of every reachable state is
one of every state of every such run, whoever picks the steps. -/
inductive Reachable (allowed : σ → α → Prop) : σ → Prop where
  | init : Reachable allowed M.init
  | step {s s' : σ} {a : α} (before : Reachable allowed s) (hallowed : allowed s a)
      (taken : M.step s a = some s') : Reachable allowed s'

variable {M} {allowed : σ → α → Prop}

/-- **Invariants.**  What holds initially and is kept by every allowed step holds of every
reachable state. -/
theorem Reachable.invariant {I : σ → Prop} {s : σ} (h : M.Reachable allowed s)
    (hinit : I M.init)
    (hstep : ∀ s a s', M.Reachable allowed s → I s → allowed s a → M.step s a = some s' →
      I s') : I s := by
  induction h with
  | init => exact hinit
  | step before hallowed taken ih => exact hstep _ _ _ before ih hallowed taken

/-- Fewer steps allowed, fewer states reached. -/
theorem Reachable.mono {allowed' : σ → α → Prop} {s : σ} (h : M.Reachable allowed s)
    (hle : ∀ s a, allowed s a → allowed' s a) : M.Reachable allowed' s :=
  h.invariant .init fun _ _ _ _ ih hallowed taken => .step ih (hle _ _ hallowed) taken

variable [∀ s a, Decidable (allowed s a)]

/-- A run leads from reachable states to reachable states. -/
theorem Reachable.run {s s' : σ} {actions : List α} (h : M.Reachable allowed s)
    (hrun : M.run allowed s actions = some s') : M.Reachable allowed s' := by
  induction actions generalizing s with
  | nil => exact Option.some.inj hrun ▸ h
  | cons a actions ih =>
      rw [Machine.run] at hrun
      split at hrun
      · next hallowed =>
          split at hrun
          · next s₁ htaken => exact ih (.step h hallowed htaken) hrun
          · cases hrun
      · cases hrun

/-- The state after a run, when the run is possible.  A concrete run is evaluated, so this is
how a state is shown to be reached. -/
theorem reachable_of_run {actions : List α}
    (h : (M.run allowed M.init actions).isSome) :
    M.Reachable allowed ((M.run allowed M.init actions).get h) :=
  Reachable.run .init (Option.some_get h).symm

end Machine

end BuildYourOwnRedis.Foundation
