/-
  Foundation/Refinement.lean --- one machine refines another.

  An abstraction function maps the states of the concrete machine to those of the abstract
  one.  A step of the concrete machine is a run of the abstract one, which may be empty; so
  what holds of every reachable abstract state holds of what is reached concretely.
-/
import BuildYourOwnRedis.Foundation.Transition

set_option autoImplicit false

namespace BuildYourOwnRedis.Foundation

namespace Machine

variable {σ α τ β : Type}

/-- Some allowed steps lead from one state to the other, and none may be needed: one concrete
step can be several abstract ones, or one that the abstraction does not see. -/
inductive Leads (M : Machine σ α) (allowed : σ → α → Prop) (s : σ) : σ → Prop where
  | refl : Leads M allowed s s
  | step {s' s'' : σ} {a : α} (before : Leads M allowed s s') (hallowed : allowed s' a)
      (taken : M.step s' a = some s'') : Leads M allowed s s''

variable {M : Machine σ α} {allowed : σ → α → Prop}

theorem Leads.one {s s' : σ} {a : α} (hallowed : allowed s a) (taken : M.step s a = some s') :
    M.Leads allowed s s' :=
  .step .refl hallowed taken

theorem Leads.trans {s s' s'' : σ} (h : M.Leads allowed s s') (h' : M.Leads allowed s' s'') :
    M.Leads allowed s s'' := by
  induction h' with
  | refl => exact h
  | step before hallowed taken ih => exact .step ih hallowed taken

theorem Leads.reachable {s s' : σ} (h : M.Leads allowed s s') (hs : M.Reachable allowed s) :
    M.Reachable allowed s' := by
  induction h with
  | refl => exact hs
  | step before hallowed taken ih => exact .step ih hallowed taken

/-- Every concrete step that is allowed from a reachable state is a run of the abstract
machine. -/
structure Refines (M : Machine σ α) (allowed : σ → α → Prop) (N : Machine τ β)
    (allowed' : τ → β → Prop) (abstraction : σ → τ) : Prop where
  init : abstraction M.init = N.init
  step : ∀ s a s', M.Reachable allowed s → allowed s a → M.step s a = some s' →
    N.Leads allowed' (abstraction s) (abstraction s')

/-- **Refinement.**  What is reached concretely is reached abstractly, so whatever is known of
all abstract states holds of the abstractions of all concrete ones. -/
theorem Refines.reachable {N : Machine τ β} {allowed' : τ → β → Prop} {abstraction : σ → τ}
    (h : Refines M allowed N allowed' abstraction) {s : σ} (hs : M.Reachable allowed s) :
    N.Reachable allowed' (abstraction s) := by
  induction hs with
  | init =>
      rw [h.init]
      exact .init
  | step before hallowed taken ih => exact (h.step _ _ _ before hallowed taken).reachable ih

end Machine

end BuildYourOwnRedis.Foundation
