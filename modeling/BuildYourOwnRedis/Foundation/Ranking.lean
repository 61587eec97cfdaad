/-
  Foundation/Ranking.lean --- how long a part of a run can take.

  A ranking function counts what is left to do.  The steps of the part under consideration
  lower it as long as something is left, and no other step raises it, however many there
  are in between.

  Where other steps bring new work, they pay for it: the steps of the part are paid from the
  rank and from a credit that the others raise.
-/
import BuildYourOwnRedis.Foundation.Transition

set_option autoImplicit false

namespace BuildYourOwnRedis.Foundation

namespace Machine

variable {σ α : Type} {M : Machine σ α} {allowed : σ → α → Prop}

/-- No step raises the rank, and the counted steps lower it while it is positive.  So a run
with as many counted steps as the rank at its beginning ends at 0, however they are interleaved
with others. -/
structure Ranking (M : Machine σ α) (allowed : σ → α → Prop) (rank : σ → Nat)
    (counted : α → Bool) : Prop where
  le {s s' : σ} {a : α} (hs : M.Reachable allowed s) (hallowed : allowed s a)
    (htaken : M.step s a = some s') : rank s' ≤ rank s
  lt {s s' : σ} {a : α} (hs : M.Reachable allowed s) (hallowed : allowed s a)
    (htaken : M.step s a = some s') (hcounted : counted a = true) : rank s' ≤ rank s - 1

variable [∀ s a, Decidable (allowed s a)] {rank : σ → Nat} {counted : α → Bool}

/-- A run lowers the rank by the number of its counted steps. -/
theorem Ranking.run (h : M.Ranking allowed rank counted) {s s' : σ} {actions : List α}
    (hs : M.Reachable allowed s) (hrun : M.run allowed s actions = some s') :
    rank s' ≤ rank s - actions.countP counted := by
  induction actions generalizing s with
  | nil =>
      obtain rfl := Option.some.inj hrun
      exact Nat.le_refl _
  | cons a actions ih =>
      rw [Machine.run] at hrun
      split at hrun
      · next hallowed =>
          split at hrun
          · next s₁ htaken =>
              have hrest := ih (.step hs hallowed htaken) hrun
              rw [List.countP_cons]
              by_cases hcounted : counted a = true
              · have hlt := h.lt hs hallowed htaken hcounted
                rw [if_pos hcounted]
                omega
              · have hle := h.le hs hallowed htaken
                rw [if_neg hcounted]
                omega
          · cases hrun
      · cases hrun

/-- So many counted steps are enough. -/
theorem Ranking.eq_zero (h : M.Ranking allowed rank counted) {s : σ} {actions : List α}
    (hrun : M.run allowed M.init actions = some s)
    (hmany : rank M.init ≤ actions.countP counted) : rank s = 0 := by
  have hle := h.run .init hrun
  omega

omit [∀ s a, Decidable (allowed s a)] in
/-- While `live` lasts, the counted steps are paid from the rank and from what is added to the
credit. -/
structure Amortized (M : Machine σ α) (allowed : σ → α → Prop) (live : σ → Prop)
    (rank credit : σ → Nat) (counted : α → Bool) : Prop where
  step {s s' : σ} {a : α} (hs : M.Reachable allowed s) (hallowed : allowed s a)
    (htaken : M.step s a = some s') (hlive : live s') :
    live s ∧ rank s' + credit s + (counted a).toNat ≤ rank s + credit s'

/-- A run has no more counted steps than are paid for. -/
theorem Amortized.run {live : σ → Prop} {credit : σ → Nat}
    (h : M.Amortized allowed live rank credit counted) {s s' : σ} {actions : List α}
    (hs : M.Reachable allowed s) (hrun : M.run allowed s actions = some s') (hlive : live s') :
    live s ∧ rank s' + credit s + actions.countP counted ≤ rank s + credit s' := by
  induction actions generalizing s with
  | nil =>
      obtain rfl := Option.some.inj hrun
      exact ⟨hlive, Nat.le_refl _⟩
  | cons a actions ih =>
      rw [Machine.run] at hrun
      split at hrun
      · next hallowed =>
          split at hrun
          · next s₁ htaken =>
              obtain ⟨hlive₁, hrest⟩ := ih (.step hs hallowed htaken) hrun
              obtain ⟨hlive₀, hfirst⟩ := h.step hs hallowed htaken hlive₁
              refine ⟨hlive₀, ?_⟩
              rw [List.countP_cons]
              cases hcounted : counted a with
              | true =>
                  rw [hcounted, Bool.toNat_true] at hfirst
                  rw [if_pos rfl]
                  omega
              | false =>
                  rw [hcounted, Bool.toNat_false] at hfirst
                  rw [if_neg Bool.false_ne_true]
                  omega
          · cases hrun
      · cases hrun

end Machine

end BuildYourOwnRedis.Foundation
