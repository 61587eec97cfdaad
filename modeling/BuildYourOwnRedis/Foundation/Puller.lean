/-
  Foundation/Puller.lean --- incremental readers that are asked for one item at a
  time.

  A reader owns a state into which input is fed piece by piece and which is asked
  again and again for the next item; the caller may pass a mode that it chooses
  from the items delivered so far.  The three answers are an item, "nothing yet"
  and a fault.

  Feeding must not disturb an answer that is already determined.  The laws say so:
  an item or a fault stays the same when more input is fed first
  (`item_feed`, `fault_feed`), and asking too early loses nothing (`idle_feed`).
  From these follows, once and for every such reader, that the items delivered and
  the state reached do not depend on how the input was cut into pieces
  (`run_eq_of_flatten_eq`).
-/
import Mathlib

set_option autoImplicit false

namespace BuildYourOwnRedis.Foundation

/-- The answer of a reader that is asked for its next item.  A fault ends the reading: the
state behind it is not part of the answer. -/
inductive Pulled (σ μ ε : Type) where
  /-- nothing yet; the state has absorbed what it could -/
  | idle (state : σ)
  | item (value : μ) (state : σ)
  | fault (error : ε)

/-- A reader with states `σ`, input symbols `α`, modes `χ`, items `μ` and faults
`ε`, and the laws that make feeding harmless. -/
structure Puller (χ α σ μ ε : Type) where
  pull : χ → σ → Pulled σ μ ε
  feed : σ → List α → σ
  /-- every item costs some of it, so a state holds finitely many items -/
  weight : σ → Nat
  feed_feed : ∀ s x y, feed (feed s x) y = feed s (x ++ y)
  weight_item : ∀ c s m s', pull c s = .item m s' → weight s' < weight s
  item_feed : ∀ c s m s' x, pull c s = .item m s' →
    pull c (feed s x) = .item m (feed s' x)
  fault_feed : ∀ c s e x, pull c s = .fault e → pull c (feed s x) = .fault e
  idle_feed : ∀ c s s' x, pull c s = .idle s' →
    pull c (feed s x) = pull c (feed s' x)

/-- What a caller has seen after asking until there was nothing left: all items
delivered so far, and the state or the fault that ended it. -/
structure Drained (σ μ ε : Type) where
  items : List μ
  ending : Except ε σ
  deriving DecidableEq

namespace Puller

variable {χ α σ μ ε : Type} (P : Puller χ α σ μ ε)

/-- Ask until nothing comes, the mode chosen from the items delivered so far. -/
def drainFuel (listener : List μ → χ) : Nat → List μ → σ → Drained σ μ ε
  | 0, items, s => ⟨items, .ok s⟩
  | fuel + 1, items, s =>
      match P.pull (listener items) s with
      | .idle s' => ⟨items, .ok s'⟩
      | .item m s' => drainFuel listener fuel (items ++ [m]) s'
      | .fault e => ⟨items, .error e⟩

/-- Draining a state; its weight bounds the number of items. -/
def drain (listener : List μ → χ) (items : List μ) (s : σ) : Drained σ μ ε :=
  P.drainFuel listener (P.weight s + 1) items s

/-- Fuel beyond the weight makes no difference. -/
theorem drainFuel_eq_drain (listener : List μ → χ) :
    ∀ (fuel : Nat) (items : List μ) (s : σ), P.weight s < fuel →
      P.drainFuel listener fuel items s = P.drain listener items s := by
  intro fuel
  induction fuel using Nat.strongRecOn with
  | ind fuel ih =>
      intro items s hfuel
      obtain ⟨fuel, rfl⟩ : ∃ k, fuel = k + 1 := ⟨fuel - 1, by omega⟩
      simp only [drain, drainFuel]
      cases hpull : P.pull (listener items) s with
      | idle s' => rfl
      | fault e => rfl
      | item m s' =>
          have hlt := P.weight_item _ _ _ _ hpull
          simp only
          rw [ih fuel (by omega) _ s' (by omega)]
          by_cases hw : P.weight s = fuel
          · rw [hw, ih fuel (by omega) _ s' (by omega)]
          · rw [ih (P.weight s) (by omega) _ s' hlt]

/-- Draining is one question and, after an item, draining again. -/
theorem drain_eq (listener : List μ → χ) (items : List μ) (s : σ) :
    P.drain listener items s =
      match P.pull (listener items) s with
      | .idle s' => ⟨items, .ok s'⟩
      | .item m s' => P.drain listener (items ++ [m]) s'
      | .fault e => ⟨items, .error e⟩ := by
  conv => lhs; rw [drain, drainFuel]
  cases hpull : P.pull (listener items) s with
  | idle s' => rfl
  | fault e => rfl
  | item m s' =>
      exact P.drainFuel_eq_drain listener _ _ s' (P.weight_item _ _ _ _ hpull)

/-- What holds of every item that is pulled holds of every item delivered. -/
theorem forall_mem_items_drain {p : μ → Prop}
    (hp : ∀ c s m s', P.pull c s = .item m s' → p m) (listener : List μ → χ)
    (items : List μ) (s : σ) (hitems : ∀ m ∈ items, p m) :
    ∀ m ∈ (P.drain listener items s).items, p m := by
  induction hw : P.weight s using Nat.strongRecOn generalizing items s with
  | ind n ih =>
      subst hw
      rw [P.drain_eq]
      cases hpull : P.pull (listener items) s with
      | idle s' => exact hitems
      | fault e => exact hitems
      | item m s' =>
          refine ih _ (P.weight_item _ _ _ _ hpull) _ _ (fun m' hm' => ?_) rfl
          rcases List.mem_append.mp hm' with hm' | hm'
          · exact hitems m' hm'
          · obtain rfl := List.mem_singleton.mp hm'
            exact hp _ _ _ _ hpull

/-- What was delivered before stays in front. -/
theorem prefix_items_drain (listener : List μ → χ) (items : List μ) (s : σ) :
    items <+: (P.drain listener items s).items := by
  induction hw : P.weight s using Nat.strongRecOn generalizing items s with
  | ind n ih =>
      subst hw
      rw [P.drain_eq]
      cases hpull : P.pull (listener items) s with
      | idle s' => exact List.prefix_rfl
      | fault e => exact List.prefix_rfl
      | item m s' =>
          have hlt := P.weight_item _ _ _ _ hpull
          exact (List.prefix_append items [m]).trans (ih _ hlt _ _ rfl)

/-- Once the mode stays the same, what is delivered from there on is what is delivered in
that mode from the start. -/
theorem drain_of_mode_eq {listener : List μ → χ} {c : χ} {before : List μ}
    (hmode : ∀ more, listener (before ++ more) = c) (items : List μ) (s : σ) :
    P.drain listener (before ++ items) s =
      ⟨before ++ (P.drain (fun _ => c) items s).items,
        (P.drain (fun _ => c) items s).ending⟩ := by
  induction hw : P.weight s using Nat.strongRecOn generalizing items s with
  | ind n ih =>
      subst hw
      rw [P.drain_eq listener, P.drain_eq (fun _ => c) items s, hmode]
      cases hpull : P.pull c s with
      | idle s' => rfl
      | fault e => rfl
      | item m s' =>
          simp only [List.append_assoc]
          exact ih _ (P.weight_item _ _ _ _ hpull) (items ++ [m]) s' rfl

/-- Feed one piece and drain; a fault ends everything. -/
def step (listener : List μ → χ) (d : Drained σ μ ε) (piece : List α) :
    Drained σ μ ε :=
  match d.ending with
  | .ok s => P.drain listener d.items (P.feed s piece)
  | .error _ => d

/-- Feed the pieces one after the other, draining after each. -/
def run (listener : List μ → χ) (pieces : List (List α)) (s : σ) :
    Drained σ μ ε :=
  pieces.foldl (P.step listener) ⟨[], .ok s⟩

/-- Feeding before or after draining gives the same items and the same ending. -/
theorem drain_feed (listener : List μ → χ) (y : List α) :
    ∀ (n : Nat) (items : List μ) (s : σ), P.weight s < n →
      P.drain listener items (P.feed s y) =
        P.step listener (P.drain listener items s) y := by
  intro n
  induction n with
  | zero => intro items s h; omega
  | succ n ih =>
      intro items s hweight
      rw [P.drain_eq listener items s, P.drain_eq listener items (P.feed s y)]
      cases hpull : P.pull (listener items) s with
      | idle s' =>
          rw [P.idle_feed _ _ _ y hpull]
          simp only [step]
          rw [P.drain_eq listener items (P.feed s' y)]
      | fault e => rw [P.fault_feed _ _ _ y hpull]; rfl
      | item m s' =>
          rw [P.item_feed _ _ _ _ y hpull]
          exact ih _ s' (by have := P.weight_item _ _ _ _ hpull; omega)

/-- Two pieces in a row are the two together.  The items that the first piece completes are the
first of those of both, since what is pulled does not depend on what is still to come. -/
theorem step_step (listener : List μ → χ) (d : Drained σ μ ε) (x y : List α) :
    P.step listener (P.step listener d x) y = P.step listener d (x ++ y) := by
  cases hend : d.ending with
  | error e => simp [step, hend]
  | ok s =>
      have h := P.drain_feed listener y _ d.items (P.feed s x) (Nat.lt_succ_self _)
      rw [P.feed_feed] at h
      simp only [step, hend, h]

/-- A state is settled when asking it again gives nothing and changes nothing.  This is the
state in which a listener leaves its reader until more comes. -/
def Settled (listener : List μ → χ) (d : Drained σ μ ε) : Prop :=
  P.step listener d [] = d

theorem foldl_step_eq (listener : List μ → χ) (pieces : List (List α))
    (d : Drained σ μ ε) (h : P.Settled listener d) :
    pieces.foldl (P.step listener) d = P.step listener d pieces.flatten := by
  induction pieces generalizing d with
  | nil => exact h.symm
  | cons x pieces ih =>
      have hsettled : P.Settled listener (P.step listener d x) := by
        rw [Settled, P.step_step, List.append_nil]
      rw [List.foldl_cons, ih _ hsettled, P.step_step, List.flatten_cons]

/-- However the input is cut into pieces, a reader that starts settled delivers
the same items and ends in the same state or with the same fault. -/
theorem run_eq_of_flatten_eq (listener : List μ → χ) {pieces pieces' : List (List α)}
    (s : σ) (hs : P.Settled listener ⟨[], .ok s⟩)
    (h : pieces.flatten = pieces'.flatten) :
    P.run listener pieces s = P.run listener pieces' s := by
  simp only [run, P.foldl_step_eq listener _ _ hs, h]

end Puller

end BuildYourOwnRedis.Foundation
