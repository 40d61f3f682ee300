/-
# Machines that come to an end

Some labels change nothing that matters: a system call is interrupted, or
another thread moves. A machine comes to an end under the others if no run takes
them without end, and if it can take one of them in every state in which it is
not yet over. The first is shown with a number that every such step makes
smaller; a part of the state space that such a step never has to leave shows
that it is not so.
-/

import OmniSocket.Lib.Machine
import Mathlib.Data.Nat.Basic
import Mathlib.Order.WellFounded

set_option autoImplicit false

namespace OmniSocket.Lib

namespace Machine

variable {σ ℓ : Type*} (M : Machine σ ℓ)

/-- A run without end. -/
structure Endless (s : σ) (states : ℕ → σ) (labels : ℕ → ℓ) : Prop where
  first : states 0 = s
  step : ∀ i, M.step (states i) (labels i) = some (states (i + 1))

/-- From `s` on the machine comes to an end, except for idle steps. -/
structure Ends (Idle : ℓ → Prop) (Over : σ → Prop) (s : σ) : Prop where
  finite : ∀ states labels, M.Endless s states labels → ∃ m, ∀ i, m ≤ i → Idle (labels i)
  onward : ∀ labels t, M.run s labels = some t →
    Over t ∨ ∃ l u, ¬ Idle l ∧ M.step t l = some u

/-- Each step that is not idle makes a number smaller, and no step makes it larger. -/
theorem ends_of_measure {Idle : ℓ → Prop} {Over I : σ → Prop} {s : σ} (measure : σ → ℕ)
    (start : I s) (keeps : ∀ s l t, I s → M.step s l = some t → I t)
    (smaller : ∀ s l t, I s → M.step s l = some t → ¬ Idle l → measure t < measure s)
    (steady : ∀ s l t, I s → M.step s l = some t → Idle l → measure t ≤ measure s)
    (onward : ∀ s, I s → Over s ∨ ∃ l t, ¬ Idle l ∧ M.step s l = some t) :
    M.Ends Idle Over s := by
  refine ⟨?_, fun labels t hrun => onward t (M.run_invariant keeps start hrun)⟩
  rintro states labels ⟨rfl, step⟩
  have all : ∀ i, I (states i) := by
    intro i
    induction i with
    | zero => exact start
    | succ i ih => exact keeps _ _ _ ih (step i)
  -- where the number is least, only idle steps can follow
  let m := Function.argmin fun i => measure (states i)
  have least : ∀ j, measure (states m) ≤ measure (states j) :=
    fun j => Function.argmin_le (fun i => measure (states i)) j
  refine ⟨m, ?_⟩
  have level : ∀ k, measure (states (m + k)) = measure (states m) := by
    intro k
    induction k with
    | zero => rfl
    | succ k ih =>
      have next := step (m + k)
      have down : measure (states (m + k + 1)) ≤ measure (states (m + k)) := by
        by_cases idle : Idle (labels (m + k))
        · exact steady _ _ _ (all _) next idle
        · exact (smaller _ _ _ (all _) next idle).le
      exact le_antisymm (down.trans ih.le) (least (m + k + 1))
  intro i later
  obtain ⟨k, rfl⟩ := Nat.exists_eq_add_of_le later
  by_contra idle
  have less := smaller _ _ _ (all (m + k)) (step (m + k)) idle
  have same := level (k + 1)
  rw [level k] at less
  exact absurd same (ne_of_lt less)

/-- A machine that can stay in `R` with steps that are not idle does not come to an end. -/
theorem not_ends_of_onward {Idle : ℓ → Prop} {Over R : σ → Prop} {s : σ} (start : R s)
    (onward : ∀ s, R s → ∃ l t, ¬ Idle l ∧ M.step s l = some t ∧ R t) :
    ¬ M.Ends Idle Over s := by
  intro ends
  choose label next busy step stays using onward
  let states : ℕ → { s // R s } := fun i =>
    i.rec ⟨s, start⟩ fun _ t => ⟨next t.1 t.2, stays t.1 t.2⟩
  have endless : M.Endless s (fun i => (states i).1) fun i => label (states i).1 (states i).2 :=
    ⟨rfl, fun i => step (states i).1 (states i).2⟩
  obtain ⟨m, idle⟩ := ends.finite _ _ endless
  exact busy (states m).1 (states m).2 (idle m le_rfl)

end Machine

end OmniSocket.Lib
