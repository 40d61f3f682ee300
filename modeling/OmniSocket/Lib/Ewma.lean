/-
# Exponentially weighted averages

Each sample moves the average a fixed part of the way towards itself, and the
first sample is the first average. Two such averages over the same samples keep
their difference, but for a power of what each step keeps.

An accumulator that takes a value that is not positive as the sign that there
has been no sample yet computes this average of nonnegative samples unless the
first of them is zero and a later one is not.
-/

import Mathlib.Algebra.Order.Field.Basic
import Mathlib.Tactic.Linarith
import Mathlib.Tactic.Positivity
import Mathlib.Tactic.Ring

set_option autoImplicit false

namespace OmniSocket.Lib

variable {K : Type*} [Field K] {α : K}

/-- The average after one more sample. -/
def ewmaStep (α avg sample : K) : K := avg * (1 - α) + sample * α

/-- The average of samples, which is zero if there are none. -/
def ewma (α : K) : List K → K
  | [] => 0
  | first :: rest => rest.foldl (ewmaStep α) first

/-- Averages of the same samples differ by as much as they did, but for the power. -/
theorem foldl_ewmaStep_sub (a b : K) (samples : List K) :
    samples.foldl (ewmaStep α) a - samples.foldl (ewmaStep α) b =
      (1 - α) ^ samples.length * (a - b) := by
  induction samples generalizing a b with
  | nil => simp
  | cons sample rest ih =>
    rw [List.foldl_cons, List.foldl_cons, ih, List.length_cons, pow_succ, ewmaStep, ewmaStep]
    ring

variable [LinearOrder K]

/-- One step of the accumulator that starts anew from a value that is not positive. -/
def markedStep (α avg sample : K) : K := if avg ≤ 0 then sample else ewmaStep α avg sample

/-- What the accumulator makes of samples. -/
def markedEwma (α : K) (samples : List K) : K := samples.foldl (markedStep α) 0

variable [IsStrictOrderedRing K]

theorem ewmaStep_pos {avg sample : K} (pos : 0 < α) (less : α < 1) (positive : 0 < avg)
    (nonneg : 0 ≤ sample) : 0 < ewmaStep α avg sample := by
  have kept : 0 < 1 - α := sub_pos.mpr less
  exact add_pos_of_pos_of_nonneg (mul_pos positive kept) (mul_nonneg nonneg pos.le)

/-- From a positive value on the accumulator is the average. -/
theorem foldl_markedStep_of_pos {avg : K} {samples : List K} (pos : 0 < α) (less : α < 1)
    (positive : 0 < avg) (nonneg : ∀ s ∈ samples, 0 ≤ s) :
    samples.foldl (markedStep α) avg = samples.foldl (ewmaStep α) avg := by
  induction samples generalizing avg with
  | nil => rfl
  | cons sample rest ih =>
    have next := ewmaStep_pos pos less positive (nonneg sample List.mem_cons_self)
    rw [List.foldl_cons, List.foldl_cons, markedStep, if_neg positive.not_ge]
    exact ih next fun s member => nonneg s (List.mem_cons_of_mem _ member)

/-- From zero it is the average as long as there are only zeros. The first sample that is
not zero it takes for the first of all, and that difference never vanishes. -/
theorem foldl_markedStep_zero_iff {samples : List K} (pos : 0 < α) (less : α < 1)
    (nonneg : ∀ s ∈ samples, 0 ≤ s) :
    samples.foldl (markedStep α) 0 = samples.foldl (ewmaStep α) 0 ↔ ∀ s ∈ samples, s = 0 := by
  induction samples with
  | nil => simp
  | cons sample rest ih =>
    have later : ∀ s ∈ rest, 0 ≤ s := fun s member => nonneg s (List.mem_cons_of_mem _ member)
    rw [List.foldl_cons, List.foldl_cons, markedStep, if_pos le_rfl, List.forall_mem_cons]
    rcases (nonneg sample List.mem_cons_self).eq_or_lt with rfl | positive
    · have still : ewmaStep α 0 0 = 0 := by simp [ewmaStep]
      rw [still, ih later, and_iff_right rfl]
    · refine iff_of_false ?_ fun zeros => positive.ne' zeros.1
      rw [foldl_markedStep_of_pos pos less positive later, ← sub_eq_zero, foldl_ewmaStep_sub]
      have kept : 0 < 1 - α := sub_pos.mpr less
      have apart : sample - ewmaStep α 0 sample = sample * (1 - α) := by
        rw [ewmaStep]
        ring
      rw [apart]
      exact ne_of_gt (by positivity)

/-- Exactly when the accumulator computes the average. -/
theorem markedEwma_eq_iff {samples : List K} (pos : 0 < α) (less : α < 1)
    (nonneg : ∀ s ∈ samples, 0 ≤ s) :
    markedEwma α samples = ewma α samples ↔ samples.head? ≠ some 0 ∨ ∀ s ∈ samples, s = 0 := by
  cases samples with
  | nil => simp [markedEwma, ewma]
  | cons first rest =>
    have later : ∀ s ∈ rest, 0 ≤ s := fun s member => nonneg s (List.mem_cons_of_mem _ member)
    rw [markedEwma, ewma, List.foldl_cons, markedStep, if_pos le_rfl, List.forall_mem_cons]
    rcases (nonneg first List.mem_cons_self).eq_or_lt with rfl | positive
    · rw [foldl_markedStep_zero_iff pos less later]
      simp
    · exact iff_of_true (foldl_markedStep_of_pos pos less positive later)
        (.inl (by simpa using positive.ne'))

end OmniSocket.Lib
