/-
# Loops driven by a script

A loop gets an answer in each pass and stops at some time. Whatever the answers
are is written down as a script without end. If the loop only tries again when
it is interrupted, is interrupted finitely often, and makes a natural number
smaller with every other answer, then it comes to its end; and how it ends is
decided by the first answer that ends it.
-/

import Mathlib.Data.Nat.Basic

set_option autoImplicit false

namespace OmniSocket.Lib

variable {σ α : Type*} (pass : σ → α → σ) (start : σ) (script : ℕ → α)

/-- The state after `i` answers. -/
def scripted : ℕ → σ
  | 0 => start
  | i + 1 => pass (scripted i) (script i)

variable {pass start script}

/-- One of the states is over, if there are only finitely many interruptions and every
other answer to a state that is not over ends the loop or makes it smaller. -/
theorem exists_over (Over : σ → Prop) (Idle : α → Prop) (measure : σ → ℕ)
    (busy : ∃ m, ∀ i, m ≤ i → ¬ Idle (script i))
    (progress : ∀ i, ¬ Over (scripted pass start script i) → ¬ Idle (script i) →
      Over (scripted pass start script (i + 1)) ∨
        measure (scripted pass start script (i + 1)) < measure (scripted pass start script i)) :
    ∃ i, Over (scripted pass start script i) := by
  obtain ⟨m, busy⟩ := busy
  have from_any : ∀ k i, m ≤ i → measure (scripted pass start script i) = k →
      ∃ j, Over (scripted pass start script j) := by
    intro k
    induction k using Nat.strongRecOn with
    | ind k ih =>
      intro i late size
      by_cases past : Over (scripted pass start script i)
      · exact ⟨i, past⟩
      · rcases progress i past (busy i late) with next | smaller
        · exact ⟨i + 1, next⟩
        · exact ih _ (size ▸ smaller) (i + 1) (by omega) rfl
  exact from_any _ m le_rfl rfl

/-- A loop that is over stays as it is. -/
theorem scripted_of_over {Over : σ → Prop} (stays : ∀ s a, Over s → pass s a = s) {i j : ℕ}
    (past : Over (scripted pass start script i)) (later : i ≤ j) :
    scripted pass start script j = scripted pass start script i := by
  induction j, later using Nat.le_induction with
  | base => rfl
  | succ j _ ih => rw [scripted, ih, stays _ _ past]

/-- A loop that is over ended in a certain way exactly if one of the answers that end it
in that way came while it was not over. -/
theorem ended_iff (Over Ended : σ → Prop) (Ends : α → Prop)
    (stays : ∀ s a, Over s → pass s a = s)
    (first : ¬ Ended start)
    (cause : ∀ i, ¬ Over (scripted pass start script i) →
      ¬ Ended (scripted pass start script i) ∧
        (Ended (scripted pass start script (i + 1)) ↔ Ends (script i)))
    {i : ℕ} (past : Over (scripted pass start script i)) :
    Ended (scripted pass start script i) ↔
      ∃ j, ¬ Over (scripted pass start script j) ∧ Ends (script j) := by
  have before : ∀ i, Ended (scripted pass start script i) ↔
      ∃ j < i, ¬ Over (scripted pass start script j) ∧ Ends (script j) := by
    intro i
    induction i with
    | zero => exact iff_of_false first fun ⟨j, less, _⟩ => absurd less (Nat.not_lt_zero j)
    | succ i ih =>
      by_cases past : Over (scripted pass start script i)
      · have same : scripted pass start script (i + 1) = scripted pass start script i :=
          stays _ _ past
        rw [same, ih]
        constructor
        · rintro ⟨j, less, ends⟩
          exact ⟨j, by omega, ends⟩
        · rintro ⟨j, less, running, ends⟩
          have other : j ≠ i := fun eq => running (eq ▸ past)
          exact ⟨j, by omega, running, ends⟩
      · rw [(cause i past).2]
        constructor
        · exact fun ends => ⟨i, by omega, past, ends⟩
        · rintro ⟨j, less, running, ends⟩
          rcases Nat.lt_succ_iff_lt_or_eq.mp less with earlier | rfl
          · exact absurd (ih.mpr ⟨j, earlier, running, ends⟩) (cause i past).1
          · exact ends
  rw [before]
  constructor
  · rintro ⟨j, -, running, ends⟩
    exact ⟨j, running, ends⟩
  · rintro ⟨j, running, ends⟩
    refine ⟨j, ?_, running, ends⟩
    by_contra later
    exact running (scripted_of_over stays past (not_lt.mp later) ▸ past)

end OmniSocket.Lib
