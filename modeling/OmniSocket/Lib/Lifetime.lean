/-
# Lifetimes

A thing is opened, used and closed, and may be opened again after that. A monitor that
knows what is open at the moment refuses to open it twice, to use it outside its
lifetime, and to close it when it is not open. An account that the monitor accepts uses
everything within its lifetime and closes everything as often as it was opened, except
for what is still open.
-/

import OmniSocket.Lib.Follow
import Mathlib.Data.Finset.Basic
import Mathlib.Data.List.Count

set_option autoImplicit false

namespace OmniSocket.Lib

/-- What happens to a thing. -/
inductive Use (α : Type*)
  | opens (a : α)
  | uses (a : α)
  | closes (a : α)
  deriving DecidableEq, Repr

variable {α : Type*} [DecidableEq α]

/-- The monitor. Its state is what is open. -/
def lifetimes : Machine (Finset α) (Use α) where
  step
    | live, .opens a => if a ∈ live then none else some (insert a live)
    | live, .uses a => if a ∈ live then some live else none
    | live, .closes a => if a ∈ live then some (live.erase a) else none

variable {live live' : Finset α} {account : List (Use α)}

/-- Using what is open changes nothing. -/
theorem run_uses (things : List α) (all : ∀ a ∈ things, a ∈ live) :
    lifetimes.run live (things.map .uses) = some live := by
  induction things with
  | nil => rfl
  | cons a rest ih =>
    rw [List.forall_mem_cons] at all
    exact lifetimes.run_cons_eq_some.mpr ⟨live, if_pos all.1, ih all.2⟩

/-- One entry of the account. -/
theorem count_closes_step {use : Use α} (step : lifetimes.step live use = some live') (a : α) :
    [use].count (.closes a) + (if a ∈ live' then 1 else 0) =
      [use].count (.opens a) + (if a ∈ live then 1 else 0) := by
  cases use with
  | opens b =>
    obtain ⟨shut, next⟩ := Option.ite_none_left_eq_some.mp step
    obtain rfl := Option.some.inj next
    by_cases same : a = b
    · subst same
      simp [shut]
    · simp [same, Ne.symm same]
  | uses b =>
    obtain ⟨-, next⟩ := Option.ite_none_right_eq_some.mp step
    obtain rfl := Option.some.inj next
    simp
  | closes b =>
    obtain ⟨member, next⟩ := Option.ite_none_right_eq_some.mp step
    obtain rfl := Option.some.inj next
    by_cases same : a = b
    · subst same
      simp [member]
    · simp [same, Ne.symm same]

/-- Everything is closed as often as it was opened, except for what is still open. -/
theorem count_closes (accepted : lifetimes.run live account = some live') (a : α) :
    account.count (.closes a) + (if a ∈ live' then 1 else 0) =
      account.count (.opens a) + (if a ∈ live then 1 else 0) := by
  induction account generalizing live with
  | nil =>
    obtain rfl := Option.some.inj accepted
    rfl
  | cons use rest ih =>
    obtain ⟨next, step, others⟩ := lifetimes.run_cons_eq_some.mp accepted
    have first := count_closes_step step a
    have later := ih others
    rw [← List.singleton_append, List.count_append, List.count_append]
    omega

/-- An account at whose end nothing is open has closed everything as often as opened it. -/
theorem count_closes_of_empty (accepted : lifetimes.run ∅ account = some (∅ : Finset α)) (a : α) :
    account.count (.closes a) = account.count (.opens a) := by
  simpa using count_closes accepted a

end OmniSocket.Lib
