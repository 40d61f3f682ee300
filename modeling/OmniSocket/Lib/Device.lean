/-
# Devices that answer calls

A device answers every call and goes on to another state, or it breaks down. One
device refines another if it gives the same answers wherever the other one does
not break down.
-/

import Mathlib.Data.Option.Basic

set_option autoImplicit false

namespace OmniSocket.Lib

/-- A device with states `σ`, calls `ℓ` and answers `β`. -/
structure Device (σ ℓ β : Type*) where
  step : σ → ℓ → Option (β × σ)

namespace Device

variable {σ τ ℓ β : Type*}

/-- The answers to a list of calls, and the state they lead to. -/
def run (D : Device σ ℓ β) : σ → List ℓ → Option (List β × σ)
  | s, [] => some ([], s)
  | s, l :: rest => do
    let (b, s) ← D.step s l
    let (bs, s) ← run D s rest
    some (b :: bs, s)

/-- A device that does not break down on a call does not break down on a list of calls. -/
theorem exists_run {E : Device τ ℓ β} (total : ∀ t l, ∃ b t', E.step t l = some (b, t')) (t : τ)
    (calls : List ℓ) : ∃ bs t', E.run t calls = some (bs, t') := by
  induction calls generalizing t with
  | nil => exact ⟨[], t, rfl⟩
  | cons l rest ih =>
    obtain ⟨b, u, one⟩ := total t l
    obtain ⟨bs, t', others⟩ := ih u
    exact ⟨b :: bs, t', by simp only [run, one, others, Option.bind_eq_bind, Option.bind_some]⟩

/-- Along `R` the device `D` answers as `E` does. -/
def Refines (D : Device σ ℓ β) (E : Device τ ℓ β) (R : σ → τ → Prop) : Prop :=
  ∀ s t l b t', R s t → E.step t l = some (b, t') → ∃ s', D.step s l = some (b, s') ∧ R s' t'

theorem Refines.run {D : Device σ ℓ β} {E : Device τ ℓ β} {R : σ → τ → Prop}
    (refines : D.Refines E R) {s : σ} {t t' : τ} {calls : List ℓ} {bs : List β}
    (related : R s t) (runs : E.run t calls = some (bs, t')) :
    ∃ s', D.run s calls = some (bs, s') ∧ R s' t' := by
  induction calls generalizing s t bs with
  | nil =>
    obtain ⟨rfl, rfl⟩ := Prod.mk.inj (Option.some.inj runs)
    exact ⟨s, rfl, related⟩
  | cons l rest ih =>
    obtain ⟨⟨b, u⟩, one, behind⟩ := Option.bind_eq_some_iff.mp runs
    obtain ⟨⟨bs', v⟩, others, same⟩ := Option.bind_eq_some_iff.mp behind
    obtain ⟨rfl, rfl⟩ := Prod.mk.inj (Option.some.inj same)
    obtain ⟨s₁, first, related₁⟩ := refines s t l b u related one
    obtain ⟨s', onward, related'⟩ := ih related₁ others
    refine ⟨s', ?_, related'⟩
    simp only [Device.run, first, onward, Option.bind_eq_bind, Option.bind_some]

end Device

end OmniSocket.Lib
