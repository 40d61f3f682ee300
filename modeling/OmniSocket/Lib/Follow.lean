/-
# One machine that follows another

What a step of a machine amounts to can be written down in the labels of another
machine: nothing at all, one label, or several. If every step leads the other machine
along, then so does every run, and what is known of all runs of the other machine is
known of this one. The other machine may be a coarser model of the same system, or a
monitor that does nothing but refuse what must not happen.
-/

import OmniSocket.Lib.Machine

set_option autoImplicit false

namespace OmniSocket.Lib.Machine

variable {σ ℓ τ ε : Type*} (M : Machine σ ℓ) (tells : σ → ℓ → List ε)

/-- What the steps of a run amount to. -/
def told : σ → List ℓ → List ε
  | _, [] => []
  | s, l :: rest => tells s l ++ ((M.step s l).map fun t => told t rest).getD []

theorem told_cons {s t : σ} {l : ℓ} (step : M.step s l = some t) (rest : List ℓ) :
    M.told tells s (l :: rest) = tells s l ++ M.told tells t rest := by
  rw [told, step, Option.map_some, Option.getD_some]

/-- Along `R` the machine `N` can do what every step of `M` amounts to. -/
def Follows (N : Machine τ ε) (R : σ → τ → Prop) : Prop :=
  ∀ s l s' t, R s t → M.step s l = some s' → ∃ t', N.run t (tells s l) = some t' ∧ R s' t'

variable {M tells}

/-- What holds of every step holds of every run. -/
theorem Follows.run {N : Machine τ ε} {R : σ → τ → Prop} (follows : M.Follows tells N R)
    {s s' : σ} {t : τ} {labels : List ℓ} (related : R s t) (hrun : M.run s labels = some s') :
    ∃ t', N.run t (M.told tells s labels) = some t' ∧ R s' t' := by
  induction labels generalizing s t with
  | nil =>
    obtain rfl := Option.some.inj hrun
    exact ⟨t, rfl, related⟩
  | cons l rest ih =>
    obtain ⟨u, step, others⟩ := M.run_cons_eq_some.mp hrun
    obtain ⟨v, first, related'⟩ := follows s l u t related step
    obtain ⟨t', onward, last⟩ := ih related' others
    refine ⟨t', ?_, last⟩
    rw [told_cons M tells step]
    exact N.run_append_eq_some.mpr ⟨v, first, onward⟩

end OmniSocket.Lib.Machine
