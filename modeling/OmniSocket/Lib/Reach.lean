/-
# Machines that can go on to a goal

A machine is not stuck if from where it is some labels lead to a goal. Which
labels may be used for it is a parameter: those the environment is expected to
offer. A goal that is reached in several stages, each of which makes a number
smaller, is reached.
-/

import OmniSocket.Lib.Machine

set_option autoImplicit false

namespace OmniSocket.Lib

namespace Machine

variable {σ ℓ : Type*} (M : Machine σ ℓ) {Kind : ℓ → Prop} {s t u : σ}

/-- From `s` some labels of the kind lead to `t`. -/
def Leads (Kind : ℓ → Prop) (s t : σ) : Prop :=
  ∃ labels, (∀ l ∈ labels, Kind l) ∧ M.run s labels = some t

variable {M}

theorem Leads.refl (s : σ) : M.Leads Kind s s := ⟨[], by simp, M.run_nil s⟩

theorem Leads.single {l : ℓ} (kind : Kind l) (step : M.step s l = some t) : M.Leads Kind s t :=
  ⟨[l], by simpa using kind, M.run_cons_eq_some.mpr ⟨t, step, M.run_nil t⟩⟩

theorem Leads.trans (first : M.Leads Kind s t) (second : M.Leads Kind t u) :
    M.Leads Kind s u := by
  obtain ⟨labels, kinds, hrun⟩ := first
  obtain ⟨labels', kinds', hrun'⟩ := second
  exact ⟨labels ++ labels', fun l member => (List.mem_append.mp member).elim (kinds l) (kinds' l),
    M.run_append_eq_some.mpr ⟨t, hrun, hrun'⟩⟩

end Machine

end OmniSocket.Lib
