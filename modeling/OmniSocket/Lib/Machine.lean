/-
# Machines stepped by their environment

A machine moves from state to state under labels that carry whatever the
environment decides: the result of a system call, a clock reading, which thread
runs next. A step that the environment cannot cause has no successor, so an
assumption about the environment is a guard of the step function and a run is
any list of labels the machine accepts.

Properties of whole runs come from two rules. An invariant that every step
keeps holds at the end of every run, and an invariant that every permitted step
keeps holds at the end of every run whose steps are all permitted.
-/

import Mathlib.Data.Option.Basic
import Mathlib.Data.List.Basic

set_option autoImplicit false

namespace OmniSocket.Lib

/-- A labelled machine with at most one successor for each label. -/
structure Machine (σ ℓ : Type*) where
  /-- The successor of a state under a label, when the label is enabled. -/
  step : σ → ℓ → Option σ

namespace Machine

variable {σ ℓ : Type*} (M : Machine σ ℓ)

/-- The state a list of labels leads to. -/
def run : σ → List ℓ → Option σ
  | s, [] => some s
  | s, l :: rest => (M.step s l).bind fun t => run t rest

@[simp] theorem run_nil (s : σ) : M.run s [] = some s := rfl

theorem run_cons (s : σ) (l : ℓ) (rest : List ℓ) :
    M.run s (l :: rest) = (M.step s l).bind fun t => M.run t rest := rfl

/-- A nonempty run is one step followed by a run. -/
theorem run_cons_eq_some {s t : σ} {l : ℓ} {rest : List ℓ} :
    M.run s (l :: rest) = some t ↔ ∃ u, M.step s l = some u ∧ M.run u rest = some t := by
  rw [run_cons, Option.bind_eq_some_iff]

/-- A run over a concatenation passes through an intermediate state. -/
theorem run_append_eq_some {s t : σ} {first second : List ℓ} :
    M.run s (first ++ second) = some t ↔
      ∃ u, M.run s first = some u ∧ M.run u second = some t := by
  induction first generalizing s with
  | nil => simp
  | cons l rest ih =>
    simp only [List.cons_append, run_cons_eq_some, ih]
    constructor
    · rintro ⟨v, hstep, u, hrest, hsecond⟩
      exact ⟨u, ⟨v, hstep, hrest⟩, hsecond⟩
    · rintro ⟨u, ⟨v, hstep, hrest⟩, hsecond⟩
      exact ⟨v, hstep, u, hrest, hsecond⟩

/-- Every step of the run is permitted in the state it is taken from. -/
def Permits (permitted : σ → ℓ → Prop) : σ → List ℓ → Prop
  | _, [] => True
  | s, l :: rest => permitted s l ∧ ∀ t, M.step s l = some t → Permits permitted t rest

/-- The first part of a permitted run is permitted. -/
theorem Permits.before {permitted : σ → ℓ → Prop} {s : σ} {first second : List ℓ}
    (ok : M.Permits permitted s (first ++ second)) : M.Permits permitted s first := by
  induction first generalizing s with
  | nil => trivial
  | cons l rest ih => exact ⟨ok.1, fun t hstep => ih (ok.2 t hstep)⟩

/-- A run is permitted exactly if each of its steps is, in the state the labels before it
lead to. -/
theorem permits_iff {permitted : σ → ℓ → Prop} {s : σ} {labels : List ℓ} :
    M.Permits permitted s labels ↔ ∀ before l after u, labels = before ++ l :: after →
      M.run s before = some u → permitted u l := by
  induction labels generalizing s with
  | nil => simp [Permits]
  | cons l rest ih =>
    constructor
    · rintro ⟨first, later⟩ before m after u split hrun
      cases before with
      | nil =>
        obtain ⟨rfl, rfl⟩ := List.cons.inj split
        obtain rfl := Option.some.inj hrun
        exact first
      | cons k before =>
        obtain ⟨rfl, tail⟩ := List.cons.inj split
        obtain ⟨v, hstep, hrest⟩ := M.run_cons_eq_some.mp hrun
        exact ih.mp (later v hstep) before m after u tail hrest
    · intro all
      refine ⟨all [] l rest s rfl rfl, fun t hstep => ih.mpr ?_⟩
      intro before m after u split hrun
      refine all (l :: before) m after u (by rw [split, List.cons_append]) ?_
      exact M.run_cons_eq_some.mpr ⟨t, hstep, hrun⟩

/-- What every permitted step keeps holds at the end of every permitted run. -/
theorem run_invariant_of_permits {I : σ → Prop} {permitted : σ → ℓ → Prop}
    (keeps : ∀ s l t, I s → permitted s l → M.step s l = some t → I t) {s t : σ}
    {labels : List ℓ} (start : I s) (ok : M.Permits permitted s labels)
    (hrun : M.run s labels = some t) : I t := by
  induction labels generalizing s with
  | nil =>
    rw [run_nil, Option.some_inj] at hrun
    exact hrun ▸ start
  | cons l rest ih =>
    obtain ⟨u, hstep, hrest⟩ := M.run_cons_eq_some.mp hrun
    exact ih (keeps s l u start ok.1 hstep) (ok.2 u hstep) hrest

/-- What every step keeps holds at the end of every run. -/
theorem run_invariant {I : σ → Prop}
    (keeps : ∀ s l t, I s → M.step s l = some t → I t) {s t : σ} {labels : List ℓ}
    (start : I s) (hrun : M.run s labels = some t) : I t := by
  have free : M.Permits (fun _ _ => True) s labels :=
    M.permits_iff.mpr fun _ _ _ _ _ _ => trivial
  exact M.run_invariant_of_permits (fun s l t before _ => keeps s l t before) start free hrun

/-- If every step of a machine is a step of another, seen through a map, so is every run. -/
theorem run_map {τ κ : Type*} {N : Machine τ κ} {f : σ → τ} {g : ℓ → κ}
    (follows : ∀ s l t, M.step s l = some t → N.step (f s) (g l) = some (f t)) {s t : σ}
    {labels : List ℓ} (hrun : M.run s labels = some t) :
    N.run (f s) (labels.map g) = some (f t) := by
  induction labels generalizing s with
  | nil => exact congrArg (fun s => some (f s)) (Option.some.inj hrun)
  | cons l rest ih =>
    obtain ⟨u, hstep, hrest⟩ := M.run_cons_eq_some.mp hrun
    exact N.run_cons_eq_some.mpr ⟨f u, follows s l u hstep, ih hrest⟩

end Machine

end OmniSocket.Lib
