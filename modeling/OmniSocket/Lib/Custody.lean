/-
# Custody

Things are created, pass from hand to hand and are released. Nothing is lost and
nothing is released twice exactly if what has been released and what is in
somebody's hands are together, each once, what has been created. Three rules keep
that: a new thing goes into a hand, hands may exchange what they hold, and what
is released leaves its hand.
-/

import Mathlib.Data.List.Basic
import Mathlib.Data.List.Nodup

set_option autoImplicit false

namespace OmniSocket.Lib

variable {α : Type*} {created released held held' : List α} {a : α}

/-- What has been created has been released or is held, and neither twice nor both. -/
structure Custody (created released held : List α) : Prop where
  once : created.Nodup
  all : (released ++ held).Perm created

namespace Custody

theorem start : Custody ([] : List α) [] [] := ⟨List.nodup_nil, .refl _⟩

/-- Hands exchange what they hold. -/
theorem pass (custody : Custody created released held) (same : held'.Perm held) :
    Custody created released held' :=
  ⟨custody.once, (same.append_left released).trans custody.all⟩

/-- A new thing goes into a hand. -/
theorem create (custody : Custody created released held) (fresh : a ∉ created) :
    Custody (created ++ [a]) released (a :: held) := by
  refine ⟨List.nodup_append.mpr ⟨custody.once, List.nodup_singleton a, ?_⟩, ?_⟩
  · rintro b member c single rfl
    exact fresh (List.mem_singleton.mp single ▸ member)
  · calc (released ++ a :: held).Perm (a :: (released ++ held)) := List.perm_middle
      List.Perm _ (a :: created) := custody.all.cons a
      List.Perm _ (created ++ [a]) := (List.perm_append_singleton a created).symm

/-- What is released leaves its hand. -/
theorem release (custody : Custody created released (a :: held)) :
    Custody created (released ++ [a]) held := by
  refine ⟨custody.once, ?_⟩
  rw [List.append_assoc]
  exact custody.all

theorem nodup (custody : Custody created released held) : (released ++ held).Nodup :=
  custody.all.nodup_iff.mpr custody.once

/-- Nothing is released twice. -/
theorem released_once (custody : Custody created released held) : released.Nodup :=
  (List.nodup_append.mp custody.nodup).1

/-- What is held has not been released. -/
theorem not_released (custody : Custody created released held) (member : a ∈ held) :
    a ∉ released :=
  fun gone => (List.nodup_append.mp custody.nodup).2.2 a gone a member rfl

/-- Only what was created is released. -/
theorem created_of_released (custody : Custody created released held) (member : a ∈ released) :
    a ∈ created :=
  custody.all.subset (List.mem_append_left held member)

/-- Once nothing is held, everything has been released. -/
theorem released_all (custody : Custody created released []) : released.Perm created := by
  have all := custody.all
  rwa [List.append_nil] at all

end Custody

end OmniSocket.Lib
