/-
# Buffers with a bound

A buffer is the list of what is in it. A store says where it puts what, and a
load what it wants from where; either fails if that is not all inside the
buffer. A loop that goes through a buffer from its start always stores right
behind what it has stored so far, and loads what comes next.
-/

import Mathlib.Data.List.Basic
import Mathlib.Tactic.SplitIfs

set_option autoImplicit false

namespace OmniSocket.Lib

variable {α : Type*}

/-- The buffer after `data` is stored from `off` on. -/
def storeAt (buf : List α) (off : ℕ) (data : List α) : Option (List α) :=
  if off + data.length ≤ buf.length then
    some (buf.take off ++ data ++ buf.drop (off + data.length))
  else none

/-- The `k` entries of a buffer from `off` on. -/
def loadAt (buf : List α) (off k : ℕ) : Option (List α) :=
  if off + k ≤ buf.length then some ((buf.drop off).take k) else none

/-- A store right behind what was written takes its room from what is free. -/
theorem storeAt_written (written : List α) {free : List α} (data : List α)
    (fits : data.length ≤ free.length) :
    storeAt (written ++ free) written.length data =
      some (written ++ data ++ free.drop data.length) := by
  rw [storeAt, if_pos (by rw [List.length_append]; omega), List.take_left, List.drop_append]
  simp

/-- A load of what comes next makes the part that was gone through longer. -/
theorem loadAt_next {buf : List α} {off k : ℕ} (fits : off + k ≤ buf.length) :
    ∃ data, loadAt buf off k = some data ∧ buf.take off ++ data = buf.take (off + k) := by
  refine ⟨_, if_pos fits, ?_⟩
  rw [List.take_add]

end OmniSocket.Lib
