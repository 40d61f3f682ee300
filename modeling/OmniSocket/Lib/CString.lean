/-
# Strings that end with a NUL

C hands a string over as the place where it starts. The string is what stands
there up to the first NUL.
-/

import Mathlib.Data.List.TakeWhile
import Mathlib.Data.UInt

set_option autoImplicit false

namespace OmniSocket.Lib

/-- A string without the NUL that ends it. -/
structure CString where
  bytes : List UInt8
  noNul : ∀ b ∈ bytes, b ≠ 0

namespace CString

/-- The string that starts at the beginning of a piece of memory. -/
def ofMemory (memory : List UInt8) : CString where
  bytes := memory.takeWhile (· ≠ 0)
  noNul b member := by simpa using List.mem_takeWhile_imp member

/-- A string is read back from where it was stored with its NUL. -/
theorem ofMemory_append (s : CString) (rest : List UInt8) :
    (ofMemory (s.bytes ++ 0 :: rest)).bytes = s.bytes := by
  have all : ∀ b ∈ s.bytes, decide (b ≠ 0) = true := fun b member => by simpa using s.noNul b member
  change (s.bytes ++ 0 :: rest).takeWhile _ = s.bytes
  rw [List.takeWhile_append_of_pos all]
  simp

/-- The NUL behind a piece of memory is not part of any string in it. -/
theorem length_ofMemory_le (memory : List UInt8) :
    (ofMemory (memory ++ [0])).bytes.length ≤ memory.length := by
  change ((memory ++ [0]).takeWhile _).length ≤ _
  induction memory with
  | nil => decide
  | cons b memory ih =>
    rw [List.cons_append, List.takeWhile_cons]
    split
    · exact Nat.succ_le_succ ih
    · exact Nat.zero_le _

/-- What is left of a string when its end is cut off. -/
def take (n : ℕ) (s : CString) : CString where
  bytes := s.bytes.take n
  noNul b member := s.noNul b (List.mem_of_mem_take member)

end CString

end OmniSocket.Lib
