/-
# Serial numbers

A 32-bit counter that wraps around stands for an unbounded one. As long as two
counters are less than half the range apart, the sign of their 32-bit
difference compares the unbounded values, and as long as they are less than the
whole range apart, equal counters stand for equal values.
-/

import Mathlib.Data.Int.Basic
import Mathlib.Algebra.Group.Nat.Defs
import Mathlib.Data.Nat.Basic

set_option autoImplicit false

namespace OmniSocket.Lib

/-- The signed difference of two wrapping counters. -/
def serialDiff (later earlier : UInt32) : ℤ := (later - earlier).toInt32.toInt

theorem serialDiff_eq_bmod (later earlier : UInt32) :
    serialDiff later earlier = ((later.toNat : ℤ) - earlier.toNat).bmod (2 ^ 32) := by
  have wrapped : serialDiff later earlier = ((later - earlier).toNat : ℤ).bmod (2 ^ 32) :=
    BitVec.toInt_eq_toNat_bmod _
  have high : earlier.toNat < 2 ^ 32 := earlier.toNat_lt
  rw [wrapped, UInt32.toNat_sub, Int.natCast_mod, Int.emod_bmod]
  have same : (((2 ^ 32 - earlier.toNat + later.toNat : ℕ)) : ℤ) =
      ((later.toNat : ℤ) - earlier.toNat) + ((2 ^ 32 : ℕ) : ℤ) := by omega
  rw [same, Int.add_bmod_right]

/-- Counters less than half the range apart are compared exactly. -/
theorem serialDiff_ofNat {a b : ℕ} (above : a < b + 2 ^ 31) (below : b ≤ a + 2 ^ 31) :
    serialDiff (UInt32.ofNat a) (UInt32.ofNat b) = (a : ℤ) - b := by
  rw [serialDiff_eq_bmod, UInt32.toNat_ofNat', UInt32.toNat_ofNat', Int.natCast_mod,
    Int.natCast_mod, Int.emod_sub_bmod, Int.sub_emod_bmod]
  exact Int.bmod_eq_of_le (by omega) (by omega)

/-- A counter below half the range is not negative as a signed number. -/
theorem toInt_toInt32_ofNat {a : ℕ} (small : a < 2 ^ 31) :
    (UInt32.ofNat a).toInt32.toInt = a := by
  have diff := serialDiff_ofNat (a := a) (b := 0) (by omega) (by omega)
  simpa [serialDiff] using diff

/-- Equal counters less than the whole range apart stand for equal values. -/
theorem ofNat_inj_of_near {a b : ℕ} (above : a < b + 2 ^ 32) (below : b < a + 2 ^ 32) :
    UInt32.ofNat a = UInt32.ofNat b ↔ a = b := by
  constructor
  · intro same
    have wrapped := congrArg UInt32.toNat same
    rw [UInt32.toNat_ofNat', UInt32.toNat_ofNat'] at wrapped
    omega
  · exact fun same => same ▸ rfl

/-- The distance of two counters less than the whole range apart. -/
theorem toNat_ofNat_sub {a b : ℕ} (above : b ≤ a) (near : a < b + 2 ^ 32) :
    (UInt32.ofNat a - UInt32.ofNat b).toNat = a - b := by
  rw [UInt32.toNat_sub, UInt32.toNat_ofNat', UInt32.toNat_ofNat']
  omega

theorem ofNat_succ (a : ℕ) : UInt32.ofNat (a + 1) = UInt32.ofNat a + 1 :=
  UInt32.ofNat_add a 1

/-! ## Starting over -/

/-- The least value from `a` on that the counter 0 stands for. -/
def nextZero (a : ℕ) : ℕ := a + (0 - UInt32.ofNat a).toNat

theorem le_nextZero (a : ℕ) : a ≤ nextZero a := Nat.le_add_right _ _

theorem nextZero_lt (a : ℕ) : nextZero a < a + 2 ^ 32 :=
  Nat.add_lt_add_left (UInt32.toNat_lt _) a

@[simp] theorem ofNat_nextZero (a : ℕ) : UInt32.ofNat (nextZero a) = 0 := by
  rw [nextZero, UInt32.ofNat_add, UInt32.ofNat_toNat, UInt32.add_comm, UInt32.sub_add_cancel]

/-- A value that wraps to 0 is its own. -/
theorem nextZero_eq_self {a : ℕ} (zero : UInt32.ofNat a = 0) : nextZero a = a := by
  rw [nextZero, zero]
  exact Nat.add_zero a

/-- Beyond such a value the next one is a whole range away. -/
theorem add_le_nextZero {a b : ℕ} (zero : UInt32.ofNat a = 0) (beyond : a < b) :
    a + 2 ^ 32 ≤ nextZero b := by
  by_contra near
  have above := le_nextZero b
  have same := (ofNat_inj_of_near (a := nextZero b) (b := a) (by omega) (by omega)).mp
    ((ofNat_nextZero b).trans zero.symm)
  omega

/-- The counter 0 is not behind another one exactly when it comes round within half
the range. -/
theorem nextZero_lt_iff (a : ℕ) :
    nextZero a < a + 2 ^ 31 ↔ 0 ≤ serialDiff 0 (UInt32.ofNat a) := by
  have low := le_nextZero a
  have high := nextZero_lt a
  by_cases near : nextZero a < a + 2 ^ 31
  · have diff := serialDiff_ofNat near (by omega)
    rw [ofNat_nextZero] at diff
    exact iff_of_true near (by omega)
  · have wrapped : UInt32.ofNat (a + 2 ^ 32) = UInt32.ofNat a := by
      rw [UInt32.ofNat_add]
      exact UInt32.add_zero _
    have diff := serialDiff_ofNat (a := nextZero a) (b := a + 2 ^ 32) (by omega) (by omega)
    rw [ofNat_nextZero, wrapped] at diff
    exact iff_of_false near (by omega)

end OmniSocket.Lib
