/-
# Moving single bytes of a word

A byte is picked out of a word by a mask of eight ones and moved by a shift. As a
natural it is then a digit to the base 256 in another place, and digits in different
places are put together by the bitwise or as they are by addition.
-/

import OmniSocket.Lib.Bytes
import Mathlib.Data.Nat.Bitwise

set_option autoImplicit false

namespace OmniSocket.Lib

/-- A mask of eight ones picks out one byte. -/
theorem and_byteMask (n k : ℕ) : n &&& (255 <<< k) = (n / 2 ^ k % 256) <<< k := by
  apply Nat.eq_of_testBit_eq
  intro i
  rw [Nat.testBit_and, Nat.testBit_shiftLeft, Nat.testBit_shiftLeft,
    show 256 = 2 ^ 8 by norm_num, Nat.testBit_mod_two_pow, Nat.testBit_div_two_pow,
    show 255 = 2 ^ 8 - 1 by norm_num, Nat.testBit_two_pow_sub_one]
  by_cases low : k ≤ i
  · rw [show i - k + k = i by omega, Bool.and_comm]
    simp [low]
  · simp [low]

/-- A byte that is moved up, from place `k` to place `j`. -/
theorem toNat_byte_shiftLeft (x mask s : UInt64) {k j : ℕ} (mask_eq : mask.toNat = 255 <<< k)
    (shift : s.toNat + k = j) (top : j ≤ 56) :
    ((x &&& mask) <<< s).toNat = (x.toNat / 2 ^ k % 256) * 2 ^ j := by
  have byte : x.toNat / 2 ^ k % 256 < 2 ^ 8 := Nat.mod_lt _ (by decide)
  have fits : (x.toNat / 2 ^ k % 256) * 2 ^ j < 2 ^ 64 :=
    calc (x.toNat / 2 ^ k % 256) * 2 ^ j < 2 ^ 8 * 2 ^ j :=
          Nat.mul_lt_mul_of_pos_right byte (Nat.two_pow_pos j)
      _ = 2 ^ (8 + j) := (pow_add 2 8 j).symm
      _ ≤ 2 ^ 64 := Nat.pow_le_pow_right (by decide) (by omega)
  rw [UInt64.toNat_shiftLeft, UInt64.toNat_and, mask_eq, and_byteMask,
    Nat.mod_eq_of_lt (show s.toNat < 64 by omega), ← Nat.shiftLeft_add, Nat.shiftLeft_eq,
    show k + s.toNat = j by omega, Nat.mod_eq_of_lt fits]

/-- A byte that is moved down. -/
theorem toNat_byte_shiftRight (x mask s : UInt64) {k j : ℕ} (mask_eq : mask.toNat = 255 <<< k)
    (shift : s.toNat + j = k) (small : s.toNat < 64) :
    ((x &&& mask) >>> s).toNat = (x.toNat / 2 ^ k % 256) * 2 ^ j := by
  rw [UInt64.toNat_shiftRight, UInt64.toNat_and, mask_eq, and_byteMask, Nat.mod_eq_of_lt small,
    ← shift, Nat.add_comm, Nat.shiftLeft_add, Nat.shiftLeft_shiftRight, Nat.shiftLeft_eq]

/-- Nothing is carried when the lower part stays below the place of the digit. -/
theorem or_eq_add {a b c k : ℕ} (place : a = c * 2 ^ k) (below : b < 2 ^ k) :
    a ||| b = a + b := by
  rw [place, ← Nat.shiftLeft_eq, ← Nat.shiftLeft_add_eq_or_of_lt below]

/-- Eight bytes, the most significant first, as the sum of their digits. -/
theorem beNat_leBytes_eight (n : ℕ) :
    beNat (leBytes 8 n) = (n / 2 ^ 0 % 256) * 2 ^ 56 + ((n / 2 ^ 8 % 256) * 2 ^ 48 +
      ((n / 2 ^ 16 % 256) * 2 ^ 40 + ((n / 2 ^ 24 % 256) * 2 ^ 32 + ((n / 2 ^ 32 % 256) * 2 ^ 24 +
      ((n / 2 ^ 40 % 256) * 2 ^ 16 + ((n / 2 ^ 48 % 256) * 2 ^ 8 +
      (n / 2 ^ 56 % 256) * 2 ^ 0)))))) := by
  simp [beNat, leBytes, leNat, Nat.div_div_eq_div_mul]
  omega

/-- Eight digits put together by the bitwise or. -/
theorem or_digits {c d e f g h i j : ℕ} (digit_d : d < 256) (digit_e : e < 256) (digit_f : f < 256)
    (digit_g : g < 256) (digit_h : h < 256) (digit_i : i < 256) (digit_j : j < 256) :
    c * 2 ^ 56 ||| (d * 2 ^ 48 ||| (e * 2 ^ 40 ||| (f * 2 ^ 32 ||| (g * 2 ^ 24 |||
      (h * 2 ^ 16 ||| (i * 2 ^ 8 ||| j * 2 ^ 0)))))) =
    c * 2 ^ 56 + (d * 2 ^ 48 + (e * 2 ^ 40 + (f * 2 ^ 32 + (g * 2 ^ 24 +
      (h * 2 ^ 16 + (i * 2 ^ 8 + j * 2 ^ 0)))))) := by
  -- from the lowest digit upwards, each sum stays below the next place
  rw [or_eq_add (a := i * 2 ^ 8) rfl (by omega), or_eq_add (a := h * 2 ^ 16) rfl (by omega),
    or_eq_add (a := g * 2 ^ 24) rfl (by omega), or_eq_add (a := f * 2 ^ 32) rfl (by omega),
    or_eq_add (a := e * 2 ^ 40) rfl (by omega), or_eq_add (a := d * 2 ^ 48) rfl (by omega),
    or_eq_add (a := c * 2 ^ 56) rfl (by omega)]

end OmniSocket.Lib
