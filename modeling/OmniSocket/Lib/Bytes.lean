/-
# Fixed-width byte encodings of naturals

A natural below `256 ^ w` and a string of `w` bytes determine each other, least
significant byte first. Both byte orders of a machine word and both wire
formats of the transports are this encoding or its reversal.
-/

import Mathlib.Data.Nat.Basic
import Mathlib.Tactic.Ring

set_option autoImplicit false

namespace OmniSocket.Lib

/-- The `w` low bytes of a natural, least significant first. -/
def leBytes : ℕ → ℕ → List UInt8
  | 0, _ => []
  | w + 1, n => UInt8.ofNat n :: leBytes w (n / 256)

/-- The natural written by bytes, least significant first. -/
def leNat : List UInt8 → ℕ
  | [] => 0
  | b :: rest => b.toNat + 256 * leNat rest

@[simp] theorem length_leBytes (w n : ℕ) : (leBytes w n).length = w := by
  induction w generalizing n with
  | zero => rfl
  | succ w ih => simp [leBytes, ih]

/-- Reading back the low bytes loses exactly what does not fit. -/
theorem leNat_leBytes (w n : ℕ) : leNat (leBytes w n) = n % 256 ^ w := by
  induction w generalizing n with
  | zero => simp [leBytes, leNat, Nat.mod_one]
  | succ w ih =>
    have split : n % (256 * 256 ^ w) = n % 256 + 256 * (n / 256 % 256 ^ w) := Nat.mod_mul
    rw [leBytes, leNat, ih, UInt8.toNat_ofNat', pow_succ' 256, split]

theorem leNat_lt (bytes : List UInt8) : leNat bytes < 256 ^ bytes.length := by
  induction bytes with
  | nil => simp [leNat]
  | cons b rest ih =>
    have low : b.toNat < 256 := b.toNat_lt
    rw [leNat, List.length_cons, pow_succ']
    omega

/-- Writing back the value of a byte string restores the string. -/
theorem leBytes_leNat (bytes : List UInt8) : leBytes bytes.length (leNat bytes) = bytes := by
  induction bytes with
  | nil => rfl
  | cons b rest ih =>
    have low : b.toNat < 256 := b.toNat_lt
    have head : UInt8.ofNat (b.toNat + 256 * leNat rest) = b := by
      apply UInt8.toNat_inj.mp
      rw [UInt8.toNat_ofNat']
      omega
    have tail : (b.toNat + 256 * leNat rest) / 256 = leNat rest := by omega
    rw [List.length_cons, leBytes, leNat, head, tail, ih]

/-- The natural written by bytes, most significant first. -/
def beNat (bytes : List UInt8) : ℕ := leNat bytes.reverse

theorem beNat_lt (bytes : List UInt8) : beNat bytes < 256 ^ bytes.length := by
  have low := leNat_lt bytes.reverse
  rwa [List.length_reverse] at low

/-- Reading back the low bytes, most significant first. -/
theorem beNat_reverse_leBytes (w n : ℕ) : beNat (leBytes w n).reverse = n % 256 ^ w := by
  rw [beNat, List.reverse_reverse, leNat_leBytes]

end OmniSocket.Lib
