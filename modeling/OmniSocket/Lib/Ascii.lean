/-
# Bytes and characters

A text is stored as its UTF-8 encoding. A byte below 128 stands for the
character with its number and occurs in the encoding of no other one, so that a
text of such bytes can be read byte by byte.
-/

import Mathlib.Data.List.Basic
import Mathlib.Data.UInt

set_option autoImplicit false

namespace OmniSocket.Lib

/-- A text as it is stored. -/
def utf8 (text : List Char) : List UInt8 := text.flatMap String.utf8EncodeChar

/-- The bytes of a string literal. -/
def bytesOf (s : String) : List UInt8 := utf8 s.toList

/-- The byte of a character below 128. -/
def byteOf (c : Char) : UInt8 := UInt8.ofNat c.toNat

/-- The character that a byte below 128 stands for. -/
def charOf (b : UInt8) : Char := Char.ofNat b.toNat

@[simp] theorem utf8_append (first second : List Char) :
    utf8 (first ++ second) = utf8 first ++ utf8 second := List.flatMap_append

theorem utf8_cons (c : Char) (text : List Char) :
    utf8 (c :: text) = String.utf8EncodeChar c ++ utf8 text := rfl

theorem toNat_charOf (b : UInt8) : (charOf b).toNat = b.toNat := by
  have small := b.toNat_lt
  have valid : b.toNat.isValidChar := .inl (by omega)
  rw [charOf, Char.ofNat, dif_pos valid]
  rfl

/-- A character with a small number is its byte. -/
theorem utf8EncodeChar_of_lt {c : Char} (ascii : c.toNat < 128) :
    String.utf8EncodeChar c = [byteOf c] := by
  have low : c.val.toNat ≤ 0x7f := Nat.le_of_lt_succ ascii
  rw [String.utf8EncodeChar, if_pos low]
  rfl

/-- The bytes of any other character are not below 128. -/
theorem le_of_mem_utf8EncodeChar {c : Char} {b : UInt8} (large : 128 ≤ c.toNat)
    (member : b ∈ String.utf8EncodeChar c) : 128 ≤ b.toNat := by
  have high : ¬ c.val.toNat ≤ 0x7f := Nat.not_le_of_gt large
  rw [String.utf8EncodeChar, if_neg high] at member
  -- what is added to the six low bits, or fewer, already has the highest bit
  have marked : ∀ n m : ℕ, 128 ≤ m → n + m < 256 → 128 ≤ (UInt8.ofNat (n + m)).toNat := by
    intro n m set small
    rw [UInt8.toNat_ofNat', Nat.mod_eq_of_lt small]
    omega
  split_ifs at member <;> simp only [List.mem_cons, List.not_mem_nil, or_false] at member
  · rcases member with rfl | rfl <;> exact marked _ _ (by decide) (by omega)
  · rcases member with rfl | rfl | rfl <;> exact marked _ _ (by decide) (by omega)
  · rcases member with rfl | rfl | rfl | rfl <;> exact marked _ _ (by decide) (by omega)

/-- A byte below 128 is in the stored text exactly if its character is in the text. -/
theorem mem_utf8_iff {b : UInt8} (ascii : b.toNat < 128) (text : List Char) :
    b ∈ utf8 text ↔ charOf b ∈ text := by
  have number := toNat_charOf b
  constructor
  · intro member
    obtain ⟨c, inText, inChar⟩ := List.mem_flatMap.mp member
    have small : c.toNat < 128 := by
      by_contra large
      have := le_of_mem_utf8EncodeChar (not_lt.mp large) inChar
      omega
    rw [utf8EncodeChar_of_lt small, List.mem_singleton] at inChar
    have same : charOf b = c := by
      apply Char.toNat_inj.mp
      rw [number, inChar, byteOf, UInt8.toNat_ofNat']
      omega
    exact same ▸ inText
  · intro inText
    have low : (charOf b).toNat < 128 := number ▸ ascii
    have same : byteOf (charOf b) = b := by rw [byteOf, number, UInt8.ofNat_toNat]
    exact List.mem_flatMap.mpr ⟨charOf b, inText, by rw [utf8EncodeChar_of_lt low, same]; simp⟩

/-- Bytes below 128 are stored as they are. -/
theorem utf8_map_charOf {bytes : List UInt8} (ascii : ∀ b ∈ bytes, b.toNat < 128) :
    utf8 (bytes.map charOf) = bytes := by
  induction bytes with
  | nil => rfl
  | cons b bytes ih =>
    have number := toNat_charOf b
    have low : (charOf b).toNat < 128 := number ▸ ascii b List.mem_cons_self
    have same : byteOf (charOf b) = b := by rw [byteOf, number, UInt8.ofNat_toNat]
    rw [List.map_cons, utf8_cons, ih fun c member => ascii c (List.mem_cons_of_mem _ member),
      utf8EncodeChar_of_lt low, same]
    rfl

end OmniSocket.Lib
