/-
# Reading words and numbers

What `scanf`, `strtoul` and `strtol` make of a text, in the C locale. A directive takes
something off the front of the text and leaves the rest to the next one. A number that is
too large is not refused; `strtoul` gives the largest number there is instead, and turns a
minus sign into a subtraction from zero.
-/

import Mathlib.Data.List.TakeWhile
import Mathlib.Data.UInt

set_option autoImplicit false

namespace OmniSocket.Lib

/-- `isspace`. -/
def isSpace (b : UInt8) : Bool := b == 32 || (decide (9 ≤ b) && decide (b ≤ 13))

/-- `isdigit`. -/
def isDigit (b : UInt8) : Bool := decide (48 ≤ b) && decide (b ≤ 57)

/-! ## Directives -/

/-- Ordinary characters. -/
def scanLiteral (word text : List UInt8) : Option (List UInt8) :=
  if word <+: text then some (text.drop word.length) else none

/-- A word of at most `width` bytes. -/
def scanWord (width : ℕ) (text : List UInt8) : List UInt8 :=
  (text.take width).takeWhile fun b => !isSpace b

/-- A sign, if there is one. -/
def scanSign : List UInt8 → List UInt8
  | [] => []
  | b :: _ => if b = 43 ∨ b = 45 then [b] else []

/-- A decimal number as it is written. -/
structure Numeral where
  sign : List UInt8
  digits : List UInt8
  deriving DecidableEq, Repr

/-- A number, and what follows it. -/
def scanNumeral (text : List UInt8) : Option (Numeral × List UInt8) :=
  let sign := scanSign text
  let digits := (text.drop sign.length).takeWhile isDigit
  if digits = [] then none
  else some (⟨sign, digits⟩, (text.drop sign.length).dropWhile isDigit)

/-! ## Values -/

/-- What a run of digits denotes. -/
def decimalValue (digits : List UInt8) : ℕ := digits.foldl (fun n d => 10 * n + (d.toNat - 48)) 0

namespace Numeral

/-- What the number denotes. -/
def value (n : Numeral) : ℤ :=
  if n.sign = [45] then -decimalValue n.digits else decimalValue n.digits

/-- `strtoul`, where an `unsigned long` has `limit` values. -/
def toULong (limit : ℕ) (n : Numeral) : ℕ :=
  if limit ≤ decimalValue n.digits then limit - 1
  else if n.sign = [45] then (limit - decimalValue n.digits) % limit
  else decimalValue n.digits

/-- `strtol`, where a `long` has twice as many values as `half`. -/
def toLong (half : ℕ) (n : Numeral) : ℤ := max (-half) (min (half - 1) n.value)

/-- A number that is not negative and not too large is what it denotes. -/
theorem toULong_of_lt {limit : ℕ} {n : Numeral} (unsigned : n.sign = [])
    (small : decimalValue n.digits < limit) : n.toULong limit = decimalValue n.digits := by
  rw [toULong, if_neg (not_le.mpr small), if_neg (by simp [unsigned])]

end Numeral

/-- `atoi`: the low 32 bits of what `strtol` finds behind white space. -/
def atoi (half : ℕ) (text : List UInt8) : ℤ :=
  match scanNumeral (text.dropWhile isSpace) with
  | some (n, _) => (n.toLong half).bmod (2 ^ 32)
  | none => 0

/-- What the number at the front of a text denotes. -/
def leadingValue (text : List UInt8) : ℤ :=
  match scanNumeral (text.dropWhile isSpace) with
  | some (n, _) => n.value
  | none => 0

/-- A small number comes out of `atoi` as it is. -/
theorem atoi_of_small {half : ℕ} {text : List UInt8} (wide : 2 ^ 31 ≤ half)
    (low : 0 ≤ leadingValue text) (high : leadingValue text < 2 ^ 31) :
    atoi half text = leadingValue text := by
  unfold atoi leadingValue at *
  split
  case h_1 n rest found =>
    simp only [found] at low high
    have large : (2 : ℤ) ^ 31 ≤ half := by exact_mod_cast wide
    have kept : n.toLong half = n.value := by
      rw [Numeral.toLong, min_eq_right (by omega), max_eq_right (by omega)]
    rw [kept]
    exact Int.bmod_eq_of_le (by omega) (by omega)
  case h_2 => rfl

/-! ## Taking the front off -/

/-- What comes behind a run does not belong to it. -/
def StopsAt (p : UInt8 → Bool) (rest : List UInt8) : Prop := ∀ b ∈ rest.head?, p b = false

variable {p : UInt8 → Bool} {run rest : List UInt8}

theorem takeWhile_run (all : ∀ b ∈ run, p b = true) (stops : StopsAt p rest) :
    (run ++ rest).takeWhile p = run := by
  rw [List.takeWhile_append_of_pos all]
  cases rest with
  | nil => simp
  | cons b rest => rw [List.takeWhile_cons_of_neg (by simp [stops b rfl]), List.append_nil]

theorem dropWhile_run (all : ∀ b ∈ run, p b = true) (stops : StopsAt p rest) :
    (run ++ rest).dropWhile p = rest := by
  rw [List.dropWhile_append_of_pos all]
  cases rest with
  | nil => rfl
  | cons b rest => exact List.dropWhile_cons_of_neg (by simp [stops b rfl])

theorem scanLiteral_append (word rest : List UInt8) :
    scanLiteral word (word ++ rest) = some rest := by
  rw [scanLiteral, if_pos (List.prefix_append word rest), List.drop_left]

/-- A directive of ordinary characters takes just these. -/
theorem eq_append_of_scanLiteral {word text rest : List UInt8}
    (scan : scanLiteral word text = some rest) : text = word ++ rest := by
  obtain ⟨⟨later, rfl⟩, same⟩ := Option.ite_none_right_eq_some.mp scan
  rw [List.drop_left] at same
  rw [Option.some.inj same]

/-- A word that is not too long comes whole. -/
theorem scanWord_append {width : ℕ} {word : List UInt8} (fits : word.length ≤ width)
    (plain : ∀ b ∈ word, isSpace b = false) (stops : ∀ b ∈ rest.head?, isSpace b = true) :
    scanWord width (word ++ rest) = word := by
  rw [scanWord, List.take_append, List.take_of_length_le fits]
  refine takeWhile_run (fun b member => by simp [plain b member]) ?_
  intro b first
  cases rest with
  | nil => simp at first
  | cons c rest =>
    cases room : width - word.length with
    | zero => simp [room] at first
    | succ room =>
      rw [room, List.take_succ_cons] at first
      simp [stops b first]

/-- A word is at the front of the text, and is one. -/
theorem scanWord_spec (width : ℕ) (text : List UInt8) :
    scanWord width text ++ text.drop (scanWord width text).length = text ∧
      (scanWord width text).length ≤ width ∧ ∀ b ∈ scanWord width text, isSpace b = false := by
  have front : scanWord width text <+: text :=
    (List.takeWhile_prefix _).trans (List.take_prefix width text)
  exact ⟨List.prefix_iff_eq_append.mp front,
    (List.takeWhile_prefix _).length_le.trans (List.length_take_le width text),
    fun b member => by simpa using List.mem_takeWhile_imp member⟩

/-- A sign is at the front of the text. -/
theorem scanSign_append (text : List UInt8) :
    scanSign text ++ text.drop (scanSign text).length = text := by
  cases text with
  | nil => rfl
  | cons b rest =>
    rw [scanSign]
    split <;> rfl

/-- Digits have no sign in front of them. -/
theorem scanSign_digits {digits : List UInt8} (rest : List UInt8) (some_digit : digits ≠ [])
    (all : ∀ b ∈ digits, isDigit b = true) : scanSign (digits ++ rest) = [] := by
  obtain ⟨b, digits, rfl⟩ := List.exists_cons_of_ne_nil some_digit
  have digit := all b List.mem_cons_self
  rw [List.cons_append, scanSign, if_neg]
  rintro (rfl | rfl) <;> exact absurd digit (by decide)

/-- A number without a sign is read whole. -/
theorem scanNumeral_digits {digits rest : List UInt8} (some_digit : digits ≠ [])
    (all : ∀ b ∈ digits, isDigit b = true) (stops : StopsAt isDigit rest) :
    scanNumeral (digits ++ rest) = some (⟨[], digits⟩, rest) := by
  simp only [scanNumeral, scanSign_digits rest some_digit all, List.length_nil, List.drop_zero,
    takeWhile_run all stops, dropWhile_run all stops, if_neg some_digit]

/-- A number is at the front of the text, and has digits. -/
theorem scanNumeral_spec {text rest : List UInt8} {n : Numeral}
    (scan : scanNumeral text = some (n, rest)) :
    text = n.sign ++ (n.digits ++ rest) ∧ n.digits ≠ [] ∧ ∀ b ∈ n.digits, isDigit b = true := by
  obtain ⟨some_digit, found⟩ := Option.ite_none_left_eq_some.mp scan
  obtain ⟨rfl, rfl⟩ := Prod.mk.inj (Option.some.inj found).symm
  refine ⟨?_, some_digit, fun b member => List.mem_takeWhile_imp member⟩
  rw [List.takeWhile_append_dropWhile, scanSign_append]

end OmniSocket.Lib
