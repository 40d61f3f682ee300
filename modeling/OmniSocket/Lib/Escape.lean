/-
# Escaping with a mark

Some symbols may not stand in a text for themselves: each of them is written as
a mark and a letter. If the mark itself is among them and a letter tells what
it stands for, then the escaped text determines the text, and no proper part of
an escape can be mistaken for something else.
-/

import Mathlib.Data.List.Basic
import Mathlib.Tactic.SplitIfs

set_option autoImplicit false

namespace OmniSocket.Lib

/-- A mark, the letters of the symbols that are escaped, and what letters stand for. -/
structure Escaping (α : Type*) where
  mark : α
  letter : α → Option α
  value : α → Option α
  /-- The mark does not stand for itself. -/
  letter_mark : (letter mark).isSome
  value_letter : ∀ a b, letter a = some b → value b = some a

namespace Escaping

variable {α : Type*} (code : Escaping α)

/-- How one symbol is written. -/
def escapeOne (a : α) : List α :=
  match code.letter a with
  | none => [a]
  | some b => [code.mark, b]

def escape (text : List α) : List α := text.flatMap code.escapeOne

/-- Undo the escapes from left to right. A mark with nothing behind it, or with what
is no letter, is not undone. -/
def unescape [DecidableEq α] : List α → Option (List α)
  | [] => some []
  | a :: rest =>
    if a = code.mark then
      match rest with
      | [] => none
      | b :: rest =>
        (code.value b).bind fun c => (unescape rest).map (c :: ·)
    else (unescape rest).map (a :: ·)

theorem unescape_mark [DecidableEq α] (b : α) (rest : List α) :
    code.unescape (code.mark :: b :: rest) =
      (code.value b).bind fun c => (code.unescape rest).map (c :: ·) := by
  simp [unescape]

theorem unescape_plain [DecidableEq α] {a : α} (other : a ≠ code.mark) (rest : List α) :
    code.unescape (a :: rest) = (code.unescape rest).map (a :: ·) := by
  cases rest <;> simp [unescape, other]

@[simp] theorem escape_nil : code.escape [] = [] := rfl

@[simp] theorem escape_cons (a : α) (text : List α) :
    code.escape (a :: text) = code.escapeOne a ++ code.escape text := rfl

theorem escapeOne_length_le (a : α) : (code.escapeOne a).length ≤ 2 := by
  unfold escapeOne
  split <;> simp

/-- A symbol that is written stands for itself, or belongs to an escape. -/
theorem mem_escape {a : α} {text : List α} (member : a ∈ code.escape text) :
    a ∈ text ∨ a = code.mark ∨ ∃ c, code.letter c = some a := by
  obtain ⟨c, inText, written⟩ := List.mem_flatMap.mp member
  unfold escapeOne at written
  split at written
  case h_1 => exact .inl (List.mem_singleton.mp written ▸ inText)
  case h_2 b letter =>
    rcases List.mem_pair.mp written with rfl | rfl
    · exact .inr (.inl rfl)
    · exact .inr (.inr ⟨c, letter⟩)

/-- What holds of the text, of the mark and of the letters holds of all that is written. -/
theorem forall_mem_escape {P : α → Prop} {text : List α} (plain : ∀ a ∈ text, P a)
    (mark : P code.mark) (letters : ∀ c b, code.letter c = some b → P b) :
    ∀ a ∈ code.escape text, P a := by
  intro a member
  rcases code.mem_escape member with inText | rfl | ⟨c, letter⟩
  · exact plain a inText
  · exact mark
  · exact letters c a letter

/-- A symbol without a letter is written as it is. -/
theorem mem_escape_of_plain {a : α} {text : List α} (plain : code.letter a = none)
    (member : a ∈ text) : a ∈ code.escape text :=
  List.mem_flatMap.mpr ⟨a, member, by simp [escapeOne, plain]⟩

/-- Undoing the escapes gives the text back. -/
theorem unescape_escape [DecidableEq α] (text : List α) :
    code.unescape (code.escape text) = some text := by
  induction text with
  | nil => rfl
  | cons a text ih =>
    rw [escape_cons, escapeOne]
    split
    case h_1 plain =>
      have other : a ≠ code.mark := by
        rintro rfl
        simpa [plain] using code.letter_mark
      rw [List.singleton_append, code.unescape_plain other, ih, Option.map_some]
    case h_2 b letter =>
      rw [List.cons_append, List.singleton_append, unescape_mark, code.value_letter a b letter,
        Option.bind_some, ih, Option.map_some]

/-- So different texts are written differently. -/
theorem escape_injective : Function.Injective code.escape := by
  classical
  intro first second same
  have undone := code.unescape_escape first
  rw [same, code.unescape_escape] at undone
  exact (Option.some.inj undone).symm

end Escaping

end OmniSocket.Lib
