/-
# Lines through a buffer

`fgets` reads up to the end of a line or until its buffer is full, so a line that is too
long comes in several pieces, and one that just fits leaves its newline for the next call.
Whoever reads a stream of lines sees the pieces.
-/

import OmniSocket.Lib.CString
import Mathlib.Data.List.DropRight

set_option autoImplicit false

namespace OmniSocket.Lib

/-- The newline. -/
def lf : UInt8 := 10

/-- The carriage return. -/
def cr : UInt8 := 13

/-- The loop of `fgets` with room for so many more bytes: what it stores, and what it
leaves. -/
def fgetsLoop : ℕ → List UInt8 → List UInt8 × List UInt8
  | _, [] => ([], [])
  | 0, b :: rest => ([], b :: rest)
  | room + 1, b :: rest =>
    if b = lf then ([b], rest)
    else ((b :: (fgetsLoop room rest).1), (fgetsLoop room rest).2)

/-- `fgets` with a buffer of `n` bytes, of which the last is for the NUL. It returns
`NULL` at the end of the input. -/
def fgets (n : ℕ) (input : List UInt8) : Option (List UInt8 × List UInt8) :=
  if input = [] then none else some (fgetsLoop (n - 1) input)

/-- Nothing is lost. -/
theorem fgetsLoop_append (room : ℕ) (input : List UInt8) :
    (fgetsLoop room input).1 ++ (fgetsLoop room input).2 = input := by
  induction input generalizing room with
  | nil => cases room <;> rfl
  | cons b rest ih =>
    cases room with
    | zero => rfl
    | succ room =>
      rw [fgetsLoop]
      split
      · rfl
      · rw [List.cons_append, ih]

theorem length_fgetsLoop_le (room : ℕ) (input : List UInt8) :
    (fgetsLoop room input).1.length ≤ room := by
  induction input generalizing room with
  | nil => cases room <;> exact Nat.zero_le _
  | cons b rest ih =>
    cases room with
    | zero => exact le_rfl
    | succ room =>
      rw [fgetsLoop]
      split
      · exact Nat.succ_le_succ (Nat.zero_le room)
      · exact Nat.succ_le_succ (ih room)

/-- With any room at all a byte is read. -/
theorem fgetsLoop_ne_nil {room : ℕ} {input : List UInt8} (positive : 0 < room)
    (some_byte : input ≠ []) : (fgetsLoop room input).1 ≠ [] := by
  obtain ⟨room, rfl⟩ := Nat.exists_eq_add_of_lt positive
  cases input with
  | nil => exact absurd rfl some_byte
  | cons b rest =>
    rw [Nat.zero_add, fgetsLoop]
    split <;> exact List.cons_ne_nil _ _

/-- A call that does not return `NULL` splits the input after at least one byte, and after
no more than the buffer holds. -/
theorem fgets_split {n : ℕ} {input piece rest : List UInt8} (two : 2 ≤ n)
    (call : fgets n input = some (piece, rest)) :
    piece ++ rest = input ∧ piece ≠ [] ∧ piece.length < n := by
  obtain ⟨some_byte, loop⟩ := Option.ite_none_left_eq_some.mp call
  obtain ⟨rfl, rfl⟩ := Prod.mk.inj (Option.some.inj loop).symm
  have fits := length_fgetsLoop_le (n - 1) input
  exact ⟨fgetsLoop_append (n - 1) input,
    fgetsLoop_ne_nil (show 0 < n - 1 by omega) some_byte, by omega⟩

/-- A line that fits comes whole, with its newline. -/
theorem fgetsLoop_short {room : ℕ} {line : List UInt8} (rest : List UInt8) (plain : lf ∉ line)
    (fits : line.length < room) :
    fgetsLoop room (line ++ lf :: rest) = (line ++ [lf], rest) := by
  induction line generalizing room with
  | nil =>
    obtain ⟨room, rfl⟩ := Nat.exists_eq_add_of_lt fits
    rfl
  | cons b line ih =>
    cases room with
    | zero => exact absurd fits (Nat.not_lt_zero _)
    | succ room =>
      rw [List.mem_cons, not_or] at plain
      rw [List.cons_append, fgetsLoop, if_neg (Ne.symm plain.1),
        ih plain.2 (Nat.succ_lt_succ_iff.mp fits), List.cons_append]

/-- Of a line that does not fit only the beginning comes. -/
theorem fgetsLoop_long {room : ℕ} {line : List UInt8} (rest : List UInt8) (plain : lf ∉ line)
    (full : room ≤ line.length) :
    fgetsLoop room (line ++ rest) = (line.take room, line.drop room ++ rest) := by
  induction line generalizing room with
  | nil =>
    obtain rfl := Nat.le_zero.mp full
    cases rest <;> rfl
  | cons b line ih =>
    cases room with
    | zero => rfl
    | succ room =>
      rw [List.mem_cons, not_or] at plain
      rw [List.cons_append, fgetsLoop, if_neg (Ne.symm plain.1),
        ih plain.2 (Nat.succ_le_succ_iff.mp full), List.take_succ_cons, List.drop_succ_cons]

/-! ## All the pieces -/

/-- What `fgets` returns until the end of the input, with a buffer for at least one byte
and the NUL. -/
def pieces (n : ℕ) (input : List UInt8) : List (List UInt8) :=
  if reads : 2 ≤ n ∧ input ≠ [] then
    (fgetsLoop (n - 1) input).1 :: pieces n (fgetsLoop (n - 1) input).2
  else []
termination_by input.length
decreasing_by
  have split := congrArg List.length (fgetsLoop_append (n - 1) input)
  have some_byte := List.length_pos_of_ne_nil
    (fgetsLoop_ne_nil (show 0 < n - 1 by omega) reads.2)
  rw [List.length_append] at split
  omega

theorem pieces_nil (n : ℕ) : pieces n [] = [] := by
  rw [pieces, dif_neg fun reads => reads.2 rfl]

/-- One call of `fgets` takes the first piece off. -/
theorem pieces_of_fgets {n : ℕ} {input piece rest : List UInt8} (two : 2 ≤ n)
    (call : fgets n input = some (piece, rest)) : pieces n input = piece :: pieces n rest := by
  obtain ⟨some_byte, loop⟩ := Option.ite_none_left_eq_some.mp call
  rw [pieces, dif_pos ⟨two, some_byte⟩, Option.some.inj loop]

theorem pieces_short {n : ℕ} {line : List UInt8} (rest : List UInt8) (plain : lf ∉ line)
    (fits : line.length + 2 ≤ n) :
    pieces n (line ++ lf :: rest) = (line ++ [lf]) :: pieces n rest := by
  rw [pieces, dif_pos ⟨by omega, by simp⟩, fgetsLoop_short rest plain (by omega)]

theorem pieces_long {n : ℕ} {line : List UInt8} (rest : List UInt8) (plain : lf ∉ line)
    (two : 2 ≤ n) (full : n ≤ line.length + 1) :
    pieces n (line ++ rest) =
      line.take (n - 1) :: pieces n (line.drop (n - 1) ++ rest) := by
  have some_byte : line ++ rest ≠ [] := by
    intro none
    rw [(List.append_eq_nil_iff.mp none).1, List.length_nil] at full
    omega
  rw [pieces, dif_pos ⟨two, some_byte⟩, fgetsLoop_long rest plain (by omega)]

/-! ## The end of a line -/

/-- A line without the CR and LF at its end. -/
def stripEol (line : List UInt8) : List UInt8 := line.rdropWhile fun b => b == lf || b == cr

@[simp] theorem stripEol_lf (line : List UInt8) : stripEol (line ++ [lf]) = stripEol line :=
  List.rdropWhile_concat_pos _ _ _ rfl

theorem isPrefix_stripEol (line : List UInt8) : stripEol line <+: line :=
  List.rdropWhile_prefix _ _

/-- What belongs to the end of a line makes no difference. -/
theorem stripEol_append {line eol : List UInt8} (all : ∀ b ∈ eol, b = lf ∨ b = cr) :
    stripEol (line ++ eol) = stripEol line := by
  induction eol using List.reverseRecOn with
  | nil => rw [List.append_nil]
  | append_singleton eol b ih =>
    rw [← List.append_assoc, stripEol, List.rdropWhile_concat_pos]
    · exact ih fun c member => all c (List.mem_append_left _ member)
    · simpa using all b (List.mem_append_right _ List.mem_cons_self)

theorem stripEol_eq_nil_iff (line : List UInt8) :
    stripEol line = [] ↔ ∀ b ∈ line, b = lf ∨ b = cr := by
  rw [stripEol, List.rdropWhile_eq_nil_iff]
  simp

/-- The string a program sees in a piece: `strlen` stops at the first NUL, and CR and LF are
taken off its end. -/
def lineText (piece : List UInt8) : List UInt8 := stripEol (CString.ofMemory (piece ++ [0])).bytes

/-- A piece without a NUL is stripped as it is. -/
theorem lineText_of_noNul {piece : List UInt8} (noNul : 0 ∉ piece) :
    lineText piece = stripEol piece := by
  have text := CString.ofMemory_append
    ⟨piece, fun b member zero => noNul (zero ▸ member)⟩ []
  rw [lineText, text]

theorem length_lineText_le (piece : List UInt8) : (lineText piece).length ≤ piece.length :=
  (isPrefix_stripEol _).length_le.trans (CString.length_ofMemory_le piece)

/-- What is left of a piece is a string. -/
theorem exists_lineText (piece : List UInt8) : ∃ text : CString, text.bytes = lineText piece := by
  refine ⟨⟨lineText piece, fun b member => ?_⟩, rfl⟩
  exact (CString.ofMemory (piece ++ [0])).noNul b ((isPrefix_stripEol _).subset member)

/-- The pieces of a line are all empty exactly if it has nothing but CR. -/
theorem lineText_pieces_eq_nil_iff {n : ℕ} (two : 2 ≤ n) {line : List UInt8} (noNul : 0 ∉ line)
    (plain : lf ∉ line) :
    (∀ piece ∈ pieces n (line ++ [lf]), lineText piece = []) ↔ ∀ b ∈ line, b = cr := by
  -- on the length: what one call leaves of the line is shorter
  induction size : line.length using Nat.strongRecOn generalizing line with
  | ind size ih =>
    have blank : ∀ part : List UInt8, 0 ∉ part → lf ∉ part →
        (lineText part = [] ↔ ∀ b ∈ part, b = cr) := by
      intro part noNul plain
      rw [lineText_of_noNul noNul, stripEol_eq_nil_iff]
      refine forall₂_congr fun b member => or_iff_right ?_
      rintro rfl
      exact plain member
    rcases Nat.lt_or_ge n (line.length + 2) with long | short
    · have front : ∀ b ∈ line.take (n - 1), b ∈ line := fun b member => List.mem_of_mem_take member
      have back : ∀ b ∈ line.drop (n - 1), b ∈ line := fun b member => List.mem_of_mem_drop member
      rw [pieces_long [lf] plain two (by omega), List.forall_mem_cons,
        blank _ (fun zero => noNul (front 0 zero)) (fun newline => plain (front lf newline)),
        ih _ (by rw [List.length_drop]; omega) (fun zero => noNul (back 0 zero))
          (fun newline => plain (back lf newline)) rfl]
      conv_rhs => rw [← List.take_append_drop (n - 1) line, List.forall_mem_append]
    · have whole : lineText (line ++ [lf]) = lineText line := by
        rw [lineText_of_noNul (by simp [noNul, lf]), lineText_of_noNul noNul, stripEol_lf]
      rw [pieces_short [] plain short, pieces_nil, List.forall_mem_singleton, whole]
      exact blank line noNul plain

end OmniSocket.Lib
