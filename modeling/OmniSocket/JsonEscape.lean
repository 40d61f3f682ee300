/-
# The escaping of the JSON log

`json_escape` copies a string into a buffer and puts a backslash before what may
not stand in a JSON string for itself. It checks once for each character that
there is room for two bytes and the NUL, whether it then writes one byte or two.

No object has `SIZE_MAX` bytes, so `j + 2` does not wrap.
-/

import OmniSocket.Lib.Ascii
import OmniSocket.Lib.Buffer
import OmniSocket.Lib.CString
import OmniSocket.Lib.Escape

set_option autoImplicit false

namespace OmniSocket

open Lib

/-- The size of `msg_buf` in `logger_log`. -/
def logMessageSize : ℕ := 1024

/-- The size of `esc_buf` in `logger_log`. -/
def logEscapedSize : ℕ := 2048

/-! ## The code -/

/-- `dst[j++] = c`. -/
def jsonPut (dst : List UInt8) (j : ℕ) (c : UInt8) : Option (List UInt8 × ℕ) :=
  (storeAt dst j [c]).map fun dst => (dst, j + 1)

/-- `dst[j++] = '\\'; dst[j++] = c`. -/
def jsonPutEscaped (dst : List UInt8) (j : ℕ) (c : UInt8) : Option (List UInt8 × ℕ) :=
  (jsonPut dst j (byteOf '\\')).bind fun next => jsonPut next.1 next.2 c

/-- The body of the loop, for the character `c`. -/
def jsonEscapeChar (dst : List UInt8) (j : ℕ) (c : UInt8) : Option (List UInt8 × ℕ) :=
  if c = byteOf '\\' ∨ c = byteOf '"' then jsonPutEscaped dst j c
  else if c = byteOf '\n' then jsonPutEscaped dst j (byteOf 'n')
  else if c = byteOf '\r' then jsonPutEscaped dst j (byteOf 'r')
  else if c = byteOf '\t' then jsonPutEscaped dst j (byteOf 't')
  else jsonPut dst j c

/-- The loop, where `src` is what is left of the source. -/
def jsonEscapeLoop (dstSz : ℕ) (dst : List UInt8) (j : ℕ) :
    (src : List UInt8) → Option (List UInt8 × ℕ)
  | [] => some (dst, j)
  | c :: src =>
    if j + 2 < dstSz then
      (jsonEscapeChar dst j c).bind fun next => jsonEscapeLoop dstSz next.1 next.2 src
    else some (dst, j)

/-- `json_escape`, with a buffer of `dst_sz` bytes. -/
def jsonEscape (src : CString) (dst : List UInt8) : Option (List UInt8) :=
  (jsonEscapeLoop dst.length dst 0 src.bytes).bind fun out => storeAt out.1 out.2 [0]

/-! ## The escapes -/

/-- What is escaped, and the letter it is written with. -/
def jsonLetter (c : UInt8) : Option UInt8 :=
  if c = byteOf '\\' ∨ c = byteOf '"' then some c
  else if c = byteOf '\n' then some (byteOf 'n')
  else if c = byteOf '\r' then some (byteOf 'r')
  else if c = byteOf '\t' then some (byteOf 't')
  else none

/-- What a letter behind a backslash stands for. -/
def jsonLetterValue (c : UInt8) : Option UInt8 :=
  if c = byteOf '\\' ∨ c = byteOf '"' then some c
  else if c = byteOf 'n' then some (byteOf '\n')
  else if c = byteOf 'r' then some (byteOf '\r')
  else if c = byteOf 't' then some (byteOf '\t')
  else none

/-- Which letter stands behind the backslash. -/
theorem jsonLetter_cases {c letter : UInt8} (escaped : jsonLetter c = some letter) :
    letter = c ∧ (c = byteOf '\\' ∨ c = byteOf '"') ∨ c = byteOf '\n' ∧ letter = byteOf 'n' ∨
      c = byteOf '\r' ∧ letter = byteOf 'r' ∨ c = byteOf '\t' ∧ letter = byteOf 't' := by
  unfold jsonLetter at escaped
  split_ifs at escaped with itself newline feed tab <;> have letter := Option.some.inj escaped
  · exact .inl ⟨letter.symm, itself⟩
  · exact .inr (.inl ⟨newline, letter.symm⟩)
  · exact .inr (.inr (.inl ⟨feed, letter.symm⟩))
  · exact .inr (.inr (.inr ⟨tab, letter.symm⟩))

/-- What `json_escape` writes for one character, as an escaping. -/
def jsonEscaping : Escaping UInt8 where
  mark := byteOf '\\'
  letter := jsonLetter
  value := jsonLetterValue
  letter_mark := by decide
  value_letter c letter escaped := by
    rcases jsonLetter_cases escaped with ⟨rfl, itself⟩ | ⟨rfl, rfl⟩ | ⟨rfl, rfl⟩ | ⟨rfl, rfl⟩
    · rw [jsonLetterValue, if_pos itself]
    all_goals decide

/-! ## The loop -/

theorem jsonPut_written (written : List UInt8) {free : List UInt8} (room : 0 < free.length)
    (c : UInt8) :
    jsonPut (written ++ free) written.length c =
      some (written ++ [c] ++ free.drop 1, (written ++ [c]).length) := by
  have stored := storeAt_written written [c] room
  rw [jsonPut, stored, List.length_append]
  rfl

/-- A character takes as much room as its escape, and two bytes are enough. -/
theorem jsonEscapeChar_written {written free : List UInt8} (room : 2 ≤ free.length) (c : UInt8) :
    jsonEscapeChar (written ++ free) written.length c =
      some (written ++ jsonEscaping.escapeOne c ++ free.drop (jsonEscaping.escapeOne c).length,
        (written ++ jsonEscaping.escapeOne c).length) := by
  have pair : ∀ letter, jsonPutEscaped (written ++ free) written.length letter =
      some (written ++ [byteOf '\\', letter] ++ free.drop 2,
        (written ++ [byteOf '\\', letter]).length) := by
    intro letter
    have rest : 0 < (free.drop 1).length := by rw [List.length_drop]; omega
    rw [jsonPutEscaped, jsonPut_written _ (by omega), Option.bind_some, jsonPut_written _ rest]
    simp
  have some_room : 0 < free.length := by omega
  have single := jsonPut_written written some_room c
  rw [jsonEscapeChar, Escaping.escapeOne, jsonEscaping]
  simp only [jsonLetter]
  split_ifs
  all_goals first | exact pair _ | exact single

/-- The loop writes the escape of a part of the source behind what was written, and
leaves room for the NUL. It stops early only if the rest could be too long. -/
theorem jsonEscapeLoop_written (src written free : List UInt8) (room : 0 < free.length) :
    ∃ p, p <+: src ∧ (jsonEscaping.escape p).length < free.length ∧
      jsonEscapeLoop (written ++ free).length (written ++ free) written.length src =
        some (written ++ jsonEscaping.escape p ++ free.drop (jsonEscaping.escape p).length,
          (written ++ jsonEscaping.escape p).length) ∧
      (2 * src.length < free.length → p = src) := by
  induction src generalizing written free with
  | nil => exact ⟨[], List.nil_prefix, by simpa using room, by simp [jsonEscapeLoop], fun _ => rfl⟩
  | cons c src ih =>
    rw [jsonEscapeLoop]
    split_ifs with fits
    · rw [List.length_append] at fits
      have one := jsonEscaping.escapeOne_length_le c
      have left : 0 < (free.drop (jsonEscaping.escapeOne c).length).length := by
        rw [List.length_drop]
        omega
      obtain ⟨p, part, short, loop, whole⟩ :=
        ih (written ++ jsonEscaping.escapeOne c) (free.drop (jsonEscaping.escapeOne c).length) left
      have same : (written ++ jsonEscaping.escapeOne c ++
          free.drop (jsonEscaping.escapeOne c).length).length = (written ++ free).length := by
        simp only [List.length_append, List.length_drop]
        omega
      rw [same] at loop
      rw [List.length_drop] at short whole
      refine ⟨c :: p, List.cons_prefix_cons.mpr ⟨rfl, part⟩, ?_, ?_, ?_⟩
      · rw [Escaping.escape_cons, List.length_append]
        omega
      · rw [jsonEscapeChar_written (by omega), Option.bind_some, loop]
        simp [List.drop_drop, Nat.add_comm]
      · intro enough
        rw [List.length_cons] at enough
        rw [whole (by omega)]
    · rw [List.length_append] at fits
      refine ⟨[], List.nil_prefix, by simpa using room, by simp, ?_⟩
      intro enough
      rw [List.length_cons] at enough
      omega

/-! ## What is written -/

/-- The escape of a part `p` of the source, with its NUL, at the start of the buffer;
the rest of the buffer is as it was. -/
def EscapedInto (p dst out : List UInt8) : Prop :=
  (jsonEscaping.escape p).length < dst.length ∧
    out = jsonEscaping.escape p ++ 0 :: dst.drop ((jsonEscaping.escape p).length + 1)

theorem jsonEscape_spec (src : CString) {dst : List UInt8} (room : 0 < dst.length) :
    ∃ p out, p <+: src.bytes ∧ jsonEscape src dst = some out ∧ EscapedInto p dst out ∧
      (2 * src.bytes.length < dst.length → p = src.bytes) := by
  obtain ⟨p, part, short, loop, whole⟩ := jsonEscapeLoop_written src.bytes [] dst room
  simp only [List.nil_append, List.length_nil] at loop
  have left : 0 < (dst.drop (jsonEscaping.escape p).length).length := by
    rw [List.length_drop]
    omega
  refine ⟨p, _, part, ?_, ⟨short, rfl⟩, whole⟩
  rw [jsonEscape, loop, Option.bind_some]
  have stored := storeAt_written (jsonEscaping.escape p) [0] left
  rw [stored, List.drop_drop]
  simp

/-- What an escaped string holds: nothing it writes is a NUL. -/
theorem noNul_escape {p : List UInt8} (noNul : ∀ c ∈ p, c ≠ 0) :
    ∀ c ∈ jsonEscaping.escape p, c ≠ 0 := by
  refine jsonEscaping.forall_mem_escape noNul (by decide) fun a b letter => ?_
  rcases jsonLetter_cases letter with ⟨rfl, rfl | rfl⟩ | ⟨-, rfl⟩ | ⟨-, rfl⟩ | ⟨-, rfl⟩ <;> decide

/-- So the string that starts at the buffer is the escape. -/
theorem EscapedInto.string {p dst out : List UInt8} (escaped : EscapedInto p dst out)
    (noNul : ∀ c ∈ p, c ≠ 0) : (CString.ofMemory out).bytes = jsonEscaping.escape p := by
  rw [escaped.2]
  exact CString.ofMemory_append ⟨_, noNul_escape noNul⟩ _

/-- `json_escape` stays inside its buffer and writes the escape of a part of the source,
from which undoing the escapes gives that part back. All of the source is written if
twice its length is less than the buffer, as it is in `logger_log`, and two sources that
were written whole are told apart. -/
theorem json_escape_exact (src : CString) (dst : List UInt8) (room : 0 < dst.length) :
    ∃ p out, p <+: src.bytes ∧ jsonEscape src dst = some out ∧ EscapedInto p dst out ∧
      (CString.ofMemory out).bytes = jsonEscaping.escape p ∧
      jsonEscaping.unescape (CString.ofMemory out).bytes = some p ∧
      (2 * src.bytes.length < dst.length → p = src.bytes) ∧
      (src.bytes.length < logMessageSize → dst.length = logEscapedSize → p = src.bytes) ∧
      ∀ other dst' out', jsonEscape other dst' = some out' → EscapedInto other.bytes dst' out' →
        p = src.bytes → (CString.ofMemory out').bytes = (CString.ofMemory out).bytes →
          other.bytes = src.bytes := by
  obtain ⟨p, out, part, run, escaped, whole⟩ := jsonEscape_spec src room
  have string := escaped.string fun c member => src.noNul c (part.subset member)
  refine ⟨p, out, part, run, escaped, string, ?_, whole, ?_, ?_⟩
  · rw [string, Escaping.unescape_escape]
  · intro short size
    rw [logMessageSize] at short
    rw [size, logEscapedSize] at whole
    exact whole (by omega)
  · intro other dst' out' _ escaped' all same
    rw [string, escaped'.string other.noNul] at same
    exact (jsonEscaping.escape_injective same).trans all

/-- Two quotation marks do not fit into four bytes, so only one of them is written. -/
theorem json_escape_exact_two_marks :
    ∃ p out, p <+: bytesOf "\"\"" ∧
      jsonEscape ⟨bytesOf "\"\"", by decide +kernel⟩ [0xff, 0xff, 0xff, 0xff] = some out ∧
      jsonEscaping.unescape (CString.ofMemory out).bytes = some p ∧
      out = bytesOf "\\\"" ++ [0, 0xff] := by
  obtain ⟨p, out, part, run, -, -, undone, -⟩ :=
    json_escape_exact ⟨bytesOf "\"\"", by decide +kernel⟩ [0xff, 0xff, 0xff, 0xff]
      (by decide +kernel)
  have written : jsonEscape ⟨bytesOf "\"\"", by decide +kernel⟩ [0xff, 0xff, 0xff, 0xff] =
      some (bytesOf "\\\"" ++ [0, 0xff]) := by decide +kernel
  exact ⟨p, out, part, run, undone, Option.some.inj (run.symm.trans written)⟩

end OmniSocket
