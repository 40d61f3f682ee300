/-
# What the relay is told

The control thread of `relay_main.c` takes one line after another from its input, and `main`
takes the first target from its options. Both leave the numbers to the C library: the
control thread to `sscanf`, the options to `atoi`.
-/

import OmniSocket.App.Relay
import OmniSocket.Lib.Ascii
import OmniSocket.Lib.Scan
import OmniSocket.Lib.Stdio

set_option autoImplicit false

namespace OmniSocket

open Lib

/-! ## Lines -/

/-- `sizeof(line)`. -/
def controlLineSize : ℕ := 256

/-- What is left of a piece that `fgets` has stored. -/
def controlLine (piece : List UInt8) : List UInt8 := lineText piece

/-- The string `"quit"`. -/
def controlQuit : List UInt8 := bytesOf "quit"

/-- The string `"show"`. -/
def controlShow : List UInt8 := bytesOf "show"

/-- The string `"set"`. -/
def controlSetWord : List UInt8 := bytesOf "set"

/-- What `sscanf(line, "set %63s %u", ip, &port)` takes the line for, if it converts both. A
space in the format stands for white space, or for none. -/
structure SetTokens where
  gap : List UInt8
  word : List UInt8
  gap' : List UInt8
  number : Numeral
  rest : List UInt8
  deriving DecidableEq, Repr

/-- `sscanf(line, "set %63s %u", ip, &port)`. -/
def scanSet (line : List UInt8) : Option SetTokens :=
  (scanLiteral controlSetWord line).bind fun text =>
    let gap := text.takeWhile isSpace
    let text := text.dropWhile isSpace
    let word := scanWord 63 text
    if word = [] then none
    else
      let text := text.drop word.length
      let gap' := text.takeWhile isSpace
      (scanNumeral (text.dropWhile isSpace)).map fun (number, rest) =>
        ⟨gap, word, gap', number, rest⟩

/-- What `%u` stores: the value of `strtoul` in an `unsigned`. -/
def SetTokens.port (size : SizeT) (t : SetTokens) : ℕ := t.number.toULong size.modulus % 2 ^ 32

/-- A word as the relay keeps it. A character stands for a byte. -/
def ipText (word : List UInt8) : String := String.ofList (word.map charOf)

/-- What the control thread makes of a line. -/
def controlCommand (size : SizeT) (line : List UInt8) : RelayCommand :=
  if line = [] then .other
  else if line = controlQuit then .quit
  else if line = controlShow then .other
  else
    match scanSet line with
    | some t =>
      if 0 < t.port size ∧ t.port size ≤ 65535 then
        .set (ipText t.word) (UInt16.ofNat (t.port size))
      else .other
    | none => .other

/-! ## Options -/

/-- The arguments of `-L`, `-P` and `-H`, each if it was given. -/
structure RelayOptions where
  listenPort : Option (List UInt8)
  targetPort : Option (List UInt8)
  targetIp : Option String
  deriving DecidableEq, Repr

/-- A port option as `main` keeps it in an `int`. -/
def portOption (size : SizeT) (text : Option (List UInt8)) : ℤ :=
  match text with
  | some text => atoi (size.modulus / 2) text
  | none => 0

/-- The check of the arguments in `main`, and the casts behind it. -/
def RelayOptions.check (size : SizeT) (options : RelayOptions) : Option RelayArgs :=
  match options.targetIp with
  | none => none
  | some ip =>
    if portOption size options.listenPort ≤ 0 ∨ portOption size options.targetPort ≤ 0 then none
    else
      some ⟨UInt16.ofInt (portOption size options.listenPort), ip,
        UInt16.ofInt (portOption size options.targetPort)⟩

end OmniSocket
