/-
# The server's terminal

The main thread of `server_main.c` reads one line after another from the terminal and
sends every line that is not empty as a `COMMAND`, until it reads `quit`.
-/

import OmniSocket.App.Message
import OmniSocket.Lib.Ascii
import OmniSocket.Lib.Stdio

set_option autoImplicit false

namespace OmniSocket

open Lib

/-- Where the main thread stands in the interactive loop of `main`. -/
inductive ConsolePc
  /-- `while (atomic_load(&rt.running))`. -/
  | loopTest
  /-- `fgets(line, sizeof(line), stdin)`. -/
  | reading
  /-- In `send_app_message`, before `malloc` and the clock reading. -/
  | building (line : List UInt8)
  /-- In `send_app_message`, inside `omni_send(ctx, frame, total_len)`. -/
  | sending (frame : List UInt8)
  /-- Past the loop. -/
  | done
  deriving DecidableEq, Repr

/-- The main thread, the flag it shares and its terminal. -/
structure Console where
  /-- Control point of the main thread. -/
  pc : ConsolePc
  /-- `rt.running`. -/
  running : Bool
  /-- What has been typed and `fgets` has not returned yet. -/
  input : List UInt8
  deriving DecidableEq, Repr

/-- What the environment decides for the main thread. -/
inductive ConsoleEvent
  /-- `running` is loaded at the head of the loop. -/
  | load
  /-- `fgets` returns, with `NULL` if the input has ended. -/
  | fgets
  /-- `malloc` succeeds or not, and the clock is read. -/
  | malloc (ok : Bool) (now : UInt64)
  /-- `omni_send` returns `n`. -/
  | sent (n : ℤ)
  /-- The receive thread ends and stores 0 to `running`. -/
  | recvThreadExit
  deriving DecidableEq, Repr

/-- `sizeof(line)`. -/
def consoleLineSize : ℕ := 2048

/-- The string `"quit"`. -/
def quitWord : List UInt8 := bytesOf "quit"

/-- What is left of a piece that `fgets` has stored. -/
def consoleLine (piece : List UInt8) : List UInt8 := lineText piece

namespace Console

/-- The main thread at the head of the loop, with all the input typed ahead. -/
def start (input : List UInt8) : Console where
  pc := .loopTest
  running := true
  input := input

/-- What the loop does with a line. -/
def afterLine (c : Console) (line : List UInt8) : Console :=
  if line = [] then { c with pc := .loopTest }
  else if line = quitWord then { c with pc := .done }
  else { c with pc := .building line }

/-- What the loop does with the result of `send_app_message`. -/
def afterSend (c : Console) (rc : ℤ) : Console :=
  if rc ≠ omniOk then { c with pc := .done } else { c with pc := .loopTest }

/-- One action of the main thread, or the receive thread clearing `running`. -/
def step (host : Endian) (c : Console) : ConsoleEvent → Option Console
  | .load =>
    match c.pc with
    | .loopTest => some { c with pc := if c.running then .reading else .done }
    | _ => none
  | .fgets =>
    match c.pc with
    | .reading =>
      match Lib.fgets consoleLineSize c.input with
      | none => some { c with pc := .done }
      | some (piece, rest) => some ({ c with input := rest }.afterLine (consoleLine piece))
    | _ => none
  | .malloc ok now =>
    match c.pc with
    | .building line =>
      some (if ok then { c with pc := .sending (appFrame host msgTypeCommand line now) }
        else c.afterSend omniErrGeneric)
    | _ => none
  | .sent n =>
    match c.pc with
    | .sending frame => some (c.afterSend (if n ≠ ssize frame.length then omniErrIo else omniOk))
    | _ => none
  | .recvThreadExit => some { c with running := false }

end Console

end OmniSocket
