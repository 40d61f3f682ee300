/-
# Commands from the terminal

The interactive loop sees the terminal through a buffer of 2048 bytes. A line that just
fits leaves its newline for the next call, and the loop takes that for an empty line; so
what it sends are the lines that were typed. The client copies a command into a buffer of
the same size before it prints it, and loses nothing of it either.
-/

import OmniSocket.App.ClientRecv
import OmniSocket.App.Console

set_option autoImplicit false

namespace OmniSocket

open Lib

/-! ## Lines and commands -/

/-- A line of the terminal, without its newline. -/
structure OperatorLine where
  bytes : List UInt8
  fits : bytes.length ≤ 2047
  noNul : 0 ∉ bytes
  plain : lf ∉ bytes

/-- What is typed for some lines. -/
def typed (lines : List OperatorLine) : List UInt8 :=
  lines.flatMap fun line => line.bytes ++ [lf]

/-- The lines that are not empty, up to the first `quit`. -/
def upToQuit (lines : List (List UInt8)) : List (List UInt8) :=
  (lines.takeWhile (· ≠ quitWord)).filter (· ≠ [])

/-- The commands that the lines give: what is left of them without CR and LF at their ends. -/
def operatorCommands (lines : List OperatorLine) : List (List UInt8) :=
  upToQuit (lines.map fun line => stripEol line.bytes)

/-- The commands that the interactive loop makes of its input. -/
def consoleCommands (input : List UInt8) : List (List UInt8) :=
  upToQuit ((pieces consoleLineSize input).map consoleLine)

theorem upToQuit_empty (lines : List (List UInt8)) : upToQuit ([] :: lines) = upToQuit lines := by
  have other : [] ≠ quitWord := by decide +kernel
  rw [upToQuit, List.takeWhile_cons_of_pos (by simpa using other)]
  rfl

theorem upToQuit_quit (lines : List (List UInt8)) : upToQuit (quitWord :: lines) = [] := by
  rw [upToQuit, List.takeWhile_cons_of_neg (by simp)]
  rfl

theorem upToQuit_cons {line : List UInt8} (lines : List (List UInt8)) (some_byte : line ≠ [])
    (other : line ≠ quitWord) : upToQuit (line :: lines) = line :: upToQuit lines := by
  rw [upToQuit, List.takeWhile_cons_of_pos (by simpa using other),
    List.filter_cons_of_pos (by simpa using some_byte)]
  rfl

/-- What the first line comes to does not depend on the others. -/
theorem upToQuit_congr (line : List UInt8) {first second : List (List UInt8)}
    (same : upToQuit first = upToQuit second) :
    upToQuit (line :: first) = upToQuit (line :: second) := by
  by_cases quits : line = quitWord
  · rw [quits, upToQuit_quit, upToQuit_quit]
  · by_cases empty : line = []
    · rw [empty, upToQuit_empty, upToQuit_empty, same]
    · rw [upToQuit_cons _ empty quits, upToQuit_cons _ empty quits, same]

/-- A line that just fits leaves its newline for an empty line of its own. -/
theorem consoleCommands_typed (lines : List OperatorLine) :
    consoleCommands (typed lines) = operatorCommands lines := by
  unfold consoleCommands operatorCommands
  induction lines with
  | nil => simp [typed, pieces_nil]
  | cons line lines ih =>
    have next : typed (line :: lines) = line.bytes ++ lf :: typed lines := by simp [typed]
    have newline : consoleLine [lf] = [] := by decide +kernel
    rw [next, List.map_cons]
    rcases Nat.lt_or_eq_of_le line.fits with short | just
    · have whole : consoleLine (line.bytes ++ [lf]) = stripEol line.bytes := by
        rw [consoleLine, lineText_of_noNul (by simp [line.noNul, lf]), stripEol_lf]
      rw [pieces_short _ line.plain (by rw [consoleLineSize]; omega), List.map_cons, whole]
      exact upToQuit_congr _ ih
    · have rest := pieces_short (typed lines) (show lf ∉ [] by simp)
        (show ([] : List UInt8).length + 2 ≤ consoleLineSize by decide)
      rw [pieces_long _ line.plain (by decide) (by rw [consoleLineSize]; omega),
        List.take_of_length_le (by rw [consoleLineSize]; omega),
        List.drop_of_length_le (by rw [consoleLineSize]; omega), rest, List.map_cons,
        List.map_cons, consoleLine, lineText_of_noNul line.noNul, List.nil_append, newline]
      refine upToQuit_congr _ ?_
      rw [upToQuit_empty]
      exact ih

/-! ## The messages -/

/-- A `COMMAND` on its way. -/
structure CommandMessage where
  text : CString
  fits : text.bytes.length ≤ 2047
  now : UInt64

/-- The frame handed to `omni_send`. -/
def CommandMessage.frame (host : Endian) (m : CommandMessage) : List UInt8 :=
  appFrame host msgTypeCommand m.text.bytes m.now

theorem CommandMessage.length_frame (host : Endian) (m : CommandMessage) :
    (m.frame host).length = msgHeaderSize + m.text.bytes.length := length_appFrame ..

/-- Every command fits the receiver's buffer. -/
theorem CommandMessage.length_frame_le (host : Endian) (m : CommandMessage) :
    (m.frame host).length ≤ frameBufSize :=
  (m.length_frame host).trans_le
    (Nat.add_le_add_left (m.fits.trans (by decide : 2047 ≤ 65536)) msgHeaderSize)

/-- The client prints what was sent. -/
theorem afterRecv_command (sender host : Endian) (size : SizeT) (s : ClientRecv)
    (m : CommandMessage) :
    s.afterRecv host size (m.frame sender).length (m.frame sender) =
      { s with pc := .loopTest, printed := s.printed ++ [m.text.bytes] } := by
  have small := m.fits
  have length := m.length_frame sender
  have positive : 0 < (m.frame sender).length := by rw [length, msgHeaderSize]; omega
  have len : (UInt32.ofNat m.text.bytes.length).toNat = m.text.bytes.length := by
    rw [UInt32.toNat_ofNat']
    omega
  have copied : clientCommandLen ⟨msgTypeCommand, UInt32.ofNat m.text.bytes.length, m.now⟩ =
      m.text.bytes.length := by
    unfold clientCommandLen
    split
    case isTrue => exact len
    case isFalse more =>
      have full : 2047 ≤ (UInt32.ofNat m.text.bytes.length).toNat := not_lt.mp more
      omega
  have decoded : decodeAppMessage host size (m.frame sender) = _ :=
    decodeAppMessage_appFrame_eq sender host size msgTypeCommand m.now (by omega)
  rw [ClientRecv.afterRecv, if_neg (by omega), if_neg (by omega), Int.toNat_natCast,
    List.take_length, clientDecodeAppMessage, decoded]
  simp only [ClientRecv.handle, if_true, clientCommandText, copied, List.take_length,
    CString.ofMemory_append]

/-! ## What the server has still to send -/

namespace Console

/-- The commands that are still to be begun. -/
def toSend (c : Console) : List (List UInt8) :=
  match c.pc with
  | .loopTest | .reading | .sending _ => consoleCommands c.input
  | .building line => line :: consoleCommands c.input
  | .done => []

/-- How long the frame in `omni_send` is. -/
def frameSize (c : Console) : ℕ :=
  match c.pc with
  | .sending frame => frame.length
  | _ => 0

/-- How much is left to do: for each byte of the input more than for a frame of its own. -/
def work (c : Console) : ℕ :=
  600 * c.input.length +
    match c.pc with
    | .loopTest => 2
    | .reading => 1
    | .building line => 16 * (32 + line.length) + 4
    | .sending _ => 3
    | .done => 0

/-- The main thread keeps reading, and a line it is about to send can be a command. -/
structure Sends (c : Console) : Prop where
  running : c.running = true
  line : ∀ line, c.pc = .building line → ∃ text : CString, text.bytes = line ∧ line.length ≤ 2047

variable {host : Endian} {c c' : Console}

/-- Loading the flag leads to `fgets`. -/
theorem load_step (sends : c.Sends) (step : c.step host .load = some c') :
    c.pc = .loopTest ∧ c' = { c with pc := .reading } := by
  simp only [Console.step] at step
  split at step
  case h_1 pc =>
    rw [if_pos sends.running] at step
    exact ⟨pc, (Option.some.inj step).symm⟩
  case h_2 => exact absurd step (by simp)

/-- With its memory a line becomes a frame. -/
theorem malloc_step {now : UInt64} (step : c.step host (.malloc true now) = some c') :
    ∃ line, c.pc = .building line ∧
      c' = { c with pc := .sending (appFrame host msgTypeCommand line now) } := by
  simp only [Console.step] at step
  split at step
  case h_1 line pc => exact ⟨line, pc, (Option.some.inj step).symm⟩
  case h_2 => exact absurd step (by simp)

/-- Reading a line leaves the commands as they are, and less to do. -/
theorem fgets_step (sends : c.Sends) (step : c.step host .fgets = some c') :
    c'.Sends ∧ c'.toSend = c.toSend ∧ c'.work < c.work ∧ c.pc = .reading ∧
      (∀ frame, c'.pc ≠ .sending frame) := by
  simp only [Console.step] at step
  split at step
  case h_1 pc =>
    split at step
    case h_1 ended =>
      obtain rfl := Option.some.inj step
      have none : c.input = [] := by
        by_contra some_byte
        rw [Lib.fgets, if_neg some_byte] at ended
        cases ended
      refine ⟨⟨sends.running, by simp⟩, ?_, ?_, pc, by simp⟩
      · simp [toSend, pc, none, consoleCommands, pieces_nil, upToQuit]
      · simp [work, pc]
    case h_2 piece rest call =>
      obtain rfl := Option.some.inj step
      have first := pieces_of_fgets (by decide) call
      obtain ⟨split, some_byte, fits⟩ := fgets_split (by decide) call
      have positive := List.length_pos_iff.mpr some_byte
      have counted := congrArg List.length split
      rw [List.length_append] at counted
      have short : (consoleLine piece).length ≤ piece.length := length_lineText_le piece
      have commands : consoleCommands c.input =
          upToQuit (consoleLine piece :: (pieces consoleLineSize rest).map consoleLine) := by
        rw [consoleCommands, first, List.map_cons]
      unfold afterLine
      split_ifs with empty quits
      · refine ⟨⟨sends.running, by simp⟩, ?_, ?_, pc, by simp⟩
        · simp only [toSend, pc, commands, empty, upToQuit_empty]
          rfl
        · simp only [work, pc]
          omega
      · refine ⟨⟨sends.running, by simp⟩, ?_, ?_, pc, by simp⟩
        · simp only [toSend, pc, commands, quits, upToQuit_quit]
        · simp only [work, pc]
          omega
      · refine ⟨⟨sends.running, ?_⟩, ?_, ?_, pc, by simp⟩
        · intro line same
          obtain rfl := ConsolePc.building.inj same
          obtain ⟨text, bytes⟩ := exists_lineText piece
          exact ⟨text, bytes, short.trans (Nat.le_of_lt_succ fits)⟩
        · simp only [toSend, pc, commands, upToQuit_cons _ empty quits]
          rfl
        · simp only [work, pc]
          omega
  case h_2 => exact absurd step (by simp)

end Console

end OmniSocket
