/-
# The language of the relay's control thread

A line says `set`, an address and a port, or `quit`, or nothing that matters. The control
thread reads a good deal more as `set`: words that are glued together, numbers with a sign or
beyond 32 bits, and whatever follows the number. It also reads a line of more than 255 bytes
as several, and an option with a port beyond 65535 as another port. Here is when it does not.
-/

import OmniSocket.App.RelayControl

set_option autoImplicit false

namespace OmniSocket

open Lib

/-! ## What lines mean -/

/-- A `set` line, word for word. -/
structure SetLine where
  gap : List UInt8
  word : List UInt8
  gap' : List UInt8
  digits : List UInt8
  rest : List UInt8
  gap_some : gap ≠ []
  gap_space : ∀ b ∈ gap, isSpace b = true
  word_some : word ≠ []
  word_plain : ∀ b ∈ word, isSpace b = false
  gap'_some : gap' ≠ []
  gap'_space : ∀ b ∈ gap', isSpace b = true
  digits_some : digits ≠ []
  digits_all : ∀ b ∈ digits, isDigit b = true
  rest_space : ∀ b ∈ rest, isSpace b = true
  port_pos : 1 ≤ decimalValue digits
  port_le : decimalValue digits ≤ 65535

namespace SetLine

def bytes (l : SetLine) : List UInt8 :=
  controlSetWord ++ (l.gap ++ (l.word ++ (l.gap' ++ (l.digits ++ l.rest))))

def ip (l : SetLine) : String := ipText l.word

def port (l : SetLine) : UInt16 := UInt16.ofNat (decimalValue l.digits)

/-- What `sscanf` should take the line for. -/
def tokens (l : SetLine) : SetTokens := ⟨l.gap, l.word, l.gap', ⟨[], l.digits⟩, l.rest⟩

end SetLine

/-- The control thread does with this command what the line is for. -/
structure Obeys (line : List UInt8) (command : RelayCommand) : Prop where
  /-- `relay_set_target` is called with the address and the port of a `set` line. -/
  set : ∀ l : SetLine, l.bytes = line → ∀ s : Relay, s.control = .reading →
    s.lineStep command = some { s with control := .setTarget (.init l.ip l.port) }
  /-- `quit` ends the relay. -/
  quit : line = controlQuit → ∀ s : Relay, s.control = .reading →
    s.lineStep command = some { s with control := .ended, running := false }
  /-- Any other line leaves it as it is. -/
  other : (∀ l : SetLine, l.bytes ≠ line) → line ≠ controlQuit → ∀ s : Relay,
    s.control = .reading → s.lineStep command = some { s with control := .loopTest }

/-- A relay whose control thread reads. -/
private def readingRelay : Relay := { Relay.start .tcp with control := .reading }

/-- The command of a `set` line is its address and its port. -/
theorem Obeys.command_eq {line : List UInt8} {command : RelayCommand} (obeys : Obeys line command)
    {l : SetLine} (bytes : l.bytes = line) : command = .set l.ip l.port := by
  have step := obeys.set l bytes readingRelay rfl
  cases command with
  | set ip port =>
    have control := congrArg Relay.control (Option.some.inj step)
    obtain ⟨rfl, rfl⟩ := SetTargetPc.init.inj (RelayControlPc.setTarget.inj control)
    rfl
  | quit | other =>
    have control := congrArg Relay.control (Option.some.inj step)
    cases control

/-- Only the command of a `set` line sets a target. -/
theorem Obeys.exists_setLine {line : List UInt8} {ip : String} {port : UInt16}
    (obeys : Obeys line (.set ip port)) : ∃ l : SetLine, l.bytes = line := by
  by_contra none
  have control : RelayControlPc.setTarget (.init ip port) = .loopTest ∨
      RelayControlPc.setTarget (.init ip port) = .ended := by
    by_cases quits : line = controlQuit
    · have step := obeys.quit quits readingRelay rfl
      exact .inr (congrArg Relay.control (Option.some.inj step))
    · have step := obeys.other (not_exists.mp none) quits readingRelay rfl
      exact .inl (congrArg Relay.control (Option.some.inj step))
  rcases control with same | same <;> cases same

/-! ## What `sscanf` takes for a `set` line -/

section Scan

variable {size : SizeT} {line : List UInt8} {t : SetTokens}

/-- A `set` line is neither of the other commands. -/
theorem ne_of_set {word : List UInt8} (set : controlSetWord <+: line)
    (other : ¬ controlSetWord <+: word) : line ≠ word := by
  rintro rfl
  exact other set

theorem not_quit_of_set (set : controlSetWord <+: line) :
    line ≠ [] ∧ line ≠ controlQuit ∧ line ≠ controlShow :=
  ⟨ne_of_set set (by decide +kernel), ne_of_set set (by decide +kernel),
    ne_of_set set (by decide +kernel)⟩

theorem not_space_of_isDigit {b : UInt8} (digit : isDigit b = true) : isSpace b = false := by
  simp only [isDigit, Bool.and_eq_true, decide_eq_true_eq, UInt8.le_iff_toNat_le] at digit
  have apart : ¬ b.toNat ≤ 13 ∧ b.toNat ≠ 32 := by
    have low : 48 ≤ b.toNat := digit.1
    omega
  simp only [isSpace, Bool.or_eq_false_iff, Bool.and_eq_false_iff, beq_eq_false_iff_ne,
    decide_eq_false_iff_not, UInt8.le_iff_toNat_le]
  refine ⟨fun same => apart.2 (by rw [same]; rfl), .inr apart.1⟩

/-- A `set` line with a word that is not too long is taken for what it is. -/
theorem scanSet_bytes (l : SetLine) (fits : l.word.length ≤ 63) :
    scanSet l.bytes = some l.tokens := by
  have word_stops : StopsAt isSpace (l.word ++ (l.gap' ++ (l.digits ++ l.rest))) := by
    intro b first
    rw [List.head?_append_of_ne_nil _ l.word_some] at first
    exact l.word_plain b (List.mem_of_mem_head? first)
  have gap'_stops : ∀ b ∈ (l.gap' ++ (l.digits ++ l.rest)).head?, isSpace b = true := by
    intro b first
    rw [List.head?_append_of_ne_nil _ l.gap'_some] at first
    exact l.gap'_space b (List.mem_of_mem_head? first)
  have digits_stop : StopsAt isSpace (l.digits ++ l.rest) := by
    intro b first
    rw [List.head?_append_of_ne_nil _ l.digits_some] at first
    exact not_space_of_isDigit (l.digits_all b (List.mem_of_mem_head? first))
  have rest_stops : StopsAt isDigit l.rest := by
    intro b first
    by_contra digit
    have space := l.rest_space b (List.mem_of_mem_head? first)
    rw [not_space_of_isDigit (Bool.not_eq_false _ ▸ digit)] at space
    exact absurd space (by decide)
  rw [scanSet, SetLine.bytes, scanLiteral_append, Option.bind_some]
  simp only [takeWhile_run l.gap_space word_stops, dropWhile_run l.gap_space word_stops,
    scanWord_append fits l.word_plain gap'_stops, if_neg l.word_some, List.drop_left,
    takeWhile_run l.gap'_space digits_stop, dropWhile_run l.gap'_space digits_stop,
    scanNumeral_digits l.digits_some l.digits_all rest_stops, Option.map_some, SetLine.tokens]

/-- Where both directives convert, the line falls into their pieces. -/
theorem scanSet_spec (scan : scanSet line = some t) :
    line = controlSetWord ++
        (t.gap ++ (t.word ++ (t.gap' ++ (t.number.sign ++ (t.number.digits ++ t.rest))))) ∧
      (∀ b ∈ t.gap, isSpace b = true) ∧ (t.word ≠ [] ∧ t.word.length ≤ 63 ∧
        ∀ b ∈ t.word, isSpace b = false) ∧ (∀ b ∈ t.gap', isSpace b = true) ∧
      t.number.digits ≠ [] ∧ ∀ b ∈ t.number.digits, isDigit b = true := by
  obtain ⟨text, literal, scan⟩ := Option.bind_eq_some_iff.mp scan
  obtain ⟨some_byte, scan⟩ := Option.ite_none_left_eq_some.mp scan
  obtain ⟨⟨number, rest⟩, numeral, rfl⟩ := Option.map_eq_some_iff.mp scan
  obtain ⟨split, short, plain⟩ := scanWord_spec 63 (text.dropWhile isSpace)
  obtain ⟨bytes, some_digit, digits⟩ := scanNumeral_spec numeral
  refine ⟨?_, fun b member => List.mem_takeWhile_imp member, ⟨some_byte, short, plain⟩,
    fun b member => List.mem_takeWhile_imp member, some_digit, digits⟩
  rw [eq_append_of_scanLiteral literal, ← bytes, List.takeWhile_append_dropWhile, split,
    List.takeWhile_append_dropWhile]

theorem port_tokens (l : SetLine) : l.tokens.port size = decimalValue l.digits := by
  have top := l.port_le
  have small : decimalValue l.digits < size.modulus := by
    cases size <;> rw [SizeT.modulus] <;> omega
  rw [SetTokens.port, SetLine.tokens, Numeral.toULong_of_lt rfl small]
  exact Nat.mod_eq_of_lt (top.trans_lt (by decide))

/-- The line is taken for a `set` line with a port in range. -/
def SetTokens.InRange (size : SizeT) (t : SetTokens) : Prop :=
  0 < t.port size ∧ t.port size ≤ 65535

/-- The pieces are those of a `set` line: white space between the words and behind the
number, which has no sign and is below 2^32. -/
structure SetTokens.Tidy (t : SetTokens) : Prop where
  gap : t.gap ≠ []
  gap' : t.gap' ≠ []
  unsigned : t.number.sign = []
  small : decimalValue t.number.digits < 2 ^ 32
  rest : ∀ b ∈ t.rest, isSpace b = true

theorem SetLine.tidy (l : SetLine) : l.tokens.Tidy where
  gap := l.gap_some
  gap' := l.gap'_some
  unsigned := rfl
  small := l.port_le.trans_lt (by decide)
  rest := l.rest_space

/-- Tidy pieces with a port in range are a `set` line. -/
theorem exists_setLine (scan : scanSet line = some t) (inRange : t.InRange size) (tidy : t.Tidy) :
    ∃ l : SetLine, l.bytes = line := by
  obtain ⟨split, gap, ⟨some_byte, -, plain⟩, gap', some_digit, digits⟩ := scanSet_spec scan
  have small := tidy.small
  have value : t.port size = decimalValue t.number.digits := by
    have below : decimalValue t.number.digits < size.modulus := by
      cases size <;> rw [SizeT.modulus] <;> omega
    rw [SetTokens.port, Numeral.toULong_of_lt tidy.unsigned below]
    exact Nat.mod_eq_of_lt small
  obtain ⟨positive, top⟩ := inRange
  rw [value] at positive top
  refine ⟨⟨t.gap, t.word, t.gap', t.number.digits, t.rest, tidy.gap, gap, some_byte, plain,
    tidy.gap', gap', some_digit, digits, tidy.rest, positive, top⟩, ?_⟩
  rw [split, tidy.unsigned]
  rfl

/-- What the control thread makes of a line that is taken for a `set` line. -/
theorem controlCommand_of_scan (scan : scanSet line = some t) (inRange : t.InRange size) :
    controlCommand size line = .set (ipText t.word) (UInt16.ofNat (t.port size)) := by
  obtain ⟨split, -⟩ := scanSet_spec scan
  have starts : controlSetWord <+: line := ⟨_, split.symm⟩
  obtain ⟨some_byte, quits, shows⟩ := not_quit_of_set starts
  rw [controlCommand, if_neg some_byte, if_neg quits, if_neg shows, scan]
  exact if_pos inRange

theorem controlCommand_bytes (l : SetLine) (fits : l.word.length ≤ 63) :
    controlCommand size l.bytes = .set l.ip l.port := by
  have port : l.tokens.port size = decimalValue l.digits := port_tokens l
  have inRange : l.tokens.InRange size := by
    rw [SetTokens.InRange, port]
    exact ⟨l.port_pos, l.port_le⟩
  rw [controlCommand_of_scan (scanSet_bytes l fits) inRange, port]
  rfl

/-- Only such a line makes it set a target. -/
theorem scan_of_controlCommand {ip : String} {port : UInt16}
    (command : controlCommand size line = .set ip port) :
    ∃ t, scanSet line = some t ∧ t.InRange size ∧ ip = ipText t.word := by
  unfold controlCommand at command
  split_ifs at command
  split at command
  case h_1 t scan =>
    split_ifs at command with inRange
    exact ⟨t, scan, inRange, (RelayCommand.set.inj command).1.symm⟩
  case h_2 => cases command

theorem controlCommand_eq_quit_iff : controlCommand size line = .quit ↔ line = controlQuit := by
  constructor
  · intro command
    unfold controlCommand at command
    split_ifs at command with some_byte quits
    · exact quits
    · split at command
      case h_1 => split_ifs at command
      case h_2 => cases command
  · rintro rfl
    rw [controlCommand, if_neg (by decide +kernel), if_pos rfl]

end Scan

/-! ## When a line is obeyed -/

/-- The relay's words for `set` lines and for what it takes for them are the same ones. -/
structure Understood (size : SizeT) (line : List UInt8) : Prop where
  /-- What is taken for a `set` line with a port in range is tidy. -/
  tidy : ∀ t, scanSet line = some t → t.InRange size → t.Tidy
  /-- The address of a `set` line has at most 63 bytes. -/
  short : ∀ l : SetLine, l.bytes = line → l.word.length ≤ 63

theorem length_ipText (word : List UInt8) : (ipText word).length = word.length := by
  rw [ipText, String.length_ofList, List.length_map]

/-- The control thread does with a line what it is for exactly if it understands it. -/
theorem obeys_iff (size : SizeT) (line : List UInt8) :
    Obeys line (controlCommand size line) ↔ Understood size line := by
  constructor
  · intro obeys
    -- the word that was scanned has at most 63 bytes, and it is the word of the line
    have short : ∀ l : SetLine, l.bytes = line → l.word.length ≤ 63 := by
      intro l bytes
      obtain ⟨t, scan, -, ip⟩ := scan_of_controlCommand (obeys.command_eq bytes)
      obtain ⟨-, -, ⟨-, fits, -⟩, -⟩ := scanSet_spec scan
      have same := congrArg String.length ip
      rw [SetLine.ip, length_ipText, length_ipText] at same
      omega
    refine ⟨fun t scan inRange => ?_, short⟩
    have command := controlCommand_of_scan scan inRange
    obtain ⟨l, rfl⟩ := (command ▸ obeys).exists_setLine
    obtain rfl := Option.some.inj (scan.symm.trans (scanSet_bytes l (short l rfl)))
    exact l.tidy
  · intro understood
    refine ⟨?_, ?_, ?_⟩
    · rintro l rfl s reading
      rw [controlCommand_bytes l (understood.short l rfl), Relay.lineStep, reading]
    · intro quits s reading
      rw [controlCommand_eq_quit_iff.mpr quits, Relay.lineStep, reading]
    · intro none quits s reading
      cases command : controlCommand size line with
      | set ip port =>
        obtain ⟨t, scan, inRange, -⟩ := scan_of_controlCommand command
        obtain ⟨l, bytes⟩ := exists_setLine scan inRange (understood.tidy t scan inRange)
        exact absurd bytes (none l)
      | quit => exact absurd (controlCommand_eq_quit_iff.mp command) quits
      | other => rw [Relay.lineStep, reading]

/-! ## Whole lines -/

/-- A line of the relay's input, without its newline. -/
structure InputLine where
  bytes : List UInt8
  noNul : 0 ∉ bytes
  plain : lf ∉ bytes

/-- What `fgets` makes of a line. -/
def InputLine.pieces (w : InputLine) : List (List UInt8) :=
  Lib.pieces controlLineSize (w.bytes ++ [lf])

/-- The line is one command for the relay, and the one it says. -/
structure LineExact (size : SizeT) (w : InputLine) : Prop where
  one : ∀ piece ∈ w.pieces.tail, controlLine piece = []
  obeys : ∀ piece ∈ w.pieces.head?,
    Obeys (stripEol w.bytes) (controlCommand size (controlLine piece))

/-- It fits the buffer, but for CR, and what it says is understood. -/
structure LineFits (size : SizeT) (w : InputLine) : Prop where
  long : ∀ b ∈ w.bytes.drop 255, b = cr
  understood : Understood size (stripEol w.bytes)

/-- A line is one command exactly if no more than CR is left of it after the first piece. -/
theorem one_command_iff (w : InputLine) :
    (∀ piece ∈ w.pieces.tail, controlLine piece = []) ↔ ∀ b ∈ w.bytes.drop 255, b = cr := by
  rcases Nat.lt_or_ge controlLineSize (w.bytes.length + 2) with long | short
  · have back : ∀ b ∈ w.bytes.drop 255, b ∈ w.bytes := fun b member => List.mem_of_mem_drop member
    have first := pieces_long [lf] w.plain (by decide) (Nat.le_of_lt_succ long)
    rw [InputLine.pieces, first, List.tail_cons]
    exact lineText_pieces_eq_nil_iff (by decide) (fun zero => w.noNul (back 0 zero))
      fun newline => w.plain (back lf newline)
  · have first := pieces_short [] w.plain short
    rw [InputLine.pieces, first, pieces_nil, List.drop_of_length_le]
    · simp
    · rw [controlLineSize] at short
      omega

/-- Then it is what the first piece says. -/
theorem controlLine_head (w : InputLine) (long : ∀ b ∈ w.bytes.drop 255, b = cr) :
    ∃ piece, w.pieces.head? = some piece ∧ controlLine piece = stripEol w.bytes := by
  rcases Nat.lt_or_ge controlLineSize (w.bytes.length + 2) with more | short
  · have front : 0 ∉ w.bytes.take 255 := fun zero => w.noNul (List.mem_of_mem_take zero)
    have first := pieces_long [lf] w.plain (by decide) (Nat.le_of_lt_succ more)
    refine ⟨w.bytes.take 255, by rw [InputLine.pieces, first]; rfl, ?_⟩
    rw [controlLine, lineText_of_noNul front]
    conv_rhs => rw [← List.take_append_drop 255 w.bytes]
    exact (stripEol_append fun b member => .inr (long b member)).symm
  · have first := pieces_short [] w.plain short
    refine ⟨w.bytes ++ [lf], by rw [InputLine.pieces, first]; rfl, ?_⟩
    rw [controlLine, lineText_of_noNul (by simp [w.noNul, lf]), stripEol_lf]

theorem lineExact_iff (size : SizeT) (w : InputLine) : LineExact size w ↔ LineFits size w := by
  constructor
  · rintro ⟨one, obeys⟩
    have long := (one_command_iff w).mp one
    obtain ⟨piece, head, text⟩ := controlLine_head w long
    have first := obeys piece head
    rw [text] at first
    exact ⟨long, (obeys_iff size _).mp first⟩
  · rintro ⟨long, understood⟩
    obtain ⟨piece, head, text⟩ := controlLine_head w long
    refine ⟨(one_command_iff w).mpr long, fun piece' head' => ?_⟩
    obtain rfl := Option.some.inj (head.symm.trans head')
    rw [text]
    exact (obeys_iff size _).mpr understood

/-! ## Port options -/

/-- A port that `main` accepts is used as the number it was given as. -/
def PortExact (size : SizeT) (options : RelayOptions) : Prop :=
  ∀ args text, options.check size = some args → options.targetPort = some text →
    (args.targetPort.toNat : ℤ) = leadingValue text

/-- The number is a port, or is turned down. -/
def PortInRange (size : SizeT) (options : RelayOptions) : Prop :=
  ∀ text, (options.check size).isSome → options.targetPort = some text →
    1 ≤ leadingValue text ∧ leadingValue text ≤ 65535

/-- What is accepted is above zero, and is narrowed. -/
theorem check_eq_some {size : SizeT} {options : RelayOptions} {args : RelayArgs}
    (check : options.check size = some args) :
    0 < portOption size options.targetPort ∧
      args.targetPort = UInt16.ofInt (portOption size options.targetPort) := by
  unfold RelayOptions.check at check
  split at check
  case h_1 => cases check
  case h_2 ip _ =>
    obtain ⟨accepted, rfl⟩ := (Option.ite_none_left_eq_some.mp check).imp_right Option.some.inj
    exact ⟨not_le.mp fun low => accepted (.inr low), rfl⟩

theorem portExact_iff (size : SizeT) (options : RelayOptions) :
    PortExact size options ↔ PortInRange size options := by
  have wide : 2 ^ 31 ≤ size.modulus / 2 := by cases size <;> decide
  constructor
  · intro same text accepted given
    obtain ⟨args, check⟩ := Option.isSome_iff_exists.mp accepted
    obtain ⟨positive, -⟩ := check_eq_some check
    have used := same args text check given
    have small := args.targetPort.toNat_lt
    -- a numeral in the range of a port is what `atoi` returns
    have value : atoi (size.modulus / 2) text = leadingValue text :=
      atoi_of_small wide (by omega) (by omega)
    rw [given, portOption, value] at positive
    omega
  · intro inRange args text check given
    obtain ⟨low, high⟩ := inRange text (Option.isSome_of_eq_some check) given
    obtain ⟨-, used⟩ := check_eq_some check
    have value : atoi (size.modulus / 2) text = leadingValue text :=
      atoi_of_small wide (by omega) (by omega)
    rw [used, given, portOption, value, UInt16.ofInt, UInt16.toNat_ofNat']
    omega

/-- The relay does what its input says on exactly the lines that fit and that it understands,
and its port option is exact for exactly the numbers that are ports. -/
theorem relay_control_exact_iff (size : SizeT) :
    (∀ w : InputLine, LineExact size w ↔ LineFits size w) ∧
      ∀ options : RelayOptions, PortExact size options ↔ PortInRange size options :=
  ⟨lineExact_iff size, portExact_iff size⟩

/-- A `set` line with one number too many. -/
private def twoPorts : InputLine :=
  ⟨bytesOf "set 127.0.0.1 9000 9001", by decide +kernel, by decide +kernel⟩

private def widePort : RelayOptions where
  listenPort := some (bytesOf "9000")
  targetPort := some (bytesOf "65537")
  targetIp := some "127.0.0.1"

/-- The relay takes the first number for the port; and port 65537 for port 1. -/
theorem relay_control_exact_counterexample :
    ¬ LineExact .bits64 twoPorts ∧ ¬ PortExact .bits64 widePort := by
  constructor
  · intro line
    obtain ⟨-, tidy, -⟩ := (lineExact_iff .bits64 twoPorts).mp line
    have found : (scanSet (stripEol twoPorts.bytes)).any fun t =>
        decide ((0 < t.port .bits64 ∧ t.port .bits64 ≤ 65535) ∧ 57 ∈ t.rest) := by decide +kernel
    obtain ⟨t, scan, ends⟩ := (Option.any_eq_true _ _).mp found
    obtain ⟨inRange, digit⟩ := of_decide_eq_true ends
    exact absurd ((tidy t scan inRange).rest 57 digit) (by decide)
  · intro port
    have used := port ⟨9000, "127.0.0.1", 1⟩ (bytesOf "65537") (by decide +kernel) rfl
    exact absurd used (by decide +kernel)

end OmniSocket
