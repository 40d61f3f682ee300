/-
# Commands over TCP

Server, connection and client run side by side, with every system call a step of its own;
`write` and `read` move any number of bytes. Nobody clears a flag here and nothing breaks,
so what the operator types reaches the client's screen, command by command.
-/

import OmniSocket.FileTransfer
import OmniSocket.Lib.Ending
import OmniSocket.OperatorCommands
import OmniSocket.TcpFlow

set_option autoImplicit false

namespace OmniSocket

open Lib

/-- The server's terminal and the client's receive thread, with the connection between
them. -/
structure Commanding where
  console : Console
  link : TcpLink
  client : ClientRecv

/-- Who moves next, and how the environment answers. -/
inductive CommandingLabel
  /-- The server loads `running`. -/
  | load
  /-- The server's `fgets` returns. -/
  | fgets
  /-- The server's `malloc` succeeds, its clock reads `now`, and `omni_send` is called at
  clock reading `t0`. -/
  | startSend (now t0 : UInt64)
  /-- A `write` inside the server's `omni_send`. -/
  | write (r : WriteResult)
  /-- The server's `omni_send` returns. -/
  | sendReturn
  /-- The client loads `running`. -/
  | clientLoad
  /-- A `read` inside the client's `omni_recv`. -/
  | read (r : ReadResult)
  /-- The client's `omni_recv` returns. -/
  | recvReturn
  deriving DecidableEq, Repr

/-- A system call is interrupted, or moves nothing. -/
def CommandingLabel.Idles (label : CommandingLabel) : Prop :=
  label = .write .eintr ∨ label = .write (.count 0) ∨ label = .read .eintr

namespace Commanding

/-- Both programs at the heads of their loops, on a fresh connection. -/
def start (input : List UInt8) : Commanding where
  console := .start input
  link := .fresh
  client := .start

/-- One step of the machine. The connection neither breaks nor ends. -/
def step (hosts : Hosts) (s : Commanding) : CommandingLabel → Option Commanding
  | .load => (s.console.step hosts.server .load).map fun c => { s with console := c }
  | .fgets => (s.console.step hosts.server .fgets).map fun c => { s with console := c }
  | .startSend now t0 =>
    (s.console.step hosts.server (.malloc true now)).bind fun c =>
      match c.pc with
      | .sending frame =>
        some { s with console := c, link := s.link.beginSend hosts.server t0 frame }
      | _ => none
  | .write r =>
    if r = .error then none else (s.link.write r).map fun l => { s with link := l }
  | .sendReturn =>
    match s.link.tx with
    | some (.returned value _) =>
      (s.console.step hosts.server (.sent value)).map fun c =>
        { s with console := c, link := s.link.endSend }
    | _ => none
  | .clientLoad =>
    (s.client.step hosts.client hosts.size .load).map fun c => { s with client := c }
  | .read r =>
    if s.client.pc = .receiving ∧ r ≠ .error ∧ r ≠ .count [] then
      (s.link.read hosts.client frameBufSize r).map fun l => { s with link := l }
    else none
  | .recvReturn =>
    match s.link.rx with
    | .returned value frame =>
      (s.client.step hosts.client hosts.size (.recv value frame)).map fun c =>
        { s with client := c, link := s.link.endRecv }
    | _ => none

/-- The machine of one session. -/
def machine (hosts : Hosts) : Machine Commanding CommandingLabel where
  step := step hosts

/-! ## The invariant -/

/-- The messages `pending` are on their way, behind what the client has printed and before
what the server has still to send. -/
structure Holds (hosts : Hosts) (commands : List (List UInt8)) (s : Commanding)
    (pending : List CommandMessage) : Prop where
  order : s.client.printed ++ (pending.map (·.text.bytes) ++ s.console.toSend) = commands
  flows : s.link.Flows hosts.server frameBufSize s.console.frameSize
    (pending.map (CommandMessage.frame hosts.server))
  calling : s.link.tx.isSome ↔ ∃ frame, s.console.pc = .sending frame
  console : s.console.Sends
  running : s.client.running = true
  listens : s.client.pc ≠ .stopped

/-- How much is left to do. -/
def work (s : Commanding) : ℕ :=
  s.console.work + s.link.work +
    match s.client.pc with
    | .loopTest => 1
    | .receiving | .stopped => 0

theorem holds_start (hosts : Hosts) (input : List UInt8) :
    (start input).Holds hosts (consoleCommands input) [] where
  order := rfl
  flows := TcpLink.flows_fresh _ _ _
  calling := by simp [start, TcpLink.fresh, Console.start]
  console := ⟨rfl, by simp [start, Console.start]⟩
  running := rfl
  listens := by simp [start, ClientRecv.start]

variable {hosts : Hosts} {commands : List (List UInt8)} {s t : Commanding}
  {pending : List CommandMessage}

/-! ## What each step preserves -/

/-- A server outside `omni_send` has no call on the connection. -/
theorem Holds.idle (holds : s.Holds hosts commands pending)
    (outside : ∀ frame, s.console.pc ≠ .sending frame) : s.link.tx = none := by
  rw [← Option.not_isSome_iff_eq_none, holds.calling]
  exact fun ⟨frame, inside⟩ => outside frame inside

theorem Holds.load (holds : s.Holds hosts commands pending)
    (step : s.step hosts .load = some t) : t.Holds hosts commands pending ∧ t.work < s.work := by
  obtain ⟨c, cstep, rfl⟩ := Option.map_eq_some_iff.mp step
  obtain ⟨pc, rfl⟩ := Console.load_step holds.console cstep
  have idle := holds.idle (by simp [pc])
  refine ⟨⟨?_, holds.flows.resize idle _, by simp [idle], ⟨holds.console.running, by simp⟩,
    holds.running, holds.listens⟩, ?_⟩
  · have order := holds.order
    simp only [Console.toSend, pc] at order
    exact order
  · simp only [work, Console.work, pc]
    omega

theorem Holds.fgets (holds : s.Holds hosts commands pending)
    (step : s.step hosts .fgets = some t) : t.Holds hosts commands pending ∧ t.work < s.work := by
  obtain ⟨c, cstep, rfl⟩ := Option.map_eq_some_iff.mp step
  obtain ⟨sends, same, less, pc, outside⟩ := Console.fgets_step holds.console cstep
  have idle := holds.idle (by simp [pc])
  refine ⟨⟨?_, holds.flows.resize idle _, by simp [idle, outside], sends, holds.running,
    holds.listens⟩, ?_⟩
  · show s.client.printed ++ (pending.map (·.text.bytes) ++ c.toSend) = commands
    rw [same]
    exact holds.order
  · simp only [work]
    omega

/-- A line becomes a message on its way. -/
theorem Holds.startSend {now t0 : UInt64} (holds : s.Holds hosts commands pending)
    (step : s.step hosts (.startSend now t0) = some t) :
    (∃ pending', t.Holds hosts commands pending') ∧ t.work < s.work := by
  obtain ⟨c, cstep, next⟩ := Option.bind_eq_some_iff.mp step
  obtain ⟨line, pc, rfl⟩ := Console.malloc_step cstep
  obtain rfl := Option.some.inj next
  obtain ⟨text, rfl, fits⟩ := holds.console.line line pc
  let m : CommandMessage := ⟨text, fits, now⟩
  have length := m.length_frame hosts.server
  obtain ⟨flows, more⟩ :=
    holds.flows.beginSend (holds.idle (by simp [pc])) t0 (m.length_frame_le hosts.server)
  refine ⟨⟨pending ++ [m], ?_, ?_, iff_of_true rfl ⟨_, rfl⟩, ⟨holds.console.running, by simp⟩,
    holds.running, holds.listens⟩, ?_⟩
  · have order := holds.order
    simp only [Console.toSend, pc] at order
    simpa [Console.toSend, m] using order
  · rw [List.map_append]
    exact flows
  · rw [length, msgHeaderSize] at more
    simp only [work, Console.work, pc]
    show _ + (s.link.beginSend hosts.server t0 (m.frame hosts.server)).work + _ < _
    rw [more]
    show _ + (s.link.work + 16 * (16 + (16 + text.bytes.length))) + _ < _
    omega

theorem Holds.write {r : WriteResult} (holds : s.Holds hosts commands pending)
    (step : s.step hosts (.write r) = some t) :
    t.Holds hosts commands pending ∧ t.work ≤ s.work ∧
      (r ≠ .eintr → r ≠ .count 0 → t.work < s.work) := by
  obtain ⟨works, step⟩ := Option.ite_none_left_eq_some.mp step
  obtain ⟨l, lstep, rfl⟩ := Option.map_eq_some_iff.mp step
  obtain ⟨flows, inside, steady, less⟩ := holds.flows.write works lstep
  have before : s.link.tx.isSome := by
    cases tx : s.link.tx with
    | none => exact absurd lstep (by simp [TcpLink.write, tx])
    | some tx => rfl
  refine ⟨⟨holds.order, flows, iff_of_true inside (holds.calling.mp before), holds.console,
    holds.running, holds.listens⟩, ?_, fun moves some_byte => ?_⟩
  · simp only [work]
    omega
  · have less := less moves some_byte
    simp only [work]
    omega

theorem Holds.sendReturn (holds : s.Holds hosts commands pending)
    (step : s.step hosts .sendReturn = some t) :
    t.Holds hosts commands pending ∧ t.work < s.work := by
  simp only [Commanding.step] at step
  split at step
  case h_1 value left returned =>
    obtain ⟨c, cstep, rfl⟩ := Option.map_eq_some_iff.mp step
    obtain ⟨value_eq, flows, same⟩ := holds.flows.endSend returned
    simp only [Console.step] at cstep
    split at cstep
    case h_1 frame pc =>
      obtain rfl := Option.some.inj cstep
      -- a call that did not fail returns the length of the frame
      have whole : value = ssize frame.length := by simp only [value_eq, Console.frameSize, pc]
      have sent : s.console.afterSend (if value ≠ ssize frame.length then omniErrIo else omniOk) =
          { s.console with pc := .loopTest } := by
        rw [if_neg (not_not.mpr whole), Console.afterSend, if_neg (by decide)]
      rw [sent]
      refine ⟨⟨?_, flows.resize rfl _, by simp [TcpLink.endSend], ⟨holds.console.running, by simp⟩,
        holds.running, holds.listens⟩, ?_⟩
      · have order := holds.order
        simp only [Console.toSend, pc] at order
        exact order
      · simp only [work, Console.work, pc, same]
        omega
    case h_2 => exact absurd cstep (by simp)
  case h_2 => exact absurd step (by simp)

theorem Holds.clientLoad (holds : s.Holds hosts commands pending)
    (step : s.step hosts .clientLoad = some t) :
    t.Holds hosts commands pending ∧ t.work < s.work := by
  obtain ⟨c, cstep, rfl⟩ := Option.map_eq_some_iff.mp step
  simp only [ClientRecv.step] at cstep
  split at cstep
  case h_1 pc =>
    rw [if_pos holds.running] at cstep
    obtain rfl := Option.some.inj cstep
    refine ⟨⟨holds.order, holds.flows, holds.calling, holds.console, holds.running, by simp⟩, ?_⟩
    simp only [work, pc]
    omega
  case h_2 => exact absurd cstep (by simp)

theorem Holds.read {r : ReadResult} (holds : s.Holds hosts commands pending)
    (step : s.step hosts (.read r) = some t) :
    t.Holds hosts commands pending ∧ t.work ≤ s.work ∧ (r ≠ .eintr → t.work < s.work) := by
  obtain ⟨⟨-, works, some_byte⟩, step⟩ := Option.ite_none_right_eq_some.mp step
  obtain ⟨l, lstep, rfl⟩ := Option.map_eq_some_iff.mp step
  obtain ⟨flows, same, steady, less⟩ := holds.flows.read (by decide) works some_byte lstep
  refine ⟨⟨holds.order, flows, ?_, holds.console, holds.running, holds.listens⟩, ?_,
    fun moves => ?_⟩
  · rw [same]
    exact holds.calling
  · simp only [work]
    omega
  · have less := less moves
    simp only [work]
    omega

/-- A message that has arrived is printed. -/
theorem Holds.recvReturn (holds : s.Holds hosts commands pending)
    (step : s.step hosts .recvReturn = some t) :
    (∃ pending', t.Holds hosts commands pending') ∧ t.work < s.work := by
  simp only [Commanding.step] at step
  split at step
  case h_1 value got returned =>
    obtain ⟨c, cstep, rfl⟩ := Option.map_eq_some_iff.mp step
    obtain ⟨rfl, ⟨rest, next, flows⟩, less⟩ := holds.flows.endRecv returned
    obtain ⟨m, later, rfl, rfl, rfl⟩ := List.map_eq_cons_iff.mp next
    simp only [ClientRecv.step] at cstep
    split at cstep
    case h_1 pc =>
      obtain rfl := Option.some.inj cstep
      rw [afterRecv_command]
      refine ⟨⟨later, ?_, flows, holds.calling, holds.console, holds.running, by simp⟩, ?_⟩
      · have order := holds.order
        simpa using order
      · simp only [work, pc]
        omega
    case h_2 => exact absurd cstep (by simp)
  case h_2 => exact absurd step (by simp)

/-- Every step keeps the invariant, and leaves less to do unless it idles. -/
theorem Holds.step {label : CommandingLabel} (holds : s.Holds hosts commands pending)
    (step : s.step hosts label = some t) :
    (∃ pending', t.Holds hosts commands pending') ∧ t.work ≤ s.work ∧
      (¬ label.Idles → t.work < s.work) := by
  have busy : ((∃ pending', t.Holds hosts commands pending') ∧ t.work < s.work) →
      (∃ pending', t.Holds hosts commands pending') ∧ t.work ≤ s.work ∧
        (¬ label.Idles → t.work < s.work) := fun ⟨holds', less⟩ => ⟨holds', less.le, fun _ => less⟩
  cases label with
  | load => exact busy ((holds.load step).imp_left fun holds' => ⟨_, holds'⟩)
  | fgets => exact busy ((holds.fgets step).imp_left fun holds' => ⟨_, holds'⟩)
  | startSend now t0 => exact busy (holds.startSend step)
  | write r =>
    obtain ⟨holds', steady, less⟩ := holds.write step
    refine ⟨⟨_, holds'⟩, steady, fun moves => less (fun same => moves ?_) fun same => moves ?_⟩
    · exact .inl (congrArg _ same)
    · exact .inr (.inl (congrArg _ same))
  | sendReturn => exact busy ((holds.sendReturn step).imp_left fun holds' => ⟨_, holds'⟩)
  | clientLoad => exact busy ((holds.clientLoad step).imp_left fun holds' => ⟨_, holds'⟩)
  | read r =>
    obtain ⟨holds', steady, less⟩ := holds.read step
    exact ⟨⟨_, holds'⟩, steady,
      fun moves => less fun same => moves (.inr (.inr (congrArg _ same)))⟩
  | recvReturn => exact busy (holds.recvReturn step)

/-! ## What can happen next -/

/-- Until it is past its loop the server can move. -/
theorem Holds.onward_server (holds : s.Holds hosts commands pending)
    (inside : s.console.pc ≠ .done) :
    ∃ label : CommandingLabel, ¬ label.Idles ∧ (s.step hosts label).isSome := by
  cases pc : s.console.pc with
  | loopTest =>
    exact ⟨.load, by simp [CommandingLabel.Idles], by simp [Commanding.step, Console.step, pc]⟩
  | reading =>
    refine ⟨.fgets, by simp [CommandingLabel.Idles], ?_⟩
    cases call : Lib.fgets consoleLineSize s.console.input <;>
      simp [Commanding.step, Console.step, pc, call]
  | building line =>
    exact ⟨.startSend 0 0, by simp [CommandingLabel.Idles],
      by simp [Commanding.step, Console.step, pc]⟩
  | sending frame =>
    obtain ⟨tx, calling⟩ := Option.isSome_iff_exists.mp (holds.calling.mpr ⟨frame, pc⟩)
    rcases holds.flows.exists_write calling with ⟨value, left, rfl⟩ | ⟨l, lstep⟩
    · exact ⟨.sendReturn, by simp [CommandingLabel.Idles],
        by simp [Commanding.step, calling, Console.step, pc]⟩
    · exact ⟨.write (.count 1), by simp [CommandingLabel.Idles], by simp [Commanding.step, lstep]⟩
  | done => exact absurd pc inside

/-- While a message is on its way and nobody is sending, the client can move. -/
theorem Holds.onward_client (holds : s.Holds hosts commands pending) (idle : s.link.tx = none)
    (waits : pending ≠ []) :
    ∃ label : CommandingLabel, ¬ label.Idles ∧ (s.step hosts label).isSome := by
  cases pc : s.client.pc with
  | loopTest =>
    exact ⟨.clientLoad, by simp [CommandingLabel.Idles],
      by simp [Commanding.step, ClientRecv.step, pc]⟩
  | receiving =>
    rcases holds.flows.exists_read hosts.client idle (by simpa using waits) with
      ⟨value, got, returned⟩ | ⟨b, l, lstep⟩
    · exact ⟨.recvReturn, by simp [CommandingLabel.Idles],
        by simp [Commanding.step, returned, ClientRecv.step, pc]⟩
    · exact ⟨.read (.count [b]), by simp [CommandingLabel.Idles],
        by simp [Commanding.step, pc, lstep]⟩
  | stopped => exact absurd pc holds.listens

/-- As long as something is still to be printed, somebody can move. -/
theorem Holds.onward (holds : s.Holds hosts commands pending) :
    s.client.printed = commands ∨ ∃ label t, ¬ label.Idles ∧ s.step hosts label = some t := by
  have enabled : (∃ label : CommandingLabel, ¬ label.Idles ∧ (s.step hosts label).isSome) →
      ∃ label t, ¬ label.Idles ∧ s.step hosts label = some t := by
    rintro ⟨label, busy, step⟩
    obtain ⟨t, step⟩ := Option.isSome_iff_exists.mp step
    exact ⟨label, t, busy, step⟩
  by_cases inside : s.console.pc = .done
  · by_cases waits : pending = []
    · have order := holds.order
      simp only [waits, List.map_nil, Console.toSend, inside, List.append_nil] at order
      exact .inl order
    · exact .inr (enabled (holds.onward_client (holds.idle (by simp [inside])) waits))
  · exact .inr (enabled (holds.onward_server inside))

/-! ## Delivery -/

/-- What is typed reaches the screen of the client: at the end of every run it has printed
the first ones of the commands, and the two programs come to a point where it has printed all
of them. -/
theorem operator_commands_arrive (hosts : Hosts) (lines : List OperatorLine) :
    (∀ labels s, (machine hosts).run (start (typed lines)) labels = some s →
      s.client.printed <+: operatorCommands lines) ∧
    (machine hosts).Ends CommandingLabel.Idles
      (fun s => s.client.printed = operatorCommands lines) (start (typed lines)) := by
  have first := holds_start hosts (typed lines)
  rw [consoleCommands_typed] at first
  have keeps : ∀ s label t, (∃ pending, Holds hosts (operatorCommands lines) s pending) →
      (machine hosts).step s label = some t →
      ∃ pending, Holds hosts (operatorCommands lines) t pending := by
    rintro s label t ⟨pending, holds⟩ step
    exact (holds.step step).1
  constructor
  · intro labels s hrun
    obtain ⟨pending, holds⟩ := (machine hosts).run_invariant keeps ⟨[], first⟩ hrun
    exact ⟨_, holds.order⟩
  · refine (machine hosts).ends_of_measure work ⟨[], first⟩ keeps ?_ ?_ ?_
    · rintro s label t ⟨pending, holds⟩ step
      exact (holds.step step).2.2
    · rintro s label t ⟨pending, holds⟩ step -
      exact (holds.step step).2.1
    · rintro s ⟨pending, holds⟩
      exact holds.onward

/-- `hi` with a CR behind it, an empty line, `quit`, and a line after it. -/
private def fourLines : List OperatorLine :=
  [⟨[104, 105, cr], by decide, by decide, by decide⟩, ⟨[], by decide, by decide, by decide⟩,
    ⟨[113, 117, 105, 116], by decide, by decide, by decide⟩,
    ⟨[110, 111], by decide, by decide, by decide⟩]

theorem operator_commands_arrive_four_lines : ∀ labels s,
    (machine ⟨.little, .big, .bits64⟩).run (start (typed fourLines)) labels = some s →
      s.client.printed <+: [[104, 105]] := by
  have commands : operatorCommands fourLines = [[104, 105]] := by decide +kernel
  rw [← commands]
  exact (operator_commands_arrive ⟨.little, .big, .bits64⟩ fourLines).1

end Commanding

end OmniSocket
