/-
# What a step of the relay can do

The step function follows the two threads through the program. What the results
about the relay need of it is less: which of a dozen things a step did to the
contexts and to the log. The control points matter only as far as they say what
a thread is about to do.
-/

import OmniSocket.Lib.Machine
import OmniSocket.App.Relay
import OmniSocket.Ikcp.Message

set_option autoImplicit false

namespace OmniSocket

open Lib

/-- `main` has joined the control thread, or has returned without one. -/
def RelayMainPc.afterJoin : RelayMainPc → Bool
  | .takeTx | .closeTx _ | .returned => true
  | _ => false

namespace Relay

/-- The machine of the relay. -/
def machine (args : RelayArgs) : Machine Relay RelayLabel where
  step := step args

/-! ## What the threads are about to do -/

/-- The message the main thread has received and not yet dealt with. -/
def waiting (s : Relay) : List (List UInt8) :=
  match s.main with
  | .forwarding msg => [msg]
  | _ => []

/-- The main thread has not started the control thread. -/
def Starting (s : Relay) : Prop :=
  match s.main with
  | .initRx | .setTarget _ | .create | .abortRx | .abortTx => True
  | _ => False

/-- The main thread has not taken the forwarding context away. -/
def Open (s : Relay) : Prop :=
  match s.main with
  | .closeTx _ | .returned => False
  | _ => True

/-- A thread is about to install `new`. -/
def Installs (s : Relay) (new : RelayTarget) : Prop :=
  s.main = .setTarget (.install new) ∨ s.control = .setTarget (.install new)

/-- A thread is about to close `old`, which it has replaced. -/
def Closes (s : Relay) (old : RelayTarget) : Prop :=
  s.main = .setTarget (.close old) ∨ s.control = .setTarget (.close old)

/-- There is no control thread yet while the main thread sets the first target. -/
def Alone (s : Relay) : Prop := s.Starting → s.control = .absent

/-- The main thread is about to do the same with messages. -/
structure SameMain (s t : Relay) : Prop where
  waiting : t.waiting = s.waiting
  sending : ∀ msg, t.main = .sending msg ↔ s.main = .sending msg
  opened : t.Open → s.Open

/-- The threads are about to install and close the same contexts. -/
structure SameSet (s t : Relay) : Prop where
  installs : ∀ new, t.Installs new ↔ s.Installs new
  closes : ∀ old, t.Closes old ↔ s.Closes old

/-! ## What a step does -/

/-- The moves of the relay. Each says what becomes of everything but the control
points, and of these what the threads are about to do. -/
inductive Move (args : RelayArgs) (s t : Relay) : Prop
  /-- Only control points move. -/
  | quiet (main : SameMain s t) (set : SameSet s t)
      (same : t = { s with main := t.main, control := t.control, running := t.running })
  /-- A context that no `relay_set_target` has replaced is closed. -/
  | closed (c : RelayContext) (main : SameMain s t) (set : SameSet s t)
      (same : t = { s with main := t.main, log := s.log ++ [.closed c] })
  /-- The main thread takes the forwarding context away. -/
  | takeTx (main : SameMain s t) (set : SameSet s t) (shut : ¬ t.Open)
      (same : t = { s with main := t.main, txCtx := none })
  /-- `omni_init` has returned the receiving context. -/
  | rxCreated (ctx : OmniContext) (answer : InitAnswer)
      (init : omniInit .server s.proto none args.listenPort none 0 answer = some ctx)
      (main : SameMain s t) (set : SameSet s t)
      (same : t = { s with
        main := t.main
        rxCtx := some ⟨s.created, ctx⟩
        created := s.created + 1
        log := s.log ++ [.created s.created] })
  /-- `omni_init` has returned a new forwarding context. -/
  | txCreated (new : RelayTarget) (answer : InitAnswer) (id : new.id = s.created)
      (init : omniInit .client s.proto none 0 (some new.ip) new.port answer = some new.ctx)
      (main : SameMain s t) (installs : ∀ other, t.Installs other ↔ other = new)
      (closes : ∀ old, ¬ t.Closes old)
      (same : t = { s with
        main := t.main
        control := t.control
        created := s.created + 1
        log := s.log ++ [.created s.created] })
  /-- A new forwarding context is installed. -/
  | installed (new : RelayTarget) (pending : s.Installs new) (free : s.Unlocked)
      (main : SameMain s t) (installs : ∀ other, ¬ t.Installs other)
      (closes : ∀ old, t.Closes old ↔ s.txCtx = some old)
      (same : t = { s with
        main := t.main
        control := t.control
        txCtx := some new
        targetIp := snprintfIp new.ip
        targetPort := new.port
        log := s.log ++ [.installed new] })
  /-- A replaced context is closed. -/
  | closedOld (old : RelayTarget) (pending : s.Closes old) (main : SameMain s t)
      (installs : ∀ new, ¬ t.Installs new) (closes : ∀ other, ¬ t.Closes other)
      (same : t = { s with
        main := t.main
        control := t.control
        log := s.log ++ [.closed old.toRelayContext] })
  /-- `omni_recv` has returned no message. -/
  | polled (rx : RelayContext) (answer : RecvAnswer) (n : ℤ) (buf : List UInt8) (ctx : OmniContext)
      (installed : s.rxCtx = some rx)
      (recv : omniRecv rx.ctx frameBufSize answer = some (n, buf, ctx)) (none : n ≤ 0)
      (main : SameMain s t) (set : SameSet s t)
      (same : t = { s with main := t.main, rxCtx := some { rx with ctx := ctx } })
  /-- `omni_recv` has returned a message. -/
  | received (rx : RelayContext) (answer : RecvAnswer) (n : ℤ) (buf : List UInt8)
      (ctx : OmniContext) (installed : s.rxCtx = some rx)
      (recv : omniRecv rx.ctx frameBufSize answer = some (n, buf, ctx)) (some_byte : 0 < n)
      (before : s.main = .receiving) (after : t.main = .forwarding (buf.take n.toNat))
      (set : SameSet s t)
      (same : t = { s with
        main := t.main
        rxCtx := some { rx with ctx := ctx }
        log := s.log ++ [.received (buf.take n.toNat)] })
  /-- There is no forwarding context. -/
  | dropped (msg : List UInt8) (before : s.main = .forwarding msg) (none : s.txCtx = none)
      (after : t.main = .loopTest) (set : SameSet s t)
      (same : t = { s with main := t.main, log := s.log ++ [.dropped msg] })
  /-- `omni_send` was called and has returned. -/
  | handed (msg : List UInt8) (tx : RelayTarget) (answer : SendAnswer) (m : ℤ) (ctx : OmniContext)
      (before : s.main = .forwarding msg) (installed : s.txCtx = some tx)
      (fits : answer.Fits tx.ctx msg) (send : omniSend tx.ctx msg answer = some (m, ctx))
      (after : t.main = .loopTest) (set : SameSet s t)
      (same : t = { s with
        main := t.main
        txCtx := some { tx with ctx := ctx }
        log := s.log ++ [.handed tx msg answer (some m)] })
  /-- `omni_send` was called and has not returned. -/
  | stuck (msg : List UInt8) (tx : RelayTarget) (answer : SendAnswer)
      (before : s.main = .forwarding msg) (installed : s.txCtx = some tx)
      (fits : answer.Fits tx.ctx msg) (send : omniSend tx.ctx msg answer = none)
      (after : t.main = .sending msg) (set : SameSet s t)
      (same : t = { s with
        main := t.main
        log := s.log ++ [.handed tx msg answer none] })

section Steps

variable {args : RelayArgs} {s t : Relay}

/-- `omni_init` returns inside `relay_set_target`: the new context is pending, or
nothing has changed. -/
private theorem setTargetInit_spec (s : Relay) (ip : String) (port : UInt16)
    (answer : InitAnswer) :
    s.setTargetInit ip port answer = (s, none) ∨
      ∃ new : RelayTarget, new.id = s.created ∧
        omniInit .client s.proto none 0 (some new.ip) new.port answer = some new.ctx ∧
        s.setTargetInit ip port answer =
          ({ s with created := s.created + 1, log := s.log ++ [.created s.created] },
            some (.install new)) := by
  unfold setTargetInit
  split
  case h_1 => exact .inl rfl
  case h_2 ctx opened => exact .inr ⟨_, rfl, opened, rfl⟩

/-- A step of the main thread's `relay_set_target`. -/
private theorem move_mainSet {pc : SetTargetPc} {next : Relay × Option SetTargetPc}
    (absent : s.control = .absent) (at_set : s.main = .setTarget pc)
    (step : s.setTargetStep pc = some next) : Move args s (mainSet next) := by
  rcases setTargetStep_cases step with ⟨new, rfl, free, rfl⟩ | ⟨old, rfl, rfl⟩
  · -- with an old context the call goes on to close it, without one it returns
    cases old : s.txCtx with
    | none =>
      simp only [setTargetInstall, old, Option.map_none, mainSet]
      refine .installed new (.inl at_set) free ⟨?_, ?_, ?_⟩ ?_ ?_ rfl <;>
        simp [old, Installs, Closes, waiting, Open, at_set, absent]
    | some tx =>
      simp only [setTargetInstall, old, Option.map_some, mainSet]
      refine .installed new (.inl at_set) free ⟨?_, ?_, ?_⟩ ?_ ?_ rfl <;>
        simp [old, Installs, Closes, waiting, Open, at_set, absent]
  · refine .closedOld old (.inl at_set) ⟨?_, ?_, ?_⟩ ?_ ?_ rfl <;>
      simp [mainSet, omniClose, Installs, Closes, waiting, Open, at_set, absent]

/-- A step of the control thread's `relay_set_target`. -/
private theorem move_controlSet {pc : SetTargetPc} {next : Relay × Option SetTargetPc}
    (outside : ∀ pc, s.main ≠ .setTarget pc) (at_set : s.control = .setTarget pc)
    (step : s.setTargetStep pc = some next) : Move args s (controlSet next) := by
  rcases setTargetStep_cases step with ⟨new, rfl, free, rfl⟩ | ⟨old, rfl, rfl⟩
  · cases old : s.txCtx with
    | none =>
      simp only [setTargetInstall, old, Option.map_none, controlSet]
      refine .installed new (.inr at_set) free ⟨?_, ?_, ?_⟩ ?_ ?_ rfl <;>
        simp [old, Installs, Closes, waiting, Open, outside]
    | some tx =>
      simp only [setTargetInstall, old, Option.map_some, controlSet]
      refine .installed new (.inr at_set) free ⟨?_, ?_, ?_⟩ ?_ ?_ rfl <;>
        simp [old, Installs, Closes, waiting, Open, outside]
  · refine .closedOld old (.inr at_set) ⟨?_, ?_, ?_⟩ ?_ ?_ rfl <;>
      simp [controlSet, omniClose, Installs, Closes, waiting, Open, outside]

/-- The main thread moves by itself. -/
private theorem move_main (alone : s.Alone) (step : s.mainStep = some t) : Move args s t := by
  simp only [mainStep] at step
  split at step
  case h_1 pc at_set =>
    obtain ⟨next, sstep, rfl⟩ := Option.map_eq_some_iff.mp step
    exact move_mainSet (alone (by simp [Starting, at_set])) at_set sstep
  case h_2 pc =>
    obtain rfl := Option.some.inj step
    cases s.running <;> refine .quiet ⟨?_, ?_, ?_⟩ ⟨?_, ?_⟩ rfl <;>
      simp [Installs, Closes, waiting, Open, pc]
  case h_3 msg pc =>
    rw [Option.ite_none_right_eq_some] at step
    obtain ⟨none, rfl⟩ := step.imp_right Option.some.inj
    exact .dropped msg pc none rfl ⟨by simp [Installs, pc], by simp [Closes, pc]⟩ rfl
  case h_4 pc =>
    obtain rfl := Option.some.inj step
    refine .quiet ⟨?_, ?_, ?_⟩ ⟨?_, ?_⟩ rfl <;> simp [Installs, Closes, waiting, Open, pc]
  case h_5 pc =>
    obtain ⟨rx, -, rfl⟩ := Option.map_eq_some_iff.mp step
    -- the receiving context was never in `tx_ctx`
    refine .closed rx ⟨?_, ?_, ?_⟩ ⟨?_, ?_⟩ rfl <;>
      simp [omniClose, Installs, Closes, waiting, Open, pc]
  case h_6 pc =>
    rw [Option.ite_none_right_eq_some] at step
    obtain ⟨-, rfl⟩ := step.imp_right Option.some.inj
    refine .quiet ⟨?_, ?_, ?_⟩ ⟨?_, ?_⟩ rfl <;> simp [Installs, Closes, waiting, Open, pc]
  case h_7 pc =>
    split at step
    case h_1 tx _ =>
      obtain rfl := Option.some.inj step
      -- the context leaves `tx_ctx` for a local variable of `main`
      refine .takeTx ⟨?_, ?_, ?_⟩ ⟨?_, ?_⟩ ?_ rfl <;> simp [Installs, Closes, waiting, Open, pc]
    case h_2 =>
      obtain rfl := Option.some.inj step
      refine .quiet ⟨?_, ?_, ?_⟩ ⟨?_, ?_⟩ rfl <;> simp [Installs, Closes, waiting, Open, pc]
  case h_8 tx pc =>
    obtain rfl := Option.some.inj step
    refine .closed tx.toRelayContext ⟨?_, ?_, ?_⟩ ⟨?_, ?_⟩ rfl <;>
      simp [omniClose, Installs, Closes, waiting, Open, pc]
  -- from here on `pthread_create` has failed
  case h_9 pc =>
    obtain ⟨rx, -, rfl⟩ := Option.map_eq_some_iff.mp step
    refine .closed rx ⟨?_, ?_, ?_⟩ ⟨?_, ?_⟩ rfl <;>
      simp [omniClose, Installs, Closes, waiting, Open, pc]
  case h_10 pc =>
    split at step
    case h_1 tx _ =>
      obtain rfl := Option.some.inj step
      refine .closed tx.toRelayContext ⟨?_, ?_, ?_⟩ ⟨?_, ?_⟩ rfl <;>
        simp [omniClose, Installs, Closes, waiting, Open, pc]
    case h_2 =>
      obtain rfl := Option.some.inj step
      refine .quiet ⟨?_, ?_, ?_⟩ ⟨?_, ?_⟩ rfl <;> simp [Installs, Closes, waiting, Open, pc]
  case h_11 => exact absurd step (by simp)

/-- `omni_init` returns in the main thread. -/
private theorem move_mainInit (alone : s.Alone) {answer : InitAnswer}
    (step : s.mainInitStep args answer = some t) : Move args s t := by
  simp only [mainInitStep] at step
  split at step
  case h_1 pc =>
    split at step
    case h_1 =>
      obtain rfl := Option.some.inj step
      refine .quiet ⟨?_, ?_, ?_⟩ ⟨?_, ?_⟩ rfl <;> simp [Installs, Closes, waiting, Open, pc]
    case h_2 ctx init =>
      obtain rfl := Option.some.inj step
      refine .rxCreated ctx answer init ⟨?_, ?_, ?_⟩ ⟨?_, ?_⟩ rfl <;>
        simp [Installs, Closes, waiting, Open, pc]
  case h_2 ip port pc =>
    -- the first target is set before the control thread is there, so `new` is the only one pending
    have absent := alone (by simp [Starting, pc])
    obtain rfl := Option.some.inj step
    rcases setTargetInit_spec s ip port answer with failed | ⟨new, id, init, opened⟩
    · rw [failed, mainSet]
      refine .quiet ⟨?_, ?_, ?_⟩ ⟨?_, ?_⟩ rfl <;> simp [Installs, Closes, waiting, Open, pc]
    · rw [opened, mainSet]
      refine .txCreated new answer id init ⟨?_, ?_, ?_⟩ ?_ ?_ rfl <;>
        simp [Installs, Closes, waiting, Open, pc, absent, eq_comm]
  case h_3 => exact absurd step (by simp)

/-- The control thread moves by itself. -/
private theorem move_control (alone : s.Alone) (step : s.controlStep = some t) :
    Move args s t := by
  simp only [controlStep] at step
  split at step
  case h_1 pc =>
    obtain rfl := Option.some.inj step
    cases s.running <;> refine .quiet ⟨?_, ?_, ?_⟩ ⟨?_, ?_⟩ rfl <;>
      simp [Installs, Closes, waiting, Open, pc]
  case h_2 pc at_set =>
    obtain ⟨next, sstep, rfl⟩ := Option.map_eq_some_iff.mp step
    refine move_controlSet (fun pc' at_main => ?_) at_set sstep
    have absent := alone (by simp [Starting, at_main])
    cases at_set.symm.trans absent
  case h_3 => exact absurd step (by simp)

/-- `omni_init` returns in the control thread. -/
private theorem move_controlInit (alone : s.Alone) {ip : String} {port : UInt16}
    (pc : s.control = .setTarget (.init ip port)) (answer : InitAnswer) :
    Move args s (controlSet (s.setTargetInit ip port answer)) := by
  -- were the main thread in `relay_set_target`, there would be no control thread
  have outside : ∀ pc', s.main ≠ .setTarget pc' := by
    intro pc' at_main
    have absent := alone (by simp [Starting, at_main])
    cases pc.symm.trans absent
  rcases setTargetInit_spec s ip port answer with failed | ⟨new, id, init, opened⟩
  · rw [failed, controlSet]
    refine .quiet ⟨?_, ?_, ?_⟩ ⟨?_, ?_⟩ rfl <;> simp [Installs, Closes, waiting, Open, pc]
  · rw [opened, controlSet]
    refine .txCreated new answer id init ⟨?_, ?_, ?_⟩ ?_ ?_ rfl <;>
      simp [Installs, Closes, waiting, Open, outside, eq_comm]

/-- `omni_recv` returns. -/
private theorem move_recv {answer : RecvAnswer} (step : s.recvStep answer = some t) :
    Move args s t := by
  simp only [recvStep] at step
  split at step
  case h_1 rx pc installed =>
    obtain ⟨⟨n, buf, ctx⟩, recv, rfl⟩ := Option.map_eq_some_iff.mp step
    split_ifs with negative zero
    · refine .polled rx answer n buf ctx installed recv negative.le ⟨?_, ?_, ?_⟩ ⟨?_, ?_⟩ rfl <;>
        simp [Installs, Closes, waiting, Open, pc]
    · refine .polled rx answer n buf ctx installed recv zero.le ⟨?_, ?_, ?_⟩ ⟨?_, ?_⟩ rfl <;>
        simp [Installs, Closes, waiting, Open, pc]
    · exact .received rx answer n buf ctx installed recv (by omega) pc rfl
        ⟨by simp [Installs, pc], by simp [Closes, pc]⟩ rfl
  case h_2 => exact absurd step (by simp)

/-- The section under the mutex in the loop. -/
private theorem move_send {answer : SendAnswer} (step : s.sendStep answer = some t) :
    Move args s t := by
  simp only [sendStep] at step
  split at step
  case h_1 msg tx pc installed =>
    split at step
    case isTrue fits =>
      split at step
      case h_1 m ctx send =>
        obtain rfl := Option.some.inj step
        exact .handed msg tx answer m ctx pc installed fits send rfl
          ⟨by simp [Installs, pc], by simp [Closes, pc]⟩ rfl
      case h_2 send =>
        obtain rfl := Option.some.inj step
        exact .stuck msg tx answer pc installed fits send rfl
          ⟨by simp [Installs, pc], by simp [Closes, pc]⟩ rfl
    case isFalse => exact absurd step (by simp)
  case h_2 => exact absurd step (by simp)

/-- Every step is one of the moves. -/
theorem move_of_step {label : RelayLabel} (alone : s.Alone) (step : s.step args label = some t) :
    Move args s t := by
  cases label with
  | main => exact move_main alone step
  | control => exact move_control alone step
  | mainInit answer => exact move_mainInit alone step
  | controlInit answer =>
    simp only [Relay.step] at step
    split at step
    case h_1 ip port pc => exact Option.some.inj step ▸ move_controlInit alone pc answer
    case h_2 => exact absurd step (by simp)
  | create ok =>
    simp only [Relay.step] at step
    split at step
    case h_1 pc =>
      have absent := alone (by simp [Starting, pc])
      obtain rfl := Option.some.inj step
      cases ok <;> refine .quiet ⟨?_, ?_, ?_⟩ ⟨?_, ?_⟩ rfl <;>
        simp [Installs, Closes, waiting, Open, pc, absent]
    case h_2 => exact absurd step (by simp)
  | recv answer => exact move_recv step
  | send answer => exact move_send step
  | line command =>
    simp only [Relay.step, lineStep] at step
    split at step
    case h_1 pc =>
      cases command <;>
      · obtain rfl := Option.some.inj step
        refine .quiet ⟨?_, ?_, ?_⟩ ⟨?_, ?_⟩ rfl <;> simp [Installs, Closes, waiting, Open, pc]
    case h_2 => exact absurd step (by simp)

/-! ## Where the threads go -/

/-- What a step does to the points of the two threads. -/
inductive Steers (s t : Relay) : Prop
  /-- The control thread moves, which has been created and has not ended. -/
  | control (present : s.control ≠ .absent) (going : s.control ≠ .ended) (main : t.main = s.main)
  /-- The main thread moves. It does not come back to where it has not created the
  other, it closes only what it has taken out of `tx_ctx`, and it passes
  `pthread_join` only at the end of the control thread, or without one. -/
  | main (starting : t.Starting → s.Starting ∧ t.control = s.control) (left : t.main ≠ .initRx)
      (taken : ∀ tx, t.main = .closeTx tx → t.txCtx = none)
      (joined : t.main.afterJoin → t.control = s.control ∧
        (s.Starting ∨ s.main.afterJoin ∨ s.control = .ended))

/-- Most steps of the main thread stay away from its end. -/
private theorem Steers.plain (starting : t.Starting → s.Starting ∧ t.control = s.control)
    (left : t.main ≠ .initRx) (before : t.main.afterJoin = false) : s.Steers t := by
  refine .main starting left ?_ ?_
  · intro tx pc
    rw [pc] at before
    cases before
  · intro after
    exact absurd after (by rw [before]; simp)

/-- A step of `relay_set_target` touches no control point. -/
theorem points_setTargetStep {pc : SetTargetPc} {next : Relay × Option SetTargetPc}
    (step : s.setTargetStep pc = some next) :
    next.1.main = s.main ∧ next.1.control = s.control := by
  rcases setTargetStep_cases step with ⟨new, -, -, rfl⟩ | ⟨old, -, rfl⟩ <;> exact ⟨rfl, rfl⟩

private theorem control_mainSet (next : Relay × Option SetTargetPc) :
    (mainSet next).control = next.1.control := by
  obtain ⟨s, pc | pc⟩ := next <;> rfl

theorem main_controlSet (next : Relay × Option SetTargetPc) :
    (controlSet next).main = next.1.main := by
  obtain ⟨s, pc | pc⟩ := next <;> rfl

theorem points_setTargetInit (s : Relay) (ip : String) (port : UInt16)
    (answer : InitAnswer) : (s.setTargetInit ip port answer).1.main = s.main ∧
      (s.setTargetInit ip port answer).1.control = s.control := by
  unfold setTargetInit
  split <;> exact ⟨rfl, rfl⟩

/-- The first target is set before there is a control thread. -/
private theorem steers_mainSet {pc : SetTargetPc} {next : Relay × Option SetTargetPc}
    (at_set : s.main = .setTarget pc) (control : next.1.control = s.control) :
    s.Steers (mainSet next) := by
  have same := (control_mainSet next).trans control
  obtain ⟨u, next⟩ := next
  cases next <;> exact .plain (fun _ => ⟨by simp [Starting, at_set], same⟩) (by simp [mainSet]) rfl

private theorem steers_main (step : s.mainStep = some t) : s.Steers t := by
  simp only [mainStep] at step
  split at step
  case h_1 pc at_set =>
    obtain ⟨next, sstep, rfl⟩ := Option.map_eq_some_iff.mp step
    exact steers_mainSet at_set (points_setTargetStep sstep).2
  case h_2 =>
    obtain rfl := Option.some.inj step
    cases s.running <;> exact .plain (by simp [Starting]) (by simp) rfl
  case h_3 =>
    obtain ⟨-, rfl⟩ := (Option.ite_none_right_eq_some.mp step).imp_right Option.some.inj
    exact .plain (by simp [Starting]) (by simp) rfl
  case h_4 =>
    obtain rfl := Option.some.inj step
    exact .plain (by simp [Starting]) (by simp) rfl
  case h_5 =>
    obtain ⟨rx, -, rfl⟩ := Option.map_eq_some_iff.mp step
    exact .plain (by simp [Starting]) (by simp) rfl
  case h_6 =>
    -- `pthread_join` waits for the end of the control thread
    obtain ⟨ended, rfl⟩ := (Option.ite_none_right_eq_some.mp step).imp_right Option.some.inj
    exact .main (by simp [Starting]) (by simp) (by simp) fun _ => ⟨rfl, .inr (.inr ended)⟩
  case h_7 pc =>
    -- these points lie behind the join
    have behind : s.main.afterJoin := by rw [pc]; rfl
    split at step <;> obtain rfl := Option.some.inj step
    · exact .main (by simp [Starting]) (by simp) (fun _ _ => rfl) fun _ => ⟨rfl, .inr (.inl behind)⟩
    · exact .main (by simp [Starting]) (by simp) (by simp) fun _ => ⟨rfl, .inr (.inl behind)⟩
  case h_8 pc =>
    obtain rfl := Option.some.inj step
    exact .main (by simp [Starting]) (by simp) (by simp) fun _ =>
      ⟨rfl, .inr (.inl (by rw [pc]; rfl))⟩
  case h_9 pc =>
    obtain ⟨rx, -, rfl⟩ := Option.map_eq_some_iff.mp step
    exact .plain (fun _ => ⟨by simp [Starting, pc], rfl⟩) (by simp) rfl
  case h_10 pc =>
    -- without a control thread there is nothing to join
    have starting : s.Starting := by simp [Starting, pc]
    split at step <;> obtain rfl := Option.some.inj step <;>
      exact .main (by simp [Starting]) (by simp) (by simp) fun _ => ⟨rfl, .inl starting⟩
  case h_11 => exact absurd step (by simp)

/-- Every step moves one of the threads. -/
theorem steers_of_step {label : RelayLabel} (step : s.step args label = some t) : s.Steers t := by
  cases label with
  | main => exact steers_main step
  | control =>
    simp only [Relay.step, controlStep] at step
    split at step
    case h_1 pc =>
      obtain rfl := Option.some.inj step
      exact .control (by simp [pc]) (by simp [pc]) rfl
    case h_2 pc at_set =>
      obtain ⟨next, sstep, rfl⟩ := Option.map_eq_some_iff.mp step
      refine .control (by simp [at_set]) (by simp [at_set]) ?_
      exact (main_controlSet next).trans (points_setTargetStep sstep).1
    case h_3 => exact absurd step (by simp)
  | mainInit answer =>
    simp only [Relay.step, mainInitStep] at step
    split at step
    case h_1 pc =>
      have starting : s.Starting := by simp [Starting, pc]
      split at step <;> obtain rfl := Option.some.inj step
      · exact .main (by simp [Starting]) (by simp) (by simp) fun _ => ⟨rfl, .inl starting⟩
      · exact .plain (fun _ => ⟨starting, rfl⟩) (by simp) rfl
    case h_2 ip port pc =>
      obtain rfl := Option.some.inj step
      exact steers_mainSet pc (points_setTargetInit s ip port answer).2
    case h_3 => exact absurd step (by simp)
  | controlInit answer =>
    simp only [Relay.step] at step
    split at step
    case h_1 ip port pc =>
      obtain rfl := Option.some.inj step
      refine .control (by simp [pc]) (by simp [pc]) ?_
      exact (main_controlSet _).trans (points_setTargetInit s ip port answer).1
    case h_2 => exact absurd step (by simp)
  | create ok =>
    simp only [Relay.step] at step
    split at step
    case h_1 pc =>
      obtain rfl := Option.some.inj step
      cases ok
      · exact .plain (fun _ => ⟨by simp [Starting, pc], rfl⟩) (by simp) rfl
      · exact .plain (by simp [Starting]) (by simp) rfl
    case h_2 => exact absurd step (by simp)
  | recv answer =>
    simp only [Relay.step, recvStep] at step
    split at step
    case h_1 =>
      obtain ⟨⟨n, buf, ctx⟩, -, rfl⟩ := Option.map_eq_some_iff.mp step
      split_ifs <;> exact .plain (by simp [Starting]) (by simp) rfl
    case h_2 => exact absurd step (by simp)
  | send answer =>
    simp only [Relay.step, sendStep] at step
    split at step
    case h_1 =>
      obtain ⟨-, sent⟩ := Option.ite_none_right_eq_some.mp step
      split at sent <;> obtain rfl := Option.some.inj sent <;>
        exact .plain (by simp [Starting]) (by simp) rfl
    case h_2 => exact absurd step (by simp)
  | line command =>
    simp only [Relay.step, lineStep] at step
    split at step
    case h_1 pc =>
      cases command <;> obtain rfl := Option.some.inj step <;>
        exact .control (by simp [pc]) (by simp [pc]) rfl
    case h_2 => exact absurd step (by simp)

/-! ## One thread at a time sets a target -/

theorem alone_start (proto : OmniProtocol) : (start proto).Alone := fun _ => rfl

/-- Every step keeps it so. -/
theorem Alone.steers (alone : s.Alone) (steers : s.Steers t) : t.Alone := by
  intro now
  cases steers with
  | control present _ main =>
    -- a control thread that moves is there, so the main thread is past its creation
    rw [Starting, main] at now
    exact absurd (alone now) present
  | main starting =>
    obtain ⟨before, same⟩ := starting now
    exact same.trans (alone before)

/-- What every move keeps holds at the end of every run. -/
theorem invariant_of_moves {proto : OmniProtocol} {I : Relay → Prop}
    (keeps : ∀ s t, I s → Move args s t → I t) {labels : List RelayLabel}
    (initial : I (start proto))
    (hrun : (machine args).run (start proto) labels = some s) : I s := by
  have both : I s ∧ s.Alone := by
    refine (machine args).run_invariant (I := fun s => I s ∧ s.Alone) ?_
      ⟨initial, alone_start proto⟩ hrun
    rintro s label t ⟨before, alone⟩ step
    exact ⟨keeps s t before (move_of_step alone step), alone.steers (steers_of_step step)⟩
  exact both.1

end Steps

end Relay

/-! ## What is forwarded fits the buffer -/

/-- A message of `tcp_recv` fits the buffer. -/
def TcpRecv.Within (len : ℕ) : TcpRecv → Prop
  | header _ => True
  | payload payloadLen _ => payloadLen.toNat ≤ len
  | returned value _ => value ≤ len

private theorem within_tcpRecvPayload {len : ℕ} {payloadLen : UInt32}
    (fits : payloadLen.toNat ≤ len) (loop : TcpLoop) :
    (tcpRecvPayload payloadLen loop).Within len := by
  cases loop with
  | running got => exact fits
  | returned value got =>
    rw [tcpRecvPayload]
    split
    · exact (show omniErrIo ≤ 0 by decide).trans (Int.natCast_nonneg len)
    · exact Int.ofNat_le.mpr fits

theorem TcpRecv.within_pass {host : Endian} {len : ℕ} {rx : TcpRecv} (within : rx.Within len)
    (r : ReadResult) : (rx.pass host len r).Within len := by
  cases rx with
  | header got =>
    rw [pass]
    cases tcpReadNPass msgHeaderSize got r with
    | running got => trivial
    | returned value got =>
      rw [tcpRecvHeader]
      -- the early returns are 0 or an error, none of them above the buffer
      split_ifs with closed
      · exact closed.trans (Int.natCast_nonneg len)
      · exact (show omniErrIo ≤ 0 by decide).trans (Int.natCast_nonneg len)
      · dsimp only
        -- only a length that fits the buffer lets the payload be read
        split_ifs with long
        · exact (show omniErrParam ≤ 0 by decide).trans (Int.natCast_nonneg len)
        · exact within_tcpRecvPayload (not_lt.mp long) _
  | payload payloadLen got => exact within_tcpRecvPayload within _
  | returned value got => exact within

/-- `tcp_recv` never returns more than the buffer holds. -/
theorem tcpRecv_le {host : Endian} {len : ℕ} {script : List ReadResult} {value : ℤ}
    {buf : List UInt8} (result : tcpRecv host len script = .returned value buf) : value ≤ len := by
  have within : (tcpRecv host len script).Within len :=
    List.foldlRecOn script (TcpRecv.pass host len) (show tcpRecvStart.Within len from trivial)
      fun _ within r _ => TcpRecv.within_pass within r
  rw [result] at within
  exact within

/-- `omni_recv` does not either. -/
theorem omniRecv_le {c c' : OmniContext} {len : ℕ} {answer : RecvAnswer} {n : ℤ}
    {buf : List UInt8} (small : len < 2 ^ 31)
    (recv : omniRecv c len answer = some (n, buf, c')) : n ≤ len := by
  cases c with
  | tcp host =>
    cases answer with
    | tcp script =>
      simp only [omniRecv] at recv
      split at recv
      case h_1 value got result =>
        obtain ⟨rfl, -⟩ := Prod.mk.inj (Option.some.inj recv)
        exact tcpRecv_le result
      case h_2 => cases recv
    | udp r => cases recv
    | kcp now incoming => cases recv
  | udp ctx =>
    cases answer with
    | udp r =>
      simp only [omniRecv, Option.some.injEq, Prod.mk.injEq] at recv
      obtain ⟨rfl, -⟩ := recv
      -- `recvfrom` cuts a datagram to the buffer
      cases r with
      | datagram d =>
        have cut := List.length_take_le len d.bytes
        exact Int.ofNat_le.mpr cut
      | eintr => exact Int.natCast_nonneg len
      | error => exact (show omniErrIo ≤ 0 by decide).trans (Int.natCast_nonneg len)
    | tcp script => cases recv
    | kcp now incoming => cases recv
  | kcp ctx =>
    cases answer with
    | kcp now incoming =>
      simp only [omniRecv, Option.some.injEq, Prod.mk.injEq] at recv
      obtain ⟨rfl, -⟩ := recv
      have room : 0 ≤ intOfSize len := by
        rw [intOfSize_of_lt small]
        exact Int.natCast_nonneg len
      -- `ikcp_recv` refuses a message that is longer than the buffer
      have stored := ikcpRecv_le (kcpUpdateLoop ctx now incoming).2.kcp room
      rw [intOfSize_of_lt small] at stored
      simp only [kcpRecv, intOfSize_of_lt small]
      split
      · exact Int.natCast_nonneg len
      · exact stored
    | tcp script => cases recv
    | udp r => cases recv

namespace Relay

/-- The message to be forwarded fits the buffer. -/
def Fitting (s : Relay) : Prop := ∀ msg, s.main = .forwarding msg → msg.length ≤ frameBufSize

variable {args : RelayArgs} {s t : Relay}

/-- A message that is waiting was already waiting. -/
private theorem SameMain.forwarding (main : SameMain s t) {msg : List UInt8}
    (after : t.main = .forwarding msg) : s.main = .forwarding msg := by
  have same : [msg] = s.waiting := by
    rw [← main.waiting, Relay.waiting, after]
  rw [Relay.waiting] at same
  split at same
  case h_1 msg' before => rw [before, List.singleton_inj.mp same]
  case h_2 => cases same

theorem fitting_start (proto : OmniProtocol) : (start proto).Fitting := by
  simp [Fitting, start]

theorem fitting_move (fitting : s.Fitting) (move : Move args s t) : t.Fitting := by
  intro msg now
  -- only a message just received comes to be forwarded
  cases move with
  | quiet main | closed _ main | takeTx main | rxCreated _ _ _ main | txCreated _ _ _ _ main
  | installed _ _ _ main | closedOld _ _ main | polled _ _ _ _ _ _ _ _ main =>
    exact fitting msg (main.forwarding now)
  | received rx answer n buf ctx _ recv _ _ after =>
    obtain rfl := RelayMainPc.forwarding.inj (after.symm.trans now)
    have cut := List.length_take_le n.toNat buf
    have bound := omniRecv_le (by decide) recv
    omega
  | dropped _ _ _ after => cases after.symm.trans now
  | handed _ _ _ _ _ _ _ _ _ after => cases after.symm.trans now
  | stuck _ _ _ _ _ _ _ after => cases after.symm.trans now

end Relay

end OmniSocket
