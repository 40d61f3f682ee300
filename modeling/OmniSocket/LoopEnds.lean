/-
# Which receive loops end

The three loops differ in what they take a zero from `omni_recv` for. The server
leaves on it, so its loop ends on every stream. The client and the relay ask
again, and a closed connection goes on to answer zero: their loops end only if the
stream broke off inside a frame or held one that is too long.
-/

import OmniSocket.App.Relay
import OmniSocket.RecvLoops

set_option autoImplicit false

namespace OmniSocket

open Lib

/-! ## The server -/

namespace Server

/-- The server's receive thread. The main thread stores nothing to `running`. -/
def recvLoop (host : Endian) (size : SizeT) : RecvLoop Server ServerEvent where
  act s event :=
    match event with
    | .load | .fwrite _ => s.step host size event
    | .recv _ _ | .mainExit => none
  recv s _ n frame := s.step host size (.recv n frame)
  idle _ := false
  receiving s := s.pc == .receiving
  leaving s := s.pc == .stopped
  cleared s := !s.running
  zeroEnds := true
  distance s :=
    match s.pc with
    | .loopTest => 1
    | .writing _ => 2
    | .receiving | .stopped => 0

/-- A TCP server that has cleared `running` exactly if it is past its loop. -/
structure Receives (s : Server) : Prop where
  proto : s.proto = .tcp
  running : s.running = false ↔ s.pc = .stopped

variable {host : Endian} {size : SizeT} {s t : Server}

theorem Receives.set (receives : s.Receives) (inside : s.pc ≠ .stopped) : s.running = true := by
  cases flag : s.running with
  | true => rfl
  | false => exact absurd (receives.running.mp flag) inside

/-- A receiving server goes on, or leaves on an error or a zero. -/
theorem Receives.afterRecv (receives : s.Receives) (receiving : s.pc = .receiving) (n : ℤ)
    (frame : List UInt8) :
    (s.afterRecv host size n frame).Receives ∧
      ((s.afterRecv host size n frame).pc = .stopped ↔ n < 0 ∨ n = 0) := by
  have running := receives.set (by simp [receiving])
  unfold Server.afterRecv
  split_ifs with negative zero tcp
  · exact ⟨⟨receives.proto, by simp [leave]⟩, by simp [leave, negative]⟩
  · exact ⟨⟨receives.proto, by simp [leave]⟩, by simp [leave, zero]⟩
  · exact absurd receives.proto tcp
  · have neither : ¬ (n < 0 ∨ n = 0) := not_or.mpr ⟨negative, zero⟩
    split
    · exact ⟨⟨receives.proto, by simp [running]⟩, by simp [neither]⟩
    · unfold handle
      split_ifs <;> exact ⟨⟨receives.proto, by simp [running]⟩, by simp [neither]⟩

/-- Its own actions lead to `omni_recv` or out of the loop. -/
theorem Receives.act {event : ServerEvent} (receives : s.Receives)
    (act : (recvLoop host size).act s event = some t) :
    t.Receives ∧ (recvLoop host size).distance t < (recvLoop host size).distance s ∧
      s.pc ≠ .receiving ∧ s.pc ≠ .stopped := by
  cases event with
  | load =>
    simp only [recvLoop, Server.step] at act
    split at act
    case h_1 pc =>
      obtain rfl := Option.some.inj act
      have running := receives.set (by simp [pc])
      rw [if_pos running]
      exact ⟨⟨receives.proto, by simp [running]⟩, by simp [recvLoop, pc], by simp [pc],
        by simp [pc]⟩
    case h_2 => exact absurd act (by simp)
  | fwrite nw =>
    simp only [recvLoop, Server.step] at act
    split at act
    case h_1 payload pc =>
      obtain ⟨-, rfl⟩ := (Option.ite_none_right_eq_some.mp act).imp_right Option.some.inj
      have running := receives.set (by simp [pc])
      -- a short `fwrite` leaves the loop as well
      unfold afterWrite
      split_ifs
      · exact ⟨⟨receives.proto, by simp [leave]⟩, by simp [recvLoop, leave, pc], by simp [pc],
          by simp [pc]⟩
      · exact ⟨⟨receives.proto, by simp [running]⟩, by simp [recvLoop, pc], by simp [pc],
          by simp [pc]⟩
    case h_2 => exact absurd act (by simp)
  | recv n frame => exact absurd act (by simp [recvLoop])
  | mainExit => exact absurd act (by simp [recvLoop])

theorem lawful (host : Endian) (size : SizeT) : (recvLoop host size).Lawful host Receives where
  act_inv _ _ _ receives step := (receives.act step).1
  act_idle _ _ _ _ _ idle := absurd idle (by simp [recvLoop])
  act_busy s _ _ receives step _ := by
    obtain ⟨-, closer, outside, inside⟩ := receives.act step
    exact ⟨closer, by simp [recvLoop, inside], by simp [recvLoop, outside]⟩
  onward s receives receiving running := by
    have outside : s.pc ≠ .receiving := by simpa [recvLoop] using receiving
    have set : s.running = true := by simpa [recvLoop] using running
    cases pc : s.pc with
    | loopTest =>
      exact ⟨.load, _, rfl, by simp [recvLoop, Server.step, pc, set]; rfl, by simp [recvLoop]⟩
    | receiving => exact absurd pc outside
    | writing payload =>
      exact ⟨.fwrite payload.length, _, rfl, by simp [recvLoop, Server.step, pc, afterWrite]; rfl,
        by simp [recvLoop]⟩
    | stopped => cases set.symm.trans (receives.running.mpr pc)
  not_receiving s _ leaving := by
    simp only [recvLoop, beq_iff_eq] at leaving
    simp [recvLoop, leaving]
  not_cleared s receives staying := by
    have inside : s.pc ≠ .stopped := by simpa [recvLoop] using staying
    simp [recvLoop, receives.set inside]
  recv_receiving s _ n frame t step := by
    simp only [recvLoop, Server.step] at step
    split at step
    case h_1 pc => simp [recvLoop, pc]
    case h_2 => exact absurd step (by simp)
  recv s _ n frame receives receiving _ := by
    have pc : s.pc = .receiving := by simpa [recvLoop] using receiving
    refine ⟨s.afterRecv host size n frame, by simp [recvLoop, Server.step, pc],
      (receives.afterRecv pc n frame).1, ?_, ?_⟩
    · simp only [recvLoop]
      split <;> omega
    · simpa [recvLoop] using (receives.afterRecv pc n frame).2

/-- The server's loop ends on every stream. -/
theorem recvLoop_endsOn (host : Endian) (size : SizeT) (stream : List UInt8) :
    (recvLoop host size).EndsOn host (start .tcp) stream :=
  (RecvLoop.endsOn_iff (lawful host size) ⟨rfl, by simp [start]⟩ rfl).mpr (.inl rfl)

end Server

/-! ## The client -/

namespace ClientRecv

/-- The client's receive thread. The main thread stores nothing to `running`. -/
def recvLoop (host : Endian) (size : SizeT) : RecvLoop ClientRecv ClientRecvEvent where
  act s event :=
    match event with
    | .load => s.step host size event
    | .recv _ _ | .mainExit => none
  recv s _ n frame := s.step host size (.recv n frame)
  idle _ := false
  receiving s := s.pc == .receiving
  leaving s := s.pc == .stopped
  cleared s := !s.running
  zeroEnds := false
  distance s :=
    match s.pc with
    | .loopTest => 1
    | .receiving | .stopped => 0

/-- `running` is 0 exactly past the loop. -/
def Receives (s : ClientRecv) : Prop := s.running = false ↔ s.pc = .stopped

variable {host : Endian} {size : SizeT} {s t : ClientRecv}

theorem Receives.set (receives : s.Receives) (inside : s.pc ≠ .stopped) : s.running = true := by
  cases flag : s.running with
  | true => rfl
  | false => exact absurd (receives.mp flag) inside

/-- A receiving client goes on, or leaves on an error. -/
theorem Receives.afterRecv (receives : s.Receives) (receiving : s.pc = .receiving) (n : ℤ)
    (frame : List UInt8) :
    (s.afterRecv host size n frame).Receives ∧
      ((s.afterRecv host size n frame).pc = .stopped ↔ n < 0) := by
  by_cases negative : n < 0
  · rw [ClientRecv.afterRecv, if_pos negative]
    exact ⟨by simp [Receives, leave], by simp [leave, negative]⟩
  · obtain ⟨pc, flag⟩ := afterRecv_of_nonneg host size s frame negative
    have running := receives.set (by simp [receiving])
    exact ⟨by simp [Receives, pc, flag, running], by simp [pc, negative]⟩

/-- The only action of its own is the test of the loop. -/
theorem Receives.act {event : ClientRecvEvent} (receives : s.Receives)
    (act : (recvLoop host size).act s event = some t) :
    s.pc = .loopTest ∧ t = { s with pc := .receiving } := by
  cases event with
  | load =>
    simp only [recvLoop, ClientRecv.step] at act
    split at act
    case h_1 pc =>
      obtain rfl := Option.some.inj act
      rw [if_pos (receives.set (by simp [pc]))]
      exact ⟨pc, rfl⟩
    case h_2 => exact absurd act (by simp)
  | recv n frame => exact absurd act (by simp [recvLoop])
  | mainExit => exact absurd act (by simp [recvLoop])

theorem lawful (host : Endian) (size : SizeT) : (recvLoop host size).Lawful host Receives where
  act_inv s _ _ receives step := by
    obtain ⟨pc, rfl⟩ := receives.act step
    have running := receives.set (by simp [pc])
    simp [Receives, running]
  act_idle _ _ _ _ _ idle := absurd idle (by simp [recvLoop])
  act_busy _ _ _ receives step _ := by
    obtain ⟨pc, rfl⟩ := receives.act step
    simp [recvLoop, pc]
  onward s receives receiving running := by
    have outside : s.pc ≠ .receiving := by simpa [recvLoop] using receiving
    have set : s.running = true := by simpa [recvLoop] using running
    cases pc : s.pc with
    | loopTest =>
      exact ⟨.load, _, rfl, by simp [recvLoop, ClientRecv.step, pc, set]; rfl, by simp [recvLoop]⟩
    | receiving => exact absurd pc outside
    | stopped => cases set.symm.trans (receives.mpr pc)
  not_receiving s _ leaving := by
    simp only [recvLoop, beq_iff_eq] at leaving
    simp [recvLoop, leaving]
  not_cleared s receives staying := by
    have inside : s.pc ≠ .stopped := by simpa [recvLoop] using staying
    simp [recvLoop, receives.set inside]
  recv_receiving s _ n frame t step := by
    simp only [recvLoop, ClientRecv.step] at step
    split at step
    case h_1 pc => simp [recvLoop, pc]
    case h_2 => exact absurd step (by simp)
  recv s _ n frame receives receiving _ := by
    have pc : s.pc = .receiving := by simpa [recvLoop] using receiving
    refine ⟨s.afterRecv host size n frame, by simp [recvLoop, ClientRecv.step, pc],
      (receives.afterRecv pc n frame).1, ?_, ?_⟩
    · simp only [recvLoop]
      split <;> omega
    · simpa [recvLoop] using (receives.afterRecv pc n frame).2

/-- The client's loop ends if the stream is not whole frames. -/
theorem recvLoop_endsOn_iff (host : Endian) (size : SizeT) (stream : List UInt8) :
    (recvLoop host size).EndsOn host start stream ↔ ¬ WholeFrames frameBufSize stream := by
  rw [RecvLoop.endsOn_iff (lawful host size) (by simp [Receives, start]) rfl]
  exact or_iff_right (by simp [recvLoop])

end ClientRecv

/-! ## The relay -/

namespace Relay

/-- The forwarding loop, and the control thread beside it, which reads no `quit`. A call of
`omni_send` returns. -/
def forwardLoop (args : RelayArgs) : RecvLoop Relay RelayLabel where
  act s label :=
    match label with
    | .main =>
      match s.main with
      | .loopTest | .forwarding _ | .stopping => s.mainStep
      | _ => none
    | .send answer => (s.sendStep answer).filter fun t => t.main = .loopTest
    | .control | .controlInit _ | .line (.set _ _) | .line .other => s.step args label
    | .line .quit | .mainInit _ | .create _ | .recv _ => none
  recv s script _ _ := s.recvStep (.tcp script)
  idle label :=
    match label with
    | .main | .send _ => false
    | _ => true
  receiving s := s.main == .receiving
  leaving s := s.main == .stopping || s.main == .closeRx
  cleared s := !s.running
  zeroEnds := false
  distance s :=
    match s.main with
    | .loopTest | .stopping => 1
    | .forwarding _ => 2
    | _ => 0

/-- The relay at the head of its loop, with a connection of its own. -/
def looping (s : Relay) (id : ℕ) (host : Endian) : Relay :=
  { s with
    proto := .tcp
    rxCtx := some ⟨id, .tcp host⟩
    running := true
    main := .loopTest }

/-- Where the main thread is in the loop or has just left it. -/
structure Forwards (host : Endian) (s : Relay) : Prop where
  rx : ∃ id, s.rxCtx = some ⟨id, .tcp host⟩
  running : s.running = false ↔ s.main = .closeRx
  loop : match s.main with
    | .loopTest | .receiving | .forwarding _ | .stopping | .closeRx => True
    | _ => False

variable {args : RelayArgs} {host : Endian} {s t : Relay}

/-- Nothing that concerns the loop has changed. -/
structure SameLoop (s t : Relay) : Prop where
  rxCtx : t.rxCtx = s.rxCtx
  running : t.running = s.running
  main : t.main = s.main

theorem Forwards.same (forwards : s.Forwards host) (same : SameLoop s t) : t.Forwards host := by
  obtain ⟨rx, running, loop⟩ := forwards
  exact ⟨same.rxCtx ▸ rx, by rw [same.running, same.main]; exact running, same.main ▸ loop⟩

theorem sameLoop_controlSet {next : Relay × Option SetTargetPc} (same : SameLoop s next.1) :
    SameLoop s (controlSet next) := by
  obtain ⟨rxCtx, running, main⟩ := same
  unfold controlSet
  split <;> exact ⟨rxCtx, running, main⟩

theorem sameLoop_setTargetStep {pc : SetTargetPc} {next : Relay × Option SetTargetPc}
    (step : s.setTargetStep pc = some next) : SameLoop s next.1 := by
  rcases setTargetStep_cases step with ⟨new, -, -, rfl⟩ | ⟨old, -, rfl⟩ <;> exact ⟨rfl, rfl, rfl⟩

/-- The control thread leaves the loop alone. -/
theorem sameLoop_act {label : RelayLabel} (act : (forwardLoop args).act s label = some t)
    (idle : (forwardLoop args).idle label = true) : SameLoop s t := by
  cases label with
  | control =>
    simp only [forwardLoop, Relay.step, controlStep] at act
    split at act
    case h_1 =>
      obtain rfl := Option.some.inj act
      exact ⟨rfl, rfl, rfl⟩
    case h_2 pc at_set =>
      obtain ⟨next, step, rfl⟩ := Option.map_eq_some_iff.mp act
      exact sameLoop_controlSet (sameLoop_setTargetStep step)
    case h_3 => exact absurd act (by simp)
  | controlInit answer =>
    simp only [forwardLoop, Relay.step] at act
    split at act
    case h_1 ip port pc =>
      obtain rfl := Option.some.inj act
      refine sameLoop_controlSet ?_
      unfold setTargetInit
      split <;> exact ⟨rfl, rfl, rfl⟩
    case h_2 => exact absurd act (by simp)
  | line command =>
    cases command with
    | quit => exact absurd act (by simp [forwardLoop])
    | set ip port | other =>
      simp only [forwardLoop, Relay.step, lineStep] at act
      split at act
      case h_1 =>
        obtain rfl := Option.some.inj act
        exact ⟨rfl, rfl, rfl⟩
      case h_2 => exact absurd act (by simp)
  | main | send answer => exact absurd idle (by simp [forwardLoop])
  | mainInit answer | create ok | recv answer => exact absurd act (by simp [forwardLoop])

/-- `omni_send` has returned, and the loop is at its head again. -/
theorem main_send {answer : SendAnswer} (act : (forwardLoop args).act s (.send answer) = some t) :
    (∃ msg, s.main = .forwarding msg) ∧ t.main = .loopTest ∧ t.rxCtx = s.rxCtx ∧
      t.running = s.running := by
  obtain ⟨step, back⟩ := Option.filter_eq_some_iff.mp act
  have head : t.main = .loopTest := of_decide_eq_true back
  unfold sendStep at step
  split at step
  case h_1 msg tx before _ =>
    obtain ⟨-, sent⟩ := Option.ite_none_right_eq_some.mp step
    split at sent <;> obtain rfl := Option.some.inj sent
    · exact ⟨⟨msg, before⟩, rfl, rfl, rfl⟩
    · cases head
  case h_2 => exact absurd step (by simp)

/-- What the main thread does in the loop on its own. -/
theorem main_act (act : (forwardLoop args).act s .main = some t) :
    (s.main = .loopTest ∧ t = { s with main := if s.running then .receiving else .stopping }) ∨
      (∃ msg, s.main = .forwarding msg ∧ t.main = .loopTest ∧ t.rxCtx = s.rxCtx ∧
        t.running = s.running) ∨
      (s.main = .stopping ∧ t = { s with main := .closeRx, running := false }) := by
  simp only [forwardLoop] at act
  split at act
  case h_1 pc =>
    simp only [mainStep, pc] at act
    exact .inl ⟨pc, (Option.some.inj act).symm⟩
  case h_2 msg pc =>
    simp only [mainStep, pc] at act
    obtain ⟨-, rfl⟩ := (Option.ite_none_right_eq_some.mp act).imp_right Option.some.inj
    exact .inr (.inl ⟨msg, pc, rfl, rfl, rfl⟩)
  case h_3 pc =>
    simp only [mainStep, pc] at act
    exact .inr (.inr ⟨pc, (Option.some.inj act).symm⟩)
  case h_4 => exact absurd act (by simp)

/-- A call of `omni_send` can return, if only with an error. -/
theorem exists_send {tx : RelayTarget} {msg : List UInt8} (forwarding : s.main = .forwarding msg)
    (installed : s.txCtx = some tx) :
    ∃ answer t, (forwardLoop args).act s (.send answer) = some t := by
  obtain ⟨answer, fits, m, ctx, send⟩ : ∃ answer : SendAnswer, answer.Fits tx.ctx msg ∧
      ∃ m ctx, omniSend tx.ctx msg answer = some (m, ctx) := by
    cases tx.ctx with
    | tcp host =>
      refine ⟨.tcp 0 [.error], ⟨by simp, trivial⟩, omniErrIo, .tcp host, ?_⟩
      rw [omniSend, tcpSend, List.foldl_cons, TcpSend.tcpSendStart_eq]
      rfl
    | udp ctx => exact ⟨.udp none, trivial, _, _, rfl⟩
    | kcp ctx => exact ⟨.kcp 0 none, trivial, _, _, rfl⟩
  have step : s.sendStep answer = some { s with
      main := .loopTest
      txCtx := some { tx with ctx := ctx }
      log := s.log ++ [.handed tx msg answer (some m)] } := by
    rw [sendStep, forwarding, installed]
    simp only [if_pos fits, send]
  exact ⟨answer, _, Option.filter_eq_some_iff.mpr ⟨step, by simp⟩⟩

/-- A message of `omni_recv` is forwarded, and a zero is nothing. -/
theorem forwards_recv {id : ℕ} {script : List ReadResult} {n : ℤ} {frame : List UInt8}
    (forwards : s.Forwards host) (rx : s.rxCtx = some ⟨id, .tcp host⟩)
    (receiving : s.main = .receiving)
    (returned : tcpRecv host frameBufSize script = .returned n frame) :
    ∃ t, s.recvStep (.tcp script) = some t ∧ t.Forwards host ∧ (forwardLoop args).distance t ≤ 2 ∧
      (t.main = .stopping ∨ t.main = .closeRx ↔ n < 0) := by
  have running : s.running = true := by
    cases flag : s.running with
    | true => rfl
    | false => cases receiving.symm.trans (forwards.running.mp flag)
  rw [recvStep, receiving, rx]
  simp only [omniRecv, returned, Option.map_some]
  refine ⟨_, rfl, ?_⟩
  split_ifs with negative zero
  · exact ⟨⟨⟨id, rfl⟩, by simp [running], trivial⟩, by simp [forwardLoop], by simp [negative]⟩
  · exact ⟨⟨⟨id, rfl⟩, by simp [running], trivial⟩, by simp [forwardLoop], by simp [negative]⟩
  · exact ⟨⟨⟨id, rfl⟩, by simp [running], trivial⟩, by simp [forwardLoop], by simp [negative]⟩

/-- `running` is 1 as long as the main thread is in the loop. -/
theorem Forwards.set (forwards : s.Forwards host) (inside : s.main ≠ .closeRx) :
    s.running = true := by
  cases flag : s.running with
  | true => rfl
  | false => exact absurd (forwards.running.mp flag) inside

/-- The loop's own actions lead to `omni_recv`, or on to the end behind the loop. -/
theorem Forwards.act_busy {label : RelayLabel} (forwards : s.Forwards host)
    (act : (forwardLoop args).act s label = some t)
    (busy : (forwardLoop args).idle label = false) :
    t.Forwards host ∧ (forwardLoop args).distance t < (forwardLoop args).distance s ∧
      (s.main = .stopping → t.main = .closeRx) ∧ s.main ≠ .closeRx ∧ s.main ≠ .receiving := by
  obtain ⟨id, rx⟩ := forwards.rx
  cases label with
  | main =>
    rcases main_act act with ⟨pc, rfl⟩ | ⟨msg, pc, head, same, flag⟩ | ⟨pc, rfl⟩
    · have running := forwards.set (by simp [pc])
      rw [if_pos running]
      exact ⟨⟨⟨id, rx⟩, by simp [running], trivial⟩, by simp [forwardLoop, pc], by simp [pc],
        by simp [pc], by simp [pc]⟩
    · have running := forwards.set (by simp [pc])
      exact ⟨⟨⟨id, same.trans rx⟩, by simp [flag, running, head], by simp [head]⟩,
        by simp [forwardLoop, pc, head], by simp [pc], by simp [pc], by simp [pc]⟩
    · exact ⟨⟨⟨id, rx⟩, by simp, trivial⟩, by simp [forwardLoop, pc], by simp, by simp [pc],
        by simp [pc]⟩
  | send answer =>
    obtain ⟨⟨msg, pc⟩, head, same, flag⟩ := main_send act
    have running := forwards.set (by simp [pc])
    exact ⟨⟨⟨id, same.trans rx⟩, by simp [flag, running, head], by simp [head]⟩,
      by simp [forwardLoop, pc, head], by simp [pc], by simp [pc], by simp [pc]⟩
  | control | mainInit answer | controlInit answer | create ok | recv answer | line command =>
    exact absurd busy (by simp [forwardLoop])

theorem lawful (args : RelayArgs) (host : Endian) :
    (forwardLoop args).Lawful host (Forwards host) where
  act_inv s label t forwards act := by
    cases idle : (forwardLoop args).idle label with
    | true => exact forwards.same (sameLoop_act act idle)
    | false => exact (forwards.act_busy act idle).1
  act_idle s label t _ act idle := by
    obtain ⟨-, -, main⟩ := sameLoop_act act idle
    simp [forwardLoop, main]
  act_busy s label t forwards act busy := by
    obtain ⟨-, closer, stops, inside, outside⟩ := forwards.act_busy act busy
    refine ⟨closer, fun leaving => ?_, by simp [forwardLoop, outside]⟩
    have stopping : s.main = .stopping := by simpa [forwardLoop, inside] using leaving
    simp [forwardLoop, stops stopping]
  onward s forwards receiving running := by
    have outside : s.main ≠ .receiving := by simpa [forwardLoop] using receiving
    have set : s.running = true := by simpa [forwardLoop] using running
    have loop := forwards.loop
    cases pc : s.main with
    | loopTest =>
      exact ⟨.main, _, rfl, by simp [forwardLoop, mainStep, pc, set]; rfl, by simp [forwardLoop]⟩
    | forwarding msg =>
      cases installed : s.txCtx with
      | none =>
        exact ⟨.main, _, rfl, by simp [forwardLoop, mainStep, pc, installed]; rfl,
          by simp [forwardLoop]⟩
      | some tx =>
        obtain ⟨answer, t, act⟩ := exists_send pc installed
        obtain ⟨-, head, -⟩ := main_send act
        exact ⟨.send answer, t, rfl, act, by simp [forwardLoop, head]⟩
    | stopping =>
      exact ⟨.main, _, rfl, by simp [forwardLoop, mainStep, pc]; rfl, by simp [forwardLoop, pc]⟩
    | receiving => exact absurd pc outside
    | closeRx => cases set.symm.trans (forwards.running.mpr pc)
    | initRx | setTarget pc' | create | sending msg | join | takeTx | closeTx tx | abortRx | abortTx
    | returned => simp [pc] at loop
  not_receiving s _ leaving := by
    have past : s.main = .stopping ∨ s.main = .closeRx := by simpa [forwardLoop] using leaving
    rcases past with pc | pc <;> simp [forwardLoop, pc]
  not_cleared s forwards staying := by
    have inside : s.main ≠ .stopping ∧ s.main ≠ .closeRx := by simpa [forwardLoop] using staying
    simp [forwardLoop, forwards.set inside.2]
  recv_receiving s script n frame t step := by
    simp only [forwardLoop, recvStep] at step
    split at step
    case h_1 pc _ => simp [forwardLoop, pc]
    case h_2 => exact absurd step (by simp)
  recv s script n frame forwards receiving returned := by
    have pc : s.main = .receiving := by simpa [forwardLoop] using receiving
    obtain ⟨id, rx⟩ := forwards.rx
    obtain ⟨t, step, forwards', distance, leaves⟩ :=
      forwards_recv forwards rx pc returned
    exact ⟨t, step, forwards', distance, by simpa [forwardLoop] using leaves⟩

/-- The relay's loop ends if the stream is not whole frames. -/
theorem forwardLoop_endsOn_iff (args : RelayArgs) (s : Relay) (id : ℕ) (host : Endian)
    (stream : List UInt8) :
    (forwardLoop args).EndsOn host (s.looping id host) stream ↔
      ¬ WholeFrames frameBufSize stream := by
  rw [RecvLoop.endsOn_iff (lawful args host) ⟨⟨id, rfl⟩, by simp [looping], trivial⟩ rfl]
  exact or_iff_right (by simp [forwardLoop])

end Relay

/-! ## All three -/

/-- With the stream, closed behind its last byte, on its connection each of the three
loops makes finitely many steps and clears `running`, whichever state the relay reaches its
loop in. -/
structure LoopsEnd (host : Endian) (size : SizeT) (stream : List UInt8) : Prop where
  server : (Server.recvLoop host size).EndsOn host (Server.start .tcp) stream
  client : (ClientRecv.recvLoop host size).EndsOn host ClientRecv.start stream
  relay : ∀ args (s : Relay) id, (Relay.forwardLoop args).EndsOn host (s.looping id host) stream

/-- They do so on exactly the streams that break off inside a frame, or hold one that is too
long for the buffer. -/
theorem loopsEnd_iff (host : Endian) (size : SizeT) (stream : List UInt8) :
    LoopsEnd host size stream ↔ ¬ WholeFrames frameBufSize stream := by
  constructor
  · rintro ⟨-, client, -⟩
    exact (ClientRecv.recvLoop_endsOn_iff host size stream).mp client
  · intro broken
    exact ⟨Server.recvLoop_endsOn host size stream,
      (ClientRecv.recvLoop_endsOn_iff host size stream).mpr broken,
      fun args s id => (Relay.forwardLoop_endsOn_iff args s id host stream).mpr broken⟩

/-- A peer that closes at once leaves the client and the relay in their loops. -/
theorem loopsEnd_counterexample : ¬ LoopsEnd .little .bits64 [] := by
  rintro ⟨-, client, -⟩
  exact (ClientRecv.recvLoop_endsOn_iff .little .bits64 []).mp client (wholeFrames_nil frameBufSize)

end OmniSocket
