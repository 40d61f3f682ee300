/-
# The test program over TCP

The two programs take turns. The server echoes without looking at what `omni_send`
returns, and would go on behind a frame it could not finish; but the client sends nothing
before it has the whole echo, so there is nothing to go on with. So every echo is that of
the message before it, whatever fails and however reads and writes are split.
-/

import OmniSocket.App.Echo
import OmniSocket.Lib.Machine
import OmniSocket.TcpWay

set_option autoImplicit false

namespace OmniSocket

open Lib

/-- The two programs and the two directions of their connection. -/
structure EchoTcp where
  client : EchoClient
  up : TcpLink
  down : TcpLink
  server : EchoServer
  deriving DecidableEq, Repr

/-- Who moves next, and how the environment answers. -/
inductive EchoTcpLabel
  /-- The client reads its clock, and calls `omni_send` at clock reading `t0` if there is
  another round. -/
  | round (now t0 : UInt64)
  /-- A `write` inside the client's `omni_send`. -/
  | write (r : WriteResult)
  /-- The client's `omni_send` returns. -/
  | sendReturn
  /-- A `read` inside the client's `omni_recv`. -/
  | read (r : ReadResult)
  /-- The client's `omni_recv` returns. -/
  | recvReturn
  /-- A `read` inside the server's `omni_recv`. -/
  | serverRead (r : ReadResult)
  /-- The server's `omni_recv` returns, and `omni_send` is called at clock reading `t0` if
  there is a message. -/
  | serverRecvReturn (t0 : UInt64)
  /-- A `write` inside the server's `omni_send`. -/
  | serverWrite (r : WriteResult)
  /-- The server's `omni_send` returns. -/
  | serverSendReturn
  deriving DecidableEq, Repr

namespace EchoTcp

/-- Both programs with their contexts. -/
def start : EchoTcp where
  client := .start .tcp
  up := .fresh
  down := .fresh
  server := .start .tcp

/-- One step of the machine. -/
def step (client server : Endian) (s : EchoTcp) : EchoTcpLabel → Option EchoTcp
  | .round now t0 =>
    (s.client.step (.clock now)).map fun c =>
      match c.calling with
      | some msg => { s with client := c, up := s.up.beginSend client t0 msg }
      | none => { s with client := c }
  | .write r => (s.up.write r).map fun l => { s with up := l }
  | .sendReturn =>
    match s.up.tx with
    | some (.returned value _) =>
      (s.client.step (.sent value)).map fun c => { s with client := c, up := s.up.endSend }
    | _ => none
  | .read r =>
    if s.client.pc = .receiving then
      (s.down.read client testRecvSize r).map fun l => { s with down := l }
    else none
  | .recvReturn =>
    match s.down.rx with
    | .returned value buf =>
      (s.client.step (.recv value buf)).map fun c =>
        { s with client := c, down := s.down.endRecv }
    | _ => none
  | .serverRead r =>
    if s.server.pc = .receiving then
      (s.up.read server testRecvSize r).map fun l => { s with up := l }
    else none
  | .serverRecvReturn t0 =>
    match s.up.rx with
    | .returned value buf =>
      (s.server.step (.recv value buf)).map fun t =>
        match t.calling with
        | some msg =>
          { s with server := t, up := s.up.endRecv, down := s.down.beginSend server t0 msg }
        | none => { s with server := t, up := s.up.endRecv }
    | _ => none
  | .serverWrite r => (s.down.write r).map fun l => { s with down := l }
  | .serverSendReturn =>
    match s.down.tx with
    | some (.returned value _) =>
      (s.server.step (.sent value)).map fun t => { s with server := t, down := s.down.endSend }
    | _ => none

/-- The machine of the two programs. -/
def machine (client server : Endian) : Machine EchoTcp EchoTcpLabel where
  step := step client server

/-! ## The invariant -/

/-- At most one message is on its way, to the server or back. -/
structure Holds (client server : Endian) (s : EchoTcp) (back forth : List (ℕ × List UInt8)) :
    Prop where
  tcp : s.client.proto = .tcp ∧ s.server.proto = .tcp
  numbers : s.client.Numbers
  log : s.client.sent = s.client.replies ++ (back ++ forth)
  one : (back ++ forth).length ≤ 1
  idle : s.client.pc = .loopTest → back ++ forth = []
  up : s.server.pc = .done ∨
    ∃ unsent, s.up.Way client testRecvSize s.client.calling unsent (forth.map Prod.snd)
  down : s.client.pc = .done ∨
    ∃ unsent, s.down.Way server testRecvSize s.server.calling unsent (back.map Prod.snd)

theorem holds_start (client server : Endian) : start.Holds client server [] [] where
  tcp := ⟨rfl, rfl⟩
  numbers := ⟨rfl, by simp [start, EchoClient.start]⟩
  log := rfl
  one := by simp
  idle := fun _ => rfl
  up := .inr ⟨[], TcpLink.way_fresh ..⟩
  down := .inr ⟨[], TcpLink.way_fresh ..⟩

/-! ## What each step preserves -/

section Steps

variable {client server : Endian} {s t : EchoTcp} {back forth : List (ℕ × List UInt8)}

theorem holds_round {now t0 : UInt64} (holds : s.Holds client server back forth)
    (step : s.step client server (.round now t0) = some t) :
    ∃ back forth, t.Holds client server back forth := by
  obtain ⟨c, cstep, rfl⟩ := Option.map_eq_some_iff.mp step
  obtain ⟨pc, next⟩ := EchoClient.step_clock cstep
  have none := holds.idle pc
  have answered : s.client.sent = s.client.replies := by
    rw [holds.log, none, List.append_nil]
  have down := holds.down.resolve_left (by simp [pc])
  obtain ⟨rfl, rfl⟩ := List.append_eq_nil_iff.mp none
  rcases next with ⟨round, rfl⟩ | rfl
  · -- nothing is on its way, so the frame is put behind whole ones
    have fits : (testMessage s.client.i now).length ≤ testRecvSize :=
      (length_testMessage_lt round now).le.trans (by decide)
    have log : s.client.sent ++ [(s.client.i, testMessage s.client.i now)] =
        s.client.replies ++ ([] ++ [(s.client.i, testMessage s.client.i now)]) := by
      rw [answered, List.nil_append]
    have up : s.server.pc = .done ∨
        ∃ unsent, (s.up.beginSend client t0 (testMessage s.client.i now)).Way client testRecvSize
          (some (testMessage s.client.i now)) unsent [testMessage s.client.i now] := by
      refine holds.up.imp_right ?_
      rintro ⟨unsent, way⟩
      exact ⟨_, way.beginSend t0 fits⟩
    exact ⟨[], [(s.client.i, testMessage s.client.i now)], holds.tcp,
      holds.numbers.round (congrArg List.length answered) round, log, by simp,
      EchoClientPc.noConfusion, up, .inr down⟩
  · have up := holds.up
    rw [EchoClient.calling, pc] at up
    exact ⟨[], [], holds.tcp, ⟨holds.numbers.counter, holds.numbers.sent⟩, holds.log, by simp,
      EchoClientPc.noConfusion, up, .inl rfl⟩

theorem holds_sendReturn (holds : s.Holds client server back forth)
    (step : s.step client server .sendReturn = some t) : t.Holds client server back forth := by
  simp only [EchoTcp.step] at step
  split at step
  case h_1 value left active =>
    obtain ⟨c, cstep, rfl⟩ := Option.map_eq_some_iff.mp step
    obtain ⟨⟨msg, pc⟩, rfl⟩ := EchoClient.step_sent cstep
    have calling : EchoClient.calling { s.client with
        pc := if value ≤ 0 then .done else .receiving } = none := by
      rw [EchoClient.calling]
      split_ifs <;> rfl
    refine ⟨holds.tcp, ⟨holds.numbers.counter, holds.numbers.sent⟩, holds.log, holds.one,
      ?_, ?_, ?_⟩
    · intro now
      have now : (if value ≤ 0 then EchoClientPc.done else .receiving) = .loopTest := now
      split_ifs at now
    · rw [calling]
      exact holds.up.imp_right (Exists.imp fun _ way => way.endSend)
    · exact .inr (holds.down.resolve_left (by simp [pc]))
  case h_2 => exact absurd step (by simp)

theorem holds_write {r : WriteResult} {l : TcpLink} (holds : s.Holds client server back forth)
    (step : s.up.write r = some l) : Holds client server { s with up := l } back forth := by
  refine ⟨holds.tcp, holds.numbers, holds.log, holds.one, holds.idle, ?_, holds.down⟩
  refine holds.up.imp_right ?_
  rintro ⟨unsent, way⟩
  exact way.write (by decide) step

theorem holds_serverWrite {r : WriteResult} {l : TcpLink}
    (holds : s.Holds client server back forth) (step : s.down.write r = some l) :
    Holds client server { s with down := l } back forth := by
  refine ⟨holds.tcp, holds.numbers, holds.log, holds.one, holds.idle, holds.up, ?_⟩
  refine holds.down.imp_right ?_
  rintro ⟨unsent, way⟩
  exact way.write (by decide) step

/-- The client takes the echo of its last message. -/
theorem holds_recvReturn (holds : s.Holds client server back forth)
    (step : s.step client server .recvReturn = some t) :
    ∃ back forth, t.Holds client server back forth := by
  simp only [EchoTcp.step] at step
  split at step
  case h_1 value buf returned =>
    obtain ⟨c, cstep, rfl⟩ := Option.map_eq_some_iff.mp step
    obtain ⟨pc, rfl⟩ := EchoClient.step_recv cstep
    have up := holds.up
    have calling : s.client.calling = none := by rw [EchoClient.calling, pc]
    rw [calling] at up
    by_cases positive : 0 < value
    · obtain ⟨unsent, way⟩ := holds.down.resolve_left (by simp [pc])
      obtain ⟨value_eq, -, rest, next, way'⟩ := way.endRecv returned positive
      obtain ⟨⟨k, msg⟩, later, rfl, rfl, rfl⟩ := List.map_eq_cons_iff.mp next
      -- with this message on its way there is no other
      have none : later ++ forth = [] := by
        have one := holds.one
        rw [List.cons_append, List.length_cons] at one
        exact List.length_eq_zero_iff.mp (by omega)
      obtain ⟨rfl, rfl⟩ := List.append_eq_nil_iff.mp none
      have log : s.client.sent = s.client.replies ++ [(k, msg)] := holds.log
      obtain rfl : k = s.client.i := by
        rw [holds.numbers.counter]
        refine (holds.numbers.sent _ (k, msg) ?_).1
        rw [log, List.getElem?_concat_length]
      rw [EchoClient.afterRecv_of_whole positive value_eq]
      refine ⟨[], [], holds.tcp, holds.numbers.reply, ?_, by simp, fun _ => rfl, up,
        .inr ⟨unsent, way'⟩⟩
      show s.client.sent = s.client.replies ++ [(s.client.i, msg)] ++ []
      rw [log, List.append_nil]
    · -- over TCP anything else ends the loop
      rw [EchoClient.afterRecv_of_nonpos (by simp [holds.tcp.1]) (not_lt.mp positive)]
      exact ⟨back, forth, holds.tcp, ⟨holds.numbers.counter, holds.numbers.sent⟩, holds.log,
        holds.one, by simp, up, .inl rfl⟩
  case h_2 => exact absurd step (by simp)

/-- The server takes the client's message and begins to echo it. -/
theorem holds_serverRecvReturn {t0 : UInt64} (holds : s.Holds client server back forth)
    (step : s.step client server (.serverRecvReturn t0) = some t) :
    ∃ back forth, t.Holds client server back forth := by
  simp only [EchoTcp.step] at step
  split at step
  case h_1 value buf returned =>
    obtain ⟨u, ustep, rfl⟩ := Option.map_eq_some_iff.mp step
    obtain ⟨pc, rfl⟩ := EchoServer.step_recv ustep
    have calling : s.server.calling = none := by rw [EchoServer.calling, pc]
    have down := holds.down
    rw [calling] at down
    by_cases positive : 0 < value
    · obtain ⟨unsent, way⟩ := holds.up.resolve_left (by simp [pc])
      obtain ⟨value_eq, fits, rest, next, way'⟩ := way.endRecv returned positive
      obtain ⟨⟨k, msg⟩, later, rfl, rfl, rfl⟩ := List.map_eq_cons_iff.mp next
      have none : back ++ later = [] := by
        have one := holds.one
        rw [List.length_append, List.length_cons] at one
        exact List.length_eq_zero_iff.mp (by rw [List.length_append]; omega)
      obtain ⟨rfl, rfl⟩ := List.append_eq_nil_iff.mp none
      rw [EchoServer.afterRecv_of_whole positive value_eq]
      refine ⟨[(k, msg)], [], holds.tcp, holds.numbers, holds.log, by simp, ?_,
        .inr ⟨unsent, way'⟩, ?_⟩
      · exact fun now => absurd (holds.idle now) (by simp)
      · refine down.imp_right ?_
        rintro ⟨unsent', empty⟩
        exact ⟨_, empty.beginSend t0 fits⟩
    · rw [EchoServer.afterRecv_of_nonpos (by simp [holds.tcp.2]) (not_lt.mp positive)]
      exact ⟨back, forth, holds.tcp, holds.numbers, holds.log, holds.one, holds.idle, .inl rfl,
        down⟩
  case h_2 => exact absurd step (by simp)

theorem holds_serverSendReturn (holds : s.Holds client server back forth)
    (step : s.step client server .serverSendReturn = some t) :
    t.Holds client server back forth := by
  simp only [EchoTcp.step] at step
  split at step
  case h_1 value left active =>
    obtain ⟨u, ustep, rfl⟩ := Option.map_eq_some_iff.mp step
    obtain ⟨⟨msg, pc⟩, rfl⟩ := EchoServer.step_sent ustep
    -- the result is not looked at, but the frame of a failed call stays the last one
    refine ⟨holds.tcp, holds.numbers, holds.log, holds.one, holds.idle, ?_, ?_⟩
    · exact .inr (holds.up.resolve_left (by simp [pc]))
    · exact holds.down.imp_right (Exists.imp fun _ way => way.endSend)
  case h_2 => exact absurd step (by simp)

/-- Every step keeps the invariant. -/
theorem holds_step {label : EchoTcpLabel} (holds : s.Holds client server back forth)
    (step : s.step client server label = some t) :
    ∃ back forth, t.Holds client server back forth := by
  cases label with
  | round now t0 => exact holds_round holds step
  | write r =>
    obtain ⟨l, lstep, rfl⟩ := Option.map_eq_some_iff.mp step
    exact ⟨back, forth, holds_write holds lstep⟩
  | sendReturn => exact ⟨back, forth, holds_sendReturn holds step⟩
  | read r =>
    obtain ⟨-, read⟩ := Option.ite_none_right_eq_some.mp step
    obtain ⟨l, lstep, rfl⟩ := Option.map_eq_some_iff.mp read
    exact ⟨back, forth, holds.tcp, holds.numbers, holds.log, holds.one, holds.idle, holds.up,
      holds.down.imp_right (Exists.imp fun _ way => way.read (by decide) lstep)⟩
  | recvReturn => exact holds_recvReturn holds step
  | serverRead r =>
    obtain ⟨-, read⟩ := Option.ite_none_right_eq_some.mp step
    obtain ⟨l, lstep, rfl⟩ := Option.map_eq_some_iff.mp read
    exact ⟨back, forth, holds.tcp, holds.numbers, holds.log, holds.one, holds.idle,
      holds.up.imp_right (Exists.imp fun _ way => way.read (by decide) lstep), holds.down⟩
  | serverRecvReturn t0 => exact holds_serverRecvReturn holds step
  | serverWrite r =>
    obtain ⟨l, lstep, rfl⟩ := Option.map_eq_some_iff.mp step
    exact ⟨back, forth, holds_serverWrite holds lstep⟩
  | serverSendReturn => exact ⟨back, forth, holds_serverSendReturn holds step⟩

/-- In every run each echo is that of the message of its round, and no message is sent
before the echo of the one before it has come. -/
theorem echo_lockstep {labels : List EchoTcpLabel}
    (hrun : (machine client server).run start labels = some s) :
    s.client.replies <+: s.client.sent ∧
      s.client.sent.length ≤ s.client.replies.length + 1 ∧
      ∀ k p, s.client.sent[k]? = some p →
        p.1 = k ∧ k < testRounds ∧ ∃ now, p.2 = testMessage k now := by
  obtain ⟨back, forth, holds⟩ : ∃ back forth, s.Holds client server back forth := by
    refine (machine client server).run_invariant
      (I := fun s => ∃ back forth, s.Holds client server back forth) ?_
      ⟨[], [], holds_start client server⟩ hrun
    rintro s label t ⟨back, forth, before⟩ step
    exact holds_step before step
  have one := holds.one
  refine ⟨⟨back ++ forth, holds.log.symm⟩, ?_, holds.numbers.sent⟩
  rw [holds.log, List.length_append]
  omega

/-- One round. -/
private def wholeRound : List EchoTcpLabel :=
  let msg := testMessage 0 7
  let frame := tcpFrame .little 1 msg
  [.round 7 1, .write (.count 16), .write (.count msg.length), .sendReturn,
    .serverRead (.count (frame.take 16)), .serverRead (.count msg), .serverRecvReturn 2,
    .serverWrite (.count 16), .serverWrite (.count msg.length),
    .read (.count ((tcpFrame .big 2 msg).take 16)), .read (.count msg), .recvReturn]

theorem echo_lockstep_round : ∃ s,
    (machine .little .big).run start wholeRound = some s ∧
      s.client.replies = [(0, testMessage 0 7)] ∧ s.client.replies <+: s.client.sent ∧
      s.client.sent.length ≤ s.client.replies.length + 1 ∧
      ∀ k p, s.client.sent[k]? = some p →
        p.1 = k ∧ k < testRounds ∧ ∃ now, p.2 = testMessage k now := by
  have ends : ∃ s, (machine .little .big).run start wholeRound = some s ∧
      decide (s.client.replies = [(0, testMessage 0 7)]) = true :=
    (Option.any_eq_true _ _).mp (by decide +kernel)
  obtain ⟨s, hrun, replies⟩ := ends
  exact ⟨s, hrun, of_decide_eq_true replies, echo_lockstep hrun⟩

end Steps

end EchoTcp

end OmniSocket
