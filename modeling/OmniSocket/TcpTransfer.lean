/-
# File transfer over TCP

Client, connection and server run side by side. Every system call and every
load of a flag is a step of its own, so all interleavings of the client's main
thread, whoever clears its flags, and the server's receive thread are runs of
one machine; `write` and `read` move any number of bytes and may fail at any
point.
-/

import OmniSocket.Lib.Machine
import OmniSocket.FileTransfer
import OmniSocket.TcpStream

set_option autoImplicit false

namespace OmniSocket

open Lib

/-- A client and a server with the connection between them. -/
structure TcpTransfer where
  client : Client
  link : TcpLink
  server : Server
  deriving DecidableEq, Repr

/-- Who moves next, and how the environment answers. -/
inductive TcpTransferLabel
  /-- An action of the client outside `omni_send`. -/
  | client (event : ClientEvent)
  /-- The client's `malloc` succeeds, its clock reads `now`, and `omni_send` is
  called at clock reading `t0`. -/
  | startSend (now t0 : UInt64)
  /-- A `write` inside the client's `omni_send`. -/
  | write (r : WriteResult)
  /-- The client's `omni_send` returns. -/
  | sendReturn
  /-- An action of the server outside `omni_recv`. -/
  | server (event : ServerEvent)
  /-- A `read` inside the server's `omni_recv`. -/
  | read (r : ReadResult)
  /-- The server's `omni_recv` returns. -/
  | recvReturn
  deriving DecidableEq, Repr

namespace TcpTransfer

/-- Both programs at the heads of their loops, on a fresh connection. -/
def start (file : List UInt8) : TcpTransfer where
  client := .start file
  link := .fresh
  server := .start .tcp

/-- One step of the machine. -/
def step (hosts : Hosts) (chunkSize : ℕ) (s : TcpTransfer) :
    TcpTransferLabel → Option TcpTransfer
  | .client event =>
    match event with
    | .malloc true _ | .sent _ => none
    | _ => (s.client.step hosts.client chunkSize event).map fun c => { s with client := c }
  | .startSend now t0 =>
    (s.client.step hosts.client chunkSize (.malloc true now)).bind fun c =>
      match c.pc with
      | .sending _ _ frame =>
        some { s with client := c, link := s.link.beginSend hosts.client t0 frame }
      | _ => none
  | .write r => (s.link.write r).map fun l => { s with link := l }
  | .sendReturn =>
    match s.link.tx with
    | some (.returned value _) =>
      (s.client.step hosts.client chunkSize (.sent value)).map fun c =>
        { s with client := c, link := s.link.endSend }
    | _ => none
  | .server event =>
    match event with
    | .recv _ _ => none
    | _ => (s.server.step hosts.server hosts.size event).map fun t => { s with server := t }
  | .read r =>
    if s.server.pc = .receiving then
      (s.link.read hosts.server frameBufSize r).map fun l => { s with link := l }
    else none
  | .recvReturn =>
    match s.link.rx with
    | .returned value frame =>
      (s.server.step hosts.server hosts.size (.recv value frame)).map fun t =>
        { s with server := t, link := s.link.endRecv }
    | _ => none

/-- The machine of one transfer. -/
def machine (hosts : Hosts) (chunkSize : ℕ) : Machine TcpTransfer TcpTransferLabel where
  step := step hosts chunkSize

/-! ## The invariant -/

/-- Either the client is inside `omni_send`, and the bytes `unsent` are what is
left of its frame, or it is not, and nothing is left unless it has given up. -/
def Sending (s : TcpTransfer) (unsent : List UInt8) : Prop :=
  match s.link.tx with
  | some tx =>
    unsent = tx.unsent ∧ ∃ type payload frame, s.client.pc = .sending type payload frame ∧
      IsFileMessage type payload ∧ frame.length = msgHeaderSize + payload.length ∧
      tx.Sound frame.length
  | none => unsent = [] ∨ s.client.Finished

/-- The messages `pending` are what the connection will still deliver. -/
def Connected (hosts : Hosts) (s : TcpTransfer) (pending : List FileMessage) : Prop :=
  ∃ unsent, s.link.Carries hosts.client frameBufSize unsent
    (pending.map (FileMessage.frame hosts.client)) ∧ s.Sending unsent

/-- The server has taken the messages of an honest client in order, and the
others are on their way as long as it listens. -/
def Holds (hosts : Hosts) (file : List UInt8) (s : TcpTransfer) : Prop :=
  ∃ got pending, s.client.Tracks file (got ++ pending.map FileMessage.piece) ∧
    s.server.Tracks got ∧ s.server.proto = .tcp ∧
    (s.server.pc = .stopped ∨ s.Connected hosts pending)

theorem holds_start (hosts : Hosts) (file : List UInt8) : (start file).Holds hosts file :=
  ⟨[], [], Client.tracks_start file, Server.tracks_start .tcp, rfl,
    .inr ⟨[], TcpLink.carries_fresh .., .inl rfl⟩⟩

/-! ## What each step preserves -/

/-- A client outside `omni_send` leaves the connection alone. -/
theorem Sending.client {hosts : Hosts} {chunkSize : ℕ} {s : TcpTransfer} {unsent : List UInt8}
    {event : ClientEvent} {c : Client} (sending : s.Sending unsent)
    (step : s.client.step hosts.client chunkSize event = some c)
    (outside : ∀ n, event ≠ .sent n) : Sending { s with client := c } unsent := by
  unfold Sending at sending ⊢
  cases tx : s.link.tx with
  | none =>
    simp only [tx] at sending ⊢
    exact sending.imp_right fun finished => (Client.finished_step finished step).1
  | some tx' =>
    simp only [tx] at sending ⊢
    obtain ⟨left, type, payload, frame, pc, message⟩ := sending
    refine ⟨left, type, payload, frame, ?_, message⟩
    cases event <;> simp only [Client.step, pc, reduceCtorEq, false_and, if_false] at step
    case sent n => exact absurd rfl (outside n)
    case recvThreadExit | signal =>
      obtain rfl := Option.some.inj step
      rfl

theorem holds_client {hosts : Hosts} {chunkSize : ℕ} {file : List UInt8} {s : TcpTransfer}
    {event : ClientEvent} {c : Client} (size : chunkSize ≤ 65536) (holds : s.Holds hosts file)
    (step : s.client.step hosts.client chunkSize event = some c)
    (notBegin : ∀ now, event ≠ .malloc true now) (outside : ∀ n, event ≠ .sent n) :
    Holds hosts file { s with client := c } := by
  obtain ⟨got, pending, client, server, tcp, rest⟩ := holds
  refine ⟨got, pending, ?_, server, tcp, rest.imp_right ?_⟩
  · exact Client.Tracks.quiet size client step notBegin
  · rintro ⟨unsent, carries, sending⟩
    exact ⟨unsent, carries, sending.client step outside⟩

theorem holds_startSend {hosts : Hosts} {chunkSize : ℕ} {file : List UInt8} {s t : TcpTransfer}
    {now t0 : UInt64} (holds : s.Holds hosts file)
    (step : s.step hosts chunkSize (.startSend now t0) = some t) : t.Holds hosts file := by
  obtain ⟨got, pending, client, server, tcp, rest⟩ := holds
  simp only [TcpTransfer.step, Option.bind_eq_some_iff] at step
  obtain ⟨c, cstep, next⟩ := step
  obtain ⟨busy, m, pc, tracks⟩ := client.begin cstep
  simp only [pc, Option.some.injEq] at next
  subst next
  refine ⟨got, pending ++ [m], by simpa using tracks, server, tcp, rest.imp_right ?_⟩
  rintro ⟨unsent, carries, sending⟩
  have idle : unsent = [] := by
    unfold Sending at sending
    split at sending
    case h_1 tx tx_eq =>
      -- a client about to call `omni_send` is not inside it
      obtain ⟨-, type, payload, frame, inside, -⟩ := sending
      simp [Client.step, inside] at cstep
    case h_2 => exact sending.resolve_right busy
  subst idle
  have started := TcpSend.sound_tcpSendStart hosts.client t0 (m.frame hosts.client)
  refine ⟨tcpFrame hosts.client t0 (m.frame hosts.client), ?_, ?_⟩
  · simpa using carries.beginSend t0 (m.length_frame_le hosts.client)
  · exact ⟨started.2.symm, _, _, _, pc, m.isFile, length_appFrame .., started.1⟩

theorem holds_write {hosts : Hosts} {chunkSize : ℕ} {file : List UInt8} {s t : TcpTransfer}
    {r : WriteResult} (holds : s.Holds hosts file)
    (step : s.step hosts chunkSize (.write r) = some t) : t.Holds hosts file := by
  obtain ⟨got, pending, client, server, tcp, rest⟩ := holds
  simp only [TcpTransfer.step, Option.map_eq_some_iff] at step
  obtain ⟨l, lstep, rfl⟩ := step
  refine ⟨got, pending, client, server, tcp, rest.imp_right ?_⟩
  rintro ⟨unsent, carries, sending⟩
  cases calling : s.link.tx with
  | none => simp [TcpLink.write, calling] at lstep
  | some tx =>
    simp only [Sending, calling] at sending
    obtain ⟨rfl, type, payload, frame, pc, message, length, sound⟩ := sending
    have small : frame.length < 2 ^ 63 := by
      have := message.length_le
      rw [length, msgHeaderSize]
      omega
    obtain ⟨tx', calling', sound', carries'⟩ := carries.write small calling sound lstep
    refine ⟨tx'.unsent, carries', ?_⟩
    simp only [Sending, calling', true_and]
    exact ⟨type, payload, frame, pc, message, length, sound'⟩

theorem holds_sendReturn {hosts : Hosts} {chunkSize : ℕ} {file : List UInt8} {s t : TcpTransfer}
    (size : chunkSize ≤ 65536) (holds : s.Holds hosts file)
    (step : s.step hosts chunkSize .sendReturn = some t) : t.Holds hosts file := by
  obtain ⟨got, pending, client, server, tcp, rest⟩ := holds
  simp only [TcpTransfer.step] at step
  split at step
  case h_1 value left calling =>
    rw [Option.map_eq_some_iff] at step
    obtain ⟨c, cstep, rfl⟩ := step
    refine ⟨got, pending, ?_, server, tcp, rest.imp_right ?_⟩
    · exact Client.Tracks.quiet size client cstep (by simp)
    · rintro ⟨unsent, carries, sending⟩
      simp only [Sending, calling] at sending
      obtain ⟨rfl, type, payload, frame, pc, message, length, sound⟩ := sending
      refine ⟨unsent, carries, ?_⟩
      rcases sound with ⟨-, complete⟩ | failed
      · exact .inl complete
      · -- bytes are lost only by a send that failed, and that is the client's last
        refine .inr (Client.finished_of_failed pc message ?_ cstep)
        have small := message.length_le
        rw [failed, length, ssize_of_lt (by rw [msgHeaderSize]; omega), omniErrIo]
        omega
  case h_2 => exact absurd step (by simp)

theorem holds_server {hosts : Hosts} {file : List UInt8} {s : TcpTransfer} {event : ServerEvent}
    {t : Server} (holds : s.Holds hosts file)
    (step : s.server.step hosts.server hosts.size event = some t)
    (outside : ∀ n frame, event ≠ .recv n frame) : Holds hosts file { s with server := t } := by
  obtain ⟨got, pending, client, server, tcp, rest⟩ := holds
  refine ⟨got, pending, client, Server.tracks_step server step outside,
    (Server.proto_step step).trans tcp, ?_⟩
  exact rest.imp (fun stopped => (Server.stopped_step_eq stopped step).2.1) id

theorem holds_read {hosts : Hosts} {chunkSize : ℕ} {file : List UInt8} {s t : TcpTransfer}
    {r : ReadResult} (holds : s.Holds hosts file)
    (step : s.step hosts chunkSize (.read r) = some t) : t.Holds hosts file := by
  obtain ⟨got, pending, client, server, tcp, rest⟩ := holds
  simp only [TcpTransfer.step] at step
  split at step
  case isTrue =>
    rw [Option.map_eq_some_iff] at step
    obtain ⟨l, lstep, rfl⟩ := step
    refine ⟨got, pending, client, server, tcp, rest.imp_right ?_⟩
    rintro ⟨unsent, carries, sending⟩
    refine ⟨unsent, carries.read (by decide) lstep, ?_⟩
    have same : l.tx = s.link.tx := TcpLink.tx_read lstep
    simpa only [Sending, same] using sending
  case isFalse => exact absurd step (by simp)

theorem holds_recvReturn {hosts : Hosts} {chunkSize : ℕ} {file : List UInt8} {s t : TcpTransfer}
    (holds : s.Holds hosts file) (step : s.step hosts chunkSize .recvReturn = some t) :
    t.Holds hosts file := by
  obtain ⟨got, pending, client, server, tcp, rest⟩ := holds
  simp only [TcpTransfer.step] at step
  split at step
  case h_1 value frame rx =>
    rw [Option.map_eq_some_iff] at step
    obtain ⟨u, ustep, rfl⟩ := step
    have proto := (Server.proto_step ustep).trans tcp
    simp only [Server.step] at ustep
    split at ustep
    case h_1 pc =>
      obtain rfl := Option.some.inj ustep
      simp only [Server.Tracks, pc] at server
      -- over TCP a result that is not positive ends the loop
      by_cases nonpos : value ≤ 0
      · refine ⟨got, pending, client, Server.tracks_afterRecv_of_nonpos server nonpos, proto,
          .inl ?_⟩
        unfold Server.afterRecv
        split_ifs <;> first | rfl | omega
      · have connected := rest.resolve_left (by simp [pc])
        obtain ⟨unsent, carries, sending⟩ := connected
        obtain ⟨value_eq, others, next, carries'⟩ := carries.endRecv rx (not_le.mp nonpos)
        obtain ⟨m, later, rfl, rfl, rfl⟩ := List.map_eq_cons_iff.mp next
        refine ⟨got ++ [m.piece], later, by simpa using client, ?_, proto, .inr ?_⟩
        · rw [value_eq]
          exact Server.tracks_afterRecv_of_frame server m
        · exact ⟨unsent, carries', sending⟩
    case h_2 => exact absurd ustep (by simp)
  case h_2 => exact absurd step (by simp)

/-- Every step keeps the invariant. -/
theorem holds_step {hosts : Hosts} {chunkSize : ℕ} {file : List UInt8} {s t : TcpTransfer}
    {label : TcpTransferLabel} (size : chunkSize ≤ 65536) (holds : s.Holds hosts file)
    (step : s.step hosts chunkSize label = some t) : t.Holds hosts file := by
  cases label with
  | client event =>
    simp only [TcpTransfer.step] at step
    split at step
    case h_1 | h_2 => exact absurd step (by simp)
    case h_3 notBegin outside =>
      rw [Option.map_eq_some_iff] at step
      obtain ⟨c, cstep, rfl⟩ := step
      exact holds_client size holds cstep (fun now same => notBegin now same)
        fun n same => outside n same
  | startSend now t0 => exact holds_startSend holds step
  | write r => exact holds_write holds step
  | sendReturn => exact holds_sendReturn size holds step
  | server event =>
    simp only [TcpTransfer.step] at step
    split at step
    case h_1 => exact absurd step (by simp)
    case h_2 outside =>
      rw [Option.map_eq_some_iff] at step
      obtain ⟨u, ustep, rfl⟩ := step
      exact holds_server holds ustep fun n frame same => outside n frame same
  | read r => exact holds_read holds step
  | recvReturn => exact holds_recvReturn holds step

/-! ## The transfer theorem -/

/-- At the end of every run the output is a prefix of the file, and once
`transfer_done` is set it is the file. -/
theorem tcp_transfer {hosts : Hosts} {chunkSize : ℕ} {file : List UInt8}
    {labels : List TcpTransferLabel} {s : TcpTransfer}
    (accepted : 1 ≤ chunkSize ∧ chunkSize ≤ 65536)
    (hrun : (machine hosts chunkSize).run (start file) labels = some s) :
    s.server.out <+: file ∧ (s.server.transferDone = true →
      s.server.out = file ∧ s.server.bytesWritten = UInt64.ofNat file.length) := by
  have holds : s.Holds hosts file :=
    (machine hosts chunkSize).run_invariant
      (fun _ _ _ before step => holds_step accepted.2 before step) (holds_start hosts file) hrun
  obtain ⟨got, pending, client, server, -⟩ := holds
  exact server.output (List.prefix_append _ _) client.announces

/-- A one-byte file over a connection that is interrupted inside both headers. -/
private def tinyTransfer : List TcpTransferLabel :=
  let chunk := tcpFrame .little 5 (appFrame .little msgTypeFileChunk [7] 4)
  let last := tcpFrame .little 9 (appFrame .little msgTypeFileEnd [] 8)
  [.client .load, .client .load, .client (.fread 1 false false), .startSend 4 5,
    .write (.count 3), .write .eintr, .write (.count 13), .write (.count 17), .sendReturn,
    .server .load, .read (.count (chunk.take 9)), .read .eintr,
    .read (.count ((chunk.drop 9).take 7)), .read (.count (chunk.drop 16)), .recvReturn,
    .server (.fwrite 1), .client .load, .client .load, .client (.fread 0 true false),
    .client .load, .startSend 8 9, .write (.count 16), .write (.count 16), .sendReturn,
    .server .load, .read (.count (last.take 16)), .read (.count (last.drop 16)), .recvReturn]

theorem tcp_transfer_tiny :
    ∃ s, (machine ⟨.little, .big, .bits64⟩ 1).run (start [7]) tinyTransfer = some s ∧
      s.server.transferDone = true ∧ s.server.out <+: [7] ∧ (s.server.transferDone = true →
        s.server.out = [7] ∧ s.server.bytesWritten = UInt64.ofNat [(7 : UInt8)].length) := by
  obtain ⟨s, hrun, finished⟩ : ∃ s, (machine ⟨.little, .big, .bits64⟩ 1).run (start [7])
      tinyTransfer = some s ∧ s.server.transferDone = true := ⟨_, rfl, by decide +kernel⟩
  exact ⟨s, hrun, finished, tcp_transfer (by decide) hrun⟩

end TcpTransfer

end OmniSocket
