/-
# A file transfer over KCP

The two applications on top of two KCP endpoints. Every call of `omni_send` and
`omni_recv` is one step; between the steps the network may do anything to the
datagrams except make or change them. Besides the file itself, the server's
commands and the acknowledgements of both sides travel over the same two
endpoints.
-/

import OmniSocket.FileTransfer
import OmniSocket.KcpStream

set_option autoImplicit false

namespace OmniSocket

open Lib Lib.Piece

/-- Client, server and their two KCP endpoints. -/
structure KcpTransfer where
  client : Client
  server : Server
  link : KcpLink
  deriving DecidableEq, Repr

/-- What can happen next. Every call reads the clock and may read a datagram. -/
inductive KcpTransferLabel
  /-- An action of the client outside `omni_send`. -/
  | client (event : ClientEvent)
  /-- `send_app_message` of the client, with its clock reading `now`. -/
  | clientSend (now clock : UInt64) (incoming : Option Datagram)
  /-- `omni_recv` in the client's receive thread. -/
  | clientRecv (clock : UInt64) (incoming : Option Datagram)
  /-- An action of the server outside `omni_recv`. -/
  | server (event : ServerEvent)
  /-- `send_app_message` of the server's main thread, for a command. -/
  | serverSend (command : List UInt8) (now clock : UInt64) (incoming : Option Datagram)
  /-- `omni_recv` in the server's receive thread. -/
  | serverRecv (clock : UInt64) (incoming : Option Datagram)
  deriving DecidableEq, Repr

namespace KcpTransfer

/-- Both programs at the heads of their loops, on fresh endpoints. -/
def start (file : List UInt8) (client server : KcpContext) : KcpTransfer where
  client := .start file
  server := .start .kcp
  link := .start client server

/-- One step of the machine. A command is a line of at most 2047 bytes. -/
def step (hosts : Hosts) (chunkSize : ℕ) (s : KcpTransfer) :
    KcpTransferLabel → Option KcpTransfer
  | .client event =>
    match event with
    | .malloc true _ | .sent _ => none
    | _ => (s.client.step hosts.client chunkSize event).map fun c => { s with client := c }
  | .clientSend now clock incoming =>
    (s.client.step hosts.client chunkSize (.malloc true now)).bind fun c =>
      match c.pc with
      | .sending _ _ frame =>
        let call := KcpCall.send frame clock incoming
        (s.link.step (.client call)).bind fun link =>
          (c.step hosts.client chunkSize (.sent (s.link.client.call call).1.value)).map fun c =>
            { s with client := c, link := link }
      | _ => none
  | .clientRecv clock incoming =>
    (s.link.step (.client (.recv frameBufSize clock incoming))).map fun link =>
      { s with link := link }
  | .server event =>
    match event with
    | .recv _ _ => none
    | _ => (s.server.step hosts.server hosts.size event).map fun t => { s with server := t }
  | .serverSend command now clock incoming =>
    if command.length < 2048 then
      (s.link.step (.server
        (.send (appFrame hosts.server msgTypeCommand command now) clock incoming))).map
        fun link => { s with link := link }
    else none
  | .serverRecv clock incoming =>
    let call := KcpCall.recv frameBufSize clock incoming
    (s.link.step (.server call)).bind fun link =>
      let reply := (s.link.server.call call).1
      (s.server.step hosts.server hosts.size (.recv reply.value reply.stored)).map fun t =>
        { s with server := t, link := link }

/-- The machine of one transfer. -/
def machine (hosts : Hosts) (chunkSize : ℕ) : Machine KcpTransfer KcpTransferLabel where
  step := step hosts chunkSize

/-! ## The invariant -/

/-- The messages the client has handed to `omni_send` are an honest account of the
file; the server has received the first of them, `got`, and the others, `pending`,
are still with KCP. -/
def Holds (hosts : Hosts) (conv : UInt32) (file : List UInt8) (s : KcpTransfer) : Prop :=
  KcpParty.Linked conv s.link.client s.link.server ∧ ∃ got pending : List FileMessage,
    s.client.Tracks file ((got ++ pending).map FileMessage.piece) ∧
    s.link.client.accepted = (got ++ pending).map (FileMessage.frame hosts.client) ∧
    s.server.Tracks (got.map FileMessage.piece) ∧
    s.link.server.returned = got.map (FileMessage.frame hosts.client)

theorem holds_start {conv : UInt32} {client server : KcpContext} (hosts : Hosts)
    (file : List UInt8) (one : client.Serves conv [] [] []) (other : server.Serves conv [] [] []) :
    (start file client server).Holds hosts conv file :=
  ⟨KcpParty.linked_fresh one other, [], [], Client.tracks_start file, rfl,
    Server.tracks_start .kcp, rfl⟩

/-! ## What each step preserves -/

section Steps

variable {hosts : Hosts} {conv : UInt32} {chunkSize : ℕ} {file : List UInt8} {s t : KcpTransfer}

theorem holds_client {event : ClientEvent} {c : Client} (size : chunkSize ≤ 65536)
    (holds : s.Holds hosts conv file)
    (step : s.client.step hosts.client chunkSize event = some c)
    (notBegin : ∀ now, event ≠ .malloc true now) :
    Holds hosts conv file { s with client := c } := by
  obtain ⟨linked, got, pending, client, rest⟩ := holds
  refine ⟨linked, got, pending, ?_, rest⟩
  exact Client.Tracks.quiet size client step notBegin

/-- A send of the client takes one message more. -/
theorem holds_clientSend {now clock : UInt64} {incoming : Option Datagram}
    (size : chunkSize ≤ 65536) (few : s.link.Few) (holds : s.Holds hosts conv file)
    (step : s.step hosts chunkSize (.clientSend now clock incoming) = some t) :
    t.Holds hosts conv file := by
  obtain ⟨linked, got, pending, client, accepted, server, returned⟩ := holds
  simp only [KcpTransfer.step, Option.bind_eq_some_iff] at step
  obtain ⟨c, cstep, next⟩ := step
  obtain ⟨-, m, pc, tracks⟩ := client.begin cstep
  simp only [pc, Option.bind_eq_some_iff, Option.map_eq_some_iff] at next
  obtain ⟨link, lstep, c', cstep', rfl⟩ := next
  have linked' := KcpLink.linked_step linked few lstep
  have short : (m.frame hosts.client).length ≤ kcpMaxMessage :=
    (m.length_frame_le hosts.client).trans (by decide)
  have configured : s.link.client.ctx.Configured conv := linked.1.serves.configured
  -- a file message is short enough for KCP, so `kcp_send` takes it
  have value := KcpParty.call_send_value clock incoming configured short
  have taken := KcpParty.accepted_call_send (value.symm ▸ Int.natCast_nonneg _)
  obtain rfl := KcpLink.step_client lstep
  refine ⟨linked', got, pending ++ [m], ?_, ?_, server, returned⟩
  · have tracks' := Client.tracks_step size tracks cstep'
    simpa only [Client.begins, List.append_nil, ← List.append_assoc, List.map_append,
      List.map_singleton] using tracks'
  · simp only [taken, accepted, ← List.append_assoc, List.map_append, List.map_singleton]

/-- The client's receive thread and the server's commands leave the transfer alone. -/
theorem holds_link {link : KcpLink} {label : KcpLinkLabel} (few : s.link.Few)
    (holds : s.Holds hosts conv file) (step : s.link.step label = some link)
    (accepted : link.client.accepted = s.link.client.accepted)
    (returned : link.server.returned = s.link.server.returned) :
    Holds hosts conv file { s with link := link } := by
  obtain ⟨linked, got, pending, client, accepted', server, returned'⟩ := holds
  exact ⟨KcpLink.linked_step linked few step, got, pending, client, accepted.trans accepted',
    server, returned.trans returned'⟩

theorem holds_server {event : ServerEvent} {u : Server} (holds : s.Holds hosts conv file)
    (step : s.server.step hosts.server hosts.size event = some u)
    (outside : ∀ n frame, event ≠ .recv n frame) :
    Holds hosts conv file { s with server := u } := by
  obtain ⟨linked, got, pending, client, accepted, server, returned⟩ := holds
  exact ⟨linked, got, pending, client, accepted, Server.tracks_step server step outside, returned⟩

/-- The server receives the next message of the client, or nothing. -/
theorem holds_serverRecv {clock : UInt64} {incoming : Option Datagram} (few : s.link.Few)
    (holds : s.Holds hosts conv file)
    (step : s.step hosts chunkSize (.serverRecv clock incoming) = some t) :
    t.Holds hosts conv file := by
  obtain ⟨linked, got, pending, client, accepted, server, returned⟩ := holds
  simp only [KcpTransfer.step, Option.bind_eq_some_iff, Option.map_eq_some_iff] at step
  obtain ⟨link, lstep, u, ustep, rfl⟩ := step
  have linked' := KcpLink.linked_step linked few lstep
  obtain rfl := KcpLink.step_server lstep
  simp only [Server.step] at ustep
  split at ustep
  case h_1 pc =>
    obtain rfl := Option.some.inj ustep
    simp only [Server.Tracks, pc] at server
    rcases KcpParty.call_recv_value s.link.server frameBufSize clock incoming with
      none | ⟨some_byte, value⟩
    · refine ⟨linked', got, pending, client, accepted, ?_, ?_⟩
      · exact Server.tracks_afterRecv_of_nonpos server none.le
      · exact (KcpParty.returned_call_recv_of_zero none).trans returned
    · have next := KcpParty.returned_call_recv some_byte
      -- what `kcp_recv` returns is the next of the frames the client has handed over
      have taken := linked'.2.taken
      simp only [next, returned, accepted, List.map_append] at taken
      obtain ⟨later, order⟩ := (List.prefix_append_right_inj _).mp taken
      obtain ⟨m, rest, rfl, frame, -⟩ := List.map_eq_cons_iff.mp order.symm
      refine ⟨linked', got ++ [m], rest, by simpa using client, by simpa using accepted, ?_, ?_⟩
      · rw [value, ← frame, List.map_append, List.map_singleton]
        exact Server.tracks_afterRecv_of_frame server m
      · simp only [next, returned, frame, List.map_append, List.map_singleton]
  case h_2 => exact absurd ustep (by simp)

/-- Every step keeps the invariant. -/
theorem holds_step {label : KcpTransferLabel} (size : chunkSize ≤ 65536) (few : s.link.Few)
    (holds : s.Holds hosts conv file) (step : s.step hosts chunkSize label = some t) :
    t.Holds hosts conv file := by
  cases label with
  | client event =>
    simp only [KcpTransfer.step] at step
    split at step
    case h_1 | h_2 => exact absurd step (by simp)
    case h_3 notBegin _ =>
      rw [Option.map_eq_some_iff] at step
      obtain ⟨c, cstep, rfl⟩ := step
      exact holds_client size holds cstep fun now same => notBegin now same
  | clientSend now clock incoming => exact holds_clientSend size few holds step
  | clientRecv clock incoming =>
    simp only [KcpTransfer.step, Option.map_eq_some_iff] at step
    obtain ⟨link, lstep, rfl⟩ := step
    obtain rfl := KcpLink.step_client lstep
    exact holds_link few holds lstep rfl rfl
  | server event =>
    simp only [KcpTransfer.step] at step
    split at step
    case h_1 => exact absurd step (by simp)
    case h_2 outside =>
      rw [Option.map_eq_some_iff] at step
      obtain ⟨u, ustep, rfl⟩ := step
      exact holds_server holds ustep fun n frame same => outside n frame same
  | serverSend command now clock incoming =>
    simp only [KcpTransfer.step] at step
    split at step
    case isTrue =>
      rw [Option.map_eq_some_iff] at step
      obtain ⟨link, lstep, rfl⟩ := step
      obtain rfl := KcpLink.step_server lstep
      exact holds_link few holds lstep rfl rfl
    case isFalse => exact absurd step (by simp)
  | serverRecv clock incoming => exact holds_serverRecv few holds step

/-- Fragments are only ever added. -/
theorem few_of_step {label : KcpTransferLabel} (few : t.link.Few)
    (step : s.step hosts chunkSize label = some t) : s.link.Few := by
  -- the steps that do not call KCP leave both endpoints alone
  cases label with
  | client event =>
    simp only [KcpTransfer.step] at step
    split at step
    case h_1 | h_2 => exact absurd step (by simp)
    case h_3 =>
      rw [Option.map_eq_some_iff] at step
      obtain ⟨c, -, rfl⟩ := step
      exact few
  | clientSend now clock incoming =>
    simp only [KcpTransfer.step, Option.bind_eq_some_iff] at step
    obtain ⟨c, -, next⟩ := step
    split at next
    case h_1 =>
      simp only [Option.bind_eq_some_iff, Option.map_eq_some_iff] at next
      obtain ⟨link, lstep, _, _, rfl⟩ := next
      exact KcpLink.Few.of_step few lstep
    case h_2 => exact absurd next (by simp)
  | clientRecv clock incoming =>
    simp only [KcpTransfer.step, Option.map_eq_some_iff] at step
    obtain ⟨link, lstep, rfl⟩ := step
    exact KcpLink.Few.of_step few lstep
  | server event =>
    simp only [KcpTransfer.step] at step
    split at step
    case h_1 => exact absurd step (by simp)
    case h_2 =>
      rw [Option.map_eq_some_iff] at step
      obtain ⟨u, -, rfl⟩ := step
      exact few
  | serverSend command now clock incoming =>
    simp only [KcpTransfer.step] at step
    split at step
    case isTrue =>
      rw [Option.map_eq_some_iff] at step
      obtain ⟨link, lstep, rfl⟩ := step
      exact KcpLink.Few.of_step few lstep
    case isFalse => exact absurd step (by simp)
  | serverRecv clock incoming =>
    simp only [KcpTransfer.step, Option.bind_eq_some_iff, Option.map_eq_some_iff] at step
    obtain ⟨link, lstep, _, _, rfl⟩ := step
    exact KcpLink.Few.of_step few lstep

end Steps

/-! ## The transfer theorem -/

/-- At the end of every run the output is a prefix of the file, and once
`transfer_done` is set it is the file; on both sides the frames `kcp_recv` has
returned are the front of those the other side's `kcp_send` has accepted. -/
theorem kcp_transfer {hosts : Hosts} {chunkSize : ℕ} {file : List UInt8}
    {clientEnv serverEnv : SocketEnv} {serverIp bindIp : Option String} {bindPort port : UInt16}
    {client server : KcpContext} {labels : List KcpTransferLabel} {s : KcpTransfer}
    (accepted : 1 ≤ chunkSize ∧ chunkSize ≤ 65536)
    (clientInit : kcpInit clientEnv .client none bindPort serverIp port = some client)
    (serverInit : kcpInit serverEnv .server bindIp port none 0 = some server)
    (hrun : (machine hosts chunkSize).run (start file client server) labels = some s)
    (few : s.link.Few) :
    (s.server.out <+: file ∧ (s.server.transferDone = true →
      s.server.out = file ∧ s.server.bytesWritten = UInt64.ofNat file.length)) ∧
      s.link.server.returned <+: s.link.client.accepted ∧
      s.link.client.returned <+: s.link.server.accepted := by
  have start : (start file client server).Holds hosts port.toUInt32 file :=
    holds_start hosts file (KcpContext.Serves.start clientInit) (KcpContext.Serves.start serverInit)
  -- the bound holds at the end of the run, and so at every step before
  have holds : s.link.Few → s.Holds hosts port.toUInt32 file := by
    refine (machine hosts chunkSize).run_invariant
      (I := fun s => s.link.Few → s.Holds hosts port.toUInt32 file) ?_ (fun _ => start) hrun
    intro before label after holds step few
    have earlier := few_of_step few step
    exact holds_step accepted.2 earlier (holds earlier) step
  obtain ⟨linked, got, pending, account, -, output, -⟩ := holds few
  refine ⟨output.output ?_ account.announces, linked.2.taken, linked.1.taken⟩
  rw [List.map_append]
  exact List.prefix_append _ _

/-- The frame of the one chunk, as the first data segment of the client. -/
private def tinyChunk : Datagram where
  source := ⟨40000, 0x0100007f⟩
  sourceLen := 16
  bytes := ikcpDatagram [{ ikcpSegmentNew (appFrame .little msgTypeFileChunk [7] 4) with
    conv := 9002, cmd := ikcpCmdPush, wnd := 128, ts := 5 }]

/-- The last frame, as the second data segment of the client. -/
private def tinyEnd : Datagram where
  source := ⟨40000, 0x0100007f⟩
  sourceLen := 16
  bytes := ikcpDatagram [{ ikcpSegmentNew (appFrame .little msgTypeFileEnd [] 8) with
    conv := 9002, cmd := ikcpCmdPush, wnd := 128, ts := 20, sn := 1 }]

/-- A one-byte file whose two datagrams arrive in the wrong order, the second of
them twice. -/
private def tinyTransfer : List KcpTransferLabel :=
  [.client .load, .client .load, .client (.fread 1 false false), .clientSend 4 5 none,
    .client .load, .client .load, .client (.fread 0 true false), .client .load,
    .clientSend 8 20 none, .server .load, .serverRecv 21 (some tinyEnd), .server .load,
    .serverRecv 22 (some tinyEnd), .server .load, .serverRecv 23 (some tinyChunk),
    .server (.fwrite 1), .server .load, .serverRecv 24 none]

/-- What `kcp_init` makes of port 9002 on both sides. -/
private def tinyContext (peer : SockAddrIn) : KcpContext := ⟨peer, 16, kcpConfigure 9002, 0⟩

private def tinyEnv : SocketEnv := ⟨fun _ => 0x0100007f, true, true, fun _ => true, true⟩

theorem kcp_transfer_tiny : ∃ s,
    (machine ⟨.little, .big, .bits64⟩ 1).run
      (start [7] (tinyContext ⟨9002, 0x0100007f⟩) (tinyContext ⟨0, 0⟩)) tinyTransfer = some s ∧
    s.server.transferDone = true ∧
    (s.server.out <+: [7] ∧ (s.server.transferDone = true →
      s.server.out = [7] ∧ s.server.bytesWritten = UInt64.ofNat [(7 : UInt8)].length)) ∧
    s.link.server.returned <+: s.link.client.accepted ∧
    s.link.client.returned <+: s.link.server.accepted := by
  have finished : ∃ s, (machine ⟨.little, .big, .bits64⟩ 1).run
      (start [7] (tinyContext ⟨9002, 0x0100007f⟩) (tinyContext ⟨0, 0⟩)) tinyTransfer = some s ∧
      (s.server.transferDone && decide s.link.Few) = true :=
    (Option.any_eq_true _ _).mp (by decide +kernel)
  obtain ⟨s, hrun, done⟩ := finished
  rw [Bool.and_eq_true, decide_eq_true_iff] at done
  have client : kcpInit tinyEnv .client none 0 (some "127.0.0.1") 9002 =
      some (tinyContext ⟨9002, 0x0100007f⟩) := by decide +kernel
  have server : kcpInit tinyEnv .server none 9002 none 0 = some (tinyContext ⟨0, 0⟩) := by
    decide +kernel
  exact ⟨s, hrun, done.1, kcp_transfer (by decide) client server hrun done.2⟩

end KcpTransfer

end OmniSocket
