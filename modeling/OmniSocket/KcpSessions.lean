/-
# Successive senders to one receiver

A KCP server keeps its control block while clients come and go: `omni_client` is
started again, or the relay is told the same target again. Every client is a
fresh `kcp_init` with the same conversation number, which is all that `ikcp.c`
has to tell conversations apart. Between each client and the server the network
keeps the order and loses nothing, and a client starts only after everything the
one before it sent has been returned.

Then what `kcp_recv` returns for a client is the front of what the client's
`kcp_send` has accepted, and nothing is acknowledged and then skipped, as long
as every client that has something to send finds a server that does not take the
number 0 for an old one. A server that has returned one message does.
-/

import OmniSocket.KcpFlow

set_option autoImplicit false

namespace OmniSocket

open Lib

/-- A server, its present client and the datagrams between them, oldest first. -/
structure KcpSessions where
  receiver : KcpContext
  sender : KcpContext
  /-- The address of the client's socket. -/
  address : SockAddrIn
  toReceiver : List (List UInt8)
  toSender : List (List UInt8)
  /-- The messages the client's `kcp_send` has accepted. -/
  accepted : List (List UInt8)
  /-- The messages the server's `kcp_recv` has returned since the client started. -/
  returned : List (List UInt8)
  deriving DecidableEq

/-- What happens next. In a call, `arrives` says whether the oldest datagram on its
way to the caller, if there is one, has arrived when the socket is read. -/
inductive KcpSessionsLabel
  /-- The client closes, and `kcp_init` is called for another one. -/
  | session (env : SocketEnv) (bindIp : Option String) (bindPort : UInt16) (ip : Option String)
    (address : SockAddrIn)
  /-- The client calls `kcp_send`. -/
  | send (buf : List UInt8) (now : UInt64) (arrives : Bool)
  /-- The client calls `kcp_recv`. -/
  | poll (len : ℕ) (now : UInt64) (arrives : Bool)
  /-- The server calls `kcp_recv`. -/
  | recv (len : ℕ) (now : UInt64) (arrives : Bool)
  /-- The server calls `kcp_send`. -/
  | reply (buf : List UInt8) (now : UInt64) (arrives : Bool)

namespace KcpSessions

/-- The server and the first client, as `kcp_init` returned them. -/
def start (receiver sender : KcpContext) (address : SockAddrIn) : KcpSessions where
  receiver := receiver
  sender := sender
  address := address
  toReceiver := []
  toSender := []
  accepted := []
  returned := []

/-- What is read from a socket. -/
def pending (arrives : Bool) (source : SockAddrIn) (queue : List (List UInt8)) : Option Datagram :=
  if arrives then queue.head?.map fun bytes => ⟨source, sockAddrSize, bytes⟩ else none

/-- What is left on its way after that. -/
def left (arrives : Bool) (queue : List (List UInt8)) : List (List UInt8) :=
  if arrives then queue.tail else queue

/-- The datagrams of a call that are sent to `address`. -/
def sentTo (address : SockAddrIn) (sent : List Outgoing) : List (List UInt8) :=
  (sent.filter fun out => out.target = address).map Outgoing.bytes

/-- One step, for clients that target the port `port`. What the server sends to
the address of an earlier client is lost. -/
def step (port : UInt16) (s : KcpSessions) : KcpSessionsLabel → Option KcpSessions
  | .session env bindIp bindPort ip address =>
    if s.accepted = s.returned ∧ s.toReceiver = [] then
      (kcpInit env .client bindIp bindPort ip port).map fun sender =>
        { s with
          sender := sender, address := address, toSender := [], accepted := [], returned := [] }
    else none
  | .send buf now arrives =>
    if buf ≠ [] ∧ buf.length < 2 ^ 31 then
      let (n, effects, sender) :=
        kcpSend s.sender buf now (pending arrives s.sender.peerAddr s.toSender)
      if n < 0 then some { s with sender := sender }
      else
        some
          { s with
            sender := sender
            toReceiver := s.toReceiver ++ effects.sent.map Outgoing.bytes
            toSender := left arrives s.toSender
            accepted := s.accepted ++ [buf] }
    else none
  | .poll len now arrives =>
    let (_, _, effects, sender) :=
      kcpRecv s.sender len now (pending arrives s.sender.peerAddr s.toSender)
    some
      { s with
        sender := sender
        toReceiver := s.toReceiver ++ effects.sent.map Outgoing.bytes
        toSender := left arrives s.toSender }
  | .recv len now arrives =>
    if len < 2 ^ 31 then
      let (n, message, effects, receiver) :=
        kcpRecv s.receiver len now (pending arrives s.address s.toReceiver)
      some
        { s with
          receiver := receiver
          toReceiver := left arrives s.toReceiver
          toSender := s.toSender ++ sentTo s.address effects.sent
          returned := if 0 < n then s.returned ++ [message] else s.returned }
    else none
  | .reply buf now arrives =>
    if buf.length < 2 ^ 31 then
      let (n, effects, receiver) :=
        kcpSend s.receiver buf now (pending arrives s.address s.toReceiver)
      if n < 0 then some { s with receiver := receiver }
      else
        some
          { s with
            receiver := receiver
            toReceiver := left arrives s.toReceiver
            toSender := s.toSender ++ sentTo s.address effects.sent }
    else none

/-- The machine of a server and its successive clients. -/
def machine (port : UInt16) : Machine KcpSessions KcpSessionsLabel where
  step := step port

/-- The server has returned the front of what the present client has sent, and has
every fragment of it that the client takes for acknowledged. -/
def Separate (s : KcpSessions) : Prop :=
  s.returned <+: s.accepted ∧
    ∀ i, s.sender.kcp.Acknowledged s.accepted i → s.receiver.kcp.Kept s.accepted s.returned i

/-- When a client's first message is accepted, the server does not take the number
0 for an old one. -/
def Ahead (s : KcpSessions) : KcpSessionsLabel → Prop
  | .send buf _ _ => s.accepted = [] → buf.length ≤ kcpMaxMessage →
    0 ≤ itimediff 0 s.receiver.kcp.rcvNxt
  | _ => True

/-! ## One call -/

/-- All datagrams of a call have the same target. -/
theorem sentTo_kcpOutput (address : SockAddrIn) (ctx : KcpContext)
    (datagrams : List (List UInt8)) :
    sentTo address (kcpOutput ctx datagrams) =
      if ctx.peerAddr = address then datagrams else [] := by
  split_ifs with same
  · have all : (kcpOutput ctx datagrams).filter (fun out => out.target = address) =
        kcpOutput ctx datagrams := by
      refine List.filter_eq_self.mpr fun out member => ?_
      obtain ⟨bytes, -, rfl⟩ := List.mem_map.mp member
      exact decide_eq_true same
    rw [sentTo, all, bytes_kcpOutput]
  · have none : (kcpOutput ctx datagrams).filter (fun out => out.target = address) = [] := by
      refine List.filter_eq_nil_iff.mpr fun out member => ?_
      obtain ⟨bytes, -, rfl⟩ := List.mem_map.mp member
      simpa using same
    rw [sentTo, none, List.map_nil]

/-- A datagram that fits the buffer is passed on whole. -/
theorem kcp_kcpReceive {ctx : KcpContext} {d : Datagram}
    (fits : d.bytes.length ≤ kcpRecvBufSize) :
    (kcpReceive ctx (some d)).kcp = (ikcpInput ctx.kcp d.bytes).2 := by
  have whole : d.received kcpRecvBufSize = d.bytes := List.take_of_length_le fits
  rw [kcpReceive, whole]
  split
  case isTrue => rfl
  case isFalse empty =>
    have short : d.bytes.length < ikcpOverhead := by
      rw [ikcpOverhead]
      omega
    rw [ikcpInput, if_pos short]

section Loop

variable {conv : UInt32} {g : Sliding} {f : KcpFlow}

/-- The client drives the protocol. -/
theorem loop_sender (flows : f.Flows conv g) (ctx : KcpContext) (same : f.sender = ctx.kcp)
    (now : UInt64) (arrives : Bool) (source : SockAddrIn) :
    ∃ g', KcpFlow.Flows conv g' { f with
      sender := (kcpUpdateLoop ctx now (pending arrives source f.toSender)).2.kcp
      toReceiver := f.toReceiver ++
        (kcpUpdateLoop ctx now (pending arrives source f.toSender)).1.sent.map Outgoing.bytes
      toSender := left arrives f.toSender } := by
  obtain ⟨g', updated⟩ := flows.updateSender now.toUInt32
  have sent : (kcpUpdateLoop ctx now (pending arrives source f.toSender)).1.sent.map
      Outgoing.bytes = (ikcpUpdate f.sender now.toUInt32).1 := by
    rw [same]
    exact bytes_kcpOutput ctx _
  rw [sent, kcp_kcpUpdateLoop, ← same]
  cases arrives with
  | false => exact ⟨g', updated⟩
  | true =>
    cases queue : f.toSender with
    | nil =>
      rw [queue] at updated
      exact ⟨g', updated⟩
    | cons bytes rest =>
      have reports := flows.reports
      rw [queue] at reports
      obtain ⟨e, -, report, -⟩ := List.forall₂_cons_left_iff.mp reports
      have fits : bytes.length ≤ kcpRecvBufSize := report.fits.trans (by decide)
      have read : pending true source (bytes :: rest) = some ⟨source, sockAddrSize, bytes⟩ := rfl
      rw [read, kcp_kcpReceive fits]
      exact updated.readSender queue

/-- The server drives the protocol. -/
theorem loop_receiver (flows : f.Flows conv g) (ctx : KcpContext) (same : f.receiver = ctx.kcp)
    (now : UInt64) (arrives : Bool) (address source : SockAddrIn) :
    ∃ g', KcpFlow.Flows conv g' { f with
      receiver := (kcpUpdateLoop ctx now (pending arrives source f.toReceiver)).2.kcp
      toReceiver := left arrives f.toReceiver
      toSender := f.toSender ++ sentTo address
        (kcpUpdateLoop ctx now (pending arrives source f.toReceiver)).1.sent } := by
  obtain ⟨g', updated⟩ := flows.updateReceiver now.toUInt32 (ctx.peerAddr = address)
  -- the server answers the address the last datagram came from
  have sent : sentTo address (kcpUpdateLoop ctx now (pending arrives source f.toReceiver)).1.sent =
      if ctx.peerAddr = address then (ikcpUpdate f.receiver now.toUInt32).1 else [] := by
    rw [same]
    exact sentTo_kcpOutput address ctx _
  rw [sent, kcp_kcpUpdateLoop, ← same]
  cases arrives with
  | false => exact ⟨g', updated⟩
  | true =>
    cases queue : f.toReceiver with
    | nil =>
      rw [queue] at updated
      exact ⟨g', updated⟩
    | cons bytes rest =>
      have data := flows.data
      rw [queue] at data
      obtain ⟨numbers, -, brings, -⟩ := List.forall₂_cons_left_iff.mp data
      have fits : bytes.length ≤ kcpRecvBufSize := brings.fits.trans (by decide)
      have read : pending true source (bytes :: rest) = some ⟨source, sockAddrSize, bytes⟩ := rfl
      rw [read, kcp_kcpReceive fits]
      exact updated.readReceiver queue

/-- The server drives the protocol and takes a message, if there is one. -/
theorem recv_receiver (flows : f.Flows conv g) {ctx : KcpContext} (same : f.receiver = ctx.kcp)
    {len : ℕ} (small : len < 2 ^ 31) (now : UInt64) (arrives : Bool)
    (address source : SockAddrIn) :
    ∃ g', KcpFlow.Flows conv g' { f with
      receiver := (kcpRecv ctx len now (pending arrives source f.toReceiver)).2.2.2.kcp
      toReceiver := left arrives f.toReceiver
      toSender := f.toSender ++ sentTo address
        (kcpRecv ctx len now (pending arrives source f.toReceiver)).2.2.1.sent
      returned :=
        if 0 < (kcpRecv ctx len now (pending arrives source f.toReceiver)).1 then
          f.returned ++ [(kcpRecv ctx len now (pending arrives source f.toReceiver)).2.1]
        else f.returned } := by
  obtain ⟨g', driven⟩ := loop_receiver flows ctx same now arrives address source
  have room : 0 ≤ intOfSize len := by
    rw [intOfSize_of_lt small]
    omega
  rcases driven.recvReceiver room with
    ⟨none, unchanged⟩ | ⟨message, g'', some_byte, size, taken, next⟩
  -- an error of `ikcp_recv` becomes 0 and changes nothing
  · have value : (kcpRecv ctx len now (pending arrives source f.toReceiver)).1 = 0 := if_pos none
    have block : (kcpRecv ctx len now (pending arrives source f.toReceiver)).2.2.2.kcp =
        (kcpUpdateLoop ctx now (pending arrives source f.toReceiver)).2.kcp := unchanged
    rw [if_neg value.not_gt, block]
    exact ⟨g', driven⟩
  · have positive : 0 < (message.length : ℤ) := by
      have := List.length_pos_iff.mpr some_byte
      omega
    have value : (kcpRecv ctx len now (pending arrives source f.toReceiver)).1 = message.length :=
      (if_neg (size ▸ positive.not_gt)).trans size
    have stored : (kcpRecv ctx len now (pending arrives source f.toReceiver)).2.1 = message := taken
    rw [if_pos (positive.trans_eq value.symm), stored]
    exact ⟨g'', next⟩

end Loop

/-! ## The invariant -/

/-- The control blocks and queues of the present client, after the messages `past`
of the earlier ones. -/
def flow (s : KcpSessions) (past : List (List UInt8)) : KcpFlow where
  past := past
  accepted := s.accepted
  returned := s.returned
  sender := s.sender.kcp
  receiver := s.receiver.kcp
  toReceiver := s.toReceiver
  toSender := s.toSender

/-- The server and its clients are a sliding window. -/
def Flowing (conv : UInt32) (s : KcpSessions) : Prop :=
  ∃ past g, (s.flow past).Flows conv g

/-- A fresh server and a fresh client. -/
theorem flowing_start {conv : UInt32} {receiver sender : KcpContext} (address : SockAddrIn)
    (one : receiver.kcp = kcpConfigure conv) (other : sender.kcp = kcpConfigure conv) :
    (start receiver sender address).Flowing conv := by
  refine ⟨[], Sliding.fresh, ?_⟩
  exact
    { sound := Sliding.sound_fresh 128
      base := rfl
      queued := rfl
      sender := by
        show sender.kcp.config = _
        rw [other]
        exact config_kcpConfigure conv
      receiver := by
        show receiver.kcp.config = _
        rw [one]
        exact config_kcpConfigure conv
      sends := by
        show Sends conv [] 0 [] sender.kcp
        rw [other]
        exact Sends.start conv
      collects :=
        { receives := by
            refine Receives.start ?_
            show receiver.kcp.receiving = _
            rw [one]
            rfl
          acks := by
            show receiver.kcp.acklist.map Prod.fst = []
            rw [one]
            rfl }
      taken := List.prefix_rfl
      proper := by simp [flow, start]
      data := .nil
      reports := .nil
      replies := by
        refine ⟨[], 0, [], ?_, by simp [KcpFragments]⟩
        show Sends conv [] 0 [] receiver.kcp
        rw [one]
        exact Sends.start conv }

section Steps

variable {conv : UInt32} {s t : KcpSessions} {port : UInt16}

/-- The next client. -/
theorem flowing_session {env : SocketEnv} {bindIp ip : Option String} {bindPort : UInt16}
    {address : SockAddrIn} (flowing : s.Flowing port.toUInt32)
    (step : s.step port (.session env bindIp bindPort ip address) = some t) :
    t.Flowing port.toUInt32 := by
  obtain ⟨past, g, flows⟩ := flowing
  simp only [KcpSessions.step, Option.ite_none_right_eq_some, Option.map_eq_some_iff] at step
  obtain ⟨⟨all, arrived⟩, sender, init, rfl⟩ := step
  have fresh := (kcpInit_spec init).1
  have next := flows.restart all
  refine ⟨past ++ s.returned, g.restarted, ?_⟩
  rw [flow, fresh, arrived]
  exact next

/-- A call of `kcp_send` on the client. -/
theorem flowing_send {buf : List UInt8} {now : UInt64} {arrives : Bool} (flowing : s.Flowing conv)
    (ahead : s.Ahead (.send buf now arrives))
    (step : s.step port (.send buf now arrives) = some t) : t.Flowing conv := by
  obtain ⟨past, g, flows⟩ := flowing
  simp only [KcpSessions.step, Option.ite_none_right_eq_some] at step
  obtain ⟨⟨some_byte, small⟩, step⟩ := step
  rcases kcpSend_spec (show s.sender.Configured conv from flows.sender) small now
      (pending arrives s.sender.peerAddr s.toSender) with
    ⟨long, failed⟩ | ⟨short, segs, cut, queued⟩
  · simp only [failed] at step
    rw [if_pos (show omniErrIo < 0 by decide)] at step
    obtain rfl := Option.some.inj step
    exact ⟨past, g, flows⟩
  · simp only [queued] at step
    rw [if_neg (by omega)] at step
    obtain rfl := Option.some.inj step
    obtain ⟨g', waiting⟩ := flows.queue some_byte short cut fun idle => ahead idle short
    obtain ⟨g'', driven⟩ := loop_sender waiting { s.sender with kcp := { s.sender.kcp with
      sndQueue := s.sender.kcp.sndQueue ++ segs } } rfl now arrives s.sender.peerAddr
    exact ⟨past, g'', driven⟩

/-- A call of `kcp_recv` on the client. -/
theorem flowing_poll {len : ℕ} {now : UInt64} {arrives : Bool} (flowing : s.Flowing conv)
    (step : s.step port (.poll len now arrives) = some t) : t.Flowing conv := by
  obtain ⟨past, g, flows⟩ := flowing
  obtain rfl := Option.some.inj step
  obtain ⟨g', driven⟩ := loop_sender flows s.sender rfl now arrives s.sender.peerAddr
  exact ⟨past, g', driven.recvSender (intOfSize len)⟩

/-- A call of `kcp_recv` on the server. -/
theorem flowing_recv {len : ℕ} {now : UInt64} {arrives : Bool} (flowing : s.Flowing conv)
    (step : s.step port (.recv len now arrives) = some t) : t.Flowing conv := by
  obtain ⟨past, g, flows⟩ := flowing
  simp only [KcpSessions.step, Option.ite_none_right_eq_some] at step
  obtain ⟨small, step⟩ := step
  obtain rfl := Option.some.inj step
  obtain ⟨g', taken⟩ := recv_receiver flows rfl small now arrives s.address s.address
  exact ⟨past, g', taken⟩

/-- A call of `kcp_send` on the server. -/
theorem flowing_reply {buf : List UInt8} {now : UInt64} {arrives : Bool} (flowing : s.Flowing conv)
    (step : s.step port (.reply buf now arrives) = some t) : t.Flowing conv := by
  obtain ⟨past, g, flows⟩ := flowing
  simp only [KcpSessions.step, Option.ite_none_right_eq_some] at step
  obtain ⟨small, step⟩ := step
  rcases kcpSend_spec (show s.receiver.Configured conv from flows.receiver) small now
      (pending arrives s.address s.toReceiver) with ⟨long, failed⟩ | ⟨short, segs, cut, queued⟩
  · simp only [failed] at step
    rw [if_pos (show omniErrIo < 0 by decide)] at step
    obtain rfl := Option.some.inj step
    exact ⟨past, g, flows⟩
  · simp only [queued] at step
    rw [if_neg (by omega)] at step
    obtain rfl := Option.some.inj step
    obtain ⟨g', driven⟩ := loop_receiver (flows.queueReceiver short cut)
      { s.receiver with kcp := { s.receiver.kcp with
        sndQueue := s.receiver.kcp.sndQueue ++ segs } } rfl now arrives s.address s.address
    exact ⟨past, g', driven⟩

end Steps

/-! ## The theorem -/

/-- Every step of a client that has a server ahead of it keeps the invariant. -/
theorem flowing_step {port : UInt16} {s t : KcpSessions} {label : KcpSessionsLabel}
    (flowing : s.Flowing port.toUInt32) (ahead : s.Ahead label)
    (step : s.step port label = some t) : t.Flowing port.toUInt32 := by
  cases label with
  | session env bindIp bindPort ip address => exact flowing_session flowing step
  | send buf now arrives => exact flowing_send flowing ahead step
  | poll len now arrives => exact flowing_poll flowing step
  | recv len now arrives => exact flowing_recv flowing step
  | reply buf now arrives => exact flowing_reply flowing step

/-- Sessions do not bleed into each other in any run in which the server is ahead of
every client that has something to send. -/
theorem sessions_separate {receiverEnv senderEnv : SocketEnv}
    {bindIp peerIp clientIp serverIp : Option String} {port peerPort clientPort : UInt16}
    {receiver sender : KcpContext} {address : SockAddrIn} {labels : List KcpSessionsLabel}
    {s : KcpSessions}
    (receiverInit : kcpInit receiverEnv .server bindIp port peerIp peerPort = some receiver)
    (senderInit : kcpInit senderEnv .client clientIp clientPort serverIp port = some sender)
    (ahead : (machine port).Permits Ahead (start receiver sender address) labels)
    (hrun : (machine port).run (start receiver sender address) labels = some s) :
    s.Separate := by
  have fresh : (start receiver sender address).Flowing port.toUInt32 :=
    flowing_start address (kcpInit_spec receiverInit).1 (kcpInit_spec senderInit).1
  obtain ⟨past, g, flows⟩ := (machine port).run_invariant_of_permits
    (fun s label t flowing ahead step => flowing_step flowing ahead step) fresh ahead hrun
  exact ⟨flows.returned_prefix, fun i acknowledged => flows.kept acknowledged⟩

/-- What `kcp_init` makes of port 9002, on the server and for every client. -/
private def localServer : KcpContext := ⟨⟨0, 0⟩, 16, kcpConfigure 9002, 0⟩

private def localClient : KcpContext := ⟨⟨9002, 0x0100007f⟩, 16, kcpConfigure 9002, 0⟩

private def localEnv : SocketEnv := ⟨fun _ => 0x0100007f, true, true, fun _ => true, true⟩

private theorem kcpInit_localServer :
    kcpInit localEnv .server none 9002 none 0 = some localServer := by
  decide +kernel

private theorem kcpInit_localClient :
    kcpInit localEnv .client none 0 (some "127.0.0.1") 9002 = some localClient := by
  decide +kernel

/-- A client whose only message is returned, and the start of another one. -/
private def firstSession : List KcpSessionsLabel :=
  [.send [1] 5 true, .recv 100 6 true,
    .session localEnv none 0 (some "127.0.0.1") ⟨40001, 0x0100007f⟩]

/-- Two messages of that one. Both are acknowledged at 50 ms and the
acknowledgements read at 60 ms. -/
private def secondSession : List KcpSessionsLabel :=
  [.send [2] 15 true, .send [3] 30 true, .recv 100 31 true, .recv 100 32 true, .recv 100 50 true,
    .poll 100 60 true]

/-- The first message of the second client is acknowledged and skipped. -/
theorem sessions_counterexample :
    (∃ s, (machine 9002).run (start localServer localClient ⟨40000, 0x0100007f⟩)
        (firstSession ++ secondSession) = some s ∧
      s.accepted = [[2], [3]] ∧ s.returned = [[3]] ∧ s.sender.kcp.sndBuf = []) ∧
    ¬ ∀ (receiverEnv senderEnv : SocketEnv) (bindIp peerIp clientIp serverIp : Option String)
      (port peerPort clientPort : UInt16) (receiver sender : KcpContext) (address : SockAddrIn)
      (labels : List KcpSessionsLabel) (s : KcpSessions),
      kcpInit receiverEnv .server bindIp port peerIp peerPort = some receiver →
      kcpInit senderEnv .client clientIp clientPort serverIp port = some sender →
      (machine port).run (start receiver sender address) labels = some s → s.Separate := by
  have finished : ∃ s, (machine 9002).run (start localServer localClient ⟨40000, 0x0100007f⟩)
      (firstSession ++ secondSession) = some s ∧
      (decide (s.accepted = [[2], [3]]) && decide (s.returned = [[3]]) &&
        decide (s.sender.kcp.sndBuf = [])) = true :=
    (Option.any_eq_true _ _).mp (by decide +kernel)
  obtain ⟨s, hrun, facts⟩ := finished
  simp only [Bool.and_eq_true, decide_eq_true_iff] at facts
  obtain ⟨⟨accepted, returned⟩, empty⟩ := facts
  refine ⟨⟨s, hrun, accepted, returned, empty⟩, fun always => ?_⟩
  have separate := always _ _ _ _ _ _ _ _ _ _ _ _ _ _ kcpInit_localServer kcpInit_localClient hrun
  have inOrder := separate.1
  rw [accepted, returned] at inOrder
  exact absurd inOrder (by decide)

/-- The second client only polls. -/
theorem sessions_separate_poll : ∃ s,
    (machine 9002).run (start localServer localClient ⟨40000, 0x0100007f⟩)
      (firstSession ++ [.poll 100 15 true]) = some s ∧ s.Separate := by
  have finished : ∃ s, (machine 9002).run (start localServer localClient ⟨40000, 0x0100007f⟩)
      (firstSession ++ [.poll 100 15 true]) = some s ∧ true = true :=
    (Option.any_eq_true _ _).mp (by decide +kernel)
  obtain ⟨s, hrun, -⟩ := finished
  have ahead : (machine 9002).Permits Ahead (start localServer localClient ⟨40000, 0x0100007f⟩)
      (firstSession ++ [.poll 100 15 true]) := by
    refine ⟨fun _ _ => ?_, fun _ _ => ⟨trivial, fun _ _ => ⟨trivial, fun _ _ =>
      ⟨trivial, fun _ _ => trivial⟩⟩⟩⟩
    decide
  exact ⟨s, hrun, sessions_separate kcpInit_localServer kcpInit_localClient ahead hrun⟩

end KcpSessions

end OmniSocket
