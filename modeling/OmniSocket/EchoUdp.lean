/-
# The test program over UDP

Over UDP the server has no session: it echoes to whoever it has heard from last. Here it
serves any number of clients, on a network that loses, repeats and reorders datagrams. It
echoes each message before it receives the next, so every echo goes back to the client
that sent the message. A datagram that is repeated makes a later echo late: the echo taken
for a round may be that of an earlier one. No client gets the port of another that has
finished, for then it could be sent an echo of that one's.
-/

import Mathlib.Logic.Function.Basic
import OmniSocket.App.Echo
import OmniSocket.Lib.Machine
import OmniSocket.Udp

set_option autoImplicit false

namespace OmniSocket

open Lib

/-- The clients, each at the address its socket has, and the server. An address belongs to one
client for the whole run: no port is used again. -/
structure EchoUdp where
  clients : SockAddrIn → EchoClient
  contexts : SockAddrIn → UdpContext
  server : EchoServer
  context : UdpContext
  /-- Every datagram that has been sent, with its source. -/
  net : List (SockAddrIn × Outgoing)

/-- Who moves next, and what its system call returns. -/
inductive EchoUdpLabel
  /-- The client at `addr` reads its clock, and calls `omni_send` if there is another
  round. -/
  | round (addr : SockAddrIn) (now : UInt64) (r : SendtoResult)
  /-- `omni_recv` of the client at `addr`. -/
  | poll (addr : SockAddrIn) (r : RecvfromResult)
  /-- `omni_recv` of the server. -/
  | serverPoll (r : RecvfromResult)
  /-- `omni_send` of the server. -/
  | echo (r : SendtoResult)
  deriving DecidableEq, Repr

namespace EchoUdp

/-- What `recvfrom` can return at `addr`: a datagram that was sent there, whenever that was
and however often it has come already, or a failure. -/
def Reaches (net : List (SockAddrIn × Outgoing)) (addr : SockAddrIn) : RecvfromResult → Prop
  | .datagram d => ∃ p ∈ net, p.2.target = addr ∧ d = ⟨p.1, sockAddrSize, p.2.bytes⟩
  | .eintr | .error => True

instance (net : List (SockAddrIn × Outgoing)) (addr : SockAddrIn) (r : RecvfromResult) :
    Decidable (Reaches net addr r) := by
  cases r <;> unfold Reaches <;> infer_instance

/-- The network after a `sendto`. One that fails sends nothing. -/
def put (net : List (SockAddrIn × Outgoing)) (addr : SockAddrIn) (out : Outgoing) :
    SendtoResult → List (SockAddrIn × Outgoing)
  | some _ => net ++ [(addr, out)]
  | none => net

/-- Clients and server with their contexts. -/
def start (contexts : SockAddrIn → UdpContext) (context : UdpContext) : EchoUdp where
  clients := fun _ => .start .udp
  contexts := contexts
  server := .start .udp
  context := context
  net := []

/-- One step of the machine. The server is at the address `host`, and no client is. -/
def step (host : SockAddrIn) (s : EchoUdp) : EchoUdpLabel → Option EchoUdp
  | .round addr now r =>
    if addr = host then none
    else
      ((s.clients addr).step (.clock now)).bind fun c =>
        match c.calling with
        | some msg =>
          let call := udpSend (s.contexts addr) msg r
          (c.step (.sent call.1)).map fun c =>
            { s with
              clients := Function.update s.clients addr c
              net := put s.net addr call.2 r }
        | none => some { s with clients := Function.update s.clients addr c }
  | .poll addr r =>
    if addr ≠ host ∧ Reaches s.net addr r then
      let call := udpRecv (s.contexts addr) testRecvSize r
      ((s.clients addr).step (.recv call.1 call.2.1)).map fun c =>
        { s with
          clients := Function.update s.clients addr c
          contexts := Function.update s.contexts addr call.2.2 }
    else none
  | .serverPoll r =>
    if Reaches s.net host r then
      let call := udpRecv s.context testRecvSize r
      (s.server.step (.recv call.1 call.2.1)).map fun t =>
        { s with server := t, context := call.2.2 }
    else none
  | .echo r =>
    match s.server.calling with
    | some msg =>
      let call := udpSend s.context msg r
      (s.server.step (.sent call.1)).map fun t =>
        { s with server := t, net := put s.net host call.2 r }
    | none => none

/-- The machine of all the programs. -/
def machine (host : SockAddrIn) : Machine EchoUdp EchoUdpLabel where
  step := step host

/-! ## One client -/

/-- The client has sent as many messages as it has taken echoes, or one more, and every
echo is one of its own messages, of this round or an earlier one. -/
structure Rounds (c : EchoClient) : Prop where
  numbers : c.Numbers
  idle : c.pc = .loopTest → c.sent.length = c.replies.length
  ahead : c.sent.length ≤ c.replies.length + 1
  waits : c.pc = .receiving → c.sent.length = c.replies.length + 1
  replies : ∀ (k : ℕ) (p : ℕ × List UInt8), c.replies[k]? = some p →
    p.1 = k ∧ ∃ i now, i ≤ k ∧ c.sent[i]? = some (i, p.2) ∧ p.2 = testMessage i now

section Client

variable {c : EchoClient}

theorem rounds_start : Rounds (.start .udp) where
  numbers := ⟨rfl, by simp [EchoClient.start]⟩
  idle := fun _ => rfl
  ahead := Nat.zero_le _
  waits := by simp [EchoClient.start]
  replies := by simp [EchoClient.start]

/-- A client that has left the loop has the messages and echoes it had. -/
theorem Rounds.done (rounds : Rounds c) : Rounds { c with pc := .done } where
  numbers := ⟨rounds.numbers.counter, rounds.numbers.sent⟩
  idle := by simp
  ahead := rounds.ahead
  waits := by simp
  replies := rounds.replies

/-- A new message is one more than there are echoes. -/
theorem Rounds.round {pc : EchoClientPc} (now : UInt64) (rounds : Rounds c)
    (idle : c.pc = .loopTest) (round : c.i < testRounds) (left : pc ≠ .loopTest) :
    Rounds { c with pc := pc, sent := c.sent ++ [(c.i, testMessage c.i now)] } := by
  have answered := rounds.idle idle
  have more : (c.sent ++ [(c.i, testMessage c.i now)]).length = c.replies.length + 1 := by
    rw [List.length_append, answered]
    rfl
  refine ⟨rounds.numbers.round answered round, fun test => absurd test left, more.le,
    fun _ => more, ?_⟩
  intro k p found
  obtain ⟨number, i, now', early, at_i, text⟩ := rounds.replies k p found
  refine ⟨number, i, now', early, ?_, text⟩
  exact (List.getElem?_append_left (List.getElem?_eq_some_iff.mp at_i).1).trans at_i

/-- A message of the client is one of its rounds. -/
theorem Rounds.own {msg : List UInt8} (rounds : Rounds c) (own : msg ∈ c.sent.map Prod.snd) :
    ∃ i now, c.sent[i]? = some (i, msg) ∧ i < testRounds ∧ msg = testMessage i now := by
  obtain ⟨p, member, rfl⟩ := List.mem_map.mp own
  obtain ⟨i, at_i⟩ := List.mem_iff_getElem?.mp member
  obtain ⟨number, round, now, text⟩ := rounds.numbers.sent i p at_i
  obtain ⟨k, msg⟩ := p
  obtain rfl : k = i := number
  exact ⟨k, now, at_i, round, text⟩

/-- The buffers have room for it. -/
theorem Rounds.fits {msg : List UInt8} (rounds : Rounds c) (own : msg ∈ c.sent.map Prod.snd) :
    msg.length ≤ testRecvSize := by
  obtain ⟨i, now, -, round, rfl⟩ := rounds.own own
  exact (length_testMessage_lt round now).le.trans (by decide)

/-- The echo of any of its messages is taken for the round. -/
theorem Rounds.reply {msg : List UInt8} (rounds : Rounds c) (waiting : c.pc = .receiving)
    (own : msg ∈ c.sent.map Prod.snd) :
    Rounds { c with pc := .loopTest, i := c.i + 1, replies := c.replies ++ [(c.i, msg)] } := by
  have one := rounds.waits waiting
  have more : (c.replies ++ [(c.i, msg)]).length = c.replies.length + 1 := List.length_append
  refine ⟨rounds.numbers.reply, fun _ => one.trans more.symm, ?_, by simp, ?_⟩
  · show c.sent.length ≤ (c.replies ++ [(c.i, msg)]).length + 1
    omega
  · obtain ⟨i, now, at_i, -, text⟩ := rounds.own own
    have early : i < c.sent.length := (List.getElem?_eq_some_iff.mp at_i).1
    exact forall_getElem?_concat rounds.replies
      ⟨rounds.numbers.counter, i, now, by omega, at_i, text⟩

end Client

/-! ## The invariant -/

/-- A datagram is a message of the client that sent it, on its way to the server, or the
server's echo of a message of the client it is for. -/
def Genuine (host : SockAddrIn) (clients : SockAddrIn → EchoClient)
    (p : SockAddrIn × Outgoing) : Prop :=
  (p.1 ≠ host ∧ p.2.target = host ∧ p.2.bytes ∈ (clients p.1).sent.map Prod.snd) ∨
    (p.1 = host ∧ p.2.target ≠ host ∧ p.2.bytes ∈ (clients p.2.target).sent.map Prod.snd)

/-- Clients send to the server only, and the message the server holds is one of the client
it will send it to. -/
structure Holds (host : SockAddrIn) (s : EchoUdp) : Prop where
  udp : (∀ addr, (s.clients addr).proto = .udp) ∧ s.server.proto = .udp
  peers : ∀ addr, (s.contexts addr).peerAddr = host
  rounds : ∀ addr, Rounds (s.clients addr)
  net : ∀ p ∈ s.net, Genuine host s.clients p
  held : ∀ msg, s.server.calling = some msg → s.context.peerAddr ≠ host ∧
    msg ∈ (s.clients s.context.peerAddr).sent.map Prod.snd

theorem holds_start {host : SockAddrIn} {contexts : SockAddrIn → UdpContext}
    (peers : ∀ addr, (contexts addr).peerAddr = host) (context : UdpContext) :
    (start contexts context).Holds host where
  udp := ⟨fun _ => rfl, rfl⟩
  peers := peers
  rounds := fun _ => rounds_start
  net := by simp [start]
  held := by simp [start, EchoServer.start, EchoServer.calling]

/-! ## What each step preserves -/

section Steps

variable {host addr : SockAddrIn} {s t : EchoUdp}

/-- More messages of the clients leave a datagram genuine. -/
theorem Genuine.mono {clients clients' : SockAddrIn → EchoClient} {p : SockAddrIn × Outgoing}
    (more : ∀ addr, (clients addr).sent <+: (clients' addr).sent)
    (genuine : Genuine host clients p) : Genuine host clients' p := by
  refine genuine.imp ?_ ?_
  · exact And.imp_right (And.imp_right fun own => ((more _).map Prod.snd).subset own)
  · exact And.imp_right (And.imp_right fun own => ((more _).map Prod.snd).subset own)

/-- A step of one client. -/
theorem Holds.client {c : EchoClient} (holds : s.Holds host) (rounds : Rounds c)
    (udp : c.proto = .udp) (more : (s.clients addr).sent <+: c.sent) :
    Holds host { s with clients := Function.update s.clients addr c } := by
  have all : ∀ other,
      (s.clients other).sent <+: (Function.update s.clients addr c other).sent := by
    intro other
    by_cases same : other = addr
    · subst same
      rw [Function.update_self]
      exact more
    · rw [Function.update_of_ne same]
  refine ⟨⟨?_, holds.udp.2⟩, holds.peers, ?_, fun p sent => (holds.net p sent).mono all, ?_⟩
  · exact (Function.forall_update_iff s.clients fun _ (c : EchoClient) => c.proto = .udp).mpr
      ⟨udp, fun other _ => holds.udp.1 other⟩
  · exact (Function.forall_update_iff s.clients fun _ c => Rounds c).mpr
      ⟨rounds, fun other _ => holds.rounds other⟩
  · intro msg calling
    obtain ⟨away, own⟩ := holds.held msg calling
    exact ⟨away, ((all _).map Prod.snd).subset own⟩

/-- A client that receives nothing leaves its loop. -/
theorem Holds.stop {m : ℤ} {buf : List UInt8} (holds : s.Holds host) (none : m ≤ 0) :
    Holds host { s with
      clients := Function.update s.clients addr ((s.clients addr).afterRecv m buf) } := by
  rw [EchoClient.afterRecv_of_nonpos (by simp [holds.udp.1 addr]) none]
  exact holds.client (holds.rounds addr).done (holds.udp.1 addr) List.prefix_rfl

/-- A client that has heard from the server still sends to it. -/
theorem Holds.context {ctx : UdpContext} (holds : s.Holds host) (peer : ctx.peerAddr = host) :
    Holds host { s with contexts := Function.update s.contexts addr ctx } := by
  refine ⟨holds.udp, ?_, holds.rounds, holds.net, holds.held⟩
  exact (Function.forall_update_iff s.contexts fun _ (ctx : UdpContext) =>
    ctx.peerAddr = host).mpr ⟨peer, fun other _ => holds.peers other⟩

/-- A server that receives nothing leaves its loop. -/
theorem Holds.serverStop {n : ℤ} {buf : List UInt8} {ctx : UdpContext} (holds : s.Holds host)
    (none : n ≤ 0) :
    Holds host { s with server := s.server.afterRecv n buf, context := ctx } := by
  rw [EchoServer.afterRecv_of_nonpos (by simp [holds.udp.2]) none]
  exact ⟨holds.udp, holds.peers, holds.rounds, holds.net, by simp [EchoServer.calling]⟩

/-- A datagram is sent, or not. -/
theorem Holds.put {out : Outgoing} (holds : s.Holds host) (r : SendtoResult)
    (genuine : Genuine host s.clients (addr, out)) :
    Holds host { s with net := EchoUdp.put s.net addr out r } := by
  refine ⟨holds.udp, holds.peers, holds.rounds, ?_, holds.held⟩
  intro p sent
  cases r with
  | none => exact holds.net p sent
  | some n =>
    rcases List.mem_append.mp sent with old | new
    · exact holds.net p old
    · exact List.mem_singleton.mp new ▸ genuine

/-- What a client receives is an echo of one of its own messages. -/
theorem Holds.reaches_client {d : Datagram} (holds : s.Holds host) (away : addr ≠ host)
    (reaches : Reaches s.net addr (.datagram d)) :
    d.source = host ∧ d.bytes ∈ (s.clients addr).sent.map Prod.snd := by
  obtain ⟨p, sent, rfl, rfl⟩ := reaches
  rcases holds.net p sent with ⟨-, target, -⟩ | ⟨source, -, own⟩
  · exact absurd target away
  · exact ⟨source, own⟩

/-- What the server receives is a message of the client it comes from. -/
theorem Holds.reaches_server {d : Datagram} (holds : s.Holds host)
    (reaches : Reaches s.net host (.datagram d)) :
    d.source ≠ host ∧ d.bytes ∈ (s.clients d.source).sent.map Prod.snd := by
  obtain ⟨p, sent, target, rfl⟩ := reaches
  rcases holds.net p sent with ⟨source, -, own⟩ | ⟨-, away, -⟩
  · exact ⟨source, own⟩
  · exact absurd target away

theorem holds_round {now : UInt64} {r : SendtoResult} (holds : s.Holds host)
    (step : s.step host (.round addr now r) = some t) : t.Holds host := by
  obtain ⟨away, step⟩ := Option.ite_none_left_eq_some.mp step
  obtain ⟨c, cstep, next⟩ := Option.bind_eq_some_iff.mp step
  obtain ⟨idle, ⟨round, rfl⟩ | rfl⟩ := EchoClient.step_clock cstep
  · obtain ⟨c', cstep', rfl⟩ := Option.map_eq_some_iff.mp next
    obtain ⟨-, rfl⟩ := EchoClient.step_sent cstep'
    have left : (if (udpSend (s.contexts addr) (testMessage (s.clients addr).i now) r).1 ≤ 0
        then EchoClientPc.done else .receiving) ≠ .loopTest := by
      split_ifs <;> exact EchoClientPc.noConfusion
    have rounds := (holds.rounds addr).round now idle round left
    have after := holds.client rounds (holds.udp.1 addr) (List.prefix_append _ _)
    refine after.put r (.inl ⟨away, holds.peers addr, ?_⟩)
    simp [udpSend]
  · obtain rfl := Option.some.inj next
    exact holds.client (holds.rounds addr).done (holds.udp.1 addr) List.prefix_rfl

/-- The client takes an echo, or leaves its loop. -/
theorem holds_poll {r : RecvfromResult} (holds : s.Holds host)
    (step : s.step host (.poll addr r) = some t) : t.Holds host := by
  obtain ⟨⟨away, reaches⟩, step⟩ := Option.ite_none_right_eq_some.mp step
  obtain ⟨c, cstep, rfl⟩ := Option.map_eq_some_iff.mp step
  obtain ⟨waiting, rfl⟩ := EchoClient.step_recv cstep
  cases r with
  | datagram d =>
    obtain ⟨source, own⟩ := holds.reaches_client away reaches
    have whole : d.received testRecvSize = d.bytes :=
      List.take_of_length_le ((holds.rounds addr).fits own)
    have after : Holds host { s with
        clients := Function.update s.clients addr
          ((s.clients addr).afterRecv d.bytes.length d.bytes) } := by
      by_cases some_byte : 0 < (d.bytes.length : ℤ)
      · rw [EchoClient.afterRecv_of_whole some_byte rfl]
        exact holds.client ((holds.rounds addr).reply waiting own) (holds.udp.1 addr)
          List.prefix_rfl
      · exact holds.stop (not_lt.mp some_byte)
    simp only [udpRecv, whole]
    exact after.context source
  | eintr => exact (holds.stop le_rfl).context (holds.peers addr)
  | error => exact (holds.stop (by decide : omniErrIo ≤ 0)).context (holds.peers addr)

/-- The server takes a message, and its peer is now the client it comes from. -/
theorem holds_serverPoll {r : RecvfromResult} (holds : s.Holds host)
    (step : s.step host (.serverPoll r) = some t) : t.Holds host := by
  obtain ⟨reaches, step⟩ := Option.ite_none_right_eq_some.mp step
  obtain ⟨u, ustep, rfl⟩ := Option.map_eq_some_iff.mp step
  obtain ⟨-, rfl⟩ := EchoServer.step_recv ustep
  cases r with
  | datagram d =>
    obtain ⟨source, own⟩ := holds.reaches_server reaches
    have whole : d.received testRecvSize = d.bytes :=
      List.take_of_length_le ((holds.rounds d.source).fits own)
    simp only [udpRecv, whole]
    by_cases some_byte : 0 < (d.bytes.length : ℤ)
    · rw [EchoServer.afterRecv_of_whole some_byte rfl]
      refine ⟨holds.udp, holds.peers, holds.rounds, holds.net, fun msg calling => ?_⟩
      obtain rfl := Option.some.inj calling
      exact ⟨source, own⟩
    · exact holds.serverStop (not_lt.mp some_byte)
  | eintr => exact holds.serverStop le_rfl
  | error => exact holds.serverStop (by decide : omniErrIo ≤ 0)

/-- The server's peer is still the client whose message it holds. -/
theorem holds_echo {r : SendtoResult} (holds : s.Holds host)
    (step : s.step host (.echo r) = some t) : t.Holds host := by
  simp only [EchoUdp.step] at step
  split at step
  case h_1 msg calling =>
    obtain ⟨u, ustep, rfl⟩ := Option.map_eq_some_iff.mp step
    obtain ⟨-, rfl⟩ := EchoServer.step_sent ustep
    obtain ⟨away, own⟩ := holds.held msg calling
    have after : Holds host { s with server := { s.server with pc := .receiving } } :=
      ⟨holds.udp, holds.peers, holds.rounds, holds.net, by simp [EchoServer.calling]⟩
    exact after.put r (.inr ⟨rfl, away, own⟩)
  case h_2 => exact absurd step (by simp)

/-- Every step keeps the invariant. -/
theorem holds_step {label : EchoUdpLabel} (holds : s.Holds host)
    (step : s.step host label = some t) : t.Holds host := by
  cases label with
  | round addr now r => exact holds_round holds step
  | poll addr r => exact holds_poll holds step
  | serverPoll r => exact holds_serverPoll holds step
  | echo r => exact holds_echo holds step

end Steps

/-! ## Every run -/

/-- In every run a client is at most one message ahead of its echoes, and the echo it takes
for a round is its own message of this round or an earlier one, whatever the other clients
send. -/
theorem echo_udp_own {host : SockAddrIn} {contexts : SockAddrIn → UdpContext}
    {context : UdpContext} {labels : List EchoUdpLabel} {s : EchoUdp}
    (clientInit : ∀ addr, ∃ env ip port, udpInit env none 0 (some ip) port =
      some (contexts addr) ∧ env.address (some ip) port = host)
    (hrun : (machine host).run (start contexts context) labels = some s) (addr : SockAddrIn) :
    (s.clients addr).sent.length ≤ (s.clients addr).replies.length + 1 ∧
      ∀ k reply, (s.clients addr).replies[k]? = some reply → reply.1 = k ∧
        ∃ i now, i ≤ k ∧ (s.clients addr).sent[i]? = some (i, reply.2) ∧
          reply.2 = testMessage i now := by
  have peers : ∀ addr, (contexts addr).peerAddr = host := by
    intro addr
    obtain ⟨env, ip, port, opened, resolved⟩ := clientInit addr
    obtain ⟨-, same⟩ := Option.ite_none_right_eq_some.mp opened
    rw [← Option.some.inj same, ← resolved]
  have holds : s.Holds host := by
    refine (machine host).run_invariant (I := fun s => s.Holds host) ?_
      (holds_start peers context) hrun
    intro before label after holds step
    exact holds_step holds step
  exact ⟨(holds.rounds addr).ahead, (holds.rounds addr).replies⟩

/-- Two clients. The first one's message comes twice, and the second echo is taken for its
next round. -/
private def repeatedMessage : List EchoUdpLabel :=
  let host : SockAddrIn := ⟨9001, 0x0100007f⟩
  let first : SockAddrIn := ⟨40000, 0x0100007f⟩
  let second : SockAddrIn := ⟨40001, 0x0100007f⟩
  let sentBy (addr : SockAddrIn) (now : UInt64) : RecvfromResult :=
    .datagram ⟨addr, 16, testMessage 0 now⟩
  [.round first 7 (some 33), .round second 8 (some 33),
    .serverPoll (sentBy first 7), .echo (some 33), .serverPoll (sentBy second 8), .echo (some 33),
    .serverPoll (sentBy first 7), .echo (some 33),
    .poll first (sentBy host 7), .round first 9 (some 33), .poll first (sentBy host 7),
    .poll second (sentBy host 8)]

theorem echo_udp_own_repeated : ∃ s,
    (machine ⟨9001, 0x0100007f⟩).run
      (start (fun _ => ⟨⟨9001, 0x0100007f⟩, 16⟩) ⟨⟨0, 0⟩, 16⟩) repeatedMessage = some s ∧
    (s.clients ⟨40000, 0x0100007f⟩).replies = [(0, testMessage 0 7), (1, testMessage 0 7)] ∧
    (s.clients ⟨40001, 0x0100007f⟩).replies = [(0, testMessage 0 8)] ∧
    ∀ addr, (s.clients addr).sent.length ≤ (s.clients addr).replies.length + 1 ∧
      ∀ k reply, (s.clients addr).replies[k]? = some reply → reply.1 = k ∧
        ∃ i now, i ≤ k ∧ (s.clients addr).sent[i]? = some (i, reply.2) ∧
          reply.2 = testMessage i now := by
  have ends : ∃ s, (machine ⟨9001, 0x0100007f⟩).run
      (start (fun _ => ⟨⟨9001, 0x0100007f⟩, 16⟩) ⟨⟨0, 0⟩, 16⟩) repeatedMessage = some s ∧
      decide ((s.clients ⟨40000, 0x0100007f⟩).replies =
          [(0, testMessage 0 7), (1, testMessage 0 7)] ∧
        (s.clients ⟨40001, 0x0100007f⟩).replies = [(0, testMessage 0 8)]) = true :=
    (Option.any_eq_true _ _).mp (by decide +kernel)
  obtain ⟨s, hrun, facts⟩ := ends
  obtain ⟨late, other⟩ := of_decide_eq_true facts
  refine ⟨s, hrun, late, other, fun addr => echo_udp_own (fun _ => ?_) hrun addr⟩
  exact ⟨⟨fun _ => 0x0100007f, true, true, fun _ => true, true⟩, "127.0.0.1", 9001,
    by decide +kernel, by decide +kernel⟩

end EchoUdp

end OmniSocket
