/-
# The test program over KCP

A client that finds no echo yet sends another message for the same round, so messages are
ahead of the echoes, and the echo taken for a round may be that of an earlier one. What
stays true is that the echoes are the messages, in the order in which they were sent.
-/

import OmniSocket.App.Echo
import OmniSocket.KcpStream

set_option autoImplicit false

namespace OmniSocket

open Lib

/-- The two programs and their two KCP endpoints. -/
structure EchoKcp where
  client : EchoClient
  server : EchoServer
  link : KcpLink
  deriving DecidableEq, Repr

/-- What can happen next. Every call reads the clock and may read a datagram. -/
inductive EchoKcpLabel
  /-- The client reads its clock, and calls `omni_send` if there is another round. -/
  | round (now clock : UInt64) (incoming : Option Datagram)
  /-- `omni_recv` of the client. -/
  | poll (clock : UInt64) (incoming : Option Datagram)
  /-- `omni_recv` of the server. -/
  | serverPoll (clock : UInt64) (incoming : Option Datagram)
  /-- `omni_send` of the server. -/
  | echo (clock : UInt64) (incoming : Option Datagram)
  deriving DecidableEq, Repr

namespace EchoKcp

/-- Both programs on fresh endpoints. -/
def start (client server : KcpContext) : EchoKcp where
  client := .start .kcp
  server := .start .kcp
  link := .start client server

/-- One step of the machine. -/
def step (s : EchoKcp) : EchoKcpLabel → Option EchoKcp
  | .round now clock incoming =>
    (s.client.step (.clock now)).bind fun c =>
      match c.calling with
      | some msg =>
        let call := KcpCall.send msg clock incoming
        (s.link.step (.client call)).bind fun link =>
          (c.step (.sent (s.link.client.call call).1.value)).map fun c =>
            { s with client := c, link := link }
      | none => some { s with client := c }
  | .poll clock incoming =>
    let call := KcpCall.recv testRecvSize clock incoming
    (s.link.step (.client call)).bind fun link =>
      let reply := (s.link.client.call call).1
      (s.client.step (.recv reply.value reply.stored)).map fun c =>
        { s with client := c, link := link }
  | .serverPoll clock incoming =>
    let call := KcpCall.recv testRecvSize clock incoming
    (s.link.step (.server call)).bind fun link =>
      let reply := (s.link.server.call call).1
      (s.server.step (.recv reply.value reply.stored)).map fun t =>
        { s with server := t, link := link }
  | .echo clock incoming =>
    match s.server.calling with
    | some msg =>
      let call := KcpCall.send msg clock incoming
      (s.link.step (.server call)).bind fun link =>
        (s.server.step (.sent (s.link.server.call call).1.value)).map fun t =>
          { s with server := t, link := link }
    | none => none

/-- The machine of the two programs. -/
def machine : Machine EchoKcp EchoKcpLabel where
  step := step

/-! ## The invariant -/

/-- The counter has counted the echoes, and no message is of a later round than its place
among the messages. -/
structure Counts (c : EchoClient) : Prop where
  counter : c.i = c.replies.length
  replies : ∀ (k : ℕ) (p : ℕ × List UInt8), c.replies[k]? = some p → p.1 = k
  sent : ∀ (k : ℕ) (p : ℕ × List UInt8), c.sent[k]? = some p →
    p.1 ≤ k ∧ ∃ now, p.2 = testMessage p.1 now

/-- What KCP has taken from the programs and returned to them. -/
structure Holds (conv : UInt32) (s : EchoKcp) : Prop where
  kcp : s.client.proto = .kcp ∧ s.server.proto = .kcp
  linked : KcpParty.Linked conv s.link.client s.link.server
  counts : Counts s.client
  sent : s.link.client.accepted = s.client.sent.map Prod.snd
  replies : s.link.client.returned = s.client.replies.map Prod.snd
  echoed : s.link.server.returned = s.link.server.accepted ++ s.server.calling.toList

theorem holds_start {conv : UInt32} {client server : KcpContext}
    (one : client.Serves conv [] [] []) (other : server.Serves conv [] [] []) :
    (start client server).Holds conv where
  kcp := ⟨rfl, rfl⟩
  linked := KcpParty.linked_fresh one other
  counts := ⟨rfl, by simp [start, EchoClient.start], by simp [start, EchoClient.start]⟩
  sent := rfl
  replies := rfl
  echoed := rfl

/-! ## What each step preserves -/

section Steps

variable {conv : UInt32} {s t : EchoKcp}

/-- The echoes are the first of the messages. -/
theorem Holds.replies_prefix (holds : s.Holds conv) :
    s.client.replies.map Prod.snd <+: s.client.sent.map Prod.snd := by
  have back := holds.linked.1.taken
  have forth := holds.linked.2.taken
  rw [holds.echoed, holds.sent] at forth
  rw [holds.replies] at back
  exact back.trans ((List.prefix_append _ _).trans forth)

/-- A new message is of a round that is not after its place. -/
theorem Counts.round {c : EchoClient} {pc : EchoClientPc} {now : UInt64} (counts : Counts c)
    (ahead : c.replies.length ≤ c.sent.length) :
    Counts { c with pc := pc, sent := c.sent ++ [(c.i, testMessage c.i now)] } where
  counter := counts.counter
  replies := counts.replies
  sent := forall_getElem?_concat counts.sent ⟨counts.counter.trans_le ahead, now, rfl⟩

/-- The next echo is taken for the next round. -/
theorem Counts.reply {c : EchoClient} {msg : List UInt8} (counts : Counts c) :
    Counts { c with pc := .loopTest, i := c.i + 1, replies := c.replies ++ [(c.i, msg)] } where
  counter := by
    show c.i + 1 = (c.replies ++ [(c.i, msg)]).length
    rw [counts.counter, List.length_append]
    rfl
  replies := forall_getElem?_concat counts.replies counts.counter
  sent := counts.sent

theorem holds_round {now clock : UInt64} {incoming : Option Datagram} (few : s.link.Few)
    (holds : s.Holds conv) (step : s.step (.round now clock incoming) = some t) :
    t.Holds conv := by
  obtain ⟨c, cstep, next⟩ := Option.bind_eq_some_iff.mp step
  obtain ⟨pc, ⟨round, rfl⟩ | rfl⟩ := EchoClient.step_clock cstep
  · obtain ⟨link, lstep, after⟩ := Option.bind_eq_some_iff.mp next
    obtain ⟨c', cstep', rfl⟩ := Option.map_eq_some_iff.mp after
    have linked := KcpLink.linked_step holds.linked few lstep
    obtain rfl := KcpLink.step_client lstep
    have short : (testMessage s.client.i now).length ≤ kcpMaxMessage :=
      (length_testMessage_lt round now).le.trans (by decide)
    -- a message of the test is short enough for KCP, so `kcp_send` takes it
    have value := KcpParty.call_send_value clock incoming holds.linked.1.serves.configured short
    have taken := KcpParty.accepted_call_send (value.symm ▸ Int.natCast_nonneg _)
    obtain rfl := Option.some.inj cstep'
    have ahead : s.client.replies.length ≤ s.client.sent.length := by
      simpa using holds.replies_prefix.length_le
    refine ⟨holds.kcp, linked, holds.counts.round ahead, ?_, ?_, holds.echoed⟩
    · simp only [taken, holds.sent, List.map_append, List.map_singleton]
    · rw [KcpParty.returned_call_send, holds.replies]
  · obtain rfl := Option.some.inj next
    exact ⟨holds.kcp, holds.linked, ⟨holds.counts.counter, holds.counts.replies, holds.counts.sent⟩,
      holds.sent, holds.replies, holds.echoed⟩

/-- The client takes the next echo, or finds none. -/
theorem holds_poll {clock : UInt64} {incoming : Option Datagram} (few : s.link.Few)
    (holds : s.Holds conv) (step : s.step (.poll clock incoming) = some t) : t.Holds conv := by
  obtain ⟨link, lstep, next⟩ := Option.bind_eq_some_iff.mp step
  obtain ⟨c, cstep, rfl⟩ := Option.map_eq_some_iff.mp next
  have linked := KcpLink.linked_step holds.linked few lstep
  obtain rfl := KcpLink.step_client lstep
  obtain ⟨pc, rfl⟩ := EchoClient.step_recv cstep
  rcases KcpParty.call_recv_value s.link.client testRecvSize clock incoming with
    none | ⟨some_byte, value⟩
  · have same := KcpParty.returned_call_recv_of_zero none
    rw [EchoClient.afterRecv_zero holds.kcp.1 none]
    exact ⟨holds.kcp, linked,
      ⟨holds.counts.counter, holds.counts.replies, holds.counts.sent⟩,
      KcpParty.accepted_call_recv.trans holds.sent, same.trans holds.replies, holds.echoed⟩
  · have more := KcpParty.returned_call_recv some_byte
    rw [EchoClient.afterRecv_of_whole some_byte value]
    refine ⟨holds.kcp, linked, holds.counts.reply,
      KcpParty.accepted_call_recv.trans holds.sent, ?_, holds.echoed⟩
    simp only [more, holds.replies, List.map_append, List.map_singleton]

/-- The server takes the next message, or finds none. -/
theorem holds_serverPoll {clock : UInt64} {incoming : Option Datagram} (few : s.link.Few)
    (holds : s.Holds conv) (step : s.step (.serverPoll clock incoming) = some t) :
    t.Holds conv := by
  obtain ⟨link, lstep, next⟩ := Option.bind_eq_some_iff.mp step
  obtain ⟨u, ustep, rfl⟩ := Option.map_eq_some_iff.mp next
  have linked := KcpLink.linked_step holds.linked few lstep
  obtain rfl := KcpLink.step_server lstep
  obtain ⟨pc, rfl⟩ := EchoServer.step_recv ustep
  have echoed := holds.echoed
  have calling : s.server.calling = none := by rw [EchoServer.calling, pc]
  rcases KcpParty.call_recv_value s.link.server testRecvSize clock incoming with
    none | ⟨some_byte, value⟩
  · have same := KcpParty.returned_call_recv_of_zero none
    rw [EchoServer.afterRecv_zero holds.kcp.2 none]
    refine ⟨holds.kcp, linked, holds.counts, holds.sent, holds.replies, ?_⟩
    simp only [same, echoed, KcpParty.accepted_call_recv]
  · have more := KcpParty.returned_call_recv some_byte
    rw [calling, Option.toList_none, List.append_nil] at echoed
    rw [EchoServer.afterRecv_of_whole some_byte value]
    refine ⟨holds.kcp, linked, holds.counts, holds.sent, holds.replies, ?_⟩
    simp only [more, echoed, KcpParty.accepted_call_recv, EchoServer.calling,
      Option.toList_some]

/-- The server echoes the message it holds. KCP takes it, since it has carried it once. -/
theorem holds_echo {clock : UInt64} {incoming : Option Datagram} (few : s.link.Few)
    (holds : s.Holds conv) (step : s.step (.echo clock incoming) = some t) : t.Holds conv := by
  simp only [EchoKcp.step] at step
  split at step
  case h_1 msg calling =>
    obtain ⟨link, lstep, next⟩ := Option.bind_eq_some_iff.mp step
    obtain ⟨u, ustep, rfl⟩ := Option.map_eq_some_iff.mp next
    have linked := KcpLink.linked_step holds.linked few lstep
    obtain rfl := KcpLink.step_server lstep
    have echoed := holds.echoed
    rw [calling] at echoed
    have carried : msg ∈ s.link.client.accepted := by
      refine holds.linked.2.taken.subset ?_
      rw [echoed]
      simp
    have short := (holds.linked.1.messages msg carried).2
    have value := KcpParty.call_send_value clock incoming holds.linked.2.serves.configured short
    have taken := KcpParty.accepted_call_send (value.symm ▸ Int.natCast_nonneg _)
    obtain ⟨-, rfl⟩ := EchoServer.step_sent ustep
    refine ⟨holds.kcp, linked, holds.counts, holds.sent, holds.replies, ?_⟩
    simp only [KcpParty.returned_call_send, taken, echoed, EchoServer.calling,
      Option.toList_some, Option.toList_none, List.append_nil]
  case h_2 => exact absurd step (by simp)

/-- Every step keeps the invariant. -/
theorem holds_step {label : EchoKcpLabel} (few : s.link.Few) (holds : s.Holds conv)
    (step : s.step label = some t) : t.Holds conv := by
  cases label with
  | round now clock incoming => exact holds_round few holds step
  | poll clock incoming => exact holds_poll few holds step
  | serverPoll clock incoming => exact holds_serverPoll few holds step
  | echo clock incoming => exact holds_echo few holds step

/-- Every step is a call on the link, or leaves it alone. -/
theorem few_of_step {label : EchoKcpLabel} (few : t.link.Few) (step : s.step label = some t) :
    s.link.Few := by
  cases label with
  | round now clock incoming =>
    obtain ⟨c, -, next⟩ := Option.bind_eq_some_iff.mp step
    split at next
    case h_1 =>
      obtain ⟨link, lstep, after⟩ := Option.bind_eq_some_iff.mp next
      obtain ⟨_, -, rfl⟩ := Option.map_eq_some_iff.mp after
      exact few.of_step lstep
    case h_2 =>
      obtain rfl := Option.some.inj next
      exact few
  | poll clock incoming =>
    obtain ⟨link, lstep, next⟩ := Option.bind_eq_some_iff.mp step
    obtain ⟨_, -, rfl⟩ := Option.map_eq_some_iff.mp next
    exact few.of_step lstep
  | serverPoll clock incoming =>
    obtain ⟨link, lstep, next⟩ := Option.bind_eq_some_iff.mp step
    obtain ⟨_, -, rfl⟩ := Option.map_eq_some_iff.mp next
    exact few.of_step lstep
  | echo clock incoming =>
    simp only [EchoKcp.step] at step
    split at step
    case h_1 =>
      obtain ⟨link, lstep, next⟩ := Option.bind_eq_some_iff.mp step
      obtain ⟨_, -, rfl⟩ := Option.map_eq_some_iff.mp next
      exact few.of_step lstep
    case h_2 => exact absurd step (by simp)

end Steps

/-! ## Every run -/

/-- In every run the echoes are the first of the messages, in order. The echo taken for a
round is that of this round or of an earlier one. -/
theorem echo_kcp_in_order {clientEnv serverEnv : SocketEnv} {serverIp bindIp : Option String}
    {bindPort port : UInt16} {client server : KcpContext} {labels : List EchoKcpLabel}
    {s : EchoKcp}
    (clientInit : kcpInit clientEnv .client none bindPort serverIp port = some client)
    (serverInit : kcpInit serverEnv .server bindIp port none 0 = some server)
    (hrun : machine.run (start client server) labels = some s) (few : s.link.Few) :
    s.client.replies.map Prod.snd <+: s.client.sent.map Prod.snd ∧
      ∀ k reply, s.client.replies[k]? = some reply → reply.1 = k ∧
        ∃ i now, i ≤ k ∧ s.client.sent[k]? = some (i, reply.2) ∧ reply.2 = testMessage i now := by
  have fresh : (start client server).Holds port.toUInt32 :=
    holds_start (KcpContext.Serves.start clientInit) (KcpContext.Serves.start serverInit)
  -- the bound holds at the end of the run, and so at every step before
  have holds : s.link.Few → s.Holds port.toUInt32 := by
    refine machine.run_invariant (I := fun s => s.link.Few → s.Holds port.toUInt32) ?_
      (fun _ => fresh) hrun
    intro before label after holds step few
    have earlier := few_of_step few step
    exact holds_step earlier (holds earlier) step
  have holds := holds few
  have order := holds.replies_prefix
  refine ⟨order, fun k reply found => ⟨holds.counts.replies k reply found, ?_⟩⟩
  have echo : (s.client.replies.map Prod.snd)[k]? = some reply.2 := by
    rw [List.getElem?_map, found]
    rfl
  have message : (s.client.sent.map Prod.snd)[k]? = some reply.2 := by
    obtain ⟨later, all⟩ := order
    obtain ⟨inside, -⟩ := List.getElem?_eq_some_iff.mp echo
    rw [← all, List.getElem?_append_left inside, echo]
  rw [List.getElem?_map] at message
  obtain ⟨⟨i, msg⟩, at_k, same⟩ := Option.map_eq_some_iff.mp message
  obtain ⟨early, now, text⟩ := holds.counts.sent k (i, msg) at_k
  exact ⟨i, now, early, same ▸ at_k, same ▸ text⟩

/-- A client that finds no echo and sends round 0 again. The second echo is taken for
round 1. -/
private def repeatedRound : List EchoKcpLabel :=
  let push (ts sn una : UInt32) (now : UInt64) : IkcpSeg :=
    { ikcpSegmentNew (testMessage 0 now) with
      conv := 9002, cmd := ikcpCmdPush, wnd := 128, ts := ts, sn := sn, una := una }
  let ack (ts sn : UInt32) : IkcpSeg :=
    { ikcpSegmentNew [] with
      conv := 9002, cmd := ikcpCmdAck, wnd := 128, ts := ts, sn := sn, una := 2 }
  let toServer (segs : List IkcpSeg) : Option Datagram :=
    some ⟨⟨40000, 0x0100007f⟩, 16, ikcpDatagram segs⟩
  let toClient (segs : List IkcpSeg) : Option Datagram :=
    some ⟨⟨9002, 0x0100007f⟩, 16, ikcpDatagram segs⟩
  [.round 7 5 none, .poll 6 none, .round 9 20 none,
    .serverPoll 21 (toServer [push 5 0 0 7]), .echo 22 none,
    .serverPoll 23 (toServer [push 20 1 0 9]), .echo 40 none,
    .poll 42 (toClient [ack 5 0, ack 20 1, push 40 0 2 7, push 40 1 2 9]),
    .round 43 44 none, .poll 60 none]

/-- What `kcp_init` makes of port 9002 on both sides. -/
private def echoContext (peer : SockAddrIn) : KcpContext := ⟨peer, 16, kcpConfigure 9002, 0⟩

private def echoEnv : SocketEnv := ⟨fun _ => 0x0100007f, true, true, fun _ => true, true⟩

theorem echo_kcp_in_order_repeated : ∃ s,
    machine.run (start (echoContext ⟨9002, 0x0100007f⟩) (echoContext ⟨0, 0⟩)) repeatedRound =
      some s ∧
    s.client.replies = [(0, testMessage 0 7), (1, testMessage 0 9)] ∧
    s.client.replies.map Prod.snd <+: s.client.sent.map Prod.snd ∧
      ∀ k reply, s.client.replies[k]? = some reply → reply.1 = k ∧
        ∃ i now, i ≤ k ∧ s.client.sent[k]? = some (i, reply.2) ∧ reply.2 = testMessage i now := by
  have finished : ∃ s,
      machine.run (start (echoContext ⟨9002, 0x0100007f⟩) (echoContext ⟨0, 0⟩)) repeatedRound =
        some s ∧
      decide (s.client.replies = [(0, testMessage 0 7), (1, testMessage 0 9)] ∧ s.link.Few) =
        true :=
    (Option.any_eq_true _ _).mp (by decide +kernel)
  obtain ⟨s, hrun, done⟩ := finished
  rw [decide_eq_true_iff] at done
  have client : kcpInit echoEnv .client none 0 (some "127.0.0.1") 9002 =
      some (echoContext ⟨9002, 0x0100007f⟩) := by decide +kernel
  have server : kcpInit echoEnv .server none 9002 none 0 = some (echoContext ⟨0, 0⟩) := by
    decide +kernel
  exact ⟨s, hrun, done.1, echo_kcp_in_order client server hrun done.2⟩

end EchoKcp

end OmniSocket
