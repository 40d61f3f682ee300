/-
# Two endpoints and where they send to

`kcp_output` sends to the address the last datagram came from, and before the first one
to the address `kcp_init` was given. A server is usually given none, so what it sends
before it has heard from its client is lost. Here two endpoints are followed together
with their addresses: what a socket reads was sent to its address by a `sendto` that
did not fail, and it comes with the address of the other socket. Short of that, the
network may lose, repeat, reorder and delay.
-/

import OmniSocket.Ikcp.Probe
import OmniSocket.KcpTrust

set_option autoImplicit false

namespace OmniSocket

open Lib

/-! ## Before anything has been read -/

/-- Nothing has been read from the network: nothing is received, nothing is to be
acknowledged or told, and the peer's window is the one `ikcp_create` assumes. -/
structure Ikcpcb.Untold (kcp : Ikcpcb) : Prop where
  receiving : kcp.receiving = (0, [], [])
  acklist : kcp.acklist = []
  windows : kcp.windows = (128, 0)

namespace Ikcpcb.Untold

variable {kcp : Ikcpcb}

theorem start (conv : UInt32) : (kcpConfigure conv).Untold := ⟨rfl, rfl, rfl⟩

/-- A flush has nothing to tell then. With nothing to send it writes nothing. -/
theorem flush (untold : kcp.Untold) : (ikcpFlush kcp).2.windows = (128, 0) ∧
    (kcp.sndQueue = [] → kcp.sndBuf = [] → (ikcpFlush kcp).1 = []) := by
  have opened : kcp.rmtWnd = 128 := congrArg Prod.fst untold.windows
  have quiet : ikcpFlushProbe { kcp with acklist := [] } =
      { kcp with acklist := [], tsProbe := 0, probeWait := 0 } := by
    rw [ikcpFlushProbe, opened, if_neg (by decide)]
  have windows : (ikcpFlushProbe { kcp with acklist := [] }).windows = (128, 0) := by
    rw [quiet]
    exact untold.windows
  have queues : (ikcpFlushProbe { kcp with acklist := [] }).sndQueue = kcp.sndQueue ∧
      (ikcpFlushProbe { kcp with acklist := [] }).sndBuf = kcp.sndBuf := by
    rw [quiet]
    exact ⟨rfl, rfl⟩
  have last : ∀ (flushed : Ikcpcb) (cwnd : UInt32) (change : ℕ) (lost : Bool),
      (ikcpFlushSsthresh flushed cwnd change lost).windows = flushed.windows := by
    intro flushed cwnd change lost
    simp only [ikcpFlushSsthresh]
    split_ifs <;> rfl
  by_cases never : kcp.updated = 0
  · rw [ikcpFlush, if_pos never]
    exact ⟨untold.windows, fun _ _ => rfl⟩
  · rw [ikcpFlush, if_neg never]
    refine ⟨(last _ _ _ _).trans ?_, fun noQueue noBuf => ?_⟩
    · exact congrArg (fun half => (half.1, (0 : UInt32))) windows
    · -- no acknowledgement, no probe and no segment is put into the buffer
      generalize ikcpFlushProbe { kcp with acklist := [] } = probed at *
      have unasked : probed.probe = 0 := congrArg Prod.snd windows
      simp [untold.acklist, ikcpFlushAcks, ikcpFlushWindow, unasked, ikcpAdmit,
        queues.1, queues.2, noQueue, noBuf, ikcpAdmitLoop, ikcpFlushLoop, IkcpOut.output]

/-- The clock does not change that. -/
theorem update (untold : kcp.Untold) (now : UInt32) : (ikcpUpdate kcp now).2.Untold ∧
    (kcp.sndQueue = [] → kcp.sndBuf = [] → (ikcpUpdate kcp now).1 = []) := by
  have acks : (ikcpUpdate kcp now).2.acklist = [] := by
    rcases acklist_ikcpUpdate kcp now with flushed | ⟨-, same⟩
    · exact flushed
    · exact same.trans untold.acklist
  have receiving := (ikcpUpdate_frame kcp now).2.trans untold.receiving
  have windows : (ikcpUpdateTimer kcp now).2.windows = kcp.windows := by
    simp only [ikcpUpdateTimer]
    split_ifs <;> rfl
  obtain ⟨-, receiving', sending⟩ := ikcpUpdateTimer_frame kcp now
  have timed : (ikcpUpdateTimer kcp now).2.Untold := ⟨receiving'.trans untold.receiving,
    (acklist_ikcpUpdateTimer kcp now).trans untold.acklist, windows.trans untold.windows⟩
  have queue := congrArg (fun half => half.2.2.1) sending
  have buf := congrArg (fun half => half.2.2.2) sending
  suffices written : (ikcpUpdate kcp now).2.windows = (128, 0) ∧
      (kcp.sndQueue = [] → kcp.sndBuf = [] → (ikcpUpdate kcp now).1 = []) from
    ⟨⟨receiving, acks, written.1⟩, written.2⟩
  unfold ikcpUpdate
  split
  case h_1 due result =>
    rw [result] at timed queue buf
    refine ⟨timed.flush.1, fun noQueue noBuf => timed.flush.2 ?_ ?_⟩
    · exact queue.trans noQueue
    · exact buf.trans noBuf
  case h_2 idle result =>
    rw [result] at timed
    exact ⟨timed.windows, fun _ _ => rfl⟩

/-- `ikcp_recv` finds no message. -/
theorem recv (untold : kcp.Untold) (len : ℤ) : ikcpRecv kcp len = (-1, [], kcp) := by
  have none : kcp.rcvQueue = [] := congrArg (fun half => half.2.1) untold.receiving
  rw [ikcpRecv, if_pos none]

end Ikcpcb.Untold

/-! ## What a call reads -/

/-- The datagram that is pending when a call reads the socket. -/
def KcpCall.incoming : KcpCall → Option Datagram
  | .send _ _ incoming | .recv _ _ incoming => incoming

/-- What a call reads comes from `source` and is one of the datagrams `sent`. -/
def KcpCall.Reads (source : SockAddrIn) (sent : List (List UInt8)) (c : KcpCall) : Prop :=
  ∀ d ∈ c.incoming, d = ⟨source, sockAddrSize, d.bytes⟩ ∧ d.bytes ∈ sent

instance (source : SockAddrIn) (sent : List (List UInt8)) (c : KcpCall) :
    Decidable (c.Reads source sent) := inferInstanceAs (Decidable (∀ d ∈ c.incoming, _))

/-- A datagram with a byte in it makes its source the peer, and nothing else does. -/
theorem peerAddr_kcpUpdateLoop (ctx : KcpContext) (now : UInt64) (incoming : Option Datagram) :
    (∃ d ∈ incoming, d.bytes ≠ [] ∧ (kcpUpdateLoop ctx now incoming).2.peerAddr = d.source) ∨
      ((∀ d ∈ incoming, d.bytes = []) ∧
        (kcpUpdateLoop ctx now incoming).2.peerAddr = ctx.peerAddr) := by
  cases incoming with
  | none => exact .inr ⟨by simp, rfl⟩
  | some d =>
    by_cases empty : d.bytes = []
    · refine .inr ⟨by simpa using empty, ?_⟩
      simp [kcpUpdateLoop, kcpReceive, Datagram.received, empty]
    · have read : 0 < (d.received kcpRecvBufSize).length := by
        rw [Datagram.received, List.length_take, kcpRecvBufSize]
        have := List.length_pos_iff.mpr empty
        omega
      refine .inl ⟨d, rfl, empty, ?_⟩
      simp only [kcpUpdateLoop, kcpReceive, if_pos read]

namespace KcpParty

variable {conv : UInt32} {p q : KcpParty}

/-- A call that is not refused reads a datagram of its peer, or the peer stays. -/
theorem peerAddr_call (holds : p.Holds conv q) {c : KcpCall} (allowed : Allows q.emitted c) :
    (∃ d ∈ c.incoming, d.bytes ≠ [] ∧ (p.call c).2.ctx.peerAddr = d.source) ∨
      ((p.call c).2.ctx.peerAddr = p.ctx.peerAddr ∧
        ((p.call c).2 = p ∨ ∀ d ∈ c.incoming, d.bytes = [])) := by
  cases c with
  | send buf now incoming =>
    rcases kcpSend_spec holds.serves.configured allowed.2.1 now incoming with
      ⟨-, failed⟩ | ⟨-, segs, -, queued⟩
    · have unchanged : (p.call (.send buf now incoming)).2 = p := by
        have refused : ¬ 0 ≤ omniErrIo := by decide
        simp only [KcpParty.call, kcpCall, failed, if_neg refused]
        rw [show KcpEffects.none.sent = [] from rfl, List.map_nil, List.append_nil]
      exact .inr ⟨congrArg (fun p => p.ctx.peerAddr) unchanged, .inl unchanged⟩
    · simp only [KcpParty.call, kcpCall, queued]
      rcases peerAddr_kcpUpdateLoop { p.ctx with
          kcp := { p.ctx.kcp with sndQueue := p.ctx.kcp.sndQueue ++ segs } } now incoming with
        read | ⟨nothing, same⟩
      · exact .inl read
      · exact .inr ⟨same, .inr nothing⟩
  | recv len now incoming =>
    rcases peerAddr_kcpUpdateLoop p.ctx now incoming with read | ⟨nothing, same⟩
    · exact .inl read
    · exact .inr ⟨same, .inr nothing⟩

/-- The peer stays who it was if only it is read from. -/
theorem peerAddr_call_of_reads (holds : p.Holds conv q) {c : KcpCall}
    (allowed : Allows q.emitted c) {source : SockAddrIn} {sent : List (List UInt8)}
    (reads : c.Reads source sent) (peer : p.ctx.peerAddr = source) :
    (p.call c).2.ctx.peerAddr = source := by
  rcases peerAddr_call holds allowed with ⟨d, member, -, same⟩ | ⟨same, -⟩
  · rw [same, (reads d member).1]
  · exact same.trans peer

/-- What a call emits is what it has sent. -/
theorem emitted_call (p : KcpParty) (c : KcpCall) :
    (p.call c).2.emitted = p.emitted ++ (p.call c).1.effects.sent.map Outgoing.bytes := rfl

/-- Everything goes to the peer there was before the call. -/
theorem sent_call (p : KcpParty) (c : KcpCall) :
    ∃ datagrams, (p.call c).1.effects.sent = kcpOutput p.ctx datagrams := by
  cases c with
  | send buf now incoming =>
    simp only [KcpParty.call, kcpCall, kcpSend]
    split
    · exact ⟨[], rfl⟩
    · exact ⟨_, rfl⟩
  | recv len now incoming => exact ⟨_, rfl⟩

/-- A call that reads nothing leaves an endpoint untold, and returns nothing. If no message
was ever accepted, it sends nothing either. -/
theorem untold_call (holds : p.Holds conv q) (peer : q.Holds conv p) {c : KcpCall}
    (allowed : Allows q.emitted c) (nothing : ∀ d ∈ c.incoming, d.bytes = [])
    (untold : p.ctx.kcp.Untold) :
    (p.call c).2.ctx.kcp.Untold ∧ (p.call c).2.returned = p.returned ∧
      ((p.call c).2.accepted = [] → (p.call c).2.emitted = p.emitted) := by
  -- an empty datagram is dropped like one that never came
  have driven : ∀ (kcp : Ikcpcb) (now : UInt32),
      kcp.driven now (c.incoming.map Datagram.bytes) = (ikcpUpdate kcp now).2 := by
    intro kcp now
    cases arrived : c.incoming with
    | none => rfl
    | some d =>
      have empty := nothing d arrived
      simp only [Option.map_some, empty]
      rfl
  cases c with
  | send buf now incoming =>
    rcases call_send holds peer allowed with same | ⟨segs, -, -, accepted, returned, kcp, -⟩
    · rw [same]
      exact ⟨untold, rfl, fun _ => rfl⟩
    · have queued : Ikcpcb.Untold { p.ctx.kcp with sndQueue := p.ctx.kcp.sndQueue ++ segs } :=
        ⟨untold.receiving, untold.acklist, untold.windows⟩
      refine ⟨?_, returned, fun none => absurd none (by simp [accepted])⟩
      rw [kcp, show incoming = (KcpCall.send buf now incoming).incoming from rfl, driven]
      exact (queued.update _).1
  | recv len now incoming =>
    obtain ⟨accepted, kcp, emitted, returned⟩ := call_recv peer len now allowed.2
    rw [show incoming = (KcpCall.recv len now incoming).incoming from rfl, driven] at kcp returned
    obtain ⟨still, silent⟩ := untold.update now.toUInt32
    rw [still.recv] at kcp returned
    refine ⟨?_, returned, fun none => ?_⟩
    · rw [show (p.call (.recv len now incoming)).2.ctx.kcp = _ from kcp]
      exact still
    · obtain ⟨m, flying, sends⟩ := holds.serves.sends
      rw [accepted.symm.trans none] at sends
      obtain rfl : m = 0 := Nat.le_zero.mp sends.inside
      obtain rfl : flying = [] := List.eq_nil_iff_forall_not_mem.mpr fun i flies =>
        absurd (sends.below i flies) (Nat.not_lt_zero i)
      rw [emitted, silent (List.map_eq_nil_iff.mp sends.queue) (sends.flying_eq_nil_iff.mp rfl),
        List.append_nil]

end KcpParty

/-! ## The network -/

/-- Two endpoints, the addresses of their sockets, and what was ever sent to these. -/
structure KcpNet extends KcpLink where
  clientAddr : SockAddrIn
  serverAddr : SockAddrIn
  toServer : List (List UInt8)
  toClient : List (List UInt8)
  deriving DecidableEq, Repr

/-- Which endpoint is called next. Of the datagrams of the call, `taken` are those whose
`sendto` did not fail. -/
inductive KcpNetLabel
  | client (c : KcpCall) (taken : List Outgoing)
  | server (c : KcpCall) (taken : List Outgoing)
  deriving DecidableEq, Repr

namespace KcpNet

/-- One call on either side. Nothing is ever taken off the network, so that a datagram may
arrive late, twice or never. -/
def step (s : KcpNet) : KcpNetLabel → Option KcpNet
  | .client c taken =>
    if c.Reads s.serverAddr s.toClient ∧ taken.Sublist (s.client.call c).1.effects.sent then
      (s.toKcpLink.step (.client c)).map fun link =>
        { s with
          toKcpLink := link, toServer := s.toServer ++ KcpSessions.sentTo s.serverAddr taken }
    else none
  | .server c taken =>
    if c.Reads s.clientAddr s.toServer ∧ taken.Sublist (s.server.call c).1.effects.sent then
      (s.toKcpLink.step (.server c)).map fun link =>
        { s with
          toKcpLink := link, toClient := s.toClient ++ KcpSessions.sentTo s.clientAddr taken }
    else none

/-- The machine of two endpoints on a network. -/
def machine : Machine KcpNet KcpNetLabel where
  step := step

/-- Both endpoints as `kcp_init` returned them. -/
def start (client server : KcpContext) (clientAddr serverAddr : SockAddrIn) : KcpNet where
  toKcpLink := .start client server
  clientAddr := clientAddr
  serverAddr := serverAddr
  toServer := []
  toClient := []

variable {conv : UInt32} {s t : KcpNet}

/-- What a call of the server changes. -/
theorem step_server {c : KcpCall} {taken : List Outgoing}
    (step : s.step (.server c taken) = some t) :
    c.Reads s.clientAddr s.toServer ∧ taken.Sublist (s.server.call c).1.effects.sent ∧
      s.toKcpLink.step (.server c) = some t.toKcpLink ∧
      t = { s with
        server := (s.server.call c).2
        toClient := s.toClient ++ KcpSessions.sentTo s.clientAddr taken } := by
  rw [KcpNet.step, Option.ite_none_right_eq_some, Option.map_eq_some_iff] at step
  obtain ⟨⟨reads, sub⟩, link, lstep, rfl⟩ := step
  refine ⟨reads, sub, lstep, ?_⟩
  obtain rfl := KcpLink.step_server lstep
  rfl

/-! ### The other side -/

/-- The network seen from the other side. -/
def swap (s : KcpNet) : KcpNet where
  toKcpLink := s.toKcpLink.swap
  clientAddr := s.serverAddr
  serverAddr := s.clientAddr
  toServer := s.toClient
  toClient := s.toServer

/-- The same call on the other side. -/
def swapLabel : KcpNetLabel → KcpNetLabel
  | .client c taken => .server c taken
  | .server c taken => .client c taken

theorem step_swap {label : KcpNetLabel} (step : s.step label = some t) :
    s.swap.step (swapLabel label) = some t.swap := by
  cases label with
  | client c taken =>
    rw [KcpNet.step, Option.ite_none_right_eq_some, Option.map_eq_some_iff] at step
    obtain ⟨guard, link, lstep, rfl⟩ := step
    rw [KcpLink.step, Option.ite_none_right_eq_some] at lstep
    obtain ⟨allowed, rfl⟩ := lstep.imp_right Option.some.inj
    exact (if_pos guard).trans (congrArg (Option.map _) (if_pos allowed))
  | server c taken =>
    rw [KcpNet.step, Option.ite_none_right_eq_some, Option.map_eq_some_iff] at step
    obtain ⟨guard, link, lstep, rfl⟩ := step
    rw [KcpLink.step, Option.ite_none_right_eq_some] at lstep
    obtain ⟨allowed, rfl⟩ := lstep.imp_right Option.some.inj
    exact (if_pos guard).trans (congrArg (Option.map _) (if_pos allowed))

/-- What a call of the client changes. -/
theorem step_client {c : KcpCall} {taken : List Outgoing}
    (step : s.step (.client c taken) = some t) :
    c.Reads s.serverAddr s.toClient ∧ taken.Sublist (s.client.call c).1.effects.sent ∧
      s.toKcpLink.step (.client c) = some t.toKcpLink ∧
      t = { s with
        client := (s.client.call c).2
        toServer := s.toServer ++ KcpSessions.sentTo s.serverAddr taken } := by
  rw [KcpNet.step, Option.ite_none_right_eq_some, Option.map_eq_some_iff] at step
  obtain ⟨⟨reads, sub⟩, link, lstep, rfl⟩ := step
  refine ⟨reads, sub, lstep, ?_⟩
  obtain rfl := KcpLink.step_client lstep
  rfl

/-- The endpoints agree, and the network carries only what they have emitted. -/
structure Sound (conv : UInt32) (s : KcpNet) : Prop where
  agrees : s.Agrees conv
  few : s.Few
  toServer : ∀ bytes ∈ s.toServer, bytes ∈ s.client.emitted
  toClient : ∀ bytes ∈ s.toClient, bytes ∈ s.server.emitted

theorem Sound.swap (sound : s.Sound conv) : s.swap.Sound conv :=
  ⟨sound.agrees.swap, sound.few.symm, sound.toClient, sound.toServer⟩

/-- What is on the network after a call was there before, or the call has emitted it. -/
private theorem mem_of_mem_sentTo {p : KcpParty} {c : KcpCall} {taken : List Outgoing}
    {address : SockAddrIn} {sent : List (List UInt8)}
    (sub : taken.Sublist (p.call c).1.effects.sent)
    (before : ∀ bytes ∈ sent, bytes ∈ p.emitted) :
    ∀ bytes ∈ sent ++ KcpSessions.sentTo address taken, bytes ∈ (p.call c).2.emitted := by
  intro bytes member
  rw [KcpParty.emitted_call]
  rcases List.mem_append.mp member with old | new
  · exact List.mem_append_left _ (before bytes old)
  · obtain ⟨out, inside, rfl⟩ := List.mem_map.mp new
    exact List.mem_append_right _ (List.mem_map_of_mem (sub.subset (List.mem_filter.mp inside).1))

private theorem Sound.step_server {c : KcpCall} {taken : List Outgoing} (sound : s.Sound conv)
    (few : t.Few) (step : s.step (.server c taken) = some t) : t.Sound conv := by
  obtain ⟨-, sub, lstep, same⟩ := KcpNet.step_server step
  have agrees := sound.agrees.step few lstep
  obtain rfl := same
  exact ⟨agrees, few, sound.toServer, mem_of_mem_sentTo sub sound.toClient⟩

/-- No call breaks that, as long as the numbers do not wrap. -/
theorem Sound.step {label : KcpNetLabel} (sound : s.Sound conv) (few : t.Few)
    (step : s.step label = some t) : t.Sound conv := by
  cases label with
  | client c taken =>
    have few' : t.swap.Few := few.symm
    exact (sound.swap.step_server few' (step_swap step)).swap
  | server c taken => exact sound.step_server few step

/-- Each endpoint sends to the other. -/
structure Known (s : KcpNet) : Prop where
  client : s.client.ctx.peerAddr = s.serverAddr
  server : s.server.ctx.peerAddr = s.clientAddr

theorem Known.swap (known : s.Known) : s.swap.Known := ⟨known.server, known.client⟩

/-- The server does not know its client, so nothing it has sent has reached it. It has not
heard from the client either; a client without a message has sent nothing. -/
structure Unheard (s : KcpNet) : Prop where
  stranger : s.server.ctx.peerAddr ≠ s.clientAddr
  client : s.client.ctx.kcp.Untold
  server : s.server.ctx.kcp.Untold
  toClient : s.toClient = []
  returned : s.client.returned = []
  toServer : s.client.accepted = [] → s.toServer = []

/-- The client sends to the server, and the server to the client as soon as it has heard
from it. -/
structure Placed (s : KcpNet) : Prop where
  client : s.client.ctx.peerAddr = s.serverAddr
  server : s.server.ctx.peerAddr = s.clientAddr ∨ s.Unheard

/-- A call of the client leaves the server where it is. The client reads nothing, and
without a message it sends nothing. -/
theorem Unheard.step_client {c : KcpCall} {taken : List Outgoing} (unheard : s.Unheard)
    (sound : s.Sound conv) (step : s.step (.client c taken) = some t) : t.Unheard := by
  obtain ⟨mine, theirs⟩ := sound.agrees.linked
  obtain ⟨reads, sub, lstep, rfl⟩ := KcpNet.step_client step
  rw [KcpLink.step, Option.ite_none_right_eq_some] at lstep
  have nothing : ∀ d ∈ c.incoming, d.bytes = [] := fun d member => by
    have sent := (reads d member).2
    rw [unheard.toClient] at sent
    exact absurd sent List.not_mem_nil
  obtain ⟨untold, returned, silent⟩ :=
    KcpParty.untold_call mine theirs lstep.1 nothing unheard.client
  refine ⟨unheard.stranger, untold, unheard.server, unheard.toClient,
    returned.trans unheard.returned, fun none => ?_⟩
  have before : s.client.accepted = [] :=
    List.prefix_nil.mp (none ▸ KcpParty.accepted_prefix_call s.client c)
  have empty : taken = [] := by
    have same := silent none
    rw [KcpParty.emitted_call, List.append_right_eq_self, List.map_eq_nil_iff] at same
    exact List.sublist_nil.mp (same ▸ sub)
  rw [empty, unheard.toServer before]
  rfl

/-- A call of the server that reads a byte tells it who its client is, and any other leaves
it as it was. -/
theorem Unheard.step_server {c : KcpCall} {taken : List Outgoing} (unheard : s.Unheard)
    (sound : s.Sound conv) (step : s.step (.server c taken) = some t) :
    t.server.ctx.peerAddr = t.clientAddr ∨ t.Unheard := by
  obtain ⟨mine, theirs⟩ := sound.agrees.linked
  obtain ⟨reads, sub, lstep, rfl⟩ := KcpNet.step_server step
  rw [KcpLink.step, Option.ite_none_right_eq_some] at lstep
  rcases KcpParty.peerAddr_call theirs lstep.1 with ⟨d, member, -, heard⟩ | ⟨same, nothing⟩
  · refine .inl (heard.trans ?_)
    rw [(reads d member).1]
  · refine .inr ⟨fun known => unheard.stranger (same.symm.trans known), unheard.client, ?_, ?_,
      unheard.returned, unheard.toServer⟩
    · rcases nothing with unchanged | nothing
      · rw [unchanged]
        exact unheard.server
      · exact (KcpParty.untold_call theirs mine lstep.1 nothing unheard.server).1
    · -- what the server sends goes to somebody else
      obtain ⟨datagrams, sent⟩ := KcpParty.sent_call s.server c
      have lost := KcpSessions.sentTo_kcpOutput s.clientAddr s.server.ctx datagrams
      rw [if_neg unheard.stranger, ← sent] at lost
      have none : KcpSessions.sentTo s.clientAddr taken = [] :=
        List.sublist_nil.mp (lost ▸ (sub.filter _).map _)
      rw [unheard.toClient, none]
      rfl

theorem Placed.step {label : KcpNetLabel} (placed : s.Placed) (sound : s.Sound conv)
    (step : s.step label = some t) : t.Placed := by
  obtain ⟨mine, theirs⟩ := sound.agrees.linked
  cases label with
  | client c taken =>
    have later := placed.server.imp_right fun unheard => unheard.step_client sound step
    obtain ⟨reads, -, lstep, rfl⟩ := KcpNet.step_client step
    rw [KcpLink.step, Option.ite_none_right_eq_some] at lstep
    exact ⟨KcpParty.peerAddr_call_of_reads mine lstep.1 reads placed.client, later⟩
  | server c taken =>
    rcases placed.server with known | unheard
    · obtain ⟨reads, -, lstep, rfl⟩ := KcpNet.step_server step
      rw [KcpLink.step, Option.ite_none_right_eq_some] at lstep
      exact ⟨placed.client, .inl (KcpParty.peerAddr_call_of_reads theirs lstep.1 reads known)⟩
    · have later := unheard.step_server sound step
      obtain ⟨-, -, -, rfl⟩ := KcpNet.step_server step
      exact ⟨placed.client, later⟩

end KcpNet

end OmniSocket
