/-
# Two endpoints and a network between them

Two endpoints with the same conversation number exchange datagrams over a
network that may lose, repeat, delay and reorder them: every datagram an
endpoint has ever emitted can be what its peer reads next, at any time and any
number of times. The messages one side has returned are always the front of
those the other side has taken, as long as less than 2^31 fragments are queued
on each side.
-/

import OmniSocket.Lib.Machine
import OmniSocket.Ikcp.Arrival
import OmniSocket.KcpSender

set_option autoImplicit false

namespace OmniSocket

open Lib

/-! ## Genuine datagrams -/

/-- A segment of an endpoint that has queued the fragments `hist`. -/
def IkcpSeg.Genuine (conv : UInt32) (hist : List (Fragment UInt8)) (seg : IkcpSeg) : Prop :=
  seg.conv = conv ∧
    (((seg.cmd = ikcpCmdAck ∨ seg.cmd = ikcpCmdWask ∨ seg.cmd = ikcpCmdWins) ∧ seg.data = []) ∨
      ∃ i < hist.length, seg.key = pushKey conv hist i)

/-- A datagram of such an endpoint. -/
def GenuineDatagram (conv : UInt32) (hist : List (Fragment UInt8)) (bytes : List UInt8) : Prop :=
  ∃ segs : List IkcpSeg, bytes = ikcpDatagram segs ∧ bytes.length ≤ 1400 ∧
    ∀ seg ∈ segs, seg.Genuine conv hist

section Genuine

variable {conv : UInt32} {hist : List (Fragment UInt8)} {seg : IkcpSeg}

theorem Written.genuine {n : ℕ} {flying : List ℕ} {kcp kcp' : Ikcpcb}
    (written : Written conv hist flying kcp seg) (sends : Sends conv hist n flying kcp') :
    seg.Genuine conv hist := by
  refine ⟨written.same, ?_⟩
  rcases written.content with ⟨ack, empty, -⟩ | ⟨window, empty⟩ | ⟨i, flies, key⟩
  · exact .inl ⟨.inl ack, empty⟩
  · exact .inl ⟨.inr window, empty⟩
  · exact .inr ⟨i, (sends.below i flies).trans_le sends.inside, key⟩

theorem IkcpSeg.Genuine.append (genuine : seg.Genuine conv hist) (added : List (Fragment UInt8)) :
    seg.Genuine conv (hist ++ added) := by
  refine ⟨genuine.1, genuine.2.imp_right ?_⟩
  rintro ⟨i, inside, key⟩
  refine ⟨i, by rw [List.length_append]; omega, key.trans ?_⟩
  rw [pushKey, pushKey, List.getD_append _ _ _ _ inside]

theorem GenuineDatagram.append {bytes : List UInt8} (genuine : GenuineDatagram conv hist bytes)
    (added : List (Fragment UInt8)) : GenuineDatagram conv (hist ++ added) bytes := by
  obtain ⟨segs, same, fits, each⟩ := genuine
  exact ⟨segs, same, fits, fun seg member => (each seg member).append added⟩

/-- What a data segment carries is the fragment with its number. -/
theorem fragment_of_key {i : ℕ} (fragments : KcpFragments hist) (inside : i < hist.length)
    (key : seg.key = pushKey conv hist i) :
    seg.cmd = ikcpCmdPush ∧ seg.item = fragmentItem hist i ∧ seg.data.length ≤ 1376 ∧
      seg.frg.toNat < 128 := by
  have number : seg.sn = UInt32.ofNat i := congrArg (fun key => key.2.2.1) key
  have fragment : seg.fragment = hist.getD i (0, []) := congrArg (fun key => key.2.2.2) key
  -- a number below the length of the history belongs to a fragment of it
  have listed : hist.getD i (0, []) ∈ hist := by
    rw [List.getD_eq_getElem _ _ inside]
    exact List.getElem_mem inside
  have bounds := fragments _ listed
  rw [← fragment] at bounds
  refine ⟨congrArg (fun key => key.2.1) key, ?_, bounds.1, bounds.2⟩
  rw [IkcpSeg.item, number, fragment, fragmentItem]

theorem IkcpSeg.Genuine.wellFormed (genuine : seg.Genuine conv hist)
    (fragments : KcpFragments hist) : seg.WellFormed conv := by
  obtain ⟨same, ⟨command, empty⟩ | ⟨i, inside, key⟩⟩ := genuine
  · refine ⟨same, .inr command, ?_⟩
    rw [empty]
    decide
  · obtain ⟨push, -, small, -⟩ := fragment_of_key fragments inside key
    exact ⟨same, .inl push, by omega⟩

/-- A data segment arrives as it was sent. -/
theorem item_onWire_of_key {i : ℕ} (fragments : KcpFragments hist) (inside : i < hist.length)
    (key : seg.key = pushKey conv hist i) : seg.onWire.item = fragmentItem hist i := by
  obtain ⟨-, item, -, small⟩ := fragment_of_key fragments inside key
  -- the header has one byte for the fragment number, which is enough
  have tag : (UInt32.ofNat (seg.frg.toNat % 256)).toNat = seg.frg.toNat := by
    rw [Nat.mod_eq_of_lt (by omega), UInt32.ofNat_toNat]
  rw [← item]
  simp only [IkcpSeg.item, IkcpSeg.fragment, IkcpSeg.onWire, ikcpSegmentNew, tag]

/-- What arrives as a data segment is one. -/
theorem IkcpSeg.Genuine.arrives (genuine : seg.Genuine conv hist) (fragments : KcpFragments hist)
    (push : seg.onWire.cmd = ikcpCmdPush) :
    ∃ i < hist.length, seg.onWire.item = fragmentItem hist i := by
  obtain ⟨-, ⟨command, -⟩ | ⟨i, inside, key⟩⟩ := genuine
  -- a control segment keeps its command, which is not that of data
  · rw [IkcpSeg.cmd_onWire (.inr command)] at push
    rcases command with same | same | same <;> exact absurd (same.symm.trans push) (by decide)
  · exact ⟨i, inside, item_onWire_of_key fragments inside key⟩

/-- A genuine datagram is read and decoded whole. -/
theorem GenuineDatagram.decode {bytes : List UInt8} (genuine : GenuineDatagram conv hist bytes)
    (fragments : KcpFragments hist) : ∃ segs : List IkcpSeg,
      ikcpDecodeAll conv bytes.length bytes = (segs.map IkcpSeg.onWire, 0) ∧
        bytes = ikcpDatagram segs ∧ ∀ seg ∈ segs, seg.Genuine conv hist := by
  obtain ⟨segs, rfl, -, each⟩ := genuine
  refine ⟨segs, ikcpDecodeAll_datagram ?_ (length_le_length_ikcpDatagram segs), rfl, each⟩
  exact fun seg member => (each seg member).wellFormed fragments

theorem GenuineDatagram.received {d : Datagram} (genuine : GenuineDatagram conv hist d.bytes) :
    d.received kcpRecvBufSize = d.bytes := by
  obtain ⟨-, -, fits, -⟩ := genuine
  exact List.take_of_length_le (by rw [kcpRecvBufSize]; omega)

end Genuine

/-! ## One endpoint -/

/-- An endpoint that has queued `hist`, whose peer has queued `peer`, and that has
returned the messages `got`. -/
structure KcpContext.Serves (conv : UInt32) (hist peer : List (Fragment UInt8))
    (got : List (List UInt8)) (ctx : KcpContext) : Prop where
  configured : ctx.Configured conv
  sends : ∃ n flying, Sends conv hist n flying ctx.kcp
  receives : ∃ r held, Receives peer got r held ctx.kcp

namespace KcpContext.Serves

variable {conv : UInt32} {hist peer : List (Fragment UInt8)} {got : List (List UInt8)}
  {ctx : KcpContext}

theorem start {env : SocketEnv} {role : OmniRole} {bindIp peerIp : Option String}
    {bindPort peerPort : UInt16}
    (init : kcpInit env role bindIp bindPort peerIp peerPort = some ctx) :
    ctx.Serves (if role = .server then bindPort else peerPort).toUInt32 [] [] [] := by
  obtain ⟨fresh, -⟩ := kcpInit_spec init
  exact
    { configured := configured_kcpInit init
      sends := ⟨0, [], fresh ▸ Sends.start _⟩
      receives := ⟨0, [], fresh ▸ Receives.start rfl⟩ }

/-- The peer may queue more at any time. -/
theorem peer_append (serves : ctx.Serves conv hist peer got) (added : List (Fragment UInt8)) :
    ctx.Serves conv hist (peer ++ added) got := by
  obtain ⟨r, held, receives⟩ := serves.receives
  exact ⟨serves.configured, serves.sends, r, held, receives.append added⟩

/-- Letting KCP update its clock emits genuine datagrams. -/
theorem update (serves : ctx.Serves conv hist peer got) (fragments : KcpFragments hist)
    (current : UInt32) :
    KcpContext.Serves conv hist peer got { ctx with kcp := (ikcpUpdate ctx.kcp current).2 } ∧
      ∀ bytes ∈ (ikcpUpdate ctx.kcp current).1, GenuineDatagram conv hist bytes := by
  obtain ⟨n, flying, sends⟩ := serves.sends
  obtain ⟨r, held, receives⟩ := serves.receives
  obtain ⟨config, receiving⟩ := ikcpUpdate_frame ctx.kcp current
  obtain ⟨k, sends', parts, sent, each⟩ := sends.update serves.configured fragments current
  refine ⟨⟨config.trans serves.configured, ⟨_, _, sends'⟩, r, held, receives.congr receiving⟩, ?_⟩
  intro bytes member
  rw [sent] at member
  obtain ⟨part, inside, rfl⟩ := List.mem_map.mp member
  exact ⟨part, rfl, (each part inside).2.1, fun seg member =>
    ((each part inside).2.2 seg member).genuine sends'⟩

/-- Input of a genuine datagram. -/
theorem input (serves : ctx.Serves conv hist peer got) (fragments : KcpFragments peer)
    (few : peer.length < 2 ^ 31) {bytes : List UInt8}
    (genuine : GenuineDatagram conv peer bytes) :
    KcpContext.Serves conv hist peer got { ctx with kcp := (ikcpInput ctx.kcp bytes).2 } := by
  obtain ⟨n, flying, sends⟩ := serves.sends
  obtain ⟨r, held, receives⟩ := serves.receives
  have same : ctx.kcp.conv = conv := congrArg IkcpConfig.conv serves.configured
  have window : ctx.kcp.rcvWnd = 128 := congrArg IkcpConfig.rcvWnd serves.configured
  obtain ⟨segs, decoded, -, each⟩ := genuine.decode fragments
  refine ⟨(ikcpInput_config _ _).trans serves.configured, ⟨n, _, sends.input bytes⟩,
    receives.input window few ?_⟩
  rw [same, decoded]
  intro seg member push
  obtain ⟨sent, inside, rfl⟩ := List.mem_map.mp member
  exact (each sent inside).arrives fragments push

/-- One pass of `kcp_update_loop`. -/
theorem updateLoop (serves : ctx.Serves conv hist peer got) (own : KcpFragments hist)
    (others : KcpFragments peer) (few : peer.length < 2 ^ 31) (now : UInt64)
    {incoming : Option Datagram}
    (genuine : ∀ d, incoming = some d → GenuineDatagram conv peer d.bytes) :
    (kcpUpdateLoop ctx now incoming).2.Serves conv hist peer got ∧
      ∀ out ∈ (kcpUpdateLoop ctx now incoming).1.sent, GenuineDatagram conv hist out.bytes := by
  obtain ⟨updated, emitted⟩ := serves.update own now.toUInt32
  constructor
  · suffices read : (kcpReceive { ctx with kcp := (ikcpUpdate ctx.kcp now.toUInt32).2 }
        incoming).Serves conv hist peer got from ⟨read.configured, read.sends, read.receives⟩
    cases incoming with
    | none => exact updated
    | some d =>
      -- the buffer of `kcp_receive` takes a genuine datagram whole
      have pending := genuine d rfl
      rw [kcpReceive]
      split
      · have taken := updated.input others few pending
        rw [← pending.received] at taken
        exact ⟨taken.configured, taken.sends, taken.receives⟩
      · exact updated
  · intro out member
    obtain ⟨bytes, sent, rfl⟩ := List.mem_map.mp member
    exact emitted bytes sent

/-- `kcp_send` queues a message of admissible length, and does nothing else with
one that is too long. -/
theorem send (serves : ctx.Serves conv hist peer got) {buf : List UInt8}
    (own : KcpFragments hist) (others : KcpFragments peer) (few : peer.length < 2 ^ 31)
    (small : buf.length < 2 ^ 31) (now : UInt64) {incoming : Option Datagram}
    (genuine : ∀ d, incoming = some d → GenuineDatagram conv peer d.bytes) :
    (kcpMaxMessage < buf.length ∧ (kcpSend ctx buf now incoming).1 < 0 ∧
        (kcpSend ctx buf now incoming).2.1.sent = [] ∧
        (kcpSend ctx buf now incoming).2.2 = ctx) ∨
      (buf.length ≤ kcpMaxMessage ∧ (kcpSend ctx buf now incoming).1 = buf.length ∧
        (kcpSend ctx buf now incoming).2.2.Serves conv (hist ++ kcpCutter.fragments buf) peer got ∧
        ∀ out ∈ (kcpSend ctx buf now incoming).2.1.sent,
          GenuineDatagram conv (hist ++ kcpCutter.fragments buf) out.bytes) := by
  rcases kcpSend_spec serves.configured small now incoming with
    ⟨long, failed⟩ | ⟨short, segs, cut, queued⟩
  · rw [failed]
    exact .inl ⟨long, show (-3 : ℤ) < 0 by decide, rfl, rfl⟩
  · obtain ⟨n, flying, sends⟩ := serves.sends
    obtain ⟨r, held, receives⟩ := serves.receives
    have waiting : KcpContext.Serves conv (hist ++ kcpCutter.fragments buf) peer got
        { ctx with kcp := { ctx.kcp with sndQueue := ctx.kcp.sndQueue ++ segs } } :=
      { configured := serves.configured
        sends := ⟨n, flying, sends.append cut⟩
        receives := ⟨r, held, receives.congr rfl⟩ }
    rw [queued]
    exact .inr ⟨short, rfl, waiting.updateLoop (own.append short) others few now genuine⟩

/-- `kcp_recv` returns the next message of the peer, whole, or 0. -/
theorem recv (serves : ctx.Serves conv hist peer got) {accepted : List (List UInt8)} {len : ℕ}
    (queued : peer = kcpCutter.stream accepted) (taken : got <+: accepted)
    (own : KcpFragments hist) (others : KcpFragments peer) (few : peer.length < 2 ^ 31)
    (small : len < 2 ^ 31) (now : UInt64) {incoming : Option Datagram}
    (genuine : ∀ d, incoming = some d → GenuineDatagram conv peer d.bytes) :
    (∀ out ∈ (kcpRecv ctx len now incoming).2.2.1.sent, GenuineDatagram conv hist out.bytes) ∧
      (((kcpRecv ctx len now incoming).1 = 0 ∧
          (kcpRecv ctx len now incoming).2.2.2.Serves conv hist peer got) ∨
        ∃ message, got ++ [message] <+: accepted ∧
          (kcpRecv ctx len now incoming).1 = message.length ∧
          (kcpRecv ctx len now incoming).2.1 = message ∧
          (kcpRecv ctx len now incoming).2.2.2.Serves conv hist peer (got ++ [message])) := by
  obtain ⟨driven, emitted⟩ := serves.updateLoop own others few now genuine
  obtain ⟨r, held, receives⟩ := driven.receives
  have room : 0 ≤ intOfSize len := by
    rw [intOfSize_of_lt small]
    omega
  have frame := ikcpRecv_frame (kcpUpdateLoop ctx now incoming).2.kcp (intOfSize len)
  refine ⟨emitted, ?_⟩
  rcases receives.recv queued taken (fun fragment member => (others fragment member).2) room with
    ⟨failed, same⟩ | ⟨message, r', held', next, value, stored, receives', -⟩
  · refine .inl ⟨?_, ?_⟩
    · simp only [kcpRecv]
      exact if_pos failed
    · simp only [kcpRecv, same]
      exact driven
  · refine .inr ⟨message, next, ?_, stored, ?_⟩
    · simp only [kcpRecv]
      rw [if_neg (by omega), value]
    · obtain ⟨n, flying, sends⟩ := driven.sends
      exact ⟨frame.1.trans driven.configured, ⟨n, flying, sends.congr frame.2⟩,
        r', held', receives'⟩

end KcpContext.Serves

/-! ## Two endpoints -/

/-- An endpoint with its past: the messages `kcp_send` has taken, those `kcp_recv`
has returned and the datagrams handed to `sendto`. -/
structure KcpParty where
  ctx : KcpContext
  accepted : List (List UInt8)
  returned : List (List UInt8)
  emitted : List (List UInt8)
  deriving DecidableEq, Repr

namespace KcpParty

/-- An endpoint `kcp_init` has just returned. -/
def fresh (ctx : KcpContext) : KcpParty where
  ctx := ctx
  accepted := []
  returned := []
  emitted := []

/-- A call: the reply and the endpoint after it. -/
def call (p : KcpParty) (c : KcpCall) : KcpReply × KcpParty :=
  let (reply, ctx) := kcpCall p.ctx c
  (reply,
    { ctx := ctx
      accepted :=
        match c with
        | .send buf _ _ => if 0 ≤ reply.value then p.accepted ++ [buf] else p.accepted
        | .recv _ _ _ => p.accepted
      returned :=
        match c with
        | .send _ _ _ => p.returned
        | .recv _ _ _ => if 0 < reply.value then p.returned ++ [reply.stored] else p.returned
      emitted := p.emitted ++ reply.effects.sent.map Outgoing.bytes })

/-- A call that can happen when the peer has emitted the datagrams `sent`. What is
read from the socket is one of them, any one, wherever it comes from. Messages
are not empty, and every length fits an `int`. -/
def Allows (sent : List (List UInt8)) : KcpCall → Prop
  | .send buf _ incoming =>
    buf ≠ [] ∧ buf.length < 2 ^ 31 ∧ ∀ d ∈ incoming, d.bytes ∈ sent
  | .recv len _ incoming => len < 2 ^ 31 ∧ ∀ d ∈ incoming, d.bytes ∈ sent

instance (sent : List (List UInt8)) (c : KcpCall) : Decidable (Allows sent c) := by
  cases c <;> unfold Allows <;> infer_instance

/-- What holds of an endpoint `p` with the peer `q`. -/
structure Holds (conv : UInt32) (p q : KcpParty) : Prop where
  serves : p.ctx.Serves conv (kcpCutter.stream p.accepted) (kcpCutter.stream q.accepted) p.returned
  taken : p.returned <+: q.accepted
  messages : ∀ message ∈ p.accepted, message ≠ [] ∧ message.length ≤ kcpMaxMessage
  genuine : ∀ bytes ∈ p.emitted, GenuineDatagram conv (kcpCutter.stream p.accepted) bytes

/-- What holds of two endpoints that have only each other. -/
def Linked (conv : UInt32) (p q : KcpParty) : Prop := p.Holds conv q ∧ q.Holds conv p

variable {conv : UInt32} {p q : KcpParty}

theorem accepted_call_send {buf : List UInt8} {now : UInt64} {incoming : Option Datagram}
    (taken : 0 ≤ (p.call (.send buf now incoming)).1.value) :
    (p.call (.send buf now incoming)).2.accepted = p.accepted ++ [buf] :=
  if_pos taken

theorem returned_call_recv {len : ℕ} {now : UInt64} {incoming : Option Datagram}
    (some_byte : 0 < (p.call (.recv len now incoming)).1.value) :
    (p.call (.recv len now incoming)).2.returned =
      p.returned ++ [(p.call (.recv len now incoming)).1.stored] :=
  if_pos some_byte

theorem returned_call_recv_of_zero {len : ℕ} {now : UInt64} {incoming : Option Datagram}
    (none : (p.call (.recv len now incoming)).1.value = 0) :
    (p.call (.recv len now incoming)).2.returned = p.returned :=
  if_neg none.not_gt

theorem accepted_call_recv {len : ℕ} {now : UInt64} {incoming : Option Datagram} :
    (p.call (.recv len now incoming)).2.accepted = p.accepted := rfl

theorem returned_call_send {buf : List UInt8} {now : UInt64} {incoming : Option Datagram} :
    (p.call (.send buf now incoming)).2.returned = p.returned := rfl

theorem Linked.symm (linked : Linked conv p q) : Linked conv q p := And.symm linked

theorem linked_fresh {ctx ctx' : KcpContext} (one : ctx.Serves conv [] [] [])
    (other : ctx'.Serves conv [] [] []) : Linked conv (fresh ctx) (fresh ctx') :=
  ⟨⟨one, List.prefix_rfl, by simp [fresh], by simp [fresh]⟩,
    ⟨other, List.prefix_rfl, by simp [fresh], by simp [fresh]⟩⟩

theorem Holds.fragments (holds : p.Holds conv q) : KcpFragments (kcpCutter.stream p.accepted) :=
  kcpFragments_stream fun message member => (holds.messages message member).2

/-- The peer may take more messages at any time. -/
theorem Holds.peer_append {q' : KcpParty} (holds : p.Holds conv q) {added : List (List UInt8)}
    (more : q'.accepted = q.accepted ++ added) : p.Holds conv q' where
  serves := by
    rw [more, Cutter.stream_append]
    exact holds.serves.peer_append _
  taken := by
    rw [more]
    exact holds.taken.trans (List.prefix_append _ _)
  messages := holds.messages
  genuine := holds.genuine

private theorem Linked.send (linked : Linked conv p q) {buf : List UInt8} {now : UInt64}
    {incoming : Option Datagram} (allowed : Allows q.emitted (.send buf now incoming))
    (few : (kcpCutter.stream q.accepted).length < 2 ^ 31) :
    Linked conv (p.call (.send buf now incoming)).2 q := by
  obtain ⟨mine, theirs⟩ := linked
  obtain ⟨some_byte, small, pending⟩ := allowed
  have genuine : ∀ d, incoming = some d →
      GenuineDatagram conv (kcpCutter.stream q.accepted) d.bytes :=
    fun d same => theirs.genuine _ (pending d same)
  rcases mine.serves.send mine.fragments theirs.fragments few small now genuine with
    ⟨-, failed, silent, same⟩ | ⟨short, value, serves, emitted⟩
  · have unchanged : (p.call (.send buf now incoming)).2 = p := by
      simp only [KcpParty.call, kcpCall, if_neg (not_le.mpr failed), same, silent, List.map_nil,
        List.append_nil]
    rw [unchanged]
    exact ⟨mine, theirs⟩
  · have answered : (p.call (.send buf now incoming)).2 =
        { ctx := (kcpSend p.ctx buf now incoming).2.2
          accepted := p.accepted ++ [buf]
          returned := p.returned
          emitted := p.emitted ++
            (kcpSend p.ctx buf now incoming).2.1.sent.map Outgoing.bytes } := by
      simp only [KcpParty.call, kcpCall, value, if_pos (Int.natCast_nonneg _)]
    rw [answered]
    refine ⟨⟨?_, mine.taken, ?_, ?_⟩, theirs.peer_append rfl⟩
    · simpa only [Cutter.stream_append, Cutter.stream_singleton] using serves
    · intro message member
      rcases List.mem_append.mp member with old | new
      · exact mine.messages message old
      · exact List.mem_singleton.mp new ▸ ⟨some_byte, short⟩
    · -- what was sent before stays genuine, since the stream only grows
      intro bytes member
      rw [Cutter.stream_append, Cutter.stream_singleton]
      rcases List.mem_append.mp member with old | new
      · exact (mine.genuine bytes old).append _
      · obtain ⟨out, sent, rfl⟩ := List.mem_map.mp new
        exact emitted out sent

private theorem Linked.recv (linked : Linked conv p q) {len : ℕ} {now : UInt64}
    {incoming : Option Datagram} (allowed : Allows q.emitted (.recv len now incoming))
    (few : (kcpCutter.stream q.accepted).length < 2 ^ 31) :
    Linked conv (p.call (.recv len now incoming)).2 q := by
  obtain ⟨mine, theirs⟩ := linked
  obtain ⟨small, pending⟩ := allowed
  have genuine : ∀ d, incoming = some d →
      GenuineDatagram conv (kcpCutter.stream q.accepted) d.bytes :=
    fun d same => theirs.genuine _ (pending d same)
  obtain ⟨emitted, result⟩ := mine.serves.recv rfl mine.taken mine.fragments theirs.fragments few
    small now genuine
  have more : ∀ bytes ∈ p.emitted ++
      (kcpRecv p.ctx len now incoming).2.2.1.sent.map Outgoing.bytes,
      GenuineDatagram conv (kcpCutter.stream p.accepted) bytes := by
    intro bytes member
    rcases List.mem_append.mp member with old | new
    · exact mine.genuine bytes old
    · obtain ⟨out, sent, rfl⟩ := List.mem_map.mp new
      exact emitted out sent
  rcases result with ⟨value, serves⟩ | ⟨message, next, value, stored, serves⟩
  · have answered := returned_call_recv_of_zero (p := p) value
    exact ⟨⟨by rw [answered]; exact serves, by rw [answered]; exact mine.taken, mine.messages,
      more⟩, theirs.peer_append (List.append_nil _).symm⟩
  · -- messages are not empty, so the result tells this case from the other
    have positive : 0 < (message.length : ℤ) := by
      have member := next.subset (List.mem_append_right _ (List.mem_singleton_self message))
      have := List.length_pos_iff.mpr (theirs.messages message member).1
      omega
    have answered : (p.call (.recv len now incoming)).2.returned = p.returned ++ [message] := by
      rw [returned_call_recv (positive.trans_eq value.symm)]
      exact congrArg (fun message => p.returned ++ [message]) stored
    exact ⟨⟨by rw [answered]; exact serves, by rw [answered]; exact next, mine.messages, more⟩,
      theirs.peer_append (List.append_nil _).symm⟩

/-- No call of one endpoint breaks the link. -/
theorem Linked.call (linked : Linked conv p q) {c : KcpCall} (allowed : Allows q.emitted c)
    (few : (kcpCutter.stream q.accepted).length < 2 ^ 31) :
    Linked conv (p.call c).2 q := by
  cases c with
  | send buf now incoming => exact linked.send allowed few
  | recv len now incoming => exact linked.recv allowed few

theorem accepted_prefix_call (p : KcpParty) (c : KcpCall) :
    p.accepted <+: (p.call c).2.accepted := by
  cases c with
  | send buf now incoming =>
    simp only [KcpParty.call]
    split
    · exact List.prefix_append _ _
    · exact List.prefix_rfl
  | recv len now incoming => exact List.prefix_rfl

/-- A message that KCP can carry is accepted. -/
theorem call_send_value {conv : UInt32} {p : KcpParty} {buf : List UInt8} (now : UInt64)
    (incoming : Option Datagram) (configured : p.ctx.Configured conv)
    (short : buf.length ≤ kcpMaxMessage) :
    (p.call (.send buf now incoming)).1.value = buf.length := by
  have small : buf.length < 2 ^ 31 := short.trans_lt (by decide)
  rcases kcpSend_spec configured small now incoming with ⟨long, -⟩ | ⟨-, segs, -, queued⟩
  · exact absurd short (not_le.mpr long)
  · simp only [KcpParty.call, kcpCall, queued]

/-- A positive result of `kcp_recv` is the length of what it stored. -/
theorem call_recv_value (p : KcpParty) (len : ℕ) (now : UInt64) (incoming : Option Datagram) :
    (p.call (.recv len now incoming)).1.value = 0 ∨
      (0 < (p.call (.recv len now incoming)).1.value ∧
        (p.call (.recv len now incoming)).1.value =
          (p.call (.recv len now incoming)).1.stored.length) := by
  -- `ikcp_recv` returns what it has copied, or an error
  have result : ∀ (kcp : Ikcpcb) (len : ℤ), (ikcpRecv kcp len).1 < 0 ∨
      (ikcpRecv kcp len).1 = (ikcpRecv kcp len).2.1.length := by
    intro kcp len
    simp only [ikcpRecv]
    split_ifs <;> first | exact .inr rfl | exact .inl (by simp)
  simp only [KcpParty.call, kcpCall, kcpRecv]
  split
  case isTrue => exact .inl rfl
  case isFalse positive =>
    have same := (result (kcpUpdateLoop p.ctx now incoming).2.kcp (intOfSize len)).resolve_left
      positive
    rcases (not_lt.mp positive).eq_or_lt with zero | more
    · exact .inl zero.symm
    · exact .inr ⟨more, same⟩

end KcpParty

/-! ## The machine -/

/-- Two endpoints that have only each other. -/
structure KcpLink where
  client : KcpParty
  server : KcpParty
  deriving DecidableEq, Repr

/-- Which endpoint is called next. -/
inductive KcpLinkLabel
  | client (c : KcpCall)
  | server (c : KcpCall)
  deriving DecidableEq, Repr

namespace KcpLink

/-- One call on either side. -/
def step (s : KcpLink) : KcpLinkLabel → Option KcpLink
  | .client c =>
    if KcpParty.Allows s.server.emitted c then some { s with client := (s.client.call c).2 }
    else none
  | .server c =>
    if KcpParty.Allows s.client.emitted c then some { s with server := (s.server.call c).2 }
    else none

/-- The machine of two endpoints. -/
def machine : Machine KcpLink KcpLinkLabel where
  step := step

/-- Less than 2^31 fragments have been queued on each side. -/
def Few (s : KcpLink) : Prop :=
  (kcpCutter.stream s.client.accepted).length < 2 ^ 31 ∧
    (kcpCutter.stream s.server.accepted).length < 2 ^ 31

instance (s : KcpLink) : Decidable s.Few := inferInstanceAs (Decidable (_ ∧ _))

/-- Both endpoints as `kcp_init` returned them. -/
def start (client server : KcpContext) : KcpLink where
  client := .fresh client
  server := .fresh server

theorem step_client {s t : KcpLink} {c : KcpCall} (step : s.step (.client c) = some t) :
    t = { s with client := (s.client.call c).2 } := by
  rw [KcpLink.step, Option.ite_none_right_eq_some] at step
  exact (Option.some.inj step.2).symm

theorem step_server {s t : KcpLink} {c : KcpCall} (step : s.step (.server c) = some t) :
    t = { s with server := (s.server.call c).2 } := by
  rw [KcpLink.step, Option.ite_none_right_eq_some] at step
  exact (Option.some.inj step.2).symm

/-- Fragments are only ever added. -/
theorem Few.of_step {s t : KcpLink} {label : KcpLinkLabel} (few : t.Few)
    (step : s.step label = some t) : s.Few := by
  -- a longer list of messages makes no shorter stream
  have shorter : ∀ {first second : List (List UInt8)}, first <+: second →
      (kcpCutter.stream first).length ≤ (kcpCutter.stream second).length := by
    rintro first second ⟨rest, rfl⟩
    rw [Cutter.stream_append, List.length_append]
    exact Nat.le_add_right _ _
  cases label with
  | client c =>
    obtain rfl := step_client step
    exact ⟨(shorter (KcpParty.accepted_prefix_call s.client c)).trans_lt few.1, few.2⟩
  | server c =>
    obtain rfl := step_server step
    exact ⟨few.1, (shorter (KcpParty.accepted_prefix_call s.server c)).trans_lt few.2⟩

/-- No call breaks the link. -/
theorem linked_step {conv : UInt32} {s t : KcpLink} {label : KcpLinkLabel}
    (linked : KcpParty.Linked conv s.client s.server) (few : s.Few)
    (step : s.step label = some t) : KcpParty.Linked conv t.client t.server := by
  cases label with
  | client c =>
    rw [KcpLink.step, Option.ite_none_right_eq_some] at step
    obtain ⟨allowed, rfl⟩ := step.imp_right Option.some.inj
    exact linked.call allowed few.2
  | server c =>
    rw [KcpLink.step, Option.ite_none_right_eq_some] at step
    obtain ⟨allowed, rfl⟩ := step.imp_right Option.some.inj
    exact (linked.symm.call allowed few.1).symm

/-- On both sides, at every moment, the messages returned are the front of those
the other side has taken. -/
theorem returned_isPrefix {conv : UInt32} {client server : KcpContext} {labels : List KcpLinkLabel}
    {s : KcpLink} (one : client.Serves conv [] [] []) (other : server.Serves conv [] [] [])
    (hrun : machine.run (start client server) labels = some s) (few : s.Few) :
    s.server.returned <+: s.client.accepted ∧ s.client.returned <+: s.server.accepted := by
  -- the bound on the fragments is about the end of the run, so it is carried as a premise
  have linked : s.Few → KcpParty.Linked conv s.client s.server := by
    refine machine.run_invariant (I := fun s => s.Few → KcpParty.Linked conv s.client s.server)
      ?_ (fun _ => KcpParty.linked_fresh one other) hrun
    intro before label after linked step few
    exact linked_step (linked (few.of_step step)) (few.of_step step) step
  exact ⟨(linked few).2.taken, (linked few).1.taken⟩

end KcpLink

end OmniSocket
