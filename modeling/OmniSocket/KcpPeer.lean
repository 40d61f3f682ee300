/-
# Datagrams that are not KCP

`kcp_update_loop` takes the source of every datagram for the peer before it asks
`ikcp_input` whether the datagram belongs to the conversation, and does not look
at the answer. A datagram that is turned down at its first segment changes
nothing in the control block, but it may change where everything goes from then
on.
-/

import OmniSocket.Kcp
import OmniSocket.Ikcp.Frame

set_option autoImplicit false

namespace OmniSocket

/-- `ikcp_input` turns these bytes down before it has accepted a segment: they
are shorter than a header, carry another conversation number, or have a bad
length or an unknown command in their first header. -/
def IkcpRejects (conv : UInt32) (data : List UInt8) : Prop :=
  data.length < ikcpOverhead ∨ ∃ rc, ikcpDecodeSeg conv data = .error rc

/-- Every error of the checks is negative. -/
theorem ikcpDecodeSeg_error_neg {conv : UInt32} {data : List UInt8} {rc : ℤ}
    (error : ikcpDecodeSeg conv data = .error rc) : rc < 0 := by
  simp only [ikcpDecodeSeg] at error
  split_ifs at error <;> (obtain rfl := Except.error.inj error; decide)

/-- Rejected bytes leave the control block as it is and are answered with an
error. -/
theorem ikcpInput_of_rejects {kcp : Ikcpcb} {data : List UInt8}
    (rejects : IkcpRejects kcp.conv data) :
    (ikcpInput kcp data).1 < 0 ∧ (ikcpInput kcp data).2 = kcp := by
  unfold ikcpInput
  by_cases short : data.length < ikcpOverhead
  · rw [if_pos short]
    exact ⟨show (-1 : ℤ) < 0 by decide, rfl⟩
  · obtain ⟨rc, error⟩ := rejects.resolve_left short
    have negative := ikcpDecodeSeg_error_neg error
    obtain ⟨fuel, length⟩ : ∃ fuel, data.length = fuel + 1 := by
      refine Nat.exists_eq_succ_of_ne_zero fun empty => short ?_
      rw [empty]
      decide
    have decoded : ikcpDecodeAll kcp.conv data.length data = ([], rc) := by
      rw [length, ikcpDecodeAll, if_neg short, error]
    rw [if_neg short, decoded]
    simp only [List.foldl_nil, if_pos negative.ne]
    exact ⟨negative, trivial⟩

/-- The datagram leaves an endpoint as if it had not arrived: the call has the
same effects and the same new context as the call without it, and every later
sequence of calls has the same replies. -/
def LeavesNoTrace (ctx : KcpContext) (now : UInt64) (d : Datagram) : Prop :=
  kcpUpdateLoop ctx now (some d) = kcpUpdateLoop ctx now none ∧
    ∀ calls, kcpCalls (kcpUpdateLoop ctx now (some d)).2 calls =
      kcpCalls (kcpUpdateLoop ctx now none).2 calls

/-- A rejected datagram with any byte in it makes its source the peer, and does
nothing else. -/
theorem kcpUpdateLoop_of_rejects {ctx : KcpContext} (now : UInt64) {d : Datagram}
    (rejects : IkcpRejects ctx.kcp.conv (d.received kcpRecvBufSize)) (some_byte : d.bytes ≠ []) :
    kcpUpdateLoop ctx now (some d) =
      ((kcpUpdateLoop ctx now none).1,
        { (kcpUpdateLoop ctx now none).2 with
          peerAddr := d.source, peerLen := d.sourceLen }) := by
  have conv : (ikcpUpdate ctx.kcp now.toUInt32).2.conv = ctx.kcp.conv :=
    congrArg IkcpConfig.conv (ikcpUpdate_frame ctx.kcp now.toUInt32).1
  have unchanged : (ikcpInput (ikcpUpdate ctx.kcp now.toUInt32).2
      (d.received kcpRecvBufSize)).2 = (ikcpUpdate ctx.kcp now.toUInt32).2 :=
    (ikcpInput_of_rejects (conv ▸ rejects)).2
  have read : 0 < (d.received kcpRecvBufSize).length := by
    rw [Datagram.received, List.length_take, kcpRecvBufSize]
    have := List.length_pos_iff.mpr some_byte
    omega
  simp only [kcpUpdateLoop, kcpReceive, if_pos read, unchanged]
  rfl

/-- A rejected datagram leaves no trace exactly when it is empty or comes from
the peer. -/
theorem leavesNoTrace_iff {ctx : KcpContext} {now : UInt64} {d : Datagram}
    (rejects : IkcpRejects ctx.kcp.conv (d.received kcpRecvBufSize)) :
    LeavesNoTrace ctx now d ↔
      (d.bytes = [] ∨ (d.source = ctx.peerAddr ∧ d.sourceLen = ctx.peerLen)) := by
  have peer : (kcpUpdateLoop ctx now none).2.peerAddr = ctx.peerAddr ∧
      (kcpUpdateLoop ctx now none).2.peerLen = ctx.peerLen := ⟨rfl, rfl⟩
  by_cases empty : d.bytes = []
  · have same : kcpUpdateLoop ctx now (some d) = kcpUpdateLoop ctx now none := by
      simp [kcpUpdateLoop, kcpReceive, Datagram.received, empty]
    exact ⟨fun _ => .inl empty, fun _ => ⟨same, fun calls => by rw [same]⟩⟩
  · have call := kcpUpdateLoop_of_rejects now rejects empty
    constructor
    · rintro ⟨same, -⟩
      rw [call] at same
      have context := congrArg Prod.snd same
      exact .inr ⟨(congrArg KcpContext.peerAddr context).trans peer.1,
        (congrArg KcpContext.peerLen context).trans peer.2⟩
    · intro from_peer
      obtain ⟨source, sourceLen⟩ := from_peer.resolve_left empty
      have same : kcpUpdateLoop ctx now (some d) = kcpUpdateLoop ctx now none := by
        rw [call, source, sourceLen]
        rfl
      exact ⟨same, fun calls => by rw [same]⟩

/-- A client of 127.0.0.1:9002 as `kcp_init` makes it. -/
private def strayClient : KcpContext := ⟨⟨9002, 0x0100007f⟩, 16, kcpConfigure 9002, 0⟩

/-- One byte from a third party. -/
private def stray : Datagram where
  source := ⟨6666, 0x06060606⟩
  sourceLen := 16
  bytes := [0]

/-- One stray byte redirects a client: the next message goes to the stranger. -/
theorem leavesNoTrace_counterexample :
    IkcpRejects strayClient.kcp.conv (stray.received kcpRecvBufSize) ∧
      ((kcpSend (kcpUpdateLoop strayClient 5 (some stray)).2 [1, 2] 15 none).2.1.sent.map
        Outgoing.target) = [⟨6666, 0x06060606⟩] ∧
      ((kcpSend (kcpUpdateLoop strayClient 5 none).2 [1, 2] 15 none).2.1.sent.map
        Outgoing.target) = [⟨9002, 0x0100007f⟩] ∧
      ¬ ∀ (ctx : KcpContext) (now : UInt64) (d : Datagram),
        IkcpRejects ctx.kcp.conv (d.received kcpRecvBufSize) → LeavesNoTrace ctx now d := by
  have rejects : IkcpRejects strayClient.kcp.conv (stray.received kcpRecvBufSize) :=
    .inl (by decide)
  refine ⟨rejects, by decide +kernel, by decide +kernel, fun always => ?_⟩
  have peer := congrArg (fun result => result.2.peerAddr) (always strayClient 5 stray rejects).1
  exact absurd peer (by decide +kernel)

theorem leavesNoTrace_iff_stray :
    LeavesNoTrace strayClient 5 stray ↔
      (stray.bytes = [] ∨ (stray.source = strayClient.peerAddr ∧
        stray.sourceLen = strayClient.peerLen)) :=
  leavesNoTrace_iff (.inl (by decide))

end OmniSocket
