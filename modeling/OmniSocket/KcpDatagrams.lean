/-
# What an endpoint hands to `kcp_output`

A peer reads datagrams into a buffer of 1500 bytes, `ikcp.c` fills them up to its
own limit of 1400, and nothing but the packing of `ikcp_flush` makes the two agree
with each other and with `ikcp_input`. They do: whatever an endpoint was told to send
and whatever it was sent, its datagrams reach the peer whole and are whole segments to
it.
-/

import OmniSocket.KcpBacklog
import OmniSocket.KcpNumbers

set_option autoImplicit false

namespace OmniSocket

open Lib

/-! ## Whole datagrams -/

/-- A datagram that an endpoint of the conversation `conv` reads whole, parses to the
last byte and answers with 0. -/
structure WholeDatagram (conv : UInt32) (bytes : List UInt8) : Prop where
  header : ikcpOverhead ≤ bytes.length
  mtu : bytes.length ≤ 1400
  read : ∀ d : Datagram, d.bytes = bytes → d.received kcpRecvBufSize = bytes
  segments : ∃ segs : List IkcpSeg, bytes = ikcpDatagram segs ∧
    (∀ seg ∈ segs, seg.WellFormed conv) ∧
    ikcpDecodeAll conv bytes.length bytes = (segs.map IkcpSeg.onWire, 0)
  answer : ∀ kcp : Ikcpcb, kcp.conv = conv → (ikcpInput kcp bytes).1 = 0

/-- Some well-formed segments that fit are such a datagram. -/
theorem wholeDatagram_of_segs {conv : UInt32} {segs : List IkcpSeg} (some_seg : segs ≠ [])
    (fits : (ikcpDatagram segs).length ≤ 1400)
    (wellFormed : ∀ seg ∈ segs, seg.WellFormed conv) :
    WholeDatagram conv (ikcpDatagram segs) := by
  have decoded : ikcpDecodeAll conv (ikcpDatagram segs).length (ikcpDatagram segs) =
      (segs.map IkcpSeg.onWire, 0) :=
    ikcpDecodeAll_datagram wellFormed (length_le_length_ikcpDatagram segs)
  have header : ikcpOverhead ≤ (ikcpDatagram segs).length := by
    obtain ⟨seg, rest, rfl⟩ := List.exists_cons_of_ne_nil some_seg
    rw [ikcpDatagram_cons, List.length_append, length_ikcpSegBytes]
    omega
  refine ⟨header, fits, ?_, ⟨segs, rfl, wellFormed, decoded⟩, ?_⟩
  · rintro d same
    rw [Datagram.received, same, kcpRecvBufSize]
    exact List.take_of_length_le (by omega)
  · rintro kcp rfl
    rw [ikcpInput, if_neg (by omega), decoded]
    rfl

/-- A flush emits nothing else. -/
theorem Emits.whole {conv : UInt32} {hist : List (Fragment UInt8)} {n : ℕ} {flying : List ℕ}
    {kcp kcp' : Ikcpcb} {datagrams : List (List UInt8)} (fragments : KcpFragments hist)
    (sends : Sends conv hist n flying kcp')
    (emits : Emits datagrams (Written conv hist flying kcp)) :
    ∀ bytes ∈ datagrams, WholeDatagram conv bytes := by
  obtain ⟨parts, rfl, each⟩ := emits
  intro bytes member
  obtain ⟨part, inside, rfl⟩ := List.mem_map.mp member
  obtain ⟨some_seg, fits, written⟩ := each part inside
  exact wholeDatagram_of_segs some_seg fits fun seg listed =>
    ((written seg listed).genuine sends).wellFormed fragments

/-! ## Any sequence of calls -/

/-- `ikcp_send` with the length that the size of any buffer narrows to: it turns the call
down, or queues the front of the buffer as one message. -/
theorem ikcpSend_intOfSize {conv : UInt32} {kcp : Ikcpcb} (configured : kcp.config = kcpConfig conv)
    (buf : List UInt8) :
    (¬ (0 ≤ intOfSize buf.length ∧ intOfSize buf.length ≤ kcpMaxMessage) ∧
      ∃ rc < 0, ikcpSend kcp buf (intOfSize buf.length) = (rc, kcp)) ∨
    ((0 ≤ intOfSize buf.length ∧ intOfSize buf.length ≤ kcpMaxMessage) ∧
      ∃ (msg : List UInt8) (segs : List IkcpSeg), msg.length ≤ kcpMaxMessage ∧
        segs.map IkcpSeg.fragment = kcpCutter.fragments msg ∧
        ikcpSend kcp buf (intOfSize buf.length) =
          (intOfSize buf.length, { kcp with sndQueue := kcp.sndQueue ++ segs }) ∧
        msg = buf.take (intOfSize buf.length).toNat) := by
  rcases lt_or_ge (intOfSize buf.length) 0 with negative | nonneg
  · exact .inl ⟨by omega, -1, by omega, by rw [ikcpSend, if_pos negative]⟩
  · obtain ⟨len, len_eq⟩ := Int.eq_ofNat_of_zero_le nonneg
    have bounds := intOfSize_eq buf.length
    have inside : len ≤ buf.length ∧ len < 2 ^ 31 := by
      split at bounds <;> omega
    rw [len_eq]
    rcases ikcpSend_spec (congrArg IkcpConfig.mss configured)
      (congrArg IkcpConfig.stream configured) inside.2 inside.1 with
      ⟨long, failed⟩ | ⟨short, segs, cut, queued⟩
    · exact .inl ⟨by omega, -2, by omega, failed⟩
    · have length := List.length_take_le len buf
      exact .inr ⟨by omega, _, segs, length.trans short, cut, queued, rfl⟩

namespace KcpContext

variable {conv : UInt32} {ctx : KcpContext}

/-- The sending half is in order, in the conversation `conv`. -/
def SendingIn (conv : UInt32) (ctx : KcpContext) : Prop :=
  ∃ hist n flying, ctx.Configured conv ∧ Sends conv hist n flying ctx.kcp ∧ KcpFragments hist

/-- Driving the protocol keeps it so and hands over whole datagrams. -/
theorem SendingIn.updateLoop (sending : ctx.SendingIn conv) (now : UInt64)
    (incoming : Option Datagram) :
    (kcpUpdateLoop ctx now incoming).2.SendingIn conv ∧
      ∀ out ∈ (kcpUpdateLoop ctx now incoming).1.sent, WholeDatagram conv out.bytes := by
  obtain ⟨hist, n, flying, configured, sends, fragments⟩ := sending
  obtain ⟨k, updated, emits⟩ := sends.update configured fragments now.toUInt32
  have ready : Sends conv hist (n + k) (flying ++ List.range' n k)
    ({ ctx with kcp := (ikcpUpdate ctx.kcp now.toUInt32).2 } : KcpContext).kcp := updated
  obtain ⟨left, received, -⟩ := ready.receive incoming
  constructor
  · exact ⟨hist, n + k, left, (config_kcpUpdateLoop ctx now incoming).trans configured, received,
      fragments⟩
  · intro out handed
    obtain ⟨bytes, sent, rfl⟩ := List.mem_map.mp handed
    exact emits.whole fragments updated bytes sent

/-- Queueing keeps it so, whatever length the call of `ikcp_send` narrows to. -/
theorem SendingIn.queue (sending : ctx.SendingIn conv) (buf : List UInt8) :
    SendingIn conv { ctx with kcp := (ikcpSend ctx.kcp buf (intOfSize buf.length)).2 } := by
  obtain ⟨hist, n, flying, configured, sends, fragments⟩ := sending
  rcases ikcpSend_intOfSize configured buf with
    ⟨-, rc, -, refused⟩ | ⟨-, msg, segs, short, cut, queued, -⟩
  · rw [refused]
    exact ⟨hist, n, flying, configured, sends, fragments⟩
  · rw [queued]
    exact ⟨_, n, flying, configured, sends.append cut, fragments.append short⟩

/-- Every call keeps it so and hands over whole datagrams. -/
theorem SendingIn.call (sending : ctx.SendingIn conv) (call : KcpCall) :
    (kcpCall ctx call).2.SendingIn conv ∧
      ∀ out ∈ (kcpCall ctx call).1.effects.sent, WholeDatagram conv out.bytes := by
  cases call with
  | send buf now incoming =>
    have queued := sending.queue buf
    simp only [kcpCall, kcpSend]
    split_ifs
    · exact ⟨queued, fun out handed => absurd handed List.not_mem_nil⟩
    · exact queued.updateLoop now incoming
  | recv len now incoming =>
    obtain ⟨⟨hist, n, flying, configured, sends, fragments⟩, whole⟩ :=
      sending.updateLoop now incoming
    simp only [kcpCall, kcpRecv]
    obtain ⟨config, same⟩ := ikcpRecv_frame (kcpUpdateLoop ctx now incoming).2.kcp (intOfSize len)
    exact ⟨⟨hist, n, flying, config.trans configured, sends.congr same, fragments⟩, whole⟩

end KcpContext

/-- An endpoint is in order after any calls. -/
theorem KcpReachable.sendingIn {ctx : KcpContext} (reachable : KcpReachable ctx) :
    ctx.SendingIn ctx.kcp.conv := by
  obtain ⟨env, role, bindIp, bindPort, peerIp, peerPort, start, calls, init, hrun⟩ := reachable
  obtain ⟨⟨conv, hist, n, flying, configured, sends, fragments⟩, -⟩ :=
    KcpContext.sending_kcpInit init
  have sending : ctx.SendingIn conv := by
    refine kcpMachine.run_invariant (I := fun ctx => ctx.SendingIn conv) ?_
      ⟨hist, n, flying, configured, sends, fragments⟩ hrun
    rintro before call after sending step
    obtain rfl := Option.some.inj step
    exact (sending.call call).1
  have same : ctx.kcp.conv = conv := by
    obtain ⟨-, -, -, configured, -, -⟩ := sending
    exact congrArg IkcpConfig.conv configured
  exact same.symm ▸ sending

/-- Whatever calls an endpoint has seen and whatever it has been sent, hostile datagrams
included: every datagram of its next call has between 24 and 1400 bytes, is read whole
by a peer, and is some segments that every endpoint of the conversation parses to the
last byte and answers with 0. -/
theorem kcp_datagrams_whole {ctx : KcpContext} (reachable : KcpReachable ctx) (call : KcpCall) :
    ∀ out ∈ (kcpCall ctx call).1.effects.sent, WholeDatagram ctx.kcp.conv out.bytes :=
  (reachable.sendingIn.call call).2

/-- A client of a server on port 9002 after a datagram that is not of its conversation. -/
private def strayedClient : KcpContext :=
  (kcpCall ⟨⟨9002, 0x0100007f⟩, 16, kcpConfigure 9002, 0⟩
    (.recv 64 0 (some ⟨⟨40000, 0x7f000001⟩, 16, List.replicate 24 0⟩))).2

private theorem reachable_strayedClient : KcpReachable strayedClient :=
  ⟨⟨fun _ => 0x0100007f, true, true, fun _ => true, true⟩, .client, none, 0, some "127.0.0.1",
    9002, _, [.recv 64 0 (some ⟨⟨40000, 0x7f000001⟩, 16, List.replicate 24 0⟩)],
    by decide +kernel, rfl⟩

/-- Its first message is one datagram of one segment. -/
theorem kcp_datagrams_whole_abc :
    ∃ out, (kcpCall strayedClient (.send [97, 98, 99] 10 none)).1.effects.sent = [out] ∧
      out.bytes.length = 27 ∧ WholeDatagram 9002 out.bytes := by
  have sent : ((kcpCall strayedClient (.send [97, 98, 99] 10 none)).1.effects.sent.map
      fun out => out.bytes.length) = [27] := by decide +kernel
  obtain ⟨out, rest, handed, length, none⟩ := List.map_eq_cons_iff.mp sent
  rw [List.map_eq_nil_iff.mp none] at handed
  exact ⟨out, handed, length, kcp_datagrams_whole reachable_strayedClient _ out
    (handed ▸ List.mem_singleton_self out)⟩

end OmniSocket
