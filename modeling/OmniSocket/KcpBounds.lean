/-
# What an endpoint can be made to hold

An endpoint reads datagrams from anybody. Whatever they contain, whatever calls
are made and whatever the clock reads, what it stores of them is bounded: at
most 128 segments in the receive queue and 128 in the receive buffer, each with
at most 1476 bytes, and its timers stay within their limits. Its own segments in
flight are at most 128, in the order of their numbers.
-/

import OmniSocket.Ikcp.Settled
import OmniSocket.KcpDatagrams
import OmniSocket.KcpRetrans

set_option autoImplicit false

namespace OmniSocket

open Lib

/-! ## Timers -/

/-- The retransmission timeout and the wait for a window probe are within their
limits. -/
def Ikcpcb.Timed (kcp : Ikcpcb) : Prop :=
  (30 ≤ kcp.rxRto.toInt ∧ kcp.rxRto.toInt ≤ 60000) ∧
    (kcp.probeWait = 0 ∨ 7000 ≤ kcp.probeWait.toNat ∧ kcp.probeWait.toNat ≤ 120000)

/-- What `Timed` is about. -/
def Ikcpcb.timers (kcp : Ikcpcb) : Int32 × UInt32 := (kcp.rxRto, kcp.probeWait)

namespace Ikcpcb.Timed

variable {kcp kcp' : Ikcpcb}

theorem congr (timed : kcp.Timed) (same : kcp'.timers = kcp.timers) : kcp'.Timed := by
  obtain ⟨rto, wait⟩ := Prod.mk.inj same
  rw [Timed, rto, wait]
  exact timed

/-- `ikcp_update_ack` bounds the timeout whatever the round trip was. -/
theorem updateAck (timed : kcp.Timed) (minrto : kcp.rxMinrto = 30) (rtt : Int32) :
    (ikcpUpdateAck kcp rtt).Timed := by
  -- whatever is computed before, the last step cuts it to the limits
  have bounded : ∀ rto : UInt32, 30 ≤ (ibound (30 : Int32).toUInt32 rto 60000).toInt32.toInt ∧
      (ibound (30 : Int32).toUInt32 rto 60000).toInt32.toInt ≤ 60000 := by
    intro rto
    have low : 30 ≤ (ibound (30 : Int32).toUInt32 rto 60000).toNat ∧
        (ibound (30 : Int32).toUInt32 rto 60000).toNat ≤ 60000 := by
      simp only [ibound, imin, imax, UInt32.le_iff_toNat_le, ge_iff_le]
      have thirty : (30 : Int32).toUInt32.toNat = 30 := by decide
      split_ifs <;> simp only [UInt32.reduceToNat] at * <;> omega
    have value := toInt_toInt32_ofNat
      (a := (ibound (30 : Int32).toUInt32 rto 60000).toNat) (by omega)
    rw [UInt32.ofNat_toNat] at value
    omega
  simp only [ikcpUpdateAck]
  split_ifs <;> exact ⟨by simp only [minrto]; exact bounded _, timed.2⟩

theorem inputSeg {st : IkcpInput} (timed : st.kcp.Timed) (minrto : st.kcp.rxMinrto = 30)
    (seg : IkcpSeg) : (ikcpInputSeg st seg).kcp.Timed := by
  have shrink : ∀ kcp : Ikcpcb, (ikcpShrinkBuf kcp).timers = kcp.timers := by
    intro kcp
    unfold ikcpShrinkBuf
    split <;> rfl
  have push : ∀ kcp : Ikcpcb, (ikcpInputPush kcp seg).timers = kcp.timers := by
    intro kcp
    simp only [ikcpInputPush, ikcpParseData]
    split_ifs <;> rfl
  have parse : ∀ kcp : Ikcpcb, (ikcpParseAck kcp seg.sn).timers = kcp.timers := by
    intro kcp
    unfold ikcpParseAck
    split_ifs <;> rfl
  have first : (ikcpShrinkBuf (ikcpParseUna { st.kcp with rmtWnd := seg.wnd } seg.una)).Timed :=
    timed.congr (shrink _)
  have settings := (ikcpInputUna_frame st.kcp seg).1
  simp only [ikcpInputSeg]
  split_ifs
  · simp only [ikcpInputAck]
    refine Timed.congr ?_ ((shrink _).trans (parse _))
    split_ifs
    · exact first.updateAck ((congrArg IkcpConfig.rxMinrto settings).trans minrto) _
    · exact first
  · exact first.congr (push _)
  · exact first
  · exact first

/-- Whatever a datagram contains. -/
theorem input (timed : kcp.Timed) (minrto : kcp.rxMinrto = 30) (data : List UInt8) :
    (ikcpInput kcp data).2.Timed := by
  have loop : ∀ (segs : List IkcpSeg) (st : IkcpInput), st.kcp.rxMinrto = 30 → st.kcp.Timed →
      (segs.foldl ikcpInputSeg st).kcp.Timed := by
    intro segs
    induction segs with
    | nil => exact fun st _ timed => timed
    | cons seg rest ih =>
      intro st minrto timed
      exact ih _ ((congrArg IkcpConfig.rxMinrto (ikcpInputSeg_config st seg)).trans minrto)
        (timed.inputSeg minrto seg)
  refine Timed.congr (loop (ikcpDecodeAll kcp.conv data.length data).1
    { kcp := kcp, newest := none } minrto timed) ?_
  refine ikcpInput_eq_loop Ikcpcb.timers ?_ ?_ kcp data
  · intro kcp sn ts
    unfold ikcpParseFastack
    split_ifs <;> rfl
  · intro kcp prevUna
    simp only [ikcpInputCwnd]
    split_ifs <;> rfl

/-- A flush makes the wait longer by half, up to two minutes. -/
theorem probe (timed : kcp.Timed) : (ikcpFlushProbe kcp).Timed := by
  have longer : 7000 ≤ (ikcpProbeBackoff kcp.probeWait).toNat ∧
      (ikcpProbeBackoff kcp.probeWait).toNat ≤ 120000 := by
    have wait := timed.2
    simp only [ikcpProbeBackoff, UInt32.lt_iff_toNat_lt, UInt32.reduceToNat]
    rcases wait with zero | bounds
    · rw [zero]
      decide
    · have sum : (kcp.probeWait + kcp.probeWait / 2).toNat =
          kcp.probeWait.toNat + kcp.probeWait.toNat / 2 := by
        rw [UInt32.toNat_add, UInt32.toNat_div, Nat.mod_eq_of_lt]
        · rfl
        · simp only [UInt32.reduceToNat]
          omega
      have enough : ¬ kcp.probeWait.toNat < 7000 := not_lt.mpr bounds.1
      simp only [if_neg enough, sum]
      split_ifs
      · decide
      · omega
  simp only [ikcpFlushProbe]
  split_ifs
  · exact ⟨timed.1, .inr (show 7000 ≤ (7000 : UInt32).toNat ∧ (7000 : UInt32).toNat ≤ 120000 by
      decide)⟩
  · exact ⟨timed.1, .inr longer⟩
  · exact timed
  · exact ⟨timed.1, .inl rfl⟩

theorem update (timed : kcp.Timed) (current : UInt32) : (ikcpUpdate kcp current).2.Timed := by
  have timer : (ikcpUpdateTimer kcp current).2.timers = kcp.timers := by
    simp only [ikcpUpdateTimer]
    split_ifs <;> rfl
  have flush : ∀ kcp : Ikcpcb, kcp.Timed → (ikcpFlush kcp).2.Timed := by
    intro kcp timed
    have last : ∀ (flushed : Ikcpcb) (cwnd : UInt32) (change : ℕ) (lost : Bool),
        (ikcpFlushSsthresh flushed cwnd change lost).timers = flushed.timers := by
      intro flushed cwnd change lost
      simp only [ikcpFlushSsthresh]
      split_ifs <;> rfl
    have probed : (ikcpFlushProbe { kcp with acklist := [] }).Timed :=
      probe (show Timed { kcp with acklist := [] } from timed)
    rw [ikcpFlush]
    split_ifs
    · exact timed
    · exact probed.congr (last _ _ _ _)
  have ready := timed.congr timer
  unfold ikcpUpdate
  split
  case h_1 due result =>
    rw [result] at ready
    exact flush due ready
  case h_2 idle result =>
    rw [result] at ready
    exact ready

end Ikcpcb.Timed

/-! ## Segments off the wire -/

/-- A segment as it can be decoded from what `recvfrom` stores. -/
structure IkcpSeg.OffWire (conv : UInt32) (seg : IkcpSeg) : Prop where
  same : seg.conv = conv
  fits : ikcpOverhead + seg.data.length ≤ kcpRecvBufSize
  tag : seg.frg.toNat < 256

/-- The decoder takes its segments off the bytes it is given. -/
theorem offWire_of_mem_decodeAll {conv : UInt32} {fuel : ℕ} {data : List UInt8} {seg : IkcpSeg}
    (fits : data.length ≤ kcpRecvBufSize) (member : seg ∈ (ikcpDecodeAll conv fuel data).1) :
    seg.OffWire conv := by
  induction fuel generalizing data with
  | zero => exact absurd member List.not_mem_nil
  | succ fuel ih =>
    rw [ikcpDecodeAll] at member
    split_ifs at member with short
    · exact absurd member List.not_mem_nil
    split at member
    case h_1 => exact absurd member List.not_mem_nil
    case h_2 first rest decoded =>
      -- one header is taken off, then the data
      simp only [ikcpDecodeSeg, ikcpDecode, List.drop_drop] at decoded
      split_ifs at decoded with other length unknown
      obtain ⟨rfl, rfl⟩ := Prod.mk.inj (Except.ok.inj decoded)
      rcases List.mem_cons.mp member with rfl | later
      · refine ⟨not_not.mp other, ?_, ?_⟩
        · simp only [ikcpSegmentNew, List.length_take, List.length_drop, ikcpOverhead]
          rw [ikcpOverhead] at short
          omega
        · -- the field has one byte
          have byte : leNat (List.take 1 (List.drop (4 + 1) data)) < 256 ^ 1 :=
            (leNat_lt _).trans_le (Nat.pow_le_pow_right (by decide) (List.length_take_le 1 _))
          have low := Nat.mod_le (leNat (List.take 1 (List.drop (4 + 1) data))) (2 ^ 32)
          simp only [UInt32.toNat_ofNat']
          omega
      · refine ih ?_ later
        simp only [List.length_drop]
        omega

/-! ## What holds of every endpoint -/

/-- What the peer can make an endpoint hold, and what it holds of its own. -/
structure Ikcpcb.Bounded (kcp : Ikcpcb) : Prop where
  queued : kcp.rcvQueue.length ≤ 128
  buffered : kcp.rcvBuf.length ≤ 128
  /-- Segments of the conversation, each from one datagram. -/
  received : ∀ seg ∈ kcp.rcvQueue ++ kcp.rcvBuf, seg.conv = kcp.conv ∧ seg.data.length ≤ 1476
  /-- The buffer is sorted, without repetition, in the window. -/
  sorted : (kcp.rcvBuf.map (IkcpSeg.offset kcp.rcvNxt)).Pairwise (· < ·)
  window : ∀ seg ∈ kcp.rcvBuf, seg.offset kcp.rcvNxt < 128
  /-- The next segment is not left waiting while the queue has room. -/
  moved : ∀ seg ∈ kcp.rcvBuf.head?, seg.sn = kcp.rcvNxt → kcp.rcvQueue.length = 128
  /-- The segments in flight lie in order between `snd_una` and `snd_nxt`. -/
  flying : kcp.sndBuf.length ≤ 128 ∧ (kcp.sndNxt - kcp.sndUna).toNat ≤ 128
  flyingSorted : (kcp.sndBuf.map (IkcpSeg.offset kcp.sndUna)).Pairwise (· < ·)
  flyingWindow : ∀ seg ∈ kcp.sndBuf,
    seg.offset kcp.sndUna < (kcp.sndNxt - kcp.sndUna).toNat ∧ seg.data.length ≤ 1376
  /-- `snd_una` is the first of them, or the next number. -/
  oldest : kcp.sndUna = (kcp.sndBuf.head?.map IkcpSeg.sn).getD kcp.sndNxt
  timed : kcp.Timed

namespace KcpContext

variable {conv : UInt32} {ctx : KcpContext}

/-- What the datagrams of others do to an endpoint. -/
structure Sturdy (conv : UInt32) (ctx : KcpContext) : Prop where
  configured : ctx.Configured conv
  settled : ctx.kcp.Settled
  keeps : ctx.kcp.KeepsOnly (IkcpSeg.OffWire conv)
  timed : ctx.kcp.Timed

theorem Sturdy.receive (sturdy : ctx.Sturdy conv) (incoming : Option Datagram) :
    (kcpReceive ctx incoming).Sturdy conv := by
  cases incoming with
  | none => exact sturdy
  | some d =>
    rw [kcpReceive]
    split
    case isFalse => exact sturdy
    case isTrue =>
      have same : ctx.kcp.conv = conv := congrArg IkcpConfig.conv sturdy.configured
      have fits : (d.received kcpRecvBufSize).length ≤ kcpRecvBufSize := List.length_take_le _ _
      have taken := sturdy.settled.input (congrArg IkcpConfig.rcvWnd sturdy.configured) sturdy.keeps
        (d.received kcpRecvBufSize) fun seg member => same ▸ offWire_of_mem_decodeAll fits member
      exact ⟨(ikcpInput_config _ _).trans sturdy.configured, taken.1, taken.2,
        sturdy.timed.input (congrArg IkcpConfig.rxMinrto sturdy.configured) _⟩

theorem Sturdy.updateLoop (sturdy : ctx.Sturdy conv) (now : UInt64) (incoming : Option Datagram) :
    (kcpUpdateLoop ctx now incoming).2.Sturdy conv := by
  obtain ⟨config, receiving⟩ := ikcpUpdate_frame ctx.kcp now.toUInt32
  have updated : Sturdy conv { ctx with kcp := (ikcpUpdate ctx.kcp now.toUInt32).2 } :=
    ⟨config.trans sturdy.configured, sturdy.settled.congr receiving, sturdy.keeps.congr receiving,
      sturdy.timed.update _⟩
  obtain ⟨configured, settled, keeps, timed⟩ := updated.receive incoming
  exact ⟨configured, settled, keeps, timed⟩

theorem Sturdy.call (sturdy : ctx.Sturdy conv) (call : KcpCall) :
    (kcpCall ctx call).2.Sturdy conv := by
  cases call with
  | send buf now incoming =>
    have frame := ikcpSend_frame ctx.kcp buf (intOfSize buf.length)
    have timers : (ikcpSend ctx.kcp buf (intOfSize buf.length)).2.timers = ctx.kcp.timers := by
      rcases ikcpSend_intOfSize sturdy.configured buf with
        ⟨-, rc, -, refused⟩ | ⟨-, msg, segs, -, -, queued, -⟩
      · rw [refused]
      · rw [queued]
        rfl
    have queued : Sturdy conv
        { ctx with kcp := (ikcpSend ctx.kcp buf (intOfSize buf.length)).2 } :=
      ⟨frame.1.trans sturdy.configured, sturdy.settled.congr frame.2, sturdy.keeps.congr frame.2,
        sturdy.timed.congr timers⟩
    simp only [kcpCall, kcpSend]
    split_ifs
    · exact queued
    · exact queued.updateLoop now incoming
  | recv len now incoming =>
    have driven := sturdy.updateLoop now incoming
    have taken := driven.settled.recv (congrArg IkcpConfig.rcvWnd driven.configured) driven.keeps
      (intOfSize len)
    have timers : (ikcpRecv (kcpUpdateLoop ctx now incoming).2.kcp (intOfSize len)).2.2.timers =
        (kcpUpdateLoop ctx now incoming).2.kcp.timers := by
      simp only [ikcpRecv]
      split_ifs <;> rfl
    simp only [kcpCall, kcpRecv]
    exact ⟨(ikcpRecv_frame _ _).1.trans driven.configured, taken.1, taken.2,
      driven.timed.congr timers⟩

end KcpContext

theorem KcpReachable.sturdy {ctx : KcpContext} (reachable : KcpReachable ctx) :
    ctx.Sturdy ctx.kcp.conv := by
  obtain ⟨env, role, bindIp, bindPort, peerIp, peerPort, start, calls, init, hrun⟩ := reachable
  have fresh := (kcpInit_spec init).1
  have sturdy : ctx.Sturdy (if role = .server then bindPort else peerPort).toUInt32 := by
    refine kcpMachine.run_invariant (I := fun ctx => ctx.Sturdy _) ?_ ?_ hrun
    · rintro before call after sturdy step
      obtain rfl := Option.some.inj step
      exact sturdy.call call
    · have empty : start.kcp.receiving = (0, [], []) := by
        rw [fresh]
        rfl
      refine ⟨configured_kcpInit init, (Ikcpcb.Settled.start (P := fun _ => True) empty).1,
        (Ikcpcb.Settled.start empty).2, ?_⟩
      rw [fresh]
      exact ⟨show 30 ≤ (200 : Int32).toInt ∧ (200 : Int32).toInt ≤ 60000 by decide, .inl rfl⟩
  have same : ctx.kcp.conv = _ := congrArg IkcpConfig.conv sturdy.configured
  exact same.symm ▸ sturdy

/-- The numbers in flight, as distances from the oldest one. -/
theorem Sends.offset_eq {conv : UInt32} {hist : List (Fragment UInt8)} {n : ℕ} {flying : List ℕ}
    {kcp : Ikcpcb} (sends : Sends conv hist n flying kcp) :
    kcp.sndBuf.map (IkcpSeg.offset kcp.sndUna) = flying.map fun i => i - flying.headD n := by
  have window := sends.window
  have numbers := congrArg (List.map fun sn => (sn - kcp.sndUna).toNat) sends.map_sn
  rw [List.map_map, List.map_map] at numbers
  refine numbers.trans (List.map_congr_left fun i flies => ?_)
  have low := sends.headD_le.2 i flies
  have below := sends.below i flies
  rw [Function.comp_apply, sends.una, toNat_ofNat_sub low (by omega)]

/-- Whatever calls an endpoint has seen and whatever it has been sent, hostile datagrams
included, it is bounded. -/
theorem kcp_bounded {ctx : KcpContext} (reachable : KcpReachable ctx) : ctx.kcp.Bounded := by
  obtain ⟨-, settled, keeps, timed⟩ := reachable.sturdy
  obtain ⟨hist, n, flying, -, sends, fragments⟩ := reachable.sendingIn
  have window := sends.window
  have span : (ctx.kcp.sndNxt - ctx.kcp.sndUna).toNat = n - flying.headD n := by
    rw [sends.nxt, sends.una, toNat_ofNat_sub sends.headD_le.1 (by omega)]
  have count : ctx.kcp.sndBuf.length = flying.length := by
    have numbers := congrArg List.length sends.map_sn
    rwa [List.length_map, List.length_map] at numbers
  have oldest : ctx.kcp.sndUna = (ctx.kcp.sndBuf.head?.map IkcpSeg.sn).getD ctx.kcp.sndNxt := by
    have first := congrArg List.head? sends.map_sn
    rw [List.head?_map, List.head?_map] at first
    rw [first, sends.una, sends.nxt]
    cases flying <;> rfl
  exact
    { queued := settled.room
      buffered := settled.length_rcvBuf_le
      received := fun seg member => by
        have wire := keeps seg member
        have fits := wire.fits
        rw [ikcpOverhead, kcpRecvBufSize] at fits
        exact ⟨wire.same, by omega⟩
      sorted := settled.sorted
      window := settled.near
      moved := settled.waits
      flying := ⟨count.trans_le sends.length_le, by omega⟩
      flyingSorted := by
        rw [sends.offset_eq, List.pairwise_map]
        refine sends.sorted.imp_of_mem fun one other less => ?_
        have := sends.headD_le.2 _ one
        omega
      flyingWindow := fun seg member => by
        have place := List.mem_map_of_mem (f := IkcpSeg.offset ctx.kcp.sndUna) member
        rw [sends.offset_eq] at place
        obtain ⟨i, flies, same⟩ := List.mem_map.mp place
        have low := sends.headD_le.2 i flies
        have below := sends.below i flies
        exact ⟨by omega, sends.data_le fragments member⟩
      oldest := oldest
      timed := timed }

/-- A datagram nobody asked for: the segments 7, 3 and 7 again, an acknowledgement of
nothing, and a header that breaks off. -/
private def unasked : Datagram where
  source := ⟨40000, 0x7f000001⟩
  sourceLen := 16
  bytes :=
    ikcpDatagram ([7, 3, 7].map fun sn =>
      { ikcpSegmentNew [1, 2] with conv := 9002, cmd := ikcpCmdPush, sn := sn }) ++
    ikcpDatagram [{ ikcpSegmentNew [] with
      conv := 9002, cmd := ikcpCmdAck, sn := 99, una := 44 }] ++
    [0x2a, 0x23, 0, 0, 81]

/-- A server on port 9002 after that. -/
private def pesteredServer : KcpContext :=
  (kcpCall ⟨⟨0, 0⟩, 16, kcpConfigure 9002, 0⟩ (.recv 64 100 (some unasked))).2

private theorem reachable_pesteredServer : KcpReachable pesteredServer :=
  ⟨⟨fun _ => 0, true, true, fun _ => true, true⟩, .server, none, 9002, none, 0, _,
    [.recv 64 100 (some unasked)], by decide +kernel, rfl⟩

theorem kcp_bounded_unasked :
    pesteredServer.kcp.rcvBuf.map IkcpSeg.sn = [3, 7] ∧ pesteredServer.kcp.Bounded :=
  ⟨by decide +kernel, kcp_bounded reachable_pesteredServer⟩

end OmniSocket
