/-
# What a `kcp_send` leaves behind

`kcp_send` reports success once the message is queued. Whether anything is left
when it returns is decided by the flush timer, the send window, and the one
datagram that is read after the flush. Nothing is left exactly when the flush is
due, the window takes the whole queue, and that datagram acknowledges everything
that is then unacknowledged.
-/

import OmniSocket.KcpSender

set_option autoImplicit false

namespace OmniSocket

open Lib

/-- Nothing waits to be sent or to be acknowledged. -/
def Ikcpcb.Drained (kcp : Ikcpcb) : Prop := kcp.sndQueue = [] ∧ kcp.sndBuf = []

/-- Then `ikcp_waitsnd` says so. -/
theorem Ikcpcb.Drained.waitsnd {kcp : Ikcpcb} (drained : kcp.Drained) : ikcpWaitsnd kcp = 0 := by
  rw [ikcpWaitsnd, Ikcpcb.nsndBuf, Ikcpcb.nsndQue, drained.1, drained.2]
  rfl

namespace KcpContext

/-- How many segments wait to be sent once `msg` has been queued. -/
def backlog (ctx : KcpContext) (msg : List UInt8) : ℕ :=
  ctx.kcp.sndQueue.length + kcpCutter.count msg

/-- The number after them. -/
def nextNumber (ctx : KcpContext) (msg : List UInt8) : ℕ :=
  (ctx.kcp.sndNxt + UInt32.ofNat (ctx.backlog msg)).toNat

/-- The numbers that are unacknowledged once all of them have been sent. -/
def outstanding (ctx : KcpContext) (msg : List UInt8) : List ℕ :=
  ctx.kcp.sndBuf.map (fun seg => seg.sn.toNat) ++
    (List.range (ctx.backlog msg)).map fun j => (ctx.kcp.sndNxt + UInt32.ofNat j).toNat

/-- What a `kcp_send` of `msg` meets when it leaves nothing behind. -/
structure Clears (ctx : KcpContext) (msg : List UInt8) (now : UInt64)
    (incoming : Option Datagram) : Prop where
  /-- The flush timer is due. -/
  due : (ikcpUpdateTimer ctx.kcp now.toUInt32).1 = true
  /-- The send window takes the whole queue. -/
  fits : (ctx.kcp.sndNxt - ctx.kcp.sndUna).toNat + ctx.backlog msg ≤ (ikcpFlushCwnd ctx.kcp).toNat
  /-- The datagram that is read acknowledges everything. -/
  acknowledged : ∃ d, incoming = some d ∧ ikcpOverhead ≤ (d.received kcpRecvBufSize).length ∧
    (ikcpDecodeAll ctx.kcp.conv (d.received kcpRecvBufSize).length
      (d.received kcpRecvBufSize)).1.foldl (Sends.afterSeg (ctx.nextNumber msg))
        (ctx.outstanding msg) = []

end KcpContext

/-! ## Acknowledgements see wrapped numbers only -/

namespace Sends

variable {n n' : ℕ} {flying flying' : List ℕ}

private theorem headD_congr (next : UInt32.ofNat n = UInt32.ofNat n')
    (same : flying.map UInt32.ofNat = flying'.map UInt32.ofNat) :
    UInt32.ofNat (flying.headD n) = UInt32.ofNat (flying'.headD n') := by
  cases flying with
  | nil =>
    obtain rfl := List.map_eq_nil_iff.mp same.symm
    exact next
  | cons i rest =>
    obtain ⟨j, rest', rfl, first, -⟩ := List.map_eq_cons_iff.mp same.symm
    exact first.symm

private theorem unacked_congr (sn : UInt32)
    (same : flying.map UInt32.ofNat = flying'.map UInt32.ofNat) :
    (unacked sn flying).map UInt32.ofNat = (unacked sn flying').map UInt32.ofNat := by
  induction flying generalizing flying' with
  | nil =>
    obtain rfl := List.map_eq_nil_iff.mp same.symm
    rfl
  | cons i rest ih =>
    obtain ⟨j, rest', rfl, first, later⟩ := List.map_eq_cons_iff.mp same.symm
    rw [unacked, unacked, first]
    split_ifs
    · exact later.symm
    · exact same
    · rw [List.map_cons, List.map_cons, first, ih later.symm]

theorem afterSeg_congr (next : UInt32.ofNat n = UInt32.ofNat n')
    (same : flying.map UInt32.ofNat = flying'.map UInt32.ofNat) (seg : IkcpSeg) :
    (afterSeg n flying seg).map UInt32.ofNat = (afterSeg n' flying' seg).map UInt32.ofNat := by
  have una : (afterUna seg.una flying).map UInt32.ofNat =
      (afterUna seg.una flying').map UInt32.ofNat := by
    have view : (fun i : ℕ => decide (0 < itimediff seg.una (UInt32.ofNat i))) =
        (fun sn => decide (0 < itimediff seg.una sn)) ∘ UInt32.ofNat := rfl
    rw [afterUna, afterUna, view, ← List.dropWhile_map, ← List.dropWhile_map, same]
  unfold afterSeg
  split
  · unfold afterAck
    rw [headD_congr next una, next]
    split
    · exact una
    · exact unacked_congr seg.sn una
  · exact una

/-- The same for a whole datagram. -/
theorem foldl_afterSeg_congr (next : UInt32.ofNat n = UInt32.ofNat n')
    (same : flying.map UInt32.ofNat = flying'.map UInt32.ofNat) (segs : List IkcpSeg) :
    segs.foldl (afterSeg n) flying = [] ↔ segs.foldl (afterSeg n') flying' = [] := by
  induction segs generalizing flying flying' with
  | nil =>
    rw [List.foldl_nil, List.foldl_nil, ← List.map_eq_nil_iff (f := UInt32.ofNat), same,
      List.map_eq_nil_iff]
  | cons seg rest ih =>
    rw [List.foldl_cons, List.foldl_cons]
    exact ih (afterSeg_congr next same seg)

end Sends

/-! ## How much a flush takes off the queue -/

section Flush

variable {conv : UInt32} {hist : List (Fragment UInt8)} {n : ℕ} {flying : List ℕ} {kcp : Ikcpcb}

/-- The window takes the whole queue exactly when it is large enough. -/
theorem Sends.sndQueue_ikcpAdmit (sends : Sends conv hist n flying kcp) {wnd cwnd : UInt32}
    (small : cwnd.toNat ≤ 128) (waiting : kcp.sndQueue ≠ []) :
    (ikcpAdmit kcp wnd cwnd).sndQueue = [] ↔
      (kcp.sndNxt - kcp.sndUna).toNat + kcp.sndQueue.length ≤ cwnd.toNat := by
  obtain ⟨k, le, rest, -, -, before, after⟩ :=
    ikcpAdmitLoop_spec kcp wnd (kcp.sndUna + cwnd) kcp.sndQueue kcp.sndBuf kcp.sndNxt
  have head := sends.headD_le.1
  have window := sends.window
  have limit : kcp.sndUna + cwnd = UInt32.ofNat (flying.headD n + cwnd.toNat) := by
    rw [sends.una, UInt32.ofNat_add, UInt32.ofNat_toNat]
  have room : (kcp.sndNxt - kcp.sndUna).toNat = n - flying.headD n := by
    rw [sends.nxt, sends.una]
    exact toNat_ofNat_sub head (by omega)
  have some_seg := List.length_pos_of_ne_nil waiting
  have taken : (ikcpAdmit kcp wnd cwnd).sndQueue = kcp.sndQueue.drop k := rest
  rw [taken, List.drop_eq_nil_iff, room]
  rw [limit, sends.nxt] at before after
  constructor
  · intro all
    by_contra beyond
    -- the first number at or behind the limit is among those that were taken
    have outside := before (flying.headD n + cwnd.toNat - n) (by omega)
    rw [← UInt32.ofNat_add, itimediff_ofNat (by omega) (by omega)] at outside
    omega
  · intro fits
    by_contra more
    have inside := after (by omega)
    rw [← UInt32.ofNat_add, itimediff_ofNat (by omega) (by omega)] at inside
    omega

theorem ikcpFlushCwnd_ikcpFlushProbe (kcp : Ikcpcb) :
    ikcpFlushCwnd (ikcpFlushProbe { kcp with acklist := [] }) = ikcpFlushCwnd kcp := by
  simp only [ikcpFlushProbe]
  split_ifs <;> simp only [ikcpFlushCwnd]

/-- The timer does not move the window. -/
theorem ikcpFlushCwnd_ikcpUpdateTimer (kcp : Ikcpcb) (current : UInt32) :
    ikcpFlushCwnd (ikcpUpdateTimer kcp current).2 = ikcpFlushCwnd kcp := by
  simp only [ikcpUpdateTimer]
  split_ifs <;> rfl

/-- The timer does not look at the queue. -/
theorem ikcpUpdateTimer_sndQueue (kcp : Ikcpcb) (queue : List IkcpSeg) (current : UInt32) :
    (ikcpUpdateTimer { kcp with sndQueue := queue } current).1 =
      (ikcpUpdateTimer kcp current).1 := by
  by_cases never : kcp.updated = 0
  · simp only [ikcpUpdateTimer, if_pos never]
    split_ifs <;> rfl
  · simp only [ikcpUpdateTimer, if_neg never]
    split_ifs <;> rfl

/-- What a flush leaves in the queue: nothing exactly when the window is large enough. -/
theorem Sends.sndQueue_ikcpFlush (sends : Sends conv hist n flying kcp)
    (configured : kcp.config = kcpConfig conv) (updated : kcp.updated ≠ 0)
    (waiting : kcp.sndQueue ≠ []) :
    (ikcpFlush kcp).2.sndQueue = [] ↔
      (kcp.sndNxt - kcp.sndUna).toNat + kcp.sndQueue.length ≤ (ikcpFlushCwnd kcp).toNat := by
  have flushed : (ikcpFlush kcp).2.sndQueue = (ikcpFlushFilled kcp).sndQueue := by
    rw [ikcpFlush, if_neg updated]
    simp only [wnd_ikcpFlushAcks]
    have last := fun flushed cwnd change lost =>
      (ikcpFlushSsthresh_frame flushed cwnd change lost).2.2
    exact congrArg (fun sending => sending.2.2.1) (last _ _ _ _)
  have window := ikcpFlushCwnd_ikcpFlushProbe kcp
  obtain ⟨config, -, sending⟩ := ikcpFlushProbe_frame { kcp with acklist := [] }
  rw [flushed, ikcpFlushFilled]
  generalize ikcpFlushProbe { kcp with acklist := [] } = probed at config sending window
  have settings : probed.config = kcpConfig conv := config.trans configured
  have same : probed.sending = kcp.sending := sending
  have small := toNat_ikcpFlushCwnd_le (congrArg IkcpConfig.sndWnd settings)
    (congrArg IkcpConfig.nocwnd settings)
  obtain ⟨una, nxt, queue, -⟩ : probed.sndUna = kcp.sndUna ∧ probed.sndNxt = kcp.sndNxt ∧
      probed.sndQueue = kcp.sndQueue ∧ probed.sndBuf = kcp.sndBuf := by
    simpa [Ikcpcb.sending] using same
  have ready : Sends conv hist n flying { probed with probe := 0 } := sends.congr same
  rw [← una, ← nxt, ← queue, ← window]
  exact ready.sndQueue_ikcpAdmit small (show probed.sndQueue ≠ [] from queue ▸ waiting)

/-- The same for `ikcp_update`, which flushes when the timer is due. -/
theorem Sends.sndQueue_ikcpUpdate (sends : Sends conv hist n flying kcp)
    (configured : kcp.config = kcpConfig conv) (current : UInt32) (waiting : kcp.sndQueue ≠ []) :
    (ikcpUpdate kcp current).2.sndQueue = [] ↔ (ikcpUpdateTimer kcp current).1 = true ∧
      (kcp.sndNxt - kcp.sndUna).toNat + kcp.sndQueue.length ≤ (ikcpFlushCwnd kcp).toNat := by
  obtain ⟨config, -, sending⟩ := ikcpUpdateTimer_frame kcp current
  have window := ikcpFlushCwnd_ikcpUpdateTimer kcp current
  have updated := updated_ikcpUpdateTimer kcp current
  unfold ikcpUpdate
  generalize ikcpUpdateTimer kcp current = timed at config sending updated window ⊢
  obtain ⟨due, timed⟩ := timed
  obtain ⟨una, nxt, queue, -⟩ : timed.sndUna = kcp.sndUna ∧ timed.sndNxt = kcp.sndNxt ∧
      timed.sndQueue = kcp.sndQueue ∧ timed.sndBuf = kcp.sndBuf := by
    simpa [Ikcpcb.sending] using sending
  cases due with
  | false => simp [queue, waiting]
  | true =>
    have ready : Sends conv hist n flying timed := sends.congr sending
    rw [← una, ← nxt, ← queue, ← window]
    have flushed := ready.sndQueue_ikcpFlush (config.trans configured) updated (queue ▸ waiting)
    simpa using flushed

end Flush

/-! ## One `kcp_send` -/

/-- A context whose sending half is in order, whatever its peer has sent it. -/
def KcpContext.Sending (ctx : KcpContext) : Prop :=
  ∃ conv hist n flying, ctx.Configured conv ∧ Sends conv hist n flying ctx.kcp ∧ KcpFragments hist

theorem KcpContext.sending_kcpInit {env : SocketEnv} {role : OmniRole}
    {bindIp peerIp : Option String} {bindPort peerPort : UInt16} {ctx : KcpContext}
    (init : kcpInit env role bindIp bindPort peerIp peerPort = some ctx) :
    ctx.Sending ∧ ctx.kcp.Drained := by
  have configured := configured_kcpInit init
  obtain ⟨fresh, -⟩ := kcpInit_spec init
  rw [KcpContext.Sending, fresh]
  exact ⟨⟨_, [], 0, [], configured, Sends.start _, by simp [KcpFragments]⟩, rfl, rfl⟩

section Send

variable {conv : UInt32} {hist : List (Fragment UInt8)} {n : ℕ} {flying : List ℕ}
  {ctx : KcpContext} {msg : List UInt8}

/-- Reading a datagram takes numbers out of flight and nothing else. -/
theorem Sends.receive (sends : Sends conv hist n flying ctx.kcp)
    (incoming : Option Datagram) : ∃ left, Sends conv hist n left (kcpReceive ctx incoming).kcp ∧
      (left = [] ↔ flying = [] ∨ ∃ d, incoming = some d ∧
        ikcpOverhead ≤ (d.received kcpRecvBufSize).length ∧
        (ikcpDecodeAll ctx.kcp.conv (d.received kcpRecvBufSize).length
          (d.received kcpRecvBufSize)).1.foldl (afterSeg n) flying = []) := by
  cases incoming with
  | none => exact ⟨flying, sends, by simp⟩
  | some d =>
    by_cases long : ikcpOverhead ≤ (d.received kcpRecvBufSize).length
    · have some_byte : 0 < (d.received kcpRecvBufSize).length :=
        (show 0 < ikcpOverhead by decide).trans_le long
      rw [kcpReceive, if_pos some_byte]
      refine ⟨_, sends.input _, fun none => .inr ⟨d, rfl, long, none⟩, ?_⟩
      rintro (rfl | ⟨d', same, -, none⟩)
      · exact List.sublist_nil.mp (foldl_afterSeg_sublist n _ [])
      · exact Option.some.inj same ▸ none
    · refine ⟨flying, ?_, by simp [long]⟩
      rw [kcpReceive]
      split
      · simpa only [ikcpInput, if_pos (not_le.mp long)] using sends
      · exact sends

/-- The numbers in flight after a flush that takes the whole queue. -/
theorem Sends.outstanding (sends : Sends conv hist n flying ctx.kcp) :
    (ctx.outstanding msg).map UInt32.ofNat =
      (flying ++ List.range' n (ctx.backlog msg)).map UInt32.ofNat ∧
    UInt32.ofNat (ctx.nextNumber msg) = UInt32.ofNat (n + ctx.backlog msg) := by
  have buffered : ctx.kcp.sndBuf.map IkcpSeg.sn = flying.map UInt32.ofNat := by
    have numbers := congrArg (List.map fun key => key.2.2.1) sends.buf
    rw [List.map_map, List.map_map] at numbers
    exact numbers
  constructor
  · rw [KcpContext.outstanding, List.map_append, List.map_append, ← buffered, List.map_map,
      List.map_map, List.range'_eq_map_range, List.map_map, sends.nxt]
    congr 1
    · exact List.map_congr_left fun seg _ => UInt32.ofNat_toNat
    · refine List.map_congr_left fun j _ => ?_
      rw [Function.comp_apply, Function.comp_apply, UInt32.ofNat_toNat, UInt32.ofNat_add]
  · rw [KcpContext.nextNumber, UInt32.ofNat_toNat, sends.nxt, UInt32.ofNat_add]

/-- Driving the protocol with a queue leaves nothing behind exactly when a flush is
due, the window takes the queue, and the datagram acknowledges everything. -/
theorem Sends.drained_kcpUpdateLoop (sends : Sends conv hist n flying ctx.kcp)
    (configured : ctx.Configured conv) (fragments : KcpFragments hist)
    (waiting : ctx.kcp.sndQueue ≠ []) (now : UInt64) (incoming : Option Datagram) :
    (∃ m left, Sends conv hist m left (kcpUpdateLoop ctx now incoming).2.kcp) ∧
      ((kcpUpdateLoop ctx now incoming).2.kcp.Drained ↔
        (ikcpUpdateTimer ctx.kcp now.toUInt32).1 = true ∧
        (ctx.kcp.sndNxt - ctx.kcp.sndUna).toNat + ctx.kcp.sndQueue.length ≤
          (ikcpFlushCwnd ctx.kcp).toNat ∧
        ∃ d, incoming = some d ∧ ikcpOverhead ≤ (d.received kcpRecvBufSize).length ∧
          (ikcpDecodeAll ctx.kcp.conv (d.received kcpRecvBufSize).length
            (d.received kcpRecvBufSize)).1.foldl (afterSeg (n + ctx.kcp.sndQueue.length))
              (flying ++ List.range' n ctx.kcp.sndQueue.length) = []) := by
  obtain ⟨k, updated, -⟩ := sends.update configured fragments now.toUInt32
  have taken := sends.sndQueue_ikcpUpdate configured now.toUInt32 waiting
  have conv_eq : (ikcpUpdate ctx.kcp now.toUInt32).2.conv = ctx.kcp.conv :=
    congrArg IkcpConfig.conv (ikcpUpdate_frame ctx.kcp now.toUInt32).1
  rw [kcp_kcpUpdateLoop]
  generalize (ikcpUpdate ctx.kcp now.toUInt32).2 = kcp at updated taken conv_eq
  have ready : Sends conv hist (n + k) (flying ++ List.range' n k)
    ({ ctx with kcp := kcp } : KcpContext).kcp := updated
  obtain ⟨left, received, none⟩ := ready.receive incoming
  rw [conv_eq] at none
  have length : ctx.kcp.sndQueue.length = hist.length - n := by
    rw [← List.length_map (f := IkcpSeg.fragment), sends.queue, List.length_drop]
  have some_seg := List.length_pos_of_ne_nil waiting
  have inside := updated.inside
  have emptied : kcp.sndQueue = [] ↔ k = ctx.kcp.sndQueue.length := by
    rw [← List.map_eq_nil_iff (f := IkcpSeg.fragment), updated.queue, List.drop_eq_nil_iff]
    omega
  have queue : (kcpReceive { ctx with kcp := kcp } incoming).kcp.sndQueue = [] ↔
      kcp.sndQueue = [] := by
    rw [← List.map_eq_nil_iff (f := IkcpSeg.fragment), received.queue, ← updated.queue,
      List.map_eq_nil_iff]
  have buf : (kcpReceive { ctx with kcp := kcp } incoming).kcp.sndBuf = [] ↔ left = [] := by
    rw [← List.map_eq_nil_iff (f := IkcpSeg.key), received.buf, List.map_eq_nil_iff]
  refine ⟨⟨n + k, left, received⟩, ?_⟩
  rw [Ikcpcb.Drained, queue, buf, ← and_assoc, ← taken]
  refine and_congr_right fun sent => ?_
  obtain rfl := emptied.mp sent
  -- with the whole queue in flight there is something to be acknowledged
  have busy : flying ++ List.range' n ctx.kcp.sndQueue.length ≠ [] := by
    refine List.append_ne_nil_of_right_ne_nil _ fun empty => ?_
    rw [List.range'_eq_nil_iff] at empty
    omega
  rw [none, or_iff_right busy]

/-- A `kcp_send` keeps the sending half in order, and leaves nothing behind exactly
when it meets the three conditions. -/
theorem kcpSend_drained_iff (sending : ctx.Sending) (short : msg.length ≤ kcpMaxMessage)
    (now : UInt64) (incoming : Option Datagram) :
    (kcpSend ctx msg now incoming).2.2.Sending ∧
      ((kcpSend ctx msg now incoming).2.2.kcp.Drained ↔ ctx.Clears msg now incoming) := by
  obtain ⟨conv, hist, n, flying, configured, sends, fragments⟩ := sending
  have small : msg.length < 2 ^ 31 := short.trans_lt (by decide)
  rcases kcpSend_spec configured small now incoming with ⟨long, -⟩ | ⟨-, segs, cut, queued⟩
  · exact absurd short (not_le.mpr long)
  have count : segs.length = kcpCutter.count msg := by
    rw [← length_cut kcpCutter.size (kcpCutter.count msg) msg, ← Cutter.fragments, ← cut,
      List.length_map]
  -- a message makes at least one segment, so the queue is not empty at the flush
  have waiting : ctx.kcp.sndQueue ++ segs ≠ [] := by
    have positive := kcpCutter.positive msg
    rw [← count] at positive
    exact List.append_ne_nil_of_right_ne_nil _ (List.length_pos_iff.mp positive)
  have backlog : (ctx.kcp.sndQueue ++ segs).length = ctx.backlog msg := by
    rw [List.length_append, count, KcpContext.backlog]
  rw [queued]
  have ready : Sends conv (hist ++ kcpCutter.fragments msg) n flying
    ({ ctx with kcp := { ctx.kcp with sndQueue := ctx.kcp.sndQueue ++ segs } } : KcpContext).kcp :=
    sends.append cut
  obtain ⟨⟨m, left, driven⟩, drained⟩ :=
    ready.drained_kcpUpdateLoop configured (fragments.append short) waiting now incoming
  constructor
  · refine ⟨conv, _, m, left, ?_, driven, fragments.append short⟩
    exact (config_kcpUpdateLoop _ now incoming).trans configured
  · obtain ⟨numbers, next⟩ : (ctx.outstanding msg).map UInt32.ofNat = _ ∧
        UInt32.ofNat (ctx.nextNumber msg) = _ := sends.outstanding
    rw [drained, ikcpUpdateTimer_sndQueue, backlog]
    constructor
    · rintro ⟨due, fits, d, same, long, none⟩
      exact ⟨due, fits, d, same, long, (Sends.foldl_afterSeg_congr next numbers _).mpr none⟩
    · rintro ⟨due, fits, d, same, long, none⟩
      exact ⟨due, fits, d, same, long, (Sends.foldl_afterSeg_congr next numbers _).mp none⟩

end Send

end OmniSocket
