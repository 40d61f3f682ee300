/-
# What the KCP calls leave alone

Once `kcp_init` has set up a control block, its settings never change, sending
does not touch the receiving half, and a flush does not either.
-/

import OmniSocket.Ikcp.Send
import OmniSocket.Ikcp.Input
import OmniSocket.Ikcp.Flush

set_option autoImplicit false

namespace OmniSocket

/-- The settings of a control block. -/
structure IkcpConfig where
  conv : UInt32
  mtu : UInt32
  mss : UInt32
  rxMinrto : Int32
  sndWnd : UInt32
  rcvWnd : UInt32
  interval : UInt32
  nodelay : UInt32
  deadLink : UInt32
  fastresend : Int32
  fastlimit : Int32
  nocwnd : Int32
  stream : Int32
  deriving DecidableEq, Repr

namespace Ikcpcb

/-- The settings of `kcp`. -/
def config (kcp : Ikcpcb) : IkcpConfig where
  conv := kcp.conv
  mtu := kcp.mtu
  mss := kcp.mss
  rxMinrto := kcp.rxMinrto
  sndWnd := kcp.sndWnd
  rcvWnd := kcp.rcvWnd
  interval := kcp.interval
  nodelay := kcp.nodelay
  deadLink := kcp.deadLink
  fastresend := kcp.fastresend
  fastlimit := kcp.fastlimit
  nocwnd := kcp.nocwnd
  stream := kcp.stream

/-- The receiving half of `kcp`, acknowledgements apart. -/
def receiving (kcp : Ikcpcb) : UInt32 × List IkcpSeg × List IkcpSeg :=
  (kcp.rcvNxt, kcp.rcvQueue, kcp.rcvBuf)

/-- The sending half of `kcp`, timers and windows apart. -/
def sending (kcp : Ikcpcb) : UInt32 × UInt32 × List IkcpSeg × List IkcpSeg :=
  (kcp.sndUna, kcp.sndNxt, kcp.sndQueue, kcp.sndBuf)

end Ikcpcb

/-! ## Sending -/

theorem ikcpSendFragments_frame (kcp : Ikcpcb) (buffer : List UInt8) (len sent : ℤ) :
    (ikcpSendFragments kcp buffer len sent).2.config = kcp.config ∧
      (ikcpSendFragments kcp buffer len sent).2.receiving = kcp.receiving := by
  simp only [ikcpSendFragments]
  split <;> exact ⟨rfl, rfl⟩

theorem ikcpSendAppend_frame (kcp : Ikcpcb) (buffer : List UInt8) (len : ℤ) :
    (ikcpSendAppend kcp buffer len).2.config = kcp.config ∧
      (ikcpSendAppend kcp buffer len).2.receiving = kcp.receiving := by
  unfold ikcpSendAppend
  split
  · split <;> exact ⟨rfl, rfl⟩
  · exact ⟨rfl, rfl⟩

/-- `ikcp_send` changes the send queue only. -/
theorem ikcpSend_frame (kcp : Ikcpcb) (buffer : List UInt8) (len : ℤ) :
    (ikcpSend kcp buffer len).2.config = kcp.config ∧
      (ikcpSend kcp buffer len).2.receiving = kcp.receiving := by
  have append := ikcpSendAppend_frame kcp buffer len
  simp only [ikcpSend]
  split_ifs
  · exact ⟨rfl, rfl⟩
  · exact append
  · have fragments := ikcpSendFragments_frame (ikcpSendAppend kcp buffer len).2
      (buffer.drop (ikcpSendAppend kcp buffer len).1)
      (len - (ikcpSendAppend kcp buffer len).1) (ikcpSendAppend kcp buffer len).1
    exact ⟨fragments.1.trans append.1, fragments.2.trans append.2⟩
  · exact ikcpSendFragments_frame _ _ _ _

/-! ## Receiving -/

/-- `ikcp_recv` does not touch the sending half. -/
theorem ikcpRecv_frame (kcp : Ikcpcb) (len : ℤ) :
    (ikcpRecv kcp len).2.2.config = kcp.config ∧
      (ikcpRecv kcp len).2.2.sending = kcp.sending := by
  simp only [ikcpRecv]
  split_ifs <;> exact ⟨rfl, rfl⟩

theorem ikcpParseData_frame (kcp : Ikcpcb) (seg : IkcpSeg) :
    (ikcpParseData kcp seg).config = kcp.config ∧
      (ikcpParseData kcp seg).sending = kcp.sending := by
  unfold ikcpParseData
  split_ifs <;> exact ⟨rfl, rfl⟩

theorem ikcpInputPush_frame (kcp : Ikcpcb) (seg : IkcpSeg) :
    (ikcpInputPush kcp seg).config = kcp.config ∧
      (ikcpInputPush kcp seg).sending = kcp.sending := by
  simp only [ikcpInputPush]
  split_ifs
  · exact ikcpParseData_frame _ _
  · exact ⟨rfl, rfl⟩
  · exact ⟨rfl, rfl⟩

theorem ikcpUpdateAck_frame (kcp : Ikcpcb) (rtt : Int32) :
    (ikcpUpdateAck kcp rtt).config = kcp.config ∧
      (ikcpUpdateAck kcp rtt).receiving = kcp.receiving ∧
      (ikcpUpdateAck kcp rtt).sending = kcp.sending := by
  simp only [ikcpUpdateAck]
  split_ifs <;> exact ⟨rfl, rfl, rfl⟩

theorem ikcpShrinkBuf_frame (kcp : Ikcpcb) :
    (ikcpShrinkBuf kcp).config = kcp.config ∧ (ikcpShrinkBuf kcp).receiving = kcp.receiving := by
  unfold ikcpShrinkBuf
  split <;> exact ⟨rfl, rfl⟩

theorem ikcpParseAck_frame (kcp : Ikcpcb) (sn : UInt32) :
    (ikcpParseAck kcp sn).config = kcp.config ∧
      (ikcpParseAck kcp sn).receiving = kcp.receiving := by
  unfold ikcpParseAck
  split_ifs <;> exact ⟨rfl, rfl⟩

theorem ikcpParseFastack_frame (kcp : Ikcpcb) (sn ts : UInt32) :
    (ikcpParseFastack kcp sn ts).config = kcp.config ∧
      (ikcpParseFastack kcp sn ts).receiving = kcp.receiving := by
  unfold ikcpParseFastack
  split_ifs <;> exact ⟨rfl, rfl⟩

theorem ikcpInputAck_frame (st : IkcpInput) (seg : IkcpSeg) :
    (ikcpInputAck st seg).kcp.config = st.kcp.config ∧
      (ikcpInputAck st seg).kcp.receiving = st.kcp.receiving := by
  simp only [ikcpInputAck]
  split_ifs
  · have first := ikcpUpdateAck_frame st.kcp (st.kcp.current - seg.ts).toInt32
    have second :=
      ikcpParseAck_frame (ikcpUpdateAck st.kcp (st.kcp.current - seg.ts).toInt32) seg.sn
    have third := ikcpShrinkBuf_frame
      (ikcpParseAck (ikcpUpdateAck st.kcp (st.kcp.current - seg.ts).toInt32) seg.sn)
    exact ⟨third.1.trans (second.1.trans first.1), third.2.trans (second.2.trans first.2.1)⟩
  · have second := ikcpParseAck_frame st.kcp seg.sn
    have third := ikcpShrinkBuf_frame (ikcpParseAck st.kcp seg.sn)
    exact ⟨third.1.trans second.1, third.2.trans second.2⟩

/-- The part of `ikcp_input` that every segment goes through first. -/
theorem ikcpInputUna_frame (kcp : Ikcpcb) (seg : IkcpSeg) :
    (ikcpShrinkBuf (ikcpParseUna { kcp with rmtWnd := seg.wnd } seg.una)).config = kcp.config ∧
      (ikcpShrinkBuf (ikcpParseUna { kcp with rmtWnd := seg.wnd } seg.una)).receiving =
        kcp.receiving :=
  ikcpShrinkBuf_frame _

theorem ikcpInputSeg_config (st : IkcpInput) (seg : IkcpSeg) :
    (ikcpInputSeg st seg).kcp.config = st.kcp.config := by
  have first := (ikcpInputUna_frame st.kcp seg).1
  simp only [ikcpInputSeg]
  split_ifs
  · exact (ikcpInputAck_frame _ seg).1.trans first
  · exact (ikcpInputPush_frame _ seg).1.trans first
  · exact first
  · exact first

theorem ikcpInputCwnd_frame (kcp : Ikcpcb) (prevUna : UInt32) :
    (ikcpInputCwnd kcp prevUna).config = kcp.config ∧
      (ikcpInputCwnd kcp prevUna).receiving = kcp.receiving ∧
      (ikcpInputCwnd kcp prevUna).sending = kcp.sending := by
  simp only [ikcpInputCwnd]
  split_ifs <;> exact ⟨rfl, rfl, rfl⟩

/-- What the two steps behind the loop of `ikcp_input` leave alone is as the loop has
left it. -/
theorem ikcpInput_eq_loop {α : Type*} (view : Ikcpcb → α)
    (fast : ∀ kcp sn ts, view (ikcpParseFastack kcp sn ts) = view kcp)
    (cwnd : ∀ kcp prevUna, view (ikcpInputCwnd kcp prevUna) = view kcp) (kcp : Ikcpcb)
    (data : List UInt8) :
    view (ikcpInput kcp data).2 = view ((ikcpDecodeAll kcp.conv data.length data).1.foldl
      ikcpInputSeg { kcp := kcp, newest := none }).kcp := by
  by_cases short : data.length < ikcpOverhead
  · -- less than a header is no segment, so there is no loop either
    rw [ikcpInput, if_pos short, ikcpDecodeAll_of_short _ _ short]
    rfl
  · rw [ikcpInput, if_neg short]
    simp only
    split_ifs
    · rfl
    · split
      · exact cwnd _ _
      · exact (cwnd _ _).trans (fast _ _ _)

/-- What no step of `ikcp_input` changes is as it was. -/
theorem ikcpInput_keeps {α : Type*} (view : Ikcpcb → α)
    (segment : ∀ st seg, view (ikcpInputSeg st seg).kcp = view st.kcp)
    (fast : ∀ kcp sn ts, view (ikcpParseFastack kcp sn ts) = view kcp)
    (cwnd : ∀ kcp prevUna, view (ikcpInputCwnd kcp prevUna) = view kcp) (kcp : Ikcpcb)
    (data : List UInt8) : view (ikcpInput kcp data).2 = view kcp := by
  have loop : ∀ (segs : List IkcpSeg) (st : IkcpInput),
      view (segs.foldl ikcpInputSeg st).kcp = view st.kcp := by
    intro segs
    induction segs with
    | nil => exact fun st => rfl
    | cons seg rest ih => exact fun st => (ih _).trans (segment st seg)
  exact (ikcpInput_eq_loop view fast cwnd kcp data).trans (loop _ _)

/-- `ikcp_input` keeps the settings. -/
theorem ikcpInput_config (kcp : Ikcpcb) (data : List UInt8) :
    (ikcpInput kcp data).2.config = kcp.config := by
  apply ikcpInput_keeps Ikcpcb.config
  · exact ikcpInputSeg_config
  · exact fun kcp sn ts => (ikcpParseFastack_frame kcp sn ts).1
  · exact fun kcp prevUna => (ikcpInputCwnd_frame kcp prevUna).1

/-! ## Flushing -/

theorem ikcpFlushProbe_frame (kcp : Ikcpcb) :
    (ikcpFlushProbe kcp).config = kcp.config ∧
      (ikcpFlushProbe kcp).receiving = kcp.receiving ∧
      (ikcpFlushProbe kcp).sending = kcp.sending := by
  simp only [ikcpFlushProbe]
  split_ifs <;> simp only [Ikcpcb.config, Ikcpcb.receiving, Ikcpcb.sending, and_self]

theorem ikcpFlushSsthresh_frame (kcp : Ikcpcb) (cwnd : UInt32) (change : ℕ) (lost : Bool) :
    (ikcpFlushSsthresh kcp cwnd change lost).config = kcp.config ∧
      (ikcpFlushSsthresh kcp cwnd change lost).receiving = kcp.receiving ∧
      (ikcpFlushSsthresh kcp cwnd change lost).sending = kcp.sending := by
  simp only [ikcpFlushSsthresh]
  split_ifs <;> exact ⟨rfl, rfl, rfl⟩

/-- `ikcp_flush` does not touch the receiving half. -/
theorem ikcpFlush_frame (kcp : Ikcpcb) :
    (ikcpFlush kcp).2.config = kcp.config ∧ (ikcpFlush kcp).2.receiving = kcp.receiving := by
  have probe := ikcpFlushProbe_frame { kcp with acklist := [] }
  by_cases never : kcp.updated = 0
  · rw [ikcpFlush, if_pos never]
    exact ⟨rfl, rfl⟩
  · rw [ikcpFlush, if_neg never]
    have last := fun flushed cwnd change lost => ikcpFlushSsthresh_frame flushed cwnd change lost
    exact ⟨(last _ _ _ _).1.trans probe.1, (last _ _ _ _).2.1.trans probe.2.1⟩

theorem ikcpUpdateTimer_frame (kcp : Ikcpcb) (current : UInt32) :
    (ikcpUpdateTimer kcp current).2.config = kcp.config ∧
      (ikcpUpdateTimer kcp current).2.receiving = kcp.receiving ∧
      (ikcpUpdateTimer kcp current).2.sending = kcp.sending := by
  simp only [ikcpUpdateTimer]
  split_ifs <;> exact ⟨rfl, rfl, rfl⟩

/-- The timer leaves no block as never updated. -/
theorem updated_ikcpUpdateTimer (kcp : Ikcpcb) (current : UInt32) :
    (ikcpUpdateTimer kcp current).2.updated ≠ 0 := by
  by_cases never : kcp.updated = 0
  · simp only [ikcpUpdateTimer, if_pos never]
    split_ifs <;> exact (show (1 : UInt32) ≠ 0 by decide)
  · simp only [ikcpUpdateTimer, if_neg never]
    split_ifs <;> exact never

/-- A flush writes all acknowledgements there are, or nothing at all. -/
theorem acklist_ikcpFlush (kcp : Ikcpcb) : (ikcpFlush kcp).2.acklist = [] ∨
    (ikcpFlush kcp).1 = [] ∧ (ikcpFlush kcp).2.acklist = kcp.acklist := by
  by_cases never : kcp.updated = 0
  · rw [ikcpFlush, if_pos never]
    exact .inr ⟨rfl, rfl⟩
  · have probe : (ikcpFlushProbe { kcp with acklist := [] }).acklist = [] := by
      simp only [ikcpFlushProbe]
      split_ifs <;> rfl
    have last : ∀ (flushed : Ikcpcb) (cwnd : UInt32) (change : ℕ) (lost : Bool),
        (ikcpFlushSsthresh flushed cwnd change lost).acklist = flushed.acklist := by
      intro flushed cwnd change lost
      simp only [ikcpFlushSsthresh]
      split_ifs <;> rfl
    rw [ikcpFlush, if_neg never]
    exact .inl ((last _ _ _ _).trans probe)

theorem acklist_ikcpUpdateTimer (kcp : Ikcpcb) (current : UInt32) :
    (ikcpUpdateTimer kcp current).2.acklist = kcp.acklist := by
  simp only [ikcpUpdateTimer]
  split_ifs <;> rfl

/-- The same for `ikcp_update`. -/
theorem acklist_ikcpUpdate (kcp : Ikcpcb) (current : UInt32) :
    (ikcpUpdate kcp current).2.acklist = [] ∨
      (ikcpUpdate kcp current).1 = [] ∧ (ikcpUpdate kcp current).2.acklist = kcp.acklist := by
  have timer := acklist_ikcpUpdateTimer kcp current
  unfold ikcpUpdate
  split
  case h_1 due result =>
    rw [result] at timer
    rw [← timer]
    exact acklist_ikcpFlush due
  case h_2 idle result =>
    rw [result] at timer
    exact .inr ⟨rfl, timer⟩

/-- `ikcp_update` does not touch the receiving half. -/
theorem ikcpUpdate_frame (kcp : Ikcpcb) (current : UInt32) :
    (ikcpUpdate kcp current).2.config = kcp.config ∧
      (ikcpUpdate kcp current).2.receiving = kcp.receiving := by
  have timer := ikcpUpdateTimer_frame kcp current
  unfold ikcpUpdate
  split
  case h_1 due result =>
    rw [result] at timer
    have flush := ikcpFlush_frame due
    exact ⟨flush.1.trans timer.1, flush.2.trans timer.2.1⟩
  case h_2 idle result =>
    rw [result] at timer
    exact ⟨timer.1, timer.2.1⟩

end OmniSocket
