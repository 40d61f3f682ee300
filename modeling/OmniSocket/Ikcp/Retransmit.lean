/-
# What a flush writes again

A segment gets its number in the flush that writes it for the first time. What a flush
writes of the segments that were in the send buffer before is written again, for one of
three reasons; `kcp->xmit` counts one of them.
-/

import OmniSocket.Ikcp.Window

set_option autoImplicit false

namespace OmniSocket

/-! ## First and further transmissions -/

/-- A flush at this clock reading writes the segment. -/
def isDue (kcp : Ikcpcb) (segment : IkcpSeg) : Bool := (ikcpSendReason kcp segment).isSome

/-- It does so because the segment has timed out. -/
def timesOut (kcp : Ikcpcb) (segment : IkcpSeg) : Bool :=
  ikcpSendReason kcp segment = some .timeout

/-- The segment as it is judged at another clock reading. -/
def Ikcpcb.atClock (kcp : Ikcpcb) (current : UInt32) : Ikcpcb := { kcp with current := current }

theorem isDue_of_timesOut {kcp : Ikcpcb} {segment : IkcpSeg} (out : timesOut kcp segment = true) :
    isDue kcp segment = true := by
  rw [isDue, of_decide_eq_true out, Option.isSome_some]

/-- What is admitted comes behind the buffer, and has not been transmitted. -/
theorem ikcpAdmitLoop_append (kcp : Ikcpcb) (wnd limit : UInt32) (queue buf : List IkcpSeg)
    (sndNxt : UInt32) : ∃ fresh, (ikcpAdmitLoop kcp wnd limit queue buf sndNxt).2.1 = buf ++ fresh ∧
      ∀ segment ∈ fresh, segment.xmit = 0 := by
  induction queue generalizing buf sndNxt with
  | nil => exact ⟨[], by rw [ikcpAdmitLoop, List.append_nil], by simp⟩
  | cons seg queue ih =>
    rw [ikcpAdmitLoop]
    split_ifs
    · obtain ⟨fresh, later, untouched⟩ :=
        ih (buf ++ [ikcpAdmitSeg kcp wnd sndNxt seg]) (sndNxt + 1)
      refine ⟨ikcpAdmitSeg kcp wnd sndNxt seg :: fresh, ?_, ?_⟩
      · rw [later, List.append_assoc, List.singleton_append]
      · exact List.forall_mem_cons.mpr ⟨rfl, untouched⟩
    · exact ⟨[], by rw [List.append_nil], by simp⟩

theorem sndBuf_ikcpFlushFilled (kcp : Ikcpcb) :
    ∃ fresh, (ikcpFlushFilled kcp).sndBuf = kcp.sndBuf ++ fresh ∧
      ∀ segment ∈ fresh, segment.xmit = 0 := by
  obtain ⟨-, -, sending⟩ := ikcpFlushProbe_frame { kcp with acklist := [] }
  have same : (ikcpFlushProbe { kcp with acklist := [] }).sndBuf = kcp.sndBuf :=
    congrArg (fun half => half.2.2.2) sending
  rw [← same]
  exact ikcpAdmitLoop_append _ _ _ _ _ _

/-- Only the clock and two settings decide. -/
theorem ikcpSendReason_congr {kcp kcp' : Ikcpcb} (current : kcp'.current = kcp.current)
    (config : kcp'.config = kcp.config) : ikcpSendReason kcp' = ikcpSendReason kcp := by
  have fastresend : kcp'.fastresend = kcp.fastresend := congrArg IkcpConfig.fastresend config
  have fastlimit : kcp'.fastlimit = kcp.fastlimit := congrArg IkcpConfig.fastlimit config
  funext segment
  unfold ikcpSendReason ikcpResent
  rw [current, fastresend, fastlimit]

/-- Filling the window changes nothing about the segments that are there. -/
theorem ikcpSendReason_ikcpFlushFilled (kcp : Ikcpcb) :
    ikcpSendReason (ikcpFlushFilled kcp) = ikcpSendReason kcp := by
  have probed : (ikcpFlushProbe { kcp with acklist := [] }).current = kcp.current := by
    simp only [ikcpFlushProbe]
    split_ifs <;> rfl
  exact ikcpSendReason_congr probed (ikcpFlushProbe_frame { kcp with acklist := [] }).1

/-- What has not been transmitted is written, whatever the clock reads. -/
theorem ikcpSendReason_of_fresh (kcp : Ikcpcb) {segment : IkcpSeg} (fresh : segment.xmit = 0) :
    ikcpSendReason kcp segment = some .first :=
  if_pos fresh

/-- The numbers of the segments that are written. -/
theorem map_sn_ikcpDueSegs (kcp : Ikcpcb) (wnd : UInt32) (buf : List IkcpSeg) :
    (ikcpDueSegs kcp wnd buf).map IkcpSeg.sn = (buf.filter (isDue kcp)).map IkcpSeg.sn := by
  induction buf with
  | nil => rfl
  | cons segment rest ih =>
    rw [ikcpDueSegs] at ih ⊢
    cases reason : ikcpSendReason kcp segment with
    | none => simpa [isDue, reason] using ih
    | some why =>
      have number : (ikcpStampSeg kcp wnd (ikcpArmSeg kcp segment why)).sn = segment.sn :=
        congrArg (fun key => key.2.2.1) (key_ikcpStampSeg kcp wnd segment why)
      simpa [isDue, reason, number] using ih

/-! ## What is counted -/

/-- The loop counts the segments that have timed out. -/
theorem xmit_ikcpFlushLoop (kcp : Ikcpcb) (wnd : UInt32) (acc : IkcpFlushAcc)
    (buf : List IkcpSeg) : (ikcpFlushLoop kcp wnd acc buf).2.xmit =
      acc.xmit + UInt32.ofNat (buf.countP (timesOut kcp)) := by
  induction buf generalizing acc with
  | nil => simp [ikcpFlushLoop]
  | cons segment rest ih =>
    rw [ikcpFlushLoop, List.countP_cons]
    simp only [ih]
    cases reason : ikcpSendReason kcp segment with
    | none => simp [ikcpFlushData, timesOut, reason]
    | some why =>
      cases why <;> simp [ikcpFlushData, timesOut, reason, UInt32.add_assoc, UInt32.add_comm 1]

/-- A flush adds the segments that have timed out to `kcp->xmit`, and no others. -/
theorem xmit_ikcpFlush {kcp : Ikcpcb} (updated : kcp.updated ≠ 0) :
    (ikcpFlush kcp).2.xmit = kcp.xmit + UInt32.ofNat (kcp.sndBuf.countP (timesOut kcp)) := by
  have last : ∀ (flushed : Ikcpcb) (cwnd : UInt32) (change : ℕ) (lost : Bool),
      (ikcpFlushSsthresh flushed cwnd change lost).xmit = flushed.xmit := by
    intro flushed cwnd change lost
    simp only [ikcpFlushSsthresh]
    split_ifs <;> rfl
  have probe : (ikcpFlushFilled kcp).xmit = kcp.xmit := by
    have probed : (ikcpFlushProbe { kcp with acklist := [] }).xmit = kcp.xmit := by
      simp only [ikcpFlushProbe]
      split_ifs <;> rfl
    exact probed
  obtain ⟨fresh, buf, untouched⟩ := sndBuf_ikcpFlushFilled kcp
  -- what is written for the first time has not timed out
  have none : fresh.countP (timesOut kcp) = 0 := by
    refine List.countP_eq_zero.mpr fun segment member => ?_
    rw [timesOut, ikcpSendReason_of_fresh kcp (untouched segment member)]
    decide
  have same : timesOut (ikcpFlushFilled kcp) = timesOut kcp := by
    funext segment
    rw [timesOut, timesOut, ikcpSendReason_ikcpFlushFilled]
  have count : (ikcpFlushFilled kcp).sndBuf.countP (timesOut (ikcpFlushFilled kcp)) =
      kcp.sndBuf.countP (timesOut kcp) := by
    rw [same, buf, List.countP_append, none, Nat.add_zero]
  rw [ikcpFlush, if_neg updated, last]
  simp only [wnd_ikcpFlushAcks]
  refine (xmit_ikcpFlushLoop (ikcpFlushFilled kcp) (ikcpWndUnused kcp) _
    (ikcpFlushFilled kcp).sndBuf).trans ?_
  rw [count]
  exact congrArg (· + _) probe

/-- What only a flush changes: the counter, and the state of the link. -/
def Ikcpcb.tally (kcp : Ikcpcb) : UInt32 × UInt32 := (kcp.xmit, kcp.state)

/-- Reading a segment counts nothing. -/
theorem tally_ikcpInputSeg (st : IkcpInput) (seg : IkcpSeg) :
    (ikcpInputSeg st seg).kcp.tally = st.kcp.tally := by
  have shrink : ∀ kcp : Ikcpcb, (ikcpShrinkBuf kcp).tally = kcp.tally := by
    intro kcp
    unfold ikcpShrinkBuf
    split <;> rfl
  have ack : ∀ (kcp : Ikcpcb) (sn : UInt32), (ikcpParseAck kcp sn).tally = kcp.tally := by
    intro kcp sn
    unfold ikcpParseAck
    split_ifs <;> rfl
  have rtt : ∀ (kcp : Ikcpcb) (rtt : Int32), (ikcpUpdateAck kcp rtt).tally = kcp.tally := by
    intro kcp rtt
    simp only [ikcpUpdateAck]
    split_ifs <;> rfl
  have push : ∀ (kcp : Ikcpcb) (seg : IkcpSeg), (ikcpInputPush kcp seg).tally = kcp.tally := by
    intro kcp seg
    simp only [ikcpInputPush, ikcpParseData]
    split_ifs <;> rfl
  have first : (ikcpShrinkBuf (ikcpParseUna { st.kcp with rmtWnd := seg.wnd } seg.una)).tally =
      st.kcp.tally := shrink _
  -- every command does something else behind the common part
  simp only [ikcpInputSeg, ikcpInputAck]
  split_ifs
  · rw [shrink, ack, rtt, first]
  · rw [shrink, ack, first]
  · rw [push, first]
  · exact first
  · exact first

/-- Reading a datagram counts nothing. -/
theorem tally_ikcpInput (kcp : Ikcpcb) (data : List UInt8) :
    (ikcpInput kcp data).2.tally = kcp.tally := by
  apply ikcpInput_keeps Ikcpcb.tally
  · exact tally_ikcpInputSeg
  · intro kcp sn ts
    unfold ikcpParseFastack
    split_ifs <;> rfl
  · intro kcp prevUna
    simp only [ikcpInputCwnd]
    split_ifs <;> rfl

theorem current_ikcpUpdateTimer (kcp : Ikcpcb) (current : UInt32) :
    (ikcpUpdateTimer kcp current).2.current = current := by
  simp only [ikcpUpdateTimer]
  split_ifs <;> rfl

/-- Neither does anything else that happens between two flushes. -/
theorem tally_ikcpUpdateTimer (kcp : Ikcpcb) (current : UInt32) :
    (ikcpUpdateTimer kcp current).2.tally = kcp.tally := by
  simp only [ikcpUpdateTimer]
  split_ifs <;> rfl

theorem tally_ikcpRecv (kcp : Ikcpcb) (len : ℤ) : (ikcpRecv kcp len).2.2.tally = kcp.tally := by
  simp only [ikcpRecv]
  split_ifs <;> rfl

end OmniSocket
