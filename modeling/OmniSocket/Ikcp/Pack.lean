/-
# What a flush writes

The segments of one flush, in order: the acknowledgements, the window probes and
those data segments that are due. They go into datagrams without being split or
reordered, and no datagram is empty or longer than the MTU.
-/

import OmniSocket.Ikcp.Frame

set_option autoImplicit false

namespace OmniSocket

/-! ## Packing segments into datagrams -/

namespace IkcpOut

/-- The output so far holds exactly the segments `segs`, in whole datagrams that
are neither empty nor longer than the MTU. -/
def Packs (mtu : UInt32) (out : IkcpOut) (segs : List IkcpSeg) : Prop :=
  ∃ (parts : List (List IkcpSeg)) (rest : List IkcpSeg),
    out.sent = parts.map ikcpDatagram ∧ out.buffer = ikcpDatagram rest ∧
      segs = parts.flatten ++ rest ∧ (ikcpDatagram rest).length ≤ mtu.toNat ∧
      ∀ part ∈ parts, part ≠ [] ∧ (ikcpDatagram part).length ≤ mtu.toNat

theorem packs_nil (mtu : UInt32) : Packs mtu ⟨[], []⟩ [] :=
  ⟨[], [], rfl, rfl, rfl, Nat.zero_le _, by simp⟩

theorem ikcpDatagram_eq_nil {segs : List IkcpSeg} : ikcpDatagram segs = [] ↔ segs = [] := by
  constructor
  · intro empty
    have bound := length_le_length_ikcpDatagram segs
    rw [empty, List.length_nil] at bound
    exact List.length_eq_zero_iff.mp (Nat.le_zero.mp bound)
  · rintro rfl
    rfl

theorem Packs.output {mtu : UInt32} {out : IkcpOut} {segs : List IkcpSeg}
    (packs : out.Packs mtu segs) : out.output.Packs mtu segs := by
  obtain ⟨parts, rest, sent, buffer, rfl, fits, sizes⟩ := packs
  by_cases empty : rest = []
  · refine ⟨parts, [], ?_, rfl, by rw [empty], Nat.zero_le _, sizes⟩
    rw [IkcpOut.output, if_pos (by rw [buffer, empty]; rfl), sent]
  · refine ⟨parts ++ [rest], [], ?_, rfl, by simp, Nat.zero_le _, ?_⟩
    · rw [IkcpOut.output, if_neg (by rwa [buffer, ikcpDatagram_eq_nil]), sent, buffer]
      simp
    · intro part member
      rcases List.mem_append.mp member with old | new
      · exact sizes part old
      · exact List.mem_singleton.mp new ▸ ⟨empty, fits⟩

/-- A segment that fits a datagram of its own is packed. -/
theorem Packs.put {mtu : UInt32} {out : IkcpOut} {segs : List IkcpSeg} {seg : IkcpSeg}
    (packs : out.Packs mtu segs) (small : (ikcpSegBytes seg).length ≤ mtu.toNat) :
    (out.put mtu seg).Packs mtu (segs ++ [seg]) := by
  by_cases full : mtu.toNat < out.buffer.length + (ikcpSegBytes seg).length
  · obtain ⟨parts, rest, sent, buffer, rfl, -, sizes⟩ := packs.output
    have flushed : rest = [] := ikcpDatagram_eq_nil.mp buffer.symm
    subst flushed
    refine ⟨parts, [seg], ?_, ?_, by simp, by simpa using small, sizes⟩
    · simp only [IkcpOut.put, if_pos full, sent]
    · simp only [IkcpOut.put, if_pos full, IkcpOut.output, ikcpDatagram_singleton, List.nil_append]
  · obtain ⟨parts, rest, sent, buffer, rfl, -, sizes⟩ := packs
    rw [buffer] at full
    refine ⟨parts, rest ++ [seg], ?_, ?_, by simp, ?_, sizes⟩
    · simp only [IkcpOut.put, buffer, if_neg full, sent]
    · simp only [IkcpOut.put, buffer, if_neg full, ikcpDatagram_append, ikcpDatagram_singleton]
    · rw [ikcpDatagram_append, ikcpDatagram_singleton, List.length_append]
      exact not_lt.mp full

/-- Once everything is output, the segments are in the datagrams sent. -/
theorem Packs.sent_output {mtu : UInt32} {out : IkcpOut} {segs : List IkcpSeg}
    (packs : out.Packs mtu segs) : ∃ parts : List (List IkcpSeg),
      out.output.sent = parts.map ikcpDatagram ∧ parts.flatten = segs ∧
        ∀ part ∈ parts, part ≠ [] ∧ (ikcpDatagram part).length ≤ mtu.toNat := by
  obtain ⟨parts, rest, sent, buffer, rfl, -, sizes⟩ := packs.output
  have flushed : rest = [] := ikcpDatagram_eq_nil.mp buffer.symm
  exact ⟨parts, sent, by rw [flushed, List.append_nil], sizes⟩

end IkcpOut

/-! ## The segments of one flush -/

/-- The acknowledgement for one entry of the list. -/
def ikcpAckSeg (seg : IkcpSeg) (ack : UInt32 × UInt32) : IkcpSeg :=
  { seg with sn := ack.1, ts := ack.2 }

/-- The probes of one flush. -/
def ikcpWindowSegs (kcp : Ikcpcb) (seg : IkcpSeg) : List IkcpSeg :=
  (if kcp.probe &&& ikcpAskSend ≠ 0 then [{ seg with cmd := ikcpCmdWask }] else []) ++
    (if kcp.probe &&& ikcpAskTell ≠ 0 then [{ seg with cmd := ikcpCmdWins }] else [])

/-- The data segments of one flush, as they are written. -/
def ikcpDueSegs (kcp : Ikcpcb) (wnd : UInt32) (buf : List IkcpSeg) : List IkcpSeg :=
  buf.filterMap fun segment =>
    (ikcpSendReason kcp segment).map fun reason =>
      ikcpStampSeg kcp wnd (ikcpArmSeg kcp segment reason)

private theorem length_segBytes_of_empty {mtu : UInt32} {seg : IkcpSeg} (empty : seg.data = [])
    (room : ikcpOverhead ≤ mtu.toNat) : (ikcpSegBytes seg).length ≤ mtu.toNat := by
  rw [length_ikcpSegBytes, empty]
  exact room

/-- The loop over the acknowledgements writes one segment for each of them; the
local `seg` keeps everything but its number and timestamp. -/
theorem ikcpFlushAcks_packs {mtu : UInt32} {seg : IkcpSeg} {out : IkcpOut} {segs : List IkcpSeg}
    (acks : List (UInt32 × UInt32)) (room : ikcpOverhead ≤ mtu.toNat) (empty : seg.data = [])
    (packs : out.Packs mtu segs) :
    (ikcpFlushAcks mtu acks seg out).2.Packs mtu (segs ++ acks.map (ikcpAckSeg seg)) ∧
      ∃ last, (ikcpFlushAcks mtu acks seg out).1 = ikcpAckSeg seg last := by
  induction acks generalizing seg out segs with
  | nil =>
    rw [List.map_nil, List.append_nil]
    exact ⟨packs, (seg.sn, seg.ts), rfl⟩
  | cons ack rest ih =>
    have empty' : (ikcpAckSeg seg ack).data = [] := empty
    have next := packs.put (length_segBytes_of_empty empty' room)
    obtain ⟨later, last, last_eq⟩ := ih empty' next
    have step : ikcpFlushAcks mtu (ack :: rest) seg out =
        ikcpFlushAcks mtu rest (ikcpAckSeg seg ack) (out.put mtu (ikcpAckSeg seg ack)) := rfl
    have same : rest.map (ikcpAckSeg (ikcpAckSeg seg ack)) = rest.map (ikcpAckSeg seg) := rfl
    rw [same] at later
    rw [step]
    exact ⟨by simpa using later, last, last_eq⟩

/-- The acknowledgements leave the window of the local `seg` as it is. -/
@[simp] theorem wnd_ikcpFlushAcks (mtu : UInt32) (acks : List (UInt32 × UInt32)) (seg : IkcpSeg)
    (out : IkcpOut) : (ikcpFlushAcks mtu acks seg out).1.wnd = seg.wnd := by
  induction acks generalizing seg out with
  | nil => rfl
  | cons ack rest ih => exact ih (ikcpAckSeg seg ack) _

theorem ikcpFlushWindow_packs {mtu : UInt32} {kcp : Ikcpcb} {seg : IkcpSeg} {out : IkcpOut}
    {segs : List IkcpSeg} (same : kcp.mtu = mtu) (room : ikcpOverhead ≤ mtu.toNat)
    (empty : seg.data = []) (packs : out.Packs mtu segs) :
    (ikcpFlushWindow kcp seg out).Packs mtu (segs ++ ikcpWindowSegs kcp seg) := by
  subst same
  have small : ∀ cmd, (ikcpSegBytes { seg with cmd := cmd }).length ≤ kcp.mtu.toNat :=
    fun cmd => length_segBytes_of_empty empty room
  have ask := packs.put (small ikcpCmdWask)
  have tell := fun {earlier : IkcpOut} {before : List IkcpSeg}
    (packed : earlier.Packs kcp.mtu before) => packed.put (small ikcpCmdWins)
  simp only [ikcpFlushWindow, ikcpWindowSegs]
  split_ifs
  · simpa using tell ask
  · simpa using tell packs
  · simpa using ask
  · simpa using packs

/-- The loop over the send buffer writes the segments that are due. -/
theorem ikcpFlushLoop_packs {mtu : UInt32} {kcp : Ikcpcb} {buf segs : List IkcpSeg}
    (wnd : UInt32) (acc : IkcpFlushAcc) (same : kcp.mtu = mtu)
    (small : ∀ seg ∈ buf, ikcpOverhead + seg.data.length ≤ mtu.toNat)
    (packs : acc.out.Packs mtu segs) :
    (ikcpFlushLoop kcp wnd acc buf).2.out.Packs mtu (segs ++ ikcpDueSegs kcp wnd buf) := by
  subst same
  induction buf generalizing acc segs with
  | nil => simpa [ikcpFlushLoop, ikcpDueSegs] using packs
  | cons segment rest ih =>
    have later := fun {acc : IkcpFlushAcc} {segs : List IkcpSeg}
      (packed : acc.out.Packs kcp.mtu segs) =>
      ih acc (fun seg member => small seg (List.mem_cons_of_mem _ member)) packed
    cases reason : ikcpSendReason kcp segment with
    | none =>
      have step : ikcpFlushData kcp wnd acc segment = (segment, acc) := by
        simp only [ikcpFlushData, reason]
      have due : ikcpDueSegs kcp wnd (segment :: rest) = ikcpDueSegs kcp wnd rest := by
        simp [ikcpDueSegs, reason]
      simp only [ikcpFlushLoop, step, due]
      exact later packs
    | some why =>
      -- a segment that is sent again is no longer than it was
      have fits : (ikcpSegBytes (ikcpStampSeg kcp wnd (ikcpArmSeg kcp segment why))).length ≤
          kcp.mtu.toNat := by
        have data : (ikcpStampSeg kcp wnd (ikcpArmSeg kcp segment why)).data = segment.data := by
          cases why <;> rfl
        rw [length_ikcpSegBytes, data]
        exact small segment List.mem_cons_self
      have due : ikcpDueSegs kcp wnd (segment :: rest) =
          ikcpStampSeg kcp wnd (ikcpArmSeg kcp segment why) :: ikcpDueSegs kcp wnd rest := by
        simp [ikcpDueSegs, reason]
      simp only [ikcpFlushLoop, ikcpFlushData, reason, due]
      rw [List.append_cons]
      exact later (packs.put fits)

/-! ## One flush -/

/-- The control block when a flush comes to the send buffer: the acknowledgements
and probes are written and the window is filled. -/
def ikcpFlushFilled (kcp : Ikcpcb) : Ikcpcb :=
  let probed := ikcpFlushProbe { kcp with acklist := [] }
  ikcpAdmit { probed with probe := 0 } (ikcpWndUnused kcp) (ikcpFlushCwnd probed)

/-- The segments of one flush; `last` is what the acknowledgements leave in the
number and the timestamp of the probes. -/
def ikcpFlushSegs (kcp : Ikcpcb) (last : UInt32 × UInt32) : List IkcpSeg :=
  kcp.acklist.map (ikcpAckSeg (ikcpFlushSeg kcp)) ++
    ikcpWindowSegs (ikcpFlushProbe { kcp with acklist := [] })
      (ikcpAckSeg (ikcpFlushSeg kcp) last) ++
    ikcpDueSegs (ikcpFlushFilled kcp) (ikcpWndUnused kcp) (ikcpFlushFilled kcp).sndBuf

/-- A flush puts its segments into whole datagrams, none of them empty or longer
than the MTU. -/
theorem ikcpFlush_packs {kcp : Ikcpcb} (updated : kcp.updated ≠ 0)
    (room : ikcpOverhead ≤ kcp.mtu.toNat)
    (small : ∀ seg ∈ (ikcpFlushFilled kcp).sndBuf,
      ikcpOverhead + seg.data.length ≤ kcp.mtu.toNat) :
    ∃ (last : UInt32 × UInt32) (parts : List (List IkcpSeg)),
      (ikcpFlush kcp).1 = parts.map ikcpDatagram ∧ parts.flatten = ikcpFlushSegs kcp last ∧
      ∀ part ∈ parts, part ≠ [] ∧ (ikcpDatagram part).length ≤ kcp.mtu.toNat := by
  have probed : (ikcpFlushProbe { kcp with acklist := [] }).mtu = kcp.mtu :=
    congrArg IkcpConfig.mtu (ikcpFlushProbe_frame { kcp with acklist := [] }).1
  have filled : (ikcpFlushFilled kcp).mtu = kcp.mtu := probed
  obtain ⟨acks, last, seg⟩ := ikcpFlushAcks_packs kcp.acklist room
    (show (ikcpFlushSeg kcp).data = [] from rfl) (IkcpOut.packs_nil kcp.mtu)
  have windows := ikcpFlushWindow_packs probed room
    (show (ikcpAckSeg (ikcpFlushSeg kcp) last).data = [] from rfl) acks
  have wnd : (ikcpAckSeg (ikcpFlushSeg kcp) last).wnd = ikcpWndUnused kcp := rfl
  have data := ikcpFlushLoop_packs (ikcpWndUnused kcp)
    ⟨_, (ikcpFlushFilled kcp).xmit, (ikcpFlushFilled kcp).state, 0, false⟩ filled small windows
  obtain ⟨parts, sent, segs, sizes⟩ := data.sent_output
  refine ⟨last, parts, ?_, ?_, sizes⟩
  · rw [ikcpFlush, if_neg updated, ← sent]
    simp only [seg, wnd]
    rfl
  · rw [segs, ikcpFlushSegs, List.nil_append]

end OmniSocket
