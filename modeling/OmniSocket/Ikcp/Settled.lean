/-
# What a receiver keeps

Whatever arrives, hostile datagrams included, the receive queue has at most 128
segments, and the receive buffer is sorted, without repetition, and within 128
of the next number. A segment with the next number waits in the buffer only as
long as the queue is full.
-/

import OmniSocket.Ikcp.Arrival
import Mathlib.Data.List.Perm.Subperm

set_option autoImplicit false

namespace OmniSocket

open Lib

/-! ## Distances -/

/-- How far a segment lies beyond the number `base`. -/
def IkcpSeg.offset (base : UInt32) (seg : IkcpSeg) : ℕ := (seg.sn - base).toNat

section Offset

variable {base : UInt32} {seg seg' : IkcpSeg}

theorem IkcpSeg.sn_eq (base : UInt32) (seg : IkcpSeg) :
    seg.sn = UInt32.ofNat (base.toNat + seg.offset base) := by
  rw [offset, UInt32.ofNat_add, UInt32.ofNat_toNat, UInt32.ofNat_toNat, UInt32.add_comm,
    UInt32.sub_add_cancel]

/-- Numbers that are not far beyond the base compare as their distances do. -/
theorem itimediff_of_offset (small : seg.offset base < 2 ^ 31)
    (small' : seg'.offset base < 2 ^ 31) :
    itimediff seg.sn seg'.sn = (seg.offset base : ℤ) - seg'.offset base := by
  rw [seg.sn_eq base, seg'.sn_eq base, itimediff_ofNat (by omega) (by omega)]
  omega

theorem offset_inj : seg.sn = seg'.sn ↔ seg.offset base = seg'.offset base := by
  rw [IkcpSeg.offset, IkcpSeg.offset, UInt32.toNat_inj, UInt32.sub_left_inj]

theorem offset_eq_zero : seg.offset base = 0 ↔ seg.sn = base := by
  rw [IkcpSeg.offset, show 0 = (0 : UInt32).toNat from rfl, UInt32.toNat_inj,
    UInt32.sub_eq_iff_eq_add, UInt32.zero_add]

/-- Beyond the next base everything is one nearer. -/
theorem offset_succ (other : seg.sn ≠ base) : seg.offset (base + 1) + 1 = seg.offset base := by
  have positive : seg.offset base ≠ 0 := fun zero => other (offset_eq_zero.mp zero)
  have high := seg.sn.toNat_lt
  have low := base.toNat_lt
  simp only [IkcpSeg.offset, UInt32.toNat_sub, UInt32.toNat_add, UInt32.reduceToNat] at positive ⊢
  omega

/-- What `ikcp_parse_data` lets through is within the window. -/
theorem offset_lt_of_window (before : itimediff seg.sn (base + 128) < 0)
    (due : 0 ≤ itimediff seg.sn base) : seg.offset base < 128 := by
  have wrapped : seg.offset base < 2 ^ 32 := UInt32.toNat_lt _
  have number := seg.sn_eq base
  by_contra far
  have limit : base + 128 = UInt32.ofNat (base.toNat + 128) := by
    rw [UInt32.ofNat_add, UInt32.ofNat_toNat]
    rfl
  -- half the range beyond the base the sign of the difference turns
  by_cases half : seg.offset base < 2 ^ 31
  · rw [limit, number, itimediff_ofNat (by omega) (by omega)] at before
    omega
  · have turned : itimediff seg.sn base = (seg.offset base : ℤ) - 2 ^ 32 := by
      have same : UInt32.ofNat (base.toNat + 2 ^ 32) = base := by
        rw [UInt32.ofNat_add, UInt32.ofNat_toNat]
        exact UInt32.add_zero _
      have diff := itimediff_ofNat (a := base.toNat + seg.offset base) (b := base.toNat + 2 ^ 32)
        (by omega) (by omega)
      rw [← number, same] at diff
      omega
    omega

end Offset

/-! ## The invariant -/

/-- The receiving half is in order, and nothing that could move to the queue is
left in the buffer. -/
structure Ikcpcb.Settled (kcp : Ikcpcb) : Prop where
  room : kcp.rcvQueue.length ≤ 128
  sorted : (kcp.rcvBuf.map (IkcpSeg.offset kcp.rcvNxt)).Pairwise (· < ·)
  near : ∀ seg ∈ kcp.rcvBuf, seg.offset kcp.rcvNxt < 128
  waits : ∀ seg ∈ kcp.rcvBuf.head?, seg.sn = kcp.rcvNxt → kcp.rcvQueue.length = 128

/-- Every segment the receiving half keeps has the property `P`. -/
def Ikcpcb.KeepsOnly (P : IkcpSeg → Prop) (kcp : Ikcpcb) : Prop :=
  ∀ seg ∈ kcp.rcvQueue ++ kcp.rcvBuf, P seg

namespace Ikcpcb.Settled

variable {kcp kcp' : Ikcpcb} {P : IkcpSeg → Prop}

/-- Nothing has arrived at an endpoint that is set up afresh. -/
theorem start (fresh : kcp.receiving = (0, [], [])) : kcp.Settled ∧ kcp.KeepsOnly P := by
  obtain ⟨-, queue, buf⟩ : kcp.rcvNxt = 0 ∧ kcp.rcvQueue = [] ∧ kcp.rcvBuf = [] := by
    simpa [Ikcpcb.receiving] using fresh
  refine ⟨⟨?_, ?_, ?_, ?_⟩, ?_⟩ <;> simp [KeepsOnly, queue, buf]

/-- Only the receiving half matters. -/
theorem congr (settled : kcp.Settled) (same : kcp'.receiving = kcp.receiving) : kcp'.Settled := by
  obtain ⟨nxt, queue, buf⟩ : kcp'.rcvNxt = kcp.rcvNxt ∧ kcp'.rcvQueue = kcp.rcvQueue ∧
      kcp'.rcvBuf = kcp.rcvBuf := by
    simpa [Ikcpcb.receiving] using same
  exact ⟨by rw [queue]; exact settled.room, by rw [nxt, buf]; exact settled.sorted,
    by rw [nxt, buf]; exact settled.near, by rw [nxt, buf, queue]; exact settled.waits⟩

/-- The buffer has no more segments than the window has numbers. -/
theorem length_rcvBuf_le (settled : kcp.Settled) : kcp.rcvBuf.length ≤ 128 := by
  rw [← List.length_map (f := IkcpSeg.offset kcp.rcvNxt)]
  have distinct : (kcp.rcvBuf.map (IkcpSeg.offset kcp.rcvNxt)).Nodup :=
    settled.sorted.imp fun less => less.ne
  have inside : kcp.rcvBuf.map (IkcpSeg.offset kcp.rcvNxt) ⊆ List.range 128 := by
    intro i member
    obtain ⟨seg, listed, rfl⟩ := List.mem_map.mp member
    exact List.mem_range.mpr (settled.near seg listed)
  simpa using (List.subperm_of_subset distinct inside).length_le

end Ikcpcb.Settled

/-! ## Moving to the queue -/

/-- The loop that moves segments to the queue stops where it has to. -/
private theorem settled_ikcpMoveLoop {buf queue : List IkcpSeg} {nxt : UInt32}
    (room : queue.length ≤ 128) (sorted : (buf.map (IkcpSeg.offset nxt)).Pairwise (· < ·))
    (near : ∀ seg ∈ buf, seg.offset nxt < 128) (kcp : Ikcpcb) :
    Ikcpcb.Settled { kcp with
      rcvBuf := (ikcpMoveLoop 128 buf queue nxt).1
      rcvQueue := (ikcpMoveLoop 128 buf queue nxt).2.1
      rcvNxt := (ikcpMoveLoop 128 buf queue nxt).2.2 } := by
  induction buf generalizing queue nxt with
  | nil => exact ⟨room, List.Pairwise.nil, by simp [ikcpMoveLoop], by simp [ikcpMoveLoop]⟩
  | cons seg buf ih =>
    obtain ⟨least, later⟩ := List.pairwise_cons.mp sorted
    have count : UInt32.ofNat queue.length < 128 ↔ queue.length < 128 := by
      rw [UInt32.lt_iff_toNat_lt, UInt32.toNat_ofNat', Nat.mod_eq_of_lt (by omega)]
      rfl
    rw [ikcpMoveLoop]
    by_cases next : seg.sn = nxt ∧ UInt32.ofNat queue.length < 128
    · rw [if_pos next]
      have first : seg.offset nxt = 0 := offset_eq_zero.mpr next.1
      -- the others lie beyond the next number, so they come one nearer
      have nearer : ∀ other ∈ buf, other.offset (nxt + 1) + 1 = other.offset nxt := by
        intro other member
        have beyond := least _ (List.mem_map_of_mem member)
        exact offset_succ fun same => by
          rw [first, offset_eq_zero.mpr same] at beyond
          exact Nat.lt_irrefl 0 beyond
      refine ih ?_ ?_ ?_
      · rw [List.length_append, List.length_singleton]
        exact count.mp next.2
      · rw [List.pairwise_map] at later ⊢
        refine later.imp_of_mem fun one other less => ?_
        have := nearer _ one
        have := nearer _ other
        omega
      · intro other member
        have := nearer other member
        have := near other (List.mem_cons_of_mem seg member)
        omega
    · rw [if_neg next]
      refine ⟨room, sorted, near, fun head first same => ?_⟩
      obtain rfl : seg = head := by simpa using first
      have full : ¬ queue.length < 128 := fun free => next ⟨same, count.mpr free⟩
      exact le_antisymm room (not_lt.mp full)

/-- The loop keeps every segment. -/
private theorem perm_ikcpMoveLoop (wnd nxt : UInt32) (buf queue : List IkcpSeg) :
    (ikcpMoveLoop wnd buf queue nxt).2.1 ++ (ikcpMoveLoop wnd buf queue nxt).1 = queue ++ buf := by
  induction buf generalizing queue nxt with
  | nil => rfl
  | cons seg buf ih =>
    rw [ikcpMoveLoop]
    split_ifs
    · rw [ih, List.append_assoc, List.singleton_append]
    · rfl

theorem keepsOnly_ikcpMove {P : IkcpSeg → Prop} {kcp : Ikcpcb} (keeps : kcp.KeepsOnly P) :
    (ikcpMove kcp).KeepsOnly P := by
  intro seg member
  rw [show (ikcpMove kcp).rcvQueue ++ (ikcpMove kcp).rcvBuf = kcp.rcvQueue ++ kcp.rcvBuf from
    perm_ikcpMoveLoop ..] at member
  exact keeps seg member

theorem settled_ikcpMove {kcp : Ikcpcb} (window : kcp.rcvWnd = 128)
    (room : kcp.rcvQueue.length ≤ 128)
    (sorted : (kcp.rcvBuf.map (IkcpSeg.offset kcp.rcvNxt)).Pairwise (· < ·))
    (near : ∀ seg ∈ kcp.rcvBuf, seg.offset kcp.rcvNxt < 128) : (ikcpMove kcp).Settled := by
  have moved := settled_ikcpMoveLoop room sorted near kcp
  rw [← window] at moved
  exact moved

/-! ## Data segments -/

/-- Sorting a segment into a buffer, seen from the distances. -/
private theorem map_offset_ikcpInsert {base : UInt32} {seg : IkcpSeg} {buf : List IkcpSeg}
    (inside : seg.offset base < 128) (near : ∀ other ∈ buf, other.offset base < 128) :
    (ikcpInsert seg buf).map (IkcpSeg.offset base) =
      inserted (seg.offset base) (buf.map (IkcpSeg.offset base)) := by
  induction buf with
  | nil => rfl
  | cons other buf ih =>
    have close := near other List.mem_cons_self
    have order : 0 < itimediff seg.sn other.sn ↔ other.offset base < seg.offset base := by
      have diff := @itimediff_of_offset base seg other (by omega) (by omega)
      omega
    simp only [ikcpInsert, List.map_cons, inserted, @offset_inj base, order]
    split_ifs
    · rfl
    · rfl
    · rw [List.map_cons, ih fun more member => near more (List.mem_cons_of_mem other member)]

theorem mem_ikcpInsert {seg other : IkcpSeg} {buf : List IkcpSeg}
    (member : other ∈ ikcpInsert seg buf) : other = seg ∨ other ∈ buf := by
  induction buf with
  | nil => exact .inl (List.mem_singleton.mp member)
  | cons first buf ih =>
    rw [ikcpInsert] at member
    split_ifs at member
    · exact .inr member
    · exact List.mem_cons.mp member
    · rcases List.mem_cons.mp member with rfl | later
      · exact .inr List.mem_cons_self
      · exact (ih later).imp_right (List.mem_cons_of_mem first)

theorem settled_ikcpParseData {kcp : Ikcpcb} (settled : kcp.Settled) (window : kcp.rcvWnd = 128)
    (seg : IkcpSeg) : (ikcpParseData kcp seg).Settled := by
  rw [ikcpParseData]
  split_ifs with outside
  · exact settled
  rw [not_or, not_le, not_lt, window] at outside
  have inside := offset_lt_of_window outside.1 outside.2
  have near : ∀ other ∈ kcp.rcvBuf.reverse, other.offset kcp.rcvNxt < 128 := fun other member =>
    settled.near other (List.mem_reverse.mp member)
  refine settled_ikcpMove window settled.room ?_ ?_
  · rw [List.map_reverse, map_offset_ikcpInsert inside near]
    refine List.pairwise_reverse.mpr (pairwise_inserted ?_)
    rw [List.map_reverse]
    exact List.pairwise_reverse.mpr settled.sorted
  · intro other member
    rcases mem_ikcpInsert (List.mem_reverse.mp member) with rfl | old
    · exact inside
    · exact near other old

theorem keepsOnly_ikcpParseData {P : IkcpSeg → Prop} {kcp : Ikcpcb} (keeps : kcp.KeepsOnly P)
    {seg : IkcpSeg} (new : P seg) : (ikcpParseData kcp seg).KeepsOnly P := by
  rw [ikcpParseData]
  split_ifs
  · exact keeps
  refine keepsOnly_ikcpMove fun other member => ?_
  rcases List.mem_append.mp member with queued | buffered
  · exact keeps other (List.mem_append_left _ queued)
  · rcases mem_ikcpInsert (List.mem_reverse.mp buffered) with rfl | old
    · exact new
    · exact keeps other (List.mem_append_right _ (List.mem_reverse.mp old))

theorem settled_ikcpInputPush {kcp : Ikcpcb} (settled : kcp.Settled) (window : kcp.rcvWnd = 128)
    (seg : IkcpSeg) : (ikcpInputPush kcp seg).Settled := by
  simp only [ikcpInputPush]
  have pushed : (ikcpAckPush kcp seg.sn seg.ts).Settled := settled.congr rfl
  split_ifs
  · exact settled_ikcpParseData pushed window seg
  · exact pushed
  · exact settled

theorem keepsOnly_ikcpInputPush {P : IkcpSeg → Prop} {kcp : Ikcpcb} (keeps : kcp.KeepsOnly P)
    {seg : IkcpSeg} (new : P seg) : (ikcpInputPush kcp seg).KeepsOnly P := by
  simp only [ikcpInputPush]
  have pushed : (ikcpAckPush kcp seg.sn seg.ts).KeepsOnly P := keeps
  split_ifs
  · exact keepsOnly_ikcpParseData pushed new
  · exact pushed
  · exact keeps

/-! ## The calls -/

namespace Ikcpcb

variable {kcp : Ikcpcb} {P : IkcpSeg → Prop}

theorem KeepsOnly.congr {kcp' : Ikcpcb} (keeps : kcp.KeepsOnly P)
    (same : kcp'.receiving = kcp.receiving) : kcp'.KeepsOnly P := by
  obtain ⟨-, queue, buf⟩ : kcp'.rcvNxt = kcp.rcvNxt ∧ kcp'.rcvQueue = kcp.rcvQueue ∧
      kcp'.rcvBuf = kcp.rcvBuf := by
    simpa [Ikcpcb.receiving] using same
  rw [KeepsOnly, queue, buf]
  exact keeps

/-- `ikcp_input` takes in decoded segments, and leaves the receiving half in order. -/
theorem Settled.input (settled : kcp.Settled) (window : kcp.rcvWnd = 128) (keeps : kcp.KeepsOnly P)
    (data : List UInt8)
    (new : ∀ seg ∈ (ikcpDecodeAll kcp.conv data.length data).1, P seg) :
    (ikcpInput kcp data).2.Settled ∧ (ikcpInput kcp data).2.KeepsOnly P := by
  have loop : ∀ (segs : List IkcpSeg) (st : IkcpInput), (∀ seg ∈ segs, P seg) →
      st.kcp.rcvWnd = 128 → st.kcp.Settled → st.kcp.KeepsOnly P →
      (segs.foldl ikcpInputSeg st).kcp.Settled ∧ (segs.foldl ikcpInputSeg st).kcp.KeepsOnly P := by
    intro segs
    induction segs with
    | nil => exact fun st _ _ settled keeps => ⟨settled, keeps⟩
    | cons seg rest ih =>
      intro st each window settled keeps
      have same : (ikcpInputSeg st seg).kcp.rcvWnd = 128 :=
        (congrArg IkcpConfig.rcvWnd (ikcpInputSeg_config st seg)).trans window
      have later := fun other member => each other (List.mem_cons_of_mem seg member)
      by_cases push : seg.cmd = ikcpCmdPush
      · -- what every segment goes through first leaves the receiving half alone
        obtain ⟨config, receiving⟩ := ikcpInputUna_frame st.kcp seg
        have other : seg.cmd ≠ ikcpCmdAck := by
          rw [push]
          decide
        have step : (ikcpInputSeg st seg).kcp = ikcpInputPush
            (ikcpShrinkBuf (ikcpParseUna { st.kcp with rmtWnd := seg.wnd } seg.una)) seg := by
          simp only [ikcpInputSeg, if_neg other, if_pos push]
        have settled' := settled_ikcpInputPush (settled.congr receiving)
          ((congrArg IkcpConfig.rcvWnd config).trans window) seg
        have keeps' := keepsOnly_ikcpInputPush (keeps.congr receiving) (each seg List.mem_cons_self)
        rw [← step] at settled' keeps'
        exact ih _ later same settled' keeps'
      · have receiving : (ikcpInputSeg st seg).kcp.receiving = st.kcp.receiving :=
          Receives.receiving_ikcpInputSeg push
        exact ih _ later same (settled.congr receiving) (keeps.congr receiving)
  obtain ⟨settled', keeps'⟩ := loop _ { kcp := kcp, newest := none } new window settled keeps
  have receiving := (Receives.ikcpInput_eq_foldl kcp data).1
  exact ⟨settled'.congr receiving, keeps'.congr receiving⟩

/-- `ikcp_recv` makes room and fills it. -/
theorem Settled.recv (settled : kcp.Settled) (window : kcp.rcvWnd = 128) (keeps : kcp.KeepsOnly P)
    (len : ℤ) : (ikcpRecv kcp len).2.2.Settled ∧ (ikcpRecv kcp len).2.2.KeepsOnly P := by
  have split : (ikcpMessage kcp.rcvQueue).1 ++ (ikcpMessage kcp.rcvQueue).2 = kcp.rcvQueue :=
    splitMessage_append _ _
  have shorter : (ikcpMessage kcp.rcvQueue).2.length ≤ kcp.rcvQueue.length := by
    have whole := congrArg List.length split
    rw [List.length_append] at whole
    omega
  have fewer : Ikcpcb.KeepsOnly P { kcp with rcvQueue := (ikcpMessage kcp.rcvQueue).2 } := by
    intro seg member
    rcases List.mem_append.mp member with queued | buffered
    · refine keeps seg (List.mem_append_left _ ?_)
      rw [← split]
      exact List.mem_append_right _ queued
    · exact keeps seg (List.mem_append_right _ buffered)
  -- a peek moves segments as well, to the queue as it is
  have peeked := settled_ikcpMove window settled.room settled.sorted settled.near
  have popped : (ikcpMove { kcp with rcvQueue := (ikcpMessage kcp.rcvQueue).2 }).Settled :=
    settled_ikcpMove window (shorter.trans settled.room) settled.sorted settled.near
  have all : (ikcpMove kcp).KeepsOnly P := keepsOnly_ikcpMove keeps
  have rest := keepsOnly_ikcpMove fewer
  simp only [ikcpRecv]
  split_ifs <;> first
    | exact ⟨settled, keeps⟩
    | exact ⟨popped.congr rfl, rest.congr rfl⟩
    | exact ⟨peeked.congr rfl, all.congr rfl⟩

end Ikcpcb

end OmniSocket
