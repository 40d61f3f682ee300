/-
# The sending half of an endpoint

With the settings of `kcp_init` the invariant of the send window holds from the
start on, through every call and whatever arrives. It says what can be in the
datagrams an endpoint emits: acknowledgements of what it has been sent, window
probes, and its own fragments under their own numbers.
-/

import OmniSocket.Ikcp.Window
import OmniSocket.KcpEndpoint

set_option autoImplicit false

namespace OmniSocket

open Lib

/-- Every fragment is at most as long, and numbered at most as high, as the
settings of `kcp_init` allow. -/
def KcpFragments (hist : List (Fragment UInt8)) : Prop :=
  ∀ fragment ∈ hist, fragment.2.length ≤ 1376 ∧ fragment.1 < 128

/-- The fragments of messages that `ikcp_send` takes. -/
theorem kcpFragments_stream {accepted : List (List UInt8)}
    (short : ∀ message ∈ accepted, message.length ≤ kcpMaxMessage) :
    KcpFragments (kcpCutter.stream accepted) := by
  intro fragment member
  obtain ⟨message, inside, cut⟩ := List.mem_flatMap.mp member
  have bounds := length_le_of_mem_cut cut
  exact ⟨bounds.1, bounds.2.trans ((kcpCutter_count_lt message).mpr (short message inside))⟩

/-- A message that `ikcp_send` takes adds such fragments. -/
theorem KcpFragments.append {hist : List (Fragment UInt8)} (fragments : KcpFragments hist)
    {message : List UInt8} (short : message.length ≤ kcpMaxMessage) :
    KcpFragments (hist ++ kcpCutter.fragments message) := by
  intro fragment member
  rcases List.mem_append.mp member with old | new
  · exact fragments fragment old
  · have alone : KcpFragments (kcpCutter.stream [message]) :=
      kcpFragments_stream (by simpa using short)
    rw [Cutter.stream_singleton] at alone
    exact alone fragment new

/-- A segment that `kcp` can write in a flush, with the numbers `flying` in flight
after it. -/
structure Written (conv : UInt32) (hist : List (Fragment UInt8)) (flying : List ℕ) (kcp : Ikcpcb)
    (seg : IkcpSeg) : Prop where
  same : seg.conv = conv
  una : seg.una = kcp.rcvNxt
  content :
    (seg.cmd = ikcpCmdAck ∧ seg.data = [] ∧ (seg.sn, seg.ts) ∈ kcp.acklist) ∨
      ((seg.cmd = ikcpCmdWask ∨ seg.cmd = ikcpCmdWins) ∧ seg.data = []) ∨
      ∃ i ∈ flying, seg.key = pushKey conv hist i

/-- The datagrams of one flush are whole, not empty and within the MTU, and hold
nothing but segments of the given kind. -/
def Emits (datagrams : List (List UInt8)) (kind : IkcpSeg → Prop) : Prop :=
  ∃ parts : List (List IkcpSeg), datagrams = parts.map ikcpDatagram ∧
    ∀ part ∈ parts, part ≠ [] ∧ (ikcpDatagram part).length ≤ 1400 ∧ ∀ seg ∈ part, kind seg

theorem emits_nil (kind : IkcpSeg → Prop) : Emits [] kind := ⟨[], rfl, by simp⟩

theorem Emits.imp {datagrams : List (List UInt8)} {kind kind' : IkcpSeg → Prop}
    (emits : Emits datagrams kind) (weaker : ∀ seg, kind seg → kind' seg) :
    Emits datagrams kind' := by
  obtain ⟨parts, sent, sizes⟩ := emits
  refine ⟨parts, sent, fun part member => ?_⟩
  obtain ⟨some, fits, segs⟩ := sizes part member
  exact ⟨some, fits, fun seg inside => weaker seg (segs seg inside)⟩

namespace Sends

variable {conv : UInt32} {hist : List (Fragment UInt8)} {n : ℕ} {flying : List ℕ} {kcp : Ikcpcb}

theorem start (conv : UInt32) : Sends conv [] 0 [] (kcpConfigure conv) where
  nxt := rfl
  una := rfl
  queue := rfl
  inside := Nat.le_refl 0
  buf := rfl
  sorted := List.Pairwise.nil
  below := by simp
  window := Nat.zero_le _

/-- The data of a segment in the send buffer is that of its fragment. -/
theorem data_le (sends : Sends conv hist n flying kcp) (fragments : KcpFragments hist)
    {seg : IkcpSeg} (member : seg ∈ kcp.sndBuf) : seg.data.length ≤ 1376 := by
  have key : seg.key ∈ flying.map (pushKey conv hist) := sends.buf ▸ List.mem_map_of_mem member
  obtain ⟨i, flies, same⟩ := List.mem_map.mp key
  have inside : i < hist.length := (sends.below i flies).trans_le sends.inside
  have data : seg.data = hist[i].2 := by
    have fragment := congrArg (fun key => key.2.2.2.2) same
    rw [pushKey, List.getD_eq_getElem _ _ inside] at fragment
    exact fragment.symm
  exact data ▸ (fragments _ (List.getElem_mem inside)).1

/-- The window is filled from the front of the queue. -/
theorem filled (sends : Sends conv hist n flying kcp) (configured : kcp.config = kcpConfig conv) :
    ∃ k, Sends conv hist (n + k) (flying ++ List.range' n k) (ikcpFlushFilled kcp) := by
  obtain ⟨config, -, sending⟩ := ikcpFlushProbe_frame { kcp with acklist := [] }
  have settings : (ikcpFlushProbe { kcp with acklist := [] }).config = kcpConfig conv :=
    config.trans configured
  have probed : Sends conv hist n flying
      { ikcpFlushProbe { kcp with acklist := [] } with probe := 0 } := sends.congr sending
  exact probed.fill (congrArg IkcpConfig.conv settings) _ _
    (toNat_ikcpFlushCwnd_le (congrArg IkcpConfig.sndWnd settings)
      (congrArg IkcpConfig.nocwnd settings))

/-- The loop over the send buffer and what follows it do not matter. -/
theorem afterLoop (sends : Sends conv hist n flying (ikcpFlushFilled kcp))
    (updated : kcp.updated ≠ 0) : Sends conv hist n flying (ikcpFlush kcp).2 := by
  rw [ikcpFlush, if_neg updated]
  simp only [wnd_ikcpFlushAcks]
  refine Sends.congr ?_ (ikcpFlushSsthresh_frame _ _ _ _).2.2
  exact
    { nxt := sends.nxt
      una := sends.una
      queue := sends.queue
      inside := sends.inside
      buf := (key_ikcpFlushLoop _ _ _ _).trans sends.buf
      sorted := sends.sorted
      below := sends.below
      window := sends.window }

/-- Every segment of a flush is one that it should write. -/
theorem written (filled : Sends conv hist n flying (ikcpFlushFilled kcp)) (same : kcp.conv = conv)
    {last : UInt32 × UInt32} {seg : IkcpSeg} (member : seg ∈ ikcpFlushSegs kcp last) :
    Written conv hist flying kcp seg := by
  simp only [ikcpFlushSegs, List.mem_append] at member
  rcases member with (ack | window) | data
  · obtain ⟨entry, listed, rfl⟩ := List.mem_map.mp ack
    exact ⟨same, rfl, .inl ⟨rfl, rfl, listed⟩⟩
  · have commands : seg = { ikcpAckSeg (ikcpFlushSeg kcp) last with cmd := ikcpCmdWask } ∨
        seg = { ikcpAckSeg (ikcpFlushSeg kcp) last with cmd := ikcpCmdWins } := by
      simp only [ikcpWindowSegs, List.mem_append] at window
      refine window.imp ?_ ?_ <;> intro found <;> split at found <;> simp_all
    rcases commands with rfl | rfl
    · exact ⟨same, rfl, .inr (.inl ⟨.inl rfl, rfl⟩)⟩
    · exact ⟨same, rfl, .inr (.inl ⟨.inr rfl, rfl⟩)⟩
  · obtain ⟨key, una⟩ := mem_ikcpDueSegs data
    rw [filled.buf] at key
    obtain ⟨i, flies, same_key⟩ := List.mem_map.mp key
    refine ⟨?_, ?_, .inr (.inr ⟨i, flies, same_key.symm⟩)⟩
    · exact (congrArg Prod.fst same_key).symm
    · rw [una]
      exact congrArg Prod.fst (ikcpFlushProbe_frame { kcp with acklist := [] }).2.1

/-- The segments of a flush are in its datagrams, in order. -/
theorem packs (sends : Sends conv hist n flying (ikcpFlushFilled kcp)) (updated : kcp.updated ≠ 0)
    (configured : kcp.config = kcpConfig conv) (fragments : KcpFragments hist) :
    ∃ (last : UInt32 × UInt32) (parts : List (List IkcpSeg)),
      (ikcpFlush kcp).1 = parts.map ikcpDatagram ∧ parts.flatten = ikcpFlushSegs kcp last ∧
      ∀ part ∈ parts, part ≠ [] ∧ (ikcpDatagram part).length ≤ 1400 := by
  have mtu : kcp.mtu = 1400 := congrArg IkcpConfig.mtu configured
  obtain ⟨last, parts, sent, segs, sizes⟩ := ikcpFlush_packs updated
    (by rw [mtu]; decide) (fun seg member => by
      rw [mtu]
      exact Nat.add_le_add_left (sends.data_le fragments member) ikcpOverhead)
  rw [mtu] at sizes
  exact ⟨last, parts, sent, segs, sizes⟩

/-- A flush gives numbers to the front of the queue and writes only segments it
should. -/
theorem flush (sends : Sends conv hist n flying kcp) (configured : kcp.config = kcpConfig conv)
    (fragments : KcpFragments hist) :
    ∃ k, Sends conv hist (n + k) (flying ++ List.range' n k) (ikcpFlush kcp).2 ∧
      Emits (ikcpFlush kcp).1 (Written conv hist (flying ++ List.range' n k) kcp) := by
  by_cases never : kcp.updated = 0
  · rw [ikcpFlush, if_pos never]
    exact ⟨0, by simpa using sends, emits_nil _⟩
  obtain ⟨k, filled⟩ := sends.filled configured
  have same : kcp.conv = conv := congrArg IkcpConfig.conv configured
  obtain ⟨last, parts, sent, segs, sizes⟩ := filled.packs never configured fragments
  refine ⟨k, filled.afterLoop never, parts, sent, fun part member => ?_⟩
  refine ⟨(sizes part member).1, (sizes part member).2, fun seg inside => ?_⟩
  exact filled.written same (segs ▸ List.mem_flatten_of_mem member inside)

/-- Letting the clock run flushes if a flush is due. -/
theorem update (sends : Sends conv hist n flying kcp) (configured : kcp.config = kcpConfig conv)
    (fragments : KcpFragments hist) (current : UInt32) :
    ∃ k, Sends conv hist (n + k) (flying ++ List.range' n k) (ikcpUpdate kcp current).2 ∧
      Emits (ikcpUpdate kcp current).1 (Written conv hist (flying ++ List.range' n k) kcp) := by
  obtain ⟨config, receiving, sending⟩ := ikcpUpdateTimer_frame kcp current
  have acks := acklist_ikcpUpdateTimer kcp current
  unfold ikcpUpdate
  generalize ikcpUpdateTimer kcp current = timed at config receiving sending acks ⊢
  obtain ⟨due, timed⟩ := timed
  have ready : Sends conv hist n flying timed := sends.congr sending
  cases due with
  | false => exact ⟨0, by simpa using ready, emits_nil _⟩
  | true =>
    obtain ⟨k, flushed, emits⟩ := ready.flush (config.trans configured) fragments
    refine ⟨k, flushed, emits.imp fun seg written => ?_⟩
    exact
      { same := written.same
        una := written.una.trans (congrArg Prod.fst receiving)
        content := by
          rw [← acks]
          exact written.content }

end Sends

end OmniSocket
