/-
# The send window

Every endpoint numbers its fragments 0, 1, 2, … in the order they were queued.
Those that have left the queue and are not acknowledged are in flight; the send
buffer holds them in order, and they lie within 128 of each other. Nothing a
peer sends can break this: a datagram takes segments out of flight and does
nothing else to the sending half.
-/

import OmniSocket.Ikcp.Frame
import OmniSocket.Ikcp.Message
import OmniSocket.Ikcp.Pack
import Mathlib.Data.List.GetD

set_option autoImplicit false

namespace OmniSocket

open Lib

/-! ## What the timers leave alone -/

/-- What never changes of a segment in flight. -/
def IkcpSeg.key (seg : IkcpSeg) : UInt32 × UInt32 × UInt32 × Fragment UInt8 :=
  (seg.conv, seg.cmd, seg.sn, seg.fragment)

@[simp] theorem key_ikcpStampSeg (kcp : Ikcpcb) (wnd : UInt32) (segment : IkcpSeg)
    (reason : IkcpSendReason) :
    (ikcpStampSeg kcp wnd (ikcpArmSeg kcp segment reason)).key = segment.key := by
  cases reason <;> rfl

/-- The flush loop does not change the keys. -/
theorem key_ikcpFlushLoop (kcp : Ikcpcb) (wnd : UInt32) (acc : IkcpFlushAcc)
    (buf : List IkcpSeg) :
    (ikcpFlushLoop kcp wnd acc buf).1.map IkcpSeg.key = buf.map IkcpSeg.key := by
  induction buf generalizing acc with
  | nil => rfl
  | cons segment rest ih =>
    simp only [ikcpFlushLoop, List.map_cons, ih]
    congr 1
    unfold ikcpFlushData
    split
    · rfl
    · exact key_ikcpStampSeg ..

/-- What is written was in the send buffer, with the number of the next segment
to be received. -/
theorem mem_ikcpDueSegs {kcp : Ikcpcb} {wnd : UInt32} {buf : List IkcpSeg} {seg : IkcpSeg}
    (member : seg ∈ ikcpDueSegs kcp wnd buf) :
    seg.key ∈ buf.map IkcpSeg.key ∧ seg.una = kcp.rcvNxt := by
  obtain ⟨segment, inBuf, due⟩ := List.mem_filterMap.mp member
  obtain ⟨reason, -, rfl⟩ := Option.map_eq_some_iff.mp due
  refine ⟨?_, rfl⟩
  rw [key_ikcpStampSeg]
  exact List.mem_map_of_mem inBuf

/-! ## Admission to the window -/

/-- The keys of fragments that get the numbers from `sn` on. -/
def ikcpNumbered (conv : UInt32) : UInt32 → List (Fragment UInt8) →
    List (UInt32 × UInt32 × UInt32 × Fragment UInt8)
  | _, [] => []
  | sn, fragment :: rest => (conv, ikcpCmdPush, sn, fragment) :: ikcpNumbered conv (sn + 1) rest

/-- The loop that fills the window moves the front of the queue behind the
buffer, as far as the limit allows. -/
theorem ikcpAdmitLoop_spec (kcp : Ikcpcb) (wnd limit : UInt32) (queue buf : List IkcpSeg)
    (sndNxt : UInt32) :
    ∃ k ≤ queue.length,
      (ikcpAdmitLoop kcp wnd limit queue buf sndNxt).1 = queue.drop k ∧
      (ikcpAdmitLoop kcp wnd limit queue buf sndNxt).2.2 = sndNxt + UInt32.ofNat k ∧
      (ikcpAdmitLoop kcp wnd limit queue buf sndNxt).2.1.map IkcpSeg.key =
        buf.map IkcpSeg.key ++
          ikcpNumbered kcp.conv sndNxt ((queue.take k).map IkcpSeg.fragment) ∧
      (∀ i < k, itimediff (sndNxt + UInt32.ofNat i) limit < 0) ∧
      (k < queue.length → 0 ≤ itimediff (sndNxt + UInt32.ofNat k) limit) := by
  -- on the queue: the loop stops at the first number that reaches the limit
  induction queue generalizing buf sndNxt with
  | nil =>
    refine ⟨0, Nat.le_refl 0, rfl, by simp [ikcpAdmitLoop], by simp [ikcpAdmitLoop, ikcpNumbered],
      ?_, ?_⟩
    · exact fun i bad => absurd bad (Nat.not_lt_zero i)
    · exact fun bad => absurd bad (Nat.lt_irrefl 0)
  | cons seg queue ih =>
    rw [ikcpAdmitLoop]
    by_cases room : itimediff sndNxt limit < 0
    · rw [if_pos room]
      obtain ⟨k, le, rest, next, keys, before, after⟩ :=
        ih (buf ++ [ikcpAdmitSeg kcp wnd sndNxt seg]) (sndNxt + 1)
      -- the rest of the loop counts from one number further on
      have shift : ∀ i : ℕ, sndNxt + 1 + UInt32.ofNat i = sndNxt + UInt32.ofNat (i + 1) := by
        intro i
        rw [ofNat_succ, UInt32.add_assoc, UInt32.add_comm 1]
      refine ⟨k + 1, Nat.succ_le_succ le, rest, by rw [next, shift], ?_, ?_, ?_⟩
      · rw [keys]
        simp [ikcpNumbered, IkcpSeg.key, ikcpAdmitSeg, IkcpSeg.fragment]
      · intro i small
        cases i with
        | zero => simpa using room
        | succ i => exact shift i ▸ before i (Nat.lt_of_succ_lt_succ small)
      · intro more
        exact shift k ▸ after (Nat.lt_of_succ_lt_succ more)
    · rw [if_neg room]
      refine ⟨0, Nat.zero_le _, rfl, by simp, by simp [ikcpNumbered], ?_, ?_⟩
      · exact fun i bad => absurd bad (Nat.not_lt_zero i)
      · intro _
        simpa using not_lt.mp room

/-! ## The invariant -/

/-- The key of the fragment with number `i`. -/
def pushKey (conv : UInt32) (hist : List (Fragment UInt8)) (i : ℕ) :
    UInt32 × UInt32 × UInt32 × Fragment UInt8 :=
  (conv, ikcpCmdPush, UInt32.ofNat i, hist.getD i (0, []))

/-- The sending half of an endpoint that has queued the fragments `hist`, given
numbers to the first `n`, and has the numbers `flying` in flight. -/
structure Sends (conv : UInt32) (hist : List (Fragment UInt8)) (n : ℕ) (flying : List ℕ)
    (kcp : Ikcpcb) : Prop where
  nxt : kcp.sndNxt = UInt32.ofNat n
  una : kcp.sndUna = UInt32.ofNat (flying.headD n)
  queue : kcp.sndQueue.map IkcpSeg.fragment = hist.drop n
  inside : n ≤ hist.length
  buf : kcp.sndBuf.map IkcpSeg.key = flying.map (pushKey conv hist)
  sorted : flying.Pairwise (· < ·)
  below : ∀ i ∈ flying, i < n
  window : n ≤ flying.headD n + 128

namespace Sends

variable {conv : UInt32} {hist : List (Fragment UInt8)} {n : ℕ} {flying : List ℕ}
  {kcp kcp' : Ikcpcb}

/-- Nothing is in flight exactly if the buffer is empty. -/
theorem flying_eq_nil_iff (sends : Sends conv hist n flying kcp) :
    flying = [] ↔ kcp.sndBuf = [] := by
  rw [← List.map_eq_nil_iff (f := IkcpSeg.key) (l := kcp.sndBuf), sends.buf, List.map_eq_nil_iff]

/-- Only the sending half matters. -/
theorem congr (sends : Sends conv hist n flying kcp) (same : kcp'.sending = kcp.sending) :
    Sends conv hist n flying kcp' := by
  obtain ⟨una, nxt, queue, buf⟩ : kcp'.sndUna = kcp.sndUna ∧ kcp'.sndNxt = kcp.sndNxt ∧
      kcp'.sndQueue = kcp.sndQueue ∧ kcp'.sndBuf = kcp.sndBuf := by
    simpa [Ikcpcb.sending] using same
  exact
    { nxt := nxt ▸ sends.nxt
      una := una ▸ sends.una
      queue := queue ▸ sends.queue
      inside := sends.inside
      buf := buf ▸ sends.buf
      sorted := sends.sorted
      below := sends.below
      window := sends.window }

/-- The oldest number in flight is the least one, and not beyond the next. -/
theorem headD_le (sends : Sends conv hist n flying kcp) :
    flying.headD n ≤ n ∧ ∀ i ∈ flying, flying.headD n ≤ i := by
  have sorted := sends.sorted
  have below := sends.below
  cases flying with
  | nil => exact ⟨Nat.le_refl n, by simp⟩
  | cons first rest =>
    refine ⟨(below first List.mem_cons_self).le, ?_⟩
    intro i member
    rcases List.mem_cons.mp member with rfl | later
    · exact Nat.le_refl i
    · exact (List.rel_of_pairwise_cons sorted later).le

/-! ### Queueing a message -/

/-- The fragments of a message are added to the history. -/
theorem append (sends : Sends conv hist n flying kcp) {segs : List IkcpSeg}
    {added : List (Fragment UInt8)} (fragments : segs.map IkcpSeg.fragment = added) :
    Sends conv (hist ++ added) n flying { kcp with sndQueue := kcp.sndQueue ++ segs } where
  nxt := sends.nxt
  una := sends.una
  queue := by
    rw [List.map_append, sends.queue, fragments, List.drop_append_of_le_length sends.inside]
  inside := by
    rw [List.length_append]
    exact sends.inside.trans (Nat.le_add_right _ _)
  buf := by
    rw [sends.buf]
    refine List.map_congr_left fun i member => ?_
    have inside := (sends.below i member).trans_le sends.inside
    rw [pushKey, pushKey, List.getD_append _ _ _ _ inside]
  sorted := sends.sorted
  below := sends.below
  window := sends.window

/-! ### Flushing -/

/-- Numbering the front of the queue gives the keys of the numbers from `n` on. -/
theorem ikcpNumbered_eq (conv : UInt32) (hist : List (Fragment UInt8)) (n k : ℕ)
    (inside : n + k ≤ hist.length) :
    ikcpNumbered conv (UInt32.ofNat n) ((hist.drop n).take k) =
      (List.range' n k).map (pushKey conv hist) := by
  induction k generalizing n with
  | zero => rfl
  | succ k ih =>
    have first : hist.drop n = hist[n] :: hist.drop (n + 1) := List.drop_eq_getElem_cons (by omega)
    have next := ih (n + 1) (by omega)
    rw [first, List.take_succ_cons, ikcpNumbered, ← ofNat_succ, next, List.range'_succ,
      List.map_cons, pushKey, List.getD_eq_getElem _ _ (by omega)]

private theorem headD_append_range' (flying : List ℕ) (n k : ℕ) :
    (flying ++ List.range' n k).headD (n + k) = flying.headD n := by
  cases flying with
  | cons first rest => rfl
  | nil => cases k <;> simp [List.range'_succ]

/-- The window is never larger than 128. -/
theorem toNat_ikcpFlushCwnd_le (window : kcp.sndWnd = 128) (noCwnd : kcp.nocwnd = 1) :
    (ikcpFlushCwnd kcp).toNat ≤ 128 := by
  simp only [ikcpFlushCwnd, imin, window, noCwnd]
  rw [if_neg (by decide)]
  split_ifs with small
  · decide
  · exact (UInt32.lt_iff_toNat_lt.mp (UInt32.not_le.mp small)).le

/-- Filling the window gives the next numbers to the front of the queue. -/
theorem fill (sends : Sends conv hist n flying kcp) (same : kcp.conv = conv) (wnd cwnd : UInt32)
    (small : cwnd.toNat ≤ 128) :
    ∃ k, Sends conv hist (n + k) (flying ++ List.range' n k) (ikcpAdmit kcp wnd cwnd) := by
  obtain ⟨k, le, rest, next, keys, before, -⟩ :=
    ikcpAdmitLoop_spec kcp wnd (kcp.sndUna + cwnd) kcp.sndQueue kcp.sndBuf kcp.sndNxt
  have length : kcp.sndQueue.length = hist.length - n := by
    rw [← List.length_map (f := IkcpSeg.fragment), sends.queue, List.length_drop]
  have inside : n + k ≤ hist.length := by
    have := sends.inside
    omega
  -- the window is counted from the oldest number in flight
  have limit : kcp.sndUna + cwnd = UInt32.ofNat (flying.headD n + cwnd.toNat) := by
    rw [sends.una, UInt32.ofNat_add, UInt32.ofNat_toNat]
  refine ⟨k, ?_⟩
  exact
    { nxt := next.trans (by rw [sends.nxt, UInt32.ofNat_add])
      una := by
        rw [headD_append_range']
        exact sends.una
      queue := (congrArg (List.map IkcpSeg.fragment) rest).trans
        (by rw [List.map_drop, sends.queue, List.drop_drop])
      inside := inside
      buf := keys.trans (by
        rw [sends.buf, List.map_take, sends.queue, sends.nxt, same,
          ikcpNumbered_eq conv hist n k inside, List.map_append])
      sorted := by
        refine List.pairwise_append.mpr ⟨sends.sorted, List.pairwise_lt_range', ?_⟩
        intro i old j new
        exact (sends.below i old).trans_le (List.mem_range'_1.mp new).1
      below := by
        intro i member
        rcases List.mem_append.mp member with old | new
        · exact (sends.below i old).trans_le (Nat.le_add_right n k)
        · exact (List.mem_range'_1.mp new).2
      window := by
        rw [headD_append_range']
        have head := sends.headD_le.1
        have window := sends.window
        by_contra beyond
        -- the first number beyond the window would have been admitted
        have outside := before (flying.headD n + 128 - n) (by omega)
        rw [sends.nxt, ← UInt32.ofNat_add, limit, itimediff_ofNat (by omega) (by omega)] at outside
        omega }

/-! ### Acknowledgements and other input -/

/-- Taking segments out of the buffer, and then `ikcp_shrink_buf`. -/
theorem shrink {fewer : List ℕ} (sends : Sends conv hist n flying kcp) (sub : fewer.Sublist flying)
    (nxt : kcp'.sndNxt = kcp.sndNxt) (queue : kcp'.sndQueue = kcp.sndQueue)
    (buf : kcp'.sndBuf.map IkcpSeg.key = fewer.map (pushKey conv hist)) :
    Sends conv hist n fewer (ikcpShrinkBuf kcp') := by
  -- the oldest segment left says where the window begins; without one it begins at the next
  have una : (ikcpShrinkBuf kcp').sndUna = UInt32.ofNat (fewer.headD n) := by
    unfold ikcpShrinkBuf
    cases fewer with
    | nil =>
      rw [List.map_nil, List.map_eq_nil_iff] at buf
      simp only [buf, List.headD_nil, nxt, sends.nxt]
    | cons i rest =>
      obtain ⟨seg, others, same, key, -⟩ := List.map_eq_cons_iff.mp buf
      simp only [same, List.headD_cons]
      exact congrArg (fun key => key.2.2.1) key
  have rest : (ikcpShrinkBuf kcp').sndNxt = kcp'.sndNxt ∧
      (ikcpShrinkBuf kcp').sndQueue = kcp'.sndQueue ∧
      (ikcpShrinkBuf kcp').sndBuf = kcp'.sndBuf := by
    unfold ikcpShrinkBuf
    split <;> exact ⟨rfl, rfl, rfl⟩
  exact
    { nxt := rest.1.trans (nxt.trans sends.nxt)
      una := una
      queue := by rw [rest.2.1, queue, sends.queue]
      inside := sends.inside
      buf := by rw [rest.2.2, buf]
      sorted := sends.sorted.sublist sub
      below := fun i member => sends.below i (sub.subset member)
      window := by
        cases fewer with
        | nil => exact Nat.le_add_right n 128
        | cons i rest =>
          have head := sends.headD_le.2 i (sub.subset List.mem_cons_self)
          have window := sends.window
          rw [List.headD_cons]
          omega }

/-- The loop of `ikcp_parse_ack` on the numbers in flight. -/
def unacked (sn : UInt32) : List ℕ → List ℕ
  | [] => []
  | i :: rest =>
    if sn = UInt32.ofNat i then rest
    else if itimediff sn (UInt32.ofNat i) < 0 then i :: rest
    else i :: unacked sn rest

theorem unacked_sublist (sn : UInt32) (flying : List ℕ) : (unacked sn flying).Sublist flying := by
  induction flying with
  | nil => exact List.Sublist.refl []
  | cons i rest ih =>
    rw [unacked]
    split_ifs
    · exact List.sublist_cons_self i rest
    · exact List.Sublist.refl _
    · exact ih.cons_cons i

private theorem key_ikcpParseAckLoop {sn : UInt32} {buf : List IkcpSeg} {flying : List ℕ}
    (keys : buf.map IkcpSeg.key = flying.map (pushKey conv hist)) :
    (ikcpParseAckLoop sn buf).map IkcpSeg.key = (unacked sn flying).map (pushKey conv hist) := by
  induction flying generalizing buf with
  | nil =>
    rw [List.map_nil, List.map_eq_nil_iff] at keys
    rw [keys]
    rfl
  | cons i rest ih =>
    obtain ⟨seg, others, rfl, key, later⟩ := List.map_eq_cons_iff.mp keys
    have number : seg.sn = UInt32.ofNat i := congrArg (fun key => key.2.2.1) key
    rw [ikcpParseAckLoop, unacked, number]
    split_ifs
    · exact later
    · rw [List.map_cons, List.map_cons, key, later]
    · rw [List.map_cons, List.map_cons, key, ih later]

/-- What one segment leaves in flight, by its `una` field. -/
def afterUna (una : UInt32) (flying : List ℕ) : List ℕ :=
  flying.dropWhile fun i => decide (0 < itimediff una (UInt32.ofNat i))

/-- What an acknowledgement leaves in flight. -/
def afterAck (n : ℕ) (sn : UInt32) (flying : List ℕ) : List ℕ :=
  if itimediff sn (UInt32.ofNat (flying.headD n)) < 0 ∨ 0 ≤ itimediff sn (UInt32.ofNat n) then
    flying
  else unacked sn flying

/-- What one segment of a datagram leaves in flight. -/
def afterSeg (n : ℕ) (flying : List ℕ) (seg : IkcpSeg) : List ℕ :=
  if seg.cmd = ikcpCmdAck then afterAck n seg.sn (afterUna seg.una flying)
  else afterUna seg.una flying

theorem afterAck_sublist (n : ℕ) (sn : UInt32) (flying : List ℕ) :
    (afterAck n sn flying).Sublist flying := by
  unfold afterAck
  split_ifs
  · exact List.Sublist.refl flying
  · exact unacked_sublist sn flying

theorem afterSeg_sublist (n : ℕ) (flying : List ℕ) (seg : IkcpSeg) :
    (afterSeg n flying seg).Sublist flying := by
  have una : (afterUna seg.una flying).Sublist flying := List.dropWhile_sublist _
  unfold afterSeg
  split_ifs
  · exact (afterAck_sublist ..).trans una
  · exact una

theorem inputUna (sends : Sends conv hist n flying kcp) (wnd una : UInt32) :
    Sends conv hist n (afterUna una flying)
      (ikcpShrinkBuf (ikcpParseUna { kcp with rmtWnd := wnd } una)) := by
  refine sends.shrink (List.dropWhile_sublist _) rfl rfl ?_
  have view : (fun seg : IkcpSeg => decide (0 < itimediff una seg.sn)) =
      (fun key : UInt32 × UInt32 × UInt32 × Fragment UInt8 =>
        decide (0 < itimediff una key.2.2.1)) ∘ IkcpSeg.key := rfl
  simp only [ikcpParseUna, afterUna]
  rw [view, ← List.dropWhile_map, sends.buf, List.dropWhile_map]
  rfl

theorem inputAck (sends : Sends conv hist n flying kcp) (sn : UInt32) :
    Sends conv hist n (afterAck n sn flying) (ikcpShrinkBuf (ikcpParseAck kcp sn)) := by
  have guard : IkcpInFlight kcp sn ↔ ¬ (itimediff sn (UInt32.ofNat (flying.headD n)) < 0 ∨
      0 ≤ itimediff sn (UInt32.ofNat n)) := by
    rw [IkcpInFlight, sends.una, sends.nxt]
  refine sends.shrink (afterAck_sublist ..) ?_ ?_ ?_
  · unfold ikcpParseAck
    split_ifs <;> rfl
  · unfold ikcpParseAck
    split_ifs <;> rfl
  · unfold ikcpParseAck afterAck
    by_cases outside : itimediff sn (UInt32.ofNat (flying.headD n)) < 0 ∨
        0 ≤ itimediff sn (UInt32.ofNat n)
    · rw [if_neg (by rw [guard]; exact not_not.mpr outside), if_pos outside, sends.buf]
    · rw [if_pos (guard.mpr outside), if_neg outside]
      exact key_ikcpParseAckLoop sends.buf

/-- One segment of a datagram. -/
theorem inputSeg {st : IkcpInput} (sends : Sends conv hist n flying st.kcp) (seg : IkcpSeg) :
    Sends conv hist n (afterSeg n flying seg) (ikcpInputSeg st seg).kcp := by
  have first := sends.inputUna seg.wnd seg.una
  simp only [ikcpInputSeg, afterSeg]
  split_ifs with ack push wask
  · simp only [ikcpInputAck]
    refine inputAck ?_ seg.sn
    split_ifs
    · exact first.congr (ikcpUpdateAck_frame _ _).2.2
    · exact first
  · exact first.congr (ikcpInputPush_frame _ _).2
  · exact first.congr rfl
  · exact first

private theorem key_ikcpParseFastackLoop (sn ts : UInt32) (buf : List IkcpSeg) :
    (ikcpParseFastackLoop sn ts buf).map IkcpSeg.key = buf.map IkcpSeg.key := by
  induction buf with
  | nil => rfl
  | cons seg rest ih =>
    rw [ikcpParseFastackLoop]
    split_ifs
    · rfl
    · rw [List.map_cons, List.map_cons, ih]
      rfl
    · rw [List.map_cons, List.map_cons, ih]

theorem inputFastack (sends : Sends conv hist n flying kcp) (sn ts : UInt32) :
    Sends conv hist n flying (ikcpParseFastack kcp sn ts) := by
  unfold ikcpParseFastack
  split_ifs
  · exact
      { nxt := sends.nxt
        una := sends.una
        queue := sends.queue
        inside := sends.inside
        buf := (key_ikcpParseFastackLoop sn ts kcp.sndBuf).trans sends.buf
        sorted := sends.sorted
        below := sends.below
        window := sends.window }
  · exact sends

/-- A datagram takes segments out of flight, whatever is in it. -/
theorem input (sends : Sends conv hist n flying kcp) (data : List UInt8) :
    Sends conv hist n ((ikcpDecodeAll kcp.conv data.length data).1.foldl (afterSeg n) flying)
      (ikcpInput kcp data).2 := by
  by_cases short : data.length < ikcpOverhead
  · rw [ikcpInput, if_pos short, ikcpDecodeAll_of_short _ _ short]
    exact sends
  have loop : ∀ (segs : List IkcpSeg) (st : IkcpInput) (flying : List ℕ),
      Sends conv hist n flying st.kcp →
      Sends conv hist n (segs.foldl (afterSeg n) flying) (segs.foldl ikcpInputSeg st).kcp := by
    intro segs
    induction segs with
    | nil => exact fun st flying sends => sends
    | cons seg rest ih => exact fun st flying sends => ih _ _ (sends.inputSeg seg)
  have decoded := loop (ikcpDecodeAll kcp.conv data.length data).1 { kcp := kcp, newest := none }
    flying sends
  rw [ikcpInput, if_neg short]
  simp only
  split_ifs
  · exact decoded
  · split
    · exact decoded.congr (ikcpInputCwnd_frame _ _).2.2
    · exact (decoded.inputFastack _ _).congr (ikcpInputCwnd_frame _ _).2.2

end Sends

/-- Processing segments only takes numbers out of flight. -/
theorem foldl_afterSeg_sublist (n : ℕ) (segs : List IkcpSeg) (flying : List ℕ) :
    (segs.foldl (Sends.afterSeg n) flying).Sublist flying := by
  induction segs generalizing flying with
  | nil => exact List.Sublist.refl flying
  | cons seg rest ih => exact (ih _).trans (Sends.afterSeg_sublist n flying seg)

end OmniSocket
