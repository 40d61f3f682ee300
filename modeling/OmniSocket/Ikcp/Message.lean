/-
# Messages and their segments

With the settings of `kcp_init` a message is cut into segments of 1376 bytes,
127 at most, and a message is taken off the receive queue exactly when all of
its segments are there.
-/

import OmniSocket.Ikcp.Send
import OmniSocket.Ikcp.Recv

set_option autoImplicit false

namespace OmniSocket

open Lib

/-- The fragment a segment carries. -/
def IkcpSeg.fragment (seg : IkcpSeg) : Fragment UInt8 := (seg.frg.toNat, seg.data)

/-- How `ikcp_send` cuts a message when `mss` is 1376. -/
def kcpCutter : Cutter UInt8 where
  size := 1376
  count xs := if xs.length ≤ 1376 then 1 else (xs.length + 1375) / 1376
  positive xs := by
    split <;> omega
  enough xs := by
    split <;> omega

/-- The longest message KCP takes: 127 segments. -/
def kcpMaxMessage : ℕ := 174752

/-- The bytes of segments are those of their fragments. -/
theorem ikcpData_eq_joined (segs : List IkcpSeg) :
    ikcpData segs = joined (segs.map IkcpSeg.fragment) := by
  rw [ikcpData, joined, List.flatMap_map]
  rfl

/-! ## Sending -/

theorem ikcpFragments_fragment (mss : ℕ) {count : ℕ} (few : count < 2 ^ 32) (xs : List UInt8) :
    (ikcpFragments mss 0 count xs).map IkcpSeg.fragment = cut mss count xs := by
  induction count generalizing xs with
  | zero => rfl
  | succ count ih =>
    have number : (UInt32.ofNat count).toNat = count := by
      rw [UInt32.toNat_ofNat']
      omega
    rw [ikcpFragments, List.map_cons, ih (by omega), cut]
    simp [IkcpSeg.fragment, ikcpSegmentNew, number]

theorem sum_data_length (segs : List IkcpSeg) :
    (segs.map fun seg => (seg.data.length : ℤ)).sum = (ikcpData segs).length := by
  induction segs with
  | nil => rfl
  | cons seg rest ih =>
    rw [List.map_cons, List.sum_cons, ih, ikcpData, ikcpData, List.flatMap_cons,
      List.length_append]
    push_cast
    rfl

private theorem toNat_ofInt_natCast {len : ℕ} (small : len < 2 ^ 32) :
    (UInt32.ofInt (len : ℤ)).toNat = len := by
  rw [UInt32.ofInt, UInt32.toNat_ofNat']
  omega

/-- The number of fragments of a message of `len` bytes. -/
theorem ikcpFragmentCount_eq {len : ℕ} (small : len < 2 ^ 31) :
    ikcpFragmentCount 1376 len = ((if len ≤ 1376 then 1 else (len + 1375) / 1376 : ℕ) : ℤ) := by
  have mss : (1376 : UInt32).toInt32.toInt = 1376 := by decide
  rw [ikcpFragmentCount, mss]
  by_cases short : len ≤ 1376
  · rw [if_pos (by omega), if_pos short]
    rfl
  · have sum : (UInt32.ofInt (len : ℤ) + 1376 - 1).toNat = len + 1375 := by
      rw [UInt32.toNat_sub, UInt32.toNat_add, toNat_ofInt_natCast (by omega)]
      simp only [UInt32.reduceToNat]
      omega
    have quotient : (UInt32.ofInt (len : ℤ) + 1376 - 1) / 1376 =
        UInt32.ofNat ((len + 1375) / 1376) := by
      apply UInt32.toNat_inj.mp
      rw [UInt32.toNat_div, sum, UInt32.toNat_ofNat']
      simp only [UInt32.reduceToNat]
      omega
    rw [if_neg (by omega), if_neg short, quotient, toInt_toInt32_ofNat (by omega)]

/-- The number of segments tells whether a message is too long. -/
theorem kcpCutter_count_lt (xs : List UInt8) :
    kcpCutter.count xs < 128 ↔ xs.length ≤ kcpMaxMessage := by
  simp only [kcpCutter, kcpMaxMessage]
  split <;> omega

/-- What `ikcp_send` does with the settings of `kcp_init`: it takes a message of
at most 127 segments, or returns an error and changes nothing. -/
theorem ikcpSend_spec {kcp : Ikcpcb} {buffer : List UInt8} {len : ℕ} (mss : kcp.mss = 1376)
    (stream : kcp.stream = 0) (small : len < 2 ^ 31) (inside : len ≤ buffer.length) :
    (kcpMaxMessage < len ∧ ikcpSend kcp buffer (len : ℤ) = (-2, kcp)) ∨
      (len ≤ kcpMaxMessage ∧ ∃ segs : List IkcpSeg,
        segs.map IkcpSeg.fragment = kcpCutter.fragments (buffer.take len) ∧
        ikcpSend kcp buffer (len : ℤ) =
          ((len : ℤ), { kcp with sndQueue := kcp.sndQueue ++ segs })) := by
  have length : (buffer.take len).length = len := by
    rw [List.length_take]
    omega
  have count : ikcpFragmentCount kcp.mss len = (kcpCutter.count (buffer.take len) : ℤ) := by
    rw [mss, ikcpFragmentCount_eq small, kcpCutter]
    simp only [length]
  have window : ikcpWndRcv.toInt32.toInt = 128 := by decide
  have few := kcpCutter_count_lt (buffer.take len)
  have positive := kcpCutter.positive (buffer.take len)
  have mss_nat : kcp.mss.toNat = kcpCutter.size := by
    rw [mss]
    rfl
  rw [length] at few
  rw [ikcpSend, if_neg (by omega), if_neg (by simp [stream])]
  simp only [ikcpSendFragments, count, window]
  -- 128 segments are already refused, as if they were a window's worth
  by_cases long : kcpMaxMessage < len
  · refine .inl ⟨long, ?_⟩
    rw [if_pos (by omega), if_neg (by simp [stream])]
  · rw [not_lt] at long
    have fragments := ikcpFragments_fragment kcpCutter.size
      (show kcpCutter.count (buffer.take len) < 2 ^ 32 by omega) (buffer.take len)
    refine .inr ⟨long, _, fragments, ?_⟩
    rw [if_neg (by omega), if_neg (by omega), Int.toNat_natCast, Int.toNat_natCast, stream,
      sum_data_length, ikcpData_eq_joined, mss_nat, fragments]
    have whole : joined (cut kcpCutter.size (kcpCutter.count (buffer.take len))
        (buffer.take len)) = buffer.take len := kcpCutter.joined_fragments _
    rw [whole, length, Int.zero_add]

/-! ## Receiving -/

/-- A size that `ikcp_peeksize` reports is that of the message at the head. -/
theorem ikcpPeeksize_eq {kcp : Ikcpcb} (whole : 0 ≤ ikcpPeeksize kcp) :
    ikcpPeeksize kcp = (ikcpData (ikcpMessage kcp.rcvQueue).1).length := by
  unfold ikcpPeeksize at whole ⊢
  split
  case h_1 empty => simp [empty] at whole
  case h_2 seg rest queue =>
    rw [queue] at whole
    by_cases single : seg.frg = 0
    · simp [queue, single, ikcpMessage, splitMessage, ikcpData]
    · rw [if_neg single]
      dsimp only at whole
      rw [if_neg single] at whole
      split at whole
      case isTrue => omega
      case isFalse counted => rw [if_neg counted]

/-- `ikcp_recv` returns no more than the buffer holds. -/
theorem ikcpRecv_le (kcp : Ikcpcb) {len : ℤ} (room : 0 ≤ len) : (ikcpRecv kcp len).1 ≤ len := by
  simp only [ikcpRecv, if_neg (not_lt.mpr room)]
  by_cases empty : kcp.rcvQueue = []
  · rw [if_pos empty]
    exact (show (-1 : ℤ) ≤ 0 by decide).trans room
  by_cases incomplete : ikcpPeeksize kcp < 0
  · rw [if_neg empty, if_pos incomplete]
    exact (show (-2 : ℤ) ≤ 0 by decide).trans room
  by_cases long : len < ikcpPeeksize kcp
  · rw [if_neg empty, if_neg incomplete, if_pos long]
    exact (show (-3 : ℤ) ≤ 0 by decide).trans room
  · rw [if_neg empty, if_neg incomplete, if_neg long]
    exact (ikcpPeeksize_eq (not_lt.mp incomplete)).symm.le.trans (not_lt.mp long)

end OmniSocket
