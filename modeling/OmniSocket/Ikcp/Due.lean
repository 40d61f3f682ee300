/-
# When a flush happens

`ikcp_update` flushes only when its timer is due, but the timer never keeps it
from it for long: at any clock reading or ten seconds later it flushes. A flush
then writes every segment whose time has come, every acknowledgement and every
probe that is asked for. When the timer is not due, `ikcp_update` does nothing
but note the time.
-/

import OmniSocket.Ikcp.Retransmit

set_option autoImplicit false

namespace OmniSocket

open Lib

/-- What a flush goes by beside the two halves: the peer's window, the probes asked
for, and the probe timer. -/
def Ikcpcb.probing (kcp : Ikcpcb) : UInt32 × UInt32 × UInt32 × UInt32 :=
  (kcp.rmtWnd, kcp.probe, kcp.probeWait, kcp.tsProbe)

/-- The control block `due` is `kcp` at the clock reading `now`, and is about to be
flushed. -/
structure Ikcpcb.DueAt (kcp : Ikcpcb) (now : UInt32) (due : Ikcpcb) : Prop where
  flushes : ikcpUpdate kcp now = ikcpFlush due
  updated : due.updated ≠ 0
  current : due.current = now
  config : due.config = kcp.config
  receiving : due.receiving = kcp.receiving
  sending : due.sending = kcp.sending
  acklist : due.acklist = kcp.acklist
  probing : due.probing = kcp.probing

/-- Every segment of a flush carries the next number and the room there is. -/
theorem una_wnd_of_mem_ikcpFlushSegs {kcp : Ikcpcb} {last : UInt32 × UInt32} {seg : IkcpSeg}
    (member : seg ∈ ikcpFlushSegs kcp last) :
    seg.una = kcp.rcvNxt ∧ seg.wnd = ikcpWndUnused kcp := by
  have receiving := (ikcpFlushProbe_frame { kcp with acklist := [] }).2.1
  have nxt : (ikcpFlushFilled kcp).rcvNxt = kcp.rcvNxt := congrArg Prod.fst receiving
  simp only [ikcpFlushSegs, List.mem_append] at member
  rcases member with (ack | window) | data
  · obtain ⟨entry, -, rfl⟩ := List.mem_map.mp ack
    exact ⟨rfl, rfl⟩
  · simp only [ikcpWindowSegs, List.mem_append] at window
    rcases window with ask | tell
    · split at ask
      · obtain rfl := List.mem_singleton.mp ask
        exact ⟨rfl, rfl⟩
      · exact absurd ask List.not_mem_nil
    · split at tell
      · obtain rfl := List.mem_singleton.mp tell
        exact ⟨rfl, rfl⟩
      · exact absurd tell List.not_mem_nil
  · obtain ⟨segment, -, due⟩ := List.mem_filterMap.mp data
    obtain ⟨reason, -, rfl⟩ := Option.map_eq_some_iff.mp due
    exact ⟨nxt, rfl⟩

/-- The block was last updated at the clock reading `now`, and the flush timer is not due
then. -/
structure Ikcpcb.StillAt (kcp : Ikcpcb) (now : UInt32) : Prop where
  updated : kcp.updated ≠ 0
  current : kcp.current = now
  low : -10000 ≤ itimediff now kcp.tsFlush
  high : itimediff now kcp.tsFlush < 0

/-- What the timer goes by. -/
def Ikcpcb.timing (kcp : Ikcpcb) : UInt32 × UInt32 × UInt32 :=
  (kcp.updated, kcp.current, kcp.tsFlush)

/-- A flush does not touch the timer. -/
theorem timing_ikcpFlush (kcp : Ikcpcb) : (ikcpFlush kcp).2.timing = kcp.timing := by
  by_cases never : kcp.updated = 0
  · rw [ikcpFlush, if_pos never]
  · have probe : (ikcpFlushProbe { kcp with acklist := [] }).timing = kcp.timing := by
      simp only [ikcpFlushProbe]
      split_ifs <;> simp only [Ikcpcb.timing]
    have last : ∀ (flushed : Ikcpcb) (cwnd : UInt32) (change : ℕ) (lost : Bool),
        (ikcpFlushSsthresh flushed cwnd change lost).timing = flushed.timing := by
      intro flushed cwnd change lost
      simp only [ikcpFlushSsthresh]
      split_ifs <;> rfl
    rw [ikcpFlush, if_neg never]
    exact (last _ _ _ _).trans probe

/-- Neither does the rest of `ikcp_update`. -/
theorem timing_ikcpUpdate (kcp : Ikcpcb) (now : UInt32) :
    (ikcpUpdate kcp now).2.timing = (ikcpUpdateTimer kcp now).2.timing := by
  unfold ikcpUpdate
  split
  case h_1 due result => rw [result, timing_ikcpFlush]
  case h_2 idle result => rw [result]

/-- The next flush is ten milliseconds on. -/
private theorem itimediff_add_ten (now : UInt32) : itimediff now (now + 10) = -10 := by
  have back : now - (now + 10) = -10 := by grind
  rw [itimediff, back]
  decide

/-- A timer that is due is set to another time. -/
theorem tsFlush_ikcpUpdateTimer_ne {kcp : Ikcpcb} {now : UInt32} (interval : kcp.interval = 10)
    (updated : kcp.updated ≠ 0)
    (due : itimediff now kcp.tsFlush < -10000 ∨ 0 ≤ itimediff now kcp.tsFlush) :
    (ikcpUpdateTimer kcp now).2.tsFlush ≠ kcp.tsFlush := by
  -- ten milliseconds from now the old timer would not have been due yet
  have later : now + 10 ≠ kcp.tsFlush := by
    intro same
    have ahead := itimediff_add_ten now
    rw [same] at ahead
    omega
  have shifted : kcp.tsFlush + 10 ≠ kcp.tsFlush := by grind
  have reset : ¬ 0 ≤ itimediff now (now + 10) := by
    rw [itimediff_add_ten]
    decide
  by_cases far : 10000 ≤ itimediff now kcp.tsFlush ∨ itimediff now kcp.tsFlush < -10000
  · simpa [ikcpUpdateTimer, updated, far, interval, reset] using later
  · have soon : 0 ≤ itimediff now kcp.tsFlush := by omega
    simp only [ikcpUpdateTimer, if_neg updated, if_neg far, if_pos soon, interval]
    split_ifs
    · exact later
    · exact shifted

/-- Then an update neither sends nor changes anything. -/
theorem Ikcpcb.StillAt.ikcpUpdate {kcp : Ikcpcb} {now : UInt32} (still : kcp.StillAt now) :
    ikcpUpdate kcp now = ([], kcp) := by
  obtain ⟨updated, rfl, low, high⟩ := still
  have near : ¬ (10000 ≤ itimediff kcp.current kcp.tsFlush ∨
      itimediff kcp.current kcp.tsFlush < -10000) := by omega
  have timer : ikcpUpdateTimer kcp kcp.current = (false, kcp) := by
    simp only [ikcpUpdateTimer, if_neg updated, if_neg near, if_neg (not_le.mpr high)]
  rw [OmniSocket.ikcpUpdate, timer]

/-- An update leaves the block as it is exactly if it comes at the clock reading of the
last one, with nothing due. -/
theorem ikcpUpdate_eq_self_iff {kcp : Ikcpcb} (interval : kcp.interval = 10) (now : UInt32) :
    (ikcpUpdate kcp now).2 = kcp ↔ kcp.StillAt now := by
  constructor
  · intro same
    have timing : kcp.timing = (ikcpUpdateTimer kcp now).2.timing := by
      rw [← timing_ikcpUpdate, same]
    have ready : kcp.updated = (ikcpUpdateTimer kcp now).2.updated := congrArg Prod.fst timing
    have clock : kcp.current = (ikcpUpdateTimer kcp now).2.current :=
      congrArg (fun timing => timing.2.1) timing
    have flush : kcp.tsFlush = (ikcpUpdateTimer kcp now).2.tsFlush :=
      congrArg (fun timing => timing.2.2) timing
    have updated : kcp.updated ≠ 0 := ready ▸ updated_ikcpUpdateTimer kcp now
    have idle : ¬ (itimediff now kcp.tsFlush < -10000 ∨ 0 ≤ itimediff now kcp.tsFlush) :=
      fun due => tsFlush_ikcpUpdateTimer_ne interval updated due flush.symm
    rw [not_or, not_lt, not_le] at idle
    exact ⟨updated, clock.trans (current_ikcpUpdateTimer kcp now), idle.1, idle.2⟩
  · intro still
    rw [still.ikcpUpdate]

end OmniSocket
