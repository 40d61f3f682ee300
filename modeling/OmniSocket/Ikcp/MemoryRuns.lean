/-
# Runs of the control block in memory

Every sequence of calls, from `ikcp_create` to `ikcp_release`, does in memory
what it does with lists. No call follows a pointer that leads nowhere or frees
a segment twice, and in the end nothing is left allocated.
-/

import OmniSocket.Ikcp.MemoryInput
import OmniSocket.Lib.Device
import Mathlib.Data.Finset.Range

set_option autoImplicit false

namespace OmniSocket

open Lib

namespace IkcpRaw

variable {malloc : ℕ → Finset ℕ → ℕ} {raw : IkcpRaw} {kcp : Ikcpcb}

/-! ## Flushing -/

theorem ikcpWndUnused_eq (holds : raw.Holds kcp) :
    raw.ikcpWndUnused = OmniSocket.ikcpWndUnused kcp := by
  have rcvWnd : raw.kcp.rcvWnd = kcp.rcvWnd := holds.field Ikcpcb.rcvWnd rfl
  have count : raw.nrcvQue = kcp.nrcvQue := holds.nrcvQue
  simp only [ikcpWndUnused, OmniSocket.ikcpWndUnused, rcvWnd, count]

theorem ikcpAdmitLoop_holds {fuel : ℕ} {wnd limit nxt : UInt32} {queue buf : List IkcpSeg}
    (holds : raw.Holds { kcp with sndQueue := queue, sndBuf := buf, sndNxt := nxt })
    (enough : queue.length < fuel) :
    let admitted := OmniSocket.ikcpAdmitLoop kcp wnd limit queue buf nxt
    ∃ raw', ikcpAdmitLoop wnd limit fuel raw = some raw' ∧
      raw'.Holds { kcp with
        sndQueue := admitted.1, sndBuf := admitted.2.1, sndNxt := admitted.2.2 } := by
  induction queue generalizing fuel raw buf nxt with
  | nil =>
    obtain ⟨fuel, rfl⟩ := Nat.exists_eq_succ_of_ne_zero (Nat.ne_zero_of_lt enough)
    have empty : raw.heap.IsEmpty .sndQueue := (holds.heap.isEmpty_iff .sndQueue).mpr rfl
    rw [ikcpAdmitLoop, if_pos empty, ite_self]
    exact ⟨raw, rfl, holds⟩
  | cons seg rest ih =>
    obtain ⟨fuel, rfl⟩ := Nat.exists_eq_succ_of_ne_zero (Nat.ne_zero_of_lt enough)
    have some : ¬ raw.heap.IsEmpty .sndQueue := fun none =>
      List.cons_ne_nil seg rest ((holds.heap.isEmpty_iff .sndQueue).mp none)
    have sndNxt : raw.kcp.sndNxt = nxt := holds.field Ikcpcb.sndNxt rfl
    have admission : ikcpAdmitSeg raw.kcp wnd nxt seg = ikcpAdmitSeg kcp wnd nxt seg :=
      holds.field (fun kcp => ikcpAdmitSeg kcp wnd nxt seg) rfl
    obtain ⟨p, first, cursor⟩ := holds.heap.first .sndQueue
    have front : raw.heap.Cursor _ none .sndQueue p [] (seg :: rest) := cursor
    obtain ⟨heap₁, heap₂, deleted, added, moved⟩ := front.move (j := .sndBuf) (by decide)
    obtain ⟨heap₃, stored, after⟩ := moved.write (ikcpAdmitSeg kcp wnd nxt seg)
    simp only [ikcpAdmitLoop, if_neg some, first, front.read, sndNxt, admission, deleted, added,
      stored, Option.bind_eq_bind, Option.bind_some, OmniSocket.ikcpAdmitLoop]
    split
    · refine ih ⟨?_, ?_, ?_, holds.nrcvQue, ?_, holds.nrcvBuf⟩ (Nat.lt_of_succ_lt_succ enough)
      · rw [holds.scalars]
        rfl
      · exact after.holds.congr fun q => by cases q <;> rfl
      · rw [show raw.nsndQue = _ from holds.nsndQue]
        exact ofNat_length_tail seg rest
      · rw [show raw.nsndBuf = _ from holds.nsndBuf, List.length_append, List.length_singleton,
          ofNat_succ]
    · exact ⟨raw, rfl, holds⟩

/-- What leaves the send queue in a flush. -/
theorem ikcpAdmit_holds (holds : raw.Holds kcp) (wnd cwnd : UInt32) :
    ∃ raw', ikcpAdmitLoop wnd (kcp.sndUna + cwnd) raw.heap.rounds raw = some raw' ∧
      raw'.Holds (ikcpAdmit kcp wnd cwnd) :=
  ikcpAdmitLoop_holds holds (holds.heap.length_lt_rounds .sndQueue)

theorem ikcpFlushLoop_holds (wnd : UInt32) {fuel : ℕ} {p : IkcpAddr} {before rest : List IkcpSeg}
    (here : raw.AtSndBuf kcp p before rest) (enough : rest.length < fuel) (acc : IkcpFlushAcc) :
    let flushed := OmniSocket.ikcpFlushLoop kcp wnd acc rest
    ∃ heap, ikcpFlushLoop raw.kcp wnd fuel p acc raw.heap = some (flushed.2, heap) ∧
      ({ raw with heap := heap }).Holds { kcp with sndBuf := before ++ flushed.1 } := by
  induction rest generalizing fuel p before raw acc with
  | nil =>
    obtain ⟨fuel, rfl⟩ := Nat.exists_eq_succ_of_ne_zero (Nat.ne_zero_of_lt enough)
    rw [ikcpFlushLoop, if_pos here.2.eq_head]
    exact ⟨raw.heap, rfl, here.1⟩
  | cons seg rest ih =>
    obtain ⟨fuel, rfl⟩ := Nat.exists_eq_succ_of_ne_zero (Nat.ne_zero_of_lt enough)
    have data : ikcpFlushData raw.kcp wnd acc seg = ikcpFlushData kcp wnd acc seg :=
      here.1.field (fun kcp => ikcpFlushData kcp wnd acc seg) rfl
    obtain ⟨p', heap, -, stored, next, after⟩ := here.store (ikcpFlushData kcp wnd acc seg).1
    obtain ⟨heap', eq, done⟩ :=
      ih after (Nat.lt_of_succ_lt_succ enough) (ikcpFlushData kcp wnd acc seg).2
    refine ⟨heap', ?_, ?_⟩
    · simp only [ikcpFlushLoop, if_neg here.2.ne_head, here.2.read, data, stored, next,
        Option.bind_eq_bind, Option.bind_some]
      exact eq
    · rw [List.append_assoc] at done
      exact done

theorem ikcpFlushSegs_holds (holds : raw.Holds kcp) (wnd cwnd : UInt32) (out : IkcpOut)
    {admitted : Ikcpcb} (admission : ikcpAdmit kcp wnd cwnd = admitted) {acc : IkcpFlushAcc}
    {buf : List IkcpSeg} (flush : OmniSocket.ikcpFlushLoop admitted wnd
      ⟨out, admitted.xmit, admitted.state, 0, false⟩ admitted.sndBuf = (buf, acc)) :
    ∃ raw', ikcpFlushSegs raw wnd cwnd out = some (acc.out.output.sent, raw') ∧
      raw'.Holds (ikcpFlushSsthresh
        { admitted with sndBuf := buf, xmit := acc.xmit, state := acc.state } cwnd acc.change
        acc.lost) := by
  have una : raw.kcp.sndUna = kcp.sndUna := holds.field Ikcpcb.sndUna rfl
  obtain ⟨raw₁, eq₁, after₁⟩ := ikcpAdmit_holds holds wnd cwnd
  rw [admission] at after₁
  have xmit : raw₁.kcp.xmit = admitted.xmit := after₁.field Ikcpcb.xmit rfl
  have state : raw₁.kcp.state = admitted.state := after₁.field Ikcpcb.state rfl
  obtain ⟨p, first, here⟩ := after₁.atSndBuf
  obtain ⟨heap, eq₂, after₂⟩ := ikcpFlushLoop_holds wnd here
    (after₁.heap.length_lt_rounds .sndBuf) ⟨out, admitted.xmit, admitted.state, 0, false⟩
  rw [flush] at eq₂ after₂
  simp only [ikcpFlushSegs, una, eq₁, xmit, state, first, eq₂, Option.bind_eq_bind,
    Option.bind_some]
  have sent := after₂.map (f := fun kcp => { kcp with xmit := acc.xmit, state := acc.state })
    fun _ => rfl
  exact ⟨_, rfl, sent.map (f := fun kcp => ikcpFlushSsthresh kcp cwnd acc.change acc.lost)
    fun queues => Ikcpcb.ikcpFlushSsthresh_setQueues _ queues ..⟩

theorem ikcpFlush_holds (holds : raw.Holds kcp) :
    ∃ raw', ikcpFlush raw = some ((OmniSocket.ikcpFlush kcp).1, raw') ∧
      raw'.Holds (OmniSocket.ikcpFlush kcp).2 := by
  have updated : raw.kcp.updated = kcp.updated := holds.field Ikcpcb.updated rfl
  have acks : ikcpFlushAcks raw.kcp.mtu raw.kcp.acklist
      { ikcpFlushSeg raw.kcp with wnd := raw.ikcpWndUnused } ⟨[], []⟩ =
        ikcpFlushAcks kcp.mtu kcp.acklist (ikcpFlushSeg kcp) ⟨[], []⟩ := by
    rw [ikcpWndUnused_eq holds]
    exact holds.field (fun k => ikcpFlushAcks k.mtu k.acklist
      { ikcpFlushSeg k with wnd := OmniSocket.ikcpWndUnused kcp } ⟨[], []⟩) rfl
  have probed := holds.map (f := fun kcp => ikcpFlushProbe { kcp with acklist := [] }) fun queues =>
    Ikcpcb.ikcpFlushProbe_setQueues { kcp with acklist := [] } queues
  have cleared := probed.map (f := fun kcp => { kcp with probe := 0 }) fun _ => rfl
  unfold ikcpFlush OmniSocket.ikcpFlush
  rw [updated]
  split
  · exact ⟨raw, rfl, holds⟩
  simp only [acks]
  rw [show ikcpFlushWindow (ikcpFlushProbe { raw.kcp with acklist := [] }) _ _ = _ from
      probed.field (fun kcp => ikcpFlushWindow kcp _ _) rfl,
    show ikcpFlushCwnd (ikcpFlushProbe { raw.kcp with acklist := [] }) = _ from
      probed.field ikcpFlushCwnd rfl]
  exact ikcpFlushSegs_holds cleared _ _ _ rfl rfl

theorem ikcpUpdate_holds (holds : raw.Holds kcp) (current : UInt32) :
    ∃ raw', ikcpUpdate raw current = some ((OmniSocket.ikcpUpdate kcp current).1, raw') ∧
      raw'.Holds (OmniSocket.ikcpUpdate kcp current).2 := by
  have timer := holds.map (f := fun kcp => (ikcpUpdateTimer kcp current).2) fun queues =>
    congrArg Prod.snd (kcp.ikcpUpdateTimer_setQueues queues current)
  have due : (ikcpUpdateTimer raw.kcp current).1 = (ikcpUpdateTimer kcp current).1 := by
    rw [holds.scalars, Ikcpcb.scalars, Ikcpcb.ikcpUpdateTimer_setQueues]
  unfold ikcpUpdate OmniSocket.ikcpUpdate
  generalize ikcpUpdateTimer raw.kcp current = ours at *
  generalize ikcpUpdateTimer kcp current = theirs at *
  obtain ⟨due₁, kcp₁⟩ := ours
  obtain ⟨due₂, kcp₂⟩ := theirs
  obtain rfl : due₁ = due₂ := due
  cases due₁ with
  | true => exact ikcpFlush_holds timer
  | false => exact ⟨_, rfl, timer⟩

/-! ## Creation and release -/

theorem ikcpCreate_holds (conv : UInt32) :
    (ikcpCreate conv).Holds (OmniSocket.ikcpCreate conv) := by
  refine ⟨rfl, ⟨fun _ => [], ⟨⟨fun q => ?_, fun q q' other => ?_⟩, fun n => ?_, fun q => ?_, ?_⟩⟩,
    rfl, rfl, rfl, rfl⟩
  · refine ⟨?_, List.nodup_singleton _⟩
    cases q <;> exact ⟨rfl, rfl, trivial⟩
  · simpa using fun same => other same.symm
  · simp [ikcpCreate]
  · cases q <;> rfl
  · rintro n seg none
    cases none

theorem releaseQueue_holds (q : IkcpQueue) {heap : IkcpHeap} {queues : IkcpQueue → List IkcpSeg}
    {fuel : ℕ} (holds : heap.Holds queues none) (enough : (queues q).length < fuel) :
    ∃ heap', releaseQueue q fuel heap = some heap' ∧
      heap'.Holds (Function.update queues q []) none := by
  obtain ⟨segs, same⟩ : ∃ segs, queues q = segs := ⟨_, rfl⟩
  rw [same] at enough
  induction segs generalizing fuel heap queues with
  | nil =>
    obtain ⟨fuel, rfl⟩ := Nat.exists_eq_succ_of_ne_zero (Nat.ne_zero_of_lt enough)
    rw [releaseQueue, if_pos ((holds.isEmpty_iff q).mpr same), ← same, Function.update_eq_self]
    exact ⟨heap, rfl, holds⟩
  | cons seg rest ih =>
    obtain ⟨fuel, rfl⟩ := Nat.exists_eq_succ_of_ne_zero (Nat.ne_zero_of_lt enough)
    have some : ¬ heap.IsEmpty q := fun none =>
      List.cons_ne_nil seg rest (same.symm.trans ((holds.isEmpty_iff q).mp none))
    obtain ⟨p, first, cursor⟩ := holds.first q
    rw [same] at cursor
    obtain ⟨p', heap₁, heap₂, -, deleted, freed, after⟩ := cursor.drop
    simp only [releaseQueue, if_neg some, first, deleted, freed, Option.bind_eq_bind,
      Option.bind_some]
    have onward := ih after.holds (Nat.lt_of_succ_lt_succ enough) (Function.update_self ..)
    rwa [Function.update_idem] at onward

theorem ikcpRelease_holds (holds : raw.Holds kcp) :
    ∃ heap, ikcpRelease raw = some heap ∧ heap.live = ∅ := by
  have enough := holds.heap.length_lt_rounds
  obtain ⟨heap₁, eq₁, after₁⟩ := releaseQueue_holds .sndBuf holds.heap (enough .sndBuf)
  obtain ⟨heap₂, eq₂, after₂⟩ := releaseQueue_holds .rcvBuf after₁ (enough .rcvBuf)
  obtain ⟨heap₃, eq₃, after₃⟩ := releaseQueue_holds .sndQueue after₂ (enough .sndQueue)
  obtain ⟨heap₄, eq₄, after₄⟩ := releaseQueue_holds .rcvQueue after₃ (enough .rcvQueue)
  refine ⟨heap₄, ?_, ?_⟩
  · simp only [ikcpRelease, eq₁, eq₂, eq₃, eq₄, Option.bind_eq_bind, Option.bind_some]
  · have size := after₄.card_live
    rw [← Finset.card_eq_zero, size]
    exact Finset.sum_eq_zero fun q _ => by cases q <;> rfl

end IkcpRaw

/-! ## Runs -/

/-- The calls that are made on a control block. -/
inductive IkcpCall
  | send (buffer : List UInt8) (len : ℤ)
  | recv (len : ℤ)
  | peeksize
  | input (data : List UInt8)
  | update (current : UInt32)
  | flush
  | waitsnd
  | nodelay (mode interval resend nc : Int32)
  | wndsize (sndwnd rcvwnd : Int32)
  deriving DecidableEq, Repr

/-- What a call gives back: its result, the bytes in the caller's buffer, and what went to the
output callback. -/
structure IkcpAnswer where
  result : ℤ
  data : List UInt8
  output : List (List UInt8)
  deriving DecidableEq, Repr

namespace IkcpCall

/-- A call on the control block with lists. -/
def onLists (kcp : Ikcpcb) : IkcpCall → IkcpAnswer × Ikcpcb
  | .send buffer len =>
    let (result, kcp) := ikcpSend kcp buffer len
    (⟨result, [], []⟩, kcp)
  | .recv len =>
    let (result, data, kcp) := ikcpRecv kcp len
    (⟨result, data, []⟩, kcp)
  | .peeksize => (⟨ikcpPeeksize kcp, [], []⟩, kcp)
  | .input data =>
    let (result, kcp) := ikcpInput kcp data
    (⟨result, [], []⟩, kcp)
  | .update current =>
    let (output, kcp) := ikcpUpdate kcp current
    (⟨0, [], output⟩, kcp)
  | .flush =>
    let (output, kcp) := ikcpFlush kcp
    (⟨0, [], output⟩, kcp)
  | .waitsnd => (⟨ikcpWaitsnd kcp, [], []⟩, kcp)
  | .nodelay mode interval resend nc =>
    (⟨0, [], []⟩, ikcpNodelay kcp mode interval resend nc)
  | .wndsize sndwnd rcvwnd => (⟨0, [], []⟩, ikcpWndsize kcp sndwnd rcvwnd)

/-- A call on the control block in memory. -/
def inMemory (malloc : ℕ → Finset ℕ → ℕ) (raw : IkcpRaw) : IkcpCall → Option (IkcpAnswer × IkcpRaw)
  | .send buffer len => do
    let (result, raw) ← raw.ikcpSend malloc buffer len
    some (⟨result, [], []⟩, raw)
  | .recv len => do
    let (result, data, raw) ← raw.ikcpRecv len
    some (⟨result, data, []⟩, raw)
  | .peeksize => do some (⟨← raw.ikcpPeeksize, [], []⟩, raw)
  | .input data => do
    let (result, raw) ← raw.ikcpInput malloc data
    some (⟨result, [], []⟩, raw)
  | .update current => do
    let (output, raw) ← raw.ikcpUpdate current
    some (⟨0, [], output⟩, raw)
  | .flush => do
    let (output, raw) ← raw.ikcpFlush
    some (⟨0, [], output⟩, raw)
  | .waitsnd => some (⟨raw.ikcpWaitsnd, [], []⟩, raw)
  | .nodelay mode interval resend nc =>
    some (⟨0, [], []⟩, { raw with kcp := ikcpNodelay raw.kcp mode interval resend nc })
  | .wndsize sndwnd rcvwnd =>
    some (⟨0, [], []⟩, { raw with kcp := ikcpWndsize raw.kcp sndwnd rcvwnd })

/-- The memory answers as the lists do. -/
theorem inMemory_holds {malloc : ℕ → Finset ℕ → ℕ} (fresh : ∀ k s, malloc k s ∉ s) {raw : IkcpRaw}
    {kcp : Ikcpcb} (holds : raw.Holds kcp) (call : IkcpCall) :
    ∃ raw', call.inMemory malloc raw = some ((call.onLists kcp).1, raw') ∧
      raw'.Holds (call.onLists kcp).2 := by
  cases call with
  | send buffer len =>
    obtain ⟨raw', eq, after⟩ := IkcpRaw.ikcpSend_holds fresh holds buffer len
    exact ⟨raw', by simp only [inMemory, eq, Option.bind_eq_bind, Option.bind_some, onLists], after⟩
  | recv len =>
    obtain ⟨raw', eq, after⟩ := IkcpRaw.ikcpRecv_holds holds len
    exact ⟨raw', by simp only [inMemory, eq, Option.bind_eq_bind, Option.bind_some, onLists], after⟩
  | peeksize =>
    have eq := IkcpRaw.ikcpPeeksize_holds holds
    exact ⟨raw, by simp only [inMemory, eq, Option.bind_eq_bind, Option.bind_some, onLists], holds⟩
  | input data =>
    obtain ⟨raw', eq, after⟩ := IkcpRaw.ikcpInput_holds fresh holds data
    exact ⟨raw', by simp only [inMemory, eq, Option.bind_eq_bind, Option.bind_some, onLists], after⟩
  | update current =>
    obtain ⟨raw', eq, after⟩ := IkcpRaw.ikcpUpdate_holds holds current
    exact ⟨raw', by simp only [inMemory, eq, Option.bind_eq_bind, Option.bind_some, onLists], after⟩
  | flush =>
    obtain ⟨raw', eq, after⟩ := IkcpRaw.ikcpFlush_holds holds
    exact ⟨raw', by simp only [inMemory, eq, Option.bind_eq_bind, Option.bind_some, onLists], after⟩
  | waitsnd =>
    have count : raw.ikcpWaitsnd = ikcpWaitsnd kcp := by
      rw [IkcpRaw.ikcpWaitsnd, holds.nsndBuf, holds.nsndQue]
      rfl
    exact ⟨raw, by rw [inMemory, count, onLists], holds⟩
  | nodelay mode interval resend nc =>
    exact ⟨_, rfl, holds.map (f := fun kcp => ikcpNodelay kcp mode interval resend nc)
      fun queues => kcp.ikcpNodelay_setQueues queues ..⟩
  | wndsize sndwnd rcvwnd =>
    exact ⟨_, rfl, holds.map (f := fun kcp => ikcpWndsize kcp sndwnd rcvwnd) fun queues =>
      kcp.ikcpWndsize_setQueues queues ..⟩

end IkcpCall

/-- The control block with lists. It never breaks down. -/
def ikcpLists : Device Ikcpcb IkcpCall IkcpAnswer where
  step kcp call := some (call.onLists kcp)

/-- The control block in memory. It breaks down on a fault. -/
def ikcpMemory (malloc : ℕ → Finset ℕ → ℕ) : Device IkcpRaw IkcpCall IkcpAnswer where
  step raw call := call.inMemory malloc raw

/-- The memory refines the lists, whichever memory `malloc` hands out. -/
theorem ikcpMemory_refines {malloc : ℕ → Finset ℕ → ℕ} (fresh : ∀ k s, malloc k s ∉ s) :
    (ikcpMemory malloc).Refines ikcpLists IkcpRaw.Holds := by
  intro raw kcp call answer kcp' holds step
  obtain ⟨raw', eq, after⟩ := call.inMemory_holds fresh holds
  rw [show call.onLists kcp = (answer, kcp') from Option.some.inj step] at eq after
  exact ⟨raw', eq, after⟩

/-- Whatever is called, from `ikcp_create` on: no call goes wrong, each of them answers as the
lists say, the segments that are allocated are those in the queues, and `ikcp_release` frees
them all. -/
theorem ikcp_memory_safe {malloc : ℕ → Finset ℕ → ℕ} (fresh : ∀ k s, malloc k s ∉ s) (conv : UInt32)
    (calls : List IkcpCall) :
    ∃ answers raw kcp heap, ikcpLists.run (ikcpCreate conv) calls = some (answers, kcp) ∧
      (ikcpMemory malloc).run (IkcpRaw.ikcpCreate conv) calls = some (answers, raw) ∧
      raw.heap.live.card = kcp.sndQueue.length + kcp.rcvQueue.length + kcp.sndBuf.length +
        kcp.rcvBuf.length ∧
      raw.ikcpRelease = some heap ∧ heap.live = ∅ := by
  have total : ∀ kcp call, ∃ answer kcp', ikcpLists.step kcp call = some (answer, kcp') :=
    fun kcp call => ⟨_, _, rfl⟩
  obtain ⟨answers, kcp, runs⟩ := Device.exists_run total (ikcpCreate conv) calls
  obtain ⟨raw, eq, holds⟩ :=
    (ikcpMemory_refines fresh).run (IkcpRaw.ikcpCreate_holds conv) runs
  obtain ⟨heap, released, empty⟩ := IkcpRaw.ikcpRelease_holds holds
  refine ⟨answers, raw, kcp, heap, runs, eq, ?_, released, empty⟩
  rw [holds.heap.card_live]
  show ∑ q ∈ {IkcpQueue.sndQueue, .rcvQueue, .sndBuf, .rcvBuf}, (kcp.queue q).length = _
  simp [Ikcpcb.queue, add_assoc]

/-- The first node that is not in use. -/
private def firstFree (_ : ℕ) (live : Finset ℕ) : ℕ :=
  ((List.range (live.card + 1)).find? fun n => decide (n ∉ live)).getD 0

private theorem firstFree_fresh (k : ℕ) (live : Finset ℕ) : firstFree k live ∉ live := by
  unfold firstFree
  cases found : (List.range (live.card + 1)).find? fun n => decide (n ∉ live) with
  | some n =>
    have free := List.find?_some found
    exact of_decide_eq_true free
  | none =>
    -- the nodes up to the number of those in use cannot all be in use
    have used : Finset.range (live.card + 1) ⊆ live := by
      intro n member
      have taken := List.find?_eq_none.mp found n (List.mem_range.mpr (Finset.mem_range.mp member))
      simpa using taken
    have size := Finset.card_le_card used
    rw [Finset.card_range] at size
    exact absurd size (Nat.not_succ_le_self _)

/-- A message on its way out, with nothing heard of the peer. -/
theorem ikcp_memory_safe_first :
    ∃ answers raw kcp heap,
      ikcpLists.run (ikcpCreate 7) [.send [1, 2, 3] 3, .update 0, .update 100] =
        some (answers, kcp) ∧
      (ikcpMemory firstFree).run (IkcpRaw.ikcpCreate 7)
        [.send [1, 2, 3] 3, .update 0, .update 100] = some (answers, raw) ∧
      raw.heap.live.card = kcp.sndQueue.length + kcp.rcvQueue.length + kcp.sndBuf.length +
        kcp.rcvBuf.length ∧
      raw.ikcpRelease = some heap ∧ heap.live = ∅ :=
  ikcp_memory_safe firstFree_fresh 7 [.send [1, 2, 3] 3, .update 0, .update 100]

end OmniSocket
