/-
# The control block in memory is the one with lists

What `ikcp.c` does with pointers is what the list functions say, as long as
`malloc` hands out memory that is not in use: no call goes wrong, the results
are the same, and the segments that are allocated are those in the queues.
-/

import OmniSocket.Ikcp.Heap
import OmniSocket.Ikcp.Message

set_option autoImplicit false

namespace OmniSocket

open Lib

namespace Ikcpcb

/-- The queues of a control block. -/
def queue (kcp : Ikcpcb) : IkcpQueue → List IkcpSeg
  | .sndQueue => kcp.sndQueue
  | .rcvQueue => kcp.rcvQueue
  | .sndBuf => kcp.sndBuf
  | .rcvBuf => kcp.rcvBuf

/-- The control block with other queues. -/
def setQueues (kcp : Ikcpcb) (queues : IkcpQueue → List IkcpSeg) : Ikcpcb :=
  { kcp with
    sndQueue := queues .sndQueue
    rcvQueue := queues .rcvQueue
    sndBuf := queues .sndBuf
    rcvBuf := queues .rcvBuf }

/-- The fields beside the queues. -/
def scalars (kcp : Ikcpcb) : Ikcpcb := kcp.setQueues fun _ => []

/-! ### What does not touch the queues -/

variable (kcp : Ikcpcb) (queues : IkcpQueue → List IkcpSeg)

/-- A case distinction that does not depend on the queues. -/
private theorem ite_setQueues {c c' : Prop} [Decidable c] [Decidable c'] {a b a' b' : Ikcpcb}
    (same : c' = c) (one : a' = a.setQueues queues) (two : b' = b.setQueues queues) :
    (if c' then a' else b') = (if c then a else b).setQueues queues := by
  subst same one two
  split <;> rfl

theorem ikcpUpdateAck_setQueues (rtt : Int32) :
    ikcpUpdateAck (kcp.setQueues queues) rtt = (ikcpUpdateAck kcp rtt).setQueues queues := by
  unfold ikcpUpdateAck
  extract_lets _ _ smoothed _ _ _ smoothed' _
  have same : smoothed = smoothed'.setQueues queues := ite_setQueues queues rfl rfl rfl
  clear_value smoothed
  subst same
  rfl

theorem ikcpInputCwnd_setQueues (prevUna : UInt32) :
    ikcpInputCwnd (kcp.setQueues queues) prevUna =
      (ikcpInputCwnd kcp prevUna).setQueues queues := by
  unfold ikcpInputCwnd
  by_cases acked : 0 < itimediff kcp.sndUna prevUna ∧ kcp.cwnd < kcp.rmtWnd
  · rw [if_pos acked, if_pos (show 0 < itimediff (kcp.setQueues queues).sndUna prevUna ∧
      (kcp.setQueues queues).cwnd < (kcp.setQueues queues).rmtWnd from acked)]
    extract_lets _ _ opened _ _ opened'
    have same : opened = opened'.setQueues queues :=
      ite_setQueues queues rfl rfl (ite_setQueues queues rfl rfl rfl)
    exact ite_setQueues queues (by rw [same]; rfl) (by rw [same]; rfl) same
  · rw [if_neg acked]
    exact if_neg acked

theorem ikcpFlushProbe_setQueues :
    ikcpFlushProbe (kcp.setQueues queues) = (ikcpFlushProbe kcp).setQueues queues :=
  ite_setQueues queues rfl (ite_setQueues queues rfl rfl (ite_setQueues queues rfl rfl rfl)) rfl

theorem ikcpFlushSsthresh_setQueues (cwnd : UInt32) (change : ℕ) (lost : Bool) :
    ikcpFlushSsthresh (kcp.setQueues queues) cwnd change lost =
      (ikcpFlushSsthresh kcp cwnd change lost).setQueues queues := by
  unfold ikcpFlushSsthresh
  extract_lets _ _ faster slower _ _ faster' slower'
  have same : faster = faster'.setQueues queues := ite_setQueues queues rfl rfl rfl
  clear_value faster
  subst same
  have same : slower = slower'.setQueues queues := ite_setQueues queues rfl rfl rfl
  clear_value slower
  subst same
  exact ite_setQueues queues rfl rfl rfl

theorem ikcpUpdateTimer_setQueues (current : UInt32) :
    ikcpUpdateTimer (kcp.setQueues queues) current =
      ((ikcpUpdateTimer kcp current).1, (ikcpUpdateTimer kcp current).2.setQueues queues) := by
  unfold ikcpUpdateTimer
  extract_lets _ started slap _ started' slap'
  have same : started = started'.setQueues queues := ite_setQueues queues rfl rfl rfl
  clear_value started
  subst same
  by_cases away : 10000 ≤ slap' ∨ slap' < -10000
  · rw [if_pos away, if_pos (show 10000 ≤ slap ∨ slap < -10000 from away)]
    rfl
  · rw [if_neg away, if_neg (show ¬ (10000 ≤ slap ∨ slap < -10000) from away)]
    by_cases due : 0 ≤ slap'
    · simp only [if_pos due, if_pos (show 0 ≤ slap from due)]
      rfl
    · simp only [if_neg due, if_neg (show ¬ 0 ≤ slap from due)]

theorem ikcpNodelay_setQueues (nodelay interval resend nc : Int32) :
    ikcpNodelay (kcp.setQueues queues) nodelay interval resend nc =
      (ikcpNodelay kcp nodelay interval resend nc).setQueues queues := by
  unfold ikcpNodelay
  extract_lets delayed _ flushed resent delayed' flushed' resent'
  have same : delayed = delayed'.setQueues queues := ite_setQueues queues rfl rfl rfl
  clear_value delayed
  subst same
  have same : flushed = flushed'.setQueues queues := ite_setQueues queues rfl rfl rfl
  clear_value flushed
  subst same
  have same : resent = resent'.setQueues queues := ite_setQueues queues rfl rfl rfl
  clear_value resent
  subst same
  exact ite_setQueues queues rfl rfl rfl

theorem ikcpWndsize_setQueues (sndwnd rcvwnd : Int32) :
    ikcpWndsize (kcp.setQueues queues) sndwnd rcvwnd =
      (ikcpWndsize kcp sndwnd rcvwnd).setQueues queues := by
  unfold ikcpWndsize
  extract_lets sending sending'
  have same : sending = sending'.setQueues queues := ite_setQueues queues rfl rfl rfl
  clear_value sending
  subst same
  exact ite_setQueues queues rfl rfl rfl

end Ikcpcb

namespace IkcpRaw

/-- The memory holds the control block `kcp`, and nothing else is allocated. -/
structure Holds (raw : IkcpRaw) (kcp : Ikcpcb) : Prop where
  scalars : raw.kcp = kcp.scalars
  heap : raw.heap.Holds kcp.queue none
  nsndQue : raw.nsndQue = UInt32.ofNat kcp.sndQueue.length
  nrcvQue : raw.nrcvQue = UInt32.ofNat kcp.rcvQueue.length
  nsndBuf : raw.nsndBuf = UInt32.ofNat kcp.sndBuf.length
  nrcvBuf : raw.nrcvBuf = UInt32.ofNat kcp.rcvBuf.length

variable {malloc : ℕ → Finset ℕ → ℕ} {raw : IkcpRaw} {kcp : Ikcpcb}

/-- What depends on the other fields only is the same. -/
theorem Holds.field {β : Type*} (holds : raw.Holds kcp) (f : Ikcpcb → β)
    (scalar : f kcp.scalars = f kcp) : f raw.kcp = f kcp := by
  rw [holds.scalars, scalar]

/-- What is done to the other fields is done to them in the memory too. -/
theorem Holds.map {f : Ikcpcb → Ikcpcb} (holds : raw.Holds kcp)
    (commutes : ∀ queues, f (kcp.setQueues queues) = (f kcp).setQueues queues) :
    ({ raw with kcp := f raw.kcp }).Holds (f kcp) := by
  have same : ∀ q, (f kcp).queue q = kcp.queue q := by
    have whole : f kcp = (f kcp).setQueues kcp.queue := commutes kcp.queue
    intro q
    rw [whole]
    cases q <;> rfl
  refine ⟨?_, holds.heap.congr fun q => (same q).symm, ?_, ?_, ?_, ?_⟩
  · show f raw.kcp = _
    rw [holds.scalars]
    exact commutes _
  · exact holds.nsndQue.trans (congrArg (UInt32.ofNat ∘ List.length) (same .sndQueue)).symm
  · exact holds.nrcvQue.trans (congrArg (UInt32.ofNat ∘ List.length) (same .rcvQueue)).symm
  · exact holds.nsndBuf.trans (congrArg (UInt32.ofNat ∘ List.length) (same .sndBuf)).symm
  · exact holds.nrcvBuf.trans (congrArg (UInt32.ofNat ∘ List.length) (same .rcvBuf)).symm

/-! ## Sending -/

theorem ofNat_succ (n : ℕ) : UInt32.ofNat (n + 1) = UInt32.ofNat n + 1 := UInt32.ofNat_add ..

/-- A new segment at the end of the send queue. -/
theorem Holds.push (holds : raw.Holds kcp) (fresh : ∀ k s, malloc k s ∉ s) (seg : IkcpSeg) :
    ∃ heap₁ heap₂, (raw.heap.alloc malloc seg).2.init (raw.heap.alloc malloc seg).1 = some heap₁ ∧
      heap₁.addTail (raw.heap.alloc malloc seg).1 (.head .sndQueue) = some heap₂ ∧
        ({ raw with heap := heap₂, nsndQue := raw.nsndQue + 1 }).Holds
          { kcp with sndQueue := kcp.sndQueue ++ [seg] } := by
  have allocated := holds.heap.alloc (fresh _ raw.heap.live) seg
  obtain ⟨heap₁, init, alone⟩ := allocated.init
  obtain ⟨heap₂, added, after⟩ := alone.addTail .sndQueue
  refine ⟨heap₁, heap₂, init, added, holds.scalars, ?_, ?_, holds.nrcvQue, holds.nsndBuf,
    holds.nrcvBuf⟩
  · exact after.congr fun q => by cases q <;> rfl
  · show raw.nsndQue + 1 = _
    rw [List.length_append, List.length_singleton, ofNat_succ, holds.nsndQue]

theorem ikcpSendLoop_holds (fresh : ∀ k s, malloc k s ∉ s) (count : ℕ) (rest : List UInt8)
    (sent : ℤ) (holds : raw.Holds kcp) :
    let segs := ikcpFragments kcp.mss.toNat kcp.stream count rest
    ∃ raw', ikcpSendLoop malloc count rest sent raw =
        some (sent + (segs.map fun seg => (seg.data.length : ℤ)).sum, raw') ∧
      raw'.Holds { kcp with sndQueue := kcp.sndQueue ++ segs } := by
  induction count generalizing rest sent raw kcp with
  | zero => exact ⟨raw, by simp [ikcpSendLoop, ikcpFragments], by simpa [ikcpFragments]⟩
  | succ count ih =>
    obtain ⟨heap₁, heap₂, init, added, after⟩ := holds.push fresh
      { ikcpSegmentNew (rest.take kcp.mss.toNat) with
        frg := if kcp.stream = 0 then UInt32.ofNat count else 0 }
    have mss : raw.kcp.mss = kcp.mss := holds.field Ikcpcb.mss rfl
    have stream : raw.kcp.stream = kcp.stream := holds.field Ikcpcb.stream rfl
    obtain ⟨raw', eq, done⟩ := ih (rest.drop kcp.mss.toNat)
      (sent + (rest.take kcp.mss.toNat).length) after
    refine ⟨raw', ?_, ?_⟩
    · simp only [ikcpSendLoop, mss, stream, init, added, Option.bind_eq_bind, Option.bind_some]
      rw [eq]
      simp [ikcpFragments, ikcpSegmentNew, add_assoc]
    · simpa [ikcpFragments] using done

theorem ikcpSendFragments_holds (fresh : ∀ k s, malloc k s ∉ s) (holds : raw.Holds kcp)
    (buffer : List UInt8) (len sent : ℤ) :
    ∃ raw', ikcpSendFragments malloc raw buffer len sent =
        some ((OmniSocket.ikcpSendFragments kcp buffer len sent).1, raw') ∧
      raw'.Holds (OmniSocket.ikcpSendFragments kcp buffer len sent).2 := by
  have mss : raw.kcp.mss = kcp.mss := holds.field Ikcpcb.mss rfl
  have stream : raw.kcp.stream = kcp.stream := holds.field Ikcpcb.stream rfl
  simp only [ikcpSendFragments, OmniSocket.ikcpSendFragments, mss, stream]
  split
  · exact ⟨raw, rfl, holds⟩
  · exact ikcpSendLoop_holds fresh _ _ _ holds

/-- The last segment of the send queue is replaced. -/
theorem Holds.replace (holds : raw.Holds kcp) (fresh : ∀ k s, malloc k s ∉ s) {front : List IkcpSeg}
    {old : IkcpSeg} (last : kcp.sndQueue = front ++ [old]) :
    ∃ p, raw.heap.prev (.head .sndQueue) = some p ∧ raw.heap.read p = some old ∧
      ∀ seg, ∃ heap₁ heap₂ heap₃ heap₄,
        (raw.heap.alloc malloc seg).2.addTail (raw.heap.alloc malloc seg).1 (.head .sndQueue) =
            some heap₁ ∧
          heap₁.del p = some heap₂ ∧ heap₂.init p = some heap₃ ∧ heap₃.free p = some heap₄ ∧
            ({ raw with heap := heap₄ }).Holds { kcp with sndQueue := front ++ [seg] } := by
  obtain ⟨p, prev, place⟩ := holds.heap.last .sndQueue
  rw [show kcp.queue .sndQueue = front ++ [old] from last] at place
  refine ⟨p, prev, place.cursor.read, fun seg => ?_⟩
  have allocated := place.cursor.alloc (fresh _ raw.heap.live) seg
  obtain ⟨heap₁, added, cursor⟩ := allocated.addTail
  obtain ⟨n, heap₂, rfl, deleted, loose⟩ := cursor.del
  obtain ⟨heap₃, init, alone⟩ := loose.init
  obtain ⟨heap₄, freed, after⟩ := alone.free
  refine ⟨heap₁, heap₂, heap₃, heap₄, added, deleted, init, freed, holds.scalars, ?_, ?_,
    holds.nrcvQue, holds.nsndBuf, holds.nrcvBuf⟩
  · exact after.congr fun q => by cases q <;> rfl
  · rw [show raw.nsndQue = _ from holds.nsndQue, last, List.length_append, List.length_append]
    rfl

theorem ikcpSendAppend_holds (fresh : ∀ k s, malloc k s ∉ s) (holds : raw.Holds kcp)
    (buffer : List UInt8) (len : ℤ) :
    ∃ raw', ikcpSendAppend malloc raw buffer len =
        some ((OmniSocket.ikcpSendAppend kcp buffer len).1, raw') ∧
      raw'.Holds (OmniSocket.ikcpSendAppend kcp buffer len).2 := by
  have mss : raw.kcp.mss = kcp.mss := holds.field Ikcpcb.mss rfl
  have empty : raw.heap.IsEmpty .sndQueue ↔ kcp.sndQueue = [] := holds.heap.isEmpty_iff .sndQueue
  rcases List.eq_nil_or_concat kcp.sndQueue with none | ⟨front, old, last⟩
  · refine ⟨raw, ?_, ?_⟩
    · simp [ikcpSendAppend, OmniSocket.ikcpSendAppend, empty, none]
    · simpa [OmniSocket.ikcpSendAppend, none] using holds
  · rw [List.concat_eq_append] at last
    obtain ⟨p, prev, read, replace⟩ := holds.replace fresh last
    have some : ¬ raw.heap.IsEmpty .sndQueue := by simp [empty, last]
    simp only [ikcpSendAppend, OmniSocket.ikcpSendAppend, if_neg some, prev, read, mss, last,
      List.getLast?_concat, List.dropLast_concat, Option.bind_eq_bind, Option.bind_some]
    split
    · obtain ⟨heap₁, heap₂, heap₃, heap₄, added, deleted, init, freed, after⟩ := replace
        (ikcpSegmentNew (old.data ++ buffer.take (min len.toNat (kcp.mss.toNat - old.data.length))))
      simp only [added, deleted, init, freed, Option.bind_some]
      exact ⟨_, rfl, after⟩
    · exact ⟨raw, rfl, holds⟩

theorem ikcpSend_holds (fresh : ∀ k s, malloc k s ∉ s) (holds : raw.Holds kcp) (buffer : List UInt8)
    (len : ℤ) :
    ∃ raw', ikcpSend malloc raw buffer len = some ((OmniSocket.ikcpSend kcp buffer len).1, raw') ∧
      raw'.Holds (OmniSocket.ikcpSend kcp buffer len).2 := by
  have stream : raw.kcp.stream = kcp.stream := holds.field Ikcpcb.stream rfl
  simp only [ikcpSend, OmniSocket.ikcpSend, stream]
  split
  · exact ⟨raw, rfl, holds⟩
  split
  · obtain ⟨raw', eq, after⟩ := ikcpSendAppend_holds fresh holds buffer len
    simp only [eq, Option.bind_eq_bind, Option.bind_some]
    split
    · exact ⟨raw', rfl, after⟩
    · exact ikcpSendFragments_holds fresh after _ _ _
  · exact ikcpSendFragments_holds fresh holds _ _ _

/-! ## Receiving -/

private theorem ikcpMessage_last {seg : IkcpSeg} (last : seg.frg = 0) (rest : List IkcpSeg) :
    ikcpMessage (seg :: rest) = ([seg], rest) := by
  simp [ikcpMessage, splitMessage, last]

private theorem ikcpMessage_more {seg : IkcpSeg} (more : seg.frg ≠ 0) (rest : List IkcpSeg) :
    ikcpMessage (seg :: rest) = (seg :: (ikcpMessage rest).1, (ikcpMessage rest).2) := by
  simp [ikcpMessage, splitMessage, more]

section Walks

variable {queues : IkcpQueue → List IkcpSeg} {before rest : List IkcpSeg} {p : IkcpAddr} {fuel : ℕ}

theorem ikcpPeeksizeLoop_eq (cursor : raw.heap.Cursor queues none .rcvQueue p before rest)
    (enough : rest.length < fuel) (length : ℤ) :
    ikcpPeeksizeLoop raw fuel p length =
      some (length + (ikcpData (ikcpMessage rest).1).length) := by
  induction rest generalizing fuel p before length with
  | nil =>
    obtain ⟨fuel, rfl⟩ := Nat.exists_eq_succ_of_ne_zero (Nat.ne_zero_of_lt enough)
    rw [ikcpPeeksizeLoop, if_pos cursor.eq_head]
    simp [ikcpMessage, splitMessage, ikcpData]
  | cons seg rest ih =>
    obtain ⟨fuel, rfl⟩ := Nat.exists_eq_succ_of_ne_zero (Nat.ne_zero_of_lt enough)
    obtain ⟨p', next, onward⟩ := cursor.next
    simp only [ikcpPeeksizeLoop, if_neg cursor.ne_head, cursor.read, next, Option.bind_eq_bind,
      Option.bind_some]
    split
    case isTrue last => simp [ikcpMessage_last last, ikcpData]
    case isFalse more =>
      rw [ih onward (Nat.lt_of_succ_lt_succ enough)]
      simp [ikcpMessage_more more, ikcpData, add_assoc]

/-- A look at a message changes nothing. -/
theorem ikcpRecvLoop_peek (cursor : raw.heap.Cursor queues none .rcvQueue p before rest)
    (enough : rest.length < fuel) (data : List UInt8) :
    ikcpRecvLoop true fuel p data raw = some (data ++ ikcpData (ikcpMessage rest).1, raw) := by
  induction rest generalizing fuel p before data with
  | nil =>
    obtain ⟨fuel, rfl⟩ := Nat.exists_eq_succ_of_ne_zero (Nat.ne_zero_of_lt enough)
    rw [ikcpRecvLoop, if_pos cursor.eq_head]
    simp [ikcpMessage, splitMessage, ikcpData]
  | cons seg rest ih =>
    obtain ⟨fuel, rfl⟩ := Nat.exists_eq_succ_of_ne_zero (Nat.ne_zero_of_lt enough)
    obtain ⟨p', next, onward⟩ := cursor.next
    simp only [ikcpRecvLoop, if_neg cursor.ne_head, cursor.read, next, Option.bind_eq_bind,
      Option.bind_some, if_true]
    split
    case isTrue last => simp [ikcpMessage_last last, ikcpData]
    case isFalse more =>
      rw [ih onward (Nat.lt_of_succ_lt_succ enough)]
      simp [ikcpMessage_more more, ikcpData]

end Walks

theorem ofNat_length_tail (seg : IkcpSeg) (rest : List IkcpSeg) :
    UInt32.ofNat (seg :: rest).length - 1 = UInt32.ofNat rest.length := by
  rw [List.length_cons, ofNat_succ]
  exact UInt32.add_sub_cancel ..

theorem ikcpRecvLoop_take {fuel : ℕ} {p : IkcpAddr} {queue : List IkcpSeg}
    (holds : raw.Holds { kcp with rcvQueue := queue })
    (cursor : raw.heap.Cursor { kcp with rcvQueue := queue }.queue none .rcvQueue p [] queue)
    (enough : queue.length < fuel) (data : List UInt8) :
    ∃ raw', ikcpRecvLoop false fuel p data raw =
        some (data ++ ikcpData (ikcpMessage queue).1, raw') ∧
      raw'.Holds { kcp with rcvQueue := (ikcpMessage queue).2 } := by
  induction queue generalizing fuel p raw data with
  | nil =>
    obtain ⟨fuel, rfl⟩ := Nat.exists_eq_succ_of_ne_zero (Nat.ne_zero_of_lt enough)
    rw [ikcpRecvLoop, if_pos cursor.eq_head]
    exact ⟨raw, by simp [ikcpMessage, splitMessage, ikcpData], holds⟩
  | cons seg rest ih =>
    obtain ⟨fuel, rfl⟩ := Nat.exists_eq_succ_of_ne_zero (Nat.ne_zero_of_lt enough)
    obtain ⟨p', heap₁, heap₂, next, deleted, freed, after⟩ := cursor.drop
    have onward : heap₂.Cursor { kcp with rcvQueue := rest }.queue none .rcvQueue p' [] rest :=
      after.congr fun q => by cases q <;> rfl
    simp only [ikcpRecvLoop, if_neg cursor.ne_head, cursor.read, next, deleted, freed,
      Option.bind_eq_bind, Option.bind_some, Bool.false_eq_true, if_false]
    have taken : ({ raw with heap := heap₂, nrcvQue := raw.nrcvQue - 1 }).Holds
        { kcp with rcvQueue := rest } := by
      refine ⟨holds.scalars, onward.holds, holds.nsndQue, ?_, holds.nsndBuf, holds.nrcvBuf⟩
      rw [show raw.nrcvQue = _ from holds.nrcvQue]
      exact ofNat_length_tail seg rest
    split
    case isTrue last =>
      rw [ikcpMessage_last last]
      exact ⟨_, by simp [ikcpData], taken⟩
    case isFalse more =>
      obtain ⟨raw', eq, done⟩ := ih taken onward (Nat.lt_of_succ_lt_succ enough) (data ++ seg.data)
      rw [ikcpMessage_more more]
      exact ⟨raw', by rw [eq]; simp [ikcpData], done⟩

theorem ikcpPeeksize_holds (holds : raw.Holds kcp) :
    ikcpPeeksize raw = some (OmniSocket.ikcpPeeksize kcp) := by
  have empty : raw.heap.IsEmpty .rcvQueue ↔ kcp.rcvQueue = [] := holds.heap.isEmpty_iff .rcvQueue
  have count : raw.nrcvQue = kcp.nrcvQue := holds.nrcvQue
  obtain ⟨p, first, cursor⟩ := holds.heap.first .rcvQueue
  have enough := holds.heap.length_lt_rounds .rcvQueue
  simp only [Ikcpcb.queue] at cursor enough
  simp only [ikcpPeeksize, OmniSocket.ikcpPeeksize, first, count, empty]
  split
  case isTrue none => rw [none]
  case isFalse some =>
    obtain ⟨seg, rest, queue⟩ := List.exists_cons_of_ne_nil some
    rw [queue] at cursor enough ⊢
    simp only [Option.bind_eq_bind, Option.bind_some, cursor.read]
    split
    · rfl
    split
    · rfl
    · rw [ikcpPeeksizeLoop_eq cursor enough, zero_add]

theorem ikcpMoveLoop_holds {fuel : ℕ} {buf queue : List IkcpSeg} {nxt : UInt32}
    (holds : raw.Holds { kcp with rcvBuf := buf, rcvQueue := queue, rcvNxt := nxt })
    (enough : buf.length < fuel) :
    let moved := OmniSocket.ikcpMoveLoop kcp.rcvWnd buf queue nxt
    ∃ raw', ikcpMoveLoop fuel raw = some raw' ∧
      raw'.Holds { kcp with rcvBuf := moved.1, rcvQueue := moved.2.1, rcvNxt := moved.2.2 } := by
  induction buf generalizing fuel raw queue nxt with
  | nil =>
    obtain ⟨fuel, rfl⟩ := Nat.exists_eq_succ_of_ne_zero (Nat.ne_zero_of_lt enough)
    have empty : raw.heap.IsEmpty .rcvBuf := (holds.heap.isEmpty_iff .rcvBuf).mpr rfl
    rw [ikcpMoveLoop, if_pos empty]
    exact ⟨raw, rfl, holds⟩
  | cons seg rest ih =>
    obtain ⟨fuel, rfl⟩ := Nat.exists_eq_succ_of_ne_zero (Nat.ne_zero_of_lt enough)
    have some : ¬ raw.heap.IsEmpty .rcvBuf := fun none =>
      List.cons_ne_nil seg rest ((holds.heap.isEmpty_iff .rcvBuf).mp none)
    have rcvNxt : raw.kcp.rcvNxt = nxt := holds.field Ikcpcb.rcvNxt rfl
    have rcvWnd : raw.kcp.rcvWnd = kcp.rcvWnd := holds.field Ikcpcb.rcvWnd rfl
    obtain ⟨p, first, cursor⟩ := holds.heap.first .rcvBuf
    have front : raw.heap.Cursor _ none .rcvBuf p [] (seg :: rest) := cursor
    obtain ⟨heap₁, heap₂, deleted, added, after⟩ := front.move (j := .rcvQueue) (by decide)
    simp only [ikcpMoveLoop, if_neg some, first, front.read, rcvNxt, rcvWnd, holds.nrcvQue,
      Option.bind_eq_bind, Option.bind_some, OmniSocket.ikcpMoveLoop]
    split
    · simp only [deleted, added, Option.bind_some]
      refine ih ⟨?_, ?_, holds.nsndQue, ?_, holds.nsndBuf, ?_⟩ (Nat.lt_of_succ_lt_succ enough)
      · rw [holds.scalars]
        rfl
      · exact after.holds.congr fun q => by cases q <;> rfl
      · rw [List.length_append, List.length_singleton, ofNat_succ]
      · rw [show raw.nrcvBuf = _ from holds.nrcvBuf]
        exact ofNat_length_tail seg rest
    · exact ⟨raw, rfl, holds⟩

/-- The loop at the end of `ikcp_parse_data` and `ikcp_recv`. -/
theorem ikcpMove_holds (holds : raw.Holds kcp) :
    ∃ raw', ikcpMoveLoop raw.heap.rounds raw = some raw' ∧ raw'.Holds (ikcpMove kcp) :=
  ikcpMoveLoop_holds holds (holds.heap.length_lt_rounds .rcvBuf)

/-- The loop of `ikcp_recv` over the message. -/
theorem ikcpRecvLoop_holds (holds : raw.Holds kcp) (ispeek : Bool) :
    ∃ p raw', raw.heap.next (.head .rcvQueue) = some p ∧
      ikcpRecvLoop ispeek raw.heap.rounds p [] raw =
        some (ikcpData (ikcpMessage kcp.rcvQueue).1, raw') ∧
      raw'.Holds
        (if ispeek then kcp else { kcp with rcvQueue := (ikcpMessage kcp.rcvQueue).2 }) := by
  obtain ⟨p, first, cursor⟩ := holds.heap.first .rcvQueue
  have enough : kcp.rcvQueue.length < raw.heap.rounds := holds.heap.length_lt_rounds .rcvQueue
  cases ispeek with
  | true => exact ⟨p, raw, first, ikcpRecvLoop_peek cursor enough [], holds⟩
  | false =>
    obtain ⟨raw', eq, after⟩ := ikcpRecvLoop_take holds cursor enough []
    exact ⟨p, raw', first, eq, after⟩

/-- The end of `ikcp_recv`. -/
theorem Holds.recover (holds : raw.Holds kcp) (full : Bool) :
    ({ raw with
      kcp :=
        if raw.nrcvQue < raw.kcp.rcvWnd ∧ full then
          { raw.kcp with probe := raw.kcp.probe ||| ikcpAskTell }
        else raw.kcp }).Holds
      (if kcp.nrcvQue < kcp.rcvWnd ∧ full then { kcp with probe := kcp.probe ||| ikcpAskTell }
      else kcp) := by
  have count : raw.nrcvQue = kcp.nrcvQue := holds.nrcvQue
  have wnd : raw.kcp.rcvWnd = kcp.rcvWnd := holds.field Ikcpcb.rcvWnd rfl
  have same : raw.nrcvQue < raw.kcp.rcvWnd ∧ full ↔ kcp.nrcvQue < kcp.rcvWnd ∧ full := by
    rw [count, wnd]
  by_cases recovered : kcp.nrcvQue < kcp.rcvWnd ∧ full
  · rw [if_pos (same.mpr recovered), if_pos recovered]
    exact holds.map (f := fun kcp => { kcp with probe := kcp.probe ||| ikcpAskTell }) fun _ => rfl
  · rw [if_neg (mt same.mp recovered), if_neg recovered]
    exact holds

theorem ikcpRecv_holds (holds : raw.Holds kcp) (len : ℤ) :
    ∃ raw', ikcpRecv raw len =
        some ((OmniSocket.ikcpRecv kcp len).1, (OmniSocket.ikcpRecv kcp len).2.1, raw') ∧
      raw'.Holds (OmniSocket.ikcpRecv kcp len).2.2 := by
  have empty : raw.heap.IsEmpty .rcvQueue ↔ kcp.rcvQueue = [] := holds.heap.isEmpty_iff .rcvQueue
  unfold ikcpRecv OmniSocket.ikcpRecv
  simp only [empty, ikcpPeeksize_holds holds, Option.bind_eq_bind, Option.bind_some]
  by_cases none : kcp.rcvQueue = []
  · simp only [if_pos none]
    exact ⟨raw, rfl, holds⟩
  by_cases incomplete : OmniSocket.ikcpPeeksize kcp < 0
  · simp only [if_neg none, if_pos incomplete]
    exact ⟨raw, rfl, holds⟩
  by_cases long : (if len < 0 then (-Int32.ofInt len).toInt else len) < OmniSocket.ikcpPeeksize kcp
  · simp only [if_neg none, if_neg incomplete, if_pos long]
    exact ⟨raw, rfl, holds⟩
  obtain ⟨p, raw₁, first, eq₁, taken⟩ := ikcpRecvLoop_holds holds (decide (len < 0))
  obtain ⟨raw₂, eq₂, moved⟩ := ikcpMove_holds taken
  have size := ikcpPeeksize_eq (not_lt.mp incomplete)
  have wnd : raw.kcp.rcvWnd = kcp.rcvWnd := holds.field Ikcpcb.rcvWnd rfl
  have count : raw.nrcvQue = kcp.nrcvQue := holds.nrcvQue
  simp only [if_neg none, if_neg incomplete, if_neg long, first, eq₁, eq₂, Option.bind_some]
  simp only [size, ne_eq, not_true, if_false, wnd, count]
  exact ⟨_, rfl, moved.recover _⟩

end IkcpRaw

end OmniSocket
