/-
# KCP in memory

The four queues of a control block are rings of segments linked through their
`node` fields, and the segments are allocated one by one. This is `ikcp.c` on
that level: every pointer that is followed is checked, and following one that
leads nowhere, freeing what is not allocated or going round a ring for ever is a
fault.
-/

import OmniSocket.Ikcp.Flush
import OmniSocket.Ikcp.Input
import OmniSocket.Ikcp.Send
import OmniSocket.Lib.RingHeap
import Mathlib.Data.Fintype.Defs

set_option autoImplicit false

namespace OmniSocket

open Lib

/-- The queues of `IKCPCB`. -/
inductive IkcpQueue
  | sndQueue
  | rcvQueue
  | sndBuf
  | rcvBuf
  deriving DecidableEq, Repr

instance : Fintype IkcpQueue where
  elems := {.sndQueue, .rcvQueue, .sndBuf, .rcvBuf}
  complete q := by cases q <;> decide

/-- A pointer to an `IQUEUEHEAD`: a head inside the control block, or the `node` of a segment. -/
abbrev IkcpAddr := Addr IkcpQueue

/-- The memory: the pointers, the segments `malloc` has handed out and `free` has not
taken back, and what they contain. -/
abbrev IkcpHeap := RingHeap IkcpQueue IkcpSeg

namespace IkcpHeap

/-- `iqueue_entry`, and a look at the segment. -/
abbrev iqueueEntry (h : IkcpHeap) (p : IkcpAddr) : Option IkcpSeg := h.read p

/-- Stores to the fields of a segment. -/
abbrev store (h : IkcpHeap) (p : IkcpAddr) (seg : IkcpSeg) : Option IkcpHeap := h.write p seg

/-- `iqueue_is_empty`. -/
abbrev iqueueIsEmpty (h : IkcpHeap) (q : IkcpQueue) : Prop := h.IsEmpty q

/-- `iqueue_init`. -/
abbrev iqueueInit (h : IkcpHeap) (p : IkcpAddr) : Option IkcpHeap := h.init p

/-- `iqueue_add`. -/
abbrev iqueueAdd (h : IkcpHeap) (node head : IkcpAddr) : Option IkcpHeap := h.add node head

/-- `iqueue_add_tail`. -/
abbrev iqueueAddTail (h : IkcpHeap) (node head : IkcpAddr) : Option IkcpHeap :=
  h.addTail node head

/-- `iqueue_del`. -/
abbrev iqueueDel (h : IkcpHeap) (entry : IkcpAddr) : Option IkcpHeap := h.del entry

/-- `ikcp_segment_new` with what is stored in the segment; `malloc` never fails. -/
abbrev ikcpSegmentNew (malloc : ℕ → Finset ℕ → ℕ) (h : IkcpHeap) (seg : IkcpSeg) :
    IkcpAddr × IkcpHeap := h.alloc malloc seg

/-- `ikcp_segment_delete`. -/
abbrev ikcpSegmentDelete (h : IkcpHeap) (p : IkcpAddr) : Option IkcpHeap := h.free p

end IkcpHeap

/-- A control block in memory. The lists in `kcp` stay empty: the queues are in the
memory, and their lengths in the counters. -/
structure IkcpRaw where
  kcp : Ikcpcb
  heap : IkcpHeap
  nsndQue : UInt32
  nrcvQue : UInt32
  nsndBuf : UInt32
  nrcvBuf : UInt32

namespace IkcpRaw

/-- `ikcp_create`. -/
def ikcpCreate (conv : UInt32) : IkcpRaw where
  kcp := OmniSocket.ikcpCreate conv
  heap :=
    { links := ((((⟨fun _ => .null, fun _ => .null⟩ : Links IkcpAddr).init
        (.head .sndQueue)).init (.head .rcvQueue)).init (.head .sndBuf)).init (.head .rcvBuf)
      live := ∅
      content := fun _ => OmniSocket.ikcpSegmentNew []
      allocations := 0 }
  nsndQue := 0
  nrcvQue := 0
  nsndBuf := 0
  nrcvBuf := 0

/-! ## Sending -/

/-- The loop of `ikcp_send` over the fragments. -/
def ikcpSendLoop (malloc : ℕ → Finset ℕ → ℕ) :
    ℕ → List UInt8 → ℤ → IkcpRaw → Option (ℤ × IkcpRaw)
  | 0, _, sent, raw => some (sent, raw)
  | count + 1, rest, sent, raw => do
    let data := rest.take raw.kcp.mss.toNat
    let (p, heap) := raw.heap.ikcpSegmentNew malloc
      { OmniSocket.ikcpSegmentNew data with
        frg := if raw.kcp.stream = 0 then UInt32.ofNat count else 0 }
    let heap ← heap.iqueueInit p
    let heap ← heap.iqueueAddTail p (.head .sndQueue)
    ikcpSendLoop malloc count (rest.drop raw.kcp.mss.toNat) (sent + data.length)
      { raw with heap := heap, nsndQue := raw.nsndQue + 1 }

/-- The part of `ikcp_send` behind the stream-mode branch. -/
def ikcpSendFragments (malloc : ℕ → Finset ℕ → ℕ) (raw : IkcpRaw) (buffer : List UInt8)
    (len sent : ℤ) : Option (ℤ × IkcpRaw) :=
  let count := ikcpFragmentCount raw.kcp.mss len
  if ikcpWndRcv.toInt32.toInt ≤ count then
    some (if raw.kcp.stream ≠ 0 ∧ 0 < sent then sent else -2, raw)
  else
    let count := if count = 0 then 1 else count
    ikcpSendLoop malloc count.toNat (buffer.take len.toNat) sent raw

/-- The stream-mode branch of `ikcp_send`: the last segment of the queue is replaced by
a longer one. -/
def ikcpSendAppend (malloc : ℕ → Finset ℕ → ℕ) (raw : IkcpRaw) (buffer : List UInt8) (len : ℤ) :
    Option (ℕ × IkcpRaw) :=
  if raw.heap.iqueueIsEmpty .sndQueue then some (0, raw)
  else do
    let p ← raw.heap.prev (.head .sndQueue)
    let old ← raw.heap.iqueueEntry p
    if old.data.length < raw.kcp.mss.toNat then do
      let extend := min len.toNat (raw.kcp.mss.toNat - old.data.length)
      let (node, heap) := raw.heap.ikcpSegmentNew malloc
        (OmniSocket.ikcpSegmentNew (old.data ++ buffer.take extend))
      let heap ← heap.iqueueAddTail node (.head .sndQueue)
      let heap ← heap.iqueueDel p
      let heap ← heap.iqueueInit p
      let heap ← heap.ikcpSegmentDelete p
      some (extend, { raw with heap := heap })
    else some (0, raw)

/-- `ikcp_send`. -/
def ikcpSend (malloc : ℕ → Finset ℕ → ℕ) (raw : IkcpRaw) (buffer : List UInt8) (len : ℤ) :
    Option (ℤ × IkcpRaw) :=
  if len < 0 then some (-1, raw)
  else if raw.kcp.stream ≠ 0 then do
    let (sent, raw) ← ikcpSendAppend malloc raw buffer len
    if len - sent ≤ 0 then some (sent, raw)
    else ikcpSendFragments malloc raw (buffer.drop sent) (len - sent) sent
  else ikcpSendFragments malloc raw buffer len 0

/-! ## Receiving -/

/-- The loop of `ikcp_peeksize`. -/
def ikcpPeeksizeLoop (raw : IkcpRaw) : ℕ → IkcpAddr → ℤ → Option ℤ
  | 0, _, _ => none
  | fuel + 1, p, length =>
    if p = .head .rcvQueue then some length
    else do
      let seg ← raw.heap.iqueueEntry p
      let length := length + seg.data.length
      if seg.frg = 0 then some length
      else ikcpPeeksizeLoop raw fuel (← raw.heap.next p) length

/-- `ikcp_peeksize`. -/
def ikcpPeeksize (raw : IkcpRaw) : Option ℤ :=
  if raw.heap.iqueueIsEmpty .rcvQueue then some (-1)
  else do
    let p ← raw.heap.next (.head .rcvQueue)
    let seg ← raw.heap.iqueueEntry p
    if seg.frg = 0 then some seg.data.length
    else if raw.nrcvQue < seg.frg + 1 then some (-1)
    else raw.ikcpPeeksizeLoop raw.heap.rounds p 0

/-- The loop of `ikcp_recv` that puts the fragments together. -/
def ikcpRecvLoop (ispeek : Bool) :
    ℕ → IkcpAddr → List UInt8 → IkcpRaw → Option (List UInt8 × IkcpRaw)
  | 0, _, _, _ => none
  | fuel + 1, p, data, raw =>
    if p = .head .rcvQueue then some (data, raw)
    else do
      let seg ← raw.heap.iqueueEntry p
      let next ← raw.heap.next p
      let data := data ++ seg.data
      let raw ←
        if ispeek then some raw
        else do
          let heap ← raw.heap.iqueueDel p
          let heap ← heap.ikcpSegmentDelete p
          some { raw with heap := heap, nrcvQue := raw.nrcvQue - 1 }
      if seg.frg = 0 then some (data, raw) else ikcpRecvLoop ispeek fuel next data raw

/-- The loop that moves available segments from `rcv_buf` to `rcv_queue`. -/
def ikcpMoveLoop : ℕ → IkcpRaw → Option IkcpRaw
  | 0, _ => none
  | fuel + 1, raw =>
    if raw.heap.iqueueIsEmpty .rcvBuf then some raw
    else do
      let p ← raw.heap.next (.head .rcvBuf)
      let seg ← raw.heap.iqueueEntry p
      if seg.sn = raw.kcp.rcvNxt ∧ raw.nrcvQue < raw.kcp.rcvWnd then do
        let heap ← raw.heap.iqueueDel p
        let heap ← heap.iqueueAddTail p (.head .rcvQueue)
        ikcpMoveLoop fuel
          { raw with
            kcp := { raw.kcp with rcvNxt := raw.kcp.rcvNxt + 1 }
            heap := heap
            nrcvBuf := raw.nrcvBuf - 1
            nrcvQue := raw.nrcvQue + 1 }
      else some raw

/-- `ikcp_recv`. A message whose length is not the one announced fails its assertion. -/
def ikcpRecv (raw : IkcpRaw) (len : ℤ) : Option (ℤ × List UInt8 × IkcpRaw) :=
  let ispeek := decide (len < 0)
  if raw.heap.iqueueIsEmpty .rcvQueue then some (-1, [], raw)
  else do
    let len := if len < 0 then (-Int32.ofInt len).toInt else len
    let peeksize ← raw.ikcpPeeksize
    if peeksize < 0 then some (-2, [], raw)
    else if len < peeksize then some (-3, [], raw)
    else do
      let recover := decide (raw.kcp.rcvWnd ≤ raw.nrcvQue)
      let p ← raw.heap.next (.head .rcvQueue)
      let (data, raw) ← ikcpRecvLoop ispeek raw.heap.rounds p [] raw
      if (data.length : ℤ) ≠ peeksize then none
      else do
        let raw ← ikcpMoveLoop raw.heap.rounds raw
        let kcp := raw.kcp
        let kcp :=
          if raw.nrcvQue < kcp.rcvWnd ∧ recover then { kcp with probe := kcp.probe ||| ikcpAskTell }
          else kcp
        some (data.length, data, { raw with kcp := kcp })

/-! ## Input -/

/-- `ikcp_shrink_buf`. -/
def ikcpShrinkBuf (raw : IkcpRaw) : Option IkcpRaw := do
  let p ← raw.heap.next (.head .sndBuf)
  if p ≠ .head .sndBuf then do
    let seg ← raw.heap.iqueueEntry p
    some { raw with kcp := { raw.kcp with sndUna := seg.sn } }
  else some { raw with kcp := { raw.kcp with sndUna := raw.kcp.sndNxt } }

/-- What the loops over `snd_buf` do to a segment that is acknowledged. -/
def dropSndBuf (raw : IkcpRaw) (p : IkcpAddr) : Option IkcpRaw := do
  let heap ← raw.heap.iqueueDel p
  let heap ← heap.ikcpSegmentDelete p
  some { raw with heap := heap, nsndBuf := raw.nsndBuf - 1 }

/-- The loop of `ikcp_parse_ack`. -/
def ikcpParseAckLoop (sn : UInt32) : ℕ → IkcpAddr → IkcpRaw → Option IkcpRaw
  | 0, _, _ => none
  | fuel + 1, p, raw =>
    if p = .head .sndBuf then some raw
    else do
      let seg ← raw.heap.iqueueEntry p
      let next ← raw.heap.next p
      if sn = seg.sn then raw.dropSndBuf p
      else if itimediff sn seg.sn < 0 then some raw
      else ikcpParseAckLoop sn fuel next raw

/-- `ikcp_parse_ack`. -/
def ikcpParseAck (raw : IkcpRaw) (sn : UInt32) : Option IkcpRaw :=
  if IkcpInFlight raw.kcp sn then do
    ikcpParseAckLoop sn raw.heap.rounds (← raw.heap.next (.head .sndBuf)) raw
  else some raw

/-- The loop of `ikcp_parse_una`. -/
def ikcpParseUnaLoop (una : UInt32) : ℕ → IkcpAddr → IkcpRaw → Option IkcpRaw
  | 0, _, _ => none
  | fuel + 1, p, raw =>
    if p = .head .sndBuf then some raw
    else do
      let seg ← raw.heap.iqueueEntry p
      let next ← raw.heap.next p
      if 0 < itimediff una seg.sn then do
        ikcpParseUnaLoop una fuel next (← raw.dropSndBuf p)
      else some raw

/-- `ikcp_parse_una`. -/
def ikcpParseUna (raw : IkcpRaw) (una : UInt32) : Option IkcpRaw := do
  ikcpParseUnaLoop una raw.heap.rounds (← raw.heap.next (.head .sndBuf)) raw

/-- The loop of `ikcp_parse_fastack`. -/
def ikcpParseFastackLoop (sn ts : UInt32) : ℕ → IkcpAddr → IkcpRaw → Option IkcpRaw
  | 0, _, _ => none
  | fuel + 1, p, raw =>
    if p = .head .sndBuf then some raw
    else do
      let seg ← raw.heap.iqueueEntry p
      let next ← raw.heap.next p
      if itimediff sn seg.sn < 0 then some raw
      else if sn ≠ seg.sn ∧ 0 ≤ itimediff ts seg.ts then do
        let heap ← raw.heap.store p { seg with fastack := seg.fastack + 1 }
        ikcpParseFastackLoop sn ts fuel next { raw with heap := heap }
      else ikcpParseFastackLoop sn ts fuel next raw

/-- `ikcp_parse_fastack`. -/
def ikcpParseFastack (raw : IkcpRaw) (sn ts : UInt32) : Option IkcpRaw :=
  if IkcpInFlight raw.kcp sn then do
    ikcpParseFastackLoop sn ts raw.heap.rounds (← raw.heap.next (.head .sndBuf)) raw
  else some raw

/-- The search of `ikcp_parse_data` from the end of `rcv_buf`: the place behind which the
segment belongs, unless one with its number is there. -/
def ikcpInsertLoop (raw : IkcpRaw) (sn : UInt32) : ℕ → IkcpAddr → Option (Bool × IkcpAddr)
  | 0, _ => none
  | fuel + 1, p =>
    if p = .head .rcvBuf then some (false, p)
    else do
      let seg ← raw.heap.iqueueEntry p
      let prev ← raw.heap.prev p
      if seg.sn = sn then some (true, p)
      else if 0 < itimediff sn seg.sn then some (false, p)
      else ikcpInsertLoop raw sn fuel prev

/-- `ikcp_parse_data`. -/
def ikcpParseData (raw : IkcpRaw) (newseg : IkcpAddr) : Option IkcpRaw := do
  let sn := (← raw.heap.iqueueEntry newseg).sn
  if 0 ≤ itimediff sn (raw.kcp.rcvNxt + raw.kcp.rcvWnd) ∨ itimediff sn raw.kcp.rcvNxt < 0 then do
    let heap ← raw.heap.ikcpSegmentDelete newseg
    some { raw with heap := heap }
  else do
    let last ← raw.heap.prev (.head .rcvBuf)
    let (isRepeat, p) ← raw.ikcpInsertLoop sn raw.heap.rounds last
    let raw ←
      if isRepeat then do
        let heap ← raw.heap.ikcpSegmentDelete newseg
        some { raw with heap := heap }
      else do
        let heap ← raw.heap.iqueueInit newseg
        let heap ← heap.iqueueAdd newseg p
        some { raw with heap := heap, nrcvBuf := raw.nrcvBuf + 1 }
    ikcpMoveLoop raw.heap.rounds raw

/-- What `ikcp_input` does with a data segment. -/
def ikcpInputPush (malloc : ℕ → Finset ℕ → ℕ) (raw : IkcpRaw) (seg : IkcpSeg) : Option IkcpRaw :=
  if itimediff seg.sn (raw.kcp.rcvNxt + raw.kcp.rcvWnd) < 0 then
    let raw := { raw with kcp := ikcpAckPush raw.kcp seg.sn seg.ts }
    if 0 ≤ itimediff seg.sn raw.kcp.rcvNxt then
      let (p, heap) := raw.heap.ikcpSegmentNew malloc seg
      ikcpParseData { raw with heap := heap } p
    else some raw
  else some raw

/-- What the loop of `ikcp_input` does with a segment it accepts. -/
def ikcpInputSeg (malloc : ℕ → Finset ℕ → ℕ) (raw : IkcpRaw) (newest : Option (UInt32 × UInt32))
    (seg : IkcpSeg) : Option (IkcpRaw × Option (UInt32 × UInt32)) := do
  let raw ← ikcpParseUna { raw with kcp := { raw.kcp with rmtWnd := seg.wnd } } seg.una
  let raw ← raw.ikcpShrinkBuf
  if seg.cmd = ikcpCmdAck then do
    let kcp :=
      if 0 ≤ itimediff raw.kcp.current seg.ts then
        ikcpUpdateAck raw.kcp (raw.kcp.current - seg.ts).toInt32
      else raw.kcp
    let raw ← ikcpParseAck { raw with kcp := kcp } seg.sn
    let raw ← raw.ikcpShrinkBuf
    let newest :=
      match newest with
      | none => some (seg.sn, seg.ts)
      | some (maxack, latestTs) =>
        if 0 < itimediff seg.sn maxack ∧ 0 < itimediff seg.ts latestTs then some (seg.sn, seg.ts)
        else some (maxack, latestTs)
    some (raw, newest)
  else if seg.cmd = ikcpCmdPush then do some (← raw.ikcpInputPush malloc seg, newest)
  else if seg.cmd = ikcpCmdWask then
    some ({ raw with kcp := { raw.kcp with probe := raw.kcp.probe ||| ikcpAskTell } }, newest)
  else some (raw, newest)

/-- The loop of `ikcp_input`. -/
def ikcpInputLoop (malloc : ℕ → Finset ℕ → ℕ) :
    List IkcpSeg → IkcpRaw → Option (UInt32 × UInt32) →
      Option (IkcpRaw × Option (UInt32 × UInt32))
  | [], raw, newest => some (raw, newest)
  | seg :: rest, raw, newest => do
    let (raw, newest) ← ikcpInputSeg malloc raw newest seg
    ikcpInputLoop malloc rest raw newest

/-- `ikcp_input`. -/
def ikcpInput (malloc : ℕ → Finset ℕ → ℕ) (raw : IkcpRaw) (data : List UInt8) :
    Option (ℤ × IkcpRaw) :=
  if data.length < ikcpOverhead then some (-1, raw)
  else do
    let prevUna := raw.kcp.sndUna
    let (segs, rc) := ikcpDecodeAll raw.kcp.conv data.length data
    let (raw, newest) ← ikcpInputLoop malloc segs raw none
    if rc ≠ 0 then some (rc, raw)
    else do
      let raw ←
        match newest with
        | none => some raw
        | some (maxack, latestTs) => raw.ikcpParseFastack maxack latestTs
      some (0, { raw with kcp := ikcpInputCwnd raw.kcp prevUna })

/-! ## Flushing -/

/-- `ikcp_wnd_unused`. -/
def ikcpWndUnused (raw : IkcpRaw) : UInt32 :=
  if raw.nrcvQue < raw.kcp.rcvWnd then raw.kcp.rcvWnd - raw.nrcvQue else 0

/-- The loop that moves segments from `snd_queue` to `snd_buf`. -/
def ikcpAdmitLoop (wnd limit : UInt32) : ℕ → IkcpRaw → Option IkcpRaw
  | 0, _ => none
  | fuel + 1, raw =>
    if itimediff raw.kcp.sndNxt limit < 0 then
      if raw.heap.iqueueIsEmpty .sndQueue then some raw
      else do
        let p ← raw.heap.next (.head .sndQueue)
        let newseg ← raw.heap.iqueueEntry p
        let heap ← raw.heap.iqueueDel p
        let heap ← heap.iqueueAddTail p (.head .sndBuf)
        let heap ← heap.store p (ikcpAdmitSeg raw.kcp wnd raw.kcp.sndNxt newseg)
        ikcpAdmitLoop wnd limit fuel
          { raw with
            kcp := { raw.kcp with sndNxt := raw.kcp.sndNxt + 1 }
            heap := heap
            nsndQue := raw.nsndQue - 1
            nsndBuf := raw.nsndBuf + 1 }
    else some raw

/-- The loop over `snd_buf`. -/
def ikcpFlushLoop (kcp : Ikcpcb) (wnd : UInt32) :
    ℕ → IkcpAddr → IkcpFlushAcc → IkcpHeap → Option (IkcpFlushAcc × IkcpHeap)
  | 0, _, _, _ => none
  | fuel + 1, p, acc, heap =>
    if p = .head .sndBuf then some (acc, heap)
    else do
      let segment ← heap.iqueueEntry p
      let (segment, acc) := ikcpFlushData kcp wnd acc segment
      let heap ← heap.store p segment
      ikcpFlushLoop kcp wnd fuel (← heap.next p) acc heap

/-- The part of `ikcp_flush` that sends data, in the window `cwnd`. -/
def ikcpFlushSegs (raw : IkcpRaw) (wnd cwnd : UInt32) (out : IkcpOut) :
    Option (List (List UInt8) × IkcpRaw) := do
  let raw ← ikcpAdmitLoop wnd (raw.kcp.sndUna + cwnd) raw.heap.rounds raw
  let p ← raw.heap.next (.head .sndBuf)
  let (acc, heap) ← ikcpFlushLoop raw.kcp wnd raw.heap.rounds p
    ⟨out, raw.kcp.xmit, raw.kcp.state, 0, false⟩ raw.heap
  let kcp := { raw.kcp with xmit := acc.xmit, state := acc.state }
  some (acc.out.output.sent,
    { raw with kcp := ikcpFlushSsthresh kcp cwnd acc.change acc.lost, heap := heap })

/-- `ikcp_flush`. -/
def ikcpFlush (raw : IkcpRaw) : Option (List (List UInt8) × IkcpRaw) :=
  if raw.kcp.updated = 0 then some ([], raw)
  else
    let seg := { ikcpFlushSeg raw.kcp with wnd := raw.ikcpWndUnused }
    let (seg, out) := ikcpFlushAcks raw.kcp.mtu raw.kcp.acklist seg ⟨[], []⟩
    let kcp := ikcpFlushProbe { raw.kcp with acklist := [] }
    let out := ikcpFlushWindow kcp seg out
    ikcpFlushSegs { raw with kcp := { kcp with probe := 0 } } seg.wnd (ikcpFlushCwnd kcp) out

/-- `ikcp_update`. -/
def ikcpUpdate (raw : IkcpRaw) (current : UInt32) : Option (List (List UInt8) × IkcpRaw) :=
  match ikcpUpdateTimer raw.kcp current with
  | (true, kcp) => ikcpFlush { raw with kcp := kcp }
  | (false, kcp) => some ([], { raw with kcp := kcp })

/-- `ikcp_waitsnd`. -/
def ikcpWaitsnd (raw : IkcpRaw) : ℤ := (raw.nsndBuf + raw.nsndQue).toInt32.toInt

/-! ## Release -/

/-- One of the loops of `ikcp_release`. -/
def releaseQueue (q : IkcpQueue) : ℕ → IkcpHeap → Option IkcpHeap
  | 0, _ => none
  | fuel + 1, heap =>
    if heap.iqueueIsEmpty q then some heap
    else do
      let p ← heap.next (.head q)
      let heap ← heap.iqueueDel p
      let heap ← heap.ikcpSegmentDelete p
      releaseQueue q fuel heap

/-- `ikcp_release`: the segments that are left. -/
def ikcpRelease (raw : IkcpRaw) : Option IkcpHeap := do
  let heap ← releaseQueue .sndBuf raw.heap.rounds raw.heap
  let heap ← releaseQueue .rcvBuf raw.heap.rounds heap
  let heap ← releaseQueue .sndQueue raw.heap.rounds heap
  releaseQueue .rcvQueue raw.heap.rounds heap

end IkcpRaw

end OmniSocket
