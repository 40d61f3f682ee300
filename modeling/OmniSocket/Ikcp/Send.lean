/-
# Queueing a message

`ikcp_send` cuts a message into fragments of at most `mss` bytes and appends
them to the send queue. Fragments are numbered downwards, so the last one of
every message carries 0.
-/

import OmniSocket.Ikcp.Control

set_option autoImplicit false

namespace OmniSocket

/-- The fragments `count - 1, …, 0` of a message, cut off its front. -/
def ikcpFragments (mss : ℕ) (stream : Int32) : ℕ → List UInt8 → List IkcpSeg
  | 0, _ => []
  | count + 1, rest =>
    { ikcpSegmentNew (rest.take mss) with
      frg := if stream = 0 then UInt32.ofNat count else 0 } ::
      ikcpFragments mss stream count (rest.drop mss)

/-- How many fragments `ikcp_send` makes of `len` bytes, before its checks. -/
def ikcpFragmentCount (mss : UInt32) (len : ℤ) : ℤ :=
  if len ≤ mss.toInt32.toInt then 1
  else (((UInt32.ofInt len + mss - 1) / mss).toInt32).toInt

/-- The part of `ikcp_send` behind the stream-mode branch, with `sent` bytes
already put into the last queued segment. -/
def ikcpSendFragments (kcp : Ikcpcb) (buffer : List UInt8) (len : ℤ) (sent : ℤ) : ℤ × Ikcpcb :=
  let count := ikcpFragmentCount kcp.mss len
  if ikcpWndRcv.toInt32.toInt ≤ count then
    (if kcp.stream ≠ 0 ∧ 0 < sent then sent else -2, kcp)
  else
    let count := if count = 0 then 1 else count
    let segs := ikcpFragments kcp.mss.toNat kcp.stream count.toNat (buffer.take len.toNat)
    (sent + (segs.map fun seg => (seg.data.length : ℤ)).sum,
      { kcp with sndQueue := kcp.sndQueue ++ segs })

/-- The stream-mode branch of `ikcp_send`: how many of `len` bytes fit into the
last queued segment, and the state with those bytes appended to it. -/
def ikcpSendAppend (kcp : Ikcpcb) (buffer : List UInt8) (len : ℤ) : ℕ × Ikcpcb :=
  match kcp.sndQueue.getLast? with
  | some old =>
    if old.data.length < kcp.mss.toNat then
      let extend := min len.toNat (kcp.mss.toNat - old.data.length)
      let seg := ikcpSegmentNew (old.data ++ buffer.take extend)
      (extend, { kcp with sndQueue := kcp.sndQueue.dropLast ++ [seg] })
    else (0, kcp)
  | none => (0, kcp)

/-- `ikcp_send`, when its allocations succeed: the result and the new state. -/
def ikcpSend (kcp : Ikcpcb) (buffer : List UInt8) (len : ℤ) : ℤ × Ikcpcb :=
  if len < 0 then (-1, kcp)
  else if kcp.stream ≠ 0 then
    let (sent, kcp) := ikcpSendAppend kcp buffer len
    if len - sent ≤ 0 then (sent, kcp)
    else ikcpSendFragments kcp (buffer.drop sent) (len - sent) sent
  else ikcpSendFragments kcp buffer len 0

end OmniSocket
