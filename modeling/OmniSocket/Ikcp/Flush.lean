/-
# Flushing

`ikcp_flush` writes acknowledgements, window probes and data segments into one
buffer and hands it to the output callback whenever the next segment would not
fit the MTU. `ikcp_update` calls it when the flush timer is due.
-/

import OmniSocket.Ikcp.Recv

set_option autoImplicit false

namespace OmniSocket

/-- `kcp->buffer` up to `ptr`, and what the output callback was given so far. -/
structure IkcpOut where
  buffer : List UInt8
  sent : List (List UInt8)
  deriving DecidableEq, Repr

namespace IkcpOut

/-- `ikcp_output`, and `ptr = buffer`. Empty output is not passed on. -/
def output (out : IkcpOut) : IkcpOut where
  buffer := []
  sent := if out.buffer = [] then out.sent else out.sent ++ [out.buffer]

/-- Writing a segment, with the check for room before it. -/
def put (mtu : UInt32) (seg : IkcpSeg) (out : IkcpOut) : IkcpOut :=
  let out := if mtu.toNat < out.buffer.length + (ikcpSegBytes seg).length then out.output else out
  { out with buffer := out.buffer ++ ikcpSegBytes seg }

end IkcpOut

/-- The local `seg` of `ikcp_flush`, as it is for acknowledgements. -/
def ikcpFlushSeg (kcp : Ikcpcb) : IkcpSeg :=
  { ikcpSegmentNew [] with
    conv := kcp.conv, cmd := ikcpCmdAck, wnd := ikcpWndUnused kcp, una := kcp.rcvNxt }

/-- The loop over the pending acknowledgements. Number and timestamp of the last
one stay in `seg`. -/
def ikcpFlushAcks (mtu : UInt32) (acks : List (UInt32 × UInt32)) (seg : IkcpSeg)
    (out : IkcpOut) : IkcpSeg × IkcpOut :=
  acks.foldl (fun (seg, out) (sn, ts) =>
    let seg := { seg with sn := sn, ts := ts }
    (seg, out.put mtu seg)) (seg, out)

/-- The next wait between two window probes: longer by half, within limits. -/
def ikcpProbeBackoff (wait : UInt32) : UInt32 :=
  let wait := if wait < 7000 then 7000 else wait
  let wait := wait + wait / 2
  if 120000 < wait then 120000 else wait

/-- The window probe timer. -/
def ikcpFlushProbe (kcp : Ikcpcb) : Ikcpcb :=
  if kcp.rmtWnd = 0 then
    if kcp.probeWait = 0 then
      { kcp with probeWait := 7000, tsProbe := kcp.current + 7000 }
    else if 0 ≤ itimediff kcp.current kcp.tsProbe then
      let wait := ikcpProbeBackoff kcp.probeWait
      { kcp with
        probeWait := wait, tsProbe := kcp.current + wait, probe := kcp.probe ||| ikcpAskSend }
    else kcp
  else { kcp with tsProbe := 0, probeWait := 0 }

/-- The window probes: the question first, then the answer. -/
def ikcpFlushWindow (kcp : Ikcpcb) (seg : IkcpSeg) (out : IkcpOut) : IkcpOut :=
  let out :=
    if kcp.probe &&& ikcpAskSend ≠ 0 then out.put kcp.mtu { seg with cmd := ikcpCmdWask } else out
  if kcp.probe &&& ikcpAskTell ≠ 0 then out.put kcp.mtu { seg with cmd := ikcpCmdWins } else out

/-- The send window. -/
def ikcpFlushCwnd (kcp : Ikcpcb) : UInt32 :=
  let cwnd := imin kcp.sndWnd kcp.rmtWnd
  if kcp.nocwnd = 0 then imin kcp.cwnd cwnd else cwnd

/-- A segment that leaves the send queue with the number `sn`. -/
def ikcpAdmitSeg (kcp : Ikcpcb) (wnd : UInt32) (sn : UInt32) (seg : IkcpSeg) : IkcpSeg :=
  { seg with
    conv := kcp.conv
    cmd := ikcpCmdPush
    wnd := wnd
    ts := kcp.current
    sn := sn
    una := kcp.rcvNxt
    resendts := kcp.current
    rto := kcp.rxRto.toUInt32
    fastack := 0
    xmit := 0 }

/-- The loop that moves segments from `snd_queue` to `snd_buf`, up to the number
`limit`: the rest of the queue, the buffer and the next number. -/
def ikcpAdmitLoop (kcp : Ikcpcb) (wnd limit : UInt32) :
    List IkcpSeg → List IkcpSeg → UInt32 → List IkcpSeg × List IkcpSeg × UInt32
  | [], buf, sndNxt => ([], buf, sndNxt)
  | seg :: queue, buf, sndNxt =>
    if itimediff sndNxt limit < 0 then
      ikcpAdmitLoop kcp wnd limit queue (buf ++ [ikcpAdmitSeg kcp wnd sndNxt seg]) (sndNxt + 1)
    else (seg :: queue, buf, sndNxt)

/-- That loop, for the window `cwnd`. -/
def ikcpAdmit (kcp : Ikcpcb) (wnd cwnd : UInt32) : Ikcpcb :=
  let (queue, buf, sndNxt) :=
    ikcpAdmitLoop kcp wnd (kcp.sndUna + cwnd) kcp.sndQueue kcp.sndBuf kcp.sndNxt
  { kcp with sndQueue := queue, sndBuf := buf, sndNxt := sndNxt }

/-- `resent`. -/
def ikcpResent (kcp : Ikcpcb) : UInt32 :=
  if 0 < kcp.fastresend then kcp.fastresend.toUInt32 else 0xffffffff

/-- Why a data segment is written, if it is. -/
inductive IkcpSendReason
  | first
  | timeout
  | fast
  deriving DecidableEq, Repr

/-- The case distinction over a segment of the send buffer. -/
def ikcpSendReason (kcp : Ikcpcb) (segment : IkcpSeg) : Option IkcpSendReason :=
  if segment.xmit = 0 then some .first
  else if 0 ≤ itimediff kcp.current segment.resendts then some .timeout
  else if ikcpResent kcp ≤ segment.fastack ∧
      (segment.xmit.toInt32 ≤ kcp.fastlimit ∨ kcp.fastlimit ≤ 0) then some .fast
  else none

/-- The timers of a segment that is about to be written. -/
def ikcpArmSeg (kcp : Ikcpcb) (segment : IkcpSeg) : IkcpSendReason → IkcpSeg
  | .first =>
    let rtomin := if kcp.nodelay = 0 then (kcp.rxRto >>> 3).toUInt32 else 0
    { segment with
      xmit := segment.xmit + 1
      rto := kcp.rxRto.toUInt32
      resendts := kcp.current + kcp.rxRto.toUInt32 + rtomin }
  | .timeout =>
    let rto :=
      if kcp.nodelay = 0 then segment.rto + imax segment.rto kcp.rxRto.toUInt32
      else
        let step := if kcp.nodelay < 2 then segment.rto.toInt32 else kcp.rxRto
        segment.rto + (step / 2).toUInt32
    { segment with xmit := segment.xmit + 1, rto := rto, resendts := kcp.current + rto }
  | .fast =>
    { segment with
      xmit := segment.xmit + 1, fastack := 0, resendts := kcp.current + segment.rto }

/-- The segment as it is written. -/
def ikcpStampSeg (kcp : Ikcpcb) (wnd : UInt32) (segment : IkcpSeg) : IkcpSeg :=
  { segment with ts := kcp.current, wnd := wnd, una := kcp.rcvNxt }

/-- What the loop over the send buffer changes beside the segments: the output,
`kcp->xmit` and `kcp->state`, and the locals `change` and `lost`. -/
structure IkcpFlushAcc where
  out : IkcpOut
  xmit : UInt32
  state : UInt32
  change : ℕ
  lost : Bool
  deriving DecidableEq, Repr

/-- One pass of the loop over the send buffer. -/
def ikcpFlushData (kcp : Ikcpcb) (wnd : UInt32) (acc : IkcpFlushAcc) (segment : IkcpSeg) :
    IkcpSeg × IkcpFlushAcc :=
  match ikcpSendReason kcp segment with
  | none => (segment, acc)
  | some reason =>
    let segment := ikcpStampSeg kcp wnd (ikcpArmSeg kcp segment reason)
    (segment,
      { out := acc.out.put kcp.mtu segment
        xmit := if reason = .timeout then acc.xmit + 1 else acc.xmit
        state := if kcp.deadLink ≤ segment.xmit then 0xffffffff else acc.state
        change := if reason = .fast then acc.change + 1 else acc.change
        lost := acc.lost || decide (reason = .timeout) })

/-- The loop over the send buffer. -/
def ikcpFlushLoop (kcp : Ikcpcb) (wnd : UInt32) :
    IkcpFlushAcc → List IkcpSeg → List IkcpSeg × IkcpFlushAcc
  | acc, [] => ([], acc)
  | acc, segment :: rest =>
    let (segment, acc) := ikcpFlushData kcp wnd acc segment
    let (rest, acc) := ikcpFlushLoop kcp wnd acc rest
    (segment :: rest, acc)

/-- The window sizes at the end of `ikcp_flush`; `cwnd` is the send window it
worked with. -/
def ikcpFlushSsthresh (kcp : Ikcpcb) (cwnd : UInt32) (change : ℕ) (lost : Bool) : Ikcpcb :=
  let kcp :=
    if change ≠ 0 then
      let ssthresh := imax ((kcp.sndNxt - kcp.sndUna) / 2) 2
      let cwnd := ssthresh + ikcpResent kcp
      { kcp with ssthresh := ssthresh, cwnd := cwnd, incr := cwnd * kcp.mss }
    else kcp
  let kcp :=
    if lost then { kcp with ssthresh := imax (cwnd / 2) 2, cwnd := 1, incr := kcp.mss } else kcp
  if kcp.cwnd < 1 then { kcp with cwnd := 1, incr := kcp.mss } else kcp

/-- `ikcp_flush`: the datagrams handed to the output callback and the new state. -/
def ikcpFlush (kcp : Ikcpcb) : List (List UInt8) × Ikcpcb :=
  if kcp.updated = 0 then ([], kcp)
  else
    let (seg, out) := ikcpFlushAcks kcp.mtu kcp.acklist (ikcpFlushSeg kcp) ⟨[], []⟩
    let kcp := ikcpFlushProbe { kcp with acklist := [] }
    let out := ikcpFlushWindow kcp seg out
    let cwnd := ikcpFlushCwnd kcp
    let kcp := ikcpAdmit { kcp with probe := 0 } seg.wnd cwnd
    let (buf, acc) := ikcpFlushLoop kcp seg.wnd ⟨out, kcp.xmit, kcp.state, 0, false⟩ kcp.sndBuf
    let kcp := { kcp with sndBuf := buf, xmit := acc.xmit, state := acc.state }
    (acc.out.output.sent, ikcpFlushSsthresh kcp cwnd acc.change acc.lost)

/-- The clock and the flush timer in `ikcp_update`: the new state, and whether a
flush is due. -/
def ikcpUpdateTimer (kcp : Ikcpcb) (current : UInt32) : Bool × Ikcpcb :=
  let kcp := { kcp with current := current }
  let kcp := if kcp.updated = 0 then { kcp with updated := 1, tsFlush := current } else kcp
  let slap := itimediff current kcp.tsFlush
  let (slap, kcp) :=
    if 10000 ≤ slap ∨ slap < -10000 then (0, { kcp with tsFlush := current }) else (slap, kcp)
  if 0 ≤ slap then
    let next := kcp.tsFlush + kcp.interval
    (true,
      { kcp with tsFlush := if 0 ≤ itimediff current next then current + kcp.interval else next })
  else (false, kcp)

/-- `ikcp_update`: the datagrams handed to the output callback and the new state. -/
def ikcpUpdate (kcp : Ikcpcb) (current : UInt32) : List (List UInt8) × Ikcpcb :=
  match ikcpUpdateTimer kcp current with
  | (true, kcp) => ikcpFlush kcp
  | (false, kcp) => ([], kcp)

end OmniSocket
