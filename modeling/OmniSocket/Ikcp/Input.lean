/-
# Input of a datagram

`ikcp_input` works through the segments of a datagram: every segment reports the
peer's window and what it has received, an acknowledgement takes one segment
off the send buffer, data goes to the receive buffer. A segment that is not
well formed ends the call with an error; what the segments before it did stays.
-/

import OmniSocket.Ikcp.Recv

set_option autoImplicit false

namespace OmniSocket

/-- `ikcp_update_ack`. Everything is an `IINT32` but `delta`, a `long`, and the sum it is
added to. -/
def ikcpUpdateAck (kcp : Ikcpcb) (rtt : Int32) : Ikcpcb :=
  let kcp :=
    if kcp.rxSrtt = 0 then { kcp with rxSrtt := rtt, rxRttval := rtt / 2 }
    else
      let delta := |(rtt - kcp.rxSrtt).toInt|
      let srtt := (7 * kcp.rxSrtt + rtt) / 8
      { kcp with
        rxRttval := Int32.ofInt (((3 * kcp.rxRttval).toInt + delta).tdiv 4)
        rxSrtt := if srtt < 1 then 1 else srtt }
  let rto := kcp.rxSrtt.toUInt32 + imax kcp.interval (4 * kcp.rxRttval).toUInt32
  { kcp with rxRto := (ibound kcp.rxMinrto.toUInt32 rto 60000).toInt32 }

/-- `ikcp_shrink_buf`. -/
def ikcpShrinkBuf (kcp : Ikcpcb) : Ikcpcb :=
  match kcp.sndBuf with
  | seg :: _ => { kcp with sndUna := seg.sn }
  | [] => { kcp with sndUna := kcp.sndNxt }

/-- The loop of `ikcp_parse_ack`: one segment at most is deleted. -/
def ikcpParseAckLoop (sn : UInt32) : List IkcpSeg → List IkcpSeg
  | [] => []
  | seg :: rest =>
    if sn = seg.sn then rest
    else if itimediff sn seg.sn < 0 then seg :: rest
    else seg :: ikcpParseAckLoop sn rest

/-- The numbers `ikcp_parse_ack` and `ikcp_parse_fastack` look at. -/
def IkcpInFlight (kcp : Ikcpcb) (sn : UInt32) : Prop :=
  ¬ (itimediff sn kcp.sndUna < 0 ∨ 0 ≤ itimediff sn kcp.sndNxt)

instance (kcp : Ikcpcb) (sn : UInt32) : Decidable (IkcpInFlight kcp sn) :=
  inferInstanceAs (Decidable (¬ (_ ∨ _)))

/-- `ikcp_parse_ack`. -/
def ikcpParseAck (kcp : Ikcpcb) (sn : UInt32) : Ikcpcb :=
  if IkcpInFlight kcp sn then { kcp with sndBuf := ikcpParseAckLoop sn kcp.sndBuf } else kcp

/-- `ikcp_parse_una`. -/
def ikcpParseUna (kcp : Ikcpcb) (una : UInt32) : Ikcpcb :=
  { kcp with sndBuf := kcp.sndBuf.dropWhile fun seg => decide (0 < itimediff una seg.sn) }

/-- The loop of `ikcp_parse_fastack`. -/
def ikcpParseFastackLoop (sn ts : UInt32) : List IkcpSeg → List IkcpSeg
  | [] => []
  | seg :: rest =>
    if itimediff sn seg.sn < 0 then seg :: rest
    else if sn ≠ seg.sn ∧ 0 ≤ itimediff ts seg.ts then
      { seg with fastack := seg.fastack + 1 } :: ikcpParseFastackLoop sn ts rest
    else seg :: ikcpParseFastackLoop sn ts rest

/-- `ikcp_parse_fastack`, with `IKCP_FASTACK_CONSERVE`. -/
def ikcpParseFastack (kcp : Ikcpcb) (sn ts : UInt32) : Ikcpcb :=
  if IkcpInFlight kcp sn then { kcp with sndBuf := ikcpParseFastackLoop sn ts kcp.sndBuf }
  else kcp

/-- `ikcp_ack_push`. -/
def ikcpAckPush (kcp : Ikcpcb) (sn ts : UInt32) : Ikcpcb :=
  { kcp with acklist := kcp.acklist ++ [(sn, ts)] }

/-- The local variables of `ikcp_input` beside the control block: the newest
acknowledgement so far, if there was one. -/
structure IkcpInput where
  kcp : Ikcpcb
  /-- `maxack` and `latest_ts`, once `flag` is set. -/
  newest : Option (UInt32 × UInt32)
  deriving DecidableEq, Repr

/-- The branch `cmd == IKCP_CMD_ACK`. -/
def ikcpInputAck (st : IkcpInput) (seg : IkcpSeg) : IkcpInput where
  kcp :=
    let kcp :=
      if 0 ≤ itimediff st.kcp.current seg.ts then
        ikcpUpdateAck st.kcp (st.kcp.current - seg.ts).toInt32
      else st.kcp
    ikcpShrinkBuf (ikcpParseAck kcp seg.sn)
  newest :=
    match st.newest with
    | none => some (seg.sn, seg.ts)
    | some (maxack, latestTs) =>
      if 0 < itimediff seg.sn maxack ∧ 0 < itimediff seg.ts latestTs then some (seg.sn, seg.ts)
      else some (maxack, latestTs)

/-- The branch `cmd == IKCP_CMD_PUSH`. Every segment up to the end of the window
is acknowledged, old ones included. -/
def ikcpInputPush (kcp : Ikcpcb) (seg : IkcpSeg) : Ikcpcb :=
  if itimediff seg.sn (kcp.rcvNxt + kcp.rcvWnd) < 0 then
    let kcp := ikcpAckPush kcp seg.sn seg.ts
    if 0 ≤ itimediff seg.sn kcp.rcvNxt then ikcpParseData kcp seg else kcp
  else kcp

/-- What the loop of `ikcp_input` does with a segment it accepts. -/
def ikcpInputSeg (st : IkcpInput) (seg : IkcpSeg) : IkcpInput :=
  let st := { st with
    kcp := ikcpShrinkBuf (ikcpParseUna { st.kcp with rmtWnd := seg.wnd } seg.una) }
  if seg.cmd = ikcpCmdAck then ikcpInputAck st seg
  else if seg.cmd = ikcpCmdPush then { st with kcp := ikcpInputPush st.kcp seg }
  else if seg.cmd = ikcpCmdWask then
    { st with kcp := { st.kcp with probe := st.kcp.probe ||| ikcpAskTell } }
  else st

/-- The congestion window at the end of `ikcp_input`. -/
def ikcpInputCwnd (kcp : Ikcpcb) (prevUna : UInt32) : Ikcpcb :=
  if 0 < itimediff kcp.sndUna prevUna ∧ kcp.cwnd < kcp.rmtWnd then
    let kcp :=
      if kcp.cwnd < kcp.ssthresh then
        { kcp with cwnd := kcp.cwnd + 1, incr := kcp.incr + kcp.mss }
      else
        let incr := imax kcp.incr kcp.mss
        let incr := incr + (kcp.mss * kcp.mss / incr + kcp.mss / 16)
        if (kcp.cwnd + 1) * kcp.mss ≤ incr then
          { kcp with
            cwnd := (incr + kcp.mss - 1) / (if 0 < kcp.mss then kcp.mss else 1), incr := incr }
        else { kcp with incr := incr }
    if kcp.rmtWnd < kcp.cwnd then
      { kcp with cwnd := kcp.rmtWnd, incr := kcp.rmtWnd * kcp.mss }
    else kcp
  else kcp

/-- `ikcp_input`: the result and the new state. An error in the datagram skips
what comes after the loop. -/
def ikcpInput (kcp : Ikcpcb) (data : List UInt8) : ℤ × Ikcpcb :=
  if data.length < ikcpOverhead then (-1, kcp)
  else
    let (segs, rc) := ikcpDecodeAll kcp.conv data.length data
    let st := segs.foldl ikcpInputSeg { kcp := kcp, newest := none }
    if rc ≠ 0 then (rc, st.kcp)
    else
      let kcp' :=
        match st.newest with
        | none => st.kcp
        | some (maxack, latestTs) => ikcpParseFastack st.kcp maxack latestTs
      (0, ikcpInputCwnd kcp' kcp.sndUna)

end OmniSocket
