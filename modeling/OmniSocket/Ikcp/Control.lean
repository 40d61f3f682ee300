/-
# The KCP control block

`ikcpcb` with the calls that set it up. The four segment queues and the list of
pending acknowledgements are lists, oldest element first; the counters the
source keeps beside them are their lengths.
-/

import OmniSocket.Ikcp.Segment

set_option autoImplicit false

namespace OmniSocket

/-- `IKCPCB`, without its log hooks, its output buffer and its user pointer. -/
structure Ikcpcb where
  conv : UInt32
  mtu : UInt32
  mss : UInt32
  state : UInt32
  sndUna : UInt32
  sndNxt : UInt32
  rcvNxt : UInt32
  ssthresh : UInt32
  rxRttval : Int32
  rxSrtt : Int32
  rxRto : Int32
  rxMinrto : Int32
  sndWnd : UInt32
  rcvWnd : UInt32
  rmtWnd : UInt32
  cwnd : UInt32
  probe : UInt32
  current : UInt32
  interval : UInt32
  tsFlush : UInt32
  xmit : UInt32
  nodelay : UInt32
  updated : UInt32
  tsProbe : UInt32
  probeWait : UInt32
  deadLink : UInt32
  incr : UInt32
  sndQueue : List IkcpSeg
  rcvQueue : List IkcpSeg
  sndBuf : List IkcpSeg
  rcvBuf : List IkcpSeg
  /-- Number and timestamp of each segment to be acknowledged. -/
  acklist : List (UInt32 × UInt32)
  fastresend : Int32
  fastlimit : Int32
  nocwnd : Int32
  stream : Int32
  deriving DecidableEq, Repr

namespace Ikcpcb

/-- `kcp->nrcv_que`. -/
def nrcvQue (kcp : Ikcpcb) : UInt32 := UInt32.ofNat kcp.rcvQueue.length

/-- `kcp->nsnd_que`. -/
def nsndQue (kcp : Ikcpcb) : UInt32 := UInt32.ofNat kcp.sndQueue.length

/-- `kcp->nsnd_buf`. -/
def nsndBuf (kcp : Ikcpcb) : UInt32 := UInt32.ofNat kcp.sndBuf.length

end Ikcpcb

/-- `IKCP_WND_SND`. -/
def ikcpWndSnd : UInt32 := 32

/-- `IKCP_WND_RCV`. -/
def ikcpWndRcv : UInt32 := 128

/-- `IKCP_MTU_DEF`. -/
def ikcpMtuDef : UInt32 := 1400

/-- `IKCP_RTO_NDL`, the least timeout in no-delay mode. -/
def ikcpRtoNdl : Int32 := 30

/-- `IKCP_RTO_MIN`. -/
def ikcpRtoMin : Int32 := 100

/-- `ikcp_create`, when both allocations succeed. -/
def ikcpCreate (conv : UInt32) : Ikcpcb where
  conv := conv
  mtu := ikcpMtuDef
  mss := ikcpMtuDef - UInt32.ofNat ikcpOverhead
  state := 0
  sndUna := 0
  sndNxt := 0
  rcvNxt := 0
  ssthresh := 2
  rxRttval := 0
  rxSrtt := 0
  rxRto := 200
  rxMinrto := ikcpRtoMin
  sndWnd := ikcpWndSnd
  rcvWnd := ikcpWndRcv
  rmtWnd := ikcpWndRcv
  cwnd := 0
  probe := 0
  current := 0
  interval := 100
  tsFlush := 100
  xmit := 0
  nodelay := 0
  updated := 0
  tsProbe := 0
  probeWait := 0
  deadLink := 20
  incr := 0
  sndQueue := []
  rcvQueue := []
  sndBuf := []
  rcvBuf := []
  acklist := []
  fastresend := 0
  fastlimit := 5
  nocwnd := 0
  stream := 0

/-- `ikcp_nodelay`. A negative argument leaves its setting alone. -/
def ikcpNodelay (kcp : Ikcpcb) (nodelay interval resend nc : Int32) : Ikcpcb :=
  let kcp :=
    if 0 ≤ nodelay then
      { kcp with
        nodelay := nodelay.toUInt32
        rxMinrto := if nodelay ≠ 0 then ikcpRtoNdl else ikcpRtoMin }
    else kcp
  let kcp :=
    if 0 ≤ interval then
      let interval := if 5000 < interval then 5000 else if interval < 10 then 10 else interval
      { kcp with interval := interval.toUInt32 }
    else kcp
  let kcp := if 0 ≤ resend then { kcp with fastresend := resend } else kcp
  if 0 ≤ nc then { kcp with nocwnd := nc } else kcp

/-- `ikcp_wndsize`. The receive window is never smaller than its default. -/
def ikcpWndsize (kcp : Ikcpcb) (sndwnd rcvwnd : Int32) : Ikcpcb :=
  let kcp := if 0 < sndwnd then { kcp with sndWnd := sndwnd.toUInt32 } else kcp
  if 0 < rcvwnd then { kcp with rcvWnd := imax rcvwnd.toUInt32 ikcpWndRcv } else kcp

/-- `ikcp_waitsnd`. -/
def ikcpWaitsnd (kcp : Ikcpcb) : ℤ := (kcp.nsndBuf + kcp.nsndQue).toInt32.toInt

/-- `ikcp_wnd_unused`. -/
def ikcpWndUnused (kcp : Ikcpcb) : UInt32 :=
  if kcp.nrcvQue < kcp.rcvWnd then kcp.rcvWnd - kcp.nrcvQue else 0

end OmniSocket
