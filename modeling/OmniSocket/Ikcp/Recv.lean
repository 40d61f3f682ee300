/-
# Receiving segments and messages

`ikcp_parse_data` sorts an arriving segment into the receive buffer, and moves
segments from there to the receive queue as long as they are the next ones and
the queue has room. `ikcp_recv` takes one whole message off the queue.
-/

import OmniSocket.Ikcp.Control
import OmniSocket.Lib.Fragment

set_option autoImplicit false

namespace OmniSocket

open Lib

/-- The loop that moves available segments from `rcv_buf` to `rcv_queue`. -/
def ikcpMoveLoop (rcvWnd : UInt32) :
    List IkcpSeg → List IkcpSeg → UInt32 → List IkcpSeg × List IkcpSeg × UInt32
  | [], queue, rcvNxt => ([], queue, rcvNxt)
  | seg :: buf, queue, rcvNxt =>
    if seg.sn = rcvNxt ∧ UInt32.ofNat queue.length < rcvWnd then
      ikcpMoveLoop rcvWnd buf (queue ++ [seg]) (rcvNxt + 1)
    else (seg :: buf, queue, rcvNxt)

/-- Both copies of that loop, in `ikcp_parse_data` and in `ikcp_recv`. -/
def ikcpMove (kcp : Ikcpcb) : Ikcpcb :=
  let (buf, queue, rcvNxt) := ikcpMoveLoop kcp.rcvWnd kcp.rcvBuf kcp.rcvQueue kcp.rcvNxt
  { kcp with rcvBuf := buf, rcvQueue := queue, rcvNxt := rcvNxt }

/-- The search of `ikcp_parse_data` for the place of a segment, over the receive
buffer from its end. A segment that is there already is dropped. -/
def ikcpInsert (newseg : IkcpSeg) : List IkcpSeg → List IkcpSeg
  | [] => [newseg]
  | seg :: before =>
    if seg.sn = newseg.sn then seg :: before
    else if 0 < itimediff newseg.sn seg.sn then newseg :: seg :: before
    else seg :: ikcpInsert newseg before

/-- `ikcp_parse_data`. -/
def ikcpParseData (kcp : Ikcpcb) (newseg : IkcpSeg) : Ikcpcb :=
  if 0 ≤ itimediff newseg.sn (kcp.rcvNxt + kcp.rcvWnd) ∨
      itimediff newseg.sn kcp.rcvNxt < 0 then kcp
  else ikcpMove { kcp with rcvBuf := (ikcpInsert newseg kcp.rcvBuf.reverse).reverse }

/-- The message at the head of a receive queue, and the segments behind it. -/
def ikcpMessage (queue : List IkcpSeg) : List IkcpSeg × List IkcpSeg :=
  splitMessage (fun seg => decide (seg.frg = 0)) queue

/-- The bytes of a sequence of segments. -/
def ikcpData (segs : List IkcpSeg) : List UInt8 := segs.flatMap IkcpSeg.data

/-- `ikcp_peeksize`. -/
def ikcpPeeksize (kcp : Ikcpcb) : ℤ :=
  match kcp.rcvQueue with
  | [] => -1
  | seg :: _ =>
    if seg.frg = 0 then seg.data.length
    else if kcp.nrcvQue < seg.frg + 1 then -1
    else (ikcpData (ikcpMessage kcp.rcvQueue).1).length

/-- `IKCP_ASK_SEND`. -/
def ikcpAskSend : UInt32 := 1

/-- `IKCP_ASK_TELL`. -/
def ikcpAskTell : UInt32 := 2

/-- `ikcp_recv`: the result, the bytes stored in the caller's buffer and the new
state. A negative length asks for a look at the message without taking it; the
length negated is an `int` again. -/
def ikcpRecv (kcp : Ikcpcb) (len : ℤ) : ℤ × List UInt8 × Ikcpcb :=
  let ispeek := decide (len < 0)
  if kcp.rcvQueue = [] then (-1, [], kcp)
  else
    let len := if len < 0 then (-Int32.ofInt len).toInt else len
    let peeksize := ikcpPeeksize kcp
    if peeksize < 0 then (-2, [], kcp)
    else if len < peeksize then (-3, [], kcp)
    else
      let recover := decide (kcp.rcvWnd ≤ kcp.nrcvQue)
      let data := ikcpData (ikcpMessage kcp.rcvQueue).1
      let kcp := if ispeek then kcp else { kcp with rcvQueue := (ikcpMessage kcp.rcvQueue).2 }
      let kcp := ikcpMove kcp
      let kcp :=
        if kcp.nrcvQue < kcp.rcvWnd ∧ recover then { kcp with probe := kcp.probe ||| ikcpAskTell }
        else kcp
      (data.length, data, kcp)

end OmniSocket
