/-
# Messages that do not fit the receiver's buffer

`tcp_recv` compares the length in the frame header with the size of the buffer
and reports an error when the message is longer. The other two transports have
no such check: `recvfrom` cuts a datagram to the buffer, and the error of
`ikcp_recv` is taken for an empty queue.
-/

import OmniSocket.Network

set_option autoImplicit false

namespace OmniSocket

/-- The reads of a script take their bytes off the front of a stream that
neither ends nor fails, with any number of interruptions. -/
def TcpRecv.Reads (host : Endian) (len : ℕ) : TcpRecv → List UInt8 → List ReadResult → Prop
  | _, _, [] => True
  | rx, stream, r :: script =>
    match r with
    | .count bytes =>
      bytes ≠ [] ∧ bytes.length ≤ rx.wanted ∧ bytes <+: stream ∧
        (rx.pass host len r).Reads host len (stream.drop bytes.length) script
    | .eintr => (rx.pass host len r).Reads host len stream script
    | .error => False

/-- A call whose next frame is too long for the buffer has not got to the end of
the header, or has failed. -/
def TcpRecv.Refuses (sender : Endian) (t0 : UInt64) (msg rest stream : List UInt8) :
    TcpRecv → Prop
  | header got => got.length < msgHeaderSize ∧ got ++ stream = tcpFrame sender t0 msg ++ rest
  | payload _ _ => False
  | returned value _ => value = omniErrParam

end OmniSocket
