/-
# The UDP transport

One datagram is one message. The peer of a context is whoever it heard from
last.
-/

import OmniSocket.Datagram

set_option autoImplicit false

namespace OmniSocket

/-- `UdpContext`, without its descriptor. -/
structure UdpContext where
  peerAddr : SockAddrIn
  peerLen : ℕ
  deriving DecidableEq, Repr

/-- `udp_init`. -/
def udpInit (env : SocketEnv) (bindIp : Option String) (bindPort : UInt16)
    (peerIp : Option String) (peerPort : UInt16) : Option UdpContext :=
  if env.opens bindIp bindPort then
    some { peerAddr := env.address peerIp peerPort, peerLen := sockAddrSize }
  else none

/-- What `sendto` returns, if it does not fail. -/
abbrev SendtoResult := Option ℕ

/-- `udp_send`: the result, and the datagram handed to `sendto`. -/
def udpSend (ctx : UdpContext) (buf : List UInt8) (r : SendtoResult) : ℤ × Outgoing :=
  (match r with
    | some n => n
    | none => omniErrIo,
    { target := ctx.peerAddr, targetLen := ctx.peerLen, bytes := buf })

/-- What the blocking `recvfrom` of `udp_recv` returns. -/
inductive RecvfromResult
  | datagram (d : Datagram)
  | eintr
  | error
  deriving DecidableEq, Repr

/-- `udp_recv` with a buffer of `len` bytes: the result, the bytes stored in the
buffer and the new context. -/
def udpRecv (ctx : UdpContext) (len : ℕ) : RecvfromResult → ℤ × List UInt8 × UdpContext
  | .datagram d =>
    ((d.received len).length, d.received len,
      { ctx with peerAddr := d.source, peerLen := d.sourceLen })
  | .eintr => (0, [], ctx)
  | .error => (omniErrIo, [], ctx)

end OmniSocket
