/-
# The common interface

`network.c` hands every call to the transport its context was created for. What
the outside answers during a call is a value of its own type for each
transport, so a call is a function of the context, its arguments and the
answers.
-/

import OmniSocket.Tcp
import OmniSocket.Udp
import OmniSocket.Kcp
import OmniSocket.App.Server

set_option autoImplicit false

namespace OmniSocket

/-- `OmniContext`, with the private context of its transport. A TCP context is
its connection; `host` is the byte order of the machine it is on. -/
inductive OmniContext
  | tcp (host : Endian)
  | udp (ctx : UdpContext)
  | kcp (ctx : KcpContext)
  deriving DecidableEq, Repr

/-- `ctx->proto`. -/
def OmniContext.proto : OmniContext → OmniProtocol
  | tcp _ => .tcp
  | udp _ => .udp
  | kcp _ => .kcp

/-- What the outside answers during one `omni_init`. For TCP that is whether the
connection is made, by `connect` or by `accept`. -/
inductive InitAnswer
  | tcp (host : Endian) (opened : Bool)
  | udp (env : SocketEnv)
  | kcp (env : SocketEnv)

/-- `omni_init`: a context, or `NULL`. -/
def omniInit (role : OmniRole) (proto : OmniProtocol) (bindIp : Option String) (bindPort : UInt16)
    (peerIp : Option String) (peerPort : UInt16) (answer : InitAnswer) : Option OmniContext :=
  match proto, answer with
  | .tcp, .tcp host opened => if opened then some (.tcp host) else none
  | .udp, .udp env => (udpInit env bindIp bindPort peerIp peerPort).map .udp
  | .kcp, .kcp env => (kcpInit env role bindIp bindPort peerIp peerPort).map .kcp
  | _, _ => none

/-- What the outside answers during one `omni_send`. -/
inductive SendAnswer
  | tcp (t0 : UInt64) (script : List WriteResult)
  | udp (r : SendtoResult)
  | kcp (now : UInt64) (incoming : Option Datagram)
  deriving DecidableEq, Repr

/-- An answer a context can get: one for its transport, in which no `write` takes
more than it is offered. -/
def SendAnswer.Fits (c : OmniContext) (buf : List UInt8) (answer : SendAnswer) : Prop :=
  match c, answer with
  | .tcp host, .tcp t0 script => (tcpSendStart host t0 buf).Allows script
  | .udp _, .udp _ => True
  | .kcp _, .kcp _ _ => True
  | _, _ => False

instance (c : OmniContext) (buf : List UInt8) (answer : SendAnswer) :
    Decidable (answer.Fits c buf) := by
  unfold SendAnswer.Fits
  split <;> infer_instance

/-- What the outside answers during one `omni_recv`. -/
inductive RecvAnswer
  | tcp (script : List ReadResult)
  | udp (r : RecvfromResult)
  | kcp (now : UInt64) (incoming : Option Datagram)
  deriving DecidableEq, Repr

/-- `omni_send`: the result and the new context, once the call returns. -/
def omniSend (c : OmniContext) (buf : List UInt8) (answer : SendAnswer) :
    Option (ℤ × OmniContext) :=
  match c, answer with
  | .tcp host, .tcp t0 script =>
    match tcpSend host t0 buf script with
    | .returned value _ => some (value, c)
    | _ => none
  | .udp ctx, .udp r => some ((udpSend ctx buf r).1, c)
  | .kcp ctx, .kcp now incoming =>
    let (n, _, ctx) := kcpSend ctx buf now incoming
    some (n, .kcp ctx)
  | _, _ => none

/-- `omni_recv` with a buffer of `len` bytes: the result, the bytes stored in the
buffer and the new context, once the call returns. -/
def omniRecv (c : OmniContext) (len : ℕ) (answer : RecvAnswer) :
    Option (ℤ × List UInt8 × OmniContext) :=
  match c, answer with
  | .tcp host, .tcp script =>
    match tcpRecv host len script with
    | .returned value got => some (value, got, c)
    | _ => none
  | .udp ctx, .udp r =>
    let (n, got, ctx) := udpRecv ctx len r
    some (n, got, .udp ctx)
  | .kcp ctx, .kcp now incoming =>
    let (n, got, _, ctx) := kcpRecv ctx len now incoming
    some (n, got, .kcp ctx)
  | _, _ => none

end OmniSocket
