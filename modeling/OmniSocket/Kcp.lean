/-
# The KCP transport

`kcp_impl.c` runs KCP over a datagram socket without a thread of its own. Every
`kcp_send` and `kcp_recv` drives the protocol once: it lets KCP update its
clock, which may flush, and feeds it at most one pending datagram.
-/

import OmniSocket.Datagram
import OmniSocket.Ikcp.Send
import OmniSocket.Ikcp.Input
import OmniSocket.Ikcp.Flush

set_option autoImplicit false

namespace OmniSocket

/-- `KcpContext`, without its descriptor. -/
structure KcpContext where
  peerAddr : SockAddrIn
  peerLen : ℕ
  kcp : Ikcpcb
  lastXmit : UInt32
  deriving DecidableEq, Repr

/-- The control block as `kcp_init` sets it up. -/
def kcpConfigure (conv : UInt32) : Ikcpcb :=
  ikcpWndsize (ikcpNodelay (ikcpCreate conv) 1 10 2 1) 128 128

/-- `kcp_init`. The conversation number is the server's own port. -/
def kcpInit (env : SocketEnv) (role : OmniRole) (bindIp : Option String) (bindPort : UInt16)
    (peerIp : Option String) (peerPort : UInt16) : Option KcpContext :=
  if env.opens bindIp bindPort && env.create then
    some
      { peerAddr := env.address peerIp peerPort
        peerLen := sockAddrSize
        kcp := kcpConfigure (if role = .server then bindPort else peerPort).toUInt32
        lastXmit := 0 }
  else none

/-- What a call does beside changing the context. -/
structure KcpEffects where
  /-- Datagrams handed to `sendto` by `kcp_output`. -/
  sent : List Outgoing
  /-- What is passed to `logger_on_kcp_retrans`, if it is called. -/
  retrans : Option UInt64
  deriving DecidableEq, Repr

namespace KcpEffects

/-- No effect. -/
def none : KcpEffects where
  sent := []
  retrans := Option.none

end KcpEffects

/-- The size of the buffer in `kcp_update_loop`. -/
def kcpRecvBufSize : ℕ := 1500

/-- `kcp_output`, for the datagrams of one flush. -/
def kcpOutput (ctx : KcpContext) (datagrams : List (List UInt8)) : List Outgoing :=
  datagrams.map fun bytes => { target := ctx.peerAddr, targetLen := ctx.peerLen, bytes := bytes }

/-- The branch `n > 0` of `kcp_update_loop`, over the result of `recvfrom`. The
result of `ikcp_input` is not used. -/
def kcpReceive (ctx : KcpContext) (incoming : Option Datagram) : KcpContext :=
  match incoming with
  | some d =>
    if 0 < (d.received kcpRecvBufSize).length then
      { ctx with
        peerAddr := d.source
        peerLen := d.sourceLen
        kcp := (ikcpInput ctx.kcp (d.received kcpRecvBufSize)).2 }
    else ctx
  | none => ctx

/-- `kcp_update_loop`, at clock reading `now` and with the datagram that is
pending, if one is. -/
def kcpUpdateLoop (ctx : KcpContext) (now : UInt64) (incoming : Option Datagram) :
    KcpEffects × KcpContext :=
  let (datagrams, kcp) := ikcpUpdate ctx.kcp now.toUInt32
  let sent := kcpOutput ctx datagrams
  let ctx := kcpReceive { ctx with kcp := kcp } incoming
  let xmit := ctx.kcp.xmit
  ({ sent := sent
     retrans := if ctx.lastXmit ≤ xmit then some (xmit - ctx.lastXmit).toUInt64 else none },
    { ctx with lastXmit := xmit })

/-- `kcp_send`: the result, the effects and the new context. -/
def kcpSend (ctx : KcpContext) (buf : List UInt8) (now : UInt64) (incoming : Option Datagram) :
    ℤ × KcpEffects × KcpContext :=
  let (rc, kcp) := ikcpSend ctx.kcp buf (intOfSize buf.length)
  if rc < 0 then (omniErrIo, .none, { ctx with kcp := kcp })
  else (ssize buf.length, kcpUpdateLoop { ctx with kcp := kcp } now incoming)

/-- `kcp_recv` with a buffer of `len` bytes: the result, the bytes stored in the
buffer, the effects and the new context. -/
def kcpRecv (ctx : KcpContext) (len : ℕ) (now : UInt64) (incoming : Option Datagram) :
    ℤ × List UInt8 × KcpEffects × KcpContext :=
  let (effects, ctx) := kcpUpdateLoop ctx now incoming
  let (n, data, kcp) := ikcpRecv ctx.kcp (intOfSize len)
  (if n < 0 then 0 else n, data, effects, { ctx with kcp := kcp })

/-! ## Sequences of calls on one endpoint -/

/-- A call of `kcp_send` or `kcp_recv` with the answers of the outside. -/
inductive KcpCall
  | send (buf : List UInt8) (now : UInt64) (incoming : Option Datagram)
  | recv (len : ℕ) (now : UInt64) (incoming : Option Datagram)
  deriving DecidableEq, Repr

/-- What a call returns and does. -/
structure KcpReply where
  value : ℤ
  stored : List UInt8
  effects : KcpEffects
  deriving DecidableEq, Repr

/-- One call: the reply and the new context. -/
def kcpCall (ctx : KcpContext) : KcpCall → KcpReply × KcpContext
  | .send buf now incoming =>
    let (n, effects, ctx) := kcpSend ctx buf now incoming
    (⟨n, [], effects⟩, ctx)
  | .recv len now incoming =>
    let (n, stored, effects, ctx) := kcpRecv ctx len now incoming
    (⟨n, stored, effects⟩, ctx)

/-- The replies of a sequence of calls. -/
def kcpCalls (ctx : KcpContext) : List KcpCall → List KcpReply
  | [] => []
  | call :: rest => (kcpCall ctx call).1 :: kcpCalls (kcpCall ctx call).2 rest

end OmniSocket
