/-
# Opening a TCP connection

`tcp_init` gives its context a connection: a server takes the first one that
comes, a client makes one. A client hands whatever `inet_addr` returns to
`connect`, so an address that is not one fails only if `connect` does.
-/

import OmniSocket.Datagram

set_option autoImplicit false

namespace OmniSocket

/-- `INADDR_NONE`, which is also the address 255.255.255.255. -/
def inaddrNone : UInt32 := 0xffffffff

/-- Results of the system calls and allocations of `tcp_init`, which does not ask
for `create`. -/
structure TcpEnv extends SocketEnv where
  listen : Bool
  accept : Bool
  connect : SockAddrIn → Bool

/-- No connection to 255.255.255.255 is made. -/
def TcpEnv.RefusesBroadcast (env : TcpEnv) : Prop :=
  ∀ port, env.connect ⟨port, inaddrNone⟩ = false

/-- `tcp_bind_and_listen`: whether a connection has come. -/
def tcpBindAndListen (env : TcpEnv) (bindIp : Option String) (bindPort : UInt16) : Bool :=
  env.socket && env.bind (env.address bindIp bindPort) && env.listen && env.accept

/-- `tcp_connect_peer`: whether the connection is made. -/
def tcpConnectPeer (env : TcpEnv) (peerIp : String) (peerPort : UInt16) : Bool :=
  env.socket && env.connect (env.address (some peerIp) peerPort)

/-- `tcp_init`: whether it returns a context. -/
def tcpInit (env : TcpEnv) (role : OmniRole) (bindIp : Option String) (bindPort : UInt16)
    (peerIp : Option String) (peerPort : UInt16) : Bool :=
  env.calloc &&
    match role with
    | .server => tcpBindAndListen env bindIp bindPort
    | .client =>
      match peerIp with
      | some ip => peerPort != 0 && tcpConnectPeer env ip peerPort
      | none => false

/-- A client whose peer has no address gets no context. -/
theorem tcpInit_of_inaddrNone {env : TcpEnv} (refuses : env.RefusesBroadcast) {peerIp : String}
    (unusable : env.inetAddr peerIp = inaddrNone) (bindIp : Option String)
    (bindPort peerPort : UInt16) :
    tcpInit env .client bindIp bindPort (some peerIp) peerPort = false := by
  have refused : tcpConnectPeer env peerIp peerPort = false := by
    rw [tcpConnectPeer, SocketEnv.address, unusable, refuses peerPort, Bool.and_false]
  rw [tcpInit, refused, Bool.and_false, Bool.and_false]

end OmniSocket
