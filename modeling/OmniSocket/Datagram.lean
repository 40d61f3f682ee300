/-
# Datagram sockets

What the UDP and the KCP transport have in common: addresses, creating a bound
socket with a default peer, and `recvfrom`, which cuts a datagram to the size of
the buffer and reports where it came from.
-/

import OmniSocket.Common
import OmniSocket.Lib.Serial

set_option autoImplicit false

namespace OmniSocket

/-- `sockaddr_in` of family `AF_INET`, with the port in host order. -/
structure SockAddrIn where
  port : UInt16
  addr : UInt32
  deriving DecidableEq, Repr

/-- `INADDR_ANY`. -/
def inaddrAny : UInt32 := 0

/-- `sizeof(struct sockaddr_in)`. -/
def sockAddrSize : ℕ := 16

/-- A datagram that reaches a socket, with its source as `recvfrom` reports it. -/
structure Datagram where
  source : SockAddrIn
  /-- `fromlen` after the call. -/
  sourceLen : ℕ
  bytes : List UInt8
  deriving DecidableEq, Repr

/-- A datagram handed to `sendto`. -/
structure Outgoing where
  target : SockAddrIn
  targetLen : ℕ
  bytes : List UInt8
  deriving DecidableEq, Repr

/-- The bytes `recvfrom` stores in a buffer of `size` bytes. What does not fit is
lost. -/
def Datagram.received (size : ℕ) (d : Datagram) : List UInt8 := d.bytes.take size

/-- `OmniRole`. -/
inductive OmniRole
  | client
  | server
  deriving DecidableEq, Repr

/-- Results of the system calls and allocations of `udp_init` and `kcp_init`. -/
structure SocketEnv where
  /-- `inet_addr`. -/
  inetAddr : String → UInt32
  calloc : Bool
  socket : Bool
  bind : SockAddrIn → Bool
  /-- Both allocations of `ikcp_create`. -/
  create : Bool

/-- The address a socket is bound to, or the peer it sends to. -/
def SocketEnv.address (env : SocketEnv) (ip : Option String) (port : UInt16) : SockAddrIn where
  port := port
  addr :=
    match ip with
    | some ip => env.inetAddr ip
    | none => inaddrAny

/-- The calls of `udp_init` and `kcp_init` up to the socket being ready. -/
def SocketEnv.opens (env : SocketEnv) (bindIp : Option String) (bindPort : UInt16) : Bool :=
  env.calloc && env.socket && (bindPort == 0 || env.bind (env.address bindIp bindPort))

/-- A `size_t` passed where an `int` is expected. -/
def intOfSize (len : ℕ) : ℤ := (UInt32.ofNat len).toInt32.toInt

/-- The conversion keeps the low 32 bits, as a signed number. -/
theorem intOfSize_eq (len : ℕ) : intOfSize len =
    if len % 2 ^ 32 < 2 ^ 31 then ((len % 2 ^ 32 : ℕ) : ℤ)
    else ((len % 2 ^ 32 : ℕ) : ℤ) - 2 ^ 32 := by
  have wrapped : intOfSize len = ((UInt32.ofNat len).toNat : ℤ).bmod (2 ^ 32) :=
    BitVec.toInt_eq_toNat_bmod _
  rw [wrapped, UInt32.toNat_ofNat']
  split
  case isTrue low => exact Int.bmod_eq_of_le (by omega) (by omega)
  case isFalse high =>
    have shifted := Int.bmod_eq_of_le (n := ((len % 2 ^ 32 : ℕ) : ℤ) - 2 ^ 32) (m := 2 ^ 32)
      (by omega) (by omega)
    rw [← shifted]
    exact (Int.sub_bmod_right _ _).symm

theorem intOfSize_of_lt {len : ℕ} (small : len < 2 ^ 31) : intOfSize len = len :=
  Lib.toInt_toInt32_ofNat small

end OmniSocket
