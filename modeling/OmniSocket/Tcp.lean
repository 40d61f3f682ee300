/-
# The TCP transport

A TCP connection is a byte stream, so `tcp_impl.c` puts a 16-byte header with
the payload length in front of every message. Sending and receiving go through
two loops, `tcp_read_n` and `tcp_write_n`, that call `read` or `write` until a
given number of bytes has been moved.

Each blocking function is the state it is in between two system calls together
with what one more system call makes of it. A caller that runs alone folds a
whole list of results over the start state; a caller that runs beside other
threads takes them one at a time.
-/

import OmniSocket.Common

set_option autoImplicit false

namespace OmniSocket

/-! ## System calls and the two loops -/

/-- What one `read` call returns: a positive count with its bytes, `0` with no
bytes, or a failure. -/
inductive ReadResult
  | count (bytes : List UInt8)
  | eintr
  | error
  deriving DecidableEq, Repr

/-- What one `write` call returns: how many bytes it took, or a failure. -/
inductive WriteResult
  | count (taken : ℕ)
  | eintr
  | error
  deriving DecidableEq, Repr

/-- A call of `tcp_read_n` or `tcp_write_n` between two system calls: inside
the loop, or returned. Both keep the bytes the loop has got to. -/
inductive TcpLoop
  | running (bytes : List UInt8)
  | returned (value : ℤ) (bytes : List UInt8)
  deriving DecidableEq, Repr

/-- The test `off < n` of `tcp_read_n`, where `got` fills `buf[0..off)`. -/
def tcpReadNTest (n : ℕ) (got : List UInt8) : TcpLoop :=
  if got.length < n then .running got else .returned got.length got

/-- One pass of the loop of `tcp_read_n`. -/
def tcpReadNPass (n : ℕ) (got : List UInt8) : ReadResult → TcpLoop
  | .count [] => .returned got.length got
  | .count bytes => tcpReadNTest n (got ++ bytes)
  | .eintr => .running got
  | .error => .returned (-1) got

/-- The test `off < n` of `tcp_write_n`, where `rest` is `buf[off..n)`. -/
def tcpWriteNTest (n : ℕ) (rest : List UInt8) : TcpLoop :=
  if rest = [] then .returned (ssize n) rest else .running rest

/-- One pass of the loop of `tcp_write_n`. -/
def tcpWriteNPass (n : ℕ) (rest : List UInt8) : WriteResult → TcpLoop
  | .count taken => tcpWriteNTest n (rest.drop taken)
  | .eintr => .running rest
  | .error => .returned (-1) rest

/-! ## `tcp_send` -/

/-- A call of `tcp_send` between two `write` calls. -/
inductive TcpSend
  /-- In the first `tcp_write_n`, with the rest of the header and the payload. -/
  | header (rest buf : List UInt8)
  /-- In the second `tcp_write_n`, with the payload length and its rest. -/
  | payload (len : ℕ) (rest : List UInt8)
  /-- Returned, with what was never written of the frame. -/
  | returned (value : ℤ) (unsent : List UInt8)
  deriving DecidableEq, Repr

/-- The frame of one message: header, then payload. The length field is the
length narrowed to 32 bits. -/
def tcpFrame (host : Endian) (t0 : UInt64) (buf : List UInt8) : List UInt8 :=
  headerBytes host msgTypeRaw (UInt32.ofNat buf.length) t0 ++ buf

/-- The check `n2 != (ssize_t)len` after the second `tcp_write_n`. -/
def tcpSendPayload (len : ℕ) : TcpLoop → TcpSend
  | .running rest => .payload len rest
  | .returned n2 rest =>
    if n2 ≠ ssize len then .returned omniErrIo rest else .returned (ssize len) rest

/-- The check `n1 != MSG_HEADER_SIZE` after the first `tcp_write_n`. -/
def tcpSendHeader (buf : List UInt8) : TcpLoop → TcpSend
  | .running rest => .header rest buf
  | .returned n1 rest =>
    if n1 ≠ msgHeaderSize then .returned omniErrIo (rest ++ buf)
    else tcpSendPayload buf.length (tcpWriteNTest buf.length buf)

/-- `tcp_send` up to its first `write`, at clock reading `t0`. -/
def tcpSendStart (host : Endian) (t0 : UInt64) (buf : List UInt8) : TcpSend :=
  tcpSendHeader buf (tcpWriteNTest msgHeaderSize
    (headerBytes host msgTypeRaw (UInt32.ofNat buf.length) t0))

/-- What one `write` result makes of a `tcp_send` call. -/
def TcpSend.pass : TcpSend → WriteResult → TcpSend
  | header rest buf, r => tcpSendHeader buf (tcpWriteNPass msgHeaderSize rest r)
  | payload len rest, r => tcpSendPayload len (tcpWriteNPass len rest r)
  | returned value unsent, _ => returned value unsent

/-- The bytes handed to the next `write`. -/
def TcpSend.offered : TcpSend → List UInt8
  | header rest _ => rest
  | payload _ rest => rest
  | returned _ _ => []

/-- The bytes of the frame that no `write` has taken yet. -/
def TcpSend.unsent : TcpSend → List UInt8
  | header rest buf => rest ++ buf
  | payload _ rest => rest
  | returned _ unsent => unsent

/-- What one `write` puts on the connection. -/
def TcpSend.accepted (s : TcpSend) : WriteResult → List UInt8
  | .count taken => s.offered.take taken
  | .eintr => []
  | .error => []

/-- What a `tcp_send` call puts on the connection. -/
def TcpSend.written (s : TcpSend) : List WriteResult → List UInt8
  | [] => []
  | r :: script => s.accepted r ++ (s.pass r).written script

/-- A `write` takes no more than it is offered. -/
def TcpSend.Allows (s : TcpSend) : List WriteResult → Prop
  | [] => True
  | r :: script =>
    (∀ taken, r = .count taken → taken ≤ s.offered.length) ∧ (s.pass r).Allows script

instance (s : TcpSend) (r : WriteResult) :
    Decidable (∀ taken, r = .count taken → taken ≤ s.offered.length) :=
  match r with
  | .count taken =>
    decidable_of_iff (taken ≤ s.offered.length)
      ⟨fun fits _ same => WriteResult.count.inj same ▸ fits, fun fits => fits taken rfl⟩
  | .eintr => isTrue fun _ same => nomatch same
  | .error => isTrue fun _ same => nomatch same

instance TcpSend.decidableAllows :
    (s : TcpSend) → (script : List WriteResult) → Decidable (s.Allows script)
  | _, [] => isTrue trivial
  | s, r :: script =>
    have := decidableAllows (s.pass r) script
    inferInstanceAs (Decidable (_ ∧ _))

/-- A whole `tcp_send` call over the results of its `write` calls. -/
def tcpSend (host : Endian) (t0 : UInt64) (buf : List UInt8) (script : List WriteResult) :
    TcpSend :=
  script.foldl TcpSend.pass (tcpSendStart host t0 buf)

/-! ## `tcp_recv` -/

/-- A call of `tcp_recv` between two `read` calls. -/
inductive TcpRecv
  /-- In the first `tcp_read_n`. -/
  | header (got : List UInt8)
  /-- In the second `tcp_read_n`, for `payload_len` bytes. -/
  | payload (payloadLen : UInt32) (got : List UInt8)
  /-- Returned, with what was stored in the caller's buffer. -/
  | returned (value : ℤ) (buf : List UInt8)
  deriving DecidableEq, Repr

/-- The check `n2 != (ssize_t)payload_len` after the second `tcp_read_n`. -/
def tcpRecvPayload (payloadLen : UInt32) : TcpLoop → TcpRecv
  | .running got => .payload payloadLen got
  | .returned n2 got =>
    if n2 ≠ payloadLen.toNat then .returned omniErrIo got
    else .returned payloadLen.toNat got

/-- The checks after the first `tcp_read_n`, for a buffer of `len` bytes. -/
def tcpRecvHeader (host : Endian) (len : ℕ) : TcpLoop → TcpRecv
  | .running got => .header got
  | .returned n1 got =>
    if n1 ≤ 0 then .returned n1 []
    else if n1 ≠ msgHeaderSize then .returned omniErrIo []
    else
      let payloadLen := (headerOfBytes host got).len
      if len < payloadLen.toNat then .returned omniErrParam []
      else tcpRecvPayload payloadLen (tcpReadNTest payloadLen.toNat [])

/-- `tcp_recv` up to its first `read`. -/
def tcpRecvStart : TcpRecv := .header []

/-- What one `read` result makes of a `tcp_recv` call. -/
def TcpRecv.pass (host : Endian) (len : ℕ) : TcpRecv → ReadResult → TcpRecv
  | header got, r => tcpRecvHeader host len (tcpReadNPass msgHeaderSize got r)
  | payload payloadLen got, r =>
    tcpRecvPayload payloadLen (tcpReadNPass payloadLen.toNat got r)
  | returned value buf, _ => returned value buf

/-- The number of bytes asked of the next `read`. -/
def TcpRecv.wanted : TcpRecv → ℕ
  | header got => msgHeaderSize - got.length
  | payload payloadLen got => payloadLen.toNat - got.length
  | returned _ _ => 0

/-- A whole `tcp_recv` call over the results of its `read` calls. -/
def tcpRecv (host : Endian) (len : ℕ) (script : List ReadResult) : TcpRecv :=
  script.foldl (TcpRecv.pass host len) tcpRecvStart

end OmniSocket
