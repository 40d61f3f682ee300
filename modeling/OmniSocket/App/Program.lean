/-
# What the programs have in common

`server_main.c` and `client_main.c` both take their options, open a file and a context,
start a receive thread that shares `rt` with `main`, and give everything back in the end.
The thread ends by leaving its loop, or at a cancellation point after `main` has called
`pthread_cancel`.
-/

import OmniSocket.App.RelayControl
import OmniSocket.Lib.Lifetime

set_option autoImplicit false

namespace OmniSocket

open Lib

/-- `parse_proto`. Whatever it does not know it takes for TCP. -/
def parseProto (s : Option String) : OmniProtocol :=
  match s with
  | none => .tcp
  | some s =>
    if s = "tcp" then .tcp
    else if s = "udp" then .udp
    else if s = "kcp" then .kcp
    else .tcp

/-- A number option as `main` keeps it in an `unsigned`: what `strtoul` returns, cut off. -/
def unsignedOption (size : SizeT) (text : List UInt8) : UInt32 :=
  match scanNumeral (text.dropWhile isSpace) with
  | some (n, _) => UInt32.ofNat (n.toULong size.modulus)
  | none => 0

/-- What a program opens and has to close again. -/
inductive ProgramThing
  /-- `out_fp` of the server, `fp` of the client. -/
  | file
  /-- `ctx`. -/
  | context
  /-- `rt`, a variable of `main` that the receive thread has a pointer to. -/
  | runtime
  /-- `recv_tid`, to be joined. -/
  | thread
  /-- `chunk` of the client. -/
  | chunk
  /-- `frame` in `send_app_message`. -/
  | frame
  deriving DecidableEq, Repr

/-- What has become of the receive thread, apart from its own control point. -/
inductive RecvThread
  /-- `pthread_create` has not returned 0. -/
  | absent
  /-- It has been started. -/
  | started
  /-- It has acted on a cancellation request. -/
  | cancelled
  deriving DecidableEq, Repr

end OmniSocket
