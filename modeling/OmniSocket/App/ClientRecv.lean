/-
# The client's receive thread

The receive thread of `client_main.c` takes one message after another from
`omni_recv` and prints every `COMMAND`. A zero it takes for data that is not
there yet, whatever the protocol.
-/

import OmniSocket.AppCodec
import OmniSocket.Lib.CString

set_option autoImplicit false

namespace OmniSocket

open Lib

/-- Where the receive thread stands in `recv_thread_main`. -/
inductive ClientRecvPc
  /-- `while (atomic_load(&rt->running))`. -/
  | loopTest
  /-- Inside `omni_recv(rt->ctx, frame, sizeof(frame))`. -/
  | receiving
  /-- Past the loop. -/
  | stopped
  deriving DecidableEq, Repr

/-- The receive thread and the flag it shares. -/
structure ClientRecv where
  /-- Control point of the receive thread. -/
  pc : ClientRecvPc
  /-- `rt->running`. -/
  running : Bool
  /-- What was printed as `[server-cmd]`, one line for each command. -/
  printed : List (List UInt8)
  deriving DecidableEq, Repr

/-- What the environment decides for the receive thread. -/
inductive ClientRecvEvent
  /-- `running` is loaded at the head of the loop. -/
  | load
  /-- `omni_recv` returns `n` with the given bytes in `frame`. -/
  | recv (n : ℤ) (frame : List UInt8)
  /-- The main thread stores 0 to `running`. -/
  | mainExit
  deriving DecidableEq, Repr

/-- What `printf` makes of a command: what was copied into `cmd`, with the NUL put behind
it. -/
def clientCommandText (hdr : MsgHeader) (payload : List UInt8) : List UInt8 :=
  (CString.ofMemory (payload.take (clientCommandLen hdr) ++ [0])).bytes

namespace ClientRecv

/-- The thread when it starts. -/
def start : ClientRecv where
  pc := .loopTest
  running := true
  printed := []

/-- Leaving the loop: `atomic_store(&rt->running, 0)`. -/
def leave (s : ClientRecv) : ClientRecv := { s with pc := .stopped, running := false }

/-- What the loop does with one message it has decoded. -/
def handle (s : ClientRecv) (hdr : MsgHeader) (payload : List UInt8) : ClientRecv :=
  if hdr.type = msgTypeCommand then
    { s with pc := .loopTest, printed := s.printed ++ [clientCommandText hdr payload] }
  else { s with pc := .loopTest }

/-- What the loop does with one result of `omni_recv`. -/
def afterRecv (host : Endian) (size : SizeT) (s : ClientRecv) (n : ℤ) (frame : List UInt8) :
    ClientRecv :=
  if n < 0 then s.leave
  else if n = 0 then { s with pc := .loopTest }
  else
    match clientDecodeAppMessage host size (frame.take n.toNat) with
    | .error _ => { s with pc := .loopTest }
    | .ok (hdr, payload) => s.handle hdr payload

/-- One action of the receive thread, or the main thread clearing `running`. -/
def step (host : Endian) (size : SizeT) (s : ClientRecv) : ClientRecvEvent → Option ClientRecv
  | .load =>
    match s.pc with
    | .loopTest => some (if s.running then { s with pc := .receiving } else s.leave)
    | _ => none
  | .recv n frame =>
    match s.pc with
    | .receiving => some (s.afterRecv host size n frame)
    | _ => none
  | .mainExit => some { s with running := false }

/-- A result that is not negative leads back to the head of the loop. -/
theorem afterRecv_of_nonneg (host : Endian) (size : SizeT) (s : ClientRecv) {n : ℤ}
    (frame : List UInt8) (nonneg : ¬ n < 0) :
    (s.afterRecv host size n frame).pc = .loopTest ∧
      (s.afterRecv host size n frame).running = s.running := by
  rw [afterRecv, if_neg nonneg]
  split
  · exact ⟨rfl, rfl⟩
  · split
    · exact ⟨rfl, rfl⟩
    · unfold handle
      split <;> exact ⟨rfl, rfl⟩

end ClientRecv

end OmniSocket
