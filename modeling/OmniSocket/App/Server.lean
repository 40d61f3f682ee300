/-
# The server's receive loop

The receive thread of `server_main.c` takes one message after another from
`omni_recv`, appends the payload of every `FILE_CHUNK` to the output file and
sets `transfer_done` at a `FILE_END`. The main thread may clear `running`
between any two of its actions.
-/

import OmniSocket.App.Message

set_option autoImplicit false

namespace OmniSocket

/-- `OmniProtocol`. -/
inductive OmniProtocol
  | tcp
  | udp
  | kcp
  deriving DecidableEq, Repr

/-- Where the receive thread stands in `recv_thread_main`. -/
inductive ServerPc
  /-- `while (atomic_load(&rt->running))`. -/
  | loopTest
  /-- Inside `omni_recv(rt->ctx, frame, sizeof(frame))`. -/
  | receiving
  /-- `fwrite(payload, 1, hdr.len, rt->out_fp)`. -/
  | writing (payload : List UInt8)
  /-- Past the loop. -/
  | stopped
  deriving DecidableEq, Repr

/-- `ServerRuntime`, with the bytes passed to `out_fp` so far. -/
structure Server where
  /-- Control point of the receive thread. -/
  pc : ServerPc
  /-- `rt->proto`. -/
  proto : OmniProtocol
  /-- `rt->running`. -/
  running : Bool
  /-- `rt->transfer_done`. -/
  transferDone : Bool
  /-- What `fwrite` has appended to `out_fp`. -/
  out : List UInt8
  /-- `rt->bytes_written`. -/
  bytesWritten : UInt64
  deriving DecidableEq, Repr

/-- What the environment decides for the server. -/
inductive ServerEvent
  /-- `running` is loaded at the head of the loop. -/
  | load
  /-- `omni_recv` returns `n` with the given bytes in `frame`. -/
  | recv (n : ℤ) (frame : List UInt8)
  /-- `fwrite` appends and returns `nw`. -/
  | fwrite (nw : ℕ)
  /-- The main thread stores 0 to `running`. -/
  | mainExit
  deriving DecidableEq, Repr

namespace Server

/-- The server when its receive thread starts. -/
def start (proto : OmniProtocol) : Server where
  pc := .loopTest
  proto := proto
  running := true
  transferDone := false
  out := []
  bytesWritten := 0

/-- Leaving the loop: `atomic_store(&rt->running, 0)`. -/
def leave (s : Server) : Server := { s with pc := .stopped, running := false }

/-- What the loop does with one message it has decoded. -/
def handle (s : Server) (hdr : MsgHeader) (payload : List UInt8) : Server :=
  if hdr.type = msgTypeFileChunk then { s with pc := .writing (payload.take hdr.len.toNat) }
  else if hdr.type = msgTypeFileEnd then { s with pc := .loopTest, transferDone := true }
  else { s with pc := .loopTest }

/-- What the loop does with one result of `omni_recv`. -/
def afterRecv (host : Endian) (size : SizeT) (s : Server) (n : ℤ) (frame : List UInt8) : Server :=
  if n < 0 then s.leave
  else if n = 0 then if s.proto = .tcp then s.leave else { s with pc := .loopTest }
  else
    match decodeAppMessage host size (frame.take n.toNat) with
    | .error _ => { s with pc := .loopTest }
    | .ok (hdr, payload) => s.handle hdr payload

/-- What the loop does once `fwrite` has appended `nw` bytes of `payload`. -/
def afterWrite (s : Server) (payload : List UInt8) (nw : ℕ) : Server :=
  if nw ≠ payload.length then { s.leave with out := s.out ++ payload.take nw }
  else
    { s with
      pc := .loopTest
      out := s.out ++ payload.take nw
      bytesWritten := s.bytesWritten + UInt64.ofNat nw }

/-- One action of the receive thread, or the main thread clearing `running`.
The guard on `fwrite` says that it appends no more than it is given. -/
def step (host : Endian) (size : SizeT) (s : Server) : ServerEvent → Option Server
  | .load =>
    match s.pc with
    | .loopTest => some (if s.running then { s with pc := .receiving } else s.leave)
    | _ => none
  | .recv n frame =>
    match s.pc with
    | .receiving => some (s.afterRecv host size n frame)
    | _ => none
  | .fwrite nw =>
    match s.pc with
    | .writing payload => if nw ≤ payload.length then some (s.afterWrite payload nw) else none
    | _ => none
  | .mainExit => some { s with running := false }

/-! ## What an action leaves alone -/

section Step

variable {host : Endian} {size : SizeT} {s t : Server} {event : ServerEvent}

/-- No action of the server changes its protocol. -/
theorem proto_step (step : s.step host size event = some t) : t.proto = s.proto := by
  cases event with
  | load =>
    simp only [Server.step] at step
    split at step
    case h_1 =>
      obtain rfl := Option.some.inj step
      cases s.running <;> rfl
    case h_2 => exact absurd step (by simp)
  | recv n frame =>
    simp only [Server.step] at step
    split at step
    case h_1 =>
      obtain rfl := Option.some.inj step
      unfold afterRecv handle leave
      split_ifs <;> first | rfl | (split <;> first | rfl | (split_ifs <;> rfl))
    case h_2 => exact absurd step (by simp)
  | fwrite nw =>
    simp only [Server.step] at step
    split at step
    case h_1 =>
      split at step
      case isTrue =>
        obtain rfl := Option.some.inj step
        unfold afterWrite leave
        split_ifs <;> rfl
      case isFalse => exact absurd step (by simp)
    case h_2 => exact absurd step (by simp)
  | mainExit => exact Option.some.inj step ▸ rfl

/-- A loop that has ended does nothing more; only the main thread is left. -/
theorem stopped_step_eq (stopped : s.pc = .stopped) (step : s.step host size event = some t) :
    event = .mainExit ∧ t.pc = .stopped ∧ t.out = s.out ∧ t.bytesWritten = s.bytesWritten ∧
      t.transferDone = s.transferDone := by
  cases event <;> simp only [Server.step, stopped, reduceCtorEq] at step
  case mainExit =>
    obtain rfl := Option.some.inj step
    exact ⟨rfl, rfl, rfl, rfl, rfl⟩

end Step

end Server

end OmniSocket
