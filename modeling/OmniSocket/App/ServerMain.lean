/-
# The server as a whole

`main` of `server_main.c` from its options to its return, with the receive thread beside
it. At a terminal `main` reads commands until something ends the loop; otherwise it waits
for `transfer_done`. Then it clears `running`, cancels and joins the thread, and closes
what it has opened.
-/

import OmniSocket.App.Program
import OmniSocket.App.Server
import OmniSocket.App.Console

set_option autoImplicit false

namespace OmniSocket

open Lib

/-- The options of the server, each if it was given. -/
structure ServerOptions where
  /-- `-p`. -/
  proto : Option String
  /-- `-P`. -/
  listenPort : Option (List UInt8)
  /-- `-o`. -/
  outputPath : Option String
  deriving DecidableEq, Repr

/-- `listen_port <= 0 || !output_path` does not hold. -/
def ServerOptions.accepted (size : SizeT) (options : ServerOptions) : Bool :=
  decide (0 < portOption size options.listenPort) && options.outputPath.isSome

/-- Where `main` stands. -/
inductive ServerMainPc
  /-- `fopen(output_path, "wb")`. -/
  | openFile
  /-- `omni_init(OMNI_ROLE_SERVER, proto, ...)`. -/
  | init
  /-- `fclose(out_fp)` after `omni_init` has failed. -/
  | closeUnused
  /-- `pthread_create(&recv_tid, NULL, recv_thread_main, &rt)`. -/
  | create
  /-- `omni_close(ctx)` after `pthread_create` has failed. -/
  | abortContext
  /-- `fclose(out_fp)` behind it. -/
  | abortFile
  /-- In the loop that reads commands. -/
  | console
  /-- `while (atomic_load(&rt.running) && ...)`. -/
  | waitRunning
  /-- `while (... && !atomic_load(&rt.transfer_done))`. -/
  | waitDone
  /-- `usleep(100 * 1000)`. -/
  | sleeping
  /-- `atomic_store(&rt.running, 0)`. -/
  | stop
  /-- `pthread_cancel(recv_tid)`. -/
  | cancel
  /-- `pthread_join(recv_tid, NULL)`. -/
  | join
  /-- `omni_close(ctx)`. -/
  | closeContext
  /-- `fclose(out_fp)`. -/
  | closeFile
  /-- `main` has returned. -/
  | returned (status : ℤ)
  deriving DecidableEq, Repr

/-- `main` has returned. -/
def ServerMainPc.isReturned : ServerMainPc → Bool
  | .returned _ => true
  | _ => false

/-- The server process and its output file. -/
structure ServerMain where
  /-- Control point of `main`. -/
  pc : ServerMainPc
  /-- `rt`, with the control point of the receive thread. -/
  rt : Server
  /-- Whether there is a receive thread. -/
  thread : RecvThread
  /-- `isatty(STDIN_FILENO)`, as it was found. -/
  interactive : Bool
  /-- The command loop. Its `running` is that of `rt`. -/
  console : Console
  /-- What of `out_fp` is in the file, and no longer in its buffer only. -/
  disk : List UInt8
  /-- An `fflush` or `fclose` has failed. Its result is not looked at. -/
  flushFailed : Bool
  deriving DecidableEq, Repr

/-- What the environment decides for the server process. -/
inductive ServerMainLabel
  /-- `fopen` succeeds or not. -/
  | fopen (ok : Bool)
  /-- `omni_init` succeeds or not. -/
  | omniInit (ok : Bool)
  /-- `pthread_create` succeeds or not, and `isatty` answers. -/
  | create (ok interactive : Bool)
  /-- An action of the command loop. -/
  | console (event : ConsoleEvent)
  /-- Any other action of `main`. -/
  | main
  /-- `fclose` returns; what was buffered has reached the file or not. -/
  | fclose (flushed : Bool)
  /-- An action of the receive thread. If it calls `fflush`, what was buffered has reached
  the file or not. -/
  | thread (event : ServerEvent) (flushed : Bool)
  /-- The receive thread acts on the cancellation request, inside `fwrite` after `nw` bytes. -/
  | cancelled (nw : ℕ)
  /-- `n` more bytes of `out_fp` reach the file. -/
  | writeBack (n : ℕ)
  deriving DecidableEq, Repr

/-- What `fwrite` has been called with and may not have appended yet. -/
def Server.unwritten (s : Server) : List UInt8 :=
  match s.pc with
  | .writing payload => payload
  | _ => []

/-- The receive thread has received a `FILE_END`: `fflush(rt->out_fp)`. -/
def Server.flushes (host : Endian) (size : SizeT) : ServerEvent → Bool
  | .recv n frame =>
    if n ≤ 0 then false
    else
      match decodeAppMessage host size (frame.take n.toNat) with
      | .error _ => false
      | .ok (hdr, _) => decide (hdr.type = msgTypeFileEnd)
  | _ => false

namespace ServerMain

/-- The process when `main` has read its options. -/
def start (size : SizeT) (options : ServerOptions) (input : List UInt8) : ServerMain where
  pc := if options.accepted size then .openFile else .returned 1
  rt := .start (parseProto options.proto)
  thread := .absent
  interactive := false
  console := .start input
  disk := []
  flushFailed := false

/-- The receive thread has ended. -/
def ThreadOver (s : ServerMain) : Prop := s.thread = .cancelled ∨ s.rt.pc = .stopped

instance (s : ServerMain) : Decidable s.ThreadOver :=
  inferInstanceAs (Decidable (s.thread = .cancelled ∨ s.rt.pc = .stopped))

/-- What a call that empties the buffer of `out_fp` does to the file. -/
def flush (s : ServerMain) (flushed : Bool) : ServerMain :=
  if flushed then { s with disk := s.rt.out } else { s with flushFailed := true }

/-- The actions of `main` that nothing is decided in. -/
def mainStep (s : ServerMain) : Option ServerMain :=
  match s.pc with
  | .abortContext => some { s with pc := .abortFile }
  | .waitRunning => some { s with pc := if s.rt.running then .waitDone else .stop }
  | .waitDone => some { s with pc := if s.rt.transferDone then .stop else .sleeping }
  | .sleeping => some { s with pc := .waitRunning }
  | .stop => some { s with pc := .cancel, rt := { s.rt with running := false } }
  | .cancel => some { s with pc := .join }
  | .join => if s.ThreadOver then some { s with pc := .closeContext } else none
  | .closeContext => some { s with pc := .closeFile }
  | _ => none

/-- One action of the command loop. -/
def consoleStep (host : Endian) (s : ServerMain) (event : ConsoleEvent) : Option ServerMain :=
  if s.pc = .console ∧ event ≠ .recvThreadExit then
    (Console.step host { s.console with running := s.rt.running } event).map fun c =>
      { s with console := c, pc := if c.pc = .done then .stop else .console }
  else none

/-- One action of the receive thread. -/
def threadStep (host : Endian) (size : SizeT) (s : ServerMain) (event : ServerEvent)
    (flushed : Bool) : Option ServerMain :=
  if s.thread = .started ∧ event ≠ .mainExit then
    (s.rt.step host size event).map fun rt =>
      if Server.flushes host size event then { s with rt := rt }.flush flushed
      else { s with rt := rt }
  else none

/-- One action of the process. -/
def step (host : Endian) (size : SizeT) (s : ServerMain) : ServerMainLabel → Option ServerMain
  | .fopen ok =>
    match s.pc with
    | .openFile => some { s with pc := if ok then .init else .returned 1 }
    | _ => none
  | .omniInit ok =>
    match s.pc with
    | .init => some { s with pc := if ok then .create else .closeUnused }
    | _ => none
  | .create ok interactive =>
    match s.pc with
    | .create =>
      some (if ok then
          { s with
            pc := if interactive then .console else .waitRunning
            thread := .started
            interactive := interactive }
        else { s with pc := .abortContext })
    | _ => none
  | .console event => s.consoleStep host event
  | .main => s.mainStep
  | .fclose flushed =>
    match s.pc with
    | .closeUnused | .abortFile => some { s.flush flushed with pc := .returned 1 }
    | .closeFile => some { s.flush flushed with pc := .returned 0 }
    | _ => none
  | .thread event flushed => s.threadStep host size event flushed
  | .cancelled nw =>
    if s.thread = .started ∧ s.pc = .join ∧ s.rt.pc ≠ .stopped ∧ nw ≤ s.rt.unwritten.length then
      some { s with
        thread := .cancelled
        rt := { s.rt with out := s.rt.out ++ s.rt.unwritten.take nw } }
    else none
  | .writeBack n =>
    if s.thread ≠ .absent ∧ s.pc.isReturned = false ∧ s.disk.length + n ≤ s.rt.out.length then
      some { s with disk := s.rt.out.take (s.disk.length + n) }
    else none

/-- What an action does to the things of the process. -/
def tells (host : Endian) (size : SizeT) (s : ServerMain) :
    ServerMainLabel → List (Use ProgramThing)
  | .fopen ok => if ok then [.opens .file] else []
  | .omniInit ok => if ok then [.opens .context, .opens .runtime] else []
  | .create ok _ => if ok then [.opens .thread] else []
  | .console .load => [.uses .runtime]
  | .console (.malloc true _) => [.opens .frame]
  | .console (.sent _) => [.uses .context, .uses .frame, .closes .frame]
  | .console _ => []
  | .main =>
    match s.pc with
    | .abortContext | .closeContext => [.closes .context]
    | .waitRunning | .waitDone | .stop => [.uses .runtime]
    | .cancel => [.uses .thread]
    | .join => [.closes .thread]
    | _ => []
  | .fclose _ =>
    match s.pc with
    | .closeUnused => [.closes .file]
    | _ => [.closes .file, .closes .runtime]
  | .thread event _ =>
    match event with
    | .load => [.uses .runtime, .uses .context]
    | .recv _ _ =>
      [.uses .runtime, .uses .context] ++
        if Server.flushes host size event then [.uses .file] else []
    | _ => [.uses .runtime, .uses .file]
  | .cancelled _ => [.uses .runtime, .uses .context, .uses .file]
  | .writeBack _ => [.uses .file]

/-- The machine of the process. -/
def machine (host : Endian) (size : SizeT) : Machine ServerMain ServerMainLabel where
  step := step host size

end ServerMain

end OmniSocket
