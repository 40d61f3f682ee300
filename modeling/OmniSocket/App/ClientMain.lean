/-
# The client as a whole

`main` of `client_main.c` from its options to its return, with the receive thread beside
it and signals at any time. Behind the send loop `main` frees the chunk, closes the file,
and waits for a number of seconds or for a signal; then it clears `running`, cancels and
joins the thread, and closes the context.
-/

import OmniSocket.App.Program
import OmniSocket.App.Client
import OmniSocket.App.ClientRecv

set_option autoImplicit false

namespace OmniSocket

open Lib

/-- The options of the client, each if it was given. -/
structure ClientOptions where
  /-- `-p`. -/
  proto : Option String
  /-- `-H`. -/
  serverIp : Option String
  /-- `-P`. -/
  serverPort : Option (List UInt8)
  /-- `-f`. -/
  filePath : Option String
  /-- `-m`. -/
  chunk : Option (List UInt8)
  /-- `-w`. -/
  wait : Option (List UInt8)
  deriving DecidableEq, Repr

/-- `OMNI_DEFAULT_MTU`. -/
def omniDefaultMtu : UInt32 := 1400

namespace ClientOptions

/-- `chunk_size`. -/
def chunkSize (size : SizeT) (options : ClientOptions) : UInt32 :=
  match options.chunk with
  | some text => unsignedOption size text
  | none => omniDefaultMtu

/-- `wait_seconds`. -/
def waitSeconds (size : SizeT) (options : ClientOptions) : ℤ :=
  match options.wait with
  | some text => atoi (size.modulus / 2) text
  | none => 2

/-- Neither `!server_ip || server_port <= 0 || !file_path` nor
`chunk_size == 0 || chunk_size > 65536u` holds. -/
def accepted (size : SizeT) (options : ClientOptions) : Bool :=
  options.serverIp.isSome && decide (0 < portOption size options.serverPort) &&
    options.filePath.isSome && decide (options.chunkSize size ≠ 0) &&
    decide (options.chunkSize size ≤ 65536)

end ClientOptions

/-- Where `main` stands. Behind the start of the thread the same calls lead to both ends of
`main`; `ok` says whether `malloc(chunk_size)` has succeeded. -/
inductive ClientMainPc
  /-- `fopen(file_path, "rb")`. -/
  | openFile
  /-- `omni_init(OMNI_ROLE_CLIENT, proto, ...)`. -/
  | init
  /-- `fclose(fp)` after `omni_init` has failed. -/
  | closeUnused
  /-- `pthread_create(&recv_tid, NULL, recv_thread_main, &rt)`. -/
  | create
  /-- `atomic_store(&rt.running, 0)` after `pthread_create` has failed. -/
  | abortStop
  /-- `fclose(fp)` behind it. -/
  | abortFile
  /-- `omni_close(ctx)` behind it. -/
  | abortContext
  /-- `malloc(chunk_size)`. -/
  | mallocChunk
  /-- From the send loop to `file_transfer_done`. -/
  | sending
  /-- `free(chunk)`. -/
  | freeChunk
  /-- `fclose(fp)`. -/
  | closeFile
  /-- `i < wait_seconds`, or `wait_seconds < 0` and no count. -/
  | waitTest (i : ℕ)
  /-- `atomic_load(&rt.running)` in the waiting loop. -/
  | waitRunning (i : ℕ)
  /-- `!g_stop` in the waiting loop. -/
  | waitStop (i : ℕ)
  /-- `sleep(1)`. -/
  | sleeping (i : ℕ)
  /-- `atomic_store(&rt.running, 0)`. -/
  | stop (ok : Bool)
  /-- `pthread_cancel(recv_tid)`. -/
  | cancel (ok : Bool)
  /-- `pthread_join(recv_tid, NULL)`. -/
  | join (ok : Bool)
  /-- `omni_close(ctx)`. -/
  | closeContext (ok : Bool)
  /-- `fclose(fp)` behind it, where there was no chunk. -/
  | lateFile
  /-- `main` has returned. -/
  | returned (status : ℤ)
  deriving DecidableEq, Repr

/-- The client process. -/
structure ClientMain where
  /-- Control point of `main`. -/
  pc : ClientMainPc
  /-- The send loop, with `rt.running` and `g_stop`. -/
  client : Client
  /-- Whether there is a receive thread. -/
  thread : RecvThread
  /-- The receive thread. Its `running` is that of `client`. -/
  recv : ClientRecv
  deriving DecidableEq, Repr

/-- What the environment decides for the client process. -/
inductive ClientMainLabel
  /-- `fopen` succeeds or not. -/
  | fopen (ok : Bool)
  /-- `omni_init` succeeds or not. -/
  | omniInit (ok : Bool)
  /-- `pthread_create` succeeds or not. -/
  | create (ok : Bool)
  /-- `malloc(chunk_size)` succeeds or not. -/
  | malloc (ok : Bool)
  /-- An action of the send loop. -/
  | send (event : ClientEvent)
  /-- Any other action of `main`. -/
  | main
  /-- An action of the receive thread. -/
  | thread (event : ClientRecvEvent)
  /-- The receive thread acts on the cancellation request. -/
  | cancelled
  /-- `on_signal` runs. -/
  | signal
  deriving DecidableEq, Repr

namespace ClientMain

/-- The process when `main` has read its options. -/
def start (size : SizeT) (options : ClientOptions) (file : List UInt8) : ClientMain where
  pc := if options.accepted size then .openFile else .returned 1
  client := .start file
  thread := .absent
  recv := .start

/-- The receive thread has ended. -/
def ThreadOver (s : ClientMain) : Prop := s.thread = .cancelled ∨ s.recv.pc = .stopped

instance (s : ClientMain) : Decidable s.ThreadOver :=
  inferInstanceAs (Decidable (s.thread = .cancelled ∨ s.recv.pc = .stopped))

/-- `atomic_store(&rt.running, 0)`. -/
def clearRunning (s : ClientMain) : ClientMain :=
  { s with client := { s.client with running := false } }

/-- The actions of `main` that nothing is decided in. -/
def mainStep (wait : ℤ) (s : ClientMain) : Option ClientMain :=
  match s.pc with
  | .closeUnused => some { s with pc := .returned 1 }
  | .abortStop => some { s.clearRunning with pc := .abortFile }
  | .abortFile => some { s with pc := .abortContext }
  | .abortContext => some { s with pc := .returned 1 }
  | .freeChunk => some { s with pc := .closeFile }
  | .closeFile => some { s with pc := .waitTest 0 }
  | .waitTest i => some { s with pc := if wait < 0 ∨ i < wait then .waitRunning i else .stop true }
  | .waitRunning i => some { s with pc := if s.client.running then .waitStop i else .stop true }
  | .waitStop i => some { s with pc := if s.client.gStop then .stop true else .sleeping i }
  | .sleeping i => some { s with pc := .waitTest (i + 1) }
  | .stop ok => some { s.clearRunning with pc := .cancel ok }
  | .cancel ok => some { s with pc := .join ok }
  | .join ok => if s.ThreadOver then some { s with pc := .closeContext ok } else none
  | .closeContext ok => some { s with pc := if ok then .returned 0 else .lateFile }
  | .lateFile => some { s with pc := .returned 1 }
  | _ => none

/-- One action of the send loop. -/
def sendStep (host : Endian) (chunkSize : ℕ) (s : ClientMain) (event : ClientEvent) :
    Option ClientMain :=
  if s.pc = .sending ∧ event ≠ .recvThreadExit ∧ event ≠ .signal then
    (s.client.step host chunkSize event).map fun c =>
      { s with client := c, pc := if c.pc = .done then .freeChunk else .sending }
  else none

/-- One action of the receive thread. -/
def threadStep (host : Endian) (size : SizeT) (s : ClientMain) (event : ClientRecvEvent) :
    Option ClientMain :=
  if s.thread = .started ∧ event ≠ .mainExit then
    (ClientRecv.step host size { s.recv with running := s.client.running } event).map fun r =>
      { s with recv := r, client := { s.client with running := r.running } }
  else none

/-- One action of the process, with the given `chunk_size` and `wait_seconds`. -/
def step (host : Endian) (size : SizeT) (chunkSize : ℕ) (wait : ℤ) (s : ClientMain) :
    ClientMainLabel → Option ClientMain
  | .fopen ok =>
    match s.pc with
    | .openFile => some { s with pc := if ok then .init else .returned 1 }
    | _ => none
  | .omniInit ok =>
    match s.pc with
    | .init => some { s with pc := if ok then .create else .closeUnused }
    | _ => none
  | .create ok =>
    match s.pc with
    | .create =>
      some (if ok then { s with pc := .mallocChunk, thread := .started }
        else { s with pc := .abortStop })
    | _ => none
  | .malloc ok =>
    match s.pc with
    | .mallocChunk => some { s with pc := if ok then .sending else .stop false }
    | _ => none
  | .send event => s.sendStep host chunkSize event
  | .main => s.mainStep wait
  | .thread event => s.threadStep host size event
  | .cancelled =>
    if s.thread = .started ∧ (s.pc = .join true ∨ s.pc = .join false) ∧ s.recv.pc ≠ .stopped then
      some { s with thread := .cancelled }
    else none
  | .signal => some { s with client := { s.client with gStop := true } }

/-- What an action of the send loop does to the things of the process. A failure is followed by
`atomic_store(&rt.running, 0)`. -/
def tellsSend (c : Client) : ClientEvent → List (Use ProgramThing)
  | .load => [.uses .runtime]
  | .fread nread feof ferror =>
    [.uses .chunk, .uses .file] ++
      if nread = 0 ∧ feof = false ∧ ferror = true then [.uses .runtime] else []
  | .malloc ok _ =>
    match c.pc with
    | .building type _ =>
      if ok then .opens .frame :: if type = msgTypeFileEnd then [] else [.uses .chunk]
      else [.uses .runtime]
    | _ => []
  | .sent n =>
    match c.pc with
    | .sending _ _ frame =>
      [.uses .context, .uses .frame, .closes .frame] ++
        if n ≠ ssize frame.length then [.uses .runtime] else []
    | _ => []
  | .recvThreadExit | .signal => []

/-- What an action does to the things of the process. -/
def tells (s : ClientMain) : ClientMainLabel → List (Use ProgramThing)
  | .fopen ok => if ok then [.opens .file] else []
  | .omniInit ok => if ok then [.opens .context, .opens .runtime] else []
  | .create ok => if ok then [.opens .thread] else []
  | .malloc ok => if ok then [.opens .chunk] else []
  | .send event => tellsSend s.client event
  | .main =>
    match s.pc with
    | .closeUnused | .abortFile | .closeFile => [.closes .file]
    | .abortStop | .waitRunning _ | .stop _ => [.uses .runtime]
    | .abortContext | .closeContext true => [.closes .context, .closes .runtime]
    | .freeChunk => [.closes .chunk]
    | .cancel _ => [.uses .thread]
    | .join _ => [.closes .thread]
    | .closeContext false => [.closes .context]
    | .lateFile => [.closes .file, .closes .runtime]
    | _ => []
  | .thread _ => [.uses .runtime, .uses .context]
  | .cancelled => [.uses .runtime, .uses .context]
  | .signal => []

/-- The machine of the process. -/
def machine (host : Endian) (size : SizeT) (chunkSize : ℕ) (wait : ℤ) :
    Machine ClientMain ClientMainLabel where
  step := step host size chunkSize wait

end ClientMain

end OmniSocket
