/-
# The client's send loop

The main thread of `client_main.c` reads the file in chunks, sends each chunk
in a `FILE_CHUNK` message and, if `running` is still set after the loop, sends
one `FILE_END`. The receive thread and the signal handler share the two flags
with it and may change them between any two of its actions.
-/

import OmniSocket.App.Message

set_option autoImplicit false

namespace OmniSocket

/-- Where the main thread stands in `main`, from the send loop on. -/
inductive ClientPc
  /-- `while (atomic_load(&rt.running))`. -/
  | loopTest
  /-- `if (g_stop)`. -/
  | stopTest
  /-- `fread(chunk, 1, chunk_size, fp)`. -/
  | readFile
  /-- In `send_app_message`, before `malloc` and the clock reading. -/
  | building (type : UInt32) (payload : List UInt8)
  /-- In `send_app_message`, inside `omni_send(ctx, frame, total_len)`. -/
  | sending (type : UInt32) (payload frame : List UInt8)
  /-- `if (atomic_load(&rt.running))` after the loop. -/
  | endTest
  /-- Past the last message, from `file_transfer_done` on. -/
  | done
  deriving DecidableEq, Repr

/-- The main thread, the flags it shares and the file it reads. -/
structure Client where
  /-- Control point of the main thread. -/
  pc : ClientPc
  /-- `rt.running`. -/
  running : Bool
  /-- `g_stop`. -/
  gStop : Bool
  /-- What `fread` has not returned yet. -/
  unread : List UInt8
  /-- `total_sent`. -/
  totalSent : UInt64
  deriving DecidableEq, Repr

/-- What the environment decides for the client. -/
inductive ClientEvent
  /-- The flag tested at the control point is loaded. -/
  | load
  /-- `fread` returns `nread`; `feof` and `ferror` then hold or not. -/
  | fread (nread : ℕ) (feof ferror : Bool)
  /-- `malloc` succeeds or not, and the clock is read. -/
  | malloc (ok : Bool) (now : UInt64)
  /-- `omni_send` returns `n`. -/
  | sent (n : ℤ)
  /-- The receive thread ends and stores 0 to `running`. -/
  | recvThreadExit
  /-- `on_signal` runs. -/
  | signal
  deriving DecidableEq, Repr

namespace Client

/-- The client at the head of its send loop, with the file opened. -/
def start (file : List UInt8) : Client where
  pc := .loopTest
  running := true
  gStop := false
  unread := file
  totalSent := 0

/-- What `main` does with the result of `send_app_message`. -/
def afterSend (c : Client) (type : UInt32) (payload : List UInt8) (rc : ℤ) : Client :=
  if type = msgTypeFileEnd then
    { c with pc := .done, running := c.running && decide (rc = omniOk) }
  else if rc ≠ omniOk then { c with pc := .endTest, running := false }
  else { c with pc := .loopTest, totalSent := c.totalSent + UInt64.ofNat payload.length }

/-- What `main` does with the result of `fread`. -/
def afterRead (c : Client) (nread : ℕ) (feof ferror : Bool) : Client :=
  if nread = 0 then
    if feof then { c with pc := .endTest }
    else if ferror then { c with pc := .endTest, running := false }
    else { c with pc := .loopTest }
  else
    { c with
      pc := .building msgTypeFileChunk (c.unread.take nread)
      unread := c.unread.drop nread }

/-- One action of the client, or of whoever else changes its flags. The guard
on `fread` says that it returns at most `chunk_size` bytes, that they are the
next bytes of the file, and that `feof` holds only when none are left. -/
def step (host : Endian) (chunkSize : ℕ) (c : Client) : ClientEvent → Option Client
  | .load =>
    match c.pc with
    | .loopTest => some { c with pc := if c.running then .stopTest else .endTest }
    | .stopTest =>
      some (if c.gStop then { c with pc := .endTest, running := false }
        else { c with pc := .readFile })
    | .endTest =>
      some { c with pc := if c.running then .building msgTypeFileEnd [] else .done }
    | _ => none
  | .fread nread feof ferror =>
    if c.pc = .readFile ∧ nread ≤ chunkSize ∧ nread ≤ c.unread.length ∧
        (feof = true → c.unread.length = nread) then
      some (c.afterRead nread feof ferror)
    else none
  | .malloc ok now =>
    match c.pc with
    | .building type payload =>
      some (if ok then { c with pc := .sending type payload (appFrame host type payload now) }
        else c.afterSend type payload omniErrGeneric)
    | _ => none
  | .sent n =>
    match c.pc with
    | .sending type payload frame =>
      some (c.afterSend type payload (if n ≠ ssize frame.length then omniErrIo else omniOk))
    | _ => none
  | .recvThreadExit => some { c with running := false }
  | .signal => some { c with gStop := true }

end Client

end OmniSocket
