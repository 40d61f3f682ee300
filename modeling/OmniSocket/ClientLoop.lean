/-
# What the client's send loop announces

The messages that `omni_send` takes in full are followed through the send loop, while
the receive thread and the signal handler change the two flags at any moment. The loop
has several ways out and one flag that tells them apart afterwards: at its end `running`
is still set only if the whole file has been sent.
-/

import OmniSocket.Lib.Machine
import OmniSocket.FileTransfer

set_option autoImplicit false

namespace OmniSocket

open Lib

namespace Client

/-- The message an action has got accepted in full. -/
def accepts (c : Client) : ClientEvent → List (UInt32 × List UInt8)
  | .sent n =>
    match c.pc with
    | .sending type payload frame => if n = ssize frame.length then [(type, payload)] else []
    | _ => []
  | _ => []

/-- The client with the messages accepted so far. -/
def sendLoop (host : Endian) (chunkSize : ℕ) :
    Machine (Client × List (UInt32 × List UInt8)) ClientEvent where
  step s event := (s.1.step host chunkSize event).map fun c => (c, s.2 ++ s.1.accepts event)

/-- The `FILE_CHUNK` messages of some pieces of the file. -/
def chunkMessages (chunks : List (List UInt8)) : List (UInt32 × List UInt8) :=
  chunks.map fun chunk => (msgTypeFileChunk, chunk)

@[simp] theorem chunkMessages_concat (chunks : List (List UInt8)) (chunk : List UInt8) :
    chunkMessages (chunks ++ [chunk]) = chunkMessages chunks ++ [(msgTypeFileChunk, chunk)] :=
  List.map_append

variable {host : Endian} {chunkSize : ℕ} {file : List UInt8} {c c' : Client}
  {accepted : List (UInt32 × List UInt8)} {chunks : List (List UInt8)}

/-- The message about to be sent is the next piece of the file, or the end of a file
that has been sent. -/
def Next (file : List UInt8) (chunkSize : ℕ) (unread : List UInt8) (chunks : List (List UInt8))
    (type : UInt32) (payload : List UInt8) : Prop :=
  (type = msgTypeFileChunk ∧ 0 < payload.length ∧ payload.length ≤ chunkSize ∧
      chunks.flatten ++ (payload ++ unread) = file) ∨
    (type = msgTypeFileEnd ∧ payload = [] ∧ chunks.flatten = file)

/-- What each control point says about the accepted messages, which are those of the
given chunks and perhaps a `FILE_END`. -/
def At (file : List UInt8) (chunkSize : ℕ) (c : Client) (accepted : List (UInt32 × List UInt8))
    (chunks : List (List UInt8)) : Prop :=
  match c.pc with
  | .loopTest | .stopTest | .readFile =>
    accepted = chunkMessages chunks ∧ chunks.flatten ++ c.unread = file
  | .building type payload =>
    accepted = chunkMessages chunks ∧ Next file chunkSize c.unread chunks type payload
  | .sending type payload frame =>
    accepted = chunkMessages chunks ∧ Next file chunkSize c.unread chunks type payload ∧
      frame.length = msgHeaderSize + payload.length
  | .endTest =>
    accepted = chunkMessages chunks ∧ chunks.flatten <+: file ∧
      (c.running = true → chunks.flatten = file)
  | .done =>
    (accepted = chunkMessages chunks ∧ chunks.flatten <+: file) ∨
      (accepted = chunkMessages chunks ++ [(msgTypeFileEnd, [])] ∧ chunks.flatten = file)

/-- The accepted messages are an honest account of the file, and `total_sent` is the
length of what they carry. -/
def Honest (file : List UInt8) (chunkSize : ℕ) (c : Client)
    (accepted : List (UInt32 × List UInt8)) : Prop :=
  ∃ chunks : List (List UInt8),
    (∀ chunk ∈ chunks, 0 < chunk.length ∧ chunk.length ≤ chunkSize) ∧
      c.totalSent = UInt64.ofNat chunks.flatten.length ∧ c.At file chunkSize accepted chunks

theorem honest_start (file : List UInt8) (chunkSize : ℕ) :
    (start file).Honest file chunkSize [] :=
  ⟨[], by simp, rfl, rfl, rfl⟩

theorem Next.begins_file {unread payload : List UInt8} {type : UInt32}
    (next : Next file chunkSize unread chunks type payload) : chunks.flatten <+: file := by
  rcases next with ⟨-, -, -, split⟩ | ⟨-, -, all⟩
  · exact ⟨_, split⟩
  · exact all ▸ List.prefix_rfl

/-- Whichever way the sending of a message fails, nothing has been accepted of it and
`running` is cleared, or no message follows anyway. -/
theorem at_afterSend_failed {type : UInt32} {payload : List UInt8} {rc : ℤ} (failed : rc ≠ omniOk)
    (next : Next file chunkSize c.unread chunks type payload) :
    (c.afterSend type payload rc).At file chunkSize (chunkMessages chunks) chunks ∧
      (c.afterSend type payload rc).totalSent = c.totalSent := by
  have inside := next.begins_file
  unfold afterSend
  split_ifs
  · exact ⟨.inl ⟨rfl, inside⟩, rfl⟩
  · exact ⟨⟨rfl, inside, by simp⟩, rfl⟩

/-- `fread` moves the next bytes of the file into a chunk, or ends the loop. At the end
of the file everything has been sent already. -/
theorem at_afterRead {nread : ℕ} {feof : Bool} (ferror : Bool)
    (split : chunks.flatten ++ c.unread = file) (inChunk : nread ≤ chunkSize)
    (inFile : nread ≤ c.unread.length) (atEnd : feof = true → c.unread.length = nread) :
    (c.afterRead nread feof ferror).At file chunkSize (chunkMessages chunks) chunks ∧
      (c.afterRead nread feof ferror).totalSent = c.totalSent := by
  unfold afterRead
  split_ifs with none eof error
  · subst none
    have empty : c.unread = [] := List.length_eq_zero_iff.mp (atEnd eof)
    rw [empty, List.append_nil] at split
    exact ⟨⟨rfl, split ▸ List.prefix_rfl, fun _ => split⟩, rfl⟩
  · exact ⟨⟨rfl, ⟨c.unread, split⟩, by simp⟩, rfl⟩
  · exact ⟨⟨rfl, split⟩, rfl⟩
  · refine ⟨⟨rfl, .inl ⟨rfl, ?_, ?_, ?_⟩⟩, rfl⟩
    · rw [List.length_take]
      omega
    · rw [List.length_take]
      omega
    · rw [List.take_append_drop, split]

/-- A message that is accepted is one more chunk, or the end. -/
theorem honest_afterSend {type : UInt32} {payload : List UInt8}
    (sizes : ∀ chunk ∈ chunks, 0 < chunk.length ∧ chunk.length ≤ chunkSize)
    (total : c.totalSent = UInt64.ofNat chunks.flatten.length)
    (next : Next file chunkSize c.unread chunks type payload) :
    (c.afterSend type payload omniOk).Honest file chunkSize
      (chunkMessages chunks ++ [(type, payload)]) := by
  rcases next with ⟨rfl, some_byte, inChunk, split⟩ | ⟨rfl, rfl, all⟩
  · rw [afterSend, if_neg (by decide), if_neg (by simp)]
    refine ⟨chunks ++ [payload], ?_, ?_, ?_, ?_⟩
    · intro chunk member
      rcases List.mem_append.mp member with old | new
      · exact sizes chunk old
      · exact List.mem_singleton.mp new ▸ ⟨some_byte, inChunk⟩
    · simp [total]
    · exact (chunkMessages_concat chunks payload).symm
    · simpa using split
  · rw [afterSend, if_pos rfl]
    exact ⟨chunks, sizes, total, .inr ⟨rfl, all⟩⟩

/-- One action, of the client or of whoever else changes its flags, keeps the account
honest. -/
theorem honest_step {event : ClientEvent} (honest : c.Honest file chunkSize accepted)
    (step : c.step host chunkSize event = some c') :
    c'.Honest file chunkSize (accepted ++ c.accepts event) := by
  obtain ⟨chunks, sizes, total, account⟩ := honest
  -- the account changes only where a message is accepted; the other actions move
  -- between two points of the loop that both allow the same account
  cases event with
  | load =>
    simp only [Client.step] at step
    simp only [accepts, List.append_nil]
    split at step
    case h_1 pc =>
      obtain rfl := Option.some.inj step
      simp only [At, pc] at account
      refine ⟨chunks, sizes, total, ?_⟩
      cases running : c.running
      · exact ⟨account.1, ⟨c.unread, account.2⟩, by simp⟩
      · exact account
    case h_2 pc =>
      obtain rfl := Option.some.inj step
      simp only [At, pc] at account
      refine ⟨chunks, sizes, by cases c.gStop <;> exact total, ?_⟩
      cases c.gStop
      · exact account
      · exact ⟨account.1, ⟨c.unread, account.2⟩, by simp⟩
    case h_3 pc =>
      obtain rfl := Option.some.inj step
      simp only [At, pc] at account
      obtain ⟨rfl, inside, complete⟩ := account
      refine ⟨chunks, sizes, total, ?_⟩
      -- `running` is read once more, and decides whether `FILE_END` is sent
      cases running : c.running
      · exact .inl ⟨rfl, inside⟩
      · exact ⟨rfl, .inr ⟨rfl, rfl, complete running⟩⟩
    case h_4 => exact absurd step (by simp)
  | fread nread feof ferror =>
    simp only [Client.step] at step
    obtain ⟨⟨pc, inChunk, inFile, atEnd⟩, rfl⟩ :=
      (Option.ite_none_right_eq_some.mp step).imp_right Option.some.inj
    simp only [At, pc] at account
    obtain ⟨rfl, split⟩ := account
    have read := at_afterRead ferror split inChunk inFile atEnd
    simp only [accepts, List.append_nil]
    exact ⟨chunks, sizes, read.2.trans total, read.1⟩
  | malloc ok now =>
    simp only [Client.step] at step
    split at step
    case h_1 type payload pc =>
      obtain rfl := Option.some.inj step
      simp only [At, pc] at account
      obtain ⟨rfl, next⟩ := account
      simp only [accepts, List.append_nil]
      cases ok
      -- `omni_client_send_message` gave up before it sent anything
      · have failed := at_afterSend_failed (show omniErrGeneric ≠ omniOk by decide) next
        exact ⟨chunks, sizes, failed.2.trans total, failed.1⟩
      · exact ⟨chunks, sizes, total, rfl, next, length_appFrame ..⟩
    case h_2 => exact absurd step (by simp)
  | sent n =>
    simp only [Client.step] at step
    split at step
    case h_1 type payload frame pc =>
      obtain rfl := Option.some.inj step
      simp only [At, pc] at account
      obtain ⟨rfl, next, -⟩ := account
      simp only [accepts, pc]
      -- a short send is an error for the client, and nothing counts as accepted
      by_cases full : n = ssize frame.length
      · rw [if_pos full, if_neg (not_not.mpr full)]
        exact honest_afterSend sizes total next
      · have failed := at_afterSend_failed (show omniErrIo ≠ omniOk by decide) next
        rw [if_neg full, if_pos full, List.append_nil]
        exact ⟨chunks, sizes, failed.2.trans total, failed.1⟩
    case h_2 => exact absurd step (by simp)
  | recvThreadExit =>
    obtain rfl := Option.some.inj step
    simp only [accepts, List.append_nil]
    refine ⟨chunks, sizes, total, ?_⟩
    cases pc : c.pc <;> simp only [At, pc] at account ⊢
    -- `running` may fall between its two reads, which keeps `FILE_END` back
    case endTest => exact ⟨account.1, account.2.1, by simp⟩
    all_goals exact account
  | signal =>
    obtain rfl := Option.some.inj step
    simp only [accepts, List.append_nil]
    exact ⟨chunks, sizes, total, account⟩

/-- So does a whole run. -/
theorem honest_run {events : List ClientEvent}
    (hrun : (sendLoop host chunkSize).run (start file, []) events = some (c, accepted)) :
    c.Honest file chunkSize accepted := by
  refine (sendLoop host chunkSize).run_invariant
    (I := fun s => s.1.Honest file chunkSize s.2) ?_ (honest_start file chunkSize) hrun
  rintro s event t honest step
  obtain ⟨c', taken, rfl⟩ := Option.map_eq_some_iff.mp step
  exact honest_step honest taken

/-! ## After the loop has been left -/

/-- What leaves the loop for good: a failed send, an `fread` that returns nothing for an
error and not for the end of the file, and a stop that is seen. -/
def Gives (c : Client) : ClientEvent → Prop
  | .sent n => ∃ type payload frame, c.pc = .sending type payload frame ∧ n ≠ ssize frame.length
  | .malloc ok _ => ok = false
  | .fread nread feof ferror => nread = 0 ∧ ferror = true ∧ feof = false
  | .load => c.pc = .stopTest ∧ c.gStop = true
  | .recvThreadExit | .signal => False

theorem finished_afterSend {type : UInt32} {payload : List UInt8} {rc : ℤ} (failed : rc ≠ omniOk) :
    (c.afterSend type payload rc).Finished := by
  unfold afterSend
  split_ifs
  · exact .inl rfl
  · exact .inr ⟨rfl, rfl⟩

theorem finished_of_gives {event : ClientEvent} (gives : c.Gives event)
    (step : c.step host chunkSize event = some c') : c'.Finished := by
  cases event with
  | load =>
    simp only [Client.step, gives.1, gives.2, if_true] at step
    obtain rfl := Option.some.inj step
    exact .inr ⟨rfl, rfl⟩
  | fread nread feof ferror =>
    obtain ⟨rfl, rfl, rfl⟩ := gives
    simp only [Client.step] at step
    obtain ⟨-, rfl⟩ := (Option.ite_none_right_eq_some.mp step).imp_right Option.some.inj
    exact .inr ⟨rfl, rfl⟩
  | malloc ok now =>
    obtain rfl := gives
    simp only [Client.step] at step
    split at step
    case h_1 => exact Option.some.inj step ▸ finished_afterSend (by decide)
    case h_2 => exact absurd step (by simp)
  | sent n =>
    obtain ⟨type, payload, frame, pc, failed⟩ := gives
    simp only [Client.step, pc, if_pos failed] at step
    exact Option.some.inj step ▸ finished_afterSend (by decide)
  | recvThreadExit | signal => exact gives.elim

/-- A client that has finished is never inside `omni_send` again. -/
theorem not_sending_of_finished {later : List ClientEvent}
    {s t : Client × List (UInt32 × List UInt8)} (finished : s.1.Finished)
    (hrun : (sendLoop host chunkSize).run s later = some t)
    (type : UInt32) (payload frame : List UInt8) : t.1.pc ≠ .sending type payload frame := by
  have stays : t.1.Finished := by
    refine (sendLoop host chunkSize).run_invariant (I := fun s => s.1.Finished) ?_ finished hrun
    rintro s event t finished step
    obtain ⟨c', taken, rfl⟩ := Option.map_eq_some_iff.mp step
    exact (finished_step finished taken).1
  rcases stays with pc | ⟨pc, -⟩ <;> rw [pc] <;> simp

/-! ## What the client announces -/

/-- At every control point the accepted messages are chunks of the file, and at most one
`FILE_END` behind the whole file. -/
theorem At.account (account : c.At file chunkSize accepted chunks) :
    chunks.flatten <+: file ∧ (accepted = chunkMessages chunks ∨
      (accepted = chunkMessages chunks ++ [(msgTypeFileEnd, [])] ∧ chunks.flatten = file)) := by
  unfold At at account
  split at account
  case h_1 | h_2 | h_3 => exact ⟨⟨c.unread, account.2⟩, .inl account.1⟩
  case h_4 => exact ⟨account.2.begins_file, .inl account.1⟩
  case h_5 => exact ⟨account.2.1.begins_file, .inl account.1⟩
  case h_6 => exact ⟨account.2.1, .inl account.1⟩
  case h_7 =>
    rcases account with ⟨chunks_only, inside⟩ | ⟨ended, all⟩
    · exact ⟨inside, .inl chunks_only⟩
    · exact ⟨all ▸ List.prefix_rfl, .inr ⟨ended, all⟩⟩

/-- Whatever `fread` and `omni_send` return and whenever the flags are changed: what
`omni_send` has accepted in full are chunks of the file, in order and from its start, and
then at most one `FILE_END`, which is sent only when they are the whole file; `total_sent`
is the length of the chunks; and nothing is sent after a failed send, an `fread` that
failed with nothing read, or a stop that was seen. -/
theorem announces_complete_file {events : List ClientEvent}
    (hrun : (sendLoop host chunkSize).run (start file, []) events = some (c, accepted)) :
    (∃ chunks : List (List UInt8),
      (∀ chunk ∈ chunks, 0 < chunk.length ∧ chunk.length ≤ chunkSize) ∧
      chunks.flatten <+: file ∧ c.totalSent = UInt64.ofNat chunks.flatten.length ∧
      (accepted = chunkMessages chunks ∨
        (accepted = chunkMessages chunks ++ [(msgTypeFileEnd, [])] ∧ chunks.flatten = file)) ∧
      ∀ payload frame, c.pc = .sending msgTypeFileEnd payload frame →
        payload = [] ∧ accepted = chunkMessages chunks ∧ chunks.flatten = file) ∧
    ∀ event c', c.Gives event → c.step host chunkSize event = some c' →
      ∀ later t, (sendLoop host chunkSize).run (c', accepted ++ c.accepts event) later = some t →
        ∀ type payload frame, t.1.pc ≠ .sending type payload frame := by
  refine ⟨?_, fun event c' gives step later t hrest =>
    not_sending_of_finished (finished_of_gives gives step) hrest⟩
  obtain ⟨chunks, sizes, total, account⟩ := honest_run hrun
  refine ⟨chunks, sizes, account.account.1, total, account.account.2, ?_⟩
  intro payload frame pc
  simp only [At, pc] at account
  obtain ⟨chunks_only, next, -⟩ := account
  rcases next with ⟨chunk, -⟩ | ⟨-, empty, all⟩
  · exact absurd chunk (by decide)
  · exact ⟨empty, chunks_only, all⟩

/-- A file of one byte. The first `fread` returns it with the error indicator set, the
second one returns nothing at the end of the file; the indicator is still set. -/
def errorSeen : List ClientEvent :=
  [.load, .load, .fread 1 false true, .malloc true 0, .sent 17, .load, .load]

/-- Up to there the byte has been sent and counted. -/
theorem announces_complete_file_byte :
    ∃ c, (sendLoop .little 1024).run (start [7], []) errorSeen =
        some (c, [(msgTypeFileChunk, [7])]) ∧
      ∃ chunks : List (List UInt8), chunks.flatten <+: [7] ∧
        c.totalSent = UInt64.ofNat chunks.flatten.length := by
  have hrun : (sendLoop .little 1024).run (start [7], []) errorSeen =
      some (⟨.readFile, true, false, [], 1⟩, [(msgTypeFileChunk, [7])]) := by decide +kernel
  obtain ⟨chunks, -, inside, total, -⟩ := (announces_complete_file hrun).1
  exact ⟨_, hrun, chunks, inside, total⟩

/-- An `fread` that returns nothing with the error indicator set does not always keep the
client from sending: at the end of the file `FILE_END` is sent all the same. -/
theorem announces_counterexample :
    ¬ ∀ (host : Endian) (chunkSize : ℕ) (file : List UInt8) (events later : List ClientEvent)
      (feof : Bool) (c c' : Client) (accepted : List (UInt32 × List UInt8))
      (t : Client × List (UInt32 × List UInt8)),
      (sendLoop host chunkSize).run (start file, []) events = some (c, accepted) →
      c.step host chunkSize (.fread 0 feof true) = some c' →
      (sendLoop host chunkSize).run (c', accepted) later = some t →
      ∀ type payload frame, t.1.pc ≠ .sending type payload frame := by
  intro claim
  refine claim .little 1024 [7] errorSeen [.load, .malloc true 0] true
    ⟨.readFile, true, false, [], 1⟩ ⟨.endTest, true, false, [], 1⟩ [(msgTypeFileChunk, [7])]
    (⟨.sending msgTypeFileEnd [] (appFrame .little msgTypeFileEnd [] 0), true, false, [], 1⟩,
      [(msgTypeFileChunk, [7])]) ?_ ?_ ?_ msgTypeFileEnd [] _ rfl
  all_goals decide +kernel

end Client

end OmniSocket
