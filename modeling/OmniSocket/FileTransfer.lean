/-
# The two applications around any in-order transport

The client turns a file into pieces and the server turns pieces back into a
file. Each side is followed through its own control points, with no transport
between them: the client's invariant says that the messages it has begun to
send are an honest account of the file, the server's that its output is the
content of the messages it has received. A transport that hands over the
client's messages in order and from the front then gives the transfer theorem.
-/

import OmniSocket.Lib.Transfer
import OmniSocket.App.Client
import OmniSocket.App.Server

set_option autoImplicit false

namespace OmniSocket

open Lib Lib.Piece

/-- The piece a file message stands for. -/
def pieceOf (type : UInt32) (payload : List UInt8) : Piece UInt8 :=
  if type = msgTypeFileEnd then .finish else .data payload

@[simp] theorem pieceOf_fileEnd (payload : List UInt8) :
    pieceOf msgTypeFileEnd payload = .finish := if_pos rfl

@[simp] theorem pieceOf_fileChunk (payload : List UInt8) :
    pieceOf msgTypeFileChunk payload = .data payload := if_neg (by decide)

/-- A message of the send loop: a chunk of admissible size, or the empty
`FILE_END`. -/
def IsFileMessage (type : UInt32) (payload : List UInt8) : Prop :=
  (type = msgTypeFileChunk ∧ payload.length ≤ 65536) ∨ (type = msgTypeFileEnd ∧ payload = [])

theorem IsFileMessage.length_le {type : UInt32} {payload : List UInt8}
    (message : IsFileMessage type payload) : payload.length ≤ 65536 := by
  rcases message with ⟨-, small⟩ | ⟨-, rfl⟩
  · exact small
  · simp

/-- A message of the send loop with the clock reading in its header. -/
structure FileMessage where
  type : UInt32
  payload : List UInt8
  now : UInt64
  isFile : IsFileMessage type payload

namespace FileMessage

/-- The piece a message stands for. -/
def piece (m : FileMessage) : Piece UInt8 := pieceOf m.type m.payload

/-- The frame handed to `omni_send`. -/
def frame (host : Endian) (m : FileMessage) : List UInt8 := appFrame host m.type m.payload m.now

/-- Every frame fits the receiver's buffer. -/
theorem length_frame_le (host : Endian) (m : FileMessage) :
    (m.frame host).length ≤ frameBufSize :=
  (length_appFrame ..).trans_le (Nat.add_le_add_left m.isFile.length_le msgHeaderSize)

end FileMessage

/-- The machines the two programs run on: the byte order of each and the width
of `size_t` where the frames are decoded. -/
structure Hosts where
  client : Endian
  server : Endian
  size : SizeT
  deriving DecidableEq, Repr

/-! ## The client -/

namespace Client

/-- Sending `type` with `payload` next keeps the account of the file honest. -/
def Ready (file : List UInt8) (c : Client) (type : UInt32) (payload : List UInt8)
    (chunks : List (List UInt8)) : Prop :=
  (type = msgTypeFileChunk ∧ payload.length ≤ 65536 ∧
      chunks.flatten ++ payload ++ c.unread = file) ∨
    (type = msgTypeFileEnd ∧ payload = [] ∧ chunks.flatten = file)

/-- What the client's control point says about the messages begun so far. -/
def Tracks (file : List UInt8) (c : Client) (begun : List (Piece UInt8)) : Prop :=
  match c.pc with
  | .loopTest | .stopTest | .readFile =>
    ∃ chunks : List (List UInt8), begun = chunks.map .data ∧ chunks.flatten ++ c.unread = file
  | .building type payload =>
    ∃ chunks : List (List UInt8), begun = chunks.map .data ∧ c.Ready file type payload chunks
  | .sending type payload frame =>
    frame.length = msgHeaderSize + payload.length ∧
      ∃ chunks : List (List UInt8), begun = chunks.map .data ++ [pieceOf type payload] ∧
        c.Ready file type payload chunks
  | .endTest =>
    ∃ chunks : List (List UInt8), begun = chunks.map .data ∧ chunks.flatten <+: file ∧
      (c.running = true → chunks.flatten = file)
  | .done => Announces file begun

/-- The message an action begins to send. -/
def begins (c : Client) : ClientEvent → List (Piece UInt8)
  | .malloc true _ =>
    match c.pc with
    | .building type payload => [pieceOf type payload]
    | _ => []
  | _ => []

/-- The client will begin no further message. -/
def Finished (c : Client) : Prop :=
  c.pc = .done ∨ (c.pc = .endTest ∧ c.running = false)

theorem tracks_start (file : List UInt8) : (start file).Tracks file [] :=
  ⟨[], rfl, rfl⟩

theorem Ready.prefix {file : List UInt8} {c : Client} {type : UInt32} {payload : List UInt8}
    {chunks : List (List UInt8)} (ready : c.Ready file type payload chunks) :
    chunks.flatten <+: file := by
  rcases ready with ⟨-, -, split⟩ | ⟨-, -, all⟩
  · exact ⟨payload ++ c.unread, by rw [← split, List.append_assoc]⟩
  · exact all ▸ List.prefix_rfl

theorem Ready.isFileMessage {file : List UInt8} {c : Client} {type : UInt32}
    {payload : List UInt8} {chunks : List (List UInt8)}
    (ready : c.Ready file type payload chunks) : IsFileMessage type payload := by
  rcases ready with ⟨chunk, small, -⟩ | ⟨last, empty, -⟩
  · exact .inl ⟨chunk, small⟩
  · exact .inr ⟨last, empty⟩

/-- Once a message is begun, the account it completes is honest. -/
theorem Ready.announces {file : List UInt8} {c : Client} {type : UInt32} {payload : List UInt8}
    {chunks : List (List UInt8)} (ready : c.Ready file type payload chunks) :
    Announces file (chunks.map .data ++ [pieceOf type payload]) := by
  rcases ready with ⟨rfl, -, split⟩ | ⟨rfl, -, all⟩
  · refine ⟨chunks ++ [payload], .inl ⟨by simp, ⟨c.unread, ?_⟩⟩⟩
    simpa using split
  · exact ⟨chunks, .inr ⟨rfl, all⟩⟩

/-- In every control state the messages begun are an honest account. -/
theorem Tracks.announces {file : List UInt8} {c : Client} {begun : List (Piece UInt8)}
    (tracks : c.Tracks file begun) : Announces file begun := by
  unfold Tracks at tracks
  split at tracks
  case h_1 | h_2 | h_3 =>
    obtain ⟨chunks, rfl, split⟩ := tracks
    exact ⟨chunks, .inl ⟨rfl, ⟨c.unread, split⟩⟩⟩
  case h_4 =>
    obtain ⟨chunks, rfl, ready⟩ := tracks
    exact ⟨chunks, .inl ⟨rfl, ready.prefix⟩⟩
  case h_5 =>
    obtain ⟨-, chunks, rfl, ready⟩ := tracks
    exact ready.announces
  case h_6 =>
    obtain ⟨chunks, rfl, inside, -⟩ := tracks
    exact ⟨chunks, .inl ⟨rfl, inside⟩⟩
  case h_7 => exact tracks

private theorem tracks_afterSend {file : List UInt8} {c : Client} {type : UInt32}
    {payload : List UInt8} {chunks : List (List UInt8)} (rc : ℤ)
    (ready : c.Ready file type payload chunks) :
    (c.afterSend type payload rc).Tracks file (chunks.map .data ++ [pieceOf type payload]) := by
  rcases ready with ⟨rfl, -, split⟩ | ⟨rfl, -, all⟩
  · have account : chunks.map .data ++ [pieceOf msgTypeFileChunk payload] =
        (chunks ++ [payload]).map Piece.data := by simp
    rw [afterSend, if_neg (by decide), account]
    -- whether or not the send succeeded, the message had been begun
    split
    · refine ⟨chunks ++ [payload], rfl, ⟨c.unread, ?_⟩, by simp⟩
      simpa using split
    · exact ⟨chunks ++ [payload], rfl, by simpa using split⟩
  · rw [afterSend, if_pos rfl]
    exact ⟨chunks, .inr ⟨rfl, all⟩⟩

private theorem tracks_afterSend_of_malloc {file : List UInt8} {c : Client} {type : UInt32}
    {payload : List UInt8} {chunks : List (List UInt8)}
    (ready : c.Ready file type payload chunks) :
    (c.afterSend type payload omniErrGeneric).Tracks file (chunks.map .data) := by
  have inside := ready.prefix
  rcases ready with ⟨rfl, -, -⟩ | ⟨rfl, -, -⟩
  · rw [afterSend, if_neg (by decide), if_pos (by decide)]
    exact ⟨chunks, rfl, inside, by simp⟩
  · rw [afterSend, if_pos rfl]
    exact ⟨chunks, .inl ⟨rfl, inside⟩⟩

private theorem tracks_afterRead {file : List UInt8} {c : Client} {chunkSize nread : ℕ}
    {feof ferror : Bool} {chunks : List (List UInt8)} (size : chunkSize ≤ 65536)
    (split : chunks.flatten ++ c.unread = file) (inChunk : nread ≤ chunkSize)
    (atEnd : feof = true → c.unread.length = nread) :
    (c.afterRead nread feof ferror).Tracks file (chunks.map .data) := by
  unfold afterRead
  -- an `fread` of nothing ends the loop; only the end of the file makes it complete
  split_ifs with none eof error
  · subst none
    have empty : c.unread = [] := List.length_eq_zero_iff.mp (atEnd eof)
    rw [empty, List.append_nil] at split
    exact ⟨chunks, rfl, split ▸ List.prefix_rfl, fun _ => split⟩
  · exact ⟨chunks, rfl, ⟨c.unread, split⟩, by simp⟩
  · exact ⟨chunks, rfl, split⟩
  · refine ⟨chunks, rfl, .inl ⟨rfl, ?_, ?_⟩⟩
    · rw [List.length_take]
      omega
    · rw [List.append_assoc, List.take_append_drop, split]

/-- One action keeps the account honest, counting the message it begins. -/
theorem tracks_step {host : Endian} {chunkSize : ℕ} {file : List UInt8} {c c' : Client}
    {event : ClientEvent} {begun : List (Piece UInt8)} (size : chunkSize ≤ 65536)
    (tracks : c.Tracks file begun) (step : c.step host chunkSize event = some c') :
    c'.Tracks file (begun ++ c.begins event) := by
  -- only a `malloc` that succeeds begins a message
  cases event with
  | load =>
    simp only [Client.step] at step
    simp only [begins, List.append_nil]
    split at step
    case h_1 pc =>
      obtain rfl := Option.some.inj step
      simp only [Tracks, pc] at tracks
      obtain ⟨chunks, rfl, split⟩ := tracks
      cases running : c.running
      · exact ⟨chunks, rfl, ⟨c.unread, split⟩, by simp⟩
      · exact ⟨chunks, rfl, split⟩
    case h_2 pc =>
      obtain rfl := Option.some.inj step
      simp only [Tracks, pc] at tracks
      obtain ⟨chunks, rfl, split⟩ := tracks
      cases c.gStop
      · exact ⟨chunks, rfl, split⟩
      · exact ⟨chunks, rfl, ⟨c.unread, split⟩, by simp⟩
    case h_3 pc =>
      obtain rfl := Option.some.inj step
      simp only [Tracks, pc] at tracks
      obtain ⟨chunks, rfl, inside, complete⟩ := tracks
      cases running : c.running
      · exact ⟨chunks, .inl ⟨rfl, inside⟩⟩
      · exact ⟨chunks, rfl, .inr ⟨rfl, rfl, complete running⟩⟩
    case h_4 => exact absurd step (by simp)
  | fread nread feof ferror =>
    simp only [Client.step] at step
    split at step
    case isTrue guard =>
      obtain ⟨pc, inChunk, -, atEnd⟩ := guard
      obtain rfl := Option.some.inj step
      simp only [Tracks, pc] at tracks
      obtain ⟨chunks, rfl, split⟩ := tracks
      simp only [begins, List.append_nil]
      exact tracks_afterRead size split inChunk atEnd
    case isFalse => exact absurd step (by simp)
  | malloc ok now =>
    simp only [Client.step] at step
    split at step
    case h_1 type payload pc =>
      obtain rfl := Option.some.inj step
      simp only [Tracks, pc] at tracks
      obtain ⟨chunks, rfl, ready⟩ := tracks
      cases ok
      · simp only [begins, List.append_nil]
        exact tracks_afterSend_of_malloc ready
      · simp only [begins, pc]
        exact ⟨length_appFrame .., chunks, rfl, ready⟩
    case h_2 => exact absurd step (by simp)
  | sent n =>
    simp only [Client.step] at step
    split at step
    case h_1 type payload frame pc =>
      obtain rfl := Option.some.inj step
      simp only [Tracks, pc] at tracks
      obtain ⟨-, chunks, rfl, ready⟩ := tracks
      simp only [begins, List.append_nil]
      exact tracks_afterSend _ ready
    case h_2 => exact absurd step (by simp)
  | recvThreadExit =>
    obtain rfl := Option.some.inj step
    simp only [begins, List.append_nil]
    cases pc : c.pc <;> simp only [Tracks, pc] at tracks ⊢
    case endTest =>
      obtain ⟨chunks, rfl, inside, -⟩ := tracks
      exact ⟨chunks, rfl, inside, by simp⟩
    all_goals exact tracks
  | signal =>
    obtain rfl := Option.some.inj step
    simp only [begins, List.append_nil]
    exact tracks

/-- Any other action than a successful `malloc` leaves the account as it is. -/
theorem Tracks.quiet {host : Endian} {chunkSize : ℕ} {file : List UInt8} {c c' : Client}
    {event : ClientEvent} {begun : List (Piece UInt8)} (size : chunkSize ≤ 65536)
    (tracks : c.Tracks file begun) (step : c.step host chunkSize event = some c')
    (notBegin : ∀ now, event ≠ .malloc true now) : c'.Tracks file begun := by
  have quiet : c.begins event = [] := by
    unfold begins
    split
    case h_1 now => exact absurd rfl (notBegin now)
    case h_2 => rfl
  simpa only [quiet, List.append_nil] using tracks_step size tracks step

/-- A successful `malloc` begins a message that is then inside `omni_send`. -/
theorem Tracks.begin {host : Endian} {chunkSize : ℕ} {file : List UInt8} {c c' : Client}
    {now : UInt64} {begun : List (Piece UInt8)} (tracks : c.Tracks file begun)
    (step : c.step host chunkSize (.malloc true now) = some c') :
    ¬ c.Finished ∧ ∃ m : FileMessage, c'.pc = .sending m.type m.payload (m.frame host) ∧
      c'.Tracks file (begun ++ [m.piece]) := by
  simp only [Client.step] at step
  split at step
  case h_1 type payload pc =>
    obtain rfl := Option.some.inj step
    simp only [Tracks, pc] at tracks
    obtain ⟨chunks, rfl, ready⟩ := tracks
    exact ⟨by simp [Finished, pc], ⟨type, payload, now, ready.isFileMessage⟩, rfl,
      length_appFrame .., chunks, rfl, ready⟩
  case h_2 => exact absurd step (by simp)

/-- A failed `omni_send` is the client's last. -/
theorem finished_of_failed {host : Endian} {chunkSize : ℕ} {c c' : Client} {type : UInt32}
    {payload frame : List UInt8} {n : ℤ} (pc : c.pc = .sending type payload frame)
    (message : IsFileMessage type payload) (failed : n ≠ ssize frame.length)
    (step : c.step host chunkSize (.sent n) = some c') : c'.Finished := by
  simp only [Client.step, pc, if_pos failed] at step
  obtain rfl := Option.some.inj step
  rcases message with ⟨rfl, -⟩ | ⟨rfl, -⟩
  · rw [afterSend, if_neg (by decide), if_pos (by decide)]
    exact .inr ⟨rfl, rfl⟩
  · rw [afterSend, if_pos rfl]
    exact .inl rfl

/-- A finished client stays finished and begins nothing. -/
theorem finished_step {host : Endian} {chunkSize : ℕ} {c c' : Client} {event : ClientEvent}
    (finished : c.Finished) (step : c.step host chunkSize event = some c') :
    c'.Finished ∧ c.begins event = [] := by
  rcases finished with pc | ⟨pc, stopped⟩
  · cases event <;> simp only [Client.step, pc, reduceCtorEq, false_and, if_false] at step
    case recvThreadExit | signal =>
      obtain rfl := Option.some.inj step
      exact ⟨.inl rfl, rfl⟩
  · cases event <;> simp only [Client.step, pc, reduceCtorEq, false_and, if_false] at step
    case load =>
      obtain rfl := Option.some.inj step
      exact ⟨.inl (by simp [stopped]), rfl⟩
    case recvThreadExit =>
      obtain rfl := Option.some.inj step
      exact ⟨.inr ⟨rfl, rfl⟩, rfl⟩
    case signal =>
      obtain rfl := Option.some.inj step
      exact ⟨.inr ⟨rfl, stopped⟩, rfl⟩

end Client

/-! ## The server -/

namespace Server

/-- Output, byte count and flag after the pieces received so far have all been
dealt with. -/
def Settled (s : Server) (got : List (Piece UInt8)) : Prop :=
  s.out = content got ∧ s.bytesWritten = UInt64.ofNat s.out.length ∧
    (s.transferDone = true ↔ .finish ∈ got)

/-- What the server's control point says about the pieces received so far. The
last case of a stopped server is a short `fwrite`. -/
def Tracks (s : Server) (got : List (Piece UInt8)) : Prop :=
  match s.pc with
  | .loopTest | .receiving => s.Settled got
  | .writing payload => ∃ before, got = before ++ [.data payload] ∧ s.Settled before
  | .stopped =>
    s.Settled got ∨ ∃ before payload written,
      got = before ++ [.data payload] ∧ written <+: payload ∧
        s.out = content before ++ written ∧ (s.transferDone = true ↔ .finish ∈ before)

theorem tracks_start (proto : OmniProtocol) : (start proto).Tracks [] :=
  ⟨rfl, rfl, by simp [start]⟩

theorem Settled.leave {s : Server} {got : List (Piece UInt8)} (settled : s.Settled got) :
    s.leave.Tracks got :=
  .inl settled

/-- A result that is not a message leaves the pieces received as they are. -/
theorem tracks_afterRecv_of_nonpos {host : Endian} {size : SizeT} {s : Server} {n : ℤ}
    {frame : List UInt8} {got : List (Piece UInt8)} (settled : s.Settled got) (nonpos : n ≤ 0) :
    (s.afterRecv host size n frame).Tracks got := by
  unfold afterRecv
  split_ifs with negative zero tcp
  · exact settled.leave
  · exact settled.leave
  · exact settled
  · omega

/-- Receiving the frame of a file message receives its piece. -/
theorem tracks_afterRecv_of_frame {sender host : Endian} {size : SizeT} {s : Server}
    {got : List (Piece UInt8)} (settled : s.Settled got) (m : FileMessage) :
    (s.afterRecv host size (m.frame sender).length (m.frame sender)).Tracks
      (got ++ [m.piece]) := by
  obtain ⟨type, payload, now, message⟩ := m
  obtain ⟨hdr, decoded, hdrType, hdrLen⟩ :=
    decodeAppMessage_appFrame sender host size type payload now message.length_le
  have positive : ¬ ((appFrame sender type payload now).length : ℤ) ≤ 0 := by
    rw [length_appFrame, msgHeaderSize]
    omega
  simp only [FileMessage.frame, FileMessage.piece]
  rw [afterRecv, if_neg (by omega), if_neg (by omega), Int.toNat_natCast, List.take_length,
    decoded]
  simp only [handle, hdrType, hdrLen, List.take_length]
  -- a chunk is still to be written, the end of the file is marked at once
  rcases message with ⟨rfl, -⟩ | ⟨rfl, rfl⟩
  · rw [if_pos rfl]
    exact ⟨got, rfl, settled⟩
  · rw [if_neg (by decide), if_pos rfl]
    obtain ⟨output, count, -⟩ := settled
    exact ⟨by simpa [Piece.items] using output, count, by simp⟩

/-- Every action except a return of `omni_recv` keeps the pieces received. -/
theorem tracks_step {host : Endian} {size : SizeT} {s s' : Server} {event : ServerEvent}
    {got : List (Piece UInt8)} (tracks : s.Tracks got)
    (step : s.step host size event = some s') (noRecv : ∀ n frame, event ≠ .recv n frame) :
    s'.Tracks got := by
  cases event with
  | load =>
    simp only [Server.step] at step
    split at step
    case h_1 pc =>
      obtain rfl := Option.some.inj step
      simp only [Tracks, pc] at tracks
      cases s.running
      · exact tracks.leave
      · exact tracks
    case h_2 => exact absurd step (by simp)
  | recv n frame => exact absurd rfl (noRecv n frame)
  | fwrite nw =>
    simp only [Server.step] at step
    split at step
    case h_1 payload pc =>
      split at step
      case isTrue within =>
        obtain rfl := Option.some.inj step
        simp only [Tracks, pc] at tracks
        obtain ⟨before, rfl, output, count, flag⟩ := tracks
        -- a short `fwrite` leaves the loop with part of the chunk in the file
        unfold afterWrite
        split_ifs with short
        · refine .inr ⟨before, payload, payload.take nw, rfl, List.take_prefix _ _, ?_, flag⟩
          simp [output]
        · rw [not_not] at short
          subst short
          refine ⟨?_, ?_, ?_⟩
          · simp [output, Piece.items]
          · simp [count, output]
          · simp [flag]
      case isFalse => exact absurd step (by simp)
    case h_2 => exact absurd step (by simp)
  | mainExit =>
    obtain rfl := Option.some.inj step
    exact tracks

/-- The output of a server whose pieces come from an honest account. -/
theorem Tracks.output {s : Server} {got begun : List (Piece UInt8)} {file : List UInt8}
    (tracks : s.Tracks got) (inOrder : got <+: begun) (honest : Announces file begun) :
    s.out <+: file ∧ (s.transferDone = true →
      s.out = file ∧ s.bytesWritten = UInt64.ofNat file.length) := by
  -- outside a write, the output is the content of all the pieces received
  have settled_case : ∀ pieces, s.Settled pieces → pieces <+: begun →
      s.out <+: file ∧ (s.transferDone = true →
        s.out = file ∧ s.bytesWritten = UInt64.ofNat file.length) := by
    rintro pieces ⟨output, count, flag⟩ taken
    refine ⟨output ▸ content_prefix_of_prefix honest taken, fun marked => ?_⟩
    have all := output.trans (content_eq_of_finish_mem honest taken (flag.mp marked))
    exact ⟨all, all ▸ count⟩
  unfold Tracks at tracks
  split at tracks
  case h_1 | h_2 => exact settled_case got tracks inOrder
  case h_3 =>
    obtain ⟨before, rfl, settled⟩ := tracks
    exact settled_case before settled ((List.prefix_append _ _).trans inOrder)
  case h_4 =>
    rcases tracks with settled | ⟨before, payload, written, rfl, short, output, flag⟩
    · exact settled_case got settled inOrder
    · constructor
      · have whole := content_prefix_of_prefix honest inOrder
        rw [content_append, content_singleton] at whole
        rw [output]
        exact ((List.prefix_append_right_inj _).mpr short).trans whole
      · -- a piece after the finishing mark: the short write was not part of the account
        intro marked
        obtain ⟨rest, rfl⟩ := inOrder
        rw [List.append_assoc] at honest
        exact absurd (honest.finish_last (flag.mp marked)) (by simp)

end Server

end OmniSocket
