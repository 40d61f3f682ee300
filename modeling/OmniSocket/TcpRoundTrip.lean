/-
# Messages through a byte stream

A sender that calls `tcp_send` successfully for one message after the other puts
their frames on the connection, in whatever pieces `write` takes them. A receiver
reads the same bytes in whatever pieces `read` gives them. Where the one cuts the
stream says nothing about where the other does, so each of them is followed on its
own, and the stream between them is all they share.
-/

import OmniSocket.TcpReader

set_option autoImplicit false

namespace OmniSocket

open Lib

/-- A header of `tcp_send` announces the length of its message. -/
theorem announced_headerBytes (host : Endian) (type len : UInt32) (t0 : UInt64) :
    announced (headerBytes host type len t0) = len.toNat := by
  have header : 8 ≤ (headerBytes host type len t0).length := by
    rw [length_headerBytes, msgHeaderSize]
    omega
  rw [announced, ← (fields_headerOfBytes host _ header).2, len_headerOfBytes]

/-- The results a message of the sender should lead to. -/
def tcpReceived (msgs : List (List UInt8)) : List (ℤ × List UInt8) :=
  msgs.map fun msg => (msg.length, msg)

/-- The grammar takes the frames of a sequence of messages apart again, whatever is
on the connection behind them. -/
theorem tcpResults_wire {host : Endian} {len : ℕ} {fin : StreamEnd} {rest : List UInt8}
    {frames : List (UInt64 × List UInt8)} (bound : len < 2 ^ 32)
    (sizes : ∀ msg ∈ frames.map Prod.snd, 0 < msg.length ∧ msg.length ≤ len) :
    tcpResults len fin (TcpLink.wire host frames ++ rest) =
      tcpReceived (frames.map Prod.snd) ++ tcpResults len fin rest := by
  -- on the frames: the first one is parsed off and the others are behind it
  induction frames with
  | nil => rfl
  | cons frame frames ih =>
    obtain ⟨t0, msg⟩ := frame
    have size := sizes msg (by simp)
    have exact32 : (UInt32.ofNat msg.length).toNat = msg.length := by
      rw [UInt32.toNat_ofNat']
      exact Nat.mod_eq_of_lt (size.2.trans_lt bound)
    have length : announced (headerBytes host msgTypeRaw (UInt32.ofNat msg.length) t0) =
        msg.length := by
      rw [announced_headerBytes, exact32]
    have parse : tcpParse len fin (headerBytes host msgTypeRaw (UInt32.ofNat msg.length) t0 ++
        (msg ++ (TcpLink.wire host frames ++ rest))) = _ :=
      tcpParse_frame (length_headerBytes ..) (length.trans_le size.2) length.symm
    have split : TcpLink.wire host ((t0, msg) :: frames) ++ rest =
        headerBytes host msgTypeRaw (UInt32.ofNat msg.length) t0 ++
          (msg ++ (TcpLink.wire host frames ++ rest)) := by
      rw [TcpLink.wire_cons, List.append_assoc, List.append_assoc]
    rw [split, tcpResults_of_pos (by rw [parse]; exact Int.natCast_pos.mpr size.1), parse]
    rw [ih fun other member => sizes other (by simp [member])]
    rfl

/-- A closed connection with nothing left on it. -/
theorem tcpResults_nil (len : ℕ) : tcpResults len .eof [] = [(0, [])] := by
  have parse : tcpParse len .eof [] = ⟨0, [], []⟩ := tcpParse_short (by decide)
  rw [tcpResults_of_nonpos (by rw [parse]; decide), parse]

/-- With some timestamps, from some senders, the two lists of messages give the same
stream. -/
def SameUpToTimes (first second : List (List UInt8)) : Prop :=
  ∃ (host host' : Endian) (frames frames' : List (UInt64 × List UInt8)),
    frames.map Prod.snd = first ∧ frames'.map Prod.snd = second ∧
      TcpLink.wire host frames = TcpLink.wire host' frames'

/-- A stream of messages that fit the buffer determines the messages. -/
theorem SameUpToTimes.eq {first second : List (List UInt8)} {len : ℕ} (bound : len < 2 ^ 32)
    (sizes : ∀ msg ∈ first, 0 < msg.length ∧ msg.length ≤ len)
    (sizes' : ∀ msg ∈ second, 0 < msg.length ∧ msg.length ≤ len)
    (same : SameUpToTimes first second) : first = second := by
  obtain ⟨host, host', frames, frames', rfl, rfl, stream⟩ := same
  have results : tcpResults len .eof (TcpLink.wire host frames ++ []) = _ :=
    tcpResults_wire bound sizes
  rw [stream, tcpResults_wire bound sizes'] at results
  have received := List.append_cancel_right results
  -- the second components of the results are the messages
  have messages := congrArg (List.map Prod.snd) received
  simpa [tcpReceived, Function.comp_def] using messages.symm

namespace TcpCall

/-- The call has returned the length of its message. -/
def Succeeds (host : Endian) (c : TcpCall) : Prop :=
  ∃ unsent, tcpSend host c.t0 c.msg c.script = .returned c.msg.length unsent

/-- A call that succeeds has written its whole frame. -/
theorem Succeeds.bytes_eq {host : Endian} {c : TcpCall} (succeeds : c.Succeeds host)
    (allowed : c.Allowed host) (small : c.msg.length < 2 ^ 63) : c.bytes host = c.frame host := by
  obtain ⟨unsent, result⟩ := succeeds
  have start := TcpSend.sound_tcpSendStart host c.t0 c.msg
  have sound := (TcpSend.sound_run small start.1 allowed).1
  have whole := bytes_append allowed small
  rw [show c.script.foldl TcpSend.pass (tcpSendStart host c.t0 c.msg) =
    .returned c.msg.length unsent from result] at sound
  rw [result, TcpSend.unsent] at whole
  rcases sound with ⟨-, rfl⟩ | failed
  · rwa [List.append_nil] at whole
  · rw [omniErrIo] at failed
    omega

end TcpCall

/-- Successful calls put the frames of their messages on the connection. -/
theorem bytes_of_succeeds {host : Endian} {calls : List TcpCall}
    (allowed : ∀ c ∈ calls, c.Allowed host) (succeeds : ∀ c ∈ calls, c.Succeeds host)
    (small : ∀ c ∈ calls, c.msg.length < 2 ^ 63) :
    calls.flatMap (TcpCall.bytes host) =
      TcpLink.wire host (calls.map fun c => (c.t0, c.msg)) := by
  rw [wire_map]
  refine List.flatMap_congr fun c member => ?_
  exact (succeeds c member).bytes_eq (allowed c member) (small c member)

/-- Messages that were sent successfully, one after the other, come out of the other end
in order and unchanged, and then the end of the stream: at every point of every way of
reading the results are the first of these, and all of them once a result is not
positive, which happens unless every `read` is interrupted. Two different lists of
messages never have the same stream, whatever their timestamps. -/
theorem tcp_framing_round_trip {sender : Endian} {calls : List TcpCall}
    (allowed : ∀ c ∈ calls, c.Allowed sender) (succeeds : ∀ c ∈ calls, c.Succeeds sender)
    (sizes : ∀ c ∈ calls, 0 < c.msg.length ∧ c.msg.length ≤ frameBufSize) :
    (∀ (reader : Endian) (labels : List TcpReaderLabel) (s : TcpReader),
      (TcpReader.machine reader frameBufSize .eof).run
        (TcpReader.start (calls.flatMap (TcpCall.bytes sender))) labels = some s →
      s.returns <+: tcpReceived (calls.map TcpCall.msg) ++ [(0, [])] ∧
        (s.Finished → s.returns = tcpReceived (calls.map TcpCall.msg) ++ [(0, [])]) ∧
        (¬ s.Finished → ∃ label, label ≠ .read .eintr ∧
          ((TcpReader.machine reader frameBufSize .eof).step s label).isSome) ∧
        labels.countP TcpReader.advances ≤
          (calls.flatMap (TcpCall.bytes sender)).length + 1) ∧
      ∀ other : List (List UInt8), (∀ msg ∈ other, 0 < msg.length ∧ msg.length ≤ frameBufSize) →
        SameUpToTimes (calls.map TcpCall.msg) other → calls.map TcpCall.msg = other := by
  have bound : frameBufSize < 2 ^ 32 := by decide
  have below : frameBufSize < 2 ^ 63 := by decide
  have small : ∀ c ∈ calls, c.msg.length < 2 ^ 63 :=
    fun c member => (sizes c member).2.trans_lt below
  have messages : (calls.map fun c => (c.t0, c.msg)).map Prod.snd = calls.map TcpCall.msg := by
    simp
  have fits : ∀ msg ∈ calls.map TcpCall.msg, 0 < msg.length ∧ msg.length ≤ frameBufSize := by
    simpa using sizes
  -- the grammar gives these results, and every way of reading keeps to the grammar
  have results : tcpResults frameBufSize .eof (calls.flatMap (TcpCall.bytes sender)) =
      tcpReceived (calls.map TcpCall.msg) ++ [(0, [])] := by
    have parsed : tcpResults frameBufSize .eof
        (TcpLink.wire sender (calls.map fun c => (c.t0, c.msg)) ++ []) = _ :=
      tcpResults_wire bound (messages.symm ▸ fits)
    rwa [messages, List.append_nil, tcpResults_nil, ← bytes_of_succeeds allowed succeeds small]
      at parsed
  refine ⟨fun reader labels s hrun => ?_, fun other sizes' same => same.eq bound fits sizes'⟩
  have parses := TcpReader.parses_run hrun
  rw [← results]
  exact ⟨parses.returns_prefix, parses.returns_eq, parses.progress, TcpReader.few_reads hrun⟩

/-- Two messages on a big-endian host: the first goes out in three pieces, the second at
once. -/
def twoCalls : List TcpCall :=
  [{ t0 := 5, msg := [1, 2, 3], script := [.count 10, .eintr, .count 6, .count 3] },
    { t0 := 6, msg := [4], script := [.count 16, .count 1] }]

/-- The reader gets the first header in two pieces and the first payload in two. -/
def twoReads : List TcpReaderLabel :=
  [.read (.count [0, 0, 0, 100, 0, 0, 0, 3, 0]), .read (.count [0, 0, 0, 0, 0, 0, 5]),
    .read (.count [1, 2]), .read .eintr, .read (.count [3]), .next,
    .read (.count [0, 0, 0, 100, 0, 0, 0, 1, 0, 0, 0, 0, 0, 0, 0, 6]), .read (.count [4]), .next,
    .read (.count [])]

/-- A little-endian host that reads them so returns both. -/
theorem tcp_framing_round_trip_two :
    ∃ s, (TcpReader.machine .little frameBufSize .eof).run
        (TcpReader.start (twoCalls.flatMap (TcpCall.bytes .big))) twoReads = some s ∧
      s.returns = tcpReceived (twoCalls.map TcpCall.msg) ++ [(0, [])] := by
  have allowed : ∀ c ∈ twoCalls, c.Allowed .big := by
    simp only [twoCalls, List.forall_mem_cons, TcpCall.Allowed]
    decide +kernel
  have succeeds : ∀ c ∈ twoCalls, c.Succeeds .big := by
    simp only [twoCalls, List.forall_mem_cons]
    exact ⟨⟨[], by decide +kernel⟩, ⟨[], by decide +kernel⟩, by simp⟩
  have sizes : ∀ c ∈ twoCalls, 0 < c.msg.length ∧ c.msg.length ≤ frameBufSize := by
    decide
  have hrun : (TcpReader.machine .little frameBufSize .eof).run
      (TcpReader.start (twoCalls.flatMap (TcpCall.bytes .big))) twoReads =
        some ⟨[], .returned 0 [], [], [(3, [1, 2, 3]), (1, [4])]⟩ := by decide +kernel
  have round := (tcp_framing_round_trip allowed succeeds sizes).1 .little twoReads _ hrun
  exact ⟨_, hrun, round.2.1 ⟨0, [], rfl, le_rfl⟩⟩

end OmniSocket
