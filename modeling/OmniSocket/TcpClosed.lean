/-
# A zero from `tcp_recv`

For its callers a zero means that the peer has closed the connection. `tcp_recv` also
returns the length of the payload, and a header may announce a payload of no bytes. So
a zero means a closed connection on exactly those streams on which no such header is
ever reached; on the others the receive loop of the server leaves with the rest of the
stream unread.
-/

import OmniSocket.ServerLoop
import OmniSocket.TcpReader

set_option autoImplicit false

namespace OmniSocket

open Lib

/-! ## Streams as frames -/

/-- A header and the payload it announces. -/
structure TcpFrame where
  header : List UInt8
  payload : List UInt8
  deriving DecidableEq, Repr

/-- The frame as it is on the connection. -/
def TcpFrame.bytes (f : TcpFrame) : List UInt8 := f.header ++ f.payload

/-- A frame that `tcp_recv` returns to a caller with a buffer of `len` bytes. -/
structure TcpFrame.Returned (len : ℕ) (f : TcpFrame) : Prop where
  complete : f.header.length = msgHeaderSize
  length : f.payload.length = announced f.header
  some_byte : 0 < f.payload.length
  fits : announced f.header ≤ len

/-- After some frames that are returned, a header announces no payload. -/
def MeetsEmptyFrame (len : ℕ) (stream : List UInt8) : Prop :=
  ∃ (frames : List TcpFrame) (header rest : List UInt8),
    (∀ f ∈ frames, f.Returned len) ∧ header.length = msgHeaderSize ∧ announced header = 0 ∧
      stream = frames.flatMap TcpFrame.bytes ++ (header ++ rest)

/-- A frame that is returned only puts off what comes behind it. -/
theorem meetsEmptyFrame_cons {len : ℕ} {f : TcpFrame} {rest : List UInt8}
    (returned : f.Returned len) :
    MeetsEmptyFrame len (f.bytes ++ rest) ↔ MeetsEmptyFrame len rest := by
  constructor
  · rintro ⟨frames, header, tail, all, complete, empty, split⟩
    rw [TcpFrame.bytes, List.append_assoc] at split
    cases frames with
    | nil =>
      -- the header of the frame is not that of an empty one
      rw [List.flatMap_nil, List.nil_append] at split
      have same := List.append_inj_left split (returned.complete.trans complete.symm)
      have length := returned.length
      have some_byte := returned.some_byte
      rw [same, empty] at length
      omega
    | cons g frames =>
      have first := all g List.mem_cons_self
      rw [List.flatMap_cons, TcpFrame.bytes, List.append_assoc, List.append_assoc] at split
      obtain ⟨header_eq, split⟩ :=
        List.append_inj split (returned.complete.trans first.complete.symm)
      have rest_eq := List.append_inj_right split
        (by rw [returned.length, first.length, header_eq])
      exact ⟨frames, header, tail, fun h member => all h (List.mem_cons_of_mem g member), complete,
        empty, rest_eq⟩
  · rintro ⟨frames, header, tail, all, complete, empty, rfl⟩
    refine ⟨f :: frames, header, tail, ?_, complete, empty, by simp⟩
    exact List.forall_mem_cons.mpr ⟨returned, all⟩

/-- A stream of nothing but frames that are returned meets no empty one. -/
theorem not_meetsEmptyFrame {len : ℕ} {frames : List TcpFrame}
    (returned : ∀ f ∈ frames, f.Returned len) :
    ¬ MeetsEmptyFrame len (frames.flatMap TcpFrame.bytes) := by
  -- on the frames: behind the last one there is no room for a header
  induction frames with
  | nil =>
    rintro ⟨frames, header, rest, -, complete, -, split⟩
    have short := congrArg List.length split
    rw [List.length_append, List.length_append, complete, msgHeaderSize] at short
    simp only [List.flatMap_nil, List.length_nil] at short
    omega
  | cons f frames ih =>
    rw [List.flatMap_cons, meetsEmptyFrame_cons (returned f List.mem_cons_self)]
    exact ih fun g member => returned g (List.mem_cons_of_mem f member)

namespace TcpReader

variable {host : Endian} {len : ℕ} {fin : StreamEnd} {stream : List UInt8} {s t : TcpReader}

/-- If the call has returned zero, it has found the connection closed: it has taken no
byte, and there is none left. -/
def ZeroMeansClosed (fin : StreamEnd) (s : TcpReader) : Prop :=
  ∀ buf, s.rx = .returned 0 buf → s.taken = [] ∧ s.rest = [] ∧ fin = .eof

/-- The calls before the current one have returned these frames. -/
def After (len : ℕ) (stream : List UInt8) (frames : List TcpFrame) (s : TcpReader) : Prop :=
  (∀ f ∈ frames, f.Returned len) ∧
    stream = frames.flatMap TcpFrame.bytes ++ (s.taken ++ s.rest) ∧
    s.results = frames.map fun f => ((f.payload.length : ℤ), f.payload)

/-- A positive result is one more frame. -/
theorem After.next {frames : List TcpFrame} (after : s.After len stream frames)
    (parses : s.Parses len fin stream) (step : s.next = some t) :
    ∃ f, t.After len stream (frames ++ [f]) := by
  obtain ⟨returned, split, results⟩ := after
  unfold TcpReader.next at step
  split at step
  case h_1 value buf rx =>
    obtain ⟨positive, rfl⟩ := (Option.ite_none_right_eq_some.mp step).imp_right Option.some.inj
    -- what the grammar says about a positive result is a frame
    have parse := parses.next_result rx
    obtain ⟨header, payload, rest, bytes, complete, length, fits, some_byte, as⟩ :=
      frame_of_pos (by rw [parse]; exact positive)
    obtain ⟨value_eq, buf_eq, rest_eq⟩ := TcpParsed.mk.inj (parse.symm.trans as)
    refine ⟨⟨header, payload⟩, ?_, ?_, ?_⟩
    · intro f member
      rcases List.mem_append.mp member with old | new
      · exact returned f old
      · exact List.mem_singleton.mp new ▸ ⟨complete, length, some_byte, fits⟩
    · rw [split, bytes, rest_eq]
      simp [TcpFrame.bytes]
    · simp [results, value_eq, buf_eq]
  case h_2 => exact absurd step (by simp)

/-- At every point of a run the stream is some frames that have been returned, then what
the current call has taken, then the rest. -/
theorem after_run {labels : List TcpReaderLabel}
    (hrun : (machine host len fin).run (start stream) labels = some s) :
    ∃ frames, s.After len stream frames := by
  have both : s.Parses len fin stream ∧ ∃ frames, s.After len stream frames := by
    refine (machine host len fin).run_invariant
      (I := fun s => s.Parses len fin stream ∧ ∃ frames, s.After len stream frames) ?_
      ⟨parses_start len fin stream, [], by simp, rfl, rfl⟩ hrun
    rintro s label t ⟨parses, frames, after⟩ step
    cases label with
    | read r =>
      obtain ⟨moved, same⟩ := read_taken step
      exact ⟨parses.read step, frames, after.1, moved ▸ after.2.1, same.trans after.2.2⟩
    | next =>
      obtain ⟨f, after'⟩ := after.next parses step
      exact ⟨parses.next step, _, after'⟩
  exact both.2

/-- A call that returns zero has found the end of the stream, or an empty frame. -/
theorem zero_cases {frames : List TcpFrame} {buf : List UInt8} (after : s.After len stream frames)
    (parses : s.Parses len fin stream) (rx : s.rx = .returned 0 buf) :
    (s.taken = [] ∧ s.rest = [] ∧ fin = .eof) ∨ MeetsEmptyFrame len stream := by
  have parse := parses.next_result rx
  rcases tcpParse_cases len fin (s.taken ++ s.rest) with ⟨-, as⟩ | ⟨header, body, bytes, complete,
    ⟨-, as⟩ | ⟨-, -, as⟩ | ⟨-, payload, rest, rfl, length, as⟩⟩ <;>
    obtain ⟨value_eq, -, -⟩ := TcpParsed.mk.inj (parse.symm.trans as)
  · -- of the streams that stop in a header only the empty one gives a zero
    cases fin with
    | error => exact absurd value_eq (show (0 : ℤ) ≠ -1 by decide)
    | eof =>
      simp only [tcpStop] at value_eq
      split_ifs at value_eq with nothing
      · obtain ⟨taken, rest⟩ := List.append_eq_nil_iff.mp nothing
        exact .inl ⟨taken, rest, rfl⟩
      · exact absurd value_eq (by decide)
  · exact absurd value_eq (by decide)
  · exact absurd value_eq (by decide)
  · have none : announced header = 0 := by omega
    exact .inr ⟨frames, header, payload ++ rest, after.1, complete, none, bytes ▸ after.2.1⟩

/-! ## Reaching a header -/

/-- Sixteen bytes can be read at once. -/
theorem read_header {results : List (ℤ × List UInt8)} {header rest : List UInt8}
    (complete : header.length = msgHeaderSize) (fits : announced header ≤ len) :
    ∃ payloadLen : UInt32, payloadLen.toNat = announced header ∧
      read host len fin ⟨header ++ rest, tcpRecvStart, [], results⟩ (.count header) =
        some ⟨rest, tcpRecvPayload payloadLen (tcpReadNTest payloadLen.toNat []), header,
          results⟩ := by
  have some_byte : header ≠ [] := by
    rintro rfl
    exact absurd complete (by decide)
  have same : (headerOfBytes host header).len.toNat = announced header :=
    (fields_headerOfBytes host header (by rw [complete, msgHeaderSize]; omega)).2
  have positive : ¬ (header.length : ℤ) ≤ 0 := by
    rw [complete, msgHeaderSize]
    decide
  refine ⟨(headerOfBytes host header).len, same, ?_⟩
  have passed : tcpRecvStart.pass host len (.count header) =
      tcpRecvPayload (headerOfBytes host header).len
        (tcpReadNTest (headerOfBytes host header).len.toNat []) := by
    rw [tcpRecvStart, TcpRecv.pass, tcpReadNPass, List.nil_append, tcpReadNTest,
      if_neg (by omega), tcpRecvHeader, if_neg positive, if_neg (by rw [complete]; simp)]
    · exact if_neg (by rw [same]; omega)
    · exact some_byte
  have within : header.length ≤ tcpRecvStart.wanted ∧ header <+: header ++ rest :=
    ⟨complete.le, rest, rfl⟩
  have wanted : tcpRecvStart.wanted ≠ 0 := by decide
  rw [TcpReader.read, if_neg wanted]
  simp only [if_neg some_byte, if_pos within, List.drop_left, List.nil_append, passed]

/-- And so can a payload. -/
theorem read_payload {results : List (ℤ × List UInt8)} {header payload rest : List UInt8}
    {payloadLen : UInt32} (length : payloadLen.toNat = payload.length)
    (some_byte : 0 < payload.length) :
    read host len fin ⟨payload ++ rest, .payload payloadLen [], header, results⟩
        (.count payload) =
      some ⟨rest, .returned payload.length payload, header ++ payload, results⟩ := by
  have nonempty : payload ≠ [] := List.ne_nil_of_length_pos some_byte
  have passed : (TcpRecv.payload payloadLen []).pass host len (.count payload) =
      .returned payload.length payload := by
    rw [TcpRecv.pass, tcpReadNPass, List.nil_append, tcpReadNTest, if_neg (by omega),
      tcpRecvPayload, if_neg (by rw [length]; simp), length]
    exact nonempty
  have within : payload.length ≤ (TcpRecv.payload payloadLen []).wanted ∧
      payload <+: payload ++ rest :=
    ⟨by rw [TcpRecv.wanted, List.length_nil]; omega, rest, rfl⟩
  have wanted : (TcpRecv.payload payloadLen []).wanted ≠ 0 := by
    rw [TcpRecv.wanted, List.length_nil]
    omega
  rw [TcpReader.read, if_neg wanted]
  simp only [if_neg nonempty, if_pos within, List.drop_left, passed]

/-- A frame can be read in two pieces and then be used. -/
theorem run_frame {results : List (ℤ × List UInt8)} {f : TcpFrame} {rest : List UInt8}
    (returned : f.Returned len) :
    (machine host len fin).run ⟨f.bytes ++ rest, tcpRecvStart, [], results⟩
        [.read (.count f.header), .read (.count f.payload), .next] =
      some ⟨rest, tcpRecvStart, [], results ++ [((f.payload.length : ℤ), f.payload)]⟩ := by
  obtain ⟨complete, length, some_byte, fits⟩ := returned
  obtain ⟨payloadLen, same, header⟩ : ∃ payloadLen : UInt32, payloadLen.toNat = announced f.header ∧
      read host len fin ⟨f.header ++ (f.payload ++ rest), tcpRecvStart, [], results⟩
        (.count f.header) = some ⟨f.payload ++ rest,
          tcpRecvPayload payloadLen (tcpReadNTest payloadLen.toNat []), f.header, results⟩ :=
    read_header complete fits
  -- the payload is not empty, so the call goes on to read it
  have waiting : tcpRecvPayload payloadLen (tcpReadNTest payloadLen.toNat []) =
      .payload payloadLen [] := by
    rw [tcpReadNTest, if_pos (by rw [List.length_nil]; omega), tcpRecvPayload]
  rw [waiting] at header
  have payload : read host len fin ⟨f.payload ++ rest, .payload payloadLen [], f.header, results⟩
      (.count f.payload) = some ⟨rest, .returned f.payload.length f.payload,
        f.header ++ f.payload, results⟩ :=
    read_payload (same.trans length.symm) some_byte
  have used : (TcpReader.mk rest (.returned f.payload.length f.payload) (f.header ++ f.payload)
      results).next = some ⟨rest, tcpRecvStart, [],
        results ++ [((f.payload.length : ℤ), f.payload)]⟩ := by
    rw [TcpReader.next]
    exact if_pos (Int.natCast_pos.mpr some_byte)
  rw [TcpFrame.bytes, List.append_assoc]
  simp only [Machine.run_cons, machine, header, payload, used, Option.bind_some, Machine.run_nil]

/-- So some run reaches the header behind any number of frames. -/
theorem run_frames {frames : List TcpFrame} {results : List (ℤ × List UInt8)} {rest : List UInt8}
    (returned : ∀ f ∈ frames, f.Returned len) :
    ∃ labels results', (machine host len fin).run
        ⟨frames.flatMap TcpFrame.bytes ++ rest, tcpRecvStart, [], results⟩ labels =
      some ⟨rest, tcpRecvStart, [], results'⟩ := by
  induction frames generalizing results with
  | nil => exact ⟨[], results, rfl⟩
  | cons f frames ih =>
    obtain ⟨labels, results', later⟩ := @ih (results ++ [((f.payload.length : ℤ), f.payload)])
      fun g member => returned g (List.mem_cons_of_mem f member)
    refine ⟨[.read (.count f.header), .read (.count f.payload), .next] ++ labels, results', ?_⟩
    rw [List.flatMap_cons, List.append_assoc]
    exact (machine host len fin).run_append_eq_some.mpr
      ⟨_, run_frame (returned f List.mem_cons_self), later⟩

/-- `tcp_recv` returns zero only for a closed connection exactly if it never comes to an
empty frame. -/
theorem zero_iff (host : Endian) (len : ℕ) (fin : StreamEnd) (stream : List UInt8) :
    (∀ labels s, (machine host len fin).run (start stream) labels = some s →
      s.ZeroMeansClosed fin) ↔ ¬ MeetsEmptyFrame len stream := by
  constructor
  · rintro closed ⟨frames, header, rest, returned, complete, empty, rfl⟩
    obtain ⟨labels, results, reached⟩ : ∃ labels results, (machine host len fin).run
        (start (frames.flatMap TcpFrame.bytes ++ (header ++ rest))) labels =
          some ⟨header ++ rest, tcpRecvStart, [], results⟩ :=
      run_frames returned
    obtain ⟨payloadLen, same, last⟩ : ∃ payloadLen : UInt32, payloadLen.toNat = announced header ∧
        read host len fin ⟨header ++ rest, tcpRecvStart, [], results⟩ (.count header) =
          some ⟨rest, tcpRecvPayload payloadLen (tcpReadNTest payloadLen.toNat []), header,
            results⟩ :=
      read_header complete (empty ▸ Nat.zero_le len)
    -- a payload of no bytes is complete before the first `read`
    have zero : tcpRecvPayload payloadLen (tcpReadNTest payloadLen.toNat []) = .returned 0 [] := by
      rw [same, empty, tcpReadNTest, if_neg (by simp), tcpRecvPayload,
        if_neg (by simp [same, empty]), same, empty]
      rfl
    rw [zero] at last
    have hrun : (machine host len fin).run (start (frames.flatMap TcpFrame.bytes ++
        (header ++ rest))) (labels ++ [.read (.count header)]) =
          some ⟨rest, .returned 0 [], header, results⟩ :=
      (machine host len fin).run_append_eq_some.mpr
        ⟨_, reached, (machine host len fin).run_cons_eq_some.mpr ⟨_, last, rfl⟩⟩
    have nothing := (closed _ _ hrun [] rfl).1
    simp only at nothing
    rw [nothing] at complete
    exact absurd complete (by decide)
  · intro unmet labels s hrun buf rx
    obtain ⟨frames, after⟩ := after_run hrun
    exact (zero_cases after (parses_run hrun) rx).resolve_right unmet

end TcpReader

/-! ## The receive loop -/

/-- The receive thread of a server, at the end of a TCP connection. -/
structure TcpServer where
  server : Server
  /-- `tcp_recv`, called with the thread's `frame`. -/
  reader : TcpReader
  /-- The thread has logged `tcp_peer_closed`. -/
  closed : Bool
  deriving DecidableEq, Repr

/-- What the environment decides for it. -/
inductive TcpServerLabel
  /-- A `read` inside `tcp_recv`. -/
  | read (r : ReadResult)
  /-- `tcp_recv` returns. -/
  | recv
  /-- Anything else the server does. -/
  | act (event : ServerEvent)
  deriving DecidableEq, Repr

namespace TcpServer

variable {host : Endian} {size : SizeT} {fin : StreamEnd} {stream : List UInt8} {s t : TcpServer}

/-- The receive thread when it starts. -/
def start (stream : List UInt8) : TcpServer where
  server := Server.start .tcp
  reader := TcpReader.start stream
  closed := false

/-- One action. A result that is not positive is the last one the loop asks for. -/
def step (host : Endian) (size : SizeT) (fin : StreamEnd) (s : TcpServer) :
    TcpServerLabel → Option TcpServer
  | .read r =>
    if s.server.pc = .receiving then
      (s.reader.read host frameBufSize fin r).map fun reader => { s with reader := reader }
    else none
  | .recv =>
    match s.reader.rx with
    | .returned n frame =>
      (s.server.step host size (.recv n frame)).map fun server =>
        { server := server, reader := s.reader.next.getD s.reader, closed := s.closed || n = 0 }
    | _ => none
  | .act event =>
    match event with
    | .recv _ _ => none
    | event => (s.server.step host size event).map fun server => { s with server := server }

/-- The receive thread on one connection. -/
def machine (host : Endian) (size : SizeT) (fin : StreamEnd) :
    Machine TcpServer TcpServerLabel where
  step s label := s.step host size fin label

/-- What ties the loop to its connection: the strings it has dealt with are the payloads
of the frames behind it, and a zero was its last result. -/
structure Linked (host : Endian) (size : SizeT) (fin : StreamEnd) (stream : List UInt8)
    (s : TcpServer) : Prop where
  proto : s.server.proto = .tcp
  parses : s.reader.Parses frameBufSize fin stream
  after : ∃ frames, s.reader.After frameBufSize stream frames
  accounts : s.server.Accounts host size (s.reader.results.map Prod.snd)
  zero : s.closed = true → s.server.pc = .stopped ∧ (∃ frame, s.reader.rx = .returned 0 frame) ∧
    Server.Holds host size (s.reader.results.map Prod.snd) s.server.out s.server.bytesWritten
      s.server.transferDone

theorem linked_start (host : Endian) (size : SizeT) (fin : StreamEnd) (stream : List UInt8) :
    (start stream).Linked host size fin stream :=
  ⟨rfl, TcpReader.parses_start frameBufSize fin stream, ⟨[], by simp, rfl, rfl⟩,
    Server.accounts_start host size .tcp, fun closed => by cases closed⟩

/-- An action of the server that is not the end of a call. -/
theorem linked_act {event : ServerEvent} {server : Server} (linked : s.Linked host size fin stream)
    (other : Server.received [event] = []) (step : s.server.step host size event = some server) :
    Linked host size fin stream { s with server := server } := by
  have accounts := Server.accounts_step linked.accounts step
  rw [other, List.append_nil] at accounts
  refine ⟨(Server.proto_step step).trans linked.proto, linked.parses, linked.after, accounts, ?_⟩
  intro closed
  obtain ⟨stopped, last, holds⟩ := linked.zero closed
  obtain ⟨-, pc, out, count, flag⟩ := Server.stopped_step_eq stopped step
  exact ⟨pc, last, by rw [out, count, flag]; exact holds⟩

/-- The end of a call. A positive result is one string more, zero is the end of the
loop. -/
theorem linked_recv {n : ℤ} {frame : List UInt8} {server : Server}
    (linked : s.Linked host size fin stream) (rx : s.reader.rx = .returned n frame)
    (step : s.server.step host size (.recv n frame) = some server) :
    Linked host size fin stream
      ⟨server, s.reader.next.getD s.reader, s.closed || n = 0⟩ := by
  have accounts := Server.accounts_step linked.accounts step
  have receiving : s.server.pc = .receiving := by
    simp only [Server.step] at step
    split at step
    case h_1 pc => exact pc
    case h_2 => exact absurd step (by simp)
  -- a loop that has seen a zero asks for nothing more
  have fresh : s.closed = false := by
    refine Bool.eq_false_iff.mpr fun closed => ?_
    exact absurd ((linked.zero closed).1.symm.trans receiving) (by simp)
  by_cases positive : 0 < n
  · have next : s.reader.next = some { s.reader with
        rx := tcpRecvStart, taken := [], results := s.reader.results ++ [(n, frame)] } := by
      rw [TcpReader.next, rx]
      exact if_pos positive
    -- `n` is the length of what `tcp_recv` has stored
    have whole : frame.take n.toNat = frame := by
      obtain ⟨_, payload, _, -, -, -, -, -, parse⟩ :=
        frame_of_pos (by rw [linked.parses.next_result rx]; exact positive)
      obtain ⟨value, stored, -⟩ :=
        TcpParsed.mk.inj ((linked.parses.next_result rx).symm.trans parse)
      rw [value, stored, Int.toNat_natCast, List.take_length]
    obtain ⟨frames, after⟩ := linked.after
    obtain ⟨f, after'⟩ := after.next linked.parses next
    simp only [Server.received, List.filterMap_cons, List.filterMap_nil, if_pos positive,
      whole] at accounts
    rw [next]
    refine ⟨(Server.proto_step step).trans linked.proto, linked.parses.next next,
      ⟨_, after'⟩, ?_, ?_⟩
    · simp only [Option.getD_some, List.map_append, List.map_cons, List.map_nil]
      exact accounts
    · intro closed
      simp only [fresh, Bool.false_or, decide_eq_true_eq] at closed
      omega
  · have next : s.reader.next = none := by
      rw [TcpReader.next, rx]
      exact if_neg positive
    simp only [Server.received, List.filterMap_cons, List.filterMap_nil, if_neg positive,
      List.append_nil] at accounts
    rw [next]
    refine ⟨(Server.proto_step step).trans linked.proto, linked.parses, linked.after, accounts, ?_⟩
    intro closed
    simp only [fresh, Bool.false_or, decide_eq_true_eq] at closed
    subst closed
    have holds := linked.accounts
    simp only [Server.Accounts, receiving] at holds
    simp only [Server.step, receiving, Option.some.injEq] at step
    subst step
    rw [Server.afterRecv, if_neg (by omega), if_pos rfl, if_pos linked.proto]
    exact ⟨rfl, ⟨frame, rx⟩, holds⟩

theorem linked_step {label : TcpServerLabel} (linked : s.Linked host size fin stream)
    (step : (machine host size fin).step s label = some t) : t.Linked host size fin stream := by
  cases label with
  | read r =>
    simp only [machine, TcpServer.step] at step
    rw [Option.ite_none_right_eq_some] at step
    obtain ⟨receiving, step⟩ := step
    obtain ⟨reader, read, rfl⟩ := Option.map_eq_some_iff.mp step
    -- a `read` inside the call concerns the reader only
    obtain ⟨moved, same⟩ := TcpReader.read_taken read
    obtain ⟨frames, after⟩ := linked.after
    refine ⟨linked.proto, linked.parses.read read,
      ⟨frames, after.1, moved ▸ after.2.1, same.trans after.2.2⟩, ?_, ?_⟩
    · rw [same]
      exact linked.accounts
    · intro closed
      exact absurd ((linked.zero closed).1.symm.trans receiving) (by simp)
  | recv =>
    simp only [machine, TcpServer.step] at step
    split at step
    case h_1 n frame rx =>
      obtain ⟨server, acted, rfl⟩ := Option.map_eq_some_iff.mp step
      exact linked_recv linked rx acted
    case h_2 => exact absurd step (by simp)
  | act event =>
    cases event <;> simp only [machine, TcpServer.step] at step
    case recv => exact absurd step (by simp)
    all_goals
      obtain ⟨server, acted, rfl⟩ := Option.map_eq_some_iff.mp step
      exact linked_act linked rfl acted

/-- Every state of every run is tied to its connection. -/
theorem linked_run {labels : List TcpServerLabel}
    (hrun : (machine host size fin).run (start stream) labels = some s) :
    s.Linked host size fin stream :=
  (machine host size fin).run_invariant (fun _ _ _ linked step => linked_step linked step)
    (linked_start host size fin stream) hrun

/-- The whole stream has been taken, and every frame of it has been dealt with. -/
def Consumed (host : Endian) (size : SizeT) (stream : List UInt8) (s : TcpServer) : Prop :=
  s.reader.taken = [] ∧ s.reader.rest = [] ∧
    ∃ frames : List TcpFrame, (∀ f ∈ frames, f.Returned frameBufSize) ∧
      stream = frames.flatMap TcpFrame.bytes ∧
      Server.Holds host size (frames.map TcpFrame.payload) s.server.out s.server.bytesWritten
        s.server.transferDone

/-- Without an empty frame the loop leaves with a zero at the end of the stream only. -/
theorem consumed_of_closed {labels : List TcpServerLabel}
    (unmet : ¬ MeetsEmptyFrame frameBufSize stream)
    (hrun : (machine host size fin).run (start stream) labels = some s) (closed : s.closed = true) :
    fin = .eof ∧ s.Consumed host size stream := by
  have linked := linked_run hrun
  obtain ⟨-, ⟨frame, rx⟩, holds⟩ := linked.zero closed
  obtain ⟨frames, after⟩ := linked.after
  obtain ⟨taken, rest, ended⟩ :=
    (TcpReader.zero_cases after linked.parses rx).resolve_right unmet
  obtain ⟨returned, split, results⟩ := after
  rw [taken, rest, List.append_nil, List.append_nil] at split
  rw [results, List.map_map] at holds
  exact ⟨ended, taken, rest, frames, returned, split, holds⟩

/-- Whatever a peer sends in whatever pieces: `tcp_recv` returns zero for nothing but a
closed connection exactly if it comes to no empty frame, and then the server logs
`tcp_peer_closed` only once it has dealt with every frame of the stream. -/
theorem zero_means_closed (host : Endian) (size : SizeT) (fin : StreamEnd) (stream : List UInt8) :
    (∀ len, (∀ labels s, (TcpReader.machine host len fin).run (TcpReader.start stream) labels =
        some s → s.ZeroMeansClosed fin) ↔ ¬ MeetsEmptyFrame len stream) ∧
      (¬ MeetsEmptyFrame frameBufSize stream → ∀ labels s,
        (machine host size fin).run (start stream) labels = some s → s.closed = true →
          fin = .eof ∧ s.Consumed host size stream) :=
  ⟨fun len => TcpReader.zero_iff host len fin stream,
    fun unmet _ _ hrun closed => consumed_of_closed unmet hrun closed⟩

/-- A chunk of two bytes, as it is on the connection. -/
def oneChunk : TcpFrame where
  header := [0, 0, 0, 100, 0, 0, 0, 18, 0, 0, 0, 0, 0, 0, 0, 5]
  payload := appFrame .little msgTypeFileChunk [7, 8] 4

/-- The server reads it in two pieces and then finds the connection closed. -/
def readChunk : List TcpServerLabel :=
  [.act .load, .read (.count oneChunk.header), .read (.count oneChunk.payload), .recv,
    .act (.fwrite 2), .act .load, .read (.count []), .recv]

theorem zero_means_closed_chunk :
    ∃ s, (machine .little .bits64 .eof).run (start oneChunk.bytes) readChunk = some s ∧
      s.closed = true ∧ s.server.out = [7, 8] ∧ s.Consumed .little .bits64 oneChunk.bytes := by
  have hrun : (machine .little .bits64 .eof).run (start oneChunk.bytes) readChunk =
      some ⟨⟨.stopped, .tcp, false, false, [7, 8], 2⟩,
        ⟨[], .returned 0 [], [], [(18, oneChunk.payload)]⟩, true⟩ := by decide +kernel
  have unmet : ¬ MeetsEmptyFrame frameBufSize oneChunk.bytes := by
    have whole : oneChunk.Returned frameBufSize :=
      ⟨by decide, by decide +kernel, by decide +kernel, by decide +kernel⟩
    have none := not_meetsEmptyFrame (List.forall_mem_singleton.mpr whole)
    rwa [List.flatMap_singleton] at none
  exact ⟨_, hrun, rfl, rfl, ((zero_means_closed .little .bits64 .eof oneChunk.bytes).2 unmet _ _
    hrun rfl).2⟩

/-- The same chunk behind an empty frame. -/
def emptyFirst : List UInt8 :=
  [0, 0, 0, 100, 0, 0, 0, 0, 0, 0, 0, 0, 0, 0, 0, 5] ++ oneChunk.bytes

/-- The empty frame is taken for a closed connection, and the chunk is left where it is. -/
theorem zero_means_closed_counterexample :
    ¬ ((∀ labels s, (TcpReader.machine .little frameBufSize .eof).run
          (TcpReader.start emptyFirst) labels = some s → s.ZeroMeansClosed .eof) ∨
      (∀ labels s, (machine .little .bits64 .eof).run (start emptyFirst) labels = some s →
        s.closed = true → s.Consumed .little .bits64 emptyFirst)) := by
  have read : (TcpReader.machine .little frameBufSize .eof).run (TcpReader.start emptyFirst)
      [.read (.count (emptyFirst.take 16))] =
        some ⟨oneChunk.bytes, .returned 0 [], emptyFirst.take 16, []⟩ := by decide +kernel
  have left : (machine .little .bits64 .eof).run (start emptyFirst)
      [.act .load, .read (.count (emptyFirst.take 16)), .recv] =
        some ⟨⟨.stopped, .tcp, false, false, [], 0⟩,
          ⟨oneChunk.bytes, .returned 0 [], emptyFirst.take 16, []⟩, true⟩ := by decide +kernel
  rintro (closed | consumed)
  · exact absurd (closed _ _ read [] rfl).1 (by decide)
  · exact absurd (consumed _ _ left rfl).1 (by decide)

end TcpServer

end OmniSocket
