/-
# The way into the relay

The server leaves its loop when `omni_recv` returns nothing. The relay leaves it only on
an error; after a result of zero it waits a little and calls `omni_recv` again. So it has
to be known that a call that returns zero has taken nothing from the connection. Then the
relay, like the server, is given the client's messages in order.
-/

import OmniSocket.TcpTransfer
import OmniSocket.TcpWay

set_option autoImplicit false

namespace OmniSocket

open Lib

namespace TcpLink

/-! ## A receiver that calls again -/

/-- What a receiver that calls again after a result of zero knows of the stream: its call
has failed, or has found the end of the stream before the first byte of a frame, or the
frames are there. -/
inductive Polls (sender : Endian) (frames : List (UInt64 × List UInt8)) (stream : List UInt8)
    (rx : TcpRecv) : Prop
  | failed (value : ℤ) (got : List UInt8) (same : rx = .returned value got) (negative : value < 0)
  | empty (same : rx = .returned 0 []) (bytes : stream = wire sender frames)
  | delivers (delivers : Delivers sender frames stream rx)

/-- The messages still to be received by such a receiver, as in `Carries`. -/
def Conveys (sender : Endian) (len : ℕ) (l : TcpLink) (unsent : List UInt8)
    (pending : List (List UInt8)) : Prop :=
  ∃ frames : List (UInt64 × List UInt8), frames.map Prod.snd = pending ∧
    (∀ buf ∈ pending, buf.length ≤ len) ∧ Polls sender frames (l.pipe ++ unsent) l.rx

variable {sender host : Endian} {len size : ℕ} {l l' : TcpLink} {unsent : List UInt8}
  {pending : List (List UInt8)} {frames : List (UInt64 × List UInt8)} {stream : List UInt8}
  {rx : TcpRecv}

theorem polls_start (bytes : stream = wire sender frames) :
    Polls sender frames stream tcpRecvStart :=
  .delivers ⟨by simp [msgHeaderSize], bytes⟩

theorem conveys_fresh (sender : Endian) (len : ℕ) : fresh.Conveys sender len [] [] :=
  ⟨[], rfl, by simp, polls_start rfl⟩

/-- A frame put behind the stream is the last one to be received. -/
theorem Polls.append (polls : Polls sender frames stream rx) (t0 : UInt64) (buf : List UInt8) :
    Polls sender (frames ++ [(t0, buf)]) (stream ++ tcpFrame sender t0 buf) rx := by
  cases polls with
  | failed value got same negative => exact .failed value got same negative
  | empty same bytes =>
    refine .empty same ?_
    rw [bytes, wire_append]
    simp [wire]
  | delivers delivers => exact .delivers (delivers.append t0 buf)

/-- The end of the stream ends a call: with zero before a frame, with an error inside it. -/
theorem Polls.pass_end (polls : Polls sender frames stream rx) :
    Polls sender frames stream (rx.pass host len (.count [])) := by
  cases polls with
  | failed value got same negative => exact .failed value got (by rw [same]; rfl) negative
  | empty same bytes => exact .empty (by rw [same]; rfl) bytes
  | delivers delivers =>
    cases rx with
    | header got =>
      rw [TcpRecv.pass, tcpReadNPass, tcpRecvHeader]
      obtain ⟨short, bytes⟩ := delivers
      split_ifs with none
      · obtain rfl : got = [] := List.length_eq_zero_iff.mp (by omega)
        exact .empty rfl bytes
      · exact .failed _ _ rfl (by decide)
      · omega
    | payload payloadLen got =>
      obtain ⟨t0, buf, rest, -, lenEq, short, -⟩ := delivers
      rw [TcpRecv.pass, tcpReadNPass, tcpRecvPayload, if_pos (by omega)]
      exact .failed _ _ rfl (by decide)
    | returned value got => exact .delivers delivers

theorem Polls.pass_bytes {read : List UInt8} (bound : len < 2 ^ 32)
    (fits : ∀ buf ∈ frames.map Prod.snd, buf.length ≤ len) (within : read.length ≤ rx.wanted)
    (polls : Polls sender frames (read ++ stream) rx) :
    Polls sender frames stream (rx.pass host len (.count read)) := by
  by_cases none : read = []
  · subst none
    exact polls.pass_end
  · -- a call that has returned asks for nothing
    have calling : ∀ value got, rx ≠ .returned value got := by
      rintro value got rfl
      rw [TcpRecv.wanted, Nat.le_zero, List.length_eq_zero_iff] at within
      exact none within
    cases polls with
    | failed value got same => exact absurd same (calling value got)
    | empty same => exact absurd same (calling 0 [])
    | delivers delivers => exact .delivers (delivers.pass_bytes bound fits none within)

/-- A `read` that fails repeats the loop, or ends the call with an error. -/
theorem Polls.pass_fail {r : ReadResult} (fails : r = .eintr ∨ r = .error)
    (polls : Polls sender frames stream rx) :
    Polls sender frames stream (rx.pass host len r) := by
  cases polls with
  | failed value got same negative => exact .failed value got (by rw [same]; rfl) negative
  | empty same bytes => exact .empty (by rw [same]; rfl) bytes
  | delivers delivers =>
    rcases fails with rfl | rfl
    · refine .delivers ?_
      cases rx <;> exact delivers
    · cases rx with
      | header got => exact .failed (-1) [] rfl (by decide)
      | payload payloadLen got =>
        rw [TcpRecv.pass, tcpReadNPass, tcpRecvPayload, if_pos (by omega)]
        exact .failed _ _ rfl (by decide)
      | returned value got => exact .delivers delivers

theorem Conveys.beginSend (t0 : UInt64) {buf : List UInt8}
    (conveys : l.Conveys sender len [] pending) (fits : buf.length ≤ len) :
    (l.beginSend sender t0 buf).Conveys sender len (tcpFrame sender t0 buf)
      (pending ++ [buf]) := by
  obtain ⟨frames, rfl, small, polls⟩ := conveys
  rw [List.append_nil] at polls
  refine ⟨frames ++ [(t0, buf)], by simp, ?_, polls.append t0 buf⟩
  intro other member
  rcases List.mem_append.mp member with old | new
  · exact small other old
  · exact (List.mem_singleton.mp new) ▸ fits

theorem Conveys.read {r : ReadResult} (bound : len < 2 ^ 32)
    (conveys : l.Conveys sender len unsent pending) (step : l.read host len r = some l') :
    l'.Conveys sender len unsent pending := by
  obtain ⟨frames, rfl, fits, polls⟩ := conveys
  cases r with
  | count bytes =>
    obtain ⟨⟨within, later, pipe⟩, rfl⟩ :=
      (Option.ite_none_right_eq_some.mp step).imp_right Option.some.inj
    rw [← pipe, List.append_assoc] at polls
    refine ⟨frames, rfl, fits, ?_⟩
    simp only [← pipe, List.drop_left]
    exact polls.pass_bytes bound fits within
  | eintr =>
    obtain rfl := Option.some.inj step
    exact ⟨frames, rfl, fits, polls.pass_fail (.inl rfl)⟩
  | error =>
    obtain rfl := Option.some.inj step
    exact ⟨frames, rfl, fits, polls.pass_fail (.inr rfl)⟩

/-- A message that `tcp_recv` returned is the next one sent. -/
theorem Conveys.endRecv {value : ℤ} {got : List UInt8}
    (conveys : l.Conveys sender len unsent pending) (returned : l.rx = .returned value got)
    (positive : 0 < value) :
    value = got.length ∧ ∃ rest, pending = got :: rest ∧
      l.endRecv.Conveys sender len unsent rest := by
  obtain ⟨frames, rfl, fits, polls⟩ := conveys
  rw [returned] at polls
  cases polls with
  | failed value' got' same negative =>
    obtain ⟨rfl, -⟩ := TcpRecv.returned.inj same
    omega
  | empty same =>
    obtain ⟨rfl, -⟩ := TcpRecv.returned.inj same
    omega
  | delivers delivers =>
    obtain ⟨t0, rest, rfl, value_eq, bytes⟩ := delivers
    refine ⟨value_eq, rest.map Prod.snd, rfl, rest, rfl, ?_, polls_start bytes⟩
    exact fun buf member => fits buf (List.mem_cons_of_mem _ member)

/-- A call that returned zero has taken nothing, unless there are empty messages. -/
theorem Conveys.endRecv_zero {got : List UInt8} (conveys : l.Conveys sender len unsent pending)
    (some_byte : ∀ buf ∈ pending, buf ≠ []) (returned : l.rx = .returned 0 got) :
    l.endRecv.Conveys sender len unsent pending := by
  obtain ⟨frames, rfl, fits, polls⟩ := conveys
  rw [returned] at polls
  cases polls with
  | failed value' got' same negative =>
    obtain ⟨rfl, -⟩ := TcpRecv.returned.inj same
    exact absurd negative (lt_irrefl 0)
  | empty same bytes => exact ⟨frames, rfl, fits, polls_start bytes⟩
  | delivers delivers =>
    obtain ⟨t0, rest, rfl, value_eq, -⟩ := delivers
    refine absurd (List.length_eq_zero_iff.mp ?_) (some_byte got List.mem_cons_self)
    omega

end TcpLink

/-! ## The client's end -/

namespace Client

/-- The client is inside `omni_send` with the bytes `unsent` left of its frame, or it is
not, as in a transfer to a server. -/
def Sending (c : Client) (l : TcpLink) (unsent : List UInt8) : Prop :=
  TcpTransfer.Sending ⟨c, l, .start .tcp⟩ unsent

/-- The messages `pending` are what the connection will still deliver to the relay. -/
def Upstream (host : Endian) (c : Client) (l : TcpLink) (pending : List FileMessage) : Prop :=
  ∃ unsent, l.Conveys host frameBufSize unsent (pending.map (FileMessage.frame host)) ∧
    c.Sending l unsent

variable {host : Endian} {chunkSize : ℕ} {c c' : Client} {l l' : TcpLink}
  {pending : List FileMessage}

theorem upstream_start (host : Endian) (file : List UInt8) :
    (start file).Upstream host .fresh [] :=
  ⟨[], TcpLink.conveys_fresh .., .inl rfl⟩

/-- A client outside `omni_send` leaves the connection alone. -/
theorem Upstream.client {event : ClientEvent} (upstream : c.Upstream host l pending)
    (step : c.step host chunkSize event = some c') (outside : ∀ n, event ≠ .sent n) :
    c'.Upstream host l pending := by
  obtain ⟨unsent, conveys, sending⟩ := upstream
  have sending' := @TcpTransfer.Sending.client ⟨host, host, .bits64⟩ _ _ _ _ _ sending step outside
  exact ⟨unsent, conveys, sending'⟩

/-- A client that begins to send a message is not inside `omni_send`. -/
theorem Upstream.startSend {now : UInt64} {m : FileMessage} (t0 : UInt64)
    (upstream : c.Upstream host l pending) (busy : ¬ c.Finished)
    (step : c.step host chunkSize (.malloc true now) = some c')
    (pc : c'.pc = .sending m.type m.payload (m.frame host)) :
    c'.Upstream host (l.beginSend host t0 (m.frame host)) (pending ++ [m]) := by
  obtain ⟨unsent, conveys, sending⟩ := upstream
  have idle : unsent = [] := by
    unfold Sending TcpTransfer.Sending at sending
    split at sending
    case h_1 =>
      obtain ⟨-, type, payload, frame, inside, -⟩ := sending
      have inside : c.pc = .sending type payload frame := inside
      simp [Client.step, inside] at step
    case h_2 => exact sending.resolve_right busy
  subst idle
  have started := TcpSend.sound_tcpSendStart host t0 (m.frame host)
  refine ⟨tcpFrame host t0 (m.frame host), ?_, ?_⟩
  · simpa using conveys.beginSend t0 (m.length_frame_le host)
  · exact ⟨started.2.symm, _, _, _, pc, m.isFile, length_appFrame .., started.1⟩

/-- A `write` moves bytes of the frame the client is sending. -/
theorem Upstream.write {r : WriteResult} (upstream : c.Upstream host l pending)
    (step : l.write r = some l') : c.Upstream host l' pending := by
  obtain ⟨unsent, ⟨frames, same, fits, polls⟩, sending⟩ := upstream
  cases calling : l.tx with
  | none => exact absurd step (by simp [TcpLink.write, calling])
  | some tx =>
    simp only [Sending, TcpTransfer.Sending, calling] at sending
    obtain ⟨rfl, type, payload, frame, pc, message, length, sound⟩ := sending
    have small : frame.length < 2 ^ 63 := by
      have := message.length_le
      rw [length, msgHeaderSize]
      omega
    obtain ⟨tx', moved, calling', sound', pipe, bytes⟩ :=
      TcpLink.write_spec small calling sound step
    refine ⟨tx'.unsent, ⟨frames, same, fits, ?_⟩, ?_⟩
    · rw [pipe, List.append_assoc, bytes, TcpLink.rx_write step]
      exact polls
    · simp only [Sending, TcpTransfer.Sending, calling', true_and]
      exact ⟨type, payload, frame, pc, message, length, sound'⟩

/-- A client whose `omni_send` has failed sends nothing more. -/
theorem Upstream.sendReturn {value : ℤ} {left : List UInt8}
    (upstream : c.Upstream host l pending) (calling : l.tx = some (.returned value left))
    (step : c.step host chunkSize (.sent value) = some c') :
    c'.Upstream host l.endSend pending := by
  obtain ⟨unsent, conveys, sending⟩ := upstream
  simp only [Sending, TcpTransfer.Sending, calling] at sending
  obtain ⟨rfl, type, payload, frame, pc, message, length, sound⟩ := sending
  refine ⟨unsent, conveys, ?_⟩
  rcases sound with ⟨-, complete⟩ | failed
  · exact .inl complete
  · refine .inr (finished_of_failed pc message ?_ step)
    have small := message.length_le
    rw [failed, length, ssize_of_lt (by rw [msgHeaderSize]; omega), omniErrIo]
    omega

/-- A `read` of the relay does not touch the client. -/
theorem Upstream.read {reader : Endian} {r : ReadResult} (upstream : c.Upstream host l pending)
    (step : l.read reader frameBufSize r = some l') : c.Upstream host l' pending := by
  obtain ⟨unsent, conveys, sending⟩ := upstream
  refine ⟨unsent, conveys.read (by decide) step, ?_⟩
  have same : l'.tx = l.tx := TcpLink.tx_read step
  simpa only [Sending, TcpTransfer.Sending, same] using sending

/-- The relay has been given the client's next message. -/
theorem Upstream.endRecv {value : ℤ} {got : List UInt8} (upstream : c.Upstream host l pending)
    (returned : l.rx = .returned value got) (positive : 0 < value) :
    ∃ m later, pending = m :: later ∧ got = m.frame host ∧ value = got.length ∧
      c.Upstream host l.endRecv later := by
  obtain ⟨unsent, conveys, sending⟩ := upstream
  obtain ⟨value_eq, others, next, conveys'⟩ := conveys.endRecv returned positive
  obtain ⟨m, later, rfl, rfl, rfl⟩ := List.map_eq_cons_iff.mp next
  exact ⟨m, later, rfl, rfl, value_eq, unsent, conveys', sending⟩

/-- The relay has been given nothing. -/
theorem Upstream.endRecv_zero {got : List UInt8} (upstream : c.Upstream host l pending)
    (returned : l.rx = .returned 0 got) : c.Upstream host l.endRecv pending := by
  obtain ⟨unsent, conveys, sending⟩ := upstream
  refine ⟨unsent, conveys.endRecv_zero ?_ returned, sending⟩
  rintro buf member rfl
  -- no frame is empty
  obtain ⟨m, -, none⟩ := List.mem_map.mp member
  have length := length_appFrame host m.type m.payload m.now
  rw [show appFrame host m.type m.payload m.now = [] from none, List.length_nil,
    msgHeaderSize] at length
  omega

end Client

end OmniSocket
