/-
# The frames of a byte stream

What successive calls of `tcp_recv` should make of the bytes of a peer, said once
for a whole stream: a frame is a header of sixteen bytes, whose bytes four to
seven write the length of the payload behind it. The stream may stop anywhere, in
the middle of a header or of a payload, and be closed or broken there.
-/

import OmniSocket.TcpStream

set_option autoImplicit false

namespace OmniSocket

open Lib

/-! ## The grammar -/

/-- What comes after the last byte of a stream. -/
inductive StreamEnd
  | eof
  | error
  deriving DecidableEq, Repr

/-- What one call should make of a stream: its result, what it stores in the
caller's buffer, and the stream after it. -/
structure TcpParsed where
  value : ℤ
  stored : List UInt8
  rest : List UInt8
  deriving DecidableEq, Repr

/-- The length a header announces. -/
def announced (header : List UInt8) : ℕ := beNat ((header.drop 4).take 4)

/-- The result for a stream that stops before a header is complete. -/
def tcpStop (fin : StreamEnd) (got : List UInt8) : ℤ :=
  match fin with
  | .error => -1
  | .eof => if got = [] then 0 else omniErrIo

/-- One frame, for a buffer of `len` bytes. -/
def tcpParse (len : ℕ) (fin : StreamEnd) (stream : List UInt8) : TcpParsed :=
  let body := stream.drop msgHeaderSize
  if stream.length < msgHeaderSize then ⟨tcpStop fin stream, [], []⟩
  else if len < announced stream then ⟨omniErrParam, [], body⟩
  else if body.length < announced stream then ⟨omniErrIo, body, []⟩
  else ⟨announced stream, body.take (announced stream), body.drop (announced stream)⟩

/-- Only the header decides what is announced. -/
theorem announced_append {header : List UInt8} (rest : List UInt8)
    (complete : header.length = msgHeaderSize) :
    announced (header ++ rest) = announced header := by
  rw [msgHeaderSize] at complete
  rw [announced, announced, List.drop_append_of_le_length (by omega),
    List.take_append_of_le_length (by rw [List.length_drop]; omega)]

section Cases

variable {len : ℕ} {fin : StreamEnd} {header : List UInt8}

/-- The stream stops in a header, or before it. -/
theorem tcpParse_short {stream : List UInt8} (short : stream.length < msgHeaderSize) :
    tcpParse len fin stream = ⟨tcpStop fin stream, [], []⟩ :=
  if_pos short

/-- The payload does not fit the buffer. -/
theorem tcpParse_long {body : List UInt8} (complete : header.length = msgHeaderSize)
    (long : len < announced header) :
    tcpParse len fin (header ++ body) = ⟨omniErrParam, [], body⟩ := by
  rw [tcpParse, if_neg (by rw [List.length_append]; omega), announced_append body complete,
    if_pos long, List.drop_left' complete]

/-- The stream stops in a payload. -/
theorem tcpParse_cut {body : List UInt8} (complete : header.length = msgHeaderSize)
    (fits : announced header ≤ len) (cut : body.length < announced header) :
    tcpParse len fin (header ++ body) = ⟨omniErrIo, body, []⟩ := by
  rw [tcpParse, if_neg (by rw [List.length_append]; omega), announced_append body complete,
    if_neg (by omega), List.drop_left' complete, if_pos cut]

/-- The frame is there in full. -/
theorem tcpParse_frame {payload rest : List UInt8} (complete : header.length = msgHeaderSize)
    (fits : announced header ≤ len) (length : payload.length = announced header) :
    tcpParse len fin (header ++ (payload ++ rest)) = ⟨payload.length, payload, rest⟩ := by
  rw [tcpParse, if_neg (by rw [List.length_append]; omega),
    announced_append (payload ++ rest) complete, if_neg (by omega), List.drop_left' complete,
    if_neg (by rw [List.length_append]; omega), ← length, List.take_left, List.drop_left]

/-- A result of nothing but a stream that stops is not positive. -/
theorem tcpStop_nonpos (fin : StreamEnd) (got : List UInt8) : tcpStop fin got ≤ 0 := by
  cases fin with
  | eof =>
    rw [tcpStop]
    split <;> decide
  | error => exact show (-1 : ℤ) ≤ 0 by decide

/-- One of the four happens. -/
theorem tcpParse_cases (len : ℕ) (fin : StreamEnd) (stream : List UInt8) :
    (stream.length < msgHeaderSize ∧ tcpParse len fin stream = ⟨tcpStop fin stream, [], []⟩) ∨
      ∃ header body, stream = header ++ body ∧ header.length = msgHeaderSize ∧
        ((len < announced header ∧ tcpParse len fin stream = ⟨omniErrParam, [], body⟩) ∨
          (announced header ≤ len ∧ body.length < announced header ∧
            tcpParse len fin stream = ⟨omniErrIo, body, []⟩) ∨
          (announced header ≤ len ∧ ∃ payload rest, body = payload ++ rest ∧
            payload.length = announced header ∧
            tcpParse len fin stream = ⟨payload.length, payload, rest⟩)) := by
  -- in the order in which `tcp_recv` looks at the stream
  rcases lt_or_ge stream.length msgHeaderSize with short | long_enough
  · exact .inl ⟨short, tcpParse_short short⟩
  · obtain ⟨header, body, rfl, complete⟩ : ∃ header body, stream = header ++ body ∧
        header.length = msgHeaderSize :=
      ⟨stream.take msgHeaderSize, stream.drop msgHeaderSize, (List.take_append_drop ..).symm,
        by rw [List.length_take]; omega⟩
    refine .inr ⟨header, body, rfl, complete, ?_⟩
    rcases lt_or_ge len (announced header) with long | fits
    · exact .inl ⟨long, tcpParse_long complete long⟩
    · rcases lt_or_ge body.length (announced header) with cut | full
      · exact .inr (.inl ⟨fits, cut, tcpParse_cut complete fits cut⟩)
      · have length : (body.take (announced header)).length = announced header := by
          rw [List.length_take]
          omega
        have split := (List.take_append_drop (announced header) body).symm
        have parse : tcpParse len fin (header ++ (body.take (announced header) ++
            body.drop (announced header))) = _ := tcpParse_frame complete fits length
        rw [← split] at parse
        exact .inr (.inr ⟨fits, _, _, split, length, parse⟩)

/-- A positive result is that of a whole frame. -/
theorem frame_of_pos {stream : List UInt8} (positive : 0 < (tcpParse len fin stream).value) :
    ∃ header payload rest, stream = header ++ (payload ++ rest) ∧
      header.length = msgHeaderSize ∧ payload.length = announced header ∧
      announced header ≤ len ∧ 0 < payload.length ∧
      tcpParse len fin stream = ⟨payload.length, payload, rest⟩ := by
  rcases tcpParse_cases len fin stream with ⟨-, parse⟩ | ⟨header, body, rfl, complete,
    ⟨-, parse⟩ | ⟨-, -, parse⟩ | ⟨fits, payload, rest, rfl, length, parse⟩⟩ <;>
    rw [parse] at positive
  · exact absurd positive (not_lt.mpr (tcpStop_nonpos fin stream))
  · exact absurd positive (show ¬ 0 < omniErrParam by decide)
  · exact absurd positive (show ¬ 0 < omniErrIo by decide)
  · exact ⟨header, payload, rest, rfl, complete, length, fits, Int.natCast_pos.mp positive, parse⟩

end Cases

/-- A frame that is returned shortens the stream. -/
theorem length_rest_tcpParse {len : ℕ} {fin : StreamEnd} {stream : List UInt8}
    (positive : 0 < (tcpParse len fin stream).value) :
    (tcpParse len fin stream).rest.length < stream.length := by
  obtain ⟨header, payload, rest, rfl, complete, -, -, some_byte, frame⟩ := frame_of_pos positive
  rw [frame, List.length_append, List.length_append]
  show rest.length < header.length + (payload.length + rest.length)
  omega

/-- The results of successive calls, up to the first that is not positive, each with
what it stores. -/
def tcpResults (len : ℕ) (fin : StreamEnd) (stream : List UInt8) : List (ℤ × List UInt8) :=
  let frame := tcpParse len fin stream
  if _positive : 0 < frame.value then (frame.value, frame.stored) :: tcpResults len fin frame.rest
  else [(frame.value, frame.stored)]
termination_by stream.length
decreasing_by exact length_rest_tcpParse _positive

theorem tcpResults_of_pos {len : ℕ} {fin : StreamEnd} {stream : List UInt8}
    (positive : 0 < (tcpParse len fin stream).value) :
    tcpResults len fin stream =
      ((tcpParse len fin stream).value, (tcpParse len fin stream).stored) ::
        tcpResults len fin (tcpParse len fin stream).rest := by
  rw [tcpResults, dif_pos positive]

theorem tcpResults_of_nonpos {len : ℕ} {fin : StreamEnd} {stream : List UInt8}
    (nonpos : ¬ 0 < (tcpParse len fin stream).value) :
    tcpResults len fin stream =
      [((tcpParse len fin stream).value, (tcpParse len fin stream).stored)] := by
  rw [tcpResults, dif_neg nonpos]

end OmniSocket
