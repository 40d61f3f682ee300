/-
# Reading a stream in pieces

`tcp_recv` gets the bytes of a stream in pieces that the network chooses. The pieces
do not matter: at every point of every way of reading the stream, the results so far
are those of the grammar, and the call in progress has taken no byte of a later
frame.
-/

import OmniSocket.TcpFrames
import OmniSocket.TcpGrammar

set_option autoImplicit false

namespace OmniSocket

open Lib

/-! ## The caller of `tcp_recv` -/

/-- A caller of `tcp_recv` at the end of a stream. Which bytes the current call has
taken is not part of the program. -/
structure TcpReader where
  /-- What has not been read yet. -/
  rest : List UInt8
  rx : TcpRecv
  taken : List UInt8
  /-- The results that were positive, each with what was stored. -/
  results : List (ℤ × List UInt8)
  deriving DecidableEq, Repr

namespace TcpReader

/-- The first call, before its first `read`. -/
def start (stream : List UInt8) : TcpReader where
  rest := stream
  rx := tcpRecvStart
  taken := []
  results := []

/-- One `read`. It gives at least one byte and at most as many as were asked for,
unless it is interrupted; the end of the stream comes after all its bytes. -/
def read (host : Endian) (len : ℕ) (fin : StreamEnd) (s : TcpReader) (r : ReadResult) :
    Option TcpReader :=
  let next := { s with rx := s.rx.pass host len r }
  if s.rx.wanted = 0 then none
  else
    match r with
    | .count bytes =>
      if bytes = [] then if s.rest = [] ∧ fin = .eof then some next else none
      else if bytes.length ≤ s.rx.wanted ∧ bytes <+: s.rest then
        some { next with rest := s.rest.drop bytes.length, taken := s.taken ++ bytes }
      else none
    | .eintr => some next
    | .error => if s.rest = [] ∧ fin = .error then some next else none

/-- The caller uses a positive result and calls again. -/
def next (s : TcpReader) : Option TcpReader :=
  match s.rx with
  | .returned value buf =>
    if 0 < value then
      some { s with rx := tcpRecvStart, taken := [], results := s.results ++ [(value, buf)] }
    else none
  | _ => none

/-- The calls on one stream. -/
def machine (host : Endian) (len : ℕ) (fin : StreamEnd) : Machine TcpReader TcpReaderLabel where
  step s label :=
    match label with
    | .read r => s.read host len fin r
    | .next => s.next

/-- All results so far. -/
def returns (s : TcpReader) : List (ℤ × List UInt8) :=
  match s.rx with
  | .returned value buf => s.results ++ [(value, buf)]
  | .header _ | .payload _ _ => s.results

/-- The current call has returned a result that is not positive. -/
def Finished (s : TcpReader) : Prop := ∃ value buf, s.rx = .returned value buf ∧ value ≤ 0

/-- The bytes the current call has stored in the caller's buffer. -/
def stored (s : TcpReader) : List UInt8 :=
  match s.rx with
  | .header _ => []
  | .payload _ got => got
  | .returned _ buf => buf

end TcpReader

/-! ## One call -/

namespace TcpRecv

/-- What a call has made of the bytes it has taken, of a stream that goes on with
`rest`. -/
def Follows (len : ℕ) (fin : StreamEnd) (taken rest : List UInt8) : TcpRecv → Prop
  | header got => got = taken ∧ got.length < msgHeaderSize
  | payload payloadLen got =>
    ∃ header, taken = header ++ got ∧ header.length = msgHeaderSize ∧
      payloadLen.toNat = announced header ∧ announced header ≤ len ∧
      got.length < announced header
  | returned value buf => tcpParse len fin (taken ++ rest) = ⟨value, buf, rest⟩

variable {host : Endian} {len : ℕ} {fin : StreamEnd} {taken rest : List UInt8}

theorem follows_start (len : ℕ) (fin : StreamEnd) (stream : List UInt8) :
    tcpRecvStart.Follows len fin [] stream :=
  ⟨rfl, by simp [msgHeaderSize]⟩

/-- The second loop at its test: the payload is complete, or is read on. -/
theorem follows_payload_test {header got : List UInt8} {payloadLen : UInt32}
    (complete : header.length = msgHeaderSize) (same : payloadLen.toNat = announced header)
    (fits : announced header ≤ len) (within : got.length ≤ announced header) :
    (tcpRecvPayload payloadLen (tcpReadNTest payloadLen.toNat got)).Follows len fin
      (header ++ got) rest := by
  unfold tcpReadNTest
  by_cases short : got.length < payloadLen.toNat
  · rw [if_pos short, tcpRecvPayload]
    exact ⟨header, rfl, complete, same, fits, same ▸ short⟩
  · have full : got.length = announced header := by omega
    rw [if_neg short, tcpRecvPayload, if_neg (by rw [same, full]; simp), Follows,
      List.append_assoc, tcpParse_frame complete fits full, same, full]

/-- The first loop at its test. A complete header is looked at once, before any byte
of the payload is taken. -/
theorem follows_header_test {got : List UInt8} (within : got.length ≤ msgHeaderSize) :
    (tcpRecvHeader host len (tcpReadNTest msgHeaderSize got)).Follows len fin got rest := by
  unfold tcpReadNTest
  by_cases short : got.length < msgHeaderSize
  · rw [if_pos short, tcpRecvHeader]
    exact ⟨rfl, short⟩
  · have complete : got.length = msgHeaderSize := by omega
    have positive : ¬ (got.length : ℤ) ≤ 0 := by
      rw [complete, msgHeaderSize]
      decide
    have same : (headerOfBytes host got).len.toNat = announced got :=
      (fields_headerOfBytes host got (by rw [complete, msgHeaderSize]; omega)).2
    rw [if_neg short, tcpRecvHeader, if_neg positive, if_neg (by simp [complete])]
    simp only [same]
    -- a frame that is too long is turned down here, with only its header taken
    by_cases long : len < announced got
    · rw [if_pos long, Follows, tcpParse_long complete long]
    · have next : (tcpRecvPayload (headerOfBytes host got).len
          (tcpReadNTest (headerOfBytes host got).len.toNat [])).Follows len fin (got ++ []) rest :=
        follows_payload_test complete same (not_lt.mp long) (Nat.zero_le _)
      rw [List.append_nil, same] at next
      rw [if_neg long]
      exact next

/-- Bytes that are read come off the front of the stream. -/
theorem Follows.pass_count {rx : TcpRecv} {bytes : List UInt8} (some_byte : bytes ≠ [])
    (within : bytes.length ≤ rx.wanted) (follows : rx.Follows len fin taken (bytes ++ rest)) :
    (rx.pass host len (.count bytes)).Follows len fin (taken ++ bytes) rest := by
  cases rx with
  | header got =>
    obtain ⟨rfl, short⟩ := follows
    rw [wanted] at within
    rw [pass, tcpReadNPass]
    · refine follows_header_test ?_
      rw [List.length_append]
      omega
    · exact some_byte
  | payload payloadLen got =>
    obtain ⟨header, rfl, complete, same, fits, short⟩ := follows
    rw [wanted] at within
    rw [pass, tcpReadNPass, List.append_assoc]
    · refine follows_payload_test complete same fits ?_
      rw [List.length_append]
      omega
    · exact some_byte
  | returned value buf =>
    rw [wanted, Nat.le_zero, List.length_eq_zero_iff] at within
    exact absurd within some_byte

/-- The end of the stream ends the call. In a header the two ends differ, in a
payload they do not. -/
theorem Follows.pass_end {rx : TcpRecv} {r : ReadResult} (calling : rx.wanted ≠ 0)
    (ends : (r = .count [] ∧ fin = .eof) ∨ (r = .error ∧ fin = .error))
    (follows : rx.Follows len fin taken []) : (rx.pass host len r).Follows len fin taken [] := by
  cases rx with
  | header got =>
    obtain ⟨rfl, short⟩ := follows
    have parse : tcpParse len fin (got ++ []) = ⟨tcpStop fin got, [], []⟩ := by
      rw [List.append_nil, tcpParse_short short]
    rcases ends with ⟨rfl, rfl⟩ | ⟨rfl, rfl⟩
    · rw [pass, tcpReadNPass, tcpRecvHeader]
      -- no byte of a header is a closed connection, some bytes are a broken frame
      by_cases none : got = []
      · subst none
        exact parse
      · have some_byte : ¬ (got.length : ℤ) ≤ 0 := by
          have := List.length_pos_of_ne_nil none
          omega
        rw [tcpStop, if_neg none] at parse
        rw [if_neg some_byte, if_pos (by omega)]
        exact parse
    · exact parse
  | payload payloadLen got =>
    obtain ⟨header, rfl, complete, same, fits, short⟩ := follows
    have parse : tcpParse len fin (header ++ got ++ []) = ⟨omniErrIo, got, []⟩ := by
      rw [List.append_nil, tcpParse_cut complete fits short]
    rcases ends with ⟨rfl, -⟩ | ⟨rfl, -⟩
    · rw [pass, tcpReadNPass, tcpRecvPayload, if_pos (by omega)]
      exact parse
    · rw [pass, tcpReadNPass, tcpRecvPayload, if_pos (by omega)]
      exact parse
  | returned value buf => exact absurd rfl calling

/-- An interrupted `read` changes nothing. -/
theorem pass_eintr (host : Endian) (len : ℕ) (rx : TcpRecv) : rx.pass host len .eintr = rx := by
  cases rx <;> rfl

/-- A call that has not returned asks for more, and for no more than the rest of its
header or payload. -/
theorem Follows.wanted_pos {rx : TcpRecv} (follows : rx.Follows len fin taken rest)
    (calling : ∀ value buf, rx ≠ .returned value buf) : rx.wanted ≠ 0 := by
  cases rx with
  | header got =>
    have short := follows.2
    rw [wanted]
    omega
  | payload payloadLen got =>
    obtain ⟨header, -, -, same, -, short⟩ := follows
    rw [wanted]
    omega
  | returned value buf => exact absurd rfl (calling value buf)

end TcpRecv

/-! ## Whole streams -/

namespace TcpReader

variable {host : Endian} {len : ℕ} {fin : StreamEnd} {stream : List UInt8} {s t : TcpReader}

/-- The results so far are the first ones of the grammar, and the call in progress
is at the frame the next one is for. -/
structure Parses (len : ℕ) (fin : StreamEnd) (stream : List UInt8) (s : TcpReader) : Prop where
  results : tcpResults len fin stream = s.results ++ tcpResults len fin (s.taken ++ s.rest)
  follows : s.rx.Follows len fin s.taken s.rest

theorem parses_start (len : ℕ) (fin : StreamEnd) (stream : List UInt8) :
    (start stream).Parses len fin stream :=
  ⟨rfl, TcpRecv.follows_start len fin stream⟩

/-- A `read` moves bytes from the rest of the stream to the current call. -/
theorem read_taken {r : ReadResult} (step : s.read host len fin r = some t) :
    t.taken ++ t.rest = s.taken ++ s.rest ∧ t.results = s.results := by
  unfold TcpReader.read at step
  rw [Option.ite_none_left_eq_some] at step
  obtain ⟨-, step⟩ := step
  cases r with
  | count bytes =>
    simp only at step
    split_ifs at step with empty closed within
    · exact Option.some.inj step ▸ ⟨rfl, rfl⟩
    · obtain rfl := Option.some.inj step
      obtain ⟨-, later, split⟩ := within
      simp only [← split, List.drop_left, List.append_assoc, and_self]
  | eintr => exact Option.some.inj step ▸ ⟨rfl, rfl⟩
  | error =>
    obtain ⟨-, rfl⟩ := (Option.ite_none_right_eq_some.mp step).imp_right Option.some.inj
    exact ⟨rfl, rfl⟩

theorem rx_read {r : ReadResult} (step : s.read host len fin r = some t) :
    t.rx = s.rx.pass host len r := by
  unfold TcpReader.read at step
  rw [Option.ite_none_left_eq_some] at step
  obtain ⟨-, step⟩ := step
  cases r with
  | count bytes =>
    simp only at step
    split_ifs at step <;> exact Option.some.inj step ▸ rfl
  | eintr => exact Option.some.inj step ▸ rfl
  | error => exact Option.some.inj (Option.ite_none_right_eq_some.mp step).2 ▸ rfl

/-- One `read` keeps the call to the grammar. -/
theorem follows_read {r : ReadResult} (follows : s.rx.Follows len fin s.taken s.rest)
    (step : s.read host len fin r = some t) :
    t.rx.Follows len fin t.taken t.rest := by
  -- an end of the stream and a failed `read` come only when nothing is left
  have ends : s.rest = [] → s.rx.wanted ≠ 0 →
      ((r = .count [] ∧ fin = .eof) ∨ (r = .error ∧ fin = .error)) →
      (s.rx.pass host len r).Follows len fin s.taken s.rest := by
    intro none calling last
    rw [none] at follows ⊢
    exact follows.pass_end calling last
  unfold TcpReader.read at step
  rw [Option.ite_none_left_eq_some] at step
  obtain ⟨calling, step⟩ := step
  cases r with
  | count bytes =>
    simp only at step
    split_ifs at step with empty closed within
    · obtain rfl := Option.some.inj step
      exact ends closed.1 calling (.inl ⟨by rw [empty], closed.2⟩)
    · obtain rfl := Option.some.inj step
      obtain ⟨fits, later, split⟩ := within
      rw [← split] at follows
      simp only [← split, List.drop_left]
      exact follows.pass_count empty fits
  | eintr =>
    obtain rfl := Option.some.inj step
    exact (TcpRecv.pass_eintr host len s.rx).symm ▸ follows
  | error =>
    obtain ⟨broken, rfl⟩ := (Option.ite_none_right_eq_some.mp step).imp_right Option.some.inj
    exact ends broken.1 calling (.inr ⟨rfl, broken.2⟩)

/-- One `read` keeps to the grammar. -/
theorem Parses.read {r : ReadResult} (parses : s.Parses len fin stream)
    (step : s.read host len fin r = some t) : t.Parses len fin stream := by
  obtain ⟨moved, same⟩ := read_taken step
  exact ⟨by rw [moved, same]; exact parses.results, follows_read parses.follows step⟩

/-- A positive result is the next one of the grammar. -/
theorem Parses.next (parses : s.Parses len fin stream) (step : s.next = some t) :
    t.Parses len fin stream := by
  unfold TcpReader.next at step
  split at step
  case h_1 value buf rx =>
    obtain ⟨positive, rfl⟩ := (Option.ite_none_right_eq_some.mp step).imp_right Option.some.inj
    have parse : tcpParse len fin (s.taken ++ s.rest) = ⟨value, buf, s.rest⟩ := by
      have follows := parses.follows
      rwa [rx] at follows
    have first : tcpResults len fin (s.taken ++ s.rest) =
        (value, buf) :: tcpResults len fin s.rest := by
      rw [tcpResults_of_pos (by rw [parse]; exact positive), parse]
    refine ⟨?_, TcpRecv.follows_start len fin s.rest⟩
    rw [parses.results, first, List.nil_append, List.append_assoc]
    rfl
  case h_2 => exact absurd step (by simp)

/-- Every state of every run keeps to the grammar. -/
theorem parses_run {labels : List TcpReaderLabel}
    (hrun : (machine host len fin).run (start stream) labels = some s) :
    s.Parses len fin stream := by
  refine (machine host len fin).run_invariant ?_ (parses_start len fin stream) hrun
  intro s label t parses step
  cases label with
  | read r => exact parses.read step
  | next => exact parses.next step

/-- Where a call has got to in the stream and in the caller's buffer. -/
structure Bounded (len : ℕ) (s : TcpReader) : Prop where
  /-- It has taken no byte past its frame, and none past the header of a frame that is
  too long. -/
  frame : s.taken.length ≤ msgHeaderSize + if announced s.taken ≤ len then announced s.taken else 0
  /-- A frame that is returned has been taken in full, and its payload stored. -/
  whole : ∀ value buf, s.rx = .returned value buf → 0 < value →
    s.taken.length = msgHeaderSize + value.toNat ∧ buf = s.taken.drop msgHeaderSize
  /-- What is stored is in the buffer. -/
  buffer : s.stored.length ≤ len
  /-- So is what the next `read` of a payload can store behind it. -/
  room : ∀ payloadLen got, s.rx = .payload payloadLen got → got.length + s.rx.wanted ≤ len

/-- A call that has returned stopped at the end of the stream, at a header it turned
down, or at the end of a frame. -/
private theorem bounded_of_parse {value : ℤ} {buf : List UInt8} (rx : s.rx = .returned value buf)
    (parse : tcpParse len fin (s.taken ++ s.rest) = ⟨value, buf, s.rest⟩) : s.Bounded len := by
  have stored : s.stored = buf := by rw [TcpReader.stored, rx]
  have room : ∀ payloadLen got, s.rx = .payload payloadLen got → got.length + s.rx.wanted ≤ len :=
    fun payloadLen got payload => by cases rx.symm.trans payload
  have nonpos : value ≤ 0 → ∀ value' buf', s.rx = .returned value' buf' → 0 < value' →
      s.taken.length = msgHeaderSize + value'.toNat ∧ buf' = s.taken.drop msgHeaderSize := by
    intro low value' buf' rx' positive
    obtain ⟨rfl, rfl⟩ := TcpRecv.returned.inj (rx.symm.trans rx')
    exact absurd positive (not_lt.mpr low)
  -- the call stopped in a header, behind one it turned down, in a payload, or behind one
  rcases tcpParse_cases len fin (s.taken ++ s.rest) with
    ⟨short, as⟩ | ⟨header, body, split, complete,
      ⟨long, as⟩ | ⟨fits, cut, as⟩ | ⟨fits, payload, rest, split', length, as⟩⟩ <;>
    obtain ⟨value_eq, buf_eq, rest_eq⟩ := TcpParsed.mk.inj (parse.symm.trans as) <;>
    subst value_eq buf_eq
  · rw [List.length_append] at short
    exact ⟨by omega, nonpos (tcpStop_nonpos _ _), by simp [stored], room⟩
  · -- only the header has been taken
    have taken : s.taken = header := List.append_cancel_right (rest_eq ▸ split)
    exact ⟨by rw [taken, complete]; omega, nonpos (by decide), by simp [stored], room⟩
  · rw [rest_eq, List.append_nil] at split
    have same : announced s.taken = announced header := by rw [split, announced_append _ complete]
    refine ⟨?_, nonpos (by decide), by rw [stored]; omega, room⟩
    rw [same, if_pos fits, split, List.length_append]
    omega
  · have taken : s.taken = header ++ buf := by
      rw [split', ← List.append_assoc] at split
      exact List.append_cancel_right (rest_eq ▸ split)
    have same : announced s.taken = announced header := by rw [taken, announced_append _ complete]
    refine ⟨?_, ?_, by rw [stored]; omega, room⟩
    · rw [same, if_pos fits, taken, List.length_append]
      omega
    · intro value' buf' rx' _
      obtain ⟨rfl, rfl⟩ := TcpRecv.returned.inj (rx.symm.trans rx')
      rw [taken, List.length_append, complete, Int.toNat_natCast, List.drop_left' complete]
      exact ⟨rfl, rfl⟩

/-- Every call is within its bounds. -/
theorem Parses.bounded (parses : s.Parses len fin stream) : s.Bounded len := by
  have follows := parses.follows
  cases rx : s.rx with
  | header got =>
    rw [rx] at follows
    obtain ⟨rfl, short⟩ := follows
    exact ⟨by omega, fun _ _ returned => absurd (rx.symm.trans returned) (by simp),
      by simp [stored, rx], fun _ _ payload => absurd (rx.symm.trans payload) (by simp)⟩
  | payload payloadLen got =>
    rw [rx] at follows
    obtain ⟨header, taken, complete, same, fits, short⟩ := follows
    have announced_taken : announced s.taken = announced header := by
      rw [taken, announced_append _ complete]
    refine ⟨?_, fun _ _ returned => absurd (rx.symm.trans returned) (by simp), ?_, ?_⟩
    · rw [announced_taken, if_pos fits, taken, List.length_append]
      omega
    · rw [stored, rx]
      exact short.le.trans fits
    · intro payloadLen' got' payload
      obtain ⟨rfl, rfl⟩ := TcpRecv.payload.inj (rx.symm.trans payload)
      rw [rx, TcpRecv.wanted]
      omega
  | returned value buf =>
    rw [rx] at follows
    exact bounded_of_parse rx follows

/-- A call that asks for bytes can get one, or the end of the stream. -/
theorem exists_read (calling : s.rx.wanted ≠ 0) :
    ∃ r, r ≠ .eintr ∧ (s.read host len fin r).isSome := by
  cases rest : s.rest with
  | nil =>
    cases fin with
    | eof => exact ⟨.count [], by simp, by simp [TcpReader.read, calling, rest]⟩
    | error => exact ⟨.error, by simp, by simp [TcpReader.read, calling, rest]⟩
  | cons b later =>
    -- a `read` may return a single byte
    have one : 1 ≤ s.rx.wanted := Nat.one_le_iff_ne_zero.mpr calling
    exact ⟨.count [b], by simp, by simp [TcpReader.read, calling, rest, one]⟩

/-- As long as the last result was not the end, something other than an interrupted
`read` can happen. -/
theorem Parses.progress (parses : s.Parses len fin stream) (going : ¬ s.Finished) :
    ∃ label, label ≠ .read .eintr ∧ ((machine host len fin).step s label).isSome := by
  by_cases returned : ∃ value buf, s.rx = .returned value buf
  · obtain ⟨value, buf, rx⟩ := returned
    have positive : 0 < value := not_le.mp fun low => going ⟨value, buf, rx, low⟩
    exact ⟨.next, by simp, by simp [machine, TcpReader.next, rx, positive]⟩
  · have calling := parses.follows.wanted_pos fun value buf rx => returned ⟨value, buf, rx⟩
    obtain ⟨r, busy, enabled⟩ := exists_read calling
    exact ⟨.read r, fun same => busy (TcpReaderLabel.read.inj same), enabled⟩

/-- The result of a call that has returned is the next one of the grammar. -/
theorem Parses.next_result (parses : s.Parses len fin stream) {value : ℤ} {buf : List UInt8}
    (rx : s.rx = .returned value buf) :
    tcpParse len fin (s.taken ++ s.rest) = ⟨value, buf, s.rest⟩ := by
  have follows := parses.follows
  rwa [rx] at follows

theorem Parses.returns_prefix (parses : s.Parses len fin stream) :
    s.returns <+: tcpResults len fin stream := by
  rw [parses.results]
  unfold returns
  split
  case h_1 value buf rx =>
    have parse := parses.next_result rx
    refine (List.prefix_append_right_inj _).mpr ?_
    by_cases positive : 0 < value
    · rw [tcpResults_of_pos (by rw [parse]; exact positive), parse]
      exact List.prefix_append [(value, buf)] _
    · have last := tcpResults_of_nonpos (by rw [parse]; exact positive)
      rw [parse] at last
      exact last ▸ List.prefix_rfl
  all_goals exact List.prefix_append ..

/-- After a result that is not positive there is no other. -/
theorem Parses.returns_eq (parses : s.Parses len fin stream) (finished : s.Finished) :
    s.returns = tcpResults len fin stream := by
  obtain ⟨value, buf, rx, low⟩ := finished
  have parse := parses.next_result rx
  rw [parses.results, tcpResults_of_nonpos (by rw [parse]; exact not_lt.mpr low), parse,
    returns, rx]

/-- A `read` that is not interrupted. -/
def advances : TcpReaderLabel → Bool
  | .read .eintr => false
  | .read _ => true
  | .next => false

/-- Whether the last result is there, as a number. -/
def ended (s : TcpReader) : ℕ :=
  match s.rx with
  | .returned value _ => if value ≤ 0 then 1 else 0
  | .header _ | .payload _ _ => 0

theorem ended_of_wanted (calling : s.rx.wanted ≠ 0) : s.ended = 0 := by
  unfold ended
  split
  case h_1 rx => exact absurd (by rw [rx]; rfl) calling
  all_goals rfl

/-- A `read` at the end of the stream is the last one. -/
theorem ended_of_end {r : ReadResult} (calling : s.rx.wanted ≠ 0)
    (ends : r = .count [] ∨ r = .error) : ended { s with rx := s.rx.pass host len r } = 1 := by
  obtain ⟨value, buf, rx, low⟩ : ∃ value buf, s.rx.pass host len r = .returned value buf ∧
      value ≤ 0 := by
    cases rx : s.rx with
    | header got =>
      rw [rx, TcpRecv.wanted] at calling
      rcases ends with rfl | rfl
      · rw [TcpRecv.pass, tcpReadNPass, tcpRecvHeader]
        split_ifs with none
        · exact ⟨_, _, rfl, none⟩
        · exact ⟨_, _, rfl, by decide⟩
        · omega
      · exact ⟨_, _, rfl, by decide⟩
    | payload payloadLen got =>
      rw [rx, TcpRecv.wanted] at calling
      rcases ends with rfl | rfl <;>
      · rw [TcpRecv.pass, tcpReadNPass, tcpRecvPayload, if_pos (by omega)]
        exact ⟨_, _, rfl, by decide⟩
    | returned value buf => exact absurd (by rw [rx]; rfl) calling
  simp only [ended, rx, if_pos low]

/-- Every `read` that is not interrupted takes a byte or is the last one. -/
theorem advances_step {label : TcpReaderLabel}
    (step : (machine host len fin).step s label = some t) :
    (if advances label then 1 else 0) + t.rest.length + s.ended ≤ s.rest.length + t.ended := by
  cases label with
  | read r =>
    simp only [machine, TcpReader.read] at step
    rw [Option.ite_none_left_eq_some] at step
    obtain ⟨calling, step⟩ := step
    rw [ended_of_wanted calling]
    cases r with
    | count bytes =>
      simp only at step
      split_ifs at step with empty closed within
      · obtain rfl := Option.some.inj step
        rw [ended_of_end calling (.inl (by rw [empty]))]
        show 1 + s.rest.length + 0 ≤ s.rest.length + 1
        omega
      · obtain rfl := Option.some.inj step
        -- what is read is taken off the rest
        have shorter := within.2.length_le
        have some_byte := List.length_pos_of_ne_nil empty
        show 1 + (s.rest.drop bytes.length).length + 0 ≤ s.rest.length + _
        rw [List.length_drop]
        omega
    | eintr =>
      obtain rfl := Option.some.inj step
      show 0 + s.rest.length + 0 ≤ s.rest.length + _
      omega
    | error =>
      obtain ⟨-, rfl⟩ := (Option.ite_none_right_eq_some.mp step).imp_right Option.some.inj
      rw [ended_of_end calling (.inr rfl)]
      show 1 + s.rest.length + 0 ≤ s.rest.length + 1
      omega
  | next =>
    simp only [machine, TcpReader.next] at step
    split at step
    case h_1 value buf rx =>
      obtain ⟨positive, rfl⟩ := (Option.ite_none_right_eq_some.mp step).imp_right Option.some.inj
      -- the next call begins without taking anything
      have going : s.ended = 0 := by
        simp only [ended, rx, if_neg (not_le.mpr positive)]
      rw [going]
      show 0 + s.rest.length + 0 ≤ s.rest.length + _
      omega
    case h_2 => exact absurd step (by simp)

/-- So there are not many of them. -/
theorem advances_run {labels : List TcpReaderLabel}
    (hrun : (machine host len fin).run s labels = some t) :
    labels.countP advances + t.rest.length + s.ended ≤ s.rest.length + t.ended := by
  -- on the calls of `read`: each step pays for itself
  induction labels generalizing s with
  | nil =>
    obtain rfl := Option.some.inj hrun
    simp
  | cons label rest ih =>
    obtain ⟨u, step, hrest⟩ := (machine host len fin).run_cons_eq_some.mp hrun
    have first := advances_step step
    have later := ih hrest
    rw [List.countP_cons]
    omega

/-- A stream is read in at most as many `read` calls as it has bytes, and one more. -/
theorem few_reads {labels : List TcpReaderLabel}
    (hrun : (machine host len fin).run (start stream) labels = some s) :
    labels.countP advances ≤ stream.length + 1 := by
  have few := advances_run hrun
  have none : (start stream).rest.length = stream.length := rfl
  have at_most : s.ended ≤ 1 := by
    unfold ended
    split
    · split <;> omega
    all_goals omega
  omega

/-! ## What `tcp_recv` returns -/

/-- At every point of every way of reading a stream the results of `tcp_recv` are the
first ones of the grammar, and all of them once one is not positive; the call in
progress is within its frame and its buffer. Unless every `read` is interrupted the
reading goes on, and it comes to an end. -/
theorem tcp_recv_parses {labels : List TcpReaderLabel}
    (hrun : (machine host len fin).run (start stream) labels = some s) :
    s.returns <+: tcpResults len fin stream ∧
      (s.Finished → s.returns = tcpResults len fin stream) ∧
      s.Bounded len ∧
      (¬ s.Finished →
        ∃ label, label ≠ .read .eintr ∧ ((machine host len fin).step s label).isSome) ∧
      labels.countP advances ≤ stream.length + 1 :=
  have parses := parses_run hrun
  ⟨parses.returns_prefix, parses.returns_eq, parses.bounded, parses.progress, few_reads hrun⟩

/-- A frame of two bytes and the first byte of the next one. -/
def splitStream : List UInt8 := [0, 0, 0, 100, 0, 0, 0, 2, 0, 0, 0, 0, 0, 0, 0, 9, 7, 8, 0]

/-- The header comes in two pieces, the payload after an interruption. -/
def splitReads : List TcpReaderLabel :=
  [.read (.count [0, 0, 0, 100, 0]), .read .eintr,
    .read (.count [0, 0, 2, 0, 0, 0, 0, 0, 0, 0, 9]), .read .eintr, .read (.count [7, 8]), .next,
    .read (.count [0]), .read (.count [])]

/-- What is left of the stream is a broken frame. -/
theorem tcp_recv_parses_split :
    tcpResults 4 .eof splitStream = [(2, [7, 8]), (omniErrIo, [])] := by
  have hrun : (machine .little 4 .eof).run (start splitStream) splitReads =
      some ⟨[], .returned omniErrIo [], [0], [(2, [7, 8])]⟩ := by decide +kernel
  exact ((tcp_recv_parses hrun).2.1 ⟨_, _, rfl, by decide⟩).symm

end TcpReader

end OmniSocket
