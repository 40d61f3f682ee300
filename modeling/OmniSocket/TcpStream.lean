/-
# One direction of a TCP connection

The kernel's connection is a pipe that keeps the order of its bytes. A sender
in `tcp_send` and a receiver in `tcp_recv` work on its two ends, a few bytes at
a time. Between them lie the rest of the receiver's current frame, any number
of whole frames, and what the sender has not written of its own frame, which is
lost for good if the sender gives up. Those bytes together are always the
frames of the messages still to be received, so the receiver returns exactly
the sender's messages, in order.
-/

import OmniSocket.Tcp

set_option autoImplicit false

namespace OmniSocket

/-! ## What one system call does to a send in progress -/

namespace TcpSend

/-- The call was made for a message of `len` bytes and has not gone wrong: a
call that returned has either written its whole frame or reports an error. -/
def Sound (len : ℕ) : TcpSend → Prop
  | header rest buf => rest ≠ [] ∧ buf.length = len
  | payload n rest => rest ≠ [] ∧ n = len
  | returned value unsent => (value = ssize len ∧ unsent = []) ∨ value = omniErrIo

/-- The call has not failed: if it returned, it has written its whole frame. -/
def Succeeds (len : ℕ) : TcpSend → Prop
  | header rest buf => rest ≠ [] ∧ buf.length = len
  | payload n rest => rest ≠ [] ∧ n = len
  | returned value unsent => value = ssize len ∧ unsent = []

theorem Succeeds.sound {len : ℕ} {s : TcpSend} (succeeds : s.Succeeds len) : s.Sound len := by
  cases s with
  | header rest buf => exact succeeds
  | payload n rest => exact succeeds
  | returned value unsent => exact .inl succeeds

theorem succeeds_tcpSendPayload (len : ℕ) (rest : List UInt8) :
    (tcpSendPayload len (tcpWriteNTest len rest)).Succeeds len ∧
      (tcpSendPayload len (tcpWriteNTest len rest)).unsent = rest := by
  unfold tcpWriteNTest
  split_ifs with empty
  · subst empty
    simp [tcpSendPayload, Succeeds, unsent]
  · exact ⟨⟨empty, rfl⟩, rfl⟩

theorem succeeds_tcpSendHeader (rest buf : List UInt8) :
    (tcpSendHeader buf (tcpWriteNTest msgHeaderSize rest)).Succeeds buf.length ∧
      (tcpSendHeader buf (tcpWriteNTest msgHeaderSize rest)).unsent = rest ++ buf := by
  unfold tcpWriteNTest
  split_ifs with empty
  · subst empty
    have size : ssize msgHeaderSize = msgHeaderSize := ssize_of_lt (by decide)
    rw [tcpSendHeader, if_neg (by simp [size])]
    exact succeeds_tcpSendPayload _ _
  · exact ⟨⟨empty, rfl⟩, rfl⟩

/-- A call begins with its header. -/
theorem tcpSendStart_eq (host : Endian) (t0 : UInt64) (buf : List UInt8) :
    tcpSendStart host t0 buf =
      .header (headerBytes host msgTypeRaw (UInt32.ofNat buf.length) t0) buf := by
  have header : headerBytes host msgTypeRaw (UInt32.ofNat buf.length) t0 ≠ [] := by
    intro empty
    simpa [empty, msgHeaderSize] using length_headerBytes host msgTypeRaw
      (UInt32.ofNat buf.length) t0
  rw [tcpSendStart, tcpWriteNTest, if_neg header, tcpSendHeader]

theorem succeeds_tcpSendStart (host : Endian) (t0 : UInt64) (buf : List UInt8) :
    (tcpSendStart host t0 buf).Succeeds buf.length ∧
      (tcpSendStart host t0 buf).unsent = tcpFrame host t0 buf :=
  succeeds_tcpSendHeader _ _

theorem sound_tcpSendStart (host : Endian) (t0 : UInt64) (buf : List UInt8) :
    (tcpSendStart host t0 buf).Sound buf.length ∧
      (tcpSendStart host t0 buf).unsent = tcpFrame host t0 buf :=
  (succeeds_tcpSendStart host t0 buf).imp_left Succeeds.sound

/-- A `write` that takes some bytes takes them off the front of the frame. -/
theorem Succeeds.pass_count {len : ℕ} {s : TcpSend} (taken : ℕ) (succeeds : s.Succeeds len) :
    (s.pass (.count taken)).Succeeds len ∧
      s.offered.take taken ++ (s.pass (.count taken)).unsent = s.unsent := by
  cases s with
  | header rest buf =>
    obtain ⟨-, rfl⟩ := succeeds
    have next := succeeds_tcpSendHeader (rest.drop taken) buf
    refine ⟨next.1, ?_⟩
    rw [offered, pass, tcpWriteNPass, next.2, ← List.append_assoc, List.take_append_drop]
    rfl
  | payload n rest =>
    obtain ⟨-, rfl⟩ := succeeds
    have next := succeeds_tcpSendPayload n (rest.drop taken)
    refine ⟨next.1, ?_⟩
    rw [offered, pass, tcpWriteNPass, next.2, List.take_append_drop]
    rfl
  | returned value unsent => exact ⟨succeeds, by simp [offered, pass]⟩

theorem sound_pass_count {len : ℕ} {s : TcpSend} (taken : ℕ) (sound : s.Sound len) :
    (s.pass (.count taken)).Sound len ∧
      s.offered.take taken ++ (s.pass (.count taken)).unsent = s.unsent := by
  cases s with
  | header rest buf =>
    exact (Succeeds.pass_count taken (show (header rest buf).Succeeds len from sound)).imp_left
      Succeeds.sound
  | payload n rest =>
    exact (Succeeds.pass_count taken (show (payload n rest).Succeeds len from sound)).imp_left
      Succeeds.sound
  | returned value unsent => exact ⟨sound, by simp [offered, pass]⟩

/-- A `write` that fails takes nothing. -/
theorem sound_pass_fail {len : ℕ} {s : TcpSend} {r : WriteResult} (small : len < 2 ^ 63)
    (sound : s.Sound len) (fails : r = .eintr ∨ r = .error) :
    (s.pass r).Sound len ∧ (s.pass r).unsent = s.unsent := by
  cases s with
  | header rest buf =>
    rcases fails with rfl | rfl
    · exact ⟨sound, rfl⟩
    · simp [pass, tcpWriteNPass, tcpSendHeader, msgHeaderSize, Sound, unsent]
  | payload n rest =>
    obtain ⟨busy, rfl⟩ := sound
    rcases fails with rfl | rfl
    · exact ⟨⟨busy, rfl⟩, rfl⟩
    · have differs : (-1 : ℤ) ≠ ssize n := by
        rw [ssize_of_lt small]
        omega
      rw [pass, tcpWriteNPass, tcpSendPayload, if_pos differs]
      exact ⟨.inr rfl, rfl⟩
  | returned value unsent => exact ⟨sound, rfl⟩

/-- Over a whole call, what was written and what is left make up the frame. -/
theorem sound_run {len : ℕ} {s : TcpSend} {script : List WriteResult} (small : len < 2 ^ 63)
    (sound : s.Sound len) (allows : s.Allows script) :
    (script.foldl pass s).Sound len ∧
      s.written script ++ (script.foldl pass s).unsent = s.unsent := by
  induction script generalizing s with
  | nil => exact ⟨sound, rfl⟩
  | cons r script ih =>
    obtain ⟨-, allows⟩ := allows
    have next : (s.pass r).Sound len ∧ s.accepted r ++ (s.pass r).unsent = s.unsent := by
      cases r with
      | count taken => exact sound_pass_count taken sound
      | eintr => exact sound_pass_fail small sound (.inl rfl)
      | error => exact sound_pass_fail small sound (.inr rfl)
    obtain ⟨sound', bytes⟩ := ih next.1 allows
    refine ⟨sound', ?_⟩
    rw [written, List.foldl_cons, List.append_assoc, bytes, next.2]

end TcpSend

/-! ## The two ends and the bytes between them -/

/-- One direction of a connection. -/
structure TcpLink where
  /-- The sender's `tcp_send` call, if it is in one. -/
  tx : Option TcpSend
  /-- Bytes written and not yet read. -/
  pipe : List UInt8
  /-- The receiver's `tcp_recv` call. -/
  rx : TcpRecv
  deriving DecidableEq, Repr

namespace TcpLink

/-- A connection nothing has been sent on. -/
def fresh : TcpLink where
  tx := none
  pipe := []
  rx := tcpRecvStart

/-- The sender calls `tcp_send`. -/
def beginSend (host : Endian) (t0 : UInt64) (buf : List UInt8) (l : TcpLink) : TcpLink :=
  { l with tx := some (tcpSendStart host t0 buf) }

/-- The sender's call ends and its result is used. -/
def endSend (l : TcpLink) : TcpLink := { l with tx := none }

/-- The receiver's call ends, its result is used and the next call starts. -/
def endRecv (l : TcpLink) : TcpLink := { l with rx := tcpRecvStart }

/-- One `write`. It takes at most what it is offered, and may fail at any time. -/
def write (r : WriteResult) (l : TcpLink) : Option TcpLink :=
  match l.tx with
  | none => none
  | some tx =>
    match r with
    | .count taken =>
      if taken ≤ tx.offered.length then
        some { l with tx := some (tx.pass r), pipe := l.pipe ++ tx.offered.take taken }
      else none
    | _ => some { l with tx := some (tx.pass r) }

/-- One `read`. It returns the next bytes of the pipe, at most as many as were
asked for; it may fail or report the end of the stream at any time, as it does
once the connection is broken. -/
def read (host : Endian) (len : ℕ) (r : ReadResult) (l : TcpLink) : Option TcpLink :=
  match r with
  | .count bytes =>
    if bytes.length ≤ l.rx.wanted ∧ bytes <+: l.pipe then
      some { l with rx := l.rx.pass host len r, pipe := l.pipe.drop bytes.length }
    else none
  | _ => some { l with rx := l.rx.pass host len r }

/-- A `read` does not touch the sending end. -/
theorem tx_read {host : Endian} {len : ℕ} {l l' : TcpLink} {r : ReadResult}
    (step : l.read host len r = some l') : l'.tx = l.tx := by
  cases r with
  | count bytes =>
    simp only [read] at step
    split at step
    case isTrue => exact Option.some.inj step ▸ rfl
    case isFalse => exact absurd step (by simp)
  | eintr => exact Option.some.inj step ▸ rfl
  | error => exact Option.some.inj step ▸ rfl

/-- The bytes of a sequence of frames, each with its clock reading. -/
def wire (host : Endian) (frames : List (UInt64 × List UInt8)) : List UInt8 :=
  frames.flatMap fun frame => tcpFrame host frame.1 frame.2

@[simp] theorem wire_nil (host : Endian) : wire host [] = [] := rfl

theorem wire_cons (host : Endian) (t0 : UInt64) (buf : List UInt8)
    (rest : List (UInt64 × List UInt8)) :
    wire host ((t0, buf) :: rest) =
      headerBytes host msgTypeRaw (UInt32.ofNat buf.length) t0 ++ (buf ++ wire host rest) := by
  rw [wire, List.flatMap_cons, tcpFrame, List.append_assoc]
  rfl

theorem wire_append (host : Endian) (first second : List (UInt64 × List UInt8)) :
    wire host (first ++ second) = wire host first ++ wire host second :=
  List.flatMap_append

/-- The frames still to be received begin with what the receiver holds of its
current frame and go on with the bytes of `stream`. A receiver whose call failed
is not followed any further. -/
def Receives (sender : Endian) (frames : List (UInt64 × List UInt8)) (stream : List UInt8) :
    TcpRecv → Prop
  | .header got => got.length < msgHeaderSize ∧ got ++ stream = wire sender frames
  | .payload payloadLen got =>
    ∃ t0 buf rest, frames = (t0, buf) :: rest ∧ payloadLen.toNat = buf.length ∧
      got.length < buf.length ∧ got ++ stream = buf ++ wire sender rest
  | .returned value got =>
    value ≤ 0 ∨ ∃ t0 rest, frames = (t0, got) :: rest ∧ value = got.length ∧
      stream = wire sender rest

/-- The same, for a receiver whose call has not failed. -/
def Delivers (sender : Endian) (frames : List (UInt64 × List UInt8)) (stream : List UInt8) :
    TcpRecv → Prop
  | .header got => got.length < msgHeaderSize ∧ got ++ stream = wire sender frames
  | .payload payloadLen got =>
    ∃ t0 buf rest, frames = (t0, buf) :: rest ∧ payloadLen.toNat = buf.length ∧
      got.length < buf.length ∧ got ++ stream = buf ++ wire sender rest
  | .returned value got =>
    ∃ t0 rest, frames = (t0, got) :: rest ∧ value = got.length ∧ stream = wire sender rest

theorem Delivers.receives {sender : Endian} {frames : List (UInt64 × List UInt8)}
    {stream : List UInt8} {rx : TcpRecv} (delivers : Delivers sender frames stream rx) :
    Receives sender frames stream rx := by
  cases rx with
  | header got => exact delivers
  | payload payloadLen got => exact delivers
  | returned value got => exact .inr delivers

theorem Receives.cases {sender : Endian} {frames : List (UInt64 × List UInt8)}
    {stream : List UInt8} {rx : TcpRecv} (receives : Receives sender frames stream rx) :
    (∃ value got, rx = .returned value got ∧ value ≤ 0) ∨ Delivers sender frames stream rx := by
  cases rx with
  | header got => exact .inr receives
  | payload payloadLen got => exact .inr receives
  | returned value got =>
    rcases receives with failed | delivered
    · exact .inl ⟨value, got, rfl, failed⟩
    · exact .inr delivered

/-- The messages still to be received are in the receiver, in the pipe and in
the bytes `unsent`, in this order. -/
def Carries (sender : Endian) (len : ℕ) (l : TcpLink) (unsent : List UInt8)
    (pending : List (List UInt8)) : Prop :=
  ∃ frames : List (UInt64 × List UInt8), frames.map Prod.snd = pending ∧
    (∀ buf ∈ pending, buf.length ≤ len) ∧ Receives sender frames (l.pipe ++ unsent) l.rx

theorem carries_fresh (sender : Endian) (len : ℕ) : fresh.Carries sender len [] [] :=
  ⟨[], rfl, by simp, by simp [fresh, tcpRecvStart, Receives, msgHeaderSize]⟩

/-- A frame put behind the stream is the last one to be received. -/
theorem Delivers.append {sender : Endian} {frames : List (UInt64 × List UInt8)}
    {stream : List UInt8} {rx : TcpRecv} (delivers : Delivers sender frames stream rx)
    (t0 : UInt64) (buf : List UInt8) :
    Delivers sender (frames ++ [(t0, buf)]) (stream ++ tcpFrame sender t0 buf) rx := by
  have added : ∀ first, wire sender (first ++ [(t0, buf)]) =
      wire sender first ++ tcpFrame sender t0 buf := by
    simp [wire]
  cases rx with
  | header got => exact ⟨delivers.1, by rw [added, ← delivers.2, List.append_assoc]⟩
  | payload payloadLen got =>
    obtain ⟨t1, first, rest, rfl, lenEq, short, bytes⟩ := delivers
    refine ⟨t1, first, rest ++ [(t0, buf)], rfl, lenEq, short, ?_⟩
    rw [added, ← List.append_assoc, bytes, List.append_assoc]
  | returned value got =>
    obtain ⟨t1, rest, rfl, value_eq, rfl⟩ := delivers
    exact ⟨t1, rest ++ [(t0, buf)], rfl, value_eq, (added rest).symm⟩

theorem Receives.append {sender : Endian} {frames : List (UInt64 × List UInt8)}
    {stream : List UInt8} {rx : TcpRecv} (receives : Receives sender frames stream rx)
    (t0 : UInt64) (buf : List UInt8) :
    Receives sender (frames ++ [(t0, buf)]) (stream ++ tcpFrame sender t0 buf) rx := by
  rcases receives.cases with ⟨value, got, rfl, failed⟩ | delivers
  · exact .inl failed
  · exact (delivers.append t0 buf).receives

/-- Starting to send a message adds it to those to be received. -/
theorem Carries.beginSend {sender : Endian} {len : ℕ} {l : TcpLink} {pending : List (List UInt8)}
    (t0 : UInt64) {buf : List UInt8} (carries : l.Carries sender len [] pending)
    (fits : buf.length ≤ len) :
    (l.beginSend sender t0 buf).Carries sender len (tcpFrame sender t0 buf) (pending ++ [buf]) := by
  obtain ⟨frames, rfl, small, receives⟩ := carries
  rw [List.append_nil] at receives
  refine ⟨frames ++ [(t0, buf)], by simp, ?_, receives.append t0 buf⟩
  intro other member
  rcases List.mem_append.mp member with old | new
  · exact small other old
  · exact (List.mem_singleton.mp new) ▸ fits

/-- A `write` moves bytes from the unsent part into the pipe. -/
theorem Carries.write {sender : Endian} {len size : ℕ} {l l' : TcpLink} {tx : TcpSend}
    {pending : List (List UInt8)} {r : WriteResult} (small : size < 2 ^ 63)
    (carries : l.Carries sender len tx.unsent pending) (calling : l.tx = some tx)
    (sound : tx.Sound size) (step : l.write r = some l') :
    ∃ tx', l'.tx = some tx' ∧ tx'.Sound size ∧ l'.Carries sender len tx'.unsent pending := by
  -- a `write` that fails moves nothing, whether it is repeated or ends the call
  have fails : ∀ fail : WriteResult, fail = .eintr ∨ fail = .error →
      TcpLink.Carries sender len { l with tx := some (tx.pass fail) } (tx.pass fail).unsent
        pending ∧ (tx.pass fail).Sound size := by
    intro fail failing
    have next := TcpSend.sound_pass_fail small sound failing
    exact ⟨next.2 ▸ carries, next.1⟩
  simp only [TcpLink.write, calling] at step
  cases r with
  | count taken =>
    simp only at step
    split at step
    case isTrue =>
      obtain rfl := Option.some.inj step
      have next := TcpSend.sound_pass_count taken sound
      refine ⟨_, rfl, next.1, ?_⟩
      have moved : (l.pipe ++ tx.offered.take taken) ++ (tx.pass (.count taken)).unsent =
          l.pipe ++ tx.unsent := by rw [List.append_assoc, next.2]
      obtain ⟨frames, same, fits, receives⟩ := carries
      exact ⟨frames, same, fits, moved ▸ receives⟩
    case isFalse => exact absurd step (by simp)
  | eintr =>
    obtain rfl := Option.some.inj step
    exact ⟨_, rfl, (fails _ (.inl rfl)).2, (fails _ (.inl rfl)).1⟩
  | error =>
    obtain rfl := Option.some.inj step
    exact ⟨_, rfl, (fails _ (.inr rfl)).2, (fails _ (.inr rfl)).1⟩

/-- The second loop of `tcp_recv` at its test. -/
private theorem delivers_payload_test {sender : Endian} (t0 : UInt64)
    {buf got stream : List UInt8} {rest : List (UInt64 × List UInt8)} {payloadLen : UInt32}
    (lenEq : payloadLen.toNat = buf.length) (within : got.length ≤ buf.length)
    (bytes : got ++ stream = buf ++ wire sender rest) :
    Delivers sender ((t0, buf) :: rest) stream
      (tcpRecvPayload payloadLen (tcpReadNTest payloadLen.toNat got)) := by
  unfold tcpReadNTest
  by_cases short : got.length < payloadLen.toNat
  · rw [if_pos short, tcpRecvPayload]
    exact ⟨t0, buf, rest, rfl, lenEq, lenEq ▸ short, bytes⟩
  · have full : got.length = buf.length := by omega
    obtain ⟨rfl, rfl⟩ := List.append_inj bytes full
    rw [if_neg short, tcpRecvPayload, if_neg (by simp [lenEq])]
    exact ⟨t0, rest, rfl, by rw [lenEq], rfl⟩

/-- The first loop of `tcp_recv` at its test. A complete header is that of the
next frame, and tells its length. -/
private theorem delivers_header_test {sender host : Endian} {len : ℕ}
    {frames : List (UInt64 × List UInt8)} {got stream : List UInt8} (bound : len < 2 ^ 32)
    (fits : ∀ buf ∈ frames.map Prod.snd, buf.length ≤ len) (within : got.length ≤ msgHeaderSize)
    (bytes : got ++ stream = wire sender frames) :
    Delivers sender frames stream (tcpRecvHeader host len (tcpReadNTest msgHeaderSize got)) := by
  unfold tcpReadNTest
  by_cases short : got.length < msgHeaderSize
  · rw [if_pos short, tcpRecvHeader]
    exact ⟨short, bytes⟩
  · have full : got.length = msgHeaderSize := by omega
    cases frames with
    | nil =>
      have empty := List.append_eq_nil_iff.mp bytes
      simp [empty.1, msgHeaderSize] at full
    | cons frame rest =>
      obtain ⟨t0, buf⟩ := frame
      have small : buf.length ≤ len := fits buf (by simp)
      have exact32 : (UInt32.ofNat buf.length).toNat = buf.length := by
        rw [UInt32.toNat_ofNat']
        omega
      have positive : ¬ ((got.length : ℤ) ≤ 0) := by
        rw [full, msgHeaderSize]
        omega
      rw [wire_cons] at bytes
      obtain ⟨rfl, rfl⟩ := List.append_inj bytes (by simp [full])
      rw [if_neg short, tcpRecvHeader, if_neg positive, if_neg (by simp [full])]
      simp only [len_headerOfBytes, exact32, if_neg (show ¬ len < buf.length by omega)]
      -- the payload begins where the header ends
      have next := delivers_payload_test t0 exact32 (Nat.zero_le _)
        (rfl : [] ++ (buf ++ wire sender rest) = buf ++ wire sender rest)
      rwa [exact32] at next

/-- Bytes read go from the stream to the receiver. -/
theorem Delivers.pass_bytes {sender host : Endian} {len : ℕ}
    {frames : List (UInt64 × List UInt8)} {read stream : List UInt8} {rx : TcpRecv}
    (bound : len < 2 ^ 32) (fits : ∀ buf ∈ frames.map Prod.snd, buf.length ≤ len)
    (some_byte : read ≠ []) (within : read.length ≤ rx.wanted)
    (delivers : Delivers sender frames (read ++ stream) rx) :
    Delivers sender frames stream (rx.pass host len (.count read)) := by
  cases rx with
  | header got =>
    obtain ⟨short, bytes⟩ := delivers
    rw [TcpRecv.wanted] at within
    rw [TcpRecv.pass, tcpReadNPass]
    · refine delivers_header_test bound fits ?_ (by rw [List.append_assoc]; exact bytes)
      rw [List.length_append]
      omega
    · exact some_byte
  | payload payloadLen got =>
    obtain ⟨t0, buf, rest, rfl, lenEq, short, bytes⟩ := delivers
    rw [TcpRecv.wanted] at within
    rw [TcpRecv.pass, tcpReadNPass]
    · refine delivers_payload_test t0 lenEq ?_ (by rw [List.append_assoc]; exact bytes)
      rw [List.length_append]
      omega
    · exact some_byte
  | returned value got =>
    rw [TcpRecv.wanted, Nat.le_zero, List.length_eq_zero_iff] at within
    exact absurd within some_byte

/-- No bytes at all are the end of the stream: they end the call with a result that is
not positive. -/
theorem Receives.pass_count {sender host : Endian} {len : ℕ}
    {frames : List (UInt64 × List UInt8)} {read stream : List UInt8} {rx : TcpRecv}
    (bound : len < 2 ^ 32) (fits : ∀ buf ∈ frames.map Prod.snd, buf.length ≤ len)
    (within : read.length ≤ rx.wanted) (receives : Receives sender frames (read ++ stream) rx) :
    Receives sender frames stream (rx.pass host len (.count read)) := by
  by_cases empty : read = []
  · subst empty
    cases rx with
    | header got =>
      rw [TcpRecv.pass, tcpReadNPass, tcpRecvHeader]
      have short := receives.1
      split_ifs with none
      · exact .inl none
      · exact .inl (by decide)
      · omega
    | payload payloadLen got =>
      obtain ⟨t0, buf, rest, -, lenEq, short, -⟩ := receives
      rw [TcpRecv.pass, tcpReadNPass, tcpRecvPayload, if_pos (by omega)]
      exact .inl (by decide)
    | returned value got => exact receives
  · rcases receives.cases with ⟨value, got, rfl, -⟩ | delivers
    · rw [TcpRecv.wanted, Nat.le_zero, List.length_eq_zero_iff] at within
      exact absurd within empty
    · exact (delivers.pass_bytes bound fits empty within).receives

/-- A `read` that fails repeats the loop, or ends the call with an error. -/
theorem Receives.pass_fail {sender host : Endian} {len : ℕ}
    {frames : List (UInt64 × List UInt8)} {stream : List UInt8} {rx : TcpRecv} {r : ReadResult}
    (fails : r = .eintr ∨ r = .error) (receives : Receives sender frames stream rx) :
    Receives sender frames stream (rx.pass host len r) := by
  rcases fails with rfl | rfl
  · cases rx <;> exact receives
  · cases rx with
    | header got => exact .inl (by decide)
    | payload payloadLen got =>
      rw [TcpRecv.pass, tcpReadNPass, tcpRecvPayload, if_pos (by omega)]
      exact .inl (by decide)
    | returned value got => exact receives

/-- A `read` moves bytes from the pipe to the receiver. -/
theorem Carries.read {sender host : Endian} {len : ℕ} {l l' : TcpLink} {unsent : List UInt8}
    {pending : List (List UInt8)} {r : ReadResult} (bound : len < 2 ^ 32)
    (carries : l.Carries sender len unsent pending) (step : l.read host len r = some l') :
    l'.Carries sender len unsent pending := by
  obtain ⟨frames, rfl, fits, receives⟩ := carries
  cases r with
  | count read =>
    simp only [TcpLink.read] at step
    split at step
    case isTrue guard =>
      obtain ⟨within, later, pipe⟩ := guard
      obtain rfl := Option.some.inj step
      rw [← pipe, List.append_assoc] at receives
      refine ⟨frames, rfl, fits, ?_⟩
      simp only [← pipe, List.drop_left]
      exact receives.pass_count bound fits within
    case isFalse => exact absurd step (by simp)
  | eintr =>
    obtain rfl := Option.some.inj step
    exact ⟨frames, rfl, fits, receives.pass_fail (.inl rfl)⟩
  | error =>
    obtain rfl := Option.some.inj step
    exact ⟨frames, rfl, fits, receives.pass_fail (.inr rfl)⟩

/-- The end of `tcp_send` does not touch the stream. -/
theorem Carries.endSend {sender : Endian} {len : ℕ} {l : TcpLink} {unsent : List UInt8}
    {pending : List (List UInt8)} (carries : l.Carries sender len unsent pending) :
    l.endSend.Carries sender len unsent pending :=
  carries

/-- A message that `tcp_recv` returned is the next one sent. -/
theorem Carries.endRecv {sender : Endian} {len : ℕ} {l : TcpLink} {unsent : List UInt8}
    {pending : List (List UInt8)} {value : ℤ} {got : List UInt8}
    (carries : l.Carries sender len unsent pending) (rx : l.rx = .returned value got)
    (positive : 0 < value) :
    value = got.length ∧ ∃ rest, pending = got :: rest ∧
      l.endRecv.Carries sender len unsent rest := by
  obtain ⟨frames, rfl, fits, receives⟩ := carries
  rw [rx] at receives
  rcases receives with failed | ⟨t0, rest, rfl, value_eq, bytes⟩
  · omega
  · refine ⟨value_eq, rest.map Prod.snd, rfl, rest, rfl, ?_, ?_⟩
    · exact fun buf member => fits buf (List.mem_cons_of_mem _ member)
    · exact ⟨by simp [msgHeaderSize], bytes⟩

end TcpLink

end OmniSocket
