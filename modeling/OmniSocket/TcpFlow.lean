/-
# A connection on which nothing fails

As long as no `write` and no `read` fails, both ends make their way through the frames: a
sender that has returned has written its whole frame, a receiver that has returned has
the next message. Every byte that is moved leaves less to do, and where a message is
still to be received and nobody is sending, there is a byte to read.
-/

import OmniSocket.TcpStream

set_option autoImplicit false

namespace OmniSocket.TcpLink

/-- What is still to be written of the frame being sent. -/
def unsent (l : TcpLink) : List UInt8 :=
  match l.tx with
  | some tx => tx.unsent
  | none => []

/-- The messages still to be received are on their way, and no call has failed. The message
being sent has `size` bytes. -/
structure Flows (sender : Endian) (len size : ℕ) (l : TcpLink) (pending : List (List UInt8)) :
    Prop where
  delivers : ∃ frames : List (UInt64 × List UInt8), frames.map Prod.snd = pending ∧
    (∀ buf ∈ pending, buf.length ≤ len) ∧ Delivers sender frames (l.pipe ++ l.unsent) l.rx
  succeeds : ∀ tx, l.tx = some tx → tx.Succeeds size

/-- How much work the receiver's call has behind it that is undone when it returns. -/
def credit : TcpRecv → ℕ
  | .header [] => 0
  | .header _ => 4
  | .payload _ _ => 4
  | .returned _ _ => 3

/-- What is left to do for the bytes on their way: each is written and then read. -/
def work (l : TcpLink) : ℕ := 16 * l.unsent.length + 8 * l.pipe.length + credit l.rx

variable {sender host : Endian} {len size : ℕ} {l l' : TcpLink} {pending : List (List UInt8)}

theorem credit_le (rx : TcpRecv) : credit rx ≤ 4 := by
  unfold credit
  split <;> omega

theorem flows_fresh (sender : Endian) (len size : ℕ) : fresh.Flows sender len size [] := by
  refine ⟨⟨[], rfl, by simp, ?_⟩, by simp [fresh]⟩
  exact ⟨by simp [msgHeaderSize], rfl⟩

/-- The size is that of the message being sent, if there is one. -/
theorem Flows.resize (flows : l.Flows sender len size pending) (idle : l.tx = none) (size' : ℕ) :
    l.Flows sender len size' pending :=
  ⟨flows.delivers, by simp [idle]⟩

/-- Starting to send a message adds it to those to be received. -/
theorem Flows.beginSend (flows : l.Flows sender len size pending) (idle : l.tx = none)
    (t0 : UInt64) {buf : List UInt8} (fits : buf.length ≤ len) :
    (l.beginSend sender t0 buf).Flows sender len buf.length (pending ++ [buf]) ∧
      (l.beginSend sender t0 buf).work = l.work + 16 * (msgHeaderSize + buf.length) := by
  obtain ⟨⟨frames, rfl, small, delivers⟩, -⟩ := flows
  obtain ⟨succeeds, unsent⟩ := TcpSend.succeeds_tcpSendStart sender t0 buf
  have none_left : l.unsent = [] := by rw [TcpLink.unsent, idle]
  have all_left : (l.beginSend sender t0 buf).unsent = tcpFrame sender t0 buf := unsent
  rw [none_left, List.append_nil] at delivers
  refine ⟨⟨⟨frames ++ [(t0, buf)], by simp, ?_, ?_⟩, ?_⟩, ?_⟩
  · intro other member
    rcases List.mem_append.mp member with old | new
    · exact small other old
    · exact (List.mem_singleton.mp new) ▸ fits
  · rw [all_left]
    exact delivers.append t0 buf
  · intro tx same
    obtain rfl := Option.some.inj same
    exact succeeds
  · rw [work, work, all_left, none_left, tcpFrame, List.length_append, length_headerBytes]
    show _ + 8 * l.pipe.length + credit l.rx = _
    rw [List.length_nil]
    omega

/-- A `write` that does not fail moves bytes from the unsent part into the pipe. -/
theorem Flows.write {r : WriteResult} (flows : l.Flows sender len size pending)
    (works : r ≠ .error) (step : l.write r = some l') :
    l'.Flows sender len size pending ∧ l'.tx.isSome ∧ l'.work ≤ l.work ∧
      (r ≠ .eintr → r ≠ .count 0 → l'.work < l.work) := by
  obtain ⟨⟨frames, rfl, small, delivers⟩, succeeds⟩ := flows
  cases calling : l.tx with
  | none => exact absurd step (by simp [TcpLink.write, calling])
  | some tx =>
    have left : l.unsent = tx.unsent := by rw [unsent, calling]
    rw [left] at delivers
    simp only [TcpLink.write, calling] at step
    cases r with
    | count taken =>
      obtain ⟨within, rfl⟩ := (Option.ite_none_right_eq_some.mp step).imp_right Option.some.inj
      obtain ⟨succeeds', moved⟩ := (succeeds tx calling).pass_count taken
      have counted := congrArg List.length moved
      rw [List.length_append, List.length_take_of_le within] at counted
      have works' : 16 * (tx.pass (.count taken)).unsent.length +
          8 * (l.pipe ++ tx.offered.take taken).length + credit l.rx + 8 * taken = l.work := by
        rw [work, left, List.length_append, List.length_take_of_le within]
        omega
      refine ⟨⟨⟨frames, rfl, small, ?_⟩, ?_⟩, rfl, ?_, fun _ positive => ?_⟩
      · show Delivers sender frames ((l.pipe ++ tx.offered.take taken) ++
          (tx.pass (.count taken)).unsent) l.rx
        rw [List.append_assoc, moved]
        exact delivers
      · intro tx' same
        obtain rfl := Option.some.inj same
        exact succeeds'
      · exact Nat.le.intro works'
      · have some_byte : taken ≠ 0 := fun none => positive (congrArg _ none)
        exact Nat.lt_of_lt_of_le (Nat.lt_add_of_pos_right (by omega)) works'.le
    | eintr =>
      obtain rfl := Option.some.inj step
      have same : tx.pass .eintr = tx := by cases tx <;> rfl
      have still : ({ l with tx := some (tx.pass .eintr) } : TcpLink) = l := by
        rw [same, ← calling]
      simp only [still]
      exact ⟨⟨⟨frames, rfl, small, left ▸ delivers⟩, succeeds⟩, by simp, le_rfl,
        fun moves => absurd rfl moves⟩
    | error => exact absurd rfl works

/-- A sender that returns has got its frame through. -/
theorem Flows.endSend {value : ℤ} {left : List UInt8} (flows : l.Flows sender len size pending)
    (returned : l.tx = some (.returned value left)) :
    value = ssize size ∧ l.endSend.Flows sender len size pending ∧ l.endSend.work = l.work := by
  obtain ⟨⟨frames, rfl, small, delivers⟩, succeeds⟩ := flows
  obtain ⟨rfl, rfl⟩ := succeeds _ returned
  have none_left : l.unsent = [] := by
    rw [unsent, returned]
    rfl
  rw [none_left] at delivers
  refine ⟨rfl, ⟨⟨frames, rfl, small, delivers⟩, by simp [TcpLink.endSend]⟩, ?_⟩
  rw [work, work, none_left]
  rfl

/-- A `read` of some bytes takes them from the pipe. -/
theorem Flows.read {r : ReadResult} (bound : len < 2 ^ 32)
    (flows : l.Flows sender len size pending) (works : r ≠ .error) (some_byte : r ≠ .count [])
    (step : l.read host len r = some l') :
    l'.Flows sender len size pending ∧ l'.tx = l.tx ∧ l'.work ≤ l.work ∧
      (r ≠ .eintr → l'.work < l.work) := by
  obtain ⟨⟨frames, rfl, small, delivers⟩, succeeds⟩ := flows
  cases r with
  | count bytes =>
    have positive : bytes ≠ [] := fun none => some_byte (congrArg _ none)
    obtain ⟨⟨within, later, pipe⟩, rfl⟩ :=
      (Option.ite_none_right_eq_some.mp step).imp_right Option.some.inj
    rw [← pipe, List.append_assoc] at delivers
    have less : TcpLink.work { l with
        rx := l.rx.pass host len (.count bytes), pipe := l.pipe.drop bytes.length } < l.work := by
      have credit_le := credit_le (l.rx.pass host len (.count bytes))
      have shorter := List.length_pos_iff.mpr positive
      rw [work, work, ← pipe, List.drop_left, List.length_append]
      show 16 * l.unsent.length + 8 * later.length + credit (l.rx.pass host len (.count bytes)) < _
      omega
    refine ⟨⟨⟨frames, rfl, small, ?_⟩, succeeds⟩, rfl, less.le, fun _ => less⟩
    simp only [← pipe, List.drop_left]
    exact delivers.pass_bytes bound small positive within
  | eintr =>
    obtain rfl := Option.some.inj step
    have same : l.rx.pass host len .eintr = l.rx := by cases l.rx <;> rfl
    have still : ({ l with rx := l.rx.pass host len .eintr } : TcpLink) = l := by rw [same]
    rw [still]
    exact ⟨⟨⟨frames, rfl, small, delivers⟩, succeeds⟩, rfl, le_rfl, fun moves => absurd rfl moves⟩
  | error => exact absurd rfl works

/-- A receiver that returns has the next message. -/
theorem Flows.endRecv {value : ℤ} {got : List UInt8} (flows : l.Flows sender len size pending)
    (returned : l.rx = .returned value got) :
    value = got.length ∧ (∃ rest, pending = got :: rest ∧
      l.endRecv.Flows sender len size rest) ∧ l.endRecv.work + 3 = l.work := by
  obtain ⟨⟨frames, rfl, small, delivers⟩, succeeds⟩ := flows
  rw [returned] at delivers
  obtain ⟨t0, rest, rfl, value_eq, bytes⟩ := delivers
  refine ⟨value_eq, ⟨rest.map Prod.snd, rfl, ⟨rest, rfl, ?_, ?_⟩, succeeds⟩, ?_⟩
  · exact fun buf member => small buf (List.mem_cons_of_mem _ member)
  · exact ⟨by simp [msgHeaderSize], bytes⟩
  · rw [work, work, returned]
    rfl

/-- A sender that has not returned can write. -/
theorem Flows.exists_write (flows : l.Flows sender len size pending) {tx : TcpSend}
    (calling : l.tx = some tx) :
    (∃ value left, tx = .returned value left) ∨ ∃ l', l.write (.count 1) = some l' := by
  have succeeds := flows.succeeds tx calling
  have offers : tx.offered ≠ [] → ∃ l', l.write (.count 1) = some l' := by
    intro some_byte
    rw [TcpLink.write, calling]
    exact ⟨_, if_pos (List.length_pos_iff.mpr some_byte)⟩
  cases tx with
  | header rest buf => exact .inr (offers succeeds.1)
  | payload n rest => exact .inr (offers succeeds.1)
  | returned value left => exact .inl ⟨value, left, rfl⟩

/-- If nobody is sending, a receiver that has not returned can read as long as a message is
on its way. -/
theorem Flows.exists_read (flows : l.Flows sender len size pending) (host : Endian)
    (idle : l.tx = none) (waits : pending ≠ []) :
    (∃ value got, l.rx = .returned value got) ∨
      ∃ b l', l.read host len (.count [b]) = some l' := by
  obtain ⟨⟨frames, rfl, -, delivers⟩, -⟩ := flows
  rw [unsent, idle, List.append_nil] at delivers
  have reads : l.pipe ≠ [] → 0 < l.rx.wanted →
      ∃ b l', l.read host len (.count [b]) = some l' := by
    intro some_byte wanted
    obtain ⟨b, later, pipe⟩ := List.exists_cons_of_ne_nil some_byte
    exact ⟨b, _, if_pos ⟨wanted, later, pipe.symm⟩⟩
  cases rx : l.rx with
  | header got =>
    rw [rx] at delivers reads
    obtain ⟨short, bytes⟩ := delivers
    refine .inr (reads ?_ (Nat.sub_pos_of_lt short))
    rintro none
    -- the pipe holds at least the rest of a header
    cases frames with
    | nil => exact waits rfl
    | cons frame rest =>
      have counted := congrArg List.length bytes
      rw [none, wire_cons, List.append_nil, List.length_append, length_headerBytes] at counted
      omega
  | payload payloadLen got =>
    rw [rx] at delivers reads
    obtain ⟨t0, buf, rest, rfl, lenEq, short, bytes⟩ := delivers
    refine .inr (reads ?_ (Nat.sub_pos_of_lt (lenEq ▸ short)))
    rintro none
    have counted := congrArg List.length bytes
    rw [none, List.append_nil, List.length_append] at counted
    omega
  | returned value got => exact .inl ⟨value, got, rfl⟩

end OmniSocket.TcpLink
