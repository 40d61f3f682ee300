/-
# One direction of a connection with its sender

A program that sends one message after the other on a connection is, between two of its
steps, inside a call of `tcp_send` or not. Bytes of a frame are missing on the connection
only while their message is still to be received: either its call goes on, or it has
failed. So a program that sends its next message only when it knows the last one to have
arrived never sends behind a broken frame.
-/

import OmniSocket.TcpStream

set_option autoImplicit false

namespace OmniSocket.TcpLink

variable {sender host : Endian} {len size : ℕ} {l l' : TcpLink}

/-- A `write` does not touch the receiving end. -/
theorem rx_write {r : WriteResult} (step : l.write r = some l') : l'.rx = l.rx := by
  unfold write at step
  split at step
  case h_1 => exact absurd step (by simp)
  case h_2 =>
    split at step
    case h_1 =>
      obtain ⟨-, rfl⟩ := (Option.ite_none_right_eq_some.mp step).imp_right Option.some.inj
      rfl
    case h_2 => exact Option.some.inj step ▸ rfl

/-- A `read` does to the receiver what its result does. -/
theorem rx_read {r : ReadResult} (step : l.read host len r = some l') :
    l'.rx = l.rx.pass host len r := by
  cases r with
  | count bytes =>
    obtain ⟨-, rfl⟩ := (Option.ite_none_right_eq_some.mp step).imp_right Option.some.inj
    rfl
  | eintr => exact Option.some.inj step ▸ rfl
  | error => exact Option.some.inj step ▸ rfl

/-- A `write` moves bytes from the unsent part into the pipe. -/
theorem write_spec {tx : TcpSend} {r : WriteResult} (small : size < 2 ^ 63)
    (calling : l.tx = some tx) (sound : tx.Sound size) (step : l.write r = some l') :
    ∃ tx' moved, l'.tx = some tx' ∧ tx'.Sound size ∧ l'.pipe = l.pipe ++ moved ∧
      moved ++ tx'.unsent = tx.unsent := by
  simp only [write, calling] at step
  cases r with
  | count taken =>
    obtain ⟨-, rfl⟩ := (Option.ite_none_right_eq_some.mp step).imp_right Option.some.inj
    have next := TcpSend.sound_pass_count taken sound
    exact ⟨_, _, rfl, next.1, rfl, next.2⟩
  | eintr =>
    obtain rfl := Option.some.inj step
    have next := TcpSend.sound_pass_fail small sound (.inl rfl)
    exact ⟨_, [], rfl, next.1, (List.append_nil _).symm, next.2⟩
  | error =>
    obtain rfl := Option.some.inj step
    have next := TcpSend.sound_pass_fail small sound (.inr rfl)
    exact ⟨_, [], rfl, next.1, (List.append_nil _).symm, next.2⟩

/-- The messages `pending` are still to be received, the sender is inside a call for the
message `calling`, if there is one, and the bytes `unsent` are missing on the connection. -/
structure Way (sender : Endian) (len : ℕ) (l : TcpLink) (calling : Option (List UInt8))
    (unsent : List UInt8) (pending : List (List UInt8)) : Prop where
  carries : l.Carries sender len unsent pending
  inside : ∀ msg, calling = some msg → msg.length ≤ len ∧
    ∃ tx, l.tx = some tx ∧ unsent = tx.unsent ∧ tx.Sound msg.length
  outside : calling = none → l.tx = none
  drained : pending = [] → unsent = []

variable {calling : Option (List UInt8)} {unsent : List UInt8} {pending : List (List UInt8)}

theorem way_fresh (sender : Endian) (len : ℕ) : fresh.Way sender len none [] [] where
  carries := carries_fresh sender len
  inside := by simp
  outside := fun _ => rfl
  drained := fun _ => rfl

/-- A message is sent when there is none to be received. -/
theorem Way.beginSend {msg : List UInt8} (way : l.Way sender len calling unsent []) (t0 : UInt64)
    (fits : msg.length ≤ len) :
    (l.beginSend sender t0 msg).Way sender len (some msg) (tcpFrame sender t0 msg) [msg] where
  carries := by
    have carries := way.carries
    rw [way.drained rfl] at carries
    exact carries.beginSend t0 fits
  inside := by
    intro msg' same
    obtain rfl := Option.some.inj same
    obtain ⟨sound, whole⟩ := TcpSend.sound_tcpSendStart sender t0 msg
    exact ⟨fits, _, rfl, whole.symm, sound⟩
  outside := by simp
  drained := by simp

theorem Way.write {r : WriteResult} (bound : len < 2 ^ 63)
    (way : l.Way sender len calling unsent pending) (step : l.write r = some l') :
    ∃ unsent', l'.Way sender len calling unsent' pending := by
  cases calling with
  | none =>
    -- a sender outside `omni_send` makes no `write`
    rw [TcpLink.write, way.outside rfl] at step
    cases step
  | some msg =>
    obtain ⟨fits, tx, active, rfl, sound⟩ := way.inside msg rfl
    obtain ⟨tx', moved, active', sound', pipe, bytes⟩ :=
      write_spec (fits.trans_lt bound) active sound step
    refine ⟨tx'.unsent, ?_, ?_, by simp, fun none => ?_⟩
    · obtain ⟨frames, same, small, receives⟩ := way.carries
      refine ⟨frames, same, small, ?_⟩
      rw [pipe, List.append_assoc, bytes, rx_write step]
      exact receives
    · intro msg' same
      obtain rfl := Option.some.inj same
      exact ⟨fits, tx', active', rfl, sound'⟩
    · have left := way.drained none
      rw [← bytes] at left
      exact (List.append_eq_nil_iff.mp left).2

/-- The call returns, whether it has sent its frame or not. -/
theorem Way.endSend (way : l.Way sender len calling unsent pending) :
    l.endSend.Way sender len none unsent pending where
  carries := way.carries.endSend
  inside := by simp
  outside := fun _ => rfl
  drained := way.drained

theorem Way.read {r : ReadResult} (bound : len < 2 ^ 32)
    (way : l.Way sender len calling unsent pending) (step : l.read host len r = some l') :
    l'.Way sender len calling unsent pending where
  carries := way.carries.read bound step
  inside := by
    rw [tx_read step]
    exact way.inside
  outside := by
    rw [tx_read step]
    exact way.outside
  drained := way.drained

/-- A message that was received is the next one sent, and nothing is missing behind the
last one. -/
theorem Way.endRecv {value : ℤ} {got : List UInt8}
    (way : l.Way sender len calling unsent pending) (rx : l.rx = .returned value got)
    (positive : 0 < value) :
    value = got.length ∧ got.length ≤ len ∧ ∃ rest, pending = got :: rest ∧
      l.endRecv.Way sender len calling unsent rest := by
  obtain ⟨value_eq, rest, rfl, carries⟩ := way.carries.endRecv rx positive
  obtain ⟨-, -, small, -⟩ := way.carries
  refine ⟨value_eq, small got List.mem_cons_self, rest, rfl, carries, way.inside, way.outside, ?_⟩
  rintro rfl
  obtain ⟨frames, none, -, receives⟩ := carries
  rw [List.map_eq_nil_iff.mp none] at receives
  have empty : l.endRecv.pipe ++ unsent = [] := receives.2
  exact (List.append_eq_nil_iff.mp empty).2

end OmniSocket.TcpLink
