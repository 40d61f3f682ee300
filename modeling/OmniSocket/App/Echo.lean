/-
# The test program

`test_main.c` sends numbered messages and waits after each for its echo. A zero from
`omni_recv` is the end of the connection, except over KCP: there the server waits and
calls again, and the client, with its counter taken back by one, sends a new message under
the same number.
-/

import OmniSocket.App.Server
import OmniSocket.LogRecord

set_option autoImplicit false

namespace OmniSocket

open Lib

/-- `sizeof(send_buf)`. -/
def testSendSize : ℕ := 2048

/-- `sizeof(recv_buf)` in the client, `sizeof(buf)` in the server. -/
def testRecvSize : ℕ := 4096

/-- How many rounds the client makes. -/
def testRounds : ℕ := 100

/-- What `snprintf` makes of round `i` at clock reading `now`, if it fits. -/
def testMessage (i : ℕ) (now : UInt64) : List UInt8 :=
  bytesOf "msg=" ++ utf8 (Nat.toDigits 10 i) ++ bytesOf " time_ms=" ++ decimal now ++
    bytesOf " payload_size=" ++ utf8 (Nat.toDigits 10 testSendSize)

/-- Where `run_client` stands. -/
inductive EchoClientPc
  /-- `i < 100`. -/
  | loopTest
  /-- Inside `omni_send(ctx, send_buf, (size_t)len)`. -/
  | sending (msg : List UInt8)
  /-- Inside `omni_recv(ctx, recv_buf, sizeof(recv_buf))`. -/
  | receiving
  /-- Past the loop. -/
  | done
  deriving DecidableEq, Repr

/-- The client. -/
structure EchoClient where
  proto : OmniProtocol
  pc : EchoClientPc
  i : ℕ
  /-- The messages handed to `omni_send`, each with its round. -/
  sent : List (ℕ × List UInt8)
  /-- The echoes received, each with the round it was taken for. -/
  replies : List (ℕ × List UInt8)
  deriving DecidableEq, Repr

/-- What the environment decides for the client. -/
inductive EchoClientEvent
  /-- The clock is read for `snprintf`. -/
  | clock (now : UInt64)
  /-- `omni_send` returns `n`. -/
  | sent (n : ℤ)
  /-- `omni_recv` returns `m` with the given bytes in `recv_buf`. -/
  | recv (m : ℤ) (buf : List UInt8)
  deriving DecidableEq, Repr

namespace EchoClient

/-- The client once it has its context. -/
def start (proto : OmniProtocol) : EchoClient where
  proto := proto
  pc := .loopTest
  i := 0
  sent := []
  replies := []

/-- What the loop does with one result of `omni_recv`. -/
def afterRecv (c : EchoClient) (m : ℤ) (buf : List UInt8) : EchoClient :=
  if m < 0 then { c with pc := .done }
  else if m = 0 then
    -- `--i; continue`, and the head of the loop counts up again
    if c.proto = .kcp then { c with pc := .loopTest } else { c with pc := .done }
  else
    { c with pc := .loopTest, i := c.i + 1, replies := c.replies ++ [(c.i, buf.take m.toNat)] }

/-- One action of the client. -/
def step (c : EchoClient) : EchoClientEvent → Option EchoClient
  | .clock now =>
    match c.pc with
    | .loopTest =>
      some (if c.i < testRounds then
        { c with
          pc := .sending (testMessage c.i now)
          sent := c.sent ++ [(c.i, testMessage c.i now)] }
      else { c with pc := .done })
    | _ => none
  | .sent n =>
    match c.pc with
    | .sending _ => some { c with pc := if n ≤ 0 then .done else .receiving }
    | _ => none
  | .recv m buf =>
    match c.pc with
    | .receiving => some (c.afterRecv m buf)
    | _ => none

/-- What the head of the loop does. -/
theorem step_clock {c c' : EchoClient} {now : UInt64} (step : c.step (.clock now) = some c') :
    c.pc = .loopTest ∧
      ((c.i < testRounds ∧ c' = { c with
          pc := .sending (testMessage c.i now)
          sent := c.sent ++ [(c.i, testMessage c.i now)] }) ∨
        c' = { c with pc := .done }) := by
  simp only [EchoClient.step] at step
  split at step
  case h_1 pc =>
    obtain rfl := Option.some.inj step
    refine ⟨pc, ?_⟩
    split_ifs with round
    · exact .inl ⟨round, rfl⟩
    · exact .inr rfl
  case h_2 => exact absurd step (by simp)

/-- What a return of `omni_send` does. -/
theorem step_sent {c c' : EchoClient} {n : ℤ} (step : c.step (.sent n) = some c') :
    (∃ msg, c.pc = .sending msg) ∧ c' = { c with pc := if n ≤ 0 then .done else .receiving } := by
  simp only [EchoClient.step] at step
  split at step
  case h_1 msg pc => exact ⟨⟨msg, pc⟩, (Option.some.inj step).symm⟩
  case h_2 => exact absurd step (by simp)

/-- What a return of `omni_recv` does. -/
theorem step_recv {c c' : EchoClient} {m : ℤ} {buf : List UInt8}
    (step : c.step (.recv m buf) = some c') : c.pc = .receiving ∧ c' = c.afterRecv m buf := by
  simp only [EchoClient.step] at step
  split at step
  case h_1 pc => exact ⟨pc, (Option.some.inj step).symm⟩
  case h_2 => exact absurd step (by simp)

/-- A whole echo is taken for the round, and the counter counts up. -/
theorem afterRecv_of_whole {c : EchoClient} {m : ℤ} {msg : List UInt8} (positive : 0 < m)
    (whole : m = msg.length) :
    c.afterRecv m msg = { c with
      pc := .loopTest
      i := c.i + 1
      replies := c.replies ++ [(c.i, msg)] } := by
  rw [afterRecv, if_neg positive.le.not_gt, if_neg positive.ne', whole, Int.toNat_natCast,
    List.take_length]

/-- Over KCP the client sends again for the same round. -/
theorem afterRecv_zero {c : EchoClient} {m : ℤ} {buf : List UInt8} (kcp : c.proto = .kcp)
    (none : m = 0) : c.afterRecv m buf = { c with pc := .loopTest } := by
  rw [afterRecv, if_neg none.not_lt, if_pos none, if_pos kcp]

/-- Over the other protocols anything else ends the loop. -/
theorem afterRecv_of_nonpos {c : EchoClient} {m : ℤ} {buf : List UInt8} (other : c.proto ≠ .kcp)
    (none : m ≤ 0) : c.afterRecv m buf = { c with pc := .done } := by
  unfold afterRecv
  split_ifs
  · rfl
  · rfl
  · omega

end EchoClient

/-- Where `run_server` stands. -/
inductive EchoServerPc
  /-- Inside `omni_recv(ctx, buf, sizeof(buf))`. -/
  | receiving
  /-- Inside `omni_send(ctx, buf, (size_t)n)`. -/
  | sending (msg : List UInt8)
  /-- Past the loop. -/
  | done
  deriving DecidableEq, Repr

/-- The server. -/
structure EchoServer where
  proto : OmniProtocol
  pc : EchoServerPc
  deriving DecidableEq, Repr

/-- What the environment decides for the server. -/
inductive EchoServerEvent
  /-- `omni_recv` returns `n` with the given bytes in `buf`. -/
  | recv (n : ℤ) (buf : List UInt8)
  /-- `omni_send` returns `m`. -/
  | sent (m : ℤ)
  deriving DecidableEq, Repr

namespace EchoServer

/-- The server once it has its context. -/
def start (proto : OmniProtocol) : EchoServer where
  proto := proto
  pc := .receiving

/-- What the loop does with one result of `omni_recv`. -/
def afterRecv (s : EchoServer) (n : ℤ) (buf : List UInt8) : EchoServer :=
  if n < 0 then { s with pc := .done }
  else if n = 0 then
    if s.proto = .kcp then s else { s with pc := .done }
  else { s with pc := .sending (buf.take n.toNat) }

/-- One action of the server. It does not look at what `omni_send` returns. -/
def step (s : EchoServer) : EchoServerEvent → Option EchoServer
  | .recv n buf =>
    match s.pc with
    | .receiving => some (s.afterRecv n buf)
    | _ => none
  | .sent _ =>
    match s.pc with
    | .sending _ => some { s with pc := .receiving }
    | _ => none

/-- What a return of `omni_recv` does. -/
theorem step_recv {s s' : EchoServer} {n : ℤ} {buf : List UInt8}
    (step : s.step (.recv n buf) = some s') : s.pc = .receiving ∧ s' = s.afterRecv n buf := by
  simp only [EchoServer.step] at step
  split at step
  case h_1 pc => exact ⟨pc, (Option.some.inj step).symm⟩
  case h_2 => exact absurd step (by simp)

/-- What a return of `omni_send` does. -/
theorem step_sent {s s' : EchoServer} {m : ℤ} (step : s.step (.sent m) = some s') :
    (∃ msg, s.pc = .sending msg) ∧ s' = { s with pc := .receiving } := by
  simp only [EchoServer.step] at step
  split at step
  case h_1 msg pc => exact ⟨⟨msg, pc⟩, (Option.some.inj step).symm⟩
  case h_2 => exact absurd step (by simp)

/-- A whole message is echoed. -/
theorem afterRecv_of_whole {s : EchoServer} {n : ℤ} {msg : List UInt8} (positive : 0 < n)
    (whole : n = msg.length) : s.afterRecv n msg = { s with pc := .sending msg } := by
  rw [afterRecv, if_neg positive.le.not_gt, if_neg positive.ne', whole, Int.toNat_natCast,
    List.take_length]

/-- Over KCP the server calls again. -/
theorem afterRecv_zero {s : EchoServer} {n : ℤ} {buf : List UInt8} (kcp : s.proto = .kcp)
    (none : n = 0) : s.afterRecv n buf = s := by
  rw [afterRecv, if_neg none.not_lt, if_pos none, if_pos kcp]

/-- Over the other protocols anything else ends the loop. -/
theorem afterRecv_of_nonpos {s : EchoServer} {n : ℤ} {buf : List UInt8} (other : s.proto ≠ .kcp)
    (none : n ≤ 0) : s.afterRecv n buf = { s with pc := .done } := by
  unfold afterRecv
  split_ifs
  · rfl
  · rfl
  · omega

end EchoServer

/-- The message that is being sent. -/
def EchoClient.calling (c : EchoClient) : Option (List UInt8) :=
  match c.pc with
  | .sending msg => some msg
  | _ => none

/-- The message that is being echoed. -/
def EchoServer.calling (s : EchoServer) : Option (List UInt8) :=
  match s.pc with
  | .sending msg => some msg
  | _ => none

/-! ## The messages -/

/-- What is put behind a list stands at the place that is its length. -/
theorem forall_getElem?_concat {α : Type*} {P : ℕ → α → Prop} {l : List α} {a : α}
    (all : ∀ k x, l[k]? = some x → P k x) (last : P l.length a) (k : ℕ) (x : α)
    (found : (l ++ [a])[k]? = some x) : P k x := by
  rcases lt_trichotomy k l.length with before | rfl | behind
  · exact all k x ((List.getElem?_append_left before).symm.trans found)
  · rw [List.getElem?_concat_length] at found
    exact Option.some.inj found ▸ last
  · rw [List.getElem?_eq_none (by rw [List.length_append]; exact behind)] at found
    cases found

/-- Digits take a byte each. -/
theorem length_utf8_toDigits (n : ℕ) :
    (utf8 (Nat.toDigits 10 n)).length = (Nat.toDigits 10 n).length := by
  have digits : ∀ c ∈ Nat.toDigits 10 n, (String.utf8EncodeChar c).length = 1 := by
    intro c member
    have digit := Nat.isDigit_of_mem_toDigits (by decide) (by decide) member
    have small : c.toNat < 128 := by
      simp only [Char.isDigit, Bool.and_eq_true, decide_eq_true_eq] at digit
      have := UInt32.le_iff_toNat_le.mp digit.2
      exact this.trans_lt (by decide)
    rw [utf8EncodeChar_of_lt small]
    rfl
  rw [utf8, List.length_flatMap, List.map_congr_left digits]
  simp

/-- `snprintf` has room for every message, and the buffers of the other side do too. -/
theorem length_testMessage_lt {i : ℕ} (round : i < testRounds) (now : UInt64) :
    (testMessage i now).length < testSendSize := by
  have number : (Nat.toDigits 10 i).length ≤ 3 :=
    (Nat.length_toDigits_le_iff (by decide) (by decide)).mpr (round.trans (by decide))
  have clock : (Nat.toDigits 10 now.toNat).length ≤ 20 :=
    (Nat.length_toDigits_le_iff (by decide) (by decide)).mpr (now.toNat_lt.trans (by decide))
  have size : (bytesOf "msg=").length = 4 ∧ (bytesOf " time_ms=").length = 9 ∧
      (bytesOf " payload_size=").length = 14 ∧
      (utf8 (Nat.toDigits 10 testSendSize)).length = 4 := by decide +kernel
  obtain ⟨first, second, third, last⟩ := size
  simp only [testMessage, decimal, List.length_append, length_utf8_toDigits, first, second, third]
  rw [length_utf8_toDigits] at last
  rw [last, testSendSize]
  omega

/-! ## The rounds -/

namespace EchoClient

/-- The messages are those of the rounds, in order, and the counter has counted the
echoes. -/
structure Numbers (c : EchoClient) : Prop where
  counter : c.i = c.replies.length
  sent : ∀ k p, c.sent[k]? = some p → p.1 = k ∧ k < testRounds ∧ ∃ now, p.2 = testMessage k now

/-- A new message has the number of the round. -/
theorem Numbers.round {c : EchoClient} {pc : EchoClientPc} {now : UInt64} (numbers : c.Numbers)
    (answered : c.sent.length = c.replies.length) (round : c.i < testRounds) :
    Numbers { c with pc := pc, sent := c.sent ++ [(c.i, testMessage c.i now)] } where
  counter := numbers.counter
  sent := by
    have length : c.sent.length = c.i := answered.trans numbers.counter.symm
    exact forall_getElem?_concat numbers.sent ⟨length.symm, length.trans_lt round, now,
      congrArg (testMessage · now) length.symm⟩

/-- The next echo is taken for the next round. -/
theorem Numbers.reply {c : EchoClient} {msg : List UInt8} (numbers : c.Numbers) :
    Numbers { c with pc := .loopTest, i := c.i + 1, replies := c.replies ++ [(c.i, msg)] } where
  counter := by
    show c.i + 1 = (c.replies ++ [(c.i, msg)]).length
    rw [numbers.counter, List.length_append]
    rfl
  sent := numbers.sent

end EchoClient

end OmniSocket
