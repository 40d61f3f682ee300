/-
# The two loops of the TCP transport

`tcp_read_n` and `tcp_write_n` move `n` bytes between a buffer and a connection
with as many system calls as that takes. Here each loop has its offset, the
buffer it works on and the connection, where `OmniSocket.Tcp` has only the bytes
moved so far; those are what this says of them.
-/

import OmniSocket.Tcp
import OmniSocket.Lib.Buffer
import OmniSocket.Lib.Progress

set_option autoImplicit false

namespace OmniSocket

open Lib

/-- Where a loop is. -/
inductive LoopPc
  | running
  | returned (value : ℤ)
  /-- Something was stored outside of the buffer. -/
  | overrun
  deriving DecidableEq, Repr

/-- The same as a state of `OmniSocket.Tcp`, with the bytes it keeps. -/
def LoopPc.loop (pc : LoopPc) (bytes : List UInt8) : Option TcpLoop :=
  match pc with
  | .running => some (.running bytes)
  | .returned value => some (.returned value bytes)
  | .overrun => none

/-! ## `tcp_read_n` -/

/-- A call of `tcp_read_n` on a connection. -/
structure TcpReadN where
  /-- What has not been read of the stream. -/
  rest : List UInt8
  buf : List UInt8
  off : ℕ
  pc : LoopPc
  deriving DecidableEq, Repr

namespace TcpReadN

/-- The test `off < n`, and the `return` behind the loop. -/
def test (n : ℕ) (s : TcpReadN) : TcpReadN :=
  if s.off < n then { s with pc := .running } else { s with pc := .returned (ssize s.off) }

def start (n : ℕ) (stream buf : List UInt8) : TcpReadN := test n ⟨stream, buf, 0, .running⟩

/-- One pass, with what `read(fd, p + off, n - off)` answers. -/
def pass (n : ℕ) (s : TcpReadN) (r : ReadResult) : TcpReadN :=
  match s.pc with
  | .running =>
    match r with
    | .eintr => test n s
    | .error => { s with pc := .returned (-1) }
    | .count [] => { s with pc := .returned (ssize s.off) }
    | .count (b :: bytes) =>
      match storeAt s.buf s.off (b :: bytes) with
      | none => { s with pc := .overrun }
      | some buf =>
        test n { s with
          rest := s.rest.drop (b :: bytes).length
          buf := buf
          off := s.off + (b :: bytes).length }
  | .returned _ | .overrun => s

/-- An answer `read` can give: the next bytes of the stream, no more than were asked for,
and no bytes only at its end. -/
def Answers (n : ℕ) (s : TcpReadN) : ReadResult → Prop
  | .count bytes => (bytes = [] → s.rest = []) ∧ bytes.length ≤ n - s.off ∧ bytes <+: s.rest
  | .eintr | .error => True

instance (n : ℕ) (s : TcpReadN) (r : ReadResult) : Decidable (s.Answers n r) :=
  match r with
  | .count bytes =>
    inferInstanceAs (Decidable ((bytes = [] → s.rest = []) ∧ bytes.length ≤ n - s.off ∧
      bytes <+: s.rest))
  | .eintr => isTrue trivial
  | .error => isTrue trivial

/-- The call after `i` answers. -/
def after (n : ℕ) (stream buf : List UInt8) (script : ℕ → ReadResult) : ℕ → TcpReadN :=
  scripted (pass n) (start n stream buf) script

/-- The call has taken `got` from the stream and stored it at the start of the buffer. -/
structure Took (n : ℕ) (stream buf got : List UInt8) (s : TcpReadN) : Prop where
  stream_eq : stream = got ++ s.rest
  buf_eq : s.buf = got ++ buf.drop got.length
  off_eq : s.off = got.length
  within : got.length ≤ n

/-- Where a call that has taken `got` can be. -/
inductive Sound (n : ℕ) (got : List UInt8) (s : TcpReadN) : Prop
  | running : s.pc = .running → got.length < n → Sound n got s
  | complete : s.pc = .returned n → got.length = n → Sound n got s
  | closed : s.pc = .returned got.length → got.length < n → s.rest = [] → Sound n got s
  | failed : s.pc = .returned (-1) → got.length < n → Sound n got s

/-- The call was told of the end of the stream. -/
def AtEnd (n : ℕ) (s : TcpReadN) : Prop := s.pc = .returned s.off ∧ s.off < n

variable {n : ℕ} {stream buf got : List UInt8} {script : ℕ → ReadResult} {s : TcpReadN}

@[simp] theorem rest_test : (test n s).rest = s.rest := by unfold test; split <;> rfl

@[simp] theorem buf_test : (test n s).buf = s.buf := by unfold test; split <;> rfl

@[simp] theorem off_test : (test n s).off = s.off := by unfold test; split <;> rfl

theorem pc_test : (test n s).pc = if s.off < n then .running else .returned (ssize s.off) := by
  unfold test
  split <;> rfl

theorem Took.test (took : s.Took n stream buf got) : (s.test n).Took n stream buf got :=
  ⟨by rw [rest_test, ← took.stream_eq], by rw [buf_test, took.buf_eq],
    by rw [off_test, took.off_eq], took.within⟩

theorem Took.withPc (took : s.Took n stream buf got) (pc : LoopPc) :
    ({ s with pc := pc }).Took n stream buf got :=
  ⟨took.stream_eq, took.buf_eq, took.off_eq, took.within⟩

/-- At its test a call goes on if something is missing, and is complete if not. -/
theorem Took.sound_test (took : s.Took n stream buf got) (small : n < 2 ^ 63) :
    (s.test n).Sound n got := by
  have off := took.off_eq
  have within := took.within
  unfold TcpReadN.test
  split_ifs with less
  · exact .running rfl (by omega)
  · have all : got.length = n := by omega
    exact .complete (by rw [off, all, ssize_of_lt small]) all

/-- Bytes read are stored right behind what was taken before, and the loop tests again. -/
theorem Took.store (took : s.Took n stream buf got) (room : n ≤ buf.length)
    (running : s.pc = .running) {bytes : List UInt8} (some_byte : bytes ≠ [])
    (fits : bytes.length ≤ n - s.off) (part : bytes <+: s.rest) :
    ∃ next : TcpReadN, s.pass n (.count bytes) = next.test n ∧
      next.Took n stream buf (got ++ bytes) ∧ s.off < next.off := by
  have off := took.off_eq
  have within := took.within
  have free : bytes.length ≤ (buf.drop got.length).length := by
    rw [List.length_drop]
    omega
  have stored : storeAt s.buf s.off bytes =
      some (got ++ bytes ++ (buf.drop got.length).drop bytes.length) := by
    rw [took.buf_eq, off]
    exact storeAt_written got bytes free
  obtain ⟨rest, split⟩ := part
  have drop : s.rest.drop bytes.length = rest := by rw [← split, List.drop_left]
  refine ⟨⟨rest, got ++ bytes ++ (buf.drop got.length).drop bytes.length, s.off + bytes.length,
    .running⟩, ?_, ⟨?_, ?_, ?_, ?_⟩, ?_⟩
  · obtain ⟨b, tail, rfl⟩ := List.exists_cons_of_ne_nil some_byte
    rw [TcpReadN.pass, running]
    simp only [stored, drop]
  · rw [took.stream_eq, ← split, List.append_assoc]
  · rw [List.length_append, ← List.drop_drop]
  · rw [List.length_append, ← off]
  · rw [List.length_append]
    omega
  · exact Nat.lt_add_of_pos_right (List.length_pos_of_ne_nil some_byte)

/-- What one answer makes of a call inside its loop. -/
theorem Took.pass (took : s.Took n stream buf got) (room : n ≤ buf.length) (small : n < 2 ^ 63)
    (running : s.pc = .running) (less : got.length < n) {r : ReadResult}
    (answers : s.Answers n r) :
    ∃ got', (s.pass n r).Took n stream buf got' ∧ (s.pass n r).Sound n got' ∧
      (s.pass n r).pc.loop got' = some (tcpReadNPass n got r) ∧
      ((s.pass n r).pc = .returned (-1) ↔ r = .error) ∧
      ((s.pass n r).AtEnd n ↔ r = .count []) ∧
      (r ≠ .eintr → (s.pass n r).pc ≠ .running ∨ s.off < (s.pass n r).off) := by
  have off := took.off_eq
  cases r with
  | eintr =>
    have same : s.pass n .eintr = s := by
      rw [TcpReadN.pass, running]
      simp only [TcpReadN.test]
      rw [if_pos (off ▸ less), ← running]
    rw [same]
    refine ⟨got, took, .running running less, ?_, ?_, ?_, fun same => absurd rfl same⟩
    · rw [running, LoopPc.loop, tcpReadNPass]
    · simp [running]
    · simp [AtEnd, running]
  | error =>
    have failed : s.pass n .error = { s with pc := .returned (-1) } := by
      rw [TcpReadN.pass, running]
    rw [failed]
    refine ⟨got, took.withPc _, .failed rfl less, rfl, by simp, ?_, fun _ => .inl (by simp)⟩
    have other : (-1 : ℤ) ≠ s.off := by omega
    simp [AtEnd, other]
  | count bytes =>
    obtain ⟨atEnd, fits, part⟩ := answers
    cases bytes with
    | nil =>
      have closed : s.pass n (.count []) = { s with pc := .returned s.off } := by
        rw [TcpReadN.pass, running]
        simp only [ssize_of_lt (show s.off < 2 ^ 63 by omega)]
      rw [closed]
      refine ⟨got, took.withPc _, .closed (by rw [off]) less (atEnd rfl), ?_, ?_, ?_,
        fun _ => .inl (by simp)⟩
      · rw [LoopPc.loop, tcpReadNPass, off]
      · have other : (s.off : ℤ) ≠ -1 := by omega
        simp [other]
      · exact iff_of_true ⟨rfl, by rw [off]; exact less⟩ rfl
    | cons b bytes =>
      obtain ⟨next, passed, more, advanced⟩ := took.store room running (by simp) fits part
      rw [passed]
      have small : next.off < 2 ^ 63 := by
        have within := more.within
        rw [more.off_eq]
        omega
      refine ⟨_, more.test, more.sound_test (by omega), ?_, ?_, ?_,
        fun _ => .inr (by rwa [off_test])⟩
      · have tested : tcpReadNPass n got (.count (b :: bytes)) =
            tcpReadNTest n (got ++ b :: bytes) := rfl
        rw [pc_test, tested, tcpReadNTest, ← more.off_eq]
        split_ifs
        · rfl
        · rw [ssize_of_lt small, LoopPc.loop]
      · refine iff_of_false ?_ (by simp)
        rw [pc_test, ssize_of_lt small]
        split_ifs <;> simp
      · refine iff_of_false ?_ (by simp)
        rw [AtEnd, pc_test, off_test]
        rintro ⟨returned, short⟩
        rw [if_pos short] at returned
        exact absurd returned (by simp)

/-- A call that has returned, or gone wrong, stays as it is. -/
theorem pass_of_over (r : ReadResult) (past : s.pc ≠ .running) : s.pass n r = s := by
  unfold TcpReadN.pass
  split
  case h_1 running => exact absurd running past
  case h_2 | h_3 => rfl

theorem over_later {i j : ℕ} (past : (after n stream buf script i).pc ≠ .running) (later : i ≤ j) :
    (after n stream buf script j).pc ≠ .running := by
  rwa [after, scripted_of_over (fun _ r past => pass_of_over r past) past later]

theorem Sound.short (sound : s.Sound n got) (running : s.pc = .running) : got.length < n := by
  rcases sound with ⟨-, less⟩ | ⟨done, -⟩ | ⟨-, less, -⟩ | ⟨-, less⟩
  · exact less
  · exact absurd (running.symm.trans done) (by simp)
  · exact less
  · exact less

/-- The kernel answers each `read` of the call as it can. -/
def Answered (n : ℕ) (stream buf : List UInt8) (script : ℕ → ReadResult) : Prop :=
  ∀ i, (after n stream buf script i).pc = .running →
    (after n stream buf script i).Answers n (script i)

/-- A `read` of the call was answered with `r`. -/
def Meets (n : ℕ) (stream buf : List UInt8) (script : ℕ → ReadResult) (r : ReadResult) : Prop :=
  ∃ j, (after n stream buf script j).pc = .running ∧ script j = r

/-- After any number of answers the call has stored what it has taken, and nothing else. -/
theorem sound_after (room : n ≤ buf.length) (small : n < 2 ^ 63)
    (answered : Answered n stream buf script) (i : ℕ) :
    ∃ got, (after n stream buf script i).Took n stream buf got ∧
      (after n stream buf script i).Sound n got := by
  induction i with
  | zero =>
    have fresh : (⟨stream, buf, 0, .running⟩ : TcpReadN).Took n stream buf [] :=
      ⟨rfl, rfl, rfl, Nat.zero_le n⟩
    exact ⟨[], fresh.test, fresh.sound_test small⟩
  | succ i ih =>
    obtain ⟨got, took, sound⟩ := ih
    change ∃ got, ((after n stream buf script i).pass n (script i)).Took n stream buf got ∧
      ((after n stream buf script i).pass n (script i)).Sound n got
    by_cases running : (after n stream buf script i).pc = .running
    · obtain ⟨got', took', sound', -⟩ :=
        took.pass room small running (sound.short running) (answered i running)
      exact ⟨got', took', sound'⟩
    · rw [pass_of_over _ running]
      exact ⟨got, took, sound⟩

/-- The call returns with the next bytes of the stream: all it was to read, or those that
are left if it was told of the end of the stream, or -1 exactly if it met an error. -/
def Exact (n : ℕ) (stream buf : List UInt8) (script : ℕ → ReadResult) : Prop :=
  ∃ i got, (after n stream buf script i).Took n stream buf got ∧
    ((after n stream buf script i).pc = .returned n ∧ got.length = n ∨
      (after n stream buf script i).pc = .returned got.length ∧ got.length < n ∧
        (after n stream buf script i).rest = [] ∧ Meets n stream buf script (.count []) ∨
      (after n stream buf script i).pc = .returned (-1) ∧ got.length < n) ∧
    ((after n stream buf script i).pc = .returned (-1) ↔ Meets n stream buf script .error)

theorem exact_of_answered (room : n ≤ buf.length) (small : n < 2 ^ 63)
    (answered : Answered n stream buf script) (retries : ∃ m, ∀ i, m ≤ i → script i ≠ .eintr) :
    Exact n stream buf script := by
  have step : ∀ i, ¬ (after n stream buf script i).pc ≠ .running →
      ((after n stream buf script (i + 1)).pc = .returned (-1) ↔ script i = .error) ∧
      ((after n stream buf script (i + 1)).AtEnd n ↔ script i = .count []) ∧
      (script i ≠ .eintr → (after n stream buf script (i + 1)).pc ≠ .running ∨
        n - (after n stream buf script (i + 1)).off < n - (after n stream buf script i).off) := by
    intro i inside
    have running := not_not.mp inside
    obtain ⟨got, took, sound⟩ := sound_after room small answered i
    have less := sound.short running
    obtain ⟨-, -, -, -, failed, ended, onward⟩ :=
      took.pass room small running less (answered i running)
    refine ⟨failed, ended, fun busy => (onward busy).imp id fun more => ?_⟩
    have off := took.off_eq
    exact Nat.sub_lt_sub_left (off ▸ less) more
  have first : (start n stream buf).pc ≠ .returned (-1) ∧ ¬ (start n stream buf).AtEnd n := by
    rw [start, AtEnd, pc_test, off_test]
    split_ifs with less
    · simp
    · have none_read : ssize 0 ≠ -1 := by decide
      exact ⟨fun same => none_read (LoopPc.returned.inj same), fun atEnd => less atEnd.2⟩
  have inside : ∀ {s : TcpReadN}, ¬ s.pc ≠ .running → s.pc ≠ .returned (-1) ∧ ¬ s.AtEnd n := by
    intro s running
    rw [not_not] at running
    simp [AtEnd, running]
  obtain ⟨i, past⟩ := exists_over (fun s : TcpReadN => s.pc ≠ .running) (fun r => r = .eintr)
    (fun s => n - s.off) retries fun i running busy => (step i running).2.2 busy
  have stays : ∀ (s : TcpReadN) (r : ReadResult), s.pc ≠ .running → s.pass n r = s :=
    fun s r past => pass_of_over r past
  have failed := ended_iff (fun s : TcpReadN => s.pc ≠ .running) (fun s => s.pc = .returned (-1))
    (fun r : ReadResult => r = .error) stays first.1
    (fun i running => ⟨(inside running).1, (step i running).1⟩) past
  have ended := ended_iff (fun s : TcpReadN => s.pc ≠ .running) (fun s => s.AtEnd n)
    (fun r : ReadResult => r = .count []) stays first.2
    (fun i running => ⟨(inside running).2, (step i running).2.1⟩) past
  simp only [not_not] at failed ended
  obtain ⟨got, took, sound⟩ := sound_after room small answered i
  refine ⟨i, got, took, ?_, failed⟩
  rcases sound with ⟨running, -⟩ | ⟨done, all⟩ | ⟨closed, less, none⟩ | ⟨error, less⟩
  · exact absurd running past
  · exact .inl ⟨done, all⟩
  · have off := took.off_eq
    exact .inr (.inl ⟨closed, less, none, ended.mp ⟨off ▸ closed, off ▸ less⟩⟩)
  · exact .inr (.inr ⟨error, less⟩)

end TcpReadN

/-! ## `tcp_write_n` -/

/-- A call of `tcp_write_n`. -/
structure TcpWriteN where
  /-- What it has put on the connection. -/
  out : List UInt8
  off : ℕ
  pc : LoopPc
  deriving DecidableEq, Repr

namespace TcpWriteN

/-- The test `off < n`, and the `return` behind the loop. -/
def test (n : ℕ) (s : TcpWriteN) : TcpWriteN :=
  if s.off < n then { s with pc := .running } else { s with pc := .returned (ssize s.off) }

def start (n : ℕ) : TcpWriteN := test n ⟨[], 0, .running⟩

/-- One pass, with what `write(fd, p + off, n - off)` answers. -/
def pass (n : ℕ) (buf : List UInt8) (s : TcpWriteN) (r : WriteResult) : TcpWriteN :=
  match s.pc with
  | .running =>
    match r with
    | .eintr => test n s
    | .error => { s with pc := .returned (-1) }
    | .count taken =>
      match loadAt buf s.off taken with
      | none => { s with pc := .overrun }
      | some data => test n { s with out := s.out ++ data, off := s.off + taken }
  | .returned _ | .overrun => s

/-- An answer `write` can give: it takes something, and no more than it is offered. -/
def Answers (n : ℕ) (s : TcpWriteN) : WriteResult → Prop
  | .count taken => 0 < taken ∧ taken ≤ n - s.off
  | .eintr | .error => True

instance (n : ℕ) (s : TcpWriteN) (r : WriteResult) : Decidable (s.Answers n r) :=
  match r with
  | .count taken => inferInstanceAs (Decidable (0 < taken ∧ taken ≤ n - s.off))
  | .eintr => isTrue trivial
  | .error => isTrue trivial

/-- The call after `i` answers. -/
def after (n : ℕ) (buf : List UInt8) (script : ℕ → WriteResult) : ℕ → TcpWriteN :=
  scripted (pass n buf) (start n) script

/-- Where a call can be that has written its buffer up to its offset. -/
inductive Sound (n : ℕ) (buf : List UInt8) (s : TcpWriteN) : Prop
  | running : s.pc = .running → s.off < n → s.out = buf.take s.off → Sound n buf s
  | complete : s.pc = .returned n → s.off = n → s.out = buf.take s.off → Sound n buf s
  | failed : s.pc = .returned (-1) → s.off < n → s.out = buf.take s.off → Sound n buf s

/-- The kernel answers each `write` of the call as it can. -/
def Answered (n : ℕ) (buf : List UInt8) (script : ℕ → WriteResult) : Prop :=
  ∀ i, (after n buf script i).pc = .running → (after n buf script i).Answers n (script i)

/-- A `write` of the call was answered with `r`. -/
def Meets (n : ℕ) (buf : List UInt8) (script : ℕ → WriteResult) (r : WriteResult) : Prop :=
  ∃ j, (after n buf script j).pc = .running ∧ script j = r

variable {n : ℕ} {buf : List UInt8} {script : ℕ → WriteResult} {s : TcpWriteN}

theorem pc_test : (test n s).pc = if s.off < n then .running else .returned (ssize s.off) := by
  unfold test
  split <;> rfl

@[simp] theorem out_test : (test n s).out = s.out := by unfold test; split <;> rfl

@[simp] theorem off_test : (test n s).off = s.off := by unfold test; split <;> rfl

/-- At its test a call goes on if something is missing, and is complete if not. -/
theorem sound_test (small : n < 2 ^ 63) (within : s.off ≤ n) (written : s.out = buf.take s.off) :
    (test n s).Sound n buf := by
  have same : (test n s).out = buf.take (test n s).off := by rw [out_test, off_test, written]
  have pc := pc_test (n := n) (s := s)
  by_cases less : s.off < n
  · rw [if_pos less] at pc
    exact .running pc (by rwa [off_test]) same
  · have all : s.off = n := by omega
    rw [if_neg less, all, ssize_of_lt small] at pc
    exact .complete pc (by rw [off_test, all]) same

theorem Sound.written (sound : s.Sound n buf) : s.out = buf.take s.off := by
  rcases sound with ⟨-, -, written⟩ | ⟨-, -, written⟩ | ⟨-, -, written⟩ <;> exact written

theorem Sound.short (sound : s.Sound n buf) (running : s.pc = .running) : s.off < n := by
  rcases sound with ⟨-, less, -⟩ | ⟨done, -, -⟩ | ⟨-, less, -⟩
  · exact less
  · exact absurd (running.symm.trans done) (by simp)
  · exact less

/-- What one answer makes of a call inside its loop. -/
theorem Sound.pass (sound : s.Sound n buf) (room : n ≤ buf.length) (small : n < 2 ^ 63)
    (running : s.pc = .running) {r : WriteResult} (answers : s.Answers n r) :
    (s.pass n buf r).Sound n buf ∧
      (s.pass n buf r).pc.loop ((buf.take n).drop (s.pass n buf r).off) =
        some (tcpWriteNPass n ((buf.take n).drop s.off) r) ∧
      ((s.pass n buf r).pc = .returned (-1) ↔ r = .error) ∧
      (r ≠ .eintr → (s.pass n buf r).pc ≠ .running ∨ s.off < (s.pass n buf r).off) := by
  have less := sound.short running
  have written := sound.written
  cases r with
  | eintr =>
    have same : s.pass n buf .eintr = s := by
      rw [TcpWriteN.pass, running]
      simp only [test]
      rw [if_pos less, ← running]
    rw [same]
    refine ⟨sound, ?_, by simp [running], fun same => absurd rfl same⟩
    rw [running, LoopPc.loop, tcpWriteNPass]
  | error =>
    have failed : s.pass n buf .error = { s with pc := .returned (-1) } := by
      rw [TcpWriteN.pass, running]
    rw [failed]
    exact ⟨.failed rfl less written, rfl, by simp, fun _ => .inl (by simp)⟩
  | count taken =>
    obtain ⟨pos, fits⟩ := answers
    have inside : s.off + taken ≤ n := by omega
    obtain ⟨data, loaded, longer⟩ := loadAt_next (inside.trans room)
    let next : TcpWriteN := ⟨s.out ++ data, s.off + taken, .running⟩
    have passed : s.pass n buf (.count taken) = test n next := by
      rw [TcpWriteN.pass, running]
      simp only [loaded, next]
    have more : next.out = buf.take next.off := by rw [← longer, ← written]
    have advanced : s.off < next.off := Nat.lt_add_of_pos_right pos
    have holds : ssize next.off = next.off := ssize_of_lt (lt_of_le_of_lt inside small)
    rw [passed]
    refine ⟨sound_test small inside more, ?_, ?_, fun _ => .inr (by rwa [off_test])⟩
    · have all : (buf.take n).length = n := List.length_take_of_le room
      have rest : ((buf.take n).drop s.off).drop taken = (buf.take n).drop next.off :=
        List.drop_drop
      have empty : (buf.take n).drop next.off = [] ↔ ¬ next.off < n := by
        rw [List.drop_eq_nil_iff, all, not_lt]
      rw [off_test, tcpWriteNPass, rest, tcpWriteNTest, pc_test]
      by_cases less : next.off < n
      · rw [if_pos less, if_neg (not_not.mpr less ∘ empty.mp), LoopPc.loop]
      · have last : next.off = n := le_antisymm inside (not_lt.mp less)
        rw [if_neg less, if_pos (empty.mpr less), LoopPc.loop, last]
    · refine iff_of_false ?_ (by simp)
      rw [pc_test, holds]
      split_ifs <;> simp

/-- A call that has returned, or gone wrong, stays as it is. -/
theorem pass_of_over (r : WriteResult) (past : s.pc ≠ .running) : s.pass n buf r = s := by
  unfold TcpWriteN.pass
  split
  case h_1 running => exact absurd running past
  case h_2 | h_3 => rfl

theorem over_later {i j : ℕ} (past : (after n buf script i).pc ≠ .running) (later : i ≤ j) :
    (after n buf script j).pc ≠ .running := by
  rwa [after, scripted_of_over (fun _ r past => pass_of_over r past) past later]

/-- After any number of answers the call has written its buffer up to its offset. -/
theorem sound_after (room : n ≤ buf.length) (small : n < 2 ^ 63)
    (answered : Answered n buf script) (i : ℕ) : (after n buf script i).Sound n buf := by
  induction i with
  | zero => exact sound_test small (Nat.zero_le n) rfl
  | succ i ih =>
    change ((after n buf script i).pass n buf (script i)).Sound n buf
    by_cases running : (after n buf script i).pc = .running
    · exact (ih.pass room small running (answered i running)).1
    · rwa [pass_of_over _ running]

/-- The call returns when it has written all, or -1 exactly if it met an error, with
less written. -/
def Exact (n : ℕ) (buf : List UInt8) (script : ℕ → WriteResult) : Prop :=
  ∃ i, ((after n buf script i).pc = .returned n ∧ (after n buf script i).out = buf.take n ∨
      (after n buf script i).pc = .returned (-1) ∧
        ∃ k < n, (after n buf script i).out = buf.take k) ∧
    ((after n buf script i).pc = .returned (-1) ↔ Meets n buf script .error)

theorem exact_of_answered (room : n ≤ buf.length) (small : n < 2 ^ 63)
    (answered : Answered n buf script) (retries : ∃ m, ∀ i, m ≤ i → script i ≠ .eintr) :
    Exact n buf script := by
  have sound := sound_after room small answered
  have step : ∀ i, ¬ (after n buf script i).pc ≠ .running →
      ((after n buf script (i + 1)).pc = .returned (-1) ↔ script i = .error) ∧
      (script i ≠ .eintr → (after n buf script (i + 1)).pc ≠ .running ∨
        n - (after n buf script (i + 1)).off < n - (after n buf script i).off) := by
    intro i inside
    have running := not_not.mp inside
    obtain ⟨-, -, failed, onward⟩ := (sound i).pass room small running (answered i running)
    exact ⟨failed, fun busy => (onward busy).imp id
      fun more => Nat.sub_lt_sub_left ((sound i).short running) more⟩
  have first : (start n).pc ≠ .returned (-1) := by
    have none_written : ssize 0 ≠ -1 := by decide
    rw [start, pc_test]
    split_ifs with less
    · simp
    · exact fun same => none_written (LoopPc.returned.inj same)
  have inside : ∀ {s : TcpWriteN}, ¬ s.pc ≠ .running → s.pc ≠ .returned (-1) := by
    intro s running
    rw [not_not] at running
    simp [running]
  obtain ⟨i, past⟩ := exists_over (fun s : TcpWriteN => s.pc ≠ .running) (fun r => r = .eintr)
    (fun s => n - s.off) retries fun i running busy => (step i running).2 busy
  have failed := ended_iff (fun s : TcpWriteN => s.pc ≠ .running) (fun s => s.pc = .returned (-1))
    (fun r : WriteResult => r = .error) (fun _ r past => pass_of_over r past) first
    (fun i running => ⟨inside running, (step i running).1⟩) past
  simp only [not_not] at failed
  refine ⟨i, ?_, failed⟩
  rcases sound i with ⟨running, -⟩ | ⟨done, all, written⟩ | ⟨error, less, written⟩
  · exact absurd running past
  · exact .inl ⟨done, written.trans (by rw [all])⟩
  · exact .inr ⟨error, _, less, written⟩

end TcpWriteN

/-! ## Both loops -/

/-- With answers that a kernel gives, among them finitely many interruptions, a
`tcp_read_n` returns and has the next bytes of the stream at the start of its buffer: all
of them, those that are left when the stream ends, or -1 exactly after an error. A
`tcp_write_n` returns when it has written its buffer from the start to the end, or -1
exactly after an error, with less of it written. -/
theorem tcp_loops_exact {n : ℕ} {buf : List UInt8} (room : n ≤ buf.length) (small : n < 2 ^ 63) :
    (∀ stream script, TcpReadN.Answered n stream buf script →
      (∃ m, ∀ i, m ≤ i → script i ≠ .eintr) → TcpReadN.Exact n stream buf script) ∧
    ∀ script, TcpWriteN.Answered n buf script →
      (∃ m, ∀ i, m ≤ i → script i ≠ .eintr) → TcpWriteN.Exact n buf script :=
  ⟨fun _ _ answered retries => TcpReadN.exact_of_answered room small answered retries,
    fun _ answered retries => TcpWriteN.exact_of_answered room small answered retries⟩

/-- Three bytes in two pieces, with an interruption between them. -/
private def readPieces : ℕ → ReadResult
  | 0 => .count [7]
  | 1 => .eintr
  | 2 => .count [8, 9]
  | _ + 3 => .error

private def writePieces : ℕ → WriteResult
  | 0 => .count 1
  | 1 => .eintr
  | 2 => .count 2
  | _ + 3 => .error

theorem tcp_loops_exact_three_bytes :
    TcpReadN.Exact 3 [7, 8, 9, 10] [1, 2, 3] readPieces ∧
      TcpWriteN.Exact 3 [1, 2, 3] writePieces := by
  have room : 3 ≤ ([1, 2, 3] : List UInt8).length := le_rfl
  have loops := tcp_loops_exact room (by decide)
  have early : ∀ i < 3,
      (TcpReadN.after 3 [7, 8, 9, 10] [1, 2, 3] readPieces i).Answers 3 (readPieces i) ∧
        (TcpWriteN.after 3 [1, 2, 3] writePieces i).Answers 3 (writePieces i) := by decide
  have late : ∀ i, 3 ≤ i → readPieces i ≠ .eintr ∧ writePieces i ≠ .eintr := by
    intro i late
    obtain ⟨k, rfl⟩ := Nat.exists_eq_add_of_le' late
    exact ⟨by simp [readPieces], by simp [writePieces]⟩
  refine ⟨loops.1 _ _ (fun i running => (early i ?_).1) ⟨3, fun i three => (late i three).1⟩,
    loops.2 _ (fun i running => (early i ?_).2) ⟨3, fun i three => (late i three).2⟩⟩
  · by_contra three
    exact TcpReadN.over_later (by decide) (not_lt.mp three) running
  · by_contra three
    exact TcpWriteN.over_later (by decide) (not_lt.mp three) running

end OmniSocket
