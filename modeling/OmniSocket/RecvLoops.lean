/-
# Receive loops at the end of a TCP connection

Both receive threads and the relay's main thread call `omni_recv` until they have
had enough. Here each of them runs on a byte stream that ends: the peer has
closed the connection behind it. A zero from `omni_recv` is the end for the
server only. The client and the relay ask again, and the stream that ended goes
on to say that it has ended.
-/

import OmniSocket.App.ClientRecv
import OmniSocket.Lib.Ending
import OmniSocket.Network
import OmniSocket.TcpClosed

set_option autoImplicit false

namespace OmniSocket

open Lib

/-! ## Streams of whole frames -/

/-- A frame with all its payload, for a buffer of `len` bytes. -/
structure TcpFrame.Whole (len : ℕ) (f : TcpFrame) : Prop where
  complete : f.header.length = msgHeaderSize
  length : f.payload.length = announced f.header
  fits : announced f.header ≤ len

/-- The stream is whole frames, one after another. -/
def WholeFrames (len : ℕ) (stream : List UInt8) : Prop :=
  ∃ frames : List TcpFrame, (∀ f ∈ frames, f.Whole len) ∧ stream = frames.flatMap TcpFrame.bytes

theorem wholeFrames_nil (len : ℕ) : WholeFrames len [] := ⟨[], by simp, rfl⟩

/-- A whole frame in front makes no difference. -/
theorem wholeFrames_append {len : ℕ} {f : TcpFrame} {rest : List UInt8} (whole : f.Whole len) :
    WholeFrames len (f.bytes ++ rest) ↔ WholeFrames len rest := by
  constructor
  · rintro ⟨frames, all, split⟩
    cases frames with
    | nil =>
      have empty := (List.append_eq_nil_iff.mp (List.append_eq_nil_iff.mp split).1).1
      have complete := whole.complete
      rw [empty] at complete
      exact absurd complete (by decide)
    | cons g frames =>
      have first := all g List.mem_cons_self
      rw [List.flatMap_cons, TcpFrame.bytes, TcpFrame.bytes, List.append_assoc,
        List.append_assoc] at split
      obtain ⟨header_eq, split⟩ :=
        List.append_inj split (whole.complete.trans first.complete.symm)
      have rest_eq := List.append_inj_right split
        (by rw [whole.length, first.length, header_eq])
      exact ⟨frames, fun h member => all h (List.mem_cons_of_mem g member), rest_eq⟩
  · rintro ⟨frames, all, rfl⟩
    exact ⟨f :: frames, List.forall_mem_cons.mpr ⟨whole, all⟩, rfl⟩

/-- A stream that begins with a header is whole only if all of the payload is there. -/
theorem not_wholeFrames {len : ℕ} {header body : List UInt8}
    (complete : header.length = msgHeaderSize)
    (broken : len < announced header ∨ body.length < announced header) :
    ¬ WholeFrames len (header ++ body) := by
  rintro ⟨frames, all, split⟩
  cases frames with
  | nil =>
    rw [(List.append_eq_nil_iff.mp split).1] at complete
    exact absurd complete (by decide)
  | cons g frames =>
    obtain ⟨first, length, fits⟩ := all g List.mem_cons_self
    rw [List.flatMap_cons, TcpFrame.bytes, List.append_assoc] at split
    obtain ⟨rfl, rfl⟩ := List.append_inj split (complete.trans first.symm)
    rcases broken with long | cut
    · omega
    · rw [List.length_append] at cut
      omega

/-- Nor is a stream that stops in a header. -/
theorem not_wholeFrames_of_short {len : ℕ} {stream : List UInt8} (some_byte : stream ≠ [])
    (short : stream.length < msgHeaderSize) : ¬ WholeFrames len stream := by
  rintro ⟨frames, all, rfl⟩
  cases frames with
  | nil => exact some_byte rfl
  | cons g frames =>
    have complete := (all g List.mem_cons_self).complete
    rw [List.flatMap_cons, TcpFrame.bytes, List.length_append, List.length_append] at short
    omega

/-- What a call has found on a closed stream when it returns: an end where nothing was
begun, a whole frame, or something else. -/
theorem returned_cases {len : ℕ} {taken rest buf : List UInt8} {value : ℤ}
    (follows : (TcpRecv.returned value buf).Follows len .eof taken rest) :
    (value = 0 ∧ taken = [] ∧ rest = []) ∨
      (∃ f : TcpFrame, f.Whole len ∧ taken = f.bytes ∧ 0 ≤ value) ∨
      (value < 0 ∧ ¬ WholeFrames len (taken ++ rest)) := by
  have parse : tcpParse len .eof (taken ++ rest) = ⟨value, buf, rest⟩ := follows
  rcases tcpParse_cases len .eof (taken ++ rest) with ⟨short, as⟩ | ⟨header, body, bytes, complete,
    ⟨long, as⟩ | ⟨fits, cut, as⟩ | ⟨fits, payload, later, rfl, length, as⟩⟩ <;>
    obtain ⟨value_eq, buf_eq, rest_eq⟩ := TcpParsed.mk.inj (parse.symm.trans as)
  · by_cases none : taken ++ rest = []
    · obtain ⟨no_byte, past⟩ := List.append_eq_nil_iff.mp none
      rw [none, tcpStop, if_pos rfl] at value_eq
      exact .inl ⟨value_eq, no_byte, past⟩
    · rw [tcpStop, if_neg none] at value_eq
      exact .inr (.inr ⟨value_eq ▸ by decide, not_wholeFrames_of_short none short⟩)
  · exact .inr (.inr ⟨value_eq ▸ by decide, bytes ▸ not_wholeFrames complete (.inl long)⟩)
  · exact .inr (.inr ⟨value_eq ▸ by decide, bytes ▸ not_wholeFrames complete (.inr cut)⟩)
  · rw [rest_eq, ← List.append_assoc] at bytes
    refine .inr (.inl ⟨⟨header, payload⟩, ⟨complete, length, fits⟩,
      List.append_cancel_right bytes, ?_⟩)
    rw [value_eq]
    exact Int.natCast_nonneg _

/-! ## A loop around `omni_recv` -/

/-- A thread that calls `omni_recv` in a loop, beside whoever else acts on its state. -/
structure RecvLoop (σ ε : Type) where
  /-- An action outside of `omni_recv`. -/
  act : σ → ε → Option σ
  /-- `omni_recv` returns `n` with the given bytes, after these `read` results. -/
  recv : σ → List ReadResult → ℤ → List UInt8 → Option σ
  /-- The action is not the thread's. -/
  idle : ε → Bool
  /-- The thread is inside `omni_recv`. -/
  receiving : σ → Bool
  /-- The thread is past its loop. -/
  leaving : σ → Bool
  /-- `running` is 0. -/
  cleared : σ → Bool
  /-- The loop takes a zero for the end of the connection. -/
  zeroEnds : Bool
  /-- How many actions there are at most before the thread calls `omni_recv` or is done. -/
  distance : σ → ℕ

/-- What makes it a loop. `Inv` holds of the states it is in. -/
structure RecvLoop.Lawful {σ ε : Type} (loop : RecvLoop σ ε) (host : Endian) (Inv : σ → Prop) :
    Prop where
  act_inv : ∀ a e b, Inv a → loop.act a e = some b → Inv b
  act_idle : ∀ a e b, Inv a → loop.act a e = some b → loop.idle e = true →
    loop.distance b = loop.distance a ∧ loop.leaving b = loop.leaving a
  act_busy : ∀ a e b, Inv a → loop.act a e = some b → loop.idle e = false →
    loop.distance b < loop.distance a ∧ (loop.leaving a = true → loop.leaving b = true) ∧
      loop.receiving a = false
  /-- Outside of `omni_recv` the thread acts until it is past its loop and has cleared its
  flag, and it need not leave the loop to do so. -/
  onward : ∀ a, Inv a → loop.receiving a = false → loop.cleared a = false →
    ∃ e b, loop.idle e = false ∧ loop.act a e = some b ∧ (loop.leaving a = false →
      loop.leaving b = false)
  not_receiving : ∀ a, Inv a → loop.leaving a = true → loop.receiving a = false
  not_cleared : ∀ a, Inv a → loop.leaving a = false → loop.cleared a = false
  recv_receiving : ∀ a script n frame b, loop.recv a script n frame = some b →
    loop.receiving a = true
  /-- Whatever the result, the thread deals with it, and leaves if it is negative or the
  zero it takes for the end. -/
  recv : ∀ a script n frame, Inv a → loop.receiving a = true →
    tcpRecv host frameBufSize script = .returned n frame →
      ∃ b, loop.recv a script n frame = some b ∧ Inv b ∧ loop.distance b ≤ 2 ∧
        (loop.leaving b = true ↔ n < 0 ∨ n = 0 ∧ loop.zeroEnds = true)

/-- The thread on a connection. The results of the current call's `read`s are kept for
`omni_recv`. -/
structure Looping (σ : Type) where
  thread : σ
  reader : TcpReader
  script : List ReadResult

/-- What happens next. -/
inductive LoopingLabel (ε : Type)
  /-- A `read` inside `omni_recv`. -/
  | read (r : ReadResult)
  /-- `omni_recv` returns. -/
  | recv
  | act (e : ε)

namespace RecvLoop

variable {σ ε : Type} (loop : RecvLoop σ ε) (host : Endian)

/-- One step. The next call starts where the one before has stopped reading. -/
def step (s : Looping σ) : LoopingLabel ε → Option (Looping σ)
  | .read r =>
    if loop.receiving s.thread then
      (s.reader.read host frameBufSize .eof r).map fun reader =>
        { s with reader := reader, script := s.script ++ [r] }
    else none
  | .recv =>
    match s.reader.rx with
    | .returned n frame =>
      (loop.recv s.thread s.script n frame).map fun thread =>
        { thread := thread
          reader := { s.reader with rx := tcpRecvStart, taken := [] }
          script := [] }
    | _ => none
  | .act e => (loop.act s.thread e).map fun thread => { s with thread := thread }

def machine : Machine (Looping σ) (LoopingLabel ε) where
  step := loop.step host

/-- The thread at the start of a stream. -/
def start (thread : σ) (stream : List UInt8) : Looping σ := ⟨thread, .start stream, []⟩

/-- Nothing of the loop happens. -/
def Idles : LoopingLabel ε → Prop
  | .read r => r = .eintr
  | .recv => False
  | .act e => loop.idle e = true

/-- On this stream, which the peer has closed, the loop makes finitely many steps and
clears its flag. -/
def EndsOn (thread : σ) (stream : List UInt8) : Prop :=
  (loop.machine host).Ends loop.Idles (fun s => loop.cleared s.thread = true)
    (RecvLoop.start thread stream)

/-- Where a thread in its loop has got to: its call keeps to the grammar, and `Rest` holds
of what the call is for. -/
structure Reads (Inv : σ → Prop) (Rest : List UInt8 → Prop) (s : Looping σ) : Prop where
  inv : Inv s.thread
  script : tcpRecv host frameBufSize s.script = s.reader.rx
  reads : loop.leaving s.thread = false →
    s.reader.rx.Follows frameBufSize .eof s.reader.taken s.reader.rest ∧
      Rest (s.reader.taken ++ s.reader.rest)

variable {loop host} {Inv : σ → Prop} {Rest : List UInt8 → Prop} {s t : Looping σ}
  {thread : σ} {stream : List UInt8}

theorem reads_start (inv : Inv thread) (rest : Rest stream) :
    loop.Reads host Inv Rest (RecvLoop.start thread stream) :=
  ⟨inv, rfl, fun _ => ⟨TcpRecv.follows_start _ _ _, rest⟩⟩

theorem Reads.read {r : ReadResult} (reads : loop.Reads host Inv Rest s) {reader : TcpReader}
    (step : s.reader.read host frameBufSize .eof r = some reader) :
    loop.Reads host Inv Rest { s with reader := reader, script := s.script ++ [r] } := by
  obtain ⟨moved, -⟩ := TcpReader.read_taken step
  refine ⟨reads.inv, ?_, fun staying => ?_⟩
  · rw [TcpReader.rx_read step, ← reads.script, tcpRecv, List.foldl_append]
    rfl
  · obtain ⟨follows, rest⟩ := reads.reads staying
    exact ⟨TcpReader.follows_read follows step, moved ▸ rest⟩

/-- A thread inside `omni_recv` is in its loop. -/
theorem Reads.staying (lawful : loop.Lawful host Inv) (reads : loop.Reads host Inv Rest s)
    (receiving : loop.receiving s.thread = true) : loop.leaving s.thread = false := by
  refine Bool.eq_false_iff.mpr fun leaving => ?_
  rw [lawful.not_receiving _ reads.inv leaving] at receiving
  exact absurd receiving (by decide)

theorem Reads.act {e : ε} {thread : σ} (lawful : loop.Lawful host Inv)
    (reads : loop.Reads host Inv Rest s) (step : loop.act s.thread e = some thread) :
    loop.Reads host Inv Rest { s with thread := thread } := by
  refine ⟨lawful.act_inv _ _ _ reads.inv step, reads.script, fun staying => reads.reads ?_⟩
  cases idle : loop.idle e with
  | true => rw [← (lawful.act_idle _ _ _ reads.inv step idle).2, staying]
  | false =>
    refine Bool.eq_false_iff.mpr fun leaving => ?_
    rw [(lawful.act_busy _ _ _ reads.inv step idle).2.1 leaving] at staying
    exact absurd staying (by decide)

/-- A thread that goes on after a result is at the next frame, or still at the end. -/
theorem Reads.recv {n : ℤ} {frame : List UInt8} (lawful : loop.Lawful host Inv)
    (reads : loop.Reads host Inv Rest s) (receiving : loop.receiving s.thread = true)
    (rx : s.reader.rx = .returned n frame)
    (next : ∀ f : TcpFrame, f.Whole frameBufSize → ∀ rest, Rest (f.bytes ++ rest) → Rest rest) :
    ∃ thread, loop.recv s.thread s.script n frame = some thread ∧ loop.distance thread ≤ 2 ∧
      (loop.leaving thread = true ↔ n < 0 ∨ n = 0 ∧ loop.zeroEnds = true) ∧
      loop.Reads host Inv Rest
        ⟨thread, { s.reader with rx := tcpRecvStart, taken := [] }, []⟩ := by
  obtain ⟨thread, step, inv, distance, leaves⟩ :=
    lawful.recv _ _ _ _ reads.inv receiving (reads.script.trans rx)
  refine ⟨thread, step, distance, leaves, inv, rfl, fun staying => ?_⟩
  refine ⟨TcpRecv.follows_start _ _ _, ?_⟩
  show Rest s.reader.rest
  obtain ⟨follows, rest⟩ := reads.reads (reads.staying lawful receiving)
  rw [rx] at follows
  rcases returned_cases follows with ⟨-, taken, -⟩ | ⟨f, whole, taken, -⟩ | ⟨negative, -⟩
  · rwa [taken] at rest
  · rw [taken] at rest
    exact next f whole _ rest
  · rw [leaves.mpr (.inl negative)] at staying
    exact absurd staying (by decide)

/-! ## When a loop ends -/

/-- How much there is left to do: what has not been read, the call in progress, and the
thread's own actions. -/
def left (loop : RecvLoop σ ε) (s : Looping σ) : ℕ :=
  if loop.leaving s.thread then loop.distance s.thread
  else 3 + 8 * s.reader.rest.length + (if s.reader.taken = [] then 0 else 4) +
    (if s.reader.rx.wanted = 0 then 0 else 1) + loop.distance s.thread

/-- A `read` that is not interrupted leaves less to do. -/
theorem left_read {r : ReadResult} {reader : TcpReader} (going : loop.leaving s.thread = false)
    (step : s.reader.read host frameBufSize .eof r = some reader) :
    (r ≠ .eintr → left loop { s with reader := reader, script := s.script ++ [r] } < left loop s) ∧
      left loop { s with reader := reader, script := s.script ++ [r] } ≤ left loop s := by
  unfold TcpReader.read at step
  rw [Option.ite_none_left_eq_some] at step
  obtain ⟨calling, step⟩ := step
  simp only [left, going, Bool.false_eq_true, if_false, if_neg calling]
  cases r with
  | count bytes =>
    simp only at step
    split_ifs at step with empty closed within
    · -- the end of the stream ends the call
      obtain rfl := Option.some.inj step
      have wanted : (s.reader.rx.pass host frameBufSize (.count bytes)).wanted = 0 := by
        by_contra still
        have last : TcpReader.ended { s.reader with
            rx := s.reader.rx.pass host frameBufSize (.count bytes) } = 1 :=
          TcpReader.ended_of_end calling (.inl (congrArg _ empty))
        rw [TcpReader.ended_of_wanted still] at last
        exact absurd last (by decide)
      simp only [if_pos wanted]
      exact ⟨fun _ => by omega, by omega⟩
    · obtain rfl := Option.some.inj step
      have shorter := within.2.length_le
      have some_byte := List.length_pos_of_ne_nil empty
      simp only [List.length_drop]
      refine ⟨fun _ => ?_, ?_⟩ <;> split_ifs <;> omega
  | eintr =>
    obtain rfl := Option.some.inj step
    simp only [TcpRecv.pass_eintr, if_neg calling]
    exact ⟨fun read => absurd rfl read, le_rfl⟩
  | error => exact absurd (Option.ite_none_right_eq_some.mp step).1.2 (by decide)

/-- Inside `omni_recv` there is something to do: it returns, or reads. -/
theorem Reads.onward_receiving (lawful : loop.Lawful host Inv) (reads : loop.Reads host Inv Rest s)
    (receiving : loop.receiving s.thread = true)
    (next : ∀ f : TcpFrame, f.Whole frameBufSize → ∀ rest, Rest (f.bytes ++ rest) → Rest rest) :
    ∃ label t, ¬ loop.Idles label ∧ loop.step host s label = some t ∧ loop.Reads host Inv Rest t ∧
      (loop.leaving t.thread = true → ∃ n frame, s.reader.rx = .returned n frame ∧
        (n < 0 ∨ n = 0 ∧ loop.zeroEnds = true)) := by
  have staying := reads.staying lawful receiving
  by_cases returned : ∃ n frame, s.reader.rx = .returned n frame
  · obtain ⟨n, frame, rx⟩ := returned
    obtain ⟨thread, step, -, leaves, reads'⟩ := reads.recv lawful receiving rx next
    refine ⟨.recv, _, id, ?_, reads', fun leaving => ⟨n, frame, rx, leaves.mp leaving⟩⟩
    simp only [RecvLoop.step, rx, step, Option.map_some]
  · have calling := (reads.reads staying).1.wanted_pos fun n frame rx => returned ⟨n, frame, rx⟩
    obtain ⟨r, busy, enabled⟩ : ∃ r, r ≠ .eintr ∧
      (s.reader.read host frameBufSize .eof r).isSome := TcpReader.exists_read calling
    obtain ⟨reader, step⟩ := Option.isSome_iff_exists.mp enabled
    refine ⟨.read r, _, busy, ?_, reads.read step, fun leaving => ?_⟩
    · simp only [RecvLoop.step, if_pos receiving, step, Option.map_some]
    · rw [staying] at leaving
      exact absurd leaving (by decide)

/-- Every step keeps to the stream. -/
theorem Reads.step {label : LoopingLabel ε} (lawful : loop.Lawful host Inv)
    (next : ∀ f : TcpFrame, f.Whole frameBufSize → ∀ rest, Rest (f.bytes ++ rest) → Rest rest)
    (reads : loop.Reads host Inv Rest s) (step : loop.step host s label = some t) :
    loop.Reads host Inv Rest t := by
  cases label with
  | read r =>
    obtain ⟨-, step⟩ := Option.ite_none_right_eq_some.mp step
    obtain ⟨reader, read, rfl⟩ := Option.map_eq_some_iff.mp step
    exact reads.read read
  | recv =>
    simp only [RecvLoop.step] at step
    split at step
    case h_1 n frame rx =>
      obtain ⟨thread, recv, rfl⟩ := Option.map_eq_some_iff.mp step
      obtain ⟨thread', recv', -, -, reads'⟩ :=
        reads.recv lawful (lawful.recv_receiving _ _ _ _ _ recv) rx next
      obtain rfl := Option.some.inj (recv.symm.trans recv')
      exact reads'
    case h_2 => exact absurd step (by simp)
  | act e =>
    obtain ⟨thread, act, rfl⟩ := Option.map_eq_some_iff.mp step
    exact reads.act lawful act

/-- The stream does not let a loop go on forever: a zero ends it, or the stream is broken. -/
def Breaks (loop : RecvLoop σ ε) (stream : List UInt8) : Prop :=
  loop.zeroEnds = true ∨ ¬ WholeFrames frameBufSize stream

theorem Breaks.next (f : TcpFrame) (whole : f.Whole frameBufSize) (rest : List UInt8)
    (breaks : loop.Breaks (f.bytes ++ rest)) : loop.Breaks rest :=
  breaks.imp_right (wholeFrames_append whole).not.mp

/-- A result that the loop goes on after has taken a frame off the stream. -/
theorem left_recv {n : ℤ} {frame : List UInt8} {thread : σ} (going : loop.leaving s.thread = false)
    (reads : loop.Reads host Inv loop.Breaks s) (rx : s.reader.rx = .returned n frame)
    (distance : loop.distance thread ≤ 2)
    (leaves : loop.leaving thread = true ↔ n < 0 ∨ n = 0 ∧ loop.zeroEnds = true) :
    left loop ⟨thread, { s.reader with rx := tcpRecvStart, taken := [] }, []⟩ < left loop s := by
  by_cases leaving : loop.leaving thread = true
  · simp only [left, leaving, if_true, going, Bool.false_eq_true, if_false]
    omega
  obtain ⟨follows, breaks⟩ := reads.reads going
  rw [rx] at follows
  have some_byte : s.reader.taken ≠ [] := by
    rcases returned_cases follows with ⟨zero, taken, rest⟩ | ⟨f, whole, taken, -⟩ | ⟨negative, -⟩
    · rw [taken, rest] at breaks
      rcases breaks with ends | broken
      · exact absurd (leaves.mpr (.inr ⟨zero, ends⟩)) leaving
      · exact absurd (wholeFrames_nil frameBufSize) broken
    · intro none
      have complete := whole.complete
      rw [(List.append_eq_nil_iff.mp (taken.symm.trans none)).1] at complete
      exact absurd complete (by decide)
    · exact absurd (leaves.mpr (.inl negative)) leaving
  simp only [left, leaving, going, if_false, if_neg some_byte, if_true, Bool.false_eq_true]
  split_ifs <;> omega

/-- The thread's own actions leave less to do. -/
theorem left_act {e : ε} {thread : σ} (lawful : loop.Lawful host Inv) (inv : Inv s.thread)
    (act : loop.act s.thread e = some thread) :
    (¬ loop.idle e = true → left loop { s with thread := thread } < left loop s) ∧
      left loop { s with thread := thread } ≤ left loop s := by
  cases idle : loop.idle e with
  | true =>
    obtain ⟨distance, leaving⟩ := lawful.act_idle _ _ _ inv act idle
    refine ⟨fun busy => absurd rfl busy, ?_⟩
    simp only [left, distance, leaving]
    exact le_rfl
  | false =>
    obtain ⟨closer, stays, -⟩ := lawful.act_busy _ _ _ inv act idle
    have less : left loop { s with thread := thread } < left loop s := by
      by_cases leaving : loop.leaving s.thread = true
      · simp only [left, leaving, stays leaving, if_true]
        exact closer
      · simp only [left, leaving, if_false, Bool.false_eq_true]
        split_ifs <;> omega
    exact ⟨fun _ => less, less.le⟩

/-- On a stream that breaks every step that is not idle leaves less to do. -/
theorem left_step {label : LoopingLabel ε} (lawful : loop.Lawful host Inv)
    (reads : loop.Reads host Inv loop.Breaks s) (step : loop.step host s label = some t) :
    (¬ loop.Idles label → left loop t < left loop s) ∧ left loop t ≤ left loop s := by
  cases label with
  | read r =>
    obtain ⟨receiving, step⟩ := Option.ite_none_right_eq_some.mp step
    obtain ⟨reader, read, rfl⟩ := Option.map_eq_some_iff.mp step
    exact left_read (reads.staying lawful receiving) read
  | recv =>
    simp only [RecvLoop.step] at step
    split at step
    case h_1 n frame rx =>
      obtain ⟨thread, recv, rfl⟩ := Option.map_eq_some_iff.mp step
      have receiving := lawful.recv_receiving _ _ _ _ _ recv
      obtain ⟨thread', recv', distance, leaves, -⟩ := reads.recv lawful receiving rx Breaks.next
      obtain rfl := Option.some.inj (recv.symm.trans recv')
      have less := left_recv (reads.staying lawful receiving) reads rx distance leaves
      exact ⟨fun _ => less, less.le⟩
    case h_2 => exact absurd step (by simp)
  | act e =>
    obtain ⟨thread, act, rfl⟩ := Option.map_eq_some_iff.mp step
    exact left_act lawful reads.inv act

/-- A loop ends exactly if it takes a zero for the end, or if the stream is not whole
frames. -/
theorem endsOn_iff (lawful : loop.Lawful host Inv) (inv : Inv thread)
    (inside : loop.leaving thread = false) :
    loop.EndsOn host thread stream ↔ loop.Breaks stream := by
  constructor
  · contrapose!
    intro goes
    obtain ⟨asks, whole⟩ := not_or.mp goes
    rw [not_not] at whole
    -- such a loop never has to leave
    refine (loop.machine host).not_ends_of_onward
      (R := fun s => loop.Reads host Inv (WholeFrames frameBufSize) s ∧
        loop.leaving s.thread = false) ⟨reads_start inv whole, inside⟩ ?_
    rintro s ⟨reads, staying⟩
    cases receiving : loop.receiving s.thread with
    | true =>
      obtain ⟨label, t, busy, step, reads', leaves⟩ := reads.onward_receiving lawful receiving
        fun f whole rest => (wholeFrames_append whole).mp
      refine ⟨label, t, busy, step, reads', Bool.eq_false_iff.mpr fun leaving => ?_⟩
      obtain ⟨n, frame, rx, negative | ⟨-, ends⟩⟩ := leaves leaving
      · obtain ⟨follows, whole⟩ := reads.reads staying
        rw [rx] at follows
        rcases returned_cases follows with ⟨zero, -⟩ | ⟨f, -, -, nonneg⟩ | ⟨-, broken⟩
        · omega
        · omega
        · exact broken whole
      · exact asks ends
    | false =>
      obtain ⟨e, thread, busy, act, stays⟩ :=
        lawful.onward _ reads.inv receiving (lawful.not_cleared _ reads.inv staying)
      refine ⟨.act e, _, ?_, Option.map_eq_some_iff.mpr ⟨thread, act, rfl⟩, reads.act lawful act,
        stays staying⟩
      rw [RecvLoop.Idles, busy]
      decide
  · intro breaks
    refine (loop.machine host).ends_of_measure (left loop) (reads_start inv breaks)
      (fun s label t reads step => reads.step lawful Breaks.next step)
      (fun s label t reads step => (left_step lawful reads step).1)
      (fun s label t reads step _ => (left_step lawful reads step).2) fun s reads => ?_
    cases receiving : loop.receiving s.thread with
    | true =>
      obtain ⟨label, t, busy, step, -⟩ := reads.onward_receiving lawful receiving Breaks.next
      exact .inr ⟨label, t, busy, step⟩
    | false =>
      cases cleared : loop.cleared s.thread with
      | true => exact .inl rfl
      | false =>
        obtain ⟨e, thread, busy, act, -⟩ := lawful.onward _ reads.inv receiving cleared
        refine .inr ⟨.act e, _, ?_, Option.map_eq_some_iff.mpr ⟨thread, act, rfl⟩⟩
        rw [RecvLoop.Idles, busy]
        decide

end RecvLoop

end OmniSocket
