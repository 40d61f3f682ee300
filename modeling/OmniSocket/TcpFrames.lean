/-
# The frames on one connection

Whoever calls `tcp_send` again and again on one connection puts one frame after
the other on it. A call whose `write` fails inside its frame leaves the beginning
of a frame there, and nothing in `tcp_send` remembers that. The stream stays one
of whole frames exactly as long as no later call gets a byte through.
-/

import OmniSocket.Lib.Machine
import OmniSocket.App.Message
import OmniSocket.TcpStream

set_option autoImplicit false

namespace OmniSocket

open Lib

/-- A call of `tcp_send` on a connection, with the results of its `write` calls. -/
structure TcpCall where
  t0 : UInt64
  msg : List UInt8
  script : List WriteResult
  deriving DecidableEq, Repr

namespace TcpCall

/-- The frame of the message. -/
def frame (host : Endian) (c : TcpCall) : List UInt8 := tcpFrame host c.t0 c.msg

/-- What the call puts on the connection. -/
def bytes (host : Endian) (c : TcpCall) : List UInt8 :=
  (tcpSendStart host c.t0 c.msg).written c.script

/-- No `write` takes more than it is offered. -/
def Allowed (host : Endian) (c : TcpCall) : Prop := (tcpSendStart host c.t0 c.msg).Allows c.script

/-- The call has returned. -/
def Returned (host : Endian) (c : TcpCall) : Prop :=
  ∃ value unsent, tcpSend host c.t0 c.msg c.script = .returned value unsent

/-- How many bytes the `write` calls took. -/
def taken (c : TcpCall) : ℕ :=
  (c.script.map fun r =>
    match r with
    | .count n => n
    | _ => 0).sum

/-- A `write` failed for good when part of the frame had been taken. -/
def Breaks (c : TcpCall) : Prop :=
  .error ∈ c.script ∧ 0 < c.taken ∧ c.taken < msgHeaderSize + c.msg.length

end TcpCall

/-- After a `write` has failed inside a frame, no `write` takes a byte. -/
def FailuresLast (calls : List TcpCall) : Prop :=
  ∀ before c after, calls = before ++ c :: after → c.Breaks → ∀ later ∈ after, later.taken = 0

/-- The calls that got their frames through. -/
def completeCalls (host : Endian) (calls : List TcpCall) : List TcpCall :=
  calls.filter fun c => c.bytes host = c.frame host

/-- What the other end of a connection does. -/
inductive TcpReaderLabel
  /-- A `read` inside `tcp_recv`. -/
  | read (r : ReadResult)
  /-- `tcp_recv` has returned a message and is called again. -/
  | next
  deriving DecidableEq, Repr

/-- The other end of a connection, with the messages it has been given. -/
def readerMachine (reader : Endian) (len : ℕ) :
    Machine (TcpLink × List (List UInt8)) TcpReaderLabel where
  step s label :=
    match label with
    | .read r => (s.1.read reader len r).map fun link => (link, s.2)
    | .next =>
      match s.1.rx with
      | .returned value msg => if 0 < value then some (s.1.endRecv, s.2 ++ [msg]) else none
      | _ => none

/-- A connection these bytes have been written on. -/
def TcpLink.holding (stream : List UInt8) : TcpLink := { TcpLink.fresh with pipe := stream }

/-- What the calls have put on the connection is whole frames. -/
structure Framed (host : Endian) (calls : List TcpCall) : Prop where
  /-- It is complete frames and, at the very end, at most one incomplete one. -/
  stream : ∃ rest, calls.flatMap (TcpCall.bytes host) =
      (completeCalls host calls).flatMap (TcpCall.frame host) ++ rest ∧
    (rest = [] ∨ ∃ c ∈ calls, rest <+: c.frame host ∧ rest ≠ c.frame host)
  /-- A frame that was only partly written is the last thing written. -/
  last : ∀ before c after, calls = before ++ c :: after → c.bytes host ≠ [] →
    c.bytes host ≠ c.frame host → ∀ later ∈ after, later.bytes host = []
  /-- Whoever reads the stream is given the messages of the complete frames. -/
  delivered : ∀ (reader : Endian) (len : ℕ) (labels : List TcpReaderLabel) (link : TcpLink)
    (got : List (List UInt8)), frameBufSize ≤ len → len < 2 ^ 32 →
    (readerMachine reader len).run
      (TcpLink.holding (calls.flatMap (TcpCall.bytes host)), []) labels = some (link, got) →
    got <+: (completeCalls host calls).map TcpCall.msg

/-! ## One call -/

namespace TcpSend

/-- The counts of the `write` calls add up to what was written. -/
theorem length_written {s : TcpSend} {script : List WriteResult} (allows : s.Allows script) :
    (s.written script).length = (script.map fun r =>
      match r with
      | .count n => n
      | _ => 0).sum := by
  induction script generalizing s with
  | nil => rfl
  | cons r script ih =>
    obtain ⟨within, allows⟩ := allows
    rw [written, List.length_append, ih allows, List.map_cons, List.sum_cons]
    -- only a count writes, and never more than is left
    cases r with
    | count n =>
      have fits := within n rfl
      simp only [accepted, List.length_take]
      omega
    | eintr => rfl
    | error => rfl

/-- A call without failures that has returned has written everything. -/
theorem unsent_of_no_error {s : TcpSend} {script : List WriteResult}
    (clean : ∀ value unsent, s = .returned value unsent → unsent = [])
    (no_error : .error ∉ script) :
    ∀ value unsent, script.foldl pass s = .returned value unsent → unsent = [] := by
  induction script generalizing s with
  | nil => exact clean
  | cons r script ih =>
    rw [List.mem_cons, not_or] at no_error
    refine ih ?_ no_error.2
    intro value unsent result
    -- the call returns at the end of the payload or from a failure, and a failure is excluded
    cases s with
    | header rest buf =>
      cases r with
      | count n =>
        simp only [pass, tcpWriteNPass, tcpWriteNTest] at result
        by_cases all : rest.drop n = []
        · have size : ssize msgHeaderSize = msgHeaderSize := ssize_of_lt (by decide)
          rw [if_pos all, tcpSendHeader, if_neg (by simp [size]), tcpWriteNTest] at result
          -- an empty payload makes no `write` of its own
          by_cases empty : buf = []
          · rw [if_pos empty, tcpSendPayload, if_neg (by simp)] at result
            exact (TcpSend.returned.inj result).2.symm.trans empty
          · rw [if_neg empty] at result
            cases result
        · rw [if_neg all] at result
          cases result
      | eintr => cases result
      | error => exact absurd rfl no_error.1
    | payload len rest =>
      cases r with
      | count n =>
        simp only [pass, tcpWriteNPass, tcpWriteNTest] at result
        by_cases all : rest.drop n = []
        · rw [if_pos all, tcpSendPayload, if_neg (by simp)] at result
          exact (TcpSend.returned.inj result).2.symm.trans all
        · rw [if_neg all] at result
          cases result
      | eintr => cases result
      | error => exact absurd rfl no_error.1
    | returned value' unsent' => exact clean value unsent result

end TcpSend

namespace TcpCall

variable {host : Endian} {c : TcpCall}

theorem length_frame (host : Endian) (c : TcpCall) :
    (c.frame host).length = msgHeaderSize + c.msg.length := by
  rw [frame, tcpFrame, List.length_append, length_headerBytes]

theorem frame_ne_nil (host : Endian) (c : TcpCall) : c.frame host ≠ [] := by
  intro empty
  have length := length_frame host c
  rw [empty, List.length_nil, msgHeaderSize] at length
  omega

theorem length_bytes (allowed : c.Allowed host) : (c.bytes host).length = c.taken :=
  TcpSend.length_written allowed

/-- A call writes the beginning of its frame. -/
theorem bytes_append (allowed : c.Allowed host) (small : c.msg.length < 2 ^ 63) :
    c.bytes host ++ (tcpSend host c.t0 c.msg c.script).unsent = c.frame host := by
  have start := TcpSend.sound_tcpSendStart host c.t0 c.msg
  rw [frame, ← start.2]
  exact (TcpSend.sound_run small start.1 allowed).2

/-- A call that breaks has written part of its frame. -/
theorem Breaks.partial_bytes (breaks : c.Breaks) (allowed : c.Allowed host) :
    c.bytes host ≠ [] ∧ c.bytes host ≠ c.frame host := by
  obtain ⟨-, some_byte, short⟩ := breaks
  have length := length_bytes allowed
  refine ⟨fun empty => ?_, fun whole => ?_⟩
  · rw [empty, List.length_nil] at length
    omega
  · rw [whole, length_frame] at length
    omega

/-- A call that has returned with part of its frame written has failed there. -/
theorem breaks_of_partial (allowed : c.Allowed host) (small : c.msg.length < 2 ^ 63)
    (returned : c.Returned host) (some_byte : c.bytes host ≠ [])
    (incomplete : c.bytes host ≠ c.frame host) : c.Breaks := by
  have length := length_bytes allowed
  have whole := bytes_append allowed small
  obtain ⟨value, unsent, result⟩ := returned
  rw [result, TcpSend.unsent] at whole
  have left : unsent ≠ [] := by
    rintro rfl
    exact incomplete (by rw [← whole, List.append_nil])
  refine ⟨?_, ?_, ?_⟩
  -- without a failure the call would have returned with nothing left
  · by_contra no_error
    refine left (TcpSend.unsent_of_no_error ?_ no_error value unsent result)
    intro value' unsent' start
    rw [TcpSend.tcpSendStart_eq] at start
    cases start
  · rw [← length]
    exact List.length_pos_of_ne_nil some_byte
  · rw [← length, ← length_frame host c, ← whole, List.length_append]
    have := List.length_pos_of_ne_nil left
    omega

end TcpCall

/-! ## The stream -/

section Stream

variable {host : Endian} {calls : List TcpCall}

/-- As long as nothing follows the beginning of a frame, the stream is complete
frames and then perhaps the beginning of one. -/
theorem stream_of_last (allowed : ∀ c ∈ calls, c.Allowed host ∧ c.msg.length < 2 ^ 63)
    (last : ∀ before c after, calls = before ++ c :: after → c.bytes host ≠ [] →
      c.bytes host ≠ c.frame host → ∀ later ∈ after, later.bytes host = []) :
    ∃ rest, calls.flatMap (TcpCall.bytes host) =
        (completeCalls host calls).flatMap (TcpCall.frame host) ++ rest ∧
      (rest = [] ∨ ∃ c ∈ calls, rest = c.bytes host ∧ c.bytes host ≠ c.frame host) := by
  induction calls with
  | nil => exact ⟨[], rfl, .inl rfl⟩
  | cons c calls ih =>
    have tail := ih (fun d member => allowed d (List.mem_cons_of_mem c member))
      fun before d after split => last (c :: before) d after (by rw [split, List.cons_append])
    obtain ⟨rest, stream, beginning⟩ := tail
    have beginning' : rest = [] ∨ ∃ d ∈ c :: calls, rest = d.bytes host ∧
        d.bytes host ≠ d.frame host := by
      rcases beginning with none | ⟨d, member, begun⟩
      · exact .inl none
      · exact .inr ⟨d, List.mem_cons_of_mem c member, begun⟩
    -- a whole frame stays in front, a begun one has to be the end of the stream
    by_cases whole : c.bytes host = c.frame host
    · have complete : completeCalls host (c :: calls) = c :: completeCalls host calls := by
        simp [completeCalls, whole]
      refine ⟨rest, ?_, beginning'⟩
      rw [complete, List.flatMap_cons, List.flatMap_cons, stream, whole, List.append_assoc]
    · have complete : completeCalls host (c :: calls) = completeCalls host calls := by
        simp [completeCalls, whole]
      by_cases nothing : c.bytes host = []
      · refine ⟨rest, ?_, beginning'⟩
        rw [complete, List.flatMap_cons, stream, nothing, List.nil_append]
      · -- what is left after the incomplete frame is empty
        have silent := last [] c calls rfl nothing whole
        have none : completeCalls host calls = [] := by
          rw [completeCalls, List.filter_eq_nil_iff]
          intro d member complete
          refine d.frame_ne_nil host ?_
          rw [← of_decide_eq_true complete, silent d member]
        refine ⟨c.bytes host, ?_, .inr ⟨c, List.mem_cons_self, rfl, whole⟩⟩
        rw [complete, none, List.flatMap_cons, List.flatMap_eq_nil_iff.mpr silent]
        simp

/-- Whoever reads the beginning of a sequence of frames is given their messages,
and not the last one if that is not there in full. -/
theorem prefix_of_reader {reader : Endian} {len : ℕ} {labels : List TcpReaderLabel}
    {link : TcpLink} {got : List (List UInt8)} {stream unsent : List UInt8}
    {frames : List (UInt64 × List UInt8)} (bound : len < 2 ^ 32)
    (fits : ∀ msg ∈ frames.map Prod.snd, msg.length ≤ len)
    (bytes : stream ++ unsent = TcpLink.wire host frames)
    (hrun : (readerMachine reader len).run (TcpLink.holding stream, []) labels = some (link, got)) :
    ∃ pending, frames.map Prod.snd = got ++ pending ∧ (unsent ≠ [] → pending ≠ []) := by
  have reads : ∃ pending, frames.map Prod.snd = got ++ pending ∧ (unsent ≠ [] → pending ≠ []) ∧
      link.Carries host len unsent pending := by
    refine (readerMachine reader len).run_invariant
      (I := fun s => ∃ pending, frames.map Prod.snd = s.2 ++ pending ∧
        (unsent ≠ [] → pending ≠ []) ∧ s.1.Carries host len unsent pending) ?_ ?_ hrun
    · rintro ⟨link, got⟩ label next ⟨pending, all, more, carries⟩ step
      cases label with
      | read r =>
        obtain ⟨link', read, rfl⟩ := Option.map_eq_some_iff.mp step
        exact ⟨pending, all, more, carries.read bound read⟩
      | next =>
        simp only [readerMachine] at step
        split at step
        case h_1 value msg rx =>
          obtain ⟨positive, rfl⟩ :=
            Option.ite_none_right_eq_some.mp step |>.imp_right Option.some.inj
          obtain ⟨-, rest, rfl, carries'⟩ := carries.endRecv rx positive
          refine ⟨rest, by rw [all, List.append_assoc]; rfl, ?_, carries'⟩
          -- nothing is left to be read after the last message
          rintro missing rfl
          obtain ⟨frames', none, -, receives⟩ := carries'
          rw [List.map_eq_nil_iff.mp none] at receives
          have empty : link.endRecv.pipe ++ unsent = [] := receives.2
          exact missing (List.append_eq_nil_iff.mp empty).2
        case h_2 => exact absurd step (by simp)
    · refine ⟨frames.map Prod.snd, rfl, ?_, frames, rfl, fits, ?_⟩
      · rintro missing none
        rw [List.map_eq_nil_iff.mp none] at bytes
        exact missing (List.append_eq_nil_iff.mp bytes).2
      · exact ⟨by simp [msgHeaderSize], bytes⟩
  obtain ⟨pending, all, more, -⟩ := reads
  exact ⟨pending, all, more⟩

/-- The frames of complete calls, as a stream. -/
theorem wire_map (host : Endian) (calls : List TcpCall) :
    TcpLink.wire host (calls.map fun c => (c.t0, c.msg)) =
      calls.flatMap (TcpCall.frame host) := by
  rw [TcpLink.wire, List.flatMap_map]
  rfl

/-- Complete frames, and perhaps the beginning of one more, give a reader only the
messages of the complete ones. -/
theorem messages_of_reader {reader : Endian} {len : ℕ} {labels : List TcpReaderLabel}
    {link : TcpLink} {got : List (List UInt8)} {stream rest : List UInt8}
    (allowed : ∀ c ∈ calls, c.Allowed host ∧ c.msg.length < 2 ^ 63)
    (fits : ∀ c ∈ calls, c.msg.length ≤ len) (bound : len < 2 ^ 32)
    (bytes : stream = (completeCalls host calls).flatMap (TcpCall.frame host) ++ rest)
    (beginning : rest = [] ∨ ∃ c ∈ calls, rest = c.bytes host ∧ c.bytes host ≠ c.frame host)
    (hrun : (readerMachine reader len).run (TcpLink.holding stream, []) labels = some (link, got)) :
    got <+: (completeCalls host calls).map TcpCall.msg := by
  have whole : ∀ msg ∈ ((completeCalls host calls).map fun c => (c.t0, c.msg)).map Prod.snd,
      msg.length ≤ len := by
    rw [List.map_map]
    rintro msg member
    obtain ⟨c, complete, rfl⟩ := List.mem_map.mp member
    exact fits c (List.mem_of_mem_filter complete)
  have messages : ((completeCalls host calls).map fun c => (c.t0, c.msg)).map Prod.snd =
      (completeCalls host calls).map TcpCall.msg := List.map_map
  rw [bytes, ← wire_map] at hrun
  rcases beginning with rfl | ⟨c, member, rfl, incomplete⟩
  · rw [List.append_nil] at hrun
    have wire := List.append_nil
      (TcpLink.wire host ((completeCalls host calls).map fun c => (c.t0, c.msg)))
    obtain ⟨pending, all, -⟩ := prefix_of_reader bound whole wire hrun
    exact ⟨pending, (messages.symm.trans all).symm⟩
  · -- the incomplete frame, with what is missing of it, comes last
    have begun := TcpCall.bytes_append (allowed c member).1 (allowed c member).2
    have missing : (tcpSend host c.t0 c.msg c.script).unsent ≠ [] := by
      intro none
      rw [none, List.append_nil] at begun
      exact incomplete begun
    have wire : TcpLink.wire host ((completeCalls host calls).map fun c => (c.t0, c.msg)) ++
        c.bytes host ++ (tcpSend host c.t0 c.msg c.script).unsent =
          TcpLink.wire host (((completeCalls host calls).map fun c => (c.t0, c.msg)) ++
            [(c.t0, c.msg)]) := by
      rw [TcpLink.wire_append, List.append_assoc, begun]
      simp [TcpLink.wire, TcpCall.frame]
    have all_fit : ∀ msg ∈ (((completeCalls host calls).map fun c => (c.t0, c.msg)) ++
        [(c.t0, c.msg)]).map Prod.snd, msg.length ≤ len := by
      intro msg listed
      rw [List.map_append, List.mem_append] at listed
      rcases listed with complete | last
      · exact whole msg complete
      · rw [List.mem_singleton.mp last]
        exact fits c member
    obtain ⟨pending, all, more⟩ := prefix_of_reader bound all_fit wire hrun
    -- some of the last frame is missing, so its message is still pending
    obtain ⟨front, msg, rfl⟩ := List.eq_nil_or_concat pending |>.resolve_left (more missing)
    rw [List.concat_eq_append, List.map_append, ← List.append_assoc, messages] at all
    exact ⟨front, (List.append_inj_left' all rfl).symm⟩

/-- Calls of which all but the last have returned keep the frames whole exactly
when failures inside a frame are for good. -/
theorem framed_iff (allowed : ∀ c ∈ calls, c.Allowed host ∧ c.msg.length ≤ frameBufSize)
    (returned : calls.Pairwise fun c _ => c.Returned host) :
    Framed host calls ↔ FailuresLast calls := by
  have small : ∀ c ∈ calls, c.Allowed host ∧ c.msg.length < 2 ^ 63 := by
    intro c member
    have short : frameBufSize < 2 ^ 63 := by decide
    exact ⟨(allowed c member).1, (allowed c member).2.trans_lt short⟩
  constructor
  · rintro framed before c after rfl breaks later member
    have inside : c ∈ before ++ c :: after := by simp
    obtain ⟨some_byte, incomplete⟩ := breaks.partial_bytes (small c inside).1
    have silent := framed.last before c after rfl some_byte incomplete later member
    rw [← TcpCall.length_bytes (small later (by simp [member])).1, silent, List.length_nil]
  · intro failures
    have last : ∀ before c after, calls = before ++ c :: after → c.bytes host ≠ [] →
        c.bytes host ≠ c.frame host → ∀ later ∈ after, later.bytes host = [] := by
      rintro before c after rfl some_byte incomplete later member
      -- a call that another follows has returned, so an incomplete frame means it broke
      have ends : c.Returned host := by
        rw [List.pairwise_append, List.pairwise_cons] at returned
        exact returned.2.1.1 later member
      have inside := small c (by simp)
      have breaks := TcpCall.breaks_of_partial inside.1 inside.2 ends some_byte incomplete
      have none := failures before c after rfl breaks later member
      rw [← List.length_eq_zero_iff, TcpCall.length_bytes (small later (by simp [member])).1, none]
    obtain ⟨rest, stream, beginning⟩ := stream_of_last small last
    refine ⟨⟨rest, stream, ?_⟩, last, ?_⟩
    · rcases beginning with none | ⟨c, member, rfl, incomplete⟩
      · exact .inl none
      · refine .inr ⟨c, member, ?_, incomplete⟩
        exact ⟨_, TcpCall.bytes_append (small c member).1 (small c member).2⟩
    · intro reader len labels link got large bound hrun
      exact messages_of_reader small (fun c member => (allowed c member).2.trans large) bound
        stream beginning hrun

end Stream

end OmniSocket
