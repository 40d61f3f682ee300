/-
# What the server's receive loop makes of its input

The loop is followed over every sequence of results of `omni_recv` and `fwrite`, with
no client in sight: the strings may be anything. What has been written to the file,
counted and flagged is at every turn of the loop a function of the strings received so
far, and the loop ends for three reasons only, apart from being told to.
-/

import OmniSocket.Lib.Machine
import OmniSocket.App.Server
import OmniSocket.AppCodec
import Mathlib.Data.List.Induction

set_option autoImplicit false

namespace OmniSocket

open Lib

/-! ## Strings -/

/-- The payload of a string that decodes as a `FILE_CHUNK`. -/
def chunkOf (host : Endian) (size : SizeT) (string : List UInt8) : Option (List UInt8) :=
  match decodeAppMessage host size string with
  | .ok (hdr, payload) => if hdr.type = msgTypeFileChunk then some payload else none
  | .error _ => none

/-- The string decodes as a `FILE_END`. -/
def isFileEnd (host : Endian) (size : SizeT) (string : List UInt8) : Bool :=
  match decodeAppMessage host size string with
  | .ok (hdr, _) => hdr.type = msgTypeFileEnd
  | .error _ => false

/-- What `hdr.len` bytes of an accepted payload are: all of it. -/
theorem take_len_of_decode {host : Endian} {size : SizeT} {string payload : List UInt8}
    {hdr : MsgHeader} (decoded : decodeAppMessage host size string = .ok (hdr, payload)) :
    payload.take hdr.len.toNat = payload := by
  have holds : string.length < size.modulus := by
    -- the test compares the length with a number below the modulus
    unfold decodeAppMessage at decoded
    split_ifs at decoded with short
    simp only at decoded
    split_ifs at decoded with differs
    rw [not_not] at differs
    rw [← differs]
    exact Nat.mod_lt _ (by cases size <;> decide)
  obtain ⟨⟨long, len⟩, rfl, rfl⟩ := (decodeAppMessage_eq_ok_iff holds).mp decoded
  rw [len_take host long, len]
  exact List.take_of_length_le (by rw [List.length_drop])

namespace Server

variable {host : Endian} {size : SizeT} {s t : Server}

/-- The receive thread, with the main thread beside it. -/
def loop (host : Endian) (size : SizeT) : Machine Server ServerEvent where
  step s event := s.step host size event

/-- The strings `omni_recv` has returned. -/
def received (events : List ServerEvent) : List (List UInt8) :=
  events.filterMap fun event =>
    match event with
    | .recv n frame => if 0 < n then some (frame.take n.toNat) else none
    | .load | .fwrite _ | .mainExit => none

@[simp] theorem received_nil : received [] = [] := rfl

theorem received_cons (event : ServerEvent) (events : List ServerEvent) :
    received (event :: events) = received [event] ++ received events := by
  rw [← List.singleton_append, received, List.filterMap_append]
  rfl

/-! ## The account at every turn -/

/-- File, count and flag after these strings. The count is 64 bits wide. -/
structure Holds (host : Endian) (size : SizeT) (strings : List (List UInt8)) (out : List UInt8)
    (bytesWritten : UInt64) (transferDone : Bool) : Prop where
  out : out = (strings.filterMap (chunkOf host size)).flatten
  count : bytesWritten = UInt64.ofNat (strings.filterMap (chunkOf host size)).flatten.length
  done : transferDone = true ↔ ∃ string ∈ strings, isFileEnd host size string = true

/-- A string that is no chunk changes at most the flag. -/
theorem Holds.skip {strings : List (List UInt8)} {string out : List UInt8} {bytesWritten : UInt64}
    {transferDone : Bool} (holds : Holds host size strings out bytesWritten transferDone)
    (chunk : chunkOf host size string = none) :
    Holds host size (strings ++ [string]) out bytesWritten
      (transferDone || isFileEnd host size string) := by
  have same : (strings ++ [string]).filterMap (chunkOf host size) =
      strings.filterMap (chunkOf host size) := by
    simp [List.filterMap_append, chunk]
  refine ⟨by rw [same]; exact holds.out, by rw [same]; exact holds.count, ?_⟩
  rw [Bool.or_eq_true, holds.done]
  simp [or_and_right, exists_or]

/-- A chunk is appended to the file. -/
theorem Holds.append {strings : List (List UInt8)} {string payload out : List UInt8}
    {bytesWritten : UInt64} {transferDone : Bool}
    (holds : Holds host size strings out bytesWritten transferDone)
    (chunk : chunkOf host size string = some payload) :
    Holds host size (strings ++ [string]) (out ++ payload)
      (bytesWritten + UInt64.ofNat payload.length) transferDone := by
  have more : ((strings ++ [string]).filterMap (chunkOf host size)).flatten =
      (strings.filterMap (chunkOf host size)).flatten ++ payload := by
    simp [List.filterMap_append, chunk]
  have no_end : isFileEnd host size string = false := by
    unfold chunkOf at chunk
    unfold isFileEnd
    split at chunk
    case h_1 hdr payload decoded =>
      split_ifs at chunk with type
      rw [type]
      decide
    case h_2 => cases chunk
  refine ⟨by rw [more, holds.out], by rw [more, List.length_append, UInt64.ofNat_add, holds.count],
    ?_⟩
  rw [holds.done]
  simp [no_end]

/-- The account of the loop after these strings, at each of its control points. A
stopped loop has dealt with all of them, or failed to write the last one. -/
def Accounts (host : Endian) (size : SizeT) (strings : List (List UInt8)) (s : Server) : Prop :=
  match s.pc with
  | .loopTest | .receiving => Holds host size strings s.out s.bytesWritten s.transferDone
  | .writing payload =>
    ∃ before string, strings = before ++ [string] ∧ chunkOf host size string = some payload ∧
      Holds host size before s.out s.bytesWritten s.transferDone
  | .stopped =>
    Holds host size strings s.out s.bytesWritten s.transferDone ∨
      ∃ before string payload out nw, strings = before ++ [string] ∧
        chunkOf host size string = some payload ∧ nw < payload.length ∧
        s.out = out ++ payload.take nw ∧ Holds host size before out s.bytesWritten s.transferDone

theorem accounts_start (host : Endian) (size : SizeT) (proto : OmniProtocol) :
    (start proto).Accounts host size [] :=
  ⟨rfl, rfl, by simp [start]⟩

/-- A string leads back to the head of the loop, or to the write of its payload. -/
theorem accounts_recv {strings : List (List UInt8)} {n : ℤ} {frame : List UInt8}
    (holds : Holds host size strings s.out s.bytesWritten s.transferDone) (positive : 0 < n) :
    (s.afterRecv host size n frame).Accounts host size (strings ++ [frame.take n.toNat]) := by
  rw [afterRecv, if_neg (by omega), if_neg (by omega)]
  cases decoded : decodeAppMessage host size (frame.take n.toNat) with
  | error rc =>
    have no_chunk : chunkOf host size (frame.take n.toNat) = none := by rw [chunkOf, decoded]
    have no_end : isFileEnd host size (frame.take n.toNat) = false := by rw [isFileEnd, decoded]
    have kept := holds.skip no_chunk
    rwa [no_end, Bool.or_false] at kept
  | ok result =>
    obtain ⟨hdr, payload⟩ := result
    have chunk : chunkOf host size (frame.take n.toNat) =
        if hdr.type = msgTypeFileChunk then some payload else none := by rw [chunkOf, decoded]
    have ends : isFileEnd host size (frame.take n.toNat) = decide (hdr.type = msgTypeFileEnd) := by
      rw [isFileEnd, decoded]
    simp only [handle, take_len_of_decode decoded]
    -- a chunk counts once its write has returned, everything else at once
    split_ifs with is_chunk is_end
    · exact ⟨strings, _, rfl, by rw [chunk, if_pos is_chunk], holds⟩
    · have kept := holds.skip (chunk.trans (if_neg is_chunk))
      rwa [ends, decide_eq_true is_end, Bool.or_true] at kept
    · have kept := holds.skip (chunk.trans (if_neg is_chunk))
      rwa [ends, decide_eq_false is_end, Bool.or_false] at kept

/-- One action of either thread keeps the account. -/
theorem accounts_step {strings : List (List UInt8)} {event : ServerEvent}
    (accounts : s.Accounts host size strings) (step : s.step host size event = some t) :
    t.Accounts host size (strings ++ received [event]) := by
  cases event with
  | load =>
    simp only [Server.step] at step
    split at step
    case h_1 pc =>
      obtain rfl := Option.some.inj step
      simp only [Accounts, pc] at accounts
      simp only [received, List.filterMap_cons, List.filterMap_nil, List.append_nil]
      cases s.running
      · exact .inl accounts
      · exact accounts
    case h_2 => exact absurd step (by simp)
  | recv n frame =>
    simp only [Server.step] at step
    split at step
    case h_1 pc =>
      obtain rfl := Option.some.inj step
      simp only [Accounts, pc] at accounts
      by_cases positive : 0 < n
      · simp only [received, List.filterMap_cons, List.filterMap_nil, if_pos positive]
        exact accounts_recv accounts positive
      · simp only [received, List.filterMap_cons, List.filterMap_nil, if_neg positive,
          List.append_nil]
        -- an error or a zero is no string
        unfold afterRecv
        split_ifs with negative zero tcp
        · exact .inl accounts
        · exact .inl accounts
        · exact accounts
        · omega
    case h_2 => exact absurd step (by simp)
  | fwrite nw =>
    simp only [Server.step] at step
    split at step
    case h_1 payload pc =>
      obtain ⟨within, rfl⟩ := (Option.ite_none_right_eq_some.mp step).imp_right Option.some.inj
      simp only [Accounts, pc] at accounts
      obtain ⟨before, string, rfl, chunk, holds⟩ := accounts
      simp only [received, List.filterMap_cons, List.filterMap_nil, List.append_nil]
      unfold afterWrite
      -- after a short write the string stands outside the account
      split_ifs with short
      · exact .inr ⟨before, string, payload, s.out, nw, rfl, chunk, by omega, rfl, holds⟩
      · rw [not_not] at short
        subst short
        rw [List.take_length]
        exact holds.append chunk
    case h_2 => exact absurd step (by simp)
  | mainExit =>
    obtain rfl := Option.some.inj step
    simp only [received, List.filterMap_cons, List.filterMap_nil, List.append_nil]
    exact accounts

/-- So does a whole run. -/
theorem accounts_run {strings : List (List UInt8)} {events : List ServerEvent}
    (accounts : s.Accounts host size strings) (hrun : (loop host size).run s events = some t) :
    t.Accounts host size (strings ++ received events) := by
  -- on the events: the strings received so far are those before the rest
  induction events generalizing s strings with
  | nil =>
    obtain rfl := Option.some.inj hrun
    rwa [received_nil, List.append_nil]
  | cons event events ih =>
    obtain ⟨u, step, hrest⟩ := (loop host size).run_cons_eq_some.mp hrun
    rw [received_cons, ← List.append_assoc]
    exact ih (accounts_step accounts step) hrest

/-! ## Where the loop ends -/

/-- What makes the loop end by itself: an error, the end of a TCP connection, or a
short `fwrite`. -/
def Stops (s : Server) : ServerEvent → Prop
  | .recv n _ => n < 0 ∨ (n = 0 ∧ s.proto = .tcp)
  | .fwrite nw => ∃ payload, s.pc = .writing payload ∧ nw < payload.length
  | .load | .mainExit => False

/-- File, count and flag stay as they were when it ended. -/
theorem stopped_run {events : List ServerEvent} (stopped : s.pc = .stopped)
    (hrun : (loop host size).run s events = some t) :
    t.out = s.out ∧ t.bytesWritten = s.bytesWritten ∧ t.transferDone = s.transferDone := by
  have kept := (loop host size).run_invariant (I := fun t => t.pc = .stopped ∧ t.out = s.out ∧
    t.bytesWritten = s.bytesWritten ∧ t.transferDone = s.transferDone) ?_
    ⟨stopped, rfl, rfl, rfl⟩ hrun
  · exact kept.2
  · rintro u event v ⟨ended, out, count, flag⟩ step
    obtain ⟨-, ended', out', count', flag'⟩ := stopped_step_eq ended step
    exact ⟨ended', out'.trans out, count'.trans count, flag'.trans flag⟩

/-- A string that is neither a chunk nor the end of the file is passed over. -/
theorem ignored_step {n : ℤ} {frame : List UInt8} (positive : 0 < n)
    (chunk : chunkOf host size (frame.take n.toNat) = none)
    (ends : isFileEnd host size (frame.take n.toNat) = false)
    (step : s.step host size (.recv n frame) = some t) : t = { s with pc := .loopTest } := by
  simp only [Server.step] at step
  split at step
  case h_1 =>
    obtain rfl := Option.some.inj step
    rw [afterRecv, if_neg (by omega), if_neg (by omega)]
    unfold chunkOf at chunk
    unfold isFileEnd at ends
    split at chunk
    case h_1 hdr payload decoded =>
      rw [decoded] at ends ⊢
      -- of a message that decodes, only its type can make a difference
      have other : hdr.type ≠ msgTypeFileChunk := fun same => by simp [same] at chunk
      have unfinished : hdr.type ≠ msgTypeFileEnd := of_decide_eq_false ends
      simp only [handle, if_neg other, if_neg unfinished]
    case h_2 rc refused => rw [refused]
  case h_2 => exact absurd step (by simp)

/-- A short `fwrite` leaves a strict prefix of the payload in the file and counts
nothing of it. -/
theorem short_step {payload : List UInt8} {nw : ℕ} (pc : s.pc = .writing payload)
    (short : nw < payload.length) (step : s.step host size (.fwrite nw) = some t) :
    t.pc = .stopped ∧ t.out = s.out ++ payload.take nw ∧ t.bytesWritten = s.bytesWritten ∧
      t.transferDone = s.transferDone := by
  simp only [Server.step, pc, if_pos short.le, Option.some.injEq] at step
  subst step
  rw [afterWrite, if_pos short.ne]
  exact ⟨rfl, rfl, rfl, rfl⟩

/-- What the loop does with a string never ends it. -/
theorem pc_handle (s : Server) (hdr : MsgHeader) (payload : List UInt8) :
    (s.handle hdr payload).pc ≠ .stopped ∧ (s.handle hdr payload).running = s.running := by
  unfold handle
  split_ifs <;> exact ⟨by simp, rfl⟩

/-- A loop that nobody tells to end ends at its stopping events, and goes on otherwise. -/
theorem stopped_iff_of_step {event : ServerEvent} (running : s.running = true)
    (untold : event ≠ .mainExit) (step : s.step host size event = some t) :
    (t.pc = .stopped ↔ s.Stops event) ∧ (t.pc ≠ .stopped → t.running = true) := by
  cases event with
  | load =>
    simp only [Server.step, running, if_true] at step
    split at step
    case h_1 =>
      obtain rfl := Option.some.inj step
      exact ⟨⟨by simp, False.elim⟩, fun _ => rfl⟩
    case h_2 => exact absurd step (by simp)
  | recv n frame =>
    simp only [Server.step] at step
    split at step
    case h_1 pc =>
      obtain rfl := Option.some.inj step
      unfold afterRecv
      split_ifs with negative zero tcp
      · exact ⟨⟨fun _ => .inl negative, fun _ => rfl⟩, fun ended => absurd rfl ended⟩
      · exact ⟨⟨fun _ => .inr ⟨zero, tcp⟩, fun _ => rfl⟩, fun ended => absurd rfl ended⟩
      · exact ⟨⟨by simp, fun stops => absurd stops (by simp [Stops, negative, tcp])⟩,
          fun _ => running⟩
      -- a string is no reason to end, whatever is in it
      · have goes : ¬ s.Stops (.recv n frame) := by simp [Stops, negative, zero]
        split
        · exact ⟨⟨by simp, fun stops => absurd stops goes⟩, fun _ => running⟩
        · have kept := s.pc_handle ‹_› ‹_›
          exact ⟨⟨fun ended => absurd ended kept.1, fun stops => absurd stops goes⟩,
            fun _ => kept.2.trans running⟩
    case h_2 => exact absurd step (by simp)
  | fwrite nw =>
    simp only [Server.step] at step
    split at step
    case h_1 payload pc =>
      obtain ⟨within, rfl⟩ := (Option.ite_none_right_eq_some.mp step).imp_right Option.some.inj
      unfold afterWrite
      split_ifs with short
      · exact ⟨⟨fun _ => ⟨payload, pc, by omega⟩, fun _ => rfl⟩, fun ended => absurd rfl ended⟩
      · refine ⟨⟨by simp, ?_⟩, fun _ => running⟩
        rintro ⟨payload', pc', less⟩
        obtain rfl := ServerPc.writing.inj (pc.symm.trans pc')
        exact absurd less (by omega)
    case h_2 => exact absurd step (by simp)
  | mainExit => exact absurd rfl untold

/-- A loop that has not been told to end is still running. -/
theorem running_of_untold {events : List ServerEvent} {proto : OmniProtocol}
    (untold : .mainExit ∉ events) (hrun : (loop host size).run (start proto) events = some s)
    (going : s.pc ≠ .stopped) : s.running = true := by
  -- on the run from its end, where one event more has been taken
  induction events using List.reverseRecOn generalizing s with
  | nil =>
    obtain rfl := Option.some.inj hrun
    rfl
  | append_singleton events event ih =>
    obtain ⟨u, hrest, last⟩ := (loop host size).run_append_eq_some.mp hrun
    obtain ⟨t, step, same⟩ := (loop host size).run_cons_eq_some.mp last
    obtain rfl := Option.some.inj same
    rw [List.mem_append, not_or] at untold
    have still : u.pc ≠ .stopped := fun ended => going (stopped_step_eq ended step).2.1
    have told : event ≠ .mainExit := fun same => untold.2 (by simp [same])
    exact (stopped_iff_of_step (ih untold.1 hrest still) told step).2 going

/-- A loop that has not been told to end ends at its first stopping event. -/
theorem stopped_iff_of_untold {proto : OmniProtocol} {events : List ServerEvent}
    (hrun : (loop host size).run (start proto) events = some s) (untold : .mainExit ∉ events) :
    s.pc = .stopped ↔ ∃ before event u, events = before ++ [event] ∧
      (loop host size).run (start proto) before = some u ∧ u.pc ≠ .stopped ∧ u.Stops event := by
  rcases List.eq_nil_or_concat events with rfl | ⟨before, event, rfl⟩
  · obtain rfl := Option.some.inj hrun
    constructor
    · intro ended
      cases ended
    · rintro ⟨before, event, u, split, -⟩
      exact absurd split.symm (by simp)
  · rw [List.concat_eq_append] at *
    obtain ⟨u, hrest, last⟩ := (loop host size).run_append_eq_some.mp hrun
    obtain ⟨t, step, same⟩ := (loop host size).run_cons_eq_some.mp last
    obtain rfl := Option.some.inj same
    rw [List.mem_append, not_or] at untold
    have told : event ≠ .mainExit := fun same => untold.2 (by simp [same])
    -- after its end the loop takes no event but the exit of the main thread
    have going : u.pc ≠ .stopped := fun ended => told (stopped_step_eq ended step).1
    have running := running_of_untold untold.1 hrest going
    rw [(stopped_iff_of_step running told step).1]
    constructor
    · exact fun stops => ⟨before, event, u, rfl, hrest, going, stops⟩
    · rintro ⟨before', event', u', split, hrest', -, stops⟩
      obtain ⟨rfl, rfl⟩ := List.append_inj' split rfl |>.imp_right List.singleton_inj.mp
      obtain rfl := Option.some.inj (hrest.symm.trans hrest')
      exact stops

/-- The receive loop over any results of `omni_recv` and `fwrite`. File, count and flag
account for the strings received, in order; whoever is not told to end ends at its first
stopping event and nowhere else; a string that is neither a chunk nor the end of the file
changes nothing; a short `fwrite` adds a strict prefix of its payload to the file alone;
and after the end of the loop nothing changes any more. -/
theorem recv_loop_invariant {proto : OmniProtocol} {events : List ServerEvent}
    (hrun : (loop host size).run (start proto) events = some s) :
    s.Accounts host size (received events) ∧
      (.mainExit ∉ events → (s.pc = .stopped ↔
        ∃ before event u, events = before ++ [event] ∧
          (loop host size).run (start proto) before = some u ∧ u.pc ≠ .stopped ∧ u.Stops event)) ∧
      (∀ n frame t, s.step host size (.recv n frame) = some t → 0 < n →
        chunkOf host size (frame.take n.toNat) = none →
        isFileEnd host size (frame.take n.toNat) = false →
        t = { s with pc := .loopTest }) ∧
      (∀ payload nw t, s.pc = .writing payload → nw < payload.length →
        s.step host size (.fwrite nw) = some t →
        t.pc = .stopped ∧ t.out = s.out ++ payload.take nw ∧ t.bytesWritten = s.bytesWritten ∧
          t.transferDone = s.transferDone) ∧
      (s.pc = .stopped → ∀ later t, (loop host size).run s later = some t →
        t.out = s.out ∧ t.bytesWritten = s.bytesWritten ∧ t.transferDone = s.transferDone) := by
  refine ⟨?_, stopped_iff_of_untold hrun,
    fun n frame t step positive chunk ends => ignored_step positive chunk ends step,
    fun payload nw t pc short step => short_step pc short step,
    fun stopped later t hrest => stopped_run stopped hrest⟩
  have accounts := accounts_run (accounts_start host size proto) hrun
  rwa [List.nil_append] at accounts

/-- A chunk of two bytes, then a command, then the same chunk with only one byte written. -/
def shortWrite : List ServerEvent :=
  let chunk := appFrame .big msgTypeFileChunk [7, 8] 0
  let command := appFrame .big msgTypeCommand [1] 0
  [.load, .recv chunk.length chunk, .fwrite 2, .load, .recv command.length command, .load,
    .recv chunk.length chunk, .fwrite 1]

/-- The loop ends there, with one byte more in the file than it has counted. -/
theorem recv_loop_invariant_short :
    ∃ s, (loop .little .bits32).run (start .udp) shortWrite = some s ∧ s.pc = .stopped ∧
      s.out = [7, 8, 7] ∧ s.bytesWritten = 2 ∧
      s.Accounts .little .bits32 (received shortWrite) := by
  have hrun : (loop .little .bits32).run (start .udp) shortWrite =
      some ⟨.stopped, .udp, false, false, [7, 8, 7], 2⟩ := by decide +kernel
  exact ⟨_, hrun, rfl, rfl, rfl, (recv_loop_invariant hrun).1⟩

end Server

end OmniSocket
