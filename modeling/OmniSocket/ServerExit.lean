/-
# What the server leaves behind

The receive thread writes through a buffer, so what it has written is in the file only
once the buffer has been emptied. What `main` closes it closes after the thread has ended,
and by then the file has everything. Unless it reads commands, `main` only stops when
the thread has said that the transfer is done, or has left its loop.
-/

import OmniSocket.ProgramLifetimes

set_option autoImplicit false

namespace OmniSocket

open Lib

namespace Server

variable {host : Endian} {size : SizeT} {s t : Server} {event : ServerEvent}

/-- What an action adds, and when the end of the file has been seen. -/
structure Grows (host : Endian) (size : SizeT) (s : Server) (event : ServerEvent) (t : Server) :
    Prop where
  out : s.out <+: t.out
  done : s.transferDone = true → t.transferDone = true
  marked : t.transferDone = true → s.transferDone = true ∨ flushes host size event = true
  stopped : s.pc = .stopped → t.pc = .stopped
  running : t.running = false → s.running = false ∨ t.pc = .stopped ∨ event = .mainExit

theorem grows_handle (s : Server) (hdr : MsgHeader) (payload : List UInt8) :
    (s.handle hdr payload).out = s.out ∧ (s.handle hdr payload).running = s.running ∧
      ((s.handle hdr payload).transferDone = true ↔
        s.transferDone = true ∨ hdr.type = msgTypeFileEnd) := by
  unfold handle
  split_ifs with chunk last
  · refine ⟨rfl, rfl, (or_iff_left ?_).symm⟩
    rw [chunk]
    decide
  · simp [last]
  · exact ⟨rfl, rfl, (or_iff_left last).symm⟩

theorem grows_step (step : s.step host size event = some t) : Grows host size s event t := by
  cases event with
  | load =>
    simp only [Server.step] at step
    split at step
    case h_1 pc =>
      obtain rfl := Option.some.inj step
      cases s.running
      · exact ⟨List.prefix_rfl, id, .inl, fun _ => rfl, fun _ => .inr (.inl rfl)⟩
      · refine ⟨List.prefix_rfl, id, .inl, fun stopped => ?_, fun after => ?_⟩
        · exact absurd (pc.symm.trans stopped) (by decide)
        · exact absurd after.symm Bool.false_ne_true
    case h_2 => exact absurd step (by simp)
  | recv n frame =>
    simp only [Server.step] at step
    split at step
    case h_1 pc =>
      obtain rfl := Option.some.inj step
      have inside : s.pc ≠ .stopped := by rw [pc]; decide
      unfold afterRecv
      split_ifs with negative zero tcp
      · exact ⟨List.prefix_rfl, id, .inl, fun _ => rfl, fun _ => .inr (.inl rfl)⟩
      · exact ⟨List.prefix_rfl, id, .inl, fun _ => rfl, fun _ => .inr (.inl rfl)⟩
      · exact ⟨List.prefix_rfl, id, .inl, fun stopped => absurd stopped inside, .inl⟩
      · split
        case h_1 => exact ⟨List.prefix_rfl, id, .inl, fun stopped => absurd stopped inside, .inl⟩
        case h_2 hdr payload decoded =>
          obtain ⟨out, running, done⟩ := grows_handle s hdr payload
          refine ⟨out ▸ List.prefix_rfl, fun before => done.mpr (.inl before), fun after => ?_,
            fun stopped => absurd stopped inside, fun after => .inl (running ▸ after)⟩
          refine (done.mp after).imp_right fun last => ?_
          have positive : ¬ n ≤ 0 := by omega
          simp only [flushes, if_neg positive, decoded, last, decide_true]
    case h_2 => exact absurd step (by simp)
  | fwrite nw =>
    simp only [Server.step] at step
    split at step
    case h_1 payload pc =>
      obtain ⟨-, next⟩ := Option.ite_none_right_eq_some.mp step
      obtain rfl := Option.some.inj next
      unfold afterWrite
      split_ifs
      · exact ⟨List.prefix_append _ _, id, .inl, fun _ => rfl, fun _ => .inr (.inl rfl)⟩
      · refine ⟨List.prefix_append _ _, id, .inl, fun stopped => ?_, .inl⟩
        exact absurd (pc.symm.trans stopped) ServerPc.noConfusion
    case h_2 => exact absurd step (by simp)
  | mainExit =>
    obtain rfl := Option.some.inj step
    exact ⟨List.prefix_rfl, id, .inl, id, fun _ => .inr (.inr rfl)⟩

end Server

/-! ## The whole process -/

namespace ServerMainPc

/-- `main` has not cleared `running`. -/
def untold : ServerMainPc → Bool
  | .cancel | .join | .closeContext | .closeFile | .returned _ => false
  | _ => true

/-- Behind the loops. -/
def leaving : ServerMainPc → Bool
  | .stop | .cancel | .join | .closeContext | .closeFile => true
  | .returned status => status == 0
  | _ => false

end ServerMainPc

namespace ServerMain

variable {host : Endian} {size : SizeT} {s t : ServerMain}

/-- There is a reason to leave the loop that waits. -/
def Finished (s : ServerMain) : Prop := s.rt.transferDone = true ∨ s.rt.pc = .stopped

/-- What is in the file, and why `main` is where it is. -/
structure Orderly (s : ServerMain) : Prop where
  phased : s.Phased
  disk : s.disk <+: s.rt.out
  keeps : s.pc.untold = true → s.rt.running = false → s.rt.pc = .stopped
  reads : s.pc = .console → s.interactive = true
  leaves : s.pc.leaving = true → s.interactive = true ∨ s.Finished
  closed : s.pc = .returned 0 → s.flushFailed = false → s.disk = s.rt.out

/-- `main` goes on and the file stays as it is. -/
theorem Orderly.move (orderly : s.Orderly) (phased : t.Phased)
    (rt : t.rt.out = s.rt.out ∧ t.rt.transferDone = s.rt.transferDone ∧ t.rt.pc = s.rt.pc)
    (same : t.disk = s.disk ∧ t.interactive = s.interactive)
    (keeps : t.pc.untold = true → t.rt.running = false → s.rt.pc = .stopped)
    (leaves : t.pc.leaving = true → s.interactive = true ∨ s.Finished)
    (before : t.pc ≠ .returned 0) (outside : t.pc ≠ .console) : t.Orderly := by
  obtain ⟨out, done, pc⟩ := rt
  refine ⟨phased, ?_, ?_, fun reads => absurd reads outside, ?_,
    fun returned => absurd returned before⟩
  · rw [same.1, out]
    exact orderly.disk
  · exact fun untold stopped => pc.trans (keeps untold stopped)
  · intro leaving
    unfold Finished
    rw [same.2, done, pc]
    exact leaves leaving

theorem orderly_main (orderly : s.Orderly) (step : s.mainStep = some t) : t.Orderly := by
  have phased := (@tells_main .little .bits64 s t orderly.phased step).1
  have keeps := orderly.keeps
  have leaves := orderly.leaves
  unfold mainStep at step
  split at step
  case h_9 => exact absurd step (by simp)
  case h_7 pc =>
    obtain ⟨-, next⟩ := Option.ite_none_right_eq_some.mp step
    obtain rfl := Option.some.inj next
    rw [pc] at leaves
    exact orderly.move phased ⟨rfl, rfl, rfl⟩ ⟨rfl, rfl⟩ (fun no => absurd no Bool.false_ne_true)
      (fun _ => leaves rfl) ServerMainPc.noConfusion ServerMainPc.noConfusion
  all_goals
    rename_i pc
    obtain rfl := Option.some.inj step
    rw [pc] at keeps leaves
  case h_1 =>
    exact orderly.move phased ⟨rfl, rfl, rfl⟩ ⟨rfl, rfl⟩ (fun _ => keeps rfl)
      (fun no => absurd no Bool.false_ne_true) ServerMainPc.noConfusion ServerMainPc.noConfusion
  case h_2 =>
    cases running : s.rt.running
    · -- only the thread has cleared the flag by now
      have stopped := keeps rfl running
      exact orderly.move (running ▸ phased) ⟨rfl, rfl, rfl⟩ ⟨rfl, rfl⟩ (fun _ _ => stopped)
        (fun _ => .inr (.inr stopped)) ServerMainPc.noConfusion ServerMainPc.noConfusion
    · exact orderly.move (running ▸ phased) ⟨rfl, rfl, rfl⟩ ⟨rfl, rfl⟩ (fun _ => keeps rfl)
        (fun no => absurd no Bool.false_ne_true) ServerMainPc.noConfusion ServerMainPc.noConfusion
  case h_3 =>
    cases done : s.rt.transferDone
    · exact orderly.move (done ▸ phased) ⟨rfl, rfl, rfl⟩ ⟨rfl, rfl⟩ (fun _ => keeps rfl)
        (fun no => absurd no Bool.false_ne_true) ServerMainPc.noConfusion ServerMainPc.noConfusion
    · exact orderly.move (done ▸ phased) ⟨rfl, rfl, rfl⟩ ⟨rfl, rfl⟩ (fun _ => keeps rfl)
        (fun _ => .inr (.inl done)) ServerMainPc.noConfusion ServerMainPc.noConfusion
  case h_4 =>
    exact orderly.move phased ⟨rfl, rfl, rfl⟩ ⟨rfl, rfl⟩ (fun _ => keeps rfl)
      (fun no => absurd no Bool.false_ne_true) ServerMainPc.noConfusion ServerMainPc.noConfusion
  case h_5 | h_6 | h_8 =>
    exact orderly.move phased ⟨rfl, rfl, rfl⟩ ⟨rfl, rfl⟩ (fun no => absurd no Bool.false_ne_true)
      (fun _ => leaves rfl) ServerMainPc.noConfusion ServerMainPc.noConfusion

/-- What the receive thread adds, and what it has flushed. -/
theorem orderly_thread {event : ServerEvent} {flushed : Bool} (orderly : s.Orderly)
    (step : s.threadStep host size event flushed = some t) : t.Orderly := by
  have phased := (tells_thread orderly.phased step).1
  obtain ⟨⟨started, own⟩, next⟩ := Option.ite_none_right_eq_some.mp step
  obtain ⟨rt, rtstep, rfl⟩ := Option.map_eq_some_iff.mp next
  have grows := Server.grows_step rtstep
  have inside : s.rt.pc ≠ .stopped := fun stopped =>
    own (Server.stopped_step_eq stopped rtstep).1
  have threaded := orderly.phased.alive started inside
  -- whether or not the buffer is emptied, the rest is the same
  have parts : ∀ u : ServerMain, u.Phased → u.rt = rt → u.pc = s.pc →
      u.interactive = s.interactive → u.disk <+: rt.out → u.Orderly := by
    rintro u uphased rfl pc interactive disk
    refine ⟨uphased, disk, ?_, fun reads => interactive ▸ orderly.reads (pc ▸ reads), ?_, ?_⟩
    · intro untold stopped
      rw [pc] at untold
      rcases grows.running stopped with before | now | exit
      · exact grows.stopped (orderly.keeps untold before)
      · exact now
      · exact absurd exit own
    · intro leaving
      rw [pc] at leaving
      rw [interactive]
      exact (orderly.leaves leaving).imp_right (Or.imp grows.done grows.stopped)
    · intro returned
      rw [← pc, returned] at threaded
      exact absurd threaded Bool.false_ne_true
  have disk := orderly.disk.trans grows.out
  revert phased
  unfold flush
  split_ifs with flushes written
  · exact fun phased => parts _ phased rfl rfl rfl List.prefix_rfl
  · exact fun phased => parts _ phased rfl rfl rfl disk
  · exact fun phased => parts _ phased rfl rfl rfl disk

/-- Every action leaves the process orderly. -/
theorem orderly_step {label : ServerMainLabel} (orderly : s.Orderly)
    (step : s.step host size label = some t) : t.Orderly := by
  have phased := (tells_step orderly.phased step).1
  have keeps := orderly.keeps
  have leaves := orderly.leaves
  cases label with
  | fopen ok =>
    simp only [ServerMain.step] at step
    split at step
    case h_1 pc =>
      obtain rfl := Option.some.inj step
      rw [pc] at keeps
      cases ok
      · exact orderly.move phased ⟨rfl, rfl, rfl⟩ ⟨rfl, rfl⟩
          (fun no => absurd no Bool.false_ne_true) (fun no => absurd no Bool.false_ne_true)
          (by simp) ServerMainPc.noConfusion
      · exact orderly.move phased ⟨rfl, rfl, rfl⟩ ⟨rfl, rfl⟩ (fun _ => keeps rfl)
          (fun no => absurd no Bool.false_ne_true) ServerMainPc.noConfusion ServerMainPc.noConfusion
    case h_2 => exact absurd step (by simp)
  | omniInit ok =>
    simp only [ServerMain.step] at step
    split at step
    case h_1 pc =>
      obtain rfl := Option.some.inj step
      rw [pc] at keeps
      cases ok <;> exact orderly.move phased ⟨rfl, rfl, rfl⟩ ⟨rfl, rfl⟩ (fun _ => keeps rfl)
        (fun no => absurd no Bool.false_ne_true) ServerMainPc.noConfusion ServerMainPc.noConfusion
    case h_2 => exact absurd step (by simp)
  | create ok interactive =>
    simp only [ServerMain.step] at step
    split at step
    case h_1 pc =>
      rw [pc] at keeps
      cases ok
      · obtain rfl := Option.some.inj step
        exact orderly.move phased ⟨rfl, rfl, rfl⟩ ⟨rfl, rfl⟩ (fun _ => keeps rfl)
          (fun no => absurd no Bool.false_ne_true) ServerMainPc.noConfusion ServerMainPc.noConfusion
      · cases interactive <;> obtain rfl := Option.some.inj step
        · exact ⟨phased, orderly.disk, fun _ => keeps rfl, ServerMainPc.noConfusion,
            fun no => absurd no Bool.false_ne_true, ServerMainPc.noConfusion⟩
        · exact ⟨phased, orderly.disk, fun _ => keeps rfl, fun _ => rfl,
            fun no => absurd no Bool.false_ne_true, ServerMainPc.noConfusion⟩
    case h_2 => exact absurd step (by simp)
  | console event =>
    obtain ⟨⟨pc, -⟩, next⟩ := Option.ite_none_right_eq_some.mp step
    obtain ⟨c, -, rfl⟩ := Option.map_eq_some_iff.mp next
    rw [pc] at keeps
    have reads := orderly.reads pc
    by_cases over' : c.pc = .done
    · simp only [if_pos over'] at phased ⊢
      exact ⟨phased, orderly.disk, fun _ => keeps rfl, ServerMainPc.noConfusion,
        fun _ => .inl reads, ServerMainPc.noConfusion⟩
    · simp only [if_neg over'] at phased ⊢
      exact ⟨phased, orderly.disk, fun _ => keeps rfl, fun _ => reads,
        fun no => absurd no Bool.false_ne_true, ServerMainPc.noConfusion⟩
  | main => exact orderly_main orderly step
  | fclose flushed =>
    simp only [ServerMain.step] at step
    -- what `fclose` does to the file, whichever it is
    have same : (s.flush flushed).rt = s.rt ∧ (s.flush flushed).interactive = s.interactive ∧
        (s.flush flushed).disk <+: s.rt.out ∧
        ((s.flush flushed).flushFailed = false → (s.flush flushed).disk = s.rt.out) := by
      unfold flush
      split
      · exact ⟨rfl, rfl, List.prefix_rfl, fun _ => rfl⟩
      · exact ⟨rfl, rfl, orderly.disk, fun failed => absurd failed.symm Bool.false_ne_true⟩
    obtain ⟨rt, interactive, disk, all⟩ := same
    split at step
    case h_1 pc | h_2 pc =>
      obtain rfl := Option.some.inj step
      refine ⟨phased, ?_, fun no => absurd no Bool.false_ne_true, ServerMainPc.noConfusion,
        fun no => absurd no Bool.false_ne_true, fun returned => ?_⟩
      · exact rt.symm ▸ disk
      · exact absurd (ServerMainPc.returned.inj returned) (by decide)
    case h_3 pc =>
      obtain rfl := Option.some.inj step
      rw [pc] at leaves
      refine ⟨phased, rt.symm ▸ disk, fun no => absurd no Bool.false_ne_true,
        ServerMainPc.noConfusion, fun _ => ?_, fun _ written => rt.symm ▸ all written⟩
      simp only [Finished, interactive, rt]
      exact leaves rfl
    case h_4 => exact absurd step (by simp)
  | thread event flushed => exact orderly_thread orderly step
  | cancelled nw =>
    obtain ⟨⟨started, pc, running, -⟩, next⟩ := Option.ite_none_right_eq_some.mp step
    obtain rfl := Option.some.inj next
    refine ⟨phased, orderly.disk.trans (List.prefix_append _ _), keeps, orderly.reads, leaves,
      fun returned => ?_⟩
    exact absurd (pc.symm.trans returned) ServerMainPc.noConfusion
  | writeBack n =>
    obtain ⟨⟨present, running, fits⟩, next⟩ := Option.ite_none_right_eq_some.mp step
    obtain rfl := Option.some.inj next
    refine ⟨phased, List.take_prefix _ _, keeps, orderly.reads, leaves, fun returned => ?_⟩
    simp only at returned
    rw [returned] at running
    exact absurd running.symm Bool.false_ne_true

theorem orderly_start (size : SizeT) (options : ServerOptions) (input : List UInt8) :
    (start size options input).Orderly := by
  have phased := (phased_start size options input).1
  revert phased
  unfold start
  split
  · exact fun phased => ⟨phased, List.prefix_rfl, fun _ no => absurd no.symm Bool.false_ne_true,
      ServerMainPc.noConfusion, fun no => absurd no Bool.false_ne_true, ServerMainPc.noConfusion⟩
  · exact fun phased => ⟨phased, List.prefix_rfl, fun _ no => absurd no.symm Bool.false_ne_true,
      ServerMainPc.noConfusion, fun no => absurd no Bool.false_ne_true, fun _ _ => rfl⟩

/-! ### What is in the file at the end of the transfer -/

/-- As long as no `fflush` fails, the mark is set only behind one, and the file only grows. -/
structure Writes (s t : ServerMain) : Prop where
  failed : t.flushFailed = false → s.flushFailed = false
  marked : t.flushFailed = false → t.rt.transferDone = true →
    t.disk = t.rt.out ∨ s.rt.transferDone = true ∧ s.disk <+: t.disk

theorem writes_of_same (failed : t.flushFailed = s.flushFailed) (disk : s.disk <+: t.disk)
    (done : t.rt.transferDone = s.rt.transferDone) : s.Writes t :=
  ⟨fun written => failed ▸ written, fun _ after => .inr ⟨done ▸ after, disk⟩⟩

theorem writes_flush (flushed : Bool) : s.Writes (s.flush flushed) := by
  unfold flush
  split
  · exact ⟨id, fun _ _ => .inl rfl⟩
  · exact ⟨fun written => absurd written.symm Bool.false_ne_true,
      fun written => absurd written.symm Bool.false_ne_true⟩

theorem writes_step {label : ServerMainLabel} (orderly : s.Orderly)
    (step : s.step host size label = some t) : s.Writes t := by
  cases label with
  | fopen ok | omniInit ok =>
    simp only [ServerMain.step] at step
    split at step
    case h_1 =>
      obtain rfl := Option.some.inj step
      exact writes_of_same rfl List.prefix_rfl rfl
    case h_2 => exact absurd step (by simp)
  | create ok interactive =>
    simp only [ServerMain.step] at step
    split at step
    case h_1 =>
      obtain rfl := Option.some.inj step
      cases ok <;> exact writes_of_same rfl List.prefix_rfl rfl
    case h_2 => exact absurd step (by simp)
  | console event =>
    obtain ⟨-, next⟩ := Option.ite_none_right_eq_some.mp step
    obtain ⟨c, -, rfl⟩ := Option.map_eq_some_iff.mp next
    exact writes_of_same rfl List.prefix_rfl rfl
  | main =>
    simp only [ServerMain.step, mainStep] at step
    split at step
    case h_7 =>
      obtain ⟨-, next⟩ := Option.ite_none_right_eq_some.mp step
      obtain rfl := Option.some.inj next
      exact writes_of_same rfl List.prefix_rfl rfl
    case h_9 => exact absurd step (by simp)
    all_goals
      obtain rfl := Option.some.inj step
      exact writes_of_same rfl List.prefix_rfl rfl
  | fclose flushed =>
    have flush := writes_flush (s := s) flushed
    simp only [ServerMain.step] at step
    split at step
    case h_4 => exact absurd step (by simp)
    all_goals
      obtain rfl := Option.some.inj step
      exact ⟨flush.failed, flush.marked⟩
  | thread event flushed =>
    obtain ⟨-, next⟩ := Option.ite_none_right_eq_some.mp step
    obtain ⟨rt, rtstep, rfl⟩ := Option.map_eq_some_iff.mp next
    split_ifs with flushes
    · unfold ServerMain.flush
      split_ifs with written
      · exact ⟨id, fun _ _ => .inl rfl⟩
      · exact ⟨fun written => absurd written.symm Bool.false_ne_true,
          fun written => absurd written.symm Bool.false_ne_true⟩
    · refine ⟨id, fun _ after => .inr ⟨?_, List.prefix_rfl⟩⟩
      exact ((Server.grows_step rtstep).marked after).resolve_right flushes
  | cancelled nw =>
    obtain ⟨-, next⟩ := Option.ite_none_right_eq_some.mp step
    obtain rfl := Option.some.inj next
    exact writes_of_same rfl List.prefix_rfl rfl
  | writeBack n =>
    obtain ⟨-, next⟩ := Option.ite_none_right_eq_some.mp step
    obtain rfl := Option.some.inj next
    refine writes_of_same rfl ?_ rfl
    exact List.prefix_of_prefix_length_le orderly.disk (List.take_prefix _ _) (by
      have fits := orderly.disk.length_le
      rw [List.length_take]
      omega)

end ServerMain

end OmniSocket
