/-
# What the programs open and close

Each program says with every action what it opens, uses and closes. What is open at a
moment depends on where `main` stands, and a receive thread that has not ended makes sure
that `main` is between its start and its end. So every run, with the threads in any
order and whatever fails, keeps all uses within the lifetimes, and leaves nothing open.
-/

import OmniSocket.App.ServerMain
import OmniSocket.App.ClientMain

set_option autoImplicit false

namespace OmniSocket

open Lib ProgramThing

/-! ## The server -/

namespace ServerMainPc

/-- There is a receive thread that has not been joined. -/
def threaded : ServerMainPc → Bool
  | .console | .waitRunning | .waitDone | .sleeping | .stop | .cancel | .join => true
  | _ => false

/-- `pthread_create` is behind. -/
def pastCreate : ServerMainPc → Bool
  | .closeContext | .closeFile | .returned _ => true
  | pc => pc.threaded

/-- What is open, apart from a frame. -/
def held : ServerMainPc → Finset ProgramThing
  | .openFile | .returned _ => ∅
  | .init | .closeUnused => {file}
  | .create | .abortContext | .closeContext => {file, context, runtime}
  | .abortFile | .closeFile => {file, runtime}
  | _ => {file, context, runtime, thread}

theorem held_of_threaded {pc : ServerMainPc} (threaded : pc.threaded = true) :
    pc.held = {file, context, runtime, thread} := by
  cases pc <;> first | rfl | exact absurd threaded Bool.false_ne_true

theorem pastCreate_of_threaded {pc : ServerMainPc} (threaded : pc.threaded = true) :
    pc.pastCreate = true := by
  cases pc <;> first | rfl | exact absurd threaded Bool.false_ne_true

theorem file_mem_held {pc : ServerMainPc} (created : pc.pastCreate = true)
    (running : pc.isReturned = false) : file ∈ pc.held := by
  cases pc <;> first
    | exact absurd created Bool.false_ne_true
    | exact absurd running.symm Bool.false_ne_true
    | decide

/-- `main` may go from one point to another, and meanwhile do this with the things. -/
def Passes (pc : ServerMainPc) (uses : List (Use ProgramThing)) (pc' : ServerMainPc) : Prop :=
  pc ≠ .console ∧ pc' ≠ .console ∧ (pc.pastCreate = true → pc'.pastCreate = true) ∧
    (pc.threaded = true → pc'.threaded = true) ∧ lifetimes.run pc.held uses = some pc'.held

instance (pc : ServerMainPc) (uses : List (Use ProgramThing)) (pc' : ServerMainPc) :
    Decidable (pc.Passes uses pc') :=
  inferInstanceAs (Decidable (_ ∧ _ ∧ (_ → _) ∧ (_ → _) ∧ _))

end ServerMainPc

/-- The frame of `send_app_message`, while it is there. -/
def ConsolePc.frames : ConsolePc → Finset ProgramThing
  | .sending _ => {frame}
  | _ => ∅

namespace ServerMain

variable {host : Endian} {size : SizeT} {s t : ServerMain}

/-- What is open. -/
def held (s : ServerMain) : Finset ProgramThing := s.pc.held ∪ s.console.pc.frames

/-- Where the receive thread is and where it can still move. Only in the command loop there
may be a frame. -/
structure Phased (s : ServerMain) : Prop where
  created : s.thread ≠ .absent → s.pc.pastCreate = true
  alive : s.thread = .started → s.rt.pc ≠ .stopped → s.pc.threaded = true
  idle : s.pc ≠ .console → s.console.pc.frames = ∅

theorem Phased.held_eq (phased : s.Phased) (other : s.pc ≠ .console) : s.held = s.pc.held := by
  rw [held, phased.idle other, Finset.union_empty]

/-- As long as there is a thread, what it works with is open. -/
theorem subset_held (threaded : s.pc.threaded = true) :
    {file, context, runtime, ProgramThing.thread} ⊆ s.held :=
  (ServerMainPc.held_of_threaded threaded).symm.subset.trans Finset.subset_union_left

/-- Uses by the receive thread are uses of what is open. -/
theorem uses_accepted (things : List ProgramThing) (threaded : s.pc.threaded = true)
    (all : ∀ a ∈ things, a ∈ ({file, context, runtime} : Finset ProgramThing)) :
    lifetimes.run s.held (things.map .uses) = some s.held := by
  refine run_uses things fun a member => subset_held threaded ?_
  have among := all a member
  revert among
  cases a <;> decide

/-! ### What a step does to the things -/

/-- `main` goes on and the thread stays where it is. -/
theorem advance (uses : List (Use ProgramThing)) (pc' : ServerMainPc) {pc : ServerMainPc}
    (phased : s.Phased) (before : s.pc = pc) (after : t.pc = pc') (thread : t.thread = s.thread)
    (rt : t.rt.pc = s.rt.pc) (console : t.console = s.console) (passes : pc.Passes uses pc') :
    t.Phased ∧ lifetimes.run s.held uses = some t.held := by
  subst before after
  obtain ⟨outside, outside', created, alive, accepted⟩ := passes
  have phased' : t.Phased := by
    refine ⟨fun there => created (phased.created (thread ▸ there)), fun started running => ?_,
      fun _ => console ▸ phased.idle outside⟩
    exact alive (phased.alive (thread ▸ started) (rt ▸ running))
  rw [phased.held_eq outside, phased'.held_eq outside', accepted]
  exact ⟨phased', rfl⟩

/-- The actions that nothing is decided in. -/
theorem tells_main (phased : s.Phased) (step : s.mainStep = some t) :
    t.Phased ∧ lifetimes.run s.held (s.tells host size .main) = some t.held := by
  unfold mainStep at step
  split at step
  case h_9 => exact absurd step (by simp)
  case h_7 pc =>
    obtain ⟨ended, next⟩ := Option.ite_none_right_eq_some.mp step
    obtain rfl := Option.some.inj next
    simp only [tells, pc]
    have idle := phased.idle (by rw [pc]; decide)
    refine ⟨⟨fun _ => rfl, fun started running => ?_, fun _ => idle⟩, ?_⟩
    · rcases ended with gone | stopped
      · exact absurd (gone.symm.trans started) (by decide)
      · exact absurd stopped running
    · rw [held, held, idle, pc]
      rfl
  all_goals
    rename_i pc
    obtain rfl := Option.some.inj step
    simp only [tells, pc]
  case h_1 => exact advance _ .abortFile phased pc rfl rfl rfl rfl (by decide)
  case h_2 =>
    cases s.rt.running
    · exact advance _ .stop phased pc rfl rfl rfl rfl (by decide)
    · exact advance _ .waitDone phased pc rfl rfl rfl rfl (by decide)
  case h_3 =>
    cases s.rt.transferDone
    · exact advance _ .sleeping phased pc rfl rfl rfl rfl (by decide)
    · exact advance _ .stop phased pc rfl rfl rfl rfl (by decide)
  case h_4 => exact advance _ .waitRunning phased pc rfl rfl rfl rfl (by decide)
  case h_5 => exact advance _ .cancel phased pc rfl rfl rfl rfl (by decide)
  case h_6 => exact advance _ .join phased pc rfl rfl rfl rfl (by decide)
  case h_8 => exact advance _ .closeFile phased pc rfl rfl rfl rfl (by decide)

/-- What an action of the command loop does to the frame. -/
theorem frames_consoleStep (size : SizeT) (s : ServerMain) {c c' : Console} {event : ConsoleEvent}
    (step : c.step host event = some c') :
    lifetimes.run (ServerMainPc.console.held ∪ c.pc.frames)
        (s.tells host size (.console event)) =
      some (ServerMainPc.console.held ∪ c'.pc.frames) := by
  cases event with
  | load =>
    simp only [Console.step] at step
    split at step
    case h_1 pc =>
      obtain rfl := Option.some.inj step
      rw [pc]
      cases c.running <;> rfl
    case h_2 => exact absurd step (by simp)
  | fgets =>
    simp only [Console.step] at step
    split at step
    case h_1 pc =>
      split at step
      case h_1 =>
        obtain rfl := Option.some.inj step
        rw [pc]
        rfl
      case h_2 piece rest call =>
        obtain rfl := Option.some.inj step
        rw [pc]
        unfold Console.afterLine
        split_ifs <;> rfl
    case h_2 => exact absurd step (by simp)
  | malloc ok now =>
    simp only [Console.step] at step
    split at step
    case h_1 line pc =>
      obtain rfl := Option.some.inj step
      rw [pc]
      cases ok
      · rfl
      · show lifetimes.run (ServerMainPc.console.held ∪ ∅) [.opens frame] =
          some (ServerMainPc.console.held ∪ {frame})
        decide
    case h_2 => exact absurd step (by simp)
  | sent n =>
    simp only [Console.step] at step
    split at step
    case h_1 f pc =>
      obtain rfl := Option.some.inj step
      rw [pc]
      unfold Console.afterSend
      split_ifs <;> rfl
    case h_2 => exact absurd step (by simp)
  | recvThreadExit =>
    obtain rfl := Option.some.inj step
    rfl

/-- The command loop, which alone has a frame. -/
theorem tells_console {event : ConsoleEvent} (step : s.consoleStep host event = some t) :
    t.Phased ∧ lifetimes.run s.held (s.tells host size (.console event)) = some t.held := by
  obtain ⟨⟨pc, outside⟩, next⟩ := Option.ite_none_right_eq_some.mp step
  obtain ⟨c, cstep, rfl⟩ := Option.map_eq_some_iff.mp next
  have frames := frames_consoleStep size s cstep
  have before : s.held = ServerMainPc.console.held ∪ s.console.pc.frames := by rw [held, pc]
  rw [before]
  by_cases over' : c.pc = .done
  · simp only [if_pos over']
    rw [over'] at frames
    exact ⟨⟨fun _ => rfl, fun _ _ => rfl, fun _ => by rw [over']; rfl⟩,
      by rw [frames, held, over']; rfl⟩
  · simp only [if_neg over']
    exact ⟨⟨fun _ => rfl, fun _ _ => rfl, fun outside => absurd rfl outside⟩, frames⟩

/-- Neither the control point of `main` nor its command loop matters to the thread. -/
theorem Phased.keep (phased : s.Phased) (threaded : s.pc.threaded = true) (pc : t.pc = s.pc)
    (console : t.console = s.console) : t.Phased ∧ t.held = s.held :=
  ⟨⟨fun _ => pc ▸ ServerMainPc.pastCreate_of_threaded threaded, fun _ _ => pc ▸ threaded,
    fun outside => console ▸ phased.idle (pc ▸ outside)⟩, by rw [held, held, pc, console]⟩

/-- The receive thread, which is there only while everything it works with is open. -/
theorem tells_thread {event : ServerEvent} {flushed : Bool} (phased : s.Phased)
    (step : s.threadStep host size event flushed = some t) :
    t.Phased ∧ lifetimes.run s.held (s.tells host size (.thread event flushed)) = some t.held := by
  obtain ⟨⟨started, own⟩, next⟩ := Option.ite_none_right_eq_some.mp step
  obtain ⟨rt, rtstep, rfl⟩ := Option.map_eq_some_iff.mp next
  have running : s.rt.pc ≠ .stopped := fun stopped =>
    own (Server.stopped_step_eq stopped rtstep).1
  have threaded := phased.alive started running
  have points : ∀ u : ServerMain, u = (if Server.flushes host size event then
      { s with rt := rt }.flush flushed else { s with rt := rt }) →
      u.pc = s.pc ∧ u.console = s.console := by
    rintro u rfl
    unfold flush
    split_ifs <;> exact ⟨rfl, rfl⟩
  obtain ⟨pc, console⟩ := points _ rfl
  obtain ⟨phased', held'⟩ := phased.keep threaded pc console
  refine ⟨phased', ?_⟩
  rw [held']
  cases event with
  | load => exact uses_accepted [runtime, context] threaded (by decide)
  | recv n frame =>
    by_cases flushes : Server.flushes host size (.recv n frame)
    · simp only [tells, if_pos flushes]
      exact uses_accepted [runtime, context, file] threaded (by decide)
    · simp only [tells, if_neg flushes]
      exact uses_accepted [runtime, context] threaded (by decide)
  | fwrite nw => exact uses_accepted [runtime, file] threaded (by decide)
  | mainExit => exact absurd rfl own

/-- What every action does to the things. -/
theorem tells_step {label : ServerMainLabel} (phased : s.Phased)
    (step : s.step host size label = some t) :
    t.Phased ∧ lifetimes.run s.held (s.tells host size label) = some t.held := by
  cases label with
  | fopen ok =>
    simp only [ServerMain.step] at step
    split at step
    case h_1 pc =>
      obtain rfl := Option.some.inj step
      cases ok
      · exact advance [] (.returned 1) phased pc rfl rfl rfl rfl (by decide)
      · exact advance [.opens file] .init phased pc rfl rfl rfl rfl (by decide)
    case h_2 => exact absurd step (by simp)
  | omniInit ok =>
    simp only [ServerMain.step] at step
    split at step
    case h_1 pc =>
      obtain rfl := Option.some.inj step
      cases ok
      · exact advance [] .closeUnused phased pc rfl rfl rfl rfl (by decide)
      · exact advance [.opens context, .opens runtime] .create phased pc rfl rfl rfl rfl (by decide)
    case h_2 => exact absurd step (by simp)
  | create ok interactive =>
    simp only [ServerMain.step] at step
    split at step
    case h_1 pc =>
      cases ok
      · obtain rfl := Option.some.inj step
        exact advance [] .abortContext phased pc rfl rfl rfl rfl (by decide)
      · have outside : s.pc ≠ .console := by rw [pc]; decide
        have idle := phased.idle outside
        have opened : lifetimes.run s.held [.opens ProgramThing.thread] =
            some (ServerMainPc.console.held ∪ s.console.pc.frames) := by
          rw [phased.held_eq outside, idle, pc]
          decide
        cases interactive <;> obtain rfl := Option.some.inj step
        · exact ⟨⟨fun _ => rfl, fun _ _ => rfl, fun _ => idle⟩, opened⟩
        · exact ⟨⟨fun _ => rfl, fun _ _ => rfl, fun _ => idle⟩, opened⟩
    case h_2 => exact absurd step (by simp)
  | console event => exact tells_console step
  | main => exact tells_main phased step
  | fclose flushed =>
    simp only [ServerMain.step] at step
    have same : (s.flush flushed).thread = s.thread ∧ (s.flush flushed).rt = s.rt ∧
        (s.flush flushed).console = s.console := by
      unfold flush
      split <;> exact ⟨rfl, rfl, rfl⟩
    split at step
    case h_1 pc | h_2 pc =>
      obtain rfl := Option.some.inj step
      simp only [tells, pc]
      exact advance _ (.returned 1) phased pc rfl same.1 (congrArg _ same.2.1) same.2.2 (by decide)
    case h_3 pc =>
      obtain rfl := Option.some.inj step
      simp only [tells, pc]
      exact advance _ (.returned 0) phased pc rfl same.1 (congrArg _ same.2.1) same.2.2 (by decide)
    case h_4 => exact absurd step (by simp)
  | thread event flushed => exact tells_thread phased step
  | cancelled nw =>
    obtain ⟨⟨started, pc, running, -⟩, next⟩ := Option.ite_none_right_eq_some.mp step
    obtain rfl := Option.some.inj next
    have threaded := phased.alive started running
    obtain ⟨phased', held'⟩ := phased.keep (t := { s with
      thread := .cancelled, rt := { s.rt with out := s.rt.out ++ s.rt.unwritten.take nw } })
      threaded rfl rfl
    refine ⟨phased', held' ▸ ?_⟩
    exact uses_accepted [runtime, context, file] threaded (by decide)
  | writeBack n =>
    obtain ⟨⟨present, running, -⟩, next⟩ := Option.ite_none_right_eq_some.mp step
    obtain rfl := Option.some.inj next
    refine ⟨⟨phased.created, phased.alive, phased.idle⟩, run_uses [file] ?_⟩
    rintro a member
    obtain rfl := List.mem_singleton.mp member
    exact Finset.mem_union_left _ (ServerMainPc.file_mem_held (phased.created present) running)

/-- The process keeps to the monitor. -/
theorem follows_lifetimes (host : Endian) (size : SizeT) :
    (machine host size).Follows (tells host size) lifetimes
      fun s live => s.Phased ∧ live = s.held := by
  rintro s label t live ⟨phased, rfl⟩ step
  obtain ⟨phased', accepted⟩ := tells_step phased step
  exact ⟨t.held, accepted, phased', rfl⟩

theorem phased_start (size : SizeT) (options : ServerOptions) (input : List UInt8) :
    (start size options input).Phased ∧ (start size options input).held = ∅ := by
  unfold start
  split <;> exact ⟨⟨fun there => absurd rfl there, fun started => RecvThread.noConfusion started,
    fun _ => rfl⟩, rfl⟩

/-- What the steps of a run have done to the things. -/
def account (host : Endian) (size : SizeT) (options : ServerOptions) (input : List UInt8)
    (labels : List ServerMainLabel) : List (Use ProgramThing) :=
  (machine host size).told (tells host size) (start size options input) labels

/-- In every run of the server, with its two threads in any order and whatever fails, each
thing is used only while it is open and never opened twice; and when `main` has returned,
everything has been closed exactly as often as it was opened. -/
theorem server_main_lifetimes {options : ServerOptions} {input : List UInt8}
    {labels : List ServerMainLabel}
    (hrun : (machine host size).run (start size options input) labels = some s) :
    ∃ live, lifetimes.run ∅ (account host size options input labels) = some live ∧
      ∀ status, s.pc = .returned status → live = ∅ ∧ ∀ thing,
        (account host size options input labels).count (.closes thing) =
          (account host size options input labels).count (.opens thing) := by
  obtain ⟨phased, empty⟩ := phased_start size options input
  obtain ⟨live, accepted, phased', rfl⟩ :=
    (follows_lifetimes host size).run ⟨phased, empty.symm⟩ hrun
  refine ⟨s.held, accepted, fun status returned => ?_⟩
  have over' : s.held = ∅ := by
    rw [phased'.held_eq (by rw [returned]; exact ServerMainPc.noConfusion), returned]
    rfl
  exact ⟨over', count_closes_of_empty (over' ▸ accepted)⟩

/-- At a terminal `quit` is typed while the receive thread waits for a message. -/
private def quitRun : List ServerMainLabel :=
  [.fopen true, .omniInit true, .create true true, .thread .load false, .console .load,
    .console .fgets, .console (.malloc true 7), .console (.sent 18), .console .load,
    .console .fgets, .main, .main, .cancelled 0, .main, .main, .fclose true]

private def quitOptions : ServerOptions := ⟨some "udp", some (bytesOf "9000"), some "out.bin"⟩

theorem server_main_lifetimes_quit : ∃ s,
    (machine .little .bits64).run
        (start .bits64 quitOptions (bytesOf "go\nquit\n")) quitRun = some s ∧
      s.pc = .returned 0 ∧
      (account .little .bits64 quitOptions (bytesOf "go\nquit\n") quitRun).count
        (.opens frame) = 1 ∧
      ∃ live, lifetimes.run ∅ (account .little .bits64 quitOptions (bytesOf "go\nquit\n") quitRun) =
        some live ∧ ∀ status, s.pc = .returned status → live = ∅ ∧ ∀ thing,
          (account .little .bits64 quitOptions (bytesOf "go\nquit\n") quitRun).count
              (.closes thing) =
            (account .little .bits64 quitOptions (bytesOf "go\nquit\n") quitRun).count
              (.opens thing) := by
  have ends : ∃ s, (machine .little .bits64).run
      (start .bits64 quitOptions (bytesOf "go\nquit\n")) quitRun = some s ∧
        decide (s.pc = .returned 0) = true :=
    (Option.any_eq_true _ _).mp (by decide +kernel)
  obtain ⟨s, hrun, returned⟩ := ends
  exact ⟨s, hrun, of_decide_eq_true returned, by decide +kernel, server_main_lifetimes hrun⟩

end ServerMain

/-! ## The client -/

namespace ClientMainPc

/-- There is a receive thread that has not been joined. -/
def threaded : ClientMainPc → Bool
  | .mallocChunk | .sending | .freeChunk | .closeFile | .waitTest _ | .waitRunning _
  | .waitStop _ | .sleeping _ | .stop _ | .cancel _ | .join _ => true
  | _ => false

/-- What is open, apart from a frame. -/
def held : ClientMainPc → Finset ProgramThing
  | .openFile | .returned _ => ∅
  | .init | .closeUnused => {file}
  | .create | .abortStop | .abortFile | .closeContext false => {file, context, runtime}
  | .abortContext | .closeContext true => {context, runtime}
  | .sending | .freeChunk => {file, context, runtime, thread, chunk}
  | .mallocChunk | .closeFile | .stop false | .cancel false | .join false =>
    {file, context, runtime, thread}
  | .lateFile => {file, runtime}
  | _ => {context, runtime, thread}

theorem subset_held {pc : ClientMainPc} (threaded : pc.threaded = true) :
    {context, runtime, thread} ⊆ pc.held := by
  cases pc with
  | stop ok | cancel ok | join ok => cases ok <;> decide
  | waitTest i | waitRunning i | waitStop i | sleeping i => exact subset_rfl
  | mallocChunk | sending | freeChunk | closeFile => decide
  | _ => exact absurd threaded Bool.false_ne_true

/-- `main` may go from one point to another, and meanwhile do this with the things. -/
structure Passes (pc : ClientMainPc) (uses : List (Use ProgramThing)) (pc' : ClientMainPc) :
    Prop where
  outside : pc ≠ .sending
  outside' : pc' ≠ .sending
  alive : pc.threaded = true → pc'.threaded = true
  accepted : lifetimes.run pc.held uses = some pc'.held

end ClientMainPc

/-- The frame of `send_app_message`, while it is there. -/
def ClientPc.frames : ClientPc → Finset ProgramThing
  | .sending _ _ _ => {frame}
  | _ => ∅

namespace ClientMain

variable {host : Endian} {size : SizeT} {chunkSize : ℕ} {wait : ℤ} {s t : ClientMain}

/-- What is open. -/
def held (s : ClientMain) : Finset ProgramThing := s.pc.held ∪ s.client.pc.frames

/-- Where the receive thread can still move. Only in the send loop there may be a frame. -/
structure Phased (s : ClientMain) : Prop where
  alive : s.thread = .started → s.recv.pc ≠ .stopped → s.pc.threaded = true
  idle : s.pc ≠ .sending → s.client.pc.frames = ∅

theorem Phased.held_eq (phased : s.Phased) (other : s.pc ≠ .sending) : s.held = s.pc.held := by
  rw [held, phased.idle other, Finset.union_empty]

/-- Uses by the receive thread are uses of what is open. -/
theorem uses_accepted (things : List ProgramThing) (threaded : s.pc.threaded = true)
    (all : ∀ a ∈ things, a ∈ ({context, runtime} : Finset ProgramThing)) :
    lifetimes.run s.held (things.map .uses) = some s.held := by
  refine run_uses things fun a member => Finset.mem_union_left _ ?_
  refine ClientMainPc.subset_held threaded ?_
  have among := all a member
  revert among
  cases a <;> decide

/-- `main` goes on and the thread stays where it is. -/
theorem advance (uses : List (Use ProgramThing)) (pc' : ClientMainPc) {pc : ClientMainPc}
    (phased : s.Phased) (before : s.pc = pc) (after : t.pc = pc') (thread : t.thread = s.thread)
    (recv : t.recv = s.recv) (client : t.client.pc = s.client.pc) (passes : pc.Passes uses pc') :
    t.Phased ∧ lifetimes.run s.held uses = some t.held := by
  subst before after
  have phased' : t.Phased := by
    refine ⟨fun started running => ?_, fun _ => client ▸ phased.idle passes.outside⟩
    exact passes.alive (phased.alive (thread ▸ started) (recv ▸ running))
  rw [phased.held_eq passes.outside, phased'.held_eq passes.outside', passes.accepted]
  exact ⟨phased', rfl⟩

/-- The actions that nothing is decided in. -/
theorem tells_main (phased : s.Phased) (step : s.mainStep wait = some t) :
    t.Phased ∧ lifetimes.run s.held (s.tells .main) = some t.held := by
  unfold mainStep at step
  split at step
  case h_16 => exact absurd step (by simp)
  case h_13 ok pc =>
    obtain ⟨ended, next⟩ := Option.ite_none_right_eq_some.mp step
    obtain rfl := Option.some.inj next
    simp only [tells, pc]
    have idle := phased.idle (by rw [pc]; exact ClientMainPc.noConfusion)
    refine ⟨⟨fun started running => ?_, fun _ => idle⟩, ?_⟩
    · rcases ended with gone | stopped
      · exact absurd (gone.symm.trans started) (by decide)
      · exact absurd stopped running
    · rw [held, held, idle, pc]
      cases ok <;> rfl
  all_goals
    rename_i pc
    obtain rfl := Option.some.inj step
    simp only [tells, pc]
  case h_1 => exact advance _ (.returned 1) phased pc rfl rfl rfl rfl ⟨by decide, by simp, id, rfl⟩
  case h_2 => exact advance _ .abortFile phased pc rfl rfl rfl rfl ⟨by decide, by decide, id, rfl⟩
  case h_3 =>
    exact advance _ .abortContext phased pc rfl rfl rfl rfl ⟨by decide, by decide, id, rfl⟩
  case h_4 => exact advance _ (.returned 1) phased pc rfl rfl rfl rfl ⟨by decide, by simp, id, rfl⟩
  case h_5 => exact advance _ .closeFile phased pc rfl rfl rfl rfl ⟨by decide, by decide, id, rfl⟩
  case h_6 =>
    exact advance _ (.waitTest 0) phased pc rfl rfl rfl rfl ⟨by decide, by decide, id, rfl⟩
  case h_7 i =>
    by_cases more : wait < 0 ∨ i < wait
    · exact advance _ (.waitRunning i) phased pc (if_pos more) rfl rfl rfl
        ⟨by simp, by simp, id, rfl⟩
    · exact advance _ (.stop true) phased pc (if_neg more) rfl rfl rfl
        ⟨by simp, by decide, id, rfl⟩
  case h_8 i =>
    cases s.client.running
    · exact advance _ (.stop true) phased pc rfl rfl rfl rfl ⟨by simp, by decide, id, rfl⟩
    · exact advance _ (.waitStop i) phased pc rfl rfl rfl rfl ⟨by simp, by simp, id, rfl⟩
  case h_9 i =>
    cases s.client.gStop
    · exact advance _ (.sleeping i) phased pc rfl rfl rfl rfl ⟨by simp, by simp, id, rfl⟩
    · exact advance _ (.stop true) phased pc rfl rfl rfl rfl ⟨by simp, by decide, id, rfl⟩
  case h_10 i =>
    exact advance _ (.waitTest (i + 1)) phased pc rfl rfl rfl rfl ⟨by simp, by simp, id, rfl⟩
  case h_11 ok =>
    cases ok
    · exact advance _ (.cancel false) phased pc rfl rfl rfl rfl ⟨by decide, by decide, id, rfl⟩
    · exact advance _ (.cancel true) phased pc rfl rfl rfl rfl ⟨by decide, by decide, id, rfl⟩
  case h_12 ok =>
    cases ok
    · exact advance _ (.join false) phased pc rfl rfl rfl rfl ⟨by decide, by decide, id, rfl⟩
    · exact advance _ (.join true) phased pc rfl rfl rfl rfl ⟨by decide, by decide, id, rfl⟩
  case h_14 ok =>
    cases ok
    · exact advance _ .lateFile phased pc rfl rfl rfl rfl ⟨by decide, by decide, id, rfl⟩
    · exact advance _ (.returned 0) phased pc rfl rfl rfl rfl ⟨by decide, by simp, id, rfl⟩
  case h_15 =>
    exact advance _ (.returned 1) phased pc rfl rfl rfl rfl ⟨by decide, by simp, id, rfl⟩

/-- What an action of the send loop does to the frame. -/
theorem frames_sendStep {c c' : Client} {event : ClientEvent}
    (step : c.step host chunkSize event = some c')
    (own : event ≠ .recvThreadExit ∧ event ≠ .signal) :
    lifetimes.run (ClientMainPc.sending.held ∪ c.pc.frames) (tellsSend c event) =
      some (ClientMainPc.sending.held ∪ c'.pc.frames) := by
  cases event with
  | load =>
    simp only [Client.step] at step
    split at step
    case h_1 pc =>
      obtain rfl := Option.some.inj step
      rw [pc]
      cases c.running <;> rfl
    case h_2 pc =>
      obtain rfl := Option.some.inj step
      rw [pc]
      cases c.gStop <;> rfl
    case h_3 pc =>
      obtain rfl := Option.some.inj step
      rw [pc]
      cases c.running <;> rfl
    case h_4 => exact absurd step (by simp)
  | fread nread feof ferror =>
    obtain ⟨⟨pc, -⟩, next⟩ := Option.ite_none_right_eq_some.mp step
    obtain rfl := Option.some.inj next
    rw [pc]
    simp only [tellsSend, Client.afterRead]
    split_ifs <;> rfl
  | malloc ok now =>
    simp only [Client.step] at step
    split at step
    case h_1 type payload pc =>
      obtain rfl := Option.some.inj step
      rw [pc]
      cases ok
      · simp only [tellsSend, pc, Bool.false_eq_true, if_false, Client.afterSend]
        split_ifs <;> rfl
      · simp only [tellsSend, pc, if_true]
        split_ifs
        · show lifetimes.run (ClientMainPc.sending.held ∪ ∅) [.opens frame] =
            some (ClientMainPc.sending.held ∪ {frame})
          decide
        · show lifetimes.run (ClientMainPc.sending.held ∪ ∅) [.opens frame, .uses chunk] =
            some (ClientMainPc.sending.held ∪ {frame})
          decide
    case h_2 => exact absurd step (by simp)
  | sent n =>
    simp only [Client.step] at step
    split at step
    case h_1 type payload f pc =>
      obtain rfl := Option.some.inj step
      rw [pc]
      simp only [tellsSend, pc, Client.afterSend]
      split_ifs <;> rfl
    case h_2 => exact absurd step (by simp)
  | recvThreadExit => exact absurd rfl own.1
  | signal => exact absurd rfl own.2

/-- The send loop, which alone has a frame. -/
theorem tells_send {event : ClientEvent} (step : s.sendStep host chunkSize event = some t) :
    t.Phased ∧ lifetimes.run s.held (s.tells (.send event)) = some t.held := by
  obtain ⟨⟨pc, own⟩, next⟩ := Option.ite_none_right_eq_some.mp step
  obtain ⟨c, cstep, rfl⟩ := Option.map_eq_some_iff.mp next
  have frames := frames_sendStep cstep own
  have before : s.held = ClientMainPc.sending.held ∪ s.client.pc.frames := by rw [held, pc]
  rw [before]
  by_cases over' : c.pc = .done
  · simp only [if_pos over']
    rw [over'] at frames
    exact ⟨⟨fun _ _ => rfl, fun _ => by rw [over']; rfl⟩, by rw [held, over']; exact frames⟩
  · simp only [if_neg over']
    exact ⟨⟨fun _ _ => rfl, fun outside => absurd rfl outside⟩, frames⟩

/-- Neither the control point of `main` nor its frame is changed by anybody else. -/
theorem Phased.keep (phased : s.Phased) (pc : t.pc = s.pc) (client : t.client.pc = s.client.pc)
    (alive : t.thread = .started → t.recv.pc ≠ .stopped → s.pc.threaded = true) :
    t.Phased ∧ t.held = s.held :=
  ⟨⟨fun started running => pc ▸ alive started running,
    fun outside => client ▸ phased.idle (pc ▸ outside)⟩, by rw [held, held, pc, client]⟩

/-- What every action does to the things. -/
theorem tells_step {label : ClientMainLabel} (phased : s.Phased)
    (step : s.step host size chunkSize wait label = some t) :
    t.Phased ∧ lifetimes.run s.held (s.tells label) = some t.held := by
  cases label with
  | fopen ok =>
    simp only [ClientMain.step] at step
    split at step
    case h_1 pc =>
      obtain rfl := Option.some.inj step
      cases ok
      · exact advance [] (.returned 1) phased pc rfl rfl rfl rfl
          ⟨by decide, by simp, by decide, rfl⟩
      · exact advance [.opens file] .init phased pc rfl rfl rfl rfl
          ⟨by decide, by decide, id, by decide⟩
    case h_2 => exact absurd step (by simp)
  | omniInit ok =>
    simp only [ClientMain.step] at step
    split at step
    case h_1 pc =>
      obtain rfl := Option.some.inj step
      cases ok
      · exact advance [] .closeUnused phased pc rfl rfl rfl rfl ⟨by decide, by decide, id, rfl⟩
      · exact advance [.opens context, .opens runtime] .create phased pc rfl rfl rfl rfl
          ⟨by decide, by decide, id, by decide⟩
    case h_2 => exact absurd step (by simp)
  | create ok =>
    simp only [ClientMain.step] at step
    split at step
    case h_1 pc =>
      cases ok <;> obtain rfl := Option.some.inj step
      · exact advance [] .abortStop phased pc rfl rfl rfl rfl ⟨by decide, by decide, id, rfl⟩
      · have outside : s.pc ≠ .sending := by rw [pc]; decide
        have opened : lifetimes.run s.held [.opens ProgramThing.thread] =
            some (ClientMainPc.mallocChunk.held ∪ s.client.pc.frames) := by
          rw [phased.held_eq outside, phased.idle outside, pc]
          decide
        exact ⟨⟨fun _ _ => rfl, fun _ => phased.idle outside⟩, opened⟩
    case h_2 => exact absurd step (by simp)
  | malloc ok =>
    simp only [ClientMain.step] at step
    split at step
    case h_1 pc =>
      cases ok <;> obtain rfl := Option.some.inj step
      · exact advance [] (.stop false) phased pc rfl rfl rfl rfl ⟨by decide, by decide, id, rfl⟩
      · have outside : s.pc ≠ .sending := by rw [pc]; decide
        have opened : lifetimes.run s.held [.opens chunk] =
            some (ClientMainPc.sending.held ∪ s.client.pc.frames) := by
          rw [phased.held_eq outside, phased.idle outside, pc]
          decide
        exact ⟨⟨fun _ _ => rfl, fun _ => phased.idle outside⟩, opened⟩
    case h_2 => exact absurd step (by simp)
  | send event => exact tells_send step
  | main => exact tells_main phased step
  | thread event =>
    obtain ⟨⟨started, own⟩, next⟩ := Option.ite_none_right_eq_some.mp step
    obtain ⟨r, rstep, rfl⟩ := Option.map_eq_some_iff.mp next
    have running : s.recv.pc ≠ .stopped := by
      intro stopped
      cases event with
      | load => simp [ClientRecv.step, stopped] at rstep
      | recv n frame => simp [ClientRecv.step, stopped] at rstep
      | mainExit => exact own rfl
    have threaded := phased.alive started running
    obtain ⟨phased', held'⟩ := phased.keep (t := { s with
      recv := r, client := { s.client with running := r.running } }) rfl rfl fun _ _ => threaded
    refine ⟨phased', ?_⟩
    rw [held']
    exact uses_accepted [runtime, context] threaded (by decide)
  | cancelled =>
    obtain ⟨⟨started, pc, running⟩, next⟩ := Option.ite_none_right_eq_some.mp step
    obtain rfl := Option.some.inj next
    have threaded := phased.alive started running
    obtain ⟨phased', held'⟩ := phased.keep (t := { s with thread := .cancelled }) rfl rfl
      fun _ _ => threaded
    refine ⟨phased', ?_⟩
    rw [held']
    exact uses_accepted [runtime, context] threaded (by decide)
  | signal =>
    obtain rfl := Option.some.inj step
    obtain ⟨phased', held'⟩ := phased.keep (t := { s with
      client := { s.client with gStop := true } }) rfl rfl phased.alive
    exact ⟨phased', congrArg some held'.symm⟩

/-- The process keeps to the monitor. -/
theorem follows_lifetimes (host : Endian) (size : SizeT) (chunkSize : ℕ) (wait : ℤ) :
    (machine host size chunkSize wait).Follows tells lifetimes
      fun s live => s.Phased ∧ live = s.held := by
  rintro s label t live ⟨phased, rfl⟩ step
  obtain ⟨phased', accepted⟩ := tells_step phased step
  exact ⟨t.held, accepted, phased', rfl⟩

theorem phased_start (size : SizeT) (options : ClientOptions) (file : List UInt8) :
    (start size options file).Phased ∧ (start size options file).held = ∅ := by
  unfold start
  split <;> exact ⟨⟨fun started => RecvThread.noConfusion started, fun _ => rfl⟩, rfl⟩

/-- What the steps of a run have done to the things. -/
def account (host : Endian) (size : SizeT) (options : ClientOptions) (file : List UInt8)
    (labels : List ClientMainLabel) : List (Use ProgramThing) :=
  (machine host size (options.chunkSize size).toNat (options.waitSeconds size)).told tells
    (start size options file) labels

/-- In every run of the client, with its two threads in any order, signals at any time and
whatever fails, each thing is used only while it is open and never opened twice; and when
`main` has returned, everything has been closed exactly as often as it was opened. -/
theorem client_main_lifetimes {options : ClientOptions} {file : List UInt8}
    {labels : List ClientMainLabel}
    (hrun : (machine host size (options.chunkSize size).toNat (options.waitSeconds size)).run
      (start size options file) labels = some s) :
    ∃ live, lifetimes.run ∅ (account host size options file labels) = some live ∧
      ∀ status, s.pc = .returned status → live = ∅ ∧ ∀ thing,
        (account host size options file labels).count (.closes thing) =
          (account host size options file labels).count (.opens thing) := by
  obtain ⟨phased, empty⟩ := phased_start size options file
  obtain ⟨live, accepted, phased', rfl⟩ :=
    (follows_lifetimes host size _ _).run ⟨phased, empty.symm⟩ hrun
  refine ⟨s.held, accepted, fun status returned => ?_⟩
  have over' : s.held = ∅ := by
    rw [phased'.held_eq (by rw [returned]; exact ClientMainPc.noConfusion), returned]
    rfl
  exact ⟨over', count_closes_of_empty (over' ▸ accepted)⟩

/-- There is no memory for the chunk, and the receive thread is cancelled while it waits. -/
private def noChunkRun : List ClientMainLabel :=
  [.fopen true, .omniInit true, .create true, .thread .load, .malloc false, .main, .main, .signal,
    .cancelled, .main, .main, .main]

private def noChunkOptions : ClientOptions where
  proto := none
  serverIp := some "10.0.0.1"
  serverPort := some (bytesOf "9000")
  filePath := some "in.bin"
  chunk := some (bytesOf "512")
  wait := none

theorem client_main_lifetimes_noChunk : ∃ s,
    (machine .big .bits32 (noChunkOptions.chunkSize .bits32).toNat
        (noChunkOptions.waitSeconds .bits32)).run (start .bits32 noChunkOptions [1, 2]) noChunkRun =
      some s ∧ s.pc = .returned 1 ∧
      ∃ live, lifetimes.run ∅ (account .big .bits32 noChunkOptions [1, 2] noChunkRun) = some live ∧
        ∀ status, s.pc = .returned status → live = ∅ ∧ ∀ thing,
          (account .big .bits32 noChunkOptions [1, 2] noChunkRun).count (.closes thing) =
            (account .big .bits32 noChunkOptions [1, 2] noChunkRun).count (.opens thing) := by
  have ends : ∃ s, (machine .big .bits32 (noChunkOptions.chunkSize .bits32).toNat
      (noChunkOptions.waitSeconds .bits32)).run (start .bits32 noChunkOptions [1, 2]) noChunkRun =
        some s ∧ decide (s.pc = .returned 1) = true :=
    (Option.any_eq_true _ _).mp (by decide +kernel)
  obtain ⟨s, hrun, returned⟩ := ends
  exact ⟨s, hrun, of_decide_eq_true returned, client_main_lifetimes hrun⟩

end ClientMain

end OmniSocket
