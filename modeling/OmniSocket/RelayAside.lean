/-
# Steps of the relay beside its messages

All but two kinds of steps of the relay neither receive a message nor send one. They leave
alone what the main thread holds between a `read` and the next: the log of the messages,
the receiving context and, if the thread is inside `omni_recv`, the thread itself.
-/

import OmniSocket.RelaySteps

set_option autoImplicit false

namespace OmniSocket

/-- The main thread has left its loop, or will not come to it. -/
def RelayMainPc.afterLoop : RelayMainPc → Bool
  | .stopping | .closeRx | .join | .takeTx | .closeTx _ | .abortRx | .abortTx | .returned => true
  | _ => false

/-- An event that is not about a message received or sent. -/
def RelayEvent.Plain : RelayEvent → Prop
  | .received _ | .handed _ _ _ _ => False
  | _ => True

namespace Relay

/-- What a step other than the return of `omni_recv` and the call of `omni_send` does to
the main thread's dealings with messages. -/
structure Aside (s t : Relay) : Prop where
  log : ∃ events, t.log = s.log ++ events ∧ ∀ event ∈ events, event.Plain
  rx : s.main ≠ .initRx → t.rxCtx = s.rxCtx
  stays : s.main = .receiving → t.main = .receiving
  enters : t.main = .receiving → s.main = .receiving ∨ s.main = .loopTest
  left : s.main.afterLoop → t.main.afterLoop

section Aside

variable {args : RelayArgs} {s t : Relay}

/-- A step that leaves the main thread where it is. -/
private theorem Aside.still {events : List RelayEvent} (log : t.log = s.log ++ events)
    (plain : ∀ event ∈ events, event.Plain) (rx : t.rxCtx = s.rxCtx) (main : t.main = s.main) :
    s.Aside t where
  log := ⟨events, log, plain⟩
  rx := fun _ => rx
  stays := main.trans
  enters := fun now => .inl (main.symm.trans now)
  left := by
    rw [main]
    exact id

/-- A step of the main thread at another point. -/
private theorem Aside.move {events : List RelayEvent} (log : t.log = s.log ++ events)
    (plain : ∀ event ∈ events, event.Plain) (rx : s.main ≠ .initRx → t.rxCtx = s.rxCtx)
    (before : s.main ≠ .receiving) (enters : t.main = .receiving → s.main = .loopTest)
    (left : s.main.afterLoop → t.main.afterLoop) : s.Aside t where
  log := ⟨events, log, plain⟩
  rx := rx
  stays := fun now => absurd now before
  enters := fun now => .inr (enters now)
  left := left

/-- What a step of `relay_set_target` logs. -/
private theorem log_setTargetStep {pc : SetTargetPc} {next : Relay × Option SetTargetPc}
    (step : s.setTargetStep pc = some next) :
    (∃ event : RelayEvent, event.Plain ∧ next.1.log = s.log ++ [event]) ∧
      next.1.rxCtx = s.rxCtx := by
  rcases setTargetStep_cases step with ⟨new, -, -, rfl⟩ | ⟨old, -, rfl⟩
  · exact ⟨⟨.installed new, trivial, rfl⟩, rfl⟩
  · exact ⟨⟨.closed old.toRelayContext, trivial, rfl⟩, rfl⟩

private theorem log_setTargetInit (s : Relay) (ip : String) (port : UInt16)
    (answer : InitAnswer) :
    (∃ events : List RelayEvent, (∀ event ∈ events, event.Plain) ∧
        (s.setTargetInit ip port answer).1.log = s.log ++ events) ∧
      (s.setTargetInit ip port answer).1.rxCtx = s.rxCtx := by
  unfold setTargetInit
  split
  · exact ⟨⟨[], by simp, (List.append_nil _).symm⟩, rfl⟩
  · exact ⟨⟨[.created s.created], by simp [RelayEvent.Plain], rfl⟩, rfl⟩

private theorem aside_mainSet {pc : SetTargetPc} {next : Relay × Option SetTargetPc}
    {events : List RelayEvent} (before : s.main = .setTarget pc)
    (log : next.1.log = s.log ++ events) (plain : ∀ event ∈ events, event.Plain)
    (rx : next.1.rxCtx = s.rxCtx) : s.Aside (mainSet next) := by
  obtain ⟨u, pc' | pc'⟩ := next <;>
    exact .move log plain (fun _ => rx) (by simp [before]) (by simp [mainSet])
      (by simp [before, RelayMainPc.afterLoop])

private theorem aside_controlSet {next : Relay × Option SetTargetPc} {events : List RelayEvent}
    (log : next.1.log = s.log ++ events) (plain : ∀ event ∈ events, event.Plain)
    (rx : next.1.rxCtx = s.rxCtx) (main : next.1.main = s.main) : s.Aside (controlSet next) := by
  obtain ⟨u, pc' | pc'⟩ := next <;> exact .still log plain rx main

private theorem aside_main (step : s.mainStep = some t) : s.Aside t := by
  simp only [mainStep] at step
  split at step
  case h_1 pc at_set =>
    obtain ⟨next, sstep, rfl⟩ := Option.map_eq_some_iff.mp step
    obtain ⟨⟨event, plain, log⟩, rx⟩ := log_setTargetStep sstep
    exact aside_mainSet at_set log (by simpa using plain) rx
  case h_2 pc =>
    obtain rfl := Option.some.inj step
    exact .move (List.append_nil _).symm (by simp) (fun _ => rfl) (by simp [pc]) (fun _ => pc)
      (by simp [pc, RelayMainPc.afterLoop])
  case h_3 msg pc =>
    obtain ⟨-, rfl⟩ := (Option.ite_none_right_eq_some.mp step).imp_right Option.some.inj
    exact .move rfl (by simp [RelayEvent.Plain]) (fun _ => rfl) (by simp [pc]) (by simp)
      (by simp [pc, RelayMainPc.afterLoop])
  case h_4 pc =>
    obtain rfl := Option.some.inj step
    exact .move (List.append_nil _).symm (by simp) (fun _ => rfl) (by simp [pc]) (by simp)
      fun _ => rfl
  case h_5 pc =>
    obtain ⟨rx, -, rfl⟩ := Option.map_eq_some_iff.mp step
    exact .move rfl (by simp [RelayEvent.Plain]) (fun _ => rfl) (by simp [pc]) (by simp)
      fun _ => rfl
  case h_6 pc =>
    obtain ⟨-, rfl⟩ := (Option.ite_none_right_eq_some.mp step).imp_right Option.some.inj
    exact .move (List.append_nil _).symm (by simp) (fun _ => rfl) (by simp [pc]) (by simp)
      fun _ => rfl
  case h_7 pc =>
    split at step <;> obtain rfl := Option.some.inj step <;>
      exact .move (List.append_nil _).symm (by simp) (fun _ => rfl) (by simp [pc]) (by simp)
        fun _ => rfl
  case h_8 tx pc =>
    obtain rfl := Option.some.inj step
    exact .move rfl (by simp [RelayEvent.Plain]) (fun _ => rfl) (by simp [pc]) (by simp)
      fun _ => rfl
  case h_9 pc =>
    obtain ⟨rx, -, rfl⟩ := Option.map_eq_some_iff.mp step
    exact .move rfl (by simp [RelayEvent.Plain]) (fun _ => rfl) (by simp [pc]) (by simp)
      fun _ => rfl
  case h_10 pc =>
    split at step <;> obtain rfl := Option.some.inj step
    · exact .move rfl (by simp [RelayEvent.Plain]) (fun _ => rfl) (by simp [pc]) (by simp)
        fun _ => rfl
    · exact .move (List.append_nil _).symm (by simp) (fun _ => rfl) (by simp [pc]) (by simp)
        fun _ => rfl
  case h_11 => exact absurd step (by simp)

/-- Every step but those two. -/
theorem aside_step {label : RelayLabel} (step : s.step args label = some t)
    (noRecv : ∀ answer, label ≠ .recv answer) (noSend : ∀ answer, label ≠ .send answer) :
    s.Aside t := by
  cases label with
  | main => exact aside_main step
  | control =>
    simp only [Relay.step, controlStep] at step
    split at step
    case h_1 =>
      obtain rfl := Option.some.inj step
      exact .still (List.append_nil _).symm (by simp) rfl rfl
    case h_2 pc at_set =>
      obtain ⟨next, sstep, rfl⟩ := Option.map_eq_some_iff.mp step
      obtain ⟨⟨event, plain, log⟩, rx⟩ := log_setTargetStep sstep
      exact aside_controlSet log (by simpa using plain) rx (points_setTargetStep sstep).1
    case h_3 => exact absurd step (by simp)
  | mainInit answer =>
    simp only [Relay.step, mainInitStep] at step
    split at step
    case h_1 pc =>
      split at step <;> obtain rfl := Option.some.inj step
      · exact .move (List.append_nil _).symm (by simp) (fun _ => rfl) (by simp [pc]) (by simp)
          (by simp [pc, RelayMainPc.afterLoop])
      · exact .move rfl (by simp [RelayEvent.Plain]) (fun outside => absurd pc outside)
          (by simp [pc]) (by simp) (by simp [pc, RelayMainPc.afterLoop])
    case h_2 ip port pc =>
      obtain rfl := Option.some.inj step
      obtain ⟨⟨events, plain, log⟩, rx⟩ := log_setTargetInit s ip port answer
      exact aside_mainSet pc log plain rx
    case h_3 => exact absurd step (by simp)
  | controlInit answer =>
    simp only [Relay.step] at step
    split at step
    case h_1 ip port pc =>
      obtain rfl := Option.some.inj step
      obtain ⟨⟨events, plain, log⟩, rx⟩ := log_setTargetInit s ip port answer
      exact aside_controlSet log plain rx (points_setTargetInit s ip port answer).1
    case h_2 => exact absurd step (by simp)
  | create ok =>
    simp only [Relay.step] at step
    split at step
    case h_1 pc =>
      obtain rfl := Option.some.inj step
      cases ok <;> exact .move (List.append_nil _).symm (by simp) (fun _ => rfl) (by simp [pc])
        (by simp) (by simp [pc, RelayMainPc.afterLoop])
    case h_2 => exact absurd step (by simp)
  | recv answer => exact absurd rfl (noRecv answer)
  | send answer => exact absurd rfl (noSend answer)
  | line command =>
    simp only [Relay.step, lineStep] at step
    split at step
    case h_1 =>
      cases command <;> obtain rfl := Option.some.inj step <;>
        exact .still (List.append_nil _).symm (by simp) rfl rfl
    case h_2 => exact absurd step (by simp)

end Aside

end Relay

end OmniSocket
