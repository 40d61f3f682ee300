/-
# The contexts of the relay

The relay creates and closes contexts in two threads, and the forwarding context
moves from one to the other through `tx_ctx`. At every moment a context that
`omni_init` has returned is in exactly one place: it is the receiving context and
`main` has not closed it, it is in `tx_ctx`, a thread has it in a local variable, or
`omni_close` has been called on it once. Nothing is used from the last place.
-/

import OmniSocket.Lib.Custody
import OmniSocket.RelaySteps

set_option autoImplicit false

namespace OmniSocket

open Lib

/-! ## Where a context is -/

/-- The contexts `omni_init` has returned. -/
def createdIds (log : List RelayEvent) : List ℕ :=
  log.filterMap fun event =>
    match event with
    | .created id => some id
    | _ => none

/-- The contexts `omni_close` has been called on. -/
def closedIds (log : List RelayEvent) : List ℕ :=
  log.filterMap fun event =>
    match event with
    | .closed c => some c.id
    | _ => none

/-- The context a thread has in a local variable of `relay_set_target`. -/
def SetTargetPc.inHand : SetTargetPc → List ℕ
  | .init _ _ => []
  | .install new => [new.id]
  | .close old => [old.id]

/-- The context `main` has in a local variable. -/
def RelayMainPc.inHand : RelayMainPc → List ℕ
  | .setTarget pc => pc.inHand
  | .closeTx tx => [tx.id]
  | _ => []

/-- The context the control thread has in a local variable. -/
def RelayControlPc.inHand : RelayControlPc → List ℕ
  | .setTarget pc => pc.inHand
  | _ => []

/-- `main` has opened the receiving context and not yet closed it. -/
def RelayMainPc.hasRx : RelayMainPc → Bool
  | .initRx | .join | .takeTx | .closeTx _ | .abortTx | .returned => false
  | _ => true

namespace Relay

variable {args : RelayArgs} {s t : Relay}

/-- The receiving context, as long as it is open. -/
def rxHeld (s : Relay) : List ℕ := if s.main.hasRx then (s.rxCtx.map (·.id)).toList else []

/-- The context in `tx_ctx`. After the return of `main` there is no `tx_ctx`. -/
def txHeld (s : Relay) : List ℕ :=
  if s.main = .returned then [] else (s.txCtx.map (·.id)).toList

/-- The contexts that are somewhere. -/
def held (s : Relay) : List ℕ := s.rxHeld ++ (s.main.inHand ++ (s.txHeld ++ s.control.inHand))

/-- Where there is no context, and where there is no control thread. -/
structure Settled (s : Relay) : Prop where
  alone : s.Alone
  unset : s.main = .initRx → s.txCtx = none
  taken : ∀ tx, s.main = .closeTx tx → s.txCtx = none
  joined : s.main.afterJoin → s.control = .absent ∨ s.control = .ended

/-- Every context is numbered, and is somewhere or has been closed once. -/
structure Ledger (s : Relay) : Prop where
  numbers : createdIds s.log = List.range s.created
  custody : Custody (createdIds s.log) (closedIds s.log) s.held

/-! ## What a step does to the contexts -/

/-- What becomes of some of the contexts on the way from `s` to `t`. -/
inductive Passes (s t : Relay) (before after : List ℕ) : Prop
  /-- They only pass from hand to hand. -/
  | pass (created : t.created = s.created) (opened : createdIds t.log = createdIds s.log)
      (closed : closedIds t.log = closedIds s.log) (held : after.Perm before)
  /-- There is a new one. -/
  | create (created : t.created = s.created + 1) (log : t.log = s.log ++ [.created s.created])
      (held : after.Perm (s.created :: before))
  /-- One of them is closed. -/
  | close (c : RelayContext) (created : t.created = s.created) (log : t.log = s.log ++ [.closed c])
      (held : before.Perm (c.id :: after))

namespace Passes

variable {before after before' after' : List ℕ}

theorem perm (passes : s.Passes t before after) (first : before'.Perm before)
    (last : after'.Perm after) : s.Passes t before' after' := by
  -- the order in which contexts are listed does not matter
  cases passes with
  | pass created opened closed held =>
    exact .pass created opened closed (last.trans (held.trans first.symm))
  | create created log held =>
    exact .create created log (last.trans (held.trans (first.symm.cons _)))
  | close c created log held =>
    exact .close c created log (first.trans (held.trans (last.symm.cons _)))

/-- Control points do not matter. -/
theorem points {u : Relay} (passes : s.Passes t before after) (created : u.created = t.created)
    (log : u.log = t.log) : s.Passes u before after := by
  cases passes with
  | pass same opened closed held =>
    exact .pass (created.trans same) (log ▸ opened) (log ▸ closed) held
  | create same appended held => exact .create (created.trans same) (log.trans appended) held
  | close c same appended held => exact .close c (created.trans same) (log.trans appended) held

/-- Other contexts stay where they are. -/
theorem frame (left right : List ℕ) (passes : s.Passes t before after) :
    s.Passes t (left ++ (before ++ right)) (left ++ (after ++ right)) := by
  have around : ∀ {first second : List ℕ}, first.Perm second →
      (left ++ (first ++ right)).Perm (left ++ (second ++ right)) :=
    fun same => (same.append_right right).append_left left
  cases passes with
  | pass created opened closed held => exact .pass created opened closed (around held)
  | create created log held =>
    exact .create created log ((around held).trans List.perm_middle)
  | close c created log held =>
    exact .close c created log ((around held).trans List.perm_middle)

end Passes

/-- The books are kept. -/
theorem Ledger.passes (ledger : s.Ledger) (passes : s.Passes t s.held t.held) : t.Ledger := by
  obtain ⟨numbers, custody⟩ := ledger
  cases passes with
  | pass created opened closed held =>
    rw [← opened] at numbers custody
    rw [← closed] at custody
    exact ⟨by rw [numbers, created], custody.pass held⟩
  | create created log held =>
    have opened : createdIds t.log = createdIds s.log ++ [s.created] := by
      simp [log, createdIds, List.filterMap_append]
    have closed : closedIds t.log = closedIds s.log := by
      simp [log, closedIds, List.filterMap_append]
    refine ⟨by rw [opened, numbers, created, List.range_succ], ?_⟩
    rw [opened, closed]
    -- the next number has not been given before
    have fresh : s.created ∉ createdIds s.log := by simp [numbers]
    exact (custody.create fresh).pass held
  | close c created log held =>
    have opened : createdIds t.log = createdIds s.log := by
      simp [log, createdIds, List.filterMap_append]
    have closed : closedIds t.log = closedIds s.log ++ [c.id] := by
      simp [log, closedIds, List.filterMap_append]
    refine ⟨by rw [opened, numbers, created], ?_⟩
    rw [opened, closed]
    exact (custody.pass held.symm).release

/-! ## `relay_set_target` -/

/-- What a thread has in hand after a step of `relay_set_target`. -/
def handOf (next : Option SetTargetPc) : List ℕ := (next.map SetTargetPc.inHand).getD []

theorem txHeld_of_going (going : s.main ≠ .returned) :
    s.txHeld = (s.txCtx.map (·.id)).toList :=
  if_neg going

/-- The new context and the old one change places, and the old one is closed. -/
private theorem passes_setTargetStep {pc : SetTargetPc} {next : Relay × Option SetTargetPc}
    (going : s.main ≠ .returned) (step : s.setTargetStep pc = some next) :
    s.Passes next.1 (s.txHeld ++ pc.inHand) (next.1.txHeld ++ handOf next.2) ∧
      next.1.rxCtx = s.rxCtx ∧ next.1.main = s.main ∧ next.1.control = s.control := by
  rcases setTargetStep_cases step with ⟨new, rfl, -, rfl⟩ | ⟨old, rfl, rfl⟩
  · refine ⟨.pass rfl ?_ ?_ ?_, rfl, rfl, rfl⟩
    · simp [setTargetInstall, createdIds]
    · simp [setTargetInstall, closedIds]
    · have placed : (s.setTargetInstall new).1.txHeld = [new.id] := txHeld_of_going going
      rw [placed, txHeld_of_going going, SetTargetPc.inHand]
      -- the new context goes into `tx_ctx`, what was there comes into the thread's hand
      cases old : s.txCtx with
      | none => simp [setTargetInstall, handOf, old]
      | some tx => simp [setTargetInstall, handOf, old, SetTargetPc.inHand, List.Perm.swap]
  · refine ⟨.close old.toRelayContext rfl rfl ?_, rfl, rfl, rfl⟩
    show (s.txHeld ++ [old.id]).Perm (old.id :: (s.txHeld ++ []))
    rw [List.append_nil]
    exact List.perm_append_singleton old.id s.txHeld

/-- A new context is in the hand of the thread that has opened it. -/
private theorem passes_setTargetInit (s : Relay) (ip : String) (port : UInt16)
    (answer : InitAnswer) :
    s.Passes (s.setTargetInit ip port answer).1 (s.txHeld ++ (SetTargetPc.init ip port).inHand)
        ((s.setTargetInit ip port answer).1.txHeld ++ handOf (s.setTargetInit ip port answer).2) ∧
      (s.setTargetInit ip port answer).1.rxCtx = s.rxCtx ∧
      (s.setTargetInit ip port answer).1.main = s.main ∧
      (s.setTargetInit ip port answer).1.control = s.control := by
  unfold setTargetInit
  split
  case h_1 => exact ⟨.pass rfl rfl rfl (.refl _), rfl, rfl, rfl⟩
  case h_2 =>
    refine ⟨.create rfl rfl ?_, rfl, rfl, rfl⟩
    show (s.txHeld ++ [s.created]).Perm (s.created :: (s.txHeld ++ []))
    rw [List.append_nil]
    exact List.perm_append_singleton s.created s.txHeld

private theorem middle_comm (left first second right : List ℕ) :
    (left ++ (first ++ (second ++ right))).Perm (left ++ ((second ++ first) ++ right)) := by
  rw [← List.append_assoc first]
  exact (List.perm_append_comm.append_right right).append_left left

/-- The main thread in `relay_set_target`. -/
private theorem passes_mainSet {pc : SetTargetPc} {step : Relay × Option SetTargetPc}
    (at_set : s.main = .setTarget pc)
    (passes : s.Passes step.1 (s.txHeld ++ pc.inHand) (step.1.txHeld ++ handOf step.2) ∧
      step.1.rxCtx = s.rxCtx ∧ step.1.main = s.main ∧ step.1.control = s.control) :
    s.Passes (mainSet step) s.held (mainSet step).held := by
  obtain ⟨u, next⟩ := step
  obtain ⟨passes, rx, main, control⟩ := passes
  have now : s.held = s.rxHeld ++ (pc.inHand ++ (s.txHeld ++ s.control.inHand)) := by
    rw [held, at_set, RelayMainPc.inHand]
  -- the hand of the main thread is what `relay_set_target` leaves in it
  have later : (mainSet (u, next)).held =
      s.rxHeld ++ (handOf next ++ (u.txHeld ++ s.control.inHand)) := by
    have there : s.rxHeld = (s.rxCtx.map (·.id)).toList := by rw [rxHeld, at_set]; rfl
    have going : u.main ≠ .returned := by rw [main, at_set]; simp
    rw [there, ← rx, ← control, txHeld_of_going going]
    cases next <;> rfl
  have moved : s.Passes (mainSet (u, next)) (s.txHeld ++ pc.inHand) (u.txHeld ++ handOf next) := by
    cases next <;> exact passes.points rfl rfl
  rw [now, later]
  exact (moved.frame s.rxHeld s.control.inHand).perm (middle_comm ..) (middle_comm ..)

/-- The control thread in `relay_set_target`. -/
private theorem passes_controlSet {pc : SetTargetPc} {step : Relay × Option SetTargetPc}
    (at_set : s.control = .setTarget pc)
    (passes : s.Passes step.1 (s.txHeld ++ pc.inHand) (step.1.txHeld ++ handOf step.2) ∧
      step.1.rxCtx = s.rxCtx ∧ step.1.main = s.main ∧ step.1.control = s.control) :
    s.Passes (controlSet step) s.held (controlSet step).held := by
  obtain ⟨u, next⟩ := step
  obtain ⟨passes, rx, main, -⟩ := passes
  have now : s.held = s.rxHeld ++ s.main.inHand ++ ((s.txHeld ++ pc.inHand) ++ []) := by
    rw [held, at_set, RelayControlPc.inHand, List.append_nil, List.append_assoc]
  have later : (controlSet (u, next)).held =
      s.rxHeld ++ s.main.inHand ++ ((u.txHeld ++ handOf next) ++ []) := by
    rw [rxHeld, ← main, ← rx, List.append_nil, List.append_assoc]
    cases next <;> rfl
  -- the contexts of the main thread are a frame around those of this call
  have moved : s.Passes (controlSet (u, next)) (s.txHeld ++ pc.inHand)
      (u.txHeld ++ handOf next) := by
    cases next <;> exact passes.points rfl rfl
  rw [now, later]
  exact moved.frame _ _

/-! ## One step -/

/-- A control thread that sets a target has not been joined. -/
theorem Settled.going {pc : SetTargetPc} (settled : s.Settled)
    (at_set : s.control = .setTarget pc) : s.main ≠ .returned := by
  intro returned
  rcases settled.joined (by rw [returned]; rfl) with absent | ended
  · cases at_set.symm.trans absent
  · cases at_set.symm.trans ended

/-- The main thread moves by itself. -/
private theorem passes_main (settled : s.Settled) (step : s.mainStep = some t) :
    s.Passes t s.held t.held := by
  simp only [mainStep] at step
  split at step
  case h_1 pc at_set =>
    obtain ⟨next, sstep, rfl⟩ := Option.map_eq_some_iff.mp step
    exact passes_mainSet at_set (passes_setTargetStep (by rw [at_set]; simp) sstep)
  case h_2 pc =>
    obtain rfl := Option.some.inj step
    refine .pass rfl rfl rfl ?_
    cases s.running <;> simp [held, rxHeld, txHeld, pc, RelayMainPc.inHand, RelayMainPc.hasRx]
  case h_3 msg pc =>
    obtain ⟨-, rfl⟩ := (Option.ite_none_right_eq_some.mp step).imp_right Option.some.inj
    refine .pass rfl (by simp [createdIds]) (by simp [closedIds]) ?_
    simp [held, rxHeld, txHeld, pc, RelayMainPc.inHand, RelayMainPc.hasRx]
  case h_4 pc =>
    obtain rfl := Option.some.inj step
    refine .pass rfl rfl rfl ?_
    simp [held, rxHeld, txHeld, pc, RelayMainPc.inHand, RelayMainPc.hasRx]
  case h_5 pc =>
    obtain ⟨rx, open_rx, rfl⟩ := Option.map_eq_some_iff.mp step
    -- the receiving context counts as open until this call
    refine .close rx rfl rfl ?_
    simp [omniClose, held, rxHeld, txHeld, pc, open_rx, RelayMainPc.inHand, RelayMainPc.hasRx]
  case h_6 pc =>
    obtain ⟨-, rfl⟩ := (Option.ite_none_right_eq_some.mp step).imp_right Option.some.inj
    refine .pass rfl rfl rfl ?_
    simp [held, rxHeld, txHeld, pc, RelayMainPc.inHand, RelayMainPc.hasRx]
  case h_7 pc =>
    split at step
    case h_1 tx installed =>
      obtain rfl := Option.some.inj step
      refine .pass rfl rfl rfl ?_
      simp [held, rxHeld, txHeld, pc, installed, RelayMainPc.inHand, RelayMainPc.hasRx]
    case h_2 none =>
      obtain rfl := Option.some.inj step
      refine .pass rfl rfl rfl ?_
      simp [held, rxHeld, txHeld, pc, none, RelayMainPc.inHand, RelayMainPc.hasRx]
  -- `tx_ctx` was emptied when `main` took the context out
  case h_8 tx pc =>
    obtain rfl := Option.some.inj step
    refine .close tx.toRelayContext rfl rfl ?_
    simp [omniClose, held, rxHeld, txHeld, pc, settled.taken tx pc, RelayMainPc.inHand,
      RelayMainPc.hasRx]
  case h_9 pc =>
    obtain ⟨rx, open_rx, rfl⟩ := Option.map_eq_some_iff.mp step
    refine .close rx rfl rfl ?_
    simp [omniClose, held, rxHeld, txHeld, pc, open_rx, RelayMainPc.inHand, RelayMainPc.hasRx]
  case h_10 pc =>
    split at step
    case h_1 tx installed =>
      obtain rfl := Option.some.inj step
      refine .close tx.toRelayContext rfl rfl ?_
      simp [omniClose, held, rxHeld, txHeld, pc, installed, RelayMainPc.inHand, RelayMainPc.hasRx]
    case h_2 none =>
      obtain rfl := Option.some.inj step
      refine .pass rfl rfl rfl ?_
      simp [held, rxHeld, txHeld, pc, none, RelayMainPc.inHand, RelayMainPc.hasRx]
  case h_11 => exact absurd step (by simp)

/-- `omni_init` returns in the main thread. -/
private theorem passes_mainInit (settled : s.Settled) {answer : InitAnswer}
    (step : s.mainInitStep args answer = some t) : s.Passes t s.held t.held := by
  simp only [mainInitStep] at step
  split at step
  case h_1 pc =>
    -- nothing is in `tx_ctx` before the first target
    have unset := settled.unset pc
    split at step
    case h_1 =>
      obtain rfl := Option.some.inj step
      refine .pass rfl rfl rfl ?_
      simp [held, rxHeld, txHeld, pc, unset, RelayMainPc.inHand, RelayMainPc.hasRx]
    case h_2 ctx init =>
      obtain rfl := Option.some.inj step
      refine .create rfl rfl ?_
      simp [held, rxHeld, txHeld, pc, unset, RelayMainPc.inHand, SetTargetPc.inHand,
        RelayMainPc.hasRx]
  case h_2 ip port pc =>
    obtain rfl := Option.some.inj step
    exact passes_mainSet pc (passes_setTargetInit s ip port answer)
  case h_3 => exact absurd step (by simp)

/-- The control thread moves, by itself or when `omni_init` returns. It does so only
while `main` has not joined it. -/
private theorem passes_control (settled : s.Settled) (step : s.controlStep = some t) :
    s.Passes t s.held t.held := by
  simp only [controlStep] at step
  split at step
  case h_1 pc =>
    obtain rfl := Option.some.inj step
    refine .pass rfl rfl rfl ?_
    cases s.running <;> simp [held, rxHeld, txHeld, pc, RelayControlPc.inHand]
  case h_2 pc at_set =>
    obtain ⟨next, sstep, rfl⟩ := Option.map_eq_some_iff.mp step
    exact passes_controlSet at_set (passes_setTargetStep (settled.going at_set) sstep)
  case h_3 => exact absurd step (by simp)

/-- Every step only passes contexts on, creates one or closes one. -/
theorem passes_of_step {label : RelayLabel} (settled : s.Settled)
    (step : s.step args label = some t) : s.Passes t s.held t.held := by
  cases label with
  | main => exact passes_main settled step
  | control => exact passes_control settled step
  | mainInit answer => exact passes_mainInit settled step
  | controlInit answer =>
    simp only [Relay.step] at step
    split at step
    case h_1 ip port pc =>
      obtain rfl := Option.some.inj step
      exact passes_controlSet pc (passes_setTargetInit s ip port answer)
    case h_2 => exact absurd step (by simp)
  | create ok =>
    simp only [Relay.step] at step
    split at step
    case h_1 pc =>
      -- no control thread means that it has no context in hand
      have absent := settled.alone (by simp [Starting, pc])
      obtain rfl := Option.some.inj step
      cases ok <;> refine .pass rfl rfl rfl ?_ <;>
        simp [held, rxHeld, txHeld, pc, absent, RelayMainPc.inHand, RelayControlPc.inHand,
          RelayMainPc.hasRx]
    case h_2 => exact absurd step (by simp)
  | recv answer =>
    simp only [Relay.step, recvStep] at step
    split at step
    case h_1 rx pc installed =>
      obtain ⟨⟨n, buf, ctx⟩, -, rfl⟩ := Option.map_eq_some_iff.mp step
      split_ifs <;>
      · refine .pass rfl (by simp [createdIds]) (by simp [closedIds]) ?_
        simp [held, rxHeld, txHeld, pc, installed, RelayMainPc.inHand, RelayMainPc.hasRx]
    case h_2 => exact absurd step (by simp)
  | send answer =>
    simp only [Relay.step, sendStep] at step
    split at step
    case h_1 msg tx pc installed =>
      obtain ⟨-, step⟩ := Option.ite_none_right_eq_some.mp step
      split at step <;>
      · obtain rfl := Option.some.inj step
        refine .pass rfl (by simp [createdIds]) (by simp [closedIds]) ?_
        simp [held, rxHeld, txHeld, pc, installed, RelayMainPc.inHand, RelayMainPc.hasRx]
    case h_2 => exact absurd step (by simp)
  | line command =>
    simp only [Relay.step, lineStep] at step
    split at step
    case h_1 pc =>
      cases command <;>
      · obtain rfl := Option.some.inj step
        refine .pass rfl rfl rfl ?_
        simp [held, rxHeld, txHeld, pc, RelayControlPc.inHand, SetTargetPc.inHand]
    case h_2 => exact absurd step (by simp)

/-! ## Where the threads are -/

theorem settled_start (proto : OmniProtocol) : (start proto).Settled :=
  ⟨alone_start proto, fun _ => rfl, fun _ pc => (by cases pc), fun after => by cases after⟩

theorem settled_step {label : RelayLabel} (settled : s.Settled)
    (step : s.step args label = some t) : t.Settled := by
  have steers := steers_of_step step
  have alone := settled.alone.steers steers
  cases steers with
  | control present going main =>
    -- a control thread that moves has not been joined
    have before : s.main.afterJoin = false :=
      Bool.eq_false_iff.mpr fun after => (settled.joined after).elim present going
    refine ⟨alone, ?_, ?_, ?_⟩
    · intro pc
      rw [main] at pc
      exact absurd (settled.alone (by simp [Starting, pc])) present
    · intro tx pc
      rw [← main, pc] at before
      cases before
    · intro after
      rw [main, before] at after
      cases after
  | main _ left taken joined =>
    refine ⟨alone, fun pc => absurd pc left, taken, ?_⟩
    intro after
    obtain ⟨same, starting | behind | ended⟩ := joined after
    · exact .inl (same.trans (settled.alone starting))
    · rw [same]
      exact settled.joined behind
    · exact .inr (same.trans ended)

/-! ## The life of a context -/

theorem ledger_start (proto : OmniProtocol) : (start proto).Ledger := ⟨rfl, .start⟩

/-- At every moment the books are in order. -/
theorem ledger_run {proto : OmniProtocol} {labels : List RelayLabel}
    (hrun : (machine args).run (start proto) labels = some s) : s.Settled ∧ s.Ledger := by
  refine (machine args).run_invariant (I := fun s => s.Settled ∧ s.Ledger) ?_
    ⟨settled_start proto, ledger_start proto⟩ hrun
  rintro s label t ⟨settled, ledger⟩ step
  exact ⟨settled_step settled step, ledger.passes (passes_of_step settled step)⟩

/-- The context a call of `omni_recv` or `omni_send` is working on, or the next one is
for. -/
def inUse (s : Relay) : List ℕ :=
  match s.main with
  | .receiving => (s.rxCtx.map (·.id)).toList
  | .forwarding _ | .sending _ => (s.txCtx.map (·.id)).toList
  | _ => []

/-- The context a step calls `omni_recv` or `omni_send` on. -/
def usedBy (s : Relay) : RelayLabel → List ℕ
  | .recv _ => (s.rxCtx.map (·.id)).toList
  | .send _ => (s.txCtx.map (·.id)).toList
  | _ => []

theorem held_of_inUse {id : ℕ} (used : id ∈ s.inUse) : id ∈ s.held := by
  rw [held, List.mem_append, List.mem_append, List.mem_append]
  unfold inUse at used
  split at used
  case h_1 pc => exact .inl (by rw [rxHeld, pc]; exact used)
  case h_2 pc => exact .inr (.inr (.inl (by rw [txHeld, pc]; exact used)))
  case h_3 pc => exact .inr (.inr (.inl (by rw [txHeld, pc]; exact used)))
  case h_4 => exact absurd used List.not_mem_nil

/-- A step calls them only where the main thread stands before such a call. -/
theorem inUse_of_usedBy {label : RelayLabel} {id : ℕ} (step : s.step args label = some t)
    (used : id ∈ s.usedBy label) : id ∈ s.inUse := by
  cases label with
  | recv answer =>
    simp only [Relay.step, recvStep] at step
    split at step
    case h_1 pc _ =>
      rw [inUse, pc]
      exact used
    case h_2 => exact absurd step (by simp)
  | send answer =>
    simp only [Relay.step, sendStep] at step
    split at step
    case h_1 pc _ =>
      rw [inUse, pc]
      exact used
    case h_2 => exact absurd step (by simp)
  | main | control | mainInit _ | controlInit _ | create _ | line _ =>
    exact absurd used List.not_mem_nil

/-- When `main` has returned there is no context anywhere. -/
theorem held_of_returned (settled : s.Settled) (returned : s.main = .returned) : s.held = [] := by
  have gone : s.control.inHand = [] := by
    rcases settled.joined (by rw [returned]; rfl) with absent | ended
    · rw [absent]
      rfl
    · rw [ended]
      rfl
  rw [held, gone, rxHeld, txHeld, returned]
  rfl

/-- In every interleaving of the two threads, whatever fails: no call works on a context
that has been closed, and none is made on one; no context is closed twice, and only what
`omni_init` has returned is closed; and when `main` has returned, everything it has
returned has been closed. -/
theorem contexts_closed_once {proto : OmniProtocol} {labels : List RelayLabel}
    (hrun : (machine args).run (start proto) labels = some s) :
    (∀ id ∈ s.inUse, id ∉ closedIds s.log) ∧
      (∀ label t, s.step args label = some t → ∀ id ∈ s.usedBy label, id ∉ closedIds s.log) ∧
      (createdIds s.log).Nodup ∧
      (closedIds s.log).Nodup ∧
      (∀ id ∈ closedIds s.log, id ∈ createdIds s.log) ∧
      (s.main = .returned → (closedIds s.log).Perm (createdIds s.log)) := by
  obtain ⟨settled, -, custody⟩ := ledger_run hrun
  refine ⟨?_, ?_, custody.once, custody.released_once, fun id => custody.created_of_released, ?_⟩
  · exact fun id used => custody.not_released (held_of_inUse used)
  · exact fun label t step id used =>
      custody.not_released (held_of_inUse (inUse_of_usedBy step used))
  · intro returned
    rw [held_of_returned settled returned] at custody
    exact custody.released_all

/-- Over TCP a `set` is in progress when the main thread starts to shut down: the new
context is opened before `rx_ctx` is closed and installed after it. -/
private def lateSet : List RelayLabel :=
  [.mainInit (.tcp .little true), .mainInit (.tcp .little true), .main, .create true, .main,
    .control, .line (.set "10.0.0.2" 9003), .recv (.tcp [.error]), .main,
    .controlInit (.tcp .little true), .main, .control, .control, .control, .main, .main, .main]

theorem contexts_closed_once_lateSet : ∃ s,
    (machine ⟨9001, "10.0.0.1", 9002⟩).run (start .tcp) lateSet = some s ∧
      s.main = .returned ∧ createdIds s.log = [0, 1, 2] ∧
      (closedIds s.log).Perm (createdIds s.log) := by
  have ends : ∃ s, (machine ⟨9001, "10.0.0.1", 9002⟩).run (start .tcp) lateSet = some s ∧
      decide (s.main = .returned ∧ createdIds s.log = [0, 1, 2]) = true :=
    (Option.any_eq_true _ _).mp (by decide +kernel)
  obtain ⟨s, hrun, facts⟩ := ends
  obtain ⟨returned, opened⟩ := of_decide_eq_true facts
  exact ⟨s, hrun, returned, opened, (contexts_closed_once hrun).2.2.2.2.2 returned⟩

end Relay

end OmniSocket
