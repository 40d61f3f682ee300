/-
# The relay

`relay_main.c` receives messages on one context and forwards each of them on
another, which a control thread can replace at any time. The main thread runs
the forwarding loop, the control thread reads commands; both call
`relay_set_target`, the main thread once before it starts the other. The mutex
protects the forwarding context and the names of its target. What is done under
it is one step here, so a step that takes it needs it to be free: it is held
only while `omni_send` has not returned.

The log is not part of the program. It records what was done with which context,
in order.
-/

import OmniSocket.Network

set_option autoImplicit false

namespace OmniSocket

/-- A context `omni_init` has returned. The number tells it from all others. -/
structure RelayContext where
  id : ℕ
  ctx : OmniContext
  deriving DecidableEq, Repr

/-- A forwarding context with the pair it was created with. -/
structure RelayTarget extends RelayContext where
  ip : String
  port : UInt16
  deriving DecidableEq, Repr

/-- What a thread is about to do inside `relay_set_target`. -/
inductive SetTargetPc
  /-- `omni_init(OMNI_ROLE_CLIENT, st->proto, NULL, 0, ip, port)`. -/
  | init (ip : String) (port : UInt16)
  /-- The section under the mutex. -/
  | install (new : RelayTarget)
  /-- `omni_close(old_tx)`. -/
  | close (old : RelayTarget)
  deriving DecidableEq, Repr

/-- Where the main thread stands in `main`. -/
inductive RelayMainPc
  /-- `omni_init(OMNI_ROLE_SERVER, ...)`. -/
  | initRx
  /-- In the first `relay_set_target`. -/
  | setTarget (pc : SetTargetPc)
  /-- `pthread_create`. -/
  | create
  /-- `while (atomic_load(&st.running))`. -/
  | loopTest
  /-- Inside `omni_recv(st.rx_ctx, buf, sizeof(buf))`. -/
  | receiving
  /-- Before the section under the mutex, with `n` bytes in `buf`. -/
  | forwarding (msg : List UInt8)
  /-- Inside `omni_send`, which has not returned; the mutex is held. -/
  | sending (msg : List UInt8)
  /-- `atomic_store(&st.running, 0)`. -/
  | stopping
  /-- `omni_close(st.rx_ctx)`. -/
  | closeRx
  /-- `pthread_join`. -/
  | join
  /-- The last section under the mutex. -/
  | takeTx
  /-- `omni_close(tx)`. -/
  | closeTx (tx : RelayTarget)
  /-- `omni_close(st.rx_ctx)`, when no thread could be created. -/
  | abortRx
  /-- `omni_close(st.tx_ctx)` after it, if there is one. -/
  | abortTx
  /-- Returned from `main`. -/
  | returned
  deriving DecidableEq, Repr

/-- What the control thread makes of one line. -/
inductive RelayCommand
  | set (ip : String) (port : UInt16)
  | quit
  /-- `show`, an unknown or empty line, or no line at all. -/
  | other
  deriving DecidableEq, Repr

/-- Where the control thread stands in `control_thread_main`. -/
inductive RelayControlPc
  /-- Not created. -/
  | absent
  /-- `while (atomic_load(&st->running))`. -/
  | loopTest
  /-- `fgets`. -/
  | reading
  /-- In `relay_set_target`. -/
  | setTarget (pc : SetTargetPc)
  | ended
  deriving DecidableEq, Repr

/-- What was done with a context, or with a message. -/
inductive RelayEvent
  /-- `omni_init` returned the context `id`. -/
  | created (id : ℕ)
  /-- `omni_recv` returned a message. -/
  | received (msg : List UInt8)
  /-- `omni_send` was called on a context as it was then; the result is missing if
  the call has not returned. -/
  | handed (tx : RelayTarget) (msg : List UInt8) (answer : SendAnswer) (result : Option ℤ)
  /-- There was no forwarding context. -/
  | dropped (msg : List UInt8)
  /-- The section under the mutex in `relay_set_target`. -/
  | installed (new : RelayTarget)
  /-- `omni_close`, on a context as it was then. -/
  | closed (c : RelayContext)
  deriving DecidableEq, Repr

/-- `RelayState`, the control points of both threads and the log. -/
structure Relay where
  proto : OmniProtocol
  rxCtx : Option RelayContext
  txCtx : Option RelayTarget
  running : Bool
  targetIp : String
  targetPort : UInt16
  main : RelayMainPc
  control : RelayControlPc
  /-- How many contexts there have been. -/
  created : ℕ
  log : List RelayEvent
  deriving DecidableEq, Repr

/-- The arguments of the relay, checked by `main`. -/
structure RelayArgs where
  listenPort : UInt16
  targetIp : String
  targetPort : UInt16
  deriving DecidableEq, Repr

/-- What can happen next: which thread moves, and what the outside answers. -/
inductive RelayLabel
  /-- The main thread moves where nothing outside decides. -/
  | main
  /-- The control thread does. -/
  | control
  /-- `omni_init` returns in the main thread. -/
  | mainInit (answer : InitAnswer)
  /-- `omni_init` returns in the control thread. -/
  | controlInit (answer : InitAnswer)
  /-- `pthread_create` succeeds or not. -/
  | create (ok : Bool)
  /-- `omni_recv` returns. -/
  | recv (answer : RecvAnswer)
  /-- The mutex is taken and `omni_send` is called. -/
  | send (answer : SendAnswer)
  /-- The control thread has read a line. -/
  | line (command : RelayCommand)

namespace Relay

/-- The relay once `main` has checked its arguments. -/
def start (proto : OmniProtocol) : Relay where
  proto := proto
  rxCtx := none
  txCtx := none
  running := true
  targetIp := ""
  targetPort := 0
  main := .initRx
  control := .absent
  created := 0
  log := []

/-- What `snprintf` leaves of a string in `target_ip`. A character stands for a
byte. -/
def snprintfIp (ip : String) : String := String.ofList (ip.toList.take 63)

/-- `tx_mu` is free. -/
def Unlocked (s : Relay) : Prop := ∀ msg, s.main ≠ .sending msg

instance (s : Relay) : Decidable s.Unlocked :=
  match pc : s.main with
  | .sending msg => isFalse fun free => free msg pc
  | .initRx | .setTarget _ | .create | .loopTest | .receiving | .forwarding _ | .stopping
  | .closeRx | .join | .takeTx | .closeTx _ | .abortRx | .abortTx | .returned =>
    isTrue fun msg held => by rw [pc] at held; exact nomatch held

/-- `omni_init` in `relay_set_target`: where the call goes on, if it does not
return. -/
def setTargetInit (s : Relay) (ip : String) (port : UInt16) (answer : InitAnswer) :
    Relay × Option SetTargetPc :=
  match omniInit .client s.proto none 0 (some ip) port answer with
  | none => (s, none)
  | some ctx =>
    ({ s with created := s.created + 1, log := s.log ++ [.created s.created] },
      some (.install { id := s.created, ctx := ctx, ip := ip, port := port }))

/-- The section under the mutex in `relay_set_target`. -/
def setTargetInstall (s : Relay) (new : RelayTarget) : Relay × Option SetTargetPc :=
  ({ s with
      txCtx := some new
      targetIp := snprintfIp new.ip
      targetPort := new.port
      log := s.log ++ [.installed new] },
    s.txCtx.map .close)

/-- `omni_close`. -/
def omniClose (s : Relay) (c : RelayContext) : Relay := { s with log := s.log ++ [.closed c] }

/-- A step of `relay_set_target` that nothing outside decides. -/
def setTargetStep (s : Relay) : SetTargetPc → Option (Relay × Option SetTargetPc)
  | .init _ _ => none
  | .install new => if s.Unlocked then some (s.setTargetInstall new) else none
  | .close old => some (s.omniClose old.toRelayContext, none)

/-- Such a step is one of two. -/
theorem setTargetStep_cases {s : Relay} {pc : SetTargetPc} {next : Relay × Option SetTargetPc}
    (step : s.setTargetStep pc = some next) :
    (∃ new, pc = .install new ∧ s.Unlocked ∧ next = s.setTargetInstall new) ∨
      ∃ old, pc = .close old ∧ next = (s.omniClose old.toRelayContext, none) := by
  cases pc with
  | init ip port => cases step
  | install new =>
    simp only [setTargetStep, Option.ite_none_right_eq_some, Option.some.injEq] at step
    exact .inl ⟨new, rfl, step.1, step.2.symm⟩
  | close old => exact .inr ⟨old, rfl, (Option.some.inj step).symm⟩

/-- A whole call of `relay_set_target` in which no other thread moves: its result and
the state it leaves, if it gets the mutex. -/
def relaySetTarget (s : Relay) (ip : String) (port : UInt16) (answer : InitAnswer) :
    Option (ℤ × Relay) :=
  match s.setTargetInit ip port answer with
  | (s, none) => some (omniErrIo, s)
  | (s, some pc) =>
    match s.setTargetStep pc with
    | none => none
    | some (s, none) => some (omniOk, s)
    | some (s, some pc) => (s.setTargetStep pc).map fun (s, _) => (omniOk, s)

/-- The main thread goes on after a step of its `relay_set_target`. -/
def mainSet : Relay × Option SetTargetPc → Relay
  | (s, some pc) => { s with main := .setTarget pc }
  | (s, none) => { s with main := .create }

/-- The control thread goes on after a step of its `relay_set_target`. -/
def controlSet : Relay × Option SetTargetPc → Relay
  | (s, some pc) => { s with control := .setTarget pc }
  | (s, none) => { s with control := .loopTest }

/-- The steps of the main thread that nothing outside decides. -/
def mainStep (s : Relay) : Option Relay :=
  match s.main with
  | .setTarget pc => (s.setTargetStep pc).map mainSet
  | .loopTest => some { s with main := if s.running then .receiving else .stopping }
  | .forwarding msg =>
    if s.txCtx = none then some { s with main := .loopTest, log := s.log ++ [.dropped msg] }
    else none
  | .stopping => some { s with main := .closeRx, running := false }
  | .closeRx => s.rxCtx.map fun rx => { s.omniClose rx with main := .join }
  | .join => if s.control = .ended then some { s with main := .takeTx } else none
  | .takeTx =>
    match s.txCtx with
    | some tx => some { s with main := .closeTx tx, txCtx := none }
    | none => some { s with main := .returned }
  | .closeTx tx => some { s.omniClose tx.toRelayContext with main := .returned }
  | .abortRx => s.rxCtx.map fun rx => { s.omniClose rx with main := .abortTx }
  | .abortTx =>
    match s.txCtx with
    | some tx => some { s.omniClose tx.toRelayContext with main := .returned }
    | none => some { s with main := .returned }
  | _ => none

/-- The steps of the control thread that nothing outside decides. -/
def controlStep (s : Relay) : Option Relay :=
  match s.control with
  | .loopTest => some { s with control := if s.running then .reading else .ended }
  | .setTarget pc => (s.setTargetStep pc).map controlSet
  | _ => none

/-- `omni_init` returns in the main thread. -/
def mainInitStep (args : RelayArgs) (s : Relay) (answer : InitAnswer) : Option Relay :=
  match s.main with
  | .initRx =>
    match omniInit .server s.proto none args.listenPort none 0 answer with
    | none => some { s with main := .returned }
    | some ctx =>
      some { s with
        rxCtx := some { id := s.created, ctx := ctx }
        created := s.created + 1
        log := s.log ++ [.created s.created]
        main := .setTarget (.init args.targetIp args.targetPort) }
  | .setTarget (.init ip port) => some (mainSet (s.setTargetInit ip port answer))
  | _ => none

/-- `omni_recv` returns, and the loop looks at the result. -/
def recvStep (s : Relay) (answer : RecvAnswer) : Option Relay :=
  match s.main, s.rxCtx with
  | .receiving, some rx =>
    (omniRecv rx.ctx frameBufSize answer).map fun (n, buf, ctx) =>
      let s := { s with rxCtx := some { rx with ctx := ctx } }
      if n < 0 then { s with main := .stopping }
      else if n = 0 then { s with main := .loopTest }
      else
        { s with
          main := .forwarding (buf.take n.toNat)
          log := s.log ++ [.received (buf.take n.toNat)] }
  | _, _ => none

/-- The section under the mutex in the loop, with a forwarding context. -/
def sendStep (s : Relay) (answer : SendAnswer) : Option Relay :=
  match s.main, s.txCtx with
  | .forwarding msg, some tx =>
    if answer.Fits tx.ctx msg then
      match omniSend tx.ctx msg answer with
      | some (m, ctx) =>
        some { s with
          main := .loopTest
          txCtx := some { tx with ctx := ctx }
          log := s.log ++ [.handed tx msg answer (some m)] }
      | none =>
        some { s with main := .sending msg, log := s.log ++ [.handed tx msg answer none] }
    else none
  | _, _ => none

/-- The control thread has read a line. -/
def lineStep (s : Relay) (command : RelayCommand) : Option Relay :=
  match s.control with
  | .reading =>
    match command with
    | .set ip port => some { s with control := .setTarget (.init ip port) }
    | .quit => some { s with control := .ended, running := false }
    | .other => some { s with control := .loopTest }
  | _ => none

/-- One step of the relay. -/
def step (args : RelayArgs) (s : Relay) : RelayLabel → Option Relay
  | .main => s.mainStep
  | .control => s.controlStep
  | .mainInit answer => s.mainInitStep args answer
  | .controlInit answer =>
    match s.control with
    | .setTarget (.init ip port) => some (controlSet (s.setTargetInit ip port answer))
    | _ => none
  | .create ok =>
    match s.main with
    | .create =>
      some (if ok then { s with main := .loopTest, control := .loopTest }
        else { s with main := .abortRx })
    | _ => none
  | .recv answer => s.recvStep answer
  | .send answer => s.sendStep answer
  | .line command => s.lineStep command

end Relay

end OmniSocket
