/-
# Targets that are not addresses

`relay_set_target` keeps the old target if `omni_init` fails, so a string that is not
an address does no harm as long as `omni_init` fails on it. `inet_addr` turns such a
string into 255.255.255.255 and no transport looks at what it returns. Over TCP
`connect` fails on it; over UDP and KCP nothing does, and the new target takes the
place of one that worked.
-/

import OmniSocket.RelayRouting
import OmniSocket.TcpInit

set_option autoImplicit false

namespace OmniSocket

open Lib

variable (inetAddr : String → UInt32)

/-! ## What `omni_init` makes of such a string -/

/-- `inet_addr` finds an address in the string. -/
def Usable (ip : String) : Prop := inetAddr ip ≠ inaddrNone

instance (ip : String) : Decidable (Usable inetAddr ip) :=
  inferInstanceAs (Decidable (inetAddr ip ≠ inaddrNone))

/-- The answer is one to `omni_init` with this peer, where `inet_addr` is `inetAddr` and
no connection to 255.255.255.255 is made. -/
def InitAnswer.Of (ip : String) (port : UInt16) : InitAnswer → Prop
  | .tcp _ opened => ∃ env : TcpEnv, env.inetAddr = inetAddr ∧ env.RefusesBroadcast ∧
      opened = tcpInit env .client none 0 (some ip) port
  | .udp env => env.inetAddr = inetAddr
  | .kcp env => env.inetAddr = inetAddr

/-- `udp_init` or `kcp_init` gets the memory and the socket it asks for. -/
def InitAnswer.Supplies (proto : OmniProtocol) (answer : InitAnswer) : Prop :=
  match proto, answer with
  | .udp, .udp env => env.calloc ∧ env.socket
  | .kcp, .kcp env => env.calloc ∧ env.socket ∧ env.create
  | _, _ => False

/-- Without an address, TCP fails, and the others fail only for want of something else. -/
theorem omniInit_eq_none_iff {inetAddr : String → UInt32} {ip : String} {port : UInt16}
    {answer : InitAnswer} (given : answer.Of inetAddr ip port) (unusable : ¬ Usable inetAddr ip)
    (proto : OmniProtocol) :
    omniInit .client proto none 0 (some ip) port answer = none ↔
      proto = .tcp ∨ ¬ answer.Supplies proto := by
  have broadcast : inetAddr ip = inaddrNone := not_not.mp unusable
  cases answer with
  | tcp host opened =>
    -- the only answer a `tcp_init` without an address gets
    obtain ⟨env, rfl, refuses, rfl⟩ := given
    have refused := tcpInit_of_inaddrNone refuses broadcast none 0 port
    cases proto <;> simp [omniInit, refused, InitAnswer.Supplies]
  | udp env =>
    cases proto <;> simp [omniInit, udpInit, SocketEnv.opens, InitAnswer.Supplies]
  | kcp env =>
    cases proto <;> simp [omniInit, kcpInit, SocketEnv.opens, InitAnswer.Supplies]

namespace Relay

/-! ## One call -/

/-- The call returns an error and leaves the target as it was. -/
def Rejects (s : Relay) (ip : String) (port : UInt16) (answer : InitAnswer) : Prop :=
  ∃ result t, s.relaySetTarget ip port answer = some (result, t) ∧ result < 0 ∧
    t.txCtx = s.txCtx ∧ t.targetIp = s.targetIp ∧ t.targetPort = s.targetPort

/-- Once `omni_init` has returned a context, no error is returned. -/
theorem relaySetTarget_eq_omniOk {s t : Relay} {ip : String} {port : UInt16} {answer : InitAnswer}
    {ctx : OmniContext} {result : ℤ}
    (opened : omniInit .client s.proto none 0 (some ip) port answer = some ctx)
    (call : s.relaySetTarget ip port answer = some (result, t)) : result = omniOk := by
  simp only [relaySetTarget, setTargetInit, opened] at call
  split at call
  case h_1 => cases call
  case h_2 => exact (congrArg Prod.fst (Option.some.inj call)).symm
  case h_3 =>
    obtain ⟨_, _, same⟩ := Option.map_eq_some_iff.mp call
    exact (congrArg Prod.fst same).symm

theorem rejects_iff {s : Relay} {ip : String} {port : UInt16} {answer : InitAnswer} :
    s.Rejects ip port answer ↔ omniInit .client s.proto none 0 (some ip) port answer = none := by
  constructor
  · rintro ⟨result, t, call, error, -⟩
    cases made : omniInit .client s.proto none 0 (some ip) port answer with
    | none => rfl
    | some ctx =>
      rw [relaySetTarget_eq_omniOk made call] at error
      exact absurd error (by decide)
  · intro failed
    refine ⟨omniErrIo, s, ?_, by decide, rfl, rfl, rfl⟩
    simp only [relaySetTarget, setTargetInit, failed]

variable {args : RelayArgs} {s t : Relay}

/-! ## Whole runs -/

/-- A thread is in `relay_set_target`, and `omni_init` answers. -/
def Sets (s : Relay) (ip : String) (port : UInt16) (answer : InitAnswer) : RelayLabel → Prop
  | .mainInit given => s.main = .setTarget (.init ip port) ∧ given = answer
  | .controlInit given => s.control = .setTarget (.init ip port) ∧ given = answer
  | _ => False

theorem created_setTargetStep {pc : SetTargetPc} {next : Relay × Option SetTargetPc}
    (step : s.setTargetStep pc = some next) : next.1.created = s.created := by
  rcases setTargetStep_cases step with ⟨new, -, -, rfl⟩ | ⟨old, -, rfl⟩ <;> rfl

/-- Contexts are created by `omni_init` alone. -/
theorem created_of_step {label : RelayLabel} (step : s.step args label = some t)
    (other : ∀ answer, label ≠ .mainInit answer ∧ label ≠ .controlInit answer) :
    t.created = s.created := by
  cases label with
  | main =>
    simp only [Relay.step, mainStep] at step
    split at step
    case h_1 pc _ =>
      obtain ⟨⟨u, next⟩, sstep, rfl⟩ := Option.map_eq_some_iff.mp step
      have same := created_setTargetStep sstep
      cases next <;> exact same
    -- no other step of the main thread touches the count
    all_goals grind [omniClose, Option.map_eq_some_iff]
  | control =>
    simp only [Relay.step, controlStep] at step
    split at step
    case h_2 pc _ =>
      obtain ⟨⟨u, next⟩, sstep, rfl⟩ := Option.map_eq_some_iff.mp step
      have same := created_setTargetStep sstep
      cases next <;> exact same
    all_goals grind
  | mainInit answer => exact absurd rfl (other answer).1
  | controlInit answer => exact absurd rfl (other answer).2
  | create ok =>
    simp only [Relay.step] at step
    grind
  | recv answer =>
    simp only [Relay.step, recvStep] at step
    grind [Option.map_eq_some_iff]
  | send answer =>
    simp only [Relay.step, sendStep] at step
    grind
  | line command =>
    simp only [Relay.step, lineStep] at step
    grind

/-- A context that a thread is now about to install has just been created. -/
theorem Move.created_of_installs {new : RelayTarget} (move : Move args s t)
    (pending : t.Installs new) : s.Installs new ∨ t.created = s.created + 1 := by
  cases move with
  | txCreated _ _ _ _ _ _ _ same => exact .inr (congrArg Relay.created same)
  | installed _ _ _ _ installs => exact absurd pending (installs new)
  | closedOld _ _ _ installs => exact absurd pending (installs new)
  | quiet _ set => exact .inl ((set.installs new).mp pending)
  | closed _ _ set => exact .inl ((set.installs new).mp pending)
  | takeTx _ set => exact .inl ((set.installs new).mp pending)
  | rxCreated _ _ _ _ set => exact .inl ((set.installs new).mp pending)
  | polled _ _ _ _ _ _ _ _ _ set => exact .inl ((set.installs new).mp pending)
  | received _ _ _ _ _ _ _ _ _ _ set => exact .inl ((set.installs new).mp pending)
  | dropped _ _ _ _ set => exact .inl ((set.installs new).mp pending)
  | handed _ _ _ _ _ _ _ _ _ _ set => exact .inl ((set.installs new).mp pending)
  | stuck _ _ _ _ _ _ _ _ set => exact .inl ((set.installs new).mp pending)

/-- What is installed was pending. -/
theorem Move.pending_of_installed {new : RelayTarget} (move : Move args s t)
    (listed : new ∈ RelayEvent.installs t.log) :
    new ∈ RelayEvent.installs s.log ∨ s.Installs new := by
  cases move with
  | installed other pending _ _ _ _ same =>
    rw [same] at listed
    simp only [RelayEvent.installs, List.filterMap_append, List.filterMap_cons,
      List.filterMap_nil, List.mem_append, List.mem_singleton] at listed
    rcases listed with before | rfl
    · exact .inl before
    · exact .inr pending
  | quiet _ _ same | closed _ _ _ same | takeTx _ _ _ same | rxCreated _ _ _ _ _ same
  | txCreated _ _ _ _ _ _ _ same | closedOld _ _ _ _ _ same | polled _ _ _ _ _ _ _ _ _ _ same
  | received _ _ _ _ _ _ _ _ _ _ _ same | dropped _ _ _ _ _ same
  | handed _ _ _ _ _ _ _ _ _ _ _ same | stuck _ _ _ _ _ _ _ _ _ same =>
    rw [same] at listed
    simp only [RelayEvent.installs, List.filterMap_append, List.filterMap_cons,
      List.filterMap_nil, List.append_nil] at listed
    exact .inl listed

/-- What `omni_init` leaves to be installed has the names it was called with. -/
theorem init_of_pending {ip : String} {port : UInt16} {answer : InitAnswer} {new : RelayTarget}
    (pending : (s.setTargetInit ip port answer).2 = some (.install new)) :
    new.ip = ip ∧ new.port = port ∧
      omniInit .client s.proto none 0 (some ip) port answer = some new.ctx := by
  unfold setTargetInit at pending
  split at pending
  case h_1 => cases pending
  case h_2 ctx opened =>
    obtain rfl := SetTargetPc.install.inj (Option.some.inj pending)
    exact ⟨rfl, rfl, opened⟩

theorem installs_mainSet {next : Relay × Option SetTargetPc} {new : RelayTarget}
    (pending : (mainSet next).Installs new) :
    next.2 = some (.install new) ∨ next.1.control = .setTarget (.install new) := by
  obtain ⟨u, pc | pc⟩ := next
  · rcases pending with main | control
    · cases main
    · exact .inr control
  · rcases pending with main | control
    · exact .inl (congrArg some (RelayMainPc.setTarget.inj main))
    · exact .inr control

theorem installs_controlSet {next : Relay × Option SetTargetPc} {new : RelayTarget}
    (pending : (controlSet next).Installs new) :
    next.2 = some (.install new) ∨ next.1.main = .setTarget (.install new) := by
  obtain ⟨u, pc | pc⟩ := next
  · rcases pending with main | control
    · exact .inr main
    · cases control
  · rcases pending with main | control
    · exact .inr main
    · exact .inl (congrArg some (RelayControlPc.setTarget.inj control))

/-- A new forwarding context comes from a call of `relay_set_target`. -/
theorem installs_of_step {label : RelayLabel} {new : RelayTarget} (alone : s.Alone)
    (step : s.step args label = some t) (pending : t.Installs new) :
    s.Installs new ∨ ∃ answer, s.Sets new.ip new.port answer label ∧
      omniInit .client s.proto none 0 (some new.ip) new.port answer = some new.ctx := by
  cases label with
  | mainInit answer =>
    simp only [Relay.step, mainInitStep] at step
    split at step
    case h_1 pc =>
      split at step
      all_goals
        obtain rfl := Option.some.inj step
        rcases pending with main | control
        · cases main
        · exact .inl (.inr control)
    case h_2 ip port pc =>
      obtain rfl := Option.some.inj step
      rcases installs_mainSet pending with made | control
      · obtain ⟨rfl, rfl, opened⟩ := init_of_pending made
        exact .inr ⟨answer, ⟨pc, rfl⟩, opened⟩
      · exact .inl (.inr ((points_setTargetInit s ip port answer).2.symm.trans control))
    case h_3 => cases step
  | controlInit answer =>
    simp only [Relay.step] at step
    split at step
    case h_1 ip port pc =>
      obtain rfl := Option.some.inj step
      rcases installs_controlSet pending with made | main
      · obtain ⟨rfl, rfl, opened⟩ := init_of_pending made
        exact .inr ⟨answer, ⟨pc, rfl⟩, opened⟩
      · exact .inl (.inl ((points_setTargetInit s ip port answer).1.symm.trans main))
    case h_2 => cases step
  | main | control | create | recv | send | line =>
    have same := created_of_step step (by simp)
    refine .inl (((move_of_step alone step).created_of_installs pending).resolve_right ?_)
    rw [same]
    exact (Nat.succ_ne_self _).symm

/-- If `omni_init` returns a context, the thread is about to install it. -/
theorem installs_of_sets (args : RelayArgs) {label : RelayLabel} {ip : String} {port : UInt16}
    {answer : InitAnswer} {ctx : OmniContext} (sets : s.Sets ip port answer label)
    (opened : omniInit .client s.proto none 0 (some ip) port answer = some ctx) :
    ∃ t, s.step args label = some t ∧ t.Installs ⟨⟨s.created, ctx⟩, ip, port⟩ := by
  cases label with
  | mainInit given =>
    obtain ⟨pc, rfl⟩ := sets
    refine ⟨mainSet (s.setTargetInit ip port given), ?_, .inl ?_⟩
    · simp only [Relay.step, mainInitStep, pc]
    · simp only [setTargetInit, opened, mainSet]
  | controlInit given =>
    obtain ⟨pc, rfl⟩ := sets
    refine ⟨controlSet (s.setTargetInit ip port given), ?_, .inr ?_⟩
    · simp only [Relay.step, pc]
    · simp only [setTargetInit, opened, controlSet]
  | main | control | create | recv | send | line => exact absurd sets id

/-- In the step, the outside answers as it does with this `inet_addr`. -/
def Given (s : Relay) (label : RelayLabel) : Prop :=
  ∀ ip port answer, s.Sets ip port answer label → answer.Of inetAddr ip port

/-- If the step sets a target without an address, it is over TCP or `omni_init` does
not get all it asks for. -/
def Guarded (s : Relay) (label : RelayLabel) : Prop :=
  ∀ ip port answer, s.Sets ip port answer label → ¬ Usable inetAddr ip →
    s.proto = .tcp ∨ ¬ answer.Supplies s.proto

/-- The last target installed among those that have an address. -/
def lastUsable (log : List RelayEvent) : Option (ℕ × String × UInt16) :=
  ((RelayEvent.installs log).filter fun new => decide (Usable inetAddr new.ip)).getLast?.map
    RelayTarget.name

/-- No target without an address has been installed, or is about to be. -/
def OnlyUsable (s : Relay) : Prop :=
  ∀ new, s.Installs new ∨ new ∈ RelayEvent.installs s.log → Usable inetAddr new.ip

/-- The relay has kept to the last target that has an address. -/
structure KeepsTarget (s : Relay) : Prop where
  replaced : s.OnlyUsable inetAddr
  /-- Every message went to the last target with an address, and was dropped only while
  there was none. -/
  routed : ∀ before event after, s.log = before ++ event :: after →
    (∀ tx msg answer result, event = .handed tx msg answer result →
      lastUsable inetAddr before = some tx.name) ∧
    ∀ msg, event = .dropped msg → lastUsable inetAddr before = none
  /-- It is the one in `tx_ctx` until the relay shuts down. -/
  current : s.Open → lastUsable inetAddr s.log = s.txCtx.map RelayTarget.name
  names : ∀ tx, s.txCtx = some tx → s.targetIp = snprintfIp tx.ip ∧ s.targetPort = tx.port

section Runs

variable {inetAddr : String → UInt32}

theorem lastUsable_eq {log : List RelayEvent}
    (usable : ∀ new ∈ RelayEvent.installs log, Usable inetAddr new.ip) :
    lastUsable inetAddr log = lastInstalled log := by
  have all : (RelayEvent.installs log).filter (fun new => decide (Usable inetAddr new.ip)) =
      RelayEvent.installs log :=
    List.filter_eq_self.mpr fun new listed => decide_eq_true (usable new listed)
  rw [lastUsable, all, lastInstalled]

/-- A relay that routes and holds no target without an address keeps to the last one
that has an address. -/
theorem Routes.keepsTarget (routes : s.Routes) (replaced : s.OnlyUsable inetAddr) :
    s.KeepsTarget inetAddr where
  replaced := replaced
  routed := by
    intro before event after split
    have usable : ∀ new ∈ RelayEvent.installs before, Usable inetAddr new.ip := by
      intro new listed
      refine replaced new (.inr ?_)
      rw [split, RelayEvent.installs, List.filterMap_append]
      exact List.mem_append_left _ listed
    rw [lastUsable_eq usable]
    exact routes.routed before event after split
  current := by
    intro still
    rw [lastUsable_eq fun new listed => replaced new (.inr listed)]
    exact routes.current still
  names := routes.names

/-- A guarded step brings in no target without an address. -/
theorem OnlyUsable.step {label : RelayLabel} (replaced : s.OnlyUsable inetAddr) (alone : s.Alone)
    (given : Given inetAddr s label) (guarded : Guarded inetAddr s label)
    (step : s.step args label = some t) : t.OnlyUsable inetAddr := by
  rintro new (pending | listed)
  · rcases installs_of_step alone step pending with before | ⟨answer, sets, opened⟩
    · exact replaced new (.inl before)
    · by_contra unusable
      -- `omni_init` would have failed
      have failed := (omniInit_eq_none_iff (given _ _ _ sets) unusable s.proto).mpr
        (guarded _ _ _ sets unusable)
      cases failed.symm.trans opened
  · rcases (move_of_step alone step).pending_of_installed listed with before | pending
    · exact replaced new (.inr before)
    · exact replaced new (.inl pending)

/-- In a run all of whose steps are guarded. -/
theorem keepsTarget_of_guarded {proto : OmniProtocol} {labels : List RelayLabel}
    (hrun : (machine args).run (start proto) labels = some s)
    (given : (machine args).Permits (Given inetAddr) (start proto) labels)
    (guarded : (machine args).Permits (Guarded inetAddr) (start proto) labels) :
    s.KeepsTarget inetAddr := by
  have routes : s.Routes :=
    invariant_of_moves (fun _ _ before move => routes_move before move) (routes_start proto) hrun
  have both : (machine args).Permits (fun s label => Given inetAddr s label ∧
      Guarded inetAddr s label) (start proto) labels := by
    refine (machine args).permits_iff.mpr fun before label after u split reached => ⟨?_, ?_⟩
    · exact (machine args).permits_iff.mp given before label after u split reached
    · exact (machine args).permits_iff.mp guarded before label after u split reached
  have last : s.Alone ∧ s.OnlyUsable inetAddr := by
    refine (machine args).run_invariant_of_permits
      (I := fun s => s.Alone ∧ s.OnlyUsable inetAddr) ?_ ⟨alone_start proto, ?_⟩ both hrun
    · rintro s label t ⟨alone, replaced⟩ ⟨given, guarded⟩ step
      exact ⟨alone.steers (steers_of_step step), replaced.step alone given guarded step⟩
    · intro new held
      simp [Installs, start, RelayEvent.installs] at held
  exact routes.keepsTarget last.2

/-- The whole run keeps to the last target with an address exactly if every step is
guarded. -/
theorem keepsTarget_iff {proto : OmniProtocol} {labels : List RelayLabel}
    (hrun : (machine args).run (start proto) labels = some s)
    (given : (machine args).Permits (Given inetAddr) (start proto) labels) :
    (∀ before after u, labels = before ++ after →
      (machine args).run (start proto) before = some u → u.KeepsTarget inetAddr) ↔
      (machine args).Permits (Guarded inetAddr) (start proto) labels := by
  constructor
  · intro keeps
    refine (machine args).permits_iff.mpr fun before label after u split reached => ?_
    intro ip port answer sets unusable
    by_contra unguarded
    have fits := (machine args).permits_iff.mp given before label after u split reached
    -- then `omni_init` returns a context, and the thread is about to install it
    have opens := mt (omniInit_eq_none_iff (fits _ _ _ sets) unusable u.proto).mp unguarded
    obtain ⟨ctx, opened⟩ := Option.ne_none_iff_exists'.mp opens
    obtain ⟨t, step, pending⟩ := installs_of_sets args sets opened
    have next : (machine args).run (start proto) (before ++ [label]) = some t :=
      (machine args).run_append_eq_some.mpr
        ⟨u, reached, (machine args).run_cons_eq_some.mpr ⟨t, step, rfl⟩⟩
    have whole : labels = (before ++ [label]) ++ after := by rw [split, List.append_cons]
    exact unusable ((keeps _ after t whole next).replaced _ (.inl pending))
  · rintro guarded before after u rfl reached
    exact keepsTarget_of_guarded reached given.before guarded.before

end Runs

/-- `relay_set_target` rejects a string that is not an address exactly if it connects
over TCP or `omni_init` lacks something else, and a run keeps to the last target with an
address exactly if every such string in it is rejected so. -/
theorem relay_keeps_target_iff :
    (∀ (s : Relay) (ip : String) (port : UInt16) (answer : InitAnswer),
      answer.Of inetAddr ip port → ¬ Usable inetAddr ip →
        (s.Rejects ip port answer ↔ s.proto = .tcp ∨ ¬ answer.Supplies s.proto)) ∧
    ∀ (args : RelayArgs) (proto : OmniProtocol) (labels : List RelayLabel) (s : Relay),
      (machine args).run (start proto) labels = some s →
      (machine args).Permits (Given inetAddr) (start proto) labels →
        ((∀ before after u, labels = before ++ after →
          (machine args).run (start proto) before = some u → u.KeepsTarget inetAddr) ↔
          (machine args).Permits (Guarded inetAddr) (start proto) labels) := by
  refine ⟨fun s ip port answer given unusable => ?_, fun args proto labels s hrun given => ?_⟩
  · exact rejects_iff.trans (omniInit_eq_none_iff given unusable s.proto)
  · exact keepsTarget_iff hrun given

/-- A resolver that knows one address. -/
private def loopbackOnly (ip : String) : UInt32 :=
  if ip = "127.0.0.1" then 0x0100007f else inaddrNone

/-- Where nothing fails but a connection to 255.255.255.255. -/
private def loopbackEnv : TcpEnv where
  inetAddr := loopbackOnly
  calloc := true
  socket := true
  bind _ := true
  create := true
  listen := true
  accept := true
  connect peer := peer.addr != inaddrNone

private def bogusArgs : RelayArgs := ⟨9001, "127.0.0.1", 9002⟩

/-- Over UDP, `set bogus 9000` and then a message. -/
private def bogusRun : List RelayLabel :=
  [.mainInit (.udp loopbackEnv.toSocketEnv), .mainInit (.udp loopbackEnv.toSocketEnv), .main,
    .create true, .main, .control, .line (.set "bogus" 9000),
    .controlInit (.udp loopbackEnv.toSocketEnv), .control, .control,
    .recv (.udp (.datagram ⟨⟨40000, 0x0100007f⟩, 16, [1, 2]⟩)), .send (.udp (some 2))]

private theorem given_bogusRun :
    (machine bogusArgs).Permits (Given loopbackOnly) (start .udp) bogusRun := by
  refine (machine bogusArgs).permits_iff.mpr fun before label after u split _ => ?_
  have listed : label ∈ bogusRun := by rw [split]; simp
  simp only [bogusRun, List.mem_cons, List.not_mem_nil, or_false] at listed
  rintro ip port answer sets
  -- every answer to `omni_init` in the run comes from the same resolver
  rcases listed with rfl | rfl | rfl | rfl | rfl | rfl | rfl | rfl | rfl | rfl | rfl | rfl
  all_goals first
    | exact absurd sets id
    | obtain ⟨-, rfl⟩ := sets
      rfl

/-- The context that `set bogus 9000` makes. -/
private def bogusTx : RelayTarget := ⟨⟨2, .udp ⟨⟨9000, inaddrNone⟩, 16⟩⟩, "bogus", 9000⟩

/-- The target that worked is replaced, and the message is sent to 255.255.255.255. In
no state over UDP or KCP is such a target rejected. -/
theorem relay_keeps_target_counterexample :
    ¬ Usable loopbackOnly "bogus" ∧
    (∃ s, (machine bogusArgs).run (start .udp) bogusRun = some s ∧
      (machine bogusArgs).Permits (Given loopbackOnly) (start .udp) bogusRun ∧
      .handed bogusTx [1, 2] (.udp (some 2)) (some 2) ∈ s.log ∧ s.txCtx = some bogusTx ∧
      s.targetIp = "bogus" ∧ ¬ s.KeepsTarget loopbackOnly) ∧
    (∀ s : Relay, s.proto = .udp → ¬ s.Rejects "bogus" 9000 (.udp loopbackEnv.toSocketEnv)) ∧
    ∀ s : Relay, s.proto = .kcp → ¬ s.Rejects "bogus" 9000 (.kcp loopbackEnv.toSocketEnv) := by
  have unusable : ¬ Usable loopbackOnly "bogus" := by decide
  refine ⟨unusable, ?_, ?_, ?_⟩
  · have ends : ∃ s, (machine bogusArgs).run (start .udp) bogusRun = some s ∧
        decide (.handed bogusTx [1, 2] (.udp (some 2)) (some 2) ∈ s.log ∧
          s.txCtx = some bogusTx ∧ s.targetIp = "bogus" ∧
          bogusTx ∈ RelayEvent.installs s.log) = true :=
      (Option.any_eq_true _ _).mp (by decide +kernel)
    obtain ⟨s, hrun, facts⟩ := ends
    obtain ⟨handed, replaced, ip, installed⟩ := of_decide_eq_true facts
    exact ⟨s, hrun, given_bogusRun, handed, replaced, ip, fun keeps =>
      unusable (keeps.replaced bogusTx (.inr installed))⟩
  · intro s udp rejects
    rw [rejects_iff, udp] at rejects
    cases rejects
  · intro s kcp rejects
    rw [rejects_iff, kcp] at rejects
    cases rejects

/-- Over TCP the same command is rejected. -/
theorem relay_keeps_target_iff_bogus :
    (start .tcp).Rejects "bogus" 9000
      (.tcp .little (tcpInit loopbackEnv .client none 0 (some "bogus") 9000)) ∧
    ∃ s, (machine bogusArgs).run (start .udp) bogusRun = some s ∧
      ((∀ before after u, bogusRun = before ++ after →
        (machine bogusArgs).run (start .udp) before = some u → u.KeepsTarget loopbackOnly) ↔
        (machine bogusArgs).Permits (Guarded loopbackOnly) (start .udp) bogusRun) := by
  have ends : ∃ s, (machine bogusArgs).run (start .udp) bogusRun = some s ∧ true = true :=
    (Option.any_eq_true _ _).mp (by decide +kernel)
  obtain ⟨s, hrun, -⟩ := ends
  refine ⟨?_, s, hrun, ?_⟩
  · have refuses : loopbackEnv.RefusesBroadcast := by
      intro port
      rfl
    have given : InitAnswer.Of loopbackOnly "bogus" 9000
        (.tcp .little (tcpInit loopbackEnv .client none 0 (some "bogus") 9000)) :=
      ⟨loopbackEnv, rfl, refuses, rfl⟩
    exact ((relay_keeps_target_iff loopbackOnly).1 _ "bogus" 9000 _ given (by decide)).mpr
      (.inl rfl)
  · exact (relay_keeps_target_iff loopbackOnly).2 bogusArgs .udp bogusRun s hrun given_bogusRun

end Relay

end OmniSocket
