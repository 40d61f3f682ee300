/-
# What is lost when the target changes

`omni_close` on a KCP context drops its queues, so whatever `kcp_send` has left
behind in a context when it is replaced never reaches its peer. The state of a
forwarding context is decided by the last `kcp_send` on it: nothing else drives
it, neither while it is installed nor between its replacement and its close.
-/

import OmniSocket.RelayRouting
import OmniSocket.KcpBacklog

set_option autoImplicit false

namespace OmniSocket

open Lib

/-- A call of `kcp_send`: the context it was made on and what it met. -/
structure KcpHanded where
  ctx : KcpContext
  msg : List UInt8
  now : UInt64
  incoming : Option Datagram
  deriving DecidableEq, Repr

namespace KcpHanded

/-- The context the call left. -/
def after (call : KcpHanded) : KcpContext :=
  (kcpSend call.ctx call.msg call.now call.incoming).2.2

/-- The call left nothing behind. -/
def Clears (call : KcpHanded) : Prop := call.ctx.Clears call.msg call.now call.incoming

end KcpHanded

namespace RelayEvent

/-- A call of `kcp_send` on the context `id`. -/
def kcpCall (id : ℕ) : RelayEvent → Option KcpHanded
  | .handed ⟨⟨id', .kcp ctx⟩, _, _⟩ msg (.kcp now incoming) _ =>
    if id' = id then some ⟨ctx, msg, now, incoming⟩ else none
  | _ => none

/-- The last of them, if there was one. -/
def lastCall (id : ℕ) (log : List RelayEvent) : Option KcpHanded :=
  (log.filterMap (kcpCall id)).getLast?

theorem lastCall_append_none {id : ℕ} {event : RelayEvent} (log : List RelayEvent)
    (other : event.kcpCall id = none) : lastCall id (log ++ [event]) = lastCall id log := by
  rw [lastCall, List.filterMap_append, List.filterMap_cons_none other, List.filterMap_nil,
    List.append_nil, lastCall]

theorem lastCall_append_some {id : ℕ} {event : RelayEvent} {call : KcpHanded}
    (log : List RelayEvent) (own : event.kcpCall id = some call) :
    lastCall id (log ++ [event]) = some call := by
  rw [lastCall, List.filterMap_append, List.filterMap_cons_some own, List.filterMap_nil,
    List.getLast?_concat]

end RelayEvent

namespace Relay

/-! ## The state of each context -/

/-- The context is as `kcp_init` made it, if no message has been handed to it, and
otherwise as the last `kcp_send` left it. Either has reported every retransmission. -/
def Driven (log : List RelayEvent) (tx : RelayTarget) : Prop :=
  ∃ ctx, tx.ctx = .kcp ctx ∧ ctx.Sending ∧ ctx.lastXmit = ctx.kcp.xmit ∧
    match RelayEvent.lastCall tx.id log with
    | none => ctx.kcp.Drained
    | some call => call.ctx.Sending ∧ call.msg.length ≤ kcpMaxMessage ∧ ctx = call.after

/-- Nothing is left in such a context exactly when its last call left nothing. -/
theorem Driven.drained_iff {log : List RelayEvent} {tx : RelayTarget} (driven : Driven log tx) :
    ∃ ctx, tx.ctx = .kcp ctx ∧
      (ctx.kcp.Drained ↔ ∀ call, RelayEvent.lastCall tx.id log = some call → call.Clears) := by
  obtain ⟨ctx, kcp, -, -, state⟩ := driven
  refine ⟨ctx, kcp, ?_⟩
  cases last : RelayEvent.lastCall tx.id log with
  | none =>
    rw [last] at state
    exact ⟨fun _ call impossible => (by cases impossible), fun _ => state⟩
  | some call =>
    rw [last] at state
    obtain ⟨sending, short, rfl⟩ := state
    have exactly := (kcpSend_drained_iff sending short call.now call.incoming).2
    constructor
    · rintro drained _ ⟨⟩
      exact exactly.mp drained
    · exact fun clears => exactly.mpr (clears call rfl)

/-- The relay over KCP: every forwarding context it holds is driven by the calls in
the log and by nothing else, and no two of them are the same. -/
structure Backlogs (s : Relay) : Prop where
  proto : s.proto = .kcp
  short : s.Fitting
  current : ∀ tx, s.txCtx = some tx → Driven s.log tx ∧ tx.id < s.created
  pending : ∀ new, s.Installs new → Driven s.log new ∧ new.id < s.created ∧
    ∀ tx, s.txCtx = some tx → tx.id ≠ new.id
  closing : ∀ old, s.Closes old → Driven s.log old ∧ ∀ tx, s.txCtx = some tx → tx.id ≠ old.id
  used : ∀ id, s.created ≤ id → RelayEvent.lastCall id s.log = none

theorem backlogs_start : (start .kcp).Backlogs where
  proto := rfl
  short := fitting_start .kcp
  current := by simp [start]
  pending := by simp [Installs, start]
  closing := by simp [Closes, start]
  used := fun _ _ => rfl

section Moves

variable {args : RelayArgs} {s t : Relay}

/-- Only calls on the context change its state. -/
theorem Driven.append {log : List RelayEvent} {tx : RelayTarget} {event : RelayEvent}
    (driven : Driven log tx) (other : event.kcpCall tx.id = none) : Driven (log ++ [event]) tx := by
  rw [Driven, RelayEvent.lastCall_append_none log other]
  exact driven

/-- A move that logs nothing, or no call, and leaves the contexts alone. -/
theorem Backlogs.quiet (backlogs : s.Backlogs)
    (log : t.log = s.log ∨ ∃ event : RelayEvent, (∀ id, event.kcpCall id = none) ∧
      t.log = s.log ++ [event])
    (proto : t.proto = s.proto) (short : t.Fitting) (created : s.created ≤ t.created)
    (tx : ∀ tx, t.txCtx = some tx → s.txCtx = some tx)
    (pending : ∀ new, t.Installs new → s.Installs new)
    (closing : ∀ old, t.Closes old → s.Closes old) : t.Backlogs := by
  -- what is not a call of `kcp_send` leaves every context as the log says it is
  have driven : ∀ {c : RelayTarget}, Driven s.log c → Driven t.log c := by
    intro c before
    rcases log with same | ⟨event, silent, longer⟩
    · rwa [same]
    · rw [longer]
      exact before.append (silent c.id)
  have last : ∀ id, RelayEvent.lastCall id t.log = RelayEvent.lastCall id s.log := by
    intro id
    rcases log with same | ⟨event, silent, longer⟩
    · rw [same]
    · rw [longer, RelayEvent.lastCall_append_none s.log (silent id)]
  exact
    { proto := proto.trans backlogs.proto
      short := short
      current := by
        intro c now
        obtain ⟨state, bound⟩ := backlogs.current c (tx c now)
        exact ⟨driven state, bound.trans_le created⟩
      pending := by
        intro new now
        obtain ⟨state, bound, others⟩ := backlogs.pending new (pending new now)
        exact ⟨driven state, bound.trans_le created, fun c installed => others c (tx c installed)⟩
      closing := by
        intro old now
        obtain ⟨state, others⟩ := backlogs.closing old (closing old now)
        exact ⟨driven state, fun c installed => others c (tx c installed)⟩
      used := by
        intro id high
        rw [last]
        exact backlogs.used id (created.trans high) }

/-- A new forwarding context. -/
theorem Backlogs.create (backlogs : s.Backlogs) {new : RelayTarget} {answer : InitAnswer}
    (short : t.Fitting) (id : new.id = s.created)
    (init : omniInit .client s.proto none 0 (some new.ip) new.port answer = some new.ctx)
    (installs : ∀ other, t.Installs other ↔ other = new) (closes : ∀ old, ¬ t.Closes old)
    (same : t = { s with
      main := t.main
      control := t.control
      created := s.created + 1
      log := s.log ++ [.created s.created] }) : t.Backlogs := by
  have log : t.log = s.log ++ [.created s.created] := by rw [same]
  have created : t.created = s.created + 1 := by rw [same]
  have txCtx : t.txCtx = s.txCtx := by rw [same]
  have last : ∀ id, RelayEvent.lastCall id t.log = RelayEvent.lastCall id s.log := by
    intro id
    rw [log, RelayEvent.lastCall_append_none s.log rfl]
  -- a number that has not been given out has no call in the log
  have fresh : Driven t.log new := by
    rw [backlogs.proto] at init
    cases answer with
    | kcp env =>
      obtain ⟨ctx, opened, kcp⟩ := Option.map_eq_some_iff.mp init
      obtain ⟨sending, drained⟩ := KcpContext.sending_kcpInit opened
      refine ⟨ctx, kcp.symm, sending, lastXmit_kcpInit opened, ?_⟩
      rw [last, id, backlogs.used s.created (Nat.le_refl _)]
      exact drained
    | tcp host opened => cases init
    | udp env => cases init
  exact
    { proto := by
        rw [same]
        exact backlogs.proto
      short := short
      current := by
        rw [txCtx, created, log]
        intro tx now
        obtain ⟨state, bound⟩ := backlogs.current tx now
        exact ⟨state.append rfl, bound.trans (Nat.lt_succ_self _)⟩
      pending := by
        intro other now
        obtain rfl := (installs other).mp now
        refine ⟨fresh, by rw [created, id]; exact Nat.lt_succ_self _, ?_⟩
        rw [txCtx]
        -- the installed context has an older number
        intro tx installed same_id
        exact absurd (backlogs.current tx installed).2 (by omega)
      closing := fun old bad => absurd bad (closes old)
      used := by
        intro id' high
        rw [created] at high
        rw [last]
        exact backlogs.used id' (by omega) }

/-- The new context takes the place of the old one, which is about to be closed. -/
theorem Backlogs.install (backlogs : s.Backlogs) {new : RelayTarget} (short : t.Fitting)
    (pending : s.Installs new) (installs : ∀ other, ¬ t.Installs other)
    (closes : ∀ old, t.Closes old ↔ s.txCtx = some old)
    (same : t = { s with
      main := t.main
      control := t.control
      txCtx := some new
      targetIp := snprintfIp new.ip
      targetPort := new.port
      log := s.log ++ [.installed new] }) : t.Backlogs := by
  have log : t.log = s.log ++ [.installed new] := by rw [same]
  have txCtx : t.txCtx = some new := by rw [same]
  have created : t.created = s.created := by rw [same]
  obtain ⟨state, bound, others⟩ := backlogs.pending new pending
  exact
    { proto := by
        rw [same]
        exact backlogs.proto
      short := short
      current := by
        rw [txCtx, log, created]
        rintro tx ⟨⟩
        exact ⟨state.append rfl, bound⟩
      pending := fun other bad => absurd bad (installs other)
      closing := by
        rw [txCtx, log]
        intro old now
        -- what is closed now is what was installed before, and had another number
        have replaced := (closes old).mp now
        refine ⟨(backlogs.current old replaced).1.append rfl, ?_⟩
        rintro tx ⟨⟩
        exact (others old replaced).symm
      used := by
        intro id high
        rw [log, RelayEvent.lastCall_append_none s.log rfl]
        exact backlogs.used id (created ▸ high) }

/-- A message is handed to the context that is installed. -/
theorem Backlogs.hand (backlogs : s.Backlogs) {msg : List UInt8} {tx : RelayTarget}
    {answer : SendAnswer} {m : ℤ} {ctx : OmniContext} (short : t.Fitting)
    (before : s.main = .forwarding msg) (installed : s.txCtx = some tx)
    (send : omniSend tx.ctx msg answer = some (m, ctx)) (set : SameSet s t)
    (same : t = { s with
      main := t.main
      txCtx := some { tx with ctx := ctx }
      log := s.log ++ [.handed tx msg answer (some m)] }) : t.Backlogs := by
  have log : t.log = s.log ++ [.handed tx msg answer (some m)] := by rw [same]
  have txCtx : t.txCtx = some { tx with ctx := ctx } := by rw [same]
  have created : t.created = s.created := by rw [same]
  obtain ⟨⟨kcp, is_kcp, sending, -, -⟩, bound⟩ := backlogs.current tx installed
  have fits : msg.length ≤ kcpMaxMessage := (backlogs.short msg before).trans (by decide)
  obtain ⟨⟨id, octx⟩, ip, port⟩ := tx
  obtain rfl : octx = .kcp kcp := is_kcp
  have bound : id < s.created := bound
  have ⟨_, _, _, _, configured, _⟩ := sending
  -- over KCP a send always returns
  cases answer with
  | tcp t0 script => cases send
  | udp r => cases send
  | kcp now incoming =>
    simp only [omniSend, Option.some.injEq, Prod.mk.injEq] at send
    obtain ⟨-, rfl⟩ := send
    -- the call is the last one on this context and concerns no other
    have own : RelayEvent.kcpCall id (.handed ⟨⟨id, .kcp kcp⟩, ip, port⟩ msg (.kcp now incoming)
        (some m)) = some ⟨kcp, msg, now, incoming⟩ := by simp [RelayEvent.kcpCall]
    have other : ∀ id', id ≠ id' → RelayEvent.kcpCall id' (.handed ⟨⟨id, .kcp kcp⟩, ip, port⟩ msg
        (.kcp now incoming) (some m)) = none := by
      intro id' different
      simp [RelayEvent.kcpCall, different]
    have names : ∀ tx, t.txCtx = some tx → tx.id = id := by
      rw [txCtx]
      rintro tx ⟨⟩
      rfl
    exact
      { proto := by
          rw [same]
          exact backlogs.proto
        short := short
        current := by
          rw [txCtx, log, created]
          rintro tx ⟨⟩
          refine ⟨⟨_, rfl, (kcpSend_drained_iff sending fits now incoming).1,
            lastXmit_kcpSend configured fits now incoming, ?_⟩, bound⟩
          rw [RelayEvent.lastCall_append_some s.log own]
          exact ⟨sending, fits, rfl⟩
        pending := by
          intro new now'
          obtain ⟨state, bound', others⟩ := backlogs.pending new ((set.installs new).mp now')
          have different := others _ installed
          refine ⟨?_, by rwa [created], fun tx now => (names tx now).symm ▸ different⟩
          rw [log]
          exact state.append (other new.id different)
        closing := by
          intro old now'
          obtain ⟨state, others⟩ := backlogs.closing old ((set.closes old).mp now')
          have different := others _ installed
          refine ⟨?_, fun tx now => (names tx now).symm ▸ different⟩
          rw [log]
          exact state.append (other old.id different)
        used := by
          intro id' high
          rw [created] at high
          rw [log, RelayEvent.lastCall_append_none s.log (other id' (by omega))]
          exact backlogs.used id' high }

/-- Every move keeps the invariant. -/
theorem backlogs_move (backlogs : s.Backlogs) (move : Move args s t) : t.Backlogs := by
  have short := fitting_move backlogs.short move
  cases move with
  | quiet main set same =>
    exact backlogs.quiet (.inl (by rw [same])) (by rw [same]) short (by rw [same])
      (fun tx => by rw [same]; exact id) (fun new => (set.installs new).mp)
      fun old => (set.closes old).mp
  | closed c main set same =>
    exact backlogs.quiet (.inr ⟨_, fun _ => rfl, congrArg log same⟩) (by rw [same]) short
      (by rw [same]) (fun tx => by rw [same]; exact id) (fun new => (set.installs new).mp)
      fun old => (set.closes old).mp
  | takeTx main set shut same =>
    exact backlogs.quiet (.inl (by rw [same])) (by rw [same]) short (by rw [same])
      (fun tx => by rw [same]; simp) (fun new => (set.installs new).mp)
      fun old => (set.closes old).mp
  | rxCreated ctx answer init main set same =>
    exact backlogs.quiet (.inr ⟨_, fun _ => rfl, congrArg log same⟩) (by rw [same]) short
      (by rw [same]; exact Nat.le_succ _) (fun tx => by rw [same]; exact id)
      (fun new => (set.installs new).mp) fun old => (set.closes old).mp
  | txCreated new answer id init main installs closes same =>
    exact backlogs.create short id init installs closes same
  | installed new pending free main installs closes same =>
    exact backlogs.install short pending installs closes same
  | closedOld old pending main installs closes same =>
    exact backlogs.quiet (.inr ⟨_, fun _ => rfl, congrArg log same⟩) (by rw [same]) short
      (by rw [same]) (fun tx => by rw [same]; exact id) (fun new bad => absurd bad (installs new))
      fun other bad => absurd bad (closes other)
  | polled rx answer n buf ctx installed recv none main set same =>
    exact backlogs.quiet (.inl (by rw [same])) (by rw [same]) short (by rw [same])
      (fun tx => by rw [same]; exact id) (fun new => (set.installs new).mp)
      fun old => (set.closes old).mp
  | received rx answer n buf ctx installed recv some_byte before after set same =>
    exact backlogs.quiet (.inr ⟨_, fun _ => rfl, congrArg log same⟩) (by rw [same]) short
      (by rw [same]) (fun tx => by rw [same]; exact id) (fun new => (set.installs new).mp)
      fun old => (set.closes old).mp
  | dropped msg before none after set same =>
    exact backlogs.quiet (.inr ⟨_, fun _ => rfl, congrArg log same⟩) (by rw [same]) short
      (by rw [same]) (fun tx => by rw [same]; exact id) (fun new => (set.installs new).mp)
      fun old => (set.closes old).mp
  | handed msg tx answer m ctx before installed fits send after set same =>
    exact backlogs.hand short before installed send set same
  | stuck msg tx answer before installed fits send after set same =>
    -- over KCP a send always returns
    obtain ⟨⟨kcp, is_kcp, -⟩, -⟩ := backlogs.current tx installed
    rw [is_kcp] at fits send
    cases answer with
    | tcp t0 script => exact absurd fits id
    | udp r => exact absurd fits id
    | kcp now incoming => cases send

end Moves

/-! ## At a switch -/

/-- In every run over KCP, when `relay_set_target` is about to close the context it
has replaced, nothing is left in that context exactly when the last `kcp_send` on
it, if there was one, left nothing. -/
theorem relay_backlog_iff {args : RelayArgs} {labels : List RelayLabel} {s : Relay}
    {old : RelayTarget} (hrun : (machine args).run (start .kcp) labels = some s)
    (closes : s.Closes old) :
    ∃ ctx, old.ctx = .kcp ctx ∧ (ctx.kcp.Drained ↔
      ∀ call, RelayEvent.lastCall old.id s.log = some call → call.Clears) := by
  have backlogs : s.Backlogs :=
    invariant_of_moves (fun _ _ before move => backlogs_move before move) backlogs_start hrun
  exact (backlogs.closing old closes).1.drained_iff

/-- A network on which everything succeeds. -/
private def switchEnv : SocketEnv := ⟨fun _ => 0x0100007f, true, true, fun _ => true, true⟩

private def switchArgs : RelayArgs := ⟨9001, "127.0.0.1", 9002⟩

/-- A two-byte message for the relay, in one segment. -/
private def firstMessage : Datagram where
  source := ⟨40000, 0x0100007f⟩
  sourceLen := 16
  bytes := ikcpDatagram [{ ikcpSegmentNew [1, 2] with
    conv := 9001, cmd := ikcpCmdPush, wnd := 128 }]

/-- The acknowledgement of the segment it is forwarded in. -/
private def firstAck : Datagram where
  source := ⟨9002, 0x0100007f⟩
  sourceLen := 16
  bytes := ikcpDatagram [{ ikcpSegmentNew [] with
    conv := 9002, cmd := ikcpCmdAck, wnd := 128, una := 1 }]

/-- The relay forwards one message, with `incoming` pending on the downstream
socket, and is told to change its target. -/
private def switchTarget (incoming : Option Datagram) : List RelayLabel :=
  [.mainInit (.kcp switchEnv), .mainInit (.kcp switchEnv), .main, .create true, .main,
    .recv (.kcp 5 (some firstMessage)), .send (.kcp 5 incoming), .control,
    .line (.set "127.0.0.1" 9003), .controlInit (.kcp switchEnv), .control]

/-- The context the control thread is about to close. -/
private def replaced (s : Relay) : Option RelayTarget :=
  match s.control with
  | .setTarget (.close old) => some old
  | _ => none

private theorem closes_of_replaced {s : Relay} {old : RelayTarget} (found : replaced s = some old) :
    s.Closes old := by
  unfold replaced at found
  split at found
  case h_1 old' at_close => exact .inr (Option.some.inj found ▸ at_close)
  case h_2 => cases found

/-- A context, if it is one of KCP. -/
private def kcpOf : OmniContext → Option KcpContext
  | .kcp ctx => some ctx
  | _ => none

private theorem eq_of_kcpOf {c : OmniContext} {ctx : KcpContext} (found : kcpOf c = some ctx) :
    c = .kcp ctx := by
  cases c with
  | kcp ctx' => exact congrArg OmniContext.kcp (Option.some.inj found)
  | tcp host => cases found
  | udp ctx' => cases found

/-- A message is forwarded, `omni_send` returns its length, and the target is
changed: the context is about to be closed with the message in its send buffer. -/
theorem relay_backlog_counterexample : ∃ s old ctx before,
    (machine switchArgs).run (start .kcp) (switchTarget none) = some s ∧ s.Closes old ∧
      old.ctx = .kcp ctx ∧ before.id = old.id ∧
      RelayEvent.handed before [1, 2] (.kcp 5 none) (some 2) ∈ s.log ∧
      ikcpWaitsnd ctx.kcp = 1 ∧ ¬ ctx.kcp.Drained := by
  have ends : ∃ s, (machine switchArgs).run (start .kcp) (switchTarget none) = some s ∧
      ((replaced s).any fun old => (kcpOf old.ctx).any fun ctx =>
        decide (ikcpWaitsnd ctx.kcp = 1 ∧ ∃ event ∈ s.log,
          event = .handed ⟨⟨1, .kcp ⟨⟨9002, 0x0100007f⟩, 16, kcpConfigure 9002, 0⟩⟩,
            "127.0.0.1", 9002⟩ [1, 2] (.kcp 5 none) (some 2) ∧ old.id = 1)) = true :=
    (Option.any_eq_true _ _).mp (by decide +kernel)
  obtain ⟨s, hrun, close⟩ := ends
  obtain ⟨old, found, close⟩ := (Option.any_eq_true _ _).mp close
  obtain ⟨ctx, kcp, facts⟩ := (Option.any_eq_true _ _).mp close
  obtain ⟨waits, event, logged, rfl, id⟩ := of_decide_eq_true facts
  refine ⟨s, old, ctx, _, hrun, closes_of_replaced found, eq_of_kcpOf kcp, id.symm, logged, waits,
    fun drained => ?_⟩
  rw [drained.waitsnd] at waits
  exact absurd waits (by decide)

/-- The same with the acknowledgement read in the same `kcp_send`. -/
theorem relay_backlog_iff_acknowledged : ∃ s old ctx,
    (machine switchArgs).run (start .kcp) (switchTarget (some firstAck)) = some s ∧
      s.Closes old ∧ old.ctx = .kcp ctx ∧ ikcpWaitsnd ctx.kcp = 0 ∧ (ctx.kcp.Drained ↔
        ∀ call, RelayEvent.lastCall old.id s.log = some call → call.Clears) := by
  have ends : ∃ s, (machine switchArgs).run (start .kcp) (switchTarget (some firstAck)) = some s ∧
      ((replaced s).any fun old => (kcpOf old.ctx).any fun ctx =>
        decide (ikcpWaitsnd ctx.kcp = 0)) = true :=
    (Option.any_eq_true _ _).mp (by decide +kernel)
  obtain ⟨s, hrun, close⟩ := ends
  obtain ⟨old, found, close⟩ := (Option.any_eq_true _ _).mp close
  obtain ⟨ctx, kcp, facts⟩ := (Option.any_eq_true _ _).mp close
  have closes := closes_of_replaced found
  obtain ⟨ctx', kcp', exactly⟩ := relay_backlog_iff hrun closes
  obtain rfl := OmniContext.kcp.inj ((eq_of_kcpOf kcp).symm.trans kcp')
  exact ⟨s, old, ctx, hrun, closes, kcp', of_decide_eq_true facts, exactly⟩

end Relay

end OmniSocket
