/-
# A relay with nothing to forward

Nothing drives a KCP endpoint but calls on it, and the forwarding loop calls
`omni_send` on the downstream context only with a message in hand. While the
upstream is silent the downstream endpoint is left exactly as it is: what is due
is not sent again, and what has arrived is not read. So an idle iteration drives
it only if there is nothing to be driven.
-/

import OmniSocket.Ikcp.Due
import OmniSocket.RelayBacklog

set_option autoImplicit false

namespace OmniSocket

open Lib

/-- The relay, and what waits on the socket of its forwarding context. -/
structure IdleRelay where
  relay : Relay
  /-- The datagrams that have arrived there and have not been read, oldest first. -/
  unread : List Datagram
  deriving DecidableEq, Repr

/-- What an idle iteration meets. -/
structure Idle where
  now : UInt64
  /-- The datagram that is pending on the receiving context, if one is. -/
  upstream : Option Datagram
  /-- What arrives for the forwarding context meanwhile. -/
  arriving : List Datagram
  deriving DecidableEq, Repr

namespace Relay

/-- What is left on the socket of the forwarding context. Only `omni_send` reads it. -/
def unreadAfter (unread : List Datagram) : RelayLabel → List Datagram
  | .send (.kcp _ (some _)) => unread.tail
  | _ => unread

end Relay

namespace IdleRelay

open Relay

/-- The steps of an iteration of the forwarding loop in which `omni_recv` returns 0. -/
def idleLabels (idle : Idle) : List RelayLabel := [.main, .recv (.kcp idle.now idle.upstream)]

/-- Such an iteration. -/
def step (args : RelayArgs) (s : IdleRelay) (idle : Idle) : Option IdleRelay :=
  if s.relay.main = .loopTest then
    (((Relay.machine args).run s.relay (idleLabels idle)).filter
      fun relay => relay.main = .loopTest).map fun relay =>
        { relay := relay
          unread := (idleLabels idle).foldl unreadAfter (s.unread ++ idle.arriving) }
  else none

/-- Runs of idle iterations. -/
def machine (args : RelayArgs) : Machine IdleRelay Idle where
  step := step args

/-- Between `s` and `t` the downstream endpoint was driven: it was updated at the clock
reading of the iteration and was fed the datagram that was pending, if there was one. -/
def DrivesDownstream (s t : IdleRelay) (idle : Idle) : Prop :=
  ∀ tx ctx, s.relay.txCtx = some tx → tx.ctx = .kcp ctx →
    t.relay.txCtx = some { tx with
      ctx := .kcp (kcpUpdateLoop ctx idle.now (s.unread ++ idle.arriving).head?).2 } ∧
    t.unread = (s.unread ++ idle.arriving).tail

/-- Every iteration of the run drives it. -/
def AlwaysDrives (args : RelayArgs) (s : IdleRelay) (idle : List Idle) : Prop :=
  ∀ before i after u v, idle = before ++ i :: after → (machine args).run s before = some u →
    (machine args).step u i = some v → u.DrivesDownstream v i

/-- There is nothing to be driven: no datagram is pending, the clock still reads what it
did at the last update, and the flush timer is not due. -/
def Quiet (s : IdleRelay) (idle : Idle) : Prop :=
  s.unread ++ idle.arriving = [] ∧ ∀ tx ctx, s.relay.txCtx = some tx → tx.ctx = .kcp ctx →
    ctx.kcp.StillAt idle.now.toUInt32

variable {args : RelayArgs} {s t : IdleRelay}

/-! ## What an idle iteration does -/

/-- An idle iteration touches neither the downstream context nor its socket. -/
theorem step_spec {idle : Idle} (step : s.step args idle = some t) :
    t.relay.txCtx = s.relay.txCtx ∧ t.unread = s.unread ++ idle.arriving := by
  rw [IdleRelay.step, Option.ite_none_right_eq_some] at step
  obtain ⟨pc, mapped⟩ := step
  obtain ⟨relay, filtered, rfl⟩ := Option.map_eq_some_iff.mp mapped
  obtain ⟨run, -⟩ := Option.filter_eq_some_iff.mp filtered
  refine ⟨?_, rfl⟩
  rw [idleLabels, Machine.run_cons_eq_some] at run
  obtain ⟨u, load, rest⟩ := run
  have loaded : u = { s.relay with
      main := if s.relay.running then .receiving else .stopping } := by
    simp only [Relay.machine, Relay.step, mainStep, pc] at load
    exact (Option.some.inj load).symm
  rw [Machine.run_cons_eq_some] at rest
  obtain ⟨v, recv, last⟩ := rest
  obtain rfl := Option.some.inj last
  simp only [Relay.machine, Relay.step, recvStep] at recv
  split at recv
  case h_1 =>
    obtain ⟨⟨n, buf, ctx⟩, -, rfl⟩ := Option.map_eq_some_iff.mp recv
    rw [loaded]
    split_ifs <;> rfl
  case h_2 => exact absurd recv (by simp)

/-- Neither does a run of them: what arrives piles up. -/
theorem run_spec {idle : List Idle} (run : (machine args).run s idle = some t) :
    t.relay.txCtx = s.relay.txCtx ∧ t.unread = s.unread ++ idle.flatMap Idle.arriving := by
  induction idle generalizing s with
  | nil =>
    obtain rfl := Option.some.inj run
    exact ⟨rfl, by simp⟩
  | cons i rest ih =>
    obtain ⟨u, first, later⟩ := (machine args).run_cons_eq_some.mp run
    obtain ⟨same, arrived⟩ := step_spec first
    obtain ⟨still, piled⟩ := ih later
    refine ⟨still.trans same, ?_⟩
    rw [piled, arrived, List.flatMap_cons, List.append_assoc]

/-- A downstream context that has reported all its retransmissions, as `kcp_init` set it
up. -/
def Installed (s : IdleRelay) (tx : RelayTarget) (ctx : KcpContext) : Prop :=
  s.relay.txCtx = some tx ∧ tx.ctx = .kcp ctx ∧ ctx.kcp.interval = 10 ∧
    ctx.lastXmit = ctx.kcp.xmit

/-- With nothing pending, driving such a context leaves it alone exactly if nothing is due. -/
theorem kcpUpdateLoop_eq_self_iff {ctx : KcpContext} (interval : ctx.kcp.interval = 10)
    (reported : ctx.lastXmit = ctx.kcp.xmit) (now : UInt64) :
    (kcpUpdateLoop ctx now none).2 = ctx ↔ ctx.kcp.StillAt now.toUInt32 := by
  rw [← ikcpUpdate_eq_self_iff interval]
  constructor
  · exact fun same => congrArg KcpContext.kcp same
  · intro same
    simp only [kcpUpdateLoop, kcpReceive, same, ← reported]

/-- An idle iteration drives the downstream endpoint exactly if there is nothing to be
driven. -/
theorem drivesDownstream_step_iff {tx : RelayTarget} {ctx : KcpContext} {idle : Idle}
    (installed : s.Installed tx ctx) (step : s.step args idle = some t) :
    s.DrivesDownstream t idle ↔ s.Quiet idle := by
  obtain ⟨current, kcp, interval, reported⟩ := installed
  obtain ⟨same, piled⟩ := step_spec step
  constructor
  · intro drives
    obtain ⟨driven, read⟩ := drives tx ctx current kcp
    -- a list is its own tail only if it is empty
    have silent : s.unread ++ idle.arriving = [] := by
      have shorter := congrArg List.length (piled.symm.trans read)
      rw [List.length_tail] at shorter
      exact List.length_eq_zero_iff.mp (by omega)
    refine ⟨silent, fun tx' ctx' current' kcp' => ?_⟩
    obtain rfl := Option.some.inj (current.symm.trans current')
    obtain rfl := OmniContext.kcp.inj (kcp.symm.trans kcp')
    rw [same, current, silent, List.head?_nil] at driven
    have context := congrArg RelayContext.ctx (congrArg RelayTarget.toRelayContext
      (Option.some.inj driven))
    rw [kcp] at context
    exact (kcpUpdateLoop_eq_self_iff interval reported idle.now).mp
      (OmniContext.kcp.inj context).symm
  · rintro ⟨silent, still⟩ tx' ctx' current' kcp'
    obtain rfl := Option.some.inj (current.symm.trans current')
    obtain rfl := OmniContext.kcp.inj (kcp.symm.trans kcp')
    have driven := (kcpUpdateLoop_eq_self_iff interval reported idle.now).mpr
      (still tx ctx current kcp)
    refine ⟨?_, by rw [piled, silent, List.tail_nil]⟩
    rw [same, silent, List.head?_nil, driven, ← kcp, current]

/-- The downstream context of a relay over KCP. -/
theorem exists_installed {labels : List RelayLabel} {relay : Relay} {tx : RelayTarget}
    (unread : List Datagram) (hrun : (Relay.machine args).run (start .kcp) labels = some relay)
    (current : relay.txCtx = some tx) : ∃ ctx, Installed ⟨relay, unread⟩ tx ctx := by
  have backlogs : relay.Backlogs :=
    invariant_of_moves (fun _ _ before move => backlogs_move before move) backlogs_start hrun
  obtain ⟨⟨ctx, kcp, ⟨_, _, _, _, configured, _⟩, reported, -⟩, -⟩ := backlogs.current tx current
  exact ⟨ctx, current, kcp, congrArg IkcpConfig.interval configured, reported⟩

/-! ## Exactly when the downstream endpoint is kept running -/

/-- From whatever state the relay is in, with whatever is unread downstream, however long
it idles and whatever the clock reads: the downstream endpoint stays as it was, and it
has been driven all the time exactly if there was never anything to be driven. Then an
update would send nothing, and nothing is unread. -/
theorem drivesDownstream_iff {labels : List RelayLabel} {relay : Relay} {tx : RelayTarget}
    {unread : List Datagram} {idle : List Idle}
    (hrun : (Relay.machine args).run (start .kcp) labels = some relay)
    (current : relay.txCtx = some tx)
    (idles : (machine args).run ⟨relay, unread⟩ idle = some t) :
    ∃ ctx, tx.ctx = .kcp ctx ∧ t.relay.txCtx = some tx ∧
      (AlwaysDrives args ⟨relay, unread⟩ idle ↔
        (machine args).Permits Quiet ⟨relay, unread⟩ idle) ∧
      (AlwaysDrives args ⟨relay, unread⟩ idle →
        (∀ i ∈ idle, (ikcpUpdate ctx.kcp i.now.toUInt32).1 = []) ∧
          (idle ≠ [] → t.unread = [])) := by
  obtain ⟨ctx, installed⟩ := exists_installed unread hrun current
  obtain ⟨-, kcp, interval, reported⟩ := installed
  -- the context is the same before each of the iterations
  have kept : ∀ before u, (machine args).run ⟨relay, unread⟩ before = some u →
      u.Installed tx ctx := fun before u reached =>
    ⟨(run_spec reached).1.trans current, kcp, interval, reported⟩
  have exactly : AlwaysDrives args ⟨relay, unread⟩ idle ↔
      (machine args).Permits Quiet ⟨relay, unread⟩ idle := by
    rw [Machine.permits_iff]
    constructor
    · intro drives before i after u split reached
      rw [split] at idles
      obtain ⟨u', reached', rest⟩ := (machine args).run_append_eq_some.mp idles
      obtain rfl := Option.some.inj (reached.symm.trans reached')
      obtain ⟨v, step, -⟩ := (machine args).run_cons_eq_some.mp rest
      exact (drivesDownstream_step_iff (kept before u reached) step).mp
        (drives before i after u v split reached step)
    · intro quiet before i after u v split reached step
      exact (drivesDownstream_step_iff (kept before u reached) step).mpr
        (quiet before i after u split reached)
  refine ⟨ctx, kcp, (run_spec idles).1.trans current, exactly, fun drives => ?_⟩
  have quiet := (machine args).permits_iff.mp (exactly.mp drives)
  constructor
  · intro i member
    obtain ⟨before, after, split⟩ := List.append_of_mem member
    have idles' := idles
    rw [split] at idles'
    obtain ⟨u, reached, -⟩ := (machine args).run_append_eq_some.mp idles'
    have still := (quiet before i after u split reached).2 tx ctx (kept before u reached).1 kcp
    rw [still.ikcpUpdate]
  · intro some_iteration
    -- what was unread before the last iteration or arrived in it is nothing
    obtain ⟨before, last, rfl⟩ := (List.eq_nil_or_concat' idle).resolve_left some_iteration
    obtain ⟨u, reached, rest⟩ := (machine args).run_append_eq_some.mp idles
    obtain ⟨v, step, ended⟩ := (machine args).run_cons_eq_some.mp rest
    obtain rfl := Option.some.inj ended
    exact (step_spec step).2.trans (quiet before last [] u rfl reached).1

/-- A network on which everything succeeds. -/
private def kcpEnv : SocketEnv := ⟨fun _ => 0x0100007f, true, true, fun _ => true, true⟩

/-- A two-byte message for the relay, in one segment. -/
private def upstreamMessage : Datagram where
  source := ⟨40000, 0x0100007f⟩
  sourceLen := 16
  bytes := ikcpDatagram [{ ikcpSegmentNew [1, 2] with
    conv := 9001, cmd := ikcpCmdPush, wnd := 128 }]

private def kcpArgs : RelayArgs := ⟨9001, "127.0.0.1", 9002⟩

/-- The relay starts up and forwards one message. -/
private def forwardOne : List RelayLabel :=
  [.mainInit (.kcp kcpEnv), .mainInit (.kcp kcpEnv), .main, .create true, .main,
    .recv (.kcp 5 (some upstreamMessage)), .send (.kcp 5 none)]

/-- The downstream endpoint, if there is one. -/
private def downstream (s : Relay) : Option KcpContext :=
  s.txCtx.bind fun tx =>
    match tx.ctx with
    | .kcp ctx => some ctx
    | _ => none

private theorem of_downstream {relay : Relay} {ctx : KcpContext}
    (below : downstream relay = some ctx) : ∃ tx, relay.txCtx = some tx ∧ tx.ctx = .kcp ctx := by
  obtain ⟨tx, current, kcp⟩ := Option.bind_eq_some_iff.mp below
  split at kcp
  case h_1 _ ctx' same => exact ⟨tx, current, Option.some.inj kcp ▸ same⟩
  case h_2 => exact absurd kcp (by simp)

/-- A segment has been sent once and should have been sent again. -/
private def Overdue (ctx : KcpContext) (now : UInt64) : Prop :=
  ∃ seg ∈ ctx.kcp.sndBuf, seg.xmit = 1 ∧ 0 ≤ itimediff now.toUInt32 seg.resendts

private instance (ctx : KcpContext) (now : UInt64) : Decidable (Overdue ctx now) :=
  inferInstanceAs (Decidable (∃ seg ∈ ctx.kcp.sndBuf, _))

/-- The datagram of a forwarded message is lost and the upstream is silent. At 300
milliseconds the segment should long have been sent again, and driving the
endpoint would send it, but the idle iteration leaves it alone. -/
theorem drivesDownstream_counterexample : ∃ s t ctx,
    (Relay.machine kcpArgs).run (start .kcp) forwardOne = some s ∧
      step kcpArgs ⟨s, []⟩ ⟨300, none, []⟩ = some t ∧ downstream s = some ctx ∧
      downstream t.relay = some ctx ∧ Overdue ctx 300 ∧ (kcpUpdateLoop ctx 300 none).1.sent ≠ [] ∧
      ¬ DrivesDownstream ⟨s, []⟩ t ⟨300, none, []⟩ := by
  have ends : ∃ s, (Relay.machine kcpArgs).run (start .kcp) forwardOne = some s ∧
      ((step kcpArgs ⟨s, []⟩ ⟨300, none, []⟩).any fun t => (downstream t.relay).any fun ctx =>
        decide (downstream s = some ctx ∧ Overdue ctx 300 ∧
          (kcpUpdateLoop ctx 300 none).1.sent ≠ [] ∧
          (kcpUpdateLoop ctx 300 none).2.kcp.sndBuf ≠ ctx.kcp.sndBuf)) = true :=
    (Option.any_eq_true _ _).mp (by decide +kernel)
  obtain ⟨s, hrun, idle⟩ := ends
  obtain ⟨t, idle, below⟩ := (Option.any_eq_true _ _).mp idle
  obtain ⟨ctx, after, facts⟩ := (Option.any_eq_true _ _).mp below
  obtain ⟨before, overdue, sends, changes⟩ := of_decide_eq_true facts
  refine ⟨s, t, ctx, hrun, idle, before, after, overdue, sends, fun drives => ?_⟩
  obtain ⟨tx, current, kcp⟩ := of_downstream before
  have driven := (drives tx ctx current kcp).1
  have same : (kcpUpdateLoop ctx 300 none).2 = ctx := by
    simp only [downstream, driven, Option.bind_some] at after
    exact Option.some.inj after
  exact changes (by rw [same])

/-- In the millisecond of the `omni_send` there is nothing to be driven yet. -/
theorem drivesDownstream_iff_atOnce : ∃ s t,
    (Relay.machine kcpArgs).run (start .kcp) forwardOne = some s ∧
      (machine kcpArgs).run ⟨s, []⟩ [⟨5, none, []⟩] = some t ∧
      AlwaysDrives kcpArgs ⟨s, []⟩ [⟨5, none, []⟩] ∧ t.unread = [] := by
  have ends : ∃ s, (Relay.machine kcpArgs).run (start .kcp) forwardOne = some s ∧
      (((machine kcpArgs).run ⟨s, []⟩ [⟨5, none, []⟩]).isSome &&
        (downstream s).any fun ctx => decide (ctx.kcp.updated ≠ 0 ∧ ctx.kcp.current = 5 ∧
          -10000 ≤ itimediff 5 ctx.kcp.tsFlush ∧ itimediff 5 ctx.kcp.tsFlush < 0)) = true :=
    (Option.any_eq_true _ _).mp (by decide +kernel)
  obtain ⟨s, hrun, facts⟩ := ends
  rw [Bool.and_eq_true] at facts
  obtain ⟨t, idles⟩ := Option.isSome_iff_exists.mp facts.1
  obtain ⟨ctx, below, timer⟩ := (Option.any_eq_true _ _).mp facts.2
  obtain ⟨updated, clock, low, high⟩ := of_decide_eq_true timer
  obtain ⟨tx, current, kcp⟩ := of_downstream below
  obtain ⟨ctx', -, -, exactly, nothing⟩ := drivesDownstream_iff hrun current idles
  have drives : AlwaysDrives kcpArgs ⟨s, []⟩ [⟨5, none, []⟩] := by
    refine exactly.mpr ⟨⟨rfl, fun tx' ctx' current' kcp' => ?_⟩, fun _ _ => trivial⟩
    obtain rfl := Option.some.inj (current.symm.trans current')
    obtain rfl := OmniContext.kcp.inj (kcp.symm.trans kcp')
    exact ⟨updated, clock, low, high⟩
  exact ⟨s, t, hrun, idles, drives, (nothing drives).2 (List.cons_ne_nil _ _)⟩

end IdleRelay

end OmniSocket
