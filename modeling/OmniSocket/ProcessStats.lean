/-
# The statistics of a whole process

A process makes contexts, sends and receives on them and closes them, in any
order, and every one of these calls passes through the one record of the logger.
`omni_init` clears that record each time. So the counters account for all the
calls of the process exactly as long as no context is made after a call, and fall
behind at the first `omni_init` that follows one.
-/

import OmniSocket.Lib.Machine
import OmniSocket.Logger
import OmniSocket.Network

set_option autoImplicit false

namespace OmniSocket

open Lib

/-! ## The process -/

/-- Which of the two calls, and which half of the record it reports to. -/
inductive Direction
  | sending
  | receiving
  deriving DecidableEq, Repr

/-- The half of the record for one direction. -/
def OmniStats.half (g : OmniStats) : Direction → Traffic
  | .sending => g.sent
  | .receiving => g.received

/-- What happened to the counters, for reference. -/
inductive TrafficEvent
  /-- `omni_init` was called. -/
  | init
  /-- A call on a context returned `n` after `ms` milliseconds. -/
  | call (d : Direction) (n : ℤ) (ms : UInt64)
  deriving DecidableEq, Repr

/-- The calls in one direction, in order, with their results and times. -/
def callsOf (d : Direction) (log : List TrafficEvent) : List (ℤ × UInt64) :=
  log.filterMap fun event =>
    match event with
    | .init => none
    | .call d' n ms => if d' = d then some (n, ms) else none

/-- A process: `g_stats` and the contexts `omni_init` returned, in order, without
those that have been closed. The log is not part of the program. -/
structure Process where
  stats : OmniStats
  contexts : List (Option OmniContext)
  log : List TrafficEvent
  deriving DecidableEq, Repr

/-- A call with its arguments and what the outside answers, clock readings
included. A missing context is `NULL`. -/
inductive ProcessLabel
  | init (role : OmniRole) (proto : OmniProtocol) (bindIp : Option String) (bindPort : UInt16)
    (peerIp : Option String) (peerPort : UInt16) (answer : InitAnswer) (now : UInt64)
  | send (ctx : Option ℕ) (buf : List UInt8) (answer : SendAnswer) (t0 t1 now : UInt64)
  | recv (ctx : Option ℕ) (len : ℕ) (answer : RecvAnswer) (t0 t1 now : UInt64)
  | close (ctx : Option ℕ) (now : UInt64)

/-- A call of `omni_init`. -/
def ProcessLabel.IsInit : ProcessLabel → Prop
  | init .. => True
  | send .. | recv .. | close .. => False

/-- What `vt->send` passes to `logger_on_kcp_retrans`, if it calls it. -/
def sendRetrans (c : OmniContext) (buf : List UInt8) (answer : SendAnswer) : Option UInt64 :=
  match c, answer with
  | .kcp ctx, .kcp now incoming => (kcpSend ctx buf now incoming).2.1.retrans
  | _, _ => none

/-- What `vt->recv` passes to it. -/
def recvRetrans (c : OmniContext) (len : ℕ) (answer : RecvAnswer) : Option UInt64 :=
  match c, answer with
  | .kcp ctx, .kcp now incoming => (kcpRecv ctx len now incoming).2.2.1.retrans
  | _, _ => none

/-- The reports of the transport. -/
def reportRetrans (g : OmniStats) (retrans : Option UInt64) : OmniStats :=
  match retrans with
  | some delta => loggerOnKcpRetrans g delta
  | none => g

/-- The reports of `omni_send` after the transport's own: the result is `n`, the
call took `t1 - t0`, and `now` is the clock when the log is printed. -/
def reportSend (g : OmniStats) (n : ℤ) (t0 t1 now : UInt64) : OmniStats :=
  let g := loggerOnSendCallLatency g (t1 - t0)
  if 0 < n then loggerPrintPerformanceLog (loggerOnSend g n.toNat) now else g

/-- The reports of `omni_recv`. -/
def reportRecv (g : OmniStats) (n : ℤ) (t0 t1 now : UInt64) : OmniStats :=
  let g := loggerOnRecvCallLatency g (t1 - t0)
  if 0 < n then loggerPrintPerformanceLog (loggerOnRecv g n.toNat) now else g

namespace Process

/-- The process before its first call. -/
def start : Process where
  stats := omniStatsZero
  contexts := []
  log := []

/-- The context behind a pointer that is not `NULL`, if it is still open. -/
def context (s : Process) (id : ℕ) : Option OmniContext := (s.contexts[id]?).join

/-- `omni_init`: the record is cleared first, whatever comes of the call. -/
def initStep (s : Process) (made : Option OmniContext) (now : UInt64) : Process where
  stats := loggerInit s.stats now
  contexts := s.contexts ++ (made.map some).toList
  log := s.log ++ [.init]

/-- `omni_send` on an open context, once it returns. -/
def sendStep (s : Process) (id : ℕ) (buf : List UInt8) (answer : SendAnswer)
    (t0 t1 now : UInt64) : Option Process :=
  (s.context id).bind fun c =>
    if answer.Fits c buf then
      (omniSend c buf answer).map fun (n, c') =>
        { stats := reportSend (reportRetrans s.stats (sendRetrans c buf answer)) n t0 t1 now
          contexts := s.contexts.set id (some c')
          log := s.log ++ [.call .sending n (t1 - t0)] }
    else none

/-- `omni_recv` on an open context, once it returns. -/
def recvStep (s : Process) (id : ℕ) (len : ℕ) (answer : RecvAnswer) (t0 t1 now : UInt64) :
    Option Process :=
  (s.context id).bind fun c =>
    (omniRecv c len answer).map fun (n, _, c') =>
      { stats := reportRecv (reportRetrans s.stats (recvRetrans c len answer)) n t0 t1 now
        contexts := s.contexts.set id (some c')
        log := s.log ++ [.call .receiving n (t1 - t0)] }

/-- `omni_close` on an open context. -/
def closeStep (s : Process) (id : ℕ) (now : UInt64) : Option Process :=
  (s.context id).map fun _ =>
    { s with
      stats := loggerPrintPerformanceLog s.stats now
      contexts := s.contexts.set id none }

end Process

/-- A process that uses no context after it has closed it. A call on `NULL` returns
at once and reports nothing. -/
def processMachine : Machine Process ProcessLabel where
  step s label :=
    match label with
    | .init role proto bindIp bindPort peerIp peerPort answer now =>
      some (s.initStep (omniInit role proto bindIp bindPort peerIp peerPort answer) now)
    | .send (some id) buf answer t0 t1 now => s.sendStep id buf answer t0 t1 now
    | .recv (some id) len answer t0 t1 now => s.recvStep id len answer t0 t1 now
    | .close (some id) now => s.closeStep id now
    | .send none _ _ _ _ _ | .recv none _ _ _ _ _ | .close none _ => some s

namespace Process

/-- The record accounts for every call of the process. -/
def CountsEverything (s : Process) : Prop := ∀ d, (s.stats.half d).Counts (callsOf d s.log)

/-- The step is not an `omni_init` after a call. -/
def Harmless (s : Process) (label : ProcessLabel) : Prop :=
  label.IsInit → ∀ d, callsOf d s.log = []

/-! ## One step -/

/-- What a step does to the record and to the log. -/
inductive Reports (s : Process) (label : ProcessLabel) (t : Process) : Prop
  /-- `omni_init`. -/
  | init (making : label.IsInit) (stats : ∀ d, t.stats.half d = .fresh)
    (log : t.log = s.log ++ [.init])
  /-- A call on a context there is. -/
  | call (d : Direction) (n : ℤ) (ms : UInt64) (context : s.contexts ≠ [])
    (own : t.stats.half d = (s.stats.half d).onCall n ms)
    (other : ∀ d', d' ≠ d → t.stats.half d' = s.stats.half d')
    (log : t.log = s.log ++ [.call d n ms])
  /-- Nothing that is counted. -/
  | quiet (stats : ∀ d, t.stats.half d = s.stats.half d)
    (contexts : s.contexts = [] → t.contexts = []) (log : t.log = s.log)

theorem half_reportRetrans (g : OmniStats) (retrans : Option UInt64) (d : Direction) :
    (reportRetrans g retrans).half d = g.half d := by
  cases retrans <;> cases d <;> rfl

theorem half_reportSend (g : OmniStats) (n : ℤ) (t0 t1 now : UInt64) :
    (reportSend g n t0 t1 now).half .sending = (g.half .sending).onCall n (t1 - t0) ∧
      (reportSend g n t0 t1 now).half .receiving = g.half .receiving := by
  unfold reportSend Traffic.onCall
  split <;> exact ⟨rfl, rfl⟩

theorem half_reportRecv (g : OmniStats) (n : ℤ) (t0 t1 now : UInt64) :
    (reportRecv g n t0 t1 now).half .receiving = (g.half .receiving).onCall n (t1 - t0) ∧
      (reportRecv g n t0 t1 now).half .sending = g.half .sending := by
  unfold reportRecv Traffic.onCall
  split <;> exact ⟨rfl, rfl⟩

/-- There is no context without `omni_init`. -/
theorem contexts_ne_nil {s : Process} {id : ℕ} {c : OmniContext} (found : s.context id = some c) :
    s.contexts ≠ [] := by
  intro none
  simp [context, none] at found

/-- Every step is one of these. -/
theorem reports_of_step {s t : Process} {label : ProcessLabel}
    (step : processMachine.step s label = some t) : s.Reports label t := by
  cases label with
  | init role proto bindIp bindPort peerIp peerPort answer now =>
    obtain rfl := Option.some.inj step
    exact .init trivial (fun d => by cases d <;> rfl) rfl
  | send ctx buf answer t0 t1 now =>
    cases ctx with
    | none => exact Option.some.inj step ▸ .quiet (fun _ => rfl) id rfl
    | some id =>
      obtain ⟨c, found, sent⟩ := Option.bind_eq_some_iff.mp step
      obtain ⟨-, sent⟩ := Option.ite_none_right_eq_some.mp sent
      obtain ⟨⟨n, c'⟩, -, rfl⟩ := Option.map_eq_some_iff.mp sent
      -- what KCP reports about its segments touches neither half
      have half := half_reportSend (reportRetrans s.stats (sendRetrans c buf answer)) n t0 t1 now
      simp only [half_reportRetrans] at half
      refine .call .sending n (t1 - t0) (contexts_ne_nil found) half.1 ?_ rfl
      intro d other
      cases d
      · exact absurd rfl other
      · exact half.2
  | recv ctx len answer t0 t1 now =>
    cases ctx with
    | none => exact Option.some.inj step ▸ .quiet (fun _ => rfl) id rfl
    | some id =>
      obtain ⟨c, found, received⟩ := Option.bind_eq_some_iff.mp step
      obtain ⟨⟨n, bytes, c'⟩, -, rfl⟩ := Option.map_eq_some_iff.mp received
      have half := half_reportRecv (reportRetrans s.stats (recvRetrans c len answer)) n t0 t1 now
      simp only [half_reportRetrans] at half
      refine .call .receiving n (t1 - t0) (contexts_ne_nil found) half.1 ?_ rfl
      intro d other
      cases d
      · exact half.2
      · exact absurd rfl other
  | close ctx now =>
    cases ctx with
    | none => exact Option.some.inj step ▸ .quiet (fun _ => rfl) id rfl
    | some id =>
      obtain ⟨c, -, rfl⟩ := Option.map_eq_some_iff.mp step
      exact .quiet (fun d => by cases d <;> rfl) (by simp) rfl

/-! ## Whole runs -/

@[simp] theorem callsOf_nil (d : Direction) : callsOf d [] = [] := rfl

@[simp] theorem callsOf_append (d : Direction) (first second : List TrafficEvent) :
    callsOf d (first ++ second) = callsOf d first ++ callsOf d second :=
  List.filterMap_append ..

@[simp] theorem callsOf_init (d : Direction) : callsOf d [.init] = [] := rfl

theorem callsOf_call (d d' : Direction) (n : ℤ) (ms : UInt64) :
    callsOf d' [.call d n ms] = if d = d' then [(n, ms)] else [] := by
  unfold callsOf
  split_ifs with same <;> simp [same]

/-- Nothing is forgotten by the log. -/
theorem log_prefix {s t : Process} {labels : List ProcessLabel}
    (hrun : processMachine.run s labels = some t) : s.log <+: t.log := by
  refine processMachine.run_invariant (I := fun t => s.log <+: t.log) ?_ List.prefix_rfl hrun
  intro u label v grown step
  rcases reports_of_step step with ⟨-, -, log⟩ | ⟨_, _, _, -, -, -, log⟩ | ⟨-, -, log⟩ <;> rw [log]
  · exact grown.trans (List.prefix_append ..)
  · exact grown.trans (List.prefix_append ..)
  · exact grown

/-- Before the first `omni_init` nothing has been called, and after it the record is
what it is after all the calls there have been. -/
def Accounts (s : Process) : Prop :=
  (s.log = [] ∧ s.contexts = []) ∨
    (.init ∈ s.log ∧ ∀ d, s.stats.half d = .after (callsOf d s.log))

/-- One harmless step keeps the account. -/
theorem accounts_step {s t : Process} {label : ProcessLabel} (accounts : s.Accounts)
    (harmless : s.Harmless label) (step : processMachine.step s label = some t) : t.Accounts := by
  rcases reports_of_step step with ⟨making, fresh, log⟩ | ⟨d, n, ms, context, own, other, log⟩ |
    ⟨stats, contexts, log⟩
  · -- `omni_init` clears a record that had nothing in it
    refine .inr ⟨?_, fun d => ?_⟩
    · rw [log]
      exact List.mem_append_right _ (List.mem_singleton.mpr rfl)
    · rw [fresh, log, callsOf_append, harmless making d, callsOf_init, List.append_nil,
        Traffic.after_nil]
  · rcases accounts with ⟨-, none⟩ | ⟨begun, record⟩
    · exact absurd none context
    · refine .inr ⟨log ▸ List.mem_append_left _ begun, fun d' => ?_⟩
      rw [log, callsOf_append, callsOf_call]
      by_cases same : d' = d
      · subst same
        rw [own, record, if_pos rfl, Traffic.after_concat]
      · rw [other d' same, record, if_neg (Ne.symm same), List.append_nil]
  · rcases accounts with ⟨empty, none⟩ | ⟨begun, record⟩
    · exact .inl ⟨log.trans empty, contexts none⟩
    · refine .inr ⟨log ▸ begun, fun d => ?_⟩
      rw [stats, record, log]

/-- Over a harmless run the record is what it is after all the calls. -/
theorem accounts_run {s : Process} {labels : List ProcessLabel}
    (harmless : processMachine.Permits Harmless start labels)
    (hrun : processMachine.run start labels = some s) : s.Accounts :=
  processMachine.run_invariant_of_permits (I := Accounts)
    (fun _ _ _ accounts permitted step => accounts_step accounts permitted step)
    (.inl ⟨rfl, rfl⟩) harmless hrun

/-- Nobody has counted more positive results than a counter holds. -/
def Countable (s : Process) : Prop :=
  ∀ d, ((callsOf d s.log).countP fun call => 0 < call.1) < 2 ^ 64

/-- An account is complete when its counters have not wrapped. -/
theorem Accounts.countsEverything {s : Process} (accounts : s.Accounts) (begun : .init ∈ s.log)
    (countable : s.Countable) : s.CountsEverything := by
  rcases accounts with ⟨empty, -⟩ | ⟨-, record⟩
  · exact absurd (empty ▸ begun) List.not_mem_nil
  · intro d
    rw [record]
    exact Traffic.counts_after_iff.mpr (countable d)

/-- At an earlier point there were no more positive results. -/
theorem Countable.earlier {s t : Process} {labels : List ProcessLabel} (countable : t.Countable)
    (hrun : processMachine.run s labels = some t) : s.Countable := by
  intro d
  obtain ⟨rest, log⟩ := log_prefix hrun
  have later := countable d
  rw [← log, callsOf_append, List.countP_append] at later
  omega

/-- A step that leaves the record complete was harmless: right after `omni_init` no
call is accounted for. -/
theorem harmless_of_counts {s t : Process} {label : ProcessLabel}
    (step : processMachine.step s label = some t)
    (counts : .init ∈ t.log → t.CountsEverything) : s.Harmless label := by
  intro making d
  cases label with
  | init role proto bindIp bindPort peerIp peerPort answer now =>
    obtain rfl := Option.some.inj step
    by_contra called
    have complete := counts (List.mem_append_right _ (List.mem_singleton.mpr rfl)) d
    refine Traffic.not_counts_fresh called ?_
    cases d <;> simpa [initStep, OmniStats.half, loggerInit] using complete
  | send | recv | close => exact making.elim

/-- A run with a complete record at each of its points consists of harmless steps. -/
theorem permits_of_counts {s t : Process} {labels : List ProcessLabel}
    (hrun : processMachine.run s labels = some t)
    (counts : ∀ before after u, labels = before ++ after →
      processMachine.run s before = some u → .init ∈ u.log → u.CountsEverything) :
    processMachine.Permits Harmless s labels := by
  induction labels generalizing s with
  | nil => trivial
  | cons label rest ih =>
    obtain ⟨u, step, hrest⟩ := processMachine.run_cons_eq_some.mp hrun
    have first : processMachine.run s [label] = some u :=
      processMachine.run_cons_eq_some.mpr ⟨u, step, rfl⟩
    refine ⟨harmless_of_counts step (counts [label] rest u rfl first), ?_⟩
    intro v step'
    obtain rfl := Option.some.inj (step.symm.trans step')
    refine ih hrest fun before after w split reached => ?_
    refine counts (label :: before) after w (by rw [split, List.cons_append]) ?_
    exact processMachine.run_cons_eq_some.mpr ⟨u, step, reached⟩

/-- A program that makes all its contexts before it uses any takes harmless steps only. -/
theorem permits_of_inits_first {s : Process} {inits rest : List ProcessLabel}
    (unused : ∀ d, callsOf d s.log = []) (making : ∀ label ∈ inits, label.IsInit)
    (calling : ∀ label ∈ rest, ¬ label.IsInit) :
    processMachine.Permits Harmless s (inits ++ rest) := by
  induction inits generalizing s with
  | nil =>
    clear making unused
    induction rest generalizing s with
    | nil => trivial
    | cons label rest ih =>
      refine ⟨fun making => absurd making (calling label List.mem_cons_self), fun t _ => ?_⟩
      exact ih fun later member => calling later (List.mem_cons_of_mem _ member)
  | cons label inits ih =>
    refine ⟨fun _ => unused, fun t step => ?_⟩
    refine ih (fun d => ?_) fun later member => making later (List.mem_cons_of_mem _ member)
    cases label with
    | init =>
      obtain rfl := Option.some.inj step
      rw [initStep, callsOf_append, unused d, callsOf_init, List.append_nil]
    | send | recv | close => exact (making _ List.mem_cons_self).elim

/-- The counters account for every call at every point of a run after its first
`omni_init` exactly if no `omni_init` of the run comes after a call and no counter of
calls has wrapped. -/
theorem stats_count_everything {s : Process} {labels : List ProcessLabel}
    (hrun : processMachine.run start labels = some s) :
    (∀ before after t, labels = before ++ after → processMachine.run start before = some t →
      .init ∈ t.log → t.CountsEverything) ↔
      processMachine.Permits Harmless start labels ∧ s.Countable := by
  constructor
  · intro counts
    have harmless := permits_of_counts hrun counts
    refine ⟨harmless, fun d => ?_⟩
    rcases accounts_run harmless hrun with ⟨empty, -⟩ | ⟨begun, -⟩
    · rw [empty, callsOf_nil]
      exact Nat.two_pow_pos 64
    · have complete := counts labels [] s (List.append_nil labels).symm hrun begun d
      exact complete.count ▸ UInt64.toNat_lt _
  · rintro ⟨harmless, countable⟩ before after t rfl reached begun
    obtain ⟨u, reached', rest⟩ := processMachine.run_append_eq_some.mp hrun
    obtain rfl := Option.some.inj (reached.symm.trans reached')
    exact (accounts_run (harmless.before processMachine) reached).countsEverything begun
      (countable.earlier rest)

/-! ## A relay over UDP -/

/-- A machine on which every call succeeds. -/
def statsEnv : SocketEnv where
  inetAddr _ := 0x7f000001
  calloc := true
  socket := true
  bind _ := true
  create := true

/-- The relay makes its two contexts. -/
def relayInits : List ProcessLabel :=
  [.init .server .udp none 9001 none 0 (.udp statsEnv) 100,
    .init .client .udp none 0 (some "127.0.0.1") 9002 (.udp statsEnv) 101]

/-- It forwards a message of three bytes. -/
def relayForwards : List ProcessLabel :=
  [.recv (some 0) frameBufSize (.udp (.datagram ⟨⟨40000, 0x7f000001⟩, 16, [1, 2, 3]⟩)) 110 150 150,
    .send (some 1) [1, 2, 3] (.udp (some 3)) 151 153 153]

/-- The control thread sets a new target. -/
def relaySet : ProcessLabel :=
  .init .client .udp none 0 (some "127.0.0.1") 9003 (.udp statsEnv) 200

/-- Up to the first `set` command the relay's counters are right. -/
theorem stats_count_everything_relay :
    ∃ s, processMachine.run start (relayInits ++ relayForwards) = some s ∧ s.CountsEverything := by
  obtain ⟨s, hrun⟩ : ∃ s, processMachine.run start (relayInits ++ relayForwards) = some s :=
    ⟨_, rfl⟩
  have begun : s.log = [.init, .init, .call .receiving 3 40, .call .sending 3 2] := by
    have same : processMachine.run start (relayInits ++ relayForwards) = some _ := rfl
    obtain rfl := Option.some.inj (hrun.symm.trans same)
    rfl
  refine ⟨s, hrun, (stats_count_everything hrun).mpr ⟨?_, ?_⟩ _ [] s (by simp) hrun ?_⟩
  · refine permits_of_inits_first (fun _ => rfl) ?_ ?_
    · simp [relayInits, ProcessLabel.IsInit]
    · simp [relayForwards, ProcessLabel.IsInit]
  · intro d
    rw [begun]
    cases d <;> decide
  · rw [begun]
    decide

/-- After it `bytes_sent` and `bytes_recv` start again from nothing. -/
theorem stats_counterexample :
    ¬ ∀ (labels : List ProcessLabel) (s : Process), processMachine.run start labels = some s →
      .init ∈ s.log → s.CountsEverything := by
  intro claim
  have hrun : processMachine.run start (relayInits ++ relayForwards ++ [relaySet]) = some _ := rfl
  have counts := claim _ _ hrun (by decide) .sending
  exact absurd counts.bytes (by decide)

end Process

end OmniSocket
