/-
# File transfer through the relay

The client sends its file to the relay, the relay forwards it to one server after the
other, as the operator sets its target, and each server writes what it is given. All of
them run side by side: the client's main thread, the two threads of the relay and any
number of servers, each on a connection of its own. Every `write` of the client and every
`read` of the relay and of the servers is a step; a call of `omni_send` in the relay is
one, since the mutex is held for all of it.
-/

import OmniSocket.RelayAside
import OmniSocket.RelayDownstream
import OmniSocket.RelayFrames
import OmniSocket.RelayUpstream

set_option autoImplicit false

namespace OmniSocket

open Lib Lib.Piece

/-- The machines the programs run on. A server is known by the context of the relay that
is connected to it. -/
structure RelayHosts where
  client : Endian
  server : ℕ → Endian
  size : ℕ → SizeT

/-- The client, its connection to the relay, the relay and the servers. -/
structure RelayTransfer where
  client : Client
  link : TcpLink
  /-- The results of the `read` calls in the relay's call of `omni_recv`. -/
  reads : List ReadResult
  relay : Relay
  ends : ℕ → RelayEnd

/-- Who moves next, and how the environment answers. -/
inductive RelayTransferLabel
  /-- An action of the client outside `omni_send`. -/
  | client (event : ClientEvent)
  /-- The client's `malloc` succeeds, its clock reads `now`, and `omni_send` is
  called at clock reading `t0`. -/
  | startSend (now t0 : UInt64)
  /-- A `write` inside the client's `omni_send`. -/
  | write (r : WriteResult)
  /-- The client's `omni_send` returns. -/
  | sendReturn
  /-- A step of the relay outside `omni_recv` and `omni_send`. -/
  | relay (label : RelayLabel)
  /-- A `read` inside the relay's `omni_recv`. -/
  | read (r : ReadResult)
  /-- The relay's `omni_recv` returns. -/
  | recvReturn
  /-- The relay calls `omni_send`. -/
  | forward (t0 : UInt64) (script : List WriteResult)
  /-- A step of the server behind a context of the relay. -/
  | server (id : ℕ) (label : RelayEndLabel)

namespace RelayTransfer

/-- All programs before their first step, and the client at the head of its loop. -/
def start (file : List UInt8) : RelayTransfer where
  client := .start file
  link := .fresh
  reads := []
  relay := .start .tcp
  ends := fun _ => .start

/-- One step of the machine. -/
def step (args : RelayArgs) (hosts : RelayHosts) (chunkSize : ℕ) (s : RelayTransfer) :
    RelayTransferLabel → Option RelayTransfer
  | .client event =>
    match event with
    | .malloc true _ | .sent _ => none
    | _ => (s.client.step hosts.client chunkSize event).map fun c => { s with client := c }
  | .startSend now t0 =>
    (s.client.step hosts.client chunkSize (.malloc true now)).bind fun c =>
      match c.pc with
      | .sending _ _ frame =>
        some { s with client := c, link := s.link.beginSend hosts.client t0 frame }
      | _ => none
  | .write r => (s.link.write r).map fun l => { s with link := l }
  | .sendReturn =>
    match s.link.tx with
    | some (.returned value _) =>
      (s.client.step hosts.client chunkSize (.sent value)).map fun c =>
        { s with client := c, link := s.link.endSend }
    | _ => none
  | .relay label =>
    match label with
    | .recv _ | .send _ => none
    | _ => (s.relay.step args label).map fun r => { s with relay := r }
  | .read r =>
    match s.relay.main, s.relay.rxCtx with
    | .receiving, some ⟨_, .tcp host⟩ =>
      (s.link.read host frameBufSize r).map fun l =>
        { s with link := l, reads := s.reads ++ [r] }
    | _, _ => none
  | .recvReturn =>
    (s.relay.step args (.recv (.tcp s.reads))).map fun r =>
      { s with relay := r, link := s.link.endRecv, reads := [] }
  | .forward t0 script =>
    match s.relay.main, s.relay.txCtx with
    | .forwarding msg, some ⟨⟨id, .tcp host⟩, _, _⟩ =>
      (s.relay.step args (.send (.tcp t0 script))).map fun r =>
        { s with
          relay := r
          ends := Function.update s.ends id
            ((s.ends id).put (TcpCall.bytes host ⟨t0, msg, script⟩)) }
    | _, _ => none
  | .server id label =>
    (RelayEnd.step (hosts.server id) (hosts.size id) (s.ends id) label).map fun e =>
      { s with ends := Function.update s.ends id e }

/-- The machine of one transfer. -/
def machine (args : RelayArgs) (hosts : RelayHosts) (chunkSize : ℕ) :
    Machine RelayTransfer RelayTransferLabel where
  step := step args hosts chunkSize

/-! ## The invariant -/

/-- The client's messages have come to the relay in order, and the others are on their way
as long as the relay listens. -/
def Received (hosts : RelayHosts) (file : List UInt8) (s : RelayTransfer) : Prop :=
  ∃ got pending, s.client.Tracks file ((got ++ pending).map FileMessage.piece) ∧
    RelayEvent.receivedMsgs s.relay.log = got.map (FileMessage.frame hosts.client) ∧
    (s.relay.main.afterLoop ∨ s.client.Upstream hosts.client s.link pending)

/-- Between two steps the relay's call of `omni_recv` is where its `read` calls have
brought it. -/
structure Reading (s : RelayTransfer) : Prop where
  inside : s.relay.main = .receiving → ∀ id host, s.relay.rxCtx = some ⟨id, .tcp host⟩ →
    s.link.rx = tcpRecv host frameBufSize s.reads
  outside : s.relay.main ≠ .receiving → s.link.rx = tcpRecvStart ∧ s.reads = []

/-- A context that is or will be installed is a connection from a machine of this byte
order. -/
def Connects (relay : Relay) (id : ℕ) (host : Endian) : Prop :=
  ∀ tx ∈ RelayEvent.installs relay.log, tx.id = id → tx.ctx = .tcp host

/-- As long as the frames on a connection are whole, its server takes the messages that
were put on it. -/
def Fed (hosts : RelayHosts) (s : RelayTransfer) : Prop :=
  ∀ id host, Connects s.relay id host → FailuresLast (RelayEvent.tcpCalls id s.relay.log) →
    (s.ends id).Fed hosts.client host (RelayEvent.tcpCalls id s.relay.log)

structure Holds (hosts : RelayHosts) (file : List UInt8) (s : RelayTransfer) : Prop where
  alone : s.relay.Alone
  routes : s.relay.Routes
  streams : s.relay.Streams
  received : s.Received hosts file
  reading : s.Reading
  fed : s.Fed hosts

theorem holds_start (hosts : RelayHosts) (file : List UInt8) : (start file).Holds hosts file where
  alone := Relay.alone_start .tcp
  routes := Relay.routes_start .tcp
  streams := Relay.streams_start
  received := ⟨[], [], Client.tracks_start file, rfl,
    .inr (Client.upstream_start hosts.client file)⟩
  reading := ⟨fun now => RelayMainPc.noConfusion now, fun _ => ⟨rfl, rfl⟩⟩
  fed := fun _ host _ _ => RelayEnd.fed_start hosts.client host

/-! ## What each step preserves -/

section Steps

variable {args : RelayArgs} {hosts : RelayHosts} {chunkSize : ℕ} {file : List UInt8}
  {s t : RelayTransfer}

/-- The relay's own invariants, after one of its steps. -/
theorem relay_step {r r' : Relay} {label : RelayLabel} (alone : r.Alone) (routes : r.Routes)
    (streams : r.Streams) (step : r.step args label = some r') :
    r'.Alone ∧ r'.Routes ∧ r'.Streams := by
  have move := Relay.move_of_step alone step
  exact ⟨alone.steers (Relay.steers_of_step step), Relay.routes_move routes move,
    Relay.streams_move streams move⟩

/-- A step of the client. -/
theorem Holds.client {c : Client} {l : TcpLink} (holds : s.Holds hosts file)
    (received : Received hosts file { s with client := c, link := l }) (rx : l.rx = s.link.rx) :
    Holds hosts file { s with client := c, link := l } where
  alone := holds.alone
  routes := holds.routes
  streams := holds.streams
  received := received
  reading :=
    ⟨fun now id host installed => rx.trans (holds.reading.inside now id host installed),
      fun away => (holds.reading.outside away).imp_left rx.trans⟩
  fed := holds.fed

theorem holds_client {event : ClientEvent} {c : Client} (size : chunkSize ≤ 65536)
    (holds : s.Holds hosts file) (step : s.client.step hosts.client chunkSize event = some c)
    (notBegin : ∀ now, event ≠ .malloc true now) (outside : ∀ n, event ≠ .sent n) :
    Holds hosts file { s with client := c } := by
  refine holds.client ?_ rfl
  obtain ⟨got, pending, client, log, rest⟩ := holds.received
  exact ⟨got, pending, client.quiet size step notBegin, log,
    rest.imp_right fun upstream => upstream.client step outside⟩

theorem holds_startSend {now t0 : UInt64} (holds : s.Holds hosts file)
    (step : s.step args hosts chunkSize (.startSend now t0) = some t) : t.Holds hosts file := by
  obtain ⟨got, pending, client, log, rest⟩ := holds.received
  simp only [RelayTransfer.step, Option.bind_eq_some_iff] at step
  obtain ⟨c, cstep, next⟩ := step
  obtain ⟨busy, m, pc, tracks⟩ := client.begin cstep
  simp only [pc, Option.some.injEq] at next
  subst next
  refine holds.client ⟨got, pending ++ [m], ?_, log, rest.imp_right fun upstream => ?_⟩ rfl
  · simpa using tracks
  · exact upstream.startSend t0 busy cstep pc

theorem holds_write {r : WriteResult} {l : TcpLink} (holds : s.Holds hosts file)
    (step : s.link.write r = some l) : Holds hosts file { s with link := l } := by
  refine holds.client ?_ (TcpLink.rx_write step)
  obtain ⟨got, pending, client, log, rest⟩ := holds.received
  exact ⟨got, pending, client, log, rest.imp_right fun upstream => upstream.write step⟩

theorem holds_sendReturn (size : chunkSize ≤ 65536) (holds : s.Holds hosts file)
    (step : s.step args hosts chunkSize .sendReturn = some t) : t.Holds hosts file := by
  simp only [RelayTransfer.step] at step
  split at step
  case h_1 value left calling =>
    obtain ⟨c, cstep, rfl⟩ := Option.map_eq_some_iff.mp step
    refine holds.client ?_ rfl
    obtain ⟨got, pending, client, log, rest⟩ := holds.received
    exact ⟨got, pending, client.quiet size cstep (by simp), log,
      rest.imp_right fun upstream => upstream.sendReturn calling cstep⟩
  case h_2 => exact absurd step (by simp)

/-- What says nothing about plain events does not see them. -/
theorem filterMap_of_plain {α : Type*} {f : RelayEvent → Option α} {log events : List RelayEvent}
    (plain : ∀ event ∈ events, event.Plain) (silent : ∀ event, event.Plain → f event = none) :
    (log ++ events).filterMap f = log.filterMap f := by
  rw [List.filterMap_append, List.append_right_eq_self, List.filterMap_eq_nil_iff]
  exact fun event member => silent event (plain event member)

/-- Plain events are not about messages. -/
theorem receivedMsgs_of_plain {log events : List RelayEvent}
    (plain : ∀ event ∈ events, event.Plain) :
    RelayEvent.receivedMsgs (log ++ events) = RelayEvent.receivedMsgs log := by
  refine filterMap_of_plain plain fun event plain => ?_
  cases event with
  | received msg => exact absurd plain id
  | created | handed | dropped | installed | closed => rfl

theorem tcpCalls_of_plain {log events : List RelayEvent} (id : ℕ)
    (plain : ∀ event ∈ events, event.Plain) :
    RelayEvent.tcpCalls id (log ++ events) = RelayEvent.tcpCalls id log := by
  refine filterMap_of_plain plain fun event plain => ?_
  cases event with
  | handed tx msg answer result => exact absurd plain False.elim
  | created | received | dropped | installed | closed => rfl

/-- A longer log says no less about a context. -/
theorem Connects.of_append {r r' : Relay} {events : List RelayEvent} {id : ℕ} {host : Endian}
    (connects : Connects r' id host) (log : r'.log = r.log ++ events) : Connects r id host := by
  intro tx member
  refine connects tx ?_
  rw [log, RelayEvent.installs, List.filterMap_append]
  exact List.mem_append_left _ member

theorem holds_relay {label : RelayLabel} {r : Relay} (holds : s.Holds hosts file)
    (step : s.relay.step args label = some r) (noRecv : ∀ answer, label ≠ .recv answer)
    (noSend : ∀ answer, label ≠ .send answer) : Holds hosts file { s with relay := r } := by
  obtain ⟨alone, routes, streams⟩ := relay_step holds.alone holds.routes holds.streams step
  obtain ⟨⟨events, log, plain⟩, rx, stays, enters, left⟩ := Relay.aside_step step noRecv noSend
  refine ⟨alone, routes, streams, ?_, ⟨fun now id host installed => ?_, fun away => ?_⟩, ?_⟩
  · obtain ⟨got, pending, client, received, rest⟩ := holds.received
    refine ⟨got, pending, client, ?_, rest.imp_left left⟩
    show RelayEvent.receivedMsgs r.log = _
    rw [log, receivedMsgs_of_plain plain, received]
  · rcases enters now with inside | before
    · have same : r.rxCtx = s.relay.rxCtx := rx (by simp [inside])
      exact holds.reading.inside inside id host (same.symm.trans installed)
    · -- the call begins, and no `read` has been made
      obtain ⟨fresh, none⟩ := holds.reading.outside (by simp [before])
      show s.link.rx = tcpRecv host frameBufSize s.reads
      rw [fresh, none]
      rfl
  · exact holds.reading.outside fun inside => away (stays inside)
  · intro id host connects last
    have calls : RelayEvent.tcpCalls id r.log = RelayEvent.tcpCalls id s.relay.log := by
      rw [log, tcpCalls_of_plain id plain]
    have last : FailuresLast (RelayEvent.tcpCalls id r.log) := last
    show (s.ends id).Fed hosts.client host (RelayEvent.tcpCalls id r.log)
    rw [calls] at last ⊢
    exact holds.fed id host (connects.of_append log) last

theorem holds_read {r : ReadResult} (holds : s.Holds hosts file)
    (step : s.step args hosts chunkSize (.read r) = some t) : t.Holds hosts file := by
  simp only [RelayTransfer.step] at step
  split at step
  case h_1 id host inside installed =>
    obtain ⟨l, lstep, rfl⟩ := Option.map_eq_some_iff.mp step
    refine ⟨holds.alone, holds.routes, holds.streams, ?_, ⟨fun _ id' host' now => ?_, ?_⟩,
      holds.fed⟩
    · obtain ⟨got, pending, client, log, rest⟩ := holds.received
      exact ⟨got, pending, client, log, rest.imp_right fun upstream => upstream.read lstep⟩
    · obtain ⟨-, same⟩ := RelayContext.mk.inj (Option.some.inj (installed.symm.trans now))
      obtain rfl := OmniContext.tcp.inj same
      show l.rx = tcpRecv host frameBufSize (s.reads ++ [r])
      rw [TcpLink.rx_read lstep, holds.reading.inside inside id host installed, tcpRecv, tcpRecv,
        List.foldl_append]
      rfl
    · exact fun away => absurd inside away
  case h_2 => exact absurd step (by simp)

/-- A return of `omni_recv` over TCP. -/
private theorem recvStep_tcp {r r' : Relay} {reads : List ReadResult}
    (step : r.step args (.recv (.tcp reads)) = some r') :
    r.main = .receiving ∧ ∃ id host value buf, r.rxCtx = some ⟨id, .tcp host⟩ ∧
      tcpRecv host frameBufSize reads = .returned value buf ∧
      r' = if value < 0 then { r with main := .stopping }
        else if value = 0 then { r with main := .loopTest }
        else { r with
          main := .forwarding (buf.take value.toNat)
          log := r.log ++ [.received (buf.take value.toNat)] } := by
  simp only [Relay.step, Relay.recvStep] at step
  split at step
  case h_1 rx pc installed =>
    obtain ⟨⟨n, buf, ctx⟩, recv, same⟩ := Option.map_eq_some_iff.mp step
    obtain ⟨id, ctx'⟩ := rx
    cases ctx' with
    | tcp host =>
      simp only [omniRecv] at recv
      split at recv
      case h_1 value got returned =>
        obtain ⟨rfl, rfl, rfl⟩ := by simpa using recv
        refine ⟨pc, id, host, value, got, installed, returned, ?_⟩
        -- over TCP the context is as it was
        rw [← same, ← installed]
      case h_2 => cases recv
    | udp ctx => cases recv
    | kcp ctx => cases recv
  case h_2 => exact absurd step (by simp)

theorem holds_recvReturn (holds : s.Holds hosts file)
    (step : s.step args hosts chunkSize .recvReturn = some t) : t.Holds hosts file := by
  obtain ⟨r, rstep, rfl⟩ := Option.map_eq_some_iff.mp step
  obtain ⟨alone, routes, streams⟩ := relay_step holds.alone holds.routes holds.streams rstep
  obtain ⟨inside, id, host, value, buf, installed, returned, same⟩ := recvStep_tcp rstep
  have rx := (holds.reading.inside inside id host installed).trans returned
  obtain ⟨got, pending, client, log, rest⟩ := holds.received
  have upstream := rest.resolve_left (by simp [inside, RelayMainPc.afterLoop])
  have outside : r.main ≠ .receiving := by
    rw [same]
    split_ifs <;> simp
  have calls : ∀ id, RelayEvent.tcpCalls id r.log = RelayEvent.tcpCalls id s.relay.log := by
    intro id
    rw [same]
    split_ifs <;> simp [RelayEvent.tcpCalls, RelayEvent.tcpCall]
  have installs : RelayEvent.installs r.log = RelayEvent.installs s.relay.log := by
    rw [same]
    split_ifs <;> simp [RelayEvent.installs]
  refine ⟨alone, routes, streams, ?_, ⟨fun now => absurd now outside, fun _ => ⟨rfl, rfl⟩⟩, ?_⟩
  · -- an error is the last thing the relay receives, zero leaves the stream as it is
    rcases lt_trichotomy value 0 with negative | rfl | positive
    · rw [if_pos negative] at same
      exact ⟨got, pending, client, by rw [same]; exact log, .inl (by rw [same]; rfl)⟩
    · rw [if_neg (lt_irrefl 0), if_pos rfl] at same
      exact ⟨got, pending, client, by rw [same]; exact log, .inr (upstream.endRecv_zero rx)⟩
    · rw [if_neg positive.le.not_gt, if_neg positive.ne'] at same
      obtain ⟨m, later, rfl, rfl, value_eq, upstream'⟩ := upstream.endRecv rx positive
      refine ⟨got ++ [m], later, by simpa using client, ?_, .inr upstream'⟩
      rw [value_eq, Int.toNat_natCast, List.take_length] at same
      rw [same, List.map_append, ← log]
      simp [RelayEvent.receivedMsgs]
  · intro id host connects last
    show (s.ends id).Fed hosts.client host (RelayEvent.tcpCalls id r.log)
    have last : FailuresLast (RelayEvent.tcpCalls id r.log) := last
    rw [calls] at last ⊢
    refine holds.fed id host (fun tx member => connects tx ?_) last
    show tx ∈ RelayEvent.installs r.log
    rwa [installs]

/-- A call of `omni_send` over TCP. -/
private theorem sendStep_tcp {r r' : Relay} {msg : List UInt8} {tx : RelayTarget}
    {t0 : UInt64} {script : List WriteResult} (pc : r.main = .forwarding msg)
    (installed : r.txCtx = some tx)
    (step : r.step args (.send (.tcp t0 script)) = some r') :
    (∃ result, r'.log = r.log ++ [.handed tx msg (.tcp t0 script) result]) ∧
      r'.main ≠ .receiving ∧ r'.main.afterLoop = false := by
  simp only [Relay.step, Relay.sendStep, pc, installed] at step
  obtain ⟨-, sent⟩ := Option.ite_none_right_eq_some.mp step
  split at sent
  case h_1 m ctx send =>
    obtain rfl := Option.some.inj sent
    exact ⟨⟨some m, rfl⟩, by simp, rfl⟩
  case h_2 =>
    obtain rfl := Option.some.inj sent
    exact ⟨⟨none, rfl⟩, by simp, rfl⟩

/-- Every message that waits in the relay is one of the client's. -/
theorem Holds.message (holds : s.Holds hosts file) {msg : List UInt8}
    (pc : s.relay.main = .forwarding msg) : ∃ m : FileMessage, msg = m.frame hosts.client := by
  obtain ⟨got, pending, -, log, -⟩ := holds.received
  have order := holds.routes.order
  have waiting : s.relay.waiting = [msg] := by rw [Relay.waiting, pc]
  rw [log, waiting] at order
  have member : msg ∈ got.map (FileMessage.frame hosts.client) := by
    rw [order]
    simp
  obtain ⟨m, -, same⟩ := List.mem_map.mp member
  exact ⟨m, same.symm⟩

theorem holds_forward {t0 : UInt64} {script : List WriteResult} (holds : s.Holds hosts file)
    (step : s.step args hosts chunkSize (.forward t0 script) = some t) : t.Holds hosts file := by
  simp only [RelayTransfer.step] at step
  split at step
  case h_1 msg id host ip port pc installed =>
    obtain ⟨r, rstep, rfl⟩ := Option.map_eq_some_iff.mp step
    obtain ⟨alone, routes, streams⟩ := relay_step holds.alone holds.routes holds.streams rstep
    obtain ⟨⟨result, log⟩, away, looping⟩ := sendStep_tcp pc installed rstep
    have outside := holds.reading.outside (by simp [pc])
    refine ⟨alone, routes, streams, ?_, ⟨fun now => absurd now away, fun _ => outside⟩, ?_⟩
    · obtain ⟨got, pending, client, received, rest⟩ := holds.received
      have inside : s.relay.main.afterLoop = false := by simp [pc, RelayMainPc.afterLoop]
      refine ⟨got, pending, client, ?_, .inr (rest.resolve_left (by simp [inside]))⟩
      show RelayEvent.receivedMsgs r.log = _
      rw [log, ← received]
      simp [RelayEvent.receivedMsgs]
    · intro id' host' connects last
      have connects : Connects r id' host' := connects
      have last : FailuresLast (RelayEvent.tcpCalls id' r.log) := last
      show (Function.update s.ends id _ id').Fed hosts.client host'
        (RelayEvent.tcpCalls id' r.log)
      have before := connects.of_append log
      by_cases same : id' = id
      · subst same
        have listed := holds.streams.current _ installed
        obtain rfl : host = host' := OmniContext.tcp.inj (before _ listed rfl)
        have calls : RelayEvent.tcpCalls id' r.log =
            RelayEvent.tcpCalls id' s.relay.log ++ [⟨t0, msg, script⟩] := by
          rw [log]
          simp [RelayEvent.tcpCalls, RelayEvent.tcpCall]
        have member : ⟨⟨id', .tcp host⟩, ip, port⟩ ∈ RelayEvent.installs r.log := by
          rw [log, RelayEvent.installs, List.filterMap_append]
          exact List.mem_append_left _ listed
        obtain ⟨allowed, returned⟩ := streams.calls routes member rfl
        obtain ⟨m, msg_eq⟩ := holds.message pc
        rw [Function.update_self]
        simp only [calls] at last allowed returned ⊢
        have earlier : FailuresLast (RelayEvent.tcpCalls id' s.relay.log) := by
          intro first c after split breaks later inside
          exact last first c (after ++ [⟨t0, msg, script⟩]) (by rw [split]; simp) breaks later
            (List.mem_append_left _ inside)
        exact (holds.fed id' host before earlier).put msg_eq allowed returned last
      · have calls : RelayEvent.tcpCalls id' r.log = RelayEvent.tcpCalls id' s.relay.log := by
          rw [log]
          simp [RelayEvent.tcpCalls, RelayEvent.tcpCall, Ne.symm same]
        rw [Function.update_of_ne same]
        rw [calls] at last ⊢
        exact holds.fed id' host' before last
  case h_2 => exact absurd step (by simp)

theorem holds_server {id : ℕ} {label : RelayEndLabel} {e : RelayEnd}
    (holds : s.Holds hosts file)
    (step : (s.ends id).step (hosts.server id) (hosts.size id) label = some e) :
    Holds hosts file { s with ends := Function.update s.ends id e } := by
  refine ⟨holds.alone, holds.routes, holds.streams, holds.received,
    ⟨holds.reading.inside, holds.reading.outside⟩, ?_⟩
  intro id' host connects last
  have before := holds.fed id' host connects last
  by_cases same : id' = id
  · subst same
    show (Function.update s.ends id' e id').Fed _ _ _
    rw [Function.update_self]
    exact before.step step
  · show (Function.update s.ends id e id').Fed _ _ _
    rw [Function.update_of_ne same]
    exact before

/-- Every step keeps the invariant. -/
theorem holds_step {label : RelayTransferLabel} (size : chunkSize ≤ 65536)
    (holds : s.Holds hosts file) (step : s.step args hosts chunkSize label = some t) :
    t.Holds hosts file := by
  cases label with
  | client event =>
    simp only [RelayTransfer.step] at step
    split at step
    case h_1 | h_2 => exact absurd step (by simp)
    case h_3 notBegin outside =>
      obtain ⟨c, cstep, rfl⟩ := Option.map_eq_some_iff.mp step
      exact holds_client size holds cstep (fun now same => notBegin now same)
        fun n same => outside n same
  | startSend now t0 => exact holds_startSend holds step
  | write r =>
    obtain ⟨l, lstep, rfl⟩ := Option.map_eq_some_iff.mp step
    exact holds_write holds lstep
  | sendReturn => exact holds_sendReturn size holds step
  | relay label =>
    simp only [RelayTransfer.step] at step
    split at step
    case h_1 | h_2 => exact absurd step (by simp)
    case h_3 noRecv noSend =>
      obtain ⟨r, rstep, rfl⟩ := Option.map_eq_some_iff.mp step
      exact holds_relay holds rstep (fun answer same => noRecv answer same)
        fun answer same => noSend answer same
  | read r => exact holds_read holds step
  | recvReturn => exact holds_recvReturn holds step
  | forward t0 script => exact holds_forward holds step
  | server id label =>
    obtain ⟨e, estep, rfl⟩ := Option.map_eq_some_iff.mp step
    exact holds_server holds estep

end Steps

end RelayTransfer

end OmniSocket
