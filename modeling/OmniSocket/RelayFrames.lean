/-
# The frames the relay forwards

After a failed `omni_send` the forwarding loop logs and goes on with the next
message on the same context. Over TCP a failure can strike inside a frame, and if
the connection takes bytes again the next frame follows the beginning of the
broken one. The client and the server leave their loops when a send fails.
-/

import Mathlib.Data.List.Nodup
import OmniSocket.RelayRouting
import OmniSocket.TcpFrames
import OmniSocket.SendFraming

set_option autoImplicit false

namespace OmniSocket

open Lib

namespace RelayEvent

/-- A call of `tcp_send` on the context `id`. -/
def tcpCall (id : ℕ) : RelayEvent → Option TcpCall
  | .handed tx msg (.tcp t0 script) _ => if tx.id = id then some ⟨t0, msg, script⟩ else none
  | _ => none

/-- All calls of `tcp_send` on it, in order. -/
def tcpCalls (id : ℕ) : List RelayEvent → List TcpCall := List.filterMap (tcpCall id)

theorem tcpCall_eq_some {id : ℕ} {event : RelayEvent} {c : TcpCall} :
    event.tcpCall id = some c ↔
      ∃ tx result, tx.id = id ∧ event = .handed tx c.msg (.tcp c.t0 c.script) result := by
  constructor
  · intro call
    cases event with
    | handed tx msg answer result =>
      cases answer with
      | tcp t0 script =>
        obtain ⟨same, rfl⟩ := Option.ite_none_right_eq_some.mp call |>.imp_right Option.some.inj
        exact ⟨tx, result, same, rfl⟩
      | udp r => cases call
      | kcp now incoming => cases call
    | created | received | dropped | installed | closed => cases call
  · rintro ⟨tx, result, rfl, rfl⟩
    simp [tcpCall]

/-- A call of `omni_send`. -/
def IsHanded : RelayEvent → Prop
  | .handed _ _ _ _ => True
  | _ => False

/-- A call of `omni_send` that has not returned. -/
def Unreturned : RelayEvent → Prop
  | .handed _ _ _ none => True
  | _ => False

end RelayEvent

namespace Relay

/-! ## The calls on each connection -/

/-- The relay over TCP: its forwarding contexts are connections, what it forwards
fits its buffer, and the main thread does not get past a send that has not returned. -/
structure Streams (s : Relay) : Prop where
  proto : s.proto = .tcp
  short : s.Fitting
  pending : ∀ new, s.Installs new → ∃ host, new.ctx = .tcp host
  installs : ∀ tx ∈ RelayEvent.installs s.log, ∃ host, tx.ctx = .tcp host
  current : ∀ tx, s.txCtx = some tx → tx ∈ RelayEvent.installs s.log
  handed : ∀ tx msg answer result, .handed tx msg answer result ∈ s.log →
    tx ∈ RelayEvent.installs s.log ∧ msg.length ≤ frameBufSize ∧ answer.Fits tx.ctx msg ∧
      result = (omniSend tx.ctx msg answer).map Prod.fst
  blocked : ∀ event ∈ s.log, event.Unreturned → ∃ msg, s.main = .sending msg
  order : s.log.Pairwise fun event later => event.Unreturned → ¬ later.IsHanded

theorem streams_start : (start .tcp).Streams where
  proto := rfl
  short := fitting_start .tcp
  pending := by simp [Installs, start]
  installs := by simp [start, RelayEvent.installs]
  current := by simp [start]
  handed := by simp [start]
  blocked := by simp [start]
  order := List.Pairwise.nil

section Moves

variable {args : RelayArgs} {s t : Relay}

/-- `omni_init` over TCP returns a connection. -/
private theorem tcp_of_omniInit {role : OmniRole} {bindIp peerIp : Option String}
    {bindPort peerPort : UInt16} {answer : InitAnswer} {ctx : OmniContext}
    (init : omniInit role .tcp bindIp bindPort peerIp peerPort answer = some ctx) :
    ∃ host, ctx = .tcp host := by
  cases answer with
  | tcp host opened =>
    obtain ⟨-, rfl⟩ := Option.ite_none_right_eq_some.mp init |>.imp_right Option.some.inj
    exact ⟨host, rfl⟩
  | udp env => cases init
  | kcp env => cases init

/-- `omni_send` leaves a connection alone. -/
private theorem tcp_of_omniSend {host : Endian} {msg : List UInt8} {answer : SendAnswer} {m : ℤ}
    {ctx : OmniContext} (send : omniSend (.tcp host) msg answer = some (m, ctx)) :
    ctx = .tcp host := by
  cases answer with
  | tcp t0 script =>
    simp only [omniSend] at send
    split at send
    case h_1 => exact (Prod.mk.inj (Option.some.inj send)).2.symm
    case h_2 => cases send
  | udp r => cases send
  | kcp now incoming => cases send

/-- A move that does not call `omni_send`. -/
theorem Streams.quiet (streams : s.Streams) {events : List RelayEvent}
    (log : t.log = s.log ++ events) (silent : ∀ event ∈ events, ¬ event.IsHanded)
    (proto : t.proto = s.proto) (short : t.Fitting)
    (current : ∀ tx, t.txCtx = some tx → s.txCtx = some tx ∨ tx ∈ RelayEvent.installs events)
    (pending : ∀ new, t.Installs new → s.Installs new ∨ ∃ host, new.ctx = .tcp host)
    (installs : ∀ tx ∈ RelayEvent.installs events, s.Installs tx)
    (blocked : ∀ msg, s.main = .sending msg → t.main = .sending msg) : t.Streams := by
  have split : RelayEvent.installs t.log =
      RelayEvent.installs s.log ++ RelayEvent.installs events := by
    rw [log]
    exact List.filterMap_append
  have returned : ∀ event ∈ events, ¬ event.Unreturned := by
    intro event member unreturned
    -- no event but a call of `omni_send` can be one that has not returned
    refine silent event member ?_
    cases event with
    | handed => trivial
    | created | received | dropped | installed | closed => exact unreturned
  exact
    { proto := proto.trans streams.proto
      short := short
      pending := fun new now => (pending new now).elim (streams.pending new) id
      installs := by
        intro tx member
        rw [split, List.mem_append] at member
        exact member.elim (streams.installs tx) fun new => streams.pending tx (installs tx new)
      current := by
        intro tx now
        rw [split, List.mem_append]
        exact (current tx now).imp_left (streams.current tx)
      handed := by
        intro tx msg answer result member
        rw [log, List.mem_append] at member
        rcases member with old | new
        · obtain ⟨installed, facts⟩ := streams.handed tx msg answer result old
          refine ⟨?_, facts⟩
          rw [split]
          exact List.mem_append_left _ installed
        · exact absurd trivial (silent _ new)
      blocked := by
        intro event member unreturned
        rw [log, List.mem_append] at member
        rcases member with old | new
        · obtain ⟨msg, held⟩ := streams.blocked event old unreturned
          exact ⟨msg, blocked msg held⟩
        · exact absurd unreturned (returned event new)
      -- an unreturned call is followed by nothing, and the new events are no calls
      order := by
        rw [log, List.pairwise_append]
        refine ⟨streams.order, ?_, fun _ _ later new _ => silent later new⟩
        exact List.pairwise_of_forall_mem_list fun _ _ later new _ => silent later new }

/-- A move beside `tx_ctx`. -/
theorem Streams.aside (streams : s.Streams) {events : List RelayEvent}
    (log : t.log = s.log ++ events) (silent : ∀ event ∈ events, ¬ event.IsHanded)
    (none : RelayEvent.installs events = []) (proto : t.proto = s.proto)
    (txCtx : t.txCtx = s.txCtx) (short : t.Fitting)
    (pending : ∀ new, t.Installs new → s.Installs new ∨ ∃ host, new.ctx = .tcp host)
    (blocked : ∀ msg, s.main = .sending msg → t.main = .sending msg) : t.Streams := by
  refine streams.quiet log silent proto short ?_ pending (by simp [none]) blocked
  rw [txCtx]
  exact fun tx => .inl

/-- A call of `omni_send`. -/
theorem Streams.hand (streams : s.Streams) {msg : List UInt8} {tx : RelayTarget}
    {answer : SendAnswer} {result : Option ℤ} (before : s.main = .forwarding msg)
    (installed : s.txCtx = some tx) (fits : answer.Fits tx.ctx msg)
    (returns : result = (omniSend tx.ctx msg answer).map Prod.fst) (short : t.Fitting)
    (set : SameSet s t)
    (stays : result = none → t.main = .sending msg)
    (same : t = { s with
      main := t.main
      txCtx := some tx
      log := s.log ++ [.handed tx msg answer result] }) : t.Streams := by
  have log : t.log = s.log ++ [.handed tx msg answer result] := by rw [same]
  have installs : RelayEvent.installs t.log = RelayEvent.installs s.log := by
    simp [log, RelayEvent.installs]
  have listed := streams.current tx installed
  -- the main thread is between two calls, so each earlier one has returned
  have returned : ∀ event ∈ s.log, ¬ event.Unreturned := by
    intro event member unreturned
    obtain ⟨msg', held⟩ := streams.blocked event member unreturned
    cases before.symm.trans held
  exact
    { proto := by
        rw [same]
        exact streams.proto
      short := short
      pending := fun new pending => streams.pending new ((set.installs new).mp pending)
      installs := by
        rw [installs]
        exact streams.installs
      current := by
        rw [installs, same]
        rintro tx' now
        obtain rfl := Option.some.inj now
        exact listed
      handed := by
        rw [installs, log]
        intro tx' msg' answer' result' member
        rw [List.mem_append, List.mem_singleton] at member
        rcases member with old | new
        · exact streams.handed tx' msg' answer' result' old
        · obtain ⟨rfl, rfl, rfl, rfl⟩ := RelayEvent.handed.inj new
          exact ⟨listed, streams.short _ before, fits, returns⟩
      blocked := by
        rw [log]
        intro event member unreturned
        rw [List.mem_append, List.mem_singleton] at member
        rcases member with old | rfl
        · exact absurd unreturned (returned event old)
        · refine ⟨msg, stays ?_⟩
          -- a call that returned a value is not one the main thread is held in
          cases result with
          | none => rfl
          | some m => exact absurd unreturned id
      order := by
        rw [log, List.pairwise_append]
        exact ⟨streams.order, List.pairwise_singleton _ _,
          fun event old _ _ unreturned => absurd unreturned (returned event old)⟩ }

/-- Every move keeps the invariant. -/
theorem streams_move (streams : s.Streams) (move : Move args s t) : t.Streams := by
  have short := fitting_move streams.short move
  cases move with
  | quiet main set same =>
    have log : t.log = s.log ++ [] := by rw [List.append_nil, same]
    exact streams.aside log (by simp) rfl (by rw [same]) (by rw [same]) short
      (fun new => .inl ∘ (set.installs new).mp) fun msg => (main.sending msg).mpr
  | closed c main set same =>
    have log : t.log = s.log ++ [.closed c] := by rw [same]
    exact streams.aside log (by simp [RelayEvent.IsHanded]) rfl (by rw [same]) (by rw [same]) short
      (fun new => .inl ∘ (set.installs new).mp) fun msg => (main.sending msg).mpr
  | takeTx main set shut same =>
    -- the idle target is taken down, so no target is left to keep
    have log : t.log = s.log ++ [] := by rw [List.append_nil, same]
    refine streams.quiet log (by simp) (by rw [same]) short (fun tx => ?_)
      (fun new => .inl ∘ (set.installs new).mp) (by simp [RelayEvent.installs])
      fun msg => (main.sending msg).mpr
    rw [same]
    simp
  | rxCreated ctx answer init main set same =>
    have log : t.log = s.log ++ [.created s.created] := by rw [same]
    exact streams.aside log (by simp [RelayEvent.IsHanded]) rfl (by rw [same]) (by rw [same]) short
      (fun new => .inl ∘ (set.installs new).mp) fun msg => (main.sending msg).mpr
  | txCreated new answer id init main installs closes same =>
    have log : t.log = s.log ++ [.created s.created] := by rw [same]
    -- the pending target was made by `omni_init` over TCP
    rw [streams.proto] at init
    exact streams.aside log (by simp [RelayEvent.IsHanded]) rfl (by rw [same]) (by rw [same]) short
      (fun other pending => .inr ((installs other).mp pending ▸ tcp_of_omniInit init))
      fun msg => (main.sending msg).mpr
  | installed new pending free main installs closes same =>
    have log : t.log = s.log ++ [.installed new] := by rw [same]
    refine streams.quiet log (by simp [RelayEvent.IsHanded]) (by rw [same]) short ?_
      (fun other bad => absurd bad (installs other)) ?_ fun msg => (main.sending msg).mpr
    · rw [same]
      rintro tx now
      obtain rfl := Option.some.inj now
      exact .inr (by simp [RelayEvent.installs])
    · simpa [RelayEvent.installs] using pending
  | closedOld old pending main installs closes same =>
    have log : t.log = s.log ++ [.closed old.toRelayContext] := by rw [same]
    exact streams.aside log (by simp [RelayEvent.IsHanded]) rfl (by rw [same]) (by rw [same]) short
      (fun new bad => absurd bad (installs new)) fun msg => (main.sending msg).mpr
  | polled rx answer n buf ctx installed recv none main set same =>
    have log : t.log = s.log ++ [] := by rw [List.append_nil, same]
    exact streams.aside log (by simp) rfl (by rw [same]) (by rw [same]) short
      (fun new => .inl ∘ (set.installs new).mp) fun msg => (main.sending msg).mpr
  | received rx answer n buf ctx installed recv some_byte before after set same =>
    have log : t.log = s.log ++ [.received (buf.take n.toNat)] := by rw [same]
    exact streams.aside log (by simp [RelayEvent.IsHanded]) rfl (by rw [same]) (by rw [same]) short
      (fun new => .inl ∘ (set.installs new).mp) (by simp [before])
  | dropped msg before none after set same =>
    have log : t.log = s.log ++ [.dropped msg] := by rw [same]
    exact streams.aside log (by simp [RelayEvent.IsHanded]) rfl (by rw [same]) (by rw [same]) short
      (fun new => .inl ∘ (set.installs new).mp) (by simp [before])
  | handed msg tx answer m ctx before installed fits send after set same =>
    obtain ⟨host, connection⟩ := streams.installs tx (streams.current tx installed)
    -- `tcp_send` does not touch the connection it writes to
    have still : ctx = tx.ctx := by
      rw [connection] at send ⊢
      exact tcp_of_omniSend send
    rw [still] at same
    refine streams.hand before installed fits ?_ short set (by simp) same
    rw [send]
    rfl
  | stuck msg tx answer before installed fits send after set same =>
    -- the target stays where it was: the context comes back only with a value
    have kept : t = { s with
        main := t.main
        txCtx := some tx
        log := s.log ++ [.handed tx msg answer none] } := by rw [same, ← installed]
    refine streams.hand before installed fits ?_ short set (fun _ => after) kept
    rw [send]
    rfl

end Moves

/-! ## The stream on each connection -/

/-- The calls on one connection, and that all but the last of them have returned. -/
theorem Streams.calls {s : Relay} (streams : s.Streams) (routes : s.Routes) {tx : RelayTarget}
    {host : Endian} (installed : tx ∈ RelayEvent.installs s.log) (connection : tx.ctx = .tcp host) :
    (∀ c ∈ RelayEvent.tcpCalls tx.id s.log, c.Allowed host ∧ c.msg.length ≤ frameBufSize) ∧
      (RelayEvent.tcpCalls tx.id s.log).Pairwise fun c _ => c.Returned host := by
  have facts : ∀ (c : TcpCall) (result : Option ℤ) (other : RelayTarget), other.id = tx.id →
      .handed other c.msg (.tcp c.t0 c.script) result ∈ s.log →
      c.Allowed host ∧ c.msg.length ≤ frameBufSize ∧ (result ≠ none → c.Returned host) := by
    intro c result other same member
    obtain ⟨listed, short, fits, returns⟩ := streams.handed _ _ _ _ member
    -- an id is given to one target only
    obtain rfl := List.inj_on_of_nodup_map routes.distinct listed installed same
    rw [connection] at fits returns
    refine ⟨fits, short, fun some_result => ?_⟩
    obtain ⟨m, rfl⟩ := Option.ne_none_iff_exists'.mp some_result
    obtain ⟨⟨value, ctx⟩, send, -⟩ := Option.map_eq_some_iff.mp returns.symm
    obtain ⟨unsent, result⟩ := omniSend_tcp send
    exact ⟨value, unsent, result⟩
  constructor
  · intro c member
    obtain ⟨event, logged, call⟩ := List.mem_filterMap.mp member
    obtain ⟨other, result, same, rfl⟩ := RelayEvent.tcpCall_eq_some.mp call
    obtain ⟨allowed, short, -⟩ := facts c result other same logged
    exact ⟨allowed, short⟩
  · rw [RelayEvent.tcpCalls, List.pairwise_filterMap]
    refine streams.order.imp_of_mem ?_
    intro event later logged _ ends c call c' call'
    obtain ⟨other, result, same, rfl⟩ := RelayEvent.tcpCall_eq_some.mp call
    obtain ⟨other', result', -, rfl⟩ := RelayEvent.tcpCall_eq_some.mp call'
    refine (facts c result other same logged).2.2 ?_
    -- had this call not returned, the later one could not have been made
    rintro rfl
    exact ends trivial trivial

/-- In every run over TCP and on every connection that was installed, the frames
stay whole exactly when failures inside a frame are for good. -/
theorem relay_frames_iff {args : RelayArgs} {labels : List RelayLabel} {s : Relay}
    {tx : RelayTarget} {host : Endian}
    (hrun : (machine args).run (start .tcp) labels = some s)
    (installed : tx ∈ RelayEvent.installs s.log) (connection : tx.ctx = .tcp host) :
    Framed host (RelayEvent.tcpCalls tx.id s.log) ↔
      FailuresLast (RelayEvent.tcpCalls tx.id s.log) := by
  have routes : s.Routes :=
    invariant_of_moves (fun _ _ before move => routes_move before move) (routes_start .tcp) hrun
  have streams : s.Streams :=
    invariant_of_moves (fun _ _ before move => streams_move before move) streams_start hrun
  obtain ⟨allowed, returned⟩ := streams.calls routes installed connection
  exact framed_iff allowed returned

/-- A frame from upstream, read in two pieces. -/
private def upstreamFrame (msg : List UInt8) : RecvAnswer :=
  .tcp [.count (headerBytes .little msgTypeRaw (UInt32.ofNat msg.length) 0), .count msg]

/-- Two messages of two bytes, with what the `write` calls of the one `tcp_send` and
of the other return. -/
private def twoMessages (first second : List WriteResult) : List RelayLabel :=
  [.mainInit (.tcp .little true), .mainInit (.tcp .little true), .main, .create true, .main,
    .recv (upstreamFrame [1, 2]), .send (.tcp 0 first), .main, .recv (upstreamFrame [3, 4]),
    .send (.tcp 0 second)]

private def frameArgs : RelayArgs := ⟨9001, "10.0.0.1", 9002⟩

/-- The downstream connection is the second context. -/
private def downstreamTx : RelayTarget := ⟨⟨1, .tcp .little⟩, "10.0.0.1", 9002⟩

/-- The other end reads a header and as many bytes as it announces. -/
private def readOne : List TcpReaderLabel :=
  [.read (.count (headerBytes .little msgTypeRaw 2 0)), .read (.count [1, 0]), .next]

/-- A `write` fails after the header and one byte of the payload, the next message
gets through, and the downstream is given a message made of a byte of the first
one and a byte of the header of the second. -/
theorem relay_frames_counterexample : ∃ s link,
    (machine frameArgs).run (start .tcp)
        (twoMessages [.count 16, .count 1, .error] [.count 16, .count 2]) = some s ∧
      downstreamTx ∈ RelayEvent.installs s.log ∧
      RelayEvent.handedMsgs s.log = [[1, 2], [3, 4]] ∧
      (readerMachine .big frameBufSize).run (TcpLink.holding
        ((RelayEvent.tcpCalls 1 s.log).flatMap (TcpCall.bytes .little)), []) readOne =
          some (link, [[1, 0]]) ∧
      ¬ Framed .little (RelayEvent.tcpCalls 1 s.log) := by
  have ends : ∃ s, (machine frameArgs).run (start .tcp)
      (twoMessages [.count 16, .count 1, .error] [.count 16, .count 2]) = some s ∧
      (((readerMachine .big frameBufSize).run (TcpLink.holding
        ((RelayEvent.tcpCalls 1 s.log).flatMap (TcpCall.bytes .little)), []) readOne).any fun r =>
          decide (r.2 = [[1, 0]] ∧ downstreamTx ∈ RelayEvent.installs s.log ∧
            RelayEvent.handedMsgs s.log = [[1, 2], [3, 4]] ∧
            (completeCalls .little (RelayEvent.tcpCalls 1 s.log)).map TcpCall.msg = [[3, 4]])) =
              true :=
    (Option.any_eq_true _ _).mp (by decide +kernel)
  obtain ⟨s, hrun, reads⟩ := ends
  obtain ⟨⟨link, got⟩, read, facts⟩ := (Option.any_eq_true _ _).mp reads
  obtain ⟨rfl, installed, handed, complete⟩ := of_decide_eq_true facts
  refine ⟨s, link, hrun, installed, handed, read, fun framed => ?_⟩
  have given := framed.delivered .big frameBufSize readOne link _ (Nat.le_refl _) (by decide) read
  rw [complete] at given
  exact absurd given (by decide)

/-- The same with a connection that stays broken. -/
theorem relay_frames_iff_broken : ∃ s,
    (machine frameArgs).run (start .tcp)
        (twoMessages [.count 16, .count 1, .error] [.error]) = some s ∧
      (Framed .little (RelayEvent.tcpCalls 1 s.log) ↔
        FailuresLast (RelayEvent.tcpCalls 1 s.log)) := by
  have ends : ∃ s, (machine frameArgs).run (start .tcp)
      (twoMessages [.count 16, .count 1, .error] [.error]) = some s ∧
      decide (downstreamTx ∈ RelayEvent.installs s.log) = true :=
    (Option.any_eq_true _ _).mp (by decide +kernel)
  obtain ⟨s, hrun, installed⟩ := ends
  exact ⟨s, hrun, relay_frames_iff hrun (of_decide_eq_true installed) rfl⟩

end Relay

end OmniSocket
