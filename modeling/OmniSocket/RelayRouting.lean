/-
# Routing

The relay hands every message it receives to the context that was installed last
when the mutex was taken, once and in order; only messages that come before the
first target has been reached are dropped. The names kept beside the context
are always those it was created with.
-/

import OmniSocket.RelaySteps

set_option autoImplicit false

namespace OmniSocket

open Lib

/-! ## Reading the log -/

namespace RelayEvent

/-- The messages received. -/
def receivedMsgs : List RelayEvent → List (List UInt8) :=
  List.filterMap fun
    | .received msg => some msg
    | _ => none

/-- The messages dropped. -/
def droppedMsgs : List RelayEvent → List (List UInt8) :=
  List.filterMap fun
    | .dropped msg => some msg
    | _ => none

/-- The messages handed to `omni_send`, on whatever context. -/
def handedMsgs : List RelayEvent → List (List UInt8) :=
  List.filterMap fun
    | .handed _ msg _ _ => some msg
    | _ => none

/-- The messages handed to `omni_send` on the context `id`. -/
def handedOn (id : ℕ) : List RelayEvent → List (List UInt8) :=
  List.filterMap fun
    | .handed tx msg _ _ => if tx.id = id then some msg else none
    | _ => none

/-- The contexts installed, in order. -/
def installs : List RelayEvent → List RelayTarget :=
  List.filterMap fun
    | .installed new => some new
    | _ => none

/-- An event that is neither about a message nor an installation. -/
def Silent : RelayEvent → Prop
  | .created _ | .closed _ => True
  | _ => False

end RelayEvent

/-- What does not change of a forwarding context: its number and the pair it was
created with. -/
def RelayTarget.name (t : RelayTarget) : ℕ × String × UInt16 := (t.id, t.ip, t.port)

/-- The name of the context installed last. -/
def lastInstalled (log : List RelayEvent) : Option (ℕ × String × UInt16) :=
  (RelayEvent.installs log).getLast?.map RelayTarget.name

/-- Every message of the log was dealt with as the contexts installed before it
demand. -/
def Routed (log : List RelayEvent) : Prop :=
  ∀ before event after, log = before ++ event :: after →
    (∀ tx msg answer result, event = .handed tx msg answer result →
      lastInstalled before = some tx.name) ∧
    ∀ msg, event = .dropped msg → lastInstalled before = none

/-- A longer log is routed if the shorter one is and its last event is right. -/
theorem Routed.append {log : List RelayEvent} {event : RelayEvent} (routed : Routed log)
    (handed : ∀ tx msg answer result, event = .handed tx msg answer result →
      lastInstalled log = some tx.name)
    (dropped : ∀ msg, event = .dropped msg → lastInstalled log = none) :
    Routed (log ++ [event]) := by
  intro before last after split
  -- an event of the longer log is the new one or stands in the shorter log
  rcases List.eq_nil_or_concat after with rfl | ⟨after', e, rfl⟩
  · obtain ⟨rfl, same⟩ := List.append_inj' split rfl
    obtain rfl := List.singleton_inj.mp same
    exact ⟨handed, dropped⟩
  · rw [List.concat_eq_append, ← List.cons_append, ← List.append_assoc] at split
    exact routed before last after' (List.append_inj_left' split rfl)

theorem Routed.of_append {log : List RelayEvent} {event : RelayEvent}
    (routed : Routed (log ++ [event])) : Routed log := by
  intro before last after split
  exact routed before last (after ++ [event]) (by rw [split, List.append_assoc, List.cons_append])

/-- A context that was handed a message had been installed. -/
theorem Routed.installed_of_handedOn {log : List RelayEvent} (routed : Routed log) {id : ℕ}
    (some_msg : RelayEvent.handedOn id log ≠ []) :
    ∃ t ∈ RelayEvent.installs log, t.id = id := by
  obtain ⟨msg, member⟩ := List.exists_mem_of_ne_nil _ some_msg
  obtain ⟨event, inside, chosen⟩ := List.mem_filterMap.mp member
  cases event with
  | handed tx msg' answer result =>
    have same : tx.id = id := by
      by_contra other
      simp [other] at chosen
    obtain ⟨before, after, split⟩ := List.append_of_mem inside
    -- when the message was handed on, this context was the last one installed
    have last := (routed before _ after split).1 tx msg' answer result rfl
    obtain ⟨t, found, name⟩ := Option.map_eq_some_iff.mp last
    have listed : t ∈ RelayEvent.installs before := List.mem_of_getLast? found
    refine ⟨t, ?_, (congrArg Prod.fst name).trans same⟩
    rw [split]
    exact List.mem_filterMap.mpr (by
      obtain ⟨e, member, chosen⟩ := List.mem_filterMap.mp listed
      exact ⟨e, List.mem_append_left _ member, chosen⟩)
  | created | received | dropped | installed | closed => exact absurd chosen (by simp)

/-- Messages grouped by the contexts they were handed to, in the order of the
switches, are the messages in the order they were handed on. -/
theorem flatMap_handedOn {log : List RelayEvent} (routed : Routed log)
    (distinct : ((RelayEvent.installs log).map fun t => t.id).Nodup) :
    (RelayEvent.installs log).flatMap (fun t => RelayEvent.handedOn t.id log) =
      RelayEvent.handedMsgs log := by
  -- on the log from its end: a switch opens an empty group, a message joins the last one
  induction log using List.reverseRecOn with
  | nil => rfl
  | append_singleton log event ih =>
    have earlier := routed.of_append
    cases event with
    | handed tx msg answer result =>
      have last := (routed log _ [] rfl).1 tx msg answer result rfl
      obtain ⟨t, found, name⟩ := Option.map_eq_some_iff.mp last
      obtain ⟨front, split⟩ := List.getLast?_eq_some_iff.mp found
      have same : tx.id = t.id := (congrArg Prod.fst name).symm
      have installs : RelayEvent.installs (log ++ [.handed tx msg answer result]) =
          RelayEvent.installs log := by simp [RelayEvent.installs]
      rw [installs] at distinct ⊢
      have group := ih earlier distinct
      rw [split] at distinct group ⊢
      -- only the group of the last context grows
      have others : ∀ u ∈ front, RelayEvent.handedOn u.id (log ++ [.handed tx msg answer result]) =
          RelayEvent.handedOn u.id log := by
        intro u member
        have different : t.id ≠ u.id := by
          rw [List.map_append, List.nodup_append] at distinct
          exact fun eq => distinct.2.2 u.id (List.mem_map_of_mem member) t.id (by simp) eq.symm
        simp [RelayEvent.handedOn, same, different]
      have own : RelayEvent.handedOn t.id (log ++ [.handed tx msg answer result]) =
          RelayEvent.handedOn t.id log ++ [msg] := by simp [RelayEvent.handedOn, same]
      rw [List.flatMap_append, List.flatMap_congr others, List.flatMap_singleton, own,
        ← List.append_assoc]
      rw [List.flatMap_append, List.flatMap_singleton] at group
      rw [group]
      simp [RelayEvent.handedMsgs]
    | installed new =>
      have installs : RelayEvent.installs (log ++ [.installed new]) =
          RelayEvent.installs log ++ [new] := by simp [RelayEvent.installs]
      have same : ∀ id, RelayEvent.handedOn id (log ++ [.installed new]) =
          RelayEvent.handedOn id log := fun id => by simp [RelayEvent.handedOn]
      rw [installs, List.map_append, List.nodup_append] at distinct
      -- a context that is only now installed has been handed nothing
      have unused : RelayEvent.handedOn new.id log = [] := by
        by_contra used
        obtain ⟨t, member, id⟩ := earlier.installed_of_handedOn used
        exact distinct.2.2 t.id (List.mem_map_of_mem member) new.id (by simp) id
      simp only [installs, same, List.flatMap_append, List.flatMap_singleton, unused,
        List.append_nil]
      rw [ih earlier distinct.1]
      simp [RelayEvent.handedMsgs]
    | created | received | dropped | closed =>
      simp only [RelayEvent.installs, RelayEvent.handedOn, RelayEvent.handedMsgs,
        List.filterMap_append, List.filterMap_cons, List.filterMap_nil, List.append_nil]
        at distinct ih ⊢
      exact ih earlier distinct

namespace Relay

/-! ## The invariant -/

/-- The log is routed, and the state agrees with it. -/
structure Routes (s : Relay) : Prop where
  routed : Routed s.log
  order : RelayEvent.receivedMsgs s.log =
    RelayEvent.droppedMsgs s.log ++ RelayEvent.handedMsgs s.log ++ s.waiting
  names : ∀ tx, s.txCtx = some tx → s.targetIp = snprintfIp tx.ip ∧ s.targetPort = tx.port
  current : s.Open → lastInstalled s.log = s.txCtx.map RelayTarget.name
  distinct : ((RelayEvent.installs s.log).map fun t => t.id).Nodup
  bounded : ∀ t ∈ RelayEvent.installs s.log, t.id < s.created
  fresh : ∀ new, s.Installs new →
    new.id < s.created ∧ ∀ t ∈ RelayEvent.installs s.log, t.id ≠ new.id

theorem routes_start (proto : OmniProtocol) : (start proto).Routes where
  routed := by
    intro before event after split
    exact absurd split (by simp [start])
  order := rfl
  names := by simp [start]
  current := fun _ => rfl
  distinct := List.nodup_nil
  bounded := by simp [start, RelayEvent.installs]
  fresh := by simp [Installs, start]

/-! ## What each move preserves -/

section Moves

variable {args : RelayArgs} {s t : Relay}

/-- A move that neither installs a context nor deals with a message. -/
theorem Routes.quiet (routes : s.Routes)
    (log : t.log = s.log ∨ ∃ event : RelayEvent, event.Silent ∧ t.log = s.log ++ [event])
    (names : t.txCtx = s.txCtx ∧ t.targetIp = s.targetIp ∧ t.targetPort = s.targetPort)
    (more : s.created ≤ t.created) (main : SameMain s t)
    (fresh : ∀ new, t.Installs new →
      s.Installs new ∨ (new.id = s.created ∧ s.created < t.created)) : t.Routes := by
  obtain ⟨tx, ip, port⟩ := names
  have same : RelayEvent.receivedMsgs t.log = RelayEvent.receivedMsgs s.log ∧
      RelayEvent.droppedMsgs t.log = RelayEvent.droppedMsgs s.log ∧
      RelayEvent.handedMsgs t.log = RelayEvent.handedMsgs s.log ∧
      RelayEvent.installs t.log = RelayEvent.installs s.log ∧ Routed t.log := by
    rcases log with log | ⟨event, silent, log⟩
    · rw [log]
      exact ⟨rfl, rfl, rfl, rfl, routes.routed⟩
    · rw [log]
      cases event with
      | created | closed =>
        simp only [RelayEvent.receivedMsgs, RelayEvent.droppedMsgs, RelayEvent.handedMsgs,
          RelayEvent.installs, List.filterMap_append, List.filterMap_cons, List.filterMap_nil,
          List.append_nil, true_and]
        exact routes.routed.append (by simp) (by simp)
      | received | handed | dropped | installed => exact absurd silent id
  obtain ⟨received, dropped, handed, installs, routed⟩ := same
  exact
    { routed := routed
      order := by rw [received, dropped, handed, main.waiting, routes.order]
      names := by
        rw [tx, ip, port]
        exact routes.names
      current := by
        intro still
        rw [lastInstalled, installs, tx]
        exact routes.current (main.opened still)
      distinct := by
        rw [installs]
        exact routes.distinct
      bounded := by
        rw [installs]
        exact fun u member => (routes.bounded u member).trans_le more
      fresh := by
        intro new pending
        rw [installs]
        -- a pending context has its number from before, or has just been given the next one
        rcases fresh new pending with old | ⟨id, grows⟩
        · exact ⟨(routes.fresh new old).1.trans_le more, (routes.fresh new old).2⟩
        · rw [id]
          exact ⟨grows, fun u member => (routes.bounded u member).ne⟩ }

/-- Installing a context. -/
theorem Routes.install {new : RelayTarget} (routes : s.Routes) (pending : s.Installs new)
    (main : SameMain s t) (installs : ∀ other, ¬ t.Installs other)
    (same : t = { s with
      main := t.main
      control := t.control
      txCtx := some new
      targetIp := snprintfIp new.ip
      targetPort := new.port
      log := s.log ++ [.installed new] }) : t.Routes := by
  obtain ⟨bound, unused⟩ := routes.fresh new pending
  have waiting := main.waiting
  rw [same] at waiting installs ⊢
  -- the new context is now the last one installed, and in `tx_ctx`
  have grown : RelayEvent.installs (s.log ++ [.installed new]) =
      RelayEvent.installs s.log ++ [new] := by simp [RelayEvent.installs]
  exact
    { routed := routes.routed.append (by simp) (by simp)
      order := by
        have order := routes.order
        simp only [RelayEvent.receivedMsgs, RelayEvent.droppedMsgs, RelayEvent.handedMsgs,
          List.filterMap_append, List.filterMap_cons, List.filterMap_nil, List.append_nil]
          at order ⊢
        rw [order, waiting]
      names := by
        rintro tx installed
        obtain rfl := Option.some.inj installed
        exact ⟨rfl, rfl⟩
      current := by
        intro _
        simp only [lastInstalled, grown, List.getLast?_concat, Option.map_some]
      distinct := by
        simp only [grown, List.map_append, List.nodup_append]
        refine ⟨routes.distinct, by simp, ?_⟩
        intro id member id' last
        obtain ⟨u, listed, rfl⟩ := List.mem_map.mp member
        simp only [List.map_singleton, List.mem_singleton] at last
        exact last ▸ unused u listed
      bounded := by
        intro u member
        simp only [grown, List.mem_append, List.mem_singleton] at member
        rcases member with old | rfl
        · exact routes.bounded u old
        · exact bound
      fresh := fun other bad => absurd bad (installs other) }

/-- A move that logs something about a message and leaves the targets alone. -/
theorem Routes.message {event : RelayEvent} (routes : s.Routes) (still : s.Open)
    (set : SameSet s t) (log : t.log = s.log ++ [event])
    (installs : RelayEvent.installs (s.log ++ [event]) = RelayEvent.installs s.log)
    (tx : t.txCtx.map RelayTarget.name = s.txCtx.map RelayTarget.name)
    (names : ∀ tx, t.txCtx = some tx → t.targetIp = snprintfIp tx.ip ∧ t.targetPort = tx.port)
    (created : t.created = s.created) (routed : Routed t.log)
    (order : RelayEvent.receivedMsgs t.log =
      RelayEvent.droppedMsgs t.log ++ RelayEvent.handedMsgs t.log ++ t.waiting) : t.Routes where
  routed := routed
  order := order
  names := names
  current := by
    intro _
    rw [lastInstalled, log, installs, tx]
    exact routes.current still
  distinct := by
    rw [log, installs]
    exact routes.distinct
  bounded := by
    rw [log, installs, created]
    exact routes.bounded
  fresh := by
    intro new pending
    rw [log, installs, created]
    exact routes.fresh new ((set.installs new).mp pending)

/-- Nothing has been handed on as long as nothing is installed. -/
theorem Routes.handedMsgs_of_none (routes : s.Routes) (none : lastInstalled s.log = none) :
    RelayEvent.handedMsgs s.log = [] := by
  have empty : RelayEvent.installs s.log = [] := by
    simpa [lastInstalled] using none
  rw [← flatMap_handedOn routes.routed routes.distinct, empty]
  rfl

/-- A message is handed to the context that is installed. -/
theorem Routes.hand {msg : List UInt8} {tx : RelayTarget} {answer : SendAnswer} {result : Option ℤ}
    {ctx : OmniContext} (routes : s.Routes) (before : s.main = .forwarding msg)
    (installed : s.txCtx = some tx) (after : t.waiting = []) (set : SameSet s t)
    (same : t = { s with
      main := t.main
      txCtx := some { tx with ctx := ctx }
      log := s.log ++ [.handed tx msg answer result] }) : t.Routes := by
  have log : t.log = s.log ++ [.handed tx msg answer result] := by rw [same]
  have txCtx : t.txCtx = some { tx with ctx := ctx } := by rw [same]
  have still : s.Open := by simp [Open, before]
  -- before the end of `main` the context in `tx_ctx` is the one installed last
  have current := routes.current still
  rw [installed, Option.map_some] at current
  have order := routes.order
  simp only [waiting, before] at order
  refine routes.message still set log (by simp [RelayEvent.installs])
    (by rw [txCtx, installed]; rfl) ?_ (by rw [same]) ?_ ?_
  · rintro tx' now
    obtain rfl := Option.some.inj (txCtx.symm.trans now)
    rw [same]
    exact routes.names tx installed
  · rw [log]
    refine routes.routed.append ?_ (by simp)
    rintro tx' msg' answer' result' event
    obtain ⟨rfl, -⟩ := RelayEvent.handed.inj event
    exact current
  · rw [log, after]
    simpa [RelayEvent.receivedMsgs, RelayEvent.droppedMsgs, RelayEvent.handedMsgs] using order

/-- Without a context the message is dropped, and none has been handed on before. -/
theorem Routes.drop {msg : List UInt8} (routes : s.Routes) (before : s.main = .forwarding msg)
    (none : s.txCtx = none) (after : t.waiting = []) (set : SameSet s t)
    (same : t = { s with main := t.main, log := s.log ++ [.dropped msg] }) : t.Routes := by
  have log : t.log = s.log ++ [.dropped msg] := by rw [same]
  have txCtx : t.txCtx = s.txCtx := by rw [same]
  have still : s.Open := by simp [Open, before]
  have current := routes.current still
  rw [none, Option.map_none] at current
  -- an empty `tx_ctx` means that nothing was ever installed
  have handed := routes.handedMsgs_of_none current
  have order := routes.order
  simp only [waiting, before] at order
  refine routes.message still set log (by simp [RelayEvent.installs]) (by rw [txCtx]) ?_
    (by rw [same]) ?_ ?_
  · rw [txCtx, none]
    simp
  · rw [log]
    exact routes.routed.append (by simp) fun _ _ => current
  · rw [handed] at order
    rw [log, after]
    simp only [RelayEvent.receivedMsgs, RelayEvent.droppedMsgs, RelayEvent.handedMsgs,
      List.filterMap_append, List.filterMap_cons, List.filterMap_nil, List.append_nil]
      at order handed ⊢
    rw [order, handed, List.append_nil]

/-- A message arrives. -/
theorem Routes.receive {msg : List UInt8} {rx : RelayContext} (routes : s.Routes)
    (before : s.main = .receiving) (after : t.waiting = [msg]) (set : SameSet s t)
    (same : t = { s with
      main := t.main
      rxCtx := some rx
      log := s.log ++ [.received msg] }) : t.Routes := by
  have log : t.log = s.log ++ [.received msg] := by rw [same]
  have txCtx : t.txCtx = s.txCtx := by rw [same]
  have order := routes.order
  simp only [waiting, before, List.append_nil] at order
  refine routes.message (by simp [Open, before]) set log (by simp [RelayEvent.installs])
    (by rw [txCtx]) ?_ (by rw [same]) ?_ ?_
  · rw [same]
    exact routes.names
  · rw [log]
    exact routes.routed.append (by simp) (by simp)
  · rw [log, after]
    simp only [RelayEvent.receivedMsgs, RelayEvent.droppedMsgs, RelayEvent.handedMsgs,
      List.filterMap_append, List.filterMap_cons, List.filterMap_nil, List.append_nil]
      at order ⊢
    rw [order]

/-- Every move keeps the invariant. -/
theorem routes_move (routes : s.Routes) (move : Move args s t) : t.Routes := by
  cases move with
  | quiet main set same =>
    exact routes.quiet (.inl (by rw [same])) (by rw [same]; exact ⟨rfl, rfl, rfl⟩)
      (by rw [same]) main fun new pending => .inl ((set.installs new).mp pending)
  | closed c main set same =>
    exact routes.quiet (.inr ⟨.closed c, trivial, by rw [same]⟩)
      (by rw [same]; exact ⟨rfl, rfl, rfl⟩) (by rw [same]) main
      fun new pending => .inl ((set.installs new).mp pending)
  | takeTx main set shut same =>
    have log : t.log = s.log := by rw [same]
    have none : t.txCtx = none := by rw [same]
    exact
      { routed := log ▸ routes.routed
        order := by rw [log, main.waiting, routes.order]
        names := by simp [none]
        -- from here on nobody looks at `tx_ctx`
        current := fun still => absurd still shut
        distinct := log ▸ routes.distinct
        bounded := by
          rw [same]
          exact routes.bounded
        fresh := by
          intro new pending
          have old := routes.fresh new ((set.installs new).mp pending)
          rw [same]
          exact old }
  | rxCreated ctx answer init main set same =>
    exact routes.quiet (.inr ⟨.created s.created, trivial, by rw [same]⟩)
      (by rw [same]; exact ⟨rfl, rfl, rfl⟩) (by rw [same]; exact Nat.le_succ _) main
      fun new pending => .inl ((set.installs new).mp pending)
  | txCreated new answer id init main installs closes same =>
    refine routes.quiet (.inr ⟨.created s.created, trivial, by rw [same]⟩)
      (by rw [same]; exact ⟨rfl, rfl, rfl⟩) (by rw [same]; exact Nat.le_succ _) main ?_
    intro other pending
    obtain rfl := (installs other).mp pending
    exact .inr ⟨id, by rw [same]; exact Nat.lt_succ_self _⟩
  | installed new pending free main installs closes same =>
    exact routes.install pending main installs same
  | closedOld old pending main installs closes same =>
    exact routes.quiet (.inr ⟨.closed old.toRelayContext, trivial, by rw [same]⟩)
      (by rw [same]; exact ⟨rfl, rfl, rfl⟩) (by rw [same]) main
      fun new bad => absurd bad (installs new)
  | polled rx answer n buf ctx installed recv none main set same =>
    exact routes.quiet (.inl (by rw [same])) (by rw [same]; exact ⟨rfl, rfl, rfl⟩)
      (by rw [same]) main fun new pending => .inl ((set.installs new).mp pending)
  | received rx answer n buf ctx installed recv some_byte before after set same =>
    exact routes.receive before (by simp only [waiting, after]) set same
  | dropped msg before none after set same =>
    exact routes.drop before none (by simp only [waiting, after]) set same
  | handed msg tx answer m ctx before installed fits send after set same =>
    exact routes.hand before installed (by simp only [waiting, after]) set same
  | stuck msg tx answer before installed fits send after set same =>
    -- the call counts as made, even if it never returns
    have kept : t = { s with
        main := t.main
        txCtx := some { tx with ctx := tx.ctx }
        log := s.log ++ [.handed tx msg answer none] } := by rw [same, ← installed]
    exact routes.hand before installed (by simp only [waiting, after]) set kept

end Moves

/-! ## The routing theorem -/

/-- Inside `relay_set_target`, `omni_init` fails. -/
def InitFails (s : Relay) : RelayLabel → Prop
  | .mainInit answer => ∃ ip port, s.main = .setTarget (.init ip port) ∧
      omniInit .client s.proto none 0 (some ip) port answer = none
  | .controlInit answer => ∃ ip port, s.control = .setTarget (.init ip port) ∧
      omniInit .client s.proto none 0 (some ip) port answer = none
  | _ => False

/-- What routing means for the relay in a state it has come to. -/
structure Routing (args : RelayArgs) (s : Relay) : Prop where
  /-- Every message received was dropped or handed on, once and in order, or the main
  thread still holds it. -/
  once : RelayEvent.receivedMsgs s.log =
    RelayEvent.droppedMsgs s.log ++ RelayEvent.handedMsgs s.log ++ s.waiting
  /-- It was handed to the context installed last, and dropped if there was none. -/
  routed : Routed s.log
  /-- The context installed last is `tx_ctx` until the relay shuts down. -/
  current : s.Open → lastInstalled s.log = s.txCtx.map RelayTarget.name
  /-- The names are those `tx_ctx` was created with. -/
  names : s.Unlocked → ∀ tx, s.txCtx = some tx →
    s.targetIp = snprintfIp tx.ip ∧ (tx.ip.length ≤ 63 → s.targetIp = tx.ip) ∧
      s.targetPort = tx.port
  /-- A target that cannot be reached changes nothing. -/
  failed : ∀ label t, s.InitFails label → s.step args label = some t →
    t.txCtx = s.txCtx ∧ t.targetIp = s.targetIp ∧ t.targetPort = s.targetPort ∧ t.log = s.log
  /-- The messages handed to one target after the other are those handed on. -/
  grouped : (RelayEvent.installs s.log).flatMap (fun t => RelayEvent.handedOn t.id s.log) =
    RelayEvent.handedMsgs s.log

theorem snprintfIp_of_length {ip : String} (short : ip.length ≤ 63) : snprintfIp ip = ip := by
  rw [snprintfIp, List.take_of_length_le (String.length_toList.trans_le short),
    String.ofList_toList]

/-- A failed `omni_init` ends the call of `relay_set_target`. -/
theorem unchanged_of_initFails {args : RelayArgs} {s t : Relay} {label : RelayLabel}
    (fails : s.InitFails label) (step : s.step args label = some t) :
    t.txCtx = s.txCtx ∧ t.targetIp = s.targetIp ∧ t.targetPort = s.targetPort ∧ t.log = s.log := by
  cases label with
  | mainInit answer =>
    obtain ⟨ip, port, pc, failed⟩ := fails
    simp only [Relay.step, mainInitStep, pc, setTargetInit, failed, mainSet] at step
    obtain rfl := Option.some.inj step
    exact ⟨rfl, rfl, rfl, rfl⟩
  | controlInit answer =>
    obtain ⟨ip, port, pc, failed⟩ := fails
    simp only [Relay.step, pc, setTargetInit, failed, controlSet] at step
    obtain rfl := Option.some.inj step
    exact ⟨rfl, rfl, rfl, rfl⟩
  | main | control | create | recv | send | line => exact absurd fails id

/-- In every run of the relay, whatever the threads and the outside do. -/
theorem relay_routing {args : RelayArgs} {proto : OmniProtocol} {labels : List RelayLabel}
    {s : Relay} (hrun : (machine args).run (start proto) labels = some s) : s.Routing args := by
  have routes : s.Routes :=
    invariant_of_moves (fun _ _ before move => routes_move before move) (routes_start proto) hrun
  exact
    { once := routes.order
      routed := routes.routed
      current := routes.current
      names := by
        intro _ tx installed
        obtain ⟨ip, port⟩ := routes.names tx installed
        exact ⟨ip, fun short => ip.trans (snprintfIp_of_length short), port⟩
      failed := fun _ _ => unchanged_of_initFails
      grouped := flatMap_handedOn routes.routed routes.distinct }

/-- A network on which everything succeeds. -/
private def easyEnv : SocketEnv := ⟨fun _ => 0x0100007f, true, true, fun _ => true, true⟩

private def someDatagram (bytes : List UInt8) : RecvAnswer :=
  .udp (.datagram ⟨⟨40000, 0x0100007f⟩, 16, bytes⟩)

/-- Over UDP, a switch between receiving and forwarding the second message. -/
private def switchingRun : List RelayLabel :=
  [.mainInit (.udp easyEnv), .mainInit (.udp easyEnv), .main, .create true, .main,
    .recv (someDatagram [1, 2]), .send (.udp (some 2)), .control, .line (.set "10.0.0.2" 9003),
    .controlInit (.udp easyEnv), .main, .recv (someDatagram [3]), .control,
    .send (.udp (some 1)), .control]

theorem relay_routing_switching : ∃ s,
    (machine ⟨9001, "10.0.0.1", 9002⟩).run (start .udp) switchingRun = some s ∧
      RelayEvent.handedOn 1 s.log = [[1, 2]] ∧ RelayEvent.handedOn 2 s.log = [[3]] ∧
      s.Routing ⟨9001, "10.0.0.1", 9002⟩ := by
  have ends : ∃ s, (machine ⟨9001, "10.0.0.1", 9002⟩).run (start .udp) switchingRun = some s ∧
      decide (RelayEvent.handedOn 1 s.log = [[1, 2]] ∧ RelayEvent.handedOn 2 s.log = [[3]]) =
        true :=
    (Option.any_eq_true _ _).mp (by decide +kernel)
  obtain ⟨s, hrun, handed⟩ := ends
  have handed := of_decide_eq_true handed
  exact ⟨s, hrun, handed.1, handed.2, relay_routing hrun⟩

end Relay

end OmniSocket
