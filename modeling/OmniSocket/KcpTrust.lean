/-
# Both directions of a link

Two endpoints send to each other over one pair of sockets, so every call of one of
them is a step of a sender and of a receiver at once. Whatever the network does
with the datagrams short of forging them, each side's account of the other stays
true through every call.
-/

import OmniSocket.KcpHonest
import OmniSocket.KcpSessions

set_option autoImplicit false

namespace OmniSocket

open Lib

/-! ## One call, seen from the control block -/

/-- What `kcp_update_loop` does to a control block, with a datagram that fits. -/
def Ikcpcb.driven (kcp : Ikcpcb) (current : UInt32) : Option (List UInt8) → Ikcpcb
  | none => (ikcpUpdate kcp current).2
  | some bytes => (ikcpInput (ikcpUpdate kcp current).2 bytes).2

theorem kcp_kcpUpdateLoop_eq_driven (ctx : KcpContext) (now : UInt64) {incoming : Option Datagram}
    (fits : ∀ d ∈ incoming, d.bytes.length ≤ 1400) :
    (kcpUpdateLoop ctx now incoming).2.kcp =
      ctx.kcp.driven now.toUInt32 (incoming.map Datagram.bytes) := by
  rw [kcp_kcpUpdateLoop]
  cases incoming with
  | none => rfl
  | some d => exact KcpSessions.kcp_kcpReceive ((fits d rfl).trans (by decide))

theorem config_driven (kcp : Ikcpcb) (current : UInt32) (incoming : Option (List UInt8)) :
    (kcp.driven current incoming).config = kcp.config := by
  have updated := (ikcpUpdate_frame kcp current).1
  cases incoming with
  | none => exact updated
  | some bytes => exact (ikcpInput_config _ bytes).trans updated

theorem Ikcpcb.Settled.driven {kcp : Ikcpcb} (settled : kcp.Settled) (window : kcp.rcvWnd = 128)
    (current : UInt32) (incoming : Option (List UInt8)) :
    (kcp.driven current incoming).Settled := by
  obtain ⟨config, receiving⟩ := ikcpUpdate_frame kcp current
  have updated := settled.congr receiving
  cases incoming with
  | none => exact updated
  | some bytes =>
    have everything : (ikcpUpdate kcp current).2.KeepsOnly fun _ => True := fun _ _ => trivial
    exact (updated.input ((congrArg IkcpConfig.rcvWnd config).trans window) everything bytes
      fun _ _ => trivial).1

/-- What is in the queue lies behind the messages taken. -/
theorem Receives.length_front {hist : List (Fragment UInt8)} {got : List (List UInt8)} {r : ℕ}
    {held : List ℕ} {kcp : Ikcpcb} (receives : Receives hist got r held kcp) :
    (kcpCutter.stream got).length + kcp.rcvQueue.length = r := by
  have front := congrArg List.length receives.front
  have inside := receives.inside
  rw [List.length_append, List.length_map, List.length_take] at front
  omega

namespace Follows

variable {conv : UInt32} {hist : List (Fragment UInt8)} {got : List (List UInt8)} {n : ℕ}
  {flying : List ℕ} {r : ℕ} {held : List ℕ} {sender receiver : Ikcpcb}
  {sent told : List (List UInt8)}

/-- The sender drives the protocol. -/
theorem driveSender (follows : Follows conv hist got n flying r held sender receiver sent told)
    (configured : sender.config = kcpConfig conv) (fragments : KcpFragments hist)
    (few : hist.length < 2 ^ 31) (current : UInt32) (incoming : Option (List UInt8))
    (emitted : ∀ bytes ∈ incoming, bytes ∈ told) :
    ∃ k left, left.Sublist (flying ++ List.range' n k) ∧
      Follows conv hist got (n + k) left r held (sender.driven current incoming) receiver
        (sent ++ (ikcpUpdate sender current).1) told := by
  obtain ⟨k, updated⟩ := follows.updateSender configured fragments current
  cases incoming with
  | none => exact ⟨k, _, List.Sublist.refl _, updated⟩
  | some bytes =>
    have config := (ikcpUpdate_frame sender current).1.trans configured
    exact ⟨k, _, foldl_afterSeg_sublist _ _ _, updated.readSender config few (emitted bytes rfl)⟩

/-- The receiver drives the protocol. -/
theorem driveReceiver (follows : Follows conv hist got n flying r held sender receiver sent told)
    (configured : receiver.config = kcpConfig conv) (few : hist.length < 2 ^ 31)
    {own : List (Fragment UInt8)} {m : ℕ} {ownFlying : List ℕ}
    (sends : Sends conv own m ownFlying receiver) (fragments : KcpFragments own) (current : UInt32)
    (incoming : Option (List UInt8)) (emitted : ∀ bytes ∈ incoming, bytes ∈ sent) :
    ∃ r' held', r ≤ r' ∧ Follows conv hist got n flying r' held' sender
      (receiver.driven current incoming) sent (told ++ (ikcpUpdate receiver current).1) := by
  have updated := follows.updateReceiver configured sends fragments current
  cases incoming with
  | none => exact ⟨r, held, Nat.le_refl r, updated⟩
  | some bytes =>
    have config := (ikcpUpdate_frame receiver current).1.trans configured
    obtain ⟨r', held', le, read, -⟩ := updated.readReceiver config few (emitted bytes rfl)
    exact ⟨r', held', le, read⟩

end Follows

/-! ## One call of an endpoint -/

namespace KcpParty

variable {conv : UInt32} {p q : KcpParty}

/-- What the peer has emitted fits every buffer. -/
theorem Holds.fits (holds : q.Holds conv p) {incoming : Option Datagram}
    (pending : ∀ d ∈ incoming, d.bytes ∈ q.emitted) : ∀ d ∈ incoming, d.bytes.length ≤ 1400 := by
  intro d member
  obtain ⟨segs, -, fits, -⟩ := holds.genuine _ (pending d member)
  exact fits

/-- `kcp_send` changes nothing, or queues the message and drives the protocol. -/
theorem call_send (holds : p.Holds conv q) (peer : q.Holds conv p) {buf : List UInt8} {now : UInt64}
    {incoming : Option Datagram} (allowed : Allows q.emitted (.send buf now incoming)) :
    (p.call (.send buf now incoming)).2 = p ∨
      ∃ segs : List IkcpSeg, buf.length ≤ kcpMaxMessage ∧
        segs.map IkcpSeg.fragment = kcpCutter.fragments buf ∧
        (p.call (.send buf now incoming)).2.accepted = p.accepted ++ [buf] ∧
        (p.call (.send buf now incoming)).2.returned = p.returned ∧
        (p.call (.send buf now incoming)).2.ctx.kcp =
          Ikcpcb.driven { p.ctx.kcp with sndQueue := p.ctx.kcp.sndQueue ++ segs } now.toUInt32
            (incoming.map Datagram.bytes) ∧
        (p.call (.send buf now incoming)).2.emitted =
          p.emitted ++ (ikcpUpdate { p.ctx.kcp with sndQueue := p.ctx.kcp.sndQueue ++ segs }
            now.toUInt32).1 := by
  obtain ⟨-, small, pending⟩ := allowed
  rcases kcpSend_spec holds.serves.configured small now incoming with
    ⟨-, failed⟩ | ⟨short, segs, cut, queued⟩
  · refine .inl ?_
    have refused : ¬ 0 ≤ omniErrIo := by decide
    simp only [KcpParty.call, kcpCall, failed, if_neg refused]
    rw [show KcpEffects.none.sent = [] from rfl, List.map_nil, List.append_nil]
  · refine .inr ⟨segs, short, cut, ?_⟩
    simp only [KcpParty.call, kcpCall, queued, if_pos (Int.natCast_nonneg _)]
    exact ⟨trivial, trivial, kcp_kcpUpdateLoop_eq_driven _ _ (peer.fits pending),
      congrArg (fun sent => p.emitted ++ sent) (bytes_kcpOutput _ _)⟩

/-- `kcp_recv` drives the protocol and takes a message, or nothing. -/
theorem call_recv (peer : q.Holds conv p) (len : ℕ) (now : UInt64) {incoming : Option Datagram}
    (pending : ∀ d ∈ incoming, d.bytes ∈ q.emitted) :
    (p.call (.recv len now incoming)).2.accepted = p.accepted ∧
      (p.call (.recv len now incoming)).2.ctx.kcp =
        (ikcpRecv (p.ctx.kcp.driven now.toUInt32 (incoming.map Datagram.bytes))
          (intOfSize len)).2.2 ∧
      (p.call (.recv len now incoming)).2.emitted =
        p.emitted ++ (ikcpUpdate p.ctx.kcp now.toUInt32).1 ∧
      (p.call (.recv len now incoming)).2.returned =
        if 0 < (ikcpRecv (p.ctx.kcp.driven now.toUInt32 (incoming.map Datagram.bytes))
          (intOfSize len)).1 then
        p.returned ++ [(ikcpRecv (p.ctx.kcp.driven now.toUInt32 (incoming.map Datagram.bytes))
          (intOfSize len)).2.1]
        else p.returned := by
  have driven := kcp_kcpUpdateLoop_eq_driven p.ctx now (peer.fits pending)
  refine ⟨rfl, ?_, congrArg (fun sent => p.emitted ++ sent) (bytes_kcpOutput _ _), ?_⟩
  · simp only [KcpParty.call, kcpCall, kcpRecv, driven]
  · simp only [KcpParty.call, kcpCall, kcpRecv, driven]
    split_ifs <;> first | rfl | omega

/-! ## What the two sides know -/

/-- What `p` sends arrives at `q` as `p` believes. -/
def Trusts (conv : UInt32) (p q : KcpParty) : Prop :=
  ∃ n flying r held, Follows conv (kcpCutter.stream p.accepted) q.returned n flying r held p.ctx.kcp
    q.ctx.kcp p.emitted q.emitted

theorem trusts_fresh {ctx ctx' : KcpContext} (one : ctx.kcp = kcpConfigure conv)
    (other : ctx'.kcp = kcpConfigure conv) : Trusts conv (fresh ctx) (fresh ctx') :=
  ⟨0, [], 0, [], Follows.start one other⟩

/-- A call of the sender. -/
theorem Trusts.callSender (trusts : Trusts conv p q) (linked : Linked conv p q) {c : KcpCall}
    (allowed : Allows q.emitted c)
    (few : (kcpCutter.stream (p.call c).2.accepted).length < 2 ^ 31) :
    Trusts conv (p.call c).2 q := by
  obtain ⟨n, flying, r, held, follows⟩ := trusts
  obtain ⟨mine, theirs⟩ := linked
  cases c with
  | send buf now incoming =>
    rcases call_send mine theirs allowed with same | ⟨segs, short, cut, accepted, -, kcp, emitted⟩
    · rw [same]
      exact ⟨n, flying, r, held, follows⟩
    · rw [accepted, Cutter.stream_append, Cutter.stream_singleton] at few
      have queued := follows.queue cut
      obtain ⟨k, left, -, driven⟩ := queued.driveSender mine.serves.configured
        (mine.fragments.append short) few now.toUInt32
        (incoming.map Datagram.bytes) (by simpa using allowed.2.2)
      refine ⟨n + k, left, r, held, ?_⟩
      rw [accepted, kcp, emitted, Cutter.stream_append, Cutter.stream_singleton]
      exact driven
  | recv len now incoming =>
    obtain ⟨accepted, kcp, emitted, -⟩ := call_recv theirs len now allowed.2
    rw [accepted] at few
    obtain ⟨k, left, -, driven⟩ := follows.driveSender mine.serves.configured mine.fragments few
      now.toUInt32 (incoming.map Datagram.bytes) (by simpa using allowed.2)
    refine ⟨n + k, left, r, held, ?_⟩
    rw [accepted, kcp, emitted]
    exact driven.congrSender (ikcpRecv_frame _ _).2

/-- A call of the receiver. -/
theorem Trusts.callReceiver (trusts : Trusts conv q p) (linked : Linked conv p q) {c : KcpCall}
    (allowed : Allows q.emitted c) (few : (kcpCutter.stream q.accepted).length < 2 ^ 31) :
    Trusts conv q (p.call c).2 := by
  obtain ⟨n, flying, r, held, follows⟩ := trusts
  obtain ⟨mine, theirs⟩ := linked
  obtain ⟨m, ownFlying, sends⟩ := mine.serves.sends
  cases c with
  | send buf now incoming =>
    rcases call_send mine theirs allowed with same | ⟨segs, short, cut, -, returned, kcp, emitted⟩
    · rw [same]
      exact ⟨n, flying, r, held, follows⟩
    · -- the messages it queues itself do not matter to what it receives
      have queued : Follows conv (kcpCutter.stream q.accepted) p.returned n flying r held q.ctx.kcp
          { p.ctx.kcp with sndQueue := p.ctx.kcp.sndQueue ++ segs } q.emitted p.emitted :=
        follows.congrReceiver rfl rfl
      obtain ⟨r', held', -, driven⟩ := queued.driveReceiver mine.serves.configured few
        (sends.append cut) (mine.fragments.append short) now.toUInt32
        (incoming.map Datagram.bytes) (by simpa using allowed.2.2)
      refine ⟨n, flying, r', held', ?_⟩
      rw [returned, kcp, emitted]
      exact driven
  | recv len now incoming =>
    obtain ⟨-, kcp, emitted, returned⟩ := call_recv theirs len now allowed.2
    obtain ⟨r', held', -, driven⟩ := follows.driveReceiver mine.serves.configured few sends
      mine.fragments now.toUInt32 (incoming.map Datagram.bytes) (by simpa using allowed.2)
    have room : 0 ≤ intOfSize len := by
      rw [intOfSize_of_lt allowed.1]
      omega
    rcases driven.recvReceiver rfl mine.taken theirs.fragments room with
      ⟨failed, same⟩ | ⟨xs, r'', held'', next, value, stored, -, taken⟩
    · refine ⟨n, flying, r', held', ?_⟩
      rw [returned, if_neg (by omega), kcp, same, emitted]
      exact driven
    · refine ⟨n, flying, r'', held'', ?_⟩
      have some_byte : 0 < (xs.length : ℤ) := by
        have member := next.subset (List.mem_append_right _ (List.mem_singleton_self xs))
        have := List.length_pos_iff.mpr (theirs.messages xs member).1
        omega
      rw [returned, value, if_pos some_byte, stored, kcp, emitted]
      exact taken

/-- The receiving half stays in order. -/
theorem settled_call (settled : p.ctx.kcp.Settled) (linked : Linked conv p q) {c : KcpCall}
    (allowed : Allows q.emitted c) : (p.call c).2.ctx.kcp.Settled := by
  obtain ⟨mine, theirs⟩ := linked
  have window : p.ctx.kcp.rcvWnd = 128 := congrArg IkcpConfig.rcvWnd mine.serves.configured
  cases c with
  | send buf now incoming =>
    rcases call_send mine theirs allowed with same | ⟨segs, -, -, -, -, kcp, -⟩
    · rw [same]
      exact settled
    · have queued : Ikcpcb.Settled { p.ctx.kcp with sndQueue := p.ctx.kcp.sndQueue ++ segs } :=
        settled.congr rfl
      rw [kcp]
      exact queued.driven window _ _
  | recv len now incoming =>
    obtain ⟨-, kcp, -⟩ := call_recv theirs len now allowed.2
    have driven := settled.driven window now.toUInt32 (incoming.map Datagram.bytes)
    have config := config_driven p.ctx.kcp now.toUInt32 (incoming.map Datagram.bytes)
    have everything : (p.ctx.kcp.driven now.toUInt32 (incoming.map Datagram.bytes)).KeepsOnly
        fun _ => True := fun _ _ => trivial
    rw [kcp]
    exact (driven.recv ((congrArg IkcpConfig.rcvWnd config).trans window) everything _).1

end KcpParty

namespace KcpLink

/-- What holds of two endpoints that have only each other, on any network that does
not forge. -/
structure Agrees (conv : UInt32) (s : KcpLink) : Prop where
  linked : KcpParty.Linked conv s.client s.server
  forth : KcpParty.Trusts conv s.client s.server
  back : KcpParty.Trusts conv s.server s.client
  client : s.client.ctx.kcp.Settled
  server : s.server.ctx.kcp.Settled

variable {conv : UInt32} {s t : KcpLink}

theorem agrees_start {client server : KcpContext} (one : client.Serves conv [] [] [])
    (other : server.Serves conv [] [] []) (fresh : client.kcp = kcpConfigure conv)
    (fresh' : server.kcp = kcpConfigure conv) : (start client server).Agrees conv where
  linked := KcpParty.linked_fresh one other
  forth := KcpParty.trusts_fresh fresh fresh'
  back := KcpParty.trusts_fresh fresh' fresh
  client := (Ikcpcb.Settled.start (P := fun _ => True) (show client.kcp.receiving = (0, [], []) by
    rw [fresh]; rfl)).1
  server := (Ikcpcb.Settled.start (P := fun _ => True) (show server.kcp.receiving = (0, [], []) by
    rw [fresh']; rfl)).1

/-- No call breaks the agreement, as long as the numbers do not wrap. -/
theorem Agrees.step {label : KcpLinkLabel} (agrees : s.Agrees conv) (few : t.Few)
    (step : s.step label = some t) : t.Agrees conv := by
  have before := few.of_step step
  have linked := linked_step agrees.linked before step
  cases label with
  | client c =>
    rw [KcpLink.step, Option.ite_none_right_eq_some] at step
    obtain ⟨allowed, rfl⟩ := step.imp_right Option.some.inj
    exact ⟨linked, agrees.forth.callSender agrees.linked allowed few.1,
      agrees.back.callReceiver agrees.linked allowed before.2,
      KcpParty.settled_call agrees.client agrees.linked allowed, agrees.server⟩
  | server c =>
    rw [KcpLink.step, Option.ite_none_right_eq_some] at step
    obtain ⟨allowed, rfl⟩ := step.imp_right Option.some.inj
    exact ⟨linked, agrees.forth.callReceiver agrees.linked.symm allowed before.1,
      agrees.back.callSender agrees.linked.symm allowed few.2, agrees.client,
      KcpParty.settled_call agrees.server agrees.linked.symm allowed⟩

/-- Two endpoints agree at the end of every run. -/
theorem Agrees.run {labels : List KcpLinkLabel} (agrees : s.Agrees conv)
    (hrun : machine.run s labels = some t) (few : t.Few) : t.Agrees conv := by
  -- the bound is about the end of the run, so it is carried as a premise
  refine machine.run_invariant (I := fun s => s.Few → s.Agrees conv) ?_ (fun _ => agrees) hrun few
  intro before label after inv step few
  exact (inv (few.of_step step)).step few step

/-- The link seen from the other side. -/
def swap (s : KcpLink) : KcpLink where
  client := s.server
  server := s.client

theorem Agrees.swap (agrees : s.Agrees conv) : s.swap.Agrees conv :=
  ⟨agrees.linked.symm, agrees.back, agrees.forth, agrees.server, agrees.client⟩

/-- Two endpoints that `kcp_init` has set up agree at the end of every run. -/
theorem agrees_run {clientEnv serverEnv : SocketEnv}
    {clientIp serverIp bindIp peerIp : Option String}
    {clientPort port peerPort : UInt16} {client server : KcpContext} {labels : List KcpLinkLabel}
    (clientInit : kcpInit clientEnv .client clientIp clientPort serverIp port = some client)
    (serverInit : kcpInit serverEnv .server bindIp port peerIp peerPort = some server)
    (hrun : machine.run (start client server) labels = some s) (few : s.Few) :
    s.Agrees port.toUInt32 := by
  have one : client.Serves port.toUInt32 [] [] [] := .start clientInit
  have other : server.Serves port.toUInt32 [] [] [] := .start serverInit
  have initial := agrees_start one other (kcpInit_spec clientInit).1 (kcpInit_spec serverInit).1
  exact initial.run hrun few

/-! ## What an acknowledgement means -/

/-- What one side takes for acknowledged the other side has. -/
theorem Agrees.kept (agrees : s.Agrees conv) {i : ℕ}
    (acknowledged : s.client.ctx.kcp.Acknowledged s.client.accepted i) :
    s.server.ctx.kcp.Kept s.client.accepted s.server.returned i := by
  obtain ⟨n, flying, r, held, follows⟩ := agrees.forth
  obtain ⟨sent, gone⟩ := acknowledged
  have waiting := congrArg List.length follows.sends.queue
  rw [List.length_map, List.length_drop] at waiting
  have count := follows.receives.length_front
  -- a segment that has left the send buffer counts as acknowledged
  have absent : i ∉ flying := by
    intro flies
    have key : pushKey conv (kcpCutter.stream s.client.accepted) i ∈
        s.client.ctx.kcp.sndBuf.map IkcpSeg.key := by
      rw [follows.sends.buf]
      exact List.mem_map_of_mem flies
    obtain ⟨seg, member, same⟩ := List.mem_map.mp key
    exact gone seg member (congrArg (fun key => key.2.2.1) same)
  rcases follows.honest i (by omega) absent with below | holds
  · exact .inl (by omega)
  · have item : fragmentItem (kcpCutter.stream s.client.accepted) i ∈
        s.server.ctx.kcp.rcvBuf.map IkcpSeg.item := by
      rw [follows.receives.buf]
      exact List.mem_map_of_mem holds
    obtain ⟨seg, member, same⟩ := List.mem_map.mp item
    exact .inr ⟨seg, member, same⟩

/-- On a network that loses, repeats and reorders datagrams but does not forge them, no
fragment is acknowledged that the other side has not got, and none it has got is lost. -/
theorem acknowledged_kept {clientEnv serverEnv : SocketEnv}
    {clientIp serverIp bindIp peerIp : Option String} {clientPort port peerPort : UInt16}
    {client server : KcpContext} {labels : List KcpLinkLabel}
    (clientInit : kcpInit clientEnv .client clientIp clientPort serverIp port = some client)
    (serverInit : kcpInit serverEnv .server bindIp port peerIp peerPort = some server)
    (hrun : machine.run (start client server) labels = some s) (few : s.Few) (i : ℕ) :
    (s.client.ctx.kcp.Acknowledged s.client.accepted i →
      s.server.ctx.kcp.Kept s.client.accepted s.server.returned i) ∧
      (s.server.ctx.kcp.Acknowledged s.server.accepted i →
        s.client.ctx.kcp.Kept s.server.accepted s.client.returned i) := by
  have agrees := agrees_run clientInit serverInit hrun few
  exact ⟨agrees.kept, agrees.swap.kept⟩

/-! ### A run with a loss -/

/-- What `kcp_init` makes of port 9002 on both sides. -/
def lossyContext (peer : SockAddrIn) : KcpContext := ⟨peer, 16, kcpConfigure 9002, 0⟩

def lossyEnv : SocketEnv := ⟨fun _ => 0x0100007f, true, true, fun _ => true, true⟩

theorem kcpInit_lossyClient : kcpInit lossyEnv .client none 0 (some "127.0.0.1") 9002 =
    some (lossyContext ⟨9002, 0x0100007f⟩) := by decide +kernel

theorem kcpInit_lossyServer : kcpInit lossyEnv .server none 9002 none 0 =
    some (lossyContext ⟨0, 0⟩) := by decide +kernel

/-- The first of two messages is lost, the second is acknowledged. -/
def lossyRun : List KcpLinkLabel :=
  [.client (.send [1] 10 none), .client (.send [2] 30 none),
    .server (.recv 100 40 (some ⟨⟨0, 0⟩, 16, [42, 35, 0, 0, 81, 0, 128, 0, 30, 0, 0, 0, 1, 0, 0, 0,
      0, 0, 0, 0, 1, 0, 0, 0, 2]⟩)),
    .server (.recv 100 60 none),
    .client (.recv 100 70 (some ⟨⟨0, 0⟩, 16, [42, 35, 0, 0, 82, 0, 128, 0, 30, 0, 0, 0, 1, 0, 0, 0,
      0, 0, 0, 0, 0, 0, 0, 0]⟩))]

/-- The second message is acknowledged and kept for the time the first one arrives. -/
theorem acknowledged_kept_lossy : ∃ s,
    machine.run (start (lossyContext ⟨9002, 0x0100007f⟩) (lossyContext ⟨0, 0⟩)) lossyRun = some s ∧
    s.server.returned = [] ∧ s.client.ctx.kcp.Acknowledged s.client.accepted 1 ∧
    s.server.ctx.kcp.Kept s.client.accepted s.server.returned 1 := by
  have finished : ∃ s,
      machine.run (start (lossyContext ⟨9002, 0x0100007f⟩) (lossyContext ⟨0, 0⟩)) lossyRun =
        some s ∧
      (decide s.Few && decide (s.server.returned = []) &&
        decide (1 + s.client.ctx.kcp.sndQueue.length <
          (kcpCutter.stream s.client.accepted).length) &&
        s.client.ctx.kcp.sndBuf.all fun seg => decide (seg.sn ≠ UInt32.ofNat 1)) = true :=
    (Option.any_eq_true _ _).mp (by decide +kernel)
  obtain ⟨s, hrun, facts⟩ := finished
  simp only [Bool.and_eq_true, decide_eq_true_iff, List.all_eq_true] at facts
  obtain ⟨⟨⟨few, none⟩, sent⟩, gone⟩ := facts
  exact ⟨s, hrun, none, ⟨sent, gone⟩,
    (acknowledged_kept kcpInit_lossyClient kcpInit_lossyServer hrun few 1).1 ⟨sent, gone⟩⟩

end KcpLink

end OmniSocket
