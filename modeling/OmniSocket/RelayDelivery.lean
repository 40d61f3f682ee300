/-
# What the servers behind the relay are given

Two things are known of the outputs of the servers, in the order in which the relay was
connected to them. If no frame on any connection is broken, they are the file with parts
of it missing: nothing comes twice, out of order or from elsewhere. If no send of the
relay fails, nothing is missing between them: the operator's switches cut the file into
pieces, one for each server, and the server that is told of the end has the last piece.
-/

import OmniSocket.RelayTransfer

set_option autoImplicit false

namespace OmniSocket

open Lib Lib.Piece

/-! ## Messages and the bytes of the file in them -/

/-- The piece of a file that a message stands for, decoded on a machine of this byte
order. -/
def framePiece (host : Endian) (frame : List UInt8) : Option (Piece UInt8) :=
  match decodeAppMessage host .bits64 frame with
  | .ok (hdr, payload) => some (pieceOf hdr.type payload)
  | .error _ => none

/-- The pieces that messages stand for. -/
def filePieces (host : Endian) (msgs : List (List UInt8)) : List (Piece UInt8) :=
  msgs.filterMap (framePiece host)

/-- The bytes of the file in them. -/
def fileBytes (host : Endian) (msgs : List (List UInt8)) : List UInt8 :=
  content (filePieces host msgs)

/-- A message of the client stands for its piece, wherever it is decoded. -/
theorem framePiece_frame (sender host : Endian) (m : FileMessage) :
    framePiece host (m.frame sender) = some m.piece := by
  obtain ⟨hdr, decoded, type, -⟩ :=
    decodeAppMessage_appFrame sender host .bits64 m.type m.payload m.now m.isFile.length_le
  rw [framePiece, FileMessage.frame, decoded]
  exact congrArg (fun type => some (pieceOf type m.payload)) type

theorem filePieces_map_frame (sender host : Endian) (ms : List FileMessage) :
    filePieces host (ms.map (FileMessage.frame sender)) = ms.map FileMessage.piece := by
  rw [filePieces, List.filterMap_map, ← List.filterMap_eq_map]
  exact List.filterMap_congr fun m _ => framePiece_frame sender host m

theorem filePieces_append (host : Endian) (first second : List (List UInt8)) :
    filePieces host (first ++ second) = filePieces host first ++ filePieces host second :=
  List.filterMap_append

theorem filePieces_flatMap {ι : Type*} (host : Endian) (targets : List ι)
    (msgs : ι → List (List UInt8)) :
    filePieces host (targets.flatMap msgs) = targets.flatMap fun t => filePieces host (msgs t) :=
  List.filterMap_flatMap

/-! ## The output of one server -/

namespace Server

/-- The output of a server is the beginning of what it has been given. -/
theorem Tracks.out_prefix {s : Server} {got : List (Piece UInt8)} (tracks : s.Tracks got) :
    s.out <+: content got := by
  unfold Tracks at tracks
  split at tracks
  case h_1 | h_2 => exact tracks.1 ▸ List.prefix_rfl
  case h_3 =>
    obtain ⟨before, rfl, output, -⟩ := tracks
    rw [output, content_append]
    exact List.prefix_append _ _
  case h_4 =>
    rcases tracks with ⟨output, -⟩ | ⟨before, payload, written, rfl, short, output, -⟩
    · exact output ▸ List.prefix_rfl
    · rw [output, content_append, content_singleton]
      exact (List.prefix_append_right_inj _).mpr short

/-- A server that has been told of the end has written all it was given, if nothing can
follow the end. -/
theorem Tracks.out_of_done {s : Server} {got : List (Piece UInt8)} (tracks : s.Tracks got)
    (last : ∀ before later, got = before ++ later → .finish ∈ before → later = [])
    (done : s.transferDone = true) : .finish ∈ got ∧ s.out = content got := by
  unfold Tracks at tracks
  split at tracks
  case h_1 | h_2 =>
    obtain ⟨output, -, flag⟩ := tracks
    exact ⟨flag.mp done, output⟩
  case h_3 =>
    obtain ⟨before, same, -, -, flag⟩ := tracks
    exact absurd (last before _ same (flag.mp done)) (by simp)
  case h_4 =>
    rcases tracks with ⟨output, -, flag⟩ | ⟨before, payload, written, same, -, -, flag⟩
    · exact ⟨flag.mp done, output⟩
    · exact absurd (last before _ same (flag.mp done)) (by simp)

end Server

/-- No `omni_send` has returned anything but the length of its message. -/
def RelayEvent.Sent : RelayEvent → Prop
  | .handed _ msg _ (some m) => m = msg.length
  | _ => True

instance : DecidablePred RelayEvent.Sent := fun event =>
  match event with
  | .handed _ msg _ (some m) => inferInstanceAs (Decidable (m = msg.length))
  | .handed _ _ _ none | .created _ | .received _ | .dropped _ | .installed _ | .closed _ =>
    isTrue trivial

instance (c : TcpCall) : Decidable c.Breaks := inferInstanceAs (Decidable (_ ∧ _ ∧ _))

namespace Relay

/-! ## The calls on one connection -/

/-- Every `omni_send` that has returned has sent its message. -/
def AllSent (log : List RelayEvent) : Prop := ∀ event ∈ log, event.Sent

instance (log : List RelayEvent) : Decidable (AllSent log) :=
  inferInstanceAs (Decidable (∀ event ∈ log, event.Sent))

variable {s : Relay} {tx : RelayTarget} {host : Endian}

/-- The messages of the calls on a connection are those handed to it. -/
theorem Streams.handedOn (streams : s.Streams) (routes : s.Routes)
    (installed : tx ∈ RelayEvent.installs s.log) (connection : tx.ctx = .tcp host) :
    (RelayEvent.tcpCalls tx.id s.log).map TcpCall.msg = RelayEvent.handedOn tx.id s.log := by
  rw [RelayEvent.tcpCalls, List.map_filterMap, RelayEvent.handedOn]
  refine List.filterMap_congr fun event member => ?_
  cases event with
  | handed other msg answer result =>
    by_cases same : other.id = tx.id
    · obtain ⟨listed, -, fits, -⟩ := streams.handed _ _ _ _ member
      obtain rfl := List.inj_on_of_nodup_map routes.distinct listed installed same
      rw [connection] at fits
      -- only an answer of TCP fits a connection
      cases answer with
      | tcp t0 script => simp [RelayEvent.tcpCall]
      | udp r => exact absurd fits id
      | kcp now incoming => exact absurd fits id
    · cases answer <;> simp [RelayEvent.tcpCall, same]
  | created | received | dropped | installed | closed => rfl

/-- A call that has sent its message has got its frame through. -/
theorem whole_of_sent {msg : List UInt8} {t0 : UInt64} {script : List WriteResult} {m : ℤ}
    (allowed : (TcpCall.mk t0 msg script).Allowed host) (short : msg.length ≤ frameBufSize)
    (returns : some m = (omniSend (.tcp host) msg (.tcp t0 script)).map Prod.fst)
    (sent : m = msg.length) :
    (TcpCall.mk t0 msg script).bytes host = (TcpCall.mk t0 msg script).frame host := by
  have small : msg.length < 2 ^ 63 := short.trans_lt (by decide)
  obtain ⟨⟨value, ctx⟩, send, rfl⟩ := Option.map_eq_some_iff.mp returns.symm
  obtain ⟨unsent, result⟩ := omniSend_tcp send
  have sound := (TcpSend.sound_run small (TcpSend.sound_tcpSendStart host t0 msg).1 allowed).1
  have whole := TcpCall.bytes_append allowed small
  have result : (script.foldl TcpSend.pass (tcpSendStart host t0 msg)) =
    .returned value unsent := result
  rw [result] at sound
  rcases sound with ⟨-, rfl⟩ | failed
  · rw [← whole, show tcpSend host t0 msg script = .returned value [] from result]
    exact (List.append_nil _).symm
  · -- an error is no length
    rw [omniErrIo] at failed
    have sent : value = msg.length := sent
    omega

/-- If all sends have succeeded, every call but the last has got its frame through. -/
theorem Streams.whole_calls (streams : s.Streams) (routes : s.Routes)
    (installed : tx ∈ RelayEvent.installs s.log) (connection : tx.ctx = .tcp host)
    (sent : AllSent s.log) :
    (RelayEvent.tcpCalls tx.id s.log).Pairwise fun c _ => c.bytes host = c.frame host := by
  rw [RelayEvent.tcpCalls, List.pairwise_filterMap]
  refine streams.order.imp_of_mem ?_
  intro event later logged _ ends c call c' call'
  obtain ⟨other, result, same, rfl⟩ := RelayEvent.tcpCall_eq_some.mp call
  obtain ⟨other', result', -, rfl⟩ := RelayEvent.tcpCall_eq_some.mp call'
  obtain ⟨listed, short, fits, returns⟩ := streams.handed _ _ _ _ logged
  obtain rfl := List.inj_on_of_nodup_map routes.distinct listed installed same
  rw [connection] at fits returns
  cases result with
  | none => exact absurd (ends trivial trivial) (by simp)
  | some m => exact whole_of_sent fits short returns (sent _ logged)

/-- Then no failure is followed by another byte. -/
theorem failuresLast_of_whole {calls : List TcpCall} (allowed : ∀ c ∈ calls, c.Allowed host)
    (whole : calls.Pairwise fun c _ => c.bytes host = c.frame host) : FailuresLast calls := by
  rintro before c after rfl breaks later member
  have complete : c.bytes host = c.frame host := by
    rw [List.pairwise_append, List.pairwise_cons] at whole
    exact whole.2.1.1 later member
  exact absurd complete (breaks.partial_bytes (allowed c (by simp))).2

/-- A failure before the first byte of a frame does not break it. -/
theorem failuresLast_of_not_breaks {calls : List TcpCall} (whole : ∀ c ∈ calls, ¬ c.Breaks) :
    FailuresLast calls := by
  rintro before c after rfl breaks
  exact absurd breaks (whole c (by simp))

/-- At most the last call has written nothing. -/
theorem begunCalls_prefix {calls : List TcpCall}
    (whole : calls.Pairwise fun c _ => c.bytes host = c.frame host) :
    begunCalls host calls <+: calls := by
  induction calls with
  | nil => exact List.prefix_rfl
  | cons c calls ih =>
    obtain ⟨first, others⟩ := List.pairwise_cons.mp whole
    by_cases some_byte : c.bytes host = []
    · -- a call that wrote nothing is followed by no other
      cases calls with
      | nil => simp [begunCalls, some_byte]
      | cons d calls =>
        exact absurd ((first d (by simp)).symm.trans some_byte) (c.frame_ne_nil host)
    · have begun : begunCalls host (c :: calls) = c :: begunCalls host calls := by
        simp [begunCalls, some_byte]
      rw [begun]
      exact (List.prefix_cons_inj c).mpr (ih others)

end Relay

namespace RelayTransfer

/-! ## The outputs of all servers -/

/-- The output of the server that a target of the relay leads to. -/
def out (s : RelayTransfer) (tx : RelayTarget) : List UInt8 := (s.ends tx.id).server.out

/-- It has been told of the end of the file. -/
def Done (s : RelayTransfer) (tx : RelayTarget) : Prop :=
  (s.ends tx.id).server.transferDone = true

/-- The bytes of the file that were handed to a target. -/
def share (host : Endian) (s : RelayTransfer) (tx : RelayTarget) : List UInt8 :=
  fileBytes host (RelayEvent.handedOn tx.id s.relay.log)

/-- The bytes of the file that came before there was a target. -/
def lost (host : Endian) (s : RelayTransfer) : List UInt8 :=
  fileBytes host (RelayEvent.droppedMsgs s.relay.log)

/-- The targets the relay has had, in order. -/
def targets (s : RelayTransfer) : List RelayTarget := RelayEvent.installs s.relay.log

section Account

variable {hosts : RelayHosts} {file : List UInt8} {s : RelayTransfer} {tx : RelayTarget}

/-- What was dropped and what was handed to the targets, one after the other, is the
beginning of an honest account of the file. -/
theorem Holds.account (holds : s.Holds hosts file) (host : Endian) :
    ∃ rest, Announces file (filePieces host (RelayEvent.droppedMsgs s.relay.log) ++
      s.targets.flatMap (fun tx => filePieces host (RelayEvent.handedOn tx.id s.relay.log)) ++
        rest) := by
  obtain ⟨got, pending, client, received, -⟩ := holds.received
  have honest := client.announces
  have order := holds.routes.order
  rw [← flatMap_handedOn holds.routes.routed holds.routes.distinct] at order
  refine ⟨filePieces host s.relay.waiting ++ pending.map FileMessage.piece, ?_⟩
  have pieces := congrArg (filePieces host) (received.symm.trans order)
  rw [filePieces_map_frame, filePieces_append, filePieces_append, filePieces_flatMap] at pieces
  rw [List.map_append, pieces, List.append_assoc] at honest
  exact honest

/-- A server whose connection has whole frames has been given some of the messages handed
to it, in order, and the first of them if no send has failed. -/
theorem Holds.given (holds : s.Holds hosts file) (host : Endian) (listed : tx ∈ s.targets)
    (last : FailuresLast (RelayEvent.tcpCalls tx.id s.relay.log)) :
    ∃ got, (s.ends tx.id).server.Tracks got ∧
      got.Sublist (filePieces host (RelayEvent.handedOn tx.id s.relay.log)) ∧
      (Relay.AllSent s.relay.log →
        got <+: filePieces host (RelayEvent.handedOn tx.id s.relay.log)) := by
  obtain ⟨sender, connection⟩ := holds.streams.installs tx listed
  have connects : Connects s.relay tx.id sender := by
    intro other member same
    obtain rfl := List.inj_on_of_nodup_map holds.routes.distinct member listed same
    exact connection
  obtain ⟨got, pending, unsent, fed⟩ := holds.fed tx.id sender connects last
  have handed := holds.streams.handedOn holds.routes listed connection
  have begun : got.map FileMessage.piece <+: filePieces host
      ((begunCalls sender (RelayEvent.tcpCalls tx.id s.relay.log)).map TcpCall.msg) := by
    refine ⟨pending.map FileMessage.piece, ?_⟩
    rw [fed.messages, filePieces_map_frame, List.map_append]
  rw [← handed]
  refine ⟨got.map FileMessage.piece, fed.server, begun.sublist.trans ?_,
    fun sent => begun.trans ?_⟩
  · exact (List.filter_sublist.map TcpCall.msg).filterMap _
  · have whole := holds.streams.whole_calls holds.routes listed connection sent
    exact ((Relay.begunCalls_prefix whole).map TcpCall.msg).filterMap _

/-- If no send has failed, the frames are whole. -/
theorem Holds.failuresLast (holds : s.Holds hosts file) (sent : Relay.AllSent s.relay.log)
    (listed : tx ∈ s.targets) : FailuresLast (RelayEvent.tcpCalls tx.id s.relay.log) := by
  obtain ⟨sender, connection⟩ := holds.streams.installs tx listed
  have allowed := (holds.streams.calls holds.routes listed connection).1
  exact Relay.failuresLast_of_whole (fun c member => (allowed c member).1)
    (holds.streams.whole_calls holds.routes listed connection sent)

end Account

/-- The operator's switches have cut the file into pieces, one for each target. -/
structure Cut (host : Endian) (file : List UInt8) (s : RelayTransfer) : Prop where
  /-- The shares of the targets follow each other in the file, behind what was lost. -/
  shares : s.lost host ++ s.targets.flatMap (s.share host) <+: file
  /-- Each server has the beginning of its share. -/
  out : ∀ tx ∈ s.targets, s.out tx <+: s.share host tx
  /-- A server that has been told of the end has all of its share, and the shares reach the
  end of the file. -/
  done : ∀ tx ∈ s.targets, s.Done tx → s.out tx = s.share host tx ∧
    s.lost host ++ s.targets.flatMap (s.share host) = file
  /-- No target after it is handed anything. -/
  last : ∀ before tx after, s.targets = before ++ tx :: after → s.Done tx →
    ∀ later ∈ after, s.share host later = [] ∧ ¬ s.Done later

/-! ## Two runs on a file of two bytes -/

private def twoByteFrame (payload : List UInt8) : List UInt8 :=
  appFrame .little (if payload = [] then msgTypeFileEnd else msgTypeFileChunk) payload 4

/-- The client reads the next chunk and sends it. -/
private def sendChunk : List RelayTransferLabel :=
  [.client .load, .client .load, .client (.fread 1 false false), .startSend 4 5,
    .write (.count 16), .write (.count 17), .sendReturn]

/-- The client finds the end of its file and sends it. -/
private def sendEnd : List RelayTransferLabel :=
  [.client .load, .client .load, .client (.fread 0 true false), .client .load, .startSend 4 5,
    .write (.count 16), .write (.count 16), .sendReturn]

/-- The relay takes a message and forwards it. -/
private def passOn (payload : List UInt8) (script : List WriteResult) :
    List RelayTransferLabel :=
  let bytes := tcpFrame .little 5 (twoByteFrame payload)
  [.relay .main, .read (.count (bytes.take 16)), .read (.count (bytes.drop 16)), .recvReturn,
    .forward 6 script]

/-- A server takes a message. -/
private def takeIn (id : ℕ) (payload : List UInt8) : List RelayTransferLabel :=
  let bytes := tcpFrame .little 6 (twoByteFrame payload)
  [.server id (.server .load), .server id (.read (.count (bytes.take 16))),
    .server id (.read (.count (bytes.drop 16))), .server id .recvReturn]

/-- The relay makes its two contexts and creates the control thread. -/
private def relayStarts : List RelayTransferLabel :=
  [.relay (.mainInit (.tcp .little true)), .relay (.mainInit (.tcp .little true)), .relay .main,
    .relay (.create true)]

/-- The operator sets another target. -/
private def operatorSwitches : List RelayTransferLabel :=
  [.relay .control, .relay (.line (.set "10.0.0.2" 9003)),
    .relay (.controlInit (.tcp .little true)), .relay .control, .relay .control]

private def pairHosts : RelayHosts := ⟨.little, fun _ => .big, fun _ => .bits64⟩

/-- The target is switched between the two chunks. -/
private def switchedRun : List RelayTransferLabel :=
  sendChunk ++ relayStarts ++ passOn [7] [.count 16, .count 17] ++ operatorSwitches ++ sendChunk ++
    sendEnd ++ passOn [8] [.count 16, .count 17] ++ passOn [] [.count 16, .count 16] ++
    takeIn 1 [7] ++ [.server 1 (.server (.fwrite 1))] ++
    takeIn 2 [8] ++ [.server 2 (.server (.fwrite 1))] ++ takeIn 2 []

/-- The first send of the relay fails before its first byte. -/
private def failedRun : List RelayTransferLabel :=
  sendChunk ++ relayStarts ++ passOn [7] [.error] ++ sendChunk ++
    passOn [8] [.count 16, .count 17] ++ takeIn 1 [8] ++ [.server 1 (.server (.fwrite 1))]

/-! ## Every run -/

section Results

variable {args : RelayArgs} {hosts : RelayHosts} {chunkSize : ℕ} {file : List UInt8}
  {labels : List RelayTransferLabel} {s : RelayTransfer}

/-- The invariant holds at the end of every run. -/
theorem holds_of_run (accepted : 1 ≤ chunkSize ∧ chunkSize ≤ 65536)
    (hrun : (machine args hosts chunkSize).run (start file) labels = some s) :
    s.Holds hosts file :=
  (machine args hosts chunkSize).run_invariant
    (fun _ _ _ before step => holds_step accepted.2 before step) (holds_start hosts file) hrun

/-- As long as no frame is broken, the outputs of the servers, in the order of the relay's
targets, are the file with parts of it missing. -/
theorem relay_transfer_in_order (accepted : 1 ≤ chunkSize ∧ chunkSize ≤ 65536)
    (hrun : (machine args hosts chunkSize).run (start file) labels = some s)
    (unbroken : ∀ tx ∈ s.targets, FailuresLast (RelayEvent.tcpCalls tx.id s.relay.log)) :
    (s.targets.flatMap s.out).Sublist file := by
  have holds := holds_of_run accepted hrun
  obtain ⟨rest, honest⟩ := holds.account hosts.client
  refine (List.Sublist.flatMap_right s.targets fun tx listed => ?_).trans
    ((List.sublist_append_right _ _).trans honest.shares_prefix.sublist)
  obtain ⟨got, tracks, inOrder, -⟩ := holds.given hosts.client listed (unbroken tx listed)
  exact tracks.out_prefix.sublist.trans (content_sublist inOrder)

theorem relay_transfer_in_order_failed : ∃ s,
    (machine ⟨9001, "10.0.0.1", 9002⟩ pairHosts 1).run (start [7, 8]) failedRun = some s ∧
      s.targets.map s.out = [[8]] ∧ (s.targets.flatMap s.out).Sublist [7, 8] := by
  have ends : ∃ s,
      (machine ⟨9001, "10.0.0.1", 9002⟩ pairHosts 1).run (start [7, 8]) failedRun = some s ∧
        decide (s.targets.map s.out = [[8]] ∧ ∀ tx ∈ s.targets,
          ∀ c ∈ RelayEvent.tcpCalls tx.id s.relay.log, ¬ c.Breaks) = true :=
    (Option.any_eq_true _ _).mp (by decide +kernel)
  obtain ⟨s, hrun, facts⟩ := ends
  obtain ⟨outs, whole⟩ := of_decide_eq_true facts
  exact ⟨s, hrun, outs, relay_transfer_in_order (by decide) hrun fun tx listed =>
    Relay.failuresLast_of_not_breaks (whole tx listed)⟩

/-- If no send of the relay has failed, the file is cut between its targets. -/
theorem relay_transfer_cut (accepted : 1 ≤ chunkSize ∧ chunkSize ≤ 65536)
    (hrun : (machine args hosts chunkSize).run (start file) labels = some s)
    (sent : Relay.AllSent s.relay.log) : s.Cut hosts.client file := by
  have holds := holds_of_run accepted hrun
  obtain ⟨rest, honest⟩ := holds.account hosts.client
  -- a server that is done has been given the end of the file, and all of its share
  have done : ∀ tx ∈ s.targets, s.Done tx →
      .finish ∈ filePieces hosts.client (RelayEvent.handedOn tx.id s.relay.log) ∧
        s.out tx = s.share hosts.client tx := by
    intro tx listed told
    obtain ⟨got, tracks, -, first⟩ :=
      holds.given hosts.client listed (holds.failuresLast sent listed)
    obtain ⟨later, all⟩ := first sent
    obtain ⟨marked, out⟩ := tracks.out_of_done (fun before after same =>
      honest.finish_last_of_share listed (same ▸ (List.IsPrefix.sublist ⟨later, all⟩))) told
    obtain rfl : later = [] := honest.finish_last_of_share listed (by rw [all]) marked
    rw [List.append_nil] at all
    exact ⟨all ▸ marked, out.trans (congrArg content all)⟩
  refine ⟨honest.shares_prefix, fun tx listed => ?_, fun tx listed told => ?_, ?_⟩
  · obtain ⟨got, tracks, -, first⟩ :=
      holds.given hosts.client listed (holds.failuresLast sent listed)
    obtain ⟨later, all⟩ := first sent
    refine tracks.out_prefix.trans ⟨content later, ?_⟩
    rw [← content_append, all]
    rfl
  · obtain ⟨marked, out⟩ := done tx listed told
    obtain ⟨before, after, split⟩ := List.append_of_mem listed
    rw [split] at honest
    exact ⟨out, split ▸ (honest.shares_finish marked).1⟩
  · intro before tx after split told later member
    have marked := (done tx (by rw [split]; simp) told).1
    rw [split] at honest
    have none := (honest.shares_finish marked).2 later member
    refine ⟨congrArg content none, fun told' => ?_⟩
    have listed : later ∈ s.targets := by
      rw [split]
      exact List.mem_append_right _ (List.mem_cons_of_mem tx member)
    have marked' := (done later listed told').1
    rw [none] at marked'
    exact absurd marked' List.not_mem_nil

theorem relay_transfer_cut_switched : ∃ s,
    (machine ⟨9001, "10.0.0.1", 9002⟩ pairHosts 1).run (start [7, 8]) switchedRun = some s ∧
      s.targets.map s.out = [[7], [8]] ∧ s.Cut .little [7, 8] := by
  have ends : ∃ s,
      (machine ⟨9001, "10.0.0.1", 9002⟩ pairHosts 1).run (start [7, 8]) switchedRun = some s ∧
        decide (s.targets.map s.out = [[7], [8]] ∧ Relay.AllSent s.relay.log) = true :=
    (Option.any_eq_true _ _).mp (by decide +kernel)
  obtain ⟨s, hrun, facts⟩ := ends
  obtain ⟨outs, sent⟩ := of_decide_eq_true facts
  exact ⟨s, hrun, outs, relay_transfer_cut (by decide) hrun sent⟩

end Results

end RelayTransfer

end OmniSocket
