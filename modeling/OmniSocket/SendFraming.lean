/-
# What a successful send has framed

Both stream transports narrow the length of a message. `tcp_send` writes its low
32 bits into the header and then the whole payload; `kcp_send` hands `(int)len`
to `ikcp_send` and returns `len`. Up to the point where the narrowed length
differs from the length, a send that reports success has framed the message as
given, and it is what the peer gets next.
-/

import OmniSocket.Network
import OmniSocket.KcpBounds
import OmniSocket.KcpStream
import OmniSocket.TcpRoundTrip

set_option autoImplicit false

namespace OmniSocket

open Lib

/-! ## What the peer gets -/

/-- A caller of `tcp_recv` with room for `buf` gets it next from this stream, however the
bytes come, and leaves `rest`. Until then something other than an interrupted `read` can
happen. -/
def TcpGives (stream buf rest : List UInt8) : Prop :=
  ∀ (reader : Endian) (len : ℕ) (fin : StreamEnd) (reads : List ReadResult) (s : TcpReader),
    buf.length ≤ len →
    (TcpReader.machine reader len fin).run (.start stream) (reads.map .read) = some s →
    (∀ value got, s.rx = .returned value got → value = buf.length ∧ got = buf ∧ s.rest = rest) ∧
      ((∀ value got, s.rx ≠ .returned value got) →
        ∃ r, r ≠ .eintr ∧ (s.read reader len fin r).isSome)

/-- A caller of `kcp_recv` with room for `buf` gets it next from a receive queue that
begins with the fragments of `segs`, whatever is pending, and leaves what is behind them. -/
def KcpGives (segs : List IkcpSeg) (buf : List UInt8) : Prop :=
  ∀ (peer : KcpContext) (queue rest : List IkcpSeg) (len : ℕ) (now : UInt64)
    (incoming : Option Datagram),
    KcpReachable peer → peer.kcp.rcvQueue = queue ++ rest →
    queue.map IkcpSeg.fragment = segs.map IkcpSeg.fragment → buf.length ≤ intOfSize len →
    ∃ peer', omniRecv (.kcp peer) len (.kcp now incoming) =
        some ((buf.length : ℤ), buf, .kcp peer') ∧
      rest <+: peer'.kcp.rcvQueue

/-- In every run of two endpoints: a message that one of them takes and reports with its
length comes next on the other side, behind the messages taken before it. -/
def KcpLink.ReturnsNext (client server : KcpContext) : Prop :=
  ∀ (before after : List KcpLinkLabel) (buf : List UInt8) (now : UInt64)
    (incoming : Option Datagram) (s t u : KcpLink),
    machine.run (start client server) before = some s → machine.run t after = some u → u.Few →
    (s.step (.client (.send buf now incoming)) = some t →
      (s.client.call (.send buf now incoming)).1.value = buf.length →
      u.server.returned.take (s.client.accepted.length + 1) <+: s.client.accepted ++ [buf]) ∧
    (s.step (.server (.send buf now incoming)) = some t →
      (s.server.call (.send buf now incoming)).1.value = buf.length →
      u.client.returned.take (s.server.accepted.length + 1) <+: s.server.accepted ++ [buf])

/-! ## What is framed -/

/-- On a TCP context, every `omni_send` of `buf` that returns its length has
written a header with that length and then `buf`, and `buf` is what the peer gets next; if
the header has no room for the length, it returns a negative value and writes nothing. -/
def TcpFramed (host : Endian) (buf : List UInt8) : Prop :=
  ∀ (t0 : UInt64) (script : List WriteResult) (value : ℤ) (c' : OmniContext),
    (tcpSendStart host t0 buf).Allows script →
    omniSend (.tcp host) buf (.tcp t0 script) = some (value, c') →
    (value = buf.length → ∃ header, header.length = msgHeaderSize ∧
      (∀ reader, (headerOfBytes reader header).len.toNat = buf.length) ∧
      (tcpSendStart host t0 buf).written script = header ++ buf ∧
      ∀ rest, TcpGives ((tcpSendStart host t0 buf).written script ++ rest) buf rest) ∧
    (2 ^ 32 ≤ buf.length → value < 0 ∧ (tcpSendStart host t0 buf).written script = [])

/-- The segments are the fragments of one message: they hold its bytes, count
down, and end with `frg` 0. -/
structure Fragments (segs : List IkcpSeg) (buf : List UInt8) : Prop where
  data : ikcpData segs = buf
  countdown : segs.map (fun seg => seg.frg.toNat) = (List.range segs.length).reverse
  nonempty : segs ≠ []

/-- What has been queued and not seen acknowledged, in order. -/
def Ikcpcb.unacknowledged (kcp : Ikcpcb) : List (Fragment UInt8) :=
  (kcp.sndBuf ++ kcp.sndQueue).map IkcpSeg.fragment

/-- A call on `ctx` that leaves `ctx'` has put `segs` behind everything that was
unacknowledged, and nothing else; `kcp` is the control block before the pending datagram
is read. The datagrams sent go to the peer, and the data in them is from the send buffer. -/
structure KcpContext.Queues (ctx : KcpContext) (segs : List IkcpSeg) (kcp : Ikcpcb)
    (sent : List Outgoing) (incoming : Option Datagram) (ctx' : KcpContext) : Prop where
  queued : kcp.unacknowledged = ctx.kcp.unacknowledged ++ segs.map IkcpSeg.fragment
  sent : ∀ out ∈ sent, out.target = ctx.peerAddr ∧ ∃ part, out.bytes = ikcpDatagram part ∧
    ∀ seg ∈ part, seg.cmd = ikcpCmdPush → seg.key ∈ kcp.sndBuf.map IkcpSeg.key
  read : ctx'.kcp = (kcpReceive { ctx with kcp := kcp } incoming).kcp

/-- On a KCP context, every `omni_send` of `buf` that returns its length has
queued the fragments of `buf`, and `buf` is what the peer gets from them; a message of more
than 127 segments gets a negative value, leaves the context alone and sends nothing. -/
def KcpFramed (ctx : KcpContext) (buf : List UInt8) : Prop :=
  ∀ (now : UInt64) (incoming : Option Datagram) (value : ℤ) (c' : OmniContext),
    omniSend (.kcp ctx) buf (.kcp now incoming) = some (value, c') →
    (value = buf.length → ∃ segs kcp ctx', c' = .kcp ctx' ∧ Fragments segs buf ∧
      ctx.Queues segs kcp (kcpSend ctx buf now incoming).2.1.sent incoming ctx' ∧
      KcpGives segs buf) ∧
    (kcpMaxMessage < buf.length → value < 0 ∧ c' = .kcp ctx ∧
      (kcpSend ctx buf now incoming).2.1.sent = [])

/-! ## TCP -/

theorem omniSend_tcp {host : Endian} {buf : List UInt8} {t0 : UInt64}
    {script : List WriteResult} {value : ℤ} {c' : OmniContext}
    (returns : omniSend (.tcp host) buf (.tcp t0 script) = some (value, c')) :
    ∃ unsent, tcpSend host t0 buf script = .returned value unsent := by
  simp only [omniSend] at returns
  split at returns
  case h_1 value' unsent result =>
    obtain ⟨rfl, -⟩ := Prod.mk.inj (Option.some.inj returns)
    exact ⟨unsent, result⟩
  case h_2 => exact absurd returns (by simp)

/-- Whoever reads a whole frame gets its payload, and takes nothing of what is behind it. -/
theorem tcpGives_frame {header buf rest : List UInt8} (complete : header.length = msgHeaderSize)
    (named : announced header = buf.length) : TcpGives (header ++ buf ++ rest) buf rest := by
  intro reader len fin reads s fits hrun
  have parses := TcpReader.parses_run hrun
  -- none of the labels lets the caller go on to another call
  have calling : (TcpReader.machine reader len fin).Permits (fun _ label => ∃ r, label = .read r)
      (.start (header ++ buf ++ rest)) (reads.map .read) := by
    refine (TcpReader.machine reader len fin).permits_iff.mpr ?_
    intro before label after _ split _
    have member : label ∈ reads.map TcpReaderLabel.read := by
      rw [split]
      exact List.mem_append_right _ List.mem_cons_self
    obtain ⟨r, -, rfl⟩ := List.mem_map.mp member
    exact ⟨r, rfl⟩
  have taken : s.taken ++ s.rest = header ++ (buf ++ rest) := by
    rw [← List.append_assoc]
    refine (TcpReader.machine reader len fin).run_invariant_of_permits
      (I := fun s => s.taken ++ s.rest = header ++ buf ++ rest) ?_ rfl calling hrun
    rintro before label after same ⟨r, rfl⟩ step
    exact (TcpReader.read_taken step).1.trans same
  constructor
  · intro value got rx
    have parse := parses.next_result rx
    rw [taken, tcpParse_frame complete (named.trans_le fits) named.symm] at parse
    obtain ⟨rfl, rfl, rfl⟩ := TcpParsed.mk.inj parse
    exact ⟨rfl, rfl, rfl⟩
  · exact fun calling => TcpReader.exists_read (parses.follows.wanted_pos calling)

/-- A length that fits the header field is framed as given. -/
theorem tcpFramed_of_lt {host : Endian} {buf : List UInt8} (fits : buf.length < 2 ^ 32) :
    TcpFramed host buf := by
  intro t0 script value c' allows returns
  refine ⟨fun whole => ?_, fun long => by omega⟩
  obtain ⟨unsent, result⟩ := omniSend_tcp returns
  have start := TcpSend.sound_tcpSendStart host t0 buf
  obtain ⟨sound, bytes⟩ := TcpSend.sound_run (by omega) start.1 allows
  rw [← tcpSend, result] at sound bytes
  have complete : unsent = [] := by
    rcases sound with ⟨-, complete⟩ | failed
    · exact complete
    · rw [whole, omniErrIo] at failed
      omega
  have named : (UInt32.ofNat buf.length).toNat = buf.length := by
    rw [UInt32.toNat_ofNat']
    omega
  have written : (tcpSendStart host t0 buf).written script =
      headerBytes host msgTypeRaw (UInt32.ofNat buf.length) t0 ++ buf := by
    rw [complete, start.2] at bytes
    simpa [TcpSend.unsent, tcpFrame] using bytes
  refine ⟨headerBytes host msgTypeRaw (UInt32.ofNat buf.length) t0, length_headerBytes .., ?_,
    written, fun rest => ?_⟩
  · intro reader
    rw [len_headerOfBytes, named]
  · rw [written]
    exact tcpGives_frame (length_headerBytes ..) ((announced_headerBytes ..).trans named)

/-- Two writes that take everything put the narrowed header and the whole
payload on the connection. -/
private theorem tcpSend_two_writes (host : Endian) (t0 : UInt64) {buf : List UInt8}
    (some_byte : buf ≠ []) :
    tcpSend host t0 buf [.count msgHeaderSize, .count buf.length] =
        .returned (ssize buf.length) [] ∧
      (tcpSendStart host t0 buf).Allows [.count msgHeaderSize, .count buf.length] ∧
      (tcpSendStart host t0 buf).written [.count msgHeaderSize, .count buf.length] =
        tcpFrame host t0 buf := by
  have size : ssize msgHeaderSize = msgHeaderSize := ssize_of_lt (by decide)
  have length := length_headerBytes host msgTypeRaw (UInt32.ofNat buf.length) t0
  have start := TcpSend.tcpSendStart_eq host t0 buf
  -- the first loop is left with the header complete, the second with the payload
  have first : (tcpSendStart host t0 buf).pass (.count msgHeaderSize) =
      .payload buf.length buf := by
    rw [start, TcpSend.pass, tcpWriteNPass, List.drop_of_length_le (by rw [length]), tcpWriteNTest,
      if_pos rfl, tcpSendHeader, if_neg (by simp [size]), tcpWriteNTest, if_neg some_byte,
      tcpSendPayload]
  have second : (TcpSend.payload buf.length buf).pass (.count buf.length) =
      .returned (ssize buf.length) [] := by
    rw [TcpSend.pass, tcpWriteNPass, List.drop_of_length_le (Nat.le_refl _), tcpWriteNTest,
      if_pos rfl, tcpSendPayload, if_neg (by simp)]
  refine ⟨?_, ?_, ?_⟩
  · rw [tcpSend, List.foldl_cons, first, List.foldl_cons, second, List.foldl_nil]
  · refine ⟨?_, ?_⟩
    · rintro taken ⟨⟩
      rw [start, TcpSend.offered, length]
    · rw [first]
      refine ⟨?_, trivial⟩
      rintro taken ⟨⟩
      exact Nat.le_refl _
  · rw [TcpSend.written, first, start, TcpSend.written, TcpSend.accepted, TcpSend.accepted,
      TcpSend.offered, TcpSend.offered, TcpSend.written, List.take_of_length_le (by rw [length]),
      List.take_length, List.append_nil]
    rfl

/-- TCP frames messages as given exactly below 2^32 bytes. -/
theorem tcpFramed_iff (host : Endian) (buf : List UInt8) :
    TcpFramed host buf ↔ buf.length < 2 ^ 32 := by
  refine ⟨fun framed => not_le.mp fun long => ?_, tcpFramed_of_lt⟩
  have some_byte : buf ≠ [] := by
    rintro rfl
    exact absurd long (by simp)
  obtain ⟨result, allows, written⟩ := tcpSend_two_writes host 0 some_byte
  have returns : omniSend (.tcp host) buf (.tcp 0 [.count msgHeaderSize, .count buf.length]) =
      some (ssize buf.length, .tcp host) := by
    simp only [omniSend, result]
  -- everything is written, although the header cannot name the length
  have nothing := ((framed 0 _ _ _ allows returns).2 long).2
  rw [written, tcpFrame] at nothing
  exact some_byte (List.append_eq_nil_iff.mp nothing).2

/-! ## KCP -/

theorem fragments_of_cut {segs : List IkcpSeg} {buf : List UInt8}
    (cut : segs.map IkcpSeg.fragment = kcpCutter.fragments buf) : Fragments segs buf where
  data := by rw [ikcpData_eq_joined, cut, kcpCutter.joined_fragments]
  countdown := by
    have length : segs.length = kcpCutter.count buf := by
      rw [← length_cut kcpCutter.size (kcpCutter.count buf) buf, ← Cutter.fragments, ← cut,
        List.length_map]
    have view : segs.map (fun seg => seg.frg.toNat) =
        (segs.map IkcpSeg.fragment).map Prod.fst := by
      rw [List.map_map]
      rfl
    rw [view, cut, Cutter.fragments, map_fst_cut, length]
  nonempty := by
    rintro rfl
    have length := congrArg List.length cut
    rw [Cutter.fragments, length_cut, List.map_nil, List.length_nil] at length
    exact (kcpCutter.positive buf).ne length

/-- Driving the protocol leaves what is in the receive queue at its front. -/
theorem rcvQueue_kcpUpdateLoop (ctx : KcpContext) (now : UInt64) (incoming : Option Datagram) :
    ctx.kcp.rcvQueue <+: (kcpUpdateLoop ctx now incoming).2.kcp.rcvQueue := by
  have same : (ikcpUpdate ctx.kcp now.toUInt32).2.rcvQueue = ctx.kcp.rcvQueue :=
    congrArg (fun half => half.2.1) (ikcpUpdate_frame ctx.kcp now.toUInt32).2
  rw [kcp_kcpUpdateLoop, ← same]
  cases incoming with
  | none => exact List.prefix_rfl
  | some d =>
    rw [kcpReceive]
    split
    · exact rcvQueue_ikcpInput _ _
    · exact List.prefix_rfl

/-- Fragments in a receive queue come out of it as their message. -/
theorem kcpGives_of_cut {segs : List IkcpSeg} {buf : List UInt8}
    (cut : segs.map IkcpSeg.fragment = kcpCutter.fragments buf) : KcpGives segs buf := by
  intro peer queue rest len now incoming reachable front same room
  have driven := reachable.sturdy.updateLoop now incoming
  -- what is read before goes to the end of the queue
  obtain ⟨more, grown⟩ := rcvQueue_kcpUpdateLoop peer now incoming
  have few : (kcpUpdateLoop peer now incoming).2.kcp.rcvQueue.length < 2 ^ 32 := by
    have bound := driven.settled.room
    omega
  rw [front, List.append_assoc] at grown
  obtain ⟨value, stored, behind⟩ := ikcpRecv_append grown.symm few (same.trans cut) room
  have positive : ¬ (ikcpRecv (kcpUpdateLoop peer now incoming).2.kcp (intOfSize len)).1 < 0 := by
    rw [value]
    exact (Int.natCast_nonneg _).not_gt
  refine ⟨(kcpRecv peer len now incoming).2.2.2, ?_, (List.prefix_append rest more).trans behind⟩
  simp only [omniRecv, kcpRecv, if_neg positive]
  rw [value, stored]

section Queue

variable {conv : UInt32} {hist : List (Fragment UInt8)} {n : ℕ} {flying : List ℕ}
  {kcp : Ikcpcb}

/-- What is unacknowledged is in flight or has no number yet. -/
theorem Sends.unacknowledged_eq (sends : Sends conv hist n flying kcp) :
    kcp.unacknowledged = flying.map (fun i => hist.getD i (0, [])) ++ hist.drop n := by
  have buffered := congrArg (List.map fun key => key.2.2.2) sends.buf
  rw [List.map_map, List.map_map] at buffered
  rw [Ikcpcb.unacknowledged, List.map_append, sends.queue]
  exact congrArg (· ++ hist.drop n) buffered

/-- A flush moves fragments on, and drops none. -/
theorem Sends.unacknowledged_update {kcp' : Ikcpcb} {k : ℕ}
    (sends : Sends conv hist n flying kcp)
    (updated : Sends conv hist (n + k) (flying ++ List.range' n k) kcp') :
    kcp'.unacknowledged = kcp.unacknowledged := by
  have inside := updated.inside
  have moved : (List.range' n k).map (fun i => hist.getD i (0, [])) = (hist.drop n).take k := by
    refine List.ext_getElem (by simp; omega) fun i low high => ?_
    rw [List.length_map, List.length_range'] at low
    rw [List.getElem_map, List.getElem_range', List.getElem_take, List.getElem_drop, one_mul,
      List.getD_eq_getElem _ _ (by omega)]
  rw [sends.unacknowledged_eq, updated.unacknowledged_eq, List.map_append, List.append_assoc, moved,
    ← List.drop_drop, List.take_append_drop]

end Queue

/-- The protocol is driven with `segs` behind everything that is unacknowledged. -/
theorem KcpContext.SendingIn.queues {conv : UInt32} {ctx waiting : KcpContext}
    {segs : List IkcpSeg} {msg : List UInt8} (sending : ctx.SendingIn conv)
    (short : msg.length ≤ kcpMaxMessage)
    (cut : segs.map IkcpSeg.fragment = kcpCutter.fragments msg)
    (queued : waiting = { ctx with kcp := { ctx.kcp with sndQueue := ctx.kcp.sndQueue ++ segs } })
    (now : UInt64) (incoming : Option Datagram) :
    ctx.Queues segs (ikcpUpdate waiting.kcp now.toUInt32).2
      (kcpUpdateLoop waiting now incoming).1.sent incoming
      (kcpUpdateLoop waiting now incoming).2 := by
  obtain ⟨hist, n, flying, configured, sends, fragments⟩ := sending
  have configured' : waiting.Configured conv := by
    rw [queued]
    exact configured
  have behind : Sends conv (hist ++ kcpCutter.fragments msg) n flying waiting.kcp := by
    rw [queued]
    exact sends.append cut
  have unacknowledged : waiting.kcp.unacknowledged =
      ctx.kcp.unacknowledged ++ segs.map IkcpSeg.fragment := by
    rw [queued, Ikcpcb.unacknowledged, Ikcpcb.unacknowledged, ← List.map_append, List.append_assoc]
  have peer : waiting.peerAddr = ctx.peerAddr := by rw [queued]
  obtain ⟨k, updated, parts, sent, each⟩ :=
    behind.update configured' (fragments.append short) now.toUInt32
  refine ⟨(behind.unacknowledged_update updated).trans unacknowledged, ?_, ?_⟩
  · intro out member
    obtain ⟨bytes, listed, rfl⟩ := List.mem_map.mp member
    have flushed : bytes ∈ (ikcpUpdate waiting.kcp now.toUInt32).1 := listed
    rw [sent] at flushed
    obtain ⟨part, inside, rfl⟩ := List.mem_map.mp flushed
    refine ⟨peer, part, rfl, fun seg found push => ?_⟩
    rw [updated.buf]
    -- no other segment has this command
    rcases ((each part inside).2.2 seg found).content with ⟨ack, -⟩ | ⟨window, -⟩ | ⟨i, flies, key⟩
    · exact absurd (push.symm.trans ack) (by decide)
    · exact window.elim (fun ask => absurd (push.symm.trans ask) (by decide))
        fun tell => absurd (push.symm.trans tell) (by decide)
    · exact key ▸ List.mem_map_of_mem flies
  · rw [kcp_kcpUpdateLoop, queued]

/-- A message that `ikcp_send` turns down is neither reported as sent nor queued. -/
private theorem kcpFramed_of_refused {ctx : KcpContext} {buf : List UInt8} {rc : ℤ}
    (failed : rc < 0) (result : ikcpSend ctx.kcp buf (intOfSize buf.length) = (rc, ctx.kcp)) :
    KcpFramed ctx buf := by
  intro now incoming value c' returns
  have refused : kcpSend ctx buf now incoming = (omniErrIo, .none, ctx) := by
    simp only [kcpSend, result, if_pos failed]
  simp only [omniSend, refused, Option.some.injEq, Prod.mk.injEq] at returns
  obtain ⟨rfl, rfl⟩ := returns
  have error : omniErrIo < 0 := by decide
  exact ⟨fun whole => absurd (whole ▸ error) (Int.natCast_nonneg _).not_gt,
    fun _ => ⟨error, rfl, by rw [refused]; rfl⟩⟩

/-- KCP frames messages as given except where a length of 2^32 or more narrows to
one that `ikcp_send` takes. -/
theorem kcpFramed_iff {ctx : KcpContext} {conv : UInt32} (sending : ctx.SendingIn conv)
    (buf : List UInt8) :
    KcpFramed ctx buf ↔ ¬ (2 ^ 32 ≤ buf.length ∧ 0 ≤ intOfSize buf.length ∧
      intOfSize buf.length ≤ kcpMaxMessage) := by
  have ⟨_, _, _, configured, _, _⟩ := sending
  have narrowed := intOfSize_eq buf.length
  rcases ikcpSend_intOfSize configured buf with
    ⟨out, rc, failed, refused⟩ | ⟨inside, msg, segs, short, cut, queued, front⟩
  · exact ⟨fun _ bad => out bad.2, fun _ => kcpFramed_of_refused failed refused⟩
  obtain ⟨waiting, behind⟩ : ∃ waiting : KcpContext, waiting =
      { ctx with kcp := { ctx.kcp with sndQueue := ctx.kcp.sndQueue ++ segs } } := ⟨_, rfl⟩
  have queues := sending.queues short cut behind
  have taken : ∀ now incoming, kcpSend ctx buf now incoming =
      (ssize buf.length, kcpUpdateLoop waiting now incoming) := by
    intro now incoming
    simp only [kcpSend, queued, if_neg inside.1.not_gt, behind]
  constructor
  · rintro framed ⟨long, -, -⟩
    -- something is queued, although the message is too long
    have long' : kcpMaxMessage < buf.length := (show kcpMaxMessage < 2 ^ 32 by decide).trans_le long
    have nothing : OmniContext.kcp (kcpSend ctx buf 0 none).2.2 = .kcp ctx :=
      ((framed 0 none _ _ rfl).2 long').2.1
    rw [taken] at nothing
    have same : ctx.kcp.unacknowledged ++ segs.map IkcpSeg.fragment = ctx.kcp.unacknowledged := by
      rw [← (queues 0 none).queued, ← OmniContext.kcp.inj nothing]
      rfl
    have none := List.append_right_eq_self.mp same
    exact (fragments_of_cut cut).nonempty (List.map_eq_nil_iff.mp none)
  · intro fits now incoming value c' returns
    have small : buf.length < 2 ^ 32 := not_le.mp fun long => fits ⟨long, inside⟩
    have whole : intOfSize buf.length = buf.length := by
      split at narrowed <;> omega
    rw [whole, Int.toNat_natCast, List.take_length] at front
    subst front
    simp only [omniSend, taken, Option.some.injEq, Prod.mk.injEq] at returns
    refine ⟨fun _ => ?_, fun long => absurd short long.not_ge⟩
    rw [taken]
    exact ⟨segs, _, _, returns.2.symm, fragments_of_cut cut, queues now incoming,
      kcpGives_of_cut cut⟩

/-- What is at the front of two lists, one of which is at the front of the other. -/
private theorem take_prefix_of_prefix {α : Type*} {xs ys zs : List α} {x : α} {n : ℕ}
    (shorter : xs <+: zs) (longer : ys ++ [x] <+: zs) (length : n = ys.length + 1) :
    xs.take n <+: ys ++ [x] := by
  refine List.prefix_of_prefix_length_le ((List.take_prefix n xs).trans shorter) longer ?_
  rw [List.length_take, List.length_append, List.length_singleton]
  omega

namespace KcpLink

/-- Messages are only ever added on either side. -/
theorem accepted_prefix_run {labels : List KcpLinkLabel} {s t : KcpLink}
    (hrun : machine.run s labels = some t) :
    s.client.accepted <+: t.client.accepted ∧ s.server.accepted <+: t.server.accepted := by
  refine machine.run_invariant (I := fun t => s.client.accepted <+: t.client.accepted ∧
    s.server.accepted <+: t.server.accepted) ?_ ⟨List.prefix_rfl, List.prefix_rfl⟩ hrun
  rintro before label after ⟨client, server⟩ step
  cases label with
  | client c =>
    obtain rfl := step_client step
    exact ⟨client.trans (KcpParty.accepted_prefix_call _ c), server⟩
  | server c =>
    obtain rfl := step_server step
    exact ⟨client, server.trans (KcpParty.accepted_prefix_call _ c)⟩

/-- What the one side has returned is the front of what the other has taken, and the
message stands there where it was taken. -/
theorem returnsNext {client server : KcpContext} {conv : UInt32}
    (one : client.Serves conv [] [] []) (other : server.Serves conv [] [] []) :
    ReturnsNext client server := by
  intro before after buf now incoming s t u hrun later few
  have whole : ∀ label, s.step label = some t →
      machine.run (start client server) (before ++ label :: after) = some u := fun label step =>
    machine.run_append_eq_some.mpr ⟨s, hrun, machine.run_cons_eq_some.mpr ⟨t, step, later⟩⟩
  constructor
  · intro step value
    have taken : t.client.accepted = s.client.accepted ++ [buf] := by
      obtain rfl := step_client step
      exact KcpParty.accepted_call_send (value.symm ▸ Int.natCast_nonneg _)
    exact take_prefix_of_prefix (returned_isPrefix one other (whole _ step) few).1
      (taken ▸ (accepted_prefix_run later).1) rfl
  · intro step value
    have taken : t.server.accepted = s.server.accepted ++ [buf] := by
      obtain rfl := step_server step
      exact KcpParty.accepted_call_send (value.symm ▸ Int.natCast_nonneg _)
    exact take_prefix_of_prefix (returned_isPrefix one other (whole _ step) few).2
      (taken ▸ (accepted_prefix_run later).2) rfl

end KcpLink

/-! ## Both transports -/

/-- Exactly when `omni_send` frames messages as given: over TCP below 2^32 bytes,
over KCP except for a length of 2^32 or more that narrows to a valid one. And between two
endpoints what has been framed is what comes next. -/
theorem omniSend_framed_iff {ctx : KcpContext} (reachable : KcpReachable ctx) (host : Endian)
    (buf : List UInt8) :
    (TcpFramed host buf ↔ buf.length < 2 ^ 32) ∧
      (KcpFramed ctx buf ↔ ¬ (2 ^ 32 ≤ buf.length ∧ 0 ≤ intOfSize buf.length ∧
        intOfSize buf.length ≤ kcpMaxMessage)) ∧
      ∀ (clientEnv serverEnv : SocketEnv) (clientIp serverIp bindIp peerIp : Option String)
        (clientPort port peerPort : UInt16) (client server : KcpContext),
        kcpInit clientEnv .client clientIp clientPort serverIp port = some client →
        kcpInit serverEnv .server bindIp port peerIp peerPort = some server →
        KcpLink.ReturnsNext client server := by
  refine ⟨tcpFramed_iff host buf, kcpFramed_iff reachable.sendingIn buf, ?_⟩
  intro clientEnv serverEnv clientIp serverIp bindIp peerIp clientPort port peerPort client server
    clientInit serverInit
  have one : client.Serves port.toUInt32 [] [] [] := KcpContext.Serves.start clientInit
  exact KcpLink.returnsNext one (KcpContext.Serves.start serverInit)

/-- A fresh client of a server on port 9002. -/
private def freshClient : KcpContext := ⟨⟨9002, 0x0100007f⟩, 16, kcpConfigure 9002, 0⟩

private theorem reachable_freshClient : KcpReachable freshClient :=
  ⟨⟨fun _ => 0x0100007f, true, true, fun _ => true, true⟩, .client, none, 0, some "127.0.0.1",
    9002, freshClient, [], by decide +kernel, rfl⟩

/-- A buffer of 2^32 zeros: TCP writes a header with length 0 in front of it, KCP
queues an empty message, and both report success. -/
theorem omniSend_framed_counterexample :
    ¬ TcpFramed .little (List.replicate (2 ^ 32) 0) ∧
      ¬ KcpFramed freshClient (List.replicate (2 ^ 32) 0) := by
  have length : (List.replicate (2 ^ 32) (0 : UInt8)).length = 2 ^ 32 := List.length_replicate
  have narrowed : intOfSize (2 ^ 32) = 0 := by decide +kernel
  refine ⟨fun framed => ?_, fun framed => ?_⟩
  · have fits := (tcpFramed_iff .little (List.replicate (2 ^ 32) 0)).mp framed
    rw [length] at fits
    exact absurd fits (Nat.lt_irrefl _)
  · have fits :=
      (kcpFramed_iff reachable_freshClient.sendingIn (List.replicate (2 ^ 32) 0)).mp framed
    rw [length, narrowed] at fits
    exact fits ⟨Nat.le_refl _, Int.le_refl _, by decide⟩

/-- Three bytes are framed on either transport. -/
theorem omniSend_framed_iff_abc :
    TcpFramed .big [97, 98, 99] ∧ KcpFramed freshClient [97, 98, 99] := by
  obtain ⟨tcp, kcp, -⟩ := omniSend_framed_iff reachable_freshClient .big [97, 98, 99]
  have short : [(97 : UInt8), 98, 99].length < 2 ^ 32 := by decide
  exact ⟨tcp.mpr short, kcp.mpr fun long => absurd long.1 short.not_ge⟩

end OmniSocket
