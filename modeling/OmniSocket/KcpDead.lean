/-
# A link that KCP has given up

When a flush writes a segment for the twentieth time without an acknowledgement,
`ikcp_flush` sets `kcp->state` to -1, and nothing resets it. Neither `kcp_send` nor
`kcp_recv` looks at it: a dead endpoint takes every message a live one takes, and a
receiver with nothing to deliver is told that there is nothing yet. So the client
comes to the end of its file on a dead link as on a live one, and the link may even
be given up in the call that sends the last message.
-/

import OmniSocket.KcpTransfer
import OmniSocket.KcpRetrans

set_option autoImplicit false

namespace OmniSocket

open Lib

/-! ## The state -/

/-- `kcp->state` when the link is given up: -1 as an `IUINT32`. -/
def ikcpStateDead : UInt32 := 0xffffffff

/-- KCP has given the link up. -/
def Ikcpcb.Dead (kcp : Ikcpcb) : Prop := kcp.state = ikcpStateDead

instance (kcp : Ikcpcb) : Decidable kcp.Dead := inferInstanceAs (Decidable (_ = _))

/-- The loop gives the link up at a segment that has been written `dead_link` times. -/
theorem state_ikcpFlushLoop (kcp : Ikcpcb) (wnd : UInt32) (acc : IkcpFlushAcc)
    (buf : List IkcpSeg) : (ikcpFlushLoop kcp wnd acc buf).2.state = ikcpStateDead ↔
      acc.state = ikcpStateDead ∨ ∃ seg ∈ ikcpDueSegs kcp wnd buf, kcp.deadLink ≤ seg.xmit := by
  induction buf generalizing acc with
  | nil => simp [ikcpFlushLoop, ikcpDueSegs]
  | cons segment rest ih =>
    rw [ikcpFlushLoop, ih]
    cases reason : ikcpSendReason kcp segment with
    | none =>
      have due : ikcpDueSegs kcp wnd (segment :: rest) = ikcpDueSegs kcp wnd rest := by
        simp [ikcpDueSegs, reason]
      rw [ikcpFlushData, reason, due]
    | some why =>
      have due : ikcpDueSegs kcp wnd (segment :: rest) =
          ikcpStampSeg kcp wnd (ikcpArmSeg kcp segment why) :: ikcpDueSegs kcp wnd rest := by
        simp [ikcpDueSegs, reason]
      simp only [ikcpFlushData, reason, due, List.exists_mem_cons_iff, ← or_assoc]
      refine or_congr_left ?_
      -- the test stands behind the `xmit++` of all three branches
      split_ifs with written
      · exact iff_of_true rfl (.inr written)
      · exact (or_iff_left written).symm

/-- A flush gives the link up, unless it was given up before, exactly if it writes such a
segment. -/
theorem dead_ikcpFlush_iff {kcp : Ikcpcb} (updated : kcp.updated ≠ 0) :
    (ikcpFlush kcp).2.Dead ↔ kcp.Dead ∨
      ∃ seg ∈ ikcpDueSegs (ikcpFlushFilled kcp) (ikcpWndUnused kcp) (ikcpFlushFilled kcp).sndBuf,
        kcp.deadLink ≤ seg.xmit := by
  have last : ∀ (flushed : Ikcpcb) (cwnd : UInt32) (change : ℕ) (lost : Bool),
      (ikcpFlushSsthresh flushed cwnd change lost).state = flushed.state := by
    intro flushed cwnd change lost
    simp only [ikcpFlushSsthresh]
    split_ifs <;> rfl
  have probe : (ikcpFlushProbe { kcp with acklist := [] }).state = kcp.state ∧
      (ikcpFlushProbe { kcp with acklist := [] }).deadLink = kcp.deadLink := by
    simp only [ikcpFlushProbe]
    split_ifs <;> exact ⟨rfl, rfl⟩
  have limit : (ikcpFlushFilled kcp).deadLink = kcp.deadLink := probe.2
  rw [Ikcpcb.Dead, ikcpFlush, if_neg updated, last]
  simp only [wnd_ikcpFlushAcks]
  refine (state_ikcpFlushLoop (ikcpFlushFilled kcp) (ikcpWndUnused kcp) _
    (ikcpFlushFilled kcp).sndBuf).trans ?_
  rw [limit]
  exact or_congr_left (iff_of_eq (congrArg (· = _) probe.1))

/-- An update at the clock reading `now` flushes, and a segment in the send buffer is
written for the last time. -/
def Ikcpcb.GivesUp (kcp : Ikcpcb) (now : UInt32) : Prop :=
  (ikcpUpdateTimer kcp now).1 = true ∧ ∃ seg ∈ kcp.sndBuf,
    (ikcpSendReason (ikcpUpdateTimer kcp now).2 seg).isSome ∧ kcp.deadLink ≤ seg.xmit + 1

/-- Among the segments of a flush only those that were sent before can be at their limit. -/
private theorem exists_due_iff {kcp : Ikcpcb} (limit : 1 < kcp.deadLink) :
    (∃ seg ∈ ikcpDueSegs (ikcpFlushFilled kcp) (ikcpWndUnused kcp) (ikcpFlushFilled kcp).sndBuf,
      kcp.deadLink ≤ seg.xmit) ↔
      ∃ seg ∈ kcp.sndBuf, (ikcpSendReason kcp seg).isSome ∧ kcp.deadLink ≤ seg.xmit + 1 := by
  have counted : ∀ (seg : IkcpSeg) (why : IkcpSendReason), (ikcpStampSeg (ikcpFlushFilled kcp)
      (ikcpWndUnused kcp) (ikcpArmSeg (ikcpFlushFilled kcp) seg why)).xmit = seg.xmit + 1 := by
    intro seg why
    cases why <;> rfl
  obtain ⟨fresh, buf, untouched⟩ := sndBuf_ikcpFlushFilled kcp
  rw [buf]
  constructor
  · rintro ⟨_, member, last⟩
    obtain ⟨seg, inside, due⟩ := List.mem_filterMap.mp member
    obtain ⟨why, reason, rfl⟩ := Option.map_eq_some_iff.mp due
    rw [counted] at last
    rw [ikcpSendReason_ikcpFlushFilled] at reason
    rcases List.mem_append.mp inside with old | new
    · exact ⟨seg, old, by rw [reason]; rfl, last⟩
    · -- what enters the window now is written for the first time
      rw [untouched seg new] at last
      exact absurd limit (UInt32.not_lt.mpr last)
  · rintro ⟨seg, inside, due, last⟩
    obtain ⟨why, reason⟩ := Option.isSome_iff_exists.mp due
    rw [← ikcpSendReason_ikcpFlushFilled] at reason
    refine ⟨_, List.mem_filterMap.mpr ⟨seg, List.mem_append_left fresh inside, ?_⟩,
      (counted seg why).symm ▸ last⟩
    rw [reason]
    rfl

/-- An update gives the link up, unless it was given up before, exactly then. -/
theorem dead_ikcpUpdate_iff {kcp : Ikcpcb} (limit : 1 < kcp.deadLink) (now : UInt32) :
    (ikcpUpdate kcp now).2.Dead ↔ kcp.Dead ∨ kcp.GivesUp now := by
  obtain ⟨config, -, sending⟩ := ikcpUpdateTimer_frame kcp now
  have state : (ikcpUpdateTimer kcp now).2.state = kcp.state :=
    congrArg Prod.snd (tally_ikcpUpdateTimer kcp now)
  have updated := updated_ikcpUpdateTimer kcp now
  unfold ikcpUpdate Ikcpcb.GivesUp
  generalize ikcpUpdateTimer kcp now = timed at config sending state updated ⊢
  obtain ⟨due, timed⟩ := timed
  have buf : timed.sndBuf = kcp.sndBuf := congrArg (fun half => half.2.2.2) sending
  have deadLink : timed.deadLink = kcp.deadLink := congrArg IkcpConfig.deadLink config
  have before : timed.Dead ↔ kcp.Dead := iff_of_eq (congrArg (· = _) state)
  cases due with
  | false => simpa using before
  | true =>
    have flushed := dead_ikcpFlush_iff updated
    rw [exists_due_iff (deadLink ▸ limit), buf, deadLink, before] at flushed
    simpa using flushed

/-- Reading a datagram does not touch the state. -/
theorem dead_kcpReceive_iff (ctx : KcpContext) (incoming : Option Datagram) :
    (kcpReceive ctx incoming).kcp.Dead ↔ ctx.kcp.Dead := by
  cases incoming with
  | none => rfl
  | some d =>
    rw [kcpReceive]
    split
    · exact iff_of_eq (congrArg (· = _) (congrArg Prod.snd (tally_ikcpInput _ _)))
    · rfl

/-- So a pass of `kcp_update_loop` gives the link up exactly if its update does. -/
theorem dead_kcpUpdateLoop_iff {conv : UInt32} {ctx : KcpContext}
    (configured : ctx.Configured conv) (now : UInt64) (incoming : Option Datagram) :
    (kcpUpdateLoop ctx now incoming).2.kcp.Dead ↔
      ctx.kcp.Dead ∨ ctx.kcp.GivesUp now.toUInt32 := by
  have limit : 1 < ctx.kcp.deadLink := by
    rw [show ctx.kcp.deadLink = 20 from congrArg IkcpConfig.deadLink configured]
    decide
  rw [kcp_kcpUpdateLoop, dead_kcpReceive_iff]
  exact dead_ikcpUpdate_iff limit now.toUInt32

/-- What waits in the send queue does not decide it. -/
theorem Ikcpcb.givesUp_sndQueue (kcp : Ikcpcb) (queue : List IkcpSeg) (now : UInt32) :
    GivesUp { kcp with sndQueue := queue } now ↔ kcp.GivesUp now := by
  have reason : ikcpSendReason (ikcpUpdateTimer { kcp with sndQueue := queue } now).2 =
      ikcpSendReason (ikcpUpdateTimer kcp now).2 := by
    refine ikcpSendReason_congr ?_ ?_
    · rw [current_ikcpUpdateTimer, current_ikcpUpdateTimer]
    · exact (ikcpUpdateTimer_frame _ now).1.trans (ikcpUpdateTimer_frame kcp now).1.symm
  rw [GivesUp, GivesUp, ikcpUpdateTimer_sndQueue, reason]

/-- After a `kcp_send` that takes its message. -/
theorem dead_kcpSend_iff {conv : UInt32} {ctx : KcpContext} {buf : List UInt8}
    (configured : ctx.Configured conv) (short : buf.length ≤ kcpMaxMessage) (now : UInt64)
    (incoming : Option Datagram) :
    (kcpCall ctx (.send buf now incoming)).2.kcp.Dead ↔
      ctx.kcp.Dead ∨ ctx.kcp.GivesUp now.toUInt32 := by
  have small : buf.length < 2 ^ 31 := short.trans_lt (by decide)
  rcases kcpSend_spec configured small now incoming with ⟨long, -⟩ | ⟨-, segs, -, queued⟩
  · exact absurd short long.not_ge
  · rw [kcpCall, queued]
    obtain ⟨waiting, behind⟩ : ∃ waiting : KcpContext, waiting =
        { ctx with kcp := { ctx.kcp with sndQueue := ctx.kcp.sndQueue ++ segs } } := ⟨_, rfl⟩
    have configured' : waiting.Configured conv := by
      rw [behind]
      exact configured
    have looped := dead_kcpUpdateLoop_iff configured' now incoming
    rw [behind] at looped
    exact looped.trans (or_congr_right (ctx.kcp.givesUp_sndQueue _ _))

/-- And after a `kcp_recv`: taking a message does not touch the state either. -/
theorem dead_kcpRecv_iff {conv : UInt32} {ctx : KcpContext} (configured : ctx.Configured conv)
    (len : ℕ) (now : UInt64) (incoming : Option Datagram) :
    (kcpCall ctx (.recv len now incoming)).2.kcp.Dead ↔
      ctx.kcp.Dead ∨ ctx.kcp.GivesUp now.toUInt32 :=
  (iff_of_eq (congrArg (· = _) (congrArg Prod.snd (tally_ikcpRecv _ _)))).trans
    (dead_kcpUpdateLoop_iff configured now incoming)

/-! ## What the calls report -/

namespace KcpContext

/-- How an endpoint that is given up should answer: it accepts no message, and it tells
a receiver so once there is no complete message left. -/
def ReportsDead (ctx : KcpContext) : KcpCall → Prop
  | .send buf now incoming => (kcpCall ctx (.send buf now incoming)).1.value < 0
  | .recv len now incoming =>
    ikcpPeeksize (kcpUpdateLoop ctx now incoming).2.kcp < 0 →
      (kcpCall ctx (.recv len now incoming)).1.value < 0

/-- Every call that comes after the link was given up is answered like that. -/
def DeadLinkReported (start : KcpContext) (calls : List KcpCall) : Prop :=
  ∀ before call after ctx, calls = before ++ call :: after →
    kcpMachine.run start before = some ctx → ctx.kcp.Dead → ctx.ReportsDead call

/-- A message that `kcp_send` turns down on every link: as an `int` its length is
negative, or it makes too many segments. No object has 2^63 bytes. -/
def Refuses (buf : List UInt8) : Prop :=
  ¬ (0 ≤ intOfSize buf.length ∧ intOfSize buf.length ≤ kcpMaxMessage) ∨ ssize buf.length < 0

/-- If the link has been given up, the call is one that no link takes, or the receiver
has a message to take. -/
def SparedIfDead (ctx : KcpContext) (call : KcpCall) : Prop :=
  ctx.kcp.Dead →
    match call with
    | .send buf _ _ => Refuses buf
    | .recv _ now incoming => 0 ≤ ikcpPeeksize (kcpUpdateLoop ctx now incoming).2.kcp

/-- The state of the link does not enter into the result of `kcp_send`. -/
theorem value_send_neg_iff {conv : UInt32} {ctx : KcpContext} (configured : ctx.Configured conv)
    (buf : List UInt8) (now : UInt64) (incoming : Option Datagram) :
    (kcpCall ctx (.send buf now incoming)).1.value < 0 ↔ Refuses buf := by
  rcases ikcpSend_intOfSize configured buf with
    ⟨out, rc, negative, refused⟩ | ⟨fits, msg, segs, -, -, queued, -⟩
  · have value : (kcpCall ctx (.send buf now incoming)).1.value = omniErrIo := by
      simp [kcpCall, kcpSend, refused, negative]
    rw [value]
    exact iff_of_true (by decide) (.inl out)
  · have whole : ¬ intOfSize buf.length < 0 := by omega
    have value : (kcpCall ctx (.send buf now incoming)).1.value = ssize buf.length := by
      simp [kcpCall, kcpSend, queued, whole]
    rw [value]
    exact (or_iff_right (not_not.mpr fits)).symm

/-- And `kcp_recv` never reports anything. -/
theorem value_recv_nonneg (ctx : KcpContext) (len : ℕ) (now : UInt64)
    (incoming : Option Datagram) : 0 ≤ (kcpCall ctx (.recv len now incoming)).1.value := by
  simp only [kcpCall, kcpRecv]
  split <;> omega

/-- So a call on a dead link reports it exactly if it would have failed anyway, or need
not report it yet. -/
theorem reportsDead_iff {conv : UInt32} {ctx : KcpContext} (configured : ctx.Configured conv)
    (call : KcpCall) : (ctx.kcp.Dead → ctx.ReportsDead call) ↔ ctx.SparedIfDead call := by
  refine imp_congr_right fun _ => ?_
  cases call with
  | send buf now incoming => exact value_send_neg_iff configured buf now incoming
  | recv len now incoming =>
    have nonneg := (value_recv_nonneg ctx len now incoming).not_gt
    exact ⟨fun reports => not_lt.mp fun none => nonneg (reports none),
      fun waiting none => absurd none waiting.not_gt⟩

/-- A run reports a dead link exactly if each of its calls does. -/
theorem deadLinkReported_iff {conv : UInt32} {start : KcpContext}
    (configured : start.Configured conv) (calls : List KcpCall) :
    start.DeadLinkReported calls ↔ kcpMachine.Permits SparedIfDead start calls := by
  have kept : ∀ before ctx, kcpMachine.run start before = some ctx → ctx.Configured conv := by
    intro before ctx hrun
    refine kcpMachine.run_invariant (I := fun ctx => ctx.Configured conv) ?_ configured hrun
    rintro before call after configured step
    obtain rfl := Option.some.inj step
    exact (config_kcpCall before call).trans configured
  rw [Machine.permits_iff]
  constructor
  · intro reported before call after ctx split hrun
    exact (reportsDead_iff (kept before ctx hrun) call).mp
      (reported before call after ctx split hrun)
  · intro spared before call after ctx split hrun
    exact (reportsDead_iff (kept before ctx hrun) call).mpr
      (spared before call after ctx split hrun)

end KcpContext

/-! ## What the client makes of it -/

namespace KcpTransfer

variable {hosts : Hosts} {conv : UInt32} {chunkSize : ℕ} {file : List UInt8} {s t : KcpTransfer}

/-- The client calls `omni_send`. -/
def Sends : KcpTransferLabel → Prop
  | .clientSend _ _ _ => True
  | .client _ | .clientRecv _ _ | .server _ | .serverSend _ _ _ _ | .serverRecv _ _ => False

/-- The update inside the client's call gives the link up. -/
def GivesUp (s : KcpTransfer) : KcpTransferLabel → Prop
  | .clientSend _ clock _ | .clientRecv clock _ => s.link.client.ctx.kcp.GivesUp clock.toUInt32
  | .client _ | .server _ | .serverSend _ _ _ _ | .serverRecv _ _ => False

/-- The client comes to `file_transfer_done`: past the loop with `running` cleared, or
with the send of `FILE_END`, whether or not its `malloc` succeeds. -/
def Logs (s : KcpTransfer) : KcpTransferLabel → Prop
  | .client .load => s.client.pc = .endTest ∧ s.client.running = false
  | .client (.malloc false _) | .clientSend _ _ _ =>
    ∃ payload, s.client.pc = .building msgTypeFileEnd payload
  | _ => False

/-- It comes there with the file sent and `running` still set. -/
def Completes (s : KcpTransfer) : KcpTransferLabel → Prop
  | .clientSend _ _ _ =>
    (∃ payload, s.client.pc = .building msgTypeFileEnd payload) ∧ s.client.running = true
  | _ => False

/-- The client does not call `omni_send` once its link has been given up. It comes to its
end only before, and not with a call that gives the link up. -/
def Alive (ends : KcpTransfer → KcpTransferLabel → Prop) (s : KcpTransfer)
    (label : KcpTransferLabel) : Prop :=
  (s.link.client.ctx.kcp.Dead → ¬ Sends label) ∧
    (ends s label → ¬ s.link.client.ctx.kcp.Dead ∧ ¬ s.GivesUp label)

/-- Once its link has been given up the client has no message accepted any more, and it
does not come to its end for a peer that has been given up. -/
def StopsWhenDead (ended : Client → Prop) (hosts : Hosts) (chunkSize : ℕ) (start : KcpTransfer)
    (labels : List KcpTransferLabel) : Prop :=
  ∀ before label after u v, labels = before ++ label :: after →
    (machine hosts chunkSize).run start before = some u →
    (machine hosts chunkSize).step u label = some v →
    (u.link.client.ctx.kcp.Dead → v.link.client.accepted = u.link.client.accepted) ∧
      (¬ ended u.client → ended v.client → ¬ v.link.client.ctx.kcp.Dead)

/-- The client sends messages of its file, on an endpoint with the settings of
`kcp_init`. -/
def ClientSound (conv : UInt32) (file : List UInt8) (s : KcpTransfer) : Prop :=
  s.link.client.ctx.Configured conv ∧ ∃ begun, s.client.Tracks file begun

/-- The client's send takes the next message of the file, whatever KCP makes of the link. -/
theorem clientSend_step {now clock : UInt64} {incoming : Option Datagram}
    (sound : s.ClientSound conv file)
    (step : s.step hosts chunkSize (.clientSend now clock incoming) = some t) :
    ∃ m : FileMessage, s.client.pc = .building m.type m.payload ∧
      (m.frame hosts.client).length ≤ kcpMaxMessage ∧
      t.client = { s.client with pc := .sending m.type m.payload (m.frame hosts.client) }.afterSend
        m.type m.payload omniOk ∧
      t.link.client = (s.link.client.call (.send (m.frame hosts.client) clock incoming)).2 ∧
      t.link.client.accepted = s.link.client.accepted ++ [m.frame hosts.client] := by
  obtain ⟨configured, begun, tracks⟩ := sound
  simp only [KcpTransfer.step, Option.bind_eq_some_iff] at step
  obtain ⟨c, cstep, next⟩ := step
  simp only [Client.step] at cstep
  split at cstep
  case h_2 => exact absurd cstep (by simp)
  case h_1 type payload pc =>
    obtain rfl := Option.some.inj cstep
    simp only [Client.Tracks, pc] at tracks
    obtain ⟨_, -, ready⟩ := tracks
    obtain ⟨m, rfl, rfl, rfl⟩ : ∃ m : FileMessage, m.type = type ∧ m.payload = payload ∧
        m.now = now := ⟨⟨type, payload, now, ready.isFileMessage⟩, rfl, rfl, rfl⟩
    simp only [if_true, Option.bind_eq_some_iff, Option.map_eq_some_iff] at next
    obtain ⟨link, lstep, c', cstep', rfl⟩ := next
    have short : (m.frame hosts.client).length ≤ kcpMaxMessage :=
      (m.length_frame_le hosts.client).trans (by decide)
    -- the length of the frame is all that `kcp_send` looks at
    have value := KcpParty.call_send_value clock incoming configured short
    have taken := KcpParty.accepted_call_send (value.symm ▸ Int.natCast_nonneg _)
    obtain rfl := KcpLink.step_client lstep
    refine ⟨m, pc, short, ?_, rfl, taken⟩
    have full : (s.link.client.call (.send (m.frame hosts.client) clock incoming)).1.value =
        ssize (m.frame hosts.client).length :=
      value.trans (ssize_of_lt (short.trans_lt (by decide))).symm
    exact (Option.some.inj cstep').symm.trans
      (congrArg (Client.afterSend _ m.type m.payload) (if_neg (not_not.mpr full)))

/-- What a step does to the client and to its endpoint: an action of the client leaves the
endpoint alone, its send takes the next message whatever KCP makes of the link, its receive
thread leaves the client alone, and a step of the server both. -/
theorem step_cases {label : KcpTransferLabel} (sound : s.ClientSound conv file)
    (step : s.step hosts chunkSize label = some t) :
    (∃ event, label = .client event ∧ (∀ now, event ≠ .malloc true now) ∧ (∀ n, event ≠ .sent n) ∧
      s.client.step hosts.client chunkSize event = some t.client ∧ t.link = s.link) ∨
    (∃ now clock incoming, label = .clientSend now clock incoming ∧ ∃ m : FileMessage,
      s.client.pc = .building m.type m.payload ∧
      (m.frame hosts.client).length ≤ kcpMaxMessage ∧
      t.client = { s.client with pc := .sending m.type m.payload (m.frame hosts.client) }.afterSend
        m.type m.payload omniOk ∧
      t.link.client = (s.link.client.call (.send (m.frame hosts.client) clock incoming)).2 ∧
      t.link.client.accepted = s.link.client.accepted ++ [m.frame hosts.client]) ∨
    (∃ clock incoming, label = .clientRecv clock incoming ∧ t.client = s.client ∧
      t.link.client = (s.link.client.call (.recv frameBufSize clock incoming)).2) ∨
    (¬ Sends label ∧ ¬ s.GivesUp label ∧ ¬ s.Logs label ∧ ¬ s.Completes label ∧
      t.client = s.client ∧ t.link.client = s.link.client) := by
  cases label with
  | client event =>
    simp only [KcpTransfer.step] at step
    split at step
    case h_1 | h_2 => exact absurd step (by simp)
    case h_3 notBegin notSent =>
      rw [Option.map_eq_some_iff] at step
      obtain ⟨c, cstep, rfl⟩ := step
      exact .inl ⟨event, rfl, fun now same => notBegin now same, fun n same => notSent n same,
        cstep, rfl⟩
  | clientSend now clock incoming =>
    exact .inr (.inl ⟨now, clock, incoming, rfl, clientSend_step sound step⟩)
  | clientRecv clock incoming =>
    simp only [KcpTransfer.step, Option.map_eq_some_iff] at step
    obtain ⟨link, lstep, rfl⟩ := step
    obtain rfl := KcpLink.step_client lstep
    exact .inr (.inr (.inl ⟨clock, incoming, rfl, rfl, rfl⟩))
  | server event =>
    simp only [KcpTransfer.step] at step
    split at step
    case h_1 => exact absurd step (by simp)
    case h_2 =>
      rw [Option.map_eq_some_iff] at step
      obtain ⟨u, -, rfl⟩ := step
      exact .inr (.inr (.inr ⟨id, id, id, id, rfl, rfl⟩))
  | serverSend command now clock incoming =>
    simp only [KcpTransfer.step] at step
    split at step
    case isTrue =>
      rw [Option.map_eq_some_iff] at step
      obtain ⟨link, lstep, rfl⟩ := step
      obtain rfl := KcpLink.step_server lstep
      exact .inr (.inr (.inr ⟨id, id, id, id, rfl, rfl⟩))
    case isFalse => exact absurd step (by simp)
  | serverRecv clock incoming =>
    simp only [KcpTransfer.step, Option.bind_eq_some_iff, Option.map_eq_some_iff] at step
    obtain ⟨link, lstep, _, _, rfl⟩ := step
    obtain rfl := KcpLink.step_server lstep
    exact .inr (.inr (.inr ⟨id, id, id, id, rfl, rfl⟩))

/-- A step keeps the client sound, and its sends are what gets messages accepted. -/
theorem clientSound_step {label : KcpTransferLabel} (size : chunkSize ≤ 65536)
    (sound : s.ClientSound conv file) (step : s.step hosts chunkSize label = some t) :
    t.ClientSound conv file ∧
      (t.link.client.accepted = s.link.client.accepted ↔ ¬ Sends label) := by
  have cases := step_cases sound step
  obtain ⟨configured, begun, tracks⟩ := sound
  rcases cases with ⟨event, rfl, notBegin, -, cstep, link⟩ |
    ⟨now, clock, incoming, rfl, m, pc, short, client, called, taken⟩ |
    ⟨clock, incoming, rfl, client, called⟩ | ⟨quiet, -, -, -, client, called⟩
  · exact ⟨⟨link ▸ configured, begun, tracks.quiet size cstep notBegin⟩,
      iff_of_true (congrArg _ (congrArg _ link)) id⟩
  · have config := config_kcpCall s.link.client.ctx (.send (m.frame hosts.client) clock incoming)
    refine ⟨⟨?_, ?_⟩, ?_⟩
    · rw [called]
      exact config.trans configured
    · have inside : s.client.step hosts.client chunkSize (.malloc true m.now) =
          some { s.client with pc := .sending m.type m.payload (m.frame hosts.client) } := by
        simp only [Client.step, pc, if_true, FileMessage.frame]
      have tracks' := Client.tracks_step size tracks inside
      have sent : { s.client with pc := .sending m.type m.payload (m.frame hosts.client) }.step
          hosts.client chunkSize (.sent (ssize (m.frame hosts.client).length)) =
            some t.client := by
        simp only [Client.step, ne_eq, not_true, if_false, client]
      exact ⟨_, Client.tracks_step size tracks' sent⟩
    · simp [taken, Sends]
  · have config := config_kcpCall s.link.client.ctx (.recv frameBufSize clock incoming)
    refine ⟨⟨?_, begun, client ▸ tracks⟩, iff_of_true ?_ id⟩
    · rw [called]
      exact config.trans configured
    · rw [called]
      rfl
  · refine ⟨⟨called ▸ configured, begun, client ▸ tracks⟩, iff_of_true ?_ quiet⟩
    rw [called]

/-- A call gives the link up exactly if the update inside it does. -/
theorem dead_step_iff {label : KcpTransferLabel} (sound : s.ClientSound conv file)
    (step : s.step hosts chunkSize label = some t) :
    t.link.client.ctx.kcp.Dead ↔ s.link.client.ctx.kcp.Dead ∨ s.GivesUp label := by
  rcases step_cases sound step with ⟨event, rfl, -, -, -, link⟩ |
    ⟨now, clock, incoming, rfl, m, -, short, -, called, -⟩ |
    ⟨clock, incoming, rfl, -, called⟩ | ⟨-, none, -, -, -, called⟩
  · rw [link]
    exact (or_iff_left id).symm
  · rw [called]
    exact dead_kcpSend_iff sound.1 short clock incoming
  · rw [called]
    exact dead_kcpRecv_iff sound.1 frameBufSize clock incoming
  · rw [called]
    exact (or_iff_left none).symm

/-- The sends of `FILE_END` are the last, and a sent one leaves `running` as it is. -/
theorem done_afterSend_iff (c : Client) (type : UInt32) (payload : List UInt8) (rc : ℤ) :
    ((c.afterSend type payload rc).pc = .done ↔ type = msgTypeFileEnd) ∧
      ((c.afterSend type payload rc).pc = .done →
        (c.afterSend type payload rc).running = (c.running && decide (rc = omniOk))) := by
  unfold Client.afterSend
  split_ifs with last failed <;> simp [last]

/-- An action of the client outside `omni_send` brings it to its end past the loop with
`running` cleared, or with a `malloc` that fails; then `running` is not set there. -/
theorem done_client_step {c c' : Client} {event : ClientEvent}
    (step : c.step hosts.client chunkSize event = some c')
    (notBegin : ∀ now, event ≠ .malloc true now) (notSent : ∀ n, event ≠ .sent n) :
    (c.pc ≠ .done ∧ c'.pc = .done ↔
      (event = .load ∧ c.pc = .endTest ∧ c.running = false) ∨
        (∃ now, event = .malloc false now) ∧ ∃ payload, c.pc = .building msgTypeFileEnd payload) ∧
      (c'.pc = .done → c'.running = true → c.pc = .done ∧ c.running = true) := by
  cases event with
  | load =>
    simp only [Client.step] at step
    split at step
    case h_1 pc | h_2 pc =>
      obtain rfl := Option.some.inj step
      split_ifs <;> simp [pc]
    case h_3 pc =>
      obtain rfl := Option.some.inj step
      cases c.running <;> simp [pc]
    case h_4 => exact absurd step (by simp)
  | fread nread feof ferror =>
    simp only [Client.step] at step
    obtain ⟨⟨pc, -⟩, rfl⟩ := (Option.ite_none_right_eq_some.mp step).imp_right Option.some.inj
    unfold Client.afterRead
    split_ifs <;> simp [pc]
  | malloc ok now =>
    cases ok with
    | true => exact absurd rfl (notBegin now)
    | false =>
      simp only [Client.step] at step
      split at step
      case h_1 type payload pc =>
        obtain ⟨last, cleared⟩ := done_afterSend_iff c type payload omniErrGeneric
        have failed : c' = c.afterSend type payload omniErrGeneric := (Option.some.inj step).symm
        rw [failed]
        refine ⟨by simp [pc, last], fun done running => ?_⟩
        rw [cleared done] at running
        exact absurd running (by simp [omniErrGeneric, omniOk])
      case h_2 => exact absurd step (by simp)
  | sent n => exact absurd rfl (notSent n)
  | recvThreadExit =>
    obtain rfl := Option.some.inj step
    simp
  | signal =>
    obtain rfl := Option.some.inj step
    exact ⟨by simp, fun done running => ⟨done, running⟩⟩

/-- The client comes to `file_transfer_done` in exactly these steps. -/
theorem logs_iff {label : KcpTransferLabel} (sound : s.ClientSound conv file)
    (step : s.step hosts chunkSize label = some t) :
    s.client.pc ≠ .done ∧ t.client.pc = .done ↔ s.Logs label := by
  rcases step_cases sound step with ⟨event, rfl, notBegin, notSent, cstep, -⟩ |
    ⟨now, clock, incoming, rfl, m, pc, -, client, -⟩ |
    ⟨clock, incoming, rfl, client, -⟩ | ⟨-, -, none, -, client, -⟩
  · rw [(done_client_step cstep notBegin notSent).1]
    cases event with
    | malloc ok now => cases ok <;> simp [Logs]
    | _ => simp [Logs]
  · rw [client, pc, (done_afterSend_iff _ m.type m.payload omniOk).1]
    simp [Logs, pc]
  · rw [client]
    exact iff_of_false (fun reached => reached.1 reached.2) id
  · rw [client]
    exact iff_of_false (fun reached => reached.1 reached.2) none

/-- It comes there with `running` still set in exactly these. -/
theorem completes_iff {label : KcpTransferLabel} (sound : s.ClientSound conv file)
    (step : s.step hosts chunkSize label = some t) :
    ¬ (s.client.pc = .done ∧ s.client.running = true) ∧
      (t.client.pc = .done ∧ t.client.running = true) ↔ s.Completes label := by
  rcases step_cases sound step with ⟨event, rfl, notBegin, notSent, cstep, -⟩ |
    ⟨now, clock, incoming, rfl, m, pc, -, client, -⟩ |
    ⟨clock, incoming, rfl, client, -⟩ | ⟨-, -, -, none, client, -⟩
  · exact iff_of_false (fun reached => reached.1
      ((done_client_step cstep notBegin notSent).2 reached.2.1 reached.2.2)) id
  · obtain ⟨last, kept⟩ := done_afterSend_iff
      { s.client with pc := .sending m.type m.payload (m.frame hosts.client) } m.type m.payload
        omniOk
    rw [← client] at last kept
    simp only [pc, Completes, reduceCtorEq, false_and, not_false_iff, true_and,
      ClientPc.building.injEq, exists_and_left, exists_eq', and_true, last]
    refine and_congr_right fun announced => ?_
    rw [kept (last.mpr announced)]
    simp
  · rw [client]
    exact iff_of_false (fun reached => reached.1 reached.2) id
  · rw [client]
    exact iff_of_false (fun reached => reached.1 reached.2) none

/-- A client stops at a dead link exactly if it is done with sending when the link is
given up. Which steps bring it to its end is for the caller to say. -/
theorem stopsWhenDead_iff {ended : Client → Prop} {ends : KcpTransfer → KcpTransferLabel → Prop}
    {server : KcpContext} {client : KcpContext} {labels : List KcpTransferLabel}
    (size : chunkSize ≤ 65536) (configured : client.Configured conv)
    (exact_steps : ∀ {s t : KcpTransfer} {label : KcpTransferLabel}, s.ClientSound conv file →
      s.step hosts chunkSize label = some t →
        (¬ ended s.client ∧ ended t.client ↔ ends s label))
    (hrun : (machine hosts chunkSize).run (start file client server) labels = some s) :
    StopsWhenDead ended hosts chunkSize (start file client server) labels ↔
      (machine hosts chunkSize).Permits (Alive ends) (start file client server) labels := by
  have first : (start file client server).ClientSound conv file :=
    ⟨configured, [], Client.tracks_start file⟩
  have kept : ∀ before u, (machine hosts chunkSize).run (start file client server) before = some u →
      u.ClientSound conv file := fun before u hrun =>
    (machine hosts chunkSize).run_invariant
      (fun _ _ _ sound step => (clientSound_step size sound step).1) first hrun
  -- one step does what it should exactly if the condition holds before it
  have one : ∀ {u v : KcpTransfer} {label : KcpTransferLabel}, u.ClientSound conv file →
      u.step hosts chunkSize label = some v →
      ((u.link.client.ctx.kcp.Dead → v.link.client.accepted = u.link.client.accepted) ∧
        (¬ ended u.client → ended v.client → ¬ v.link.client.ctx.kcp.Dead) ↔
          Alive ends u label) := by
    intro u v label sound step
    refine and_congr (imp_congr_right fun _ => (clientSound_step size sound step).2) ?_
    rw [← and_imp, exact_steps sound step, dead_step_iff sound step, not_or]
  rw [Machine.permits_iff]
  constructor
  · intro stops before label after u split reached
    rw [split] at hrun
    obtain ⟨u', reached', rest⟩ := (machine hosts chunkSize).run_append_eq_some.mp hrun
    obtain rfl := Option.some.inj (reached.symm.trans reached')
    obtain ⟨v, step, -⟩ := (machine hosts chunkSize).run_cons_eq_some.mp rest
    exact (one (kept before u reached) step).mp (stops before label after u v split reached step)
  · intro alive before label after u v split reached step
    exact (one (kept before u reached) step).mpr (alive before label after u split reached)

end KcpTransfer

/-! ## Exactly when a dead link is reported -/

/-- After any calls of a fresh endpoint: a dead link has been reported exactly if every
call made on it was of a message that no link takes, or of a receiver with a message to
take. Its client has stopped exactly if it called `omni_send` only before, and came to
`file_transfer_done` before and not with a flush that gave the link up; the same holds if
only an end with `running` set, the file sent, counts as one. -/
theorem dead_link_reported_iff {env : SocketEnv} {role : OmniRole} {bindIp peerIp : Option String}
    {bindPort peerPort : UInt16} {ctx : KcpContext}
    (init : kcpInit env role bindIp bindPort peerIp peerPort = some ctx) :
    (∀ calls, ctx.DeadLinkReported calls ↔
      kcpMachine.Permits KcpContext.SparedIfDead ctx calls) ∧
    ∀ hosts chunkSize file server labels s, chunkSize ≤ 65536 →
      (KcpTransfer.machine hosts chunkSize).run (.start file ctx server) labels = some s →
        (KcpTransfer.StopsWhenDead (fun c => c.pc = .done) hosts chunkSize
            (.start file ctx server) labels ↔
          (KcpTransfer.machine hosts chunkSize).Permits (KcpTransfer.Alive KcpTransfer.Logs)
            (.start file ctx server) labels) ∧
        (KcpTransfer.StopsWhenDead (fun c => c.pc = .done ∧ c.running = true) hosts chunkSize
            (.start file ctx server) labels ↔
          (KcpTransfer.machine hosts chunkSize).Permits (KcpTransfer.Alive KcpTransfer.Completes)
            (.start file ctx server) labels) := by
  have configured := configured_kcpInit init
  refine ⟨KcpContext.deadLinkReported_iff configured, ?_⟩
  intro hosts chunkSize file server labels s size hrun
  exact ⟨KcpTransfer.stopsWhenDead_iff size configured KcpTransfer.logs_iff hrun,
    KcpTransfer.stopsWhenDead_iff size configured KcpTransfer.completes_iff hrun⟩

/-- A network on which everything succeeds. -/
private def deadEnv : SocketEnv := ⟨fun _ => 0x0100007f, true, true, fun _ => true, true⟩

/-- A fresh client of a server on port 9002. -/
private def deadClient : KcpContext := ⟨⟨9002, 0x0100007f⟩, 16, kcpConfigure 9002, 0⟩

private theorem init_deadClient :
    kcpInit deadEnv .client none 0 (some "127.0.0.1") 9002 = some deadClient := by
  decide +kernel

/-- An empty file. -/
private def emptyFile : List KcpTransferLabel :=
  [.client .load, .client .load, .client (.fread 0 true false), .client .load,
    .clientSend 0 0 none]

/-- As long as the link is alive there is nothing to report, and the client may finish. -/
theorem dead_link_reported_iff_alive :
    deadClient.DeadLinkReported [.send [1] 0 none, .recv 64 300 none] ∧
      KcpTransfer.StopsWhenDead (fun c => c.pc = .done) ⟨.little, .little, .bits64⟩ 1
        (.start [] deadClient deadClient) emptyFile := by
  have fresh : ¬ deadClient.kcp.Dead := by decide +kernel
  have sent : ¬ (kcpCall deadClient (.send [1] 0 none)).2.kcp.Dead := by decide +kernel
  obtain ⟨calls, client⟩ := dead_link_reported_iff init_deadClient
  constructor
  · refine (calls _).mpr ⟨fun dead => absurd dead fresh, ?_⟩
    rintro ctx step
    obtain rfl := Option.some.inj step
    exact ⟨fun dead => absurd dead sent, fun _ _ => trivial⟩
  · have ends : ((KcpTransfer.machine ⟨.little, .little, .bits64⟩ 1).run
        (.start [] deadClient deadClient) emptyFile).isSome = true := by decide +kernel
    obtain ⟨s, hrun⟩ := Option.isSome_iff_exists.mp ends
    refine (client _ 1 [] deadClient emptyFile s (by decide) hrun).1.mpr ?_
    refine ⟨⟨fun _ => id, fun ended => absurd ended.1 (by decide)⟩, fun _ step => ?_⟩
    obtain rfl := Option.some.inj step
    refine ⟨⟨fun _ => id, fun ended => absurd ended.1 (by decide)⟩, fun _ step => ?_⟩
    obtain rfl := Option.some.inj step
    refine ⟨⟨fun _ => id, fun ended => ended.elim⟩, fun _ step => ?_⟩
    obtain rfl := Option.some.inj step
    refine ⟨⟨fun _ => id, fun ended => absurd ended.2 (by decide)⟩, fun _ step => ?_⟩
    obtain rfl := Option.some.inj step
    -- the send buffer is still empty, so `FILE_END` finds the link alive
    refine ⟨⟨fun dead => absurd dead fresh, fun _ => ⟨fresh, ?_⟩⟩, fun _ _ => trivial⟩
    rintro ⟨-, seg, waiting, -⟩
    exact absurd waiting List.not_mem_nil

/-- A file of one byte, and a server that does not answer in nineteen seconds. -/
private def unanswered : List KcpTransferLabel :=
  [.client .load, .client .load, .client (.fread 1 false false), .clientSend 0 0 none] ++
    (List.range 19).map fun i => .clientRecv (1000000 * (i.toUInt64 + 1)) none

/-- The client goes on to the end of its file. -/
private def announcement : List KcpTransferLabel :=
  [.client .load, .client .load, .client (.fread 0 true false), .client .load,
    .clientSend 20000000 20000000 none]

/-- By then the link is dead. A message is accepted all the same, the receiver is told
that there is nothing yet, and the client finishes its loop with `running` set and logs
`file_transfer_done` for a peer that was given up before `FILE_END` was sent. -/
theorem dead_link_counterexample :
    (¬ ∀ env role bindIp bindPort peerIp peerPort ctx,
      kcpInit env role bindIp bindPort peerIp peerPort = some ctx →
        ∀ calls, ctx.DeadLinkReported calls) ∧
    ∃ u s, (KcpTransfer.machine ⟨.little, .little, .bits64⟩ 1).run
        (.start [7] deadClient deadClient) unanswered = some u ∧ u.link.client.ctx.kcp.Dead ∧
      (KcpTransfer.machine ⟨.little, .little, .bits64⟩ 1).run u announcement = some s ∧
      s.client.pc = .done ∧ s.client.running = true ∧ s.link.client.ctx.kcp.Dead := by
  constructor
  · intro right
    let calls : List KcpCall := .send [1] 0 none ::
      (List.range 19).map fun i => .recv 64 (1000000 * (i.toUInt64 + 1)) none
    have ends : ∃ ctx, kcpMachine.run deadClient calls = some ctx ∧
        decide (ctx.kcp.Dead ∧ (kcpCall ctx (.send [2] 20000000 none)).1.value = 1) = true :=
      (Option.any_eq_true _ _).mp (by decide +kernel)
    obtain ⟨ctx, hrun, facts⟩ := ends
    obtain ⟨dead, value⟩ := of_decide_eq_true facts
    have reported : ctx.ReportsDead (.send [2] 20000000 none) :=
      right deadEnv .client none 0 (some "127.0.0.1") 9002 deadClient init_deadClient
        (calls ++ [.send [2] 20000000 none]) calls _ [] ctx rfl hrun dead
    rw [KcpContext.ReportsDead, value] at reported
    exact absurd reported (by decide)
  · have first : ∃ u, (KcpTransfer.machine ⟨.little, .little, .bits64⟩ 1).run
          (.start [7] deadClient deadClient) unanswered = some u ∧
        ((KcpTransfer.machine ⟨.little, .little, .bits64⟩ 1).run u announcement).any
          (fun s => decide (u.link.client.ctx.kcp.Dead ∧ s.client.pc = .done ∧
            s.client.running = true ∧ s.link.client.ctx.kcp.Dead)) = true :=
      (Option.any_eq_true _ _).mp (by decide +kernel)
    obtain ⟨u, hrun, rest⟩ := first
    obtain ⟨s, last, facts⟩ := (Option.any_eq_true _ _).mp rest
    obtain ⟨dead, done⟩ := of_decide_eq_true facts
    exact ⟨u, s, hrun, dead, last, done⟩

end OmniSocket
