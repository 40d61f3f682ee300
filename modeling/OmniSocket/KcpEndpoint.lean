/-
# Endpoints

The contexts that calls of `kcp_send` and `kcp_recv` lead to from `kcp_init`,
whatever the clock reads and whatever datagrams arrive, hostile ones included.
-/

import OmniSocket.Lib.Machine
import OmniSocket.Kcp
import OmniSocket.Ikcp.Frame
import OmniSocket.Ikcp.Message

set_option autoImplicit false

namespace OmniSocket

open Lib

/-- An endpoint, stepped by its calls. -/
def kcpMachine : Machine KcpContext KcpCall where
  step ctx call := some (kcpCall ctx call).2

/-- What `kcp_init` returned, after some calls. -/
def KcpReachable (ctx : KcpContext) : Prop :=
  ∃ env role bindIp bindPort peerIp peerPort start calls,
    kcpInit env role bindIp bindPort peerIp peerPort = some start ∧
      kcpMachine.run start calls = some ctx

/-! ## The settings -/

/-- The settings `kcp_init` chooses. -/
def kcpConfig (conv : UInt32) : IkcpConfig where
  conv := conv
  mtu := 1400
  mss := 1376
  rxMinrto := 30
  sndWnd := 128
  rcvWnd := 128
  interval := 10
  nodelay := 1
  deadLink := 20
  fastresend := 2
  fastlimit := 5
  nocwnd := 1
  stream := 0

theorem config_kcpConfigure (conv : UInt32) : (kcpConfigure conv).config = kcpConfig conv := rfl

/-- A context with the settings of `kcp_init`. -/
def KcpContext.Configured (conv : UInt32) (ctx : KcpContext) : Prop :=
  ctx.kcp.config = kcpConfig conv

/-- `kcp_init` sets up the control block as `kcpConfigure` says. -/
theorem kcpInit_spec {env : SocketEnv} {role : OmniRole} {bindIp peerIp : Option String}
    {bindPort peerPort : UInt16} {ctx : KcpContext}
    (init : kcpInit env role bindIp bindPort peerIp peerPort = some ctx) :
    ctx.kcp = kcpConfigure (if role = .server then bindPort else peerPort).toUInt32 ∧
      ctx.lastXmit = 0 := by
  unfold kcpInit at init
  split at init
  case isTrue =>
    obtain rfl := Option.some.inj init
    exact ⟨rfl, rfl⟩
  case isFalse => exact absurd init (by simp)

theorem configured_kcpInit {env : SocketEnv} {role : OmniRole} {bindIp peerIp : Option String}
    {bindPort peerPort : UInt16} {ctx : KcpContext}
    (init : kcpInit env role bindIp bindPort peerIp peerPort = some ctx) :
    ctx.Configured (if role = .server then bindPort else peerPort).toUInt32 := by
  rw [KcpContext.Configured, (kcpInit_spec init).1]
  exact config_kcpConfigure _

theorem bytes_kcpOutput (ctx : KcpContext) (datagrams : List (List UInt8)) :
    (kcpOutput ctx datagrams).map Outgoing.bytes = datagrams := by
  rw [kcpOutput, List.map_map]
  exact List.map_id datagrams

theorem config_kcpReceive (ctx : KcpContext) (incoming : Option Datagram) :
    (kcpReceive ctx incoming).kcp.config = ctx.kcp.config := by
  cases incoming with
  | none => rfl
  | some d =>
    rw [kcpReceive]
    split
    · exact ikcpInput_config _ _
    · rfl

theorem kcp_kcpUpdateLoop (ctx : KcpContext) (now : UInt64) (incoming : Option Datagram) :
    (kcpUpdateLoop ctx now incoming).2.kcp =
      (kcpReceive { ctx with kcp := (ikcpUpdate ctx.kcp now.toUInt32).2 } incoming).kcp :=
  rfl

theorem config_kcpUpdateLoop (ctx : KcpContext) (now : UInt64) (incoming : Option Datagram) :
    (kcpUpdateLoop ctx now incoming).2.kcp.config = ctx.kcp.config := by
  rw [kcp_kcpUpdateLoop, config_kcpReceive]
  exact (ikcpUpdate_frame ctx.kcp now.toUInt32).1

/-- No call changes the settings. -/
theorem config_kcpCall (ctx : KcpContext) (call : KcpCall) :
    (kcpCall ctx call).2.kcp.config = ctx.kcp.config := by
  cases call with
  | send buf now incoming =>
    have sent := (ikcpSend_frame ctx.kcp buf (intOfSize buf.length)).1
    simp only [kcpCall, kcpSend]
    split
    · exact sent
    · rw [config_kcpUpdateLoop]
      exact sent
  | recv len now incoming =>
    simp only [kcpCall, kcpRecv]
    rw [(ikcpRecv_frame _ _).1, config_kcpUpdateLoop]

/-- What `kcp_send` does with these settings: it turns a message down that has too
many segments, and queues any other one and drives the protocol. -/
theorem kcpSend_spec {conv : UInt32} {ctx : KcpContext} {buf : List UInt8}
    (configured : ctx.Configured conv) (small : buf.length < 2 ^ 31) (now : UInt64)
    (incoming : Option Datagram) :
    (kcpMaxMessage < buf.length ∧ kcpSend ctx buf now incoming = (omniErrIo, .none, ctx)) ∨
      (buf.length ≤ kcpMaxMessage ∧ ∃ segs : List IkcpSeg,
        segs.map IkcpSeg.fragment = kcpCutter.fragments buf ∧
        kcpSend ctx buf now incoming = ((buf.length : ℤ),
          kcpUpdateLoop { ctx with kcp := { ctx.kcp with sndQueue := ctx.kcp.sndQueue ++ segs } }
            now incoming)) := by
  have len : intOfSize buf.length = buf.length := intOfSize_of_lt small
  rcases ikcpSend_spec (congrArg IkcpConfig.mss configured) (congrArg IkcpConfig.stream configured)
    small (Nat.le_refl buf.length) with ⟨long, failed⟩ | ⟨short, segs, cut, queued⟩
  · rw [← len] at failed
    refine .inl ⟨long, ?_⟩
    simp only [kcpSend, failed]
    exact if_pos (show (-2 : ℤ) < 0 by decide)
  · rw [List.take_length] at cut
    rw [← len] at queued
    have whole : ¬ intOfSize buf.length < 0 := by omega
    refine .inr ⟨short, segs, cut, ?_⟩
    simp only [kcpSend, queued, if_neg whole]
    rw [ssize_of_lt (by omega)]

/-- A fresh context has reported every retransmission there has been. -/
theorem lastXmit_kcpInit {env : SocketEnv} {role : OmniRole} {bindIp peerIp : Option String}
    {bindPort peerPort : UInt16} {ctx : KcpContext}
    (init : kcpInit env role bindIp bindPort peerIp peerPort = some ctx) :
    ctx.lastXmit = ctx.kcp.xmit := by
  obtain ⟨fresh, last⟩ := kcpInit_spec init
  rw [fresh, last]
  rfl

/-- So has one that has accepted a message. -/
theorem lastXmit_kcpSend {conv : UInt32} {ctx : KcpContext} {buf : List UInt8}
    (configured : ctx.Configured conv) (short : buf.length ≤ kcpMaxMessage) (now : UInt64)
    (incoming : Option Datagram) :
    (kcpSend ctx buf now incoming).2.2.lastXmit = (kcpSend ctx buf now incoming).2.2.kcp.xmit := by
  have small : buf.length < 2 ^ 31 := short.trans_lt (by decide)
  rcases kcpSend_spec configured small now incoming with ⟨long, -⟩ | ⟨-, segs, -, queued⟩
  · exact absurd short (not_le.mpr long)
  · rw [queued]
    rfl

end OmniSocket
