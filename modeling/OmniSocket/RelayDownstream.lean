/-
# The way out of the relay

Each forwarding context of the relay is a connection of its own, with a server at its
other end. What the relay has put on it are the bytes of its calls of `tcp_send`, of which
some may have failed. As long as nothing follows an incomplete frame, the server is given
the messages of the calls that got their frames through, and its output is made of them.
-/

import OmniSocket.TcpFrames
import OmniSocket.TcpTransfer

set_option autoImplicit false

namespace OmniSocket

open Lib

/-- A server and its end of the connection. -/
structure RelayEnd where
  link : TcpLink
  server : Server
  deriving DecidableEq, Repr

/-- What a server does next, and how the environment answers. -/
inductive RelayEndLabel
  /-- An action outside `omni_recv`. -/
  | server (event : ServerEvent)
  /-- A `read` inside `omni_recv`. -/
  | read (r : ReadResult)
  /-- `omni_recv` returns. -/
  | recvReturn
  deriving DecidableEq, Repr

namespace RelayEnd

/-- A server at the head of its loop, on a fresh connection. -/
def start : RelayEnd where
  link := .fresh
  server := .start .tcp

/-- One step of a server. -/
def step (host : Endian) (size : SizeT) (e : RelayEnd) : RelayEndLabel → Option RelayEnd
  | .server event =>
    match event with
    | .recv _ _ => none
    | _ => (e.server.step host size event).map fun t => { e with server := t }
  | .read r =>
    if e.server.pc = .receiving then
      (e.link.read host frameBufSize r).map fun l => { e with link := l }
    else none
  | .recvReturn =>
    match e.link.rx with
    | .returned value frame =>
      (e.server.step host size (.recv value frame)).map fun t =>
        { link := e.link.endRecv, server := t }
    | _ => none

/-- The relay writes bytes on the connection. -/
def put (e : RelayEnd) (bytes : List UInt8) : RelayEnd :=
  { e with link := { e.link with pipe := e.link.pipe ++ bytes } }

end RelayEnd

/-- The calls that wrote anything at all. -/
def begunCalls (host : Endian) (calls : List TcpCall) : List TcpCall :=
  calls.filter fun c => c.bytes host ≠ []

namespace RelayEnd

/-- The calls have put the messages `got` and `pending` of a client on the connection, of
which the last may be incomplete; `got` are those the server has taken. -/
structure Holds (client relay : Endian) (calls : List TcpCall) (e : RelayEnd)
    (got pending : List FileMessage) (unsent : List UInt8) : Prop where
  messages : (begunCalls relay calls).map TcpCall.msg =
    (got ++ pending).map (FileMessage.frame client)
  incomplete : unsent ≠ [] → ∃ c ∈ calls, c.bytes relay ≠ [] ∧ c.bytes relay ≠ c.frame relay
  server : e.server.Tracks (got.map FileMessage.piece)
  proto : e.server.proto = .tcp
  carries : e.server.pc = .stopped ∨
    e.link.Carries relay frameBufSize unsent (pending.map (FileMessage.frame client))

/-- The server has taken the first of these messages. -/
def Fed (client relay : Endian) (calls : List TcpCall) (e : RelayEnd) : Prop :=
  ∃ got pending unsent, e.Holds client relay calls got pending unsent

variable {client relay host : Endian} {size : SizeT} {calls : List TcpCall} {e e' : RelayEnd}

theorem fed_start (client relay : Endian) : start.Fed client relay [] :=
  ⟨[], [], [], rfl, fun none => absurd rfl none, Server.tracks_start .tcp, rfl,
    .inr (TcpLink.carries_fresh ..)⟩

/-! ## What the server does -/

theorem Fed.server {event : ServerEvent} {t : Server} (fed : e.Fed client relay calls)
    (step : e.server.step host size event = some t) (outside : ∀ n frame, event ≠ .recv n frame) :
    Fed client relay calls { e with server := t } := by
  obtain ⟨got, pending, unsent, holds⟩ := fed
  exact ⟨got, pending, unsent, holds.messages, holds.incomplete,
    Server.tracks_step holds.server step outside, (Server.proto_step step).trans holds.proto,
    holds.carries.imp_left fun stopped => (Server.stopped_step_eq stopped step).2.1⟩

theorem Fed.recvReturn {value : ℤ} {frame : List UInt8} {t : Server}
    (fed : e.Fed client relay calls) (returned : e.link.rx = .returned value frame)
    (step : e.server.step host size (.recv value frame) = some t) :
    Fed client relay calls { link := e.link.endRecv, server := t } := by
  obtain ⟨got, pending, unsent, holds⟩ := fed
  have proto := (Server.proto_step step).trans holds.proto
  have tracks := holds.server
  simp only [Server.step] at step
  split at step
  case h_1 pc =>
    obtain rfl := Option.some.inj step
    simp only [Server.Tracks, pc] at tracks
    -- over TCP a result that is not positive ends the loop
    by_cases nonpos : value ≤ 0
    · refine ⟨got, pending, unsent, holds.messages, holds.incomplete,
        Server.tracks_afterRecv_of_nonpos tracks nonpos, proto, .inl ?_⟩
      have tcp := holds.proto
      unfold Server.afterRecv
      split_ifs <;> first | rfl | omega
    · have carries := holds.carries.resolve_left (by simp [pc])
      obtain ⟨value_eq, others, next, carries'⟩ := carries.endRecv returned (not_le.mp nonpos)
      obtain ⟨m, later, rfl, rfl, rfl⟩ := List.map_eq_cons_iff.mp next
      refine ⟨got ++ [m], later, unsent, ?_, holds.incomplete, ?_, proto, .inr carries'⟩
      · rw [holds.messages, List.append_assoc]
        rfl
      · rw [value_eq, List.map_append, List.map_singleton]
        exact Server.tracks_afterRecv_of_frame tracks m
  case h_2 => exact absurd step (by simp)

/-- Every step of the server keeps the invariant. -/
theorem Fed.step {label : RelayEndLabel} (fed : e.Fed client relay calls)
    (step : e.step host size label = some e') : e'.Fed client relay calls := by
  cases label with
  | server event =>
    simp only [RelayEnd.step] at step
    split at step
    case h_1 => exact absurd step (by simp)
    case h_2 outside =>
      obtain ⟨t, tstep, rfl⟩ := Option.map_eq_some_iff.mp step
      exact fed.server tstep fun n frame same => outside n frame same
  | read r =>
    obtain ⟨-, read⟩ := Option.ite_none_right_eq_some.mp step
    obtain ⟨l, lstep, rfl⟩ := Option.map_eq_some_iff.mp read
    obtain ⟨got, pending, unsent, holds⟩ := fed
    exact ⟨got, pending, unsent, holds.messages, holds.incomplete, holds.server, holds.proto,
      holds.carries.imp_right fun carries => carries.read (by decide) lstep⟩
  | recvReturn =>
    simp only [RelayEnd.step] at step
    split at step
    case h_1 value frame returned =>
      obtain ⟨t, tstep, rfl⟩ := Option.map_eq_some_iff.mp step
      exact fed.recvReturn returned tstep
    case h_2 => exact absurd step (by simp)

/-! ## What the relay does -/

/-- A call that gets nothing through changes nothing. -/
theorem Fed.put_nil {c : TcpCall} (fed : e.Fed client relay calls)
    (nothing : c.bytes relay = []) :
    (e.put (c.bytes relay)).Fed client relay (calls ++ [c]) := by
  obtain ⟨got, pending, unsent, holds⟩ := fed
  have same : e.put (c.bytes relay) = e := by
    rw [nothing, put, List.append_nil]
  have begun : begunCalls relay (calls ++ [c]) = begunCalls relay calls := by
    simp [begunCalls, nothing]
  rw [same]
  refine ⟨got, pending, unsent, ?_, fun left => ?_, holds.server, holds.proto, holds.carries⟩
  · rw [begun]
    exact holds.messages
  · obtain ⟨d, member, partly⟩ := holds.incomplete left
    exact ⟨d, List.mem_append_left _ member, partly⟩

/-- A call behind whole frames puts its frame on the connection, or the beginning of it. -/
theorem Fed.put_frame {c : TcpCall} {m : FileMessage} {got pending : List FileMessage}
    (holds : e.Holds client relay calls got pending []) (msg : c.msg = m.frame client)
    (allowed : c.Allowed relay) (some_byte : c.bytes relay ≠ []) :
    (e.put (c.bytes relay)).Fed client relay (calls ++ [c]) := by
  have short : c.msg.length ≤ frameBufSize := msg ▸ m.length_frame_le client
  have small : c.msg.length < 2 ^ 63 := short.trans_lt (by decide)
  have whole := TcpCall.bytes_append allowed small
  have begun : begunCalls relay (calls ++ [c]) = begunCalls relay calls ++ [c] := by
    simp [begunCalls, some_byte]
  refine ⟨got, pending ++ [m], (tcpSend relay c.t0 c.msg c.script).unsent, ?_, fun left => ?_,
    holds.server, holds.proto, holds.carries.imp_right ?_⟩
  · rw [begun, List.map_append, holds.messages]
    simp [msg]
  · refine ⟨c, by simp, some_byte, fun same => left ?_⟩
    rw [same] at whole
    exact List.append_right_eq_self.mp whole
  · rintro ⟨frames, same, fits, receives⟩
    rw [List.append_nil] at receives
    refine ⟨frames ++ [(c.t0, c.msg)], ?_, ?_, ?_⟩
    · rw [List.map_append, same, List.map_append, List.map_singleton, List.map_singleton, msg]
    · intro buf member
      rw [List.map_append, List.mem_append] at member
      rcases member with old | new
      · exact fits buf old
      · rw [List.mem_singleton.mp new]
        exact m.length_frame_le client
    · have stream : (e.put (c.bytes relay)).link.pipe ++
          (tcpSend relay c.t0 c.msg c.script).unsent =
            e.link.pipe ++ tcpFrame relay c.t0 c.msg := by
        rw [put, List.append_assoc, whole, TcpCall.frame]
      rw [stream]
      exact receives.append c.t0 c.msg

/-- A call of the relay keeps the invariant as long as nothing follows an incomplete
frame. -/
theorem Fed.put {c : TcpCall} {m : FileMessage} (fed : e.Fed client relay calls)
    (msg : c.msg = m.frame client)
    (allowed : ∀ d ∈ calls ++ [c], d.Allowed relay ∧ d.msg.length ≤ frameBufSize)
    (returned : (calls ++ [c]).Pairwise fun d _ => d.Returned relay)
    (last : FailuresLast (calls ++ [c])) :
    (e.put (c.bytes relay)).Fed client relay (calls ++ [c]) := by
  by_cases nothing : c.bytes relay = []
  · exact fed.put_nil nothing
  · obtain ⟨got, pending, unsent, holds⟩ := fed
    have own := (allowed c (by simp)).1
    have whole : unsent = [] := by
      by_contra left
      obtain ⟨d, member, some_byte, partly⟩ := holds.incomplete left
      obtain ⟨before, after, rfl⟩ := List.append_of_mem member
      -- the incomplete call has been followed by this one, so it has returned and had failed
      have ends : d.Returned relay :=
        (List.pairwise_append.mp returned).2.2 d member c (by simp)
      have facts := allowed d (by simp)
      have breaks := TcpCall.breaks_of_partial facts.1 (facts.2.trans_lt (by decide)) ends
        some_byte partly
      have silent := last before d (after ++ [c]) (by simp) breaks c (by simp)
      rw [← TcpCall.length_bytes own, List.length_eq_zero_iff] at silent
      exact nothing silent
    subst whole
    exact Fed.put_frame holds msg own nothing

end RelayEnd

end OmniSocket
