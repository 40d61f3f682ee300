/-
# The two programs over TCP

Both processes as a whole, each with its two threads, and the connection between them.
What the threads do to the transfer they do as in the transfer of one send loop and one
receive loop; everything else, from the first `fopen` to the return of `main`, only
starts, stops and cancels them. So what is known of the loops holds of the programs,
and what the server has in its file when it returns can be told.
-/

import OmniSocket.ServerExit
import OmniSocket.TcpTransfer

set_option autoImplicit false

namespace OmniSocket

open Lib

/-- Two programs that have been told to use TCP, and the machines they run on. -/
structure TcpSetup where
  hosts : Hosts
  /-- The width of `size_t` on the client's machine. -/
  clientSize : SizeT
  client : ClientOptions
  server : ServerOptions
  accepted : client.accepted clientSize = true
  clientTcp : parseProto client.proto = .tcp
  serverTcp : parseProto server.proto = .tcp

namespace TcpSetup

/-- `chunk_size`. -/
def chunkSize (setup : TcpSetup) : ℕ := (setup.client.chunkSize setup.clientSize).toNat

/-- A chunk size that is accepted fits the receiver's buffer. -/
theorem chunkSize_le (setup : TcpSetup) : setup.chunkSize ≤ 65536 := by
  have accepted := setup.accepted
  simp only [ClientOptions.accepted, Bool.and_eq_true, decide_eq_true_eq] at accepted
  exact UInt32.le_iff_toNat_le.mp accepted.2

end TcpSetup

/-- The two processes with the connection between them. -/
structure TcpPrograms where
  client : ClientMain
  link : TcpLink
  server : ServerMain
  deriving DecidableEq, Repr

/-- Who moves next, and how the environment answers. -/
inductive TcpProgramsLabel
  /-- An action of the client process outside the `omni_send` of its send loop. -/
  | client (label : ClientMainLabel)
  /-- The client's `malloc` succeeds, its clock reads `now`, and `omni_send` is
  called at clock reading `t0`. -/
  | startSend (now t0 : UInt64)
  /-- A `write` inside the client's `omni_send`. -/
  | write (r : WriteResult)
  /-- The client's `omni_send` returns. -/
  | sendReturn
  /-- An action of the server process outside the `omni_recv` of its receive thread. -/
  | server (label : ServerMainLabel)
  /-- A `read` inside the server's `omni_recv`. -/
  | read (r : ReadResult)
  /-- The server's `omni_recv` returns; an `fflush` behind it succeeds or not. -/
  | recvReturn (flushed : Bool)
  deriving DecidableEq, Repr

namespace TcpPrograms

/-- Both programs have read their options. -/
def start (setup : TcpSetup) (file input : List UInt8) : TcpPrograms where
  client := .start setup.clientSize setup.client file
  link := .fresh
  server := .start setup.hosts.size setup.server input

/-- An action of the client process. -/
def clientStep (setup : TcpSetup) (s : TcpPrograms) (label : ClientMainLabel) :
    Option ClientMain :=
  s.client.step setup.hosts.client setup.clientSize setup.chunkSize
    (setup.client.waitSeconds setup.clientSize) label

/-- An action of the server process. -/
def serverStep (setup : TcpSetup) (s : TcpPrograms) (label : ServerMainLabel) :
    Option ServerMain :=
  s.server.step setup.hosts.server setup.hosts.size label

/-- One step of the machine. -/
def step (setup : TcpSetup) (s : TcpPrograms) : TcpProgramsLabel → Option TcpPrograms
  | .client label =>
    match label with
    | .send (.malloc true _) | .send (.sent _) => none
    | _ => (s.clientStep setup label).map fun c => { s with client := c }
  | .startSend now t0 =>
    (s.clientStep setup (.send (.malloc true now))).bind fun c =>
      match c.client.pc with
      | .sending _ _ frame =>
        some { s with client := c, link := s.link.beginSend setup.hosts.client t0 frame }
      | _ => none
  | .write r => (s.link.write r).map fun l => { s with link := l }
  | .sendReturn =>
    match s.link.tx with
    | some (.returned value _) =>
      (s.clientStep setup (.send (.sent value))).map fun c =>
        { s with client := c, link := s.link.endSend }
    | _ => none
  | .server label =>
    match label with
    | .thread (.recv _ _) _ => none
    | _ => (s.serverStep setup label).map fun t => { s with server := t }
  | .read r =>
    if s.server.thread = .started ∧ s.server.rt.pc = .receiving then
      (s.link.read setup.hosts.server frameBufSize r).map fun l => { s with link := l }
    else none
  | .recvReturn flushed =>
    match s.link.rx with
    | .returned value frame =>
      (s.serverStep setup (.thread (.recv value frame) flushed)).map fun t =>
        { s with server := t, link := s.link.endRecv }
    | _ => none

/-- The machine of the two programs. -/
def machine (setup : TcpSetup) : Machine TcpPrograms TcpProgramsLabel where
  step := step setup

/-! ## The loops within the programs -/

/-- What an action of the client process is to its send loop. -/
def tellsClient (c' : Option ClientMain) : ClientMainLabel → List TcpTransferLabel
  | .send event => [.client event]
  | .signal => [.client .signal]
  | _ =>
    -- whoever has cleared the flag, the send loop finds it cleared
    match c' with
    | some c' => if c'.client.running then [] else [.client .recvThreadExit]
    | none => []

/-- What an action of the server process is to its receive loop. -/
def tellsServer (t : ServerMain) : ServerMainLabel → List TcpTransferLabel
  | .thread event _ => [.server event]
  | .main => if t.pc = .stop then [.server .mainExit] else []
  | .cancelled nw =>
    match t.rt.pc with
    | .writing _ => [.server (.fwrite nw)]
    | _ => []
  | _ => []

/-- What a step of the programs is to the transfer. -/
def tells (setup : TcpSetup) (s : TcpPrograms) : TcpProgramsLabel → List TcpTransferLabel
  | .client label => tellsClient (s.clientStep setup label) label
  | .startSend now t0 => [.startSend now t0]
  | .write r => [.write r]
  | .sendReturn => [.sendReturn]
  | .server label => tellsServer s.server label
  | .read r => [.read r]
  | .recvReturn _ => [.recvReturn]

/-- The transfer within the programs. A thread that has been cancelled is over, wherever
the receive loop would be. -/
structure Shows (s : TcpPrograms) (t : TcpTransfer) : Prop where
  client : t.client = s.client.client
  link : t.link = s.link
  out : t.server.out = s.server.rt.out
  done : t.server.transferDone = s.server.rt.transferDone
  server : s.server.thread ≠ .cancelled → t.server = s.server.rt

variable {setup : TcpSetup} {s : TcpPrograms} {t : TcpTransfer}

/-- Outside its send loop the client process can at most clear the flag of the loop. -/
theorem shares_step {host : Endian} {size : SizeT} {chunkSize : ℕ} {wait : ℤ} {c c' : ClientMain}
    {label : ClientMainLabel} (step : c.step host size chunkSize wait label = some c')
    (outside : ∀ event, label ≠ .send event) (quiet : label ≠ .signal) :
    c'.client = c.client ∨ c'.client = { c.client with running := false } := by
  cases label with
  | fopen ok | omniInit ok | malloc ok =>
    simp only [ClientMain.step] at step
    split at step
    case h_1 =>
      obtain rfl := Option.some.inj step
      exact .inl rfl
    case h_2 => exact absurd step (by simp)
  | create ok =>
    simp only [ClientMain.step] at step
    split at step
    case h_1 =>
      obtain rfl := Option.some.inj step
      cases ok <;> exact .inl rfl
    case h_2 => exact absurd step (by simp)
  | send event => exact absurd rfl (outside event)
  | main =>
    simp only [ClientMain.step, ClientMain.mainStep] at step
    split at step
    case h_13 =>
      obtain ⟨-, next⟩ := Option.ite_none_right_eq_some.mp step
      obtain rfl := Option.some.inj next
      exact .inl rfl
    case h_16 => exact absurd step (by simp)
    all_goals
      obtain rfl := Option.some.inj step
      first | exact .inl rfl | exact .inr rfl
  | thread event =>
    obtain ⟨⟨-, own⟩, next⟩ := Option.ite_none_right_eq_some.mp step
    obtain ⟨r, rstep, rfl⟩ := Option.map_eq_some_iff.mp next
    have running : r.running = c.client.running ∨ r.running = false := by
      cases event with
      | load =>
        simp only [ClientRecv.step] at rstep
        split at rstep
        case h_1 =>
          obtain rfl := Option.some.inj rstep
          split
          · exact .inl rfl
          · exact .inr rfl
        case h_2 => exact absurd rstep (by simp)
      | recv n frame =>
        simp only [ClientRecv.step] at rstep
        split at rstep
        case h_1 =>
          obtain rfl := Option.some.inj rstep
          by_cases negative : n < 0
          · rw [ClientRecv.afterRecv, if_pos negative]
            exact .inr rfl
          · exact .inl (ClientRecv.afterRecv_of_nonneg _ _ _ frame negative).2
        case h_2 => exact absurd rstep (by simp)
      | mainExit => exact absurd rfl own
    rcases running with same | cleared
    · left
      simp only [same]
    · right
      simp only [cleared]
  | cancelled =>
    obtain ⟨-, next⟩ := Option.ite_none_right_eq_some.mp step
    obtain rfl := Option.some.inj next
    exact .inl rfl
  | signal => exact absurd rfl quiet

/-- An action of the send loop outside `omni_send` is one of the transfer. -/
theorem run_client {event : ClientEvent} {c : Client}
    (outside : ∀ now n, event ≠ .malloc true now ∧ event ≠ .sent n)
    (step : t.client.step setup.hosts.client setup.chunkSize event = some c) :
    (TcpTransfer.machine setup.hosts setup.chunkSize).run t [.client event] =
      some { t with client := c } := by
  refine Machine.run_cons_eq_some _ |>.mpr ⟨{ t with client := c }, ?_, rfl⟩
  simp only [TcpTransfer.machine, TcpTransfer.step]
  split
  case h_1 now => exact absurd rfl (outside now 0).1
  case h_2 n => exact absurd rfl (outside 0 n).2
  case h_3 =>
    rw [step]
    rfl

/-- The send loop within the client process. -/
theorem Shows.client_step {label : ClientMainLabel} {c : ClientMain} (shows' : s.Shows t)
    (step : s.clientStep setup label = some c)
    (outside : ∀ now n, label ≠ .send (.malloc true now) ∧ label ≠ .send (.sent n)) :
    ∃ t', (TcpTransfer.machine setup.hosts setup.chunkSize).run t (tellsClient (some c) label) =
      some t' ∧ Shows { s with client := c } t' := by
  have moved : ∀ u : Client, u = c.client → Shows { s with client := c } { t with client := u } :=
    fun u same => ⟨same, shows'.link, shows'.out, shows'.done, shows'.server⟩
  by_cases loop : ∃ event, label = .send event
  · obtain ⟨event, rfl⟩ := loop
    obtain ⟨-, next⟩ := Option.ite_none_right_eq_some.mp step
    obtain ⟨u, ustep, rfl⟩ := Option.map_eq_some_iff.mp next
    refine ⟨{ t with client := u }, run_client (fun now n => ?_) (shows'.client ▸ ustep),
      moved u rfl⟩
    exact ⟨fun same => (outside now n).1 (congrArg _ same),
      fun same => (outside now n).2 (congrArg _ same)⟩
  · by_cases quiet : label = .signal
    · subst quiet
      obtain rfl := Option.some.inj step
      exact ⟨_, run_client (fun now n => ⟨ClientEvent.noConfusion, ClientEvent.noConfusion⟩) rfl,
        moved _ (by rw [shows'.client])⟩
    · have silent : tellsClient (some c) label =
          if c.client.running then [] else [.client .recvThreadExit] := by
        cases label with
        | send event => exact absurd ⟨event, rfl⟩ loop
        | signal => exact absurd rfl quiet
        | _ => rfl
      have shared := shares_step step (fun event same => loop ⟨event, same⟩) quiet
      rw [silent]
      by_cases running : c.client.running
      · -- the flag is still set, so nothing has happened to the loop
        rw [if_pos running]
        refine ⟨t, rfl, ?_⟩
        rcases shared with same | cleared
        · exact moved t.client (shows'.client.trans same.symm)
        · rw [cleared] at running
          exact absurd running Bool.false_ne_true
      · rw [if_neg running]
        refine ⟨_, run_client (fun now n => ⟨ClientEvent.noConfusion, ClientEvent.noConfusion⟩) rfl,
          moved _ ?_⟩
        rw [shows'.client]
        rcases shared with same | cleared
        · rw [same] at running ⊢
          rw [← Bool.eq_false_iff.mpr running]
        · exact cleared.symm

/-- An action of the receive loop outside `omni_recv` is one of the transfer. -/
theorem run_server {event : ServerEvent} {u : Server} (outside : ∀ n frame, event ≠ .recv n frame)
    (step : t.server.step setup.hosts.server setup.hosts.size event = some u) :
    (TcpTransfer.machine setup.hosts setup.chunkSize).run t [.server event] =
      some { t with server := u } := by
  refine Machine.run_cons_eq_some _ |>.mpr ⟨{ t with server := u }, ?_, rfl⟩
  cases event with
  | recv n frame => exact absurd rfl (outside n frame)
  | load | fwrite nw | mainExit =>
    simp only [TcpTransfer.machine, TcpTransfer.step, step, Option.map_some]

/-- What does not concern the thread leaves `rt` alone. -/
theorem rt_step {host : Endian} {size : SizeT} {p p' : ServerMain} {label : ServerMainLabel}
    (phased : p.Phased) (step : p.step host size label = some p')
    (outside : ∀ event flushed, label ≠ .thread event flushed)
    (cancel : ∀ nw, label ≠ .cancelled nw)
    (store : label = .main → p.pc ≠ .stop) :
    p'.rt = p.rt ∧ (p'.thread ≠ .cancelled → p.thread ≠ .cancelled) := by
  cases label with
  | fopen ok | omniInit ok =>
    simp only [ServerMain.step] at step
    split at step
    case h_1 =>
      obtain rfl := Option.some.inj step
      exact ⟨rfl, id⟩
    case h_2 => exact absurd step (by simp)
  | create ok interactive =>
    simp only [ServerMain.step] at step
    split at step
    case h_1 pc =>
      have none : p.thread = .absent := by
        by_contra there
        have created := phased.created there
        rw [pc] at created
        exact absurd created Bool.false_ne_true
      obtain rfl := Option.some.inj step
      refine ⟨?_, fun _ gone => ?_⟩
      · cases ok <;> rfl
      · rw [none] at gone
        exact absurd gone (by decide)
    case h_2 => exact absurd step (by simp)
  | console event =>
    obtain ⟨-, next⟩ := Option.ite_none_right_eq_some.mp step
    obtain ⟨c, -, rfl⟩ := Option.map_eq_some_iff.mp next
    exact ⟨rfl, id⟩
  | main =>
    simp only [ServerMain.step, ServerMain.mainStep] at step
    split at step
    case h_5 pc => exact absurd pc (store rfl)
    case h_7 =>
      obtain ⟨-, next⟩ := Option.ite_none_right_eq_some.mp step
      obtain rfl := Option.some.inj next
      exact ⟨rfl, id⟩
    case h_9 => exact absurd step (by simp)
    all_goals
      obtain rfl := Option.some.inj step
      exact ⟨rfl, id⟩
  | fclose flushed =>
    have same : (p.flush flushed).rt = p.rt ∧ (p.flush flushed).thread = p.thread := by
      unfold ServerMain.flush
      split <;> exact ⟨rfl, rfl⟩
    simp only [ServerMain.step] at step
    split at step
    case h_4 => exact absurd step (by simp)
    all_goals
      obtain rfl := Option.some.inj step
      exact ⟨same.1, fun other => same.2 ▸ other⟩
  | thread event flushed => exact absurd rfl (outside event flushed)
  | cancelled nw => exact absurd rfl (cancel nw)
  | writeBack n =>
    obtain ⟨-, next⟩ := Option.ite_none_right_eq_some.mp step
    obtain rfl := Option.some.inj next
    exact ⟨rfl, id⟩

/-- A silent action of the server process. -/
theorem Shows.silent {label : ServerMainLabel} {p : ServerMain} (shows' : s.Shows t)
    (phased : s.server.Phased) (step : s.serverStep setup label = some p)
    (outside : ∀ event flushed, label ≠ .thread event flushed)
    (cancel : ∀ nw, label ≠ .cancelled nw)
    (store : label = .main → s.server.pc ≠ .stop) : Shows { s with server := p } t := by
  obtain ⟨rt, thread⟩ := rt_step phased step outside cancel store
  refine ⟨shows'.client, shows'.link, shows'.out.trans ?_, shows'.done.trans ?_, fun other => ?_⟩
  · exact congrArg Server.out rt.symm
  · exact congrArg Server.transferDone rt.symm
  · exact (shows'.server (thread other)).trans rt.symm

/-- The receive loop within the server process. -/
theorem Shows.server_step {label : ServerMainLabel} {p : ServerMain} (shows' : s.Shows t)
    (phased : s.server.Phased) (step : s.serverStep setup label = some p)
    (outside : ∀ n frame flushed, label ≠ .thread (.recv n frame) flushed) :
    ∃ t', (TcpTransfer.machine setup.hosts setup.chunkSize).run t (tellsServer s.server label) =
      some t' ∧ Shows { s with server := p } t' := by
  cases label with
  | thread event flushed =>
    obtain ⟨⟨started, -⟩, next⟩ := Option.ite_none_right_eq_some.mp step
    obtain ⟨rt, rtstep, rfl⟩ := Option.map_eq_some_iff.mp next
    have same := shows'.server (by rw [started]; decide)
    refine ⟨{ t with server := rt }, run_server (fun n frame eq => ?_) (same ▸ rtstep), ?_⟩
    · exact outside n frame flushed (congrArg (ServerMainLabel.thread · flushed) eq)
    · unfold ServerMain.flush
      split_ifs <;> exact ⟨shows'.client, shows'.link, rfl, rfl, fun _ => rfl⟩
  | cancelled nw =>
    obtain ⟨⟨started, -, -, fits⟩, next⟩ := Option.ite_none_right_eq_some.mp step
    obtain rfl := Option.some.inj next
    have same := shows'.server (by rw [started]; decide)
    simp only [tellsServer]
    split
    case h_1 payload pc =>
      -- `fwrite` was cut off: the loop sees a short `fwrite`
      rw [Server.unwritten, pc] at fits
      have writes : t.server.step setup.hosts.server setup.hosts.size (.fwrite nw) =
          some (t.server.afterWrite payload nw) := by
        simp only [Server.step, same, pc, if_pos fits]
      refine ⟨_, run_server (fun n frame => ServerEvent.noConfusion) writes, shows'.client,
        shows'.link, ?_, ?_, fun other => absurd rfl other⟩
      · simp only [Server.unwritten, pc, ← shows'.out]
        unfold Server.afterWrite
        split_ifs <;> rfl
      · unfold Server.afterWrite
        split_ifs <;> exact shows'.done
    case h_2 elsewhere =>
      refine ⟨t, rfl, shows'.client, shows'.link, ?_, shows'.done, fun other => absurd rfl other⟩
      have nothing : s.server.rt.unwritten = [] := by
        unfold Server.unwritten
        split
        case h_1 payload pc => exact absurd pc (elsewhere payload)
        case h_2 => rfl
      simp only [nothing, List.take_nil, List.append_nil]
      exact shows'.out
  | main =>
    by_cases pc : s.server.pc = .stop
    · simp only [serverStep, ServerMain.step, ServerMain.mainStep, pc] at step
      obtain rfl := Option.some.inj step
      simp only [tellsServer, if_pos pc]
      refine ⟨_, run_server (fun n frame => ServerEvent.noConfusion) rfl, shows'.client,
        shows'.link, shows'.out, shows'.done, fun other => ?_⟩
      simp only [shows'.server other]
    · refine ⟨t, ?_, shows'.silent phased step (by simp) (by simp) fun _ => pc⟩
      simp only [tellsServer, if_neg pc]
      rfl
  | fopen ok | omniInit ok | create ok interactive | console event | fclose flushed | writeBack n =>
    exact ⟨t, rfl, shows'.silent phased step (by simp) (by simp) (by simp)⟩

/-- A step of the transfer as a run. -/
theorem run_single {label : TcpTransferLabel} {t' : TcpTransfer}
    (step : t.step setup.hosts setup.chunkSize label = some t') :
    (TcpTransfer.machine setup.hosts setup.chunkSize).run t [label] = some t' :=
  Machine.run_cons_eq_some _ |>.mpr ⟨t', step, rfl⟩

/-- The programs do to the transfer only what the loops do. -/
theorem Shows.step {s' : TcpPrograms} {label : TcpProgramsLabel} (shows' : s.Shows t)
    (phased : s.server.Phased) (step : s.step setup label = some s') :
    ∃ t', (TcpTransfer.machine setup.hosts setup.chunkSize).run t (tells setup s label) = some t' ∧
      s'.Shows t' := by
  have link := shows'.link
  cases label with
  | client label =>
    simp only [TcpPrograms.step] at step
    split at step
    case h_1 | h_2 => exact absurd step (by simp)
    case h_3 notBegin notSent =>
      obtain ⟨c, cstep, rfl⟩ := Option.map_eq_some_iff.mp step
      simp only [tells, cstep]
      exact shows'.client_step cstep fun now n =>
        ⟨fun same => notBegin now same, fun same => notSent n same⟩
  | startSend now t0 =>
    obtain ⟨c, cstep, next⟩ := Option.bind_eq_some_iff.mp step
    obtain ⟨-, inner⟩ := Option.ite_none_right_eq_some.mp cstep
    obtain ⟨u, ustep, rfl⟩ := Option.map_eq_some_iff.mp inner
    split at next
    case h_1 type payload frame pc =>
      obtain rfl := Option.some.inj next
      refine ⟨⟨u, t.link.beginSend setup.hosts.client t0 frame, t.server⟩, run_single ?_, rfl,
        congrArg (TcpLink.beginSend _ t0 frame) link, shows'.out, shows'.done, shows'.server⟩
      simp only [TcpTransfer.step, shows'.client, ustep, Option.bind_some]
      rw [show u.pc = .sending type payload frame from pc]
    case h_2 => exact absurd next (by simp)
  | write r =>
    obtain ⟨l, lstep, rfl⟩ := Option.map_eq_some_iff.mp step
    refine ⟨{ t with link := l }, run_single ?_, shows'.client, rfl, shows'.out, shows'.done,
      shows'.server⟩
    simp only [TcpTransfer.step, link, lstep, Option.map_some]
  | sendReturn =>
    simp only [TcpPrograms.step] at step
    split at step
    case h_1 value left calling =>
      obtain ⟨c, cstep, rfl⟩ := Option.map_eq_some_iff.mp step
      obtain ⟨-, inner⟩ := Option.ite_none_right_eq_some.mp cstep
      obtain ⟨u, ustep, rfl⟩ := Option.map_eq_some_iff.mp inner
      refine ⟨⟨u, t.link.endSend, t.server⟩, run_single ?_, rfl, congrArg TcpLink.endSend link,
        shows'.out, shows'.done, shows'.server⟩
      simp only [TcpTransfer.step, link, calling, shows'.client, ustep, Option.map_some]
    case h_2 => exact absurd step (by simp)
  | server label =>
    simp only [TcpPrograms.step] at step
    split at step
    case h_1 => exact absurd step (by simp)
    case h_2 outside =>
      obtain ⟨p, pstep, rfl⟩ := Option.map_eq_some_iff.mp step
      exact shows'.server_step phased pstep fun n frame flushed same => outside n frame flushed same
  | read r =>
    obtain ⟨⟨started, pc⟩, next⟩ := Option.ite_none_right_eq_some.mp step
    obtain ⟨l, lstep, rfl⟩ := Option.map_eq_some_iff.mp next
    refine ⟨{ t with link := l }, run_single ?_, shows'.client, rfl, shows'.out, shows'.done,
      shows'.server⟩
    have same := shows'.server (by rw [started]; decide)
    simp only [TcpTransfer.step, same, if_pos pc, link, lstep, Option.map_some]
  | recvReturn flushed =>
    simp only [TcpPrograms.step] at step
    split at step
    case h_1 value frame rx =>
      obtain ⟨p, pstep, rfl⟩ := Option.map_eq_some_iff.mp step
      obtain ⟨⟨started, -⟩, next⟩ := Option.ite_none_right_eq_some.mp pstep
      obtain ⟨rt, rtstep, rfl⟩ := Option.map_eq_some_iff.mp next
      have same := shows'.server (by rw [started]; decide)
      refine ⟨⟨t.client, t.link.endRecv, rt⟩, run_single ?_, ?_⟩
      · simp only [TcpTransfer.step, link, rx, same, rtstep, Option.map_some]
      · unfold ServerMain.flush
        split_ifs <;>
          exact ⟨shows'.client, congrArg TcpLink.endRecv link, rfl, rfl, fun _ => rfl⟩
    case h_2 => exact absurd step (by simp)

/-- The server process moves by its own actions only. -/
theorem server_moves {s' : TcpPrograms} {label : TcpProgramsLabel}
    (step : s.step setup label = some s') :
    s'.server = s.server ∨ ∃ l, s.serverStep setup l = some s'.server := by
  cases label with
  | client label =>
    simp only [TcpPrograms.step] at step
    split at step
    case h_1 | h_2 => exact absurd step (by simp)
    case h_3 =>
      obtain ⟨c, -, rfl⟩ := Option.map_eq_some_iff.mp step
      exact .inl rfl
  | startSend now t0 =>
    obtain ⟨c, -, next⟩ := Option.bind_eq_some_iff.mp step
    split at next
    case h_1 =>
      obtain rfl := Option.some.inj next
      exact .inl rfl
    case h_2 => exact absurd next (by simp)
  | write r =>
    obtain ⟨l, -, rfl⟩ := Option.map_eq_some_iff.mp step
    exact .inl rfl
  | sendReturn =>
    simp only [TcpPrograms.step] at step
    split at step
    case h_1 =>
      obtain ⟨c, -, rfl⟩ := Option.map_eq_some_iff.mp step
      exact .inl rfl
    case h_2 => exact absurd step (by simp)
  | server label =>
    simp only [TcpPrograms.step] at step
    split at step
    case h_1 => exact absurd step (by simp)
    case h_2 =>
      obtain ⟨p, pstep, rfl⟩ := Option.map_eq_some_iff.mp step
      exact .inr ⟨label, pstep⟩
  | read r =>
    obtain ⟨-, next⟩ := Option.ite_none_right_eq_some.mp step
    obtain ⟨l, -, rfl⟩ := Option.map_eq_some_iff.mp next
    exact .inl rfl
  | recvReturn flushed =>
    simp only [TcpPrograms.step] at step
    split at step
    case h_1 value frame rx =>
      obtain ⟨p, pstep, rfl⟩ := Option.map_eq_some_iff.mp step
      exact .inr ⟨_, pstep⟩
    case h_2 => exact absurd step (by simp)

/-! ## What the programs leave behind -/

/-- What the receive loop has written is the front of the file, and all of it at the mark. -/
theorem Shows.output {file : List UInt8} (shows' : s.Shows t) (holds : t.Holds setup.hosts file) :
    s.server.rt.out <+: file ∧ (s.server.rt.transferDone = true → s.server.rt.out = file) := by
  obtain ⟨got, pending, client, server, -⟩ := holds
  obtain ⟨front, whole⟩ := server.output (List.prefix_append _ _) client.announces
  rw [shows'.out] at front whole
  exact ⟨front, fun done => (whole (shows'.done.trans done)).1⟩

/-- What is known of the programs and of the transfer within them. -/
structure Sound (setup : TcpSetup) (file : List UInt8) (s : TcpPrograms) (t : TcpTransfer) :
    Prop where
  orderly : s.server.Orderly
  loops : s.Shows t
  holds : t.Holds setup.hosts file
  written : s.server.rt.transferDone = true → s.server.flushFailed = false → s.server.disk = file

theorem sound_start (setup : TcpSetup) (file input : List UInt8) :
    Sound setup file (start setup file input) (TcpTransfer.start file) where
  orderly := ServerMain.orderly_start _ _ _
  loops := ⟨rfl, rfl, rfl, rfl, fun _ => by
    simp only [TcpTransfer.start, start, ServerMain.start, setup.serverTcp]⟩
  holds := TcpTransfer.holds_start _ _
  written := fun done => absurd done Bool.false_ne_true

/-- The programs do to the transfer only what the loops do, and stay sound. -/
theorem follows_transfer (setup : TcpSetup) (file : List UInt8) :
    (machine setup).Follows (tells setup) (TcpTransfer.machine setup.hosts setup.chunkSize)
      (Sound setup file) := by
  intro s label s' t sound step
  obtain ⟨t', hrun, loops⟩ := sound.loops.step sound.orderly.phased step
  have holds : t'.Holds setup.hosts file :=
    (TcpTransfer.machine setup.hosts setup.chunkSize).run_invariant
      (fun _ _ _ before step => TcpTransfer.holds_step setup.chunkSize_le before step)
      sound.holds hrun
  refine ⟨t', hrun, ?_⟩
  rcases server_moves step with same | ⟨l, sstep⟩
  · exact ⟨same ▸ sound.orderly, loops, holds, same ▸ sound.written⟩
  · have orderly := ServerMain.orderly_step sound.orderly sstep
    have writes := ServerMain.writes_step sound.orderly sstep
    refine ⟨orderly, loops, holds, fun done written => ?_⟩
    have whole := (loops.output holds).2 done
    rcases writes.marked written done with all | ⟨before, grown⟩
    · exact all.trans whole
    · -- the file was complete before, and there is nothing more to come
      rw [sound.written before (writes.failed written)] at grown
      exact List.IsPrefix.eq_of_length_le (whole ▸ orderly.disk) grown.length_le

/-- In every run of the two programs over TCP, with their threads in any order, signals and
cancellation at any time, and whatever fails: what is in the server's file is always the
front of the client's; once the end of the file has been received, it is all of it, unless
`fflush` has failed; a server that reads no commands returns 0 only then or after its
receive thread has left the loop; and whatever `fwrite` has taken is in the file when it
returns, unless a flush has failed. A chunk that `fwrite` has not taken whole is not. -/
theorem tcp_programs {setup : TcpSetup} {file input : List UInt8}
    {labels : List TcpProgramsLabel} {s : TcpPrograms}
    (hrun : (machine setup).run (start setup file input) labels = some s) :
    s.server.disk <+: file ∧
      (s.server.rt.transferDone = true → s.server.flushFailed = false → s.server.disk = file) ∧
      (s.server.pc = .returned 0 → s.server.interactive = false →
        s.server.rt.transferDone = true ∨ s.server.rt.pc = .stopped) ∧
      (s.server.pc = .returned 0 → s.server.flushFailed = false →
        s.server.disk = s.server.rt.out) := by
  obtain ⟨t, -, sound⟩ := (follows_transfer setup file).run (sound_start setup file input) hrun
  have orderly := sound.orderly
  refine ⟨orderly.disk.trans (sound.loops.output sound.holds).1, sound.written, ?_, orderly.closed⟩
  intro returned quiet
  refine (orderly.leaves (by rw [returned]; rfl)).resolve_left ?_
  rw [quiet]
  exact Bool.false_ne_true

/-- A one-byte file. The client does not wait, and its receive thread is cancelled. -/
private def byteSetup : TcpSetup where
  hosts := ⟨.little, .big, .bits64⟩
  clientSize := .bits32
  client := ⟨none, some "10.0.0.1", some (bytesOf "9000"), some "in.bin", some (bytesOf "1"),
    some (bytesOf "0")⟩
  server := ⟨some "tcp", some (bytesOf "9000"), some "out.bin"⟩
  accepted := by decide +kernel
  clientTcp := rfl
  serverTcp := by decide +kernel

private def byteRun : List TcpProgramsLabel :=
  let chunk := tcpFrame .little 5 (appFrame .little msgTypeFileChunk [7] 4)
  let last := tcpFrame .little 9 (appFrame .little msgTypeFileEnd [] 8)
  [.server (.fopen true), .client (.fopen true), .server (.omniInit true),
    .client (.omniInit true), .server (.create true false), .server .main,
    .client (.create true), .client (.thread .load), .client (.malloc true),
    .client (.send .load), .client (.send .load), .client (.send (.fread 1 false false)),
    .startSend 4 5, .write (.count 16), .write (.count 17), .sendReturn,
    .server (.thread .load false), .read (.count (chunk.take 16)),
    .read (.count (chunk.drop 16)), .recvReturn false, .server (.thread (.fwrite 1) false),
    .server .main, .client (.send .load), .client (.send .load),
    .client (.send (.fread 0 true false)), .client (.send .load), .startSend 8 9,
    .write (.count 16), .write (.count 16), .sendReturn, .client .main, .client .main,
    .client .main, .client .main, .client .main, .client .cancelled, .client .main, .client .main,
    .server .main, .server (.thread .load false), .read (.count (last.take 16)),
    .read (.count (last.drop 16)), .recvReturn true, .server .main, .server .main, .server .main,
    .server .main, .server (.thread .load false), .server .main, .server .main,
    .server (.fclose true)]

theorem tcp_programs_byte : ∃ s, (machine byteSetup).run (start byteSetup [7] []) byteRun = some s ∧
    s.client.pc = .returned 0 ∧ s.server.pc = .returned 0 ∧ s.server.rt.transferDone = true ∧
    s.server.flushFailed = false ∧ s.server.disk <+: [7] ∧
    (s.server.rt.transferDone = true → s.server.flushFailed = false → s.server.disk = [7]) ∧
    (s.server.pc = .returned 0 → s.server.interactive = false →
      s.server.rt.transferDone = true ∨ s.server.rt.pc = .stopped) ∧
    (s.server.pc = .returned 0 → s.server.flushFailed = false →
      s.server.disk = s.server.rt.out) := by
  have ends : ∃ s, (machine byteSetup).run (start byteSetup [7] []) byteRun = some s ∧
      decide (s.client.pc = .returned 0 ∧ s.server.pc = .returned 0 ∧
        s.server.rt.transferDone = true ∧ s.server.flushFailed = false) = true :=
    (Option.any_eq_true _ _).mp (by decide +kernel)
  obtain ⟨s, hrun, facts⟩ := ends
  obtain ⟨client, server, done, written⟩ := of_decide_eq_true facts
  exact ⟨s, hrun, client, server, done, written, tcp_programs hrun⟩

end TcpPrograms

end OmniSocket
