/-
# Sessions on one receiver

A receiving endpoint outlives the senders it hears from, and its next number
goes on counting, while every new sender starts at 0. To the receiver the past
senders and the present one are one sender that queued everything: what the past
ones queued, then, if 0 lies ahead of the receiver's next number, fragments for
the numbers up to 0 that nobody sends, then what the present one queues. As long
as no sender queues anything while the receiver takes 0 for an old number, this
account of the numbers is exact.
-/

import OmniSocket.KcpNumbers

set_option autoImplicit false

namespace OmniSocket

open Lib

/-! ## What the control blocks say about a fragment -/

/-- The sender, which has taken the messages `accepted`, has sent their `i`-th
fragment and holds it no longer: it takes it for acknowledged. -/
def Ikcpcb.Acknowledged (sender : Ikcpcb) (accepted : List (List UInt8)) (i : ℕ) : Prop :=
  i + sender.sndQueue.length < (kcpCutter.stream accepted).length ∧
    ∀ seg ∈ sender.sndBuf, seg.sn ≠ UInt32.ofNat i

/-- The receiver, which has returned the messages `returned`, has the `i`-th
fragment of `accepted`: in a message returned, in the receive queue or in the
receive buffer. -/
def Ikcpcb.Kept (receiver : Ikcpcb) (accepted returned : List (List UInt8)) (i : ℕ) : Prop :=
  i < (kcpCutter.stream returned).length + receiver.rcvQueue.length ∨
    ∃ seg ∈ receiver.rcvBuf, seg.item = fragmentItem (kcpCutter.stream accepted) i

/-! ## The flow as a sliding window -/

/-- A sender, its receiver and the datagrams between them. -/
structure KcpFlow where
  /-- The messages of the past senders. -/
  past : List (List UInt8)
  accepted : List (List UInt8)
  returned : List (List UInt8)
  sender : Ikcpcb
  receiver : Ikcpcb
  toReceiver : List (List UInt8)
  toSender : List (List UInt8)

namespace KcpFlow

/-- The messages the receiver goes by. An empty one is a single fragment. -/
def messages (f : KcpFlow) (g : Sliding) : List (List UInt8) :=
  f.past ++ (List.replicate (g.first - g.base) [] ++ f.accepted)

/-- Their fragments. -/
def hist (f : KcpFlow) (g : Sliding) : List (Fragment UInt8) := kcpCutter.stream (f.messages g)

/-- The flow is the sliding window `g`. -/
structure Flows (conv : UInt32) (g : Sliding) (f : KcpFlow) : Prop where
  sound : g.Sound 128
  base : g.base = (kcpCutter.stream f.past).length
  queued : g.queued = (f.hist g).length
  sender : f.sender.config = kcpConfig conv
  receiver : f.receiver.config = kcpConfig conv
  sends : Sends conv (f.hist g) g.next g.flying f.sender
  collects : Collects (f.hist g) (f.past ++ f.returned) g f.receiver
  taken : f.past ++ f.returned <+: f.messages g
  proper : ∀ message ∈ f.past ++ f.accepted, message ≠ [] ∧ message.length ≤ kcpMaxMessage
  data : List.Forall₂ (Brings conv (f.hist g)) f.toReceiver g.data
  reports : List.Forall₂ (Reports conv) f.toSender g.reports
  /-- The receiver may send as well. -/
  replies : ∃ hist n flying, Sends conv hist n flying f.receiver ∧ KcpFragments hist

theorem length_stream_replicate (k : ℕ) :
    (kcpCutter.stream (List.replicate k [])).length = k := by
  induction k with
  | zero => rfl
  | succ k ih =>
    have one : (kcpCutter.fragments []).length = 1 := rfl
    have split : kcpCutter.stream (List.replicate (k + 1) []) =
        kcpCutter.fragments [] ++ kcpCutter.stream (List.replicate k []) := List.flatMap_cons
    rw [split, List.length_append, one, ih, Nat.add_comm]

namespace Flows

variable {conv : UInt32} {g : Sliding} {f : KcpFlow}

/-- The fragments of the present sender begin with its first number. -/
theorem queued_eq (flows : f.Flows conv g) :
    g.queued = g.first + (kcpCutter.stream f.accepted).length := by
  have low := le_nextZero g.base
  rw [← flows.sound.restart] at low
  rw [flows.queued, hist, messages, Cutter.stream_append, Cutter.stream_append, List.length_append,
    List.length_append, length_stream_replicate, ← flows.base]
  omega

theorem fragments (flows : f.Flows conv g) : KcpFragments (f.hist g) := by
  refine kcpFragments_stream fun message member => ?_
  rcases List.mem_append.mp member with past | later
  · exact (flows.proper message (List.mem_append_left _ past)).2
  · rcases List.mem_append.mp later with filler | present
    · rw [List.eq_of_mem_replicate filler]
      exact Nat.zero_le _
    · exact (flows.proper message (List.mem_append_right _ present)).2

/-- A sender that has not queued anything finds the receiver where it was. -/
theorem edge_eq_base (flows : f.Flows conv g) (idle : f.accepted = []) : g.edge = g.base := by
  have queued := flows.queued_eq
  rw [idle, Cutter.stream_nil, List.length_nil] at queued
  have low := flows.sound.base_le
  have inside := flows.sound.inside
  have first := flows.sound.first_le
  rcases flows.sound.edge_le with still | ⟨same, high⟩ <;> omega

/-! ## Calls of the sender -/

/-- A message is queued. The first one of a sender needs a receiver that does not
take the number 0 for an old one. -/
theorem queue (flows : f.Flows conv g) {buf : List UInt8} {segs : List IkcpSeg}
    (some_byte : buf ≠ []) (short : buf.length ≤ kcpMaxMessage)
    (cut : segs.map IkcpSeg.fragment = kcpCutter.fragments buf)
    (ready : f.accepted = [] → 0 ≤ itimediff 0 f.receiver.rcvNxt) :
    ∃ g', Flows conv g' { f with
      accepted := f.accepted ++ [buf]
      sender := { f.sender with sndQueue := f.sender.sndQueue ++ segs } } := by
  -- the history grows at its end, by the fragments of the message
  have longer : hist { f with
      accepted := f.accepted ++ [buf]
      sender := { f.sender with sndQueue := f.sender.sndQueue ++ segs } }
      { g with queued := g.queued + (kcpCutter.fragments buf).length } =
        f.hist g ++ kcpCutter.fragments buf := by
    simp only [hist, messages, Cutter.stream_append, Cutter.stream_singleton, List.append_assoc]
  -- a sender that has not spoken needs the receiver's number in reach of 0;
  -- one that has spoken already had it
  have close : g.first < g.queued + (kcpCutter.fragments buf).length →
      g.first < g.base + 2 ^ 31 := by
    intro _
    by_cases idle : f.accepted = []
    · have visible := ready idle
      rw [flows.collects.receives.nxt, flows.edge_eq_base idle] at visible
      rw [flows.sound.restart]
      exact (nextZero_lt_iff g.base).mpr visible
    · refine flows.sound.close ?_
      obtain ⟨message, rest, some_message⟩ := List.exists_cons_of_ne_nil idle
      -- an earlier message has at least one fragment, which was in reach
      have positive : 0 < (kcpCutter.stream f.accepted).length := by
        have split : kcpCutter.stream f.accepted =
            kcpCutter.fragments message ++ kcpCutter.stream rest := by
          rw [some_message]
          exact List.flatMap_cons
        have count := kcpCutter.positive message
        rw [split, List.length_append, Cutter.fragments, length_cut]
        omega
      have queued := flows.queued_eq
      omega
  refine ⟨{ g with queued := g.queued + (kcpCutter.fragments buf).length }, ?_⟩
  exact
    { flows with
      sound := flows.sound.queue (Nat.le_add_right _ _) close
      queued := by rw [longer, List.length_append, flows.queued]
      sends := by
        rw [longer]
        exact flows.sends.append cut
      collects :=
        { receives := by
            rw [longer]
            exact flows.collects.receives.append _
          acks := flows.collects.acks }
      taken := flows.taken.trans ⟨[buf], by simp only [messages, List.append_assoc]⟩
      proper := by
        intro message member
        rcases List.mem_append.mp member with past | present
        · exact flows.proper message (List.mem_append_left _ past)
        · rcases List.mem_append.mp present with old | new
          · exact flows.proper message (List.mem_append_right _ old)
          · exact List.mem_singleton.mp new ▸ ⟨some_byte, short⟩
      data := by
        rw [longer]
        exact flows.data.imp fun bytes numbers brings => brings.append _ }

/-- The clock of the sender runs. -/
theorem updateSender (flows : f.Flows conv g) (current : UInt32) :
    ∃ g', Flows conv g' { f with
      sender := (ikcpUpdate f.sender current).2
      toReceiver := f.toReceiver ++ (ikcpUpdate f.sender current).1 } := by
  obtain ⟨k, sends, emits⟩ := flows.sends.update flows.sender flows.fragments current
  obtain ⟨sent, brings, flies⟩ := emits.brings flows.fragments sends
  -- numbers are given out first, then the datagrams are in flight
  have assigned := flows.sound.assign (flows.queued ▸ sends.inside) sends.window
  exact ⟨_,
    { flows with
      sound := assigned.send flies
      sender := (ikcpUpdate_frame f.sender current).1.trans flows.sender
      sends := sends
      collects := ⟨flows.collects.receives, flows.collects.acks⟩
      data := List.rel_append flows.data brings }⟩

/-- The sender reads the oldest datagram. -/
theorem readSender (flows : f.Flows conv g) {bytes : List UInt8} {rest : List (List UInt8)}
    (oldest : f.toSender = bytes :: rest) :
    ∃ g', Flows conv g' { f with sender := (ikcpInput f.sender bytes).2, toSender := rest } := by
  have reports := flows.reports
  rw [oldest] at reports
  obtain ⟨e, later, report, others, waiting⟩ := List.forall₂_cons_left_iff.mp reports
  have sends := flows.sends.input bytes
  rw [show f.sender.conv = conv from congrArg IkcpConfig.conv flows.sender] at sends
  have sound := Sends.sound_foldl_afterSeg flows.sound waiting report.una report.acks
  exact ⟨_,
    { flows with
      sound := sound.reported waiting
      sender := (ikcpInput_config _ _).trans flows.sender
      sends := sends
      collects := ⟨flows.collects.receives, flows.collects.acks⟩
      reports := others }⟩

/-- What the sender receives does not matter. -/
theorem recvSender (flows : f.Flows conv g) (len : ℤ) :
    Flows conv g { f with sender := (ikcpRecv f.sender len).2.2 } :=
  { flows with
    sender := (ikcpRecv_frame f.sender len).1.trans flows.sender
    sends := flows.sends.congr (ikcpRecv_frame f.sender len).2 }

/-! ## Calls of the receiver -/

/-- The receiver queues a message of its own. -/
theorem queueReceiver (flows : f.Flows conv g) {buf : List UInt8} {segs : List IkcpSeg}
    (short : buf.length ≤ kcpMaxMessage)
    (cut : segs.map IkcpSeg.fragment = kcpCutter.fragments buf) :
    Flows conv g { f with
      receiver := { f.receiver with sndQueue := f.receiver.sndQueue ++ segs } } := by
  obtain ⟨hist, n, flying, sends, fragments⟩ := flows.replies
  exact
    { flows with
      collects := flows.collects.congr rfl rfl
      replies := ⟨_, n, flying, sends.append cut, fragments.append short⟩ }

/-- The clock of the receiver runs. What it writes may go to another sender. -/
theorem updateReceiver (flows : f.Flows conv g) (current : UInt32) (reaches : Prop)
    [Decidable reaches] :
    ∃ g', Flows conv g' { f with
      receiver := (ikcpUpdate f.receiver current).2
      toSender := f.toSender ++ if reaches then (ikcpUpdate f.receiver current).1 else [] } := by
  obtain ⟨hist, n, flying, own, fragments⟩ := flows.replies
  obtain ⟨k, sends, emits⟩ := own.update flows.receiver fragments current
  obtain ⟨config, receiving⟩ := ikcpUpdate_frame f.receiver current
  have reports := emits.reports fragments sends flows.collects.receives.nxt flows.collects.acks
  have replies : ∃ hist n flying, Sends conv hist n flying (ikcpUpdate f.receiver current).2 ∧
      KcpFragments hist := ⟨hist, _, _, sends, fragments⟩
  -- a flush writes the pending acknowledgments and forgets them, else nothing is written
  rcases acklist_ikcpUpdate f.receiver current with flushed | ⟨silent, waiting⟩
  · generalize written : (if reaches then (ikcpUpdate f.receiver current).1 else []) = out
    have each : ∀ bytes ∈ out, Reports conv bytes (g.edge, g.pending) := by
      intro bytes member
      rw [← written] at member
      split_ifs at member
      · exact reports bytes member
      · exact absurd member List.not_mem_nil
    -- every datagram reports the edge and the acknowledgments of this moment
    have truthful : ∀ e ∈ out.map fun _ => (g.edge, g.pending),
        e.1 = g.edge ∧ ∀ j ∈ e.2, j ∈ g.pending := by
      intro e member
      obtain ⟨-, -, rfl⟩ := List.mem_map.mp member
      exact ⟨rfl, fun j listed => listed⟩
    have told := flows.sound.report (by decide) truthful
    exact ⟨_,
      { flows with
        sound := told
        receiver := config.trans flows.receiver
        collects := ⟨flows.collects.receives.congr receiving, by rw [flushed]; rfl⟩
        reports := List.rel_append flows.reports
          (List.forall₂_map_right_iff.mpr (List.forall₂_same.mpr each))
        replies := replies }⟩
  · rw [silent, ite_self, List.append_nil]
    exact ⟨g,
      { flows with
        receiver := config.trans flows.receiver
        collects := flows.collects.congr receiving waiting
        replies := replies }⟩

/-- The receiver reads the oldest datagram. -/
theorem readReceiver (flows : f.Flows conv g) {bytes : List UInt8} {rest : List (List UInt8)}
    (oldest : f.toReceiver = bytes :: rest) :
    ∃ g', Flows conv g' { f with
      receiver := (ikcpInput f.receiver bytes).2, toReceiver := rest } := by
  obtain ⟨hist, n, flying, own, fragments⟩ := flows.replies
  have data := flows.data
  rw [oldest] at data
  obtain ⟨numbers, later, brings, others, waiting⟩ := List.forall₂_cons_left_iff.mp data
  obtain ⟨edge, held, pending, sound, collects⟩ :=
    Collects.input flows.sound waiting flows.collects flows.receiver brings
  exact ⟨_,
    { flows with
      sound := sound
      receiver := (ikcpInput_config _ _).trans flows.receiver
      collects := collects
      data := others
      replies := ⟨hist, n, _, own.input bytes, fragments⟩ }⟩

/-- The receiver takes a message of the present sender, or nothing. -/
theorem recvReceiver (flows : f.Flows conv g) {len : ℤ} (room : 0 ≤ len) :
    ((ikcpRecv f.receiver len).1 < 0 ∧ (ikcpRecv f.receiver len).2.2 = f.receiver) ∨
      ∃ message g', message ≠ [] ∧ (ikcpRecv f.receiver len).1 = message.length ∧
        (ikcpRecv f.receiver len).2.1 = message ∧
        Flows conv g' { f with
          receiver := (ikcpRecv f.receiver len).2.2, returned := f.returned ++ [message] } := by
  obtain ⟨hist, n, flying, own, fragments⟩ := flows.replies
  obtain ⟨config, sending⟩ := ikcpRecv_frame f.receiver len
  -- the receive queue begins with a whole message, or nothing is returned
  rcases flows.collects.receives.recv rfl flows.taken
      (fun fragment member => (flows.fragments fragment member).2) room with
    none | ⟨message, edge, held, next, value, stored, receives, grows, same⟩
  · exact .inl none
  have acks : (ikcpRecv f.receiver len).2.2.acklist = f.receiver.acklist := by
    simp only [ikcpRecv]
    split_ifs <;> rfl
  have sound := flows.sound.settle grows same fun i member => (receives.window i member).2.1
  have some_byte : message ≠ [] := by
    -- the message lies below the edge, where there is no filler
    have front := congrArg List.length receives.front
    have count := kcpCutter.positive message
    simp only [Cutter.stream_append, Cutter.stream_singleton, List.length_append, List.length_take,
      Cutter.fragments, length_cut, ← flows.base] at front
    rcases sound.edge_le with still | ⟨first, -⟩
    · have low : edge ≤ g.base := still
      omega
    · have no_filler : g.first - g.base = 0 := by
        have start : g.first = g.base := first
        omega
      rw [messages, no_filler, List.replicate_zero, List.nil_append] at next
      exact (flows.proper message (next.subset (by simp))).1
  refine .inr ⟨message, { g with edge := edge, held := held }, some_byte, value, stored, ?_⟩
  exact
    { flows with
      sound := sound
      receiver := config.trans flows.receiver
      collects := ⟨by rw [← List.append_assoc]; exact receives, acks ▸ flows.collects.acks⟩
      taken := by rw [← List.append_assoc]; exact next
      replies := ⟨hist, n, flying, own.congr sending, fragments⟩ }

/-! ## What the receiver has -/

/-- The messages returned and the receive queue end at the edge. -/
theorem edge_eq (flows : f.Flows conv g) : g.edge = g.base +
    (kcpCutter.stream f.returned).length + f.receiver.rcvQueue.length := by
  have front := congrArg List.length flows.collects.receives.front
  have inside := flows.collects.receives.inside
  simp only [Cutter.stream_append, List.length_append, List.length_map, List.length_take,
    ← flows.base] at front
  omega

/-- The receiver returns what the present sender has queued, in order. -/
theorem returned_prefix (flows : f.Flows conv g) : f.returned <+: f.accepted := by
  have taken := (List.prefix_append_right_inj _).mp flows.taken
  have edge := flows.edge_eq
  rcases flows.sound.edge_le with still | ⟨same, -⟩
  · -- below the base there is nothing of the present sender
    have empty : kcpCutter.stream f.returned = [] := List.length_eq_zero_iff.mp (by omega)
    cases returned : f.returned with
    | nil => exact List.nil_prefix
    | cons message rest =>
      have count := kcpCutter.positive message
      have split : kcpCutter.stream (message :: rest) =
          kcpCutter.fragments message ++ kcpCutter.stream rest := List.flatMap_cons
      rw [returned, split] at empty
      have none := congrArg List.length (List.append_eq_nil_iff.mp empty).1
      rw [Cutter.fragments, length_cut, List.length_nil] at none
      omega
  · rwa [same, Nat.sub_self, List.replicate_zero, List.nil_append] at taken

/-- No fragment of the present sender is acknowledged and then skipped. -/
theorem kept (flows : f.Flows conv g) {i : ℕ}
    (acknowledged : f.sender.Acknowledged f.accepted i) :
    f.receiver.Kept f.accepted f.returned i := by
  obtain ⟨sent, gone⟩ := acknowledged
  have queued := flows.queued_eq
  have waiting : f.sender.sndQueue.length = g.queued - g.next := by
    rw [← List.length_map (f := IkcpSeg.fragment), flows.sends.queue, List.length_drop,
      flows.queued]
  have inside := flows.sound.inside
  have zero : UInt32.ofNat (g.first + i) = UInt32.ofNat i := by
    rw [UInt32.ofNat_add, flows.sound.restart, ofNat_nextZero, UInt32.zero_add]
  -- the segment has left the send buffer, so its number counts as acknowledged
  have acked : g.Acked (g.first + i) := by
    refine ⟨Nat.le_add_right _ _, by omega, fun flies => ?_⟩
    have key : pushKey conv (f.hist g) (g.first + i) ∈ f.sender.sndBuf.map IkcpSeg.key := by
      rw [flows.sends.buf]
      exact List.mem_map_of_mem flies
    obtain ⟨seg, member, same⟩ := List.mem_map.mp key
    exact gone seg member ((congrArg (fun key => key.2.2.1) same).trans zero)
  -- the receiver reports only what lies below its edge or in its buffer
  rcases flows.sound.honest _ acked with below | held
  · have edge := flows.edge_eq
    refine .inl ?_
    rcases flows.sound.edge_le with still | ⟨same, -⟩
    · have low := le_nextZero g.base
      rw [← flows.sound.restart] at low
      omega
    · omega
  · have item : fragmentItem (f.hist g) (g.first + i) ∈ f.receiver.rcvBuf.map IkcpSeg.item := by
      rw [flows.collects.receives.buf]
      exact List.mem_map_of_mem held
    obtain ⟨seg, member, same⟩ := List.mem_map.mp item
    refine .inr ⟨seg, member, same.trans ?_⟩
    -- the fragments of the present sender begin at `first` of the history
    have start : (kcpCutter.stream f.past ++
        kcpCutter.stream (List.replicate (g.first - g.base) [])).length = g.first := by
      have low := le_nextZero g.base
      rw [← flows.sound.restart] at low
      rw [List.length_append, length_stream_replicate, ← flows.base]
      omega
    have split : f.hist g = (kcpCutter.stream f.past ++
        kcpCutter.stream (List.replicate (g.first - g.base) [])) ++
          kcpCutter.stream f.accepted := by
      rw [hist, messages, Cutter.stream_append, Cutter.stream_append, List.append_assoc]
    rw [fragmentItem, fragmentItem, zero, split, List.getD_append_right _ _ _ _ (by omega), start,
      Nat.add_sub_cancel_left]

/-! ## The next sender -/

/-- Once everything is returned, the receiver holds nothing back. -/
theorem delivered (flows : f.Flows conv g) (all : f.accepted = f.returned) :
    g.edge = (kcpCutter.stream (f.past ++ f.returned)).length ∧ g.held = [] := by
  have edge := flows.edge_eq
  have queued := flows.queued_eq
  have inside := flows.sound.inside
  have first := flows.sound.first_le
  have length : (kcpCutter.stream (f.past ++ f.returned)).length =
      g.base + (kcpCutter.stream f.returned).length := by
    rw [Cutter.stream_append, List.length_append, flows.base]
  rw [all] at queued
  -- every number the receiver has lies below the edge
  have none : ∀ i, g.Arrived i → i < g.edge := by
    intro i arrived
    have given := flows.sound.given i arrived
    have low := flows.sound.base_le
    rcases flows.sound.edge_le with still | ⟨same, high⟩ <;> omega
  refine ⟨?_, List.eq_nil_iff_forall_not_mem.mpr fun i member => ?_⟩
  · rcases flows.sound.edge_le with still | ⟨same, high⟩ <;> omega
  · have above := (flows.collects.receives.window i member).1
    have below := none i (.inr member)
    omega

/-- A new sender starts. -/
theorem restart (flows : f.Flows conv g) (all : f.accepted = f.returned) :
    Flows conv g.restarted
      { past := f.past ++ f.returned
        accepted := []
        returned := []
        sender := kcpConfigure conv
        receiver := f.receiver
        toReceiver := []
        toSender := [] } := by
  obtain ⟨edge, held⟩ := flows.delivered all
  have low := le_nextZero g.edge
  -- the numbers up to the next 0 are filled with empty messages of one fragment
  have whole : (kcpCutter.stream (f.past ++ f.returned) ++
      kcpCutter.stream (List.replicate (nextZero g.edge - g.edge) [])).length =
        nextZero g.edge := by
    rw [List.length_append, length_stream_replicate, ← edge]
    omega
  have hist_eq : hist
      { past := f.past ++ f.returned
        accepted := []
        returned := []
        sender := kcpConfigure conv
        receiver := f.receiver
        toReceiver := []
        toSender := [] } g.restarted = kcpCutter.stream (f.past ++ f.returned) ++
      kcpCutter.stream (List.replicate (nextZero g.edge - g.edge) []) := by
    rw [hist, messages, List.append_nil, Cutter.stream_append]
    rfl
  -- the receiver knows nothing of the change and keeps what it had
  have received : Receives (kcpCutter.stream (f.past ++ f.returned)) (f.past ++ f.returned) g.edge
      [] f.receiver := by
    have old := flows.collects.receives
    have empty : f.receiver.rcvQueue = [] := by
      have length := flows.edge_eq
      rw [edge, Cutter.stream_append, List.length_append, flows.base] at length
      exact List.length_eq_zero_iff.mp (by omega)
    exact
      { nxt := old.nxt
        inside := edge.le
        front := by
          rw [empty, List.map_nil, List.append_nil, edge, List.take_length]
        buf := by
          rw [old.buf, held]
          rfl
        sorted := List.Pairwise.nil
        window := by simp }
  exact
    { sound := flows.sound.sound_restarted (by decide) held
      base := edge
      queued := by
        rw [hist_eq, whole]
        rfl
      sender := config_kcpConfigure conv
      receiver := flows.receiver
      -- the new sender has given out no number
      sends :=
        { nxt := (ofNat_nextZero g.edge).symm
          una := (ofNat_nextZero g.edge).symm
          queue := by
            rw [hist_eq]
            exact (List.drop_of_length_le whole.le).symm
          inside := by
            rw [hist_eq, whole]
            exact Nat.le_refl _
          buf := rfl
          sorted := List.Pairwise.nil
          below := by simp [Sliding.restarted]
          window := Nat.le_add_right _ _ }
      collects :=
        { receives := by
            rw [hist_eq, List.append_nil]
            exact received.append _
          acks := flows.collects.acks }
      taken := by
        rw [List.append_nil]
        exact List.prefix_append _ _
      proper := by
        rw [List.append_nil]
        intro message member
        rcases List.mem_append.mp member with past | last
        · exact flows.proper message (List.mem_append_left _ past)
        · exact flows.proper message (List.mem_append_right _ (all ▸ last))
      data := .nil
      reports := .nil
      replies := flows.replies }

end Flows

end KcpFlow

end OmniSocket
