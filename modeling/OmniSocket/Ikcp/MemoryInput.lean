/-
# Input to the control block in memory

What an arriving datagram does to the queues: acknowledgements free segments of
the send buffer wherever they are, and a data segment is allocated, looked up
from the end of the receive buffer, and put in or freed again.
-/

import OmniSocket.Ikcp.Memory

set_option autoImplicit false

namespace OmniSocket

open Lib

namespace IkcpRaw

variable {malloc : ℕ → Finset ℕ → ℕ} {raw : IkcpRaw} {kcp : Ikcpcb}

theorem ikcpShrinkBuf_holds (holds : raw.Holds kcp) :
    ∃ raw', ikcpShrinkBuf raw = some raw' ∧ raw'.Holds (OmniSocket.ikcpShrinkBuf kcp) := by
  obtain ⟨p, first, cursor⟩ := holds.heap.first .sndBuf
  simp only [Ikcpcb.queue] at cursor
  unfold OmniSocket.ikcpShrinkBuf
  split
  case h_1 seg rest buf =>
    rw [buf] at cursor
    simp only [ikcpShrinkBuf, first, if_pos cursor.ne_head, cursor.read, Option.bind_eq_bind,
      Option.bind_some]
    exact ⟨_, rfl, holds.map (f := fun kcp => { kcp with sndUna := seg.sn }) fun _ => rfl⟩
  case h_2 buf =>
    rw [buf] at cursor
    simp only [ikcpShrinkBuf, first, if_neg (not_not.mpr cursor.eq_head), Option.bind_eq_bind,
      Option.bind_some]
    exact ⟨_, rfl, holds.map (f := fun kcp => { kcp with sndUna := kcp.sndNxt }) fun _ => rfl⟩

section SndBuf

variable {before rest : List IkcpSeg} {seg : IkcpSeg} {p : IkcpAddr} {fuel : ℕ}

/-- A pointer into the send buffer. -/
def AtSndBuf (raw : IkcpRaw) (kcp : Ikcpcb) (p : IkcpAddr) (before rest : List IkcpSeg) : Prop :=
  raw.Holds { kcp with sndBuf := before ++ rest } ∧
    raw.heap.Cursor { kcp with sndBuf := before ++ rest }.queue none .sndBuf p before rest

theorem Holds.atSndBuf (holds : raw.Holds kcp) :
    ∃ p, raw.heap.next (.head .sndBuf) = some p ∧ raw.AtSndBuf kcp p [] kcp.sndBuf := by
  obtain ⟨p, first, cursor⟩ := holds.heap.first .sndBuf
  exact ⟨p, first, holds, cursor⟩

theorem AtSndBuf.next (here : raw.AtSndBuf kcp p before (seg :: rest)) :
    ∃ p', raw.heap.next p = some p' ∧ raw.AtSndBuf kcp p' (before ++ [seg]) rest := by
  obtain ⟨holds, cursor⟩ := here
  obtain ⟨p', next, onward⟩ := cursor.next
  have shift : before ++ seg :: rest = before ++ [seg] ++ rest := by simp
  rw [shift] at holds onward
  exact ⟨p', next, holds, onward⟩

theorem AtSndBuf.drop (here : raw.AtSndBuf kcp p before (seg :: rest)) :
    ∃ p' raw', raw.heap.next p = some p' ∧ raw.dropSndBuf p = some raw' ∧
      raw'.AtSndBuf kcp p' before rest := by
  obtain ⟨holds, cursor⟩ := here
  obtain ⟨p', heap₁, heap₂, next, deleted, freed, after⟩ := cursor.drop
  have onward : heap₂.Cursor { kcp with sndBuf := before ++ rest }.queue none .sndBuf p' before
      rest := after.congr fun q => by cases q <;> rfl
  refine ⟨p', { raw with heap := heap₂, nsndBuf := raw.nsndBuf - 1 }, next, ?_,
    ⟨holds.scalars, onward.holds, holds.nsndQue, holds.nrcvQue, ?_, holds.nrcvBuf⟩, onward⟩
  · simp only [dropSndBuf, deleted, freed, Option.bind_eq_bind, Option.bind_some]
  · have moved := @List.perm_middle _ seg before rest
    rw [show raw.nsndBuf = _ from holds.nsndBuf, moved.length_eq]
    exact ofNat_length_tail seg (before ++ rest)

theorem AtSndBuf.store (here : raw.AtSndBuf kcp p before (seg :: rest)) (seg' : IkcpSeg) :
    ∃ p' heap, raw.heap.next p = some p' ∧ raw.heap.write p seg' = some heap ∧
      heap.next p = some p' ∧
        ({ raw with heap := heap }).AtSndBuf kcp p' (before ++ [seg']) rest := by
  obtain ⟨holds, cursor⟩ := here
  obtain ⟨heap, written, after⟩ := cursor.write seg'
  have same : heap.Cursor { kcp with sndBuf := before ++ seg' :: rest }.queue none .sndBuf p before
      (seg' :: rest) := after.congr fun q => by cases q <;> rfl
  have stored : ({ raw with heap := heap }).AtSndBuf kcp p before (seg' :: rest) := by
    refine ⟨⟨holds.scalars, same.holds, holds.nsndQue, holds.nrcvQue, ?_, holds.nrcvBuf⟩, same⟩
    rw [show raw.nsndBuf = _ from holds.nsndBuf]
    simp
  obtain ⟨p', next, onward⟩ := stored.next
  exact ⟨p', heap, (RingHeap.next_of_write written p).symm.trans next, written, next, onward⟩

theorem ikcpParseAckLoop_holds (sn : UInt32) (here : raw.AtSndBuf kcp p before rest)
    (enough : rest.length < fuel) :
    ∃ raw', ikcpParseAckLoop sn fuel p raw = some raw' ∧
      raw'.Holds { kcp with sndBuf := before ++ OmniSocket.ikcpParseAckLoop sn rest } := by
  induction rest generalizing fuel p before with
  | nil =>
    obtain ⟨fuel, rfl⟩ := Nat.exists_eq_succ_of_ne_zero (Nat.ne_zero_of_lt enough)
    rw [ikcpParseAckLoop, if_pos here.2.eq_head]
    exact ⟨raw, rfl, here.1⟩
  | cons seg rest ih =>
    obtain ⟨fuel, rfl⟩ := Nat.exists_eq_succ_of_ne_zero (Nat.ne_zero_of_lt enough)
    obtain ⟨p', raw', next, dropped, after⟩ := here.drop
    simp only [ikcpParseAckLoop, OmniSocket.ikcpParseAckLoop, if_neg here.2.ne_head, here.2.read,
      next, dropped, Option.bind_eq_bind, Option.bind_some]
    split
    · exact ⟨raw', rfl, after.1⟩
    split
    · exact ⟨raw, rfl, here.1⟩
    · obtain ⟨p'', next', onward⟩ := here.next
      obtain rfl := Option.some.inj (next.symm.trans next')
      have shift : ∀ segs, before ++ seg :: segs = before ++ [seg] ++ segs := by simp
      rw [shift]
      exact ih onward (Nat.lt_of_succ_lt_succ enough)

theorem ikcpParseUnaLoop_holds (una : UInt32) (here : raw.AtSndBuf kcp p [] rest)
    (enough : rest.length < fuel) :
    ∃ raw', ikcpParseUnaLoop una fuel p raw = some raw' ∧
      raw'.Holds { kcp with
        sndBuf := rest.dropWhile fun seg => decide (0 < itimediff una seg.sn) } := by
  induction rest generalizing fuel p raw with
  | nil =>
    obtain ⟨fuel, rfl⟩ := Nat.exists_eq_succ_of_ne_zero (Nat.ne_zero_of_lt enough)
    rw [ikcpParseUnaLoop, if_pos here.2.eq_head]
    exact ⟨raw, rfl, here.1⟩
  | cons seg rest ih =>
    obtain ⟨fuel, rfl⟩ := Nat.exists_eq_succ_of_ne_zero (Nat.ne_zero_of_lt enough)
    obtain ⟨p', raw', next, dropped, after⟩ := here.drop
    simp only [ikcpParseUnaLoop, List.dropWhile_cons, decide_eq_true_eq, if_neg here.2.ne_head,
      here.2.read, next, dropped, Option.bind_eq_bind, Option.bind_some]
    split
    · exact ih after (Nat.lt_of_succ_lt_succ enough)
    · exact ⟨raw, rfl, here.1⟩

theorem ikcpParseFastackLoop_holds (sn ts : UInt32) (here : raw.AtSndBuf kcp p before rest)
    (enough : rest.length < fuel) :
    ∃ raw', ikcpParseFastackLoop sn ts fuel p raw = some raw' ∧
      raw'.Holds { kcp with sndBuf := before ++ OmniSocket.ikcpParseFastackLoop sn ts rest } := by
  induction rest generalizing fuel p before raw with
  | nil =>
    obtain ⟨fuel, rfl⟩ := Nat.exists_eq_succ_of_ne_zero (Nat.ne_zero_of_lt enough)
    rw [ikcpParseFastackLoop, if_pos here.2.eq_head]
    exact ⟨raw, rfl, here.1⟩
  | cons seg rest ih =>
    obtain ⟨fuel, rfl⟩ := Nat.exists_eq_succ_of_ne_zero (Nat.ne_zero_of_lt enough)
    have shift : ∀ (seg : IkcpSeg) segs, before ++ seg :: segs = before ++ [seg] ++ segs := by simp
    obtain ⟨p', heap, next, stored, -, after⟩ :=
      here.store { seg with fastack := seg.fastack + 1 }
    simp only [ikcpParseFastackLoop, OmniSocket.ikcpParseFastackLoop, if_neg here.2.ne_head,
      here.2.read, next, stored, Option.bind_eq_bind, Option.bind_some]
    split
    · exact ⟨raw, rfl, here.1⟩
    split
    · rw [shift]
      exact ih after (Nat.lt_of_succ_lt_succ enough)
    · obtain ⟨p'', next', onward⟩ := here.next
      obtain rfl := Option.some.inj (next.symm.trans next')
      rw [shift]
      exact ih onward (Nat.lt_of_succ_lt_succ enough)

end SndBuf

theorem ikcpParseUna_holds (holds : raw.Holds kcp) (una : UInt32) :
    ∃ raw', ikcpParseUna raw una = some raw' ∧ raw'.Holds (OmniSocket.ikcpParseUna kcp una) := by
  obtain ⟨p, first, here⟩ := holds.atSndBuf
  simp only [ikcpParseUna, first, Option.bind_eq_bind, Option.bind_some]
  exact ikcpParseUnaLoop_holds una here (holds.heap.length_lt_rounds .sndBuf)

theorem ikcpParseAck_holds (holds : raw.Holds kcp) (sn : UInt32) :
    ∃ raw', ikcpParseAck raw sn = some raw' ∧ raw'.Holds (OmniSocket.ikcpParseAck kcp sn) := by
  have inFlight : IkcpInFlight raw.kcp sn = IkcpInFlight kcp sn :=
    holds.field (fun kcp => IkcpInFlight kcp sn) rfl
  obtain ⟨p, first, here⟩ := holds.atSndBuf
  simp only [ikcpParseAck, OmniSocket.ikcpParseAck, inFlight, first, Option.bind_eq_bind,
    Option.bind_some]
  split
  · exact ikcpParseAckLoop_holds sn here (holds.heap.length_lt_rounds .sndBuf)
  · exact ⟨raw, rfl, holds⟩

theorem ikcpParseFastack_holds (holds : raw.Holds kcp) (sn ts : UInt32) :
    ∃ raw', ikcpParseFastack raw sn ts = some raw' ∧
      raw'.Holds (OmniSocket.ikcpParseFastack kcp sn ts) := by
  have inFlight : IkcpInFlight raw.kcp sn = IkcpInFlight kcp sn :=
    holds.field (fun kcp => IkcpInFlight kcp sn) rfl
  obtain ⟨p, first, here⟩ := holds.atSndBuf
  simp only [ikcpParseFastack, OmniSocket.ikcpParseFastack, inFlight, first, Option.bind_eq_bind,
    Option.bind_some]
  split
  · exact ikcpParseFastackLoop_holds sn ts here (holds.heap.length_lt_rounds .sndBuf)
  · exact ⟨raw, rfl, holds⟩

/-- The search from the end of the receive buffer finds the number of the segment, or the
place the segment belongs to. -/
theorem ikcpInsertLoop_spec (raw : IkcpRaw) (newseg : IkcpSeg) {queues : IkcpQueue → List IkcpSeg}
    {loose : Option (ℕ × IkcpSeg)} {before rest : List IkcpSeg} {p : IkcpAddr} {fuel : ℕ}
    (place : raw.heap.Place queues loose .rcvBuf p before rest) (enough : before.length < fuel) :
    ∃ isRepeat p', ikcpInsertLoop raw newseg.sn fuel p = some (isRepeat, p') ∧
      if isRepeat then ikcpInsert newseg before.reverse = before.reverse
      else ∃ first second, before = first ++ second ∧
        raw.heap.Place queues loose .rcvBuf p' first (second ++ rest) ∧
        ikcpInsert newseg before.reverse = (first ++ newseg :: second).reverse := by
  induction before using List.reverseRecOn generalizing p rest fuel with
  | nil =>
    obtain ⟨fuel, rfl⟩ := Nat.exists_eq_succ_of_ne_zero (Nat.ne_zero_of_lt enough)
    rw [ikcpInsertLoop, if_pos place.eq_head]
    exact ⟨false, p, rfl, [], [], rfl, place, rfl⟩
  | append_singleton before seg ih =>
    obtain ⟨fuel, rfl⟩ := Nat.exists_eq_succ_of_ne_zero (Nat.ne_zero_of_lt enough)
    rw [List.length_append, List.length_singleton] at enough
    obtain ⟨p', prev, onward⟩ := place.prev
    simp only [ikcpInsertLoop, if_neg place.cursor.ne_head, place.cursor.read, prev,
      List.reverse_append, List.reverse_singleton, List.singleton_append, ikcpInsert,
      Option.bind_eq_bind, Option.bind_some]
    split
    · exact ⟨true, p, rfl, rfl⟩
    split
    · exact ⟨false, p, rfl, before ++ [seg], [], (List.append_nil _).symm, place, by simp⟩
    · obtain ⟨isRepeat, q, eq, found⟩ := ih onward (Nat.lt_of_succ_lt_succ enough)
      refine ⟨isRepeat, q, eq, ?_⟩
      cases isRepeat with
      | true => exact congrArg (seg :: ·) found
      | false =>
        obtain ⟨first, second, rfl, there, inserted⟩ := found
        refine ⟨first, second ++ [seg], List.append_assoc .., ?_, ?_⟩
        · rw [List.append_assoc]
          exact there
        · rw [inserted]
          simp

theorem ikcpParseData_holds {heap : IkcpHeap} {n : ℕ} {seg : IkcpSeg} (holds : raw.Holds kcp)
    (allocated : heap.Holds kcp.queue (some (n, seg))) :
    ∃ raw', ikcpParseData { raw with heap := heap } (.node n) = some raw' ∧
      raw'.Holds (OmniSocket.ikcpParseData kcp seg) := by
  have rcvNxt : raw.kcp.rcvNxt = kcp.rcvNxt := holds.field Ikcpcb.rcvNxt rfl
  have rcvWnd : raw.kcp.rcvWnd = kcp.rcvWnd := holds.field Ikcpcb.rcvWnd rfl
  obtain ⟨heap₁, freed, after₁⟩ := allocated.free
  have released : ({ raw with heap := heap₁ }).Holds kcp :=
    ⟨holds.scalars, after₁, holds.nsndQue, holds.nrcvQue, holds.nsndBuf, holds.nrcvBuf⟩
  simp only [ikcpParseData, OmniSocket.ikcpParseData, allocated.read, rcvNxt, rcvWnd, freed,
    Option.bind_eq_bind, Option.bind_some]
  split
  · exact ⟨_, rfl, released⟩
  obtain ⟨last, prev, place⟩ := allocated.last .rcvBuf
  obtain ⟨isRepeat, p, eq, found⟩ := ikcpInsertLoop_spec { raw with heap := heap } seg place
    (allocated.length_lt_rounds .rcvBuf)
  simp only [prev, eq, Option.bind_some]
  cases isRepeat with
  | true =>
    have same : { kcp with rcvBuf := (ikcpInsert seg kcp.rcvBuf.reverse).reverse } = kcp := by
      rw [show ikcpInsert seg kcp.rcvBuf.reverse = kcp.rcvBuf.reverse from found,
        List.reverse_reverse]
    rw [same]
    simp only [if_true]
    exact ikcpMove_holds released
  | false =>
    obtain ⟨first, second, split, there, inserted⟩ := found
    obtain ⟨heap₂, init, there⟩ := there.init
    obtain ⟨heap₃, added, after⟩ := there.add
    have insert : ikcpInsert seg kcp.rcvBuf.reverse = _ := inserted
    rw [insert, List.reverse_reverse]
    simp only [Bool.false_eq_true, if_false, init, added, Option.bind_some]
    have stored : ({ raw with heap := heap₃, nrcvBuf := raw.nrcvBuf + 1 }).Holds
        { kcp with rcvBuf := first ++ seg :: second } := by
      refine ⟨holds.scalars, after.congr fun q => ?_, holds.nsndQue, holds.nrcvQue, holds.nsndBuf,
        ?_⟩
      · rw [List.append_nil]
        cases q <;> rfl
      · have buf : kcp.rcvBuf = first ++ second := split
        have moved := @List.perm_middle _ seg first second
        show raw.nrcvBuf + 1 = _
        rw [holds.nrcvBuf, moved.length_eq, List.length_cons, ofNat_succ, buf]
    exact ikcpMove_holds stored

theorem ikcpInputPush_holds (fresh : ∀ k s, malloc k s ∉ s) (holds : raw.Holds kcp)
    (seg : IkcpSeg) :
    ∃ raw', ikcpInputPush malloc raw seg = some raw' ∧
      raw'.Holds (OmniSocket.ikcpInputPush kcp seg) := by
  have rcvNxt : raw.kcp.rcvNxt = kcp.rcvNxt := holds.field Ikcpcb.rcvNxt rfl
  have rcvWnd : raw.kcp.rcvWnd = kcp.rcvWnd := holds.field Ikcpcb.rcvWnd rfl
  have pushed := holds.map (f := fun kcp => ikcpAckPush kcp seg.sn seg.ts) fun _ => rfl
  unfold ikcpInputPush OmniSocket.ikcpInputPush
  rw [rcvNxt, rcvWnd]
  split
  · have same : (ikcpAckPush raw.kcp seg.sn seg.ts).rcvNxt =
        (ikcpAckPush kcp seg.sn seg.ts).rcvNxt := rcvNxt
    simp only [same]
    split
    · exact ikcpParseData_holds pushed (pushed.heap.alloc (fresh _ _) seg)
    · exact ⟨_, rfl, pushed⟩
  · exact ⟨raw, rfl, holds⟩

/-- Estimating the round trip time does not touch the queues. -/
theorem Holds.updateAck (holds : raw.Holds kcp) (seg : IkcpSeg) :
    ({ raw with
      kcp :=
        if 0 ≤ itimediff raw.kcp.current seg.ts then
          ikcpUpdateAck raw.kcp (raw.kcp.current - seg.ts).toInt32
        else raw.kcp }).Holds
      (if 0 ≤ itimediff kcp.current seg.ts then
        ikcpUpdateAck kcp (kcp.current - seg.ts).toInt32
      else kcp) := by
  refine holds.map (f := fun kcp =>
    if 0 ≤ itimediff kcp.current seg.ts then
      ikcpUpdateAck kcp (kcp.current - seg.ts).toInt32
    else kcp) fun queues => ?_
  show (if 0 ≤ itimediff kcp.current seg.ts then _ else _) = _
  split
  · exact kcp.ikcpUpdateAck_setQueues queues _
  · rfl

theorem ikcpInputSeg_holds (fresh : ∀ k s, malloc k s ∉ s) {st : IkcpInput}
    (holds : raw.Holds st.kcp) (seg : IkcpSeg) :
    ∃ raw', ikcpInputSeg malloc raw st.newest seg =
        some (raw', (OmniSocket.ikcpInputSeg st seg).newest) ∧
      raw'.Holds (OmniSocket.ikcpInputSeg st seg).kcp := by
  have heard := holds.map (f := fun kcp => { kcp with rmtWnd := seg.wnd }) fun _ => rfl
  obtain ⟨raw₁, eq₁, cut⟩ := ikcpParseUna_holds heard seg.una
  obtain ⟨raw₂, eq₂, shrunk⟩ := ikcpShrinkBuf_holds cut
  simp only [ikcpInputSeg, OmniSocket.ikcpInputSeg, eq₁, eq₂, Option.bind_eq_bind,
    Option.bind_some]
  split
  · obtain ⟨raw₃, eq₃, parsed⟩ := ikcpParseAck_holds (shrunk.updateAck seg) seg.sn
    obtain ⟨raw₄, eq₄, done⟩ := ikcpShrinkBuf_holds parsed
    simp only [eq₃, eq₄, Option.bind_some, ikcpInputAck]
    exact ⟨raw₄, rfl, done⟩
  split
  · obtain ⟨raw₃, eq₃, done⟩ := ikcpInputPush_holds fresh shrunk seg
    simp only [eq₃, Option.bind_some]
    exact ⟨raw₃, rfl, done⟩
  split
  · refine ⟨_, rfl, ?_⟩
    exact shrunk.map (f := fun kcp => { kcp with probe := kcp.probe ||| ikcpAskTell }) fun _ => rfl
  · exact ⟨raw₂, rfl, shrunk⟩

theorem ikcpInputLoop_holds (fresh : ∀ k s, malloc k s ∉ s) (st : IkcpInput)
    (holds : raw.Holds st.kcp) (segs : List IkcpSeg) :
    ∃ raw', ikcpInputLoop malloc segs raw st.newest =
        some (raw', (segs.foldl OmniSocket.ikcpInputSeg st).newest) ∧
      raw'.Holds (segs.foldl OmniSocket.ikcpInputSeg st).kcp := by
  induction segs generalizing raw st with
  | nil => exact ⟨raw, rfl, holds⟩
  | cons seg rest ih =>
    obtain ⟨raw', eq, after⟩ := ikcpInputSeg_holds fresh holds seg
    simp only [ikcpInputLoop, eq, List.foldl_cons, Option.bind_eq_bind, Option.bind_some]
    exact ih _ after

theorem ikcpInput_holds (fresh : ∀ k s, malloc k s ∉ s) (holds : raw.Holds kcp)
    (data : List UInt8) :
    ∃ raw', ikcpInput malloc raw data = some ((OmniSocket.ikcpInput kcp data).1, raw') ∧
      raw'.Holds (OmniSocket.ikcpInput kcp data).2 := by
  have conv : raw.kcp.conv = kcp.conv := holds.field Ikcpcb.conv rfl
  have una : raw.kcp.sndUna = kcp.sndUna := holds.field Ikcpcb.sndUna rfl
  unfold ikcpInput OmniSocket.ikcpInput
  split
  · exact ⟨raw, rfl, holds⟩
  obtain ⟨raw₁, eq₁, worked⟩ := ikcpInputLoop_holds fresh ⟨kcp, none⟩ holds
    (ikcpDecodeAll kcp.conv data.length data).1
  simp only [conv, una, eq₁, Option.bind_eq_bind, Option.bind_some]
  split
  · exact ⟨raw₁, rfl, worked⟩
  generalize (ikcpDecodeAll kcp.conv data.length data).1.foldl _ _ = st at worked ⊢
  obtain ⟨kcp', newest⟩ := st
  cases newest with
  | none =>
    exact ⟨_, rfl, worked.map (f := fun kcp' => ikcpInputCwnd kcp' kcp.sndUna)
      fun queues => kcp'.ikcpInputCwnd_setQueues queues kcp.sndUna⟩
  | some newest =>
    obtain ⟨raw₂, eq₂, parsed⟩ := ikcpParseFastack_holds worked newest.1 newest.2
    simp only [eq₂, Option.bind_some]
    exact ⟨_, rfl, parsed.map (f := fun kcp' => ikcpInputCwnd kcp' kcp.sndUna)
      fun queues => Ikcpcb.ikcpInputCwnd_setQueues _ queues kcp.sndUna⟩

end IkcpRaw

end OmniSocket
