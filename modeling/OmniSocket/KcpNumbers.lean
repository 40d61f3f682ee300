/-
# Datagrams as numbers

Over a network that keeps the order and loses nothing, two endpoints are a
sliding window: a datagram on its way to the receiver stands for the unbounded
numbers of its data segments, one on its way back for the receiver's next number
and for the numbers it acknowledges. Since the window keeps all of these close
together, the 32-bit comparisons of `ikcp.c` compare the unbounded numbers.
-/

import OmniSocket.Lib.Sliding
import OmniSocket.KcpStream
import Mathlib.Data.List.Forall2

set_option autoImplicit false

namespace OmniSocket

open Lib

/-! ## Datagrams of the sender -/

/-- The data segments in a datagram are the fragments with these numbers. -/
structure Brings (conv : UInt32) (hist : List (Fragment UInt8)) (bytes : List UInt8)
    (numbers : List ℕ) : Prop where
  fits : bytes.length ≤ 1400
  inside : ∀ j ∈ numbers, j < hist.length
  items : ((ikcpDecodeAll conv bytes.length bytes).1.filter fun seg =>
    seg.cmd = ikcpCmdPush).map IkcpSeg.item = numbers.map (fragmentItem hist)

section Brings

variable {conv : UInt32} {hist : List (Fragment UInt8)} {n : ℕ} {flying : List ℕ}
  {kcp kcp' : Ikcpcb}

/-- The sender may queue more at any time. -/
theorem Brings.append {bytes : List UInt8} {numbers : List ℕ}
    (brings : Brings conv hist bytes numbers) (added : List (Fragment UInt8)) :
    Brings conv (hist ++ added) bytes numbers where
  fits := brings.fits
  inside := by
    intro j member
    rw [List.length_append]
    exact (brings.inside j member).trans_le (Nat.le_add_right _ _)
  items := by
    rw [brings.items]
    refine List.map_congr_left fun j member => ?_
    rw [fragmentItem, fragmentItem, List.getD_append _ _ _ _ (brings.inside j member)]

private theorem numbers_of_written {part : List IkcpSeg} (fragments : KcpFragments hist)
    (sends : Sends conv hist n flying kcp')
    (written : ∀ seg ∈ part, Written conv hist flying kcp seg) :
    ∃ numbers : List ℕ, (∀ j ∈ numbers, j ∈ flying) ∧
      ((part.map IkcpSeg.onWire).filter fun seg => seg.cmd = ikcpCmdPush).map IkcpSeg.item =
        numbers.map (fragmentItem hist) := by
  induction part with
  | nil => exact ⟨[], by simp, rfl⟩
  | cons seg rest ih =>
    obtain ⟨numbers, flies, items⟩ :=
      ih fun other member => written other (List.mem_cons_of_mem seg member)
    -- control segments keep their command on the wire and carry no number
    have control : (seg.cmd = ikcpCmdAck ∨ seg.cmd = ikcpCmdWask ∨ seg.cmd = ikcpCmdWins) →
        ¬ seg.onWire.cmd = ikcpCmdPush := by
      intro command
      rw [IkcpSeg.cmd_onWire (.inr command)]
      rcases command with same | same | same <;> (rw [same]; decide)
    have skipped : ¬ seg.onWire.cmd = ikcpCmdPush → ∃ numbers : List ℕ,
        (∀ j ∈ numbers, j ∈ flying) ∧ (((seg :: rest).map IkcpSeg.onWire).filter fun seg =>
          seg.cmd = ikcpCmdPush).map IkcpSeg.item = numbers.map (fragmentItem hist) := by
      intro other
      refine ⟨numbers, flies, ?_⟩
      rw [List.map_cons, List.filter_cons_of_neg (by simpa using other), items]
    rcases (written seg List.mem_cons_self).content with ⟨ack, -⟩ | ⟨window, -⟩ | ⟨i, listed, key⟩
    · exact skipped (control (.inl ack))
    · exact skipped (control (.inr window))
    · have inside := (sends.below i listed).trans_le sends.inside
      have push := (fragment_of_key fragments inside key).1
      have arrives := item_onWire_of_key fragments inside key
      refine ⟨i :: numbers, fun j member => ?_, ?_⟩
      · rcases List.mem_cons.mp member with rfl | later
        · exact listed
        · exact flies j later
      · have command : seg.onWire.cmd = ikcpCmdPush :=
          (IkcpSeg.cmd_onWire (.inl push)).trans push
        rw [List.map_cons, List.filter_cons_of_pos (by simpa using command), List.map_cons, items,
          arrives, List.map_cons]

/-- What a flush writes is decoded whole. -/
theorem Written.decode {part : List IkcpSeg} (fragments : KcpFragments hist)
    (sends : Sends conv hist n flying kcp')
    (written : ∀ seg ∈ part, Written conv hist flying kcp seg) :
    ikcpDecodeAll conv (ikcpDatagram part).length (ikcpDatagram part) =
      (part.map IkcpSeg.onWire, 0) :=
  ikcpDecodeAll_datagram
    (fun seg member => ((written seg member).genuine sends).wellFormed fragments)
    (length_le_length_ikcpDatagram part)

/-- The datagrams of one flush bring numbers in flight. -/
theorem Emits.brings {datagrams : List (List UInt8)} (fragments : KcpFragments hist)
    (sends : Sends conv hist n flying kcp')
    (emits : Emits datagrams (Written conv hist flying kcp)) :
    ∃ sent : List (List ℕ), List.Forall₂ (Brings conv hist) datagrams sent ∧
      ∀ part ∈ sent, ∀ j ∈ part, j ∈ flying := by
  obtain ⟨parts, rfl, each⟩ := emits
  induction parts with
  | nil => exact ⟨[], .nil, by simp⟩
  | cons part rest ih =>
    obtain ⟨sent, brings, flies⟩ :=
      ih fun other member => each other (List.mem_cons_of_mem part member)
    obtain ⟨-, fits, written⟩ := each part List.mem_cons_self
    obtain ⟨numbers, listed, items⟩ := numbers_of_written fragments sends written
    refine ⟨numbers :: sent, .cons ⟨fits, fun j member => ?_, ?_⟩ brings, ?_⟩
    · exact (sends.below j (listed j member)).trans_le sends.inside
    · rw [Written.decode fragments sends written]
      exact items
    · exact List.forall_mem_cons.mpr ⟨listed, flies⟩

end Brings

/-! ## Datagrams of the receiver -/

/-- The segments in a datagram report the first number of `e`, and acknowledge only
numbers that are listed in it. -/
structure Reports (conv : UInt32) (bytes : List UInt8) (e : ℕ × List ℕ) : Prop where
  fits : bytes.length ≤ 1400
  una : ∀ seg ∈ (ikcpDecodeAll conv bytes.length bytes).1, seg.una = UInt32.ofNat e.1
  acks : ∀ seg ∈ (ikcpDecodeAll conv bytes.length bytes).1, seg.cmd = ikcpCmdAck →
    ∃ j ∈ e.2, seg.sn = UInt32.ofNat j

/-- The datagrams of one flush report the next number and acknowledge what was to
be acknowledged. -/
theorem Emits.reports {conv : UInt32} {hist : List (Fragment UInt8)} {n : ℕ} {flying : List ℕ}
    {kcp kcp' : Ikcpcb} {datagrams : List (List UInt8)} (fragments : KcpFragments hist)
    (sends : Sends conv hist n flying kcp')
    (emits : Emits datagrams (Written conv hist flying kcp)) {edge : ℕ} {pending : List ℕ}
    (nxt : kcp.rcvNxt = UInt32.ofNat edge)
    (acks : kcp.acklist.map Prod.fst = pending.map UInt32.ofNat) :
    ∀ bytes ∈ datagrams, Reports conv bytes (edge, pending) := by
  obtain ⟨parts, rfl, each⟩ := emits
  intro bytes member
  obtain ⟨part, inside, rfl⟩ := List.mem_map.mp member
  obtain ⟨-, fits, written⟩ := each part inside
  refine ⟨fits, ?_, ?_⟩
  · rw [Written.decode fragments sends written]
    intro seg decoded
    obtain ⟨sent, listed, rfl⟩ := List.mem_map.mp decoded
    exact (written sent listed).una.trans nxt
  · rw [Written.decode fragments sends written]
    intro seg decoded command
    obtain ⟨sent, listed, rfl⟩ := List.mem_map.mp decoded
    have genuine := (written sent listed).genuine sends
    rw [IkcpSeg.cmd_onWire (genuine.wellFormed fragments).2.1] at command
    -- only the first kind of segment is an acknowledgment
    rcases (written sent listed).content with ⟨-, -, due⟩ | ⟨window, -⟩ | ⟨i, flies, key⟩
    · have number : sent.sn ∈ pending.map UInt32.ofNat := acks ▸ List.mem_map_of_mem due
      obtain ⟨j, pends, same⟩ := List.mem_map.mp number
      exact ⟨j, pends, same.symm⟩
    · rw [command] at window
      exact absurd window (by decide)
    · have push : sent.cmd = ikcpCmdPush := congrArg (fun key => key.2.1) key
      exact absurd (push.symm.trans command) (by decide)

/-! ## Reading at the receiver -/

/-- The receiving half stands where the window says, and its list of
acknowledgements is the numbers to be reported. -/
structure Collects (hist : List (Fragment UInt8)) (got : List (List UInt8)) (g : Sliding)
    (kcp : Ikcpcb) : Prop where
  receives : Receives hist got g.edge g.held kcp
  acks : kcp.acklist.map Prod.fst = g.pending.map UInt32.ofNat

namespace Collects

variable {hist : List (Fragment UInt8)} {got : List (List UInt8)} {g : Sliding} {kcp : Ikcpcb}

/-- Only the receiving half and the acknowledgements matter. -/
theorem congr {kcp' : Ikcpcb} (collects : Collects hist got g kcp)
    (receiving : kcp'.receiving = kcp.receiving) (acks : kcp'.acklist = kcp.acklist) :
    Collects hist got g kcp' where
  receives := collects.receives.congr receiving
  acks := acks ▸ collects.acks

private theorem inputSeg {st : IkcpInput} {seg : IkcpSeg} {j : ℕ} {numbers : List ℕ}
    {rest : List (List ℕ)} (sound : g.Sound 128) (data : g.data = (j :: numbers) :: rest)
    (collects : Collects hist got g st.kcp) (window : st.kcp.rcvWnd = 128)
    (push : seg.cmd = ikcpCmdPush) (item : seg.item = fragmentItem hist j)
    (inside : j < hist.length) :
    ∃ edge held pending,
      Sliding.Sound 128 { g with
        edge := edge, held := held, pending := pending, data := numbers :: rest } ∧
      Collects hist got { g with
        edge := edge, held := held, pending := pending, data := numbers :: rest }
        (ikcpInputSeg st seg).kcp := by
  have listed : j ∈ g.data.flatten := by
    rw [data]
    exact List.mem_cons_self
  -- numbers on their way are near the edge, so they compare as they should
  have near := sound.forth_near (by decide) listed
  obtain ⟨edge, held, receives, grows, keeps, only, noted⟩ :=
    collects.receives.inputPush window push item inside near.2 (by omega)
  have number : seg.sn = UInt32.ofNat j := congrArg Prod.fst item
  have close : ∀ i ∈ held, i < edge + 128 := fun i member => (receives.window i member).2.1
  rcases noted with same | ⟨more, has⟩
  · exact ⟨edge, held, g.pending, sound.arrive data grows keeps only close (.inl rfl), receives,
      same ▸ collects.acks⟩
  · refine ⟨edge, held, g.pending ++ [j],
      sound.arrive data grows keeps only close (.inr ⟨rfl, has⟩), receives, ?_⟩
    rw [more, List.map_append, List.map_append, collects.acks, List.map_singleton,
      List.map_singleton, number]

/-- The loop of `ikcp_input` reads the numbers of a datagram one after the other. -/
private theorem foldl {segs : List IkcpSeg} {st : IkcpInput} {numbers : List ℕ}
    {rest : List (List ℕ)} (sound : g.Sound 128) (data : g.data = numbers :: rest)
    (collects : Collects hist got g st.kcp) (window : st.kcp.rcvWnd = 128)
    (inside : ∀ j ∈ numbers, j < hist.length)
    (items : (segs.filter fun seg => seg.cmd = ikcpCmdPush).map IkcpSeg.item =
      numbers.map (fragmentItem hist)) :
    ∃ edge held pending,
      Sliding.Sound 128 { g with edge := edge, held := held, pending := pending, data := rest } ∧
      Collects hist got { g with edge := edge, held := held, pending := pending, data := rest }
        (segs.foldl ikcpInputSeg st).kcp := by
  -- on the segments: each data segment takes the next number off the datagram
  induction segs generalizing g st numbers with
  | nil =>
    obtain rfl := List.map_eq_nil_iff.mp items.symm
    exact ⟨g.edge, g.held, g.pending, sound.arrived data, collects.receives, collects.acks⟩
  | cons seg later ih =>
    have same : (ikcpInputSeg st seg).kcp.rcvWnd = 128 :=
      (congrArg IkcpConfig.rcvWnd (ikcpInputSeg_config st seg)).trans window
    by_cases push : seg.cmd = ikcpCmdPush
    · rw [List.filter_cons_of_pos (by simpa using push), List.map_cons] at items
      obtain ⟨j, others, rfl, item, items'⟩ := List.map_eq_cons_iff.mp items.symm
      obtain ⟨edge, held, pending, sound', collects'⟩ :=
        inputSeg sound data collects window push item.symm (inside j List.mem_cons_self)
      obtain ⟨edge', held', pending', result⟩ := ih sound' rfl collects' same
        (fun i member => inside i (List.mem_cons_of_mem j member)) items'.symm
      exact ⟨edge', held', pending', result⟩
    · rw [List.filter_cons_of_neg (by simpa using push)] at items
      exact ih sound data
        (collects.congr (Receives.receiving_ikcpInputSeg push) (Receives.acklist_ikcpInputSeg push))
        same inside items

/-- The receiver reads the oldest datagram. -/
theorem input {conv : UInt32} {bytes : List UInt8} {numbers : List ℕ} {rest : List (List ℕ)}
    (sound : g.Sound 128) (data : g.data = numbers :: rest) (collects : Collects hist got g kcp)
    (configured : kcp.config = kcpConfig conv) (brings : Brings conv hist bytes numbers) :
    ∃ edge held pending,
      Sliding.Sound 128 { g with edge := edge, held := held, pending := pending, data := rest } ∧
      Collects hist got { g with edge := edge, held := held, pending := pending, data := rest }
        (ikcpInput kcp bytes).2 := by
  have same : kcp.conv = conv := congrArg IkcpConfig.conv configured
  have start : Collects hist got g ({ kcp := kcp, newest := none } : IkcpInput).kcp := collects
  obtain ⟨edge, held, pending, sound', collects'⟩ := foldl sound data start
    (congrArg IkcpConfig.rcvWnd configured) brings.inside brings.items
  obtain ⟨receiving, acks⟩ := Receives.ikcpInput_eq_foldl kcp bytes
  rw [same] at receiving acks
  exact ⟨edge, held, pending, sound', collects'.congr receiving acks⟩

end Collects

/-! ## Reading at the sender -/

section Acknowledge

variable {g : Sliding} {e : ℕ × List ℕ} {rest : List (ℕ × List ℕ)}

/-- Only numbers below the one reported are dropped for it. -/
theorem Sends.below_of_afterUna (sound : g.Sound 128) (reports : g.reports = e :: rest) {i : ℕ}
    (flies : i ∈ g.flying) (gone : i ∉ Sends.afterUna (UInt32.ofNat e.1) g.flying) : i < e.1 := by
  have member : e ∈ g.reports := reports ▸ List.mem_cons_self
  obtain ⟨base, -, order, -⟩ := sound.back e member
  -- what is dropped at the front leaves only acknowledged numbers and dropped ones behind
  have loop : ∀ flying : List ℕ, flying.Pairwise (· < ·) → (∀ x ∈ flying, x ∈ g.flying) →
      (∀ x, g.first ≤ x → x < g.next → x ∉ flying → x < e.1 + 128) →
      ∀ i ∈ flying, i ∉ Sends.afterUna (UInt32.ofNat e.1) flying → i < e.1 := by
    intro flying
    induction flying with
    | nil => simp
    | cons h later ih =>
      intro sorted inside behind i listed absent
      have bounds := sound.flies h (inside h List.mem_cons_self)
      have close := sound.close (bounds.1.trans_lt (bounds.2.trans_le sound.inside))
      have low := (sound.back_near member (inside h List.mem_cons_self)).1
      have high : h ≤ max g.first (e.1 + 128) := by
        by_contra beyond
        have before := behind (h - 1) (by omega) (by omega) fun earlier => by
          rcases List.mem_cons.mp earlier with same | tail
          · omega
          · have greater := List.rel_of_pairwise_cons sorted tail
            omega
        omega
      have diff : itimediff (UInt32.ofNat e.1) (UInt32.ofNat h) = (e.1 : ℤ) - h :=
        itimediff_ofNat (by omega) (by omega)
      by_cases dropped : h < e.1
      · rcases List.mem_cons.mp listed with rfl | tail
        · exact dropped
        · refine ih (List.pairwise_cons.mp sorted).2
            (fun x member => inside x (List.mem_cons_of_mem h member)) ?_ i tail ?_
          · intro x above below absent
            by_cases same : x = h
            · omega
            · exact behind x above below (by simp [same, absent])
          · rwa [Sends.afterUna,
              List.dropWhile_cons_of_pos (by rw [diff]; simp [dropped])] at absent
      · rw [Sends.afterUna, List.dropWhile_cons_of_neg (by rw [diff]; simp; omega)] at absent
        exact absurd listed absent
  exact loop g.flying sound.sorted (fun x member => member)
    (fun x above below absent => order x ⟨above, below, absent⟩) i flies gone

theorem eq_of_unacked {sn : UInt32} {flying : List ℕ} {i : ℕ} (flies : i ∈ flying)
    (gone : i ∉ Sends.unacked sn flying) : sn = UInt32.ofNat i := by
  induction flying with
  | nil => exact absurd flies List.not_mem_nil
  | cons h later ih =>
    rw [Sends.unacked] at gone
    split_ifs at gone with same before
    · rcases List.mem_cons.mp flies with rfl | tail
      · exact same
      · exact absurd tail gone
    · exact absurd flies gone
    · rw [List.mem_cons, not_or] at gone
      exact ih ((List.mem_cons.mp flies).resolve_left gone.1) gone.2

/-- Only the number acknowledged is dropped for an acknowledgement. -/
theorem Sends.eq_of_afterAck (sound : g.Sound 128) (reports : g.reports = e :: rest) {i j : ℕ}
    (listed : j ∈ e.2) (flies : i ∈ g.flying)
    (gone : i ∉ Sends.afterAck g.next (UInt32.ofNat j) g.flying) : i = j := by
  have near := sound.back_number_near (by decide) (reports ▸ List.mem_cons_self) flies listed
  unfold Sends.afterAck at gone
  split_ifs at gone
  · exact absurd flies gone
  · exact (ofNat_inj_of_near near.1 near.2).mp (eq_of_unacked flies gone).symm

/-- The segments of the next report take only numbers out of flight that it covers. -/
theorem Sends.sound_foldl_afterSeg (sound : g.Sound 128) (reports : g.reports = e :: rest)
    {segs : List IkcpSeg} (una : ∀ seg ∈ segs, seg.una = UInt32.ofNat e.1)
    (acks : ∀ seg ∈ segs, seg.cmd = ikcpCmdAck → ∃ j ∈ e.2, seg.sn = UInt32.ofNat j) :
    Sliding.Sound 128 { g with flying := segs.foldl (Sends.afterSeg g.next) g.flying } := by
  induction segs generalizing g with
  | nil => exact sound
  | cons seg later ih =>
    have first : Sliding.Sound 128
        { g with flying := Sends.afterUna (UInt32.ofNat e.1) g.flying } :=
      sound.acknowledge reports (List.dropWhile_sublist _) fun i flies gone =>
        .inl (Sends.below_of_afterUna sound reports flies gone)
    have step : Sliding.Sound 128 { g with flying := Sends.afterSeg g.next g.flying seg } := by
      unfold Sends.afterSeg
      rw [una seg List.mem_cons_self]
      split_ifs with ack
      · obtain ⟨j, listed, number⟩ := acks seg List.mem_cons_self ack
        rw [number]
        exact first.acknowledge reports (Sends.afterAck_sublist ..) fun i flies gone =>
          .inr (Sends.eq_of_afterAck first reports listed flies gone ▸ listed)
      · exact first
    exact ih step reports (fun other member => una other (List.mem_cons_of_mem seg member))
      fun other member => acks other (List.mem_cons_of_mem seg member)

end Acknowledge

end OmniSocket
