/-
# What each side believes of the other

On a network that loses, repeats and reorders, but does not forge, a sender only
takes a fragment for acknowledged that its receiver has, however old the datagram
is that says so: what a receiver has reported once stays true. With this, what
is still missing at the receiver is still at hand at the sender.
-/

import OmniSocket.Ikcp.Settled
import OmniSocket.KcpNumbers

set_option autoImplicit false

namespace OmniSocket

open Lib

/-! ## Reports among numbers that do not wrap -/

namespace Sends

/-- Below half the range `una` takes the numbers below it out of flight, and no others. -/
theorem mem_afterUna {e : ℕ} {flying : List ℕ} (few : e < 2 ^ 31) (near : ∀ i ∈ flying, i < 2 ^ 31)
    (sorted : flying.Pairwise (· < ·)) {i : ℕ} :
    i ∈ afterUna (UInt32.ofNat e) flying ↔ i ∈ flying ∧ e ≤ i := by
  induction flying with
  | nil => simp [afterUna]
  | cons h rest ih =>
    have close := near h List.mem_cons_self
    have later := ih (fun j member => near j (List.mem_cons_of_mem h member))
      (List.pairwise_cons.mp sorted).2
    have diff : itimediff (UInt32.ofNat e) (UInt32.ofNat h) = (e : ℤ) - h :=
      itimediff_ofNat (by omega) (by omega)
    by_cases below : h < e
    · rw [afterUna, List.dropWhile_cons_of_pos (by rw [diff]; simp [below])]
      rw [afterUna] at later
      rw [later, List.mem_cons]
      constructor
      · exact fun found => ⟨.inr found.1, found.2⟩
      · rintro ⟨rfl | found, above⟩
        · omega
        · exact ⟨found, above⟩
    · rw [afterUna, List.dropWhile_cons_of_neg (by rw [diff]; simp; omega)]
      refine ⟨fun member => ⟨member, ?_⟩, fun found => found.1⟩
      rcases List.mem_cons.mp member with rfl | found
      · exact not_lt.mp below
      · exact (not_lt.mp below).trans (List.rel_of_pairwise_cons sorted found).le

/-- The segments of one report take only numbers out of flight that it covers, and all
that lie below the number it reports. -/
theorem mem_foldl_afterSeg {n e : ℕ} {acked flying : List ℕ} {segs : List IkcpSeg}
    (few : e < 2 ^ 31) (near : ∀ i ∈ flying, i < 2 ^ 31) (sorted : flying.Pairwise (· < ·))
    (fewAcked : ∀ j ∈ acked, j < 2 ^ 31) (una : ∀ seg ∈ segs, seg.una = UInt32.ofNat e)
    (acks : ∀ seg ∈ segs, seg.cmd = ikcpCmdAck → ∃ j ∈ acked, seg.sn = UInt32.ofNat j) :
    (∀ i ∈ flying, i ∉ segs.foldl (afterSeg n) flying → i < e ∨ i ∈ acked) ∧
      (segs ≠ [] → ∀ i ∈ segs.foldl (afterSeg n) flying, e ≤ i) := by
  induction segs generalizing flying with
  | nil => exact ⟨fun i flies gone => absurd flies gone, fun none => absurd rfl none⟩
  | cons seg rest ih =>
    have sub := afterSeg_sublist n flying seg
    obtain ⟨covered, -⟩ := ih (fun i member => near i (sub.subset member)) (sorted.sublist sub)
      (fun other member => una other (List.mem_cons_of_mem seg member))
      fun other member => acks other (List.mem_cons_of_mem seg member)
    have una := una seg List.mem_cons_self
    have kept : ∀ i, i ∈ afterUna seg.una flying ↔ i ∈ flying ∧ e ≤ i := fun i => by
      rw [una]
      exact mem_afterUna few near sorted
    -- whatever the segment is, nothing below the number reported is left
    have low : ∀ i ∈ afterSeg n flying seg, e ≤ i := by
      intro i member
      unfold afterSeg at member
      split_ifs at member
      · exact ((kept i).mp ((afterAck_sublist ..).subset member)).2
      · exact ((kept i).mp member).2
    refine ⟨fun i flies gone => ?_, fun _ i left => ?_⟩
    · by_cases step : i ∈ afterSeg n flying seg
      · exact covered i step gone
      by_cases dropped : i ∈ afterUna seg.una flying
      · -- what `una` leaves can only go for an acknowledgement of its own
        unfold afterSeg at step
        split_ifs at step with ack
        · obtain ⟨j, listed, number⟩ := acks seg List.mem_cons_self ack
          rw [afterAck] at step
          split_ifs at step
          · exact absurd dropped step
          · have same := eq_of_unacked dropped step
            rw [number] at same
            have := near i flies
            have := fewAcked j listed
            exact .inr ((ofNat_inj_of_near (by omega) (by omega)).mp same ▸ listed)
        · exact absurd dropped step
      · rw [kept, not_and] at dropped
        exact .inl (not_le.mp (dropped flies))
    · exact low i ((foldl_afterSeg_sublist n rest _).subset left)

end Sends

/-! ## One direction -/

/-- The segments of a datagram report nothing that is not so at the receiver. -/
def Truthful (conv : UInt32) (r : ℕ) (held : List ℕ) (bytes : List UInt8) : Prop :=
  ∃ e : ℕ × List ℕ, Reports conv bytes e ∧ e.1 ≤ r ∧ ∀ j ∈ e.2, Arrived r held j

/-- What arrives later does not make it untrue. -/
theorem Truthful.mono {conv : UInt32} {r r' : ℕ} {held held' : List ℕ} {bytes : List UInt8}
    (truthful : Truthful conv r held bytes) (le : r ≤ r')
    (keeps : ∀ i, Arrived r held i → Arrived r' held' i) : Truthful conv r' held' bytes := by
  obtain ⟨e, reports, low, arrived⟩ := truthful
  exact ⟨e, reports, low.trans le, fun j listed => keeps j (arrived j listed)⟩

/-- Every item of one list has its counterpart in the other. -/
private theorem exists_of_forall₂ {α β : Type*} {R : α → β → Prop} {xs : List α} {ys : List β}
    (pairs : List.Forall₂ R xs ys) {x : α} (member : x ∈ xs) : ∃ y ∈ ys, R x y := by
  induction pairs with
  | nil => exact absurd member List.not_mem_nil
  | cons related _ ih =>
    rcases List.mem_cons.mp member with rfl | later
    · exact ⟨_, List.mem_cons_self, related⟩
    · obtain ⟨y, listed, found⟩ := ih later
      exact ⟨y, List.mem_cons_of_mem _ listed, found⟩

/-- A sender that has queued the fragments `hist` and the receiver of these, with the
datagrams `sent` and `told` that either has emitted so far. -/
structure Follows (conv : UInt32) (hist : List (Fragment UInt8)) (got : List (List UInt8)) (n : ℕ)
    (flying : List ℕ) (r : ℕ) (held : List ℕ) (sender receiver : Ikcpcb)
    (sent told : List (List UInt8)) : Prop where
  sends : Sends conv hist n flying sender
  receives : Receives hist got r held receiver
  /-- What the sender takes for acknowledged has arrived. -/
  honest : ∀ i < n, i ∉ flying → Arrived r held i
  /-- What has arrived was given a number. -/
  given : ∀ i, Arrived r held i → i < n
  data : ∀ bytes ∈ sent, ∃ numbers, Brings conv hist bytes numbers ∧ ∀ j ∈ numbers, j < n
  owes : ∃ pending : List ℕ, receiver.acklist.map Prod.fst = pending.map UInt32.ofNat ∧
    ∀ j ∈ pending, Arrived r held j
  reports : ∀ bytes ∈ told, Truthful conv r held bytes

namespace Follows

variable {conv : UInt32} {hist : List (Fragment UInt8)} {got : List (List UInt8)} {n : ℕ}
  {flying : List ℕ} {r : ℕ} {held : List ℕ} {sender receiver : Ikcpcb}
  {sent told : List (List UInt8)}

theorem start {sender receiver : Ikcpcb} (fresh : sender = kcpConfigure conv)
    (fresh' : receiver = kcpConfigure conv) :
    Follows conv [] [] 0 [] 0 [] sender receiver [] [] where
  sends := fresh ▸ Sends.start conv
  receives := fresh' ▸ Receives.start rfl
  honest := fun i small => absurd small (Nat.not_lt_zero i)
  given := by simp [Arrived]
  data := by simp
  owes := ⟨[], fresh' ▸ rfl, by simp⟩
  reports := by simp

theorem congrSender {sender' : Ikcpcb}
    (follows : Follows conv hist got n flying r held sender receiver sent told)
    (same : sender'.sending = sender.sending) :
    Follows conv hist got n flying r held sender' receiver sent told :=
  { follows with sends := follows.sends.congr same }

theorem congrReceiver {receiver' : Ikcpcb}
    (follows : Follows conv hist got n flying r held sender receiver sent told)
    (same : receiver'.receiving = receiver.receiving)
    (acks : receiver'.acklist = receiver.acklist) :
    Follows conv hist got n flying r held sender receiver' sent told :=
  { follows with
    receives := follows.receives.congr same
    owes := acks ▸ follows.owes }

/-- The receiver is never ahead of the sender. -/
theorem edge_le (follows : Follows conv hist got n flying r held sender receiver sent told) :
    r ≤ n := by
  by_contra ahead
  exact absurd (follows.given n (.inl (not_le.mp ahead))) (Nat.lt_irrefl n)

/-! ### The sender -/

theorem queue (follows : Follows conv hist got n flying r held sender receiver sent told)
    {segs : List IkcpSeg} {added : List (Fragment UInt8)}
    (cut : segs.map IkcpSeg.fragment = added) :
    Follows conv (hist ++ added) got n flying r held
      { sender with sndQueue := sender.sndQueue ++ segs } receiver sent told :=
  { follows with
    sends := follows.sends.append cut
    receives := follows.receives.append added
    data := fun bytes emitted => by
      obtain ⟨numbers, brings, below⟩ := follows.data bytes emitted
      exact ⟨numbers, brings.append added, below⟩ }

/-- New numbers are in flight, so none of them counts as acknowledged. -/
theorem updateSender (follows : Follows conv hist got n flying r held sender receiver sent told)
    (configured : sender.config = kcpConfig conv) (fragments : KcpFragments hist)
    (current : UInt32) :
    ∃ k, Follows conv hist got (n + k) (flying ++ List.range' n k) r held
      (ikcpUpdate sender current).2 receiver (sent ++ (ikcpUpdate sender current).1) told := by
  obtain ⟨k, sends, emits⟩ := follows.sends.update configured fragments current
  obtain ⟨carried, brings, flies⟩ := emits.brings fragments sends
  refine ⟨k,
    { follows with
      sends := sends
      honest := fun i small absent => ?_
      given := fun i arrived => (follows.given i arrived).trans_le (Nat.le_add_right n k)
      data := fun bytes member => ?_ }⟩
  · rw [List.mem_append, List.mem_range'_1, not_or] at absent
    exact follows.honest i (by omega) absent.1
  · rcases List.mem_append.mp member with old | new
    · obtain ⟨numbers, brings, below⟩ := follows.data bytes old
      exact ⟨numbers, brings, fun j listed => (below j listed).trans_le (Nat.le_add_right n k)⟩
    · obtain ⟨numbers, listed, brings⟩ := exists_of_forall₂ brings new
      exact ⟨numbers, brings, fun j member => sends.below j (flies numbers listed j member)⟩

/-- The sender reads a datagram of the receiver, a new one or an old one. -/
theorem readSender (follows : Follows conv hist got n flying r held sender receiver sent told)
    (configured : sender.config = kcpConfig conv) (few : hist.length < 2 ^ 31)
    {bytes : List UInt8} (emitted : bytes ∈ told) :
    Follows conv hist got n
      ((ikcpDecodeAll conv bytes.length bytes).1.foldl (Sends.afterSeg n) flying)
      r held (ikcpInput sender bytes).2 receiver sent told := by
  obtain ⟨e, reports, low, arrived⟩ := follows.reports bytes emitted
  have sends := follows.sends.input bytes
  rw [show sender.conv = conv from congrArg IkcpConfig.conv configured] at sends
  have inside := follows.sends.inside
  have near : ∀ i ∈ flying, i < 2 ^ 31 := fun i flies =>
    ((follows.sends.below i flies).trans_le inside).trans few
  obtain ⟨covered, -⟩ := Sends.mem_foldl_afterSeg (n := n)
    (low.trans_lt (follows.receives.inside.trans_lt few)) near follows.sends.sorted
    (fun j listed => ((follows.given j (arrived j listed)).trans_le inside).trans few)
    reports.una reports.acks
  refine { follows with sends := sends, honest := fun i small absent => ?_ }
  by_cases flies : i ∈ flying
  · rcases covered i flies absent with below | listed
    · exact .inl (below.trans_le low)
    · exact arrived i listed
  · exact follows.honest i small flies

/-! ### The receiver -/

/-- The receiver reports and acknowledges only what has arrived. -/
theorem updateReceiver (follows : Follows conv hist got n flying r held sender receiver sent told)
    (configured : receiver.config = kcpConfig conv) {own : List (Fragment UInt8)} {m : ℕ}
    {ownFlying : List ℕ} (sends : Sends conv own m ownFlying receiver)
    (fragments : KcpFragments own) (current : UInt32) :
    Follows conv hist got n flying r held sender (ikcpUpdate receiver current).2 sent
      (told ++ (ikcpUpdate receiver current).1) := by
  obtain ⟨pending, listed, arrived⟩ := follows.owes
  obtain ⟨k, updated, emits⟩ := sends.update configured fragments current
  have reports := emits.reports fragments updated follows.receives.nxt listed
  obtain ⟨-, receiving⟩ := ikcpUpdate_frame receiver current
  exact
    { follows with
      receives := follows.receives.congr receiving
      owes := by
        rcases acklist_ikcpUpdate receiver current with flushed | ⟨-, waiting⟩
        · exact ⟨[], by rw [flushed]; rfl, by simp⟩
        · exact ⟨pending, by rw [waiting, listed], arrived⟩
      reports := by
        intro bytes member
        rcases List.mem_append.mp member with old | new
        · exact follows.reports bytes old
        · exact ⟨(r, pending), reports bytes new, Nat.le_refl r, arrived⟩ }

/-- The receiver takes a message, or nothing. -/
theorem recvReceiver {accepted : List (List UInt8)}
    (follows : Follows conv hist got n flying r held sender receiver sent told)
    (queued : hist = kcpCutter.stream accepted) (taken : got <+: accepted)
    (fragments : KcpFragments hist) {len : ℤ} (room : 0 ≤ len) :
    ((ikcpRecv receiver len).1 < 0 ∧ (ikcpRecv receiver len).2.2 = receiver) ∨
      ∃ xs r' held', got ++ [xs] <+: accepted ∧ (ikcpRecv receiver len).1 = xs.length ∧
        (ikcpRecv receiver len).2.1 = xs ∧ r ≤ r' ∧
        Follows conv hist (got ++ [xs]) n flying r' held' sender (ikcpRecv receiver len).2.2 sent
          told := by
  rcases follows.receives.recv queued taken (fun fragment member => (fragments fragment member).2)
      room with none | ⟨xs, r', held', next, value, stored, receives, le, same⟩
  · exact .inl none
  have acks : (ikcpRecv receiver len).2.2.acklist = receiver.acklist := by
    simp only [ikcpRecv]
    split_ifs <;> rfl
  obtain ⟨pending, listed, arrived⟩ := follows.owes
  refine .inr ⟨xs, r', held', next, value, stored, le, ?_⟩
  exact
    { sends := follows.sends
      receives := receives
      honest := fun i small absent => (same i).mpr (follows.honest i small absent)
      given := fun i has => follows.given i ((same i).mp has)
      data := follows.data
      owes := ⟨pending, by rw [acks, listed], fun j due => (same j).mpr (arrived j due)⟩
      reports := fun bytes emitted =>
        (follows.reports bytes emitted).mono le fun i => (same i).mpr }

/-! ### Reading at the receiver -/

/-- The acknowledgement of a data segment within the window is put on the list. -/
theorem acklist_ikcpInputSeg_of_window {st : IkcpInput} {seg : IkcpSeg}
    (push : seg.cmd = ikcpCmdPush)
    (before : itimediff seg.sn (st.kcp.rcvNxt + st.kcp.rcvWnd) < 0) :
    (ikcpInputSeg st seg).kcp.acklist = st.kcp.acklist ++ [(seg.sn, seg.ts)] := by
  obtain ⟨config, receiving⟩ := ikcpInputUna_frame st.kcp seg
  have acks : (ikcpShrinkBuf (ikcpParseUna { st.kcp with rmtWnd := seg.wnd } seg.una)).acklist =
      st.kcp.acklist := acklist_ikcpShrinkBuf _
  have other : seg.cmd ≠ ikcpCmdAck := by
    rw [push]
    decide
  simp only [ikcpInputSeg, if_neg other, if_pos push]
  generalize ikcpShrinkBuf (ikcpParseUna { st.kcp with rmtWnd := seg.wnd } seg.una) = kcp at *
  have nxt : kcp.rcvNxt = st.kcp.rcvNxt := congrArg Prod.fst receiving
  have wnd : kcp.rcvWnd = st.kcp.rcvWnd := congrArg IkcpConfig.rcvWnd config
  have parsed : ∀ kcp : Ikcpcb, (ikcpParseData kcp seg).acklist = kcp.acklist := by
    intro kcp
    unfold ikcpParseData
    split_ifs <;> rfl
  rw [ikcpInputPush, nxt, wnd, if_pos before]
  simp only
  split_ifs
  · exact (parsed _).trans (congrArg (fun acks => acks ++ [(seg.sn, seg.ts)]) acks)
  · exact congrArg (fun acks => acks ++ [(seg.sn, seg.ts)]) acks

/-- A segment is read. One of the fragments in the window has arrived then, and is to be
acknowledged. -/
private theorem readSeg {st : IkcpInput}
    (follows : Follows conv hist got n flying r held sender st.kcp sent told)
    (window : st.kcp.rcvWnd = 128) (few : hist.length < 2 ^ 31) {seg : IkcpSeg}
    (genuine : seg.cmd = ikcpCmdPush → ∃ j < n, seg.item = fragmentItem hist j) :
    ∃ r' held', r ≤ r' ∧ (∀ i, Arrived r held i → Arrived r' held' i) ∧
      Follows conv hist got n flying r' held' sender (ikcpInputSeg st seg).kcp sent told ∧
      st.kcp.acklist <+: (ikcpInputSeg st seg).kcp.acklist ∧
      (seg.cmd = ikcpCmdPush → ∀ i < n, i < r + 128 → n ≤ i + 128 →
        seg.item = fragmentItem hist i →
        Arrived r' held' i ∧ (ikcpInputSeg st seg).kcp.acklist ≠ []) := by
  by_cases push : seg.cmd = ikcpCmdPush
  · obtain ⟨j, below, item⟩ := genuine push
    have inside := follows.sends.inside
    have edge := follows.edge_le
    obtain ⟨r', held', receives, le, keeps, only, noted⟩ :=
      follows.receives.inputPush window push item (by omega) (by omega) (by omega)
    obtain ⟨pending, listed, arrived⟩ := follows.owes
    have number : seg.sn = UInt32.ofNat j := congrArg Prod.fst item
    refine ⟨r', held', le, keeps, ?_, ?_, ?_⟩
    · exact
        { sends := follows.sends
          receives := receives
          honest := fun i small absent => keeps i (follows.honest i small absent)
          given := fun i has => (only i has).elim (follows.given i) fun same => same ▸ below
          data := follows.data
          owes := by
            rcases noted with same | ⟨more, has⟩
            · exact ⟨pending, by rw [same, listed], fun i due => keeps i (arrived i due)⟩
            · refine ⟨pending ++ [j], ?_, fun i due => ?_⟩
              · rw [more, List.map_append, List.map_append, listed, List.map_singleton,
                  List.map_singleton, number]
              · rcases List.mem_append.mp due with old | new
                · exact keeps i (arrived i old)
                · exact List.mem_singleton.mp new ▸ has
          reports := fun bytes emitted => (follows.reports bytes emitted).mono le keeps }
    · rcases noted with same | ⟨more, -⟩
      · rw [same]
      · rw [more]
        exact List.prefix_append _ _
    · intro _ i small near recent other
      have twice : UInt32.ofNat i = UInt32.ofNat j :=
        (congrArg Prod.fst other).symm.trans number
      obtain rfl : i = j := (ofNat_inj_of_near (by omega) (by omega)).mp twice
      have limit : st.kcp.rcvNxt + st.kcp.rcvWnd = UInt32.ofNat (r + 128) := by
        rw [follows.receives.nxt, window, UInt32.ofNat_add]
        rfl
      have before : itimediff seg.sn (st.kcp.rcvNxt + st.kcp.rcvWnd) < 0 := by
        rw [limit, number, itimediff_ofNat (by omega) (by omega)]
        omega
      have more := acklist_ikcpInputSeg_of_window push before
      rcases noted with same | ⟨-, has⟩
      · exact absurd (same.symm.trans more) (by simp)
      · exact ⟨has, by rw [more]; simp⟩
  · have receiving : (ikcpInputSeg st seg).kcp.receiving = st.kcp.receiving :=
      Receives.receiving_ikcpInputSeg push
    have acks : (ikcpInputSeg st seg).kcp.acklist = st.kcp.acklist :=
      Receives.acklist_ikcpInputSeg push
    exact ⟨r, held, Nat.le_refl r, fun i before => before, follows.congrReceiver receiving acks,
      acks ▸ List.prefix_rfl, fun data => absurd data push⟩

/-- The receiver reads a datagram of the sender, a new one or an old one. The recent
fragments in it that lie in the window have arrived then, and are to be acknowledged. -/
theorem readReceiver (follows : Follows conv hist got n flying r held sender receiver sent told)
    (configured : receiver.config = kcpConfig conv) (few : hist.length < 2 ^ 31)
    {bytes : List UInt8} (emitted : bytes ∈ sent) :
    ∃ r' held', r ≤ r' ∧
      Follows conv hist got n flying r' held' sender (ikcpInput receiver bytes).2 sent told ∧
      ∀ seg ∈ (ikcpDecodeAll conv bytes.length bytes).1, seg.cmd = ikcpCmdPush →
        ∀ i < n, i < r + 128 → n ≤ i + 128 → seg.item = fragmentItem hist i →
          Arrived r' held' i ∧ (ikcpInput receiver bytes).2.acklist ≠ [] := by
  obtain ⟨numbers, brings, below⟩ := follows.data bytes emitted
  have genuine : ∀ seg ∈ (ikcpDecodeAll conv bytes.length bytes).1, seg.cmd = ikcpCmdPush →
      ∃ j < n, seg.item = fragmentItem hist j := by
    intro seg member push
    have listed : seg.item ∈ numbers.map (fragmentItem hist) := by
      rw [← brings.items]
      exact List.mem_map_of_mem (List.mem_filter.mpr ⟨member, by simpa using push⟩)
    obtain ⟨j, inside, same⟩ := List.mem_map.mp listed
    exact ⟨j, below j inside, same.symm⟩
  have loop : ∀ (segs : List IkcpSeg) (st : IkcpInput) (r : ℕ) (held : List ℕ),
      (∀ seg ∈ segs, seg.cmd = ikcpCmdPush → ∃ j < n, seg.item = fragmentItem hist j) →
      st.kcp.rcvWnd = 128 → Follows conv hist got n flying r held sender st.kcp sent told →
      ∃ r' held', r ≤ r' ∧ (∀ i, Arrived r held i → Arrived r' held' i) ∧
        Follows conv hist got n flying r' held' sender (segs.foldl ikcpInputSeg st).kcp sent told ∧
        st.kcp.acklist <+: (segs.foldl ikcpInputSeg st).kcp.acklist ∧
        ∀ seg ∈ segs, seg.cmd = ikcpCmdPush → ∀ i < n, i < r + 128 → n ≤ i + 128 →
          seg.item = fragmentItem hist i →
          Arrived r' held' i ∧ (segs.foldl ikcpInputSeg st).kcp.acklist ≠ [] := by
    intro segs
    induction segs with
    | nil =>
      exact fun st r held _ _ follows => ⟨r, held, Nat.le_refl r, fun i before => before, follows,
        List.prefix_rfl, by simp⟩
    | cons seg rest ih =>
      intro st r held each window follows
      obtain ⟨r₁, held₁, le₁, keeps₁, follows₁, more₁, seen₁⟩ :=
        follows.readSeg window few (each seg List.mem_cons_self)
      have same : (ikcpInputSeg st seg).kcp.rcvWnd = 128 :=
        (congrArg IkcpConfig.rcvWnd (ikcpInputSeg_config st seg)).trans window
      obtain ⟨r₂, held₂, le₂, keeps₂, follows₂, more₂, seen₂⟩ := ih _ r₁ held₁
        (fun other member => each other (List.mem_cons_of_mem seg member)) same follows₁
      refine ⟨r₂, held₂, le₁.trans le₂, fun i before => keeps₂ i (keeps₁ i before), follows₂,
        more₁.trans more₂, ?_⟩
      intro other member push i small near recent item
      rcases List.mem_cons.mp member with rfl | later
      · obtain ⟨arrived, some_ack⟩ := seen₁ push i small near recent item
        exact ⟨keeps₂ i arrived, fun none => some_ack (List.prefix_nil.mp (none ▸ more₂))⟩
      · exact seen₂ other later push i small (by omega) recent item
  obtain ⟨r', held', le, -, follows', -, seen⟩ := loop _ { kcp := receiver, newest := none } r held
    genuine (congrArg IkcpConfig.rcvWnd configured) follows
  have same : receiver.conv = conv := congrArg IkcpConfig.conv configured
  obtain ⟨receiving, acks⟩ := Receives.ikcpInput_eq_foldl receiver bytes
  rw [same] at receiving acks
  refine ⟨r', held', le, follows'.congrReceiver receiving acks, ?_⟩
  intro seg member push i small near recent item
  rw [acks]
  exact seen seg member push i small near recent item

end Follows

end OmniSocket
