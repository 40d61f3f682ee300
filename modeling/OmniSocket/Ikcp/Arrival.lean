/-
# The receive window

The receive buffer holds the fragments that have arrived out of order, sorted by
their numbers, all of them within 128 of the next one that is due. As soon as
that one arrives, it and those behind it move on to the receive queue, so what
has been returned and what is in the queue is always the front of what the peer
has queued.
-/

import OmniSocket.Ikcp.Window

set_option autoImplicit false

namespace OmniSocket

open Lib

/-! ## Sorting a number into the buffer -/

/-- `ikcpInsert` on the numbers, with the largest one first. -/
def inserted (i : ℕ) : List ℕ → List ℕ
  | [] => [i]
  | j :: before =>
    if j = i then j :: before
    else if j < i then i :: j :: before
    else j :: inserted i before

theorem mem_inserted {i j : ℕ} {held : List ℕ} : j ∈ inserted i held ↔ j = i ∨ j ∈ held := by
  induction held with
  | nil => simp [inserted]
  | cons k before ih =>
    rw [inserted]
    split_ifs with same less
    · subst same
      simp
    · rw [List.mem_cons]
    · rw [List.mem_cons, ih, List.mem_cons]
      exact or_left_comm

theorem pairwise_inserted {i : ℕ} {held : List ℕ} (sorted : held.Pairwise (· > ·)) :
    (inserted i held).Pairwise (· > ·) := by
  induction held with
  | nil => exact List.pairwise_singleton _ _
  | cons k before ih =>
    rw [inserted]
    split_ifs with same less
    · exact sorted
    · refine List.pairwise_cons.mpr ⟨fun j member => ?_, sorted⟩
      rcases List.mem_cons.mp member with rfl | later
      · exact less
      · exact (List.rel_of_pairwise_cons sorted later).trans less
    · refine List.pairwise_cons.mpr ⟨fun j member => ?_, ih (List.pairwise_cons.mp sorted).2⟩
      rcases mem_inserted.mp member with rfl | later
      · omega
      · exact List.rel_of_pairwise_cons sorted later

/-! ## The invariant -/

/-- What a receiver keeps of a data segment. -/
def IkcpSeg.item (seg : IkcpSeg) : UInt32 × Fragment UInt8 := (seg.sn, seg.fragment)

/-- The fragment with number `i`, as a receiver keeps it. -/
def fragmentItem (hist : List (Fragment UInt8)) (i : ℕ) : UInt32 × Fragment UInt8 :=
  (UInt32.ofNat i, hist.getD i (0, []))

/-- The receiving half of an endpoint whose peer has queued the fragments `hist`:
the messages `got` have been returned, the fragments before number `r` have
arrived in order, and those with the numbers `held` are in the receive buffer. -/
structure Receives (hist : List (Fragment UInt8)) (got : List (List UInt8)) (r : ℕ)
    (held : List ℕ) (kcp : Ikcpcb) : Prop where
  nxt : kcp.rcvNxt = UInt32.ofNat r
  inside : r ≤ hist.length
  front : kcpCutter.stream got ++ kcp.rcvQueue.map IkcpSeg.fragment = hist.take r
  buf : kcp.rcvBuf.map IkcpSeg.item = held.map (fragmentItem hist)
  sorted : held.Pairwise (· < ·)
  window : ∀ i ∈ held, r ≤ i ∧ i < r + 128 ∧ i < hist.length

/-- The number `i` has arrived. -/
def Arrived (r : ℕ) (held : List ℕ) (i : ℕ) : Prop := i < r ∨ i ∈ held

theorem acklist_ikcpShrinkBuf (kcp : Ikcpcb) : (ikcpShrinkBuf kcp).acklist = kcp.acklist := by
  unfold ikcpShrinkBuf
  split <;> rfl

namespace Receives

variable {hist : List (Fragment UInt8)} {got : List (List UInt8)} {r : ℕ} {held : List ℕ}
  {kcp kcp' : Ikcpcb}

/-- Only the receiving half matters. -/
theorem congr (receives : Receives hist got r held kcp) (same : kcp'.receiving = kcp.receiving) :
    Receives hist got r held kcp' := by
  obtain ⟨nxt, queue, buf⟩ : kcp'.rcvNxt = kcp.rcvNxt ∧ kcp'.rcvQueue = kcp.rcvQueue ∧
      kcp'.rcvBuf = kcp.rcvBuf := by
    simpa [Ikcpcb.receiving] using same
  exact
    { nxt := nxt ▸ receives.nxt
      inside := receives.inside
      front := queue ▸ receives.front
      buf := buf ▸ receives.buf
      sorted := receives.sorted
      window := receives.window }

/-- Nothing has arrived at an endpoint that is set up afresh. -/
theorem start (fresh : kcp.receiving = (0, [], [])) : Receives [] [] 0 [] kcp := by
  obtain ⟨nxt, queue, buf⟩ : kcp.rcvNxt = 0 ∧ kcp.rcvQueue = [] ∧ kcp.rcvBuf = [] := by
    simpa [Ikcpcb.receiving] using fresh
  exact
    { nxt := nxt
      inside := Nat.le_refl 0
      front := by rw [queue]; rfl
      buf := by rw [buf]; rfl
      sorted := List.Pairwise.nil
      window := by simp }

/-- The peer may queue more at any time. -/
theorem append (receives : Receives hist got r held kcp) (added : List (Fragment UInt8)) :
    Receives (hist ++ added) got r held kcp where
  nxt := receives.nxt
  inside := by
    rw [List.length_append]
    exact receives.inside.trans (Nat.le_add_right _ _)
  front := by rw [receives.front, List.take_append_of_le_length receives.inside]
  buf := by
    rw [receives.buf]
    refine List.map_congr_left fun i member => ?_
    rw [fragmentItem, fragmentItem, List.getD_append _ _ _ _ (receives.window i member).2.2]
  sorted := receives.sorted
  window := by
    intro i member
    have old := receives.window i member
    rw [List.length_append]
    omega

/-! ### Moving to the queue -/

/-- The loop that moves segments from the buffer to the queue takes a run of
numbers off the front of the buffer. -/
private theorem ikcpMoveLoop_spec (wnd : UInt32) (queue : List IkcpSeg) {buf : List IkcpSeg}
    (items : buf.map IkcpSeg.item = held.map (fragmentItem hist))
    (sorted : held.Pairwise (· < ·)) (near : ∀ i ∈ held, r ≤ i ∧ i < r + 2 ^ 32) :
    ∃ k, held.take k = List.range' r k ∧
      (ikcpMoveLoop wnd buf queue (UInt32.ofNat r)).1.map IkcpSeg.item =
        (held.drop k).map (fragmentItem hist) ∧
      (ikcpMoveLoop wnd buf queue (UInt32.ofNat r)).2.1.map IkcpSeg.fragment =
        queue.map IkcpSeg.fragment ++ (List.range' r k).map (hist.getD · (0, [])) ∧
      (ikcpMoveLoop wnd buf queue (UInt32.ofNat r)).2.2 = UInt32.ofNat (r + k) := by
  -- on the numbers in the buffer: the loop stops at the first that is not next
  induction held generalizing buf queue r with
  | nil =>
    rw [List.map_nil, List.map_eq_nil_iff] at items
    subst items
    exact ⟨0, rfl, rfl, by simp [ikcpMoveLoop], rfl⟩
  | cons i rest ih =>
    obtain ⟨seg, others, rfl, item, later⟩ := List.map_eq_cons_iff.mp items
    have number : seg.sn = UInt32.ofNat i := congrArg Prod.fst item
    have fragment : seg.fragment = hist.getD i (0, []) := congrArg Prod.snd item
    rw [ikcpMoveLoop]
    by_cases next : seg.sn = UInt32.ofNat r ∧ UInt32.ofNat queue.length < wnd
    · have close := near i List.mem_cons_self
      -- equal modulo 2^32, and the window is much smaller
      obtain rfl : i = r := by
        rw [number, ofNat_inj_of_near (by omega) (by omega)] at next
        exact next.1
      have above : ∀ j ∈ rest, i + 1 ≤ j ∧ j < i + 1 + 2 ^ 32 := by
        intro j member
        have bound := near j (List.mem_cons_of_mem i member)
        have greater := List.rel_of_pairwise_cons sorted member
        omega
      obtain ⟨k, run, buf', queue', nxt'⟩ :=
        ih (queue ++ [seg]) later (List.pairwise_cons.mp sorted).2 above
      rw [if_pos next, ← ofNat_succ]
      refine ⟨k + 1, ?_, buf', ?_, by rw [nxt']; congr 1; omega⟩
      · rw [List.take_succ_cons, run, List.range'_succ]
      · rw [queue', List.range'_succ, List.map_append, List.map_singleton, fragment,
          List.append_assoc]
        rfl
    · rw [if_neg next]
      exact ⟨0, rfl, items, by simp, rfl⟩

private theorem take_append_range' (hist : List (Fragment UInt8)) (r k : ℕ)
    (inside : r + k ≤ hist.length) :
    hist.take r ++ (List.range' r k).map (hist.getD · (0, [])) = hist.take (r + k) := by
  induction k with
  | zero => simp
  | succ k ih =>
    rw [List.range'_1_concat, List.map_append, ← List.append_assoc, ih (by omega),
      List.map_singleton, List.getD_eq_getElem _ _ (by omega), ← Nat.add_assoc,
      List.take_concat_get']

/-- What moves to the queue stays arrived. -/
theorem move (receives : Receives hist got r held kcp) :
    ∃ k, Receives hist got (r + k) (held.drop k) (ikcpMove kcp) ∧
      ∀ i, Arrived (r + k) (held.drop k) i ↔ Arrived r held i := by
  have near : ∀ i ∈ held, r ≤ i ∧ i < r + 2 ^ 32 := by
    intro i member
    have := receives.window i member
    omega
  obtain ⟨k, run, buf, queue, nxt⟩ :=
    ikcpMoveLoop_spec kcp.rcvWnd kcp.rcvQueue receives.buf receives.sorted near
  have moved : ∀ i, i ∈ held.take k ↔ r ≤ i ∧ i < r + k := fun i => by
    rw [run, List.mem_range'_1]
  have split : ∀ i, i ∈ held ↔ i ∈ held.take k ∨ i ∈ held.drop k := fun i => by
    rw [← List.mem_append, List.take_append_drop]
  have beyond : ∀ i ∈ held.drop k, r + k ≤ i := by
    intro i member
    have old := receives.window i (List.mem_of_mem_drop member)
    by_contra small
    -- `i` would be in both halves of a strictly sorted list
    have twice := (moved i).mpr ⟨old.1, by omega⟩
    have sorted := receives.sorted
    rw [← List.take_append_drop k held] at sorted
    exact absurd ((List.pairwise_append.mp sorted).2.2 i twice i member) (Nat.lt_irrefl i)
  -- the last number moved was in the buffer, so it is one of the history
  have inside : r + k ≤ hist.length := by
    by_cases none : k = 0
    · rw [none]
      exact receives.inside
    · have last := (moved (r + k - 1)).mpr (by omega)
      have := (receives.window _ (List.mem_of_mem_take last)).2.2
      omega
  refine ⟨k, ?_, fun i => ?_⟩
  · exact
      { nxt := by
          rw [← nxt, ← receives.nxt]
          rfl
        inside := inside
        front := by
          rw [← take_append_range' hist r k inside, ← receives.front, List.append_assoc, ← queue,
            ← receives.nxt]
          rfl
        buf := by
          rw [← buf, ← receives.nxt]
          rfl
        sorted := receives.sorted.sublist (List.drop_sublist k held)
        window := by
          intro i member
          have old := receives.window i (List.mem_of_mem_drop member)
          have := beyond i member
          omega }
  · rw [Arrived, Arrived, split, moved]
    by_cases later : i ∈ held.drop k
    · simp [later]
    · simp only [later, or_false]
      omega

/-! ### Data segments -/

/-- Sorting a segment into a buffer of segments whose numbers are near its own. -/
private theorem ikcpInsert_spec {seg : IkcpSeg} {j : ℕ} (item : seg.item = fragmentItem hist j)
    {buf : List IkcpSeg} (items : buf.map IkcpSeg.item = held.map (fragmentItem hist))
    (near : ∀ i ∈ held, i < j + 2 ^ 31 ∧ j < i + 2 ^ 31) :
    (ikcpInsert seg buf).map IkcpSeg.item = (inserted j held).map (fragmentItem hist) := by
  induction held generalizing buf with
  | nil =>
    rw [List.map_nil, List.map_eq_nil_iff] at items
    subst items
    simp [ikcpInsert, inserted, item]
  | cons i before ih =>
    obtain ⟨first, others, rfl, first_item, later⟩ := List.map_eq_cons_iff.mp items
    have close := near i List.mem_cons_self
    -- near each other, the numbers compare on the wire as they do in the history
    have same : first.sn = seg.sn ↔ i = j := by
      rw [show first.sn = UInt32.ofNat i from congrArg Prod.fst first_item,
        show seg.sn = UInt32.ofNat j from congrArg Prod.fst item]
      exact ofNat_inj_of_near (by omega) (by omega)
    have order : 0 < itimediff seg.sn first.sn ↔ i < j := by
      rw [show first.sn = UInt32.ofNat i from congrArg Prod.fst first_item,
        show seg.sn = UInt32.ofNat j from congrArg Prod.fst item,
        itimediff_ofNat (by omega) (by omega)]
      omega
    rw [ikcpInsert, inserted]
    simp only [same, order]
    split_ifs
    · exact items
    · rw [List.map_cons, items, item]
      rfl
    · rw [List.map_cons, List.map_cons, first_item,
        ih later fun k member => near k (List.mem_cons_of_mem i member)]

/-- A fragment of the window is sorted in. -/
theorem parseData (receives : Receives hist got r held kcp) (window : kcp.rcvWnd = 128)
    {seg : IkcpSeg} {j : ℕ} (item : seg.item = fragmentItem hist j) (inside : j < hist.length)
    (above : r ≤ j) (below : j < r + 128) :
    ∃ r' held', Receives hist got r' held' (ikcpParseData kcp seg) ∧ r ≤ r' ∧
      ∀ i, Arrived r' held' i ↔ Arrived r held i ∨ i = j := by
  have sn : seg.sn = UInt32.ofNat j := congrArg Prod.fst item
  have limit : kcp.rcvNxt + kcp.rcvWnd = UInt32.ofNat (r + 128) := by
    rw [receives.nxt, window, UInt32.ofNat_add]
    rfl
  -- the buffer is searched from its end, so both sides are read backwards
  have placed : Receives hist got r (inserted j held.reverse).reverse
      { kcp with rcvBuf := (ikcpInsert seg kcp.rcvBuf.reverse).reverse } :=
    { nxt := receives.nxt
      inside := receives.inside
      front := receives.front
      buf := by
        have reversed : kcp.rcvBuf.reverse.map IkcpSeg.item =
            held.reverse.map (fragmentItem hist) := by
          rw [List.map_reverse, receives.buf, List.map_reverse]
        have near : ∀ i ∈ held.reverse, i < j + 2 ^ 31 ∧ j < i + 2 ^ 31 := by
          intro i member
          have := receives.window i (List.mem_reverse.mp member)
          omega
        simp only [List.map_reverse, ikcpInsert_spec item reversed near]
      sorted := by
        refine List.pairwise_reverse.mpr (pairwise_inserted ?_)
        exact List.pairwise_reverse.mpr receives.sorted
      window := by
        intro i member
        rcases mem_inserted.mp (List.mem_reverse.mp member) with rfl | old
        · exact ⟨above, below, inside⟩
        · exact receives.window i (List.mem_reverse.mp old) }
  -- inside the window neither early return of `ikcp_parse_data` is taken
  have accepted : ¬ (0 ≤ itimediff seg.sn (kcp.rcvNxt + kcp.rcvWnd) ∨
      itimediff seg.sn kcp.rcvNxt < 0) := by
    rw [limit, sn, receives.nxt, itimediff_ofNat (by omega) (by omega),
      itimediff_ofNat (by omega) (by omega)]
    omega
  obtain ⟨k, moved, arrived⟩ := placed.move
  rw [ikcpParseData, if_neg accepted]
  refine ⟨_, _, moved, Nat.le_add_right r k, fun i => ?_⟩
  rw [arrived, Arrived, Arrived, List.mem_reverse, mem_inserted, List.mem_reverse]
  tauto

/-- A data segment of the peer moves the window on or leaves it alone, and is
acknowledged only if it has arrived. -/
theorem push (receives : Receives hist got r held kcp) (window : kcp.rcvWnd = 128)
    {seg : IkcpSeg} {j : ℕ} (item : seg.item = fragmentItem hist j) (inside : j < hist.length)
    (above : j < r + 128 + 2 ^ 31) (below : r ≤ j + 2 ^ 31) :
    ∃ r' held', Receives hist got r' held' (ikcpInputPush kcp seg) ∧ r ≤ r' ∧
      (∀ i, Arrived r held i → Arrived r' held' i) ∧
      (∀ i, Arrived r' held' i → Arrived r held i ∨ i = j) ∧
      ((ikcpInputPush kcp seg).acklist = kcp.acklist ∨
        (ikcpInputPush kcp seg).acklist = kcp.acklist ++ [(seg.sn, seg.ts)] ∧
          Arrived r' held' j) := by
  have sn : seg.sn = UInt32.ofNat j := congrArg Prod.fst item
  have limit : kcp.rcvNxt + kcp.rcvWnd = UInt32.ofNat (r + 128) := by
    rw [receives.nxt, window, UInt32.ofNat_add]
    rfl
  -- beyond the window a segment is not even acknowledged
  by_cases near : itimediff seg.sn (kcp.rcvNxt + kcp.rcvWnd) < 0
  · have below_limit : j < r + 128 := by
      by_contra beyond
      rw [limit, sn, itimediff_ofNat above (by omega)] at near
      omega
    have due : itimediff seg.sn kcp.rcvNxt = (j : ℤ) - r := by
      rw [sn, receives.nxt, itimediff_ofNat (by omega) below]
    have pushed : Receives hist got r held (ikcpAckPush kcp seg.sn seg.ts) := receives.congr rfl
    -- an old segment is acknowledged once more and goes no further
    by_cases old : 0 ≤ itimediff seg.sn kcp.rcvNxt
    · obtain ⟨r', held', receives', le, arrived⟩ :=
        pushed.parseData window item inside (by omega) below_limit
      have acks : (ikcpParseData (ikcpAckPush kcp seg.sn seg.ts) seg).acklist =
          kcp.acklist ++ [(seg.sn, seg.ts)] := by
        unfold ikcpParseData
        split_ifs <;> rfl
      have step : ikcpInputPush kcp seg = ikcpParseData (ikcpAckPush kcp seg.sn seg.ts) seg := by
        rw [ikcpInputPush, if_pos near]
        exact if_pos old
      rw [step]
      exact ⟨r', held', receives', le, fun i before => (arrived i).mpr (.inl before),
        fun i => (arrived i).mp, .inr ⟨acks, (arrived j).mpr (.inr rfl)⟩⟩
    · have step : ikcpInputPush kcp seg = ikcpAckPush kcp seg.sn seg.ts := by
        rw [ikcpInputPush, if_pos near]
        exact if_neg old
      rw [step]
      exact ⟨r, held, pushed, Nat.le_refl r, fun i before => before, fun i => .inl,
        .inr ⟨rfl, .inl (by omega)⟩⟩
  · rw [ikcpInputPush, if_neg near]
    exact ⟨r, held, receives, Nat.le_refl r, fun i before => before, fun i => .inl, .inl rfl⟩

/-- That is what input of a data segment does. -/
theorem inputPush {st : IkcpInput} (receives : Receives hist got r held st.kcp)
    (window : st.kcp.rcvWnd = 128) {seg : IkcpSeg} {j : ℕ} (data : seg.cmd = ikcpCmdPush)
    (item : seg.item = fragmentItem hist j) (inside : j < hist.length)
    (above : j < r + 128 + 2 ^ 31) (below : r ≤ j + 2 ^ 31) :
    ∃ r' held', Receives hist got r' held' (ikcpInputSeg st seg).kcp ∧ r ≤ r' ∧
      (∀ i, Arrived r held i → Arrived r' held' i) ∧
      (∀ i, Arrived r' held' i → Arrived r held i ∨ i = j) ∧
      ((ikcpInputSeg st seg).kcp.acklist = st.kcp.acklist ∨
        (ikcpInputSeg st seg).kcp.acklist = st.kcp.acklist ++ [(seg.sn, seg.ts)] ∧
          Arrived r' held' j) := by
  obtain ⟨config, receiving⟩ := ikcpInputUna_frame st.kcp seg
  have acks := acklist_ikcpShrinkBuf (ikcpParseUna { st.kcp with rmtWnd := seg.wnd } seg.una)
  have first := (receives.congr receiving).push
    ((congrArg IkcpConfig.rcvWnd config).trans window) item inside above below
  have other : seg.cmd ≠ ikcpCmdAck := by
    rw [data]
    decide
  simp only [ikcpInputSeg, if_neg other, if_pos data]
  rw [acks] at first
  exact first

/-- Segments that are not data leave the receiving half alone. -/
theorem receiving_ikcpInputSeg {st : IkcpInput} {seg : IkcpSeg} (other : seg.cmd ≠ ikcpCmdPush) :
    (ikcpInputSeg st seg).kcp.receiving = st.kcp.receiving := by
  have first := (ikcpInputUna_frame st.kcp seg).2
  simp only [ikcpInputSeg, if_neg other]
  split_ifs
  · exact (ikcpInputAck_frame _ seg).2.trans first
  · exact first
  · exact first

/-- They are not acknowledged either. -/
theorem acklist_ikcpInputSeg {st : IkcpInput} {seg : IkcpSeg} (other : seg.cmd ≠ ikcpCmdPush) :
    (ikcpInputSeg st seg).kcp.acklist = st.kcp.acklist := by
  have first := acklist_ikcpShrinkBuf (ikcpParseUna { st.kcp with rmtWnd := seg.wnd } seg.una)
  have rtt : ∀ (kcp : Ikcpcb) (rtt : Int32), (ikcpUpdateAck kcp rtt).acklist = kcp.acklist := by
    intro kcp rtt
    simp only [ikcpUpdateAck]
    split_ifs <;> rfl
  have parse : ∀ kcp : Ikcpcb, (ikcpParseAck kcp seg.sn).acklist = kcp.acklist := by
    intro kcp
    unfold ikcpParseAck
    split_ifs <;> rfl
  simp only [ikcpInputSeg, if_neg other]
  split_ifs
  · simp only [ikcpInputAck]
    rw [acklist_ikcpShrinkBuf, parse]
    split_ifs
    · exact (rtt _ _).trans first
    · exact first
  · exact first
  · exact first

/-- What `ikcp_input` does behind its loop concerns the sending half only. -/
theorem ikcpInput_eq_foldl (kcp : Ikcpcb) (data : List UInt8) :
    let looped := ((ikcpDecodeAll kcp.conv data.length data).1.foldl ikcpInputSeg
      { kcp := kcp, newest := none }).kcp
    (ikcpInput kcp data).2.receiving = looped.receiving ∧
      (ikcpInput kcp data).2.acklist = looped.acklist := by
  have cwnd : ∀ (kcp : Ikcpcb) (prevUna : UInt32),
      (ikcpInputCwnd kcp prevUna).acklist = kcp.acklist := by
    intro kcp prevUna
    simp only [ikcpInputCwnd]
    split_ifs <;> rfl
  have fast : ∀ (kcp : Ikcpcb) (sn ts : UInt32),
      (ikcpParseFastack kcp sn ts).acklist = kcp.acklist := by
    intro kcp sn ts
    unfold ikcpParseFastack
    split_ifs <;> rfl
  constructor
  · apply ikcpInput_eq_loop Ikcpcb.receiving
    · exact fun kcp sn ts => (ikcpParseFastack_frame kcp sn ts).2
    · exact fun kcp prevUna => (ikcpInputCwnd_frame kcp prevUna).2.1
  · exact ikcpInput_eq_loop Ikcpcb.acklist fast cwnd kcp data

/-! ### Taking a message -/

/-- The segments of a message, seen as fragments. -/
theorem map_fragment_ikcpMessage (queue : List IkcpSeg) :
    splitMessage isLast (queue.map IkcpSeg.fragment) =
      ((ikcpMessage queue).1.map IkcpSeg.fragment, (ikcpMessage queue).2.map IkcpSeg.fragment) := by
  have view : (fun seg : IkcpSeg => isLast seg.fragment) = fun seg => decide (seg.frg = 0) := by
    funext seg
    have zero : seg.frg.toNat = 0 ↔ seg.frg = 0 := UInt32.toNat_inj (b := 0)
    simp only [isLast, IkcpSeg.fragment, zero]
  rw [splitMessage_map, view]
  rfl

/-- A queue whose size is known has the whole of its first message. -/
theorem arrived_of_peeksize {queue : List IkcpSeg} {seg : IkcpSeg} (rcv : kcp.rcvQueue = queue)
    (head : queue.head? = some seg) (small : seg.frg.toNat < 128)
    (whole : 0 ≤ ikcpPeeksize kcp) : seg.frg.toNat < queue.length := by
  subst rcv
  cases queue_eq : kcp.rcvQueue with
  | nil => simp [queue_eq] at head
  | cons first rest =>
    obtain rfl : first = seg := by simpa [queue_eq] using head
    -- a message of one segment is there as soon as it is at the head
    by_cases single : first.frg = 0
    · simp [single]
    · by_contra few
      rw [not_lt] at few
      have counted : kcp.nrcvQue < first.frg + 1 := by
        rw [UInt32.lt_iff_toNat_lt, UInt32.toNat_add, Ikcpcb.nrcvQue, UInt32.toNat_ofNat',
          queue_eq]
        have := Nat.mod_le (first :: rest).length (2 ^ 32)
        simp only [UInt32.reduceToNat]
        omega
      simp only [ikcpPeeksize, queue_eq, if_neg single, if_pos counted] at whole
      omega

/-- A queue whose size is known begins with the next message of the peer, and what is
left of it when that has been taken out goes on behind it. -/
private theorem pop {rest : List (List UInt8)} (receives : Receives hist got r held kcp)
    (queued : hist = kcpCutter.stream (got ++ rest))
    (numbered : ∀ fragment ∈ hist, fragment.1 < 128) (some_segment : kcp.rcvQueue ≠ [])
    (complete : 0 ≤ ikcpPeeksize kcp) :
    ∃ xs later, rest = xs :: later ∧ ikcpData (ikcpMessage kcp.rcvQueue).1 = xs ∧
      Receives hist (got ++ [xs]) r held { kcp with rcvQueue := (ikcpMessage kcp.rcvQueue).2 } := by
  obtain ⟨seg, others, queue⟩ := List.exists_cons_of_ne_nil some_segment
  have front : kcp.rcvQueue.map IkcpSeg.fragment <+: kcpCutter.stream rest := by
    have taken := List.take_prefix r hist
    rw [← receives.front, queued, Cutter.stream_append] at taken
    exact (List.prefix_append_right_inj _).mp taken
  -- the first fragment says how many follow, and fits the counter of the queue
  have small : seg.frg.toNat < 128 := by
    refine numbered seg.fragment ?_
    rw [queued, Cutter.stream_append]
    refine List.mem_append_right _ (front.subset (List.mem_map_of_mem ?_))
    rw [queue]
    exact List.mem_cons_self
  have head : (kcp.rcvQueue.map IkcpSeg.fragment).head? = some seg.fragment := by
    rw [queue]
    rfl
  have whole := arrived_of_peeksize rfl (by rw [queue]; rfl) small complete
  obtain ⟨xs, later, rfl, message, -⟩ :=
    kcpCutter.splitMessage_queue front head (by rwa [List.length_map])
  have data : ikcpData (ikcpMessage kcp.rcvQueue).1 = xs := by
    rw [map_fragment_ikcpMessage] at message
    rw [ikcpData_eq_joined, show List.map _ _ = _ from message, kcpCutter.joined_fragments]
  refine ⟨xs, later, rfl, data, ?_⟩
  exact
    { nxt := receives.nxt
      inside := receives.inside
      front := by
        have split := splitMessage_append isLast (kcp.rcvQueue.map IkcpSeg.fragment)
        rw [message, map_fragment_ikcpMessage] at split
        rw [Cutter.stream_append, Cutter.stream_singleton, List.append_assoc, split,
          receives.front]
      buf := receives.buf
      sorted := receives.sorted
      window := receives.window }

/-- `ikcp_recv` hands out the next message of the peer, whole, or nothing. -/
theorem recv {accepted : List (List UInt8)} (receives : Receives hist got r held kcp)
    (queued : hist = kcpCutter.stream accepted) (taken : got <+: accepted)
    (numbered : ∀ fragment ∈ hist, fragment.1 < 128) {len : ℤ} (room : 0 ≤ len) :
    ((ikcpRecv kcp len).1 < 0 ∧ (ikcpRecv kcp len).2.2 = kcp) ∨
      ∃ xs r' held', got ++ [xs] <+: accepted ∧ (ikcpRecv kcp len).1 = xs.length ∧
        (ikcpRecv kcp len).2.1 = xs ∧
        Receives hist (got ++ [xs]) r' held' (ikcpRecv kcp len).2.2 ∧ r ≤ r' ∧
        ∀ i, Arrived r' held' i ↔ Arrived r held i := by
  obtain ⟨rest, rfl⟩ := taken
  unfold ikcpRecv
  -- the three refusals of `ikcp_recv` come before anything is changed
  by_cases empty : kcp.rcvQueue = []
  · rw [if_pos empty]
    exact .inl ⟨show (-1 : ℤ) < 0 by decide, rfl⟩
  rw [if_neg empty, if_neg (not_lt.mpr room)]
  by_cases incomplete : ikcpPeeksize kcp < 0
  · simp only [if_pos incomplete]
    exact .inl ⟨show (-2 : ℤ) < 0 by decide, trivial⟩
  by_cases long : len < ikcpPeeksize kcp
  · simp only [if_neg incomplete, if_pos long]
    exact .inl ⟨show (-3 : ℤ) < 0 by decide, trivial⟩
  simp only [if_neg incomplete, if_neg long, not_lt.mpr room, decide_false, Bool.false_eq_true,
    if_false]
  obtain ⟨xs, later, rfl, data, popped⟩ :=
    receives.pop queued numbered empty (not_lt.mp incomplete)
  -- the room that the message leaves is filled from the buffer
  obtain ⟨k, moved, arrived⟩ := popped.move
  refine .inr ⟨xs, r + k, held.drop k, ?_, by rw [data], data, ?_, Nat.le_add_right r k, arrived⟩
  · exact ⟨later, by simp⟩
  · refine moved.congr ?_
    split_ifs <;> rfl

/-! ### Input of a datagram -/

/-- A datagram that holds only fragments of the peer keeps the invariant, as long
as no number comes near half the range. -/
theorem input (receives : Receives hist got r held kcp) (window : kcp.rcvWnd = 128)
    (few : hist.length < 2 ^ 31) {data : List UInt8}
    (genuine : ∀ seg ∈ (ikcpDecodeAll kcp.conv data.length data).1, seg.cmd = ikcpCmdPush →
      ∃ i < hist.length, seg.item = fragmentItem hist i) :
    ∃ r' held', Receives hist got r' held' (ikcpInput kcp data).2 := by
  -- on the segments of the datagram: those that are not data leave the receiver alone
  have loop : ∀ (segs : List IkcpSeg) (st : IkcpInput) (r : ℕ) (held : List ℕ),
      (∀ seg ∈ segs, seg.cmd = ikcpCmdPush → ∃ i < hist.length, seg.item = fragmentItem hist i) →
      st.kcp.rcvWnd = 128 → Receives hist got r held st.kcp →
      ∃ r' held', Receives hist got r' held' (segs.foldl ikcpInputSeg st).kcp := by
    intro segs
    induction segs with
    | nil => exact fun st r held _ _ receives => ⟨r, held, receives⟩
    | cons seg rest ih =>
      intro st r held each window receives
      have same : (ikcpInputSeg st seg).kcp.rcvWnd = 128 :=
        (congrArg IkcpConfig.rcvWnd (ikcpInputSeg_config st seg)).trans window
      have later := fun other member => each other (List.mem_cons_of_mem seg member)
      by_cases data : seg.cmd = ikcpCmdPush
      · obtain ⟨i, inside, item⟩ := each seg List.mem_cons_self data
        have bound := receives.inside
        obtain ⟨r', held', receives', -⟩ := receives.inputPush window data item inside (by omega)
          (by omega)
        exact ih _ r' held' later same receives'
      · exact ih _ r held later same (receives.congr (receiving_ikcpInputSeg data))
  obtain ⟨r', held', decoded⟩ :=
    loop _ { kcp := kcp, newest := none } r held genuine window receives
  exact ⟨r', held', decoded.congr (ikcpInput_eq_foldl kcp data).1⟩

end Receives

/-! ## The front of the receive queue -/

/-- What becomes available goes to the end of the queue. -/
private theorem ikcpMoveLoop_front (wnd nxt : UInt32) (buf queue : List IkcpSeg) :
    queue <+: (ikcpMoveLoop wnd buf queue nxt).2.1 := by
  induction buf generalizing queue nxt with
  | nil => exact List.prefix_rfl
  | cons seg rest ih =>
    rw [ikcpMoveLoop]
    split_ifs
    · exact (List.prefix_append queue [seg]).trans (ih _ _)
    · exact List.prefix_rfl

theorem rcvQueue_ikcpMove (kcp : Ikcpcb) : kcp.rcvQueue <+: (ikcpMove kcp).rcvQueue :=
  ikcpMoveLoop_front kcp.rcvWnd kcp.rcvNxt kcp.rcvBuf kcp.rcvQueue

theorem rcvQueue_ikcpParseData (kcp : Ikcpcb) (seg : IkcpSeg) :
    kcp.rcvQueue <+: (ikcpParseData kcp seg).rcvQueue := by
  rw [ikcpParseData]
  split_ifs
  · exact List.prefix_rfl
  · exact rcvQueue_ikcpMove { kcp with rcvBuf := (ikcpInsert seg kcp.rcvBuf.reverse).reverse }

/-- Nothing that arrives changes what is in the queue already. -/
theorem rcvQueue_ikcpInputSeg (st : IkcpInput) (seg : IkcpSeg) :
    st.kcp.rcvQueue <+: (ikcpInputSeg st seg).kcp.rcvQueue := by
  by_cases push : seg.cmd = ikcpCmdPush
  · have first := (ikcpInputUna_frame st.kcp seg).2
    have data : ∀ kcp : Ikcpcb, kcp.rcvQueue <+: (ikcpInputPush kcp seg).rcvQueue := by
      intro kcp
      simp only [ikcpInputPush]
      split_ifs
      · exact rcvQueue_ikcpParseData (ikcpAckPush kcp seg.sn seg.ts) seg
      · exact List.prefix_rfl
      · exact List.prefix_rfl
    have other : seg.cmd ≠ ikcpCmdAck := by
      rw [push]
      decide
    simp only [ikcpInputSeg, if_neg other, if_pos push]
    generalize ikcpShrinkBuf (ikcpParseUna { st.kcp with rmtWnd := seg.wnd } seg.una) = read
      at first ⊢
    have queue : read.rcvQueue = st.kcp.rcvQueue := congrArg (fun half => half.2.1) first
    exact queue ▸ data read
  · have same : (ikcpInputSeg st seg).kcp.rcvQueue = st.kcp.rcvQueue :=
      congrArg (fun half => half.2.1) (Receives.receiving_ikcpInputSeg push)
    rw [same]

theorem rcvQueue_ikcpInput (kcp : Ikcpcb) (data : List UInt8) :
    kcp.rcvQueue <+: (ikcpInput kcp data).2.rcvQueue := by
  have loop : ∀ (segs : List IkcpSeg) (st : IkcpInput),
      st.kcp.rcvQueue <+: (segs.foldl ikcpInputSeg st).kcp.rcvQueue := by
    intro segs
    induction segs with
    | nil => exact fun st => List.prefix_rfl
    | cons seg rest ih => exact fun st => (rcvQueue_ikcpInputSeg st seg).trans (ih _)
  have same : (ikcpInput kcp data).2.rcvQueue = _ :=
    congrArg (fun half => half.2.1) (Receives.ikcpInput_eq_foldl kcp data).1
  rw [same]
  exact loop _ { kcp := kcp, newest := none }

section Front

variable {kcp : Ikcpcb} {queue rest : List IkcpSeg} {buf : List UInt8}

/-- A queue that begins with the fragments of a message has that message at its head. -/
theorem ikcpMessage_append (cut : queue.map IkcpSeg.fragment = kcpCutter.fragments buf)
    (rest : List IkcpSeg) : ikcpMessage (queue ++ rest) = (queue, rest) := by
  have view := Receives.map_fragment_ikcpMessage (queue ++ rest)
  rw [List.map_append, cut, Cutter.fragments, splitMessage_cut (kcpCutter.positive buf),
    ← Cutter.fragments, ← cut] at view
  have length := congrArg List.length (Prod.mk.inj view).1
  rw [List.length_map, List.length_map] at length
  have whole : (ikcpMessage (queue ++ rest)).1 ++ (ikcpMessage (queue ++ rest)).2 = queue ++ rest :=
    splitMessage_append _ _
  obtain ⟨message, behind⟩ := List.append_inj whole length.symm
  exact Prod.ext message behind

/-- Its size is known. -/
theorem ikcpPeeksize_append (front : kcp.rcvQueue = queue ++ rest)
    (few : kcp.rcvQueue.length < 2 ^ 32)
    (cut : queue.map IkcpSeg.fragment = kcpCutter.fragments buf) :
    ikcpPeeksize kcp = buf.length := by
  have data : ikcpData (ikcpMessage kcp.rcvQueue).1 = buf := by
    rw [front, ikcpMessage_append cut, ikcpData_eq_joined, cut, kcpCutter.joined_fragments]
  have known : 0 ≤ ikcpPeeksize kcp := by
    obtain ⟨k, count⟩ := Nat.exists_eq_succ_of_ne_zero (kcpCutter.positive buf).ne'
    have start : kcpCutter.fragments buf = (k, buf.take kcpCutter.size) ::
        Lib.cut kcpCutter.size k (buf.drop kcpCutter.size) := by
      rw [Cutter.fragments, count, Lib.cut]
    have length := congrArg List.length cut
    rw [start, List.length_map, List.length_cons, length_cut] at length
    rw [start] at cut
    obtain ⟨seg, others, rfl, first, -⟩ := List.map_eq_cons_iff.mp cut
    have number : seg.frg.toNat = k := congrArg Prod.fst first
    -- the first fragment says how many follow it, and they are all there
    rw [front, List.cons_append] at few
    simp only [ikcpPeeksize, front, List.cons_append]
    split_ifs with single counted
    · exact Int.natCast_nonneg _
    · rw [UInt32.lt_iff_toNat_lt, UInt32.toNat_add, Ikcpcb.nrcvQue, front, UInt32.toNat_ofNat',
        number] at counted
      simp only [UInt32.reduceToNat, List.cons_append, List.length_cons, List.length_append]
        at counted few length
      omega
    · exact Int.natCast_nonneg _
  rw [ikcpPeeksize_eq known, data]

/-- `ikcp_recv` hands it out to a buffer that takes it, and keeps what is behind it. -/
theorem ikcpRecv_append (front : kcp.rcvQueue = queue ++ rest)
    (few : kcp.rcvQueue.length < 2 ^ 32)
    (cut : queue.map IkcpSeg.fragment = kcpCutter.fragments buf) {len : ℤ}
    (fits : (buf.length : ℤ) ≤ len) :
    (ikcpRecv kcp len).1 = buf.length ∧ (ikcpRecv kcp len).2.1 = buf ∧
      rest <+: (ikcpRecv kcp len).2.2.rcvQueue := by
  have size := ikcpPeeksize_append front few cut
  have room : 0 ≤ len := (Int.natCast_nonneg _).trans fits
  have some_segment : kcp.rcvQueue ≠ [] := by
    intro empty
    have none : ikcpPeeksize kcp = -1 := by simp [ikcpPeeksize, empty]
    omega
  have message : ikcpMessage kcp.rcvQueue = (queue, rest) := front ▸ ikcpMessage_append cut rest
  have data : ikcpData queue = buf := by
    rw [ikcpData_eq_joined, cut, kcpCutter.joined_fragments]
  have moved := rcvQueue_ikcpMove { kcp with rcvQueue := rest }
  simp only [ikcpRecv, if_neg some_segment, size, if_neg (Int.natCast_nonneg _).not_gt,
    not_lt.mpr room, decide_false, Bool.false_eq_true, if_false, if_neg fits.not_gt, message, data,
    true_and]
  split_ifs <;> exact moved

end Front

end OmniSocket
