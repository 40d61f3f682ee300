/-
# The retransmission metric

`kcp_update_loop` passes `logger_on_kcp_retrans` what `kcp->xmit` has grown by, for
`kcp_retrans` to be the number of retransmissions. A transmission is a data segment in
a datagram, told apart by how many segments were given a number before it, and a
retransmission is one of a segment that was transmitted before. The metric is right in
those runs in which every retransmission is a timeout and the counter does not wrap.
-/

import OmniSocket.KcpDatagrams
import OmniSocket.Ikcp.Retransmit
import Mathlib.Data.List.Dedup
import Mathlib.Data.List.Perm.Subperm

set_option autoImplicit false

namespace OmniSocket

open Lib

/-! ## Data segments in datagrams -/

/-- The numbers of the data segments in some datagrams, as a peer parses them. -/
def dataNumbers (conv : UInt32) (datagrams : List (List UInt8)) : List UInt32 :=
  datagrams.flatMap fun bytes =>
    ((ikcpDecodeAll conv bytes.length bytes).1.filter fun seg => seg.cmd = ikcpCmdPush).map
      IkcpSeg.sn

/-- Packing changes nothing about them. -/
theorem dataNumbers_parts {conv : UInt32} {parts : List (List IkcpSeg)}
    (wellFormed : ∀ seg ∈ parts.flatten, seg.WellFormed conv) :
    dataNumbers conv (parts.map ikcpDatagram) =
      (parts.flatten.filter fun seg => seg.cmd = ikcpCmdPush).map IkcpSeg.sn := by
  induction parts with
  | nil => rfl
  | cons part rest ih =>
    rw [List.flatten_cons] at wellFormed
    have first : ∀ seg ∈ part, seg.WellFormed conv :=
      fun seg member => wellFormed seg (List.mem_append_left _ member)
    have later := ih fun seg member => wellFormed seg (List.mem_append_right _ member)
    have decoded := ikcpDecodeAll_datagram first (length_le_length_ikcpDatagram part)
    have commands : (part.filter ((fun seg => decide (seg.cmd = ikcpCmdPush)) ∘ IkcpSeg.onWire)) =
        part.filter fun seg => seg.cmd = ikcpCmdPush := by
      refine List.filter_congr fun seg member => ?_
      rw [Function.comp_apply, IkcpSeg.cmd_onWire (first seg member).2.1]
    rw [dataNumbers] at later ⊢
    rw [List.map_cons, List.flatMap_cons, later, decoded, List.filter_map, commands, List.map_map,
      List.flatten_cons, List.filter_append, List.map_append]
    rfl

section Flush

variable {conv : UInt32} {hist : List (Fragment UInt8)} {n : ℕ} {flying : List ℕ} {kcp : Ikcpcb}

/-- The data segments of a flush are those of the send buffer that are due. -/
theorem Sends.filter_ikcpFlushSegs (filled : Sends conv hist n flying (ikcpFlushFilled kcp))
    (last : UInt32 × UInt32) :
    ((ikcpFlushSegs kcp last).filter fun seg => seg.cmd = ikcpCmdPush) =
      ikcpDueSegs (ikcpFlushFilled kcp) (ikcpWndUnused kcp) (ikcpFlushFilled kcp).sndBuf := by
  -- a flush writes acknowledgments, window probes and data, in this order
  have acks : ((kcp.acklist.map (ikcpAckSeg (ikcpFlushSeg kcp))).filter fun seg =>
      seg.cmd = ikcpCmdPush) = [] := by
    refine List.filter_eq_nil_iff.mpr fun seg member => ?_
    obtain ⟨entry, -, rfl⟩ := List.mem_map.mp member
    exact show ¬ decide (ikcpCmdAck = ikcpCmdPush) = true by decide
  have windows : ((ikcpWindowSegs (ikcpFlushProbe { kcp with acklist := [] })
      (ikcpAckSeg (ikcpFlushSeg kcp) last)).filter fun seg => seg.cmd = ikcpCmdPush) = [] := by
    have ask : ¬ ikcpCmdWask = ikcpCmdPush := by decide
    have tell : ¬ ikcpCmdWins = ikcpCmdPush := by decide
    rw [ikcpWindowSegs]
    split_ifs <;> simp [ask, tell]
  have data : ((ikcpDueSegs (ikcpFlushFilled kcp) (ikcpWndUnused kcp)
      (ikcpFlushFilled kcp).sndBuf).filter fun seg => seg.cmd = ikcpCmdPush) =
      ikcpDueSegs (ikcpFlushFilled kcp) (ikcpWndUnused kcp) (ikcpFlushFilled kcp).sndBuf := by
    refine List.filter_eq_self.mpr fun seg member => ?_
    obtain ⟨key, -⟩ := mem_ikcpDueSegs member
    rw [filled.buf] at key
    obtain ⟨i, -, same⟩ := List.mem_map.mp key
    exact decide_eq_true (congrArg (fun key => key.2.1) same).symm
  rw [ikcpFlushSegs, List.filter_append, List.filter_append, acks, windows, data]
  rfl

/-- Some of the segments in flight are some of the numbers in flight. -/
theorem exists_numbers (p : IkcpSeg → Bool) {buf : List IkcpSeg} {flying : List ℕ}
    (numbers : buf.map IkcpSeg.sn = flying.map UInt32.ofNat) :
    ∃ some : List ℕ, some.Sublist flying ∧
      (buf.filter p).map IkcpSeg.sn = some.map UInt32.ofNat ∧ some.length = buf.countP p := by
  -- on the buffer, which runs along with the numbers
  induction buf generalizing flying with
  | nil => exact ⟨[], List.nil_sublist flying, rfl, rfl⟩
  | cons seg rest ih =>
    obtain ⟨i, later, rfl, number, same⟩ := List.map_eq_cons_iff.mp numbers.symm
    obtain ⟨some, sub, filtered, length⟩ := ih same.symm
    cases chosen : p seg with
    | false =>
      refine ⟨some, sub.cons i, ?_, ?_⟩
      · rw [List.filter_cons_of_neg (by simp [chosen]), filtered]
      · rw [List.countP_cons_of_neg (by simp [chosen]), length]
    | true =>
      refine ⟨i :: some, sub.cons_cons i, ?_, ?_⟩
      · rw [List.filter_cons_of_pos chosen, List.map_cons, List.map_cons, filtered, number]
      · rw [List.countP_cons_of_pos chosen, List.length_cons, length]

theorem Sends.map_sn (sends : Sends conv hist n flying kcp) :
    kcp.sndBuf.map IkcpSeg.sn = flying.map UInt32.ofNat := by
  have numbers := congrArg (List.map fun key => key.2.2.1) sends.buf
  rw [List.map_map, List.map_map] at numbers
  exact numbers

/-- A flush transmits the segments that are due once more, and behind them the next
ones for the first time. -/
theorem Sends.flush_transmits (sends : Sends conv hist n flying kcp)
    (configured : kcp.config = kcpConfig conv) (fragments : KcpFragments hist)
    (updated : kcp.updated ≠ 0) :
    ∃ k again, Sends conv hist (n + k) (flying ++ List.range' n k) (ikcpFlush kcp).2 ∧
      again.Sublist flying ∧ again.length = kcp.sndBuf.countP (isDue kcp) ∧
      dataNumbers conv (ikcpFlush kcp).1 = (again ++ List.range' n k).map UInt32.ofNat := by
  obtain ⟨k, filled⟩ := sends.filled configured
  obtain ⟨last, parts, sent, segs, -⟩ := filled.packs updated configured fragments
  have same : kcp.conv = conv := congrArg IkcpConfig.conv configured
  obtain ⟨fresh, buf, untouched⟩ := sndBuf_ikcpFlushFilled kcp
  obtain ⟨again, sub, due, length⟩ := exists_numbers (isDue kcp) sends.map_sn
  refine ⟨k, again, filled.afterLoop updated, sub, length, ?_⟩
  have wellFormed : ∀ seg ∈ parts.flatten, seg.WellFormed conv := fun seg member =>
    ((filled.written same (segs ▸ member)).genuine filled).wellFormed fragments
  have first : fresh.map IkcpSeg.sn = (List.range' n k).map UInt32.ofNat := by
    have numbers := filled.map_sn
    rw [buf, List.map_append, List.map_append, sends.map_sn] at numbers
    exact List.append_cancel_left numbers
  -- everything that is new in the buffer is due
  have all : fresh.filter (isDue kcp) = fresh := by
    refine List.filter_eq_self.mpr fun segment member => ?_
    rw [isDue, ikcpSendReason_of_fresh kcp (untouched segment member)]
    rfl
  -- filling the buffer changes neither the clock nor the old segments
  have rule : isDue (ikcpFlushFilled kcp) = isDue kcp := by
    funext segment
    rw [isDue, isDue, ikcpSendReason_ikcpFlushFilled]
  rw [sent, dataNumbers_parts wellFormed, segs, filled.filter_ikcpFlushSegs, map_sn_ikcpDueSegs,
    rule, buf, List.filter_append, all, List.map_append, due, first, List.map_append]

/-- What is in flight lies within 128 of the next number. -/
theorem Sends.near (sends : Sends conv hist n flying kcp) {i : ℕ} (flies : i ∈ flying) :
    i < n ∧ n ≤ i + 128 := by
  have low := sends.headD_le.2 i flies
  have window := sends.window
  exact ⟨sends.below i flies, by omega⟩

/-- There are no more than 128 of them. -/
theorem Sends.length_le (sends : Sends conv hist n flying kcp) : flying.length ≤ 128 := by
  have once : flying.Nodup := sends.sorted.imp ne_of_lt
  -- distinct numbers between the oldest one and the next
  have inside : flying ⊆ List.range' (flying.headD n) (n - flying.headD n) := by
    intro i flies
    have low := sends.headD_le.2 i flies
    have below := sends.below i flies
    exact List.mem_range'_1.mpr ⟨low, by omega⟩
  have few := (once.subperm inside).length_le
  rw [List.length_range'] at few
  have window := sends.window
  omega

/-! ## One `ikcp_update` -/

/-- If `ikcp_update` flushes at this clock reading, then of the segments in flight it
transmits only those again that have timed out, and `kcp->xmit` has room for them. -/
def Ikcpcb.Countable (kcp : Ikcpcb) (current : UInt32) : Prop :=
  (ikcpUpdateTimer kcp current).1 = true →
    (∀ segment ∈ kcp.sndBuf, ikcpSendReason (kcp.atClock current) segment = none ∨
      ikcpSendReason (kcp.atClock current) segment = some .timeout) ∧
    kcp.xmit.toNat + kcp.sndBuf.countP (timesOut (kcp.atClock current)) < 2 ^ 32

/-- As many are due as have timed out exactly if there is no other reason. -/
theorem countP_isDue_eq_iff (kcp : Ikcpcb) (buf : List IkcpSeg) :
    buf.countP (isDue kcp) = buf.countP (timesOut kcp) ↔
      ∀ segment ∈ buf, ikcpSendReason kcp segment = none ∨
        ikcpSendReason kcp segment = some .timeout := by
  constructor
  · intro same segment member
    have sub : (buf.filter (timesOut kcp)).Sublist (buf.filter (isDue kcp)) :=
      List.monotone_filter_right buf fun _ => isDue_of_timesOut
    -- the timeouts are a sublist of what is due, and as long
    have equal := sub.eq_of_length (by
      rw [← List.countP_eq_length_filter, ← List.countP_eq_length_filter, same])
    cases reason : ikcpSendReason kcp segment with
    | none => exact .inl rfl
    | some why =>
      have due : segment ∈ buf.filter (isDue kcp) :=
        List.mem_filter.mpr ⟨member, by rw [isDue, reason]; rfl⟩
      rw [← equal] at due
      exact .inr (reason ▸ of_decide_eq_true (List.mem_filter.mp due).2)
  · intro reasons
    refine List.countP_congr fun segment member => ?_
    rcases reasons segment member with none | out
    · simp [isDue, timesOut, none]
    · simp [isDue, timesOut, out]

/-- An update transmits some segments once more, counts no more than these, and counts
all of them exactly if it is countable. -/
theorem Sends.update_transmits (sends : Sends conv hist n flying kcp)
    (configured : kcp.config = kcpConfig conv) (fragments : KcpFragments hist)
    (current : UInt32) :
    ∃ k again timeouts,
      Sends conv hist (n + k) (flying ++ List.range' n k) (ikcpUpdate kcp current).2 ∧
      again.Sublist flying ∧
      dataNumbers conv (ikcpUpdate kcp current).1 = (again ++ List.range' n k).map UInt32.ofNat ∧
      (ikcpUpdate kcp current).2.xmit = kcp.xmit + UInt32.ofNat timeouts ∧
      timeouts ≤ again.length ∧
      (again.length = timeouts ∧ kcp.xmit.toNat + timeouts < 2 ^ 32 ↔ kcp.Countable current) := by
  obtain ⟨config, -, sending⟩ := ikcpUpdateTimer_frame kcp current
  have xmit : (ikcpUpdateTimer kcp current).2.xmit = kcp.xmit :=
    congrArg Prod.fst (tally_ikcpUpdateTimer kcp current)
  have clock := current_ikcpUpdateTimer kcp current
  have updated := updated_ikcpUpdateTimer kcp current
  unfold ikcpUpdate Ikcpcb.Countable
  generalize ikcpUpdateTimer kcp current = timed at config sending xmit clock updated ⊢
  obtain ⟨due, timed⟩ := timed
  have ready : Sends conv hist n flying timed := sends.congr sending
  have buf : timed.sndBuf = kcp.sndBuf := congrArg (fun half => half.2.2.2) sending
  have rule : ikcpSendReason timed = ikcpSendReason (kcp.atClock current) :=
    ikcpSendReason_congr clock config
  -- between two flushes nothing is written and nothing counted
  cases due with
  | false =>
    refine ⟨0, [], 0, by simpa using ready, List.nil_sublist flying, rfl, by simpa using xmit,
      Nat.le_refl 0, ?_⟩
    have small := kcp.xmit.toNat_lt
    simpa using small
  | true =>
    obtain ⟨k, again, flushed, sub, length, numbers⟩ :=
      ready.flush_transmits (config.trans configured) fragments updated
    have isDue_eq : isDue timed = isDue (kcp.atClock current) := by
      funext segment
      rw [isDue, isDue, rule]
    have timesOut_eq : timesOut timed = timesOut (kcp.atClock current) := by
      funext segment
      rw [timesOut, timesOut, rule]
    rw [buf, isDue_eq] at length
    refine ⟨k, again, kcp.sndBuf.countP (timesOut (kcp.atClock current)), flushed, sub, numbers,
      ?_, ?_, ?_⟩
    · rw [xmit_ikcpFlush updated, xmit, buf, timesOut_eq]
    · rw [length]
      exact List.countP_mono_left fun segment _ => isDue_of_timesOut
    · rw [length, countP_isDue_eq_iff]
      exact ⟨fun both _ => both, fun both => both rfl⟩

end Flush

/-! ## Metering an endpoint -/

/-- An endpoint with what has been reported of it and what it has transmitted. The last
two fields are not part of the program. -/
structure KcpMeter where
  ctx : KcpContext
  /-- The sum of what was passed to `logger_on_kcp_retrans`. -/
  reported : ℕ
  /-- How many segments have been given a number. -/
  numbered : ℕ
  /-- The data segments handed to `kcp_output`, each as the count of the segments that
  were given a number before it. -/
  transmissions : List ℕ
  deriving DecidableEq, Repr

/-- The segment that last got the number `sn`, when `numbered` segments have got one and
`sndNxt` is the next. -/
def placeOf (numbered : ℕ) (sndNxt sn : UInt32) : ℕ := numbered - (sndNxt - sn).toNat

namespace KcpMeter

/-- A fresh endpoint. -/
def start (ctx : KcpContext) : KcpMeter where
  ctx := ctx
  reported := 0
  numbered := 0
  transmissions := []

/-- Metering a call that had these effects and led to `ctx`. -/
def account (m : KcpMeter) (effects : KcpEffects) (ctx : KcpContext) : KcpMeter :=
  let numbered := m.numbered + (ctx.kcp.sndNxt - m.ctx.kcp.sndNxt).toNat
  { ctx := ctx
    reported := m.reported + (effects.retrans.map UInt64.toNat).getD 0
    numbered := numbered
    transmissions := m.transmissions ++
      (dataNumbers m.ctx.kcp.conv (effects.sent.map Outgoing.bytes)).map
        (placeOf numbered ctx.kcp.sndNxt) }

/-- One call. -/
def call (m : KcpMeter) (c : KcpCall) : KcpMeter :=
  m.account (kcpCall m.ctx c).1.effects (kcpCall m.ctx c).2

/-- A metered endpoint, stepped by its calls. -/
def machine : Machine KcpMeter KcpCall where
  step m c := some (m.call c)

/-- How often a segment was transmitted beyond its first time. -/
def retransmissions (m : KcpMeter) : ℕ := m.transmissions.length - m.transmissions.dedup.length

/-- The metric is right. -/
def Exact (m : KcpMeter) : Prop := m.reported = m.retransmissions

instance (m : KcpMeter) : Decidable m.Exact := inferInstanceAs (Decidable (_ = _))

/-- A call whose `kcp_update_loop`, if it comes to that, counts what it transmits. -/
def Counts (m : KcpMeter) : KcpCall → Prop
  | .send buf now _ =>
    0 ≤ intOfSize buf.length ∧ intOfSize buf.length ≤ kcpMaxMessage →
      m.ctx.kcp.Countable now.toUInt32
  | .recv _ now _ => m.ctx.kcp.Countable now.toUInt32

/-- The endpoint is in order, has transmitted each segment that has a number, and has
not reported too much. -/
structure Metered (conv : UInt32) (m : KcpMeter) : Prop where
  sending : ∃ hist flying, m.ctx.Configured conv ∧ Sends conv hist m.numbered flying m.ctx.kcp ∧
    KcpFragments hist
  counter : m.ctx.lastXmit = m.ctx.kcp.xmit
  transmitted : ∀ i, i ∈ m.transmissions ↔ i < m.numbered
  modest : m.reported ≤ m.retransmissions

variable {conv : UInt32} {m m' : KcpMeter}

/-- Each segment that has a number was transmitted a first time. -/
theorem length_dedup {transmissions : List ℕ} {numbered : ℕ}
    (transmitted : ∀ i, i ∈ transmissions ↔ i < numbered) :
    transmissions.dedup.length = numbered := by
  have perm : transmissions.dedup.Perm (List.range numbered) := by
    refine (List.perm_ext_iff_of_nodup (List.nodup_dedup _) List.nodup_range).mpr fun i => ?_
    rw [List.mem_dedup, transmitted, List.mem_range]
  rw [perm.length_eq, List.length_range]

/-- Segments transmitted once more, and behind them the next ones for the first time. -/
theorem retransmissions_append {transmissions again : List ℕ} {n k : ℕ}
    (transmitted : ∀ i, i ∈ transmissions ↔ i < n) (old : ∀ i ∈ again, i < n) :
    (∀ i, i ∈ transmissions ++ (again ++ List.range' n k) ↔ i < n + k) ∧
      (transmissions ++ (again ++ List.range' n k)).length -
          (transmissions ++ (again ++ List.range' n k)).dedup.length =
        transmissions.length - transmissions.dedup.length + again.length := by
  have later : ∀ i, i ∈ transmissions ++ (again ++ List.range' n k) ↔ i < n + k := by
    intro i
    rw [List.mem_append, List.mem_append, transmitted, List.mem_range'_1]
    constructor
    · rintro (first | more | next)
      · omega
      · have := old i more
        omega
      · exact next.2
    · intro below
      rcases lt_or_ge i n with first | next
      · exact .inl first
      · exact .inr (.inr ⟨next, below⟩)
  refine ⟨later, ?_⟩
  -- each number below `n` was transmitted at least once
  have enough : n ≤ transmissions.length := by
    rw [← length_dedup transmitted]
    exact (List.dedup_sublist transmissions).length_le
  rw [length_dedup later, length_dedup transmitted, List.length_append, List.length_append,
    List.length_range']
  omega

/-- What the difference of the counter reports, when it has grown by `timeouts`. After
a wrap nothing is reported. -/
theorem reported_difference (xmit : UInt32) {timeouts : ℕ} (few : timeouts ≤ 128) :
    ((if xmit ≤ xmit + UInt32.ofNat timeouts then
        some (xmit + UInt32.ofNat timeouts - xmit).toUInt64 else none).map UInt64.toNat).getD 0 =
      if xmit.toNat + timeouts < 2 ^ 32 then timeouts else 0 := by
  have low := xmit.toNat_lt
  have sum : (xmit + UInt32.ofNat timeouts).toNat = (xmit.toNat + timeouts) % 2 ^ 32 := by
    rw [UInt32.toNat_add, UInt32.toNat_ofNat', Nat.add_mod_mod]
  -- the C code compares the counters before it subtracts them, so a wrap is seen
  by_cases room : xmit.toNat + timeouts < 2 ^ 32
  · rw [Nat.mod_eq_of_lt room] at sum
    have grown : xmit ≤ xmit + UInt32.ofNat timeouts := by
      rw [UInt32.le_iff_toNat_le, sum]
      exact Nat.le_add_right _ _
    rw [if_pos grown, if_pos room, Option.map_some, Option.getD_some, UInt32.toNat_toUInt64,
      UInt32.toNat_sub_of_le _ _ grown, sum]
    omega
  · have wrapped : ¬ xmit ≤ xmit + UInt32.ofNat timeouts := by
      rw [UInt32.le_iff_toNat_le, sum]
      omega
    rw [if_neg wrapped, if_neg room]
    rfl

/-- Reading a datagram counts nothing and leaves `last_xmit` alone. -/
theorem xmit_kcpReceive (ctx : KcpContext) (incoming : Option Datagram) :
    (kcpReceive ctx incoming).kcp.xmit = ctx.kcp.xmit ∧
      (kcpReceive ctx incoming).lastXmit = ctx.lastXmit := by
  cases incoming with
  | none => exact ⟨rfl, rfl⟩
  | some d =>
    rw [kcpReceive]
    split
    · exact ⟨congrArg Prod.fst (tally_ikcpInput _ _), rfl⟩
    · exact ⟨rfl, rfl⟩

/-- So a `kcp_update_loop` reports what `ikcp_update` has counted. -/
theorem retrans_kcpUpdateLoop (ctx : KcpContext) (now : UInt64) (incoming : Option Datagram) :
    (kcpUpdateLoop ctx now incoming).1.retrans =
      if ctx.lastXmit ≤ (ikcpUpdate ctx.kcp now.toUInt32).2.xmit then
        some ((ikcpUpdate ctx.kcp now.toUInt32).2.xmit - ctx.lastXmit).toUInt64 else none := by
  obtain ⟨xmit, lastXmit⟩ :=
    xmit_kcpReceive { ctx with kcp := (ikcpUpdate ctx.kcp now.toUInt32).2 } incoming
  simp only [kcpUpdateLoop, xmit, lastXmit]

/-- A number in flight leads back to its segment. -/
theorem map_placeOf {hist : List (Fragment UInt8)} {n : ℕ} {flying numbers : List ℕ}
    {kcp : Ikcpcb} (sends : Sends conv hist n flying kcp) (sub : numbers ⊆ flying) :
    (numbers.map UInt32.ofNat).map (placeOf n (UInt32.ofNat n)) = numbers := by
  rw [List.map_map]
  refine (List.map_congr_left fun i member => ?_).trans (List.map_id numbers)
  -- 128 numbers are far from enough to come round modulo 2^32
  have near := sends.near (sub member)
  rw [Function.comp_apply, placeOf, toNat_ofNat_sub near.1.le (by omega), id]
  omega

/-- Metering a call that transmitted the segments `again` once more and the next `k`
for the first time, and whose counter grew by `timeouts`. -/
theorem Metered.account_spec (metered : m.Metered conv) {effects : KcpEffects} {ctx : KcpContext}
    {k timeouts : ℕ} {again : List ℕ}
    (grown : (ctx.kcp.sndNxt - m.ctx.kcp.sndNxt).toNat = k)
    (places : (dataNumbers m.ctx.kcp.conv (effects.sent.map Outgoing.bytes)).map
      (placeOf (m.numbered + k) ctx.kcp.sndNxt) = again ++ List.range' m.numbered k)
    (old : ∀ i ∈ again, i < m.numbered) (counted : timeouts ≤ again.length)
    (delta : (effects.retrans.map UInt64.toNat).getD 0 =
      if m.ctx.kcp.xmit.toNat + timeouts < 2 ^ 32 then timeouts else 0) :
    (m.account effects ctx).numbered = m.numbered + k ∧
      (∀ i, i ∈ (m.account effects ctx).transmissions ↔ i < m.numbered + k) ∧
      (m.account effects ctx).reported ≤ (m.account effects ctx).retransmissions ∧
      ((m.account effects ctx).Exact ↔
        m.Exact ∧ again.length = timeouts ∧ m.ctx.kcp.xmit.toNat + timeouts < 2 ^ 32) := by
  obtain ⟨later, more⟩ := retransmissions_append (k := k) metered.transmitted old
  have numbered : (m.account effects ctx).numbered = m.numbered + k := by
    rw [account, grown]
  have transmissions : (m.account effects ctx).transmissions =
      m.transmissions ++ (again ++ List.range' m.numbered k) := by
    rw [account, grown, places]
  have reported : (m.account effects ctx).reported = m.reported +
      if m.ctx.kcp.xmit.toNat + timeouts < 2 ^ 32 then timeouts else 0 := by
    rw [account, delta]
  have retransmissions : (m.account effects ctx).retransmissions =
      m.retransmissions + again.length := by
    rw [KcpMeter.retransmissions, transmissions, more, KcpMeter.retransmissions]
  -- so far no more has been reported than transmitted again
  have modest := metered.modest
  refine ⟨numbered, by rw [transmissions]; exact later, ?_, ?_⟩
  · rw [reported, retransmissions]
    split <;> omega
  · -- what is not reported now is never made up for
    have small := m.ctx.kcp.xmit.toNat_lt
    rw [Exact, reported, retransmissions, Exact]
    split <;> omega

/-- A `kcp_update_loop` keeps the meter in order, and the metric right exactly if it is
countable. -/
theorem Metered.updateLoop (metered : m.Metered conv) (now : UInt64)
    (incoming : Option Datagram) :
    Metered conv (m.account (kcpUpdateLoop m.ctx now incoming).1
        (kcpUpdateLoop m.ctx now incoming).2) ∧
      (Exact (m.account (kcpUpdateLoop m.ctx now incoming).1
        (kcpUpdateLoop m.ctx now incoming).2) ↔
          m.Exact ∧ m.ctx.kcp.Countable now.toUInt32) := by
  obtain ⟨hist, flying, configured, sends, fragments⟩ := metered.sending
  obtain ⟨k, again, timeouts, updated, sub, numbers, xmit, counted, countable⟩ :=
    sends.update_transmits configured fragments now.toUInt32
  have ready : Sends conv hist (m.numbered + k) (flying ++ List.range' m.numbered k)
    ({ m.ctx with kcp := (ikcpUpdate m.ctx.kcp now.toUInt32).2 } : KcpContext).kcp := updated
  obtain ⟨left, received, -⟩ := ready.receive incoming
  -- the window bounds both what is sent again and what is sent first
  have few : timeouts ≤ 128 := counted.trans (sub.length_le.trans sends.length_le)
  have advance : k ≤ 128 := by
    rcases Nat.eq_zero_or_pos k with rfl | positive
    · exact Nat.zero_le 128
    · have first : m.numbered ∈ flying ++ List.range' m.numbered k :=
        List.mem_append_right _ (List.mem_range'_1.mpr ⟨Nat.le_refl _, by omega⟩)
      have near := updated.near first
      omega
  have nxt : (kcpUpdateLoop m.ctx now incoming).2.kcp.sndNxt = UInt32.ofNat (m.numbered + k) :=
    received.nxt
  have grown : ((kcpUpdateLoop m.ctx now incoming).2.kcp.sndNxt - m.ctx.kcp.sndNxt).toNat = k := by
    rw [nxt, sends.nxt, toNat_ofNat_sub (Nat.le_add_right _ _) (by omega)]
    omega
  -- numbers on the wire lead back to places in the history
  have places : (dataNumbers m.ctx.kcp.conv
      ((kcpUpdateLoop m.ctx now incoming).1.sent.map Outgoing.bytes)).map
        (placeOf (m.numbered + k) (kcpUpdateLoop m.ctx now incoming).2.kcp.sndNxt) =
          again ++ List.range' m.numbered k := by
    have sent : (kcpUpdateLoop m.ctx now incoming).1.sent.map Outgoing.bytes =
        (ikcpUpdate m.ctx.kcp now.toUInt32).1 := bytes_kcpOutput m.ctx _
    have same : m.ctx.kcp.conv = conv := congrArg IkcpConfig.conv configured
    rw [same, sent, numbers, nxt]
    refine map_placeOf updated fun i member => ?_
    exact List.mem_append.mpr ((List.mem_append.mp member).imp_left fun i => sub.subset i)
  have delta : ((kcpUpdateLoop m.ctx now incoming).1.retrans.map UInt64.toNat).getD 0 =
      if m.ctx.kcp.xmit.toNat + timeouts < 2 ^ 32 then timeouts else 0 := by
    rw [← reported_difference m.ctx.kcp.xmit few, retrans_kcpUpdateLoop, metered.counter, xmit]
  obtain ⟨numbered, transmitted, modest, exact_iff⟩ := metered.account_spec grown places
    (fun i member => sends.below i (sub.subset member)) counted delta
  refine ⟨⟨⟨hist, left, ?_, ?_, fragments⟩, rfl, ?_, modest⟩, ?_⟩
  · exact (config_kcpUpdateLoop m.ctx now incoming).trans configured
  · rw [numbered]
    exact received
  · rw [numbered]
    exact transmitted
  · rw [exact_iff, countable]

/-! ## Whole runs -/

/-- The meter does not look at the receiving half. -/
theorem Metered.received (metered : m.Metered conv) {kcp : Ikcpcb}
    (config : kcp.config = m.ctx.kcp.config) (sending : kcp.sending = m.ctx.kcp.sending)
    (xmit : kcp.xmit = m.ctx.kcp.xmit) :
    Metered conv { m with ctx := { m.ctx with kcp := kcp } } := by
  obtain ⟨⟨hist, flying, configured, sends, fragments⟩, counter, transmitted, modest⟩ := metered
  exact ⟨⟨hist, flying, config.trans configured, sends.congr sending, fragments⟩,
    counter.trans xmit.symm, transmitted, modest⟩

/-- Queueing more segments neither. -/
theorem Metered.queued (metered : m.Metered conv) {segs : List IkcpSeg} {msg : List UInt8}
    (short : msg.length ≤ kcpMaxMessage)
    (cut : segs.map IkcpSeg.fragment = kcpCutter.fragments msg) :
    Metered conv { m with ctx := { m.ctx with
      kcp := { m.ctx.kcp with sndQueue := m.ctx.kcp.sndQueue ++ segs } } } := by
  obtain ⟨⟨hist, flying, configured, sends, fragments⟩, counter, transmitted, modest⟩ := metered
  exact ⟨⟨_, flying, configured, sends.append cut, fragments.append short⟩, counter, transmitted,
    modest⟩

theorem countable_sndQueue (kcp : Ikcpcb) (queue : List IkcpSeg) (current : UInt32) :
    Ikcpcb.Countable { kcp with sndQueue := queue } current ↔ kcp.Countable current := by
  rw [Ikcpcb.Countable, ikcpUpdateTimer_sndQueue]
  rfl

/-- A call of `kcp_send`. One that is turned down is no call of `kcp_update_loop`. -/
private theorem Metered.send (metered : m.Metered conv) (buf : List UInt8) (now : UInt64)
    (incoming : Option Datagram) :
    (m.call (.send buf now incoming)).Metered conv ∧
      ((m.call (.send buf now incoming)).Exact ↔ m.Exact ∧ m.Counts (.send buf now incoming)) := by
  obtain ⟨hist, flying, configured, -, -⟩ := metered.sending
  rcases ikcpSend_intOfSize configured buf with
    ⟨out, rc, negative, refused⟩ | ⟨fits, msg, segs, short, cut, queued, -⟩
  · have same : m.call (.send buf now incoming) = m := by
      simp [KcpMeter.call, kcpCall, kcpSend, refused, negative, account, KcpEffects.none,
        dataNumbers]
    rw [same]
    exact ⟨metered, (and_iff_left fun fits => absurd fits out).symm⟩
  · obtain ⟨looped, exact_iff⟩ := (metered.queued short cut).updateLoop now incoming
    -- a message that was queued is followed by one `kcp_update_loop`
    have whole : ¬ intOfSize buf.length < 0 := by omega
    have same : m.call (.send buf now incoming) = account
        { m with ctx := { m.ctx with
          kcp := { m.ctx.kcp with sndQueue := m.ctx.kcp.sndQueue ++ segs } } }
        (kcpUpdateLoop { m.ctx with
          kcp := { m.ctx.kcp with sndQueue := m.ctx.kcp.sndQueue ++ segs } } now incoming).1
        (kcpUpdateLoop { m.ctx with
          kcp := { m.ctx.kcp with sndQueue := m.ctx.kcp.sndQueue ++ segs } } now incoming).2 := by
      simp only [KcpMeter.call, kcpCall, kcpSend, queued, if_neg whole, account]
    rw [same]
    refine ⟨looped, exact_iff.trans (and_congr_right fun _ => ?_)⟩
    rw [countable_sndQueue, Counts]
    exact ⟨fun countable _ => countable, fun counts => counts fits⟩

/-- A call of `kcp_recv`. -/
private theorem Metered.recv (metered : m.Metered conv) (len : ℕ) (now : UInt64)
    (incoming : Option Datagram) :
    (m.call (.recv len now incoming)).Metered conv ∧
      ((m.call (.recv len now incoming)).Exact ↔ m.Exact ∧ m.Counts (.recv len now incoming)) := by
  obtain ⟨looped, exact_iff⟩ := metered.updateLoop now incoming
  obtain ⟨config, sending⟩ :=
    ikcpRecv_frame (kcpUpdateLoop m.ctx now incoming).2.kcp (intOfSize len)
  -- the meter reads `snd_nxt` after `ikcp_recv`, which leaves it alone
  have nxt : (ikcpRecv (kcpUpdateLoop m.ctx now incoming).2.kcp (intOfSize len)).2.2.sndNxt =
      (kcpUpdateLoop m.ctx now incoming).2.kcp.sndNxt := congrArg (fun half => half.2.1) sending
  have same : m.call (.recv len now incoming) =
      { m.account (kcpUpdateLoop m.ctx now incoming).1 (kcpUpdateLoop m.ctx now incoming).2 with
        ctx := { (kcpUpdateLoop m.ctx now incoming).2 with
          kcp := (ikcpRecv (kcpUpdateLoop m.ctx now incoming).2.kcp (intOfSize len)).2.2 } } := by
    simp only [KcpMeter.call, kcpCall, kcpRecv, account, nxt]
  rw [same]
  exact ⟨looped.received config sending (congrArg Prod.fst (tally_ikcpRecv _ _)), exact_iff⟩

/-- Every call keeps the meter in order, and the metric right exactly if it counts what
it transmits. -/
theorem Metered.call (metered : m.Metered conv) (c : KcpCall) :
    (m.call c).Metered conv ∧ ((m.call c).Exact ↔ m.Exact ∧ m.Counts c) := by
  cases c with
  | send buf now incoming => exact metered.send buf now incoming
  | recv len now incoming => exact metered.recv len now incoming

theorem metered_start {env : SocketEnv} {role : OmniRole} {bindIp peerIp : Option String}
    {bindPort peerPort : UInt16} {ctx : KcpContext}
    (init : kcpInit env role bindIp bindPort peerIp peerPort = some ctx) :
    ∃ conv, (start ctx).Metered conv := by
  obtain ⟨fresh, counter⟩ := kcpInit_spec init
  refine ⟨_, ⟨[], [], configured_kcpInit init, ?_, by simp [KcpFragments]⟩, ?_, by simp [start],
    Nat.le_refl 0⟩
  · exact fresh ▸ Sends.start _
  · exact counter.trans (congrArg Ikcpcb.xmit fresh).symm

/-- A run keeps the metric right exactly if all its calls do. -/
theorem Metered.run {calls : List KcpCall} (metered : m.Metered conv)
    (hrun : machine.run m calls = some m') :
    m'.Exact ↔ m.Exact ∧ machine.Permits Counts m calls := by
  -- on the calls: a metric that is wrong once stays wrong
  induction calls generalizing m with
  | nil =>
    obtain rfl := Option.some.inj hrun
    exact (and_iff_left trivial).symm
  | cons c rest ih =>
    obtain ⟨next, step, hrest⟩ := machine.run_cons_eq_some.mp hrun
    obtain rfl := Option.some.inj step
    obtain ⟨after, exact_iff⟩ := metered.call c
    have once : (∀ t, machine.step m c = some t → machine.Permits Counts t rest) ↔
        machine.Permits Counts (m.call c) rest :=
      ⟨fun all => all _ rfl, fun one t step => Option.some.inj step ▸ one⟩
    rw [ih after hrest, exact_iff, Machine.Permits, once, and_assoc]

/-- After any calls of a fresh endpoint, what was reported is the number of
retransmissions exactly if each `kcp_update_loop` among them that flushed transmitted
only timed-out segments again, with room for them in the counter. -/
theorem retrans_exact_iff {env : SocketEnv} {role : OmniRole} {bindIp peerIp : Option String}
    {bindPort peerPort : UInt16} {ctx : KcpContext} {calls : List KcpCall}
    (init : kcpInit env role bindIp bindPort peerIp peerPort = some ctx)
    (hrun : machine.run (start ctx) calls = some m) :
    m.Exact ↔ machine.Permits Counts (start ctx) calls := by
  obtain ⟨conv, metered⟩ := metered_start init
  have fresh : (start ctx).Exact := rfl
  rw [metered.run hrun]
  exact and_iff_right fresh

/-- A network on which everything succeeds. -/
private def openEnv : SocketEnv := ⟨fun _ => 0x0100007f, true, true, fun _ => true, true⟩

/-- A fresh client of a server on port 9002. -/
private def meteredClient : KcpContext := ⟨⟨9002, 0x0100007f⟩, 16, kcpConfigure 9002, 0⟩

private theorem init_meteredClient :
    kcpInit openEnv .client none 0 (some "127.0.0.1") 9002 = some meteredClient := by
  decide +kernel

/-- A message that is not acknowledged for 300 milliseconds is transmitted again. -/
theorem retrans_exact_iff_timeout :
    machine.Permits Counts (start meteredClient) [.send [1] 0 none, .recv 64 300 none] := by
  have ends : ∃ m, machine.run (start meteredClient) [.send [1] 0 none, .recv 64 300 none] =
      some m ∧ decide (m.transmissions = [0, 0] ∧ m.reported = 1 ∧ m.Exact) = true :=
    (Option.any_eq_true _ _).mp (by decide +kernel)
  obtain ⟨m, hrun, facts⟩ := ends
  exact (retrans_exact_iff init_meteredClient hrun).mp (of_decide_eq_true facts).2.2

/-- The server acknowledges one segment. -/
private def ackOf (sn ts : UInt32) : Datagram where
  source := ⟨9002, 0x0100007f⟩
  sourceLen := 16
  bytes := ikcpSegBytes
    { ikcpSegmentNew [] with conv := 9002, cmd := ikcpCmdAck, wnd := 128, ts := ts, sn := sn }

/-- Three messages, of which the second and the third are acknowledged. -/
private def skippedFirst : List KcpCall :=
  [.send [1] 0 none, .send [2] 10 none, .send [3] 20 none, .recv 64 30 (some (ackOf 1 10)),
    .recv 64 40 (some (ackOf 2 20)), .recv 64 50 none]

/-- The first message is then transmitted again, and not counted. -/
theorem retrans_exact_counterexample :
    ¬ ∀ env role bindIp bindPort peerIp peerPort ctx calls m,
      kcpInit env role bindIp bindPort peerIp peerPort = some ctx →
        machine.run (start ctx) calls = some m → m.Exact := by
  intro right
  have ends : ∃ m, machine.run (start meteredClient) skippedFirst = some m ∧
      decide (m.transmissions = [0, 1, 2, 0] ∧ m.reported = 0 ∧ ¬ m.Exact) = true :=
    (Option.any_eq_true _ _).mp (by decide +kernel)
  obtain ⟨m, hrun, facts⟩ := ends
  exact (of_decide_eq_true facts).2.2
    (right openEnv .client none 0 (some "127.0.0.1") 9002 meteredClient skippedFirst m
      init_meteredClient hrun)

end KcpMeter

end OmniSocket
