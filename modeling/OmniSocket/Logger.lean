/-
# The counters of the logger

`logger.c` keeps one record of statistics for the whole process. `omni_send` and
`omni_recv` report to it the same way, each in its own half of the record, so a
half is a type of its own here.

No counter depends on the averages, which are in `OmniSocket.Averages`. The fields
that nothing ever writes are left out.
-/


import Mathlib.Data.UInt
import Mathlib.Algebra.BigOperators.Group.List.Basic
import Mathlib.Tactic.SplitIfs

set_option autoImplicit false

namespace OmniSocket

/-- One half of `OmniStats`: what is counted about `omni_send`, or about
`omni_recv`. -/
structure Traffic where
  /-- `bytes_sent` or `bytes_recv`. -/
  bytes : UInt64
  /-- `send_count` or `recv_count`. -/
  count : UInt64
  /-- `send_call_min_ms` or `recv_call_min_ms`. -/
  callMinMs : UInt64
  /-- `send_call_max_ms` or `recv_call_max_ms`. -/
  callMaxMs : UInt64
  /-- `last_send_call_ms` or `last_recv_call_ms`. -/
  lastCallMs : UInt64
  deriving DecidableEq, Repr

/-- `OmniStats`. -/
structure OmniStats where
  startMs : UInt64
  lastReportMs : UInt64
  sent : Traffic
  received : Traffic
  kcpRetrans : UInt64
  deriving DecidableEq, Repr

namespace Traffic

/-- A half before anything is called: `memset`. -/
def zero : Traffic where
  bytes := 0
  count := 0
  callMinMs := 0
  callMaxMs := 0
  lastCallMs := 0

/-- A half as `logger_init` leaves it. The least time is `UINT64_MAX` until there
has been a call. -/
def fresh : Traffic := { zero with callMinMs := 0xffffffffffffffff }

/-- A call moved `bytes` bytes. -/
def onBytes (t : Traffic) (bytes : ℕ) : Traffic :=
  { t with bytes := t.bytes + UInt64.ofNat bytes, count := t.count + 1 }

/-- A call took `ms` milliseconds. -/
def onCallLatency (t : Traffic) (ms : UInt64) : Traffic :=
  { t with
    lastCallMs := ms
    callMinMs := if ms < t.callMinMs then ms else t.callMinMs
    callMaxMs := if t.callMaxMs < ms then ms else t.callMaxMs }

/-- What `omni_send` or `omni_recv` reports of one call: how long it took and, if
the result is positive, the result. -/
def onCall (t : Traffic) (n : ℤ) (ms : UInt64) : Traffic :=
  if 0 < n then (t.onCallLatency ms).onBytes n.toNat else t.onCallLatency ms

end Traffic

/-- `g_stats` when the process starts. -/
def omniStatsZero : OmniStats where
  startMs := 0
  lastReportMs := 0
  sent := .zero
  received := .zero
  kcpRetrans := 0

/-- `logger_init`, at clock reading `now`. Whatever was counted is lost. -/
def loggerInit (_ : OmniStats) (now : UInt64) : OmniStats where
  startMs := now
  lastReportMs := now
  sent := .fresh
  received := .fresh
  kcpRetrans := 0

/-- `logger_on_send`. -/
def loggerOnSend (g : OmniStats) (bytes : ℕ) : OmniStats := { g with sent := g.sent.onBytes bytes }

/-- `logger_on_recv`. -/
def loggerOnRecv (g : OmniStats) (bytes : ℕ) : OmniStats :=
  { g with received := g.received.onBytes bytes }

/-- `logger_on_kcp_retrans`. -/
def loggerOnKcpRetrans (g : OmniStats) (delta : UInt64) : OmniStats :=
  { g with kcpRetrans := g.kcpRetrans + delta }

/-- `logger_on_send_call_latency`. -/
def loggerOnSendCallLatency (g : OmniStats) (ms : UInt64) : OmniStats :=
  { g with sent := g.sent.onCallLatency ms }

/-- `logger_on_recv_call_latency`. -/
def loggerOnRecvCallLatency (g : OmniStats) (ms : UInt64) : OmniStats :=
  { g with received := g.received.onCallLatency ms }

/-- `logger_print_performance_log`, at clock reading `now`. -/
def loggerPrintPerformanceLog (g : OmniStats) (now : UInt64) : OmniStats :=
  { g with lastReportMs := now }

/-! ## What a half says about the calls it was told of -/

namespace Traffic

/-- A half and the calls it should account for, each with its result and the time
it took. Without a call there is no least or greatest time to compare with. -/
structure Counts (t : Traffic) (calls : List (ℤ × UInt64)) : Prop where
  /-- The positive results, added up in 64 bits. -/
  bytes : t.bytes = UInt64.ofNat (calls.map fun call => call.1.toNat).sum
  /-- How many results are positive. -/
  count : t.count.toNat = calls.countP fun call => 0 < call.1
  least : calls ≠ [] →
    t.callMinMs ∈ calls.map Prod.snd ∧ ∀ time ∈ calls.map Prod.snd, t.callMinMs ≤ time
  greatest : calls ≠ [] →
    t.callMaxMs ∈ calls.map Prod.snd ∧ ∀ time ∈ calls.map Prod.snd, time ≤ t.callMaxMs
  last : calls ≠ [] → t.callMinMs ≤ t.lastCallMs ∧ t.lastCallMs ≤ t.callMaxMs

/-- A half that has been told of these calls since `logger_init`. -/
def after (calls : List (ℤ × UInt64)) : Traffic :=
  calls.foldl (fun t call => t.onCall call.1 call.2) fresh

@[simp] theorem after_nil : after [] = fresh := rfl

@[simp] theorem after_concat (calls : List (ℤ × UInt64)) (n : ℤ) (ms : UInt64) :
    after (calls ++ [(n, ms)]) = (after calls).onCall n ms := by
  simp [after, List.foldl_append]

/-- Reporting the bytes does not touch the times. -/
theorem times_onCall (t : Traffic) (n : ℤ) (ms : UInt64) :
    (t.onCall n ms).lastCallMs = ms ∧
      (t.onCall n ms).callMinMs = (if ms < t.callMinMs then ms else t.callMinMs) ∧
      (t.onCall n ms).callMaxMs = (if t.callMaxMs < ms then ms else t.callMaxMs) := by
  unfold onCall
  split <;> exact ⟨rfl, rfl, rfl⟩

/-- The sum of the positive results, as it wraps. -/
theorem bytes_after (calls : List (ℤ × UInt64)) :
    (after calls).bytes = UInt64.ofNat (calls.map fun call => call.1.toNat).sum := by
  induction calls using List.reverseRecOn with
  | nil => rfl
  | append_singleton calls call ih =>
    obtain ⟨n, ms⟩ := call
    rw [after_concat, List.map_append, List.sum_append, UInt64.ofNat_add, ← ih]
    unfold onCall
    split
    case isTrue => simp [onBytes, onCallLatency]
    case isFalse nonpos => simp [onCallLatency, Int.toNat_of_nonpos (not_lt.mp nonpos)]

/-- The number of positive results, as it wraps. -/
theorem count_after (calls : List (ℤ × UInt64)) :
    (after calls).count = UInt64.ofNat (calls.countP fun call => 0 < call.1) := by
  induction calls using List.reverseRecOn with
  | nil => rfl
  | append_singleton calls call ih =>
    obtain ⟨n, ms⟩ := call
    rw [after_concat, List.countP_append, UInt64.ofNat_add, ← ih]
    unfold onCall
    split
    case isTrue positive => simp [onBytes, onCallLatency, positive]
    case isFalse nonpos => simp [onCallLatency, nonpos]

/-- A least time that is kept up to date stays the least. -/
private theorem least_concat {times : List UInt64} {least : UInt64} (ms : UInt64)
    (before : least ∈ times ∧ ∀ time ∈ times, least ≤ time) :
    (if ms < least then ms else least) ∈ times ++ [ms] ∧
      ∀ time ∈ times ++ [ms], (if ms < least then ms else least) ≤ time := by
  obtain ⟨member, least_le⟩ := before
  simp only [List.mem_append, List.mem_singleton, or_imp, forall_and, forall_eq]
  split_ifs with less
  · exact ⟨.inr rfl, fun time old => UInt64.le_trans (UInt64.le_of_lt less) (least_le time old),
      UInt64.le_refl ms⟩
  · exact ⟨.inl member, least_le, UInt64.not_lt.mp less⟩

/-- So does a greatest time. -/
private theorem greatest_concat {times : List UInt64} {greatest : UInt64} (ms : UInt64)
    (before : greatest ∈ times ∧ ∀ time ∈ times, time ≤ greatest) :
    (if greatest < ms then ms else greatest) ∈ times ++ [ms] ∧
      ∀ time ∈ times ++ [ms], time ≤ (if greatest < ms then ms else greatest) := by
  obtain ⟨member, le_greatest⟩ := before
  simp only [List.mem_append, List.mem_singleton, or_imp, forall_and, forall_eq]
  split_ifs with more
  · exact ⟨.inr rfl, fun time old => UInt64.le_trans (le_greatest time old) (UInt64.le_of_lt more),
      UInt64.le_refl ms⟩
  · exact ⟨.inl member, le_greatest, UInt64.not_lt.mp more⟩

/-- The least time starts above every other and the greatest below, so the first
call replaces both. -/
private theorem times_first (ms : UInt64) :
    (if ms < fresh.callMinMs then ms else fresh.callMinMs) = ms ∧
      (if fresh.callMaxMs < ms then ms else fresh.callMaxMs) = ms := by
  have bound := ms.toNat_lt
  have top : fresh.callMinMs.toNat = 2 ^ 64 - 1 := by decide
  have bottom : fresh.callMaxMs.toNat = 0 := by decide
  simp only [UInt64.lt_iff_toNat_lt]
  constructor
  · split_ifs with less
    · rfl
    · exact UInt64.toNat_inj.mp (by omega)
  · split_ifs with more
    · rfl
    · exact UInt64.toNat_inj.mp (by omega)

/-- After a call the three times are those of the calls. -/
theorem times_after {calls : List (ℤ × UInt64)} (called : calls ≠ []) :
    ((after calls).callMinMs ∈ calls.map Prod.snd ∧
        ∀ time ∈ calls.map Prod.snd, (after calls).callMinMs ≤ time) ∧
      ((after calls).callMaxMs ∈ calls.map Prod.snd ∧
        ∀ time ∈ calls.map Prod.snd, time ≤ (after calls).callMaxMs) ∧
      (after calls).lastCallMs ∈ calls.map Prod.snd := by
  induction calls using List.reverseRecOn with
  | nil => exact absurd rfl called
  | append_singleton calls call ih =>
    obtain ⟨n, ms⟩ := call
    obtain ⟨last, least, greatest⟩ := times_onCall (after calls) n ms
    rw [after_concat, last, least, greatest, List.map_append]
    refine ⟨?_, ?_, List.mem_append_right _ (List.mem_singleton.mpr rfl)⟩
    · by_cases none : calls = []
      · rw [none, after_nil, (times_first ms).1]
        simp
      · exact least_concat ms (ih none).1
    · by_cases none : calls = []
      · rw [none, after_nil, (times_first ms).2]
        simp
      · exact greatest_concat ms (ih none).2.1

/-- Since `logger_init` a half counts every call, until the number of positive
results no longer fits its counter. -/
theorem counts_after_iff {calls : List (ℤ × UInt64)} :
    (after calls).Counts calls ↔ (calls.countP fun call => 0 < call.1) < 2 ^ 64 := by
  constructor
  · intro counts
    exact counts.count ▸ (after calls).count.toNat_lt
  · intro few
    refine ⟨bytes_after calls, ?_, fun called => (times_after called).1,
      fun called => (times_after called).2.1, fun called => ?_⟩
    · rw [count_after, UInt64.toNat_ofNat']
      exact Nat.mod_eq_of_lt few
    · obtain ⟨⟨-, least⟩, ⟨-, greatest⟩, last⟩ := times_after called
      exact ⟨least _ last, greatest _ last⟩

/-- A half that `logger_init` has just cleared accounts for no call. -/
theorem not_counts_fresh {calls : List (ℤ × UInt64)} (called : calls ≠ []) :
    ¬ fresh.Counts calls :=
  fun counts => absurd (counts.last called).1 (by decide)

end Traffic

end OmniSocket
