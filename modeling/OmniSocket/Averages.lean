/-
# The average latencies

`logger.c` keeps four averages of call times in milliseconds, and an average of
zero stands for one that no sample has gone into. Here they are exact rationals
in place of `double`. The other fields that the same functions update are in
`OmniSocket.Logger`.
-/

import OmniSocket.Lib.Ewma
import Mathlib.Data.Rat.Cast.Order
import Mathlib.Tactic.NormNum

set_option autoImplicit false

namespace OmniSocket

open Lib

/-- The averages in `OmniStats`. -/
structure Averages where
  sendCallAvgMs : ℚ
  recvCallAvgMs : ℚ
  protoSendAvgMs : ℚ
  protoRecvAvgMs : ℚ
  deriving DecidableEq, Repr

/-- The weight of a sample. -/
def ewmaAlpha : ℚ := 1 / 5

/-- `ewma_update`. -/
def ewmaUpdate (avg sample alpha : ℚ) : ℚ :=
  if avg ≤ 0 then sample else avg * (1 - alpha) + sample * alpha

namespace Averages

/-- The averages as `logger_init` leaves them. -/
def fresh : Averages := ⟨0, 0, 0, 0⟩

/-- What `logger_on_send_call_latency` does to the averages. -/
def onSendCallLatency (g : Averages) (ms : ℕ) : Averages :=
  { g with sendCallAvgMs := ewmaUpdate g.sendCallAvgMs ms ewmaAlpha }

/-- What `logger_on_recv_call_latency` does to them. -/
def onRecvCallLatency (g : Averages) (ms : ℕ) : Averages :=
  { g with recvCallAvgMs := ewmaUpdate g.recvCallAvgMs ms ewmaAlpha }

/-- `logger_on_proto_send_latency`. -/
def onProtoSendLatency (g : Averages) (ms : ℕ) : Averages :=
  { g with protoSendAvgMs := ewmaUpdate g.protoSendAvgMs ms ewmaAlpha }

/-- `logger_on_proto_recv_latency`. -/
def onProtoRecvLatency (g : Averages) (ms : ℕ) : Averages :=
  { g with protoRecvAvgMs := ewmaUpdate g.protoRecvAvgMs ms ewmaAlpha }

end Averages

/-- What was timed. -/
inductive LatencyKind
  | sendCall
  | recvCall
  | protoSend
  | protoRecv
  deriving DecidableEq, Repr

namespace Averages

/-- The average of one kind. -/
def of (g : Averages) : LatencyKind → ℚ
  | .sendCall => g.sendCallAvgMs
  | .recvCall => g.recvCallAvgMs
  | .protoSend => g.protoSendAvgMs
  | .protoRecv => g.protoRecvAvgMs

/-- The function that is told of a time of one kind. -/
def onLatency (g : Averages) : LatencyKind → ℕ → Averages
  | .sendCall => g.onSendCallLatency
  | .recvCall => g.onRecvCallLatency
  | .protoSend => g.onProtoSendLatency
  | .protoRecv => g.onProtoRecvLatency

/-- The averages after these times, in the order they were told of. -/
def after (times : List (LatencyKind × ℕ)) : Averages :=
  times.foldl (fun g time => g.onLatency time.1 time.2) fresh

/-- The times of one kind. -/
def samples (kind : LatencyKind) (times : List (LatencyKind × ℕ)) : List ℚ :=
  (times.filter fun time => time.1 = kind).map fun time => (time.2 : ℚ)

/-- A time goes into the average of its kind, and no other. -/
theorem of_onLatency (g : Averages) (kind other : LatencyKind) (ms : ℕ) :
    (g.onLatency kind ms).of other =
      if kind = other then markedStep ewmaAlpha (g.of other) ms else g.of other := by
  cases kind <;> cases other <;> rfl

/-- So each average accumulates the times of its kind. -/
theorem of_after (times : List (LatencyKind × ℕ)) (kind : LatencyKind) :
    (after times).of kind = markedEwma ewmaAlpha (samples kind times) := by
  have fold : ∀ g : Averages, (times.foldl (fun g time => g.onLatency time.1 time.2) g).of kind =
      (samples kind times).foldl (markedStep ewmaAlpha) (g.of kind) := by
    intro g
    induction times generalizing g with
    | nil => rfl
    | cons time rest ih =>
      rw [List.foldl_cons, ih, of_onLatency]
      by_cases same : time.1 = kind
      · simp [samples, same]
      · simp [samples, same]
  have start : fresh.of kind = 0 := by cases kind <;> rfl
  rw [after, fold, start, markedEwma]

/-- Each average is the weighted average of the times of its kind exactly if the first of
them is not zero, or all are. -/
theorem averages_iff (times : List (LatencyKind × ℕ)) (kind : LatencyKind) :
    (after times).of kind = ewma ewmaAlpha (samples kind times) ↔
      (samples kind times).head? ≠ some 0 ∨ ∀ s ∈ samples kind times, s = 0 := by
  have nonneg : ∀ s ∈ samples kind times, 0 ≤ s := by
    intro s member
    obtain ⟨time, -, rfl⟩ := List.mem_map.mp member
    exact Nat.cast_nonneg _
  rw [of_after]
  exact markedEwma_eq_iff (by norm_num [ewmaAlpha]) (by norm_num [ewmaAlpha]) nonneg

/-- A send that takes no measurable time, and one of 10 milliseconds: the average is 10,
not 2. -/
theorem averages_counterexample :
    ¬ ∀ times kind, samples kind times ≠ [] →
      (after times).of kind = ewma ewmaAlpha (samples kind times) := by
  intro right
  have average := right [(.sendCall, 0), (.sendCall, 10)] .sendCall (by simp [samples])
  have kept : (after [(.sendCall, 0), (.sendCall, 10)]).of .sendCall = 10 := by
    simp [after, onLatency, onSendCallLatency, fresh, of, ewmaUpdate]
  have mean : ewma ewmaAlpha (samples .sendCall [(.sendCall, 0), (.sendCall, 10)]) = 2 := by
    norm_num [ewma, samples, ewmaStep, ewmaAlpha]
  rw [kept, mean] at average
  exact absurd average (by norm_num)

end Averages

end OmniSocket
