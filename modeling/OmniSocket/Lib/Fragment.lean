/-
# Cutting messages into countdown fragments

A message is cut into a fixed number of fragments of bounded size, numbered
downwards to 0. A receiver that knows how many fragments follow the first one
can tell whether the whole message has arrived, and puts the message together
by taking fragments up to the first one numbered 0.
-/

import Mathlib.Data.List.Basic
import Mathlib.Data.List.Infix

set_option autoImplicit false

namespace OmniSocket.Lib

variable {α : Type*}

/-- A fragment: how many follow it in its message, and its items. -/
abbrev Fragment (α : Type*) := ℕ × List α

/-- `count` fragments of at most `size` items, cut off the front of a message. -/
def cut (size : ℕ) : ℕ → List α → List (Fragment α)
  | 0, _ => []
  | count + 1, xs => (count, xs.take size) :: cut size count (xs.drop size)

/-- The items of a sequence of fragments. -/
def joined (fragments : List (Fragment α)) : List α := fragments.flatMap Prod.snd

@[simp] theorem joined_nil : joined ([] : List (Fragment α)) = [] := rfl

@[simp] theorem joined_cons (first : Fragment α) (rest : List (Fragment α)) :
    joined (first :: rest) = first.2 ++ joined rest :=
  List.flatMap_cons

@[simp] theorem length_cut (size count : ℕ) (xs : List α) : (cut size count xs).length = count := by
  induction count generalizing xs with
  | zero => rfl
  | succ count ih => rw [cut, List.length_cons, ih]

/-- The fragments count down to 0. -/
theorem map_fst_cut (size count : ℕ) (xs : List α) :
    (cut size count xs).map Prod.fst = (List.range count).reverse := by
  induction count generalizing xs with
  | zero => rfl
  | succ count ih =>
    rw [cut, List.map_cons, ih, List.range_succ, List.reverse_append]
    rfl

/-- Enough fragments hold the whole message. -/
theorem joined_cut {size count : ℕ} {xs : List α} (enough : xs.length ≤ count * size) :
    joined (cut size count xs) = xs := by
  induction count generalizing xs with
  | zero =>
    have empty : xs = [] := List.length_eq_zero_iff.mp (by omega)
    rw [empty, cut, joined_nil]
  | succ count ih =>
    have rest : (xs.drop size).length ≤ count * size := by
      rw [List.length_drop]
      rw [Nat.succ_mul] at enough
      omega
    rw [cut, joined_cons, ih rest, List.take_append_drop]

/-- No fragment is longer than the size it is cut to. -/
theorem length_le_of_mem_cut {size count : ℕ} {xs : List α} {fragment : Fragment α}
    (member : fragment ∈ cut size count xs) : fragment.2.length ≤ size ∧ fragment.1 < count := by
  induction count generalizing xs with
  | zero => exact absurd member (List.not_mem_nil)
  | succ count ih =>
    rw [cut, List.mem_cons] at member
    rcases member with rfl | later
    · exact ⟨List.length_take_le _ _, Nat.lt_succ_self _⟩
    · exact ⟨(ih later).1, (ih later).2.trans (Nat.lt_succ_self _)⟩

/-! ## Taking one message off a queue -/

variable {β : Type*}

/-- The items up to and including the first one that is `last`, and the rest. -/
def splitMessage (last : β → Bool) : List β → List β × List β
  | [] => ([], [])
  | x :: rest =>
    if last x then ([x], rest)
    else (x :: (splitMessage last rest).1, (splitMessage last rest).2)

/-- Splitting loses nothing. -/
theorem splitMessage_append (last : β → Bool) (xs : List β) :
    (splitMessage last xs).1 ++ (splitMessage last xs).2 = xs := by
  induction xs with
  | nil => rfl
  | cons x rest ih =>
    rw [splitMessage]
    split_ifs
    · rfl
    · rw [List.cons_append, ih]

/-- Splitting follows a view of the items that decides which is last. -/
theorem splitMessage_map {γ : Type*} (last : γ → Bool) (view : β → γ) (xs : List β) :
    splitMessage last (xs.map view) =
      ((splitMessage (fun x => last (view x)) xs).1.map view,
        (splitMessage (fun x => last (view x)) xs).2.map view) := by
  induction xs with
  | nil => rfl
  | cons x rest ih =>
    rw [List.map_cons, splitMessage, splitMessage]
    split_ifs
    · rfl
    · rw [ih, List.map_cons]

/-- The last fragment of a message is numbered 0. -/
def isLast (fragment : Fragment α) : Bool := decide (fragment.1 = 0)

/-- The fragments of one message are taken off whole. -/
theorem splitMessage_cut {size count : ℕ} (positive : 0 < count) (xs : List α)
    (rest : List (Fragment α)) :
    splitMessage isLast (cut size count xs ++ rest) = (cut size count xs, rest) := by
  induction count generalizing xs with
  | zero => exact absurd positive (Nat.lt_irrefl 0)
  | succ count ih =>
    rw [cut, List.cons_append, splitMessage]
    by_cases final : count = 0
    · subst final
      rw [if_pos (by rfl)]
      rfl
    · have more : isLast (count, xs.take size) = false := by simpa [isLast] using final
      rw [more, ih (Nat.pos_of_ne_zero final)]
      rfl

/-! ## A queue that is the front of a sequence of messages -/

/-- How each message is cut: at least one fragment, and enough of them. -/
structure Cutter (α : Type*) where
  size : ℕ
  count : List α → ℕ
  positive : ∀ xs, 0 < count xs
  enough : ∀ xs, xs.length ≤ count xs * size

namespace Cutter

variable (c : Cutter α)

/-- The fragments of one message. -/
def fragments (xs : List α) : List (Fragment α) := cut c.size (c.count xs) xs

/-- The fragments of a sequence of messages. -/
def stream (messages : List (List α)) : List (Fragment α) := messages.flatMap c.fragments

@[simp] theorem stream_nil : c.stream [] = [] := rfl

@[simp] theorem stream_append (first second : List (List α)) :
    c.stream (first ++ second) = c.stream first ++ c.stream second :=
  List.flatMap_append

@[simp] theorem stream_singleton (xs : List α) : c.stream [xs] = c.fragments xs := by
  simp [stream]

@[simp] theorem joined_fragments (xs : List α) : joined (c.fragments xs) = xs :=
  joined_cut (c.enough xs)

/-- A queue at the front of a sequence of messages whose first fragment says that
its whole message has arrived yields the next message, and the rest of the queue
is at the front of the other messages. -/
theorem splitMessage_queue {queue : List (Fragment α)} {messages : List (List α)}
    {first : Fragment α} (front : queue <+: c.stream messages) (head : queue.head? = some first)
    (arrived : first.1 < queue.length) :
    ∃ xs rest, messages = xs :: rest ∧ (splitMessage isLast queue).1 = c.fragments xs ∧
      (splitMessage isLast queue).2 <+: c.stream rest := by
  obtain ⟨later, whole⟩ := front
  cases queue with
  | nil => exact absurd arrived (Nat.not_lt_zero _)
  | cons x tail =>
    cases messages with
    | nil => exact absurd whole (by simp)
    | cons xs rest =>
      obtain rfl : x = first := by simpa using head
      have split : c.stream (xs :: rest) = c.fragments xs ++ c.stream rest := List.flatMap_cons
      have number : x.1 + 1 = c.count xs := by
        obtain ⟨k, count⟩ := Nat.exists_eq_succ_of_ne_zero (c.positive xs).ne'
        have start : c.fragments xs = (k, xs.take c.size) :: cut c.size k (xs.drop c.size) := by
          rw [fragments, count, cut]
        rw [split, start, List.cons_append, List.cons_append] at whole
        rw [(List.cons.inj whole).1, count]
      -- the queue is long enough to hold every fragment of the first message
      have inside : c.fragments xs <+: x :: tail := by
        refine List.prefix_of_prefix_length_le (split ▸ List.prefix_append _ _)
          ⟨later, whole⟩ ?_
        rw [fragments, length_cut, ← number]
        exact arrived
      obtain ⟨others, queue_eq⟩ := inside
      refine ⟨xs, rest, rfl, ?_, ?_⟩
      · rw [← queue_eq, fragments, splitMessage_cut (c.positive xs)]
      · rw [← queue_eq, fragments, splitMessage_cut (c.positive xs)]
        refine ⟨later, ?_⟩
        rw [split, ← queue_eq, List.append_assoc] at whole
        exact List.append_cancel_left whole

end Cutter

end OmniSocket.Lib
