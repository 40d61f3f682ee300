/-
# A sliding window over two queues

A sender gives numbers to what it queues, never more than a window beyond the
oldest number in flight, and sends numbers in flight as often as it likes. The
receiver collects numbers and reports back, now and then, the edge below which
it has everything and some of the numbers it has. Both directions deliver in
order and lose nothing.

Then the two sides never drift apart: what is on its way, in either direction,
lies within a few windows of where the other side is. That is what makes
wrapping counters safe. A new sender that starts its count over at a wrapped 0
stays as close, provided the receiver is not yet beyond that 0.
-/

import Mathlib.Data.List.Basic
import Mathlib.Data.List.Infix
import OmniSocket.Lib.Serial

set_option autoImplicit false

namespace OmniSocket.Lib

/-- A sender, a receiver and what is between them, in unbounded numbers. -/
structure Sliding where
  /-- The receiver had everything below when the sender started. -/
  base : ℕ
  /-- The first number of the sender. -/
  first : ℕ
  /-- The number to be given next. -/
  next : ℕ
  /-- The end of what the sender has queued. -/
  queued : ℕ
  /-- Numbers that were given and are not acknowledged. -/
  flying : List ℕ
  /-- The receiver has everything below. -/
  edge : ℕ
  /-- Numbers the receiver has beside those below the edge. -/
  held : List ℕ
  /-- The edge at the last report. -/
  told : ℕ
  /-- Numbers to be reported. -/
  pending : List ℕ
  /-- Numbers on their way to the receiver, oldest first. -/
  data : List (List ℕ)
  /-- Edges and numbers on their way back, oldest first. -/
  reports : List (ℕ × List ℕ)

namespace Sliding

/-- The receiver has the number `i`. -/
def Arrived (s : Sliding) (i : ℕ) : Prop := i < s.edge ∨ i ∈ s.held

/-- The sender takes the number `i` for acknowledged. -/
def Acked (s : Sliding) (i : ℕ) : Prop := s.first ≤ i ∧ i < s.next ∧ i ∉ s.flying

/-- What is always true, for windows of `w` numbers. -/
structure Sound (w : ℕ) (s : Sliding) : Prop where
  restart : s.first = nextZero s.base
  first_le : s.first ≤ s.next
  inside : s.next ≤ s.queued
  /-- Nothing is queued while the first number is out of the receiver's sight. -/
  close : s.first < s.queued → s.first < s.base + 2 ^ 31
  lag : s.base ≤ s.told + 3 * w ∧ (s.first < s.base + 2 ^ 31 → s.base ≤ s.told + 2 * w)
  sorted : s.flying.Pairwise (· < ·)
  flies : ∀ i ∈ s.flying, s.first ≤ i ∧ i < s.next
  window : s.next ≤ s.flying.headD s.next + w
  base_le : s.base ≤ s.edge
  told_le : s.told ≤ s.edge
  /-- The receiver has what it had, and some of the numbers given. -/
  given : ∀ i, s.Arrived i → i < s.base ∨ s.first ≤ i ∧ i < s.next
  near : ∀ i, s.Arrived i → i < s.edge + w
  /-- Only what has arrived is acknowledged. -/
  honest : ∀ i, s.Acked i → s.Arrived i
  heard : ∀ i, s.Acked i → i < s.told + w
  due : ∀ j ∈ s.pending, s.Arrived j ∧ s.told ≤ j + w
  forth : ∀ j ∈ s.data.flatten, s.first ≤ j ∧ j < s.next ∧ ∀ i, s.Arrived i → i < j + w
  forthOrder : s.data.flatten.Pairwise fun i j => i < j + w
  back : ∀ e ∈ s.reports, s.base ≤ e.1 ∧ e.1 ≤ s.told ∧ (∀ i, s.Acked i → i < e.1 + w) ∧
    ∀ j ∈ e.2, s.Arrived j ∧ j < e.1 + w ∧ e.1 ≤ j + 4 * w
  backOrder : s.reports.Pairwise fun e e' => e.1 ≤ e'.1

/-- A sender and a receiver that have not done anything. -/
def fresh : Sliding where
  base := 0
  first := 0
  next := 0
  queued := 0
  flying := []
  edge := 0
  held := []
  told := 0
  pending := []
  data := []
  reports := []

theorem sound_fresh (w : ℕ) : fresh.Sound w where
  restart := (nextZero_eq_self rfl).symm
  first_le := Nat.le_refl 0
  inside := Nat.le_refl 0
  close := fun more => absurd more (Nat.lt_irrefl 0)
  lag := ⟨Nat.zero_le _, fun _ => Nat.zero_le _⟩
  sorted := List.Pairwise.nil
  flies := by simp [fresh]
  window := Nat.zero_le _
  base_le := Nat.le_refl 0
  told_le := Nat.le_refl 0
  given := by simp [fresh, Arrived]
  near := by simp [fresh, Arrived]
  honest := by simp [fresh, Acked]
  heard := by simp [fresh, Acked]
  due := by simp [fresh]
  forth := by simp [fresh]
  forthOrder := List.Pairwise.nil
  back := by simp [fresh]
  backOrder := List.Pairwise.nil

/-- A sender that starts over at the next number that wraps to 0. -/
def restarted (s : Sliding) : Sliding where
  base := s.edge
  first := nextZero s.edge
  next := nextZero s.edge
  queued := nextZero s.edge
  flying := []
  edge := s.edge
  held := []
  told := s.told
  pending := s.pending
  data := []
  reports := []

namespace Sound

variable {w : ℕ} {s : Sliding}

/-! ## How far the two sides are apart -/

/-- The head of a sorted list is its least number. -/
theorem headD_le {flying : List ℕ} (sorted : flying.Pairwise (· < ·)) (next : ℕ) {i : ℕ}
    (member : i ∈ flying) : flying.headD next ≤ i := by
  cases flying with
  | nil => exact absurd member List.not_mem_nil
  | cons first rest =>
    rcases List.mem_cons.mp member with rfl | later
    · exact Nat.le_refl i
    · exact (List.rel_of_pairwise_cons sorted later).le

/-- The oldest number in flight is the first one, or just behind an acknowledged one. -/
theorem oldest (sound : s.Sound w) : s.flying.headD s.next = s.first ∨
    s.Acked (s.flying.headD s.next - 1) ∧ s.first < s.flying.headD s.next := by
  have low := sound.first_le
  have flies := sound.flies
  have bounds : s.first ≤ s.flying.headD s.next ∧ s.flying.headD s.next ≤ s.next := by
    cases flying : s.flying with
    | nil => exact ⟨low, Nat.le_refl _⟩
    | cons i rest =>
      rw [flying] at flies
      have first := flies i List.mem_cons_self
      exact ⟨first.1, first.2.le⟩
  -- the number before the oldest one in flight was given and is not in flight
  rcases bounds.1.eq_or_lt with same | above
  · exact .inl same.symm
  · refine .inr ⟨⟨by omega, by omega, fun member => ?_⟩, above⟩
    have least := headD_le sound.sorted s.next member
    omega

/-- No number given is far beyond the last edge reported. -/
theorem next_le (sound : s.Sound w) : s.next ≤ max s.first (s.told + w) + w := by
  have window := sound.window
  rcases sound.oldest with same | ⟨acked, -⟩
  · omega
  · have heard := sound.heard _ acked
    omega

/-- No number given is far beyond an edge on its way back. -/
theorem next_le_of_back (sound : s.Sound w) {e : ℕ × List ℕ} (member : e ∈ s.reports) :
    s.next ≤ max s.first (e.1 + w) + w := by
  have window := sound.window
  rcases sound.oldest with same | ⟨acked, -⟩
  · omega
  · have heard := (sound.back e member).2.2.1 _ acked
    omega

/-- A number below the edge that is not below the base was given. -/
theorem edge_le (sound : s.Sound w) : s.edge ≤ s.base ∨ s.first = s.base ∧ s.edge ≤ s.next := by
  have low := le_nextZero s.base
  rw [← sound.restart] at low
  -- once the edge is past the base, the base itself and the last number below it were given
  by_cases beyond : s.base < s.edge
  · refine .inr ⟨?_, ?_⟩
    · have least := sound.given s.base (.inl beyond)
      omega
    · have last := sound.given (s.edge - 1) (.inl (by omega))
      omega
  · exact .inl (not_lt.mp beyond)

/-- The edge is never far beyond the last one reported, and nearer still if a new
sender could start there. -/
theorem edge_lag (sound : s.Sound w) (small : 8 * w ≤ 2 ^ 31) : s.edge ≤ s.told + 3 * w ∧
    (nextZero s.edge < s.edge + 2 ^ 31 → s.edge ≤ s.told + 2 * w) := by
  have lag := sound.lag
  have low := sound.base_le
  -- either nothing of the present sender has arrived, or it has passed the first number
  rcases sound.edge_le with still | ⟨same, high⟩
  · have edge : s.edge = s.base := by omega
    rw [edge, ← sound.restart]
    exact lag
  · have next := sound.next_le
    have started := lag.2 (by omega)
    refine ⟨by omega, fun ready => ?_⟩
    by_contra far
    -- the edge has only just passed the first number, which wraps to 0
    have zero : UInt32.ofNat s.base = 0 := by
      rw [← same, sound.restart, ofNat_nextZero]
    have away := add_le_nextZero zero (show s.base < s.edge by omega)
    omega

/-- Numbers on their way are near the edge. -/
theorem forth_near (sound : s.Sound w) (small : 8 * w ≤ 2 ^ 31) {j : ℕ}
    (member : j ∈ s.data.flatten) :
    s.edge ≤ j + w ∧ j < s.edge + w + 2 ^ 31 := by
  obtain ⟨low, high, above⟩ := sound.forth j member
  have inside := sound.inside
  have close := sound.close (by omega)
  have next := sound.next_le
  have base := sound.base_le
  have told := sound.told_le
  refine ⟨?_, by omega⟩
  by_contra far
  -- what is sent is no more than a window behind everything that had arrived then
  have last := above (s.edge - 1) (.inl (by omega))
  omega

/-- An edge on its way back is near every number in flight. -/
theorem back_near (sound : s.Sound w) {e : ℕ × List ℕ} (member : e ∈ s.reports) {i : ℕ}
    (flies : i ∈ s.flying) : e.1 ≤ i + w ∧ i < max s.first (e.1 + w) + w := by
  have low := sound.back e member
  have told := sound.told_le
  have bounds := sound.flies i flies
  have least := headD_le sound.sorted s.next flies
  have window := sound.window
  have next := sound.next_le_of_back member
  refine ⟨?_, by omega⟩
  rcases sound.edge_le with still | ⟨-, high⟩
  · have above := le_nextZero s.base
    rw [← sound.restart] at above
    omega
  · omega

/-- A number on its way back is near every number in flight. -/
theorem back_number_near (sound : s.Sound w) (small : 8 * w ≤ 2 ^ 31) {e : ℕ × List ℕ}
    (member : e ∈ s.reports) {i j : ℕ} (flies : i ∈ s.flying) (listed : j ∈ e.2) :
    i < j + 2 ^ 32 ∧ j < i + 2 ^ 32 := by
  obtain ⟨base, -, -, numbers⟩ := sound.back e member
  obtain ⟨-, below, above⟩ := numbers j listed
  have near := sound.back_near member flies
  have bounds := sound.flies i flies
  have close := sound.close (by have := sound.inside; omega)
  omega

/-! ## The sender -/

/-- The sender queues more, the first of it only while the receiver can see the
first number. -/
theorem queue (sound : s.Sound w) {queued : ℕ} (more : s.queued ≤ queued)
    (ready : s.first < queued → s.first < s.base + 2 ^ 31) :
    Sound w { s with queued := queued } :=
  { sound with inside := sound.inside.trans more, close := ready }

/-- Numbers are given to what is queued, as far as the window goes. -/
theorem assign (sound : s.Sound w) {k : ℕ} (inside : s.next + k ≤ s.queued)
    (window : s.next + k ≤ (s.flying ++ List.range' s.next k).headD (s.next + k) + w) :
    Sound w { s with next := s.next + k, flying := s.flying ++ List.range' s.next k } := by
  have low := sound.first_le
  -- a new number is in flight, so none of them counts as acknowledged
  have acked : ∀ i, s.first ≤ i ∧ i < s.next + k ∧ i ∉ s.flying ++ List.range' s.next k →
      s.Acked i := by
    rintro i ⟨above, below, absent⟩
    simp only [List.mem_append, List.mem_range'_1, not_or] at absent
    exact ⟨above, by omega, absent.1⟩
  refine { sound with
    first_le := low.trans (Nat.le_add_right _ _)
    inside := inside
    window := window
    sorted := ?_
    flies := fun i member => ?_
    given := fun i arrived => ?_
    honest := fun i taken => sound.honest i (acked i taken)
    heard := fun i taken => sound.heard i (acked i taken)
    forth := fun j member => ?_
    back := fun e member => ?_ }
  · refine List.pairwise_append.mpr ⟨sound.sorted, List.pairwise_lt_range', fun i old j new => ?_⟩
    exact (sound.flies i old).2.trans_le (List.mem_range'_1.mp new).1
  · rcases List.mem_append.mp member with old | new
    · have bounds := sound.flies i old
      exact ⟨bounds.1, bounds.2.trans_le (Nat.le_add_right _ _)⟩
    · have bounds := List.mem_range'_1.mp new
      exact ⟨low.trans bounds.1, bounds.2⟩
  · exact (sound.given i arrived).imp_right fun bounds =>
      ⟨bounds.1, bounds.2.trans_le (Nat.le_add_right _ _)⟩
  · obtain ⟨above, below, order⟩ := sound.forth j member
    exact ⟨above, below.trans_le (Nat.le_add_right _ _), order⟩
  · obtain ⟨above, below, order, numbers⟩ := sound.back e member
    exact ⟨above, below, fun i taken => order i (acked i taken), numbers⟩

/-- Numbers in flight are sent. -/
theorem send (sound : s.Sound w) {sent : List (List ℕ)}
    (flies : ∀ part ∈ sent, ∀ j ∈ part, j ∈ s.flying) :
    Sound w { s with data := s.data ++ sent } := by
  have low := sound.first_le
  have start := le_nextZero s.base
  rw [← sound.restart] at start
  -- all that is in flight lies within one window
  have bounds : ∀ j ∈ sent.flatten, s.first ≤ j ∧ j < s.next ∧ s.next ≤ j + w := by
    intro j member
    obtain ⟨part, inside, listed⟩ := List.mem_flatten.mp member
    have bounds := sound.flies j (flies part inside j listed)
    have least := headD_le sound.sorted s.next (flies part inside j listed)
    have window := sound.window
    exact ⟨bounds.1, bounds.2, by omega⟩
  refine { sound with forth := fun j member => ?_, forthOrder := ?_ }
  · rw [List.flatten_append, List.mem_append] at member
    rcases member with old | new
    · exact sound.forth j old
    · refine ⟨(bounds j new).1, (bounds j new).2.1, fun i arrived => ?_⟩
      have given := sound.given i arrived
      have near := bounds j new
      omega
  · rw [List.flatten_append, List.pairwise_append]
    refine ⟨sound.forthOrder, List.pairwise_of_forall_mem_list fun i left j right => ?_,
      fun i old j new => ?_⟩
    · have first := bounds i left
      have second := bounds j right
      omega
    · have first := sound.forth i old
      have second := bounds j new
      omega

/-- The sender takes numbers for acknowledged that are below the edge of the next
report or listed in it. -/
theorem acknowledge (sound : s.Sound w) {e : ℕ × List ℕ} {rest : List (ℕ × List ℕ)}
    (reports : s.reports = e :: rest) {fewer : List ℕ} (sub : fewer.Sublist s.flying)
    (covered : ∀ i ∈ s.flying, i ∉ fewer → i < e.1 ∨ i ∈ e.2) :
    Sound w { s with flying := fewer } := by
  have member : e ∈ s.reports := reports ▸ List.mem_cons_self
  obtain ⟨-, told, order, numbers⟩ := sound.back e member
  have edge := sound.told_le
  -- a number now gone was gone before, or the report covers it
  have acked : ∀ i, s.first ≤ i ∧ i < s.next ∧ i ∉ fewer →
      s.Acked i ∨ i < e.1 ∨ i ∈ e.2 := by
    rintro i ⟨above, below, absent⟩
    by_cases flies : i ∈ s.flying
    · exact .inr (covered i flies absent)
    · exact .inl ⟨above, below, flies⟩
  have bound : ∀ i, s.first ≤ i ∧ i < s.next ∧ i ∉ fewer → i < e.1 + w ∨ i < e.1 := by
    intro i taken
    rcases acked i taken with old | below | listed
    · exact .inl (order i old)
    · exact .inr below
    · exact .inl (numbers i listed).2.1
  refine { sound with
    sorted := sound.sorted.sublist sub
    flies := fun i left => sound.flies i (sub.subset left)
    window := ?_
    honest := fun i taken => ?_
    heard := fun i taken => ?_
    back := fun e' later => ?_ }
  · cases fewer with
    | nil => exact Nat.le_add_right _ _
    | cons i rest =>
      have least := headD_le sound.sorted s.next (sub.subset List.mem_cons_self)
      exact sound.window.trans (Nat.add_le_add_right least w)
  · rcases acked i taken with old | below | listed
    · exact sound.honest i old
    · exact .inl (below.trans_le (told.trans edge))
    · exact (numbers i listed).1
  · have near := bound i taken
    show i < s.told + w
    omega
  · obtain ⟨base, below, -, entries⟩ := sound.back e' later
    refine ⟨base, below, fun i taken => ?_, entries⟩
    have near := bound i taken
    -- reports are read in the order they were sent, so a later edge is no smaller
    have behind : e.1 ≤ e'.1 := by
      have sorted := sound.backOrder
      rw [reports] at sorted later
      rcases List.mem_cons.mp later with rfl | tail
      · exact Nat.le_refl _
      · exact List.rel_of_pairwise_cons sorted tail
    omega

/-- The next report has been read. -/
theorem reported (sound : s.Sound w) {e : ℕ × List ℕ} {rest : List (ℕ × List ℕ)}
    (reports : s.reports = e :: rest) : Sound w { s with reports := rest } := by
  have sorted := sound.backOrder
  have back := sound.back
  rw [reports] at sorted back
  exact { sound with
    back := fun e' later => back e' (List.mem_cons_of_mem e later)
    backOrder := (List.pairwise_cons.mp sorted).2 }

/-! ## The receiver -/

/-- The receiver reads the next number. It has that number afterwards, or has
turned it down. -/
theorem arrive (sound : s.Sound w) {j : ℕ} {numbers : List ℕ} {rest : List (List ℕ)}
    (data : s.data = (j :: numbers) :: rest) {edge : ℕ} {held pending : List ℕ}
    (grows : s.edge ≤ edge) (keeps : ∀ i, s.Arrived i → i < edge ∨ i ∈ held)
    (only : ∀ i, i < edge ∨ i ∈ held → s.Arrived i ∨ i = j)
    (near : ∀ i ∈ held, i < edge + w)
    (noted : pending = s.pending ∨ pending = s.pending ++ [j] ∧ (j < edge ∨ j ∈ held)) :
    Sound w { s with edge := edge, held := held, pending := pending, data := numbers :: rest } := by
  -- the number read is the oldest of those on their way
  have flat : s.data.flatten = j :: (numbers :: rest).flatten := by
    rw [data]
    rfl
  have forth := sound.forth
  have order := sound.forthOrder
  rw [flat] at forth order
  obtain ⟨low, high, before⟩ := forth j List.mem_cons_self
  have told := sound.told_le
  refine { sound with
    base_le := sound.base_le.trans grows
    told_le := told.trans grows
    given := fun i arrived => ?_
    near := fun i arrived => ?_
    honest := fun i taken => keeps i (sound.honest i taken)
    due := fun i member => ?_
    forth := fun i member => ?_
    forthOrder := (List.pairwise_cons.mp order).2
    back := fun e member => ?_ }
  · rcases only i arrived with old | rfl
    · exact sound.given i old
    · exact .inr ⟨low, high⟩
  · exact arrived.elim (fun below => Nat.lt_add_right w below) (near i)
  · have old : ∀ i ∈ s.pending, (i < edge ∨ i ∈ held) ∧ s.told ≤ i + w := fun i member =>
      ⟨keeps i (sound.due i member).1, (sound.due i member).2⟩
    rcases noted with same | ⟨more, has⟩
    · exact old i (same ▸ member)
    · rcases List.mem_append.mp (more ▸ member) with earlier | new
      · exact old i earlier
      · obtain rfl := List.mem_singleton.mp new
        refine ⟨has, ?_⟩
        change s.told ≤ i + w
        by_contra far
        -- all below the edge last reported had arrived when the number was sent
        have last := before (s.told - 1) (.inl (by omega))
        omega
  · obtain ⟨above, below, others⟩ := forth i (List.mem_cons_of_mem j member)
    refine ⟨above, below, fun i' arrived => ?_⟩
    rcases only i' arrived with old | rfl
    · exact others i' old
    · exact List.rel_of_pairwise_cons order member
  · obtain ⟨above, below, others, entries⟩ := sound.back e member
    exact ⟨above, below, others, fun i listed =>
      ⟨keeps i (entries i listed).1, (entries i listed).2⟩⟩

/-- The next datagram has been read. -/
theorem arrived (sound : s.Sound w) {rest : List (List ℕ)} (data : s.data = [] :: rest) :
    Sound w { s with data := rest } := by
  have flat : s.data.flatten = rest.flatten := by
    rw [data]
    rfl
  exact { sound with forth := flat ▸ sound.forth, forthOrder := flat ▸ sound.forthOrder }

/-- What the receiver has moves below the edge. -/
theorem settle (sound : s.Sound w) {edge : ℕ} {held : List ℕ} (grows : s.edge ≤ edge)
    (same : ∀ i, i < edge ∨ i ∈ held ↔ s.Arrived i) (near : ∀ i ∈ held, i < edge + w) :
    Sound w { s with edge := edge, held := held } :=
  { sound with
    base_le := sound.base_le.trans grows
    told_le := sound.told_le.trans grows
    given := fun i arrived => sound.given i ((same i).mp arrived)
    near := fun i arrived => arrived.elim (fun below => Nat.lt_add_right w below) (near i)
    honest := fun i taken => (same i).mpr (sound.honest i taken)
    due := fun i member => ⟨(same i).mpr (sound.due i member).1, (sound.due i member).2⟩
    forth := fun j member => ⟨(sound.forth j member).1, (sound.forth j member).2.1,
      fun i arrived => (sound.forth j member).2.2 i ((same i).mp arrived)⟩
    back := fun e member => ⟨(sound.back e member).1, (sound.back e member).2.1,
      (sound.back e member).2.2.1, fun j listed =>
        ⟨(same j).mpr ((sound.back e member).2.2.2 j listed).1,
          ((sound.back e member).2.2.2 j listed).2⟩⟩ }

/-- The receiver reports its edge and numbers that are due, or drops the reports. -/
theorem report (sound : s.Sound w) (small : 8 * w ≤ 2 ^ 31) {sent : List (ℕ × List ℕ)}
    (truthful : ∀ e ∈ sent, e.1 = s.edge ∧ ∀ j ∈ e.2, j ∈ s.pending) :
    Sound w { s with told := s.edge, pending := [], reports := s.reports ++ sent } := by
  have told := sound.told_le
  have lag := sound.edge_lag small
  refine { sound with
    lag := ?_
    told_le := Nat.le_refl _
    -- the acknowledgments go out with the edge, or not at all
    heard := fun i taken => sound.near i (sound.honest i taken)
    due := by simp
    back := fun e member => ?_
    backOrder := ?_ }
  · have old := sound.lag
    exact ⟨old.1.trans (Nat.add_le_add_right told _),
      fun ready => (old.2 ready).trans (Nat.add_le_add_right told _)⟩
  · rcases List.mem_append.mp member with old | new
    · obtain ⟨above, below, others⟩ := sound.back e old
      exact ⟨above, below.trans told, others⟩
    · obtain ⟨edge, listed⟩ := truthful e new
      rw [edge]
      refine ⟨sound.base_le, Nat.le_refl _, fun i taken => sound.near i (sound.honest i taken),
        fun j member => ?_⟩
      obtain ⟨has, due⟩ := sound.due j (listed j member)
      exact ⟨has, sound.near j has, by omega⟩
  · refine List.pairwise_append.mpr ⟨sound.backOrder, ?_, fun e old e' new => ?_⟩
    · exact List.pairwise_of_forall_mem_list fun e first e' second =>
        ((truthful e first).1.trans (truthful e' second).1.symm).le
    · rw [(truthful e' new).1]
      exact (sound.back e old).2.1.trans told

/-! ## A new sender -/

theorem sound_restarted (sound : s.Sound w) (small : 8 * w ≤ 2 ^ 31) (all : s.held = []) :
    s.restarted.Sound w where
  restart := rfl
  first_le := Nat.le_refl _
  inside := Nat.le_refl _
  close := fun more => absurd more (Nat.lt_irrefl _)
  lag := sound.edge_lag small
  sorted := List.Pairwise.nil
  flies := by simp [restarted]
  window := Nat.le_add_right _ _
  base_le := Nat.le_refl _
  told_le := sound.told_le
  given := fun i arrived => .inl (arrived.resolve_right (by simp [restarted]))
  near := fun i arrived =>
    arrived.elim (fun below => Nat.lt_add_right w below) (by simp [restarted])
  honest := by
    rintro i ⟨above, below, -⟩
    exact absurd below (not_lt.mpr above)
  heard := by
    rintro i ⟨above, below, -⟩
    exact absurd below (not_lt.mpr above)
  due := by
    intro j member
    have due := sound.due j member
    simpa [Arrived, restarted, all] using due
  forth := by simp [restarted]
  forthOrder := List.Pairwise.nil
  back := by simp [restarted]
  backOrder := List.Pairwise.nil

end Sound

end Sliding

end OmniSocket.Lib
