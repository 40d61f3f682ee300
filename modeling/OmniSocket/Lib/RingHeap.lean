/-
# Rings in a heap

The nodes of several rings are allocated one by one, and every node carries a
value. Pointers are checked when they are followed: a null pointer, a node that
is not allocated, or freeing one twice is a fault.

What such a heap stands for is a list of values for each ring. The operations
are described on that level, with cursors for the pointers that walk along a
ring, so that a loop is verified without a word about nodes and links.
-/

import Mathlib.Algebra.BigOperators.Group.Finset.Basic
import OmniSocket.Lib.Ring

set_option autoImplicit false

namespace OmniSocket.Lib

/-- Where a pointer can lead: to one of the heads, or to a node. -/
inductive Addr (ι : Type*)
  | null
  | head (i : ι)
  | node (n : ℕ)
  deriving DecidableEq, Repr

/-- The links, the nodes that are allocated, what the nodes carry, and how often a node has been
allocated so far. -/
structure RingHeap (ι α : Type*) where
  links : Links (Addr ι)
  live : Finset ℕ
  content : ℕ → α
  allocations : ℕ

namespace RingHeap

variable {ι α : Type*}

/-- A pointer that may be followed. -/
def Valid (h : RingHeap ι α) : Addr ι → Prop
  | .null => False
  | .head _ => True
  | .node n => n ∈ h.live

instance (h : RingHeap ι α) (p : Addr ι) : Decidable (h.Valid p) :=
  match p with
  | .null => inferInstanceAs (Decidable False)
  | .head _ => inferInstanceAs (Decidable True)
  | .node n => inferInstanceAs (Decidable (n ∈ h.live))

def next (h : RingHeap ι α) (p : Addr ι) : Option (Addr ι) :=
  if h.Valid p then some (h.links.next p) else none

def prev (h : RingHeap ι α) (p : Addr ι) : Option (Addr ι) :=
  if h.Valid p then some (h.links.prev p) else none

/-- The value of the node a pointer leads to. -/
def read (h : RingHeap ι α) : Addr ι → Option α
  | .node n => if n ∈ h.live then some (h.content n) else none
  | _ => none

def write (h : RingHeap ι α) (p : Addr ι) (a : α) : Option (RingHeap ι α) :=
  match p with
  | .node n =>
    if n ∈ h.live then some { h with content := Function.update h.content n a } else none
  | _ => none

/-- A new node with the value `a`. Which one it is, `malloc` says for each allocation and what is
allocated then. -/
def alloc (malloc : ℕ → Finset ℕ → ℕ) (h : RingHeap ι α) (a : α) : Addr ι × RingHeap ι α :=
  let n := malloc h.allocations h.live
  (.node n,
    { h with
      live := insert n h.live
      content := Function.update h.content n a
      allocations := h.allocations + 1 })

def free (h : RingHeap ι α) : Addr ι → Option (RingHeap ι α)
  | .node n => if n ∈ h.live then some { h with live := h.live.erase n } else none
  | _ => none

/-- More than a walk along a ring takes. -/
def rounds (h : RingHeap ι α) : ℕ := h.live.card + 1

/-- The ring of `i` has no node. -/
def IsEmpty (h : RingHeap ι α) (i : ι) : Prop := .head i = h.links.next (.head i)

section Stores

variable [DecidableEq ι]

instance (h : RingHeap ι α) (i : ι) : Decidable (h.IsEmpty i) :=
  inferInstanceAs (Decidable (_ = _))

def init (h : RingHeap ι α) (p : Addr ι) : Option (RingHeap ι α) :=
  if h.Valid p then some { h with links := h.links.init p } else none

def add (h : RingHeap ι α) (p place : Addr ι) : Option (RingHeap ι α) :=
  if h.Valid p ∧ h.Valid place ∧ h.Valid (h.links.next place) then
    some { h with links := h.links.add p place }
  else none

def addTail (h : RingHeap ι α) (p head : Addr ι) : Option (RingHeap ι α) :=
  if h.Valid p ∧ h.Valid head ∧ h.Valid (h.links.prev head) then
    some { h with links := h.links.addTail p head }
  else none

def del (h : RingHeap ι α) (p : Addr ι) : Option (RingHeap ι α) :=
  if h.Valid p ∧ h.Valid (h.links.next p) ∧ h.Valid (h.links.prev p) then
    some { h with links := h.links.del .null p }
  else none

end Stores

/-! ## What a heap stands for -/

/-- The rings go over the nodes `r`, which carry `queues`. Beside them there is at most one
node that is allocated, `loose` with its value. -/
structure Layout (h : RingHeap ι α) (queues : ι → List α) (loose : Option (ℕ × α))
    (r : ι → List ℕ) : Prop where
  rings : h.links.Rings .head fun i => (r i).map .node
  live : ∀ n, n ∈ h.live ↔ (∃ a, loose = some (n, a)) ∨ ∃ i, n ∈ r i
  content : ∀ i, (r i).map h.content = queues i
  apart : ∀ n a, loose = some (n, a) → h.content n = a ∧ ∀ i, n ∉ r i

namespace Layout

variable {h : RingHeap ι α} {queues : ι → List α} {loose : Option (ℕ × α)} {r : ι → List ℕ}
  {i : ι} {xs ys : List ℕ} {n : ℕ} {a : α}

theorem nodup (layout : h.Layout queues loose r) (i : ι) : (r i).Nodup :=
  (List.nodup_cons.mp (layout.rings.ring i).nodup).2.of_map

theorem eq_of_mem (layout : h.Layout queues loose r) {j : ι} (one : n ∈ r i) (other : n ∈ r j) :
    i = j :=
  layout.rings.eq_of_mem (List.mem_cons_of_mem _ (List.mem_map_of_mem one))
    (List.mem_cons_of_mem _ (List.mem_map_of_mem other))

theorem mem_live (layout : h.Layout queues loose r) (member : n ∈ r i) : n ∈ h.live :=
  (layout.live n).mpr (.inr ⟨i, member⟩)

/-- Every pointer along a ring may be followed. -/
theorem valid (layout : h.Layout queues loose r) {p : Addr ι}
    (member : p ∈ Addr.head i :: (r i).map .node) : h.Valid p := by
  rcases List.mem_cons.mp member with rfl | inside
  · trivial
  · obtain ⟨n, here, rfl⟩ := List.mem_map.mp inside
    exact layout.mem_live here

theorem valid_loose (layout : h.Layout queues (some (n, a)) r) : h.Valid (.node n) :=
  (layout.live n).mpr (.inl ⟨a, rfl⟩)

/-- The loose node is in no ring. -/
theorem fresh (layout : h.Layout queues (some (n, a)) r) (j : ι) :
    Addr.node n ∉ Addr.head j :: (r j).map .node := by
  intro member
  rcases List.mem_cons.mp member with same | inside
  · cases same
  · obtain ⟨m, here, same⟩ := List.mem_map.mp inside
    cases same
    exact (layout.apart n a rfl).2 j here

/-- The nodes of a ring, as its pointers lead to them. -/
theorem ring_at (layout : h.Layout queues loose r) (split : r i = xs ++ ys) :
    h.links.Ring (.head i) (xs.map .node ++ ys.map .node) := by
  have ring := layout.rings.ring i
  rwa [split, List.map_append] at ring

theorem length_lt_rounds (layout : h.Layout queues loose r) (i : ι) :
    (queues i).length < h.rounds := by
  have inside : (r i).toFinset ⊆ h.live := fun n member =>
    layout.mem_live (List.mem_toFinset.mp member)
  have size := Finset.card_le_card inside
  rw [List.toFinset_card_of_nodup (layout.nodup i)] at size
  rw [← layout.content i, List.length_map, rounds]
  omega

/-! ### Reading -/

theorem next_head (layout : h.Layout queues loose r) (split : r i = ys) :
    h.next (.head i) = some ((ys.map .node).headD (.head i)) := by
  have ring := layout.rings.ring i
  rw [next, if_pos (layout.valid List.mem_cons_self), ring.next_head, split]

theorem prev_head (layout : h.Layout queues loose r) (split : r i = xs) :
    h.prev (.head i) = some ((xs.map .node).getLastD (.head i)) := by
  have ring := layout.rings.ring i
  rw [prev, if_pos (layout.valid List.mem_cons_self), ring.prev_head, split]

theorem next_node (layout : h.Layout queues loose r) (split : r i = xs ++ n :: ys) :
    h.next (.node n) = some ((ys.map .node).headD (.head i)) := by
  have valid : h.Valid (.node n) := layout.mem_live (split ▸ List.mem_append_cons_self)
  rw [next, if_pos valid, (layout.ring_at split).next_mid]

theorem prev_node (layout : h.Layout queues loose r) (split : r i = xs ++ n :: ys) :
    h.prev (.node n) = some ((xs.map .node).getLastD (.head i)) := by
  have valid : h.Valid (.node n) := layout.mem_live (split ▸ List.mem_append_cons_self)
  rw [prev, if_pos valid, (layout.ring_at split).prev_mid]

theorem read_node (layout : h.Layout queues loose r) (member : n ∈ r i) :
    h.read (.node n) = some (h.content n) :=
  if_pos (layout.mem_live member)

theorem read_loose (layout : h.Layout queues (some (n, a)) r) : h.read (.node n) = some a := by
  have live : n ∈ h.live := layout.valid_loose
  rw [read, if_pos live, (layout.apart n a rfl).1]

/-! ### Allocating and freeing -/

/-- What a node carries is seen in no ring that it is not in. -/
theorem map_update_content (absent : n ∉ xs) (content : ℕ → α) :
    xs.map (Function.update content n a) = xs.map content := by
  refine List.map_congr_left fun m member => Function.update_of_ne ?_ ..
  rintro rfl
  exact absent member

theorem alloc (layout : h.Layout queues none r) {malloc : ℕ → Finset ℕ → ℕ}
    (new : malloc h.allocations h.live ∉ h.live) (a : α) :
    (h.alloc malloc a).2.Layout queues (some (malloc h.allocations h.live, a)) r := by
  have absent : ∀ i, malloc h.allocations h.live ∉ r i := fun i member =>
    new (layout.mem_live member)
  refine ⟨layout.rings, fun m => ?_, fun i => ?_, ?_⟩
  · rw [RingHeap.alloc, Finset.mem_insert, layout.live m]
    simp [eq_comm]
  · exact (map_update_content (absent i) h.content).trans (layout.content i)
  · rintro m b same
    obtain ⟨rfl, rfl⟩ := Prod.mk.inj (Option.some.inj same)
    exact ⟨Function.update_self .., absent⟩

theorem free (layout : h.Layout queues (some (n, a)) r) :
    ∃ h', h.free (.node n) = some h' ∧ h'.Layout queues none r := by
  refine ⟨_, if_pos layout.valid_loose, layout.rings, fun m => ?_, layout.content, ?_⟩
  · rw [Finset.mem_erase, layout.live m]
    constructor
    · rintro ⟨other, ⟨b, same⟩ | inside⟩
      · exact absurd (Prod.mk.inj (Option.some.inj same)).1.symm other
      · exact .inr inside
    · rintro (⟨b, same⟩ | ⟨i, inside⟩)
      · cases same
      · refine ⟨?_, .inr ⟨i, inside⟩⟩
        rintro rfl
        exact (layout.apart m a rfl).2 i inside
  · rintro m b same
    cases same

/-! ### Stores -/

variable [DecidableEq ι]

/-- A node is in no other ring, so what it carries is seen in its own ring only. -/
theorem write (layout : h.Layout queues none r) (split : r i = xs ++ n :: ys) (a : α) :
    ∃ h', h.write (.node n) a = some h' ∧
      h'.Layout (Function.update queues i (xs.map h.content ++ a :: ys.map h.content)) none r ∧
        xs.map h'.content = xs.map h.content ∧
          (n :: ys).map h'.content = a :: ys.map h.content := by
  have here : n ∈ r i := split ▸ List.mem_append_cons_self
  have nodup := layout.nodup i
  rw [split, List.nodup_middle, List.nodup_cons, List.mem_append, not_or] at nodup
  obtain ⟨⟨before, behind⟩, -⟩ := nodup
  have front := map_update_content (a := a) before h.content
  have back : (n :: ys).map (Function.update h.content n a) = a :: ys.map h.content := by
    rw [List.map_cons, Function.update_self, map_update_content behind]
  refine ⟨_, if_pos (layout.mem_live here), ⟨layout.rings, layout.live, fun j => ?_, ?_⟩, front,
    back⟩
  · by_cases same : j = i
    · subst same
      rw [Function.update_self, split, List.map_append, front, back]
    · rw [Function.update_of_ne same, ← layout.content j]
      exact map_update_content (fun member => same (layout.eq_of_mem member here)) h.content
  · rintro m b none
    cases none

theorem init (layout : h.Layout queues (some (n, a)) r) :
    ∃ h', h.init (.node n) = some h' ∧ h'.content = h.content ∧
      h'.Layout queues (some (n, a)) r :=
  ⟨_, if_pos layout.valid_loose, rfl, layout.rings.init layout.fresh, layout.live, layout.content,
    layout.apart⟩

omit [DecidableEq ι] in
/-- The nodes of one ring, and the nodes of the others. -/
private theorem exists_mem_iff (r : ι → List ℕ) (i : ι) :
    (∃ j, n ∈ r j) ↔ n ∈ r i ∨ ∃ j, j ≠ i ∧ n ∈ r j := by
  constructor
  · rintro ⟨j, inside⟩
    by_cases same : j = i
    · exact .inl (same ▸ inside)
    · exact .inr ⟨j, same, inside⟩
  · rintro (inside | ⟨j, -, inside⟩)
    · exact ⟨i, inside⟩
    · exact ⟨j, inside⟩

private theorem exists_mem_update (r : ι → List ℕ) (i : ι) (zs : List ℕ) :
    (∃ j, n ∈ Function.update r i zs j) ↔ n ∈ zs ∨ ∃ j, j ≠ i ∧ n ∈ r j := by
  rw [exists_mem_iff _ i, Function.update_self]
  refine or_congr_right (exists_congr fun j => and_congr_right fun other => ?_)
  rw [Function.update_of_ne other]

/-- The rings of nodes change as the rings of pointers do. -/
private theorem map_update_ring (r : ι → List ℕ) (i : ι) (zs : List ℕ) :
    (fun j => (Function.update r i zs j).map Addr.node) =
      Function.update (fun j => (r j).map (Addr.node (ι := ι))) i (zs.map .node) :=
  funext fun j => Function.apply_update (fun _ => List.map Addr.node) r i zs j

theorem add (layout : h.Layout queues (some (n, a)) r) (split : r i = xs ++ ys) :
    ∃ h', h.add (.node n) ((xs.map .node).getLastD (.head i)) = some h' ∧
      h'.content = h.content ∧
        h'.Layout (Function.update queues i (xs.map h.content ++ a :: ys.map h.content)) none
          (Function.update r i (xs ++ n :: ys)) := by
  have ring := layout.ring_at split
  have place : (xs.map Addr.node).getLastD (.head i) ∈ Addr.head i :: (r i).map .node := by
    rw [split, List.map_append, ← List.cons_append]
    exact List.mem_append_left _ List.getLastD_mem_cons
  have beyond : h.links.next ((xs.map Addr.node).getLastD (.head i)) ∈
      Addr.head i :: (r i).map .node := by
    have path := (Links.ring_append.mp ring).2.1
    rw [split, List.map_append]
    cases ys with
    | nil => rw [path.1]; exact List.mem_cons_self
    | cons y ys => rw [path.1]; simp
  refine ⟨_, if_pos ⟨layout.valid_loose, layout.valid place, layout.valid beyond⟩, rfl, ?_, ?_, ?_,
    ?_⟩
  · have mapped : (r i).map Addr.node = xs.map .node ++ ys.map (Addr.node (ι := ι)) := by
      rw [split, List.map_append]
    have rings := layout.rings.add mapped layout.fresh
    rwa [← List.map_cons, ← List.map_append, ← map_update_ring] at rings
  · intro m
    rw [layout.live m, exists_mem_update, exists_mem_iff r i, split]
    have loose : (∃ b, some (n, a) = some (m, b)) ↔ m = n := by simp [eq_comm]
    simp only [loose, List.mem_append, List.mem_cons, reduceCtorEq, exists_false, false_or]
    tauto
  · intro j
    by_cases same : j = i
    · subst same
      rw [Function.update_self, Function.update_self, List.map_append, List.map_cons,
        (layout.apart n a rfl).1]
    · rw [Function.update_of_ne same, Function.update_of_ne same]
      exact layout.content j
  · rintro m b none
    cases none

/-- At the end of a ring. -/
theorem addTail (layout : h.Layout queues (some (n, a)) r) (i : ι) :
    ∃ h', h.addTail (.node n) (.head i) = some h' ∧ h'.content = h.content ∧
      h'.Layout (Function.update queues i (queues i ++ [a])) none
        (Function.update r i (r i ++ [n])) := by
  obtain ⟨h', eq, content, after⟩ := layout.add (List.append_nil (r i)).symm
  obtain ⟨⟨node, place, -⟩, links⟩ := Option.ite_none_right_eq_some.mp eq
  have ring := layout.rings.ring i
  have back : h.Valid (h.links.prev (.head i)) := by rwa [ring.prev_head]
  refine ⟨h', ?_, content, ?_⟩
  · rw [RingHeap.addTail, if_pos ⟨node, layout.valid List.mem_cons_self, back⟩,
      Links.addTail_eq_add ring (layout.fresh i)]
    exact links
  · rwa [layout.content i] at after

/-- Taking a node out. -/
theorem del (layout : h.Layout queues none r) (split : r i = xs ++ n :: ys) :
    ∃ h', h.del (.node n) = some h' ∧ h'.content = h.content ∧
      h'.Layout (Function.update queues i (xs.map h.content ++ ys.map h.content))
        (some (n, h.content n)) (Function.update r i (xs ++ ys)) := by
  have ring := layout.ring_at split
  have here : n ∈ r i := split ▸ List.mem_append_cons_self
  have mapped : (r i).map Addr.node =
      xs.map .node ++ Addr.node n :: ys.map (Addr.node (ι := ι)) := by
    rw [split, List.map_append, List.map_cons]
  have before : h.links.prev (.node n) ∈ Addr.head i :: (r i).map .node := by
    rw [ring.prev_mid, mapped, ← List.cons_append]
    exact List.mem_append_left _ List.getLastD_mem_cons
  have behind : h.links.next (.node n) ∈ Addr.head i :: (r i).map .node := by
    rw [ring.next_mid, mapped]
    cases ys <;> simp
  obtain ⟨rings, gone⟩ := layout.rings.del .null mapped
  rw [← List.map_append, ← map_update_ring] at rings
  have absent : ∀ j, n ∉ Function.update r i (xs ++ ys) j := by
    intro j inside
    refine gone j (List.mem_cons_of_mem _ ?_)
    rw [← List.map_append, ← congrFun (map_update_ring r i (xs ++ ys)) j]
    exact List.mem_map_of_mem inside
  refine ⟨_, if_pos ⟨layout.mem_live here, layout.valid behind, layout.valid before⟩, rfl, rings,
    ?_, ?_, ?_⟩
  · intro m
    rw [layout.live m, exists_mem_update, exists_mem_iff r i, split]
    have loose : (∃ b, some (n, h.content n) = some (m, b)) ↔ m = n := by simp [eq_comm]
    simp only [loose, List.mem_append, List.mem_cons, reduceCtorEq, exists_false, false_or]
    tauto
  · intro j
    by_cases same : j = i
    · subst same
      rw [Function.update_self, Function.update_self, List.map_append]
    · rw [Function.update_of_ne same, Function.update_of_ne same]
      exact layout.content j
  · rintro m b same
    obtain ⟨rfl, rfl⟩ := Prod.mk.inj (Option.some.inj same)
    exact ⟨rfl, absent⟩

end Layout

/-! ## Rules for loops -/

/-- The rings carry `queues`, and `loose` is allocated beside them. -/
def Holds (h : RingHeap ι α) (queues : ι → List α) (loose : Option (ℕ × α)) : Prop :=
  ∃ r, h.Layout queues loose r

/-- The pointer `p` leads into the ring of `i`, to the first of `rest`, or to the head if there
is none. -/
def Cursor (h : RingHeap ι α) (queues : ι → List α) (loose : Option (ℕ × α)) (i : ι) (p : Addr ι)
    (before rest : List α) : Prop :=
  ∃ r xs ys, h.Layout queues loose r ∧ r i = xs ++ ys ∧ p = (ys.map .node).headD (.head i) ∧
    xs.map h.content = before ∧ ys.map h.content = rest

/-- The pointer `p` leads into the ring of `i`, to the last of `before`, or to the head if there
is none. -/
def Place (h : RingHeap ι α) (queues : ι → List α) (loose : Option (ℕ × α)) (i : ι) (p : Addr ι)
    (before rest : List α) : Prop :=
  ∃ r xs ys, h.Layout queues loose r ∧ r i = xs ++ ys ∧ p = (xs.map .node).getLastD (.head i) ∧
    xs.map h.content = before ∧ ys.map h.content = rest

variable {h : RingHeap ι α} {queues : ι → List α} {loose : Option (ℕ × α)} {i j : ι} {p : Addr ι}
  {before rest : List α} {n : ℕ} {a b : α}

/-- Every node that is allocated is in one of the rings, once. -/
theorem Holds.card_live [Fintype ι] (holds : h.Holds queues none) :
    h.live.card = ∑ i, (queues i).length := by
  classical
  obtain ⟨r, layout⟩ := holds
  have nodes : h.live = Finset.univ.biUnion fun i => (r i).toFinset := by
    ext n
    rw [layout.live n]
    simp
  rw [nodes, Finset.card_biUnion]
  · refine Finset.sum_congr rfl fun i _ => ?_
    rw [List.toFinset_card_of_nodup (layout.nodup i), ← layout.content i, List.length_map]
  · intro i _ j _ other
    refine Finset.disjoint_left.mpr fun n one two => other ?_
    exact layout.eq_of_mem (List.mem_toFinset.mp one) (List.mem_toFinset.mp two)

theorem Holds.length_lt_rounds (holds : h.Holds queues loose) (i : ι) :
    (queues i).length < h.rounds := by
  obtain ⟨r, layout⟩ := holds
  exact layout.length_lt_rounds i

theorem Holds.congr {queues' : ι → List α} (holds : h.Holds queues loose)
    (same : ∀ i, queues i = queues' i) : h.Holds queues' loose :=
  funext same ▸ holds

theorem Holds.alloc (holds : h.Holds queues none) {malloc : ℕ → Finset ℕ → ℕ}
    (new : malloc h.allocations h.live ∉ h.live) (a : α) :
    (h.alloc malloc a).2.Holds queues (some (malloc h.allocations h.live, a)) := by
  obtain ⟨r, layout⟩ := holds
  exact ⟨r, layout.alloc new a⟩

theorem Holds.free (holds : h.Holds queues (some (n, a))) :
    ∃ h', h.free (.node n) = some h' ∧ h'.Holds queues none := by
  obtain ⟨r, layout⟩ := holds
  obtain ⟨h', eq, after⟩ := layout.free
  exact ⟨h', eq, r, after⟩

theorem Holds.read (holds : h.Holds queues (some (n, a))) : h.read (.node n) = some a := by
  obtain ⟨r, layout⟩ := holds
  exact layout.read_loose

theorem Holds.isEmpty_iff (holds : h.Holds queues loose) (i : ι) :
    h.IsEmpty i ↔ queues i = [] := by
  obtain ⟨r, layout⟩ := holds
  rw [IsEmpty, (layout.rings.ring i).next_head, ← layout.content i, List.map_eq_nil_iff]
  cases r i with
  | nil => exact ⟨fun _ => rfl, fun _ => rfl⟩
  | cons n ns => exact iff_of_false (fun same => by cases same) (fun same => by cases same)

/-- A walk from the front of a ring. -/
theorem Holds.first (holds : h.Holds queues loose) (i : ι) :
    ∃ p, h.next (.head i) = some p ∧ h.Cursor queues loose i p [] (queues i) := by
  obtain ⟨r, layout⟩ := holds
  exact ⟨_, layout.next_head rfl, r, [], r i, layout, rfl, rfl, rfl, layout.content i⟩

/-- A walk from the end of a ring. -/
theorem Holds.last (holds : h.Holds queues loose) (i : ι) :
    ∃ p, h.prev (.head i) = some p ∧ h.Place queues loose i p (queues i) [] := by
  obtain ⟨r, layout⟩ := holds
  exact ⟨_, layout.prev_head rfl, r, r i, [], layout, (List.append_nil _).symm, rfl,
    layout.content i, rfl⟩

theorem Cursor.holds (cursor : h.Cursor queues loose i p before rest) : h.Holds queues loose := by
  obtain ⟨r, -, -, layout, -⟩ := cursor
  exact ⟨r, layout⟩

theorem Cursor.congr {queues' : ι → List α} (cursor : h.Cursor queues loose i p before rest)
    (same : ∀ i, queues i = queues' i) : h.Cursor queues' loose i p before rest :=
  funext same ▸ cursor

/-- The end of a walk. -/
theorem Cursor.eq_head (cursor : h.Cursor queues loose i p before []) : p = .head i := by
  obtain ⟨r, xs, ys, -, -, rfl, -, none⟩ := cursor
  rw [List.map_eq_nil_iff] at none
  subst none
  rfl

/-- A walk that is not at its end. -/
private theorem Cursor.node (cursor : h.Cursor queues loose i p before (a :: rest)) :
    ∃ r xs n ys, h.Layout queues loose r ∧ r i = xs ++ n :: ys ∧ p = .node n ∧
      xs.map h.content = before ∧ h.content n = a ∧ ys.map h.content = rest := by
  obtain ⟨r, xs, zs, layout, split, rfl, front, back⟩ := cursor
  obtain ⟨n, ys, rfl, here, back⟩ := List.map_eq_cons_iff.mp back
  exact ⟨r, xs, n, ys, layout, split, rfl, front, here, back⟩

theorem Cursor.ne_head (cursor : h.Cursor queues loose i p before (a :: rest)) : p ≠ .head i := by
  obtain ⟨r, xs, n, ys, -, -, rfl, -⟩ := cursor.node
  intro same
  cases same

theorem Cursor.read (cursor : h.Cursor queues loose i p before (a :: rest)) :
    h.read p = some a := by
  obtain ⟨r, xs, n, ys, layout, split, rfl, -, rfl, -⟩ := cursor.node
  exact layout.read_node (split ▸ List.mem_append_cons_self)

theorem Cursor.next (cursor : h.Cursor queues loose i p before (a :: rest)) :
    ∃ p', h.next p = some p' ∧ h.Cursor queues loose i p' (before ++ [a]) rest := by
  obtain ⟨r, xs, n, ys, layout, split, rfl, rfl, rfl, rfl⟩ := cursor.node
  refine ⟨_, layout.next_node split, r, xs ++ [n], ys, layout, ?_, rfl, ?_, rfl⟩
  · rw [split, List.append_assoc, List.singleton_append]
  · rw [List.map_append, List.map_singleton]

/-- An allocation leaves a walk alone. -/
theorem Cursor.alloc (cursor : h.Cursor queues none i p before rest) {malloc : ℕ → Finset ℕ → ℕ}
    (new : malloc h.allocations h.live ∉ h.live) (a : α) :
    (h.alloc malloc a).2.Cursor queues (some (malloc h.allocations h.live, a)) i p before rest := by
  obtain ⟨r, xs, ys, layout, split, rfl, rfl, rfl⟩ := cursor
  have absent : ∀ zs ⊆ r i, malloc h.allocations h.live ∉ zs := fun zs inside member =>
    new (layout.mem_live (inside member))
  refine ⟨r, xs, ys, layout.alloc new a, split, rfl, ?_, ?_⟩
  · exact Layout.map_update_content (absent xs (split ▸ List.subset_append_left xs ys)) h.content
  · exact Layout.map_update_content (absent ys (split ▸ List.subset_append_right xs ys)) h.content

theorem Place.eq_head (place : h.Place queues loose i p [] rest) : p = .head i := by
  obtain ⟨r, xs, ys, -, -, rfl, none, -⟩ := place
  rw [List.map_eq_nil_iff] at none
  subst none
  rfl

/-- The node a walk from the end has come to. -/
theorem Place.cursor (place : h.Place queues loose i p (before ++ [a]) rest) :
    h.Cursor queues loose i p before (a :: rest) := by
  obtain ⟨r, zs, ys, layout, split, rfl, front, rfl⟩ := place
  obtain ⟨xs, last, rfl, rfl, here⟩ := List.map_eq_append_iff.mp front
  obtain ⟨n, rfl, rfl⟩ := List.map_eq_singleton_iff.mp here
  refine ⟨r, xs, n :: ys, layout, ?_, ?_, rfl, rfl⟩
  · rw [split, List.append_assoc, List.singleton_append]
  · rw [List.map_append, List.map_singleton, List.getLastD_concat]
    rfl

theorem Place.prev (place : h.Place queues loose i p (before ++ [a]) rest) :
    ∃ p', h.prev p = some p' ∧ h.Place queues loose i p' before (a :: rest) := by
  obtain ⟨r, xs, n, ys, layout, split, rfl, rfl, rfl, rfl⟩ := place.cursor.node
  exact ⟨_, layout.prev_node split, r, xs, n :: ys, layout, split, rfl, rfl, rfl⟩

/-- A walk does not notice what is stored in a node. -/
theorem next_of_write {h' : RingHeap ι α} (eq : h.write p a = some h') (q : Addr ι) :
    h'.next q = h.next q := by
  cases p with
  | node n =>
    obtain ⟨-, same⟩ := Option.ite_none_right_eq_some.mp eq
    obtain rfl := Option.some.inj same
    cases q <;> rfl
  | null => cases eq
  | head i => cases eq

section Stores

variable [DecidableEq ι]

theorem Holds.init (holds : h.Holds queues (some (n, a))) :
    ∃ h', h.init (.node n) = some h' ∧ h'.Holds queues (some (n, a)) := by
  obtain ⟨r, layout⟩ := holds
  obtain ⟨h', eq, -, after⟩ := layout.init
  exact ⟨h', eq, r, after⟩

theorem Holds.addTail (holds : h.Holds queues (some (n, a))) (i : ι) :
    ∃ h', h.addTail (.node n) (.head i) = some h' ∧
      h'.Holds (Function.update queues i (queues i ++ [a])) none := by
  obtain ⟨r, layout⟩ := holds
  obtain ⟨h', eq, -, after⟩ := layout.addTail i
  exact ⟨h', eq, _, after⟩

theorem Cursor.write (cursor : h.Cursor queues none i p before (a :: rest)) (b : α) :
    ∃ h', h.write p b = some h' ∧
      h'.Cursor (Function.update queues i (before ++ b :: rest)) none i p before (b :: rest) := by
  obtain ⟨r, xs, n, ys, layout, split, rfl, rfl, rfl, rfl⟩ := cursor.node
  obtain ⟨h', eq, after, front, back⟩ := layout.write split b
  exact ⟨h', eq, r, xs, n :: ys, after, split, rfl, front, back⟩

theorem Cursor.del (cursor : h.Cursor queues none i p before (a :: rest)) :
    ∃ n h', p = .node n ∧ h.del p = some h' ∧
      h'.Holds (Function.update queues i (before ++ rest)) (some (n, a)) := by
  obtain ⟨r, xs, n, ys, layout, split, rfl, rfl, rfl, rfl⟩ := cursor.node
  obtain ⟨h', eq, -, after⟩ := layout.del split
  exact ⟨n, h', rfl, eq, _, after⟩

/-- Taking a node out and freeing it, on a walk that has read the next pointer before. -/
theorem Cursor.drop (cursor : h.Cursor queues none i p before (a :: rest)) :
    ∃ p' h₁ h₂, h.next p = some p' ∧ h.del p = some h₁ ∧ h₁.free p = some h₂ ∧
      h₂.Cursor (Function.update queues i (before ++ rest)) none i p' before rest := by
  obtain ⟨r, xs, n, ys, layout, split, rfl, rfl, rfl, rfl⟩ := cursor.node
  obtain ⟨h₁, deleted, content, taken⟩ := layout.del split
  obtain ⟨h₂, freed, after⟩ := taken.free
  obtain ⟨-, same⟩ := Option.ite_none_right_eq_some.mp freed
  obtain rfl := Option.some.inj same
  refine ⟨_, h₁, _, layout.next_node split, deleted, freed, _, xs, ys, after,
    Function.update_self .., rfl, ?_, ?_⟩
  · exact congrArg (List.map · xs) content
  · exact congrArg (List.map · ys) content

/-- Moving a node to the end of another ring. -/
theorem Cursor.move (cursor : h.Cursor queues none i p before (a :: rest)) (other : j ≠ i) :
    ∃ h₁ h₂, h.del p = some h₁ ∧ h₁.addTail p (.head j) = some h₂ ∧
      h₂.Cursor (Function.update (Function.update queues i (before ++ rest)) j (queues j ++ [a]))
        none j p (queues j) [a] := by
  obtain ⟨r, xs, n, ys, layout, split, rfl, rfl, rfl, rfl⟩ := cursor.node
  obtain ⟨h₁, deleted, content, taken⟩ := layout.del split
  obtain ⟨h₂, added, content', after⟩ := taken.addTail j
  rw [Function.update_of_ne other, Function.update_of_ne other] at after
  refine ⟨h₁, h₂, deleted, added, _, r j, [n], after, Function.update_self .., rfl, ?_, ?_⟩
  · rw [content', content, layout.content j]
  · rw [content', content, List.map_singleton]

/-- Putting a node in at the end of a ring in which a walk has not come so far. -/
theorem Cursor.addTail (cursor : h.Cursor queues (some (n, a)) i p before (b :: rest)) :
    ∃ h', h.addTail (.node n) (.head i) = some h' ∧
      h'.Cursor (Function.update queues i (queues i ++ [a])) none i p before
        (b :: (rest ++ [a])) := by
  obtain ⟨r, xs, m, ys, layout, split, rfl, rfl, rfl, rfl⟩ := cursor.node
  obtain ⟨h', eq, content, after⟩ := layout.addTail i
  refine ⟨h', eq, _, xs, m :: (ys ++ [n]), after, ?_, rfl, by rw [content], ?_⟩
  · rw [Function.update_self, split, List.append_assoc, List.cons_append]
  · rw [content, List.map_cons, List.map_append, List.map_singleton, (layout.apart n a rfl).1]

theorem Place.init (place : h.Place queues (some (n, a)) i p before rest) :
    ∃ h', h.init (.node n) = some h' ∧ h'.Place queues (some (n, a)) i p before rest := by
  obtain ⟨r, xs, ys, layout, split, rfl, rfl, rfl⟩ := place
  obtain ⟨h', eq, content, after⟩ := layout.init
  exact ⟨h', eq, r, xs, ys, after, split, rfl, by rw [content], by rw [content]⟩

/-- Putting a node in where a walk from the end has stopped. -/
theorem Place.add (place : h.Place queues (some (n, a)) i p before rest) :
    ∃ h', h.add (.node n) p = some h' ∧
      h'.Holds (Function.update queues i (before ++ a :: rest)) none := by
  obtain ⟨r, xs, ys, layout, split, rfl, rfl, rfl⟩ := place
  obtain ⟨h', eq, -, after⟩ := layout.add split
  exact ⟨h', eq, _, after⟩

end Stores

end RingHeap

end OmniSocket.Lib
