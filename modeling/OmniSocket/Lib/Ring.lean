/-
# Rings of linked nodes

A doubly linked ring runs from a head over its nodes back to the head. Nodes can
be put behind any node of the ring or taken out of it with a few stores, which
leave every other ring as it is.
-/

import Mathlib.Data.List.GetD
import Mathlib.Data.List.Nodup
import Mathlib.Logic.Function.Basic

set_option autoImplicit false

namespace OmniSocket.Lib

/-- Where the two pointers of each node lead. -/
structure Links (α : Type*) where
  next : α → α
  prev : α → α

namespace Links

variable {α : Type*} {h h' : Links α}

/-! ## Paths and rings -/

/-- The nodes after `a` follow each other, with pointers both ways. -/
def Path (h : Links α) : α → List α → Prop
  | _, [] => True
  | a, b :: rest => h.next a = b ∧ h.prev b = a ∧ Path h b rest

theorem path_append {a : α} {xs ys : List α} :
    h.Path a (xs ++ ys) ↔ h.Path a xs ∧ h.Path (xs.getLastD a) ys := by
  induction xs generalizing a with
  | nil => simp [Path]
  | cons x xs ih => simp only [List.cons_append, Path, ih, List.getLastD_cons, and_assoc]

/-- A path is left alone by stores to other nodes. -/
theorem Path.congr {a : α} {xs : List α} (path : h.Path a xs)
    (next : ∀ b ∈ (a :: xs).dropLast, h'.next b = h.next b)
    (prev : ∀ b ∈ xs, h'.prev b = h.prev b) : h'.Path a xs := by
  induction xs generalizing a with
  | nil => trivial
  | cons x xs ih =>
    obtain ⟨forth, back, rest⟩ := path
    rw [List.dropLast_cons_cons] at next
    refine ⟨(next a List.mem_cons_self).trans forth, (prev x List.mem_cons_self).trans back, ?_⟩
    exact ih rest (fun b member => next b (List.mem_cons_of_mem a member))
      fun b member => prev b (List.mem_cons_of_mem x member)

/-- The ring of `head` goes over `xs`. -/
structure Ring (h : Links α) (head : α) (xs : List α) : Prop where
  path : h.Path head (xs ++ [head])
  nodup : (head :: xs).Nodup

variable {head : α} {xs ys : List α}

/-- A ring is left alone by stores to other nodes. -/
theorem Ring.congr (ring : h.Ring head xs) (next : ∀ b ∈ head :: xs, h'.next b = h.next b)
    (prev : ∀ b ∈ head :: xs, h'.prev b = h.prev b) : h'.Ring head xs := by
  refine ⟨ring.path.congr (fun b member => next b ?_) (fun b member => prev b ?_), ring.nodup⟩
  · rwa [← List.cons_append, List.dropLast_concat] at member
  · rcases List.mem_append.mp member with inside | last
    · exact List.mem_cons_of_mem head inside
    · exact List.mem_singleton.mp last ▸ List.mem_cons_self

/-- At any place a ring consists of a path to it and a path from it. -/
theorem ring_append : h.Ring head (xs ++ ys) ↔ h.Path head xs ∧
    h.Path (xs.getLastD head) (ys ++ [head]) ∧ (head :: (xs ++ ys)).Nodup := by
  constructor
  · intro ring
    have path := ring.path
    rw [List.append_assoc, path_append] at path
    exact ⟨path.1, path.2, ring.nodup⟩
  · rintro ⟨before, behind, nodup⟩
    exact ⟨by rw [List.append_assoc, path_append]; exact ⟨before, behind⟩, nodup⟩

/-- The first node of a ring, or its head. -/
theorem Ring.next_head (ring : h.Ring head xs) : h.next head = xs.headD head := by
  have path := ring.path
  cases xs <;> exact path.1

/-- The last node of a ring, or its head. -/
theorem Ring.prev_head (ring : h.Ring head xs) : h.prev head = xs.getLastD head := by
  have last := (path_append.mp ring.path).2
  exact last.2.1

/-- The node behind a node of the ring. -/
theorem Ring.next_mid {x : α} (ring : h.Ring head (xs ++ x :: ys)) : h.next x = ys.headD head := by
  have behind := (ring_append.mp ring).2.1.2.2
  cases ys <;> exact behind.1

/-- The node before a node of the ring. -/
theorem Ring.prev_mid {x : α} (ring : h.Ring head (xs ++ x :: ys)) :
    h.prev x = xs.getLastD head := (ring_append.mp ring).2.1.2.1

/-- The node before a place is neither before itself nor behind the place. -/
private theorem getLastD_not_mem (nodup : (head :: (xs ++ ys)).Nodup) :
    xs.getLastD head ∉ (head :: xs).dropLast ∧ xs.getLastD head ∉ ys := by
  rw [← List.cons_append] at nodup
  obtain ⟨before, -, apart⟩ := List.nodup_append.mp nodup
  refine ⟨?_, fun inside => apart _ List.getLastD_mem_cons _ inside rfl⟩
  rcases List.eq_nil_or_concat xs with rfl | ⟨rest, last, rfl⟩
  · simp
  · rw [List.concat_eq_append, ← List.cons_append] at before
    rw [List.concat_eq_append, List.getLastD_concat, ← List.cons_append, List.dropLast_concat]
    exact fun inside => (List.nodup_append.mp before).2.2 _ inside last (by simp) rfl

/-- The node behind a place is none of the nodes before it. -/
private theorem headD_not_mem (nodup : (head :: (xs ++ ys)).Nodup) : ys.headD head ∉ xs := by
  intro inside
  obtain ⟨outside, apart⟩ := List.nodup_cons.mp nodup
  cases ys with
  | nil => exact outside (List.mem_append_left _ inside)
  | cons y ys => exact (List.nodup_append.mp apart).2.2 _ inside y List.mem_cons_self rfl

/-- Behind a place comes its neighbour, and then a path that is left alone by stores to the
other nodes. -/
private theorem path_place {a c : α} (behind : h.Path c (ys ++ [head])) (nodup : (head :: ys).Nodup)
    (forth : h'.next a = ys.headD head) (back : h'.prev (ys.headD head) = a)
    (next : ∀ b ∈ ys, h'.next b = h.next b)
    (prev : ∀ b ∈ head :: ys, b ≠ ys.headD head → h'.prev b = h.prev b) :
    h'.Path a (ys ++ [head]) := by
  cases ys with
  | nil => exact ⟨forth, back, trivial⟩
  | cons y ys =>
    refine ⟨forth, back, behind.2.2.congr ?_ ?_⟩
    · show ∀ b ∈ (y :: (ys ++ [head])).dropLast, _
      rw [← List.cons_append, List.dropLast_concat]
      exact next
    · intro b member
      obtain ⟨outside, apart⟩ := List.nodup_cons.mp nodup
      rcases List.mem_append.mp member with inside | last
      · refine prev b (List.mem_cons_of_mem head (List.mem_cons_of_mem y inside)) ?_
        rintro rfl
        exact (List.nodup_cons.mp apart).1 inside
      · obtain rfl := List.mem_singleton.mp last
        exact prev b List.mem_cons_self fun same => outside (same ▸ List.mem_cons_self)

/-! ## Stores -/

variable [DecidableEq α]

def setNext (h : Links α) (node target : α) : Links α :=
  { h with next := Function.update h.next node target }

def setPrev (h : Links α) (node target : α) : Links α :=
  { h with prev := Function.update h.prev node target }

/-- A node that is alone in its ring. -/
def init (h : Links α) (node : α) : Links α := (h.setNext node node).setPrev node node

/-- Put `node` behind `place`. -/
def add (h : Links α) (node place : α) : Links α :=
  let h := h.setPrev node place
  let h := h.setNext node (h.next place)
  let h := h.setPrev (h.next place) node
  h.setNext place node

/-- Put `node` before `head`, at the end of its ring. -/
def addTail (h : Links α) (node head : α) : Links α :=
  let h := h.setPrev node (h.prev head)
  let h := h.setNext node head
  let h := h.setNext (h.prev head) node
  h.setPrev head node

/-- Take `node` out of its ring, and leave it with the pointers `null`. -/
def del (null : α) (h : Links α) (node : α) : Links α :=
  let h := h.setPrev (h.next node) (h.prev node)
  let h := h.setNext (h.prev node) (h.next node)
  let h := h.setNext node null
  h.setPrev node null

/-- What the stores of `add` amount to. -/
theorem add_eq {node place : α} (h : Links α) (other : node ≠ place) :
    h.add node place =
      ⟨Function.update (Function.update h.next node (h.next place)) place node,
        Function.update (Function.update h.prev node place) (h.next place) node⟩ := by
  simp only [add, setPrev, setNext, Function.update_of_ne other.symm]

/-- At the end of a ring both ways to put a node in are the same. -/
theorem addTail_eq_add {node : α} (ring : h.Ring head xs) (fresh : node ∉ head :: xs) :
    h.addTail node head = h.add node (xs.getLastD head) := by
  have other : head ≠ node := fun same => fresh (same ▸ List.mem_cons_self)
  have last : node ≠ xs.getLastD head := fun same => fresh (same ▸ List.getLastD_mem_cons)
  have back := ring.prev_head
  have forth : h.next (xs.getLastD head) = head := (path_append.mp ring.path).2.1
  rw [add_eq h last, forth]
  simp only [addTail, setPrev, setNext, Function.update_of_ne other, back]

/-- Putting a node in behind a place of the ring. -/
theorem Ring.add {node : α} (ring : h.Ring head (xs ++ ys)) (fresh : node ∉ head :: (xs ++ ys)) :
    (h.add node (xs.getLastD head)).Ring head (xs ++ node :: ys) := by
  obtain ⟨before, behind, nodup⟩ := ring_append.mp ring
  obtain ⟨notBefore, notBehind⟩ := getLastD_not_mem nodup
  have place : xs.getLastD head ∈ head :: (xs ++ ys) := by
    rw [← List.cons_append]
    exact List.mem_append_left _ List.getLastD_mem_cons
  have other : node ≠ xs.getLastD head := fun same => fresh (same ▸ place)
  have second : h.next (xs.getLastD head) = ys.headD head := by
    cases ys <;> exact behind.1
  have beyond : node ≠ ys.headD head := by
    rintro rfl
    cases ys <;> simp at fresh
  rw [add_eq h other, second]
  have others : (head :: ys).Nodup :=
    nodup.sublist ((List.sublist_append_right xs ys).cons_cons head)
  refine ring_append.mpr ⟨before.congr ?_ ?_, ⟨?_, ?_, path_place behind others ?_ ?_ ?_ ?_⟩, ?_⟩
  · intro b member
    have inside := List.mem_append_left ys (List.dropLast_subset _ member)
    have one : b ≠ xs.getLastD head := fun same => notBefore (same ▸ member)
    have two : b ≠ node := fun same => fresh (same ▸ inside)
    simp only [Function.update_of_ne one, Function.update_of_ne two]
  · intro b member
    have one : b ≠ ys.headD head := fun same => headD_not_mem nodup (same ▸ member)
    have two : b ≠ node := fun same =>
      fresh (same ▸ List.mem_cons_of_mem head (List.mem_append_left ys member))
    simp only [Function.update_of_ne one, Function.update_of_ne two]
  · exact Function.update_self ..
  · simp only [Function.update_of_ne beyond, Function.update_self]
  · simp only [Function.update_of_ne other, Function.update_self]
  · exact Function.update_self ..
  · intro b member
    have one : b ≠ xs.getLastD head := fun same => notBehind (same ▸ member)
    have two : b ≠ node := fun same =>
      fresh (same ▸ List.mem_cons_of_mem head (List.mem_append_right xs member))
    simp only [Function.update_of_ne one, Function.update_of_ne two]
  · intro b member one
    have two : b ≠ node := fun same =>
      fresh (same ▸ ((List.sublist_append_right xs ys).cons_cons head).subset member)
    simp only [Function.update_of_ne one, Function.update_of_ne two]
  · have perm : (head :: (xs ++ node :: ys)).Perm (node :: head :: (xs ++ ys)) :=
      (List.perm_middle.cons head).trans (List.Perm.swap node head _)
    exact perm.nodup_iff.mpr (List.nodup_cons.mpr ⟨fresh, nodup⟩)

/-- What the stores of `del` amount to. -/
theorem del_eq {node null : α} (h : Links α) (next : h.next node ≠ node) :
    h.del null node =
      ⟨Function.update (Function.update h.next (h.prev node) (h.next node)) node null,
        Function.update (Function.update h.prev (h.next node) (h.prev node)) node null⟩ := by
  have back : Function.update h.prev (h.next node) (h.prev node) node = h.prev node :=
    Function.update_of_ne next.symm ..
  simp only [del, setPrev, setNext, back]

/-- Taking a node out of the ring. -/
theorem Ring.del {node : α} (null : α) (ring : h.Ring head (xs ++ node :: ys)) :
    (h.del null node).Ring head (xs ++ ys) := by
  obtain ⟨before, ⟨-, -, behind⟩, all⟩ := ring_append.mp ring
  have perm : (head :: (xs ++ node :: ys)).Perm (node :: head :: (xs ++ ys)) :=
    (List.perm_middle.cons head).trans (List.Perm.swap node head _)
  obtain ⟨fresh, nodup⟩ := List.nodup_cons.mp (perm.nodup_iff.mp all)
  obtain ⟨notBefore, notBehind⟩ := getLastD_not_mem nodup
  have place : xs.getLastD head ∈ head :: (xs ++ ys) := by
    rw [← List.cons_append]
    exact List.mem_append_left _ List.getLastD_mem_cons
  have other : node ≠ xs.getLastD head := fun same => fresh (same ▸ place)
  have beyond : node ≠ ys.headD head := by
    rintro rfl
    cases ys <;> simp at fresh
  rw [del_eq h (by rw [ring.next_mid]; exact beyond.symm), ring.next_mid, ring.prev_mid]
  have others : (head :: ys).Nodup :=
    nodup.sublist ((List.sublist_append_right xs ys).cons_cons head)
  refine ring_append.mpr ⟨before.congr ?_ ?_, path_place behind others ?_ ?_ ?_ ?_, nodup⟩
  · intro b member
    have inside := List.mem_append_left ys (List.dropLast_subset _ member)
    have one : b ≠ xs.getLastD head := fun same => notBefore (same ▸ member)
    have two : b ≠ node := fun same => fresh (same ▸ inside)
    simp only [Function.update_of_ne one, Function.update_of_ne two]
  · intro b member
    have one : b ≠ ys.headD head := fun same => headD_not_mem nodup (same ▸ member)
    have two : b ≠ node := fun same =>
      fresh (same ▸ List.mem_cons_of_mem head (List.mem_append_left ys member))
    simp only [Function.update_of_ne one, Function.update_of_ne two]
  · simp only [Function.update_of_ne other.symm, Function.update_self]
  · simp only [Function.update_of_ne beyond.symm, Function.update_self]
  · intro b member
    have one : b ≠ xs.getLastD head := fun same => notBehind (same ▸ member)
    have two : b ≠ node := fun same =>
      fresh (same ▸ List.mem_cons_of_mem head (List.mem_append_right xs member))
    simp only [Function.update_of_ne one, Function.update_of_ne two]
  · intro b member one
    have two : b ≠ node := fun same =>
      fresh (same ▸ ((List.sublist_append_right xs ys).cons_cons head).subset member)
    simp only [Function.update_of_ne one, Function.update_of_ne two]

/-! ## Several rings -/

/-- The heads `heads` have the rings `r`, with no node in common. -/
structure Rings {ι : Type*} (h : Links α) (heads : ι → α) (r : ι → List α) : Prop where
  ring : ∀ i, h.Ring (heads i) (r i)
  apart : ∀ i j, i ≠ j → (heads i :: r i).Disjoint (heads j :: r j)

namespace Rings

variable {ι : Type*} [DecidableEq ι] {heads : ι → α} {r : ι → List α} {i : ι} {node : α}

omit [DecidableEq α] [DecidableEq ι] in
/-- No node is in two rings. -/
theorem eq_of_mem (rings : h.Rings heads r) {j : ι} {a : α} (one : a ∈ heads i :: r i)
    (other : a ∈ heads j :: r j) : i = j := by
  by_contra different
  exact rings.apart i j different one other

omit [DecidableEq α] in
/-- One ring changes, the nodes of the others are left alone. -/
theorem update (rings : h.Rings heads r) {zs : List α} (ring : h'.Ring (heads i) zs)
    (apart : ∀ j, j ≠ i → (heads i :: zs).Disjoint (heads j :: r j))
    (next : ∀ j, j ≠ i → ∀ b ∈ heads j :: r j, h'.next b = h.next b)
    (prev : ∀ j, j ≠ i → ∀ b ∈ heads j :: r j, h'.prev b = h.prev b) :
    h'.Rings heads (Function.update r i zs) := by
  constructor
  · intro j
    by_cases same : j = i
    · subst same
      rw [Function.update_self]
      exact ring
    · rw [Function.update_of_ne same]
      exact (rings.ring j).congr (next j same) (prev j same)
  · intro j k different
    by_cases first : j = i
    · subst first
      rw [Function.update_self, Function.update_of_ne different.symm]
      exact apart k different.symm
    · rw [Function.update_of_ne first]
      by_cases second : k = i
      · subst second
        rw [Function.update_self]
        exact fun a one other => apart j first other one
      · rw [Function.update_of_ne second]
        exact rings.apart j k different

omit [DecidableEq ι] in
/-- A node that is in no ring is left alone in a ring of its own. -/
theorem init (rings : h.Rings heads r) (fresh : ∀ j, node ∉ heads j :: r j) :
    (h.init node).Rings heads r := by
  have other : ∀ j, ∀ b ∈ heads j :: r j, b ≠ node := by
    rintro j b member rfl
    exact fresh j member
  refine ⟨fun j => (rings.ring j).congr ?_ ?_, rings.apart⟩
  · exact fun b member => Function.update_of_ne (other j b member) ..
  · exact fun b member => Function.update_of_ne (other j b member) ..

/-- Putting a node that is in no ring in behind a place of one of them. -/
theorem add (rings : h.Rings heads r) (split : r i = xs ++ ys)
    (fresh : ∀ j, node ∉ heads j :: r j) :
    (h.add node (xs.getLastD (heads i))).Rings heads (Function.update r i (xs ++ node :: ys)) := by
  have ring := rings.ring i
  rw [split] at ring
  have absent := fresh i
  rw [split] at absent
  have place : xs.getLastD (heads i) ∈ heads i :: r i := by
    rw [split, ← List.cons_append]
    exact List.mem_append_left _ List.getLastD_mem_cons
  have second : h.next (xs.getLastD (heads i)) ∈ heads i :: r i := by
    have behind := (ring_append.mp ring).2.1
    rw [split]
    cases ys with
    | nil =>
      rw [show h.next (xs.getLastD (heads i)) = heads i from behind.1]
      exact List.mem_cons_self
    | cons y ys =>
      rw [show h.next (xs.getLastD (heads i)) = y from behind.1]
      simp
  have other : node ≠ xs.getLastD (heads i) := fun same => fresh i (same ▸ place)
  refine rings.update (ring.add absent) ?_ ?_ ?_
  · intro j different a one member
    have old : a = node ∨ a ∈ heads i :: r i := by
      rw [split]
      simp only [List.mem_cons, List.mem_append] at one ⊢
      tauto
    rcases old with rfl | old
    · exact fresh j member
    · exact different (rings.eq_of_mem member old)
  · intro j different b member
    have one : b ≠ xs.getLastD (heads i) := fun same =>
      different (rings.eq_of_mem member (same ▸ place))
    have two : b ≠ node := fun same => fresh j (same ▸ member)
    simp only [add_eq h other, Function.update_of_ne one, Function.update_of_ne two]
  · intro j different b member
    have one : b ≠ h.next (xs.getLastD (heads i)) := fun same =>
      different (rings.eq_of_mem member (same ▸ second))
    have two : b ≠ node := fun same => fresh j (same ▸ member)
    simp only [add_eq h other, Function.update_of_ne one, Function.update_of_ne two]

/-- Taking a node out of its ring. -/
theorem del (null : α) (rings : h.Rings heads r) (split : r i = xs ++ node :: ys) :
    (h.del null node).Rings heads (Function.update r i (xs ++ ys)) ∧
      ∀ j, node ∉ heads j :: Function.update r i (xs ++ ys) j := by
  have ring := rings.ring i
  rw [split] at ring
  have inside : node ∈ heads i :: r i := by
    rw [split]
    simp
  have perm : (heads i :: (xs ++ node :: ys)).Perm (node :: heads i :: (xs ++ ys)) :=
    (List.perm_middle.cons (heads i)).trans (List.Perm.swap node (heads i) _)
  obtain ⟨gone, -⟩ := List.nodup_cons.mp (perm.nodup_iff.mp ring.nodup)
  have before : h.prev node ∈ heads i :: r i := by
    rw [ring.prev_mid, split, ← List.cons_append]
    exact List.mem_append_left _ List.getLastD_mem_cons
  have behind : h.next node ∈ heads i :: r i := by
    rw [ring.next_mid, split]
    cases ys <;> simp
  have moved : h.next node ≠ node := by
    rw [ring.next_mid]
    rintro same
    cases ys with
    | nil => exact gone (same ▸ List.mem_cons_self)
    | cons y ys => exact gone (same ▸ by simp)
  constructor
  · refine rings.update (ring.del null) ?_ ?_ ?_
    · intro j different a one member
      refine different (rings.eq_of_mem member ?_)
      rw [split]
      simp only [List.mem_cons, List.mem_append] at one ⊢
      tauto
    · intro j different b member
      have one : b ≠ h.prev node := fun same => different (rings.eq_of_mem member (same ▸ before))
      have two : b ≠ node := fun same => different (rings.eq_of_mem member (same ▸ inside))
      simp only [del_eq h moved, Function.update_of_ne one, Function.update_of_ne two]
    · intro j different b member
      have one : b ≠ h.next node := fun same => different (rings.eq_of_mem member (same ▸ behind))
      have two : b ≠ node := fun same => different (rings.eq_of_mem member (same ▸ inside))
      simp only [del_eq h moved, Function.update_of_ne one, Function.update_of_ne two]
  · intro j
    by_cases same : j = i
    · subst same
      rw [Function.update_self]
      exact gone
    · rw [Function.update_of_ne same]
      exact fun member => same (rings.eq_of_mem member inside)

end Rings

end Links

end OmniSocket.Lib
