/-
# Transferring a list in pieces

A sender cuts a list into data pieces and closes with a finishing mark once
every item has been cut off. A receiver that has taken some of the pieces, in
order and from the front, holds a prefix of the list; a receiver that has taken
the finishing mark holds all of it. Nothing is assumed about why the sender
stopped or where the receiver is.
-/

import Mathlib.Data.List.Basic
import Mathlib.Data.List.Flatten
import Mathlib.Data.List.Infix

set_option autoImplicit false

namespace OmniSocket.Lib

/-- What a sender of a list emits. -/
inductive Piece (α : Type*)
  | data (items : List α)
  | finish
  deriving DecidableEq, Repr

namespace Piece

variable {α : Type*}

/-- The items carried by one piece. -/
def items : Piece α → List α
  | data xs => xs
  | finish => []

/-- The items carried by a sequence of pieces. -/
def content (pieces : List (Piece α)) : List α := pieces.flatMap items

@[simp] theorem content_append (first second : List (Piece α)) :
    content (first ++ second) = content first ++ content second :=
  List.flatMap_append

@[simp] theorem content_singleton (piece : Piece α) : content [piece] = piece.items := by
  simp [content]

theorem content_map_data (chunks : List (List α)) :
    content (chunks.map data) = chunks.flatten := by
  induction chunks with
  | nil => rfl
  | cons xs rest ih =>
    rw [List.map_cons, List.flatten_cons, ← ih]
    rfl

theorem finish_notMem_map_data (chunks : List (List α)) : finish ∉ chunks.map data := by
  simp

/-- The pieces are an honest account of a list: data pieces that follow the
list, then at most one finishing mark, and that only at the end of the list. -/
def Announces (whole : List α) (pieces : List (Piece α)) : Prop :=
  ∃ chunks : List (List α),
    (pieces = chunks.map data ∧ chunks.flatten <+: whole) ∨
    (pieces = chunks.map data ++ [finish] ∧ chunks.flatten = whole)

theorem Announces.content_prefix {whole : List α} {pieces : List (Piece α)}
    (honest : Announces whole pieces) : content pieces <+: whole := by
  obtain ⟨chunks, ⟨rfl, inside⟩ | ⟨rfl, all⟩⟩ := honest
  · rwa [content_map_data]
  · rw [content_append, content_map_data, all, content_singleton]
    exact (List.append_nil whole).symm ▸ List.prefix_rfl

/-- Taking pieces in order yields a prefix of the list. -/
theorem content_prefix_of_prefix {whole : List α} {taken pieces : List (Piece α)}
    (honest : Announces whole pieces) (inOrder : taken <+: pieces) :
    content taken <+: whole := by
  obtain ⟨rest, rfl⟩ := inOrder
  have inside := honest.content_prefix
  rw [content_append] at inside
  exact (List.prefix_append _ _).trans inside

/-- Nothing follows the finishing mark. -/
theorem Announces.finish_last {whole : List α} {first second : List (Piece α)}
    (honest : Announces whole (first ++ second)) (marked : finish ∈ first) : second = [] := by
  obtain ⟨chunks, ⟨split, -⟩ | ⟨split, -⟩⟩ := honest
  · have inside : finish ∈ chunks.map (data (α := α)) :=
      split ▸ List.mem_append_left second marked
    exact absurd inside (finish_notMem_map_data chunks)
  · rcases List.eq_nil_or_concat second with empty | ⟨front, last, rfl⟩
    · exact empty
    · -- the mark would sit among the data pieces, strictly before the last piece
      rw [List.concat_eq_append, ← List.append_assoc] at split
      have front_eq := List.append_inj_left' split rfl
      have inside : finish ∈ chunks.map (data (α := α)) :=
        front_eq ▸ List.mem_append_left front marked
      exact absurd inside (finish_notMem_map_data chunks)

/-- Taking the finishing mark means holding the whole list. -/
theorem content_eq_of_finish_mem {whole : List α} {taken pieces : List (Piece α)}
    (honest : Announces whole pieces) (inOrder : taken <+: pieces) (marked : finish ∈ taken) :
    content taken = whole := by
  obtain ⟨rest, rfl⟩ := inOrder
  obtain rfl := honest.finish_last marked
  rw [List.append_nil] at honest
  obtain ⟨chunks, ⟨rfl, -⟩ | ⟨rfl, all⟩⟩ := honest
  · exact absurd marked (finish_notMem_map_data chunks)
  · rw [content_append, content_map_data, all, content_singleton]
    exact List.append_nil whole

/-! ## Several receivers -/

/-- Leaving pieces out leaves their items out. -/
theorem content_sublist {taken pieces : List (Piece α)} (inOrder : taken.Sublist pieces) :
    (content taken).Sublist (content pieces) :=
  inOrder.flatMap items

theorem content_flatMap {ι : Type*} (targets : List ι) (share : ι → List (Piece α)) :
    content (targets.flatMap share) = targets.flatMap fun t => content (share t) :=
  List.flatMap_assoc

/-- Nothing follows the finishing mark even where other pieces have been left out. -/
theorem Announces.finish_last_of_sublist {whole : List α} {pieces first second : List (Piece α)}
    (honest : Announces whole pieces) (inOrder : (first ++ second).Sublist pieces)
    (marked : finish ∈ first) : second = [] := by
  obtain ⟨before, after, rfl, inside, behind⟩ := List.append_sublist_iff.mp inOrder
  obtain rfl := honest.finish_last (inside.subset marked)
  exact List.sublist_nil.mp behind

/-- If the pieces go to one receiver after the other, and the first of them are lost, then
the shares of the receivers lie in the list one behind the other. -/
theorem Announces.shares_prefix {ι : Type*} {whole : List α} {lost rest : List (Piece α)}
    {targets : List ι} {share : ι → List (Piece α)}
    (honest : Announces whole (lost ++ targets.flatMap share ++ rest)) :
    content lost ++ targets.flatMap (fun t => content (share t)) <+: whole := by
  rw [← content_flatMap, ← content_append]
  exact content_prefix_of_prefix honest (List.prefix_append _ _)

/-- Nothing follows the finishing mark in a share. -/
theorem Announces.finish_last_of_share {ι : Type*} {whole : List α} {lost rest : List (Piece α)}
    {targets : List ι} {share : ι → List (Piece α)} {t : ι} {first second : List (Piece α)}
    (honest : Announces whole (lost ++ targets.flatMap share ++ rest)) (listed : t ∈ targets)
    (inOrder : (first ++ second).Sublist (share t)) (marked : finish ∈ first) : second = [] := by
  have inside : (share t).Sublist (targets.flatMap share) := by
    rw [List.flatMap_def]
    exact List.sublist_flatten_of_mem (List.mem_map_of_mem listed)
  refine honest.finish_last_of_sublist ?_ marked
  exact inOrder.trans (inside.trans ((List.sublist_append_right _ _).trans
    (List.sublist_append_left _ _)))

/-- The receiver of the finishing mark has the last share, and the shares reach the end of
the list. -/
theorem Announces.shares_finish {ι : Type*} {whole : List α} {lost rest : List (Piece α)}
    {before after : List ι} {t : ι} {share : ι → List (Piece α)}
    (honest : Announces whole (lost ++ (before ++ t :: after).flatMap share ++ rest))
    (marked : finish ∈ share t) :
    content lost ++ (before ++ t :: after).flatMap (fun t => content (share t)) = whole ∧
      ∀ later ∈ after, share later = [] := by
  constructor
  · rw [← content_flatMap, ← content_append]
    refine content_eq_of_finish_mem honest (List.prefix_append _ _) ?_
    exact List.mem_append_right _ (List.mem_flatMap.mpr ⟨t, by simp, marked⟩)
  · have split : lost ++ (before ++ t :: after).flatMap share ++ rest =
        (lost ++ before.flatMap share ++ share t) ++ (after.flatMap share ++ rest) := by
      rw [List.flatMap_append, List.flatMap_cons]
      simp only [List.append_assoc]
    rw [split] at honest
    have none := honest.finish_last (List.mem_append_right _ marked)
    exact List.flatMap_eq_nil_iff.mp (List.append_eq_nil_iff.mp none).1

end Piece

end OmniSocket.Lib
