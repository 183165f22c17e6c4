import Mathlib.Algebra.Order.Floor.Div
import Mathlib.Data.List.Basic
import Mathlib.Data.List.Forall2

/-!
# Framed streams

Several blocks are sent one after the other as frames: the frames of a block carry its
elements in pieces, and a frame without elements ends the block and carries a mark. The
receiver collects the elements up to the next such frame; a block without elements leaves
no trace, and what comes after the last end is a block without a mark.

* `pieces_flatten`, `length_pieces`: the pieces of a block are the block, and their number.
* `segments_blocks`: the receiver gets the non-empty blocks back, with their marks.
-/

namespace Frames

variable {fuel size : Nat}

universe u v

variable {α : Type u} {μ : Type v} {xs : List α}


/-- A list in pieces of `size` elements, the last one shorter; at most `fuel` pieces. -/
def pieces (size : Nat) : Nat → List α → List (List α)
  | 0, _ => []
  | fuel + 1, xs =>
    if xs.isEmpty then [] else xs.take size :: pieces size fuel (xs.drop size)

theorem pieces_flatten (hsize : 0 < size) (h : xs.length ≤ fuel) :
    (pieces size fuel xs).flatten = xs := by
  induction fuel generalizing xs with
  | zero =>
    rw [List.length_eq_zero_iff.mp (Nat.le_zero.mp h)]
    rfl
  | succ fuel ih =>
    unfold pieces
    split
    · next hnil => exact (List.isEmpty_iff.mp hnil).symm
    · next hne =>
      have hpos := List.length_pos_iff.mpr fun hnil => hne (List.isEmpty_iff.mpr hnil)
      rw [List.flatten_cons, ih (by rw [List.length_drop]; omega), List.take_append_drop]

theorem ne_nil_of_mem_pieces (hsize : 0 < size) {ys : List α} (h : ys ∈ pieces size fuel xs) :
    ys ≠ [] := by
  induction fuel generalizing xs with
  | zero => cases h
  | succ fuel ih =>
    unfold pieces at h
    split at h
    · cases h
    · next hne =>
      rcases List.mem_cons.mp h with rfl | h
      · intro hnil
        rcases List.take_eq_nil_iff.mp hnil with hzero | hnil
        · exact Nat.ne_of_gt hsize hzero
        · exact hne (List.isEmpty_iff.mpr hnil)
      · exact ih h

theorem length_pieces (hsize : 0 < size) (h : xs.length ≤ fuel) :
    (pieces size fuel xs).length = xs.length ⌈/⌉ size := by
  induction fuel generalizing xs with
  | zero =>
    rw [List.length_eq_zero_iff.mp (Nat.le_zero.mp h), List.length_nil, zero_ceilDiv]
    rfl
  | succ fuel ih =>
    unfold pieces
    split
    · next hnil => rw [List.isEmpty_iff.mp hnil, List.length_nil, List.length_nil, zero_ceilDiv]
    · next hne =>
      have hpos := List.length_pos_iff.mpr fun hnil => hne (List.isEmpty_iff.mpr hnil)
      rw [List.length_cons, ih (by rw [List.length_drop]; omega), List.length_drop]
      simp only [Nat.ceilDiv_eq_add_pred_div]
      rcases Nat.lt_or_ge xs.length size with hlt | hge
      · rw [Nat.sub_eq_zero_of_le (Nat.le_of_lt hlt), Nat.div_eq_of_lt (by omega)]
        exact (Nat.div_eq_of_lt_le (by omega) (by omega)).symm
      · rw [show xs.length + size - 1 = xs.length - size + size - 1 + size by omega,
          Nat.add_div_right _ hsize]

theorem length_le_of_mem_pieces {ys : List α} (h : ys ∈ pieces size fuel xs) :
    ys.length ≤ size := by
  induction fuel generalizing xs with
  | zero => cases h
  | succ fuel ih =>
    unfold pieces at h
    split at h
    · cases h
    · rcases List.mem_cons.mp h with rfl | h
      · exact List.length_take_le size xs
      · exact ih h

/-- Two lists of the same length are cut at the same places. -/
theorem forall₂_pieces {β : Type v} {R : α → β → Prop} {ys : List β} (size fuel : Nat)
    (h : List.Forall₂ R xs ys) :
    List.Forall₂ (List.Forall₂ R) (pieces size fuel xs) (pieces size fuel ys) := by
  induction fuel generalizing xs ys with
  | zero => exact .nil
  | succ fuel ih =>
    unfold pieces
    cases h with
    | nil => exact .nil
    | cons hx h =>
      have h := List.Forall₂.cons hx h
      exact .cons (List.forall₂_take size h) (ih (List.forall₂_drop size h))

/-- The non-empty blocks of a stream, with the marks of their ends; `cur` are the elements
since the last end. -/
def segments : List (List α × μ) → List α → List (List α × Option μ)
  | [], cur => if cur.isEmpty then [] else [(cur, none)]
  | (xs, mark) :: rest, cur =>
    if xs.isEmpty then
      if cur.isEmpty then segments rest [] else (cur, some mark) :: segments rest []
    else segments rest (cur ++ xs)

theorem segments_append {ps : List (List α × μ)} (hne : ∀ f ∈ ps, f.1 ≠ [])
    (rest : List (List α × μ)) (cur : List α) :
    segments (ps ++ rest) cur = segments rest (cur ++ (ps.map Prod.fst).flatten) := by
  induction ps generalizing cur with
  | nil => rw [List.nil_append, List.map_nil, List.flatten_nil, List.append_nil]
  | cons f ps ih =>
    obtain ⟨hf, hne⟩ := List.forall_mem_cons.mp hne
    have hf : f.1.isEmpty = false := List.isEmpty_eq_false_iff.mpr hf
    rw [List.cons_append, segments, hf, if_neg nofun, ih hne, List.map_cons, List.flatten_cons,
      List.append_assoc]

/-- The frames of one block: its pieces, under the mark `between`, and its end. -/
def block (size : Nat) (between : μ) (mark : List α → μ) (xs : List α) : List (List α × μ) :=
  (pieces size xs.length xs).map (·, between) ++ [([], mark xs)]

theorem segments_blocks (hsize : 0 < size) (between : μ) (mark : List α → μ)
    (blocks : List (List α)) :
    segments (blocks.flatMap (block size between mark)) [] =
      (blocks.filter fun xs => !xs.isEmpty).map fun xs => (xs, some (mark xs)) := by
  induction blocks with
  | nil => rfl
  | cons xs blocks ih =>
    have hne : ∀ f ∈ (pieces size xs.length xs).map (·, between), f.1 ≠ [] := by
      intro f hf
      obtain ⟨ys, hys, rfl⟩ := List.mem_map.mp hf
      exact ne_nil_of_mem_pieces hsize hys
    have hflat : (((pieces size xs.length xs).map (·, between)).map Prod.fst).flatten = xs := by
      rw [List.map_map]
      exact (congrArg List.flatten (List.map_id _)).trans (pieces_flatten hsize (Nat.le_refl _))
    rw [List.flatMap_cons, block, List.append_assoc, segments_append hne, List.nil_append, hflat,
      List.singleton_append, segments, if_pos List.isEmpty_nil, ih, List.filter_cons]
    cases hxs : xs.isEmpty <;> rfl

end Frames
