import Mathlib.Algebra.BigOperators.Group.List.Basic
import Mathlib.Algebra.Order.Monoid.Defs
import KubeMapReduce.Lib.Run

/-!
# Placing items into the lightest part

Items with weights are placed one after another, each into a part of the smallest load. Which of
the lightest parts is taken does not matter.

* `run_flatten`: the parts hold the items, each as often as it was placed.
* `run_balanced`: the loads of two parts differ by at most the heaviest item.
-/

namespace Greedy

open Runs

variable {α W : Type} [AddCommMonoid W] {w : α → W}

def load (w : α → W) (part : List α) : W :=
  (part.map w).sum

theorem load_concat (part : List α) (x : α) : load w (part ++ [x]) = load w part + w x := by
  simp [load]

variable [LinearOrder W]

/-- The item `x` is added to a part, and no part is lighter than that one. -/
def Places (w : α → W) (parts : List (List α)) (x : α) (parts' : List (List α)) : Prop :=
  ∃ before part after, parts = before ++ part :: after ∧
    (∀ p ∈ parts, load w part ≤ load w p) ∧ parts' = before ++ (part ++ [x]) :: after

/-- No part is heavier than another one by more than `most`. -/
def Balanced (w : α → W) (most : W) (parts : List (List α)) : Prop :=
  ∀ p ∈ parts, ∀ q ∈ parts, load w p ≤ load w q + most

/-! ## 1. One item -/

section Step

variable {parts parts' : List (List α)} {x : α} {most : W}

theorem Places.length (h : Places w parts x parts') : parts'.length = parts.length := by
  obtain ⟨before, part, after, rfl, _, rfl⟩ := h
  simp

theorem Places.flatten (h : Places w parts x parts') :
    parts'.flatten.Perm (x :: parts.flatten) := by
  obtain ⟨before, part, after, rfl, _, rfl⟩ := h
  simp only [List.flatten_append, List.flatten_cons, List.append_assoc, List.singleton_append]
  rw [← List.append_assoc, ← List.append_assoc before.flatten]
  exact List.perm_middle

/-- A part afterwards is an old one, or one of the lightest with the item. -/
theorem Places.mem (h : Places w parts x parts') {p : List α} (hp : p ∈ parts') :
    p ∈ parts ∨ ∃ part ∈ parts, p = part ++ [x] ∧ ∀ q ∈ parts, load w part ≤ load w q := by
  obtain ⟨before, part, after, rfl, hmin, rfl⟩ := h
  rcases List.mem_append.mp hp with hp | hp
  · exact .inl (List.mem_append_left _ hp)
  · rcases List.mem_cons.mp hp with rfl | hp
    · exact .inr ⟨part, by simp, rfl, hmin⟩
    · exact .inl (List.mem_append_right _ (List.mem_cons_of_mem _ hp))

theorem Places.balanced [IsOrderedAddMonoid W] (h : Places w parts x parts') (hx : 0 ≤ w x)
    (hmost : w x ≤ most) (hb : Balanced w most parts) : Balanced w most parts' := by
  intro p hp q hq
  have hgrown : ∀ part : List α, load w part ≤ load w (part ++ [x]) := fun part => by
    rw [load_concat]
    exact le_add_of_nonneg_right hx
  rcases h.mem hp with hp | ⟨part, hpart, rfl, hmin⟩
  · rcases h.mem hq with hq | ⟨part', hpart', rfl, _⟩
    · exact hb p hp q hq
    · calc load w p ≤ load w part' + most := hb p hp part' hpart'
        _ ≤ load w (part' ++ [x]) + most := add_le_add_left (hgrown part') most
  · -- the part that was taken was at most as heavy as any part is now
    have hle : load w part ≤ load w q := by
      rcases h.mem hq with hq | ⟨part', hpart', rfl, _⟩
      · exact hmin q hq
      · exact (hmin part' hpart').trans (hgrown part')
    rw [load_concat]
    exact add_le_add hle hmost

end Step

/-! ## 2. All items -/

section Run

variable {parts parts' : List (List α)} {xs : List α} {most : W}

theorem run_length (h : Run (Places w) parts xs parts') : parts'.length = parts.length :=
  h.invariant (I := fun ps => ps.length = parts.length)
    (fun _ _ _ hlen hstep => hstep.length.trans hlen) rfl

theorem run_flatten (h : Run (Places w) parts xs parts') :
    parts'.flatten.Perm (xs ++ parts.flatten) := by
  induction h with
  | nil => exact .refl _
  | cons hstep _ ih =>
    refine ih.trans ((hstep.flatten.append_left _).trans ?_)
    exact List.perm_middle

theorem run_balanced [IsOrderedAddMonoid W] (h : Run (Places w) parts xs parts')
    (hxs : ∀ x ∈ xs, 0 ≤ w x ∧ w x ≤ most) (hb : Balanced w most parts) :
    Balanced w most parts' := by
  induction h with
  | nil => exact hb
  | cons hstep _ ih =>
    obtain ⟨⟨hx, hmost⟩, hrest⟩ := List.forall_mem_cons.mp hxs
    exact ih hrest (hstep.balanced hx hmost hb)

theorem balanced_empty [IsOrderedAddMonoid W] (n : Nat) (hmost : 0 ≤ most) :
    Balanced w most (List.replicate n []) := by
  intro p hp q hq
  rw [List.eq_of_mem_replicate hp, List.eq_of_mem_replicate hq]
  exact le_add_of_nonneg_right hmost

end Run

end Greedy
