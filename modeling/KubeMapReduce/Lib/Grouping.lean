import Mathlib.Algebra.BigOperators.Group.Finset.Basic
import Mathlib.Algebra.Order.BigOperators.Group.Multiset
import Mathlib.Data.List.SplitBy
import Mathlib.Data.List.TakeWhile

/-!
# Reduction by key

Records are reduced key by key: the records with one key are a group, and a group has a result that
does not depend on the order of its records. A program that reads records sorted by key sees each
group in one piece.

* `reduced`: the result of a multiset of records. `reduced_fiberwise`: it can be computed in parts,
  if records with one key are in one part.
* `runGroups_eq_reduced`: a program that goes through the groups of a sorted list one after the
  other computes it.
-/

namespace Grouping

section Reduce

variable {ρ κ β : Type} [DecidableEq κ] (key : ρ → κ) (reduce : Multiset ρ → Multiset β)

/-- The records with this key. -/
def group (m : Multiset ρ) (k : κ) : Multiset ρ := m.filter fun r => key r = k

/-- The results of all groups. -/
def reduced (m : Multiset ρ) : Multiset β :=
  ∑ k ∈ (m.map key).toFinset, reduce (group key m k)

variable {key} {m m' : Multiset ρ}

theorem mem_keys {k : κ} : k ∈ (m.map key).toFinset ↔ ∃ r ∈ m, key r = k := by
  rw [Multiset.mem_toFinset, Multiset.mem_map]

/-- A group does not depend on records with other keys. -/
theorem group_congr {P : ρ → Prop} [DecidablePred P] {k : κ} (h : ∀ r ∈ m, key r = k → P r) :
    group key (m.filter P) k = group key m k := by
  unfold group
  rw [Multiset.filter_filter]
  exact Multiset.filter_congr fun r hr => ⟨fun hk => hk.1, fun hk => ⟨hk, h r hr hk⟩⟩

/-- The parts that records go to by their keys can be reduced one by one. -/
theorem reduced_fiberwise {ι : Type} [DecidableEq ι] (part : κ → ι) {parts : Finset ι}
    (h : ∀ r ∈ m, part (key r) ∈ parts) :
    ∑ p ∈ parts, reduced key reduce (m.filter fun r => part (key r) = p) =
      reduced key reduce m := by
  have hparts : ∀ k ∈ (m.map key).toFinset, part k ∈ parts := by
    intro k hk
    obtain ⟨r, hr, rfl⟩ := mem_keys.mp hk
    exact h r hr
  unfold reduced
  rw [← Finset.sum_fiberwise_of_maps_to hparts]
  refine Finset.sum_congr rfl fun p _ => ?_
  have hkeys : ((m.filter fun r => part (key r) = p).map key).toFinset =
      {k ∈ (m.map key).toFinset | part k = p} := by
    ext k
    rw [Finset.mem_filter, mem_keys, mem_keys]
    constructor
    · rintro ⟨r, hr, rfl⟩
      obtain ⟨hr, hp⟩ := Multiset.mem_filter.mp hr
      exact ⟨⟨r, hr, rfl⟩, hp⟩
    · rintro ⟨⟨r, hr, rfl⟩, hp⟩
      exact ⟨r, Multiset.mem_filter.mpr ⟨hr, hp⟩, rfl⟩
  rw [hkeys]
  refine Finset.sum_congr rfl fun k hk => congrArg reduce (group_congr fun r _ hr => ?_)
  rw [hr]
  exact (Finset.mem_filter.mp hk).2

/-- Two multisets without a common key. -/
theorem reduced_add (h : ∀ r ∈ m, ∀ r' ∈ m', key r ≠ key r') :
    reduced key reduce (m + m') = reduced key reduce m + reduced key reduce m' := by
  have hdisj : Disjoint (m.map key).toFinset (m'.map key).toFinset := by
    refine Finset.disjoint_left.mpr fun k hk hk' => ?_
    obtain ⟨r, hr, rfl⟩ := mem_keys.mp hk
    obtain ⟨r', hr', hkey⟩ := mem_keys.mp hk'
    exact h r hr r' hr' hkey.symm
  have hnone : ∀ {n n' : Multiset ρ}, (∀ r ∈ n, ∀ r' ∈ n', key r ≠ key r') →
      ∀ k ∈ (n.map key).toFinset, group key n' k = 0 := by
    intro n n' hne k hk
    obtain ⟨r, hr, rfl⟩ := mem_keys.mp hk
    exact Multiset.filter_eq_nil.mpr fun r' hr' heq => hne r hr r' hr' heq.symm
  unfold reduced
  rw [Multiset.map_add, Multiset.toFinset_add, Finset.sum_union hdisj]
  congr 1
  · refine Finset.sum_congr rfl fun k hk => ?_
    rw [group, Multiset.filter_add, ← group, ← group, hnone h k hk, add_zero]
  · refine Finset.sum_congr rfl fun k hk => ?_
    rw [group, Multiset.filter_add, ← group, ← group,
      hnone (fun r' hr' r hr => (h r hr r' hr').symm) k hk, zero_add]

/-- One group. -/
theorem reduced_of_key {k : κ} (hne : m ≠ 0) (h : ∀ r ∈ m, key r = k) :
    reduced key reduce m = reduce m := by
  have hkeys : (m.map key).toFinset = {k} := by
    obtain ⟨r, hr⟩ := Multiset.exists_mem_of_ne_zero hne
    ext k'
    rw [mem_keys, Finset.mem_singleton]
    constructor
    · rintro ⟨r', hr', rfl⟩
      exact h r' hr'
    · rintro rfl
      exact ⟨r, hr, h r hr⟩
  rw [reduced, hkeys, Finset.sum_singleton, group, Multiset.filter_eq_self.mpr h]

end Reduce

section Run

variable {ρ κ β : Type} [LinearOrder κ] (key : ρ → κ) (f : List ρ → List β)

/-- A program that goes through the consecutive groups of a list. -/
def runGroups (l : List ρ) : List β :=
  (l.splitBy fun r r' => decide (key r = key r')).flatMap f

variable {key f} {reduce : Multiset ρ → Multiset β}

/-- The first group of a sorted list are all its records with the first key. -/
theorem splitBy_sorted {r : ρ} {l : List ρ} (h : (r :: l).Pairwise (key · ≤ key ·)) :
    ∃ g rest, r :: l = g ++ rest ∧ g ≠ [] ∧ (∀ r' ∈ g, key r' = key r) ∧
      (∀ r' ∈ rest, key r < key r') ∧
      ((r :: l).splitBy fun r r' => decide (key r = key r')) =
        g :: rest.splitBy fun r r' => decide (key r = key r') := by
  set g := (r :: l).takeWhile fun r' => decide (key r' = key r) with hg
  set rest := (r :: l).dropWhile fun r' => decide (key r' = key r) with hrest
  have hsplit : r :: l = g ++ rest := (List.takeWhile_append_dropWhile).symm
  have hkeys : ∀ r' ∈ g, key r' = key r := by
    intro r' hr'
    rw [hg] at hr'
    have hd := List.mem_takeWhile_imp hr'
    exact of_decide_eq_true hd
  have hne : g ≠ [] := by
    rw [hg, List.takeWhile_cons_of_pos (by simp)]
    exact List.cons_ne_nil _ _
  have hlater : ∀ r' ∈ rest, key r < key r' := by
    intro r' hr'
    cases hcase : rest with
    | nil =>
      rw [hcase] at hr'
      cases hr'
    | cons r₁ rest' =>
      have hfirst : key r₁ ≠ key r := by
        have := List.head_dropWhile_not (fun r' => decide (key r' = key r)) (l := r :: l)
          (by rw [← hrest, hcase]; exact List.cons_ne_nil _ _)
        simpa [← hrest, hcase] using this
      have hsorted := hsplit ▸ h
      rw [hcase] at hsorted hr'
      have hle : key r ≤ key r₁ := by
        obtain ⟨r₀, hr₀⟩ := List.exists_mem_of_ne_nil g hne
        have := (List.pairwise_append.mp hsorted).2.2 r₀ hr₀ r₁ (List.mem_cons_self ..)
        rwa [hkeys r₀ hr₀] at this
      have hlt := lt_of_le_of_ne hle hfirst.symm
      rcases List.mem_cons.mp hr' with rfl | hmem
      · exact hlt
      · exact hlt.trans_le
          ((List.pairwise_cons.mp (List.pairwise_append.mp hsorted).2.1).1 r' hmem)
  refine ⟨g, rest, hsplit, hne, hkeys, hlater, ?_⟩
  have hchain : g.IsChain fun r r' => (decide (key r = key r')) = true := by
    refine (List.pairwise_of_forall_mem_list fun a ha b hb => ?_).isChain
    rw [hkeys a ha, hkeys b hb, decide_eq_true rfl]
  rw [hsplit, List.splitBy_append, List.splitBy_of_isChain hne hchain, List.singleton_append]
  intro a ha b hb
  have hlt := hlater b (List.mem_of_mem_head? hb)
  rw [hkeys a (List.mem_of_mem_getLast? ha), decide_eq_false hlt.ne]

/-- On sorted records the program computes the results of the groups, if it does so for each one. -/
theorem runGroups_eq_reduced (hf : ∀ g, (f g : Multiset β) = reduce g) {l : List ρ}
    (h : l.Pairwise (key · ≤ key ·)) :
    (runGroups key f l : Multiset β) = reduced key reduce l := by
  induction hn : l.length using Nat.strong_induction_on generalizing l with
  | _ n ih =>
    cases l with
    | nil => rfl
    | cons r l =>
      obtain ⟨g, rest, hsplit, hne, hkeys, hlater, hgroups⟩ := splitBy_sorted h
      have hpos : 0 < g.length := List.length_pos_iff.mpr hne
      have hlt : rest.length < n := by
        rw [← hn, hsplit, List.length_append]
        omega
      have hrest := ih rest.length hlt
        (List.pairwise_append.mp (hsplit ▸ h)).2.1 rfl
      unfold runGroups at hrest ⊢
      rw [hgroups, List.flatMap_cons, ← Multiset.coe_add, hrest, hf, hsplit, ← Multiset.coe_add,
        reduced_add _ fun a ha b hb heq => ?_, reduced_of_key _ (mt (Multiset.coe_eq_zero g).mp hne)
        fun r' hr' => hkeys r' (Multiset.mem_coe.mp hr')]
      exact (hlater b (Multiset.mem_coe.mp hb)).ne
        ((hkeys a (Multiset.mem_coe.mp ha)).symm.trans heq)

end Run

end Grouping
