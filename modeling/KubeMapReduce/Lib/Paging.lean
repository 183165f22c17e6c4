import Mathlib.Data.List.Nodup
import Mathlib.Order.Lattice

/-!
# Pages of a listing with ties

A listing is read page by page. Every page is a query of its own, which sorts the rows by a key, the
greatest first, and cuts out its part. How it arranges rows of one key is its own choice, so two
pages need not be cut out of one order.

* `pages_perm`: together the pages have every row once if no rows of one key lie on both sides of a
  page boundary.
* `pages_repeat`: otherwise the queries can arrange the rows so that one comes twice.
-/

namespace Paging

variable {α κ : Type} [LinearOrder κ] {key : α → κ} {rows o o' : List α} {L m n k : Nat} {t : κ}

/-- An order of the rows, those of a greater key first. -/
structure Arranged (key : α → κ) (rows o : List α) : Prop where
  perm : o.Perm rows
  sorted : o.Pairwise fun a b => key b ≤ key a

/-- LIMIT and OFFSET. -/
def cut (limit offset : Nat) (o : List α) : List α := (o.drop offset).take limit

/-- The first `n` pages of length `L`, each out of an order of its own. -/
def pages (L n : Nat) (orders : Nat → List α) : List α :=
  (List.range n).flatMap fun k => cut L (k * L) (orders k)

/-- Rows of the key `t` lie on both sides of the position `m`. -/
def Crosses (key : α → κ) (rows : List α) (m : Nat) (t : κ) : Prop :=
  rows.countP (fun a => decide (t < key a)) < m ∧ m < rows.countP fun a => decide (t ≤ key a)

/-! ## 1. The first elements of an order -/

section First

variable {p : α → Bool}

theorem none_of_head {a : α} (h : (a :: o).Pairwise fun x y => p y = true → p x = true)
    (ha : ¬ p a = true) : ∀ b ∈ a :: o, ¬ p b = true := by
  intro b hb hp
  rcases List.mem_cons.mp hb with rfl | hb
  · exact ha hp
  · exact ha ((List.pairwise_cons.mp h).1 b hb hp)

/-- The elements that satisfy `p` come first. -/
theorem filter_eq_take (h : o.Pairwise fun x y => p y = true → p x = true) :
    o.filter p = o.take (o.countP p) := by
  induction o with
  | nil => rfl
  | cons a o ih =>
    by_cases ha : p a = true
    · rw [List.filter_cons_of_pos ha, List.countP_cons_of_pos ha, List.take_succ_cons,
        ih (List.pairwise_cons.mp h).2]
    · have hnone := none_of_head h ha
      rw [List.filter_eq_nil_iff.mpr hnone, List.countP_eq_zero.mpr hnone, List.take_zero]

theorem sat_iff (h : o.Pairwise fun x y => p y = true → p x = true) {i : Nat}
    (hi : i < o.length) : p o[i] = true ↔ i < o.countP p := by
  induction o generalizing i with
  | nil => cases hi
  | cons a o ih =>
    by_cases ha : p a = true
    · rw [List.countP_cons_of_pos ha]
      cases i with
      | zero => exact iff_of_true ha (Nat.succ_pos _)
      | succ i =>
        rw [List.getElem_cons_succ, ih (List.pairwise_cons.mp h).2 (Nat.lt_of_succ_lt_succ hi)]
        exact Nat.succ_lt_succ_iff.symm
    · have hnone := none_of_head h ha
      rw [List.countP_eq_zero.mpr hnone]
      exact iff_of_false (hnone _ (List.getElem_mem hi)) (Nat.not_lt_zero i)

end First

theorem Arranged.above (h : Arranged key rows o) (t : κ) :
    o.Pairwise fun x y => decide (t < key y) = true → decide (t < key x) = true :=
  h.sorted.imp fun hle hy => decide_eq_true (lt_of_lt_of_le (of_decide_eq_true hy) hle)

theorem Arranged.atLeast (h : Arranged key rows o) (t : κ) :
    o.Pairwise fun x y => decide (t ≤ key y) = true → decide (t ≤ key x) = true :=
  h.sorted.imp fun hle hy => decide_eq_true (le_trans (of_decide_eq_true hy) hle)

theorem Arranged.lt_key (h : Arranged key rows o) {i : Nat} (hi : i < o.length) :
    t < key o[i] ↔ i < rows.countP fun a => decide (t < key a) := by
  rw [← h.perm.countP_eq, ← sat_iff (h.above t) hi, decide_eq_true_iff]

theorem Arranged.le_key (h : Arranged key rows o) {i : Nat} (hi : i < o.length) :
    t ≤ key o[i] ↔ i < rows.countP fun a => decide (t ≤ key a) := by
  rw [← h.perm.countP_eq, ← sat_iff (h.atLeast t) hi, decide_eq_true_iff]

/-! ## 2. A boundary between two keys -/

/-- All orders have the same rows before a boundary that no key crosses. -/
theorem take_perm (h : Arranged key rows o) (h' : Arranged key rows o')
    (hm : ∀ t, ¬ Crosses key rows m t) : (o.take m).Perm (o'.take m) := by
  rcases Nat.lt_or_ge m o.length with hlt | hge
  · -- the key of the first row after the boundary
    have hup : ¬ m < rows.countP fun a => decide (key o[m] < key a) :=
      fun hlt' => lt_irrefl _ ((h.lt_key hlt).mpr hlt')
    have hcount : rows.countP (fun a => decide (key o[m] < key a)) = m := by
      refine Nat.le_antisymm (not_lt.mp hup) (not_lt.mp fun hlow => ?_)
      exact hm (key o[m]) ⟨hlow, (h.le_key hlt).mp le_rfl⟩
    have htake : o.take m = o.filter fun a => decide (key o[m] < key a) := by
      rw [filter_eq_take (h.above _), h.perm.countP_eq, hcount]
    have htake' : o'.take m = o'.filter fun a => decide (key o[m] < key a) := by
      rw [filter_eq_take (h'.above _), h'.perm.countP_eq, hcount]
    rw [htake, htake']
    exact (h.perm.trans h'.perm.symm).filter _
  · have hlen : o.length = o'.length := (h.perm.trans h'.perm.symm).length_eq
    rw [List.take_of_length_le hge, List.take_of_length_le (hlen ▸ hge)]
    exact h.perm.trans h'.perm.symm

theorem pages_succ (L n : Nat) (orders : Nat → List α) :
    pages L (n + 1) orders = pages L n orders ++ cut L (n * L) (orders n) := by
  rw [pages, List.range_succ, List.flatMap_append, List.flatMap_singleton, pages]

/-- The first `n` pages have the rows that every order has first. -/
theorem pages_take {orders : Nat → List α} (horders : ∀ k, Arranged key rows (orders k))
    (hm : ∀ k t, ¬ Crosses key rows (k * L) t) (n : Nat) :
    ∀ {o : List α}, Arranged key rows o → (pages L n orders).Perm (o.take (n * L)) := by
  induction n with
  | zero =>
    intro o _
    rw [Nat.zero_mul, List.take_zero]
    exact .refl _
  | succ n ih =>
    intro o ho
    have hpage : (orders n).take ((n + 1) * L) =
        (orders n).take (n * L) ++ cut L (n * L) (orders n) := by
      rw [Nat.succ_mul, List.take_add]
      rfl
    rw [pages_succ]
    refine ((ih (horders n)).append_right _).trans ?_
    rw [← hpage]
    exact take_perm (horders n) ho (hm (n + 1))

/-- If no key crosses a page boundary, enough pages have every row once. -/
theorem pages_perm {orders : Nat → List α} (horders : ∀ k, Arranged key rows (orders k))
    (hm : ∀ k t, ¬ Crosses key rows (k * L) t) (hn : rows.length ≤ n * L) :
    (pages L n orders).Perm rows := by
  have h := pages_take horders hm n (horders 0)
  rw [List.take_of_length_le ((horders 0).perm.length_eq ▸ hn)] at h
  exact h.trans (horders 0).perm

/-! ## 3. A key that crosses a boundary -/

theorem exists_arranged (key : α → κ) (rows : List α) : ∃ o, Arranged key rows o := by
  refine ⟨rows.mergeSort fun a b => decide (key b ≤ key a), List.mergeSort_perm .., ?_⟩
  refine (List.pairwise_mergeSort (fun a b c hab hbc => ?_) (fun a b => ?_) rows).imp
    fun h => of_decide_eq_true h
  · exact decide_eq_true (le_trans (of_decide_eq_true hbc) (of_decide_eq_true hab))
  · rw [Bool.or_eq_true, decide_eq_true_iff, decide_eq_true_iff]
    exact le_total _ _

/-- The two rows next to the boundary have the key that crosses it. -/
theorem Arranged.around (h : Arranged key rows o) (hc : Crosses key rows m t) :
    ∃ l a b r, o = l ++ a :: b :: r ∧ l.length + 1 = m ∧ key a = t ∧ key b = t := by
  obtain ⟨hlow, hhigh⟩ := hc
  have hlen : m < o.length := by
    rw [h.perm.length_eq]
    exact lt_of_lt_of_le hhigh List.countP_le_length
  obtain ⟨i, rfl⟩ : ∃ i, m = i + 1 := ⟨m - 1, by omega⟩
  have hi : i < o.length := Nat.lt_of_succ_lt hlen
  have hkey : ∀ j (hj : j < o.length), i ≤ j → j ≤ i + 1 → key o[j] = t := by
    intro j hj hij hji
    refine le_antisymm (not_lt.mp fun hlt => ?_) ((h.le_key hj).mpr (lt_of_le_of_lt hji hhigh))
    exact absurd ((h.lt_key hj).mp hlt) (by omega)
  refine ⟨o.take i, o[i], o[i + 1], o.drop (i + 1 + 1), ?_, ?_, hkey i hi le_rfl (Nat.le_succ i),
    hkey (i + 1) hlen (Nat.le_succ i) le_rfl⟩
  · rw [← List.drop_eq_getElem_cons hlen, ← List.drop_eq_getElem_cons hi, List.take_append_drop]
  · rw [List.length_take, Nat.min_eq_left (Nat.le_of_lt hi)]

/-- Keys that are all different cross no boundary. -/
theorem not_crosses_of_nodup (hnodup : (rows.map key).Nodup) (m : Nat) (t : κ) :
    ¬ Crosses key rows m t := by
  intro hc
  obtain ⟨o, h⟩ := exists_arranged key rows
  obtain ⟨l, a, b, r, rfl, _, rfl, hb⟩ := h.around hc
  have hkeys : ((l ++ a :: b :: r).map key).Nodup := (h.perm.map key).nodup_iff.mpr hnodup
  rw [List.map_append, List.map_cons, List.map_cons, hb] at hkeys
  have hpair := (List.nodup_append.mp hkeys).2.1
  exact (List.nodup_cons.mp hpair).1 List.mem_cons_self

theorem Arranged.swap {l r : List α} {a b : α} (h : Arranged key rows (l ++ a :: b :: r))
    (hab : key a = key b) : Arranged key rows (l ++ b :: a :: r) := by
  refine ⟨((List.Perm.swap a b r).append_left l).trans h.perm, ?_⟩
  have hmap : (l ++ b :: a :: r).map key = (l ++ a :: b :: r).map key := by
    simp only [List.map_append, List.map_cons, hab]
  have hsorted := h.sorted
  rw [← List.pairwise_map (f := key) (R := fun x y => y ≤ x)] at hsorted ⊢
  rwa [hmap]

theorem getElem?_cut {limit offset i : Nat} (hi : i < limit) (o : List α) :
    (cut limit offset o)[i]? = o[offset + i]? := by
  rw [cut, List.getElem?_take_of_lt hi, List.getElem?_drop]

/-- If a key crosses a page boundary, the queries can arrange the rows so that a row is on both
pages. -/
theorem pages_repeat (hc : Crosses key rows (k * L) t)
    (hn : rows.length ≤ n * L) :
    ∃ orders : Nat → List α, (∀ k, Arranged key rows (orders k)) ∧ ¬ (pages L n orders).Nodup := by
  obtain ⟨o, ho⟩ := exists_arranged key rows
  obtain ⟨l, a, b, r, rfl, hl, ha, hb⟩ := ho.around hc
  have ho' := ho.swap (ha.trans hb.symm)
  have hkn : k < n := by
    refine Nat.lt_of_mul_lt_mul_right (lt_of_lt_of_le hc.2 ?_)
    exact Nat.le_trans List.countP_le_length hn
  obtain ⟨k, rfl⟩ : ∃ j, k = j + 1 := by
    refine Nat.exists_eq_succ_of_ne_zero ?_
    rintro rfl
    rw [Nat.zero_mul] at hl
    cases hl
  rw [Nat.succ_mul] at hl
  have hL : 0 < L := by
    refine Nat.pos_of_ne_zero ?_
    rintro rfl
    rw [Nat.mul_zero] at hl
    cases hl
  refine ⟨fun j => if j ≤ k then l ++ a :: b :: r else l ++ b :: a :: r, fun j => ?_,
    fun hnodup => ?_⟩
  · dsimp only
    split
    · exact ho
    · exact ho'
  · -- row `a` is the last one of page `k` and the first one of the next page
    have hlast : a ∈ cut L (k * L) (l ++ a :: b :: r) := by
      refine List.mem_of_getElem? (i := L - 1) ?_
      rw [getElem?_cut (by omega), show k * L + (L - 1) = l.length by omega]
      simp
    have hfirst : a ∈ cut L ((k + 1) * L) (l ++ b :: a :: r) := by
      refine List.mem_of_getElem? (i := 0) ?_
      rw [getElem?_cut hL, show (k + 1) * L + 0 = l.length + 1 by rw [Nat.succ_mul]; omega]
      simp
    have hpages := (List.nodup_flatMap.mp hnodup).2
    have hdisj := List.pairwise_iff_getElem.mp hpages k (k + 1)
      (by rw [List.length_range]; omega) (by rw [List.length_range]; omega) (Nat.lt_succ_self k)
    rw [Function.onFun_apply, List.getElem_range, List.getElem_range] at hdisj
    dsimp only at hdisj
    rw [if_pos le_rfl, if_neg (Nat.not_succ_le_self k)] at hdisj
    exact hdisj hlast hfirst

end Paging
