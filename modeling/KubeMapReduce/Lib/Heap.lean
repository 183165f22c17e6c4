import Mathlib.Order.Lattice
import Mathlib.Data.List.Basic

/-!
# Binary heaps in a slice

A heap in a slice: the children of position `i` are at `2 * i + 1` and `2 * i + 2`, and no element
is before its parent. An element is pushed at the end and moved up; the first one is popped by
exchanging it with the last one, which is then moved down.

* `up_ordered`, `down_ordered`: moving an element restores the order.
* `push_perm`, `push_ordered`, `pop_eq_none`, `pop_some`: the elements and the order after a push
  and a pop, and that a pop returns a first element.
-/

namespace Heaps

variable {α κ : Type} [LinearOrder κ] (key : α → κ)

/-! ## 1. Operations -/

def parent (i : Nat) : Nat := (i - 1) / 2

def swap (h : List α) (i j : Nat) : List α :=
  match h[i]?, h[j]? with
  | some a, some b => (h.set i b).set j a
  | _, _ => h

def less (h : List α) (i j : Nat) : Bool :=
  match h[i]?, h[j]? with
  | some a, some b => decide (key a < key b)
  | _, _ => false

/-- Move the element at `j` up; at most `fuel` steps. -/
def up : Nat → List α → Nat → List α
  | 0, h, _ => h
  | fuel + 1, h, j =>
    if parent j = j ∨ less key h j (parent j) = false then h
    else up fuel (swap h (parent j) j) (parent j)

/-- The child of `i` that comes first. -/
def child (h : List α) (i n : Nat) : Nat :=
  if 2 * i + 2 < n ∧ less key h (2 * i + 2) (2 * i + 1) = true then 2 * i + 2 else 2 * i + 1

/-- Move the element at `i` down among the first `n`; at most `fuel` steps. -/
def down : Nat → List α → Nat → Nat → List α
  | 0, h, _, _ => h
  | fuel + 1, h, i, n =>
    if 2 * i + 1 ≥ n then h else
    if less key h (child key h i n) i = false then h
    else down fuel (swap h i (child key h i n)) (child key h i n) n

def push (h : List α) (x : α) : List α := up key h.length (h ++ [x]) h.length

def pop (h : List α) : Option (α × List α) :=
  let n := h.length - 1
  let h' := down key n (swap h 0 n) 0 n
  h'.getLast?.map fun x => (x, h'.dropLast)

/-! ## 2. Exchanging two elements -/

section Swap

variable {h : List α} {i j k n : Nat}

theorem swap_eq (hi : i < h.length) (hj : j < h.length) :
    swap h i j = (h.set i h[j]).set j h[i] := by
  rw [swap, List.getElem?_eq_getElem hi, List.getElem?_eq_getElem hj]

theorem length_swap : (swap h i j).length = h.length := by
  unfold swap
  split
  · rw [List.length_set, List.length_set]
  · rfl

theorem swap_perm : (swap h i j).Perm h := by
  by_cases hij : i < h.length ∧ j < h.length
  · rw [swap_eq hij.1 hij.2]
    exact List.set_set_perm hij.1 hij.2
  · unfold swap
    split
    · next ha hb =>
      exact absurd ⟨(List.getElem?_eq_some_iff.mp ha).1, (List.getElem?_eq_some_iff.mp hb).1⟩ hij
    · exact .refl h

theorem getElem?_swap (hi : i < h.length) (hj : j < h.length) (k : Nat) :
    (swap h i j)[k]? = if k = i then h[j]? else if k = j then h[i]? else h[k]? := by
  rw [swap_eq hi hj, List.getElem?_set, List.getElem?_set, List.length_set,
    List.getElem?_eq_getElem hi, List.getElem?_eq_getElem hj]
  grind

end Swap

/-! ## 3. The order -/

/-- The element at `i` is not behind the one at `j`. -/
def Le (h : List α) (i j : Nat) : Prop := ∀ a ∈ h[i]?, ∀ b ∈ h[j]?, key a ≤ key b

/-- The first `n` elements are in order. -/
def Ordered (h : List α) (n : Nat) : Prop := ∀ k, 0 < k → k < n → Le key h (parent k) k

section Order

variable {key} {h h' : List α} {i j k n fuel : Nat}

theorem Le.congr {i' j' : Nat} (hle : Le key h i j) (hi : h'[i']? = h[i]?) (hj : h'[j']? = h[j]?) :
    Le key h' i' j' := by
  rw [Le, hi, hj]
  exact hle

theorem Le.trans (hij : Le key h i j) (hjk : Le key h j k) (hj : j < h.length) : Le key h i k := by
  have hmem : h[j] ∈ h[j]? := List.getElem?_eq_getElem hj
  exact fun a ha c hc => le_trans (hij a ha _ hmem) (hjk _ hmem c hc)

theorem le_of_less_eq_false (hless : less key h i j = false) : Le key h j i := by
  intro b hb a ha
  rw [less, Option.mem_def.mp ha, Option.mem_def.mp hb] at hless
  exact not_lt.mp (of_decide_eq_false hless)

theorem le_of_less (hless : less key h i j = true) : Le key h i j := by
  intro a ha b hb
  rw [less, Option.mem_def.mp ha, Option.mem_def.mp hb] at hless
  exact le_of_lt (of_decide_eq_true hless)

theorem parent_lt (h0 : 0 < k) : parent k < k := by
  unfold parent
  omega

/-! ### Moving up -/

/-- The order before the element at `j` is moved up: it holds elsewhere, and the children of `j`
are not before its parent. -/
structure UpOrder (key : α → κ) (h : List α) (j n : Nat) : Prop where
  other : ∀ k, 0 < k → k < n → k ≠ j → Le key h (parent k) k
  grand : ∀ k, 0 < k → k < n → parent k = j → 0 < j → Le key h (parent j) k

theorem UpOrder.move (ho : UpOrder key h j n) (hj0 : 0 < j) (hj : j < n) (hn : n ≤ h.length)
    (hless : less key h j (parent j) = true) : UpOrder key (swap h (parent j) j) (parent j) n := by
  have hp := parent_lt hj0
  have hget := getElem?_swap (h := h) (show parent j < h.length by omega)
    (show j < h.length by omega)
  have hgetp : (swap h (parent j) j)[parent j]? = h[j]? := by rw [hget, if_pos rfl]
  have hgetj : (swap h (parent j) j)[j]? = h[parent j]? := by
    rw [hget, if_neg (by omega), if_pos rfl]
  have hgeto : ∀ k, k ≠ parent j → k ≠ j → (swap h (parent j) j)[k]? = h[k]? := by
    intro k hk hk'
    rw [hget, if_neg hk, if_neg hk']
  constructor
  · intro k hk0 hkn hkp
    by_cases hkj : k = j
    · subst hkj
      exact (le_of_less hless).congr hgetp hgetj
    have hk := ho.other k hk0 hkn hkj
    by_cases hpk : parent k = j
    · rw [hpk]
      exact (ho.grand k hk0 hkn hpk hj0).congr hgetj (hgeto k hkp hkj)
    by_cases hpk' : parent k = parent j
    · rw [hpk'] at hk ⊢
      exact ((le_of_less hless).trans hk (by omega)).congr hgetp (hgeto k hkp hkj)
    · exact hk.congr (hgeto _ hpk' hpk) (hgeto k hkp hkj)
  · intro k hk0 hkn hpk hp0
    have hpp := parent_lt hp0
    have hpar := ho.other (parent j) hp0 (by omega) (by omega)
    have hkp : k ≠ parent j := by
      have := parent_lt hk0
      omega
    have hgetpp := hgeto (parent (parent j)) (by omega) (by omega)
    by_cases hkj : k = j
    · subst hkj
      exact hpar.congr hgetpp hgetj
    · have hk := ho.other k hk0 hkn hkj
      rw [hpk] at hk
      exact (hpar.trans hk (by omega)).congr hgetpp (hgeto k hkp hkj)

theorem UpOrder.finish (ho : UpOrder key h j n) (hj : j = 0 ∨ Le key h (parent j) j) :
    Ordered key h n := by
  intro k hk0 hkn
  by_cases hkj : k = j
  · subst hkj
    exact hj.resolve_left (by omega)
  · exact ho.other k hk0 hkn hkj

theorem up_ordered (ho : UpOrder key h j n) (hj : j < n) (hn : n ≤ h.length) (hfuel : j ≤ fuel) :
    Ordered key (up key fuel h j) n := by
  induction fuel generalizing h j with
  | zero => exact ho.finish (.inl (Nat.le_zero.mp hfuel))
  | succ fuel ih =>
    unfold up
    split
    · next hstop =>
      rcases hstop with hroot | hless
      · exact ho.finish (.inl (by unfold parent at hroot; omega))
      · exact ho.finish (.inr (le_of_less_eq_false hless))
    · next hgo =>
      obtain ⟨hroot, hless⟩ := not_or.mp hgo
      have hj0 : 0 < j := by
        unfold parent at hroot
        omega
      have hp := parent_lt hj0
      exact ih (ho.move hj0 hj hn (Bool.not_eq_false _ ▸ hless)) (by omega)
        (by rw [length_swap]; exact hn) (by omega)

theorem up_perm (fuel : Nat) (h : List α) (j : Nat) : (up key fuel h j).Perm h := by
  induction fuel generalizing h j with
  | zero => exact .refl h
  | succ fuel ih =>
    unfold up
    split
    · exact .refl h
    · exact (ih _ _).trans swap_perm

/-! ### Moving down -/

/-- The order before the element at `i` is moved down: it holds elsewhere, and the children of `i`
are not before its parent. -/
structure DownOrder (key : α → κ) (h : List α) (i n : Nat) : Prop where
  other : ∀ k, 0 < k → k < n → parent k ≠ i → Le key h (parent k) k
  grand : ∀ k, 0 < k → k < n → parent k = i → 0 < i → Le key h (parent i) k

theorem child_cases (key : α → κ) (h : List α) (i n : Nat) : child key h i n = 2 * i + 1 ∨
    child key h i n = 2 * i + 2 ∧ 2 * i + 2 < n := by
  unfold child
  split
  · next hc => exact .inr ⟨rfl, hc.1⟩
  · exact .inl rfl

/-- The other child is not before it. -/
theorem child_le (h0 : 0 < k) (hk : k < n) (hp : parent k = i) : Le key h (child key h i n) k := by
  have hcases : k = 2 * i + 1 ∨ k = 2 * i + 2 := by
    unfold parent at hp
    omega
  have hself : ∀ m, Le key h m m := fun m a ha b hb => by
    rw [Option.mem_unique ha hb]
  unfold child
  split
  · next hc =>
    rcases hcases with rfl | rfl
    · exact le_of_less hc.2
    · exact hself _
  · next hc =>
    rcases hcases with rfl | rfl
    · exact hself _
    · exact le_of_less_eq_false (Bool.eq_false_iff.mpr fun hless => hc ⟨hk, hless⟩)

theorem DownOrder.move (ho : DownOrder key h i n) (hi : 2 * i + 1 < n) (hn : n ≤ h.length)
    (hless : less key h (child key h i n) i = true) :
    DownOrder key (swap h i (child key h i n)) (child key h i n) n := by
  have hchild : ∀ k, 0 < k → k < n → parent k = i → Le key h (child key h i n) k :=
    fun k => child_le
  have hcn : child key h i n < n := by
    rcases child_cases key h i n with hc | hc <;> omega
  have hpc : parent (child key h i n) = i := by
    unfold parent
    rcases child_cases key h i n with hc | hc <;> omega
  have hic : i < child key h i n := by
    rcases child_cases key h i n with hc | hc <;> omega
  generalize child key h i n = c at *
  have hget := getElem?_swap (h := h) (show i < h.length by omega) (show c < h.length by omega)
  have hgeti : (swap h i c)[i]? = h[c]? := by rw [hget, if_pos rfl]
  have hgetc : (swap h i c)[c]? = h[i]? := by rw [hget, if_neg (by omega), if_pos rfl]
  have hgeto : ∀ k, k ≠ i → k ≠ c → (swap h i c)[k]? = h[k]? := by
    intro k hk hk'
    rw [hget, if_neg hk, if_neg hk']
  constructor
  · intro k hk0 hkn hpk
    have hlt := parent_lt hk0
    by_cases hki : k = i
    · subst hki
      exact (ho.grand c (by omega) hcn hpc hk0).congr (hgeto _ (by omega) (by omega)) hgeti
    by_cases hpi : parent k = i
    · rw [hpi]
      by_cases hkc : k = c
      · subst hkc
        exact (le_of_less hless).congr hgeti hgetc
      · exact (hchild k hk0 hkn hpi).congr hgeti (hgeto k hki hkc)
    · have hkc : k ≠ c := fun he => hpi (he ▸ hpc)
      exact (ho.other k hk0 hkn hpi).congr (hgeto _ hpi hpk) (hgeto k hki hkc)
  · intro k hk0 hkn hpk hc0
    have hlt := parent_lt hk0
    have hk := ho.other k hk0 hkn (by omega)
    rw [hpk] at hk
    rw [hpc]
    exact hk.congr hgeti (hgeto k (by omega) (by omega))

theorem DownOrder.finish (ho : DownOrder key h i n)
    (hi : ∀ k, 0 < k → k < n → parent k = i → Le key h i k) : Ordered key h n := by
  intro k hk0 hkn
  by_cases hpk : parent k = i
  · rw [hpk]
    exact hi k hk0 hkn hpk
  · exact ho.other k hk0 hkn hpk

theorem down_ordered (ho : DownOrder key h i n) (hn : n ≤ h.length) (hfuel : n ≤ i + fuel) :
    Ordered key (down key fuel h i n) n := by
  induction fuel generalizing h i with
  | zero =>
    refine ho.finish fun k hk0 hkn hpk => ?_
    have := parent_lt hk0
    omega
  | succ fuel ih =>
    unfold down
    split
    · refine ho.finish fun k hk0 hkn hpk => ?_
      unfold parent at hpk
      omega
    next hi =>
    split
    · next hless =>
      refine ho.finish fun k hk0 hkn hpk => ?_
      refine (le_of_less_eq_false hless).trans (child_le hk0 hkn hpk) ?_
      rcases child_cases key h i n with hc | hc <;> omega
    · next hless =>
      refine ih (ho.move (by omega) hn (Bool.not_eq_false _ ▸ hless))
        (by rw [length_swap]; exact hn) ?_
      rcases child_cases key h i n with hc | hc <;> omega

theorem down_perm (fuel : Nat) (h : List α) (i n : Nat) : (down key fuel h i n).Perm h := by
  induction fuel generalizing h i with
  | zero => exact .refl h
  | succ fuel ih =>
    unfold down
    split
    · exact .refl h
    split
    · exact .refl h
    · exact (ih _ _).trans swap_perm

/-- The elements from `n` on stay where they are. -/
theorem getElem?_down (fuel : Nat) (hi : i < n) (hn : n ≤ h.length) (hk : n ≤ k) :
    (down key fuel h i n)[k]? = h[k]? := by
  induction fuel generalizing h i with
  | zero => rfl
  | succ fuel ih =>
    unfold down
    split
    · rfl
    next hc =>
    split
    · rfl
    · have hcn : child key h i n < n := by
        rcases child_cases key h i n with hc | hc <;> omega
      rw [ih hcn (by rw [length_swap]; exact hn), getElem?_swap (by omega) (by omega),
        if_neg (by omega), if_neg (by omega)]

end Order

/-! ## 4. Push and pop -/

section PushPop

variable {key} {h : List α}

theorem push_perm (key : α → κ) (h : List α) (x : α) : (push key h x).Perm (x :: h) :=
  (up_perm _ _ _).trans (List.perm_append_singleton x h)

theorem push_ordered (ho : Ordered key h h.length) (x : α) :
    Ordered key (push key h x) (push key h x).length := by
  have hlen : (push key h x).length = h.length + 1 := (push_perm key h x).length_eq
  rw [hlen]
  refine up_ordered ⟨fun k hk0 hkn hk => ?_, fun k hk0 hkn hpk _ => ?_⟩ (by omega) (by simp)
    (Nat.le_refl _)
  · have := parent_lt hk0
    exact (ho k hk0 (by omega)).congr (List.getElem?_append_left (by omega))
      (List.getElem?_append_left (by omega))
  · have := parent_lt hk0
    omega

/-- What is left of the heap when the last element has been put first and moved down. -/
theorem popped_perm (key : α → κ) (h : List α) :
    (down key (h.length - 1) (swap h 0 (h.length - 1)) 0 (h.length - 1)).Perm h :=
  (down_perm _ _ _ _).trans swap_perm

theorem pop_eq_none : pop key h = none ↔ h = [] := by
  rw [pop, Option.map_eq_none_iff, List.getLast?_eq_none_iff]
  constructor
  · intro hnil
    have hperm := popped_perm key h
    rw [hnil] at hperm
    exact hperm.nil_eq.symm
  · rintro rfl
    exact (popped_perm key []).eq_nil

/-- In an ordered heap nothing is before the first element. -/
theorem ordered_first {n : Nat} (ho : Ordered key h n) (hn : n ≤ h.length) {k : Nat} (hk : k < n) :
    Le key h 0 k := by
  induction k using Nat.strongRecOn with
  | _ k ih =>
    by_cases h0 : k = 0
    · subst h0
      intro a ha b hb
      rw [Option.mem_unique ha hb]
    · have hlt := parent_lt (Nat.pos_of_ne_zero h0)
      exact (ih _ hlt (by omega)).trans (ho k (by omega) hk) (by omega)

/-- A pop returns an element that no other is before, and leaves a heap of the others. -/
theorem pop_some {x : α} {h' : List α} (ho : Ordered key h h.length)
    (hpop : pop key h = some (x, h')) :
    (x :: h').Perm h ∧ Ordered key h' h'.length ∧ ∀ y ∈ h, key x ≤ key y := by
  obtain ⟨y, hlast, heq⟩ := Option.map_eq_some_iff.mp hpop
  cases heq
  have hne : h ≠ [] := fun hnil => by
    rw [pop_eq_none.mpr hnil] at hpop
    cases hpop
  have hpos := List.length_pos_iff.mpr hne
  have hperm := popped_perm key h
  -- `n` elements are left, and the last one is the old first one
  obtain ⟨n, hn⟩ : ∃ n, h.length = n + 1 := ⟨h.length - 1, by omega⟩
  rw [hn, Nat.add_sub_cancel] at hlast hperm ⊢
  have hswap := getElem?_swap (h := h) (i := 0) (j := n) (by omega) (by omega)
  have hlen : (down key n (swap h 0 n) 0 n).length = n + 1 := hperm.length_eq.trans hn
  have hfirst : h[0]? = some x := by
    rw [List.getLast?_eq_getElem?, hlen, Nat.add_sub_cancel] at hlast
    cases n with
    | zero =>
      rw [down, hswap, if_pos rfl] at hlast
      exact hlast
    | succ n =>
      rw [getElem?_down _ (by omega) (by rw [length_swap]; omega) (Nat.le_refl _), hswap,
        if_neg (by omega), if_pos rfl] at hlast
      exact hlast
  have hdown : DownOrder key (swap h 0 n) 0 n := by
    refine ⟨fun k hk0 hkn hpk => ?_, fun k _ _ _ h0 => absurd h0 (Nat.lt_irrefl 0)⟩
    have := parent_lt hk0
    exact (ho k hk0 (by omega)).congr (by rw [hswap, if_neg hpk, if_neg (by omega)])
      (by rw [hswap, if_neg (by omega), if_neg (by omega)])
  have hordered := down_ordered hdown (by rw [length_swap]; omega)
    (Nat.le_of_eq (Nat.zero_add n).symm)
  refine ⟨?_, ?_, fun y hy => ?_⟩
  · have hconcat := List.dropLast_append_getLast? x hlast
    refine ((List.perm_append_singleton x _).symm.trans ?_).trans hperm
    rw [hconcat]
  · rw [List.length_dropLast, hlen, Nat.add_sub_cancel]
    intro k hk0 hkn
    have := parent_lt hk0
    exact (hordered k hk0 hkn).congr (by rw [List.getElem?_dropLast, hlen, if_pos (by omega)])
      (by rw [List.getElem?_dropLast, hlen, if_pos (by omega)])
  · obtain ⟨k, hk⟩ := List.getElem?_of_mem hy
    have hkn := (List.getElem?_eq_some_iff.mp hk).1
    exact ordered_first ho (Nat.le_refl _) hkn x hfirst y hk

end PushPop

end Heaps
