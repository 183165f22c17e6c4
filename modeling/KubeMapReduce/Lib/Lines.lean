import Mathlib.Data.List.Nodup
import Mathlib.Data.List.Flatten
import Mathlib.Data.List.Pairwise

/-!
# Lines of a stream

A stream over an alphabet with a line end is a list of lines. Each line is kept with the
position at which it begins, so equal lines at different places are different.

* `linesAt_drop`, `linesAt_take`: the lines of a suffix and of an initial part of a stream,
  from the lines of the stream.
* `lines_flatten_iff`: the lines of streams that are put one after the other.
* `lines_flatMap_end`: lines that are written with their ends are read as they are.
* `flatMap_share_iff`: parts of an ascending list, put one after the other, give the list
  exactly if every element is in one part and is whole there.
-/

namespace Lines

/-! ## 1. Lines -/

section Stream

variable {α : Type} (nl : α → Bool)

/-- The lines after `x`, which begins at `o` and does not end a line. -/
def attach (o : Nat) (x : α) : List (Nat × List α) → List (Nat × List α)
  | [] => [(o, [x])]
  | (_, l) :: ls => (o, x :: l) :: ls

/-- The lines of a stream that begins at position `o`. Only the last one can lack its end. -/
def linesAt : Nat → List α → List (Nat × List α)
  | _, [] => []
  | o, x :: xs =>
    if nl x then (o, [x]) :: linesAt (o + 1) xs else attach o x (linesAt (o + 1) xs)

variable {nl} {o : Nat} {x : α} {xs : List α} {y : Nat × List α}

theorem attach_eq (o : Nat) (x : α) (ls : List (Nat × List α)) :
    attach o x ls = (o, x :: ls.head?.elim [] Prod.snd) :: ls.tail := by
  cases ls <;> rfl

theorem linesAt_end (h : nl x = true) :
    linesAt nl o (x :: xs) = (o, [x]) :: linesAt nl (o + 1) xs := if_pos h

theorem linesAt_other (h : nl x = false) :
    linesAt nl o (x :: xs) = attach o x (linesAt nl (o + 1) xs) :=
  if_neg (Bool.eq_false_iff.mp h)

/-- The first line up to its end, and the lines behind it. -/
theorem linesAt_eq (h : xs ≠ []) : linesAt nl o xs =
    (o, xs.take (xs.findIdx nl + 1)) ::
      linesAt nl (o + (xs.findIdx nl + 1)) (xs.drop (xs.findIdx nl + 1)) := by
  induction xs generalizing o with
  | nil => exact absurd rfl h
  | cons x xs ih =>
    rw [List.findIdx_cons]
    cases hx : nl x with
    | true =>
      rw [linesAt_end hx]
      rfl
    | false =>
      rw [linesAt_other hx, cond_false]
      cases xs with
      | nil => rfl
      | cons y ys =>
        rw [ih (List.cons_ne_nil y ys), attach, Nat.add_assoc, Nat.add_comm 1]
        rfl

theorem le_of_mem_linesAt (h : y ∈ linesAt nl o xs) : o ≤ y.1 := by
  induction xs generalizing o with
  | nil => cases h
  | cons x xs ih =>
    have hrest : y ∈ linesAt nl (o + 1) xs → o ≤ y.1 := fun h => Nat.le_of_succ_le (ih h)
    cases hx : nl x with
    | true =>
      rw [linesAt_end hx] at h
      rcases List.mem_cons.mp h with rfl | h
      · exact Nat.le_refl o
      · exact hrest h
    | false =>
      rw [linesAt_other hx, attach_eq] at h
      rcases List.mem_cons.mp h with rfl | h
      · exact Nat.le_refl o
      · exact hrest (List.mem_of_mem_tail h)

/-- The lines begin one after the other. -/
theorem linesAt_ascending (nl : α → Bool) (o : Nat) (xs : List α) :
    (linesAt nl o xs).Pairwise (·.1 < ·.1) := by
  induction xs generalizing o with
  | nil => exact .nil
  | cons x xs ih =>
    have hlt : ∀ {y}, y ∈ linesAt nl (o + 1) xs → o < y.1 := le_of_mem_linesAt
    cases hx : nl x with
    | true =>
      rw [linesAt_end hx]
      exact .cons (fun y hy => hlt hy) (ih (o + 1))
    | false =>
      rw [linesAt_other hx, attach_eq]
      exact .cons (fun y hy => hlt (List.mem_of_mem_tail hy)) (ih (o + 1)).tail

/-! ## 2. Parts of a stream -/

theorem filter_drop_head {ls : List (Nat × List α)} {s : Nat} (h : ∀ y ∈ ls.head?, y.1 < s) :
    ls.filter (fun y => decide (s ≤ y.1)) = ls.tail.filter (fun y => decide (s ≤ y.1)) := by
  cases ls with
  | nil => rfl
  | cons y ls =>
    refine List.filter_cons_of_neg ?_
    simpa using h y rfl

theorem head_linesAt (h : y ∈ (linesAt nl o xs).head?) : y.1 = o := by
  cases xs with
  | nil => cases h
  | cons x xs =>
    rw [linesAt_eq (List.cons_ne_nil x xs), List.head?_cons] at h
    cases h
    rfl

/-- The lines that begin in a suffix: all lines of the suffix, but for the first one when the
suffix begins inside a line. -/
theorem linesAt_drop (nl : α → Bool) (o k : Nat) (xs : List α) :
    (linesAt nl o xs).filter (fun y => decide (o + k ≤ y.1)) =
      if k = 0 ∨ xs[k - 1]?.any nl = true then linesAt nl (o + k) (xs.drop k)
      else (linesAt nl (o + k) (xs.drop k)).tail := by
  induction xs generalizing o k with
  | nil =>
    rw [List.drop_nil]
    split <;> rfl
  | cons x xs ih =>
    cases k with
    | zero =>
      rw [if_pos (.inl rfl)]
      exact List.filter_eq_self.mpr fun y hy => decide_eq_true (le_of_mem_linesAt hy)
    | succ k =>
      -- the first line begins at o and is out
      rw [filter_drop_head fun y hy => by rw [head_linesAt hy]; omega, Nat.add_sub_cancel,
        List.drop_succ_cons, show o + (k + 1) = o + 1 + k by omega]
      cases hx : nl x with
      | true =>
        rw [linesAt_end hx, List.tail_cons, ih]
        cases k with
        | zero => simp [hx]
        | succ k => simp
      | false =>
        rw [linesAt_other hx, attach_eq, List.tail_cons]
        cases k with
        | zero =>
          rw [if_neg (by simp [hx])]
          exact List.filter_eq_self.mpr fun y hy =>
            decide_eq_true (le_of_mem_linesAt (List.mem_of_mem_tail hy))
        | succ k =>
          rw [← filter_drop_head fun y hy => by rw [head_linesAt hy]; omega, ih]
          simp

/-- The line up to position `t`. -/
def cut (t : Nat) (y : Nat × List α) : Nat × List α := (y.1, y.2.take (t - y.1))

/-- The lines of an initial part: those that begin in it, the last one cut off. -/
theorem linesAt_take (nl : α → Bool) (o k : Nat) (xs : List α) :
    linesAt nl o (xs.take k) =
      ((linesAt nl o xs).filter (fun y => decide (y.1 < o + k))).map (cut (o + k)) := by
  induction xs generalizing o k with
  | nil =>
    rw [List.take_nil]
    rfl
  | cons x xs ih =>
    cases k with
    | zero =>
      rw [List.filter_eq_nil_iff.mpr]
      · rfl
      · intro y hy
        simpa using le_of_mem_linesAt hy
    | succ k =>
      have hih := ih (o + 1) k
      rw [show o + 1 + k = o + (k + 1) by omega] at hih
      have hkeep : ∀ (l : List α) (ls : List (Nat × List α)),
          (((o, l) :: ls).filter (fun y => decide (y.1 < o + (k + 1)))).map (cut (o + (k + 1))) =
            (o, l.take (k + 1)) ::
              (ls.filter fun y => decide (y.1 < o + (k + 1))).map (cut (o + (k + 1))) := by
        intro l ls
        rw [List.filter_cons_of_pos (by simp), List.map_cons, cut, Nat.add_sub_cancel_left]
      rw [List.take_succ_cons]
      cases hx : nl x with
      | true =>
        rw [linesAt_end hx, linesAt_end hx, hih, hkeep]
        simp
      | false =>
        rw [linesAt_other hx, linesAt_other hx, hih]
        cases hls : linesAt nl (o + 1) xs with
        | nil => simp [attach, cut]
        | cons y ls =>
          obtain ⟨o', l⟩ := y
          have ho' : o' = o + 1 := head_linesAt (y := (o', l)) (by rw [hls]; rfl)
          subst ho'
          refine Eq.trans ?_ (hkeep (x :: l) ls).symm
          cases k with
          | zero =>
            have hnil : ∀ y ∈ (o + 1, l) :: ls, ¬ decide (y.1 < o + (0 + 1)) = true :=
              fun y hy h => Nat.not_lt.mpr (le_of_mem_linesAt (hls ▸ hy)) (of_decide_eq_true h)
            rw [List.filter_eq_nil_iff.mpr hnil,
              List.filter_eq_nil_iff.mpr fun y hy => hnil y (List.mem_cons_of_mem _ hy)]
            rfl
          | succ k =>
            rw [List.filter_cons_of_pos (by simp), List.map_cons, cut, attach, List.take_succ_cons,
              show o + (k + 1 + 1) - (o + 1) = k + 1 by omega]

/-- A line of a suffix is part of a line of the stream. -/
theorem length_le_of_drop (k : Nat) (h : y ∈ linesAt nl (o + k) (xs.drop k)) :
    ∃ y' ∈ linesAt nl o xs, y.2.length ≤ y'.2.length := by
  induction k generalizing o xs with
  | zero => exact ⟨y, h, Nat.le_refl _⟩
  | succ k ih =>
    cases xs with
    | nil => cases h
    | cons x xs =>
      rw [List.drop_succ_cons, show o + (k + 1) = o + 1 + k by omega] at h
      obtain ⟨y', hy', hle⟩ := ih h
      cases hx : nl x with
      | true =>
        rw [linesAt_end hx]
        exact ⟨y', List.mem_cons_of_mem _ hy', hle⟩
      | false =>
        rw [linesAt_other hx]
        cases hls : linesAt nl (o + 1) xs with
        | nil =>
          rw [hls] at hy'
          cases hy'
        | cons y₀ ls =>
          rw [hls] at hy'
          rcases List.mem_cons.mp hy' with rfl | hy'
          · exact ⟨_, List.mem_cons_self, Nat.le_succ_of_le hle⟩
          · exact ⟨y', List.mem_cons_of_mem _ hy', hle⟩

end Stream

/-! ## 3. Streams one after the other -/

section Concatenation

variable {α : Type} (nl : α → Bool)

/-- The lines of a stream, with their ends. -/
def lines (xs : List α) : List (List α) := (linesAt nl 0 xs).map Prod.snd

/-- The last element ends a line. -/
def Ended (xs : List α) : Prop := xs.getLast?.any nl = true

instance (xs : List α) : Decidable (Ended nl xs) := inferInstanceAs (Decidable (_ = true))

/-- Every stream that has something behind it ends with a line end. -/
def Separated : List (List α) → Prop
  | [] => True
  | xs :: rest => (xs = [] ∨ rest.flatten = [] ∨ Ended nl xs) ∧ Separated rest

instance decidableSeparated [DecidableEq α] : (xss : List (List α)) → Decidable (Separated nl xss)
  | [] => isTrue trivial
  | xs :: rest =>
    have := decidableSeparated rest
    inferInstanceAs (Decidable ((xs = [] ∨ rest.flatten = [] ∨ Ended nl xs) ∧ Separated nl rest))

variable {nl} {x : α} {xs ys : List α}

theorem map_snd_linesAt (o o' : Nat) (xs : List α) :
    (linesAt nl o xs).map Prod.snd = (linesAt nl o' xs).map Prod.snd := by
  induction xs generalizing o o' with
  | nil => rfl
  | cons x xs ih =>
    cases hx : nl x with
    | true => rw [linesAt_end hx, linesAt_end hx, List.map_cons, List.map_cons, ih]
    | false =>
      have hrest := ih (o + 1) (o' + 1)
      rw [linesAt_other hx, linesAt_other hx, attach_eq, attach_eq, List.map_cons, List.map_cons,
        List.map_tail, List.map_tail, hrest]
      have hhead : ∀ ls : List (Nat × List α),
          ls.head?.elim [] Prod.snd = (ls.map Prod.snd).headD [] := by
        rintro (_ | ⟨y, ls⟩) <;> rfl
      rw [hhead, hhead, hrest]

theorem lines_end (h : nl x = true) : lines nl (x :: xs) = [x] :: lines nl xs := by
  rw [lines, linesAt_end h, List.map_cons, map_snd_linesAt (0 + 1) 0]
  rfl

theorem lines_other (h : nl x = false) :
    lines nl (x :: xs) = (x :: (lines nl xs).headD []) :: (lines nl xs).tail := by
  rw [lines, linesAt_other h, attach_eq, List.map_cons, List.map_tail, map_snd_linesAt (0 + 1) 0,
    lines, ← map_snd_linesAt (0 + 1) 0]
  cases linesAt nl (0 + 1) xs <;> rfl

theorem lines_ne_nil (nl : α → Bool) (h : xs ≠ []) : lines nl xs ≠ [] := by
  rw [lines, linesAt_eq h, List.map_cons]
  exact List.cons_ne_nil _ _

/-- Behind a line end the lines begin anew. -/
theorem lines_append_end (h : nl x = true) (xs ys : List α) :
    lines nl (xs ++ x :: ys) = lines nl (xs ++ [x]) ++ lines nl ys := by
  induction xs with
  | nil =>
    rw [List.nil_append, List.nil_append, lines_end h, lines_end h]
    rfl
  | cons y xs ih =>
    rw [List.cons_append, List.cons_append]
    cases hy : nl y with
    | true =>
      rw [lines_end hy, lines_end hy, ih]
      rfl
    | false =>
      obtain ⟨l, ls, hls⟩ := List.exists_cons_of_ne_nil (lines_ne_nil nl
        (List.append_ne_nil_of_right_ne_nil xs (List.cons_ne_nil x [])))
      rw [lines_other hy, lines_other hy, ih, hls]
      rfl

/-- Without a line end, the first line of the second stream goes to the last one of the first. -/
theorem length_lines_append_other (h : nl x = false) (xs : List α) (hys : ys ≠ []) :
    (lines nl (xs ++ x :: ys)).length + 1 =
      (lines nl (xs ++ [x])).length + (lines nl ys).length := by
  have hlen : ∀ {zs : List α} {z : α}, nl z = false → zs ≠ [] →
      (lines nl (z :: zs)).length = (lines nl zs).length := by
    intro zs z hz hzs
    obtain ⟨l, ls, hls⟩ := List.exists_cons_of_ne_nil (lines_ne_nil nl hzs)
    rw [lines_other hz, hls]
    rfl
  induction xs with
  | nil =>
    rw [List.nil_append, List.nil_append, hlen h hys, lines_other h, Nat.add_comm]
    rfl
  | cons y xs ih =>
    rw [List.cons_append, List.cons_append]
    cases hy : nl y with
    | true =>
      rw [lines_end hy, lines_end hy, List.length_cons, List.length_cons, ih]
      omega
    | false =>
      rw [hlen hy (List.append_ne_nil_of_right_ne_nil xs (List.cons_ne_nil x ys)),
        hlen hy (List.append_ne_nil_of_right_ne_nil xs (List.cons_ne_nil x [])), ih]

theorem lines_append (h : xs = [] ∨ ys = [] ∨ Ended nl xs) :
    lines nl (xs ++ ys) = lines nl xs ++ lines nl ys := by
  rcases h with rfl | rfl | h
  · rfl
  · rw [List.append_nil, show lines nl [] = [] from rfl, List.append_nil]
  · obtain ⟨x, hx, hnl⟩ := (Option.any_eq_true ..).mp h
    obtain ⟨zs, rfl⟩ := List.getLast?_eq_some_iff.mp hx
    rw [List.append_assoc]
    exact lines_append_end hnl zs ys

theorem length_lines_append (h : ¬ (xs = [] ∨ ys = [] ∨ Ended nl xs)) :
    (lines nl (xs ++ ys)).length + 1 = (lines nl xs).length + (lines nl ys).length := by
  obtain ⟨hxs, hys, hend⟩ : xs ≠ [] ∧ ys ≠ [] ∧ ¬ Ended nl xs := by simpa using h
  obtain ⟨zs, x, rfl⟩ := List.eq_nil_or_concat xs |>.resolve_left hxs
  rw [List.concat_eq_append] at hend ⊢
  have hx : nl x = false := by simpa [Ended] using hend
  rw [List.append_assoc]
  exact length_lines_append_other hx zs hys

theorem length_lines_flatten_le (nl : α → Bool) (xss : List (List α)) :
    (lines nl xss.flatten).length ≤ (xss.flatMap (lines nl)).length := by
  induction xss with
  | nil => exact Nat.le_refl 0
  | cons xs rest ih =>
    rw [List.flatten_cons, List.flatMap_cons, List.length_append]
    by_cases h : xs = [] ∨ rest.flatten = [] ∨ Ended nl xs
    · rw [lines_append h, List.length_append]
      omega
    · have := length_lines_append h
      omega

/-- The lines of several streams are the lines of all of them, exactly if none of them runs into
the next one. -/
theorem lines_flatten_iff (xss : List (List α)) :
    lines nl xss.flatten = xss.flatMap (lines nl) ↔ Separated nl xss := by
  induction xss with
  | nil => exact iff_of_true rfl trivial
  | cons xs rest ih =>
    rw [List.flatten_cons, List.flatMap_cons, Separated]
    by_cases h : xs = [] ∨ rest.flatten = [] ∨ Ended nl xs
    · rw [lines_append h, List.append_cancel_left_eq, ih]
      exact (and_iff_right h).symm
    · refine iff_of_false (fun heq => ?_) fun hsep => h hsep.1
      have hlen := congrArg List.length heq
      have hjoin := length_lines_append h
      have hle := length_lines_flatten_le nl rest
      rw [List.length_append] at hlen
      omega

/-- A first line is one line. -/
theorem lines_first (nl : α → Bool) (h : xs ≠ []) :
    lines nl (xs.take (xs.findIdx nl + 1)) = [xs.take (xs.findIdx nl + 1)] := by
  induction xs with
  | nil => exact absurd rfl h
  | cons x xs ih =>
    rw [List.findIdx_cons]
    cases hx : nl x with
    | true => exact lines_end hx
    | false =>
      rw [cond_false, List.take_succ_cons, lines_other hx]
      cases xs with
      | nil => rfl
      | cons y ys =>
        rw [ih (List.cons_ne_nil y ys)]
        rfl

theorem ended_first (h : xs.findIdx nl < xs.length) : Ended nl (xs.take (xs.findIdx nl + 1)) := by
  rw [Ended, List.take_add_one, List.getElem?_eq_getElem h, Option.toList_some,
    List.getLast?_concat]
  exact List.findIdx_getElem

/-- The first lines of a stream, put together, have these lines. -/
theorem lines_of_first {o : Nat} {ls : List (Nat × List α)} (h : ls <+: linesAt nl o xs) :
    lines nl (ls.flatMap Prod.snd) = ls.map Prod.snd := by
  induction ls generalizing o xs with
  | nil => rfl
  | cons y ls ih =>
    by_cases hxs : xs = []
    · subst hxs
      exact absurd (List.prefix_nil.mp h) (List.cons_ne_nil y ls)
    rw [linesAt_eq hxs] at h
    obtain ⟨rfl, hrest⟩ := List.cons_prefix_cons.mp h
    rw [List.flatMap_cons, lines_append, lines_first nl hxs, ih hrest]
    · rfl
    · by_cases hlt : xs.findIdx nl < xs.length
      · exact .inr (.inr (ended_first hlt))
      · rw [List.drop_eq_nil_of_le (by omega)] at hrest
        rw [List.prefix_nil.mp hrest]
        exact .inr (.inl rfl)

/-- A line with its end is one line. -/
theorem lines_whole (hx : nl x = true) (hxs : ∀ y ∈ xs, nl y = false) :
    lines nl (xs ++ [x]) = [xs ++ [x]] := by
  induction xs with
  | nil => exact lines_end hx
  | cons y xs ih =>
    obtain ⟨hy, hxs⟩ := List.forall_mem_cons.mp hxs
    rw [List.cons_append, lines_other hy, ih hxs]
    rfl

/-- Lines that are written with their ends are read as they are. -/
theorem lines_flatMap_end (hx : nl x = true) {xss : List (List α)}
    (h : ∀ xs ∈ xss, ∀ y ∈ xs, nl y = false) :
    lines nl (xss.flatMap (· ++ [x])) = xss.map (· ++ [x]) := by
  induction xss with
  | nil => rfl
  | cons xs xss ih =>
    obtain ⟨hxs, h⟩ := List.forall_mem_cons.mp h
    rw [List.flatMap_cons, List.append_assoc]
    exact (lines_append_end hx xs _).trans
      (congrArg₂ (· ++ ·) (lines_whole hx hxs) (ih h))

end Concatenation

/-! ## 4. Parts of an ascending list -/

section Shares

variable {β ι : Type} {key : β → Nat} {L : List β} {l : List ι} {P : ι → β → Bool}
  {f : ι → β → β}

theorem eq_of_key (hL : L.Pairwise (key · < key ·)) {x y : β} (hx : x ∈ L) (hy : y ∈ L)
    (h : key x = key y) : x = y :=
  List.inj_on_of_nodup_map (List.pairwise_map.mpr (hL.imp Nat.ne_of_lt)) hx hy h

/-- The shares `P i` of an ascending list, with `f i` applied to the elements of the `i`-th
one, give the list one after the other exactly if every element is in one share and `f`
leaves it as it is there. -/
theorem flatMap_share_iff (hL : L.Pairwise (key · < key ·)) (hl : l.Nodup)
    (hf : ∀ i x, key (f i x) = key x)
    (hord : l.Pairwise fun i j => ∀ x ∈ L, ∀ y ∈ L, P i x = true → P j y = true →
      key x ≤ key y ∨ P i y = true) :
    l.flatMap (fun i => (L.filter (P i)).map (f i)) = L ↔
      (∀ x ∈ L, ∃! i, i ∈ l ∧ P i x = true) ∧
        ∀ x ∈ L, ∀ i ∈ l, P i x = true → f i x = x := by
  have hkeys : (L.map key).Nodup := List.pairwise_map.mpr (hL.imp Nat.ne_of_lt)
  have hmem : ∀ {i x}, i ∈ l → x ∈ L → P i x = true → f i x ∈ (L.filter (P i)).map (f i) :=
    fun _ hx hp => List.mem_map_of_mem (List.mem_filter.mpr ⟨hx, hp⟩)
  constructor
  · intro h
    have hwhole : ∀ x ∈ L, ∀ i ∈ l, P i x = true → f i x = x := by
      intro x hx i hi hp
      have hfx : f i x ∈ L := h ▸ List.mem_flatMap.mpr ⟨i, hi, hmem hi hx hp⟩
      exact eq_of_key hL hfx hx (hf i x)
    refine ⟨fun x hx => ?_, hwhole⟩
    have hx' := hx
    rw [← h] at hx'
    obtain ⟨i, hi, hxi⟩ := List.mem_flatMap.mp hx'
    obtain ⟨y, hy, hyx⟩ := List.mem_map.mp hxi
    obtain ⟨hy, hp⟩ := List.mem_filter.mp hy
    rw [hwhole y hy i hi hp] at hyx
    subst hyx
    refine ⟨i, ⟨hi, hp⟩, fun j ⟨hj, hpj⟩ => ?_⟩
    -- a second share would bring the position a second time
    rw [← h, List.map_flatMap, List.nodup_flatMap] at hkeys
    by_contra hne
    have hsymm : Std.Symm (Function.onFun List.Disjoint
        fun i => ((L.filter (P i)).map (f i)).map key) := ⟨fun _ _ hd _ ha hb => hd hb ha⟩
    refine hkeys.2.forall hj hi hne (List.mem_map_of_mem (hmem hj hy hpj)) ?_
    rw [hf, ← hf i y]
    exact List.mem_map_of_mem (hmem hi hy hp)
  · rintro ⟨hone, hwhole⟩
    have hunique : ∀ {i j x}, i ∈ l → j ∈ l → x ∈ L → P i x = true → P j x = true → i = j :=
      fun hi hj hx hpi hpj => (hone _ hx).unique ⟨hi, hpi⟩ ⟨hj, hpj⟩
    have hshare : ∀ i ∈ l, (L.filter (P i)).map (f i) = L.filter (P i) := by
      intro i hi
      refine (List.map_congr_left fun x hx => ?_).trans (List.map_id _)
      obtain ⟨hx, hp⟩ := List.mem_filter.mp hx
      exact hwhole x hx i hi hp
    rw [List.flatMap_congr hshare]
    have hasc : (l.flatMap fun i => L.filter (P i)).Pairwise (key · < key ·) := by
      refine List.pairwise_flatMap.mpr ⟨fun i _ => hL.filter _, ?_⟩
      refine (hord.and hl).imp_of_mem fun {i j} hi hj ⟨h, hne⟩ x hx y hy => ?_
      obtain ⟨hx, hpx⟩ := List.mem_filter.mp hx
      obtain ⟨hy, hpy⟩ := List.mem_filter.mp hy
      rcases h x hx y hy hpx hpy with hle | hp
      · refine Nat.lt_of_le_of_ne hle fun he => ?_
        cases eq_of_key hL hx hy he
        exact hne (hunique hi hj hx hpx hpy)
      · exact absurd (hunique hi hj hy hp hpy) hne
    refine List.Perm.eq_of_pairwise (fun x y _ _ h h' => absurd h (Nat.lt_asymm h')) hasc hL ?_
    refine (List.perm_ext_iff_of_nodup (hasc.imp fun h => ne_of_apply_ne key (Nat.ne_of_lt h))
      (hL.imp fun h => ne_of_apply_ne key (Nat.ne_of_lt h))).mpr fun x => ?_
    constructor
    · intro hx
      obtain ⟨i, _, hx⟩ := List.mem_flatMap.mp hx
      exact (List.mem_filter.mp hx).1
    · intro hx
      obtain ⟨i, ⟨hi, hp⟩, _⟩ := hone x hx
      exact List.mem_flatMap.mpr ⟨i, hi, List.mem_filter.mpr ⟨hx, hp⟩⟩

end Shares

end Lines
