import Mathlib.Data.List.Sort
import Mathlib.Data.Prod.Lex
import Mathlib.Algebra.BigOperators.Group.List.Basic
import Mathlib.Algebra.Order.Group.Nat
import Mathlib.Algebra.Ring.Nat
import KubeMapReduce.Lib.Heap

/-!
# Merging sorted streams

Several streams of records are merged with a heap that holds the next record of each. A record is
before another one by its key, and for equal keys by the number of its stream.

* `Stable`: sorted by key, with equal keys in their old order. There is one such list
  (`Stable.unique`), and it can be computed part by part (`Stable.of_parts`).
* `stable_stableMerge`: the records by key, stream and place in the stream.
* `merge_yields`: the merge of sorted streams that end. `merge_fails`: if one of them fails, then so
  does the merge.
-/

namespace Merging

/-! ## 1. Stable order -/

section Stable

variable {ρ κ : Type} [LinearOrder κ] {key : ρ → κ} {l l' out out' : List ρ}

/-- The records of `l` in the order of their keys, those with one key in the order of `l`. -/
structure Stable (key : ρ → κ) (l out : List ρ) : Prop where
  sorted : out.Pairwise (key · ≤ key ·)
  same : ∀ v, out.filter (fun r => decide (key r = v)) = l.filter fun r => decide (key r = v)

theorem Stable.mem_iff (h : Stable key l out) {r : ρ} : r ∈ out ↔ r ∈ l := by
  have hmem : ∀ l : List ρ, r ∈ l ↔ r ∈ l.filter fun r' => decide (key r' = key r) := by simp
  rw [hmem out, hmem l, h.same]

theorem Stable.unique (h : Stable key l out) (h' : Stable key l out') : out = out' := by
  have hsame : ∀ v, out.filter (fun r => decide (key r = v)) =
      out'.filter fun r => decide (key r = v) := fun v => (h.same v).trans (h'.same v).symm
  have hsort := h.sorted
  have hsort' := h'.sorted
  clear h h'
  induction out generalizing out' with
  | nil =>
    cases out' with
    | nil => rfl
    | cons r' out' =>
      have := hsame (key r')
      simp at this
  | cons r out ih =>
    cases out' with
    | nil =>
      have := hsame (key r)
      simp at this
    | cons r' out' =>
      obtain ⟨hfirst, hrest⟩ := List.pairwise_cons.mp hsort
      obtain ⟨hfirst', hrest'⟩ := List.pairwise_cons.mp hsort'
      have hle : ∀ {a b : ρ} {as bs : List ρ}, (∀ c ∈ as, key a ≤ key c) →
          (a :: as).filter (fun c => decide (key c = key b)) =
            (b :: bs).filter (fun c => decide (key c = key b)) → key a ≤ key b := by
        intro a b as bs hmin heq
        have hmem : b ∈ (a :: as).filter fun c => decide (key c = key b) := by
          rw [heq]
          simp
        rcases List.mem_cons.mp (List.mem_filter.mp hmem).1 with rfl | hmem
        · exact le_refl _
        · exact hmin b hmem
      have hkey : key r = key r' := le_antisymm (hle hfirst (hsame (key r')))
        (hle hfirst' (hsame (key r)).symm)
      have hhead := hsame (key r)
      rw [List.filter_cons_of_pos (by simp), List.filter_cons_of_pos (by simp [hkey])] at hhead
      obtain ⟨rfl, _⟩ := List.cons.inj hhead
      refine congrArg (r :: ·) (ih (fun v => ?_) hrest hrest')
      have hv := hsame v
      by_cases hr : key r = v
      · rw [List.filter_cons_of_pos (by simp [hr]), List.filter_cons_of_pos (by simp [hr])] at hv
        exact (List.cons.inj hv).2
      · rwa [List.filter_cons_of_neg (by simp [hr]), List.filter_cons_of_neg (by simp [hr])] at hv

/-- Parts of the list can be put in order first. -/
theorem Stable.of_parts {ls outs : List (List ρ)} (hparts : List.Forall₂ (Stable key) ls outs)
    (h : Stable key outs.flatten out) : Stable key ls.flatten out := by
  refine ⟨h.sorted, fun v => (h.same v).trans ?_⟩
  clear h
  induction hparts with
  | nil => rfl
  | cons hpart _ ih =>
    rw [List.flatten_cons, List.flatten_cons, List.filter_append, List.filter_append, ih,
      hpart.same]

end Stable

/-! ## 2. The order of places -/

section Places

variable {ρ κ : Type} [LinearOrder κ] {key : ρ → κ}

/-- The records with the numbers of their streams and their places in them. -/
def placed (rss : List (List ρ)) : List (ρ × Nat × Nat) :=
  rss.zipIdx.flatMap fun x => x.1.zipIdx.map fun y => (y.1, x.2, y.2)

/-- A record comes by its key, then by its stream, then by its place there. -/
def placeKey (key : ρ → κ) (x : ρ × Nat × Nat) : κ ×ₗ ℕ ×ₗ ℕ :=
  toLex (key x.1, toLex (x.2.1, x.2.2))

/-- All records by key, stream and place. -/
def stableMerge (key : ρ → κ) (rss : List (List ρ)) : List ρ :=
  ((placed rss).insertionSort fun a b => placeKey key a ≤ placeKey key b).map Prod.fst

theorem map_fst_placed (rss : List (List ρ)) : (placed rss).map Prod.fst = rss.flatten := by
  unfold placed
  rw [List.map_flatMap]
  have hblock : ∀ x : List ρ × Nat,
      (x.1.zipIdx.map fun y => (y.1, x.2, y.2)).map Prod.fst = x.1 := by
    intro x
    rw [List.map_map]
    exact List.zipIdx_map_fst 0 x.1
  rw [List.flatMap_congr fun x _ => hblock x, List.flatMap_def, List.zipIdx_map_fst]

theorem stableMerge_perm (key : ρ → κ) (rss : List (List ρ)) :
    (stableMerge key rss).Perm rss.flatten := by
  rw [← map_fst_placed rss]
  exact (List.perm_insertionSort _ (placed rss)).map Prod.fst

theorem mem_placed {rss : List (List ρ)} {x : ρ × Nat × Nat} (h : x ∈ placed rss) :
    (rss[x.2.1]?.bind fun rs => rs[x.2.2]?) = some x.1 := by
  obtain ⟨⟨rs, i⟩, hrs, hx⟩ := List.mem_flatMap.mp h
  obtain ⟨⟨r, k⟩, hr, rfl⟩ := List.mem_map.mp hx
  have hrs := List.mem_zipIdx_iff_getElem?.mp hrs
  have hr := List.mem_zipIdx_iff_getElem?.mp hr
  dsimp only at hrs hr ⊢
  rw [hrs, Option.bind_some, hr]

theorem zipIdx_ascending {β : Type} (xs : List β) : xs.zipIdx.Pairwise (·.2 < ·.2) := by
  have h : (xs.zipIdx.map Prod.snd).Pairwise (· < ·) := by
    rw [List.zipIdx_map_snd]
    exact List.pairwise_lt_range' 1
  exact List.pairwise_map.mp h

/-- The places are in their order. -/
theorem placed_ascending (rss : List (List ρ)) :
    (placed rss).Pairwise fun a b => toLex a.2 < toLex b.2 := by
  refine List.pairwise_flatMap.mpr ⟨fun x _ => ?_, ?_⟩
  · refine List.pairwise_map.mpr ((zipIdx_ascending x.1).imp fun h => ?_)
    exact Prod.Lex.toLex_lt_toLex.mpr (.inr ⟨rfl, h⟩)
  · refine (zipIdx_ascending rss).imp fun h a ha b hb => ?_
    obtain ⟨_, _, rfl⟩ := List.mem_map.mp ha
    obtain ⟨_, _, rfl⟩ := List.mem_map.mp hb
    exact Prod.Lex.toLex_lt_toLex.mpr (.inl h)

theorem stable_stableMerge (key : ρ → κ) (rss : List (List ρ)) :
    Stable key rss.flatten (stableMerge key rss) := by
  have hperm := List.perm_insertionSort (fun a b => placeKey key a ≤ placeKey key b) (placed rss)
  have hsort :=
    List.pairwise_insertionSort (fun a b => placeKey key a ≤ placeKey key b) (placed rss)
  unfold stableMerge
  generalize (placed rss).insertionSort (fun a b => placeKey key a ≤ placeKey key b) = out
    at hperm hsort ⊢
  refine ⟨List.pairwise_map.mpr (hsort.imp fun h => ?_), fun v => ?_⟩
  · rcases Prod.Lex.toLex_le_toLex.mp h with h | h
    · exact le_of_lt h
    · exact le_of_eq h.1
  · -- among the records with one key the order is that of the places
    have hfilter : ∀ xs : List (ρ × Nat × Nat),
        (xs.map Prod.fst).filter (fun r => decide (key r = v)) =
          (xs.filter fun x => decide (key x.1 = v)).map Prod.fst := fun xs => List.filter_map
    rw [← map_fst_placed rss, hfilter, hfilter]
    refine congrArg (List.map Prod.fst) (List.Perm.eq_of_pairwise (fun a b ha hb hab hba => ?_)
      (hsort.filter _) ?_ (hperm.filter _))
    · have hkey := le_antisymm hab hba
      have ha := mem_placed (hperm.subset (List.mem_filter.mp ha).1)
      have hb := mem_placed (List.mem_filter.mp hb).1
      obtain ⟨_, hplace⟩ := Prod.mk.inj (toLex_inj.mp hkey)
      obtain ⟨hi, hk⟩ := Prod.mk.inj (toLex_inj.mp hplace)
      rw [← hi, ← hk, ha] at hb
      exact Prod.ext (Option.some.inj hb) (Prod.ext hi hk)
    · refine ((placed_ascending rss).filter _).imp_of_mem fun {a b} ha hb hlt => ?_
      have ha := of_decide_eq_true (List.mem_filter.mp ha).2
      have hb := of_decide_eq_true (List.mem_filter.mp hb).2
      exact Prod.Lex.toLex_le_toLex.mpr (.inr ⟨ha.trans hb.symm, le_of_lt hlt⟩)

end Places

/-! ## 3. Streams -/

/-- What a stream returns: a record and the rest of the stream, its end, or an error. -/
inductive Pull (ρ σ ε : Type) where
  | item (r : ρ) (rest : σ)
  | done
  | fail (e : ε)

section Streams

variable {ρ σ ε : Type} (pull : σ → Pull ρ σ ε)

/-- The stream has these records and ends. -/
inductive Yields : σ → List ρ → Prop
  | done {s : σ} : pull s = .done → Yields s []
  | item {s rest : σ} {r : ρ} {rs : List ρ} :
      pull s = .item r rest → Yields rest rs → Yields s (r :: rs)

/-- The stream has an error, after its records. -/
inductive Fails : σ → Prop
  | now {s : σ} {e : ε} : pull s = .fail e → Fails s
  | later {s rest : σ} {r : ρ} : pull s = .item r rest → Fails rest → Fails s

variable {pull} in
theorem Fails.rest {s rest : σ} {r : ρ} (hf : Fails pull s) (h : pull s = .item r rest) :
    Fails pull rest := by
  cases hf with
  | now hnow =>
    rw [h] at hnow
    cases hnow
  | later hlater hrest =>
    rw [h] at hlater
    cases hlater
    exact hrest

variable {pull} in
theorem Fails.ne_done {s : σ} (hf : Fails pull s) : pull s ≠ .done := by
  intro h
  cases hf with
  | now hnow =>
    rw [h] at hnow
    cases hnow
  | later hlater _ =>
    rw [h] at hlater
    cases hlater

/-- The next record of a stream, the rest of the stream and its number. -/
structure Item (ρ σ : Type) where
  record : ρ
  rest : σ
  index : Nat

variable {κ : Type} [LinearOrder κ] (key : ρ → κ)

def Item.rank (x : Item ρ σ) : κ ×ₗ ℕ := toLex (key x.record, x.index)

/-- The first record of every stream goes to the heap. -/
def fill : Nat → List σ → List (Item ρ σ) → Except (Nat × ε) (List (Item ρ σ))
  | _, [], h => .ok h
  | i, s :: ss, h =>
    match pull s with
    | .item r rest => fill (i + 1) ss (Heaps.push (Item.rank key) h ⟨r, rest, i⟩)
    | .done => fill (i + 1) ss h
    | .fail e => .error (i, e)

/-- The records that are written, and the error that ends the merge; at most `fuel` records. -/
def drain : Nat → List (Item ρ σ) → List ρ × Option (Nat × ε)
  | 0, _ => ([], none)
  | fuel + 1, h =>
    match Heaps.pop (Item.rank key) h with
    | none => ([], none)
    | some (x, h) =>
      match pull x.rest with
      | .item r rest =>
        let out := drain fuel (Heaps.push (Item.rank key) h ⟨r, rest, x.index⟩)
        (x.record :: out.1, out.2)
      | .done =>
        let out := drain fuel h
        (x.record :: out.1, out.2)
      | .fail e => ([x.record], some (x.index, e))

/-- `size` bounds the number of records of a stream. -/
def merge (size : σ → Nat) (ss : List σ) : List ρ × Option (Nat × ε) :=
  match fill pull key 0 ss [] with
  | .error e => ([], some e)
  | .ok h => drain pull key (ss.map size).sum h

end Streams

/-! ## 4. Streams that end -/

section Ending

variable {ρ σ ε κ : Type} [LinearOrder κ] {pull : σ → Pull ρ σ ε} {key : ρ → κ}
  {h : List (Item ρ σ)} {rss : List (List ρ)}

/-- The heap holds the first record of each list that has one, and the rest is still to come. -/
structure Holds (pull : σ → Pull ρ σ ε) (key : ρ → κ) (h : List (Item ρ σ))
    (rss : List (List ρ)) : Prop where
  ordered : Heaps.Ordered (Item.rank key) h h.length
  nodup : (h.map Item.index).Nodup
  items : ∀ x ∈ h, ∃ rs, rss[x.index]? = some (x.record :: rs) ∧ Yields pull x.rest rs
  all : ∀ i r rs, rss[i]? = some (r :: rs) → ∃ x ∈ h, x.index = i

theorem Holds.empty (key : ρ → κ) : Holds pull key [] ([] : List (List ρ)) :=
  ⟨fun _ _ hk => absurd hk (Nat.not_lt_zero _), .nil, nofun, nofun⟩

/-- The heap holds the first records but for stream `i`. -/
structure Missing (pull : σ → Pull ρ σ ε) (key : ρ → κ) (h : List (Item ρ σ))
    (rss : List (List ρ)) (i : Nat) : Prop where
  ordered : Heaps.Ordered (Item.rank key) h h.length
  nodup : (i :: h.map Item.index).Nodup
  items : ∀ x ∈ h, ∃ rs, rss[x.index]? = some (x.record :: rs) ∧ Yields pull x.rest rs
  all : ∀ k r rs, k ≠ i → rss[k]? = some (r :: rs) → ∃ x ∈ h, x.index = k

theorem Holds.missing_new (hh : Holds pull key h rss) : Missing pull key h rss rss.length := by
  refine ⟨hh.ordered, List.nodup_cons.mpr ⟨fun hmem => ?_, hh.nodup⟩, hh.items,
    fun k r rs _ => hh.all k r rs⟩
  obtain ⟨x, hx, hlen⟩ := List.mem_map.mp hmem
  obtain ⟨rs, hrs, _⟩ := hh.items x hx
  have := (List.getElem?_eq_some_iff.mp hrs).1
  omega

theorem Holds.pop (hh : Holds pull key h rss) {x : Item ρ σ} {h' : List (Item ρ σ)}
    (hpop : Heaps.pop (Item.rank key) h = some (x, h')) :
    Missing pull key h' rss x.index ∧ x ∈ h ∧ ∀ y ∈ h, x.rank key ≤ y.rank key := by
  obtain ⟨hperm, hordered, hmin⟩ := Heaps.pop_some hh.ordered hpop
  have hmem : ∀ y ∈ x :: h', y ∈ h := fun y hy => hperm.subset hy
  refine ⟨⟨hordered, (hperm.map Item.index).nodup_iff.mpr hh.nodup,
    fun y hy => hh.items y (hmem y (List.mem_cons_of_mem _ hy)), fun k r rs hk hrs => ?_⟩,
    hmem x List.mem_cons_self, hmin⟩
  obtain ⟨y, hy, hyk⟩ := hh.all k r rs hrs
  rcases List.mem_cons.mp (hperm.symm.subset hy) with rfl | hy
  · exact absurd hyk.symm hk
  · exact ⟨y, hy, hyk⟩

section Missing

variable {i : Nat} {rss' : List (List ρ)} (hm : Missing pull key h rss i)
  (hother : ∀ k, k ≠ i → rss'[k]? = rss[k]?)
include hm hother

theorem Missing.items_other : ∀ x ∈ h, ∃ rs, rss'[x.index]? = some (x.record :: rs) ∧
    Yields pull x.rest rs := by
  intro x hx
  have hne : x.index ≠ i := fun he =>
    (List.nodup_cons.mp hm.nodup).1 (he ▸ List.mem_map_of_mem hx)
  rw [hother _ hne]
  exact hm.items x hx

/-- The stream has no more records. -/
theorem Missing.done (hi : rss'[i]? = some []) : Holds pull key h rss' := by
  refine ⟨hm.ordered, (List.nodup_cons.mp hm.nodup).2, hm.items_other hother, fun k r rs hk => ?_⟩
  by_cases hki : k = i
  · rw [hki, hi] at hk
    cases hk
  · rw [hother k hki] at hk
    exact hm.all k r rs hki hk

/-- The stream has another record. -/
theorem Missing.push {r : ρ} {rs : List ρ} {rest : σ} (hi : rss'[i]? = some (r :: rs))
    (hy : Yields pull rest rs) :
    Holds pull key (Heaps.push (Item.rank key) h ⟨r, rest, i⟩) rss' := by
  have hperm := Heaps.push_perm (Item.rank key) h ⟨r, rest, i⟩
  refine ⟨Heaps.push_ordered hm.ordered _, (hperm.map Item.index).nodup_iff.mpr hm.nodup,
    fun x hx => ?_, fun k r' rs' hk => ?_⟩
  · rcases List.mem_cons.mp (hperm.subset hx) with rfl | hx
    · exact ⟨rs, hi, hy⟩
    · exact hm.items_other hother x hx
  · by_cases hki : k = i
    · exact ⟨_, hperm.symm.subset List.mem_cons_self, hki.symm⟩
    · rw [hother k hki] at hk
      obtain ⟨x, hx, hxk⟩ := hm.all k r' rs' hki hk
      exact ⟨x, hperm.symm.subset (List.mem_cons_of_mem _ hx), hxk⟩

end Missing

theorem fill_holds {ss : List σ} {rss' : List (List ρ)} (hh : Holds pull key h rss)
    (hss : List.Forall₂ (Yields pull) ss rss') :
    ∃ h', fill pull key rss.length ss h = .ok h' ∧ Holds pull key h' (rss ++ rss') := by
  induction hss generalizing h rss with
  | nil => exact ⟨h, rfl, by rw [List.append_nil]; exact hh⟩
  | @cons s rs ss rss' hs _ ih =>
    have hother : ∀ k, k ≠ rss.length → (rss ++ [rs])[k]? = rss[k]? := by
      intro k hk
      by_cases hlt : k < rss.length
      · exact List.getElem?_append_left hlt
      · rw [List.getElem?_eq_none (by simp; omega), List.getElem?_eq_none (by omega)]
    have hnew : (rss ++ [rs])[rss.length]? = some rs := by simp
    have hlen : (rss ++ [rs]).length = rss.length + 1 := by simp
    rw [List.append_cons rss rs rss']
    unfold fill
    cases hs with
    | done hpull =>
      rw [hpull]
      have := ih (hh.missing_new.done hother hnew)
      rw [hlen] at this
      exact this
    | item hpull hrest =>
      rw [hpull]
      have := ih (hh.missing_new.push hother hnew hrest)
      rw [hlen] at this
      exact this

theorem split_at {β : Type} {xs : List β} {i : Nat} {x : β} (h : xs[i]? = some x) :
    ∃ before after, xs = before ++ x :: after ∧ before.length = i ∧
      ∀ y, xs.set i y = before ++ y :: after := by
  obtain ⟨hlt, hget⟩ := List.getElem?_eq_some_iff.mp h
  have hsplit : xs = xs.take i ++ x :: xs.drop (i + 1) := by
    rw [← hget, ← List.drop_eq_getElem_cons hlt, List.take_append_drop]
  refine ⟨xs.take i, xs.drop (i + 1), hsplit, List.length_take_of_le (Nat.le_of_lt hlt),
    fun y => ?_⟩
  rw [List.set_eq_take_append_cons_drop, if_pos hlt]

/-- The first record of the first stream with the least key comes first. -/
theorem stable_cons {i : Nat} {r : ρ} {rs out : List ρ} (hi : rss[i]? = some (r :: rs))
    (hsorted : ∀ rs ∈ rss, rs.Pairwise (key · ≤ key ·))
    (hmin : ∀ k r' rs', rss[k]? = some (r' :: rs') →
      toLex (key r, i) ≤ (toLex (key r', k) : κ ×ₗ ℕ))
    (hout : Stable key (rss.set i rs).flatten out) : Stable key rss.flatten (r :: out) := by
  obtain ⟨before, after, hsplit, hlen, hset⟩ := split_at hi
  rw [hset] at hout
  -- a record of any stream is not before the first one of the stream
  have hhead : ∀ k rs', rss[k]? = some rs' → ∀ r' ∈ rs',
      toLex (key r, i) ≤ (toLex (key r', k) : κ ×ₗ ℕ) := by
    intro k rs' hk r' hr'
    cases rs' with
    | nil => cases hr'
    | cons r₀ rs' =>
      refine le_trans (hmin k r₀ rs' hk) (Prod.Lex.toLex_le_toLex.mpr ?_)
      rcases List.mem_cons.mp hr' with rfl | hr'
      · exact .inr ⟨rfl, le_refl _⟩
      · have hle := (List.pairwise_cons.mp (hsorted _ (List.mem_of_getElem? hk))).1 r' hr'
        rcases lt_or_eq_of_le hle with hlt | heq
        · exact .inl hlt
        · exact .inr ⟨heq, le_refl _⟩
  have hkey : ∀ r' ∈ rss.flatten, key r ≤ key r' := by
    intro r' hr'
    obtain ⟨rs', hrs', hr'⟩ := List.mem_flatten.mp hr'
    obtain ⟨k, hk⟩ := List.getElem?_of_mem hrs'
    rcases Prod.Lex.toLex_le_toLex.mp (hhead k rs' hk r' hr') with h | h
    · exact le_of_lt h
    · exact le_of_eq h.1
  have hbefore : ∀ r' ∈ before.flatten, key r' ≠ key r := by
    intro r' hr' heq
    obtain ⟨rs', hrs', hr'⟩ := List.mem_flatten.mp hr'
    obtain ⟨k, hk⟩ := List.getElem?_of_mem hrs'
    have hklt := (List.getElem?_eq_some_iff.mp hk).1
    have hk' : rss[k]? = some rs' := by rw [hsplit, List.getElem?_append_left hklt, hk]
    rcases Prod.Lex.toLex_le_toLex.mp (hhead k rs' hk' r' hr') with h | h
    · exact absurd heq (ne_of_gt h)
    · have : i ≤ k := h.2
      omega
  refine ⟨List.pairwise_cons.mpr ⟨fun r' hr' => hkey r' ?_, hout.sorted⟩, fun v => ?_⟩
  · have := hout.mem_iff.mp hr'
    rw [hsplit]
    simp only [List.flatten_append, List.flatten_cons, List.mem_append, List.mem_cons] at this ⊢
    rcases this with h | h | h
    · exact .inl h
    · exact .inr (.inl (.inr h))
    · exact .inr (.inr h)
  · have hsame := hout.same v
    rw [hsplit]
    simp only [List.flatten_append, List.flatten_cons, List.filter_append] at hsame ⊢
    by_cases hv : key r = v
    · have hnone : before.flatten.filter (fun r' => decide (key r' = v)) = [] := by
        refine List.filter_eq_nil_iff.mpr fun r' hr' => ?_
        rw [decide_eq_true_iff, ← hv]
        exact hbefore r' hr'
      rw [hnone, List.nil_append] at hsame
      rw [List.filter_cons_of_pos (by simp [hv]), List.filter_cons_of_pos (by simp [hv]), hnone,
        hsame]
      rfl
    · rw [List.filter_cons_of_neg (by simp [hv]), List.filter_cons_of_neg (by simp [hv]), hsame]

theorem drain_holds {fuel : Nat} (hh : Holds pull key h rss)
    (hsorted : ∀ rs ∈ rss, rs.Pairwise (key · ≤ key ·)) (hfuel : rss.flatten.length ≤ fuel) :
    ∃ out, drain pull key fuel h = (out, none) ∧ Stable key rss.flatten out := by
  have hend : ∀ {rss : List (List ρ)}, rss.flatten = [] → Stable key rss.flatten [] := by
    intro rss hnil
    rw [hnil]
    exact ⟨.nil, fun _ => rfl⟩
  induction fuel generalizing h rss with
  | zero => exact ⟨[], rfl, hend (List.length_eq_zero_iff.mp (Nat.le_zero.mp hfuel))⟩
  | succ fuel ih =>
    unfold drain
    cases hpop : Heaps.pop (Item.rank key) h with
    | none =>
      refine ⟨[], rfl, hend (List.flatten_eq_nil_iff.mpr fun rs hrs => ?_)⟩
      obtain ⟨k, hk⟩ := List.getElem?_of_mem hrs
      cases rs with
      | nil => rfl
      | cons r rs =>
        obtain ⟨x, hx, _⟩ := hh.all k r rs hk
        rw [Heaps.pop_eq_none.mp hpop] at hx
        cases hx
    | some xh =>
      obtain ⟨x, h'⟩ := xh
      obtain ⟨hmissing, hx, hmin⟩ := hh.pop hpop
      obtain ⟨rs, hrs, hyields⟩ := hh.items x hx
      have hlt := (List.getElem?_eq_some_iff.mp hrs).1
      -- what is left of the streams
      have hother : ∀ k, k ≠ x.index → (rss.set x.index rs)[k]? = rss[k]? :=
        fun k hk => List.getElem?_set_ne (Ne.symm hk)
      have hset : (rss.set x.index rs)[x.index]? = some rs := List.getElem?_set_self hlt
      have hsorted' : ∀ rs' ∈ rss.set x.index rs, rs'.Pairwise (key · ≤ key ·) := by
        intro rs' hrs'
        rcases List.mem_or_eq_of_mem_set hrs' with hmem | rfl
        · exact hsorted rs' hmem
        · exact (List.pairwise_cons.mp (hsorted _ (List.mem_of_getElem? hrs))).2
      have hfuel' : (rss.set x.index rs).flatten.length ≤ fuel := by
        obtain ⟨before, after, hsplit, _, hset⟩ := split_at hrs
        rw [hset]
        rw [hsplit] at hfuel
        simp only [List.flatten_append, List.flatten_cons, List.length_append,
          List.length_cons] at hfuel ⊢
        omega
      have hcons : ∀ {out}, Stable key (rss.set x.index rs).flatten out →
          Stable key rss.flatten (x.record :: out) :=
        fun hout => stable_cons hrs hsorted (fun k r' rs' hk => by
          obtain ⟨y, hy, rfl⟩ := hh.all k r' rs' hk
          obtain ⟨rs'', hy', _⟩ := hh.items y hy
          rw [hk] at hy'
          cases hy'
          exact hmin y hy) hout
      dsimp only
      cases hyields with
      | done hpull =>
        obtain ⟨out, hdrain, hout⟩ := ih (hmissing.done hother hset) hsorted' hfuel'
        rw [hpull]
        dsimp only
        rw [hdrain]
        exact ⟨_, rfl, hcons hout⟩
      | item hpull hrest =>
        obtain ⟨out, hdrain, hout⟩ := ih (hmissing.push hother hset hrest) hsorted' hfuel'
        rw [hpull]
        dsimp only
        rw [hdrain]
        exact ⟨_, rfl, hcons hout⟩

end Ending

/-! ## 5. The merge -/

/-- The number of records that the heap and its streams can still bring. -/
def load {ρ σ : Type} (size : σ → Nat) (h : List (Item ρ σ)) : Nat :=
  (h.map fun x => size x.rest + 1).sum

theorem load_of_perm {ρ σ : Type} (size : σ → Nat) {h h' : List (Item ρ σ)} {x : Item ρ σ}
    (hperm : h.Perm (x :: h')) : load size h = size x.rest + 1 + load size h' := by
  unfold load
  rw [(hperm.map _).sum_eq, List.map_cons, List.sum_cons]

section Merge

variable {ρ σ ε κ : Type} [LinearOrder κ] {pull : σ → Pull ρ σ ε} {key : ρ → κ} {size : σ → Nat}
  {h : List (Item ρ σ)} (hsize : ∀ {s r rest}, pull s = .item r rest → size rest < size s)
include hsize

theorem Yields.length_le {s : σ} {rs : List ρ} (hy : Yields pull s rs) : rs.length ≤ size s := by
  induction hy with
  | done => exact Nat.zero_le _
  | item hpull _ ih =>
    have := hsize hpull
    rw [List.length_cons]
    omega

/-- Sorted streams that end are merged by key, stream and place. -/
theorem merge_yields {ss : List σ} {rss : List (List ρ)} (hss : List.Forall₂ (Yields pull) ss rss)
    (hsorted : ∀ rs ∈ rss, rs.Pairwise (key · ≤ key ·)) :
    merge pull key size ss = (stableMerge key rss, none) := by
  have hfuel : rss.flatten.length ≤ (ss.map size).sum := by
    clear hsorted
    induction hss with
    | nil => exact Nat.le_refl 0
    | cons hs _ ih =>
      have := hs.length_le hsize
      rw [List.flatten_cons, List.length_append, List.map_cons, List.sum_cons]
      omega
  obtain ⟨h, hfill, hh⟩ := fill_holds (Holds.empty key) hss
  rw [List.length_nil] at hfill
  rw [List.nil_append] at hh
  obtain ⟨out, hdrain, hout⟩ := drain_holds hh hsorted hfuel
  rw [merge, hfill]
  dsimp only
  rw [hdrain, hout.unique (stable_stableMerge key rss)]

theorem fill_fails {ss : List σ} {i : Nat} {h' : List (Item ρ σ)}
    (hfill : fill pull key i ss h = .ok h') (ho : Heaps.Ordered (Item.rank key) h h.length) :
    Heaps.Ordered (Item.rank key) h' h'.length ∧ load size h' ≤ load size h + (ss.map size).sum ∧
      ((∃ s ∈ ss, Fails pull s) ∨ (∃ x ∈ h, Fails pull x.rest) → ∃ x ∈ h', Fails pull x.rest) := by
  induction ss generalizing i h with
  | nil =>
    cases hfill
    exact ⟨ho, Nat.le_refl _, fun hf => hf.elim (fun ⟨_, hs, _⟩ => absurd hs List.not_mem_nil) id⟩
  | cons s ss ih =>
    rw [List.map_cons, List.sum_cons]
    unfold fill at hfill
    split at hfill
    · next r rest hpull =>
      have hperm := Heaps.push_perm (Item.rank key) h ⟨r, rest, i⟩
      obtain ⟨ho', hload, hf⟩ := ih hfill (Heaps.push_ordered ho _)
      rw [load_of_perm size hperm] at hload
      have := hsize hpull
      refine ⟨ho', by dsimp only at hload; omega, fun hfail => hf ?_⟩
      rcases hfail with ⟨s', hs', hfail⟩ | ⟨x, hx, hfail⟩
      · rcases List.mem_cons.mp hs' with rfl | hs'
        · exact .inr ⟨_, hperm.symm.subset List.mem_cons_self, hfail.rest hpull⟩
        · exact .inl ⟨s', hs', hfail⟩
      · exact .inr ⟨x, hperm.symm.subset (List.mem_cons_of_mem _ hx), hfail⟩
    · next hpull =>
      obtain ⟨ho', hload, hf⟩ := ih hfill ho
      refine ⟨ho', by omega, fun hfail => hf (hfail.imp_left ?_)⟩
      rintro ⟨s', hs', hfs⟩
      rcases List.mem_cons.mp hs' with rfl | hs'
      · exact absurd hpull hfs.ne_done
      · exact ⟨s', hs', hfs⟩
    · cases hfill

theorem drain_fails {fuel : Nat} (ho : Heaps.Ordered (Item.rank key) h h.length)
    (hfuel : load size h ≤ fuel) (hfail : ∃ x ∈ h, Fails pull x.rest) :
    ∃ out e, drain pull key fuel h = (out, some e) := by
  induction fuel generalizing h with
  | zero =>
    obtain ⟨x, hx, _⟩ := hfail
    obtain ⟨before, after, rfl⟩ := List.append_of_mem hx
    rw [load_of_perm size List.perm_middle] at hfuel
    omega
  | succ fuel ih =>
    unfold drain
    obtain ⟨x, hx, hfx⟩ := hfail
    cases hpop : Heaps.pop (Item.rank key) h with
    | none =>
      rw [Heaps.pop_eq_none.mp hpop] at hx
      cases hx
    | some yh =>
      obtain ⟨y, h'⟩ := yh
      obtain ⟨hperm, ho', _⟩ := Heaps.pop_some ho hpop
      rw [load_of_perm size hperm.symm] at hfuel
      dsimp only
      cases hpull : pull y.rest with
      | fail e => exact ⟨_, _, rfl⟩
      | done =>
        have hx' : x ∈ h' := by
          rcases List.mem_cons.mp (hperm.symm.subset hx) with rfl | hx
          · exact absurd hpull hfx.ne_done
          · exact hx
        obtain ⟨out, e, hout⟩ := ih ho' (by omega) ⟨x, hx', hfx⟩
        dsimp only
        rw [hout]
        exact ⟨_, _, rfl⟩
      | item r rest =>
        have hperm' := Heaps.push_perm (Item.rank key) h' ⟨r, rest, y.index⟩
        have hx' : ∃ x ∈ Heaps.push (Item.rank key) h' ⟨r, rest, y.index⟩, Fails pull x.rest := by
          rcases List.mem_cons.mp (hperm.symm.subset hx) with rfl | hx
          · exact ⟨_, hperm'.symm.subset List.mem_cons_self, hfx.rest hpull⟩
          · exact ⟨x, hperm'.symm.subset (List.mem_cons_of_mem _ hx), hfx⟩
        have := hsize hpull
        obtain ⟨out, e, hout⟩ := ih (Heaps.push_ordered ho' _)
          (by rw [load_of_perm size hperm']; dsimp only; omega) hx'
        dsimp only
        rw [hout]
        exact ⟨_, _, rfl⟩

/-- A merge of streams of which one fails does not succeed. -/
theorem merge_fails {ss : List σ} (hfail : ∃ s ∈ ss, Fails pull s) :
    ∃ e, (merge pull key size ss).2 = some e := by
  unfold merge
  split
  · exact ⟨_, rfl⟩
  · next h hfill =>
    obtain ⟨ho, hload, hf⟩ := fill_fails hsize hfill
      (fun _ _ hk => absurd hk (Nat.not_lt_zero _))
    obtain ⟨out, e, hdrain⟩ := drain_fails hsize ho
      (Nat.le_trans hload (Nat.le_of_eq (Nat.zero_add _))) (hf (.inl hfail))
    rw [hdrain]
    exact ⟨e, rfl⟩

end Merge

end Merging
