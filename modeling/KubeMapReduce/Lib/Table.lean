import Mathlib.Data.List.Nodup

/-!
# Tables with a primary key

A table is a list of rows whose keys are pairwise different; the structure
carries that fact, so a table with two rows of one key cannot be built. Rows are
found by key (`get?`), added when their key is new (`insert`), and changed in
place by a statement of the form UPDATE ... SET f WHERE p (`updateWhere`). The
lemmas say what a lookup returns after each of these.
-/

namespace Tables

variable {ρ κ : Type} {key : ρ → κ} {k : κ} {r r' : ρ}


/-- Rows with pairwise different keys, oldest first. -/
structure Table (key : ρ → κ) where
  rows : List ρ
  nodup : (rows.map key).Nodup
deriving DecidableEq

namespace Table

def empty : Table key := ⟨[], List.nodup_nil⟩

/-- The row with key `k`. -/
def get? [DecidableEq κ] (t : Table key) (k : κ) : Option ρ :=
  t.rows.find? fun r => decide (key r = k)

/-- Add a row; a row whose key is taken is not added. -/
def insert [DecidableEq κ] (t : Table key) (r : ρ) : Table key :=
  if h : key r ∈ t.rows.map key then t
  else ⟨t.rows ++ [r], by
    rw [List.map_append, List.map_singleton]
    exact List.Nodup.append t.nodup (List.nodup_singleton _)
      (List.disjoint_singleton.mpr h)⟩

/-- Change every row that satisfies `p` by `f`, which keeps the key. -/
def updateWhere (t : Table key) (p : ρ → Bool) (f : ρ → ρ)
    (hf : ∀ r, p r = true → key (f r) = key r) : Table key :=
  ⟨t.rows.map fun r => if p r then f r else r, by
    have hk : (key ∘ fun r => if p r then f r else r) = key := by
      funext r
      show key (if p r then f r else r) = key r
      split
      · next hp => exact hf r hp
      · rfl
    rw [List.map_map, hk]
    exact t.nodup⟩

/-- Remove every row that satisfies `p`. -/
def deleteWhere (t : Table key) (p : ρ → Bool) : Table key :=
  ⟨t.rows.filter fun r => !p r, t.nodup.sublist ((List.filter_sublist).map key)⟩

/-- Remove the row with key `k`. -/
def erase [DecidableEq κ] (t : Table key) (k : κ) : Table key :=
  ⟨t.rows.filter fun r => decide (key r ≠ k),
    t.nodup.sublist ((List.filter_sublist).map key)⟩

section Lookup

variable [DecidableEq κ]

theorem get?_eq_some {t : Table key} : t.get? k = some r ↔ r ∈ t.rows ∧ key r = k := by
  constructor
  · intro h
    exact ⟨List.mem_of_find?_eq_some h, by simpa using List.find?_some h⟩
  · rintro ⟨hm, hk⟩
    obtain ⟨r', hr'⟩ : ∃ r', t.get? k = some r' := by
      refine Option.isSome_iff_exists.mp ?_
      exact List.find?_isSome.mpr ⟨r, hm, by simpa using hk⟩
    have hm' : r' ∈ t.rows := List.mem_of_find?_eq_some hr'
    have hk' : key r' = k := by simpa using List.find?_some hr'
    rw [hr', List.inj_on_of_nodup_map t.nodup hm' hm (hk'.trans hk.symm)]

theorem mem_rows_iff {t : Table key} : r ∈ t.rows ↔ t.get? (key r) = some r := by
  rw [get?_eq_some]
  exact ⟨fun h => ⟨h, rfl⟩, And.left⟩

theorem key_of_get? {t : Table key} (h : t.get? k = some r) : key r = k :=
  (get?_eq_some.mp h).2

theorem mem_of_get? {t : Table key} (h : t.get? k = some r) : r ∈ t.rows :=
  (get?_eq_some.mp h).1

/-- A lookup by the key of a row that was found finds that row. -/
theorem eq_of_get?_key {t : Table key} {k' : κ} (h : t.get? k = some r) (hk : key r = k')
    (h' : t.get? k' = some r') : r' = r := by
  rw [← hk, key_of_get? h, h] at h'
  exact (Option.some.inj h').symm

theorem get?_eq_none {t : Table key} : t.get? k = none ↔ k ∉ t.rows.map key := by
  constructor
  · intro h hk
    obtain ⟨r, hm, hr⟩ := List.mem_map.mp hk
    rw [get?_eq_some.mpr ⟨hm, hr⟩] at h
    cases h
  · intro h
    cases hg : t.get? k with
    | none => rfl
    | some r =>
      obtain ⟨hm, hr⟩ := get?_eq_some.mp hg
      exact absurd (List.mem_map.mpr ⟨r, hm, hr⟩) h

/-- The rows with key `k` are the row that a lookup finds. -/
theorem filter_key (t : Table key) (k : κ) :
    t.rows.filter (fun r => decide (key r = k)) = (t.get? k).toList := by
  cases h : t.get? k with
  | none =>
    refine List.filter_eq_nil_iff.mpr fun r hr hk => ?_
    exact get?_eq_none.mp h (List.mem_map.mpr ⟨r, hr, of_decide_eq_true hk⟩)
  | some r =>
    have hr := get?_eq_some.mp h
    refine List.perm_singleton.mp ((List.perm_ext_iff_of_nodup ?_ (List.nodup_singleton r)).mpr ?_)
    · exact (List.Nodup.of_map key t.nodup).filter _
    · intro r'
      rw [List.mem_filter, List.mem_singleton, decide_eq_true_eq]
      constructor
      · rintro ⟨hm, hk⟩
        exact List.inj_on_of_nodup_map t.nodup hm hr.1 (hk.trans hr.2.symm)
      · rintro rfl
        exact hr

@[simp] theorem get?_updateWhere (t : Table key) (p : ρ → Bool) (f : ρ → ρ)
    (hf : ∀ r, p r = true → key (f r) = key r) (k : κ) :
    (t.updateWhere p f hf).get? k = (t.get? k).map fun r => if p r then f r else r := by
  have hk : ∀ r, key (if p r then f r else r) = key r := by
    intro r
    split
    · next hp => exact hf r hp
    · rfl
  unfold get? updateWhere
  rw [List.find?_map]
  congr 1
  refine congrArg (fun g => t.rows.find? g) ?_
  funext r
  simp only [Function.comp_apply, hk]

/-- An update of the row with key `k` is seen by the lookup of `k` only. -/
theorem get?_update_key (t : Table key) (k : κ) (f : ρ → ρ)
    (hf : ∀ r, decide (key r = k) = true → key (f r) = key r) (x : κ) :
    (t.updateWhere (fun r => decide (key r = k)) f hf).get? x =
      if x = k then (t.get? k).map f else t.get? x := by
  rw [get?_updateWhere]
  cases hx : t.get? x with
  | none =>
    split
    · next h => rw [← h, hx]; rfl
    · rfl
  | some r =>
    have hr := key_of_get? hx
    split
    · next h =>
      subst h
      rw [hx, Option.map_some, Option.map_some, if_pos (decide_eq_true hr)]
    · next h =>
      rw [Option.map_some, if_neg fun hk => h (hr.symm.trans (of_decide_eq_true hk))]

theorem get?_insert (t : Table key) (r : ρ) (k : κ) :
    (t.insert r).get? k = if key r = k then (t.get? k).or (some r) else t.get? k := by
  unfold insert
  split
  · next h =>
    split
    · next hk =>
      cases hg : t.get? k with
      | none => exact absurd (hk ▸ h) (get?_eq_none.mp hg)
      | some r' => rfl
    · rfl
  · next h =>
    unfold get?
    rw [List.find?_append]
    split
    · next hk => simp [hk]
    · next hk => simp [hk]

theorem get?_insert_self {t : Table key} (h : t.get? (key r) = none) :
    (t.insert r).get? (key r) = some r := by
  rw [get?_insert, if_pos rfl, h, Option.none_or]

/-- A row that was not there before is the one that is inserted. -/
theorem eq_of_insert {t : Table key} (h : t.get? k = none) (h' : (t.insert r).get? k = some r') :
    r' = r := by
  rw [get?_insert, h, Option.none_or] at h'
  split at h'
  · exact (Option.some.inj h').symm
  · cases h'

theorem get?_insert_of_some {t : Table key} (h : t.get? k = some r') :
    (t.insert r).get? k = some r' := by
  rw [get?_insert, h]
  split <;> rfl

/-- A row whose key is taken is not added. -/
theorem insert_of_some {t : Table key} (h : t.get? (key r) = some r') : t.insert r = t := by
  unfold insert
  rw [dif_pos (List.mem_map.mpr ⟨r', mem_of_get? h, key_of_get? h⟩)]

theorem rows_insert {t : Table key} (h : t.get? (key r) = none) :
    (t.insert r).rows = t.rows ++ [r] := by
  unfold insert
  rw [dif_neg (get?_eq_none.mp h)]

theorem mem_of_mem_insert {t : Table key} (h : r' ∈ (t.insert r).rows) : r' ∈ t.rows ∨ r' = r := by
  unfold insert at h
  split at h
  · exact .inl h
  · exact (List.mem_append.mp h).imp_right List.mem_singleton.mp

theorem mem_erase {t : Table key} : r ∈ (t.erase k).rows ↔ r ∈ t.rows ∧ key r ≠ k := by
  unfold erase
  rw [List.mem_filter, decide_eq_true_eq]

end Lookup

/-- Updating the rows whose keys a filter on `p` returned is updating the rows that
satisfy `p`. -/
theorem updateWhere_keys [DecidableEq κ] (t : Table key) (p : ρ → Bool) (f : ρ → ρ)
    (hf : ∀ r, key (f r) = key r) :
    t.updateWhere (fun r => decide (key r ∈ (t.rows.filter p).map key)) f (fun r _ => hf r) =
      t.updateWhere p f (fun r _ => hf r) := by
  unfold updateWhere
  congr 1
  refine List.map_congr_left fun r hr => ?_
  have hiff : key r ∈ (t.rows.filter p).map key ↔ p r = true := by
    constructor
    · intro h
      obtain ⟨r', hr', hk⟩ := List.mem_map.mp h
      obtain ⟨hm, hp⟩ := List.mem_filter.mp hr'
      rwa [List.inj_on_of_nodup_map t.nodup hm hr hk] at hp
    · intro hp
      exact List.mem_map.mpr ⟨r, List.mem_filter.mpr ⟨hr, hp⟩, rfl⟩
  by_cases hp : p r = true
  · rw [if_pos hp, if_pos (decide_eq_true (hiff.mpr hp))]
  · rw [if_neg hp, if_neg (fun h => hp (hiff.mp (of_decide_eq_true h)))]

/-- Two updates that agree on the rows of the table are equal. -/
theorem updateWhere_eq_self {t : Table key} {p : ρ → Bool} {f : ρ → ρ}
    {hf : ∀ r, p r = true → key (f r) = key r} (h : ∀ r ∈ t.rows, p r = false) :
    t.updateWhere p f hf = t := by
  unfold updateWhere
  congr 1
  refine (List.map_congr_left fun r hr => ?_).trans (List.map_id _)
  rw [h r hr]
  rfl

theorem updateWhere_congr (t : Table key) {p p' : ρ → Bool} {f : ρ → ρ}
    {hf : ∀ r, p r = true → key (f r) = key r} {hf' : ∀ r, p' r = true → key (f r) = key r}
    (h : ∀ r ∈ t.rows, p r = p' r) : t.updateWhere p f hf = t.updateWhere p' f hf' := by
  unfold updateWhere
  congr 1
  exact List.map_congr_left fun r hr => by rw [h r hr]

/-- An update that keeps `q` does not change the number of rows with `q`. -/
theorem countP_updateWhere (t : Table key) (p q : ρ → Bool) (f : ρ → ρ)
    (hf : ∀ r, p r = true → key (f r) = key r) (hq : ∀ r, p r = true → q (f r) = q r) :
    (t.updateWhere p f hf).rows.countP q = t.rows.countP q := by
  unfold updateWhere
  rw [List.countP_map]
  refine congrArg (fun g => t.rows.countP g) (funext fun r => ?_)
  rw [Function.comp_apply]
  split
  · next hp => exact hq r hp
  · rfl

/-- An update that never makes `q` true does not raise the number of rows with `q`. -/
theorem countP_updateWhere_le (t : Table key) (p q : ρ → Bool) (f : ρ → ρ)
    (hf : ∀ r, p r = true → key (f r) = key r)
    (hq : ∀ r, p r = true → q (f r) = true → q r = true) :
    (t.updateWhere p f hf).rows.countP q ≤ t.rows.countP q := by
  unfold updateWhere
  rw [List.countP_map]
  refine List.countP_mono_left ?_
  intro r _ h
  rw [Function.comp_apply] at h
  split at h
  · next hp => exact hq r hp h
  · exact h

end Table

end Tables
