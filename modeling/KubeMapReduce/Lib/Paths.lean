import Mathlib.Data.List.Basic
import Mathlib.Data.List.Induction

/-!
# Paths

A path is a list of elements. Some of them mean the current directory and some its parent; cleaning
a path resolves them from left to right, as far as there is something to go up from.

* `clean_split`: a path leaves names, and before them the parents that lead out of the directory
  where it starts. Below other directories each of these parents takes one of them away.
* `mem_splitOn_trim`, `infix_trim`: what is between two separators of a text, and what is a part of
  it, is so still when the text is trimmed.
-/

namespace Paths

variable {α : Type}

/-! ## 1. Cleaning -/

section Clean

variable (here up : α → Bool)

/-- The directories so far, the innermost one first, after one more element. -/
def enter (dirs : List α) (e : α) : List α :=
  if here e then dirs else
  if up e then
    match dirs with
    | [] => [e]
    | d :: rest => if up d then e :: dirs else rest
  else e :: dirs

def clean (path : List α) : List α := (path.foldl (enter here up) []).reverse

/-- The path does not lead out of the directory where it starts. -/
def Stays (path : List α) : Prop := ∀ e ∈ clean here up path, up e = false

instance (path : List α) : Decidable (Stays here up path) :=
  inferInstanceAs (Decidable (∀ e ∈ clean here up path, up e = false))

variable {here up} {path dirs : List α} {e : α}

theorem enter_name (hhere : here e = false) (hup : up e = false) :
    enter here up dirs e = e :: dirs := by
  simp [enter, hhere, hup]

/-- A parent takes the innermost directory away. -/
theorem enter_up {d : α} (hhere : here e = false) (hup : up e = true) (hd : up d = false) :
    enter here up (d :: dirs) e = dirs := by
  simp [enter, hhere, hup, hd]

/-- A parent is left over where there is nothing to leave. -/
theorem enter_out (hhere : here e = false) (hup : up e = true) (h : ∀ d ∈ dirs, up d = true) :
    enter here up dirs e = e :: dirs := by
  cases dirs with
  | nil => simp [enter, hhere, hup]
  | cons d rest => simp [enter, hhere, hup, h d List.mem_cons_self]

/-- The names that a path leaves, the innermost one first, and the parents that are left over. -/
theorem foldl_enter_split (here up : α → Bool) (path : List α) :
    ∃ names parents : List α, (∀ d ∈ names, up d = false) ∧ (∀ d ∈ parents, up d = true) ∧
      ∀ base : List α, (∀ d ∈ base, up d = false) → path.foldl (enter here up) base =
        names ++ (base.drop parents.length ++ parents.take (parents.length - base.length)) := by
  induction path using List.reverseRecOn with
  | nil => exact ⟨[], [], nofun, nofun, fun base _ => by simp⟩
  | append_singleton path e ih =>
    obtain ⟨names, parents, hnames, hparents, hfold⟩ := ih
    simp only [List.foldl_append, List.foldl_cons, List.foldl_nil]
    cases hhere : here e with
    | true =>
      refine ⟨names, parents, hnames, hparents, fun base hbase => ?_⟩
      rw [hfold base hbase]
      exact if_pos hhere
    | false =>
      cases hup : up e with
      | false =>
        refine ⟨e :: names, parents, List.forall_mem_cons.mpr ⟨hup, hnames⟩, hparents,
          fun base hbase => ?_⟩
        rw [hfold base hbase, enter_name hhere hup, List.cons_append]
      | true =>
        cases names with
        | cons d names =>
          obtain ⟨hd, hnames⟩ := List.forall_mem_cons.mp hnames
          refine ⟨names, parents, hnames, hparents, fun base hbase => ?_⟩
          rw [hfold base hbase, List.cons_append, enter_up hhere hup hd]
        | nil =>
          refine ⟨[], e :: parents, nofun, List.forall_mem_cons.mpr ⟨hup, hparents⟩,
            fun base hbase => ?_⟩
          rw [hfold base hbase, List.nil_append, List.nil_append, List.length_cons]
          rcases Nat.lt_or_ge parents.length base.length with hlt | hge
          · rw [List.drop_eq_getElem_cons hlt, Nat.sub_eq_zero_of_le (Nat.le_of_lt hlt),
              Nat.sub_eq_zero_of_le hlt]
            exact enter_up hhere hup (hbase _ (List.getElem_mem hlt))
          · rw [List.drop_eq_nil_of_le hge, List.drop_eq_nil_of_le (Nat.le_succ_of_le hge),
              Nat.succ_sub hge, List.take_succ_cons]
            exact enter_out hhere hup fun d hd => hparents d (List.mem_of_mem_take hd)

theorem foldl_enter_names {dir : List α} (h : ∀ e ∈ dir, here e = false ∧ up e = false)
    (base : List α) : dir.foldl (enter here up) base = dir.reverse ++ base := by
  induction dir generalizing base with
  | nil => rfl
  | cons e dir ih =>
    obtain ⟨⟨hhere, hup⟩, hdir⟩ := List.forall_mem_cons.mp h
    rw [List.foldl_cons, ih hdir, enter_name hhere hup, List.reverse_cons, List.append_assoc]
    rfl

/-- A path below directories that are names. -/
theorem clean_split (here up : α → Bool) (path : List α) :
    ∃ names parents : List α, (Stays here up path ↔ parents = []) ∧
      (∀ d ∈ parents, up d = true) ∧
      ∀ dir : List α, (∀ e ∈ dir, here e = false ∧ up e = false) →
        clean here up (dir ++ path) = (parents.take (parents.length - dir.length)).reverse ++
          (dir.take (dir.length - parents.length) ++ names) := by
  obtain ⟨names, parents, hnames, hparents, hfold⟩ := foldl_enter_split here up path
  refine ⟨names.reverse, parents, ?_, hparents, fun dir hdir => ?_⟩
  · have hclean := hfold [] nofun
    rw [List.drop_nil, List.nil_append, List.length_nil, Nat.sub_zero, List.take_length] at hclean
    rw [Stays, clean, hclean]
    refine ⟨fun h => List.eq_nil_iff_forall_not_mem.mpr fun d hd => ?_, ?_⟩
    · have hnot := h d (by simp [hd])
      rw [hparents d hd] at hnot
      cases hnot
    · rintro rfl d hd
      exact hnames d (by simpa using hd)
  · rw [clean, List.foldl_append, foldl_enter_names hdir, List.append_nil,
      hfold _ fun d hd => (hdir d (List.mem_reverse.mp hd)).2, List.reverse_append,
      List.reverse_append, List.reverse_drop, List.reverse_reverse, List.length_reverse,
      List.append_assoc]

/-- Without parents there is nothing to leave a directory by. -/
theorem stays_of_forall (h : ∀ e ∈ path, up e = false) : Stays here up path := by
  have hfold : ∀ dirs : List α, (∀ d ∈ dirs, up d = false) →
      ∀ d ∈ path.foldl (enter here up) dirs, up d = false := by
    induction path with
    | nil => exact fun _ hdirs => hdirs
    | cons e path ih =>
      obtain ⟨he, hpath⟩ := List.forall_mem_cons.mp h
      refine fun dirs hdirs => ih hpath _ ?_
      unfold enter
      rw [if_neg (Bool.eq_false_iff.mp he)]
      split
      · exact hdirs
      · exact List.forall_mem_cons.mpr ⟨he, hdirs⟩
  exact fun e he => hfold [] nofun e (List.mem_reverse.mp he)

end Clean

/-! ## 2. Trimming -/

section Trim

/-- The text without the characters with `p` at its ends. -/
def trim (p : α → Bool) (l : List α) : List α := ((l.dropWhile p).reverse.dropWhile p).reverse

variable {p : α → Bool} {l c : List α}

/-- A part without any of the characters that are cut off at the start is still there. -/
theorem infix_dropWhile (hne : c ≠ []) (hc : ∀ a ∈ c, p a = false)
    (h : c <:+: l) : c <:+: l.dropWhile p := by
  induction l with
  | nil => exact h
  | cons a l ih =>
    rw [List.dropWhile_cons]
    split
    · next ha =>
      rcases List.infix_cons_iff.mp h with hpre | h
      · obtain ⟨b, c', rfl⟩ := List.exists_cons_of_ne_nil hne
        obtain ⟨rfl, _⟩ := List.cons_prefix_cons.mp hpre
        have := hc b List.mem_cons_self
        rw [ha] at this
        cases this
      · exact ih h
    · exact h

theorem infix_trim (hne : c ≠ []) (hc : ∀ a ∈ c, p a = false) (h : c <:+: l) :
    c <:+: trim p l := by
  rw [trim, ← List.reverse_reverse c, List.reverse_infix]
  refine infix_dropWhile (by simpa using hne) (fun a ha => hc a (List.mem_reverse.mp ha)) ?_
  exact List.reverse_infix.mpr (infix_dropWhile hne hc h)

end Trim

/-! ## 3. Elements of a text -/

section Split

variable [BEq α] [LawfulBEq α] {x : α} {l c : List α}

/-- So is what is between two separators. -/
theorem mem_splitOn_dropWhile {p : α → Bool} (hx : p x = false) (hc : ∀ a ∈ c, p a = false)
    (h : c ∈ l.splitOn x) : c ∈ (l.dropWhile p).splitOn x := by
  induction l with
  | nil => exact h
  | cons a l ih =>
    rw [List.dropWhile_cons]
    split
    · next ha =>
      have hne : (a == x) = false := beq_eq_false_iff_ne.mpr fun he => by
        rw [he, hx] at ha
        cases ha
      rw [List.splitOn_cons_eq_if_modifyHead, hne, if_neg Bool.false_ne_true] at h
      obtain ⟨first, rest, hsplit⟩ := List.exists_cons_of_ne_nil (List.splitOn_ne_nil x l)
      rw [hsplit, List.modifyHead_cons] at h
      rcases List.mem_cons.mp h with rfl | h
      · have := hc a List.mem_cons_self
        rw [ha] at this
        cases this
      · exact ih (hsplit ▸ List.mem_cons_of_mem _ h)
    · exact h

theorem splitOn_reverse (x : α) (l : List α) :
    l.reverse.splitOn x = ((l.splitOn x).map List.reverse).reverse := by
  -- by the first separator
  induction hn : l.length using Nat.strongRecOn generalizing l with
  | _ n ih =>
    by_cases hx : x ∈ l
    · obtain ⟨s, t, rfl, hs⟩ := List.eq_append_cons_of_mem hx
      have hlt : t.length < n := by
        rw [← hn, List.length_append, List.length_cons]
        omega
      rw [List.reverse_append, List.reverse_cons, List.append_assoc, List.singleton_append,
        List.splitOn_append_cons_self, List.splitOn_append_cons_self, ih _ hlt t rfl,
        List.splitOn_eq_singleton hs,
        List.splitOn_eq_singleton fun hs' => hs (List.mem_reverse.mp hs'), List.map_append,
        List.reverse_append]
      rfl
    · rw [List.splitOn_eq_singleton hx,
        List.splitOn_eq_singleton fun hx' => hx (List.mem_reverse.mp hx')]
      rfl

theorem mem_splitOn_trim {p : α → Bool} (hx : p x = false) (hc : ∀ a ∈ c, p a = false)
    (h : c ∈ l.splitOn x) : c ∈ (trim p l).splitOn x := by
  have hrev : c.reverse ∈ (l.dropWhile p).reverse.splitOn x := by
    rw [splitOn_reverse, List.mem_reverse]
    exact List.mem_map_of_mem (mem_splitOn_dropWhile hx hc h)
  have hcut := mem_splitOn_dropWhile hx (fun a ha => hc a (List.mem_reverse.mp ha)) hrev
  rw [trim, splitOn_reverse, List.mem_reverse]
  exact List.mem_map.mpr ⟨_, hcut, List.reverse_reverse c⟩

end Split

end Paths
