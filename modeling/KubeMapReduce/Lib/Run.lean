import Mathlib.Logic.Relation

/-!
# Runs of a labelled step relation

A run is a finite sequence of labelled steps. A property that holds initially
and is kept by every step holds in every state of a run (`Run.invariant`); a
property that does not hold at the start and holds at the end is switched on by
one step of the run (`Run.exists_switch`). `Under` restricts a step relation to
the steps that meet a condition on the state before the step. Steps that lower a
measure come to rest (`exists_rests`).
-/

namespace Runs

universe u v

variable {σ : Type u} {ι : Type v} {step : σ → ι → σ → Prop} {as : List ι} {a : ι} {s t u : σ}
  {P : σ → Prop} {ok : σ → ι → Prop}


/-- `Run step s as t`: the labels `as`, taken in order, lead from `s` to `t`. -/
inductive Run (step : σ → ι → σ → Prop) : σ → List ι → σ → Prop
  | nil (s : σ) : Run step s [] s
  | cons {s t u : σ} {a : ι} {as : List ι} :
      step s a t → Run step t as u → Run step s (a :: as) u

/-- The steps of `step` whose state before and label meet `ok`. -/
def Under (step : σ → ι → σ → Prop) (ok : σ → ι → Prop) : σ → ι → σ → Prop :=
  fun s a t => step s a t ∧ ok s a

namespace Run

theorem single (h : step s a t) : Run step s [a] t :=
  .cons h (.nil t)

theorem append {bs : List ι} (h : Run step s as t) (h' : Run step t bs u) :
    Run step s (as ++ bs) u := by
  induction h with
  | nil => exact h'
  | cons hs _ ih => exact .cons hs (ih h')

theorem snoc (h : Run step s as t) (h' : step t a u) : Run step s (as ++ [a]) u :=
  h.append (single h')

theorem of_append {bs : List ι} (h : Run step s (as ++ bs) u) :
    ∃ t, Run step s as t ∧ Run step t bs u := by
  induction as generalizing s with
  | nil => exact ⟨s, .nil s, h⟩
  | cons a as ih =>
    cases h with
    | cons hs hrest =>
      obtain ⟨t, ht, hu⟩ := ih hrest
      exact ⟨t, .cons hs ht, hu⟩

/-- Every run of a step relation is a run of a weaker one. -/
theorem mono {step' : σ → ι → σ → Prop} (hm : ∀ s a t, step s a t → step' s a t)
    (h : Run step s as t) : Run step' s as t := by
  induction h with
  | nil => exact .nil _
  | cons hs _ ih => exact .cons (hm _ _ _ hs) ih

theorem of_under (h : Run (Under step ok) s as t) : Run step s as t :=
  h.mono fun _ _ _ hs => hs.1

/-- The invariant rule: what holds at the start and is kept by every step holds
at the end of every run. -/
theorem invariant {I : σ → Prop} (hstep : ∀ s a t, I s → step s a t → I t)
    {s t : σ} {as : List ι} (h : Run step s as t) (h0 : I s) : I t := by
  induction h with
  | nil => exact h0
  | cons hs _ ih => exact ih (hstep _ _ _ h0 hs)

/-- All states that a run reaches satisfy `P` exactly when all its steps meet `ok`, if
under an invariant each step shows this. -/
theorem under_iff {I : σ → Prop} (hstep : ∀ s a t, I s → P s → step s a t → I t ∧ (P t ↔ ok s a))
    (hi : I s) (hp : P s) :
    Run (fun s a t => step s a t ∧ P t) s as t ↔ Run (Under step ok) s as t := by
  constructor
  · intro h
    induction h with
    | nil => exact .nil _
    | cons hs _ ih =>
      obtain ⟨hi', hiff⟩ := hstep _ _ _ hi hp hs.1
      exact .cons ⟨hs.1, hiff.mp hs.2⟩ (ih hi' hs.2)
  · intro h
    induction h with
    | nil => exact .nil _
    | cons hs _ ih =>
      obtain ⟨hi', hiff⟩ := hstep _ _ _ hi hp hs.1
      exact .cons ⟨hs.1, hiff.mpr hs.2⟩ (ih hi' (hiff.mpr hs.2))

/-- All steps of a run meet a condition, or there is a first one that does not. -/
theorem under_or (h : Run step s as u) :
    Run (Under step ok) s as u ∨ ∃ bs a cs t t', as = bs ++ a :: cs ∧
      Run (Under step ok) s bs t ∧ step t a t' ∧ ¬ ok t a ∧ Run step t' cs u := by
  induction h with
  | nil => exact .inl (.nil _)
  | @cons s t u a as hs hr ih =>
    by_cases hok : ok s a
    · obtain hrun | ⟨bs, b, cs, v, v', rfl, hbs, hb⟩ := ih
      · exact .inl (.cons ⟨hs, hok⟩ hrun)
      · exact .inr ⟨a :: bs, b, cs, v, v', rfl, .cons ⟨hs, hok⟩ hbs, hb⟩
    · exact .inr ⟨[], a, as, s, t, rfl, .nil s, hs, hok, hr⟩

/-- Every step of a run has a label of the run. -/
theorem under_mem (h : Run step s as t) : Run (fun s a t => step s a t ∧ a ∈ as) s as t := by
  induction h with
  | nil => exact .nil _
  | cons hs _ ih =>
    refine .cons ⟨hs, List.mem_cons_self⟩ (ih.mono ?_)
    rintro _ _ _ ⟨h, hm⟩
    exact ⟨h, List.mem_cons_of_mem _ hm⟩

/-- A property that is off at the start of a run and on at its end is switched
on by one step of that run. -/
theorem exists_switch (h : Run step s as u) (h0 : ¬ P s) (h1 : P u) :
    ∃ bs a cs t t', as = bs ++ a :: cs ∧ Run step s bs t ∧ step t a t' ∧ Run step t' cs u ∧
      ¬ P t ∧ P t' := by
  induction h with
  | nil => exact absurd h1 h0
  | @cons s t u a as hs hr ih =>
    by_cases ht : P t
    · exact ⟨[], a, as, s, t, rfl, .nil s, hs, hr, h0, ht⟩
    · obtain ⟨bs, b, cs, v, v', has, hbs, hb, hcs, hv, hv'⟩ := ih ht h1
      exact ⟨a :: bs, b, cs, v, v', by rw [has]; rfl, .cons hs hbs, hb, hcs, hv, hv'⟩

/-- If every step lowers a measure, it bounds the length of the runs. -/
theorem length_le {μ : σ → Nat} (hstep : ∀ s a t, step s a t → μ t < μ s) (h : Run step s as t) :
    as.length + μ t ≤ μ s := by
  induction h with
  | nil => simp
  | cons hs _ ih =>
    have hlt := hstep _ _ _ hs
    rw [List.length_cons]
    omega

end Run

/-- No step is possible. -/
def Rests (step : σ → ι → σ → Prop) (s : σ) : Prop := ∀ a t, ¬ step s a t

/-- If every step lowers a measure, a run comes to rest. -/
theorem exists_rests {μ : σ → Nat} (hstep : ∀ s a t, step s a t → μ t < μ s) (s : σ) :
    ∃ as t, Run step s as t ∧ Rests step t := by
  induction h : μ s using Nat.strongRecOn generalizing s with
  | ind n ih =>
    by_cases hrest : Rests step s
    · exact ⟨[], s, .nil s, hrest⟩
    · obtain ⟨a, t, ht⟩ : ∃ a t, step s a t := by simpa [Rests] using hrest
      obtain ⟨as, u, hrun, hu⟩ := ih (μ t) (h ▸ hstep s a t ht) t rfl
      exact ⟨a :: as, u, .cons ht hrun, hu⟩

/-- The run of `as` from `s` takes the step `a` from `t` to `t'`. -/
def Takes (step : σ → ι → σ → Prop) (s : σ) (as : List ι) (t : σ) (a : ι) (t' : σ) : Prop :=
  ∃ bs cs, as = bs ++ a :: cs ∧ Run step s bs t ∧ step t a t'

/-! ## Executable steps -/

/-- Take the steps `as` one after the other; `none` when one is not enabled. -/
def runAll (next : σ → ι → Option σ) : σ → List ι → Option σ
  | s, [] => some s
  | s, a :: as => (next s a).bind fun t => runAll next t as

/-- The step relation of an executable step function. -/
def Steps (next : σ → ι → Option σ) : σ → ι → σ → Prop :=
  fun s a t => next s a = some t

/-- The labels determine the last state. -/
theorem run_unique {next : σ → ι → Option σ} {t' : σ} (h : Run (Steps next) s as t)
    (h' : Run (Steps next) s as t') : t = t' := by
  induction h with
  | nil => cases h'; rfl
  | cons hs _ ih =>
    cases h' with
    | cons hs' hrest' =>
      cases Option.some.inj (Eq.trans (Eq.symm hs) hs')
      exact ih hrest'

/-- What a run still does after one of its steps. -/
theorem Takes.rest {next : σ → ι → Option σ} {t' : σ} (h : Takes (Steps next) s as t a t')
    (hrun : Run (Steps next) s as u) :
    ∃ bs cs, as = bs ++ a :: cs ∧ Run (Steps next) s bs t ∧ Run (Steps next) t' cs u := by
  obtain ⟨bs, cs, rfl, hbs, ha⟩ := h
  obtain ⟨v, hv, hcs⟩ := hrun.of_append
  cases run_unique hbs hv
  cases hcs with
  | cons ha' hcs =>
    cases Option.some.inj (Eq.trans (Eq.symm ha) ha')
    exact ⟨bs, cs, rfl, hbs, hcs⟩

theorem run_of_runAll {next : σ → ι → Option σ} (h : runAll next s as = some t) :
    Run (Steps next) s as t := by
  induction as generalizing s with
  | nil =>
    cases h
    exact .nil _
  | cons a as ih =>
    obtain ⟨u, hu, h'⟩ := Option.bind_eq_some_iff.mp h
    exact .cons hu (ih h')

/-- `runAll` with a condition checked before every step. -/
def runAllUnder (next : σ → ι → Option σ) (ok : σ → ι → Prop)
    [∀ s a, Decidable (ok s a)] : σ → List ι → Option σ
  | s, [] => some s
  | s, a :: as => if ok s a then (next s a).bind fun t => runAllUnder next ok t as else none

theorem run_of_runAllUnder {next : σ → ι → Option σ} [∀ s a, Decidable (ok s a)]
    (h : runAllUnder next ok s as = some t) : Run (Under (Steps next) ok) s as t := by
  induction as generalizing s with
  | nil =>
    cases h
    exact .nil _
  | cons a as ih =>
    unfold runAllUnder at h
    split at h
    · next hok =>
      obtain ⟨u, hu, h'⟩ := Option.bind_eq_some_iff.mp h
      exact .cons ⟨hu, hok⟩ (ih h')
    · cases h

/-- A run that is executed, and its last state. -/
theorem run_to {next : σ → ι → Option σ} [DecidablePred P]
    (h : (runAll next s as).any (fun t => decide (P t)) = true) :
    ∃ t, Run (Steps next) s as t ∧ P t := by
  obtain ⟨t, ht, hp⟩ := (Option.any_eq_true ..).mp h
  exact ⟨t, run_of_runAll ht, of_decide_eq_true hp⟩

theorem run_toUnder {next : σ → ι → Option σ} [∀ s a, Decidable (ok s a)] [DecidablePred P]
    (h : (runAllUnder next ok s as).any (fun t => decide (P t)) = true) :
    ∃ t, Run (Under (Steps next) ok) s as t ∧ P t := by
  obtain ⟨t, ht, hp⟩ := (Option.any_eq_true ..).mp h
  exact ⟨t, run_of_runAllUnder ht, of_decide_eq_true hp⟩

/-- A run that is executed, and one more step, with what holds of its two states. -/
theorem run_last {next : σ → ι → Option σ} {R : σ → σ → Prop} [∀ s t, Decidable (R s t)]
    (h : (runAll next s as).any (fun t => (next t a).any fun u => decide (R t u)) = true) :
    ∃ t u, Run (Steps next) s as t ∧ Steps next t a u ∧ R t u := by
  obtain ⟨t, ht, h⟩ := (Option.any_eq_true ..).mp h
  obtain ⟨u, hu, hr⟩ := (Option.any_eq_true ..).mp h
  exact ⟨t, u, run_of_runAll ht, hu, of_decide_eq_true hr⟩

/-- A run and one more step, both executed. -/
theorem run_then {next : σ → ι → Option σ} [∀ s a, Decidable (ok s a)] {Q : σ → Prop}
    [DecidablePred P] [DecidablePred Q]
    (h : (runAllUnder next ok s as).any (fun t => decide (P t) && (decide (ok t a) &&
      (next t a).any fun u => decide (Q u))) = true) :
    ∃ t u, Run (Under (Steps next) ok) s as t ∧ Under (Steps next) ok t a u ∧ P t ∧ Q u := by
  obtain ⟨t, ht, h⟩ := (Option.any_eq_true ..).mp h
  obtain ⟨hp, h⟩ := Bool.and_eq_true_iff.mp h
  obtain ⟨hok, h⟩ := Bool.and_eq_true_iff.mp h
  obtain ⟨u, hu, hq⟩ := (Option.any_eq_true ..).mp h
  exact ⟨t, u, run_of_runAllUnder ht, ⟨hu, of_decide_eq_true hok⟩, of_decide_eq_true hp,
    of_decide_eq_true hq⟩

end Runs
