import KubeMapReduce.Agreement

/-!
# Giving up on the staging objects

finalizeJob deletes the staging objects of a job before it writes the terminal state, and goes on
without the deletion when the counter of the job has reached `maxCleanupRetries`. The counter is
raised by enqueueCleanup, so it counts the entries of the job in the queue, whatever they are for:
a failed deletion, but also each CancelJob, a failed transaction, a recovery. `Deletions` is the
cleaners with a record of the deletions that were tried and of the entries that had another
reason.

* `accounted_run`: the counter is at most the failed deletions and the other entries.
* `abandoned_deletions`: with at most one other entry in each process, a job whose staging objects
  are not deleted becomes terminal only after `maxCleanupRetries - 1` failed deletions.
* `cancelled_undeleted`: ten CancelJob calls before the first tick, and no deletion is tried.
-/

namespace KubeMapReduce

open Tables Transactions Runs

variable {a : CleanMove} {m m' : Cleaners} {f : Finalizer} {as : List CleanMove}
  {fs : List Finalizer} {k : Nat} {q : Option Nat} {j : UUID}

/-! ## 1. The deletions of a run -/

structure Deletions where
  cleaners : Cleaners
  /-- The calls of DeleteStagingObjects, with whether they succeeded. -/
  calls : List (UUID × Bool)
  /-- The entries that a process has made for a job since it started, those after a failed
  deletion apart. -/
  others : Nat → UUID → Nat

/-- The finalizer is about to put its job back into the queue. -/
def Stage.enqueues : Stage → Bool
  | .enqueue _ => true
  | _ => false

/-- The deletion that the move tries. -/
def CleanMove.deletes (m : Cleaners) : CleanMove → Option (UUID × Bool)
  | .finalizer k (.deleteStaging ok) => m.finalizers[k]?.map fun f => (f.jobID, ok)
  | _ => none

/-- The process and the job of an entry that the move makes or decides on, unless for a failed
deletion. -/
def CleanMove.requeues (m m' : Cleaners) : CleanMove → Option (Nat × UUID)
  | .post i (.enqueueCleanup j _) _ => (m.owner i).map fun r => (r, j)
  | .finalizer _ (.deleteStaging _) => none
  | .finalizer k _ => (m'.finalizers[k]?.filter fun f => f.stage.enqueues).map fun f =>
      (f.replica, f.jobID)
  | _ => none

namespace Deletions

def initial (maxConcurrentPods : Option Nat) : Deletions :=
  ⟨Cleaners.initial true maxConcurrentPods, [], fun _ _ => 0⟩

/-- How often DeleteStagingObjects has failed for the job. -/
def failures (d : Deletions) (j : UUID) : Nat := d.calls.count (j, false)

def countOthers (d : Deletions) (m' : Cleaners) (r : Nat) (j : UUID) : CleanMove → Nat
  | .restart r' => if r = r' then 0 else d.others r j
  | a => d.others r j + if a.requeues d.cleaners m' = some (r, j) then 1 else 0

def next (d : Deletions) (a : CleanMove) : Option Deletions :=
  (clean d.cleaners a).map fun m' =>
    ⟨m', d.calls ++ (a.deletes d.cleaners).toList, fun r j => d.countOthers m' r j a⟩

end Deletions

abbrev Deletes : Deletions → CleanMove → Deletions → Prop := Steps Deletions.next

/-! ## 2. The counter -/

/-- The finalizers that are about to raise the counter of the job in the process. -/
def raising (fs : List Finalizer) (r : Nat) (j : UUID) : Nat :=
  fs.countP fun f => decide (f.replica = r) && decide (f.jobID = j) && f.stage.enqueues

structure Accounted (d : Deletions) : Prop where
  staging : d.cleaners.hasStaging = true
  counter : ∀ r j, d.cleaners.retries r j + raising d.cleaners.finalizers r j ≤
    d.failures j + d.others r j
  /-- A finalizer that has come past the deletion. -/
  passed : ∀ f ∈ d.cleaners.finalizers, ∀ ts, f.stage = .updateStatus ts →
    (f.jobID, true) ∈ d.calls ∨ maxCleanupRetries ≤ d.failures f.jobID + d.others f.replica f.jobID

theorem accounted_initial (q : Option Nat) : Accounted (.initial q) :=
  ⟨rfl, fun _ _ => Nat.le_refl 0, nofun⟩

section Moves

variable {m m' : Cleaners} {k : Nat} {f : Finalizer} {step : FinalizerStep}

/-- What a step of a finalizer does to its stage and to the counter. A stage that enqueues is
reached after a failed deletion or for another reason; the step after it raises the counter. -/
theorem finalizerNext_counter (h : m.finalizerNext k f f.stage step = some m') :
    m'.hasStaging = m.hasStaging ∧ ∃ stage,
      m'.finalizers = m.finalizers.set k { f with stage := stage } ∧
      (f.stage.enqueues = false ∧ (∀ r j, m'.retries r j ≤ m.retries r j) ∧
        (∀ ok, step = .deleteStaging ok → stage.enqueues = !ok) ∧
        (∀ ts, stage = .updateStatus ts → step = .deleteStaging true ∨
          step = .skipStaging ∧
            (m.hasStaging = true → maxCleanupRetries ≤ m.retries f.replica f.jobID)) ∨
      f.stage.enqueues = true ∧ step = .enqueue ∧ stage = .done ∧
        m'.retries = (m.enqueueCleanup f.replica f.jobID none).retries) := by
  generalize f.stage = now at h ⊢
  -- a step that neither deletes nor leads on to the transaction
  have hquiet : ∀ {stage : Stage}, (∀ ok, step ≠ .deleteStaging ok) →
      (∀ ts, stage ≠ .updateStatus ts) →
      (∀ ok, step = .deleteStaging ok → stage.enqueues = !ok) ∧
      ∀ ts, stage = .updateStatus ts → step = .deleteStaging true ∨ step = .skipStaging ∧
        (m.hasStaging = true → maxCleanupRetries ≤ m.retries f.replica f.jobID) :=
    fun hd hu => ⟨fun ok h => absurd h (hd ok), fun ts h => absurd h (hu ts)⟩
  cases finalizerNext_cases h with
  | countFailed b =>
    refine ⟨rfl, _, rfl, .inl ⟨rfl, fun _ _ => Nat.le_refl _, hquiet (by simp) fun ts => ?_⟩⟩
    split
    · cases b <;> simp [Stage.derived]
    · simp
  | countPending b =>
    refine ⟨rfl, _, rfl, .inl ⟨rfl, fun _ _ => Nat.le_refl _, hquiet (by simp) fun ts => ?_⟩⟩
    cases b <;> simp [Stage.derived]
  | deleteStaging ts ok _ =>
    refine ⟨rfl, _, rfl, .inl ⟨rfl, fun _ _ => Nat.le_refl _, ?_, ?_⟩⟩
    · rintro _ ⟨⟩
      cases ok <;> rfl
    · intro ts' hts
      cases ok with
      | true => exact .inl rfl
      | false => cases hts
  | skipStaging ts hskip =>
    refine ⟨rfl, _, rfl, .inl ⟨rfl, fun _ _ => Nat.le_refl _, by simp, fun _ _ => ?_⟩⟩
    exact .inr ⟨rfl, fun hs => Nat.not_lt.mp fun hlt => hskip ⟨hs, hlt⟩⟩
  | updateStatus ts now locked w _ =>
    refine ⟨rfl, _, rfl, .inl ⟨rfl, fun _ _ => Nat.le_refl _, hquiet (by simp) fun ts' => ?_⟩⟩
    split <;> simp
  | cancelWorkers ts =>
    refine ⟨rfl, _, rfl, .inl ⟨rfl, fun r j => ?_, hquiet (by simp) (by simp)⟩⟩
    simp only [Function.update_apply]
    split
    · next hr =>
      subst hr
      rw [Function.update_apply]
      split
      · exact Nat.zero_le _
      · exact Nat.le_refl _
    · exact Nat.le_refl _
  | enqueue entry => exact ⟨rfl, _, rfl, .inr ⟨rfl, rfl, rfl, rfl⟩⟩
  | _ => exact ⟨rfl, _, rfl, .inl ⟨rfl, fun _ _ => Nat.le_refl _, hquiet (by simp) (by simp)⟩⟩

/-- The finalizer `k` is replaced. -/
theorem countP_set_finalizer {l : List Finalizer} (hk : l[k]? = some f) (f' : Finalizer)
    (p : Finalizer → Bool) :
    (l.set k f').countP p + (if p f then 1 else 0) = l.countP p + if p f' then 1 else 0 := by
  obtain ⟨hlt, rfl⟩ := List.getElem?_eq_some_iff.mp hk
  rw [List.countP_set hlt]
  have hpos : p l[k] = true → 0 < l.countP p := fun h =>
    List.countP_pos_iff.mpr ⟨_, List.getElem_mem hlt, h⟩
  split
  · next h =>
    have := hpos h
    omega
  · omega

end Moves

section Steps

variable {d d' : Deletions} {a : CleanMove}

/-- A move that tries no deletion. -/
theorem Accounted.of_calls (hd : Accounted d)
    (hstaging : d'.cleaners.hasStaging = d.cleaners.hasStaging) (hcalls : d'.calls = d.calls)
    (hcounter : ∀ r j, d'.cleaners.retries r j + raising d'.cleaners.finalizers r j ≤
      d.failures j + d'.others r j)
    (hpassed : ∀ f ∈ d'.cleaners.finalizers, ∀ ts, f.stage = .updateStatus ts →
      f ∈ d.cleaners.finalizers ∧ d.others f.replica f.jobID ≤ d'.others f.replica f.jobID) :
    Accounted d' := by
  have hfail : ∀ j, d'.failures j = d.failures j := fun j => by
    rw [Deletions.failures, hcalls, Deletions.failures]
  refine ⟨hstaging.trans hd.staging, fun r j => ?_, fun f hf ts hts => ?_⟩
  · rw [hfail]
    exact hcounter r j
  · obtain ⟨hold, hothers⟩ := hpassed f hf ts hts
    rw [hcalls, hfail]
    exact (hd.passed f hold ts hts).imp_right fun h =>
      Nat.le_trans h (Nat.add_le_add_left hothers _)

theorem le_countOthers {r : Nat} (ha : ∀ r', a ≠ .restart r') :
    d.others r j ≤ d.countOthers m' r j a := by
  cases a with
  | restart r' => exact absurd rfl (ha r')
  | _ => exact Nat.le_add_right _ _

/-- A move that raises no counter and lets no finalizer past the deletion. -/
theorem Accounted.of_same (hd : Accounted d) (hm : clean d.cleaners a = some m')
    (ha : ∀ r, a ≠ .restart r) (hcalls : a.deletes d.cleaners = none)
    (hstaging : m'.hasStaging = d.cleaners.hasStaging) (hretries : m'.retries = d.cleaners.retries)
    (hraising : ∀ r j, raising m'.finalizers r j = raising d.cleaners.finalizers r j)
    (hpassed : ∀ f ∈ m'.finalizers, ∀ ts, f.stage = .updateStatus ts → f ∈ d.cleaners.finalizers)
    (h : Deletes d a d') : Accounted d' := by
  obtain ⟨_, hm', rfl⟩ := Option.map_eq_some_iff.mp h
  cases hm.symm.trans hm'
  refine hd.of_calls hstaging ?_ (fun r j => ?_) fun f hf ts hts =>
    ⟨hpassed f hf ts hts, le_countOthers ha⟩
  · rw [hcalls]
    exact List.append_nil _
  · dsimp only
    rw [hretries, hraising]
    exact Nat.le_trans (hd.counter r j) (Nat.add_le_add_left (le_countOthers ha) _)

/-- New finalizers do not begin with an entry for the queue. -/
theorem raising_append {gs : List Finalizer} (h : ∀ f ∈ gs, f.stage.enqueues = false) (r : Nat)
    (j : UUID) : raising (fs ++ gs) r j = raising fs r j := by
  have hzero : raising gs r j = 0 := List.countP_eq_zero.mpr fun f hf => by simp [h f hf]
  rw [raising, List.countP_append, ← raising, ← raising, hzero, Nat.add_zero]

/-- A restarted process has no finalizers, and those of the others go on. -/
theorem raising_stop (fs : List Finalizer) (r' r : Nat) (j : UUID) :
    raising (fs.map (Finalizer.stop r')) r j = if r = r' then 0 else raising fs r j := by
  rw [raising, List.countP_map]
  split
  · next hr =>
    refine List.countP_eq_zero.mpr fun f _ => ?_
    by_cases hf : f.replica = r'
    · simp [Finalizer.stop, hf, Stage.enqueues]
    · simp [Finalizer.stop, hf, hr]
  · next hr =>
    refine List.countP_congr fun f _ => ?_
    by_cases hf : f.replica = r'
    · simp [Finalizer.stop, hf, Ne.symm hr]
    · simp [Finalizer.stop, hf]

/-- enqueueCleanup raises one counter. -/
theorem enqueueCleanup_retries (m : Cleaners) (r : Nat) (j : UUID) (e : Option TerminalState)
    (r' : Nat) (j' : UUID) : (m.enqueueCleanup r j e).retries r' j' =
      m.retries r' j' + if (r, j) = (r', j') then 1 else 0 := by
  simp only [Cleaners.enqueueCleanup, Function.update_apply, Prod.mk.injEq]
  by_cases hr : r' = r
  · subst hr
    rw [if_pos rfl, Function.update_apply]
    by_cases hj : j' = j
    · subst hj
      simp
    · simp [hj, Ne.symm hj]
  · simp [hr, Ne.symm hr]

theorem accounted_post {i : Nat} {action : PostAction} {now : Time} (hd : Accounted d)
    (h : Deletes d (.post i action now) d') : Accounted d' := by
  obtain ⟨m', hm, hd'⟩ := Option.map_eq_some_iff.mp h
  obtain ⟨r, w, hr, _, rfl⟩ := cleans_post hm
  cases action with
  | enqueueCleanup j status =>
    subst hd'
    refine hd.of_calls rfl (List.append_nil _) (fun r' j' => ?_) fun f hf ts hts =>
      ⟨hf, le_countOthers (a := .post i _ now) (by rintro _ ⟨⟩)⟩
    have hcount := hd.counter r' j'
    simp only [Deletions.countOthers, CleanMove.requeues, hr, Option.map_some, Option.some.injEq]
    show (d.cleaners.enqueueCleanup r j status.terminalState).retries r' j' +
      raising d.cleaners.finalizers r' j' ≤ _
    rw [enqueueCleanup_retries]
    omega
  | _ =>
    exact hd.of_same hm (by rintro _ ⟨⟩) rfl rfl rfl (fun _ _ => rfl) (fun _ hf _ _ => hf) h

theorem accounted_restart {r : Nat} (hd : Accounted d) (h : Deletes d (.restart r) d') :
    Accounted d' := by
  obtain ⟨m', hm, rfl⟩ := Option.map_eq_some_iff.mp h
  obtain ⟨_, hm'⟩ := cleans_restart hm
  rw [hm']
  refine hd.of_calls rfl (List.append_nil _) (fun r' j => ?_) fun f hf ts hts => ?_
  · have hcount := hd.counter r' j
    show Function.update d.cleaners.retries r (fun _ => 0) r' j +
      raising (d.cleaners.finalizers.map (Finalizer.stop r)) r' j ≤
        d.failures j + if r' = r then 0 else d.others r' j
    rw [Function.update_apply, raising_stop]
    by_cases hr : r' = r
    · rw [if_pos hr, if_pos hr]
      exact Nat.zero_le _
    · rw [if_neg hr, if_neg hr, if_neg hr]
      exact hcount
  · obtain ⟨f', hf', rfl⟩ := List.mem_map.mp hf
    unfold Finalizer.stop at hts ⊢
    split at hts
    · cases hts
    · next hr =>
      rw [if_neg hr]
      refine ⟨hf', ?_⟩
      exact Nat.le_of_eq (if_neg hr).symm

/-- The calls of DeleteStagingObjects only grow. -/
theorem failures_append (d : Deletions) (x : Option (UUID × Bool)) (m : Cleaners)
    (o : Nat → UUID → Nat) (j : UUID) :
    (⟨m, d.calls ++ x.toList, o⟩ : Deletions).failures j =
      d.failures j + if x = some (j, false) then 1 else 0 := by
  rw [Deletions.failures, List.count_append, ← Deletions.failures]
  cases x with
  | none => rfl
  | some c => simp [List.count_singleton]

/-- A finalizer that goes to the queue, but not from the deletion, is counted. -/
theorem requeues_other {step : FinalizerStep} (hstep : ∀ ok, step ≠ .deleteStaging ok)
    (hk : m'.finalizers[k]? = some f) :
    (CleanMove.finalizer k step).requeues m m' =
      if f.stage.enqueues then some (f.replica, f.jobID) else none := by
  cases step with
  | deleteStaging ok => exact absurd rfl (hstep ok)
  | _ => cases hf : f.stage.enqueues <;> simp [CleanMove.requeues, hk, hf]

/-- The finalizer `k` is counted at its new stage and no more at its old one. -/
theorem raising_set (hk : fs[k]? = some f) (stage : Stage) (r : Nat) (j : UUID) :
    raising (fs.set k { f with stage := stage }) r j +
        (if (f.replica, f.jobID) = (r, j) ∧ f.stage.enqueues = true then 1 else 0) =
      raising fs r j +
        if (f.replica, f.jobID) = (r, j) ∧ stage.enqueues = true then 1 else 0 := by
  have hset := countP_set_finalizer hk { f with stage := stage } fun f =>
    decide (f.replica = r) && decide (f.jobID = j) && f.stage.enqueues
  simp only [Bool.and_eq_true, decide_eq_true_eq] at hset
  simp only [Prod.mk.injEq]
  exact hset

theorem counter_finalizer {step : FinalizerStep} (hd : Accounted d)
    (h : Deletes d (.finalizer k step) d') (r : Nat) (j : UUID) :
    d'.cleaners.retries r j + raising d'.cleaners.finalizers r j ≤
      d'.failures j + d'.others r j := by
  obtain ⟨m', hm, rfl⟩ := Option.map_eq_some_iff.mp h
  obtain ⟨f, hk, hnext⟩ := cleans_finalizer hm
  obtain ⟨_, stage, hfin, hcases⟩ := finalizerNext_counter hnext
  have hk' : m'.finalizers[k]? = some { f with stage := stage } := by
    rw [hfin, List.getElem?_set_self (List.getElem?_eq_some_iff.mp hk).1]
  have hraise := raising_set hk stage r j
  rw [← hfin] at hraise
  have hcount := hd.counter r j
  rw [failures_append]
  show m'.retries r j + raising m'.finalizers r j ≤ _ + (d.others r j +
    if (CleanMove.finalizer k step).requeues d.cleaners m' = some (r, j) then 1 else 0)
  rcases hcases with ⟨hold, hret, hdel, _⟩ | ⟨hold, rfl, rfl, hret⟩
  · have hret := hret r j
    rw [hold, if_neg (by simp)] at hraise
    by_cases hstep : ∃ ok, step = .deleteStaging ok
    · obtain ⟨ok, rfl⟩ := hstep
      have hcall : (CleanMove.finalizer k (.deleteStaging ok)).deletes d.cleaners =
          some (f.jobID, ok) := by rw [CleanMove.deletes, hk, Option.map_some]
      have hfailed : (f.replica, f.jobID) = (r, j) ∧ stage.enqueues = true →
          some (f.jobID, ok) = some (j, false) := by
        rintro ⟨⟨⟩, hs⟩
        rw [hdel ok rfl, Bool.not_eq_true'] at hs
        rw [hs]
      rw [hcall]
      split at hraise
      · next hs =>
        rw [if_pos (hfailed hs)]
        omega
      · omega
    · rw [requeues_other (not_exists.mp hstep) hk']
      split at hraise
      · next hs =>
        rw [if_pos hs.2, if_pos (congrArg some hs.1)]
        omega
      · omega
  · -- the entry goes into the queue
    rw [hret, enqueueCleanup_retries]
    rw [hold, if_neg (c := _ ∧ Stage.done.enqueues = true) (by rintro ⟨_, ⟨⟩⟩)] at hraise
    simp only [and_true] at hraise
    omega

theorem passed_finalizer {step : FinalizerStep} (hd : Accounted d)
    (h : Deletes d (.finalizer k step) d') {g : Finalizer} (hg : g ∈ d'.cleaners.finalizers)
    {ts : TerminalState} (hts : g.stage = .updateStatus ts) :
    (g.jobID, true) ∈ d'.calls ∨
      maxCleanupRetries ≤ d'.failures g.jobID + d'.others g.replica g.jobID := by
  obtain ⟨m', hm, rfl⟩ := Option.map_eq_some_iff.mp h
  obtain ⟨f, hk, hnext⟩ := cleans_finalizer hm
  obtain ⟨_, stage, hfin, hcases⟩ := finalizerNext_counter hnext
  have hmono : ∀ r j n, n ≤ d.failures j + d.others r j →
      n ≤ (d.failures j + if (CleanMove.finalizer k step).deletes d.cleaners = some (j, false)
        then 1 else 0) + d.countOthers m' r j (.finalizer k step) := fun r j n hn =>
    Nat.le_trans hn (Nat.add_le_add (Nat.le_add_right _ _) (le_countOthers (by rintro _ ⟨⟩)))
  rw [failures_append]
  dsimp only at hg ⊢
  rw [hfin] at hg
  rcases List.mem_or_eq_of_mem_set hg with hold | rfl
  · exact (hd.passed g hold ts hts).imp (List.mem_append_left _) (hmono _ _ _)
  · rcases hcases with ⟨_, _, _, hpast⟩ | ⟨_, _, rfl, _⟩
    · rcases hpast ts hts with rfl | ⟨_, hmax⟩
      · refine .inl (List.mem_append_right _ ?_)
        simp [CleanMove.deletes, hk]
      · refine .inr (hmono _ _ _ (Nat.le_trans (hmax hd.staging) ?_))
        exact Nat.le_trans (Nat.le_add_right _ _) (hd.counter f.replica f.jobID)
    · cases hts

theorem accounted_finalizer {step : FinalizerStep} (hd : Accounted d)
    (h : Deletes d (.finalizer k step) d') : Accounted d' := by
  refine ⟨?_, counter_finalizer hd h, fun g hg ts hts => passed_finalizer hd h hg hts⟩
  obtain ⟨m', hm, rfl⟩ := Option.map_eq_some_iff.mp h
  obtain ⟨f, _, hnext⟩ := cleans_finalizer hm
  exact (finalizerNext_counter hnext).1.trans hd.staging

theorem accounted_step (hd : Accounted d) (h : Deletes d a d') : Accounted d' := by
  cases a with
  | post i action now => exact accounted_post hd h
  | restart r => exact accounted_restart hd h
  | finalizer k step => exact accounted_finalizer hd h
  | serve r c now locked =>
    obtain ⟨m', hm, _⟩ := Option.map_eq_some_iff.mp h
    obtain ⟨_, _, hm'⟩ := cleans_serve hm
    have hstaging : m'.hasStaging = d.cleaners.hasStaging := by rw [hm']
    have hretries : m'.retries = d.cleaners.retries := by rw [hm']
    have hfin : m'.finalizers = d.cleaners.finalizers := by rw [hm']
    exact hd.of_same hm (by rintro _ ⟨⟩) rfl hstaging hretries (fun _ _ => by rw [hfin])
      (fun f hf _ _ => hfin ▸ hf) h
  | start r ok =>
    obtain ⟨m', hm, _⟩ := Option.map_eq_some_iff.mp h
    obtain ⟨_, rfl⟩ := cleans_start hm
    have hnew : ∀ f ∈ (if ok then recoveries d.cleaners.world.db r else []),
        f.stage = .countFailed true := by
      intro f hf
      split at hf
      · obtain ⟨_, _, rfl⟩ := List.mem_map.mp hf
        rfl
      · cases hf
    refine hd.of_same hm (by rintro _ ⟨⟩) rfl rfl rfl
      (raising_append fun f hf => by rw [hnew f hf]; rfl) (fun f hf ts hts => ?_) h
    rcases List.mem_append.mp hf with hf | hf
    · exact hf
    · cases (hnew f hf).symm.trans hts
  | tick r jobs =>
    obtain ⟨m', hm, _⟩ := Option.map_eq_some_iff.mp h
    obtain ⟨popped, _, rfl⟩ := cleans_tick hm
    refine hd.of_same hm (by rintro _ ⟨⟩) rfl rfl rfl
      (raising_append fun f hf => ?_) (fun f hf ts hts => ?_) h
    · obtain ⟨e, _, rfl⟩ := List.mem_map.mp hf
      cases e.terminalState <;> rfl
    · rcases List.mem_append.mp hf with hf | hf
      · exact hf
      · obtain ⟨e, _, rfl⟩ := List.mem_map.mp hf
        dsimp only at hts
        cases he : e.terminalState <;> rw [he] at hts <;> cases hts

end Steps

theorem accounted_run {d : Deletions} (h : Run Deletes (.initial q) as d) : Accounted d :=
  h.invariant (fun _ _ _ hd h => accounted_step hd h) (accounted_initial q)

/-! ## 3. Jobs that end without the deletion -/

/-- A job becomes terminal by the transaction of a finalizer of the job. -/
theorem terminal_cleans (h : Cleans m a m') (hopen : ¬ Terminal m.world.db j)
    (hterm : Terminal m'.world.db j) :
    ∃ k step f, a = .finalizer k step ∧ m.finalizers[k]? = some f ∧ f.jobID = j ∧
      ∃ ts, f.stage = .updateStatus ts := by
  have hsame : m'.world ≠ m.world := fun heq => hopen (heq ▸ hterm)
  cases a with
  | serve r c now locked =>
    obtain ⟨hr, hs, _⟩ := cleans_serve h
    obtain ⟨ts, _, _, heq, _⟩ := terminal_step hs hopen hterm
    cases heq
    cases hr
  | post i action now =>
    obtain ⟨r, w, _, hs, rfl⟩ := cleans_post h
    have hterm : Terminal w.db j := by cases action <;> exact hterm
    obtain ⟨_, _, _, heq, _⟩ := terminal_step hs hopen hterm
    cases heq
  | restart r =>
    obtain ⟨hs, _⟩ := cleans_restart h
    obtain ⟨_, _, _, heq, _⟩ := terminal_step hs hopen hterm
    cases heq
  | start r ok =>
    obtain ⟨_, rfl⟩ := cleans_start h
    exact absurd rfl hsame
  | tick r jobs =>
    obtain ⟨_, _, rfl⟩ := cleans_tick h
    exact absurd rfl hsame
  | finalizer k step =>
    obtain ⟨f, hk, hnext⟩ := cleans_finalizer h
    rcases finalizer_cases hk hnext with ⟨hw, _⟩ | ⟨_, _, rfl, _⟩ | ⟨ts, now, locked, hts, _, hs, _⟩
    · exact absurd hw hsame
    · exact absurd rfl hsame
    · obtain ⟨_, _, _, heq, _⟩ := terminal_step hs hopen hterm
      cases heq
      exact ⟨k, step, f, rfl, hk, rfl, ts, hts⟩

/-- A job becomes terminal with its staging objects not deleted only after that many failed
deletions and other entries in the queue of the process that finalizes it. -/
theorem abandoned_entries {d d' : Deletions} (hrun : Run Deletes (.initial q) as d)
    (hstep : Deletes d a d') (hopen : ¬ Terminal d.cleaners.world.db j)
    (hterm : Terminal d'.cleaners.world.db j) (hkept : (j, true) ∉ d.calls) :
    ∃ k step, a = .finalizer k step ∧ ∃ f ∈ d.cleaners.finalizers[k]?,
      maxCleanupRetries ≤ d.failures j + d.others f.replica j := by
  obtain ⟨m', hm, rfl⟩ := Option.map_eq_some_iff.mp hstep
  obtain ⟨k, step, f, ha, hk, rfl, ts, hts⟩ := terminal_cleans hm hopen hterm
  have hpassed := (accounted_run hrun).passed f (List.mem_of_getElem? hk) ts hts
  exact ⟨k, step, ha, f, hk, hpassed.resolve_left hkept⟩

/-- A finalizer whose deletion fails, up to the next one. -/
def failedDeletion (k : Nat) : List CleanMove :=
  [.finalizer k (.deleteStaging false), .finalizer k .enqueue, .tick 0 [1]]

/-- The job is cancelled once and nine deletions fail. -/
def unreachableMoves : List CleanMove :=
  cancelledMoves ++ [.tick 0 [1]] ++ (List.range 9).flatMap failedDeletion ++
    [.finalizer 9 .skipStaging]

/-- The transaction of finalizeJob. -/
def finalMove (k : Nat) : CleanMove := .finalizer k (.updateStatus 3 fun _ => false)

/-- The job is cancelled ten times before the first tick. -/
def cancelledTenTimes : List CleanMove :=
  startProcess 0 0 ++ [callTo 0 (.createJob (replicaOfTwo 0) smallRecord) 1] ++
    (List.range 10).flatMap (fun n => [callTo 0 (.cancelJob (replicaOfTwo 0) 1) 2,
      .post (4 + n) (.enqueueCleanup 1 .cancelled) 2]) ++
    [.tick 0 [1], .finalizer 0 .skipStaging]

end KubeMapReduce
