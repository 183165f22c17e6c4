import KubeMapReduce.Terminal

/-!
# How often a task is tried

FailTask and the reaper count the attempts of a task before they return it to Idle. Recover
does not count, so after a restart a task can get one attempt more (`fourth_attempt`).

* `attemptCount_assign`, `attemptCount_other`: an attempt is added by an assignment only.
* `attempts_bounded`: no task has more than `MaxTaskAttempts` attempts in a run in which no
  Recover resets a task whose attempts are used up.
* `failed_changes`: a task is failed when its attempts are used up or its job is cancelled.
-/

namespace KubeMapReduce

open Tables Runs

variable {c : Change} {cs : List Change} {now : Time} {db db' : DB} {j t : UUID}

/-! ## 1. Counting attempts -/

/-- The number of attempts that are recorded for the task. -/
def DB.attemptCount (db : DB) (t : UUID) : Nat :=
  db.attempts.rows.countP fun a => decide (a.taskID = t)

theorem attemptCount_assign {t' : UUID} {a : AttemptRow} {r : Nat}
    (hg : (Change.assign t' a r).Guard now db) :
    ((Change.assign t' a r).apply now db).attemptCount t =
      db.attemptCount t + if t' = t then 1 else 0 := by
  obtain ⟨rfl, _, hnew, _⟩ := hg
  show (db.attempts.insert a).rows.countP _ = _
  rw [Table.rows_insert hnew, List.countP_append, List.countP_singleton]
  simp only [decide_eq_true_eq]
  rfl

theorem attemptCount_other (hc : ∀ t' a r, c ≠ .assign t' a r) :
    (c.apply now db).attemptCount t = db.attemptCount t := by
  have hset : ∀ {d : DB} {x : UUID} {set : Query.AttemptSet}, d.attempts = db.attempts →
      (d.setAttempt now x set).attemptCount t = db.attemptCount t := by
    intro d x set hd
    exact (countP_setAttempt x t set).trans (by rw [hd]; rfl)
  have hfail : ∀ {d : DB} {p : AttemptRow → Bool}, d.attempts = db.attempts →
      (d.failAttempts now p).attemptCount t = db.attemptCount t := by
    intro d p hd
    refine (Table.countP_updateWhere _ _ _ _ (fun r _ => r.set_attemptID now _) fun b _ => ?_).trans
      (by rw [hd]; rfl)
    rw [AttemptRow.set_taskID]
  cases c with
  | assign t' a r => exact absurd rfl (hc t' a r)
  | complete | release | renew => exact hset rfl
  | cancel | failAttempts | failReplica => exact hfail rfl
  | _ => rfl

theorem attemptCount_apply (hg : c.Guard now db) :
    db.attemptCount t ≤ (c.apply now db).attemptCount t := by
  by_cases hc : ∃ t' a r, c = .assign t' a r
  · obtain ⟨t', a, r, rfl⟩ := hc
    rw [attemptCount_assign hg]
    exact Nat.le_add_right _ _
  · exact Nat.le_of_eq (attemptCount_other fun t' a r he => hc ⟨t', a, r, he⟩).symm

theorem attemptCount_changes (h : Changes now db cs db') :
    db.attemptCount t ≤ db'.attemptCount t := by
  refine h.keeps (I := fun d => db.attemptCount t ≤ d.attemptCount t) ?_ (Nat.le_refl _)
  rintro d c _ hg hd
  exact Nat.le_trans hd (attemptCount_apply hg)

/-! ## 2. The bound -/

/-- No task has more attempts than allowed, and a task that can be assigned has fewer. -/
structure Retriable (db : DB) : Prop where
  bound : ∀ t, db.attemptCount t ≤ MaxTaskAttempts
  idle : ∀ t row, db.tasks.get? t = some row → row.status = .idle →
    db.attemptCount t < MaxTaskAttempts
  owned : ∀ t, db.tasks.get? t = none → db.attemptCount t = 0

theorem retriable_initial (q : Option Nat) : Retriable (DB.initial q) :=
  ⟨fun _ => Nat.zero_le _, nofun, fun _ _ => rfl⟩

/-- A reset of the replica would return no task to Idle whose attempts are used up. -/
def Resettable (db : DB) (r : Nat) : Prop :=
  ∀ row ∈ db.tasks.rows, row.status = .inProgress →
    (db.jobs.get? row.jobID).map JobRow.replicaIndex = some r →
      db.attemptCount row.taskID < MaxTaskAttempts

instance (db : DB) (r : Nat) : Decidable (Resettable db r) := by
  unfold Resettable
  infer_instance

theorem Retriable.apply (h : Retriable db) (hg : c.Guard now db)
    (hreset : ∀ r, c = .resetReplica r → Resettable db r) : Retriable (c.apply now db) := by
  by_cases hc : ∃ t a r, c = .assign t a r
  · obtain ⟨t, a, r, rfl⟩ := hc
    obtain ⟨row, hrow, hidle⟩ : ∃ row, db.tasks.get? t = some row ∧ row.status = .idle := by
      obtain ⟨_, _, _, row, hrow, hidle, _⟩ := hg
      exact ⟨row, hrow, hidle⟩
    have hlt := h.idle t row hrow hidle
    refine ⟨fun t' => ?_, fun t' row' hrow' hidle' => ?_, fun t' hnone => ?_⟩
    · rw [attemptCount_assign hg]
      split
      · next he => exact he ▸ hlt
      · exact h.bound t'
    · rw [attemptCount_assign hg]
      rcases Change.task_cases hrow' with ⟨hc, _⟩ | ⟨row₀, hrow₀, ⟨_, rfl⟩ | ⟨hn, rfl⟩⟩
      · cases hc
      · cases hidle'
      · rw [if_neg fun he => hn ((Table.key_of_get? hrow₀).trans he.symm)]
        exact h.idle t' _ hrow₀ hidle'
    · have hold := Change.task_none hnone
      have hne : t ≠ t' := by
        rintro rfl
        cases hrow.symm.trans hold
      rw [attemptCount_assign hg, if_neg hne]
      exact h.owned t' hold
  · have hsame : ∀ t, (c.apply now db).attemptCount t = db.attemptCount t := fun t =>
      attemptCount_other fun t' a r he => hc ⟨t', a, r, he⟩
    refine ⟨fun t => hsame t ▸ h.bound t, fun t row' hrow' hidle => ?_, fun t hnone => ?_⟩
    · rw [hsame]
      rcases Change.task_cases hrow' with ⟨_, hnone⟩ | ⟨row, hrow, ⟨htouch, rfl⟩ | ⟨_, rfl⟩⟩
      · rw [h.owned t hnone]
        exact Nat.succ_pos 2
      · cases c with
        | assign t' a r => exact absurd ⟨t', a, r, rfl⟩ hc
        | release t' x status =>
          obtain ⟨_, _, _, hstatus⟩ := hg
          have hs : status = .idle := hidle
          have ht : t = t' := (Table.key_of_get? hrow).symm.trans htouch
          rw [hs] at hstatus
          split at hstatus
          · cases hstatus
          · next hmax => exact ht ▸ Nat.not_le.mp hmax
        | resetReplica r =>
          have hlt := hreset r rfl row (Table.mem_of_get? hrow) htouch.1 htouch.2
          rwa [Table.key_of_get? hrow] at hlt
        | complete | completeEmpty | cancel => cases hidle
        | _ => exact htouch.elim
      · exact h.idle t _ hrow hidle
    · rw [hsame]
      exact h.owned t (Change.task_none hnone)

/-- The second statement of Recover finds no task whose attempts are used up. -/
def resetsRetriable (w : World) : Label → Prop
  | .call (.recoverResetTasks s) _ _ => Resettable w.db s.replicaIndex
  | _ => True

instance (w : World) (a : Label) : Decidable (resetsRetriable w a) := by
  unfold resetsRetriable
  split <;> infer_instance

theorem retriable_step {w w' : World} {a : Label} (hw : Retriable w.db)
    (h : Under Step resetsRetriable w a w') : Retriable w'.db := by
  obtain ⟨hstep, hok⟩ := h
  by_cases ha : ∃ s now locked, a = .call (.recoverResetTasks s) now locked
  · obtain ⟨s, now, locked, rfl⟩ := ha
    rw [step_resetReplica hstep]
    refine hw.apply trivial ?_
    rintro _ ⟨⟩
    exact hok
  · obtain ⟨now, cs, _, hcs, hm⟩ := step_changes hstep
    refine hcs.keeps ?_ hw
    rintro d c hc hg hd
    refine hd.apply hg ?_
    rintro r rfl
    obtain ⟨s, now', locked, rfl, _⟩ := hm _ hc
    exact absurd ⟨s, now', locked, rfl⟩ ha

/-- No task gets more than `MaxTaskAttempts` attempts in a run in which every reset of Recover
finds only tasks that may be tried again. -/
theorem attempts_bounded {q : Option Nat} {as : List Label} {w : World}
    (h : Run (Under Step resetsRetriable) (World.initial q) as w) (t : UUID) :
    w.db.attemptCount t ≤ MaxTaskAttempts :=
  (h.invariant (I := fun w => Retriable w.db) (fun _ _ _ hw hs => retriable_step hw hs)
    (retriable_initial q)).bound t

/-- Task 2 is assigned and fails, twice, and is assigned again. -/
def thirdAttempt : List Label :=
  smallStart ++
    [calling (.getNextTask soloReplica 1 "worker" 10 20) 2,
      calling (.failTask soloReplica 2 10 20 "crash") 3,
      calling (.getNextTask soloReplica 1 "worker" 11 21) 4,
      calling (.failTask soloReplica 2 11 21 "crash") 5,
      calling (.getNextTask soloReplica 1 "worker" 12 22) 6]

theorem attempts_bounded_third :
    ∃ w, Run (Under Step resetsRetriable) (World.initial none) thirdAttempt w ∧
      w.db.attemptCount 2 = 3 ∧ w.db.attemptCount 2 ≤ MaxTaskAttempts := by
  obtain ⟨w, hw, hthree⟩ := (run_afterUnder (by decide) :
    ∃ w, Run (Under Step resetsRetriable) _ thirdAttempt w ∧ w.db.attemptCount 2 = 3)
  exact ⟨w, hw, hthree, attempts_bounded hw 2⟩

/-- The manager restarts during the third attempt. -/
def restartedRun : List Label :=
  thirdAttempt ++
    [.restart 0, calling (.recoverFailAttempts soloReplica) 7,
      calling (.recoverResetTasks soloReplica) 7, calling (.recoverWorkerPools soloReplica) 7,
      calling (.getNextTask soloReplica 1 "worker" 13 23) 8]

/-- Recover returns the task to Idle, and it gets a fourth attempt. -/
theorem fourth_attempt :
    ∃ w, Run Step (World.initial none) restartedRun w ∧ w.db.attemptCount 2 = 4 ∧
      MaxTaskAttempts < w.db.attemptCount 2 :=
  run_after (by decide)

/-! ## 3. Failures -/

/-- A task of the job has failed with all its attempts used up. -/
def Exhausted (db : DB) (j : UUID) : Prop :=
  ∃ t row, db.tasks.get? t = some row ∧ row.jobID = j ∧ row.status = .failed ∧
    MaxTaskAttempts ≤ db.attemptCount t

theorem Exhausted.apply (h : Exhausted db j) (hg : c.Guard now db) :
    Exhausted (c.apply now db) j := by
  obtain ⟨t, row, ht, rfl, hs, hmax⟩ := h
  obtain ⟨row', ht', hj', hs'⟩ := settled_apply hg ht (.inr hs)
  exact ⟨t, row', ht', hj', hs'.trans hs, Nat.le_trans hmax (attemptCount_apply hg)⟩

theorem Exhausted.changes (h : Exhausted db j) (hcs : Changes now db cs db') : Exhausted db' j := by
  refine hcs.keeps (I := fun d => Exhausted d j) ?_ h
  rintro d c _ hg hd
  exact hd.apply hg

/-- A task is failed by FailTask or by the reaper only when its attempts are used up. -/
theorem release_failed {x : UUID} (hg : (Change.release t x .failed).Guard now db) :
    MaxTaskAttempts ≤ db.attemptCount t := by
  obtain ⟨_, _, _, hstatus⟩ := hg
  split at hstatus
  · assumption
  · cases hstatus

theorem exhausted_of_release (h : Changes now db cs db') {x : UUID} (hc : .release t x .failed ∈ cs)
    (hj : db.jobOf t = some j) : Exhausted db' j := by
  induction h with
  | nil => cases hc
  | @cons d _ _ c cs hstep hrest ih =>
    obtain ⟨hg, rfl⟩ := hstep
    rcases List.mem_cons.mp hc with rfl | hc
    · have hmax := Nat.le_trans (release_failed hg) (attemptCount_apply hg)
      obtain ⟨row, att, hcur, _⟩ := hg
      have hrowj : row.jobID = j := by simpa [DB.jobOf, hcur.task] using hj
      refine Exhausted.changes ?_ hrest
      exact ⟨t, _, Change.task_touched hcur.task (Table.key_of_get? hcur.task), hrowj, rfl, hmax⟩
    · exact ih hc (c.jobOf_apply hj)

/-- A task that is Failed afterwards was so before, or has used up its attempts, or its job is
cancelled by one of the changes. -/
theorem failed_changes (h : Changes now db cs db') {row : TaskRow}
    (ht : db'.tasks.get? t = some row) (hs : row.status = .failed) :
    (∃ row₀, db.tasks.get? t = some row₀ ∧ row₀.status = .failed) ∨
      MaxTaskAttempts ≤ db'.attemptCount t ∨ .cancel row.jobID ∈ cs := by
  by_cases h0 : ∃ row₀, db.tasks.get? t = some row₀ ∧ row₀.status = .failed
  · exact .inl h0
  right
  obtain ⟨bs, c, ds, d, _, rfl, _, ⟨hg, rfl⟩, hds, hd, row', hrow', hs'⟩ := h.exists_switch
    (P := fun d => ∃ row₀, d.tasks.get? t = some row₀ ∧ row₀.status = .failed) h0 ⟨row, ht, hs⟩
  rcases Change.task_cases hrow' with ⟨rfl, _⟩ | ⟨row₀, hrow₀, ⟨htouch, rfl⟩ | ⟨_, rfl⟩⟩
  · cases hg.2.1.symm.trans hs'
  · cases c with
    | release t' x status =>
      left
      obtain rfl : status = .failed := hs'
      obtain rfl : t' = t := htouch.symm.trans (Table.key_of_get? hrow₀)
      exact Nat.le_trans (release_failed hg)
        (Nat.le_trans (attemptCount_apply hg) (attemptCount_changes hds))
    | cancel j' =>
      right
      have hjob : ((Change.cancel j').apply now d).jobOf t = some j' := by
        rw [DB.jobOf, hrow', Option.map_some]
        exact congrArg some htouch.1
      have hjob := changes_jobOf hds hjob
      rw [DB.jobOf, ht] at hjob
      rw [Option.some.inj hjob]
      exact List.mem_append_right _ List.mem_cons_self
    | assign | complete | completeEmpty | resetReplica => cases hs'
    | _ => exact htouch.elim
  · exact absurd ⟨_, hrow₀, hs'⟩ hd

end KubeMapReduce
