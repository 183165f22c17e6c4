import KubeMapReduce.Attempts

/-!
# The end of a job

A job is closed when its status is Cleaning or terminal. A job that is closed because all
its tasks are Completed, or because it is cancelled, has no Idle or In-Progress task left.
FailTask and FailStaleTasks also close a job, when one of its tasks has no attempt left,
and they leave the other tasks as they are (`siblings_left`).

* `ended_step`: a closed job without Idle or In-Progress tasks stays so, if it is not
  scheduled again.
* `orderly`: the conditions under which closing a job leaves no such task behind.
* `terminal_quiet`: in the runs that meet them a terminal job is over for good.
-/

namespace KubeMapReduce

open Tables Runs

variable {locked : Resource → Bool} {row : TaskRow} {c : Change} {a : Label} {cs : List Change}
  {es : List Event} {thread : List PostAction} {recs : List StaleRec} {s : Scheduler} {clock : Time}
  {lease t : UUID} {heartbeats : UUID → Option Time} {w w' : World} {now : Time} {db db' : DB}
  {j : UUID}

/-! ## 1. Settled tasks -/

/-- The task is neither Idle nor In-Progress. -/
def Settled (row : TaskRow) : Prop := row.status = .completed ∨ row.status = .failed

instance (row : TaskRow) : Decidable (Settled row) := by
  unfold Settled
  infer_instance

theorem Settled.congr {row' : TaskRow} (h : Settled row) (hs : row'.status = row.status) :
    Settled row' := by
  rw [Settled, hs]
  exact h

/-- No task of the job is Idle or In-Progress. -/
def Quiet (db : DB) (j : UUID) : Prop :=
  ∀ t row, db.tasks.get? t = some row → row.jobID = j → Settled row

/-- The job is Cleaning or terminal. -/
def Closed (db : DB) (j : UUID) : Prop :=
  ∃ status ∈ db.jobStatus j, status ≠ .pending ∧ status ≠ .running

instance (db : DB) (j : UUID) : Decidable (Closed db j) := by
  unfold Closed
  infer_instance

def Terminal (db : DB) (j : UUID) : Prop :=
  ∃ status ∈ db.jobStatus j, status = .completed ∨ status = .failed ∨ status = .cancelled

instance (db : DB) (j : UUID) : Decidable (Terminal db j) := by
  unfold Terminal
  infer_instance

theorem Terminal.closed (h : Terminal db j) : Closed db j := by
  obtain ⟨status, hs, hst⟩ := h
  refine ⟨status, hs, ?_⟩
  rcases hst with rfl | rfl | rfl <;> exact ⟨nofun, nofun⟩

/-- A settled task keeps its status. -/
theorem settled_apply (hg : c.Guard now db) (ht : db.tasks.get? t = some row) (hs : Settled row) :
    ∃ row', (c.apply now db).tasks.get? t = some row' ∧ row'.jobID = row.jobID ∧
      row'.status = row.status := by
  by_cases hc : c.Touches db row
  · have hidle : row.status ≠ .idle := by rcases hs with hs | hs <;> rw [hs] <;> nofun
    have hbusy : row.status ≠ .inProgress := by rcases hs with hs | hs <;> rw [hs] <;> nofun
    cases c with
    | assign t' a r =>
      obtain ⟨_, _, _, row', ht', hi, _⟩ := hg
      exact absurd (Table.eq_of_get?_key ht hc ht' ▸ hi) hidle
    | complete t' a lease skew rows =>
      obtain ⟨_, row', _, hcur, _⟩ := hg
      exact absurd (Table.eq_of_get?_key ht hc hcur.task ▸ hcur.status) hbusy
    | release t' a status =>
      obtain ⟨row', _, hcur, _⟩ := hg
      exact absurd (Table.eq_of_get?_key ht hc hcur.task ▸ hcur.status) hbusy
    | completeEmpty j' => exact absurd hc.2.2.1 hidle
    | cancel j' => exact ⟨_, Change.task_touched ht hc, rfl, (hs.resolve_left hc.2).symm⟩
    | resetReplica r => exact absurd hc.1 hbusy
    | _ => exact hc.elim
  · exact ⟨row, Change.task_untouched ht hc, rfl, rfl⟩

theorem quiet_apply (hq : Quiet db j) (hg : c.Guard now db) (hc : c.Spares j) :
    Quiet (c.apply now db) j := by
  intro t row' h hj
  have hold : ∀ {row : TaskRow}, db.tasks.get? t = some row → row.jobID = j → Settled row' := by
    intro row hrow hj
    obtain ⟨row'', h', _, hs⟩ := settled_apply hg hrow (hq t row hrow hj)
    cases h.symm.trans h'
    exact (hq t row hrow hj).congr hs
  rcases Change.task_cases h with ⟨rfl, _⟩ | ⟨row, hrow, ⟨_, rfl⟩ | ⟨_, rfl⟩⟩
  · exact absurd hj hc
  · exact hold hrow hj
  · exact hold hrow hj

/-- A closed job is opened only when one of its tasks is In-Progress. -/
theorem closed_apply (hcl : Closed db j) (hq : Quiet db j) (hg : c.Guard now db) :
    Closed (c.apply now db) j := by
  obtain ⟨status, hs, hp, hr⟩ := hcl
  obtain ⟨row, hrow, rfl⟩ := Option.map_eq_some_iff.mp hs
  obtain ⟨row', hrow', _, hsame | rfl⟩ := c.job_apply now hrow
  · refine ⟨row.status, ?_, hp, hr⟩
    rw [DB.jobStatus, hrow', Option.map_some, hsame]
    rfl
  · refine ⟨row'.status, ?_, hg.1, fun hrun => ?_⟩
    · rw [DB.jobStatus, hrow']
      rfl
    · obtain ⟨t, trow, ht, hj, hbusy⟩ := hg.2 hrun
      rcases hq t trow ht hj with hs' | hs' <;> rw [hbusy] at hs' <;> cases hs'

theorem ended_changes (h : Changes now db cs db') (hspare : ∀ c ∈ cs, c.Spares j)
    (hcl : Closed db j) (hq : Quiet db j) : Closed db' j ∧ Quiet db' j := by
  refine h.keeps (I := fun d => Closed d j ∧ Quiet d j) ?_ ⟨hcl, hq⟩
  rintro d c hc hg ⟨hcl, hq⟩
  exact ⟨closed_apply hcl hq hg, quiet_apply hq hg (hspare c hc)⟩

/-- The status of a job gets the property `P` by a change that writes it. -/
theorem status_switch {P : JobStatus → Prop} (hpending : ¬ P .pending) (h : Changes now db cs db')
    (h0 : ¬ ∃ status ∈ db.jobStatus j, P status) (h1 : ∃ status ∈ db'.jobStatus j, P status) :
    ∃ status, .setJob j status ∈ cs ∧ P status := by
  obtain ⟨bs, c, ds, d, _, rfl, _, ⟨hg, rfl⟩, _, hd, status, hs, hp⟩ :=
    h.exists_switch (P := fun d => ∃ status ∈ d.jobStatus j, P status) h0 h1
  obtain ⟨row', hrow', rfl⟩ := Option.map_eq_some_iff.mp hs
  cases hrow : d.jobs.get? j with
  | none =>
    cases Change.job_cases hrow' hrow
    exact absurd (hg.2 ▸ hp) hpending
  | some row =>
    obtain ⟨row'', hrow'', _, hsame | hc⟩ := c.job_apply now hrow
    · cases hrow'.symm.trans hrow''
      refine absurd ⟨row.status, ?_, hsame ▸ hp⟩ hd
      rw [DB.jobStatus, hrow]
      rfl
    · cases hrow'.symm.trans hrow''
      exact ⟨_, hc ▸ List.mem_append_right _ List.mem_cons_self, hp⟩

/-! ## 2. What closes a job -/

/-- After the change this task of the job is settled. -/
def Change.Settles (t j : UUID) : Change → Prop
  | .release t' _ status => t' = t ∧ status = .failed
  | .cancel j' => j' = j
  | _ => False

theorem settled_of_settles (hc : c.Settles t j) (ht : db.tasks.get? t = some row)
    (hj : row.jobID = j) : ∃ row', (c.apply now db).tasks.get? t = some row' ∧ Settled row' := by
  cases c with
  | release t' x status =>
    obtain ⟨rfl, rfl⟩ := hc
    exact ⟨_, Change.task_touched ht (Table.key_of_get? ht), .inr rfl⟩
  | cancel j' =>
    by_cases hs : row.status = .completed
    · exact ⟨row, Change.task_untouched ht fun htouch => htouch.2 hs, .inl hs⟩
    · exact ⟨_, Change.task_touched ht ⟨hj.trans hc.symm, hs⟩, .inr rfl⟩
  | _ => exact hc.elim

theorem settled_changes (h : Changes now db cs db') (ht : db.tasks.get? t = some row)
    (hj : row.jobID = j) (hs : Settled row ∨ ∃ c ∈ cs, c.Settles t j) :
    ∃ row', db'.tasks.get? t = some row' ∧ Settled row' := by
  induction h generalizing row with
  | nil =>
    rcases hs with hs | ⟨c, hc, _⟩
    · exact ⟨row, ht, hs⟩
    · cases hc
  | @cons d _ _ c cs hstep _ ih =>
    obtain ⟨hg, rfl⟩ := hstep
    have hjob : (c.apply now d).jobOf t = some j :=
      c.jobOf_apply (by rw [DB.jobOf, ht, Option.map_some, hj])
    obtain ⟨row', hrow', hj'⟩ := Option.map_eq_some_iff.mp hjob
    have hnow : (∃ row', (c.apply now d).tasks.get? t = some row' ∧ Settled row') →
        Settled row' := by
      rintro ⟨row'', hrow'', hs⟩
      cases hrow'.symm.trans hrow''
      exact hs
    refine ih hrow' hj' ?_
    rcases hs with hs | ⟨c', hc', hs⟩
    · obtain ⟨row'', h', _, hs'⟩ := settled_apply hg ht hs
      exact .inl (hnow ⟨row'', h', hs.congr hs'⟩)
    · rcases List.mem_cons.mp hc' with rfl | hc'
      · exact .inl (hnow (settled_of_settles hs ht hj))
      · exact .inr ⟨c', hc', hs⟩

/-- Changes that add no task to the job and settle those that are not settled. -/
theorem quiet_of_settles (h : Changes now db cs db') (hspare : ∀ c ∈ cs, c.Spares j)
    (hs : ∀ t row, db.tasks.get? t = some row → row.jobID = j →
      Settled row ∨ ∃ c ∈ cs, c.Settles t j) : Quiet db' j := by
  intro t row' ht' hj'
  have hold : ∃ row, db.tasks.get? t = some row ∧ row.jobID = j := by
    clear hs
    induction h with
    | nil => exact ⟨row', ht', hj'⟩
    | cons hstep _ ih =>
      obtain ⟨row, hrow, hj⟩ := ih (fun c hc => hspare c (List.mem_cons_of_mem _ hc)) ht'
      obtain ⟨_, rfl⟩ := hstep
      rcases Change.task_cases hrow with ⟨rfl, _⟩ | ⟨row₀, hrow₀, ⟨_, rfl⟩ | ⟨_, rfl⟩⟩
      · exact absurd hj (hspare _ List.mem_cons_self)
      · exact ⟨row₀, hrow₀, hj⟩
      · exact ⟨_, hrow₀, hj⟩
  obtain ⟨row, hrow, hj⟩ := hold
  obtain ⟨row'', hrow'', hset⟩ := settled_changes h hrow hj (hs t row hrow hj)
  cases ht'.symm.trans hrow''
  exact hset

theorem quiet_of_allDone (h : db.AllDone j) : Quiet db j :=
  fun t row ht hj => .inl (h t row ht hj)

/-- The job whose worker pool the action ensures. -/
def PostAction.pool? : PostAction → Option UUID
  | .ensureWorkerPool j _ _ => some j
  | _ => none

/-- No operation has a call of EnsureWorkerPool for the job left to make. -/
def NoPool (w : World) (j : UUID) : Prop :=
  ∀ thread ∈ w.threads, ∀ act ∈ thread, act.pool? ≠ some j

instance (w : World) (j : UUID) : Decidable (NoPool w j) := by
  unfold NoPool
  infer_instance

/-- The tasks that this pass of the reaper fails for good. -/
def lostTasks (s : Scheduler) (heartbeats : UUID → Option Time) (clock now : Time)
    (locked : Resource → Bool) (db : DB) : List StaleRec :=
  (staleTasks s.replicaIndex (atomically now locked) db).filter fun rec =>
    isStale s heartbeats clock rec && decide (MaxTaskAttempts ≤ rec.attemptCount)

/-- Conditions on the steps that begin and end jobs: when FailTask or FailStaleTasks
closes a job, all tasks of it that they do not fail themselves are settled; a job that is
closed is not scheduled; and a job is not finalized while a call of EnsureWorkerPool for
it is outstanding. -/
def orderly (w : World) : Label → Prop
  | .call (.failTask s t a lease reason) now locked =>
    (perform (.failTask s t a lease reason) now locked w.db).1.result.isOk = true →
    MaxTaskAttempts ≤ w.db.attempts.rows.countP (fun b => decide (b.taskID = t)) →
    ∀ row ∈ w.db.tasks.rows, w.db.jobOf t = some row.jobID → row.taskID ≠ t → Settled row
  | .call (.failStaleTasks s heartbeats clock) now locked =>
    ∀ rec ∈ lostTasks s heartbeats clock now locked w.db, ∀ row ∈ w.db.tasks.rows,
      row.jobID = rec.jobID → Settled row ∨
        ∃ rec' ∈ lostTasks s heartbeats clock now locked w.db, rec'.taskID = row.taskID
  | .call (.scheduleJob s req) now locked =>
    (perform (.scheduleJob s req) now locked w.db).1.result.isOk = true →
    ∀ j ∈ s.uuidParse req.jobID, ¬ Closed w.db j
  | .call (.finalizeJob j ts) now locked =>
    (perform (.finalizeJob j ts) now locked w.db).1.result.isOk = true → NoPool w j
  | _ => True

instance (w : World) (a : Label) : Decidable (orderly w a) := by
  induction a using Label.casesOn with
  | call c => induction c using Call.casesOn <;> dsimp only [orderly] <;> infer_instance
  | _ => exact instDecidableTrue

/-! ## 3. What an operation leaves behind -/

/-- The jobs that a pass of the reaper collects: it restarts the workers of jobs of selected
tasks, and fails jobs of those whose attempts are used up. -/
theorem reapedBy_jobs {acc : Reaped} {res : Reaped}
    (hres : reapedBy s heartbeats clock recs acc = res) :
    (∀ j ∈ res.respawnJobs, j ∈ acc.respawnJobs ∨ ∃ rec ∈ recs, rec.jobID = j) ∧
    ∀ j ∈ res.failedJobs, j ∈ acc.failedJobs ∨ ∃ rec ∈ recs, rec.jobID = j ∧
      isStale s heartbeats clock rec = true ∧ MaxTaskAttempts ≤ rec.attemptCount := by
  induction recs generalizing acc with
  | nil =>
    cases hres
    exact ⟨fun _ => .inl, fun _ => .inl⟩
  | cons rec recs ih =>
    rw [reapedBy, List.foldl_cons] at hres
    obtain ⟨hrespawn, hfailed⟩ := ih hres
    constructor
    · intro j hj
      rcases hrespawn j hj with h | ⟨rec', hrec', hj'⟩
      · split at h
        · split at h
          · exact .inl h
          · rcases List.mem_insert_iff.mp h with rfl | h
            · exact .inr ⟨rec, List.mem_cons_self, rfl⟩
            · exact .inl h
        · exact .inl h
      · exact .inr ⟨rec', List.mem_cons_of_mem _ hrec', hj'⟩
    · intro j hj
      rcases hfailed j hj with h | ⟨rec', hrec', hj'⟩
      · split at h
        · next hstale =>
          split at h
          · next hmax =>
            rcases List.mem_insert_iff.mp h with rfl | h
            · exact .inr ⟨rec, List.mem_cons_self, rfl, hstale, hmax⟩
            · exact .inl h
          · exact .inl h
        · exact .inl h
      · exact .inr ⟨rec', List.mem_cons_of_mem _ hrec', hj'⟩

theorem release_mem_reapChanges {rec : StaleRec} (h : rec ∈ recs)
    (hs : isStale s heartbeats clock rec = true) (hm : MaxTaskAttempts ≤ rec.attemptCount) :
    .release rec.taskID rec.attemptID .failed ∈ reapChanges s heartbeats clock recs := by
  refine List.mem_flatMap.mpr ⟨rec, h, ?_⟩
  rw [if_pos hs, if_pos hm]
  exact List.mem_cons_self

/-- Why an operation leaves an action to be done after its transaction. A worker pool is
ensured by ScheduleJob, by a pass of the reaper that has released a task of the job, and by
Recover for a Running job. A job is put into the cleanup queue when its tasks are Completed,
when one of them is released as Failed, by CancelJob, and by a finalization that retries. -/
def Grounds (c : Call) (now : Time) (locked : Resource → Bool) (db : DB) : PostAction → Prop
  | .ensureWorkerPool j _ _ =>
    (∃ s req, c = .scheduleJob s req ∧ s.uuidParse req.jobID = some j ∧
      (perform c now locked db).1.result.isOk = true) ∨
    ¬ Quiet db j ∨ db.jobStatus j = some .running
  | .enqueueCleanup j st =>
    st = .completed ∧ (perform c now locked db).2.AllDone j ∨
    st = .failed ∧ (∃ cs t x, Changes now db cs (perform c now locked db).2 ∧
      .release t x .failed ∈ cs ∧ db.jobOf t = some j) ∨
    st = .cancelled ∧ (∃ s, c = .cancelJob s j) ∨
    ∃ ts, c = .finalizeJob j ts ∧ st = ts.status
  | _ => True

/-- JOBS.replica_index of a job. -/
def DB.owner (db : DB) (j : UUID) : Option Nat := (db.jobs.get? j).map JobRow.replicaIndex

/-- The replica that runs the call. -/
def Call.manager? : Call → Option Scheduler
  | .scheduleJob s _ | .getNextTask s _ _ _ _ | .renewLease s _ _ _ _ => some s
  | .completeTask s _ _ _ _ _ | .failTask s _ _ _ _ | .cancelJob s _ => some s
  | .failStaleTasks s _ _ | .recoverFailAttempts s | .recoverResetTasks s => some s
  | .recoverWorkerPools s => some s
  | .createJob _ _ | .finalizeJob _ _ | .failRunningAttemptsByJob _ => none

/-- Whose address a worker pool gets: that of the replica that ensures it. It has just scheduled
the job, or it owns the job. -/
def PoolOf (c : Call) (now : Time) (locked : Resource → Bool) (db : DB) : PostAction → Prop
  | .ensureWorkerPool j _ addr => ∃ s, c.manager? = some s ∧ addr = s.managerAddr ∧
    ((∃ req, c = .scheduleJob s req ∧ s.uuidParse req.jobID = some j ∧
        (perform c now locked db).1.result.isOk = true) ∨ db.owner j = some s.replicaIndex)
  | _ => True

/-- A heartbeat is stored after the commit of a renewal. -/
def StoreOf (c : Call) (now : Time) (locked : Resource → Bool) (db : DB) : PostAction → Prop
  | .storeHeartbeat a => (∃ s t lease sampled, c = .renewLease s t a lease sampled) ∧
    (perform c now locked db).1.result.isOk = true
  | _ => True

/-- What is known of an action that an operation leaves to be done. -/
theorem post_facts {c : Call} {act : PostAction} (ht : thread ∈ (perform c now locked db).1.post)
    (ha : act ∈ thread) :
    StoreOf c now locked db act ∧ Grounds c now locked db act ∧ PoolOf c now locked db act := by
  have hall : ∀ {α : Type} {f : α → Reply} {out : Outcome α},
      (perform c now locked db).1 = out.map f →
      (∀ th ∈ out.post, ∀ act ∈ th, StoreOf c now locked db act ∧
        Grounds c now locked db act ∧ PoolOf c now locked db act) →
      StoreOf c now locked db act ∧ Grounds c now locked db act ∧ PoolOf c now locked db act := by
    intro α f out hout hposts
    rw [hout] at ht
    exact hposts thread ht act ha
  cases c with
  | createJob s rec =>
    obtain ⟨out, hout, h | ⟨_, hpost, _⟩⟩ := performed (c := .createJob s rec) rfl createJob_changes
    · exact hall hout (by simp [h.2.1])
    · exact hall hout (by simp [hpost])
  | scheduleJob s req =>
    obtain ⟨out, hout, h | ⟨hok, j, cs, hj, hpost, _⟩⟩ :=
      performed (c := .scheduleJob s req) rfl scheduleJob_changes
    · exact hall hout (by simp [h.2.1])
    · refine hall hout ?_
      simp only [hpost, List.mem_singleton, forall_eq]
      have hres : (perform (.scheduleJob s req) now locked db).1.result.isOk = true := by
        rw [hout, Outcome.map, hok]
        rfl
      exact ⟨trivial, .inl ⟨s, req, rfl, hj, hres⟩, s, rfl, rfl, .inl ⟨req, rfl, hj, hres⟩⟩
  | getNextTask s j worker a lease =>
    obtain ⟨out, hout, h | h | ⟨_, _, h⟩⟩ := performed (c := .getNextTask s j worker a lease) rfl
        getNextTask_changes
    · exact hall hout (by simp [h.refused.2.1])
    · obtain ⟨_, _, ⟨_, hpost⟩ | ⟨_, hdone, _, hpost⟩⟩ := h.changes
      · exact hall hout (by simp [hpost])
      · refine hall hout ?_
        simp only [hpost, List.mem_singleton, forall_eq]
        exact ⟨trivial, .inl ⟨rfl, hdone⟩, trivial⟩
    · exact hall hout (by simp [h.post])
  | renewLease s t a lease sampled =>
    obtain ⟨out, hout, h | ⟨hok, hpost, _⟩⟩ :=
      performed (c := .renewLease s t a lease sampled) rfl renewLease_changes
    · exact hall hout (by simp [h.2.1])
    · refine hall hout ?_
      simp only [hpost, List.mem_singleton, forall_eq]
      have hres : (perform (.renewLease s t a lease sampled) now locked db).1.result.isOk =
          true := by
        rw [hout, Outcome.map, hok]
        rfl
      exact ⟨⟨⟨s, t, lease, sampled, rfl⟩, hres⟩, trivial, trivial⟩
  | completeTask s t a lease us cks =>
    obtain ⟨out, hout, h | ⟨_, _, h⟩⟩ :=
      performed (c := .completeTask s t a lease us cks) rfl completeTask_changes
    · exact hall hout (by simp [h.2.1])
    rcases h.course with ⟨_, hpost⟩ | ⟨hdone, _, hpost⟩
    · exact hall hout (by simp [hpost, StoreOf, Grounds, PoolOf])
    · refine hall hout ?_
      simp only [hpost, List.mem_singleton, forall_eq, List.forall_mem_cons]
      exact ⟨⟨trivial, trivial, trivial⟩, trivial, .inl ⟨rfl, hdone⟩, trivial⟩
  | failTask s t a lease reason =>
    obtain ⟨out, hout, h | ⟨j, status, h⟩⟩ :=
      performed (c := .failTask s t a lease reason) rfl failTask_changes
    · exact hall hout (by simp [h.2.1])
    rcases h.course with ⟨_, hpost⟩ | ⟨rfl, hcs, hpost⟩
    · exact hall hout (by simp [hpost, StoreOf, Grounds, PoolOf])
    · refine hall hout ?_
      simp only [hpost, List.mem_singleton, forall_eq, List.forall_mem_cons]
      exact ⟨⟨trivial, trivial, trivial⟩, trivial,
        .inr (.inl ⟨rfl, _, t, a, hcs, List.mem_cons_self, h.job⟩), trivial⟩
  | cancelJob s j =>
    obtain ⟨out, hout, h | ⟨_, _, _, _, hpost, _⟩⟩ :=
      performed (c := .cancelJob s j) rfl cancelJob_changes
    · exact hall hout (by simp [h.2])
    · refine hall hout ?_
      simp only [hpost, List.mem_singleton, forall_eq, List.mem_append, List.mem_map]
      rintro _ (⟨_, _, rfl⟩ | rfl)
      · exact ⟨trivial, trivial, trivial⟩
      · exact ⟨trivial, .inr (.inr (.inl ⟨rfl, s, rfl⟩)), trivial⟩
  | failStaleTasks s heartbeats clock =>
    obtain ⟨out, hout, _, hpost, hcs⟩ := performed (c := .failStaleTasks s heartbeats clock) rfl
      failStaleTasks_changes
    refine hall hout ?_
    rw [hpost]
    simp only [List.forall_mem_cons, List.forall_mem_map]
    constructor
    · intro j hj
      rcases (reapedBy_jobs rfl).2 j hj with hnil | ⟨rec, hrec, rfl, hstale, hmax⟩
      · cases hnil
      · obtain ⟨row, _, _, hrow, _, _, hj, _⟩ := QueryLemmas.staleTasks_mem hrec
        refine ⟨trivial, .inr (.inl ⟨rfl, _, _, _, hcs,
          List.mem_append_left _ (release_mem_reapChanges hrec hstale hmax), ?_⟩), trivial⟩
        rw [DB.jobOf, hrow, Option.map_some, hj]
    · intro j hj
      simp only [respawn, List.forall_mem_cons]
      refine ⟨⟨trivial, trivial, trivial⟩, ⟨trivial, trivial, trivial⟩, ?_, List.forall_mem_nil _⟩
      -- the job of a stale task that this replica selects
      rcases (reapedBy_jobs rfl).1 j hj with hnil | ⟨rec, hrec, rfl⟩
      · cases hnil
      · obtain ⟨row, _, jrow, hrow, _, hjrow, hj, _, hs, _, hr, _⟩ :=
          QueryLemmas.staleTasks_mem hrec
        refine ⟨trivial, .inr (.inl fun hq => ?_), s, rfl, rfl, .inr ?_⟩
        · rcases hq _ row hrow hj with h | h <;> rw [hs] at h <;> cases h
        · rw [DB.owner, hjrow, Option.map_some, hr]
  | finalizeJob j ts =>
    obtain ⟨out, hout, hpost | hpost, _⟩ :=
      performed (c := .finalizeJob j ts) rfl finalizeJob_changes
    · exact hall hout (by simp [hpost, StoreOf, Grounds, PoolOf])
    · refine hall hout ?_
      simp only [hpost, List.mem_singleton, forall_eq]
      exact ⟨trivial, .inr (.inr (.inr ⟨ts, rfl, rfl⟩)), trivial⟩
  | recoverFailAttempts s =>
    obtain ⟨out, hout, hpost, _⟩ :=
      performed (c := .recoverFailAttempts s) rfl recoverFailAttempts_changes
    exact hall hout (by simp [hpost])
  | recoverResetTasks s =>
    obtain ⟨out, hout, hpost, _⟩ :=
      performed (c := .recoverResetTasks s) rfl recoverResetTasks_changes
    exact hall hout (by simp [hpost])
  | recoverWorkerPools s =>
    obtain ⟨out, hout, _, hpost⟩ :=
      performed (c := .recoverWorkerPools s) rfl recoverWorkerPools_unchanged
    refine hall hout ?_
    simp only [hpost, List.mem_singleton, forall_eq, List.mem_flatMap, List.mem_map]
    rintro act ⟨_, ⟨row, hrow, rfl⟩, hact⟩
    obtain ⟨hrow, hrun⟩ := List.mem_filter.mp hrow
    simp only [List.mem_cons, List.not_mem_nil, or_false] at hact
    rcases hact with rfl | rfl
    · exact ⟨trivial, trivial, trivial⟩
    · obtain ⟨hst, hr⟩ := Bool.and_eq_true_iff.mp hrun
      refine ⟨trivial, .inr (.inr ?_), s, rfl, rfl, .inr ?_⟩
      · rw [DB.jobStatus, Table.mem_rows_iff.mp hrow, Option.map_some, of_decide_eq_true hst]
      · rw [DB.owner, Table.mem_rows_iff.mp hrow, Option.map_some, of_decide_eq_true hr]
  | failRunningAttemptsByJob j =>
    obtain ⟨out, hout, hpost, _⟩ :=
      performed (c := .failRunningAttemptsByJob j) rfl failRunningAttemptsByJob_changes
    exact hall hout (by simp [hpost])

theorem post_grounds {c : Call} {act : PostAction} (ht : thread ∈ (perform c now locked db).1.post)
    (ha : act ∈ thread) : Grounds c now locked db act :=
  (post_facts ht ha).2.1

theorem post_pools {c : Call} {act : PostAction} (ht : thread ∈ (perform c now locked db).1.post)
    (ha : act ∈ thread) : PoolOf c now locked db act :=
  (post_facts ht ha).2.2

/-! ## 4. Steps -/

/-- The job is closed, its tasks are settled and no pool of workers is about to be started
for it. -/
structure Ended (w : World) (j : UUID) : Prop where
  closed : Closed w.db j
  quiet : Quiet w.db j
  noPool : NoPool w j

theorem ended_db (h : Step w a w') (ho : orderly w a) (hcl : Closed w.db j) (hq : Quiet w.db j) :
    Closed w'.db j ∧ Quiet w'.db j := by
  rcases step_inserts h j with ⟨now, cs, hcs, _, hspare⟩ |
    ⟨s, req, now, locked, cs, rfl, hj, hok, _⟩
  · exact ended_changes hcs hspare hcl hq
  · exact absurd hcl (ho hok j hj)

/-- A step leaves a call of EnsureWorkerPool behind only for a job that is not over. -/
theorem noPool_step (h : Step w a w') (ho : orderly w a) (hcl : Closed w.db j) (hq : Quiet w.db j)
    (hn : NoPool w j) : NoPool w' j := by
  cases a with
  | call c now locked =>
    obtain ⟨_, _, _, _, _, hthreads⟩ := step_call h
    intro thread ht act ha hp
    rw [hthreads] at ht
    rcases List.mem_append.mp ht with ht | ht
    · exact hn thread ht act ha hp
    · cases act with
      | ensureWorkerPool =>
        cases hp
        rcases post_grounds ht ha with ⟨s, req, rfl, hj, hok⟩ | hnq | hrun
        · exact ho hok j hj hcl
        · exact hnq hq
        · obtain ⟨status, hs, _, hne⟩ := hcl
          cases hrun.symm.trans hs
          exact hne rfl
      | _ => cases hp
  | post i action now =>
    obtain ⟨rest, hi, _, _, _, _, hthreads⟩ := step_post h
    intro thread ht act ha hp
    rw [hthreads] at ht
    rcases List.mem_or_eq_of_mem_set ht with ht | rfl
    · exact hn thread ht act ha hp
    · exact hn _ (List.mem_of_getElem? hi) act (List.mem_cons_of_mem _ ha) hp
  | restart r =>
    rw [step_restart h]
    exact hn

theorem ended_step (hw : Ended w j) (h : Step w a w') (ho : orderly w a) : Ended w' j := by
  obtain ⟨hcl, hq⟩ := ended_db h ho hw.closed hw.quiet
  exact ⟨hcl, hq, noPool_step h ho hw.closed hw.quiet hw.noPool⟩

theorem spares_logs (h : c ∈ logs s es) : c.Spares j := by
  obtain ⟨e, rfl⟩ := mem_logs h
  trivial

/-- A cancellation settles every task of the job. -/
theorem quiet_of_cancel (h : Changes now db (cs ++ .cancel j :: logs s es) db')
    (hcs : cs = [] ∨ cs = [.setJob j .cleaning]) : Quiet db' j := by
  refine quiet_of_settles h (fun c hc => ?_) fun t row _ _ =>
    .inr ⟨.cancel j, List.mem_append_right _ List.mem_cons_self, rfl⟩
  rcases List.mem_append.mp hc with hc | hc
  · rcases hcs with rfl | rfl
    · cases hc
    · exact List.mem_singleton.mp hc ▸ trivial
  · rcases List.mem_cons.mp hc with rfl | hc
    · trivial
    · exact spares_logs hc

theorem setJob_notMem_logs {status : JobStatus} : Change.setJob j status ∉ logs s es := by
  intro h
  obtain ⟨e, he⟩ := mem_logs h
  cases he

theorem setJob_notMem_cons {status : JobStatus} (hc : Change.setJob j status ≠ c) :
    Change.setJob j status ∉ c :: logs s es := fun h =>
  (List.mem_cons.mp h).elim hc setJob_notMem_logs

/-- The one status that a transaction sets between its other change and its events. -/
theorem eq_of_setJob_mem {j' : UUID} {st st' : JobStatus} (hc : Change.setJob j st ≠ c)
    (h : Change.setJob j st ∈ c :: .setJob j' st' :: logs s es) : j = j' ∧ st = st' := by
  rcases List.mem_cons.mp h with h | h
  · exact absurd h hc
  rcases List.mem_cons.mp h with h | h
  · cases h
    exact ⟨rfl, rfl⟩
  · exact absurd h setJob_notMem_logs

theorem mem_reapChanges (h : c ∈ reapChanges s heartbeats clock recs) :
    ∃ rec ∈ recs, isStale s heartbeats clock rec = true ∧
      (MaxTaskAttempts ≤ rec.attemptCount ∧
          (c = .release rec.taskID rec.attemptID .failed ∨ c = .setJob rec.jobID .cleaning) ∨
        c = .release rec.taskID rec.attemptID .idle) := by
  obtain ⟨rec, hrec, hc⟩ := List.mem_flatMap.mp h
  split at hc
  · next hstale =>
    refine ⟨rec, hrec, hstale, ?_⟩
    split at hc
    · next hmax =>
      rcases List.mem_cons.mp hc with rfl | hc
      · exact .inl ⟨hmax, .inl rfl⟩
      · exact .inl ⟨hmax, .inr (List.mem_singleton.mp hc)⟩
    · exact .inr (List.mem_singleton.mp hc)
  · cases hc

section Closing

variable {w : World} {locked : Resource → Bool}

/-- If the operation closes the job, it leaves no task of it behind. -/
def ClosesQuiet (c : Call) (now : Time) (locked : Resource → Bool) (db : DB) (j : UUID) : Prop :=
  ¬ Closed db j → Closed (perform c now locked db).2 j → Quiet (perform c now locked db).2 j

/-- The job that a report closes is its own. -/
theorem Reported.closed {t a j' : UUID} {e : Event} {status : JobStatus} {closes : Prop}
    {out : Outcome Unit} (h : Reported s now db t a j' c e status closes out db')
    (hc : ∀ st, Change.setJob j st ≠ c) (hcl : ¬ Closed db j) (hcl' : Closed db' j) :
    j = j' ∧ closes ∧ Changes now db
      (c :: .setJob j' .cleaning :: logs s [e, .jobStateChanged j' .running .cleaning]) db' := by
  rcases h.course with ⟨hcs, _⟩ | ⟨hcloses, hcs, _⟩
  · obtain ⟨st, hst, _⟩ := status_switch (fun h => h.1 rfl) hcs hcl hcl'
    exact absurd hst (setJob_notMem_cons (hc st))
  · obtain ⟨st, hst, _⟩ := status_switch (fun h => h.1 rfl) hcs hcl hcl'
    exact ⟨(eq_of_setJob_mem (hc st) hst).1, hcloses, hcs⟩

theorem failTask_quiet {a : UUID} {reason : String}
    (ho : orderly w (.call (.failTask s t a lease reason) now locked)) :
    ClosesQuiet (.failTask s t a lease reason) now locked w.db j := by
  intro hcl hcl'
  obtain ⟨out, hout, hr | ⟨j', status, hr⟩⟩ :=
    performed (c := .failTask s t a lease reason) rfl failTask_changes
  · rw [hr.1] at hcl'
    exact absurd hcl' hcl
  · obtain ⟨rfl, rfl, hcs⟩ := hr.closed (by simp) hcl hcl'
    have hmax : MaxTaskAttempts ≤ w.db.attempts.rows.countP (fun b => decide (b.taskID = t)) := by
      cases hcs with
      | cons hstep _ =>
        obtain ⟨⟨_, _, _, hstatus⟩, _⟩ := hstep
        by_contra hmax
        rw [if_neg hmax] at hstatus
        cases hstatus
    have hokw : (perform (.failTask s t a lease reason) now locked w.db).1.result.isOk = true := by
      rw [hout, Outcome.map, hr.result]
      rfl
    refine quiet_of_settles hcs ?_ fun t' row ht' hj => ?_
    · refine List.forall_mem_cons.mpr ⟨trivial, List.forall_mem_cons.mpr ⟨trivial, ?_⟩⟩
      exact fun c hc => spares_logs hc
    · by_cases ht : t' = t
      · subst ht
        exact .inr ⟨_, List.mem_cons_self, rfl, rfl⟩
      · refine .inl (ho hokw hmax row (Table.mem_of_get? ht') ?_ ?_)
        · rw [hr.job, hj]
        · rw [Table.key_of_get? ht']
          exact ht

theorem failStaleTasks_quiet
    (ho : orderly w (.call (.failStaleTasks s heartbeats clock) now locked)) :
    ClosesQuiet (.failStaleTasks s heartbeats clock) now locked w.db j := by
  intro hcl hcl'
  obtain ⟨out, hout, _, _, hcs⟩ := performed (c := .failStaleTasks s heartbeats clock) rfl
    failStaleTasks_changes
  obtain ⟨st, hst, _⟩ := status_switch (fun h => h.1 rfl) hcs hcl hcl'
  have hlogs : ∀ {c : Change} {es es' : List Event}, c ∈ logs s es ++ logs s es' →
      ∃ e, c = .log e := fun hc => (List.mem_append.mp hc).elim mem_logs mem_logs
  rcases List.mem_append.mp hst with hst | hst
  · obtain ⟨rec, hrec, hstale, ⟨hmax, hc | hc⟩ | hc⟩ := mem_reapChanges hst
    · cases hc
    · cases hc
      have hlost : rec ∈ lostTasks s heartbeats clock now locked w.db :=
        List.mem_filter.mpr ⟨hrec, by rw [hstale, decide_eq_true hmax]; rfl⟩
      refine quiet_of_settles hcs (fun c hc => ?_) fun t row ht hj => ?_
      · rcases List.mem_append.mp hc with hc | hc
        · obtain ⟨_, _, _, ⟨_, rfl | rfl⟩ | rfl⟩ := mem_reapChanges hc <;> trivial
        · obtain ⟨e, rfl⟩ := hlogs hc
          trivial
      · rcases ho rec hlost row (Table.mem_of_get? ht) hj with hs | ⟨rec', hrec', ht'⟩
        · exact .inl hs
        · obtain ⟨hrec', hp⟩ := List.mem_filter.mp hrec'
          obtain ⟨hstale', hmax'⟩ := Bool.and_eq_true_iff.mp hp
          refine .inr ⟨_, List.mem_append_left _
            (release_mem_reapChanges hrec' hstale' (of_decide_eq_true hmax')), ?_, rfl⟩
          exact ht'.trans (Table.key_of_get? ht)
    · cases hc
  · obtain ⟨e, he⟩ := hlogs hst
    cases he

/-- The other ways to close a job need no condition. -/
theorem cancelJob_quiet : ClosesQuiet (.cancelJob s j) now locked db j := by
  intro hcl hcl'
  obtain ⟨_, _, hr | ⟨_, _, cs, _, _, hcs, hcases⟩⟩ :=
    performed (c := .cancelJob s j) rfl cancelJob_changes
  · rw [hr.1] at hcl'
    exact absurd hcl' hcl
  · exact quiet_of_cancel hcs (hcases.imp And.right And.right)

theorem completeTask_quiet {a : UUID} {us cks : List String} :
    ClosesQuiet (.completeTask s t a lease us cks) now locked db j := by
  intro hcl hcl'
  obtain ⟨_, _, hr | ⟨_, j', hr⟩⟩ :=
    performed (c := .completeTask s t a lease us cks) rfl completeTask_changes
  · rw [hr.1] at hcl'
    exact absurd hcl' hcl
  · obtain ⟨rfl, hdone, _⟩ := hr.closed (by simp) hcl hcl'
    exact quiet_of_allDone hdone

theorem getNextTask_quiet {worker : String} {a : UUID} :
    ClosesQuiet (.getNextTask s j worker a lease) now locked db j := by
  intro hcl hcl'
  obtain ⟨_, _, hr | hr | ⟨ty, row, hr⟩⟩ :=
    performed (c := .getNextTask s j worker a lease) rfl getNextTask_changes
  · rw [hr.refused.1] at hcl'
    exact absurd hcl' hcl
  · obtain ⟨tail, hcs, ⟨rfl, _⟩ | ⟨_, hdone, _⟩⟩ := hr.changes
    · obtain ⟨status, hst, _⟩ := status_switch (fun h => h.1 rfl) hcs hcl hcl'
      simp at hst
    · exact quiet_of_allDone hdone
  · -- a change to Running does not close the job
    obtain ⟨status, hst, _, hne⟩ := status_switch (fun h => h.1 rfl) hr.changes hcl hcl'
    exact absurd (setJob_handout hst).2 hne

end Closing

/-- A closed job has no Idle or In-Progress task, and no pool of workers is about to be
started for a terminal job. -/
structure Orderly (w : World) : Prop where
  quiet : ∀ j, Closed w.db j → Quiet w.db j
  noPool : ∀ j, Terminal w.db j → NoPool w j

theorem Orderly.ended (hw : Orderly w) (h : Terminal w.db j) : Ended w j :=
  ⟨h.closed, hw.quiet j h.closed, hw.noPool j h⟩

theorem orderly_initial (q : Option Nat) : Orderly (World.initial q) := by
  constructor
  · intro j h t row ht
    cases ht
  · rintro j ⟨status, hs, _⟩
    cases hs

theorem quiet_step (hw : Orderly w) (h : Step w a w') (ho : orderly w a) (hcl' : Closed w'.db j) :
    Quiet w'.db j := by
  by_cases hcl : Closed w.db j
  · exact (ended_db h ho hcl (hw.quiet j hcl)).2
  obtain ⟨now, cs, _, hcs, hm⟩ := step_changes h
  obtain ⟨status, hst, hp, hr⟩ := status_switch (fun h => h.1 rfl) hcs hcl hcl'
  rcases hm _ hst with ⟨hrun, _⟩ | ⟨_, hcloses⟩ | ⟨ts, now', locked, rfl, _⟩
  · exact absurd hrun hr
  · cases a with
    | call c now' locked =>
      obtain ⟨_, _, hdb, _⟩ := step_call h
      rw [hdb] at hcl' ⊢
      cases c with
      | getNextTask s j' worker x lease =>
        obtain rfl : j' = j := hcloses
        exact getNextTask_quiet hcl hcl'
      | cancelJob s j' =>
        obtain rfl : j' = j := hcloses
        exact cancelJob_quiet hcl hcl'
      | completeTask s t x lease us cks => exact completeTask_quiet hcl hcl'
      | failTask s t x lease reason => exact failTask_quiet ho hcl hcl'
      | failStaleTasks s heartbeats clock => exact failStaleTasks_quiet ho hcl hcl'
      | _ => exact hcloses.elim
    | _ => exact hcloses.elim
  · obtain ⟨_, _, hdb, _⟩ := step_call h
    obtain ⟨_, _, _, hsame | ⟨_, hclean, _⟩⟩ :=
      performed (c := .finalizeJob j ts) rfl finalizeJob_changes
    · rw [hdb, hsame] at hcl'
      exact absurd hcl' hcl
    · exact absurd ⟨_, hclean, nofun, nofun⟩ hcl

/-- A job becomes terminal by finalizeJob only. -/
theorem terminal_step (h : Step w a w') (hn : ¬ Terminal w.db j) (ht : Terminal w'.db j) :
    ∃ ts now locked, a = .call (.finalizeJob j ts) now locked ∧
      (perform (.finalizeJob j ts) now locked w.db).1.result.isOk = true := by
  obtain ⟨now, cs, _, hcs, hm⟩ := step_changes h
  obtain ⟨status, hst, hterm⟩ := status_switch (by rintro (h | h | h) <;> cases h) hcs hn ht
  rcases hm _ hst with ⟨rfl, _⟩ | ⟨rfl, _⟩ | ⟨ts, now', locked, rfl, _⟩
  · rcases hterm with h | h | h <;> cases h
  · rcases hterm with h | h | h <;> cases h
  · refine ⟨ts, now', locked, rfl, ?_⟩
    obtain ⟨_, _, hdb, _⟩ := step_call h
    obtain ⟨out, hout, _, hsame | ⟨hok, _⟩⟩ :=
      performed (c := .finalizeJob j ts) rfl finalizeJob_changes
    · rw [hdb, hsame] at ht
      exact absurd ht hn
    · rw [hout, Outcome.map, hok]
      rfl

theorem orderly_step (hw : Orderly w) (h : Step w a w') (ho : orderly w a) : Orderly w' := by
  refine ⟨fun j hcl => quiet_step hw h ho hcl, fun j ht => ?_⟩
  by_cases hterm : Terminal w.db j
  · exact (ended_step (hw.ended hterm) h ho).noPool
  · obtain ⟨ts, now, locked, rfl, hok⟩ := terminal_step h hterm ht
    have hn : NoPool w j := ho hok
    obtain ⟨_, _, _, _, _, hthreads⟩ := step_call h
    intro thread hth act ha hp
    rw [hthreads] at hth
    rcases List.mem_append.mp hth with hth | hth
    · exact hn thread hth act ha hp
    · obtain ⟨out, hout, hpost, _⟩ := performed (c := .finalizeJob j ts) rfl finalizeJob_changes
      rw [hout] at hth
      have hth : thread ∈ out.post := hth
      rcases hpost with hpost | hpost
      all_goals
        rw [hpost, List.mem_singleton] at hth
        rw [hth, List.mem_singleton] at ha
        rw [ha] at hp
        cases hp

/-- In a run whose steps are orderly, a terminal job has no Running attempt and no Idle or
In-Progress task, and in no continuation is a task of it handed out or EnsureWorkerPool
called for it. -/
theorem terminal_quiet {q : Option Nat} {as : List Label} {w : World} {j : UUID}
    (h : Run (Under Step orderly) (World.initial q) as w) (hj : Terminal w.db j) :
    (∀ x a, w.db.attempts.get? x = some a → w.db.jobOf a.taskID = some j →
      a.status ≠ .running) ∧
    (∀ t row, w.db.tasks.get? t = some row → row.jobID = j →
      row.status ≠ .idle ∧ row.status ≠ .inProgress) ∧
    ∀ as' v a v', Run (Under Step orderly) w as' v → Under Step orderly v a v' →
      (∀ i workers addr now, a ≠ .post i (.ensureWorkerPool j workers addr) now) ∧
      ∀ s j' worker x lease now locked task,
        a = .call (.getNextTask s j' worker x lease) now locked →
        (perform (.getNextTask s j' worker x lease) now locked v.db).1.result = .ok (.task task) →
        task.jobID ≠ j := by
  have hw : Orderly w := h.invariant (I := Orderly) (fun _ _ _ hv hs => orderly_step hv hs.1 hs.2)
    (orderly_initial q)
  have hq := hw.quiet j hj.closed
  have hstatus : ∀ {row : TaskRow}, Settled row →
      row.status ≠ .idle ∧ row.status ≠ .inProgress := by
    rintro row (hs | hs) <;> rw [hs] <;> exact ⟨nofun, nofun⟩
  refine ⟨fun x a hx ha hrun => ?_, fun t row ht hj => hstatus (hq t row ht hj), ?_⟩
  · obtain ⟨row, hc⟩ := (coherent_run h.of_under).linked.current x a hx hrun
    rw [DB.jobOf, hc.task] at ha
    exact (hstatus (hq _ row hc.task (Option.some.inj ha))).2 hc.status
  · intro as' v a v' hrun hstep
    have hv : Ended v j := hrun.invariant (I := fun v => Ended v j)
      (fun _ _ _ hv hs => ended_step hv hs.1 hs.2) (hw.ended hj)
    constructor
    · rintro i workers addr now rfl
      obtain ⟨rest, hi, _⟩ := step_post hstep.1
      exact hv.noPool _ (List.mem_of_getElem? hi) _ List.mem_cons_self rfl
    · rintro s j' worker x lease now locked task rfl hok rfl
      obtain ⟨row, hrow, hj, hidle, hjob, _⟩ := getNextTask_ok hok
      exact (hstatus (hv.quiet _ row hrow (hj.trans hjob.symm))).1 hidle

/-- Task 2 fails three times and its job is finalized, while task 3 was never assigned. -/
def siblingsRun : List Label :=
  smallStart ++
    [calling (.getNextTask soloReplica 1 "a" 10 20) 2,
      calling (.failTask soloReplica 2 10 20 "exit 1") 3,
      calling (.getNextTask soloReplica 1 "a" 11 21) 4,
      calling (.failTask soloReplica 2 11 21 "exit 1") 5,
      calling (.getNextTask soloReplica 1 "a" 12 22) 6,
      calling (.failTask soloReplica 2 12 22 "exit 1") 7,
      calling (.finalizeJob 1 .failed) 8]

theorem siblings_left :
    ∃ w, Run Step (World.initial none) siblingsRun w ∧ Terminal w.db 1 ∧
      ∃ row, w.db.tasks.get? 3 = some row ∧ row.jobID = 1 ∧ row.status = .idle := by
  obtain ⟨w, hw, hj, htask⟩ := (run_after (by decide) :
    ∃ w, Run Step _ siblingsRun w ∧ w.db.jobStatus 1 = some .failed ∧
      ((w.db.tasks.get? 3).map fun row => (row.jobID, row.status)) = some (1, .idle))
  obtain ⟨row, hrow, heq⟩ := Option.map_eq_some_iff.mp htask
  obtain ⟨hjob, hs⟩ := Prod.mk.inj heq
  exact ⟨w, hw, ⟨_, hj, .inr (.inl rfl)⟩, row, hrow, hjob, hs⟩

/-- All tasks are completed and the job is finalized. -/
def finishedRun : List Label :=
  smallStart ++
    [.post 3 (.ensureWorkerPool 1 2 "manager-0") 1,
      calling (.getNextTask soloReplica 1 "a" 10 20) 2,
      calling (.completeTask soloReplica 2 10 20 ["uri"] ["sum"]) 3,
      calling (.getNextTask soloReplica 1 "a" 11 21) 4,
      calling (.completeTask soloReplica 3 11 21 ["uri"] ["sum"]) 5,
      calling (.getNextTask soloReplica 1 "a" 12 22) 6,
      calling (.completeTask soloReplica 4 12 22 ["uri"] ["sum"]) 7,
      calling (.finalizeJob 1 .completed) 8]

theorem terminal_quiet_finished :
    ∃ w, Run (Under Step orderly) (World.initial none) finishedRun w ∧ Terminal w.db 1 ∧
      ∀ t row, w.db.tasks.get? t = some row → row.jobID = 1 →
        row.status ≠ .idle ∧ row.status ≠ .inProgress := by
  obtain ⟨w, hw, hj⟩ := (run_afterUnder (by decide) :
    ∃ w, Run (Under Step orderly) _ finishedRun w ∧ w.db.jobStatus 1 = some .completed)
  have hterm : Terminal w.db 1 := ⟨_, hj, .inl rfl⟩
  exact ⟨w, hw, hterm, (terminal_quiet hw hterm).2.1⟩

end KubeMapReduce
