import KubeMapReduce.Scheduler

/-!
# The task board

What the scheduler's transactions do to the store, in the terms of the component
itself: a task is assigned, completed or released, the empty reduces of a job are
completed, a job is cancelled, a replica is recovered, rows are added. `Change.apply`
is the new store and `Change.Guard` is what the transaction has checked before it
makes the change. The operations are shown to make only such changes elsewhere; the
invariants of the store are proved once for each change.
-/

namespace KubeMapReduce

open Tables Runs

variable {row : TaskRow} {now : Time} {a : AttemptRow} {Q : AttemptRow → Prop} {db' : DB}
  {j t x : UUID}

/-! ## 1. Writes of one row -/

namespace DB

def setTask (db : DB) (t : UUID) (c : Query.TaskSet) : DB :=
  { db with
    tasks := db.tasks.updateWhere (fun r => decide (r.taskID = t)) (TaskRow.set · c)
      (fun r _ => r.set_taskID c) }

def setAttempt (db : DB) (now : Time) (a : UUID) (c : Query.AttemptSet) : DB :=
  { db with
    attempts := db.attempts.updateWhere (fun r => decide (r.attemptID = a))
      (AttemptRow.set · now c) (fun r _ => r.set_attemptID now c) }

def setJob (db : DB) (now : Time) (j : UUID) (s : JobStatus) : DB :=
  { db with
    jobs := db.jobs.updateWhere (fun r => decide (r.jobID = j)) (JobRow.set · now s)
      (fun r _ => r.set_jobID now s) }

/-- Every Running attempt that satisfies `p` becomes Failed. -/
def failAttempts (db : DB) (now : Time) (p : AttemptRow → Bool) : DB :=
  { db with
    attempts := db.attempts.updateWhere (fun r => decide (r.status = .running) && p r)
      (AttemptRow.set · now (.finish .failed)) (fun r _ => r.set_attemptID now _) }

def setTasks (db : DB) (p : TaskRow → Bool) (c : Query.TaskSet) : DB :=
  { db with tasks := db.tasks.updateWhere p (TaskRow.set · c) (fun r _ => r.set_taskID c) }

variable (db : DB)

@[simp] theorem setTask_get? (t x : UUID) (c : Query.TaskSet) :
    (db.setTask t c).tasks.get? x =
      if x = t then (db.tasks.get? t).map (TaskRow.set · c) else db.tasks.get? x := by
  rw [setTask, Table.get?_update_key]

@[simp] theorem setTasks_get? (p : TaskRow → Bool) (c : Query.TaskSet) (x : UUID) :
    (db.setTasks p c).tasks.get? x =
      (db.tasks.get? x).map fun r => if p r then r.set c else r := by
  rw [setTasks, Table.get?_updateWhere]

theorem setTasks_cases {p : TaskRow → Bool} {c : Query.TaskSet}
    (h : (db.setTasks p c).tasks.get? x = some row) :
    ∃ row₀, db.tasks.get? x = some row₀ ∧
      (p row₀ = true ∧ row = row₀.set c ∨ p row₀ = false ∧ row = row₀) := by
  rw [setTasks_get?] at h
  obtain ⟨row₀, hrow₀, heq⟩ := Option.map_eq_some_iff.mp h
  cases hp : p row₀ with
  | true => exact ⟨row₀, hrow₀, .inl ⟨hp, by rw [← heq, hp]; rfl⟩⟩
  | false => exact ⟨row₀, hrow₀, .inr ⟨hp, by rw [← heq, hp]; rfl⟩⟩

theorem setTasks_jobOf (p : TaskRow → Bool) (c : Query.TaskSet) (t : UUID) :
    (db.setTasks p c).jobOf t = db.jobOf t := by
  rw [jobOf, setTasks_get?, Option.map_map, jobOf]
  congr 1
  funext row
  dsimp only [Function.comp_apply]
  split <;> rfl

@[simp] theorem setAttempt_get? (now : Time) (a x : UUID) (c : Query.AttemptSet) :
    (db.setAttempt now a c).attempts.get? x =
      if x = a then (db.attempts.get? a).map (AttemptRow.set · now c) else db.attempts.get? x := by
  rw [setAttempt, Table.get?_update_key]

@[simp] theorem failAttempts_get? (now : Time) (p : AttemptRow → Bool) (x : UUID) :
    (db.failAttempts now p).attempts.get? x =
      (db.attempts.get? x).map fun r =>
        if decide (r.status = .running) && p r then r.set now (.finish .failed) else r := by
  rw [failAttempts, Table.get?_updateWhere]

theorem setAttempt_some {y : UUID} {c : Query.AttemptSet} (h : db.attempts.get? x = some a)
    (hset : x = y → Q (a.set now c)) (hkeep : x ≠ y → Q a) :
    ∃ a', (db.setAttempt now y c).attempts.get? x = some a' ∧ Q a' := by
  rw [setAttempt_get?]
  split
  · next he =>
    rw [← he, h]
    exact ⟨_, rfl, hset he⟩
  · next he => exact ⟨a, h, hkeep he⟩

theorem failAttempts_some {p : AttemptRow → Bool} (h : db.attempts.get? x = some a)
    (hset : a.status = .running → p a = true → Q (a.set now (.finish .failed)))
    (hkeep : (a.status = .running → p a = false) → Q a) :
    ∃ a', (db.failAttempts now p).attempts.get? x = some a' ∧ Q a' := by
  rw [failAttempts_get?, h]
  refine ⟨_, rfl, ?_⟩
  dsimp only
  split
  · next hp =>
    obtain ⟨hrun, hp⟩ := Bool.and_eq_true_iff.mp hp
    exact hset (of_decide_eq_true hrun) hp
  · next hp =>
    refine hkeep fun hrun => ?_
    rwa [decide_eq_true hrun, Bool.true_and, Bool.not_eq_true] at hp

@[simp] theorem setJob_get? (now : Time) (j x : UUID) (s : JobStatus) :
    (db.setJob now j s).jobs.get? x =
      if x = j then (db.jobs.get? j).map (JobRow.set · now s) else db.jobs.get? x := by
  rw [setJob, Table.get?_update_key]

/-- The replica of the job of a task. -/
def replicaOf (t : UUID) : Option Nat :=
  ((db.jobOf t).bind db.jobs.get?).map JobRow.replicaIndex

/-- All Map tasks of the job are Completed. -/
def MapsDone (j : UUID) : Prop :=
  ∀ t row, db.tasks.get? t = some row → row.jobID = j → row.taskType = .map →
    row.status = .completed

end DB

/-! ## 2. Changes -/

inductive Change where
  | assign (taskID : UUID) (attempt : AttemptRow) (replicaIndex : Nat)
  | complete (taskID attemptID leaseID : UUID) (skewSeconds : Nat) (rows : List OutputRow)
  | release (taskID attemptID : UUID) (status : TaskStatus)
  | completeEmpty (jobID : UUID)
  | cancel (jobID : UUID)
  | failAttempts (jobID : UUID)
  | failReplica (replicaIndex : Nat)
  | resetReplica (replicaIndex : Nat)
  | renew (attemptID : UUID)
  | setJob (jobID : UUID) (status : JobStatus)
  | addJob (row : JobRow)
  | addConfig (row : JobConfigRow)
  | addTask (row : TaskRow)
  | addInput (row : TaskInputRow)
  | log (event : Event)

variable {c : Change} {cs : List Change}

namespace Change

def apply (now : Time) (db : DB) : Change → DB
  | assign t a _ =>
    let db := db.setTask t ⟨.inProgress, fun _ => some a.attemptID⟩
    { db with attempts := db.attempts.insert a }
  | complete t a _ _ rows =>
    let db := (db.setTask t ⟨.completed, fun _ => none⟩).setAttempt now a (.finish .success)
    { db with outputs := db.outputs ++ rows }
  | release t a status =>
    (db.setTask t ⟨status, fun _ => none⟩).setAttempt now a (.finish .failed)
  | completeEmpty j =>
    db.setTasks
      (fun t => decide (t.jobID = j) && decide (t.taskType = .reduce) &&
        decide (t.status = .idle) && (db.mapOutputs t.jobID t.replicaIndex).isEmpty)
      ⟨.completed, fun _ => none⟩
  | cancel j =>
    let db := db.setTasks (fun t => decide (t.jobID = j) && decide (t.status ≠ .completed))
      ⟨.failed, id⟩
    db.failAttempts now fun a => decide (db.jobOf a.taskID = some j)
  | failAttempts j => db.failAttempts now fun a => decide (db.jobOf a.taskID = some j)
  | failReplica r =>
    db.failAttempts now fun a => decide (db.replicaOf a.taskID = some r)
  | resetReplica r =>
    db.setTasks
      (fun t => decide (t.status = .inProgress) &&
        decide ((db.jobs.get? t.jobID).map JobRow.replicaIndex = some r))
      ⟨.idle, fun _ => none⟩
  | renew a => db.setAttempt now a .renew
  | setJob j status => db.setJob now j status
  | addJob row => { db with jobs := db.jobs.insert row }
  | addConfig row => { db with jobConfigs := db.jobConfigs.insert row }
  | addTask row => { db with tasks := db.tasks.insert row }
  | addInput row => { db with taskInputs := db.taskInputs ++ [row] }
  | log event => { db with outbox := db.outbox ++ [event] }

/-- The task is In-Progress under this attempt, which exists. -/
structure Current (db : DB) (t a : UUID) (row : TaskRow) (att : AttemptRow) : Prop where
  task : db.tasks.get? t = some row
  status : row.status = .inProgress
  current : row.currentAttemptID = some a
  attempt : db.attempts.get? a = some att

/-- What the transaction has checked before it makes the change. -/
def Guard (now : Time) (db : DB) : Change → Prop
  | assign t a r => a.taskID = t ∧ a.status = .running ∧ db.attempts.get? a.attemptID = none ∧
      ∃ row, db.tasks.get? t = some row ∧ row.status = .idle ∧
        (db.jobs.get? row.jobID).map JobRow.replicaIndex = some r ∧
        (row.taskType = .reduce →
          db.MapsDone row.jobID ∧ db.mapOutputs row.jobID row.replicaIndex ≠ [])
  | complete t a lease skew rows => (∀ o ∈ rows, o.taskID = t) ∧
      ∃ row att, Current db t a row att ∧ att.leaseID = lease ∧
        now ≤ att.lastRenewedAt + (att.leaseTTL + skew) * second ∧
        (db.jobStatus row.jobID = some .running ∨ db.jobStatus row.jobID = some .pending)
  | release t a status =>
      ∃ row att, Current db t a row att ∧
        status = if MaxTaskAttempts ≤ db.attempts.rows.countP (fun b => decide (b.taskID = t))
          then .failed else .idle
  | completeEmpty j => db.MapsDone j
  | setJob j status => status ≠ .pending ∧ (status = .running →
      ∃ t row, db.tasks.get? t = some row ∧ row.jobID = j ∧ row.status = .inProgress)
  | addJob row => db.jobs.get? row.jobID = none ∧ row.status = .pending
  | addTask row => db.tasks.get? row.taskID = none ∧ row.status = .idle ∧
      row.currentAttemptID = none ∧ (db.jobs.get? row.jobID).isSome = true
  | _ => True

/-- The change is made after its checks. -/
def Step (now : Time) (db : DB) (c : Change) (db' : DB) : Prop :=
  c.Guard now db ∧ db' = c.apply now db

end Change

/-- The transaction makes these changes, in this order. -/
abbrev Changes (now : Time) : DB → List Change → DB → Prop := Run (Change.Step now)

/-- The invariant rule for the changes of a transaction. -/
theorem Changes.keeps {now : Time} {db db' : DB} {cs : List Change} {I : DB → Prop}
    (h : Changes now db cs db')
    (hstep : ∀ d c, c ∈ cs → c.Guard now d → I d → I (c.apply now d)) (hI : I db) : I db' := by
  refine h.under_mem.invariant (I := I) ?_ hI
  rintro d c _ hd ⟨⟨hg, rfl⟩, hc⟩
  exact hstep d c hc hg hd

/-! ## 3. One row through a change -/

namespace Change

variable {now : Time} {db : DB}

/-- The change writes the row of this task. -/
def Touches (db : DB) (row : TaskRow) : Change → Prop
  | assign t _ _ => row.taskID = t
  | complete t _ _ _ _ => row.taskID = t
  | release t _ _ => row.taskID = t
  | completeEmpty j => row.jobID = j ∧ row.taskType = .reduce ∧ row.status = .idle ∧
      db.mapOutputs row.jobID row.replicaIndex = []
  | cancel j => row.jobID = j ∧ row.status ≠ .completed
  | resetReplica r => row.status = .inProgress ∧
      (db.jobs.get? row.jobID).map JobRow.replicaIndex = some r
  | _ => False

/-- The change adds no task to the job. -/
def Spares (j : UUID) : Change → Prop
  | addTask row => row.jobID ≠ j
  | _ => True

/-- What the change writes into it. -/
def taskSet : Change → Query.TaskSet
  | assign _ a _ => ⟨.inProgress, fun _ => some a.attemptID⟩
  | complete _ _ _ _ _ => ⟨.completed, fun _ => none⟩
  | release _ _ status => ⟨status, fun _ => none⟩
  | completeEmpty _ => ⟨.completed, fun _ => none⟩
  | cancel _ => ⟨.failed, id⟩
  | _ => ⟨.idle, fun _ => none⟩

/-- The change ends this attempt, if it is Running. -/
def Stops (db : DB) (a : AttemptRow) : Change → Prop
  | complete _ x _ _ _ => a.attemptID = x
  | release _ x _ => a.attemptID = x
  | cancel j => db.jobOf a.taskID = some j
  | failAttempts j => db.jobOf a.taskID = some j
  | failReplica r => db.replicaOf a.taskID = some r
  | _ => False

/-- A change inserts a task, or writes the task rows that it touches. -/
theorem tasks_apply (c : Change) (now : Time) (db : DB) :
    (∃ row, c = addTask row) ∨ ∃ p : TaskRow → Bool, (∀ row, p row = true ↔ c.Touches db row) ∧
      ∀ t, (c.apply now db).tasks.get? t =
        (db.tasks.get? t).map fun row => if p row then row.set c.taskSet else row := by
  cases c with
  | assign | complete | release | completeEmpty | cancel | resetReplica =>
    refine .inr ⟨_, fun row => ?_, Table.get?_updateWhere db.tasks _ _ fun r _ => r.set_taskID _⟩
    simp [Touches, and_assoc]
  | addTask row => exact .inl ⟨row, rfl⟩
  | _ =>
    refine .inr ⟨fun _ => false, fun _ => iff_of_false Bool.false_ne_true id, fun t => ?_⟩
    exact (Option.map_id' (x := db.tasks.get? t)).symm

theorem task_touched (h : db.tasks.get? t = some row) (hc : c.Touches db row) :
    (c.apply now db).tasks.get? t = some (row.set c.taskSet) := by
  rcases c.tasks_apply now db with ⟨_, rfl⟩ | ⟨p, hp, hget⟩
  · exact hc.elim
  · rw [hget, h, Option.map_some, if_pos ((hp row).mpr hc)]

theorem task_untouched (h : db.tasks.get? t = some row) (hc : ¬ c.Touches db row) :
    (c.apply now db).tasks.get? t = some row := by
  rcases c.tasks_apply now db with ⟨_, rfl⟩ | ⟨p, hp, hget⟩
  · exact Table.get?_insert_of_some h
  · rw [hget, h, Option.map_some, if_neg fun hr => hc ((hp row).mp hr)]

/-- No change removes a task. -/
theorem task_none (h : (c.apply now db).tasks.get? t = none) : db.tasks.get? t = none := by
  cases hrow : db.tasks.get? t with
  | none => rfl
  | some row =>
    by_cases hc : c.Touches db row
    · exact absurd (h.symm.trans (task_touched hrow hc)) nofun
    · exact absurd (h.symm.trans (task_untouched hrow hc)) nofun

/-- Where a task row of the new store comes from. -/
theorem task_cases {row' : TaskRow} (h : (c.apply now db).tasks.get? t = some row') :
    c = addTask row' ∧ db.tasks.get? t = none ∨
    ∃ row, db.tasks.get? t = some row ∧
      (c.Touches db row ∧ row' = row.set c.taskSet ∨ ¬ c.Touches db row ∧ row' = row) := by
  cases hrow : db.tasks.get? t with
  | some row =>
    refine .inr ⟨row, rfl, ?_⟩
    by_cases hc : c.Touches db row
    · exact .inl ⟨hc, Option.some.inj (h.symm.trans (task_touched hrow hc))⟩
    · exact .inr ⟨hc, Option.some.inj (h.symm.trans (task_untouched hrow hc))⟩
  | none =>
    rcases c.tasks_apply now db with ⟨row, rfl⟩ | ⟨p, _, hget⟩
    · obtain rfl := Table.eq_of_insert hrow h
      exact .inl ⟨rfl, rfl⟩
    · rw [hget, hrow] at h
      cases h

/-- A change that writes a task row never finds it Completed. -/
theorem touched_status (hg : c.Guard now db) (h : db.tasks.get? t = some row)
    (hc : c.Touches db row) : row.status ≠ .completed := by
  cases c with
  | assign t' a r =>
    obtain ⟨_, _, _, row', ht', hs, _⟩ := hg
    rw [← Table.eq_of_get?_key h hc ht', hs]
    nofun
  | complete t' a lease skew rows =>
    obtain ⟨_, row', _, hcur, _⟩ := hg
    rw [← Table.eq_of_get?_key h hc hcur.task, hcur.status]
    nofun
  | release t' a status =>
    obtain ⟨row', _, hcur, _⟩ := hg
    rw [← Table.eq_of_get?_key h hc hcur.task, hcur.status]
    nofun
  | completeEmpty j => rw [hc.2.2.1]; nofun
  | cancel j => exact hc.2
  | resetReplica r => rw [hc.1]; nofun
  | _ => exact hc.elim

/-- A task that a change writes is In-Progress after an assignment only, and Completed after a
completion only. -/
theorem touched_cases (hg : c.Guard now db) (h : db.tasks.get? t = some row)
    (hc : c.Touches db row) :
    (∃ a r, c = assign t a r) ∨ (∃ x lease skew rows, c = complete t x lease skew rows) ∨
      (∃ j, c = completeEmpty j ∧ row.taskType = .reduce) ∨
      c.taskSet.status ≠ .inProgress ∧ c.taskSet.status ≠ .completed := by
  have hkey : row.taskID = t := Table.key_of_get? h
  cases c with
  | assign t' a r => exact .inl ⟨a, r, by rw [← hkey, (hc : row.taskID = t')]⟩
  | complete t' x lease skew rows =>
    exact .inr (.inl ⟨x, lease, skew, rows, by rw [← hkey, (hc : row.taskID = t')]⟩)
  | release t' x status =>
    obtain ⟨_, _, _, rfl⟩ := hg
    refine .inr (.inr (.inr ?_))
    dsimp only [taskSet]
    split <;> exact ⟨nofun, nofun⟩
  | completeEmpty j => exact .inr (.inr (.inl ⟨j, rfl, hc.2.1⟩))
  | cancel j => exact .inr (.inr (.inr ⟨nofun, nofun⟩))
  | resetReplica r => exact .inr (.inr (.inr ⟨nofun, nofun⟩))
  | _ => exact hc.elim

/-- A task is In-Progress because the change leaves it so, or because it was assigned. -/
theorem inProgress_cases {row' : TaskRow} (hg : c.Guard now db)
    (h : (c.apply now db).tasks.get? t = some row') (hs : row'.status = .inProgress) :
    db.tasks.get? t = some row' ∧ ¬ c.Touches db row' ∨
      ∃ a r, c = assign t a r ∧ row'.currentAttemptID = some a.attemptID := by
  rcases task_cases h with ⟨rfl, _⟩ | ⟨row, hrow, ⟨htouch, rfl⟩ | ⟨hn, rfl⟩⟩
  · cases hg.2.1.symm.trans hs
  · rcases touched_cases hg hrow htouch with
      ⟨a, r, rfl⟩ | ⟨_, _, _, _, rfl⟩ | ⟨_, rfl, _⟩ | ⟨hne, _⟩
    · exact .inr ⟨a, r, rfl, rfl⟩
    · cases hs
    · cases hs
    · exact absurd hs hne
  · exact .inl ⟨hrow, hn⟩

/-- Only a new attempt becomes current. -/
theorem current_cases {row' : TaskRow} (hg : c.Guard now db) (ha : db.attempts.get? x = some a)
    (h : (c.apply now db).tasks.get? t = some row') (hs : row'.status = .inProgress)
    (hcur : row'.currentAttemptID = some x) : db.tasks.get? t = some row' := by
  rcases inProgress_cases hg h hs with ⟨hrow, _⟩ | ⟨y, r, rfl, hy⟩
  · exact hrow
  · cases hcur.symm.trans hy
    cases hg.2.2.1.symm.trans ha

/-- A task keeps its job. -/
theorem jobOf_apply (c : Change) (h : db.jobOf t = some j) : (c.apply now db).jobOf t = some j := by
  obtain ⟨row, hrow, rfl⟩ := Option.map_eq_some_iff.mp h
  by_cases hc : c.Touches db row
  · rw [DB.jobOf, task_touched hrow hc]
    rfl
  · rw [DB.jobOf, task_untouched hrow hc]
    rfl

/-- What a change makes of a row of TASK_ATTEMPTS. The attempt keeps its task, and stays Running
unless the change ends it. Only a completion writes Success; Failed is written over Running, and by
a release of the attempt over any status. -/
structure Rewrites (c : Change) (now : Time) (db : DB) (a a' : AttemptRow) : Prop where
  task : a'.taskID = a.taskID
  running : a'.status = .running ↔ a.status = .running ∧ ¬ c.Stops db a
  renewed : a'.lastRenewedAt = a.lastRenewedAt ∨ c = renew a.attemptID ∧ a'.lastRenewedAt = now
  status : a'.status = a.status ∨
    a'.status = .success ∧ (∃ t lease skew rows, c = complete t a.attemptID lease skew rows) ∨
    a'.status = .failed ∧ (a.status = .running ∨ ∃ t status, c = release t a.attemptID status)

theorem rewrites_self (h : ¬ c.Stops db a) : c.Rewrites now db a a :=
  ⟨rfl, ⟨fun hr => ⟨hr, h⟩, And.left⟩, .inl rfl, .inl rfl⟩

theorem attempt_apply (c : Change) (now : Time) (h : db.attempts.get? x = some a) :
    ∃ a', (c.apply now db).attempts.get? x = some a' ∧ c.Rewrites now db a a' := by
  obtain rfl := Table.key_of_get? h
  have hfail : ∀ {d : DB} {p : AttemptRow → Bool}, d.attempts = db.attempts →
      (c.Stops db a ↔ p a = true) →
      ∃ a', (d.failAttempts now p).attempts.get? a.attemptID = some a' ∧
        c.Rewrites now db a a' := by
    intro d p hd hstop
    refine d.failAttempts_some (hd ▸ h) (fun hrun hp => ?_) fun hp => ?_
    · exact ⟨rfl, ⟨nofun, fun hr => absurd (hstop.mpr hp) hr.2⟩, .inl rfl,
        .inr (.inr ⟨rfl, .inl hrun⟩)⟩
    · refine ⟨rfl, ⟨fun hr => ⟨hr, fun hc => ?_⟩, And.left⟩, .inl rfl, .inl rfl⟩
      exact absurd (hstop.mp hc) (Bool.eq_false_iff.mp (hp hr))
  cases c with
  | assign t a' r => exact ⟨a, Table.get?_insert_of_some h, rewrites_self nofun⟩
  | complete t y lease skew rows =>
    refine DB.setAttempt_some (db.setTask t _) h ?_ fun hne => rewrites_self hne
    rintro rfl
    exact ⟨rfl, ⟨nofun, fun hr => absurd rfl hr.2⟩, .inl rfl,
      .inr (.inl ⟨rfl, t, lease, skew, rows, rfl⟩)⟩
  | release t y status =>
    refine DB.setAttempt_some (db.setTask t _) h ?_ fun hne => rewrites_self hne
    rintro rfl
    exact ⟨rfl, ⟨nofun, fun hr => absurd rfl hr.2⟩, .inl rfl,
      .inr (.inr ⟨rfl, .inr ⟨t, status, rfl⟩⟩)⟩
  | cancel j =>
    refine hfail rfl ?_
    rw [DB.setTasks_jobOf, decide_eq_true_eq]
    exact Iff.rfl
  | failAttempts j | failReplica r =>
    refine hfail rfl ?_
    rw [decide_eq_true_eq]
    exact Iff.rfl
  | renew y =>
    refine db.setAttempt_some h ?_ fun _ => rewrites_self nofun
    rintro rfl
    exact ⟨rfl, ⟨fun hr => ⟨hr, nofun⟩, And.left⟩, .inr ⟨rfl, rfl⟩, .inl rfl⟩
  | _ => exact ⟨a, h, rewrites_self nofun⟩

/-- An attempt is added by an assignment only. -/
theorem attempt_cases (h : (c.apply now db).attempts.get? x = some a)
    (hx : db.attempts.get? x = none) : ∃ t r, c = assign t a r := by
  have hset : ∀ {p : AttemptRow → Bool} {set : Query.AttemptSet},
      (db.attempts.updateWhere p (AttemptRow.set · now set)
        fun r _ => r.set_attemptID now set).get? x ≠ some a := by
    intro p set hs
    rw [Table.get?_updateWhere, hx] at hs
    cases hs
  cases c with
  | assign t a' r =>
    obtain rfl := Table.eq_of_insert hx h
    exact ⟨t, r, rfl⟩
  | complete | release | renew | cancel | failAttempts | failReplica => exact absurd h hset
  | _ => cases hx.symm.trans h

/-- A job keeps its replica, and its status changes by `setJob` only. -/
theorem job_apply (c : Change) (now : Time) {row : JobRow} (h : db.jobs.get? j = some row) :
    ∃ row', (c.apply now db).jobs.get? j = some row' ∧ row'.replicaIndex = row.replicaIndex ∧
      (row'.status = row.status ∨ c = setJob j row'.status) := by
  cases c with
  | setJob j' status =>
    show ∃ row', (db.setJob now j' status).jobs.get? j = some row' ∧ _
    rw [DB.setJob_get?]
    split
    · next he =>
      subst he
      rw [h]
      exact ⟨_, rfl, rfl, .inr rfl⟩
    · exact ⟨row, h, rfl, .inl rfl⟩
  | addJob row' => exact ⟨row, Table.get?_insert_of_some h, rfl, .inl rfl⟩
  | _ => exact ⟨row, h, rfl, .inl rfl⟩

/-- A job is added by `addJob` only. -/
theorem job_cases {row : JobRow} (h : (c.apply now db).jobs.get? j = some row)
    (hj : db.jobs.get? j = none) : c = addJob row := by
  cases c with
  | setJob j' status =>
    rw [apply, DB.setJob, Table.get?_updateWhere, hj] at h
    cases h
  | addJob row' => rw [Table.eq_of_insert hj h]
  | _ => cases hj.symm.trans h

end Change

theorem changes_jobOf {db : DB} (h : Changes now db cs db') (hj : db.jobOf t = some j) :
    db'.jobOf t = some j := by
  refine h.keeps (I := fun d => d.jobOf t = some j) ?_ hj
  rintro d c _ _ hd
  exact c.jobOf_apply hd

/-! ## 4. The rows that are added -/

/-- What no change writes in a row of TASKS. -/
def TaskRow.ident (row : TaskRow) : UUID × UUID × TaskType × Nat :=
  (row.taskID, row.jobID, row.taskType, row.replicaIndex)

def Change.addedTask : Change → Option TaskRow
  | addTask row => some row
  | _ => none

def Change.addedConfig : Change → Option JobConfigRow
  | addConfig row => some row
  | _ => none

/-- The rows of TASKS that the changes add. -/
def addedTasks (cs : List Change) : List TaskRow := cs.filterMap Change.addedTask

/-- The rows of JOB_CONFIGS that the changes add, if their jobs have none. -/
def addedConfigs (cs : List Change) : List JobConfigRow := cs.filterMap Change.addedConfig

theorem addedTasks_append (cs cs' : List Change) :
    addedTasks (cs ++ cs') = addedTasks cs ++ addedTasks cs' :=
  List.filterMap_append

theorem addedConfigs_append (cs cs' : List Change) :
    addedConfigs (cs ++ cs') = addedConfigs cs ++ addedConfigs cs' :=
  List.filterMap_append

theorem mem_addedTasks : row ∈ addedTasks cs ↔ .addTask row ∈ cs := by
  rw [addedTasks, List.mem_filterMap]
  constructor
  · rintro ⟨c, hc, he⟩
    cases c with
    | addTask row' =>
      cases he
      exact hc
    | _ => cases he
  · exact fun h => ⟨_, h, rfl⟩

theorem updateWhere_ident (t : Table TaskRow.taskID) (p : TaskRow → Bool) (c : Query.TaskSet)
    (hf : ∀ r, p r = true → (TaskRow.set r c).taskID = r.taskID) :
    (t.updateWhere p (TaskRow.set · c) hf).rows.map TaskRow.ident = t.rows.map TaskRow.ident := by
  unfold Table.updateWhere
  rw [List.map_map]
  refine List.map_congr_left fun r _ => ?_
  dsimp only [Function.comp_apply]
  split <;> rfl

theorem ident_apply {db : DB} (hg : c.Guard now db) :
    (c.apply now db).tasks.rows.map TaskRow.ident =
      db.tasks.rows.map TaskRow.ident ++ (addedTasks [c]).map TaskRow.ident := by
  cases c with
  | assign | complete | release | completeEmpty | cancel | resetReplica =>
    rw [show addedTasks _ = [] from rfl, List.map_nil, List.append_nil]
    exact updateWhere_ident _ _ _ fun r _ => r.set_taskID _
  | addTask row =>
    show (db.tasks.insert row).rows.map TaskRow.ident = _
    rw [Table.rows_insert hg.1, List.map_append]
    rfl
  | _ => exact (List.append_nil _).symm

/-- The rows of TASKS through the changes of a transaction. -/
theorem ident_changes {db : DB} (h : Changes now db cs db') :
    db'.tasks.rows.map TaskRow.ident =
      db.tasks.rows.map TaskRow.ident ++ (addedTasks cs).map TaskRow.ident := by
  induction h with
  | nil => exact (List.append_nil _).symm
  | @cons d _ _ c cs hstep _ ih =>
    obtain ⟨hg, rfl⟩ := hstep
    rw [ih, ident_apply hg, List.append_assoc, ← List.map_append, ← addedTasks_append]
    rfl

/-- The rows of JOB_CONFIGS through the changes of a transaction. -/
theorem configs_changes {db : DB} (h : Changes now db cs db') :
    db'.jobConfigs = (addedConfigs cs).foldl Table.insert db.jobConfigs := by
  induction h with
  | nil => rfl
  | @cons d _ _ c cs hstep _ ih =>
    obtain ⟨_, rfl⟩ := hstep
    rw [ih]
    cases c <;> rfl

end KubeMapReduce
