import KubeMapReduce.Schema
import KubeMapReduce.Lib.Transaction

/-!
# The scheduler's SQL statements

One constructor of `Query` per statement the scheduler and the API's CreateJob issue
inside a transaction, under the name of its constant. A statement is given by its
clauses:

* `jobWhere`, `taskWhere`, `attemptWhere`: the rows that its WHERE clause matches and
  that it locks and waits for (UPDATE and FOR UPDATE);
* `jobSet`, `taskSet`, `attemptSet`: its SET clause, `none` if it does not write
  that table;
* `insert`: the rows it inserts;
* `answer`: the rows or the count it returns.

`sem` puts them together. `Query.apply` is the whole change that a statement makes in
one piece, and `lawful` shows that a statement which has locked its rows makes that
change.
-/

namespace KubeMapReduce

open Tables Transactions

/-- What a session can lock: a row of JOBS, TASKS or TASK_ATTEMPTS, or the advisory
lock 42. -/
inductive Resource where
  | job (jobID : UUID)
  | task (taskID : UUID)
  | attempt (attemptID : UUID)
  | scheduling
deriving DecidableEq

/-- A row of QuerySelectStaleTasks. -/
structure StaleRec where
  taskID : UUID
  attemptID : UUID
  jobID : UUID
  attemptCount : Nat
  lastRenewedAt : Time
  leaseTTL : Nat
deriving DecidableEq

/-- A row of QueryGetReduceTaskInputs. -/
structure TaskOutputRef where
  partitionIndex : Nat
  outputURI : String
  checksum : String
deriving DecidableEq

inductive Query where
  -- GetNextTask
  | getMaxConcurrentPods
  | acquireSchedulingLock
  | countRunningAttempts
  | countFailedTasks (jobID : UUID)
  | getReplicaIndex (jobID : UUID)
  | selectIdleTask (jobID : UUID) (replicaIndex : Nat) (taskType : TaskType)
  | countPendingTasksByType (jobID : UUID) (taskType : TaskType)
  | countAllPendingTasks (jobID : UUID)
  -- task state
  | updateTaskInProgress (attemptID taskID : UUID)
  | insertAttempt (attemptID taskID : UUID) (workerID : String) (leaseID : UUID)
      (leaseTTL : Nat) (leaseTTL_pos : 0 < leaseTTL)
  | getJobConfigByTask (taskID : UUID)
  | getTaskInputs (taskID : UUID)
  | getReduceTaskInputs (taskID : UUID)
  | completeEmptyReduceTasks (jobID : UUID)
  | selectTaskForUpdate (taskID : UUID)
  | completeTask (taskID : UUID)
  | succeedAttempt (attemptID : UUID)
  | insertOutputBulk (rows : List OutputRow)
  -- leases
  | checkLeaseValid (attemptID leaseID : UUID) (skewSeconds : Nat)
  | renewLease (attemptID : UUID)
  -- failure and recovery
  | countAttemptsByTask (taskID : UUID)
  | updateTaskStatus (status : TaskStatus) (taskID : UUID)
  | lockNonCompletedTasksByJob (jobID : UUID)
  | bulkFailNonCompletedTasksByJob (jobID : UUID)
  | failAttempt (attemptID : UUID)
  | failRunningAttemptsByJob (jobID : UUID)
  | selectRunningAttemptIDsByJob (jobID : UUID)
  | selectStaleTasks (replicaIndex : Nat)
  | failRunningAttemptsByReplica (replicaIndex : Nat)
  | resetTasksForReplica (replicaIndex : Nat)
  | selectRunningJobs (replicaIndex : Nat)
  -- job lifecycle
  | lockJobByTask (taskID : UUID)
  | getJobStatusForUpdate (jobID : UUID)
  | updateJobStatus (jobID : UUID) (status : JobStatus)
  | insertJob (jobID userID : UUID) (replicaIndex : Nat)
  | insertJobConfig (jobID : UUID) (inputURI mapperURI reducerURI combinerURI : String)
      (mTasks rTasks : Int) (inputChecksum : String)
  | insertTask (taskID jobID : UUID) (taskType : TaskType) (replicaIndex : Int)
  | insertTaskInput (taskID : UUID) (inputURI : String) (byteStart byteEnd : Int)
      (splitChecksum : String)
  | insertAPIJob (jobID userID : UUID) (createdAt : Time) (replicaIndex : Nat)
  | insertAPIJobConfig (jobID : UUID) (inputURI mapperURI reducerURI combinerURI : String)
      (mTasks rTasks : Int) (inputChecksum : String)
  -- outbox
  | insertEvent (event : Event)

namespace Query

/-- What a statement returns. An INSERT returns whether it met the constraints. -/
abbrev Ans : Query → Type
  | getMaxConcurrentPods | getReplicaIndex _ => Option Nat
  | countRunningAttempts | countFailedTasks _ | countPendingTasksByType _ _
  | countAllPendingTasks _ | countAttemptsByTask _ | updateTaskInProgress _ _ => Nat
  | selectIdleTask _ _ _ => Option TaskRow
  | getJobConfigByTask _ => Option JobConfigRow
  | getTaskInputs _ => List TaskInputRow
  | getReduceTaskInputs _ => List TaskOutputRef
  | completeEmptyReduceTasks _ | selectRunningAttemptIDsByJob _ | selectRunningJobs _ => List UUID
  | selectTaskForUpdate _ => Option (TaskStatus × Option UUID × UUID)
  | checkLeaseValid _ _ _ => Option Bool
  | selectStaleTasks _ => List StaleRec
  | lockJobByTask _ => Option (UUID × JobStatus)
  | getJobStatusForUpdate _ => Option JobStatus
  | insertAttempt _ _ _ _ _ _ | insertJobConfig _ _ _ _ _ _ _ _ | insertTask _ _ _ _
  | insertTaskInput _ _ _ _ _ | insertAPIJob _ _ _ _ | insertAPIJobConfig _ _ _ _ _ _ _ _ => Bool
  | _ => Unit

/-! ## WHERE and SET clauses -/

/-- The JOBS rows that the statement locks. -/
def jobWhere (db : DB) : Query → JobRow → Bool
  | lockJobByTask t, j => decide (db.jobOf t = some j.jobID)
  | getJobStatusForUpdate id, j => decide (j.jobID = id)
  | updateJobStatus id _, j => decide (j.jobID = id)
  | _, _ => false

def jobSet : Query → Option JobStatus
  | updateJobStatus _ status => some status
  | _ => none

/-- The TASKS rows that the statement locks. -/
def taskWhere (db : DB) : Query → TaskRow → Bool
  | updateTaskInProgress _ id, t => decide (t.taskID = id) && decide (t.status = .idle)
  | completeEmptyReduceTasks job, t =>
    decide (t.jobID = job) && decide (t.taskType = .reduce) && decide (t.status = .idle) &&
      (db.mapOutputs t.jobID t.replicaIndex).isEmpty
  | selectTaskForUpdate id, t => decide (t.taskID = id)
  | completeTask id, t => decide (t.taskID = id)
  | updateTaskStatus _ id, t => decide (t.taskID = id)
  | lockNonCompletedTasksByJob job, t => decide (t.jobID = job) && decide (t.status ≠ .completed)
  | bulkFailNonCompletedTasksByJob job, t =>
    decide (t.jobID = job) && decide (t.status ≠ .completed)
  | resetTasksForReplica r, t =>
    decide (t.status = .inProgress) &&
      decide ((db.jobs.get? t.jobID).map JobRow.replicaIndex = some r)
  | _, _ => false

/-- SET status, and current_attempt_id by a function of its old value. -/
structure TaskSet where
  status : TaskStatus
  currentAttemptID : Option UUID → Option UUID

def taskSet : Query → Option TaskSet
  | updateTaskInProgress a _ => some ⟨.inProgress, fun _ => some a⟩
  | completeEmptyReduceTasks _ => some ⟨.completed, fun _ => none⟩
  | completeTask _ => some ⟨.completed, fun _ => none⟩
  | updateTaskStatus status _ => some ⟨status, fun _ => none⟩
  | bulkFailNonCompletedTasksByJob _ => some ⟨.failed, id⟩
  | resetTasksForReplica _ => some ⟨.idle, fun _ => none⟩
  | _ => none

/-- The TASK_ATTEMPTS rows that the statement locks. -/
def attemptWhere (db : DB) : Query → AttemptRow → Bool
  | succeedAttempt id, a => decide (a.attemptID = id)
  | renewLease id, a => decide (a.attemptID = id)
  | failAttempt id, a => decide (a.attemptID = id)
  | failRunningAttemptsByJob job, a =>
    decide (a.status = .running) && decide (db.jobOf a.taskID = some job)
  | failRunningAttemptsByReplica r, a =>
    decide (a.status = .running) &&
      decide (((db.jobOf a.taskID).bind db.jobs.get?).map JobRow.replicaIndex = some r)
  | _, _ => false

/-- SET status and end_time = NOW(), or SET last_renewed_at = NOW(). -/
inductive AttemptSet where
  | finish (status : AttemptStatus)
  | renew

def attemptSet : Query → Option AttemptSet
  | succeedAttempt _ => some (.finish .success)
  | renewLease _ => some .renew
  | failAttempt _ => some (.finish .failed)
  | failRunningAttemptsByJob _ => some (.finish .failed)
  | failRunningAttemptsByReplica _ => some (.finish .failed)
  | _ => none

/-! ## INSERT -/

/-- A JOB_CONFIGS row that passes the CHECK constraints. -/
def configRow (jobID : UUID) (inputURI mapperURI reducerURI combinerURI : String)
    (mTasks rTasks : Int) (inputChecksum : String) : Option JobConfigRow :=
  if h : 0 < mTasks ∧ 0 < rTasks then
    some ⟨jobID, inputURI, mapperURI, reducerURI, combinerURI, mTasks.toNat, rTasks.toNat,
      inputChecksum, Int.pos_iff_toNat_pos.mp h.1, Int.pos_iff_toNat_pos.mp h.2⟩
  else none

/-- A TASK_INPUTS row that passes the CHECK constraints. -/
def inputRow (taskID : UUID) (inputURI : String) (byteStart byteEnd : Int)
    (splitChecksum : String) : Option TaskInputRow :=
  if h : 0 ≤ byteStart ∧ byteStart ≤ byteEnd then
    some ⟨taskID, inputURI, byteStart.toNat, byteEnd.toNat, splitChecksum,
      Int.toNat_le_toNat h.2⟩
  else none

/-- The rows that the statement adds. A row whose primary key is taken is not
added. -/
def insert (now : Time) (db : DB) : Query → DB
  | insertAttempt a t worker lease ttl ttl_pos =>
    let row : AttemptRow := ⟨a, t, worker, lease, now, ttl, now, none, .running, ttl_pos⟩
    { db with attempts := db.attempts.insert row }
  | insertOutputBulk rows => { db with outputs := db.outputs ++ rows }
  | insertJob job user replica =>
    { db with jobs := db.jobs.insert ⟨job, user, .pending, replica, now, now⟩ }
  | insertAPIJob job user createdAt replica =>
    { db with jobs := db.jobs.insert ⟨job, user, .pending, replica, createdAt, createdAt⟩ }
  | insertJobConfig job input mapper reducer combiner m r checksum
  | insertAPIJobConfig job input mapper reducer combiner m r checksum =>
    match configRow job input mapper reducer combiner m r checksum with
    | some row => { db with jobConfigs := db.jobConfigs.insert row }
    | none => db
  | insertTask t job ty replica =>
    { db with tasks := db.tasks.insert ⟨t, job, ty, .idle, replica.toNat, none⟩ }
  | insertTaskInput t uri lo hi checksum =>
    { db with taskInputs := db.taskInputs ++ (inputRow t uri lo hi checksum).toList }
  | insertEvent e => { db with outbox := db.outbox ++ [e] }
  | _ => db

/-! ## The change of a statement -/

end Query

/-- SET status = s, updated_at = NOW(). -/
def JobRow.set (j : JobRow) (now : Time) (s : JobStatus) : JobRow :=
  { j with status := s, updatedAt := now }

def TaskRow.set (t : TaskRow) (c : Query.TaskSet) : TaskRow :=
  { t with status := c.status, currentAttemptID := c.currentAttemptID t.currentAttemptID }

def AttemptRow.set (a : AttemptRow) (now : Time) : Query.AttemptSet → AttemptRow
  | .finish status => { a with status := status, endTime := some now }
  | .renew => { a with lastRenewedAt := now }

@[simp] theorem JobRow.set_jobID (j : JobRow) (now : Time) (s : JobStatus) :
    (j.set now s).jobID = j.jobID := rfl

@[simp] theorem TaskRow.set_taskID (t : TaskRow) (c : Query.TaskSet) :
    (t.set c).taskID = t.taskID := rfl

@[simp] theorem AttemptRow.set_attemptID (a : AttemptRow) (now : Time) (c : Query.AttemptSet) :
    (a.set now c).attemptID = a.attemptID := by
  cases c <;> rfl

@[simp] theorem AttemptRow.set_taskID (a : AttemptRow) (now : Time) (c : Query.AttemptSet) :
    (a.set now c).taskID = a.taskID := by
  cases c <;> rfl

namespace Query

/-- Change the given rows by the SET clauses, then insert. -/
def write (q : Query) (now : Time) (pj : JobRow → Bool) (pt : TaskRow → Bool)
    (pa : AttemptRow → Bool) (db : DB) : DB :=
  q.insert now
    { db with
      jobs :=
        match q.jobSet with
        | none => db.jobs
        | some s => db.jobs.updateWhere pj (JobRow.set · now s) (fun r _ => r.set_jobID now s)
      tasks :=
        match q.taskSet with
        | none => db.tasks
        | some c => db.tasks.updateWhere pt (TaskRow.set · c) (fun r _ => r.set_taskID c)
      attempts :=
        match q.attemptSet with
        | none => db.attempts
        | some c =>
          db.attempts.updateWhere pa (AttemptRow.set · now c) (fun r _ => r.set_attemptID now c) }

/-- The statement in one piece. -/
def apply (q : Query) (now : Time) (db : DB) : DB :=
  q.write now (q.jobWhere db) (q.taskWhere db) (q.attemptWhere db) db

/-- The rows of `db` that the WHERE clause matches among the rows that were locked. -/
def matchedJobs (q : Query) (scan : Resource → Bool) (db : DB) : List JobRow :=
  db.jobs.rows.filter fun j => q.jobWhere db j && scan (.job j.jobID)

def matchedTasks (q : Query) (scan : Resource → Bool) (db : DB) : List TaskRow :=
  db.tasks.rows.filter fun t => q.taskWhere db t && scan (.task t.taskID)

def matchedAttempts (q : Query) (scan : Resource → Bool) (db : DB) : List AttemptRow :=
  db.attempts.rows.filter fun a => q.attemptWhere db a && scan (.attempt a.attemptID)

/-- The change that the statement, evaluated on `view`, makes to its rows. -/
def effect (q : Query) (env : Env Resource) (view : DB) : DB → DB :=
  q.write env.now
    (fun j => decide (j.jobID ∈ (q.matchedJobs env.scan view).map JobRow.jobID))
    (fun t => decide (t.taskID ∈ (q.matchedTasks env.scan view).map TaskRow.taskID))
    (fun a => decide (a.attemptID ∈ (q.matchedAttempts env.scan view).map AttemptRow.attemptID))

/-- The rows that the statement waits for. -/
def waitRows (q : Query) (db : DB) : List Resource :=
  (db.jobs.rows.filter (q.jobWhere db)).map (Resource.job ·.jobID) ++
  (db.tasks.rows.filter (q.taskWhere db)).map (Resource.task ·.taskID) ++
  (db.attempts.rows.filter (q.attemptWhere db)).map (Resource.attempt ·.attemptID) ++
  match q with
  | acquireSchedulingLock => [.scheduling]
  | _ => []

end Query

/-! ## What a statement returns -/

/-- ORDER BY replica_index ASC, task_id ASC. -/
def TaskRow.before (t u : TaskRow) : Bool :=
  decide (t.replicaIndex < u.replicaIndex) ||
    (decide (t.replicaIndex = u.replicaIndex) && decide (t.taskID ≤ u.taskID))

/-- LIMIT 1 of the ordered rows. -/
def firstTask : List TaskRow → Option TaskRow
  | [] => none
  | t :: ts =>
    match firstTask ts with
    | none => some t
    | some u => some (if t.before u then t else u)

/-- The rows of QuerySelectStaleTasks. -/
def staleTasks (r : Nat) (env : Env Resource) (db : DB) : List StaleRec :=
  db.tasks.rows.filterMap fun t =>
    match t.currentAttemptID.bind db.attempts.get?, db.jobs.get? t.jobID with
    | some a, some j =>
      if t.status = .inProgress ∧ a.status = .running ∧ j.replicaIndex = r ∧
          env.locked (.task t.taskID) = false then
        some ⟨t.taskID, a.attemptID, t.jobID,
          db.attempts.rows.countP (fun b => decide (b.taskID = t.taskID)), a.lastRenewedAt,
          a.leaseTTL⟩
      else none
    | _, _ => none

/-- The rows of QuerySelectIdleTask. -/
def idleTasks (job : UUID) (r : Nat) (ty : TaskType) (env : Env Resource) (db : DB) :
    List TaskRow :=
  db.tasks.rows.filter fun t =>
    decide (t.jobID = job) && decide (t.status = .idle) && decide (t.taskType = ty) &&
      (decide (ty = .reduce) || decide (t.replicaIndex = r)) && !env.locked (.task t.taskID)

def OutputRow.ref (o : OutputRow) : TaskOutputRef :=
  ⟨o.partitionIndex.getD 0, o.outputURI, o.checksum⟩

def answer : (q : Query) → Env Resource → DB → q.Ans
  | .getMaxConcurrentPods, _, db => db.maxConcurrentPods
  | .countRunningAttempts, _, db => db.runningAttempts
  | .countFailedTasks job, _, db =>
    db.tasks.rows.countP fun t => decide (t.jobID = job) && decide (t.status = .failed)
  | .getReplicaIndex job, _, db => (db.jobs.get? job).map JobRow.replicaIndex
  | .selectIdleTask job r ty, env, db => firstTask (idleTasks job r ty env db)
  | .countPendingTasksByType job ty, _, db =>
    db.tasks.rows.countP fun t =>
      decide (t.jobID = job) && decide (t.taskType = ty) && decide (t.status ≠ .completed)
  | .countAllPendingTasks job, _, db =>
    db.tasks.rows.countP fun t => decide (t.jobID = job) && decide (t.status ≠ .completed)
  | .updateTaskInProgress a t, env, db =>
    ((Query.updateTaskInProgress a t).matchedTasks env.scan db).length
  | .insertAttempt a t _ _ _ _, _, db =>
    decide (db.attempts.get? a = none) && (db.tasks.get? t).isSome
  | .getJobConfigByTask t, _, db => (db.jobOf t).bind db.jobConfigs.get?
  | .getTaskInputs t, _, db => db.taskInputs.filter fun i => decide (i.taskID = t)
  | .getReduceTaskInputs t, _, db =>
    match db.tasks.get? t with
    | some r => (db.mapOutputs r.jobID r.replicaIndex).map OutputRow.ref
    | none => []
  | .completeEmptyReduceTasks job, env, db =>
    ((Query.completeEmptyReduceTasks job).matchedTasks env.scan db).map TaskRow.taskID
  | .selectTaskForUpdate t, env, db =>
    match (Query.selectTaskForUpdate t).matchedTasks env.scan db with
    | row :: _ => some (row.status, row.currentAttemptID, row.jobID)
    | [] => none
  | .checkLeaseValid a lease skew, env, db =>
    (db.attempts.get? a).map fun row =>
      decide (row.leaseID = lease) &&
        decide (env.now ≤ row.lastRenewedAt + (row.leaseTTL + skew) * second)
  | .countAttemptsByTask t, _, db => db.attempts.rows.countP fun a => decide (a.taskID = t)
  | .selectRunningAttemptIDsByJob job, _, db =>
    (db.attempts.rows.filter fun a =>
      decide (db.jobOf a.taskID = some job) && decide (a.status = .running)).map
        AttemptRow.attemptID
  | .selectStaleTasks r, env, db => staleTasks r env db
  | .selectRunningJobs r, _, db =>
    (db.jobs.rows.filter fun j =>
      decide (j.status = .running) && decide (j.replicaIndex = r)).map JobRow.jobID
  | .lockJobByTask t, env, db =>
    match (Query.lockJobByTask t).matchedJobs env.scan db with
    | row :: _ => some (row.jobID, row.status)
    | [] => none
  | .getJobStatusForUpdate job, env, db =>
    match (Query.getJobStatusForUpdate job).matchedJobs env.scan db with
    | row :: _ => some row.status
    | [] => none
  | .insertJobConfig job input mapper reducer combiner m r checksum, _, _ =>
    (Query.configRow job input mapper reducer combiner m r checksum).isSome
  | .insertTask t job _ replica, _, db =>
    decide (db.tasks.get? t = none) && (db.jobs.get? job).isSome && decide (0 ≤ replica)
  | .insertTaskInput t uri lo hi checksum, _, _ =>
    (Query.inputRow t uri lo hi checksum).isSome
  | .insertAPIJob job _ _ _, _, db => decide (db.jobs.get? job = none)
  | .insertAPIJobConfig job input mapper reducer combiner m r checksum, _, db =>
    (Query.configRow job input mapper reducer combiner m r checksum).isSome &&
      decide (db.jobConfigs.get? job = none)
  | .acquireSchedulingLock, _, _ | .completeTask _, _, _ | .succeedAttempt _, _, _
  | .insertOutputBulk _, _, _ | .renewLease _, _, _ | .updateTaskStatus _ _, _, _
  | .lockNonCompletedTasksByJob _, _, _ | .bulkFailNonCompletedTasksByJob _, _, _
  | .failAttempt _, _, _ | .failRunningAttemptsByJob _, _, _
  | .failRunningAttemptsByReplica _, _, _ | .resetTasksForReplica _, _, _
  | .updateJobStatus _ _, _, _ | .insertJob _ _ _, _, _ | .insertEvent _, _, _ => ()

/-- The rows that a SKIP LOCKED statement takes. -/
def skipRows : Query → Env Resource → DB → List Resource
  | .selectIdleTask job r ty, env, db =>
    (firstTask (idleTasks job r ty env db)).toList.map (Resource.task ·.taskID)
  | .selectStaleTasks r, env, db => (staleTasks r env db).map (Resource.task ·.taskID)
  | _, _, _ => []

namespace QueryLemmas

theorem firstTask_mem {ts : List TaskRow} {t : TaskRow} (h : firstTask ts = some t) : t ∈ ts := by
  induction ts generalizing t with
  | nil => cases h
  | cons u us ih =>
    unfold firstTask at h
    split at h
    · cases h
      exact List.mem_cons_self
    · next v hv =>
      cases h
      split
      · exact List.mem_cons_self
      · exact List.mem_cons_of_mem _ (ih hv)

theorem firstTask_none {ts : List TaskRow} (h : firstTask ts = none) : ts = [] := by
  cases ts with
  | nil => rfl
  | cons t ts =>
    unfold firstTask at h
    split at h <;> cases h

theorem staleTasks_mem {r : Nat} {env : Env Resource} {db : DB} {s : StaleRec}
    (h : s ∈ staleTasks r env db) :
    ∃ t a j, db.tasks.get? s.taskID = some t ∧ db.attempts.get? s.attemptID = some a ∧
      db.jobs.get? s.jobID = some j ∧ t.jobID = s.jobID ∧ t.currentAttemptID = some s.attemptID ∧
      t.status = .inProgress ∧ a.status = .running ∧ j.replicaIndex = r ∧
      s.attemptCount = db.attempts.rows.countP (fun b => decide (b.taskID = s.taskID)) ∧
      s.lastRenewedAt = a.lastRenewedAt ∧ s.leaseTTL = a.leaseTTL ∧
      env.locked (.task s.taskID) = false := by
  obtain ⟨t, ht, hs⟩ := List.mem_filterMap.mp h
  split at hs
  · next a j ha hj =>
    split at hs
    · next hc =>
      cases hs
      obtain ⟨id, hid, hget⟩ := Option.bind_eq_some_iff.mp ha
      have hida := Table.key_of_get? hget
      rw [← hida] at hid
      exact ⟨t, a, j, Table.mem_rows_iff.mp ht, Table.mem_rows_iff.mp (Table.mem_of_get? hget), hj,
        rfl, hid, hc.1, hc.2.1, hc.2.2.1, rfl, rfl, rfl, hc.2.2.2⟩
    · cases hs
  · cases hs

theorem skipRows_free {q : Query} {env : Env Resource} {db : DB} {r : Resource}
    (h : r ∈ skipRows q env db) : env.locked r = false := by
  unfold skipRows at h
  split at h
  · obtain ⟨t, ht, rfl⟩ := List.mem_map.mp h
    have hm := firstTask_mem (Option.mem_toList.mp ht)
    have hp := (List.mem_filter.mp hm).2
    simp only [Bool.and_eq_true, Bool.not_eq_true'] at hp
    exact hp.2
  · obtain ⟨s, hs, rfl⟩ := List.mem_map.mp h
    obtain ⟨_, _, _, _, _, _, _, _, _, _, _, _, _, _, hl⟩ := staleTasks_mem hs
    exact hl
  · cases h

section Matched

variable {q : Query} {env : Env Resource} {scan : Resource → Bool} {db : DB} {t j : UUID}

theorem mem_matchedJobs {row : JobRow} : row ∈ q.matchedJobs scan db ↔
    db.jobs.get? row.jobID = some row ∧ q.jobWhere db row = true ∧
      scan (.job row.jobID) = true := by
  rw [Query.matchedJobs, List.mem_filter, Bool.and_eq_true_iff, Table.mem_rows_iff]

theorem mem_matchedTasks {row : TaskRow} : row ∈ q.matchedTasks scan db ↔
    db.tasks.get? row.taskID = some row ∧ q.taskWhere db row = true ∧
      scan (.task row.taskID) = true := by
  rw [Query.matchedTasks, List.mem_filter, Bool.and_eq_true_iff, Table.mem_rows_iff]

/-- What a SELECT FOR UPDATE returns is in a row that it has locked. -/
theorem lockJobByTask_some {a : UUID × JobStatus} (h : answer (.lockJobByTask t) env db = some a) :
    db.jobOf t = some a.1 ∧ db.jobStatus a.1 = some a.2 ∧ env.scan (.job a.1) = true := by
  simp only [answer] at h
  split at h
  · next row _ hm =>
    cases h
    obtain ⟨hrow, hw, hscan⟩ := mem_matchedJobs.mp (hm ▸ List.mem_cons_self)
    exact ⟨of_decide_eq_true hw, congrArg (Option.map _) hrow, hscan⟩
  · cases h

theorem getJobStatusForUpdate_some {st : JobStatus}
    (h : answer (.getJobStatusForUpdate j) env db = some st) :
    db.jobStatus j = some st ∧ env.scan (.job j) = true := by
  simp only [answer] at h
  split at h
  · next row _ hm =>
    cases h
    obtain ⟨hrow, hw, hscan⟩ := mem_matchedJobs.mp (hm ▸ List.mem_cons_self)
    rw [of_decide_eq_true hw] at hrow hscan
    exact ⟨congrArg (Option.map _) hrow, hscan⟩
  · cases h

theorem selectTaskForUpdate_some {a : TaskStatus × Option UUID × UUID}
    (h : answer (.selectTaskForUpdate t) env db = some a) :
    ∃ row, db.tasks.get? t = some row ∧ env.scan (.task t) = true ∧
      a = (row.status, row.currentAttemptID, row.jobID) := by
  simp only [answer] at h
  split at h
  · next row _ hm =>
    obtain ⟨hrow, hw, hscan⟩ := mem_matchedTasks.mp (hm ▸ List.mem_cons_self)
    rw [of_decide_eq_true hw] at hrow hscan
    exact ⟨row, hrow, hscan, (Option.some.inj h).symm⟩
  · cases h

end Matched

end QueryLemmas

/-- The statements as a semantics. -/
def sem : Semantics DB Query Query.Ans Resource where
  answer := answer
  effect := Query.effect
  waitRows := Query.waitRows
  skipRows := skipRows
  skip_free _ _ _ _ h := QueryLemmas.skipRows_free h

/-! ## Statements in one piece -/

namespace Query

variable {q : Query} {db : DB} {scan : Resource → Bool}

theorem mem_waitRows_task {t : TaskRow} (ht : t ∈ db.tasks.rows) (h : q.taskWhere db t = true) :
    Resource.task t.taskID ∈ q.waitRows db := by
  have hm : Resource.task t.taskID ∈
      (db.tasks.rows.filter (q.taskWhere db)).map (Resource.task ·.taskID) :=
    List.mem_map.mpr ⟨t, List.mem_filter.mpr ⟨ht, h⟩, rfl⟩
  simp only [waitRows, List.mem_append]
  exact .inl (.inl (.inr hm))

theorem mem_waitRows_job {j : JobRow} (hj : j ∈ db.jobs.rows) (h : q.jobWhere db j = true) :
    Resource.job j.jobID ∈ q.waitRows db := by
  have hm : Resource.job j.jobID ∈
      (db.jobs.rows.filter (q.jobWhere db)).map (Resource.job ·.jobID) :=
    List.mem_map.mpr ⟨j, List.mem_filter.mpr ⟨hj, h⟩, rfl⟩
  simp only [waitRows, List.mem_append]
  exact .inl (.inl (.inl hm))

theorem mem_waitRows_attempt {a : AttemptRow} (ha : a ∈ db.attempts.rows)
    (h : q.attemptWhere db a = true) : Resource.attempt a.attemptID ∈ q.waitRows db := by
  have hm : Resource.attempt a.attemptID ∈
      (db.attempts.rows.filter (q.attemptWhere db)).map (Resource.attempt ·.attemptID) :=
    List.mem_map.mpr ⟨a, List.mem_filter.mpr ⟨ha, h⟩, rfl⟩
  simp only [waitRows, List.mem_append]
  exact .inl (.inr hm)

section AllLocked

variable (h : ∀ r ∈ q.waitRows db, scan r = true)
include h

theorem matchedJobs_all : q.matchedJobs scan db = db.jobs.rows.filter (q.jobWhere db) := by
  refine List.filter_congr fun j hj => ?_
  cases hw : q.jobWhere db j with
  | false => rfl
  | true => exact h _ (mem_waitRows_job hj hw)

theorem matchedTasks_all : q.matchedTasks scan db = db.tasks.rows.filter (q.taskWhere db) := by
  refine List.filter_congr fun t ht => ?_
  cases hw : q.taskWhere db t with
  | false => rfl
  | true => exact h _ (mem_waitRows_task ht hw)

theorem matchedAttempts_all :
    q.matchedAttempts scan db = db.attempts.rows.filter (q.attemptWhere db) := by
  refine List.filter_congr fun a ha => ?_
  cases hw : q.attemptWhere db a with
  | false => rfl
  | true => exact h _ (mem_waitRows_attempt ha hw)

end AllLocked

/-- A statement that has locked all its rows makes the whole change. -/
theorem effect_eq_apply {env : Env Resource} (h : ∀ r ∈ q.waitRows db, env.scan r = true) :
    q.effect env db db = q.apply env.now db := by
  unfold effect apply write
  rw [matchedJobs_all h, matchedTasks_all h, matchedAttempts_all h]
  congr 2
  all_goals
    split
    · rfl
    · exact Table.updateWhere_keys _ _ _ _

end Query

theorem lawful : Lawful sem where
  answer_scan q now locked scan db h := by
    have ht : q.matchedTasks scan db = q.matchedTasks (fun _ => true) db :=
      (Query.matchedTasks_all h).trans (Query.matchedTasks_all fun _ _ => rfl).symm
    have hj : q.matchedJobs scan db = q.matchedJobs (fun _ => true) db :=
      (Query.matchedJobs_all h).trans (Query.matchedJobs_all fun _ _ => rfl).symm
    show answer q _ db = answer q _ db
    cases q
    case updateTaskInProgress => simp only [answer, ht]
    case completeEmptyReduceTasks => simp only [answer, ht]
    case selectTaskForUpdate => simp only [answer, ht]
    case lockJobByTask => simp only [answer, hj]
    case getJobStatusForUpdate => simp only [answer, hj]
    all_goals rfl
  effect_scan q now locked scan db h := by
    show Query.effect q _ db = Query.effect q _ db
    unfold Query.effect
    rw [Query.matchedJobs_all h, Query.matchedTasks_all h, Query.matchedAttempts_all h,
      Query.matchedJobs_all fun _ _ => rfl, Query.matchedTasks_all fun _ _ => rfl,
      Query.matchedAttempts_all fun _ _ => rfl]

end KubeMapReduce
