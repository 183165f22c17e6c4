import KubeMapReduce.Cluster

/-!
# The transactions statement by statement

The same programs as in a run of the cluster, now interleaved statement by statement
with row locks. `serial_call` connects the two: a call that runs alone reaches the
state that `perform` computes.

What the quota, the lock order and the job states depend on is how a transaction orders
its statements. `protocol` is a monitor that says it once:

* the JOBS row is locked before anything else, or it is written without a check by a
  transaction that holds a TASKS row;
* a checked write of JOBS.status follows the read of the locked row and is an edge of
  the job state machine;
* the advisory lock is taken after a task is picked, and after it only that task is
  written;
* an attempt is inserted only after the attempts have been counted under the lock;
* a transaction that adds a job locks no JOBS row.

`code_obeys` of Evidence shows that every transaction follows it.
-/

namespace KubeMapReduce

open Tables Transactions Programs Runs Prog

variable {s : Scheduler} {a j lease t : UUID} {heartbeats : UUID → Option Time}

abbrev DBSession := Session Call DB Query Query.Ans Resource (Outcome Reply)

abbrev DBMachine := Machine Call DB Query Query.Ans Resource (Outcome Reply)

/-- The steps of the sessions. -/
abbrev SessionStep := Transactions.Step sem code

/-- A call that runs alone reaches the state that `perform` computes, in its last step. -/
theorem serial_call (db : DB) (i : Nat) (c : Call) (now : Time) :
    ∃ as M, Run SessionStep (Machine.idle db) (.begin i c now :: as) M ∧ M.db = db ∧
      SessionStep M (.finish i) (Machine.idle (perform c now (fun _ => false) db).2) :=
  serial lawful i c now

/-! ## 1. The monitor -/

/-- How far a transaction has come with the quota check. -/
inductive Quota where
  | clean
  | locked
  | limit (max : Option Nat)
  | room
  | inserted
  /-- It has ended attempts. -/
  | ended

/-- The advisory lock is held. -/
def Quota.locks : Quota → Bool
  | .clean | .ended => false
  | _ => true

/-- The statement may lock a JOBS row, a TASKS row or the advisory lock, or adds a JOBS row. -/
def Query.takesLocks : Query → Bool
  | .lockJobByTask _ | .getJobStatusForUpdate _ | .updateJobStatus _ _ => true
  | .updateTaskInProgress _ _ | .completeEmptyReduceTasks _ | .selectTaskForUpdate _
  | .completeTask _ | .updateTaskStatus _ _ | .lockNonCompletedTasksByJob _
  | .bulkFailNonCompletedTasksByJob _ | .resetTasksForReplica _ => true
  | .selectIdleTask _ _ _ | .selectStaleTasks _ | .acquireSchedulingLock => true
  | .insertJob _ _ _ | .insertAPIJob _ _ _ _ => true
  | _ => false

/-- What a transaction has done so far. -/
structure Progress where
  /-- It writes JOBS.status without a check. -/
  raw : Bool
  /-- It has issued no statement that takes locks. -/
  fresh : Bool
  /-- The JOBS row that it has locked first. -/
  job : Option UUID
  /-- The status that it has read under that lock and not changed. -/
  status : Option JobStatus
  /-- A TASKS row that it holds. -/
  task : Option UUID
  quota : Quota

/-- The statements that may come next. -/
def Progress.allows (m : Progress) : Query → Prop
  | .lockJobByTask _ | .getJobStatusForUpdate _ =>
    m.raw = false ∧ m.fresh = true ∧ m.job = none
  | .updateJobStatus j st =>
    (m.raw = true ∧ m.task ≠ none ∧ (st = .running ∨ st = .cleaning)) ∨
      (m.raw = false ∧ m.job = some j ∧
        ∃ cur, m.status = some cur ∧ allowedJobTransitions cur st = true)
  | .updateTaskInProgress _ t => m.task = some t
  | .completeEmptyReduceTasks _ | .selectTaskForUpdate _ | .completeTask _
  | .updateTaskStatus _ _ | .lockNonCompletedTasksByJob _ | .bulkFailNonCompletedTasksByJob _
  | .resetTasksForReplica _ => m.quota.locks = false
  | .succeedAttempt _ | .renewLease _ | .failAttempt _ | .failRunningAttemptsByJob _
  | .failRunningAttemptsByReplica _ => m.quota.locks = false
  | .acquireSchedulingLock => m.quota = .clean ∧ m.task ≠ none
  | .insertAttempt _ _ _ _ _ _ => m.quota = .room
  | .insertJob _ _ _ | .insertAPIJob _ _ _ _ => m.raw = false ∧ m.job = none
  | _ => True

/-- The limit is read. -/
def Quota.read (max : Option Nat) : Quota → Quota
  | .locked => .limit max
  | c => c

/-- The running attempts are counted. -/
def Quota.count (n : Nat) : Quota → Quota
  | .limit max => if n < max.getD DefaultMaxConcurrentPods then .room else .limit max
  | c => c

theorem Quota.read_locks {max : Option Nat} {c : Quota} : (c.read max).locks = c.locks := by
  cases c <;> rfl

theorem Quota.count_locks {n : Nat} {c : Quota} : (c.count n).locks = c.locks := by
  cases c with
  | limit max =>
    show (if n < max.getD DefaultMaxConcurrentPods then Quota.room else .limit max).locks = true
    split <;> rfl
  | _ => rfl

/-- What the answer of a statement tells. -/
def Progress.learn (m : Progress) : (q : Query) → q.Ans → Progress
  | .lockJobByTask _, some (j, st) => { m with job := some j, status := some st }
  | .getJobStatusForUpdate j, some st => { m with job := some j, status := some st }
  | .updateJobStatus _ _, _ => { m with status := none }
  | .selectTaskForUpdate t, some _ => { m with task := some t }
  | .selectIdleTask _ _ _, some row => { m with task := some row.taskID }
  | .selectStaleTasks _, recs => { m with task := (recs.head?.map StaleRec.taskID).or m.task }
  | .completeEmptyReduceTasks _, ids => { m with task := ids.head?.or m.task }
  | .acquireSchedulingLock, _ => { m with quota := .locked }
  | .getMaxConcurrentPods, max => { m with quota := m.quota.read max }
  | .countRunningAttempts, n => { m with quota := m.quota.count n }
  | .insertAttempt _ _ _ _ _ _, _ => { m with quota := .inserted }
  | .succeedAttempt _, _ | .renewLease _, _ | .failAttempt _, _
  | .failRunningAttemptsByJob _, _ | .failRunningAttemptsByReplica _, _ =>
    { m with quota := .ended }
  | _, _ => m

def Progress.next (m : Progress) (q : Query) (ans : q.Ans) : Progress :=
  { m.learn q ans with fresh := !q.takesLocks && m.fresh }

def protocol : Monitor Query Query.Ans Progress where
  next := Progress.next
  ok := Progress.allows

namespace Progress

variable {m : Progress} {q : Query} {ans : q.Ans}

theorem learn_raw : (m.learn q ans).raw = m.raw := by
  unfold learn
  split <;> rfl

/-- A JOBS row that the transaction learns of is locked by the statement, and the status is
the one of the row. -/
theorem learn_job {env : Env Resource} {db : DB} (h : (m.learn q (answer q env db)).job = some j) :
    (m.job = some j ∧
      ∀ st, (m.learn q (answer q env db)).status = some st → m.status = some st) ∨
    (env.scan (.job j) = true ∧ (m.learn q (answer q env db)).status = db.jobStatus j ∧
      (m.allows q → m.raw = false ∧ m.fresh = true ∧ m.job = none)) := by
  cases q with
  | lockJobByTask t =>
    cases hans : answer (.lockJobByTask t) env db with
    | none =>
      rw [hans] at h
      exact .inl ⟨h, fun _ => id⟩
    | some a =>
      obtain ⟨_, hst, hscan⟩ := QueryLemmas.lockJobByTask_some hans
      rw [hans] at h
      cases h
      exact .inr ⟨hscan, hst.symm, id⟩
  | getJobStatusForUpdate job =>
    cases hans : answer (.getJobStatusForUpdate job) env db with
    | none =>
      rw [hans] at h
      exact .inl ⟨h, fun _ => id⟩
    | some a =>
      obtain ⟨hst, hscan⟩ := QueryLemmas.getJobStatusForUpdate_some hans
      rw [hans] at h
      cases h
      exact .inr ⟨hscan, hst.symm, id⟩
  | updateJobStatus id st => exact .inl ⟨h, fun _ hst => by cases hst⟩
  | selectTaskForUpdate t =>
    revert h
    cases answer (.selectTaskForUpdate t) env db <;> exact fun h => .inl ⟨h, fun _ => id⟩
  | selectIdleTask j r ty =>
    revert h
    cases answer (.selectIdleTask j r ty) env db <;> exact fun h => .inl ⟨h, fun _ => id⟩
  | _ => exact .inl ⟨h, fun _ => id⟩

theorem learn_job_none (h : (m.learn q ans).job = none) : m.job = none := by
  revert h
  unfold learn
  split <;> first | exact id | nofun

theorem learn_task_other (h₁ : ∀ t, q ≠ .selectTaskForUpdate t)
    (h₂ : ∀ j r ty, q ≠ .selectIdleTask j r ty) (h₃ : ∀ r, q ≠ .selectStaleTasks r)
    (h₄ : ∀ j, q ≠ .completeEmptyReduceTasks j) : (m.learn q ans).task = m.task := by
  unfold learn
  split <;> first
    | rfl | exact absurd rfl (h₁ _) | exact absurd rfl (h₂ _ _ _) | exact absurd rfl (h₃ _)
    | exact absurd rfl (h₄ _)

/-- A transaction that does not hold the advisory lock now did not hold it before. -/
theorem learn_unlocked (hok : m.allows q) (h : (m.learn q ans).quota.locks = false) :
    m.quota.locks = false ∧ q ≠ .acquireSchedulingLock := by
  cases q with
  | acquireSchedulingLock => cases h
  | insertAttempt _ _ _ _ _ _ => cases h
  | getMaxConcurrentPods => exact ⟨Quota.read_locks.symm.trans h, nofun⟩
  | countRunningAttempts => exact ⟨Quota.count_locks.symm.trans h, nofun⟩
  | lockJobByTask _ => cases ans <;> exact ⟨h, nofun⟩
  | getJobStatusForUpdate _ => cases ans <;> exact ⟨h, nofun⟩
  | selectTaskForUpdate _ => exact ⟨hok, nofun⟩
  | selectIdleTask _ _ _ => cases ans <;> exact ⟨h, nofun⟩
  | _ => first | exact ⟨h, nofun⟩ | exact ⟨hok, nofun⟩

end Progress

/-- The transactions that write JOBS.status without a check. -/
def Call.raw : Call → Bool
  | .getNextTask _ _ _ _ _ | .failStaleTasks _ _ _ => true
  | _ => false

def Progress.start (c : Call) : Progress := ⟨c.raw, true, none, none, none, .clean⟩

/-! ## 2. The transactions that submit a job -/

namespace SessionLemmas

variable {α : Type} {m : Progress}

theorem obeys_insertTaskInputs {splits : List ScheduleTaskInput} {k : Tx α}
    (hk : k.Obeys protocol m) : (insertTaskInputs t splits k).Obeys protocol m := by
  induction splits with
  | nil => exact hk
  | cons split rest ih =>
    exact obeys_query trivial fun ok => obeys_ite (fun _ => ih) fun _ => trivial

theorem obeys_insertTasks {r : Nat} {tasks : List ScheduleTask} {k : Tx α}
    (hk : k.Obeys protocol m) :
    (insertTasks s j r tasks k).Obeys protocol m := by
  induction tasks with
  | nil => exact hk
  | cons task rest ih =>
    unfold insertTasks
    split
    · trivial
    · refine obeys_ite (fun _ => trivial) fun _ => ?_
      split
      · trivial
      · exact obeys_query trivial fun ok =>
          obeys_ite (fun _ => obeys_insertTaskInputs ih) fun _ => trivial

theorem obeys_scheduleJob {req : ScheduleJobRequest} (hraw : m.raw = false) (hjob : m.job = none) :
    (scheduleJob s req).Obeys protocol m := by
  unfold scheduleJob
  split
  · exact obeys_query ⟨hraw, hjob⟩ fun _ => obeys_query trivial fun ok =>
      obeys_ite (fun _ => obeys_insertTasks (obeys_ite
        (fun _ => obeys_query trivial fun _ => trivial) fun _ => trivial)) fun _ => trivial
  · trivial
  · trivial

theorem obeys_createJob {rec : JobRecord} (hraw : m.raw = false) (hjob : m.job = none) :
    (createJob s rec).Obeys protocol m := by
  unfold createJob
  split
  · exact obeys_query ⟨hraw, hjob⟩ fun ok => obeys_ite
      (fun _ => obeys_query trivial fun ok => obeys_ite (fun _ => trivial) fun _ => trivial)
      fun _ => trivial
  · trivial

end SessionLemmas

/-! ## 3. A small run -/

/-- The store after ScheduleJob of the small job. -/
def smallDB (maxConcurrentPods : Option Nat) : DB :=
  (perform (.scheduleJob soloReplica smallJob) 1 (fun _ => false) (DB.initial maxConcurrentPods)).2

/-- A statement of a session that gets all its rows. -/
def statement (i : Nat) (rows : List Resource) : List (Transactions.Label Call Resource) :=
  .request i rows :: rows.tail.map (fun _ => .lock i) ++ [.exec i]

/-- GetNextTask up to the insertion of the attempt: it has picked task 2 and holds the
advisory lock. -/
def assigning : List (Transactions.Label Call Resource) :=
  .begin 1 (.getNextTask soloReplica 1 "w1" 10 11) 2 ::
    [[], [], [], [], [], [.scheduling], [], [], [], []].flatMap (statement 1)

end KubeMapReduce
