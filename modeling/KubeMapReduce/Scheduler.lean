import KubeMapReduce.Hash
import KubeMapReduce.Queries

/-!
# The scheduler's transactions

Every operation of the scheduler that opens a transaction, and the API's CreateJob,
as a program over `Query`. The program follows the Go function statement by
statement: an early return without Commit is `rollback`, Commit is `commit`, and what
the function does after its transaction (heartbeat map, cleanup queue, worker pool,
the statement of the reaper's respawn phase) is returned as `post`.

Results of a statement that Go only logs are ignored here too. A failing statement
(a violated constraint) makes the operation return and the transaction roll back.
-/

namespace KubeMapReduce

open Programs

/-- The maximum number of attempts of a task before its job fails. -/
def MaxTaskAttempts : Nat := 3

/-- The size of the worker pool that the reaper spawns. -/
def defaultReaperPoolSize : Nat := 4

/-- The quota when SYSTEM_CONFIG has no row. -/
def DefaultMaxConcurrentPods : Nat := 10

inductive Err where
  | noIdleTasks
  | jobCompleted
  | taskNotFound
  | invalidStateTransition
  | jobCancelling
  | emptyWorkerID
  | staleAttempt
  | expiredLease
  | outputMismatch
  | jobFailed
  | quotaExceeded
  | forbiddenTransition (source target : JobStatus)
  | wrongReplica (assigned own : Nat)
  | unexpectedJob (taskID jobID : UUID)
  /-- `sql.ErrNoRows`, passed on. -/
  | noRows
  /-- A statement violated a constraint. -/
  | constraint
  /-- A request was refused with this message. -/
  | invalidRequest (message : String)
deriving DecidableEq

/-! ## 1. Job states -/

/-- The edges of the job state machine. -/
def allowedJobTransitions : JobStatus → JobStatus → Bool
  | .pending, .running => true
  | .pending, .cleaning => true
  | .running, .cleaning => true
  | .cleaning, .completed => true
  | .cleaning, .failed => true
  | .cleaning, .cancelled => true
  | _, _ => false

def validateJobTransition (source target : JobStatus) : Except Err Unit :=
  if allowedJobTransitions source target then .ok ()
  else .error (.forbiddenTransition source target)

/-! ## 2. The scheduler and its transactions -/

/-- The configuration of one manager replica. -/
structure Scheduler where
  replicaIndex : Nat
  totalReplicas : Nat
  managerAddr : String
  /-- In seconds. -/
  leaseTTL : Nat
  leaseClockSkewSeconds : Nat
  /-- Whether a live event emitter is installed. -/
  emitsEvents : Bool
  /-- The UUID parser of the library. -/
  uuidParse : String → Option UUID
  totalReplicas_pos : 0 < totalReplicas
  leaseTTL_pos : 0 < leaseTTL

/-- The defaults of NewScheduler for counts that are not positive. -/
def newScheduler (replicaIndex : Nat) (totalReplicas : Int) (managerAddr : String)
    (leaseTTL : Int) (uuidParse : String → Option UUID) : Scheduler where
  replicaIndex := replicaIndex
  totalReplicas := if totalReplicas ≤ 0 then 1 else totalReplicas.toNat
  managerAddr := managerAddr
  leaseTTL := if leaseTTL ≤ 0 then 30 else leaseTTL.toNat
  leaseClockSkewSeconds := 5
  emitsEvents := false
  uuidParse := uuidParse
  totalReplicas_pos := by
    split
    · exact Nat.one_pos
    · next h => exact Int.pos_iff_toNat_pos.mp (Int.not_le.mp h)
  leaseTTL_pos := by
    split
    · exact Nat.succ_pos 29
    · next h => exact Int.pos_iff_toNat_pos.mp (Int.not_le.mp h)

/-- What an operation does after its transaction has ended. -/
inductive PostAction where
  | storeHeartbeat (attemptID : UUID)
  | deleteHeartbeat (attemptID : UUID)
  | enqueueCleanup (jobID : UUID) (terminalState : JobStatus)
  | orchestratorCancel (jobID : UUID)
  | failRunningAttemptsByJob (jobID : UUID)
  | ensureWorkerPool (jobID : UUID) (workers : Nat) (managerAddr : String)
deriving DecidableEq

/-- The result of an operation. `post` has one list of actions for each loop
iteration whose place among the others is not fixed by the source. -/
structure Outcome (α : Type) where
  result : Except Err α
  post : List (List PostAction)

abbrev Tx (α : Type) := Prog Query Query.Ans (Outcome α)

variable {α : Type}

def rollback (e : Err) : Tx α := .finish false ⟨.error e, []⟩

def commit (r : α) (post : List PostAction) : Tx α := .finish true ⟨.ok r, [post]⟩

/-- Write an event to the outbox, if a live emitter is installed. -/
def emit (s : Scheduler) (e : Event) (k : Tx α) : Tx α :=
  if s.emitsEvents then .query (.insertEvent e) fun _ => k else k

def emitAll (s : Scheduler) (es : List Event) (k : Tx α) : Tx α :=
  es.foldr (emit s) k

/-! ## 3. GetNextTask -/

/-- A task as it is handed to a worker. -/
structure Task where
  id : UUID
  jobID : UUID
  type : TaskType
  replicaIndex : Nat
  reducePartition : Nat
  activeAttemptID : UUID
  leaseID : UUID
  codeURI : String
  combinerURI : String
  inputChecksum : String
  totalReducers : Nat
  shuffleInputs : List TaskOutputRef
  inputSplits : List TaskInputRow
  inputFile : String
  byteStart : Nat
  byteEnd : Nat
deriving DecidableEq

/-- The task of a selected row, before its metadata is loaded. -/
def assignedTask (row : TaskRow) (attemptID leaseID : UUID) : Task where
  id := row.taskID
  jobID := row.jobID
  type := row.taskType
  replicaIndex := row.replicaIndex
  reducePartition := if row.taskType = .reduce then row.replicaIndex else 0
  activeAttemptID := attemptID
  leaseID := leaseID
  codeURI := ""
  combinerURI := ""
  inputChecksum := ""
  totalReducers := 0
  shuffleInputs := []
  inputSplits := []
  inputFile := ""
  byteStart := 0
  byteEnd := 0

/-- The fields that come from the job's configuration. -/
def Task.withConfig (t : Task) (cfg : JobConfigRow) : Task :=
  { t with
    codeURI := if t.type = .map then cfg.mapperURI else cfg.reducerURI
    combinerURI := cfg.combinerURI
    inputChecksum := cfg.inputChecksum
    totalReducers := cfg.rTasks }

/-- The input splits of a Map task; the first one is repeated in the old fields. -/
def Task.withSplits (t : Task) (splits : List TaskInputRow) : Task :=
  match splits with
  | [] => { t with inputSplits := [] }
  | first :: _ =>
    { t with
      inputSplits := splits
      inputFile := first.inputURI
      byteStart := first.byteStart
      byteEnd := first.byteEnd }

def hydrateTaskMetadata (t : Task) (fail : Err → Tx α) (k : Task → Tx α) : Tx α :=
  .query (.getJobConfigByTask t.id) fun
  | none => fail .noRows
  | some cfg =>
    match t.type with
    | .reduce => .query (.getReduceTaskInputs t.id) fun inputs =>
        k { t.withConfig cfg with shuffleInputs := inputs }
    | .map => .query (.getTaskInputs t.id) fun splits => k ((t.withConfig cfg).withSplits splits)

/-- The quota check: the advisory lock is taken before the attempts are counted. -/
def enforceQuotaTx (fail : Err → Tx α) (k : Tx α) : Tx α :=
  .query .acquireSchedulingLock fun _ =>
  .query .getMaxConcurrentPods fun max =>
  .query .countRunningAttempts fun activePods =>
  let maxPods := max.getD DefaultMaxConcurrentPods
  let available := if maxPods > activePods then maxPods - activePods else 0
  if available = 0 then fail .quotaExceeded else k

def tryAssignTask (s : Scheduler) (jobID : UUID) (workerID : String) (attemptID leaseID : UUID)
    (taskType : TaskType) (fail : Err → Tx α) (k : Task → Tx α) : Tx α :=
  .query (.selectIdleTask jobID s.replicaIndex taskType) fun
  | none => fail .noIdleTasks
  | some row =>
    if row.jobID ≠ jobID then fail (.unexpectedJob row.taskID row.jobID) else
    hydrateTaskMetadata (assignedTask row attemptID leaseID) fail fun task =>
    enforceQuotaTx fail <|
    .query (.updateTaskInProgress attemptID row.taskID) fun n =>
    if n = 0 then fail .invalidStateTransition else
    .query (.insertAttempt attemptID row.taskID workerID leaseID s.leaseTTL s.leaseTTL_pos)
      fun ok =>
    if ok then k task else fail .constraint

/-- Complete the Idle Reduce tasks without inputs; `k` learns whether the job has no
pending task left because of it. -/
def autoCompleteEmptyReducesTx (jobID : UUID) (k : Bool → Tx α) : Tx α :=
  .query (.completeEmptyReduceTasks jobID) fun completed =>
  if completed.length = 0 then k false else
  .query (.countAllPendingTasks jobID) fun pending =>
  if pending = 0 then .query (.updateJobStatus jobID .cleaning) fun _ => k true else k false

/-- What GetNextTask does once the Map phase is over. -/
def getNextReduceTask (s : Scheduler) (jobID : UUID) (workerID : String)
    (attemptID leaseID : UUID) : Tx Task :=
  autoCompleteEmptyReducesTx jobID fun jobNowDone =>
  tryAssignTask s jobID workerID attemptID leaseID .reduce
    (fun e =>
      if e ≠ .noIdleTasks then rollback e else
      .query (.countPendingTasksByType jobID .reduce) fun pendingReduceTasks =>
      let cleanup := if jobNowDone then [PostAction.enqueueCleanup jobID .completed] else []
      if pendingReduceTasks > 0 then .finish true ⟨.error .noIdleTasks, [cleanup]⟩
      else .finish true ⟨.error .jobCompleted, [cleanup]⟩)
    fun task =>
      .query (.updateJobStatus jobID .running) fun _ =>
      commit task []

/-- `attemptID` and `leaseID` are the fresh UUIDs of the assignment. The heartbeat of the new
attempt is stored before the commit, so it is no action after it. -/
def getNextTask (s : Scheduler) (jobID : UUID) (workerID : String) (attemptID leaseID : UUID) :
    Tx Task :=
  if workerID = "" then rollback .emptyWorkerID else
  .query (.countFailedTasks jobID) fun failedCount =>
  if failedCount > 0 then rollback .jobFailed else
  .query (.getReplicaIndex jobID) fun
  | none => rollback .noRows
  | some assignedReplica =>
    if assignedReplica ≠ s.replicaIndex then
      rollback (.wrongReplica assignedReplica s.replicaIndex) else
    tryAssignTask s jobID workerID attemptID leaseID .map
      (fun e =>
        if e ≠ .noIdleTasks then rollback e else
        .query (.countPendingTasksByType jobID .map) fun pendingMapTasks =>
        if pendingMapTasks > 0 then rollback .noIdleTasks else
        getNextReduceTask s jobID workerID attemptID leaseID)
      fun task =>
        .query (.updateJobStatus jobID .running) fun _ =>
        emit s (.taskAssigned task.id task.jobID task.type workerID s.leaseTTL) <|
        commit task []

/-! ## 4. Fenced operations of a worker -/

/-- The task row, locked, must be In-Progress under this attempt; `k` gets its job. -/
def checkCurrentAttempt (taskID attemptID : UUID) (k : UUID → Tx α) : Tx α :=
  .query (.selectTaskForUpdate taskID) fun
  | none => rollback .taskNotFound
  | some (state, currAttempt, taskJobID) =>
    if state ≠ .inProgress then rollback .invalidStateTransition else
    if currAttempt ≠ some attemptID then rollback .staleAttempt else
    k taskJobID

def validateLeaseTx (s : Scheduler) (attemptID leaseID : UUID) (k : Tx α) : Tx α :=
  .query (.checkLeaseValid attemptID leaseID s.leaseClockSkewSeconds) fun
  | none => rollback .noRows
  | some leaseValid => if leaseValid then k else rollback .expiredLease

/-- The rows that the bulk INSERT of CompleteTask writes: `partition_index` is the
position in the list. -/
def outputRows (taskID : UUID) (outputURIs outputChecksums : List String) : List OutputRow :=
  (outputURIs.zip outputChecksums).zipIdx.map fun o => ⟨taskID, some o.2, o.1.1, o.1.2⟩

def insertOutputs (rows : List OutputRow) (k : Tx α) : Tx α :=
  if rows.length > 0 then .query (.insertOutputBulk rows) fun _ => k else k

def completeTask (s : Scheduler) (taskID attemptID leaseID : UUID)
    (outputURIs outputChecksums : List String) : Tx Unit :=
  if outputURIs.length ≠ outputChecksums.length then rollback .outputMismatch else
  .query (.lockJobByTask taskID) fun
  | none => rollback .taskNotFound
  | some (jobID, jobStatus) =>
    if jobStatus = .cleaning then rollback .jobCancelling else
    if jobStatus ≠ .running ∧ jobStatus ≠ .pending then rollback .invalidStateTransition else
    checkCurrentAttempt taskID attemptID fun _ =>
    validateLeaseTx s attemptID leaseID <|
    .query (.completeTask taskID) fun _ =>
    .query (.succeedAttempt attemptID) fun _ =>
    insertOutputs (outputRows taskID outputURIs outputChecksums) <|
    .query (.countAllPendingTasks jobID) fun pendingTasks =>
    if pendingTasks = 0 then
      .query (.updateJobStatus jobID .cleaning) fun _ =>
      emitAll s [.attemptCompleted taskID jobID attemptID (toString attemptID),
        .jobStateChanged jobID .running .cleaning] <|
      commit () [.deleteHeartbeat attemptID, .enqueueCleanup jobID .completed]
    else
      emit s (.attemptCompleted taskID jobID attemptID (toString attemptID)) <|
      commit () [.deleteHeartbeat attemptID]

/-- `sampled` says whether this heartbeat is one that the sampling counter emits. -/
def renewLease (s : Scheduler) (taskID attemptID leaseID : UUID) (sampled : Bool) : Tx Unit :=
  checkCurrentAttempt taskID attemptID fun jobID =>
  validateLeaseTx s attemptID leaseID <|
  .query (.renewLease attemptID) fun _ =>
  emitAll s (if sampled then [.heartbeatReceived taskID jobID attemptID] else []) <|
  commit () [.storeHeartbeat attemptID]

def failTask (s : Scheduler) (taskID attemptID leaseID : UUID) (reason : String) : Tx Unit :=
  .query (.lockJobByTask taskID) fun
  | none => rollback .taskNotFound
  | some (jobID, jobStatus) =>
    if jobStatus ≠ .running ∧ jobStatus ≠ .pending then rollback .invalidStateTransition else
    checkCurrentAttempt taskID attemptID fun _ =>
    validateLeaseTx s attemptID leaseID <|
    .query (.countAttemptsByTask taskID) fun attemptCount =>
    let exhausted := attemptCount ≥ MaxTaskAttempts
    .query (.updateTaskStatus (if exhausted then .failed else .idle) taskID) fun _ =>
    .query (.failAttempt attemptID) fun _ =>
    if exhausted then
      .query (.updateJobStatus jobID .cleaning) fun _ =>
      emitAll s [.attemptFailed taskID jobID attemptID "" reason,
        .jobStateChanged jobID .running .cleaning] <|
      commit () [.deleteHeartbeat attemptID, .enqueueCleanup jobID .failed]
    else
      emit s (.attemptFailed taskID jobID attemptID "" reason) <|
      commit () [.deleteHeartbeat attemptID]

/-! ## 5. Cancellation and finalization -/

/-- Read the status under a row lock, validate the transition, and apply it; a job
that already has the status stays as it is. -/
def applyJobTransitionTx (jobID : UUID) (target : JobStatus) (fail : Err → Tx α)
    (k : JobStatus → Tx α) : Tx α :=
  .query (.getJobStatusForUpdate jobID) fun
  | none => fail .taskNotFound
  | some current =>
    if current = target then k current else
    match validateJobTransition current target with
    | .error e => fail e
    | .ok _ => .query (.updateJobStatus jobID target) fun _ => k current

def cancelJob (s : Scheduler) (jobID : UUID) : Tx Unit :=
  applyJobTransitionTx jobID .cleaning
    (fun
      -- a job in a terminal state: cancelling it again is a no-op
      | .forbiddenTransition _ _ => .finish false ⟨.ok (), []⟩
      | e => rollback e)
    fun oldStatus =>
    .query (.lockNonCompletedTasksByJob jobID) fun _ =>
    .query (.selectRunningAttemptIDsByJob jobID) fun attemptIDs =>
    .query (.bulkFailNonCompletedTasksByJob jobID) fun _ =>
    .query (.failRunningAttemptsByJob jobID) fun _ =>
    emitAll s [.jobCancelRequested jobID, .jobStateChanged jobID oldStatus .cleaning] <|
    commit () (attemptIDs.map .deleteHeartbeat ++ [.enqueueCleanup jobID .cancelled])

/-- The terminal states that are put into the cleanup queue. -/
inductive TerminalState where
  | completed
  | failed
  | cancelled
deriving DecidableEq

def TerminalState.status : TerminalState → JobStatus
  | .completed => .completed
  | .failed => .failed
  | .cancelled => .cancelled

/-- The transaction of finalizeJob, after the staging objects are deleted. -/
def finalizeJob (jobID : UUID) (terminalState : TerminalState) : Tx Unit :=
  applyJobTransitionTx jobID terminalState.status
    (fun e => .finish false ⟨.error e, [[.enqueueCleanup jobID terminalState.status]]⟩)
    fun _ => commit () [.orchestratorCancel jobID]

/-! ## 6. The reaper -/

/-- The accumulators of the reaper's loop. -/
structure Reaped where
  recoveredCount : Nat
  respawnJobs : List UUID
  failedJobs : List UUID
deriving DecidableEq

/-- The attempt's heartbeat, from memory or from the row, is at least a lease and
the clock-skew tolerance old. -/
def isStale (s : Scheduler) (heartbeats : UUID → Option Time) (clock : Time) (rec : StaleRec) :
    Bool :=
  decide ((heartbeats rec.attemptID).getD rec.lastRenewedAt +
    (rec.leaseTTL + s.leaseClockSkewSeconds) * second ≤ clock)

def reapTasks (s : Scheduler) (heartbeats : UUID → Option Time) (clock : Time) :
    List StaleRec → Reaped → (Reaped → Tx α) → Tx α
  | [], acc, k => k acc
  | rec :: rest, acc, k =>
    if isStale s heartbeats clock rec then
      let exhausted := rec.attemptCount ≥ MaxTaskAttempts
      .query (.updateTaskStatus (if exhausted then .failed else .idle) rec.taskID) fun _ =>
      .query (.failAttempt rec.attemptID) fun _ =>
      if exhausted then
        .query (.updateJobStatus rec.jobID .cleaning) fun _ =>
        reapTasks s heartbeats clock rest
          { acc with
            recoveredCount := acc.recoveredCount + 1
            failedJobs := acc.failedJobs.insert rec.jobID } k
      else
        reapTasks s heartbeats clock rest
          { acc with
            recoveredCount := acc.recoveredCount + 1
            respawnJobs := acc.respawnJobs.insert rec.jobID } k
    else reapTasks s heartbeats clock rest acc k

/-- The respawn of one job's worker pool after the reaper's commit. -/
def respawn (s : Scheduler) (jobID : UUID) : List PostAction :=
  [.orchestratorCancel jobID, .failRunningAttemptsByJob jobID,
    .ensureWorkerPool jobID defaultReaperPoolSize s.managerAddr]

/-- One pass of the reaper. `heartbeats` is the in-memory map and `clock` the
process's clock. A tasks.reaped event is emitted for every selected row. -/
def failStaleTasks (s : Scheduler) (heartbeats : UUID → Option Time) (clock : Time) : Tx Nat :=
  .query (.selectStaleTasks s.replicaIndex) fun stales =>
  reapTasks s heartbeats clock stales ⟨0, [], []⟩ fun acc =>
  emitAll s
    (stales.map fun rec => .taskReaped rec.taskID rec.jobID rec.attemptID "lease expired") <|
  emitAll s (acc.failedJobs.map fun jobID => .jobStateChanged jobID .running .cleaning) <|
  .finish true ⟨.ok acc.recoveredCount,
    acc.failedJobs.map (fun jobID => .enqueueCleanup jobID .failed) ::
      acc.respawnJobs.map (respawn s)⟩

/-- The statement of the reaper's respawn phase, in a transaction of its own. -/
def failRunningAttemptsByJob (jobID : UUID) : Tx Unit :=
  .query (.failRunningAttemptsByJob jobID) fun _ => commit () []

/-! ## 7. Recovery

Recover's three statements are three transactions. -/

def recoverFailAttempts (s : Scheduler) : Tx Unit :=
  .query (.failRunningAttemptsByReplica s.replicaIndex) fun _ => commit () []

def recoverResetTasks (s : Scheduler) : Tx Unit :=
  .query (.resetTasksForReplica s.replicaIndex) fun _ => commit () []

def recoverWorkerPools (s : Scheduler) : Tx Unit :=
  .query (.selectRunningJobs s.replicaIndex) fun jobIDs =>
  commit () (jobIDs.flatMap fun jobID =>
    [.orchestratorCancel jobID, .ensureWorkerPool jobID 4 s.managerAddr])

/-! ## 8. Submission -/

structure ScheduleTaskInput where
  inputURI : String
  byteStart : Int
  byteEnd : Int
  splitChecksum : String
deriving DecidableEq

structure ScheduleTask where
  taskID : String
  taskType : String
  replicaIndex : Int
  inputSplits : List ScheduleTaskInput
deriving DecidableEq

structure ScheduleJobRequest where
  jobID : String
  userID : String
  inputURI : String
  mapperURI : String
  reducerURI : String
  combinerURI : String
  mTasks : Int
  rTasks : Int
  inputChecksum : String
  tasks : List ScheduleTask
deriving DecidableEq

/-- Go's `unicode.IsSpace`. -/
def isSpace (c : Char) : Bool :=
  (0x09 ≤ c.toNat && c.toNat ≤ 0x0D) || (0x2000 ≤ c.toNat && c.toNat ≤ 0x200A) ||
    [0x20, 0x85, 0xA0, 0x1680, 0x2028, 0x2029, 0x202F, 0x205F, 0x3000].contains c.toNat

/-- `strings.TrimSpace(s) == ""`. -/
def isBlank (s : String) : Bool := s.toList.all isSpace

def countTasks (taskType : String) (tasks : List ScheduleTask) : Int :=
  (tasks.countP fun t => decide (t.taskType = taskType) : Nat)

def validateScheduleJobRequest (s : Scheduler) (req : ScheduleJobRequest) : Except Err Unit :=
  if s.uuidParse req.jobID = none then .error (.invalidRequest "invalid job id") else
  if s.uuidParse req.userID = none then .error (.invalidRequest "invalid user id") else
  if isBlank req.inputURI then .error (.invalidRequest "input URI cannot be empty") else
  if isBlank req.mapperURI then .error (.invalidRequest "mapper URI cannot be empty") else
  if isBlank req.reducerURI then .error (.invalidRequest "reducer URI cannot be empty") else
  if req.mTasks < 1 ∨ req.rTasks < 1 then
    .error (.invalidRequest "task counts must be strictly positive") else
  if (req.tasks.length : Int) ≠ req.mTasks + req.rTasks then
    .error (.invalidRequest "tasks must contain exactly mTasks + rTasks entries") else
  let mapCount := countTasks "Map" req.tasks
  let reduceCount := countTasks "Reduce" req.tasks
  if mapCount ≠ req.mTasks then
    .error (.invalidRequest s!"expected {req.mTasks} Map tasks but got {mapCount}") else
  if reduceCount ≠ req.rTasks then
    .error (.invalidRequest s!"expected {req.rTasks} Reduce tasks but got {reduceCount}") else
  .ok ()

def parseTaskType : String → Option TaskType
  | "Map" => some .map
  | "Reduce" => some .reduce
  | _ => none

def insertTaskInputs (taskID : UUID) : List ScheduleTaskInput → Tx α → Tx α
  | [], k => k
  | split :: rest, k =>
    .query (.insertTaskInput taskID split.inputURI split.byteStart split.byteEnd
      split.splitChecksum) fun ok =>
    if ok then insertTaskInputs taskID rest k else rollback .constraint

/-- Insert the tasks; a Map task gets the replica of the job as its index. -/
def insertTasks (s : Scheduler) (jobID : UUID) (expectedReplicaIndex : Nat) :
    List ScheduleTask → Tx α → Tx α
  | [], k => k
  | task :: rest, k =>
    match s.uuidParse task.taskID with
    | none => rollback (.invalidRequest "invalid task id")
    | some taskID =>
      if isBlank task.taskType then rollback (.invalidRequest "task type cannot be empty") else
      match parseTaskType task.taskType with
      | none => rollback (.invalidRequest "invalid task type: must be Map or Reduce")
      | some taskType =>
        let replicaIndex :=
          match taskType with
          | .map => (expectedReplicaIndex : Int)
          | .reduce => task.replicaIndex
        .query (.insertTask taskID jobID taskType replicaIndex) fun ok =>
        if ok then
          insertTaskInputs taskID task.inputSplits (insertTasks s jobID expectedReplicaIndex rest k)
        else rollback .constraint

def scheduleJob (s : Scheduler) (req : ScheduleJobRequest) : Tx Unit :=
  match validateScheduleJobRequest s req, s.uuidParse req.jobID, s.uuidParse req.userID,
      computeReplicaIndex req.jobID s.totalReplicas with
  | .ok _, some jobID, some userID, some expectedReplicaIndex =>
    .query (.insertJob jobID userID expectedReplicaIndex) fun _ =>
    .query (.insertJobConfig jobID req.inputURI req.mapperURI req.reducerURI req.combinerURI
      req.mTasks req.rTasks req.inputChecksum) fun ok =>
    if ok then
      insertTasks s jobID expectedReplicaIndex req.tasks <|
      emit s (.jobSubmitted jobID userID req.inputURI req.mTasks req.rTasks) <|
      commit () [.ensureWorkerPool jobID (min defaultReaperPoolSize req.mTasks.toNat) s.managerAddr]
    else rollback .constraint
  | .error e, _, _, _ => rollback e
  | _, _, _, _ => rollback (.invalidRequest "failed to compute replica index")

/-- A job record of the API. -/
structure JobRecord where
  jobID : String
  userID : String
  filename : String
  mapperURI : String
  reducerURI : String
  combinerURI : String
  mTasks : Int
  reducers : Int
  inputChecksum : String
  createdAt : Time
deriving DecidableEq

/-- The API's CreateJob. -/
def createJob (s : Scheduler) (rec : JobRecord) : Tx Unit :=
  match s.uuidParse rec.jobID, s.uuidParse rec.userID,
      computeReplicaIndex rec.jobID s.totalReplicas with
  | some jobID, some userID, some replicaIndex =>
    .query (.insertAPIJob jobID userID rec.createdAt replicaIndex) fun ok =>
    if ok then
      .query (.insertAPIJobConfig jobID rec.filename rec.mapperURI rec.reducerURI rec.combinerURI
        rec.mTasks rec.reducers rec.inputChecksum) fun ok =>
      if ok then commit () [] else rollback .constraint
    else rollback .constraint
  | _, _, _ => rollback (.invalidRequest "invalid id")

end KubeMapReduce
