import KubeMapReduce.Lib.Table

/-!
# The distributed data store

The tables of the initial schema that the scheduler works on, row by row. A CHECK
constraint of the schema is a field of the row, so a row that violates it cannot be
built; a primary key is the key of a `Table`. TASK_INPUTS and TASK_OUTPUTS have a
serial key, so they are lists in insertion order.
-/

namespace KubeMapReduce

open Tables

/-- A UUID column; UUIDs are compared as 128-bit numbers. -/
abbrev UUID := Nat

/-- A timestamp or a duration, in nanoseconds. -/
abbrev Time := Nat

/-- INTERVAL '1 second'. -/
def second : Time := 1000000000

inductive JobStatus where
  | pending
  | running
  | completed
  | cancelled
  | failed
  | cleaning
deriving DecidableEq, Repr

inductive TaskStatus where
  | idle
  | inProgress
  | completed
  | failed
deriving DecidableEq, Repr

inductive AttemptStatus where
  | running
  | success
  | failed
deriving DecidableEq, Repr

inductive TaskType where
  | map
  | reduce
deriving DecidableEq, Repr

structure JobRow where
  jobID : UUID
  userID : UUID
  status : JobStatus
  replicaIndex : Nat
  createdAt : Time
  updatedAt : Time
deriving DecidableEq

structure JobConfigRow where
  jobID : UUID
  inputURI : String
  mapperURI : String
  reducerURI : String
  combinerURI : String
  mTasks : Nat
  rTasks : Nat
  inputChecksum : String
  mTasks_pos : 0 < mTasks
  rTasks_pos : 0 < rTasks
deriving DecidableEq

structure TaskRow where
  taskID : UUID
  jobID : UUID
  taskType : TaskType
  status : TaskStatus
  replicaIndex : Nat
  currentAttemptID : Option UUID
deriving DecidableEq

structure TaskInputRow where
  taskID : UUID
  inputURI : String
  byteStart : Nat
  byteEnd : Nat
  splitChecksum : String
  range : byteStart ≤ byteEnd
deriving DecidableEq

structure AttemptRow where
  attemptID : UUID
  taskID : UUID
  workerID : String
  leaseID : UUID
  lastRenewedAt : Time
  /-- In seconds. -/
  leaseTTL : Nat
  startTime : Time
  endTime : Option Time
  status : AttemptStatus
  leaseTTL_pos : 0 < leaseTTL
deriving DecidableEq

structure OutputRow where
  taskID : UUID
  partitionIndex : Option Nat
  outputURI : String
  checksum : String
deriving DecidableEq

/-- The events that the scheduler writes to the outbox, with their payloads. -/
inductive Event where
  | jobSubmitted (jobID userID : UUID) (inputURI : String) (mTasks rTasks : Int)
  | jobStateChanged (jobID : UUID) (oldStatus newStatus : JobStatus)
  | jobCancelRequested (jobID : UUID)
  | taskAssigned (taskID jobID : UUID) (taskType : TaskType) (workerID : String) (leaseTTL : Nat)
  | heartbeatReceived (taskID jobID attemptID : UUID)
  | attemptCompleted (taskID jobID attemptID : UUID) (workerID : String)
  | attemptFailed (taskID jobID attemptID : UUID) (workerID reason : String)
  | taskReaped (taskID jobID attemptID : UUID) (reason : String)
deriving DecidableEq

/-- The data store. `maxConcurrentPods` is `none` when SYSTEM_CONFIG has no row. -/
structure DB where
  jobs : Table JobRow.jobID
  jobConfigs : Table JobConfigRow.jobID
  tasks : Table TaskRow.taskID
  taskInputs : List TaskInputRow
  attempts : Table AttemptRow.attemptID
  outputs : List OutputRow
  maxConcurrentPods : Option Nat
  outbox : List Event

namespace DB

/-- The store after the migration, with a given quota row. -/
def initial (maxConcurrentPods : Option Nat) : DB where
  jobs := .empty
  jobConfigs := .empty
  tasks := .empty
  taskInputs := []
  attempts := .empty
  outputs := []
  maxConcurrentPods := maxConcurrentPods
  outbox := []

/-- The status of a job that exists. -/
def jobStatus (db : DB) (j : UUID) : Option JobStatus := (db.jobs.get? j).map JobRow.status

/-- The job of a task that exists. -/
def jobOf (db : DB) (t : UUID) : Option UUID := (db.tasks.get? t).map TaskRow.jobID

/-- The output rows of a task. -/
def outputsOf (db : DB) (t : UUID) : List OutputRow :=
  db.outputs.filter fun o => decide (o.taskID = t)

/-- The number of attempts that are Running. -/
def runningAttempts (db : DB) : Nat :=
  db.attempts.rows.countP fun a => decide (a.status = .running)

/-- The output rows of Completed Map tasks of the job whose partition is NULL or
`p`: the rows that QueryGetReduceTaskInputs joins. -/
def mapOutputs (db : DB) (job : UUID) (p : Nat) : List OutputRow :=
  db.outputs.filter fun o =>
    (match db.tasks.get? o.taskID with
      | some m => decide (m.jobID = job) && decide (m.taskType = .map) &&
          decide (m.status = .completed)
      | none => false) &&
    (decide (o.partitionIndex = none) || decide (o.partitionIndex = some p))

end DB

end KubeMapReduce
