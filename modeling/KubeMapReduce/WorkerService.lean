import KubeMapReduce.Attempts
import KubeMapReduce.Manifest
import KubeMapReduce.TaskStream

/-!
# The service for the workers

The manager answers a Ready request in two parts. GetNextTask commits the assignment of a task;
then the message is built, which can need an upload, and is sent. When the second part fails, the
stream ends with an error and the task stays In-Progress under an attempt that no worker has.

Register hands the assignment of a task to a worker that names its current attempt. It reads the
binding of the task to the attempt and neither the status of the task nor that of the attempt.
But CancelJob fails the tasks and the attempts of a job and keeps the bindings, and so does the
statement with which the reaper replaces a pool of workers.

* `WorkerServer.handleReady`, `answerReady_respond`: the handling of Ready, as on the task stream.
* `ready_error_iff`: a Ready request that ends the stream leaves the store as it was exactly if
  there was no task to hand out and no Reduce task to complete for want of inputs.
* `bindings_iff`: the runs in which a bound task is In-Progress under a Running attempt.
* `register_current`: in these runs Register returns an assignment only for such a task.
-/

namespace KubeMapReduce

open Tables Transactions Runs

/-! ## 1. Ready -/

/-- Why the handler ends the stream. -/
inductive ReadyErr where
  | workerIDRequired
  | getNextTask (e : Err)
  | assign (e : AssignErr)
  | send
deriving DecidableEq

inductive ReadyResult where
  | assigned (a : Pb.TaskAssignment)
  /-- The answer is an Ack without success. -/
  | refused
  | ended (e : ReadyErr)
deriving DecidableEq

/-- The errors of GetNextTask that are answered with an Ack. -/
def Err.waits : Err → Bool
  | .noIdleTasks | .jobCompleted | .jobFailed => true
  | _ => false

namespace WorkerServer

variable (s : WorkerServer)

/-- The frame for the result of GetNextTask. `sends` is whether the stream takes it. -/
def answerReady (sends : Bool) : Except Err Task → ReadyResult
  | .error e =>
    if e.waits then if sends then .refused else .ended .send
    else .ended (.getNextTask e)
  | .ok task =>
    match (s.applyManifestFallback task (directAssignment task)).1 with
    | .error e => .ended (.assign e)
    | .ok a => if sends then .assigned a else .ended .send

/-- The case of a Ready request in TaskStream, and the store after it. -/
def handleReady (scheduler : Scheduler) (jobID : UUID) (workerID : String)
    (attemptID leaseID : UUID) (sends : Bool) (now : Time) (locked : Resource → Bool) (db : DB) :
    ReadyResult × DB :=
  if workerID = "" then (.ended .workerIDRequired, db) else
  let r := transact sem now locked (getNextTask scheduler jobID workerID attemptID leaseID) db
  (s.answerReady sends r.1.result, r.2)

/-- Whether applyManifestFallback succeeds for the task that is returned. -/
def assigns : Except Err Task → Bool
  | .error _ => false
  | .ok task => (s.applyManifestFallback task (directAssignment task)).1.isOk

end WorkerServer

/-- The frame of the task stream. -/
def ReadyResult.response (granted : Option Assignment) : ReadyResult → Option StreamResponse
  | .assigned _ => granted.map .assignment
  | .refused => some (.ack false)
  | .ended _ => none

/-- On a stream whose sends succeed this is the handler of the task stream. -/
theorem answerReady_respond (s : WorkerServer) (result : Except Err Task) :
    (s.answerReady true result).response (StreamRequest.ready.grant (result.map .task)) =
      StreamRequest.ready.respond (s.assigns result) (result.map .task) := by
  cases result with
  | error e => cases e <;> rfl
  | ok task =>
    simp only [WorkerServer.answerReady, WorkerServer.assigns, Except.map]
    cases (s.applyManifestFallback task (directAssignment task)).1 with
    | error e => rfl
    | ok a => rfl

section Ready

variable {now : Time} {locked : Resource → Bool} {db : DB} {s : Scheduler} {j a : UUID}
  {workerID : String}

/-- Completing the empty reduces changes nothing exactly if there is none. -/
theorem completeEmpty_eq_iff : (Change.completeEmpty j).apply now db = db ↔
    ∀ t row, db.tasks.get? t = some row → ¬ (Change.completeEmpty j).Touches db row := by
  constructor
  · intro h t row hrow hc
    have hrow' : ((Change.completeEmpty j).apply now db).tasks.get? t = _ :=
      Change.task_touched hrow hc
    rw [h, hrow] at hrow'
    have hstatus : row.status = .completed := congrArg TaskRow.status (Option.some.inj hrow')
    rw [hc.2.2.1] at hstatus
    cases hstatus
  · intro h
    refine congrArg (fun tasks => { db with tasks := tasks }) (Table.updateWhere_eq_self ?_)
    refine fun row hrow => Bool.eq_false_iff.mpr fun hp => h _ row (Table.mem_rows_iff.mp hrow) ?_
    simpa [Change.Touches, and_assoc] using hp

/-- The store that is left when no task is found. -/
theorem FindsNone.kept_iff {out : Outcome Task} {db' : DB}
    (h : FindsNone s now locked db j workerID out db') :
    db' = db ↔ (Change.completeEmpty j).apply now db = db := by
  obtain ⟨tail, hcs, ⟨rfl, _⟩ | ⟨hnot, hdone, rfl, _⟩⟩ := h.changes
  · rw [changes_single hcs]
  · -- all tasks of the job are Completed now, and the status of a job is in no task
    refine iff_of_false (fun hdb => hnot (hdb ▸ hdone)) fun hdb => hnot ?_
    cases hcs with
    | cons hstep hrest =>
      obtain ⟨_, rfl⟩ := hstep
      rw [changes_single hrest, hdb] at hdone
      exact hdone

/-- What a GetNextTask call leaves behind: the store as it was exactly if it had no task to hand out
and none to complete, and in any case with an error that is not answered. -/
structure Leaves (s : Scheduler) (locked : Resource → Bool) (db : DB) (j : UUID)
    (workerID : String) (a : UUID) (out : Outcome Task) (db' : DB) : Prop where
  kept : db' = db ↔ ¬ FindsTask s locked db j workerID a ∧ ¬ CompletesEmpty s locked db j workerID
  task : ∀ task, out.result = .ok task → FindsTask s locked db j workerID a
  error : ∀ e, out.result = .error e → e.waits = false → db' = db

theorem leaves_getNextTask (s : Scheduler) (j : UUID) (workerID : String) (a lease : UUID) :
    Leads now locked db (getNextTask s j workerID a lease) db
      (Leaves s locked db j workerID a) := by
  have h : Leads now locked db (getNextTask s j workerID a lease) db _ := getNextTask_changes
  rcases h with h | h | ⟨ty, row, h⟩
  · obtain ⟨hdb, _, e, he⟩ := h.refused
    refine ⟨iff_of_true hdb h.idle, fun task ht => ?_, fun _ _ _ => hdb⟩
    cases ht.symm.trans he
  · obtain ⟨e, he, hwaits⟩ := h.error
    have hrest : ∀ row, Selectable s locked db j .reduce row →
        db.mapOutputs row.jobID row.replicaIndex = [] := by
      intro row hrow
      by_contra hin
      have hsel : Selectable s locked ((Change.completeEmpty j).apply now db) j .reduce row :=
        selectable_completeEmpty.mpr ⟨hrow, hin⟩
      exact h.rest row hsel
    have hno : ¬ FindsTask s locked db j workerID a := by
      intro hh
      rcases hh.task with ⟨row, hrow⟩ | ⟨-, row, hrow, hin⟩
      · exact hrow.maps h.maps
      · exact hin (hrest row hrow)
    refine ⟨h.kept_iff.trans (completeEmpty_eq_iff.trans ⟨fun hnone => ⟨hno, fun hc => ?_⟩, ?_⟩),
      fun task ht => ?_, fun e' he' hw => ?_⟩
    · obtain ⟨t, row, hrow, htouched⟩ := hc.empty
      exact hnone t row hrow htouched
    · rintro ⟨-, hempty⟩ t row hrow htouched
      exact hempty ⟨h.toServes, h.maps, ⟨t, row, hrow, htouched⟩, hrest⟩
    · cases ht.symm.trans he
    · cases he.symm.trans he'
      rcases hwaits with rfl | rfl <;> cases hw
  · refine ⟨iff_of_false ?_ fun hn => hn.1 h.toFindsTask, fun _ _ => h.toFindsTask, fun e he => ?_⟩
    · -- an assignment inserts the attempt
      intro hdb
      obtain ⟨att, hatt⟩ := h.attempt
      rw [hdb, h.fresh] at hatt
      cases hatt
    · obtain ⟨_, hok⟩ := h.result
      cases he.symm.trans hok

end Ready

/-- Why a stream is ended: GetNextTask has returned an error that is not answered, or a task for
which no message can be built, or the message is not sent. -/
theorem answerReady_ended {s : WorkerServer} {sends : Bool} {result : Except Err Task}
    {e : ReadyErr} (h : s.answerReady sends result = .ended e) :
    (∃ e', result = .error e' ∧ e'.waits = false ∧ e = .getNextTask e') ∨
      (∃ task e', result = .ok task ∧ e = .assign e') ∨ e = .send := by
  cases result with
  | error e' =>
    cases hw : e'.waits with
    | false =>
      rw [WorkerServer.answerReady, hw] at h
      cases h
      exact .inl ⟨e', rfl, hw, rfl⟩
    | true =>
      rw [WorkerServer.answerReady, hw] at h
      cases sends <;> cases h
      exact .inr (.inr rfl)
  | ok task =>
    unfold WorkerServer.answerReady at h
    dsimp only at h
    split at h
    · next e' _ =>
      cases h
      exact .inr (.inl ⟨task, e', rfl, rfl⟩)
    · cases sends <;> cases h
      exact .inr (.inr rfl)

/-- A Ready request that ends the stream with an error leaves the store as it was exactly if there
was no task to hand out and no Reduce task to complete for want of inputs, whatever the threshold
and the uploader are. So it is left by every error but that of a message that cannot be built, which
comes after the assignment of a task, and that of a Send. -/
theorem ready_error_iff (s : WorkerServer) (scheduler : Scheduler) (jobID : UUID)
    (workerID : String) (attemptID leaseID : UUID) (sends : Bool) (now : Time)
    (locked : Resource → Bool) (db : DB) {e : ReadyErr}
    (h : (s.handleReady scheduler jobID workerID attemptID leaseID sends now locked db).1 =
      .ended e) :
    ((s.handleReady scheduler jobID workerID attemptID leaseID sends now locked db).2 = db ↔
      ¬ FindsTask scheduler locked db jobID workerID attemptID ∧
        ¬ CompletesEmpty scheduler locked db jobID workerID) ∧
    ((∃ e', e = .assign e') → FindsTask scheduler locked db jobID workerID attemptID) ∧
    ((∀ e', e ≠ .assign e') → e ≠ .send →
      (s.handleReady scheduler jobID workerID attemptID leaseID sends now locked db).2 = db) := by
  have hleaves : Leads now locked db _ db _ :=
    leaves_getNextTask scheduler jobID workerID attemptID leaseID
  unfold WorkerServer.handleReady at h ⊢
  split
  · next hworker =>
    rw [if_pos hworker] at h
    cases h
    refine ⟨iff_of_true rfl ⟨fun hh => hh.worker hworker, fun hc => hc.worker hworker⟩, ?_,
      fun _ _ => rfl⟩
    rintro ⟨e', ⟨⟩⟩
  · next hworker =>
    rw [if_neg hworker] at h
    refine ⟨hleaves.kept, ?_, fun hassign hsend => ?_⟩
    · rintro ⟨e', rfl⟩
      obtain ⟨_, _, _, ⟨⟩⟩ | ⟨task, _, htask, -⟩ | ⟨⟨⟩⟩ := answerReady_ended h
      exact hleaves.task task htask
    · obtain ⟨e', herr, hwaits, -⟩ | ⟨_, e', -, he⟩ | he := answerReady_ended h
      · exact hleaves.error e' herr hwaits
      · exact absurd he (hassign e')
      · exact absurd he hsend

theorem ready_error_noJob :
    ∃ w, Run Step (World.initial none) smallStart w ∧
      (manifestServer.handleReady soloReplica 9 "a" 10 20 true 2 (fun _ => false) w.db).1 =
        .ended (.getNextTask .noRows) ∧
      (manifestServer.handleReady soloReplica 9 "a" 10 20 true 2 (fun _ => false) w.db).2 =
        w.db := by
  obtain ⟨w, hw, hended⟩ := (run_after (by decide) :
    ∃ w, Run Step (World.initial none) smallStart w ∧
      (manifestServer.handleReady soloReplica 9 "a" 10 20 true 2 (fun _ => false) w.db).1 =
        .ended (.getNextTask .noRows))
  exact ⟨w, hw, hended, (ready_error_iff manifestServer soloReplica 9 "a" 10 20 true 2
    (fun _ => false) w.db hended).2.2 nofun nofun⟩

/-- Nothing can be uploaded, and every message needs it. -/
def unreachableStorage : WorkerServer :=
  { manifestServer with
    manifestThresholdBytes := 10
    uploader := some fun _ _ _ => some "connection refused" }

/-- The upload of the manifest fails: the stream ends, and the task that was Idle is In-Progress
under a new attempt. -/
theorem ready_error_assigned :
    ∃ w, Run Step (World.initial none) smallStart w ∧
      (w.db.tasks.get? 2).map TaskRow.status = some .idle ∧ w.db.attempts.rows = [] ∧
      (unreachableStorage.handleReady soloReplica 1 "a" 10 20 true 2 (fun _ => false) w.db).1 =
        .ended (.assign (.unavailable
          "failed to upload manifest: failed to upload manifest: connection refused")) ∧
      ((unreachableStorage.handleReady soloReplica 1 "a" 10 20 true 2 (fun _ => false)
          w.db).2.tasks.get? 2).map (fun row => (row.status, row.currentAttemptID)) =
        some (.inProgress, some 10) ∧
      ((unreachableStorage.handleReady soloReplica 1 "a" 10 20 true 2 (fun _ => false)
          w.db).2.attempts.get? 10).map AttemptRow.status = some .running :=
  run_after (by decide +kernel)

/-! ## 2. Register -/

structure RegisterRequest where
  taskID : String
  attemptID : String

inductive GetTaskErr where
  | taskNotFound
  /-- The database refuses the text of the id. -/
  | query
  | noRows
  | attemptNotFound (attemptID taskID : UUID)
deriving DecidableEq

/-- The states of the store in the four statements of GetTaskByID, which run outside of a
transaction. -/
structure Snapshots where
  task : DB
  config : DB
  inputs : DB
  attempt : DB

/-- The statements of GetTaskByID lock nothing and read no clock. -/
def readOnly : Env Resource := ⟨0, fun _ => false, fun _ => false⟩

/-- The task with its metadata, once the row and the configuration are read. -/
def loadedTask (db : DB) (row : TaskRow) (cfg : JobConfigRow) (attemptID leaseID : UUID) : Task :=
  let task := (assignedTask row attemptID leaseID).withConfig cfg
  match row.taskType with
  | .reduce => { task with shuffleInputs := answer (.getReduceTaskInputs row.taskID) readOnly db }
  | .map => task.withSplits (answer (.getTaskInputs row.taskID) readOnly db)

/-- GetTaskByID: the task, and its current attempt. Without one the ids of the attempt and the
lease are empty texts, which the record has no value for; no caller reads them then. -/
def getTaskByID (db : Snapshots) (taskID : UUID) : Except GetTaskErr (Option UUID × Task) :=
  match db.task.tasks.get? taskID with
  | none => .error .taskNotFound
  | some row =>
    match answer (.getJobConfigByTask row.taskID) readOnly db.config with
    | none => .error .noRows
    | some cfg =>
      match row.currentAttemptID with
      | none => .ok (none, loadedTask db.inputs row cfg 0 0)
      | some x =>
        match db.attempt.attempts.get? x with
        | none => .error (.attemptNotFound x row.taskID)
        | some att => .ok (some x, loadedTask db.inputs row cfg x att.leaseID)

inductive RegisterErr where
  | invalidArgument (message : String)
  | notFound (message : String)
  | internal (e : GetTaskErr)
  | permissionDenied (message : String)
  | assign (e : AssignErr)
deriving DecidableEq

/-- The message of Register and the upload for it. `parse` is the database's reading of the text
of an id. -/
def WorkerServer.register (s : WorkerServer) (parse : String → Option UUID) (db : Snapshots)
    (req : RegisterRequest) : Except RegisterErr Pb.TaskAssignment × List ManifestObject :=
  if req.taskID = "" then (.error (.invalidArgument "task_id is required"), []) else
  if req.attemptID = "" then (.error (.invalidArgument "attempt_id is required"), []) else
  match parse req.taskID with
  | none => (.error (.internal .query), [])
  | some taskID =>
    match getTaskByID db taskID with
    | .error .taskNotFound => (.error (.notFound s!"task {req.taskID} not found"), [])
    | .error e => (.error (.internal e), [])
    | .ok (attemptID, task) =>
      if (attemptID.map toString).getD "" ≠ req.attemptID then
        (.error (.permissionDenied "attempt rejected"), [])
      else
        match s.applyManifestFallback task (directAssignment task) with
        | (.error e, stored) => (.error (.assign e), stored)
        | (.ok a, stored) => (.ok a, stored)

theorem getTaskByID_attempt {db : Snapshots} {t x : UUID} {task : Task}
    (h : getTaskByID db t = .ok (some x, task)) :
    ∃ row, db.task.tasks.get? t = some row ∧ row.currentAttemptID = some x := by
  unfold getTaskByID at h
  split at h
  · cases h
  · next row hrow =>
    refine ⟨row, hrow, ?_⟩
    split at h
    · cases h
    · split at h
      · cases h
      · next hx =>
        split at h
        · cases h
        · cases h
          exact hx

/-- Register compares the attempt with the binding of the task, and checks nothing else. -/
theorem register_bound {s : WorkerServer} {parse : String → Option UUID} {db : Snapshots}
    {req : RegisterRequest} {a : Pb.TaskAssignment} {stored : List ManifestObject}
    (h : s.register parse db req = (.ok a, stored)) :
    ∃ t row x, parse req.taskID = some t ∧ toString x = req.attemptID ∧
      db.task.tasks.get? t = some row ∧ row.currentAttemptID = some x := by
  unfold WorkerServer.register at h
  split at h
  · cases h
  split at h
  · cases h
  next hattempt =>
  split at h
  · cases h
  next t ht =>
  split at h
  · cases h
  · cases h
  next attemptID task hget =>
  split at h
  · cases h
  next heq =>
  rw [not_not] at heq
  cases attemptID with
  | none => exact absurd heq.symm hattempt
  | some x =>
    obtain ⟨row, hrow, hx⟩ := getTaskByID_attempt hget
    exact ⟨t, row, x, ht, heq, hrow, hx⟩

/-! ## 3. The bindings -/

/-- A task that is bound to an attempt is In-Progress. -/
def Bound (db : DB) : Prop :=
  ∀ t row x, db.tasks.get? t = some row → row.currentAttemptID = some x → row.status = .inProgress

section Changes

variable {now : Time} {locked : Resource → Bool} {db : DB}

/-- Every change but a cancellation binds a task to an attempt when it puts it In-Progress, and
frees it otherwise. -/
theorem Bound.apply (hb : Bound db) {c : Change} (hg : c.Guard now db)
    (hcancel : ∀ j, c ≠ .cancel j) : Bound (c.apply now db) := by
  intro t row x h hx
  rcases Change.task_cases h with ⟨rfl, _⟩ | ⟨row₀, hrow, ⟨_, rfl⟩ | ⟨_, rfl⟩⟩
  · rw [hg.2.2.1] at hx
    cases hx
  · cases c with
    | assign => rfl
    | cancel j => exact absurd rfl (hcancel j)
    | _ => cases hx
  · exact hb t row x hrow hx

/-- CancelJob leaves the store, or the tasks of the job that are not Completed are Failed and
keep their attempts. -/
theorem cancelJob_tasks (s : Scheduler) (j : UUID) (now : Time) (locked : Resource → Bool)
    (db : DB) :
    (perform (.cancelJob s j) now locked db).2 = db ∧
        (perform (.cancelJob s j) now locked db).1.post = [] ∨
      (perform (.cancelJob s j) now locked db).1.post ≠ [] ∧
        ∀ t, (perform (.cancelJob s j) now locked db).2.tasks.get? t =
          (db.tasks.get? t).map fun row =>
            if decide (row.jobID = j) && decide (row.status ≠ .completed)
            then row.set ⟨.failed, id⟩ else row := by
  obtain ⟨out, hout, ⟨hdb, hpost⟩ | ⟨_, old, cs, _, hpost, hcs, hset⟩⟩ :=
    @performed _ (.cancelJob s j) now locked db _ _ _ rfl cancelJob_changes
  · exact .inl ⟨hdb, by rw [hout]; exact hpost⟩
  · refine .inr ⟨?_, fun t => ?_⟩
    · rw [hout, Outcome.map, hpost]
      exact List.cons_ne_nil _ _
    obtain ⟨d, hd, hrest⟩ := hcs.of_append
    have hsame : d.tasks = db.tasks := by
      rcases hset with ⟨_, rfl⟩ | ⟨_, rfl⟩
      · cases hd
        rfl
      · cases hd with
        | cons hstep hnil =>
          obtain ⟨_, rfl⟩ := hstep
          cases hnil
          rfl
    cases hrest with
    | cons hstep hlogs =>
      obtain ⟨_, rfl⟩ := hstep
      obtain ⟨outbox, heq⟩ := logs_eq hlogs
      rw [heq, ← hsame]
      exact d.setTasks_get? _ _ t

end Changes

/-- A job is cancelled only when none of its tasks is In-Progress. -/
def cancelsIdle (w : World) : Label → Prop
  | .call (.cancelJob s j) now locked =>
    (perform (.cancelJob s j) now locked w.db).1.post = [] ∨
      ∀ row ∈ w.db.tasks.rows, row.jobID = j → row.status ≠ .inProgress
  | _ => True

instance (w : World) (a : Label) : Decidable (cancelsIdle w a) := by
  unfold cancelsIdle
  split <;> infer_instance

/-- A step keeps the tasks bound that are In-Progress, and no others, exactly when it meets the
condition. -/
theorem bound_step {w w' : World} {a : Label} (hw : Coherent w.phase w.db) (hb : Bound w.db)
    (h : Step w a w') : Bound w'.db ↔ cancelsIdle w a := by
  by_cases ha : ∃ s j now locked, a = .call (.cancelJob s j) now locked
  · obtain ⟨s, j, now, locked, rfl⟩ := ha
    obtain ⟨_, _, hdb, _⟩ := step_call h
    rw [hdb]
    unfold cancelsIdle
    rcases cancelJob_tasks s j now locked w.db with ⟨hsame, hpost⟩ | ⟨hpost, htasks⟩
    · rw [hsame]
      exact ⟨fun _ => .inl hpost, fun _ => hb⟩
    · constructor
      · refine fun hb' => .inr fun row hrow hj hs => ?_
        have hget := Table.mem_rows_iff.mp hrow
        obtain ⟨x, hx⟩ := hw.linked.busy _ row hget hs
        have hget' := htasks row.taskID
        rw [hget, Option.map_some, if_pos (by simp [hj, hs])] at hget'
        cases hb' _ _ x hget' hx
      · rintro (hnot | hidle)
        · exact absurd hnot hpost
        · intro t row x hrow hx
          rw [htasks] at hrow
          obtain ⟨row₀, hrow₀, rfl⟩ := Option.map_eq_some_iff.mp hrow
          split at hx
          · next hp =>
            have hs := hb t row₀ x hrow₀ hx
            simp only [Bool.and_eq_true, decide_eq_true_eq] at hp
            exact absurd hs (hidle row₀ (Table.mem_of_get? hrow₀) hp.1)
          · next hp =>
            rw [if_neg hp]
            exact hb t row₀ x hrow₀ hx
  · have hall : cancelsIdle w a := by
      unfold cancelsIdle
      split
      · next s j now locked => exact absurd ⟨s, j, now, locked, rfl⟩ ha
      · trivial
    refine ⟨fun _ => hall, fun _ => ?_⟩
    obtain ⟨now, cs, _, hcs, hm⟩ := step_changes h
    refine hcs.keeps ?_ hb
    rintro d c hc hg hd
    refine hd.apply hg ?_
    rintro j rfl
    obtain ⟨s, now', locked, rfl⟩ := hm _ hc
    exact ha ⟨s, j, now', locked, rfl⟩

/-- The bound tasks are In-Progress, and these have a Running attempt, except in the middle of
their replica's Recover. -/
def BindingsKept (w : World) : Prop := Bound w.db ∧ AllTracked w

/-- The step cancels no job with a task In-Progress, and replaces no pool of workers while one of
them runs an attempt. -/
def keepsBindings (w : World) (a : Label) : Prop := cancelsIdle w a ∧ respawnsIdle w a

instance (w : World) (a : Label) : Decidable (keepsBindings w a) :=
  inferInstanceAs (Decidable (_ ∧ _))

/-- The bindings are kept up in all states of a run exactly when all its steps meet the
condition. -/
theorem bindings_iff (q : Option Nat) (as : List Label) (w : World) :
    Run (fun v a v' => Step v a v' ∧ BindingsKept v') (World.initial q) as w ↔
      Run (Under Step keepsBindings) (World.initial q) as w := by
  refine Run.under_iff (I := fun w : World => Coherent w.phase w.db) ?_ (coherent_initial q)
    ⟨nofun, allTracked_initial q⟩
  intro v a v' hw hk h
  exact ⟨coherent_step hw h, and_congr (bound_step hw hk.1 h) (tracked_step hw hk.2 h)⟩

/-- In a run that keeps the bindings up, Register returns an assignment only for a task that is
In-Progress under the attempt of the request, which is Running, when it reads the task. The
replica of the task must not be in the middle of its Recover. -/
theorem register_current {q : Option Nat} {as : List Label} {w : World}
    (hrun : Run (Under Step keepsBindings) (World.initial q) as w) {s : WorkerServer}
    {parse : String → Option UUID} {db : Snapshots} {req : RegisterRequest}
    {a : Pb.TaskAssignment} {stored : List ManifestObject} (hdb : db.task = w.db)
    (hphase : ∀ t r, parse req.taskID = some t → w.db.replicaOf t = some r →
      ¬ (w.phase r).midRecover)
    (hreg : s.register parse db req = (.ok a, stored)) :
    ∃ t x row att, parse req.taskID = some t ∧ toString x = req.attemptID ∧
      Change.Current w.db t x row att ∧ att.status = .running := by
  obtain ⟨hbound, htracked⟩ : BindingsKept w :=
    ((bindings_iff q as w).mpr hrun).invariant (fun _ _ _ _ h => h.2)
      ⟨nofun, allTracked_initial q⟩
  obtain ⟨t, row, x, ht, hx, hrow, hcur⟩ := register_bound hreg
  rw [hdb] at hrow
  obtain ⟨y, att, hc, _, hatt⟩ := htracked t row hrow (hbound t row x hrow hcur)
    fun r => hphase t r ht
  cases hc.current.symm.trans hcur
  exact ⟨t, x, row, att, ht, hx, hc, hatt⟩

/-- A worker registers the attempt that it has got. -/
def firstAttempt : RegisterRequest := ⟨"2", "10"⟩

def parseTwo (text : String) : Option UUID := if text = "2" then some 2 else none

/-- Whether Register returns an assignment in this state. -/
def registers (s : WorkerServer) (db : DB) (req : RegisterRequest) : Bool :=
  (s.register parseTwo ⟨db, db, db, db⟩ req).1.isOk

theorem registers_iff {s : WorkerServer} {db : DB} {req : RegisterRequest} :
    registers s db req = true ↔
      ∃ a stored, s.register parseTwo ⟨db, db, db, db⟩ req = (.ok a, stored) := by
  unfold registers
  rcases s.register parseTwo ⟨db, db, db, db⟩ req with ⟨e | a, stored⟩
  · exact ⟨nofun, nofun⟩
  · exact ⟨fun _ => ⟨a, stored, rfl⟩, fun _ => rfl⟩

theorem register_current_first :
    ∃ w a stored, Run (Under Step keepsBindings) (World.initial none)
        (smallStart ++ [calling (.getNextTask soloReplica 1 "a" 10 20) 2]) w ∧
      manifestServer.register parseTwo ⟨w.db, w.db, w.db, w.db⟩ firstAttempt = (.ok a, stored) ∧
      ∃ t x row att, parseTwo "2" = some t ∧ toString x = "10" ∧
        Change.Current w.db t x row att ∧ att.status = .running := by
  obtain ⟨w, hw, hreg, hrep, hphase⟩ := (run_afterUnder (by decide +kernel) :
    ∃ w, Run (Under Step keepsBindings) (World.initial none)
        (smallStart ++ [calling (.getNextTask soloReplica 1 "a" 10 20) 2]) w ∧
      registers manifestServer w.db firstAttempt = true ∧ w.db.replicaOf 2 = some 0 ∧
      w.phase 0 = .serving)
  obtain ⟨a, stored, hreg⟩ := registers_iff.mp hreg
  refine ⟨w, a, stored, hw, hreg, register_current hw rfl (fun t r ht hr hmid => ?_) hreg⟩
  cases (Option.some.inj ht : 2 = t)
  cases hrep.symm.trans hr
  rw [hphase] at hmid
  rcases hmid with hmid | hmid <;> cases hmid

/-- The job of the worker is cancelled. Its task and its attempt have failed, and it gets the
assignment. -/
theorem register_cancelled :
    ∃ w, Run Step (World.initial none)
        (smallStart ++ [calling (.getNextTask soloReplica 1 "a" 10 20) 2,
          calling (.cancelJob soloReplica 1) 3]) w ∧
      (∃ a stored, manifestServer.register parseTwo ⟨w.db, w.db, w.db, w.db⟩ firstAttempt =
        (.ok a, stored)) ∧
      (w.db.tasks.get? 2).map (fun row => (row.status, row.currentAttemptID)) =
        some (.failed, some 10) ∧
      (w.db.attempts.get? 10).map AttemptRow.status = some .failed ∧
      w.db.jobStatus 1 = some .cleaning := by
  simp only [← registers_iff]
  exact run_after (by decide +kernel)

end KubeMapReduce
