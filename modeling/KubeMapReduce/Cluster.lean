import Mathlib.Logic.Function.Basic
import KubeMapReduce.Atomic

/-!
# Runs of the cluster

Any number of manager replicas and workers over one store. A step is one whole
transaction of an operation, called with arbitrary arguments (a zombie worker may
replay old attempt and lease IDs), one action that an operation left to do after its
transaction, or the restart of a replica. The clock never goes back. A restarted
replica runs the statements of Recover before it serves GetNextTask and runs the
reaper.

The in-memory state of a replica is not part of the cluster: the heartbeat map and
the clock of a reaper pass and the terminal state of a finalizeJob call are arbitrary.
-/

namespace KubeMapReduce

open Tables Transactions Programs Runs

variable {locked : Resource → Bool} {now : Time} {c : Change} {r : Nat} {req : ScheduleJobRequest}
  {s : Scheduler} {j t : UUID}

/-! ## 1. Calls -/

/-- A transaction with its arguments. -/
inductive Call where
  | createJob (s : Scheduler) (rec : JobRecord)
  | scheduleJob (s : Scheduler) (req : ScheduleJobRequest)
  | getNextTask (s : Scheduler) (jobID : UUID) (workerID : String) (attemptID leaseID : UUID)
  | renewLease (s : Scheduler) (taskID attemptID leaseID : UUID) (sampled : Bool)
  | completeTask (s : Scheduler) (taskID attemptID leaseID : UUID)
      (outputURIs outputChecksums : List String)
  | failTask (s : Scheduler) (taskID attemptID leaseID : UUID) (reason : String)
  | cancelJob (s : Scheduler) (jobID : UUID)
  | failStaleTasks (s : Scheduler) (heartbeats : UUID → Option Time) (clock : Time)
  | finalizeJob (jobID : UUID) (terminalState : TerminalState)
  | recoverFailAttempts (s : Scheduler)
  | recoverResetTasks (s : Scheduler)
  | recoverWorkerPools (s : Scheduler)
  | failRunningAttemptsByJob (jobID : UUID)

/-- What a call returns. -/
inductive Reply where
  | done
  | task (t : Task)
  | count (n : Nat)
deriving DecidableEq

def Outcome.map {α β : Type} (f : α → β) (out : Outcome α) : Outcome β :=
  ⟨out.result.map f, out.post⟩

/-- The program of a call. -/
def code : Call → Tx Reply
  | .createJob s rec => (createJob s rec).map (.map fun _ => .done)
  | .scheduleJob s req => (scheduleJob s req).map (.map fun _ => .done)
  | .getNextTask s j worker a lease => (getNextTask s j worker a lease).map (.map .task)
  | .renewLease s t a lease sampled => (renewLease s t a lease sampled).map (.map fun _ => .done)
  | .completeTask s t a lease us cks => (completeTask s t a lease us cks).map (.map fun _ => .done)
  | .failTask s t a lease reason => (failTask s t a lease reason).map (.map fun _ => .done)
  | .cancelJob s j => (cancelJob s j).map (.map fun _ => .done)
  | .failStaleTasks s heartbeats clock => (failStaleTasks s heartbeats clock).map (.map .count)
  | .finalizeJob j ts => (finalizeJob j ts).map (.map fun _ => .done)
  | .recoverFailAttempts s => (recoverFailAttempts s).map (.map fun _ => .done)
  | .recoverResetTasks s => (recoverResetTasks s).map (.map fun _ => .done)
  | .recoverWorkerPools s => (recoverWorkerPools s).map (.map fun _ => .done)
  | .failRunningAttemptsByJob j => (failRunningAttemptsByJob j).map (.map fun _ => .done)

/-! ## 2. Steps -/

/-- How far a replica has come since it was last started. -/
inductive Phase where
  | down
  | interrupted
  | attemptsFailed
  | tasksReset
  | serving
deriving DecidableEq

namespace Phase

/-- The replica has failed its attempts and has not reset its tasks: it is in the middle of
Recover, or its process ended there. -/
def midRecover (p : Phase) : Prop := p = .attemptsFailed ∨ p = .interrupted

instance (p : Phase) : Decidable p.midRecover := by
  unfold midRecover
  infer_instance

/-- The process of the replica ends. -/
def stop (p : Phase) : Phase := if p.midRecover then .interrupted else .down

end Phase

structure World where
  db : DB
  now : Time
  phase : Nat → Phase
  /-- What operations have left to do, oldest first in each thread. -/
  threads : List (List PostAction)

variable {w w' : World} {P : World → Prop}

def World.initial (maxConcurrentPods : Option Nat) : World :=
  ⟨DB.initial maxConcurrentPods, 0, fun _ => .down, []⟩

inductive Label where
  | call (c : Call) (now : Time) (locked : Resource → Bool)
  | post (thread : Nat) (action : PostAction) (now : Time)
  | restart (replicaIndex : Nat)

variable {a : Label} {as : List Label}

/-- The replica of the call is far enough to make it. -/
def enabled (phase : Nat → Phase) : Call → Bool
  | .getNextTask s _ _ _ _ => decide (phase s.replicaIndex = .serving)
  | .failStaleTasks s _ _ => decide (phase s.replicaIndex = .serving)
  | .recoverFailAttempts s =>
    decide (phase s.replicaIndex = .down) || decide (phase s.replicaIndex = .interrupted)
  | .recoverResetTasks s => decide (phase s.replicaIndex = .attemptsFailed)
  | .recoverWorkerPools s => decide (phase s.replicaIndex = .tasksReset)
  -- issued by the reaper only, as an action after its commit
  | .failRunningAttemptsByJob _ => false
  | _ => true

/-- The phases after the call. -/
def advance (phase : Nat → Phase) : Call → Nat → Phase
  | .recoverFailAttempts s => Function.update phase s.replicaIndex .attemptsFailed
  | .recoverResetTasks s => Function.update phase s.replicaIndex .tasksReset
  | .recoverWorkerPools s => Function.update phase s.replicaIndex .serving
  | _ => phase

/-- The transaction of a call in one piece. -/
def perform (c : Call) (now : Time) (locked : Resource → Bool) (db : DB) : Outcome Reply × DB :=
  transact sem now locked (code c) db

/-- The transaction of the call commits. -/
def Committed (c : Call) (now : Time) (locked : Resource → Bool) (db : DB) : Prop :=
  commits sem (atomically now locked) (code c) db = true

instance (c : Call) (now : Time) (locked : Resource → Bool) (db : DB) :
    Decidable (Committed c now locked db) := by
  unfold Committed
  infer_instance

theorem perform_of_not_committed {c : Call} {db : DB} (h : ¬ Committed c now locked db) :
    (perform c now locked db).2 = db :=
  exec_of_not_commits (Bool.eq_false_iff.mpr h)

/-- The store after an action. -/
def act (now : Time) (db : DB) : PostAction → DB
  | .failRunningAttemptsByJob j =>
    (perform (.failRunningAttemptsByJob j) now (fun _ => false) db).2
  | _ => db

def next (w : World) : Label → Option World
  | .call c now locked =>
    if w.now ≤ now ∧ enabled w.phase c = true then
      let (out, db) := perform c now locked w.db
      some ⟨db, now, advance w.phase c, w.threads ++ out.post⟩
    else none
  | .post i action now =>
    match w.threads[i]? with
    | some (head :: rest) =>
      if w.now ≤ now ∧ head = action then
        some ⟨act now w.db action, now, w.phase, w.threads.set i rest⟩
      else none
    | _ => none
  | .restart r => some { w with phase := Function.update w.phase r (w.phase r).stop }

/-- A step of the cluster. -/
abbrev Step : World → Label → World → Prop := Steps next

/-! ## 3. What a step changes -/

theorem step_call {c : Call} (h : Step w (.call c now locked) w') :
    w.now ≤ now ∧ enabled w.phase c = true ∧ w'.db = (perform c now locked w.db).2 ∧ w'.now = now ∧
      w'.phase = advance w.phase c ∧
      w'.threads = w.threads ++ (perform c now locked w.db).1.post := by
  simp only [Steps, next] at h
  split at h
  · next hc =>
    cases h
    exact ⟨hc.1, hc.2, rfl, rfl, rfl, rfl⟩
  · cases h

theorem step_post {i : Nat} {action : PostAction} (h : Step w (.post i action now) w') :
    ∃ rest, w.threads[i]? = some (action :: rest) ∧ w.now ≤ now ∧ w'.db = act now w.db action ∧
      w'.now = now ∧ w'.phase = w.phase ∧ w'.threads = w.threads.set i rest := by
  simp only [Steps, next] at h
  split at h
  · next head rest hi =>
    split at h
    · next hc =>
      cases h
      obtain ⟨hn, rfl⟩ := hc
      exact ⟨rest, hi, hn, rfl, rfl, rfl, rfl⟩
    · cases h
  · cases h

theorem step_restart (h : Step w (.restart r) w') :
    w' = { w with phase := Function.update w.phase r (w.phase r).stop } :=
  (Option.some.inj h).symm

/-- A restart does not end the middle of Recover. -/
theorem midRecover_restart {r' : Nat} (h : Step w (.restart r') w') (r : Nat) :
    (w'.phase r).midRecover ↔ (w.phase r).midRecover := by
  rw [step_restart h]
  by_cases he : r = r'
  · subst he
    dsimp only
    rw [Function.update_self, Phase.stop]
    split
    · next hr => exact ⟨fun _ => hr, fun _ => .inr rfl⟩
    · next hr =>
      refine ⟨fun h => ?_, fun h => absurd h hr⟩
      rcases h with h | h <;> cases h
  · dsimp only
    rw [Function.update_of_ne he]

/-- A step with this label can find that the job is over and move it to Cleaning. -/
def Closes : Label → UUID → Prop
  | .call (.getNextTask _ j' _ _ _) _ _, j => j' = j
  | .call (.cancelJob _ j') _ _, j => j' = j
  | .call (.completeTask _ _ _ _ _ _) _ _, _ => True
  | .call (.failTask _ _ _ _ _) _ _, _ => True
  | .call (.failStaleTasks _ _ _) _ _, _ => True
  | _, _ => False

/-- The changes that a step with this label can make. -/
def Makes (a : Label) : Change → Prop
  | .assign _ _ r => ∃ s j worker att lease now locked,
      a = .call (.getNextTask s j worker att lease) now locked ∧ r = s.replicaIndex
  | .complete t att lease skew rows => ∃ s us cks now locked,
      a = .call (.completeTask s t att lease us cks) now locked ∧
        skew = s.leaseClockSkewSeconds ∧ rows = outputRows t us cks ∧ us.length = cks.length
  | .release t att _ =>
      (∃ s lease reason now locked, a = .call (.failTask s t att lease reason) now locked) ∨
      ∃ s heartbeats clock now locked, a = .call (.failStaleTasks s heartbeats clock) now locked
  | .completeEmpty j => ∃ s worker att lease now locked,
      a = .call (.getNextTask s j worker att lease) now locked
  | .cancel j => ∃ s now locked, a = .call (.cancelJob s j) now locked
  | .failAttempts j => ∃ i now, a = .post i (.failRunningAttemptsByJob j) now
  | .failReplica r => ∃ s now locked, a = .call (.recoverFailAttempts s) now locked ∧
      r = s.replicaIndex
  | .resetReplica r => ∃ s now locked, a = .call (.recoverResetTasks s) now locked ∧
      r = s.replicaIndex
  | .renew att => ∃ s t lease sampled now locked,
      a = .call (.renewLease s t att lease sampled) now locked
  | .setJob j status => status = .running ∧ (∃ s worker att lease now locked,
        a = .call (.getNextTask s j worker att lease) now locked) ∨
      status = .cleaning ∧ Closes a j ∨
      ∃ ts now locked, a = .call (.finalizeJob j ts) now locked ∧ status = ts.status
  | .addTask row => ∃ s req now locked, a = .call (.scheduleJob s req) now locked ∧
      s.uuidParse req.jobID = some row.jobID
  | _ => True

/-- The job whose row of JOBS or JOB_CONFIGS the change adds. -/
def Change.founds : Change → Option UUID
  | .addJob row => some row.jobID
  | .addConfig row => some row.jobID
  | _ => none

/-- The job that a step submits. -/
def Label.submitted : Label → Option UUID
  | .call (.createJob s rec) _ _ => s.uuidParse rec.jobID
  | .call (.scheduleJob s req) _ _ => s.uuidParse req.jobID
  | _ => none

/-- A step with this label can make the change, and adds the rows of no job but the one it
submits. -/
structure Allows (a : Label) (c : Change) : Prop where
  makes : Makes a c
  founds : ∀ j, c.founds = some j → a.submitted = some j

theorem Makes.allows (h : Makes a c) (hf : c.founds = none) : Allows a c := by
  refine ⟨h, fun j hj => ?_⟩
  rw [hf] at hj
  cases hj

/-- The result of a call, from the theorem about its operation. -/
theorem performed {α : Type} {c : Call} {now : Time} {locked : Resource → Bool} {db : DB}
    {p : Tx α} {f : α → Reply} {Φ : Outcome α → DB → Prop} (hc : code c = p.map (.map f))
    (h : Leads now locked db p db Φ) :
    ∃ out : Outcome α, (perform c now locked db).1 = out.map f ∧
      Φ out (perform c now locked db).2 := by
  unfold perform transact
  rw [hc]
  exact (ends_map (Ψ := fun r d => ∃ out : Outcome α, r = out.map f ∧ Φ out d)).mpr ⟨_, rfl, h⟩

/-- The changes of a ScheduleJob call that is not refused. -/
theorem perform_scheduleJob {db : DB} (hj : s.uuidParse req.jobID = some j)
    (hok : (perform (.scheduleJob s req) now locked db).1.result.isOk = true) :
    ∃ cs, Changes now db cs (perform (.scheduleJob s req) now locked db).2 ∧
      Submits s req j cs := by
  obtain ⟨out, hout, hr | ⟨_, j', cs, hj', _, hcs, hsub⟩⟩ :=
    performed (c := .scheduleJob s req) rfl scheduleJob_changes
  · obtain ⟨_, _, e, he⟩ := hr
    rw [hout, Outcome.map, he] at hok
    cases hok
  · cases hj.symm.trans hj'
    exact ⟨cs, hcs, hsub⟩

/-- A GetNextTask call that succeeds hands out a task. -/
theorem getNextTask_handed {a lease : UUID} {worker : String} {db : DB}
    (h : (perform (.getNextTask s j worker a lease) now locked db).1.result.isOk = true) :
    ∃ (out : Outcome Task) (ty : TaskType) (row : TaskRow),
      (perform (.getNextTask s j worker a lease) now locked db).1 = out.map .task ∧
      HandsOver s now locked db j worker a lease ty row out
        (perform (.getNextTask s j worker a lease) now locked db).2 := by
  obtain ⟨out, hout, hr | hr | ⟨ty, row, hr⟩⟩ :=
    performed (c := .getNextTask s j worker a lease) rfl getNextTask_changes
  · obtain ⟨e, he⟩ := hr.refused.2.2
    rw [hout, Outcome.map, he] at h
    cases h
  · obtain ⟨e, he, _⟩ := hr.error
    rw [hout, Outcome.map, he] at h
    cases h
  · exact ⟨out, ty, row, hout, hr⟩

/-- The task that GetNextTask hands out was an Idle task of the job; a Reduce task comes after
the Map phase, with the output rows for its partition. -/
theorem getNextTask_ok {a lease : UUID} {worker : String} {db : DB} {task : Task}
    (h : (perform (.getNextTask s j worker a lease) now locked db).1.result = .ok (.task task)) :
    ∃ row, db.tasks.get? task.id = some row ∧ row.jobID = j ∧ row.status = .idle ∧
      task.jobID = j ∧ task.type = row.taskType ∧
      (row.taskType = .reduce → db.MapsDone j ∧ db.mapOutputs j row.replicaIndex ≠ [] ∧
        task.reducePartition = row.replicaIndex ∧
        task.shuffleInputs = (db.mapOutputs j row.replicaIndex).map OutputRow.ref) := by
  obtain ⟨out, ty, row, hout, hr⟩ := getNextTask_handed (by rw [h]; rfl)
  obtain ⟨cfg, hok⟩ := hr.result
  rw [hout, Outcome.map, hok] at h
  cases h
  have hp := hr.picked
  refine ⟨row, by rw [handedOut_id]; exact hr.row_eq, hp.job, hp.idle,
    (handedOut_jobID ..).trans hp.job, handedOut_type .., fun hty => ?_⟩
  obtain rfl : ty = .reduce := hp.type.symm.trans hty
  dsimp only [DB.swept] at hp
  obtain ⟨_, hin⟩ := selectable_completeEmpty.mp hp.toSelectable
  rw [hp.job] at hin
  refine ⟨hr.maps rfl, hin, ?_⟩
  unfold handedOut
  rw [hp.type]
  dsimp only [DB.swept]
  rw [mapOutputs_completeEmpty, hp.job]
  exact ⟨if_pos hp.type, rfl⟩

theorem allows_logs {es : List Event} (h : c ∈ logs s es) : Allows a c := by
  obtain ⟨e, rfl⟩ := mem_logs h
  exact Makes.allows trivial rfl

theorem allows_inserts (hj : s.uuidParse req.jobID = some j) (h : Inserts j c) :
    Allows (.call (.scheduleJob s req) now locked) c := by
  cases c with
  | addTask row => exact Makes.allows ⟨s, req, now, locked, rfl, h.symm ▸ hj⟩ rfl
  | addJob row | addConfig row =>
    refine ⟨trivial, ?_⟩
    rintro _ ⟨⟩
    exact h.symm ▸ hj
  | addInput _ | log _ => exact Makes.allows trivial rfl
  | _ => exact h.elim

/-- GetNextTask assigns only a task of the job that is Idle before it. -/
theorem getNextTask_assigns (s : Scheduler) (j : UUID) (worker : String) (a lease : UUID)
    (now : Time) (locked : Resource → Bool) (db : DB) :
    ∃ cs, Changes now db cs (perform (.getNextTask s j worker a lease) now locked db).2 ∧
      (∀ ch ∈ cs, Allows (.call (.getNextTask s j worker a lease) now locked) ch) ∧
      ∀ t att r, .assign t att r ∈ cs →
        ∃ row, db.tasks.get? t = some row ∧ row.jobID = j ∧ row.status = .idle := by
  obtain ⟨_, _, h | h | ⟨ty, row, h⟩⟩ :=
    performed (c := .getNextTask s j worker a lease) rfl getNextTask_changes
  · exact ⟨[], h.refused.1 ▸ .nil _, nofun, nofun⟩
  · obtain ⟨tail, hcs, htail⟩ := h.changes
    refine ⟨_, hcs, List.forall_mem_cons.mpr
      ⟨Makes.allows ⟨s, worker, a, lease, now, locked, rfl⟩ rfl, ?_⟩, fun t att r hch => ?_⟩
    · rcases htail with ⟨rfl, _⟩ | ⟨_, _, rfl, _⟩
      · nofun
      · exact List.forall_mem_singleton.mpr (Makes.allows (.inr (.inl ⟨rfl, rfl⟩)) rfl)
    · rcases htail with ⟨rfl, _⟩ | ⟨_, _, rfl, _⟩ <;> simp at hch
  · refine ⟨_, h.changes, fun ch hch => ?_, fun t att r hch => ?_⟩
    · rcases mem_handout hch with rfl | rfl | rfl | ⟨e, rfl⟩
      · exact Makes.allows ⟨s, worker, a, lease, now, locked, rfl⟩ rfl
      · exact Makes.allows ⟨s, j, worker, a, lease, now, locked, rfl, rfl⟩ rfl
      · exact Makes.allows (.inl ⟨rfl, s, worker, a, lease, now, locked, rfl⟩) rfl
      · exact Makes.allows trivial rfl
    · obtain ⟨rfl, _⟩ := assign_handout hch
      exact ⟨row, h.row_eq, h.picked.job, h.picked.idle⟩

/-- What CompleteTask and FailTask write after the task: the job goes to Cleaning, and events. -/
def Change.Epilogue : Change → Prop
  | .setJob _ status => status = .cleaning
  | .log _ => True
  | _ => False

theorem Change.Epilogue.allows (hc : c.Epilogue) (ha : ∀ j, Closes a j) : Allows a c := by
  cases c with
  | setJob j => exact Makes.allows (.inr (.inl ⟨hc, ha j⟩)) rfl
  | log => exact Makes.allows trivial rfl
  | _ => exact hc.elim

theorem Reported.changes {x : UUID} {db db' : DB} {e : Event} {status : JobStatus} {closes : Prop}
    {out : Outcome Unit} (h : Reported s now db t x j c e status closes out db') :
    ∃ tail, Changes now db (c :: tail) db' ∧ ∀ ch ∈ tail, ch.Epilogue := by
  have hlogs : ∀ es, ∀ ch ∈ logs s es, ch.Epilogue := by
    intro es ch hch
    obtain ⟨e, rfl⟩ := mem_logs hch
    trivial
  rcases h.course with ⟨hcs, _⟩ | ⟨_, hcs, _⟩
  · exact ⟨_, hcs, hlogs _⟩
  · exact ⟨_, hcs, List.forall_mem_cons.mpr ⟨rfl, hlogs _⟩⟩

theorem Change.Epilogue.not_complete (hc : c.Epilogue) (t a lease : UUID) (skew : Nat)
    (rows : List OutputRow) : c ≠ .complete t a lease skew rows := by
  rintro rfl
  exact hc

/-- A CompleteTask call is refused, or it completes the task with its own rows. -/
theorem completeTask_perform (s : Scheduler) (t a lease : UUID) (us cks : List String)
    (now : Time) (locked : Resource → Bool) (db : DB) :
    (perform (.completeTask s t a lease us cks) now locked db).2 = db ∧
      (∃ e, (perform (.completeTask s t a lease us cks) now locked db).1.result = .error e) ∨
    (perform (.completeTask s t a lease us cks) now locked db).1.result = .ok .done ∧
      us.length = cks.length ∧ ∃ tail,
        Changes now db
          (.complete t a lease s.leaseClockSkewSeconds (outputRows t us cks) :: tail)
          (perform (.completeTask s t a lease us cks) now locked db).2 ∧
        ∀ c ∈ tail, c.Epilogue := by
  obtain ⟨out, hres, hr | ⟨hlen, j, hr⟩⟩ := performed
    (c := .completeTask s t a lease us cks) rfl completeTask_changes
  · obtain ⟨e, he⟩ := hr.2.2
    refine .inl ⟨hr.1, e, ?_⟩
    rw [hres, Outcome.map, he]
    rfl
  · refine .inr ⟨?_, hlen, hr.changes⟩
    rw [hres, Outcome.map, hr.result]
    rfl

/-- A call makes only the changes of its operation. -/
theorem perform_changes {c : Call} {db : DB} {phase : Nat → Phase} (he : enabled phase c = true) :
    ∃ cs, Changes now db cs (perform c now locked db).2 ∧
      ∀ ch ∈ cs, Allows (.call c now locked) ch := by
  cases c with
  | createJob s rec =>
    obtain ⟨_, _, h | ⟨_, _, row, cfg, hj, hcfg, h⟩⟩ :=
      performed (c := .createJob s rec) rfl createJob_changes
    · exact ⟨[], h.1 ▸ .nil _, nofun⟩
    · refine ⟨_, h, List.forall_mem_cons.mpr ⟨⟨trivial, ?_⟩, List.forall_mem_singleton.mpr
        ⟨trivial, ?_⟩⟩⟩
      · rintro _ ⟨⟩
        exact hj
      · rintro _ ⟨⟩
        exact configRow_jobID hcfg ▸ hj
  | scheduleJob s req =>
    obtain ⟨_, _, h | ⟨_, j, cs, hj, _, h, hsub⟩⟩ :=
      performed (c := .scheduleJob s req) rfl scheduleJob_changes
    · exact ⟨[], h.1 ▸ .nil _, nofun⟩
    · exact ⟨cs, h, fun ch hch => allows_inserts hj (hsub.inserts ch hch)⟩
  | getNextTask s j worker a lease =>
    obtain ⟨cs, hcs, hm, _⟩ := getNextTask_assigns s j worker a lease now locked db
    exact ⟨cs, hcs, hm⟩
  | renewLease s t a lease sampled =>
    obtain ⟨_, _, h | ⟨_, _, row, att, _, _, _, h⟩⟩ :=
      performed (c := .renewLease s t a lease sampled) rfl renewLease_changes
    · exact ⟨[], h.1 ▸ .nil _, nofun⟩
    · exact ⟨_, h, List.forall_mem_cons.mpr
        ⟨Makes.allows ⟨s, t, lease, sampled, now, locked, rfl⟩ rfl,
          fun ch hch => allows_logs hch⟩⟩
  | completeTask s t a lease us cks =>
    obtain ⟨hsame, _⟩ | ⟨_, hlen, tail, h, htail⟩ :=
      completeTask_perform s t a lease us cks now locked db
    · rw [hsame]
      exact ⟨[], .nil _, nofun⟩
    · exact ⟨_, h, List.forall_mem_cons.mpr
        ⟨Makes.allows ⟨s, us, cks, now, locked, rfl, rfl, rfl, hlen⟩ rfl,
          fun ch hch => (htail ch hch).allows fun _ => trivial⟩⟩
  | failTask s t a lease reason =>
    obtain ⟨_, _, h | ⟨j, status, h⟩⟩ :=
      performed (c := .failTask s t a lease reason) rfl failTask_changes
    · exact ⟨[], h.1 ▸ .nil _, nofun⟩
    · obtain ⟨tail, hcs, htail⟩ := h.changes
      exact ⟨_, hcs, List.forall_mem_cons.mpr
        ⟨Makes.allows (.inl ⟨s, lease, reason, now, locked, rfl⟩) rfl,
          fun ch hch => (htail ch hch).allows fun _ => trivial⟩⟩
  | cancelJob s j =>
    obtain ⟨_, _, h | ⟨_, old, cs, _, _, h, hcs⟩⟩ :=
      performed (c := .cancelJob s j) rfl cancelJob_changes
    · exact ⟨[], h.1 ▸ .nil _, nofun⟩
    · have htail : ∀ es, ∀ ch ∈ Change.cancel j :: logs s es,
          Allows (.call (.cancelJob s j) now locked) ch := fun es =>
        List.forall_mem_cons.mpr
          ⟨Makes.allows ⟨s, now, locked, rfl⟩ rfl, fun ch hch => allows_logs hch⟩
      refine ⟨_, h, ?_⟩
      rcases hcs with ⟨_, rfl⟩ | ⟨_, rfl⟩
      · exact htail _
      · exact List.forall_mem_cons.mpr ⟨Makes.allows (.inr (.inl ⟨rfl, rfl⟩)) rfl, htail _⟩
  | failStaleTasks s heartbeats clock =>
    obtain ⟨_, _, _, _, h⟩ := performed (c := .failStaleTasks s heartbeats clock) rfl
      failStaleTasks_changes
    refine ⟨_, h, fun ch hch => ?_⟩
    rcases List.mem_append.mp hch with hch | hch
    · obtain ⟨rec, _, hch⟩ := List.mem_flatMap.mp hch
      have hrel : ∀ status, Allows (.call (.failStaleTasks s heartbeats clock) now locked)
          (.release rec.taskID rec.attemptID status) :=
        fun _ => Makes.allows (.inr ⟨s, heartbeats, clock, now, locked, rfl⟩) rfl
      split at hch
      · split at hch
        · rcases List.mem_cons.mp hch with rfl | hch
          · exact hrel _
          · exact List.mem_singleton.mp hch ▸ Makes.allows (.inr (.inl ⟨rfl, trivial⟩)) rfl
        · exact List.mem_singleton.mp hch ▸ hrel _
      · cases hch
    · exact (List.mem_append.mp hch).elim allows_logs allows_logs
  | finalizeJob j ts =>
    obtain ⟨_, _, _, h | ⟨_, _, h⟩⟩ := performed (c := .finalizeJob j ts) rfl finalizeJob_changes
    · exact ⟨[], h ▸ .nil _, nofun⟩
    · exact ⟨_, h, List.forall_mem_singleton.mpr
        (Makes.allows (.inr (.inr ⟨ts, now, locked, rfl, rfl⟩)) rfl)⟩
  | recoverFailAttempts s =>
    obtain ⟨_, _, _, h⟩ := performed (c := .recoverFailAttempts s) rfl recoverFailAttempts_changes
    exact ⟨_, h, List.forall_mem_singleton.mpr (Makes.allows ⟨s, now, locked, rfl, rfl⟩ rfl)⟩
  | recoverResetTasks s =>
    obtain ⟨_, _, _, h⟩ := performed (c := .recoverResetTasks s) rfl recoverResetTasks_changes
    exact ⟨_, h, List.forall_mem_singleton.mpr (Makes.allows ⟨s, now, locked, rfl, rfl⟩ rfl)⟩
  | recoverWorkerPools s =>
    obtain ⟨_, _, h, _⟩ := performed (c := .recoverWorkerPools s) rfl recoverWorkerPools_unchanged
    exact ⟨[], h ▸ .nil _, nofun⟩
  | failRunningAttemptsByJob j => cases he

/-- A step of the cluster makes only the changes of its label. -/
theorem step_allows (h : Step w a w') :
    ∃ now cs, w.now ≤ now ∧ Changes now w.db cs w'.db ∧ ∀ ch ∈ cs, Allows a ch := by
  cases a with
  | call c now locked =>
    obtain ⟨hn, he, hdb, _⟩ := step_call h
    obtain ⟨cs, hcs, hm⟩ : ∃ cs, Changes now w.db cs (perform c now locked w.db).2 ∧
        ∀ ch ∈ cs, Allows (.call c now locked) ch := perform_changes he
    exact ⟨now, cs, hn, hdb ▸ hcs, hm⟩
  | post i action now =>
    obtain ⟨_, _, hn, hdb, _⟩ := step_post h
    rw [hdb]
    cases action with
    | failRunningAttemptsByJob j =>
      obtain ⟨_, _, _, hcs⟩ := performed (c := .failRunningAttemptsByJob j) rfl
        failRunningAttemptsByJob_changes
      exact ⟨now, _, hn, hcs, List.forall_mem_singleton.mpr (Makes.allows ⟨i, now, rfl⟩ rfl)⟩
    | _ => exact ⟨now, [], hn, .nil _, nofun⟩
  | restart r =>
    rw [step_restart h]
    exact ⟨w.now, [], Nat.le_refl _, .nil _, nofun⟩

theorem step_changes (h : Step w a w') :
    ∃ now cs, w.now ≤ now ∧ Changes now w.db cs w'.db ∧ ∀ ch ∈ cs, Makes a ch := by
  obtain ⟨now, cs, hn, hcs, hm⟩ := step_allows h
  exact ⟨now, cs, hn, hcs, fun ch hch => (hm ch hch).makes⟩

/-- A step assigns only tasks that are Idle before it, of the job that the caller asks for. -/
theorem step_assigns (h : Step w a w') :
    ∃ now cs, Changes now w.db cs w'.db ∧ (∀ c ∈ cs, Makes a c) ∧
      ∀ t att r, .assign t att r ∈ cs → ∃ s j worker x lease now locked,
        a = .call (.getNextTask s j worker x lease) now locked ∧
          ∃ row, w.db.tasks.get? t = some row ∧ row.jobID = j ∧ row.status = .idle := by
  by_cases ha : ∃ s j worker x lease now locked,
      a = .call (.getNextTask s j worker x lease) now locked
  · obtain ⟨s, j, worker, x, lease, now, locked, rfl⟩ := ha
    obtain ⟨_, _, hdb, _⟩ := step_call h
    obtain ⟨cs, hcs, hm, hrow⟩ := getNextTask_assigns s j worker x lease now locked w.db
    rw [← hdb] at hcs
    exact ⟨now, cs, hcs, fun ch hch => (hm ch hch).makes, fun t att r hc =>
      ⟨s, j, worker, x, lease, now, locked, rfl, hrow t att r hc⟩⟩
  · obtain ⟨now, cs, _, hcs, hm⟩ := step_changes h
    refine ⟨now, cs, hcs, hm, fun t att r hc => ?_⟩
    obtain ⟨s, j, worker, x, lease, now', locked, he, _⟩ := hm _ hc
    exact absurd ⟨s, j, worker, x, lease, now', locked, he⟩ ha

/-- What every change keeps is kept by a run. -/
theorem kept_run (h : Run Step w as w') {P : DB → Prop}
    (hP : ∀ {now : Time} {d : DB} {c : Change}, P d → c.Guard now d → P (c.apply now d))
    (h0 : P w.db) : P w'.db := by
  refine h.invariant (I := fun v => P v.db) (fun v a v' hv hs => ?_) h0
  obtain ⟨_, _, _, hcs, _⟩ := step_changes hs
  refine hcs.keeps ?_ hv
  rintro d c _ hg hd
  exact hP hd hg

/-- A step adds tasks to a job only if it schedules it. -/
theorem step_inserts (h : Step w a w') (j : UUID) :
    (∃ now cs, Changes now w.db cs w'.db ∧ (∀ c ∈ cs, Makes a c) ∧ ∀ c ∈ cs, c.Spares j) ∨
    ∃ s req now locked cs, a = .call (.scheduleJob s req) now locked ∧
      s.uuidParse req.jobID = some j ∧
      (perform (.scheduleJob s req) now locked w.db).1.result.isOk = true ∧
      Changes now w.db cs w'.db ∧ ∀ c ∈ cs, Inserts j c := by
  by_cases ha : ∃ s req now locked, a = .call (.scheduleJob s req) now locked ∧
      s.uuidParse req.jobID = some j
  · obtain ⟨s, req, now, locked, rfl, hj⟩ := ha
    obtain ⟨_, _, hdb, _⟩ := step_call h
    rw [hdb]
    obtain ⟨out, hout, hr | ⟨hok, j', cs, hj', _, hcs, hsub⟩⟩ :=
      performed (c := .scheduleJob s req) rfl scheduleJob_changes
    · exact .inl ⟨now, [], hr.1 ▸ .nil _, nofun, nofun⟩
    · cases hj.symm.trans hj'
      refine .inr ⟨s, req, now, locked, cs, rfl, hj, ?_, hcs, hsub.inserts⟩
      rw [hout, Outcome.map, hok]
      rfl
  · obtain ⟨now, cs, _, hcs, hm⟩ := step_changes h
    refine .inl ⟨now, cs, hcs, hm, fun c hc => ?_⟩
    cases c with
    | addTask row =>
      rintro rfl
      obtain ⟨s, req, now', locked, rfl, hj⟩ := hm _ hc
      exact ha ⟨s, req, now', locked, rfl, hj⟩
    | _ => trivial

theorem changes_single {db db' : DB} (h : Changes now db [c] db') : db' = c.apply now db := by
  cases h with
  | cons hstep hrest =>
    cases hrest
    exact hstep.2

/-- The statement that the reaper issues after its commit. -/
theorem step_failAttempts {i : Nat} (h : Step w (.post i (.failRunningAttemptsByJob j) now) w') :
    w'.db = (Change.failAttempts j).apply now w.db := by
  obtain ⟨_, _, _, hdb, _⟩ := step_post h
  obtain ⟨_, _, _, hcs⟩ := performed (c := .failRunningAttemptsByJob j) rfl
    failRunningAttemptsByJob_changes
  rw [hdb]
  exact changes_single hcs

theorem step_failReplica (h : Step w (.call (.recoverFailAttempts s) now locked) w') :
    w'.db = (Change.failReplica s.replicaIndex).apply now w.db := by
  obtain ⟨_, _, hdb, _⟩ := step_call h
  obtain ⟨_, _, _, hcs⟩ := performed (c := .recoverFailAttempts s) rfl recoverFailAttempts_changes
  rw [hdb]
  exact changes_single hcs

theorem step_resetReplica (h : Step w (.call (.recoverResetTasks s) now locked) w') :
    w'.db = (Change.resetReplica s.replicaIndex).apply now w.db := by
  obtain ⟨_, _, hdb, _⟩ := step_call h
  obtain ⟨_, _, _, hcs⟩ := performed (c := .recoverResetTasks s) rfl recoverResetTasks_changes
  rw [hdb]
  exact changes_single hcs

/-- Only a replica that has recovered assigns tasks. -/
theorem assign_serving {att : AttemptRow} (h : Step w a w') (hm : Makes a (.assign t att r)) :
    w.phase r = .serving := by
  obtain ⟨s, j, worker, x, lease, now, locked, rfl, rfl⟩ := hm
  exact of_decide_eq_true (step_call h).2.1

/-- A replica resets its tasks after it has failed its attempts. -/
theorem reset_midRecover (h : Step w a w') (hm : Makes a (.resetReplica r)) :
    (w.phase r).midRecover := by
  obtain ⟨s, now, locked, rfl, rfl⟩ := hm
  exact .inl (of_decide_eq_true (step_call h).2.1)

/-! ## 4. A small cluster

One replica and a job with two Map tasks and one Reduce task. -/

/-- Replica 0 of one; a UUID is written as one decimal digit. -/
def soloReplica : Scheduler :=
  newScheduler 0 1 "manager-0" 30 fun text => text.toList.head?.map fun c => c.toNat - 48

def smallJob : ScheduleJobRequest where
  jobID := "1"
  userID := "9"
  inputURI := "s3://in"
  mapperURI := "s3://map"
  reducerURI := "s3://reduce"
  combinerURI := ""
  mTasks := 2
  rTasks := 1
  inputChecksum := ""
  tasks := [⟨"2", "Map", 0, []⟩, ⟨"3", "Map", 0, []⟩, ⟨"4", "Reduce", 0, []⟩]

/-- The record that the API creates for the small job. -/
def smallRecord : JobRecord where
  jobID := "1"
  userID := "9"
  filename := "s3://in"
  mapperURI := "s3://map"
  reducerURI := "s3://reduce"
  combinerURI := ""
  mTasks := 2
  reducers := 1
  inputChecksum := ""
  createdAt := 1

/-- A call while no other transaction holds a lock. -/
def calling (c : Call) (now : Time) : Label := .call c now fun _ => false

/-- The replica starts and the job is scheduled. -/
def smallStart : List Label :=
  [calling (.recoverFailAttempts soloReplica) 0, calling (.recoverResetTasks soloReplica) 0,
    calling (.recoverWorkerPools soloReplica) 0, calling (.scheduleJob soloReplica smallJob) 1]

/-- The world after these steps, from the empty store. -/
def after (as : List Label) : Option World := runAll next (World.initial none) as

theorem run_after [DecidablePred P] (h : (after as).any (fun w => decide (P w)) = true) :
    ∃ w, Run Step (World.initial none) as w ∧ P w :=
  run_to h

theorem run_afterUnder {ok : World → Label → Prop} [∀ w a, Decidable (ok w a)] [DecidablePred P]
    (h : (runAllUnder next ok (World.initial none) as).any (fun w => decide (P w)) = true) :
    ∃ w, Run (Under Step ok) (World.initial none) as w ∧ P w :=
  run_toUnder h

end KubeMapReduce
