import KubeMapReduce.Lib.Grouping
import KubeMapReduce.Outputs
import KubeMapReduce.ReduceInput

/-!
# A whole job

The Map attempts of a job with the shuffle service, and the attempts of its Reduce tasks: one is
handed out by GetNextTask, reads the blobs of its partition, merges them, runs the reducer, uploads
its output and reports it. All this is interleaved with the rest of the cluster. Attempts may fail
at any point, streams may break, and tasks may be reaped and handed out again.

* `Handed`, `Kept`: what the store and the output bucket say about the attempts of the Reduce tasks.
* `delivered_step`: after the Map phase the blobs do not change any more.
* `job_result`: the output objects have the results of all groups of the records that the committed
  Map attempts have emitted, each one once.
-/

namespace KubeMapReduce

open Tables Runs Grouping

variable {locked : Resource → Bool} {task : Task} {b : Act} {chunks : List ShuffleDataChunk}
  {out : List String × List String} {p : Nat} {broken : Option (Nat × Status)} {j lease x : UUID}

/-! ## 1. Steps -/

/-- A job with the reducer of its user. -/
structure Job extends MapJob where
  shuffleConfig : ShuffleConfig
  /-- The text of an error of MergeInputs. -/
  mergeMessage : MergeErr → String
  /-- The reducer process of an attempt, on its standard input: what it writes, and how it exits. -/
  reducer : UUID → Bytes → Except String (Bytes × Option String)

/-- What runReduce uses in an attempt; `putError` is the error of its PutObject. -/
def Job.reduceCode (J : Job) (x : UUID) (putError : Option String) : ReduceCode where
  merge := mergeShuffleInputs J.worker.decode J.mergeMessage J.shuffleConfig
  reducer := J.reducer x
  putObject _ _ := putError

/-- How far an attempt of a Reduce task has come. -/
structure ReduceWork where
  task : Task
  /-- The chunks that it has got, and the status that has ended the stream. -/
  fetched : Option (List ShuffleDataChunk × Option Status)
  run : Option ReduceRun

variable {wk wk' : ReduceWork}

structure JobState where
  exchange : Exchange
  /-- The attempts of the Reduce tasks that GetNextTask has handed out. -/
  work : UUID → Option ReduceWork
  /-- The objects of the output bucket. -/
  objects : String → Option Bytes
  /-- The Reduce tasks that were completed by a report, with the attempt. -/
  reduced : List (UUID × UUID)

inductive JobAct where
  | exchange (a : Act)
  /-- The attempt reads the stream of its partition, or only the first chunks of it. -/
  | fetch (x : UUID) (broken : Option (Nat × Status))
  | reduce (x : UUID) (putError : Option String)
  | report (x : UUID) (s : Scheduler) (lease : UUID) (now : Time) (locked : Resource → Bool)

namespace JobState

def initial (maxConcurrentPods : Option Nat) : JobState :=
  ⟨.initial maxConcurrentPods, fun _ => none, fun _ => none, []⟩

def db (s : JobState) : DB := s.exchange.world.db

def setWork (s : JobState) (x : UUID) (wk : ReduceWork) : JobState :=
  { s with work := Function.update s.work x (some wk) }

end JobState

/-- The Reduce task of the job that a step hands out, with its attempt. -/
def reduceHandout (j : UUID) (db : DB) : Act → Option (UUID × Task)
  | .cluster (.call (.getNextTask s j' worker x lease) now locked) =>
    match (perform (.getNextTask s j' worker x lease) now locked db).1.result with
    | .ok (.task task) => if j' = j ∧ task.type = .reduce then some (x, task) else none
    | _ => none
  | _ => none

/-- The chunks that GetShuffleData sends to an attempt. -/
def fetchStream (J : Job) (e : Exchange) (task : Task) (broken : Option (Nat × Status)) :
    List ShuffleDataChunk × Option Status :=
  match e.server.getShuffleData J.worker.sha256Hex (reduceAssignment task).jobID
      (reduceAssignment task).partitionID, broken with
  | .error status, _ => ([], some status)
  | .ok chunks, none => (chunks, none)
  | .ok chunks, some (n, status) => (chunks.take n, some status)

namespace JobState

def fetch (J : Job) (s : JobState) (x : UUID) (broken : Option (Nat × Status)) :
    Option JobState :=
  match s.work x with
  | some ⟨task, none, none⟩ =>
    some (s.setWork x ⟨task, some (fetchStream J s.exchange task broken), none⟩)
  | _ => none

/-- runReduce after the download. -/
def reduce (J : Job) (s : JobState) (x : UUID) (putError : Option String) : Option JobState :=
  match s.work x with
  | some ⟨task, some (chunks, failure), none⟩ =>
    let run := runReduce J.worker (J.reduceCode x putError) (reduceAssignment task) chunks failure
    some { s.setWork x ⟨task, some (chunks, failure), some run⟩ with
      objects := Uploads.put s.objects run.stored }
  | _ => none

def report (s : JobState) (x : UUID) (sched : Scheduler) (lease : UUID) (now : Time)
    (locked : Resource → Bool) : Option JobState :=
  match s.work x with
  | some ⟨task, _, some ⟨_, .ok (us, cks)⟩⟩ =>
    let call := Call.completeTask sched task.id x lease us cks
    (next s.exchange.world (.call call now locked)).map fun w =>
      { s with
        exchange := { s.exchange with world := w }
        reduced := if (perform call now locked s.db).1.result.isOk then
          s.reduced ++ [(task.id, x)] else s.reduced }
  | _ => none

end JobState

def jobStep (J : Job) (s : JobState) : JobAct → Option JobState
  | .exchange a =>
    (exchange J.toMapJob s.exchange a).map fun e =>
      { s with
        exchange := e
        work := match reduceHandout J.jobID s.db a with
          | some (x, task) => Function.update s.work x (some ⟨task, none, none⟩)
          | none => s.work }
  | .fetch x broken => s.fetch J x broken
  | .reduce x putError => s.reduce J x putError
  | .report x sched lease now locked => s.report x sched lease now locked

abbrev JobSteps (J : Job) : JobState → JobAct → JobState → Prop := Steps (jobStep J)

/-- The attempt is the current one of its task, which is In-Progress. -/
def JobState.isCurrent (s : JobState) (x : UUID) : Prop :=
  ∃ wk ∈ s.work x, ∃ row ∈ s.db.tasks.get? wk.task.id,
    row.status = .inProgress ∧ row.currentAttemptID = some x

instance (s : JobState) (x : UUID) : Decidable (s.isCurrent x) := by
  unfold JobState.isCurrent
  infer_instance

/-- A manager restarts. Its blobs are in its memory. -/
def Label.isRestart : Label → Bool
  | .restart _ => true
  | _ => false

/-- A step of the cluster does not schedule the job a second time, and no manager restarts. -/
def onceScheduled (j : UUID) (w : World) : Act → Prop
  | .cluster l => scheduledOnce j w l ∧ l.isRestart = false
  | _ => True

instance (j : UUID) (w : World) (a : Act) : Decidable (onceScheduled j w a) := by
  induction a using Act.casesOn <;> dsimp only [onceScheduled] <;> infer_instance

/-- The job is scheduled once and no manager restarts; only current attempts store their streams and
upload, and no Map task is assigned again after a stream of it was stored. -/
def fencedSteps (J : Job) (s : JobState) : JobAct → Prop
  | .exchange a => pushedOnce J.toMapJob s.exchange a ∧ onceScheduled J.jobID s.exchange.world a
  | .reduce x _ => s.isCurrent x
  | _ => True

instance (J : Job) (s : JobState) (a : JobAct) : Decidable (fencedSteps J s a) := by
  induction a using JobAct.casesOn <;> dsimp only [fencedSteps] <;> infer_instance

/-! ## 2. The attempts of the Reduce tasks -/

section Board

variable {J : Job} {now : Time} {db db' : DB} {cs : List Change} {c : Change}
  {work : UUID → Option ReduceWork} {objects : String → Option Bytes}
  {reduced : List (UUID × UUID)}

/-- The attempt of a task that GetNextTask hands out is new. -/
theorem getNextTask_attempt {s : Scheduler} {a : UUID} {worker : String}
    (h : (perform (.getNextTask s j worker a lease) now locked db).1.result = .ok (.task task)) :
    db.attempts.get? a = none ∧
      ∃ a', (perform (.getNextTask s j worker a lease) now locked db).2.attempts.get? a =
        some a' := by
  obtain ⟨_, ty, row, _, hr⟩ := getNextTask_handed (by rw [h]; rfl)
  exact ⟨hr.fresh, hr.attempt⟩

/-- It is a Reduce task of the job, with this partition. -/
def DB.isReduceOf (db : DB) (j t : UUID) (p : Nat) : Prop :=
  ∃ row, db.tasks.get? t = some row ∧ row.jobID = j ∧ row.taskType = .reduce ∧
    row.replicaIndex = p

/-- A task keeps its job, its type and its partition. -/
theorem isReduceOf_changes {t : UUID} (h : Changes now db cs db') (hd : db.isReduceOf j t p) :
    db'.isReduceOf j t p := by
  refine h.keeps (I := fun d => d.isReduceOf j t p) ?_ hd
  rintro d c _ _ ⟨row, hrow, hrest⟩
  by_cases htouch : c.Touches d row
  · exact ⟨_, Change.task_touched hrow htouch, hrest⟩
  · exact ⟨row, Change.task_untouched hrow htouch, hrest⟩

/-- The attempts that were handed out are rows of TASK_ATTEMPTS. -/
def Handed (work : UUID → Option ReduceWork) (db : DB) : Prop :=
  ∀ x wk, work x = some wk → ∃ a, db.attempts.get? x = some a

theorem Handed.apply (h : Handed work db) (c : Change) (now : Time) :
    Handed work (c.apply now db) := by
  intro x wk hx
  obtain ⟨a, ha⟩ := h x wk hx
  obtain ⟨a', ha', _⟩ := c.attempt_apply now ha
  exact ⟨a', ha'⟩

def ReduceWork.key (wk : ReduceWork) : String := (reduceAssignment wk.task).outputKey

/-- The object of a partition is that of the current attempt of its task, once it has uploaded, and
that of the attempt that was reported. -/
structure Kept (work : UUID → Option ReduceWork) (objects : String → Option Bytes)
    (reduced : List (UUID × UUID)) (db : DB) : Prop where
  current : ∀ x wk run content row, work x = some wk → wk.run = some run →
    run.stored = [(wk.key, content)] → db.tasks.get? wk.task.id = some row →
    row.status = .inProgress → row.currentAttemptID = some x → objects wk.key = some content
  reported : ∀ c ∈ reduced, ∃ wk run content out, work c.2 = some wk ∧ wk.task.id = c.1 ∧
    wk.run = some run ∧ run.stored = [(wk.key, content)] ∧ run.result = .ok out ∧
    objects wk.key = some content ∧
    ∃ row, db.tasks.get? c.1 = some row ∧ row.status = .completed

theorem Kept.apply (h : Kept work objects reduced db) (hh : Handed work db)
    (hg : c.Guard now db) : Kept work objects reduced (c.apply now db) where
  current x wk run content row' hx hrun hst hrow' hs hcur := by
    obtain ⟨a, ha⟩ := hh x wk hx
    exact h.current x wk run content row' hx hrun hst
      (Change.current_cases hg ha hrow' hs hcur) hs hcur
  reported p hp := by
    obtain ⟨wk, run, content, out, hx, ht, hrun, hst, hout, hobj, row, hrow, hs⟩ := h.reported p hp
    exact ⟨wk, run, content, out, hx, ht, hrun, hst, hout, hobj, row,
      completed_apply hg hrow hs, hs⟩

theorem Kept.changes (h : Kept work objects reduced db) (hh : Handed work db)
    (hcs : Changes now db cs db') : Kept work objects reduced db' := by
  refine (hcs.keeps (I := fun d => Handed work d ∧ Kept work objects reduced d) ?_ ⟨hh, h⟩).2
  rintro d c _ hg ⟨hh, hk⟩
  exact ⟨hh.apply c now, hk.apply hh hg⟩

/-- The report of an attempt that has uploaded. -/
theorem Kept.complete {skew : Nat} {rows : List OutputRow} {run : ReduceRun} {content : Bytes}
    (h : Kept work objects reduced db) (hh : Handed work db) (hx : work x = some wk)
    (hrun : wk.run = some run) (hst : run.stored = [(wk.key, content)])
    (hout : run.result = .ok out)
    (hg : (Change.complete wk.task.id x lease skew rows).Guard now db) :
    Kept work objects (reduced ++ [(wk.task.id, x)])
      ((Change.complete wk.task.id x lease skew rows).apply now db) where
  current := (h.apply hh hg).current
  reported p hp := by
    rcases List.mem_append.mp hp with hp | hp
    · exact (h.apply hh hg).reported p hp
    · cases List.mem_singleton.mp hp
      obtain ⟨_, row, att, hcur, _⟩ := hg
      exact ⟨wk, run, content, out, hx, rfl, hrun, hst, hout,
        h.current x wk run content row hx hrun hst hcur.task hcur.status hcur.current, _,
        complete_task hcur .., rfl⟩

theorem work_update {y : UUID} (h : Function.update work x (some wk') y = some wk) :
    y = x ∧ wk = wk' ∨ y ≠ x ∧ work y = some wk := by
  rcases eq_or_ne y x with rfl | hne
  · rw [Function.update_self] at h
    exact .inl ⟨rfl, (Option.some.inj h).symm⟩
  · rw [Function.update_of_ne hne] at h
    exact .inr ⟨hne, h⟩

/-- An attempt that has not run runReduce to its end has no part in this. -/
theorem Kept.setUnrun (h : Kept work objects reduced db)
    (hold : ∀ wk, work x = some wk → wk.run = none) (hnew : wk'.run = none) :
    Kept (Function.update work x (some wk')) objects reduced db where
  current y wk run content row hy hrun := by
    rcases work_update hy with ⟨rfl, rfl⟩ | ⟨_, hy⟩
    · cases hnew.symm.trans hrun
    · exact h.current y wk run content row hy hrun
  reported c hc := by
    obtain ⟨wk, run, content, out, hwk, ht, hrun, hrest⟩ := h.reported c hc
    have hne : c.2 ≠ x := by
      rintro rfl
      cases (hold wk hwk).symm.trans hrun
    exact ⟨wk, run, content, out, (Function.update_of_ne hne ..).trans hwk, ht, hrun, hrest⟩

/-- The Reduce tasks of the job have partitions of their own. -/
def DistinctPartitions (db : DB) (j : UUID) : Prop :=
  ∀ t t' p, db.isReduceOf j t p → db.isReduceOf j t' p → t = t'

/-- They had so before, since tasks are only added. -/
theorem distinct_of_changes (h : Changes now db cs db') (hd : DistinctPartitions db' j) :
    DistinctPartitions db j :=
  fun t t' p ht ht' => hd t t' p (isReduceOf_changes h ht) (isReduceOf_changes h ht')

end Board

/-! ## 3. After the Map phase -/

section Exchanges

variable {J : MapJob} {e e' : Exchange} {a : Act}

/-- What a step does to the store is a step of the cluster. -/
theorem exchange_world (he : Exchanged J e) (h : Exchanges J e a e') :
    e'.world = e.world ∨ ∃ l, Step e.world l e'.world ∧
      (a = .cluster l ∨ ∃ s t x lease us cks now locked,
        l = .call (.completeTask s t x lease us cks) now locked) := by
  rcases exchange_cases he.pushes h with ⟨l, w, rfl, _, hw, rfl⟩ | ⟨_, hs⟩ |
    ⟨x, s, lease, now, locked, rfl, hr⟩
  · exact .inr ⟨l, hw, .inl rfl⟩
  · exact .inl hs.world
  · unfold Exchange.report at hr
    split at hr
    · cases hr
    next t _ =>
    split at hr
    · cases hr
    next us cks _ =>
    split at hr
    · obtain ⟨w, hw, rfl⟩ := Option.map_eq_some_iff.mp hr
      exact .inr ⟨_, hw, .inr ⟨s, t, x, lease, us, cks, now, locked, rfl⟩⟩
    · cases hr

theorem exchange_changes (he : Exchanged J e) (h : Exchanges J e a e') :
    ∃ now cs, Changes now e.world.db cs e'.world.db := by
  rcases exchange_world he h with hw | ⟨l, hl, _⟩
  · rw [hw]
    exact ⟨0, [], .nil _⟩
  · obtain ⟨now, cs, _, hcs, _⟩ := step_changes hl
    exact ⟨now, cs, hcs⟩

/-- After the Map phase no attempt is current, so no stream is stored. -/
theorem stored_of_mapsDone (he : Exchanged J e) (hd : e.world.db.MapsDone J.jobID)
    (h : Exchanges J e a e') (hok : pushedOnce J e a) : e'.stored = e.stored := by
  rcases exchange_cases he.pushes h with ⟨_, _, _, _, _, rfl⟩ | ⟨_, hs⟩ | ⟨_, _, _, _, _, rfl, hr⟩
  · rfl
  · obtain ⟨ys, hys, hnew⟩ := hs.stored
    cases ys with
    | nil => rw [hys, List.append_nil]
    | cons y ys =>
      obtain ⟨t, ht, row, hrow, hrun, _⟩ := hok.current (hnew y List.mem_cons_self)
      obtain ⟨_, _, _, htask⟩ := mapTaskOf_eq_some ht
      obtain ⟨row', hrow', hj, hty⟩ := isMapOf_iff.mp htask
      cases (Option.mem_def.mp hrow).symm.trans hrow'
      cases (hd t _ hrow' hj hty).symm.trans hrun
  · obtain ⟨_, _, _, _, _, hst, _⟩ := report_cases hr
    exact hst

/-- After the Map phase the blobs do not change. -/
theorem delivered_step (he : Exchanged J e) (hd : e.world.db.MapsDone J.jobID)
    (h : Exchanges J e a e') (hok : pushedOnce J e a) (p : Nat) :
    e'.delivered J p = e.delivered J p := by
  rw [delivered_eq, delivered_eq, he.pushes.blobs, (exchanged_step he h).pushes.blobs,
    stored_of_mapsDone he hd h hok]

theorem mapsOver_step {w w' : World} {l : Label} (hw : MapsOver w.db j) (h : Step w l w')
    (ho : scheduledOnce j w l) : MapsOver w'.db j :=
  (mapsOver_run (.single ⟨h, ho⟩) hw).1

theorem mapsOver_exchange (he : Exchanged J e) (h : Exchanges J e a e') (hw : MapsOver e.world.db j)
    (ho : onceScheduled j e.world a) : MapsOver e'.world.db j := by
  rcases exchange_world he h with hsame | ⟨l, hl, rfl | ⟨_, _, _, _, _, _, _, _, rfl⟩⟩
  · rwa [hsame]
  · exact mapsOver_step hw hl ho.1
  · exact mapsOver_step hw hl trivial

end Exchanges

/-! ## 4. Runs -/

section Runs

variable {J : Job} {s s' : JobState} {e e' : Exchange} {x : UUID} {wk : ReduceWork}

/-- What an attempt that was handed out has done so far. -/
structure Worked (J : Job) (e : Exchange) (x : UUID) (wk : ReduceWork) : Prop where
  attempt : ∃ a, e.world.db.attempts.get? x = some a
  jobID : wk.task.jobID = J.jobID
  task : e.world.db.isReduceOf J.jobID wk.task.id wk.task.reducePartition
  mapsDone : MapsOver e.world.db J.jobID
  fetched : ∀ chunks, wk.fetched = some (chunks, none) →
    (streamSegments chunks).map Prod.fst = e.delivered J.toMapJob wk.task.reducePartition
  run : ∀ run, wk.run = some run → ∃ chunks failure putError,
    wk.fetched = some (chunks, failure) ∧ run = runReduce J.worker (J.reduceCode x putError)
      (reduceAssignment wk.task) chunks failure

/-- What every state of a run satisfies. -/
structure Running (J : Job) (s : JobState) : Prop where
  exchanged : Exchanged J.toMapJob s.exchange
  owned : Owned J.toMapJob s.exchange.stored s.exchange.committed s.db
  work : ∀ x wk, s.work x = some wk → Worked J s.exchange x wk
  kept : DistinctPartitions s.db J.jobID → Kept s.work s.objects s.reduced s.db

theorem running_initial (J : Job) (q : Option Nat) : Running J (.initial q) where
  exchanged := exchanged_initial J.toMapJob q
  owned := nofun
  work x wk hx := by cases hx
  kept _ :=
    { current := fun x wk run content row hx => nomatch hx
      reported := nofun }

theorem Running.handed (h : Running J s) : Handed s.work s.db :=
  fun x wk hx => (h.work x wk hx).attempt

/-- A step of the Map phase or of the cluster leaves what an attempt has done. -/
theorem Worked.exchange (h : Worked J e x wk) (he : Exchanged J.toMapJob e)
    (hb : Exchanges J.toMapJob e b e') (hok : pushedOnce J.toMapJob e b)
    (ho : onceScheduled J.jobID e.world b) : Worked J e' x wk := by
  obtain ⟨now, cs, hcs⟩ := exchange_changes he hb
  refine ⟨attempt_changes hcs h.attempt, h.jobID, isReduceOf_changes hcs h.task,
    mapsOver_exchange he hb h.mapsDone ho, fun chunks hf => ?_, h.run⟩
  rw [h.fetched chunks hf]
  exact (delivered_step he h.mapsDone.1 hb hok _).symm

theorem Running.exchange (h : Running J s) (hb : Exchanges J.toMapJob s.exchange b e)
    (hok : pushedOnce J.toMapJob s.exchange b) (ho : onceScheduled J.jobID s.exchange.world b) :
    Running J { s with exchange := e } := by
  obtain ⟨now, cs, hcs⟩ := exchange_changes h.exchanged hb
  exact ⟨exchanged_step h.exchanged hb, owned_step h.exchanged h.owned hb hok,
    fun x wk hx => (h.work x wk hx).exchange h.exchanged hb hok ho,
    fun hd => (h.kept (distinct_of_changes hcs hd)).changes h.handed hcs⟩

theorem reduceHandout_cases {db : DB} (h : reduceHandout j db b = some (x, task)) :
    ∃ sched worker lease now locked,
      b = .cluster (.call (.getNextTask sched j worker x lease) now locked) ∧
      (perform (.getNextTask sched j worker x lease) now locked db).1.result = .ok (.task task) ∧
      task.type = .reduce := by
  unfold reduceHandout at h
  split at h
  · next sched j' worker y lease now locked =>
    split at h
    · next task' hres =>
      split at h
      · next hj =>
        obtain ⟨rfl, hty⟩ := hj
        cases h
        exact ⟨sched, worker, lease, now, locked, rfl, hres, hty⟩
      · cases h
    · cases h
  · cases h

/-- The attempt of a Reduce task is handed out. -/
theorem Running.handout (h : Running J s) (hb : Exchanges J.toMapJob s.exchange b e)
    (hok : pushedOnce J.toMapJob s.exchange b) (ho : onceScheduled J.jobID s.exchange.world b)
    (hx : reduceHandout J.jobID s.db b = some (x, task)) :
    Running J { s with
      exchange := e
      work := Function.update s.work x (some ⟨task, none, none⟩) } := by
  have hstep := h.exchange hb hok ho
  obtain ⟨sched, worker, lease, now, locked, rfl, hres, hty⟩ := reduceHandout_cases hx
  obtain ⟨row, hrow, hj, _, htj, htype, hreduce⟩ := getNextTask_ok hres
  obtain ⟨hdone, _, hp, _⟩ := hreduce (htype.symm.trans hty)
  obtain ⟨hfresh, att, hatt⟩ := getNextTask_attempt hres
  obtain ⟨_, w, hw, rfl⟩ := exchange_cluster hb
  have hnone : ∀ wk, s.work x = some wk → wk.run = none := by
    intro wk hwk
    obtain ⟨a, ha⟩ := h.handed x wk hwk
    cases hfresh.symm.trans ha
  have hnew : Worked J { s.exchange with world := w } x ⟨task, none, none⟩ := by
    obtain ⟨now', cs, _, hcs, _⟩ := step_changes hw
    exact ⟨⟨att, (congrArg (DB.attempts · |>.get? x) (step_call hw).2.2.1).trans hatt⟩, htj,
      isReduceOf_changes hcs ⟨row, hrow, hj, htype.symm.trans hty, hp.symm⟩,
      mapsOver_step ⟨hdone, row, Table.mem_of_get? hrow, hj⟩ hw ho.1, nofun, nofun⟩
  refine ⟨hstep.exchanged, hstep.owned, fun y wk hy => ?_,
    fun hd => (hstep.kept hd).setUnrun hnone rfl⟩
  rcases work_update hy with ⟨rfl, rfl⟩ | ⟨_, hy⟩
  · exact hnew
  · exact hstep.work y wk hy

/-- The attempt reads the blobs of its partition. -/
theorem fetchStream_delivered (hj : task.jobID = J.jobID)
    (h : fetchStream J e task broken = (chunks, none)) :
    (streamSegments chunks).map Prod.fst = e.delivered J.toMapJob task.reducePartition := by
  unfold fetchStream at h
  split at h
  · cases h
  · next hok =>
    cases h
    have hok' : e.server.getShuffleData J.worker.sha256Hex (toString J.jobID)
        task.reducePartition = .ok chunks := hj ▸ hok
    rw [segments_eq hok', List.map_map]
    exact List.map_id _
  · cases h

theorem Running.fetch (h : Running J s) (hs : s.fetch J x broken = some s') : Running J s' := by
  unfold JobState.fetch at hs
  split at hs
  · next task hx =>
    cases hs
    have hw := h.work x _ hx
    refine ⟨h.exchanged, h.owned, fun y wk hy => ?_, fun hd => (h.kept hd).setUnrun ?_ rfl⟩
    · rcases work_update hy with ⟨rfl, rfl⟩ | ⟨_, hy⟩
      · exact ⟨hw.attempt, hw.jobID, hw.task, hw.mapsDone,
          fun chunks hf => fetchStream_delivered hw.jobID (Option.some.inj hf), nofun⟩
      · exact h.work y wk hy
    · intro wk hwk
      cases hx.symm.trans hwk
      rfl
  · cases hs

theorem outputKey_inj (hj : wk.task.jobID = wk'.task.jobID) (h : wk.key = wk'.key) :
    wk.task.reducePartition = wk'.task.reducePartition := by
  unfold ReduceWork.key ReduceAssignment.outputKey reduceAssignment at h
  rw [hj] at h
  have hrepr : (wk.task.reducePartition : Int).repr = (wk'.task.reducePartition : Int).repr := by
    simpa [String.append_assoc, String.append_right_inj, String.append_left_inj] using h
  exact repr_inj hrepr

/-- The upload of the current attempt replaces the object of its own partition only. -/
theorem Running.kept_reduce (h : Running J s) (hx : s.work x = some wk)
    (hcur : s.isCurrent x) (hunrun : wk.run = none)
    {run : ReduceRun} (hst : run.stored = [] ∨ ∃ content, run.stored = [(wk.key, content)])
    (hd : DistinctPartitions s.db J.jobID) :
    Kept (Function.update s.work x (some { wk with run := some run }))
      (Uploads.put s.objects run.stored) s.reduced s.db := by
  have hk := h.kept hd
  have hw := h.work x wk hx
  obtain ⟨wk₀, hx₀, row₀, hrow₀, hs₀, hcur₀⟩ := hcur
  cases (Option.mem_def.mp hx₀).symm.trans hx
  -- the objects of other tasks are as before
  have hother : ∀ {y : UUID} {wk' : ReduceWork}, s.work y = some wk' →
      wk'.task.id ≠ wk.task.id →
      Uploads.put s.objects run.stored wk'.key = s.objects wk'.key := by
    intro y wk' hy hne
    rcases hst with hst | ⟨content, hst⟩
    · rw [hst]
      rfl
    · rw [hst]
      refine Function.update_of_ne (fun hkey => hne ?_) ..
      have hw' := h.work y wk' hy
      have hp := outputKey_inj (hw'.jobID.trans hw.jobID.symm) hkey
      exact hd _ _ _ hw'.task (hp ▸ hw.task)
  refine ⟨fun y wk' run' content row hy hrun hst' hrow hs hcur' => ?_, fun c hc => ?_⟩
  · rcases work_update hy with ⟨rfl, rfl⟩ | ⟨hne, hy⟩
    · cases hrun
      rw [hst']
      exact Function.update_self ..
    · have hid : wk'.task.id ≠ wk.task.id := by
        intro hid
        rw [hid] at hrow
        cases hrow.symm.trans hrow₀
        exact hne (Option.some.inj (hcur'.symm.trans hcur₀))
      rw [hother hy hid]
      exact hk.current y wk' run' content row hy hrun hst' hrow hs hcur'
  · obtain ⟨wk', run', content, out, hwk, ht, hrun, hst', hout, hobj, row, hrow, hs⟩ :=
      hk.reported c hc
    have hne : c.2 ≠ x := by
      intro hcx
      rw [hcx] at hwk
      cases hwk.symm.trans hx
      cases hunrun.symm.trans hrun
    have hid : wk'.task.id ≠ wk.task.id := by
      intro hid
      rw [← ht, hid] at hrow
      cases hrow.symm.trans hrow₀
      cases hs.symm.trans hs₀
    exact ⟨wk', run', content, out, (Function.update_of_ne hne ..).trans hwk, ht, hrun, hst', hout,
      (hother hwk hid).trans hobj, row, hrow, hs⟩

theorem Running.reduce (h : Running J s) {putError : Option String}
    (hs : s.reduce J x putError = some s') (hcur : s.isCurrent x) : Running J s' := by
  unfold JobState.reduce at hs
  split at hs
  · next task chunks failure hx =>
    cases hs
    have hw := h.work x _ hx
    refine ⟨h.exchanged, h.owned, fun y wk hy => ?_, fun hd => h.kept_reduce hx hcur rfl
      (runReduce_cases.imp And.left fun ⟨content, hst, _⟩ => ⟨content, hst⟩) hd⟩
    rcases work_update hy with ⟨rfl, rfl⟩ | ⟨_, hy⟩
    · refine ⟨hw.attempt, hw.jobID, hw.task, hw.mapsDone, hw.fetched, fun run hr => ?_⟩
      cases hr
      exact ⟨chunks, failure, putError, rfl, rfl⟩
    · exact h.work y wk hy
  · cases hs

theorem Running.report (h : Running J s) {sched : Scheduler} {now : Time}
    (hs : s.report x sched lease now locked = some s') : Running J s' := by
  unfold JobState.report at hs
  split at hs
  · next task fetched stored us cks hx =>
    obtain ⟨w, hw, rfl⟩ := Option.map_eq_some_iff.mp hs
    have hwork := h.work x _ hx
    obtain ⟨row, hrow, _, hty, _⟩ := hwork.task
    -- a report of a Reduce task is a step of the cluster that completes no Map task
    have hforeign : Foreign J.jobID s.exchange.world.db
        (.call (.completeTask sched task.id x lease us cks) now locked) := by
      refine Bool.eq_false_iff.mpr fun hmap => ?_
      obtain ⟨row', hrow', _, hty'⟩ := isMapOf_iff.mp hmap
      cases hrow.symm.trans hrow'
      cases hty.symm.trans hty'
    have hb : Exchanges J.toMapJob s.exchange
        (.cluster (.call (.completeTask sched task.id x lease us cks) now locked))
        { s.exchange with world := w } := by
      show (if Foreign J.jobID s.exchange.world.db _ then _ else none) = _
      rw [if_pos hforeign, show next s.exchange.world _ = some w from hw]
      rfl
    have hstep := h.exchange hb trivial ⟨trivial, rfl⟩
    refine ⟨hstep.exchanged, hstep.owned, hstep.work, fun hd => ?_⟩
    have hdb := (step_call hw).2.2.1
    obtain ⟨hsame, e, herr⟩ | ⟨hok, _, tail, hcs, _⟩ :=
      completeTask_perform sched task.id x lease us cks now locked s.db
    · rw [herr]
      exact hstep.kept hd
    · rw [hok]
      have hall : Changes now s.db _ w.db := hdb ▸ hcs
      have hk := h.kept (distinct_of_changes hall hd)
      obtain ⟨chunks, failure, putError, _, hrun⟩ := hwork.run _ rfl
      cases hall with
      | cons hfirst hrest =>
        obtain ⟨hg, rfl⟩ := hfirst
        rcases @runReduce_cases J.worker (J.reduceCode x putError) (reduceAssignment task) chunks
          failure with ⟨_, hno⟩ | ⟨content, hst, _⟩
        · exact absurd (congrArg ReduceRun.result hrun).symm (hno _)
        · exact (hk.complete h.handed hx rfl ((congrArg ReduceRun.stored hrun).trans hst) rfl
            hg).changes (h.handed.apply _ now) hrest
  · cases hs

/-- Every step keeps this. -/
theorem running_step (h : Running J s) {a : JobAct} (hs : JobSteps J s a s')
    (hok : fencedSteps J s a) : Running J s' := by
  cases a with
  | exchange b =>
    obtain ⟨e, he, rfl⟩ := Option.map_eq_some_iff.mp hs
    split
    · next x task hx => exact h.handout he hok.1 hok.2 hx
    · exact h.exchange he hok.1 hok.2
  | fetch x broken => exact h.fetch hs
  | reduce x putError => exact h.reduce hs hok
  | report x sched lease now locked => exact h.report hs

theorem running_run {q : Option Nat} {as : List JobAct}
    (h : Run (Under (JobSteps J) (fencedSteps J)) (.initial q) as s) : Running J s :=
  h.invariant (I := Running J) (fun _ _ _ hr hs => running_step hr hs.1 hs.2) (running_initial J q)

end Runs

/-! ## 5. The result -/

section Result

variable {J : Job} {s : JobState} {recs : UUID → List Record} {f : List Record → List Record}

/-- A reducer that exits without an error has gone through the groups of its sorted input. -/
def Reduces (J : Job) (f : List Record → List Record) : Prop :=
  ∀ x rs stdout, KeySorted rs → (∀ r ∈ rs, J.worker.decode (encodeRecord r) = some r) →
    J.reducer x (encodeAll rs) = .ok (stdout, none) →
    stdout = encodeAll (runGroups Record.key f rs)

/-- The key of the output of a partition. -/
def Job.outputKey (J : Job) (p : Nat) : String :=
  ReduceAssignment.outputKey ⟨toString J.jobID, p, []⟩

/-- The Reduce task of the partition has been reported. -/
def JobState.Reported (J : Job) (s : JobState) (p : Nat) : Prop :=
  ∃ c ∈ s.reduced, s.db.isReduceOf J.jobID c.1 p

/-- The objects of the partitions that have been reported together have these records. -/
def JobState.Outputs (J : Job) (s : JobState) (result : Multiset Record) : Prop :=
  ∃ outs : Nat → List Record,
    (∀ p, s.Reported J p → s.objects (J.outputKey p) = some (encodeAll (outs p))) ∧
    (∀ p, ¬ s.Reported J p → outs p = []) ∧
    ∑ p ∈ Finset.range J.reducers, (outs p : Multiset Record) = result

/-- The output of an attempt that succeeds: empty without readers, and otherwise what the reducer
has written. -/
theorem runReduce_content {w : Worker} {code : ReduceCode} {a : ReduceAssignment}
    {failure : Option Status} {content : Bytes}
    (hst : (runReduce w code a chunks failure).stored = [(a.outputKey, content)])
    (hres : (runReduce w code a chunks failure).result = .ok out) :
    failure = none ∧ ((streamSegments chunks).map Prod.fst = [] ∧ content = [] ∨
      ∃ merged, code.merge ((streamSegments chunks).map Prod.fst) = .ok merged ∧
        code.reducer merged = .ok (content, none)) := by
  have hput : ∀ {what : String} {bytes : Bytes},
      (putOutput w code a what bytes).1 = [(a.outputKey, content)] → bytes = content := by
    intro what bytes hput
    unfold putOutput at hput
    split at hput
    · cases hput
    · cases hput
      rfl
  generalize hrun : runReduce w code a chunks failure = run at hst hres
  unfold runReduce at hrun
  split at hrun
  · subst hrun
    cases hst
  · next hdown =>
    obtain ⟨rfl, hreaders, _⟩ := download_ok_iff.mp hdown
    subst hrun
    exact ⟨rfl, .inl ⟨hreaders.symm, (hput hst).symm⟩⟩
  · next readers _ hdown =>
    obtain ⟨rfl, rfl, _⟩ := download_ok_iff.mp hdown
    refine ⟨rfl, .inr ?_⟩
    split at hrun
    · subst hrun
      cases hst
    next merged hmerge =>
    split at hrun
    · subst hrun
      cases hst
    next stdout exit hreducer =>
    cases exit with
    | some e =>
      subst hrun
      cases hres
    | none =>
      subst hrun
      cases hput hst
      exact ⟨merged, hmerge, hreducer⟩

/-- The records that the committed attempts have emitted. -/
def JobState.records (s : JobState) (recs : UUID → List Record) : List Record :=
  s.exchange.committed.flatMap fun c => recs c.2

/-- Attempts without records for the partition add nothing to it. -/
theorem partitionRecords_committed {J : MapJob} {committed : List (UUID × UUID)}
    (hemits : ∀ c ∈ committed, Emits J c.2 (recs c.2)) :
    partitionRecords J.reducers p ((((committed.filter fun c =>
        decide (p ∈ J.partitions c.2)).map fun c => c.2)).flatMap recs) =
      partitionRecords J.reducers p (committed.flatMap fun c => recs c.2) := by
  unfold partitionRecords
  induction committed with
  | nil => rfl
  | cons c rest ih =>
    have ih := ih fun c hc => hemits c (List.mem_cons_of_mem _ hc)
    have hc := hemits c List.mem_cons_self
    rw [List.flatMap_cons, List.filter_append, ← ih, List.filter_cons]
    split
    · rw [List.map_cons, List.flatMap_cons, List.filter_append]
    · next hp =>
      have hnil : partitionRecords J.reducers p (recs c.2) = [] :=
        not_not.mp fun hne => hp (decide_eq_true ((mem_partitions_iff hc).mpr hne))
      rw [show (recs c.2).filter _ = [] from hnil, List.nil_append]

section Outputs

variable (hrun : Running J s) (hpart : DistinctPartitions s.db J.jobID)
  (hdone : s.db.MapsDone J.jobID)
  (hemits : ∀ c ∈ s.exchange.committed, Emits J.toMapJob c.2 (recs c.2))
include hrun hpart hdone hemits

/-- The output object of a partition that was reported. -/
theorem partition_output (hreduces : Reduces J f) (hrep : s.Reported J p) :
    ∃ out : List Record, KeySorted out ∧
      out.Perm (partitionRecords J.reducers p (s.records recs)) ∧
      s.objects (J.outputKey p) = some (encodeAll (runGroups Record.key f out)) := by
  obtain ⟨c, hc, hp⟩ := hrep
  obtain ⟨wk, run, content, res, hx, ht, hwrun, hst, hres, hobj, _⟩ :=
    (hrun.kept hpart).reported c hc
  have hw := hrun.work c.2 wk hx
  have hpartition : wk.task.reducePartition = p := by
    obtain ⟨row, hrow, _, _, hrp⟩ := hw.task
    obtain ⟨row', hrow', _, _, hrp'⟩ := hp
    rw [ht] at hrow
    cases hrow.symm.trans hrow'
    exact hrp.symm.trans hrp'
  have hkey : wk.key = J.outputKey p := by
    rw [← hpartition]
    unfold ReduceWork.key Job.outputKey reduceAssignment
    rw [hw.jobID]
    rfl
  obtain ⟨chunks, failure, putError, hfetched, rfl⟩ := hw.run run hwrun
  obtain ⟨rfl, hcontent⟩ := runReduce_content hst hres
  obtain ⟨xs, hxs, hperm⟩ := delivered_committed hrun.exchanged hrun.owned hdone p
  rw [hw.fetched chunks hfetched, hpartition, hxs] at hcontent
  have hmem : ∀ x ∈ xs, ∃ t, (t, x) ∈ s.exchange.committed := by
    intro x hx
    obtain ⟨⟨t, _⟩, hc, rfl⟩ := List.mem_map.mp (hperm.mem_iff.mp hx)
    exact ⟨t, (List.mem_filter.mp hc).1⟩
  have hrecords : (partitionRecords J.reducers p (xs.flatMap recs)).Perm
      (partitionRecords J.reducers p (s.records recs)) := by
    rw [JobState.records, ← partitionRecords_committed hemits]
    exact (hperm.flatMap_right recs).filter _
  rw [← hkey, hobj]
  rcases hcontent with ⟨hnil, rfl⟩ | ⟨merged, hmerged, hreducer⟩
  · cases List.map_eq_nil_iff.mp hnil
    exact ⟨[], List.Pairwise.nil, hrecords, rfl⟩
  · obtain ⟨out, rfl, hout, hsorted⟩ := mergeShuffleInputs_ok
      (fun x hx => (hmem x hx).elim fun t ht => hemits _ ht) hmerged
    have hdecode : ∀ r ∈ out, J.worker.decode (encodeRecord r) = some r := by
      intro r hr
      obtain ⟨x, hx, hr⟩ := List.mem_flatMap.mp (List.mem_of_mem_filter (hout.mem_iff.mp hr))
      obtain ⟨t, ht⟩ := hmem x hx
      exact (hemits _ ht).decoded r hr
    exact ⟨out, hsorted, hout.trans hrecords,
      congrArg some (hreduces _ _ _ hsorted hdecode hreducer)⟩

/-- The outputs of all partitions, when each one with records has been reported. -/
theorem outputs_reduced {reduce : Multiset Record → Multiset Record} (hreduces : Reduces J f)
    (hf : ∀ g, (f g : Multiset Record) = reduce g)
    (hall : ∀ p < J.reducers,
      s.Reported J p ∨ partitionRecords J.reducers p (s.records recs) = []) :
    s.Outputs J (reduced Record.key reduce (s.records recs)) := by
  have houts : ∀ p, ∃ out : List Record,
      (s.Reported J p → s.objects (J.outputKey p) = some (encodeAll out)) ∧
      (¬ s.Reported J p → out = []) ∧
      (p < J.reducers → (out : Multiset Record) =
        reduced Record.key reduce (partitionRecords J.reducers p (s.records recs))) := by
    intro p
    by_cases hp : s.Reported J p
    · obtain ⟨out, hsorted, hperm, hobj⟩ :=
        partition_output hrun hpart hdone hemits hreduces hp
      refine ⟨runGroups Record.key f out, fun _ => hobj, fun hno => absurd hp hno, fun _ => ?_⟩
      rw [runGroups_eq_reduced hf hsorted, Multiset.coe_eq_coe.mpr hperm]
    · refine ⟨[], fun hyes => absurd hyes hp, fun _ => rfl, fun hlt => ?_⟩
      rw [(hall p hlt).resolve_left hp]
      rfl
  choose outs hobj hnone hsum using houts
  refine ⟨outs, hobj, hnone, ?_⟩
  have hlt : ∀ r ∈ (s.records recs : Multiset Record),
      hashPartition r.key J.reducers ∈ Finset.range J.reducers :=
    fun r _ => Finset.mem_range.mpr (hashPartition_lt r.key J.reducers_pos)
  rw [← reduced_fiberwise reduce (fun k => hashPartition k J.reducers) hlt]
  refine Finset.sum_congr rfl fun p hp => (hsum p (Finset.mem_range.mp hp)).trans ?_
  rw [Multiset.filter_coe]
  rfl

end Outputs

/-- The runs are those in which the job is scheduled once, no manager restarts, only current
attempts store their streams and upload, and no Map task is assigned again after a stream of it was
stored; the Reduce tasks have partitions of their own. When the Map phase is over and every
partition with records has been reported, then each Map task has one committed attempt, and the
output objects together have the results of the groups of all records that these attempts have
emitted. -/
theorem job_result {J : Job} {q : Option Nat} {as : List JobAct} {s : JobState}
    {recs : UUID → List Record} {f : List Record → List Record}
    {reduce : Multiset Record → Multiset Record}
    (h : Run (Under (JobSteps J) (fencedSteps J)) (.initial q) as s)
    (hpart : DistinctPartitions s.db J.jobID) (hdone : s.db.MapsDone J.jobID)
    (hemits : ∀ c ∈ s.exchange.committed, Emits J.toMapJob c.2 (recs c.2))
    (hreduces : Reduces J f) (hf : ∀ g, (f g : Multiset Record) = reduce g)
    (hall : ∀ p < J.reducers,
      s.Reported J p ∨ partitionRecords J.reducers p (s.records recs) = []) :
    (s.exchange.committed.map Prod.fst).Nodup ∧
    (∀ t, t ∈ s.exchange.committed.map Prod.fst ↔ s.db.isMapOf J.jobID t = true) ∧
    s.Outputs J (reduced Record.key reduce (s.records recs)) := by
  have hrun := running_run h
  exact ⟨hrun.exchanged.reports.once, committed_iff hrun.exchanged hdone,
    outputs_reduced hrun hpart hdone hemits hreduces hf hall⟩

end Result

/-! ## 6. Two Map tasks that count words -/

/-- A reducer that reads its input as records and goes through their groups. -/
def recordReducer (decode : Line → Option Record) (f : List Record → List Record) (input : Bytes) :
    Except String (Bytes × Option String) :=
  match readRecords decode defaultMaxRecordBytes input with
  | some rs => .ok (encodeAll (runGroups Record.key f rs), none)
  | none => .error "unexpected input"

theorem reduces_recordReducer {J : Job} {f : List Record → List Record}
    (h : ∀ x, J.reducer x = recordReducer J.worker.decode f) : Reduces J f := by
  intro x rs stdout _ hdecode hok
  rw [h, recordReducer] at hok
  by_cases hfits : ∀ r ∈ rs, r.Fits defaultMaxRecordBytes
  · rw [readRecords_encodeAll hdecode hfits] at hok
    cases hok
    rfl
  · push Not at hfits
    obtain ⟨r, hr, hlong⟩ := hfits
    rw [readRecords_tooLong hdecode hr hlong] at hok
    cases hok

/-- How often each key occurs. -/
def countKeys (g : List Record) : List Record :=
  (g.map Record.key).dedup.map fun k => ⟨k, toString ((g.map Record.key).count k)⟩

/-- The same, without an order. -/
def keyCounts (g : Multiset Record) : Multiset Record :=
  (g.map Record.key).dedup.map fun k => ⟨k, toString ((g.map Record.key).count k)⟩

theorem countKeys_coe (g : List Record) : (countKeys g : Multiset Record) = keyCounts g := by
  unfold countKeys keyCounts
  simp only [Multiset.map_coe, Multiset.coe_dedup, Multiset.coe_count]

/-- Attempt 10 emits one word, the others two. -/
def wordRecords (x : UUID) : List Record := if x = 10 then [word] else [angle, word]

def wordWorker : Worker :=
  { shuffleWorker with
    decode := sampleDecode
    sha256Hex := fun content => toString content.length }

theorem wordWorker_pushes : wordWorker.hasShuffleClient = true :=
  rfl

/-- The two Map tasks and the Reduce task of `smallJob`. -/
def wordJob : Job where
  jobID := 1
  reducers := 1
  worker := wordWorker
  emitted x := (wordRecords x).map encodeRecord
  reducers_pos := Nat.one_pos
  pushes := wordWorker_pushes
  shuffleConfig := ⟨0, 0⟩
  mergeMessage _ := ""
  reducer _ := recordReducer sampleDecode countKeys

/-- Both Map tasks are pushed and reported, then the Reduce task runs. -/
def wordRun : List JobAct :=
  (twoPushing ++ [Act.close 10 0, Act.close 11 0] ++ twoReported ++
    [Act.cluster (calling (.getNextTask soloReplica 1 "worker" 12 22) 5)]).map .exchange ++
    [.fetch 12 none, .reduce 12 none, .report 12 soloReplica 22 6 fun _ => false]

theorem emits_wordRecords (x : UUID) : Emits wordJob.toMapJob x (wordRecords x) := by
  refine ⟨rfl, ?_, ?_, ?_⟩ <;> unfold wordRecords <;> split <;> decide

theorem wordRun_ends :
    ∃ s, Run (Under (JobSteps wordJob) (fencedSteps wordJob)) (.initial none) wordRun s ∧
      s.exchange.committed = [(2, 10), (3, 11)] ∧ s.db.MapsDone 1 ∧ DistinctPartitions s.db 1 ∧
      s.Reported wordJob 0 := by
  obtain ⟨s, hrun, hreduced, hcommitted, hdone, hreduce, row, hrow, hrest⟩ :=
    (run_toUnder (by decide +kernel) : ∃ s : JobState,
      Run (Under (JobSteps wordJob) (fencedSteps wordJob)) (.initial none) wordRun s ∧
      s.reduced = [(4, 12)] ∧ s.exchange.committed = [(2, 10), (3, 11)] ∧ s.db.MapsDone 1 ∧
      (∀ row ∈ s.db.tasks.rows, row.taskType = .reduce → row.taskID = 4) ∧
      ∃ row ∈ s.db.tasks.get? 4, row.jobID = 1 ∧ row.taskType = .reduce ∧ row.replicaIndex = 0)
  have hone : ∀ t p, s.db.isReduceOf 1 t p → t = 4 := by
    rintro t p ⟨row, hrow, _, hty, _⟩
    rw [← hreduce row (Table.mem_of_get? hrow) hty]
    exact (Table.key_of_get? hrow).symm
  refine ⟨s, hrun, hcommitted, hdone,
    fun t t' p ht ht' => (hone t p ht).trans (hone t' p ht').symm, ?_⟩
  exact ⟨(4, 12), hreduced ▸ List.mem_cons_self, row, hrow, hrest⟩

/-- The output counts the words of both tasks. -/
theorem job_result_words :
    ∃ s outs, Run (Under (JobSteps wordJob) (fencedSteps wordJob)) (.initial none) wordRun s ∧
      s.objects "1/partition-0.jsonl" = some (encodeAll outs) ∧
      (outs : Multiset Record) =
        reduced Record.key keyCounts ([word, angle, word] : List Record) := by
  obtain ⟨s, hrun, hcommitted, hdone, hpart, hp⟩ := wordRun_ends
  obtain ⟨_, _, outs, hobj, _, hsum⟩ := @job_result wordJob none wordRun s wordRecords
    countKeys keyCounts hrun hpart hdone (fun c _ => emits_wordRecords c.2)
    (reduces_recordReducer fun _ => rfl) countKeys_coe
    (fun p hlt => .inl (Nat.lt_one_iff.mp hlt ▸ hp))
  refine ⟨s, outs 0, hrun, hobj 0 hp, ?_⟩
  rw [JobState.records, hcommitted] at hsum
  exact (Finset.sum_range_one _).symm.trans hsum

end KubeMapReduce
