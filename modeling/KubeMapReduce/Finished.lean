import KubeMapReduce.Agreement

/-!
# Completed jobs

A job is Completed when a finalizer says so, from a state that was recorded or derived before,
and not from a check at that time. The tasks of a job and the numbers in its row of JOB_CONFIGS
come from one ScheduleJob call or, for the row, from CreateJob.

* `completed_whole`: a Completed job has the tasks that JOB_CONFIGS says, all of them Completed,
  if each job is scheduled once with the numbers of its row, and if no state is derived for a job
  without tasks.
* `completed_without_tasks`: a job that is cancelled before it is scheduled can be Completed
  after a restart.
-/

namespace KubeMapReduce

open Tables Runs

variable {a : CleanMove} {req : ScheduleJobRequest} {s : Scheduler} {now : Time} {db db' : DB}
  {j : UUID} {cs : List Change}

/-! ## 1. The tasks of a job -/

def DB.taskCount (db : DB) (j : UUID) (ty : TaskType) : Nat :=
  db.tasks.rows.countP fun t => decide (t.jobID = j) && decide (t.taskType = ty)

def DB.HasTask (db : DB) (j : UUID) : Prop := ∃ row ∈ db.tasks.rows, row.jobID = j

instance (db : DB) (j : UUID) : Decidable (db.HasTask j) :=
  inferInstanceAs (Decidable (∃ row ∈ db.tasks.rows, row.jobID = j))

/-- The job has the tasks that its row of JOB_CONFIGS says. -/
def Whole (db : DB) (j : UUID) : Prop :=
  ∃ cfg, db.jobConfigs.get? j = some cfg ∧ db.taskCount j .map = cfg.mTasks ∧
    db.taskCount j .reduce = cfg.rTasks

theorem taskCount_changes (hcs : Changes now db cs db') (ty : TaskType) :
    db'.taskCount j ty = db.taskCount j ty +
      (addedTasks cs).countP fun t => decide (t.jobID = j) && decide (t.taskType = ty) := by
  have hcount : ∀ rows : List TaskRow,
      rows.countP (fun t => decide (t.jobID = j) && decide (t.taskType = ty)) =
        (rows.map TaskRow.ident).countP fun i => decide (i.2.1 = j) && decide (i.2.2.1 = ty) :=
    fun rows => by rw [List.countP_map]; rfl
  rw [DB.taskCount, DB.taskCount, hcount, hcount, hcount, ident_changes hcs, List.countP_append]

theorem hasTask_iff : db.HasTask j ↔ ∃ i ∈ db.tasks.rows.map TaskRow.ident, i.2.1 = j := by
  simp [DB.HasTask, TaskRow.ident]

theorem hasTask_changes (hcs : Changes now db cs db') :
    db'.HasTask j ↔ db.HasTask j ∨ ∃ row ∈ addedTasks cs, row.jobID = j := by
  rw [hasTask_iff, hasTask_iff, ident_changes hcs]
  simp only [List.mem_append, or_and_right, exists_or]
  refine or_congr_right ?_
  simp [TaskRow.ident]

theorem addedTasks_spares (hspare : ∀ c ∈ cs, c.Spares j) :
    ∀ row ∈ addedTasks cs, row.jobID ≠ j :=
  fun row hrow => hspare (.addTask row) (mem_addedTasks.mp hrow)

theorem taskCount_spares (hcs : Changes now db cs db') (hspare : ∀ c ∈ cs, c.Spares j)
    (ty : TaskType) : db'.taskCount j ty = db.taskCount j ty := by
  rw [taskCount_changes hcs, List.countP_eq_zero.mpr, Nat.add_zero]
  intro row hrow hp
  exact addedTasks_spares hspare row hrow (of_decide_eq_true (Bool.and_eq_true_iff.mp hp).1)

theorem hasTask_spares (hcs : Changes now db cs db') (hspare : ∀ c ∈ cs, c.Spares j) :
    db'.HasTask j ↔ db.HasTask j := by
  rw [hasTask_changes hcs, or_iff_left]
  rintro ⟨row, hrow, hj⟩
  exact addedTasks_spares hspare row hrow hj

/-- A job keeps its row of JOB_CONFIGS. -/
theorem config_kept (hcs : Changes now db cs db') {cfg : JobConfigRow}
    (h : db.jobConfigs.get? j = some cfg) : db'.jobConfigs.get? j = some cfg := by
  rw [configs_changes hcs]
  generalize db.jobConfigs = configs at h
  induction addedConfigs cs generalizing configs with
  | nil => exact h
  | cons row rows ih => exact ih _ (Table.get?_insert_of_some h)

theorem Whole.changes (h : Whole db j) (hcs : Changes now db cs db')
    (hspare : ∀ c ∈ cs, c.Spares j) : Whole db' j := by
  obtain ⟨cfg, hcfg, hmap, hreduce⟩ := h
  exact ⟨cfg, config_kept hcs hcfg, (taskCount_spares hcs hspare _).trans hmap,
    (taskCount_spares hcs hspare _).trans hreduce⟩

/-! ## 2. What ScheduleJob adds -/

theorem parseTaskType_eq (name : String) (ty : TaskType) :
    parseTaskType name = some ty ↔
      name = match ty with | .map => "Map" | .reduce => "Reduce" := by
  unfold parseTaskType
  split
  · cases ty <;> simp
  · cases ty <;> simp
  · next h h' =>
    cases ty with
    | map => exact iff_of_false (by simp) h
    | reduce => exact iff_of_false (by simp) h'

/-- The tasks of a type among the rows of a request. -/
theorem rows_countP {replica : Nat} {ty : TaskType} {rows : List TaskRow}
    {tasks : List ScheduleTask} (h : rows.map some = tasks.map (ScheduleTask.row s j replica)) :
    rows.countP (fun t => decide (t.jobID = j) && decide (t.taskType = ty)) =
      tasks.countP fun task => decide (parseTaskType task.taskType = some ty) := by
  induction tasks generalizing rows with
  | nil => rw [List.map_eq_nil_iff.mp h, List.countP_nil, List.countP_nil]
  | cons task tasks ih =>
    obtain ⟨row, rows, rfl⟩ : ∃ row rest, rows = row :: rest := by
      cases rows with
      | nil => cases h
      | cons row rest => exact ⟨row, rest, rfl⟩
    obtain ⟨hrow, hrest⟩ := List.cons.inj h
    rw [List.countP_cons, List.countP_cons, ih hrest]
    congr 1
    unfold ScheduleTask.row at hrow
    split at hrow
    · next ty' _ hty =>
      cases hrow
      rw [hty]
      simp
    · cases hrow

/-- ScheduleJob adds as many tasks of each type as its request says. -/
theorem Submits.counts (h : Submits s req j cs) (hcs : Changes now db cs db') :
    (db'.taskCount j .map : Int) = db.taskCount j .map + req.mTasks ∧
      (db'.taskCount j .reduce : Int) = db.taskCount j .reduce + req.rTasks := by
  obtain ⟨_, hmap, hreduce⟩ := valid_counts h.valid
  obtain ⟨replica, _, hrows⟩ := h.tasks
  have hcount : ∀ ty name, (∀ text, parseTaskType text = some ty ↔ text = name) →
      (db'.taskCount j ty : Int) = db.taskCount j ty + countTasks name req.tasks := by
    intro ty name hname
    rw [taskCount_changes hcs, rows_countP hrows, countTasks, Int.natCast_add]
    simp only [hname]
  exact ⟨hmap ▸ hcount .map "Map" fun text => parseTaskType_eq text .map,
    hreduce ▸ hcount .reduce "Reduce" fun text => parseTaskType_eq text .reduce⟩

/-- The row of JOB_CONFIGS after ScheduleJob. -/
theorem Submits.config_get? (h : Submits s req j cs) (hcs : Changes now db cs db') :
    ∃ row, db'.jobConfigs.get? j = (db.jobConfigs.get? j).or (some row) ∧
      (row.mTasks : Int) = req.mTasks ∧ (row.rTasks : Int) = req.rTasks := by
  obtain ⟨row, hadded, hrow⟩ := h.config
  refine ⟨row, ?_, ?_⟩
  · rw [configs_changes hcs, hadded, List.foldl_cons, List.foldl_nil, Table.get?_insert,
      if_pos (configRow_jobID hrow)]
  · unfold Query.configRow at hrow
    split at hrow
    · next hpos =>
      cases hrow
      exact ⟨Int.toNat_of_nonneg (Int.le_of_lt hpos.1), Int.toNat_of_nonneg (Int.le_of_lt hpos.2)⟩
    · cases hrow

/-- A job that is scheduled for the first time, with the numbers of its row if it has one. -/
theorem Submits.whole (h : Submits s req j cs) (hcs : Changes now db cs db') (hnew : ¬ db.HasTask j)
    (hcfg : ∀ cfg ∈ db.jobConfigs.get? j,
      (cfg.mTasks : Int) = req.mTasks ∧ (cfg.rTasks : Int) = req.rTasks) : Whole db' j := by
  have hzero : ∀ ty, db.taskCount j ty = 0 := fun ty => List.countP_eq_zero.mpr fun row hrow hp =>
    hnew ⟨row, hrow, of_decide_eq_true (Bool.and_eq_true_iff.mp hp).1⟩
  obtain ⟨hmap, hreduce⟩ := h.counts hcs
  rw [hzero] at hmap hreduce
  obtain ⟨row, hget, hrow⟩ := h.config_get? hcs
  cases hold : db.jobConfigs.get? j with
  | none =>
    rw [hold] at hget
    exact ⟨row, hget, by omega, by omega⟩
  | some cfg =>
    rw [hold] at hget
    obtain ⟨hm, hr⟩ := hcfg cfg hold
    exact ⟨cfg, hget, by omega, by omega⟩

/-- The changes of a ScheduleJob call that is not refused. -/
theorem scheduled_changes {w w' : World} {locked : Resource → Bool}
    (h : Step w (.call (.scheduleJob s req) now locked) w')
    (hok : (perform (.scheduleJob s req) now locked w.db).1.result.isOk = true)
    (hj : s.uuidParse req.jobID = some j) :
    ∃ cs, Changes now w.db cs w'.db ∧ Submits s req j cs := by
  obtain ⟨_, _, hdb, _⟩ := step_call h
  obtain ⟨cs, hcs, hsub⟩ := perform_scheduleJob hj hok
  exact ⟨cs, hdb ▸ hcs, hsub⟩

/-! ## 3. Completed jobs -/

variable {m m' : Cleaners}

/-- Conditions on the steps that add tasks and derive states: a job is scheduled once, with the
numbers of its row of JOB_CONFIGS if CreateJob has added one, and a finalizer that finds no open
task finds a task. -/
def regular (m : Cleaners) : CleanMove → Prop
  | .serve _ (.scheduleJob s req) now locked =>
    (perform (.scheduleJob s req) now locked m.world.db).1.result.isOk = true →
      ∀ j ∈ s.uuidParse req.jobID, ¬ m.world.db.HasTask j ∧ ∀ cfg ∈ m.world.db.jobConfigs.get? j,
        (cfg.mTasks : Int) = req.mTasks ∧ (cfg.rTasks : Int) = req.rTasks
  | .finalizer k .count => ∀ f ∈ m.finalizers[k]?, f.stage = .countPending true ∨
      f.stage = .countPending false → m.world.db.HasTask f.jobID
  | _ => True

/-- The job has tasks, and all of them are Completed. -/
def DB.Finished (db : DB) (j : UUID) : Prop := db.AllDone j ∧ db.HasTask j

/-- Every Completed job has tasks that are Completed, so has every job that a live process is
about to complete, and a job with tasks has all of them. -/
structure Finishing (m : Cleaners) (j : UUID) : Prop where
  due : m.Holds j (some .completed) → m.world.db.Finished j
  completed : m.world.db.jobStatus j = some .completed → m.world.db.Finished j
  whole : m.world.db.HasTask j → Whole m.world.db j

theorem finishing_initial (hasStaging : Bool) (q : Option Nat) (j : UUID) :
    Finishing (Cleaners.initial hasStaging q) j := by
  refine ⟨?_, by rintro ⟨⟩, ?_⟩
  · rintro (⟨_, hx, _⟩ | ⟨_, hi, _⟩ | ⟨_, hf, _⟩)
    · cases hx
    · cases hi
    · cases hf
  · rintro ⟨_, hrow, _⟩
    cases hrow

theorem whole_step (hm : Finishing m j) (h : Cleans m a m') (ho : regular m a) :
    (m'.world.db.HasTask j → Whole m'.world.db j) ∧
      (m.world.db.Finished j → m'.world.db.Finished j) := by
  by_cases hsch : Schedules m j a
  · unfold Schedules at hsch
    split at hsch
    · next r s req now locked =>
      obtain ⟨hnew, hcfg⟩ := ho hsch.1 j hsch.2
      obtain ⟨_, hs, _⟩ := cleans_serve h
      obtain ⟨cs, hcs, hsub⟩ := scheduled_changes hs hsch.1 hsch.2
      exact ⟨fun _ => hsub.whole hcs hnew hcfg, fun hf => absurd hf.2 hnew⟩
    · exact hsch.elim
  · obtain ⟨now, cs, hcs, hspare⟩ := cleans_spares h hsch
    refine ⟨fun ht => (hm.whole ((hasTask_spares hcs hspare).mp ht)).changes hcs hspare, ?_⟩
    exact fun hf => ⟨hf.1.changes hcs hspare, (hasTask_spares hcs hspare).mpr hf.2⟩

theorem finishing_step (hm : Finishing m j) (h : Cleans m a m') (ho : regular m a) :
    Finishing m' j := by
  obtain ⟨hwhole, hkeep⟩ := whole_step hm h ho
  have hsame : m'.world.db.jobStatus j = m.world.db.jobStatus j →
      m'.world.db.jobStatus j = some .completed → m'.world.db.Finished j :=
    fun hs hc => hkeep (hm.completed (hs ▸ hc))
  cases cleans_effect h j with
  | passes status holds counting =>
    refine ⟨fun he => hkeep (hm.due (holds _ he)), fun hc => ?_, hwhole⟩
    rcases status with hs | ⟨_, hs⟩ | ⟨hs, _⟩
    · exact hsame hs hc
    · cases hs.symm.trans hc
    · cases hs.symm.trans hc
  | @closes r c now locked ts closes db holds counting =>
    refine ⟨fun he => ?_, fun hc => ?_, hwhole⟩
    · rcases holds _ he with he | he
      · exact hkeep (hm.due he)
      · cases he
        refine ⟨db ▸ closes.backed, ?_⟩
        -- a job whose tasks were not all Completed has one
        have htask : m.world.db.HasTask j := by
          by_contra hno
          refine closes.undecided rfl (.inr fun t row ht hj => ?_)
          exact absurd ⟨row, Table.mem_of_get? ht, hj⟩ hno
        obtain ⟨_, cs, hcs⟩ : ∃ now cs, Changes now m.world.db cs m'.world.db := by
          obtain ⟨_, hs, _⟩ := cleans_serve h
          obtain ⟨now, cs, _, hcs, _⟩ := step_changes hs
          exact ⟨now, cs, hcs⟩
        exact (hasTask_changes hcs).mpr (.inl htask)
    · rw [db] at hc
      cases closes.cleaning.symm.trans hc
  | starts cleaning world holds counting =>
    refine ⟨fun he => hkeep (hm.due ((holds _ he).resolve_right (by simp))), ?_, hwhole⟩
    exact hsame (by rw [world])
  | counts none sound world holds =>
    exact ⟨fun he => hkeep (hm.due (holds _ he)), hsame (by rw [world]), hwhole⟩
  | @derives k ts none state world holds counting =>
    refine ⟨fun he => ?_, hsame (by rw [world]), hwhole⟩
    rcases holds _ he with he | he
    · exact hkeep (hm.due he)
    · cases he
      rcases state with ⟨hts, _⟩ | ⟨⟨f, hk, rfl, b, hb⟩, hts⟩
      · cases hts
      · split at hts
        · cases hts
        · next hzero =>
          rw [world]
          refine ⟨pendingCount_eq_zero.mp (Nat.eq_zero_of_not_pos hzero), ho f hk ?_⟩
          cases b
          · exact .inr hb
          · exact .inl hb
  | @finalizes k ts now locked held step holds counting =>
    refine ⟨fun he => hkeep (hm.due (holds _ he)), fun hc => ?_, hwhole⟩
    obtain ⟨_, _, hdb, _⟩ := step_call step
    obtain ⟨_, _, _, hdb' | ⟨_, hcl, hcs⟩⟩ :=
      performed (c := .finalizeJob j ts) rfl finalizeJob_changes
    · exact hsame (by rw [hdb, hdb']) hc
    · have hst : m'.world.db.jobStatus j = some ts.status := by
        rw [hdb]
        exact jobStatus_set hcs (by simp [hcl]) (by simp) (.inl (by simp))
      obtain rfl : ts = .completed := by
        cases ts with
        | completed => rfl
        | _ => cases hst.symm.trans hc
      exact hkeep (hm.due held)

/-- A Completed job has as many Map and Reduce tasks as its row of JOB_CONFIGS says, and all of
them are Completed. -/
theorem completed_whole {q : Option Nat} {b : Bool} {as : List CleanMove}
    (h : Run (Under Cleans regular) (Cleaners.initial b q) as m)
    (hj : m.world.db.jobStatus j = some .completed) :
    (∃ cfg, m.world.db.jobConfigs.get? j = some cfg ∧
      m.world.db.taskCount j .map = cfg.mTasks ∧ m.world.db.taskCount j .reduce = cfg.rTasks) ∧
    ∀ t row, m.world.db.tasks.get? t = some row → row.jobID = j → row.status = .completed := by
  have hm : Finishing m j := h.invariant (I := fun m => Finishing m j)
    (fun _ _ _ hm hs => finishing_step hm hs.1 hs.2) (finishing_initial b q j)
  obtain ⟨hall, htask⟩ := hm.completed hj
  exact ⟨hm.whole htask, hall⟩

instance (m : Cleaners) (a : CleanMove) : Decidable (regular m a) := by
  induction a using CleanMove.casesOn with
  | serve _ c =>
    induction c using Call.casesOn with
    | scheduleJob =>
      dsimp only [regular]
      exact instDecidableForall
    | _ => exact instDecidableTrue
  | finalizer _ step =>
    induction step using FinalizerStep.casesOn with
    | count =>
      dsimp only [regular]
      infer_instance
    | _ => exact instDecidableTrue
  | _ => exact instDecidableTrue

/-- A job with two Map tasks without outputs, whose Reduce task is completed as empty. -/
def finishedMoves : List CleanMove :=
  startProcess 0 0 ++
    [callTo 0 (.createJob soloReplica smallRecord) 1,
      callTo 0 (.scheduleJob soloReplica smallJob) 1,
      callTo 0 (.getNextTask soloReplica 1 "worker" 10 20) 2,
      callTo 0 (.completeTask soloReplica 2 10 20 [] []) 3,
      callTo 0 (.getNextTask soloReplica 1 "worker" 11 21) 4,
      callTo 0 (.completeTask soloReplica 3 11 21 [] []) 5,
      callTo 0 (.getNextTask soloReplica 1 "worker" 12 22) 6,
      .post 9 (.enqueueCleanup 1 .completed) 6, .tick 0 [1]] ++ finalizing 0 7

theorem completed_whole_small :
    ∃ m, Run (Under Cleans regular) (Cleaners.initial true none) finishedMoves m ∧
      m.world.db.jobStatus 1 = some .completed ∧
      ∃ cfg, m.world.db.jobConfigs.get? 1 = some cfg ∧
        m.world.db.taskCount 1 .map = cfg.mTasks ∧ m.world.db.taskCount 1 .reduce = cfg.rTasks := by
  obtain ⟨m, hm, hst⟩ := (run_toUnder (by decide) :
    ∃ m, Run (Under Cleans regular) (Cleaners.initial true none) finishedMoves m ∧
      m.world.db.jobStatus 1 = some .completed)
  exact ⟨m, hm, hst, (completed_whole hm hst).1⟩

/-- The job is cancelled before it is scheduled. The process ends, and the next one derives
Completed. -/
def unscheduledMoves : List CleanMove :=
  cancelledMoves ++ .restart 0 :: startProcess 0 3 ++
    [.finalizer 0 .count, .finalizer 0 .count, .finalizer 0 .enqueue, .tick 0 [1]] ++
    finalizing 1 4

/-- Its row of JOB_CONFIGS says two Map tasks and one Reduce task. -/
theorem completed_without_tasks :
    ∃ m, Run Cleans (Cleaners.initial true none) unscheduledMoves m ∧
      m.world.db.jobStatus 1 = some .completed ∧
      (m.world.db.jobConfigs.get? 1).map (fun cfg => (cfg.mTasks, cfg.rTasks)) = some (2, 1) ∧
      m.world.db.taskCount 1 .map = 0 ∧ m.world.db.taskCount 1 .reduce = 0 :=
  run_to (by decide)

end KubeMapReduce
