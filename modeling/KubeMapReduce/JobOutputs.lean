import KubeMapReduce.Finished
import KubeMapReduce.Outputs
import Mathlib.Data.List.Sort

/-!
# The outputs of a job

The output of a Reduce task is one object, so its row of TASK_OUTPUTS has partition_index 0
whatever its partition is. GetJobOutputs orders the rows of a job by this column and then by
output_id, and it lists no row for a partition that was completed as empty.

* `jobOutputURIs_eq`: the outputs are listed in the order in which the Reduce tasks reported.
* `jobOutputs_by_partition`: the i-th URI is that of partition i, if the Reduce tasks of the job
  report in the order of their partitions and none is completed as empty.
* `outputs_swapped`: two Reduce tasks report in the other order.
-/

namespace KubeMapReduce

open Tables Runs

variable {a : CleanMove} {cs : List Change} {o : OutputRow} {s : Scheduler}

/-! ## 1. The query -/

/-- The output object of a partition. -/
def outputObject (j : UUID) (p : Nat) : String := ReduceAssignment.outputURI ⟨toString j, p, []⟩

/-- ORDER BY partition_index NULLS LAST. -/
def OutputRow.before (o o' : OutputRow) : Prop :=
  match o.partitionIndex, o'.partitionIndex with
  | some p, some p' => p ≤ p'
  | none, some _ => False
  | _, none => True

instance : DecidableRel OutputRow.before := fun o o' => by
  unfold OutputRow.before
  split <;> infer_instance

/-- QueryGetJobOutputURIs. The rows of TASK_OUTPUTS are in the order of output_id, which a stable
sort keeps. -/
def queryGetJobOutputURIs (db : DB) (j : UUID) : List String :=
  ((db.outputs.filter fun o =>
    match db.tasks.get? o.taskID with
    | some t => decide (t.jobID = j) && decide (t.taskType = .reduce) &&
        decide (t.status = .completed)
    | none => false).insertionSort OutputRow.before).map OutputRow.outputURI

/-- GetJobOutputs; `none` is ErrInvalidJobID. -/
def getJobOutputs (uuidParse : String → Option UUID) (db : DB) (jobID : String) :
    Option (List String) :=
  (uuidParse jobID).map (queryGetJobOutputURIs db)

/-! ## 2. The reports -/

section Reports

variable {now : Time} {db db' : DB} {j : UUID} {cs : List Change}

/-- The partition of the Reduce task of the job that the output row belongs to. -/
def DB.partitionOf (db : DB) (j : UUID) (o : OutputRow) : Option Nat :=
  match db.tasks.get? o.taskID with
  | some t => if t.jobID = j ∧ t.taskType = .reduce then some t.replicaIndex else none
  | none => none

/-- The partitions that the Reduce tasks of the job have reported, in the order of their
reports. -/
def DB.reduceReports (db : DB) (j : UUID) : List Nat := db.outputs.filterMap (db.partitionOf j)

theorem partitionOf_some {p : Nat} (h : db.partitionOf j o = some p) :
    ∃ row, db.tasks.get? o.taskID = some row ∧ row.jobID = j ∧ row.taskType = .reduce ∧
      row.replicaIndex = p := by
  unfold DB.partitionOf at h
  split at h
  · next row hrow =>
    split at h
    · next hred => exact ⟨row, hrow, hred.1, hred.2, Option.some.inj h⟩
    · cases h
  · cases h

theorem partitionOf_eq {row : TaskRow} (h : db.tasks.get? o.taskID = some row) :
    db.partitionOf j o =
      if row.jobID = j ∧ row.taskType = .reduce then some row.replicaIndex else none := by
  rw [DB.partitionOf, h]

/-- Every output row belongs to a Completed task. -/
def DB.OutputsDone (db : DB) : Prop :=
  ∀ o ∈ db.outputs, ∃ row, db.tasks.get? o.taskID = some row ∧ row.status = .completed

theorem DB.OutputsDone.changes (h : db.OutputsDone) (hcs : Changes now db cs db') :
    db'.OutputsDone := by
  refine hcs.keeps (I := DB.OutputsDone) ?_ h
  rintro d c _ hg hd o ho
  rw [apply_outputs] at ho
  rcases List.mem_append.mp ho with ho | ho
  · obtain ⟨row, hrow, hs⟩ := hd o ho
    exact ⟨row, completed_apply hg hrow hs, hs⟩
  · cases c with
    | complete t x lease skew rows =>
      obtain ⟨hrows, row, att, hcur, _⟩ := hg
      rw [hrows o ho]
      exact ⟨_, complete_task hcur lease skew rows now, rfl⟩
    | _ => cases ho

/-- The reports that the changes add come after the others. -/
theorem reduceReports_changes (h : db.OutputsDone) (hcs : Changes now db cs db') :
    db'.reduceReports j =
      db.reduceReports j ++ (cs.flatMap Change.rows).filterMap (db'.partitionOf j) := by
  rw [DB.reduceReports, changes_outputs hcs, List.filterMap_append]
  congr 1
  refine List.filterMap_congr fun o ho => ?_
  obtain ⟨row, hrow, hs⟩ := h o ho
  rw [partitionOf_eq hrow, partitionOf_eq (completed_changes hcs hrow hs).1]

/-- The output rows of the Reduce tasks of the job are as runReduce reports them. -/
def DB.OutputsOwn (db : DB) (j : UUID) : Prop :=
  ∀ o ∈ db.outputs, ∀ p ∈ db.partitionOf j o,
    o.partitionIndex = some 0 ∧ o.outputURI = outputObject j p

/-- The outputs of a job are listed in the order of the reports. -/
theorem jobOutputURIs_eq (hdone : db.OutputsDone) (hown : db.OutputsOwn j) :
    queryGetJobOutputURIs db j = (db.reduceReports j).map (outputObject j) := by
  have hsel : ∀ o ∈ db.outputs, (match db.tasks.get? o.taskID with
      | some t => decide (t.jobID = j) && decide (t.taskType = .reduce) &&
          decide (t.status = .completed)
      | none => false) = (db.partitionOf j o).isSome := by
    intro o ho
    obtain ⟨row, hrow, hs⟩ := hdone o ho
    rw [partitionOf_eq hrow, hrow]
    dsimp only
    rw [hs]
    split
    · next h => simp [h.1, h.2]
    · next h => simpa using h
  rw [queryGetJobOutputURIs, List.filter_congr hsel, List.Pairwise.insertionSort_eq]
  · unfold DB.reduceReports DB.OutputsOwn at *
    generalize db.outputs = rows at hown
    induction rows with
    | nil => rfl
    | cons o rows ih =>
      obtain ⟨ho, hrows⟩ := List.forall_mem_cons.mp hown
      rw [List.filter_cons, List.filterMap_cons]
      split
      · next h =>
        obtain ⟨p, hp⟩ := Option.isSome_iff_exists.mp h
        rw [hp, List.map_cons, List.map_cons, ih hrows, (ho p hp).2]
      · next h =>
        rw [Option.not_isSome_iff_eq_none.mp h]
        exact ih hrows
  · -- all these rows tie
    have hzero : ∀ o ∈ db.outputs.filter (fun o => (db.partitionOf j o).isSome),
        o.partitionIndex = some 0 := by
      intro o ho
      obtain ⟨ho, hsome⟩ := List.mem_filter.mp ho
      obtain ⟨p, hp⟩ := Option.isSome_iff_exists.mp hsome
      exact (hown o ho p hp).1
    refine List.pairwise_of_forall_mem_list fun o ho o' ho' => ?_
    rw [OutputRow.before, hzero o ho, hzero o' ho']

end Reports

/-! ## 3. Reports in the order of the partitions -/

section Order

variable {w w' : World} {j : UUID}

/-- Conditions on the calls: a Reduce task of the job reports its output object, when the lower
partitions have reported and no other; GetNextTask completes no Reduce task of the job as empty;
and the Reduce tasks of the job are scheduled with the partitions 0, 1, ... -/
def inPartitionOrder (j : UUID) (db : DB) (now : Time) (locked : Resource → Bool) : Call → Prop
  | .completeTask s t a lease us cks =>
    (perform (.completeTask s t a lease us cks) now locked db).1.result.isOk = true →
      ∀ row ∈ db.tasks.get? t, row.jobID = j → row.taskType = .reduce →
        us = [outputObject j row.replicaIndex] ∧ row.replicaIndex = (db.reduceReports j).length
  | .getNextTask s j' worker a lease => j' = j →
      ∀ row ∈ (perform (.getNextTask s j' worker a lease) now locked db).2.tasks.rows,
        row.jobID = j → row.taskType = .reduce → row.status = .completed → row ∈ db.tasks.rows
  | .scheduleJob s req =>
    (perform (.scheduleJob s req) now locked db).1.result.isOk = true →
      s.uuidParse req.jobID = some j →
        (req.tasks.filter fun task => decide (task.taskType = "Reduce")).map
          (ScheduleTask.replicaIndex) = (List.range req.rTasks.toNat).map Int.ofNat
  | _ => True

/-- The Reduce tasks of the job that are Completed are those of the first partitions, and they
have reported in this order. -/
structure Ordered (db : DB) (j : UUID) : Prop where
  known : db.OutputsDone
  own : db.OutputsOwn j
  order : db.reduceReports j = List.range (db.reduceReports j).length
  done : ∀ t row, db.tasks.get? t = some row → row.jobID = j → row.taskType = .reduce →
    row.status = .completed → row.replicaIndex < (db.reduceReports j).length

theorem ordered_initial (q : Option Nat) (j : UUID) : Ordered (DB.initial q) j := by
  refine ⟨?_, ?_, rfl, ?_⟩
  · intro o ho
    cases ho
  · intro o ho
    cases ho
  · intro t row ht
    cases ht

/-- Changes that add no report, or that of the next partition. -/
theorem Ordered.changes {now : Time} {db db' : DB} (h : Ordered db j) (hcs : Changes now db cs db')
    (hown : ∀ o ∈ cs.flatMap Change.rows, ∀ p ∈ db'.partitionOf j o,
      o.partitionIndex = some 0 ∧ o.outputURI = outputObject j p)
    (hnext : (cs.flatMap Change.rows).filterMap (db'.partitionOf j) = [] ∨
      (cs.flatMap Change.rows).filterMap (db'.partitionOf j) = [(db.reduceReports j).length])
    (hdone : ∀ t row, db'.tasks.get? t = some row → row.jobID = j → row.taskType = .reduce →
      row.status = .completed →
        db.tasks.get? t = some row ∨ row.replicaIndex < (db'.reduceReports j).length) :
    Ordered db' j := by
  have hreports := reduceReports_changes (j := j) h.known hcs
  refine ⟨h.known.changes hcs, fun o ho p hp => ?_, ?_, fun t row ht hj hty hs => ?_⟩
  · rw [changes_outputs hcs] at ho
    rcases List.mem_append.mp ho with ho | ho
    · obtain ⟨row, hrow, hs⟩ := h.known o ho
      refine h.own o ho p ?_
      rwa [Option.mem_def, partitionOf_eq (completed_changes hcs hrow hs).1,
        ← partitionOf_eq hrow] at hp
    · exact hown o ho p hp
  · rcases hnext with hnext | hnext
    · rw [hreports, hnext, List.append_nil]
      exact h.order
    · rw [hreports, hnext, List.length_append, List.length_singleton, List.range_succ, ← h.order]
  · rcases hdone t row ht hj hty hs with hrow | hlt
    · refine Nat.lt_of_lt_of_le (h.done t row hrow hj hty hs) ?_
      rw [hreports, List.length_append]
      exact Nat.le_add_right ..
    · exact hlt

/-- A call that is no report adds no output row. -/
theorem rows_of_step {a : Label} (hm : ∀ c ∈ cs, Makes a c)
    (ha : ∀ s t x lease us cks now locked,
      a ≠ .call (.completeTask s t x lease us cks) now locked) :
    cs.flatMap Change.rows = [] := by
  refine List.flatMap_eq_nil_iff.mpr fun c hc => ?_
  cases c with
  | complete t x lease skew rows =>
    obtain ⟨s, us, cks, now, locked, rfl, _⟩ := hm _ hc
    exact absurd rfl (ha s t x lease us cks now locked)
  | _ => rfl

/-- An accepted report. -/
theorem ordered_report {t x lease : UUID} {us cks : List String} {now : Time}
    {locked : Resource → Bool} {db : DB} (h : Ordered db j)
    (ho : inPartitionOrder j db now locked (.completeTask s t x lease us cks)) :
    Ordered (perform (.completeTask s t x lease us cks) now locked db).2 j := by
  obtain ⟨hsame, _⟩ | ⟨hok, hlen, tail, hcs, htail⟩ :=
    completeTask_perform s t x lease us cks now locked db
  · rw [hsame]
    exact h
  generalize (perform (.completeTask s t x lease us cks) now locked db).2 = db' at hcs
  have hrows : (Change.complete t x lease s.leaseClockSkewSeconds (outputRows t us cks) ::
      tail).flatMap Change.rows = outputRows t us cks := by
    rw [List.flatMap_cons, List.flatMap_eq_nil_iff.mpr fun c hc => epilogue_rows (htail c hc),
      List.append_nil]
    rfl
  obtain ⟨row, att, hcur, hrow'⟩ : ∃ row att, Change.Current db t x row att ∧
      db'.tasks.get? t = some (row.set ⟨.completed, fun _ => none⟩) := by
    cases hcs with
    | cons hstep hrest =>
      obtain ⟨⟨_, row, att, hcur, _⟩, rfl⟩ := hstep
      exact ⟨row, att, hcur,
        (completed_changes hrest (complete_task hcur _ _ _ now) rfl).1⟩
  have hpart : ∀ o ∈ outputRows t us cks, db'.partitionOf j o =
      if row.jobID = j ∧ row.taskType = .reduce then some row.replicaIndex else none := by
    intro o ho
    rw [← outputRows_taskID ho] at hrow'
    rw [partitionOf_eq hrow']
    rfl
  -- no other task is completed
  have hother : ∀ t' row', db'.tasks.get? t' = some row' → row'.status = .completed →
      db.tasks.get? t' = some row' ∨ t' = t := by
    intro t' row' ht' hs'
    rcases completed_origin hcs ht' hs' with hrow | ⟨_, _, _, _, hc⟩ | hc
    · exact .inl hrow
    · rcases List.mem_cons.mp hc with hc | hc
      · cases hc
        exact .inr rfl
      · exact (htail _ hc).elim
    · rcases List.mem_cons.mp hc with hc | hc
      · cases hc
      · exact (htail _ hc).elim
  by_cases hred : row.jobID = j ∧ row.taskType = .reduce
  · simp only [if_pos hred] at hpart
    obtain ⟨rfl, hn⟩ := ho (by rw [hok]; rfl) row hcur.task hred.1 hred.2
    obtain ⟨ck, rfl⟩ := List.length_eq_one_iff.mp hlen.symm
    have hnew := hpart _ List.mem_cons_self
    have hreports : (outputRows t [outputObject j row.replicaIndex] [ck]).filterMap
        (db'.partitionOf j) = [(db.reduceReports j).length] := by
      rw [← hn]
      exact List.filterMap_cons_some hnew
    refine h.changes hcs ?_ (.inr (by rw [hrows]; exact hreports)) ?_
    · rw [hrows]
      intro o ho p hp
      cases List.mem_singleton.mp ho
      cases hnew.symm.trans hp
      exact ⟨rfl, rfl⟩
    · intro t' row' ht' _ _ hs'
      refine (hother t' row' ht' hs').imp_right ?_
      rintro rfl
      cases hrow'.symm.trans ht'
      rw [reduceReports_changes h.known hcs, hrows, hreports, List.length_append, ← hn]
      exact Nat.lt_succ_self _
  · simp only [if_neg hred] at hpart
    refine h.changes hcs ?_ (.inl ?_) ?_
    · rw [hrows]
      intro o ho p hp
      cases (hpart o ho).symm.trans hp
    · rw [hrows]
      exact List.filterMap_eq_nil_iff.mpr hpart
    · intro t' row' ht' hj hty hs'
      refine .inl ((hother t' row' ht' hs').resolve_right ?_)
      rintro rfl
      cases hrow'.symm.trans ht'
      exact hred ⟨hj, hty⟩

theorem ordered_step {a : Label} (h : Ordered w.db j) (hs : Step w a w')
    (ho : ∀ c now locked, a = .call c now locked → inPartitionOrder j w.db now locked c) :
    Ordered w'.db j := by
  obtain ⟨now, cs, _, hcs, hm⟩ := step_changes hs
  by_cases hrep : ∃ s t x lease us cks now locked,
      a = .call (.completeTask s t x lease us cks) now locked
  · obtain ⟨s, t, x, lease, us, cks, now, locked, rfl⟩ := hrep
    obtain ⟨_, _, hdb, _⟩ := step_call hs
    rw [hdb]
    exact ordered_report h (ho _ now locked rfl)
  · have hrows : cs.flatMap Change.rows = [] := rows_of_step hm
      fun s t x lease us cks now locked ha => hrep ⟨s, t, x, lease, us, cks, now, locked, ha⟩
    refine h.changes hcs ?_ (.inl (by rw [hrows]; rfl)) fun t row ht hj hty hdone => .inl ?_
    · rw [hrows]
      intro o ho
      cases ho
    · rcases completed_origin hcs ht hdone with hrow | ⟨x, lease, skew, rows, hc⟩ | hc
      · exact hrow
      · obtain ⟨s, us, cks, now', locked, ha, _⟩ := hm _ hc
        exact absurd ⟨s, t, x, lease, us, cks, now', locked, ha⟩ hrep
      · obtain ⟨s, worker, x, lease, now', locked, rfl⟩ := hm _ hc
        obtain ⟨_, _, hdb, _⟩ := step_call hs
        have hmem := ho _ now' locked rfl hj row (hdb ▸ Table.mem_of_get? ht) hj hty hdone
        rw [← Table.key_of_get? ht]
        exact Table.mem_rows_iff.mp hmem

end Order

/-! ## 4. Completed jobs -/

section Completed

variable {now : Time} {db db' : DB} {cs : List Change} {m m' : Cleaners} {j : UUID}

def reduceTasks (j : UUID) (rows : List TaskRow) : List TaskRow :=
  rows.filter fun t => decide (t.jobID = j) && decide (t.taskType = .reduce)

/-- The partitions of the Reduce tasks of the job. -/
def DB.partitions (db : DB) (j : UUID) : List Nat :=
  (reduceTasks j db.tasks.rows).map TaskRow.replicaIndex

theorem mem_partitions {p : Nat} : p ∈ db.partitions j ↔
    ∃ t row, db.tasks.get? t = some row ∧ row.jobID = j ∧ row.taskType = .reduce ∧
      row.replicaIndex = p := by
  simp only [DB.partitions, reduceTasks, List.mem_map, List.mem_filter, Bool.and_eq_true,
    decide_eq_true_eq]
  constructor
  · rintro ⟨row, ⟨hrow, hj, hty⟩, hp⟩
    exact ⟨row.taskID, row, Table.mem_rows_iff.mp hrow, hj, hty, hp⟩
  · rintro ⟨t, row, hrow, hj, hty, hp⟩
    exact ⟨row, ⟨Table.mem_of_get? hrow, hj, hty⟩, hp⟩

theorem length_partitions : (db.partitions j).length = db.taskCount j .reduce := by
  rw [DB.partitions, List.length_map, reduceTasks, ← List.countP_eq_length_filter, DB.taskCount]

theorem partitions_changes (hcs : Changes now db cs db') :
    db'.partitions j =
      db.partitions j ++ (reduceTasks j (addedTasks cs)).map TaskRow.replicaIndex := by
  have hident : ∀ rows : List TaskRow, (reduceTasks j rows).map TaskRow.replicaIndex =
      ((rows.map TaskRow.ident).filter fun i =>
        decide (i.2.1 = j) && decide (i.2.2.1 = .reduce)).map fun i => i.2.2.2 :=
    fun rows => by rw [List.filter_map, List.map_map]; rfl
  rw [DB.partitions, DB.partitions, hident, hident, hident, ident_changes hcs, List.filter_append,
    List.map_append]

theorem partitions_spares (hcs : Changes now db cs db') (hspare : ∀ c ∈ cs, c.Spares j) :
    db'.partitions j = db.partitions j := by
  rw [partitions_changes hcs, reduceTasks, List.filter_eq_nil_iff.mpr, List.map_nil,
    List.append_nil]
  intro row hrow hp
  exact addedTasks_spares hspare row hrow (of_decide_eq_true (Bool.and_eq_true_iff.mp hp).1)

/-- The partitions of the rows of a request. -/
theorem rows_partitions {replica : Nat} {rows : List TaskRow} {tasks : List ScheduleTask}
    (h : rows.map some = tasks.map (ScheduleTask.row s j replica)) :
    (reduceTasks j rows).map TaskRow.replicaIndex =
      ((tasks.filter fun task => decide (task.taskType = "Reduce")).map
        ScheduleTask.replicaIndex).map Int.toNat := by
  induction tasks generalizing rows with
  | nil => rw [List.map_eq_nil_iff.mp h]; rfl
  | cons task tasks ih =>
    obtain ⟨row, rows, rfl, hrow, hrest⟩ := List.map_eq_cons_iff.mp h
    unfold ScheduleTask.row at hrow
    split at hrow
    · next ty _ hty =>
      cases hrow
      rw [reduceTasks, List.filter_cons, List.filter_cons]
      cases ty with
      | map =>
        have hname : task.taskType ≠ "Reduce" := by
          rw [(parseTaskType_eq _ _).mp hty]
          decide
        simpa [hname, reduceTasks] using ih hrest
      | reduce =>
        have hname : task.taskType = "Reduce" := (parseTaskType_eq _ _).mp hty
        simpa [hname, reduceTasks] using ih hrest
    · cases hrow

/-- A job that is scheduled for the first time, with the partitions 0, 1, ... -/
theorem Submits.partitions {req : ScheduleJobRequest} (h : Submits s req j cs)
    (hcs : Changes now db cs db') (hnew : ¬ db.HasTask j)
    (hreq : (req.tasks.filter fun task => decide (task.taskType = "Reduce")).map
      ScheduleTask.replicaIndex = (List.range req.rTasks.toNat).map Int.ofNat) :
    db'.partitions j = List.range (db'.partitions j).length := by
  obtain ⟨replica, _, hrows⟩ := h.tasks
  have hnil : db.partitions j = [] := by
    refine List.eq_nil_iff_forall_not_mem.mpr fun p hp => ?_
    obtain ⟨t, row, hrow, hj, _⟩ := mem_partitions.mp hp
    exact hnew ⟨row, Table.mem_of_get? hrow, hj⟩
  have hall : db'.partitions j = List.range req.rTasks.toNat := by
    rw [partitions_changes hcs, hnil, rows_partitions hrows, hreq, List.map_map]
    exact List.map_id _
  rw [hall, List.length_range]

def reportsInOrder (j : UUID) (m : Cleaners) : CleanMove → Prop
  | .serve _ c now locked => inPartitionOrder j m.world.db now locked c
  | _ => True

/-- The Reduce tasks of a job that has tasks are those of the partitions 0, 1, ... -/
def Partitioned (m : Cleaners) (j : UUID) : Prop :=
  m.world.db.HasTask j → m.world.db.partitions j = List.range (m.world.db.partitions j).length

theorem partitioned_step (hm : Partitioned m j) (h : Cleans m a m') (ho : regular m a)
    (ho' : reportsInOrder j m a) : Partitioned m' j := by
  intro ht
  by_cases hsch : Schedules m j a
  · unfold Schedules at hsch
    split at hsch
    · next r s req now locked =>
      obtain ⟨hnew, _⟩ := ho hsch.1 j hsch.2
      obtain ⟨_, hs, _⟩ := cleans_serve h
      obtain ⟨cs, hcs, hsub⟩ := scheduled_changes hs hsch.1 hsch.2
      exact hsub.partitions hcs hnew (ho' hsch.1 hsch.2)
    · exact hsch.elim
  · obtain ⟨now, cs, hcs, hspare⟩ := cleans_spares h hsch
    rw [partitions_spares hcs hspare]
    exact hm ((hasTask_spares hcs hspare).mp ht)

theorem ordered_cleans (hm : Ordered m.world.db j) (h : Cleans m a m') (ho : reportsInOrder j m a) :
    Ordered m'.world.db j := by
  rcases cleans_world h with hw | ⟨r, c, now, locked, rfl, hs⟩ | ⟨l, hl, hs⟩
  · rw [hw]
    exact hm
  · refine ordered_step hm hs ?_
    rintro _ _ _ ⟨⟩
    exact ho
  · refine ordered_step hm hs ?_
    rintro c now locked rfl
    cases c <;> trivial

/-- Every partition of a job with all tasks Completed has reported. -/
theorem Ordered.complete (h : Ordered db j) (hall : db.AllDone j)
    (hparts : db.partitions j = List.range (db.partitions j).length) :
    db.reduceReports j = List.range (db.taskCount j .reduce) := by
  have hiff : ∀ p, p < (db.reduceReports j).length ↔ p < (db.partitions j).length := by
    intro p
    rw [← List.mem_range, ← h.order, ← List.mem_range, ← hparts, mem_partitions]
    constructor
    · intro hp
      obtain ⟨o, _, hp⟩ := List.mem_filterMap.mp hp
      obtain ⟨row, hrow⟩ := partitionOf_some hp
      exact ⟨_, row, hrow⟩
    · rintro ⟨t, row, hrow, hj, hty, rfl⟩
      rw [h.order, List.mem_range]
      exact h.done t row hrow hj hty (hall t row hrow hj)
  rw [h.order, ← length_partitions]
  congr 1
  have h₁ := hiff (db.reduceReports j).length
  have h₂ := hiff (db.partitions j).length
  omega

/-- The outputs of a Completed job are one URI for each Reduce task of JOB_CONFIGS, in the order
of the partitions. -/
theorem jobOutputs_by_partition {q : Option Nat} {b : Bool} {as : List CleanMove}
    {uuidParse : String → Option UUID} {jobID : String}
    (h : Run (Under Cleans fun m a => regular m a ∧ reportsInOrder j m a)
      (Cleaners.initial b q) as m)
    (hj : m.world.db.jobStatus j = some .completed) (hid : uuidParse jobID = some j) :
    ∃ cfg, m.world.db.jobConfigs.get? j = some cfg ∧
      m.world.db.taskCount j .reduce = cfg.rTasks ∧
      getJobOutputs uuidParse m.world.db jobID =
        some ((List.range cfg.rTasks).map (outputObject j)) := by
  obtain ⟨hm, hord, hpart⟩ := h.invariant
    (I := fun m => Finishing m j ∧ Ordered m.world.db j ∧ Partitioned m j)
    (fun _ _ _ ⟨hm, hord, hpart⟩ ⟨hs, ho, ho'⟩ =>
      ⟨finishing_step hm hs ho, ordered_cleans hord hs ho', partitioned_step hpart hs ho ho'⟩)
    ⟨finishing_initial b q j, ordered_initial q j, by rintro ⟨_, hrow, _⟩; cases hrow⟩
  obtain ⟨hall, htask⟩ := hm.completed hj
  obtain ⟨cfg, hcfg, _, hreduce⟩ := hm.whole htask
  refine ⟨cfg, hcfg, hreduce, ?_⟩
  rw [getJobOutputs, hid, Option.map_some, jobOutputURIs_eq hord.known hord.own,
    hord.complete hall (hpart htask), hreduce]

end Completed

instance (j : UUID) (db : DB) (now : Time) (locked : Resource → Bool) (c : Call) :
    Decidable (inPartitionOrder j db now locked c) := by
  induction c using Call.casesOn with
  | getNextTask =>
    dsimp only [inPartitionOrder]
    exact instDecidableForall
  | _ =>
    dsimp only [inPartitionOrder]
    infer_instance

instance (j : UUID) (m : Cleaners) (a : CleanMove) : Decidable (reportsInOrder j m a) := by
  induction a using CleanMove.casesOn <;> dsimp only [reportsInOrder] <;> infer_instance

/-- Two Reduce tasks of a job, with the partitions 0 and 1, are In-Progress. -/
def reducingMoves : List CleanMove :=
  startProcess 0 0 ++
    [callTo 0 (.scheduleJob soloReplica pairJob) 1,
      callTo 0 (.getNextTask soloReplica 1 "worker" 10 20) 2,
      callTo 0 (.completeTask soloReplica 2 10 20 ["shuffle://1/0", "shuffle://1/1"] ["a", "b"]) 3,
      callTo 0 (.getNextTask soloReplica 1 "worker" 11 21) 4,
      callTo 0 (.getNextTask soloReplica 1 "worker" 12 22) 5]

def firstReport (now : Time) : CleanMove :=
  callTo 0 (.completeTask soloReplica 3 11 21 [outputObject 1 0] ["c"]) now

def secondReport (now : Time) : CleanMove :=
  callTo 0 (.completeTask soloReplica 4 12 22 [outputObject 1 1] ["d"]) now

/-- After the report of the last attempt the job is Completed. -/
def completing (x : UUID) : List CleanMove :=
  [.post 9 (.deleteHeartbeat x) 8, .post 9 (.enqueueCleanup 1 .completed) 8, .tick 0 [1]] ++
    finalizing 0 9

theorem jobOutputs_by_partition_pair :
    ∃ m, Run (Under Cleans fun m a => regular m a ∧ reportsInOrder 1 m a)
        (Cleaners.initial true none)
        (reducingMoves ++ [firstReport 6, secondReport 7] ++ completing 12) m ∧
      m.world.db.jobStatus 1 = some .completed ∧
      ∃ cfg, m.world.db.jobConfigs.get? 1 = some cfg ∧
        m.world.db.taskCount 1 .reduce = cfg.rTasks ∧
        getJobOutputs soloReplica.uuidParse m.world.db "1" =
          some ((List.range cfg.rTasks).map (outputObject 1)) := by
  obtain ⟨m, hm, hst⟩ := (run_toUnder (by decide) :
    ∃ m, Run (Under Cleans fun m a => regular m a ∧ reportsInOrder 1 m a)
        (Cleaners.initial true none)
        (reducingMoves ++ [firstReport 6, secondReport 7] ++ completing 12) m ∧
      m.world.db.jobStatus 1 = some .completed)
  exact ⟨m, hm, hst, jobOutputs_by_partition hm hst (by decide)⟩

/-- The second partition reports first. -/
theorem outputs_swapped :
    ∃ m, Run Cleans (Cleaners.initial true none)
        (reducingMoves ++ [secondReport 6, firstReport 7] ++ completing 11) m ∧
      m.world.db.jobStatus 1 = some .completed ∧ m.world.db.taskCount 1 .reduce = 2 ∧
      getJobOutputs soloReplica.uuidParse m.world.db "1" =
        some [outputObject 1 1, outputObject 1 0] ∧
      outputObject 1 1 ≠ outputObject 1 0 :=
  run_to (by decide)

-- the Reduce task of this job is completed as empty, and has no URI
example : ∃ m, Run Cleans (Cleaners.initial true none) finishedMoves m ∧
    m.world.db.jobStatus 1 = some .completed ∧ m.world.db.taskCount 1 .reduce = 1 ∧
    getJobOutputs soloReplica.uuidParse m.world.db "1" = some [] :=
  run_to (by decide)

end KubeMapReduce
