import KubeMapReduce.Evidence
import KubeMapReduce.Lifecycle

/-!
# What a session has written

The uncommitted changes of a session are a function on the store. As far as the tasks, the
outputs and the status of one job are concerned, that function is a small piece of data
(`Deeds`): a SET clause for each task that the session has changed, the output rows it adds,
and the status it has written. `Deeds.Agree.next` follows it through a statement.
-/

namespace KubeMapReduce

open Tables Transactions LifecycleLemmas

/-! ## 1. SET clauses on a task row -/

/-- The row after the SET clauses of a session. -/
def TaskRow.after (row : TaskRow) : Option Query.TaskSet → TaskRow
  | none => row
  | some c => row.set c

@[simp] theorem TaskRow.after_taskID (row : TaskRow) (o : Option Query.TaskSet) :
    (row.after o).taskID = row.taskID := by
  cases o <;> rfl

@[simp] theorem TaskRow.after_jobID (row : TaskRow) (o : Option Query.TaskSet) :
    (row.after o).jobID = row.jobID := by
  cases o <;> rfl

@[simp] theorem TaskRow.after_taskType (row : TaskRow) (o : Option Query.TaskSet) :
    (row.after o).taskType = row.taskType := by
  cases o <;> rfl

@[simp] theorem TaskRow.after_replicaIndex (row : TaskRow) (o : Option Query.TaskSet) :
    (row.after o).replicaIndex = row.replicaIndex := by
  cases o <;> rfl

/-- One SET clause after another. -/
def Query.TaskSet.over (c : Query.TaskSet) : Option Query.TaskSet → Query.TaskSet
  | none => c
  | some b => ⟨c.status, c.currentAttemptID ∘ b.currentAttemptID⟩

@[simp] theorem Query.TaskSet.over_status (c : Query.TaskSet) (o : Option Query.TaskSet) :
    (c.over o).status = c.status := by
  cases o <;> rfl

theorem TaskRow.after_set (row : TaskRow) (o : Option Query.TaskSet) (c : Query.TaskSet) :
    (row.after o).set c = row.set (c.over o) := by
  cases o <;> rfl

/-! ## 2. Deeds -/

/-- The task rows, the output rows and the status of the job that a session has written. -/
structure Deeds where
  sets : UUID → Option Query.TaskSet
  outputs : List OutputRow
  status : Option JobStatus

namespace Deeds

/-- The session's changes are these. -/
structure Agree (w : Deeds) (j : UUID) (pending : DB → DB) : Prop where
  tasks : ∀ d x, (pending d).tasks.get? x = (d.tasks.get? x).map (TaskRow.after · (w.sets x))
  outputs : ∀ d, (pending d).outputs = d.outputs ++ w.outputs
  status : ∀ d, (pending d).jobStatus j = (d.jobStatus j).map w.status.getD

/-- A task of the job has been set to `st`. -/
def Sets (w : Deeds) (j : UUID) (db : DB) (st : TaskStatus) : Prop :=
  ∃ x c row, w.sets x = some c ∧ c.status = st ∧ db.tasks.get? x = some row ∧ row.jobID = j

end Deeds

/-- The tasks that the statement changes. -/
def hits (q : Query) (env : Env Resource) (view : DB) : List UUID :=
  (q.matchedTasks env.scan view).map TaskRow.taskID

theorem mem_hits {q : Query} {env : Env Resource} {view : DB} {x : UUID} :
    x ∈ hits q env view ↔ ∃ row, view.tasks.get? x = some row ∧ q.taskWhere view row = true ∧
      env.scan (.task x) = true := by
  constructor
  · intro h
    obtain ⟨row, hrow, rfl⟩ := List.mem_map.mp h
    exact ⟨row, QueryLemmas.mem_matchedTasks.mp hrow⟩
  · rintro ⟨row, hget, hw, hscan⟩
    obtain rfl := Table.key_of_get? hget
    exact List.mem_map_of_mem (QueryLemmas.mem_matchedTasks.mpr ⟨hget, hw, hscan⟩)

/-- The deeds after one more statement. -/
def Deeds.next (w : Deeds) (j : UUID) (q : Query) (env : Env Resource) (view : DB) : Deeds where
  sets x :=
    match q.taskSet with
    | some c => if x ∈ hits q env view then some (c.over (w.sets x)) else w.sets x
    | none => w.sets x
  outputs :=
    match q with
    | .insertOutputBulk rows => w.outputs ++ rows
    | _ => w.outputs
  status :=
    match q.jobSet with
    | some st => if j ∈ matchedIDs q env view then some st else w.status
    | none => w.status

/-! ## 3. One statement -/

section Effect

variable {q : Query} {env : Env Resource} {view d : DB} {j x : UUID} {m : Evidence} {w : Deeds}
  {pending : DB → DB}

theorem insert_tasks (hok : m.allows q) (now : Time) : (q.insert now d).tasks = d.tasks := by
  unfold Query.insert
  split <;> first | rfl | (split <;> rfl) | exact hok.elim

theorem insert_outputs (now : Time) : (q.insert now d).outputs =
    match q with
    | .insertOutputBulk rows => d.outputs ++ rows
    | _ => d.outputs := by
  cases q <;> first | rfl | (simp only [Query.insert]; split <;> rfl)

theorem allows_insertsJob (hok : m.allows q) : q.insertsJob = none := by
  cases q <;> first | rfl | exact hok.elim

/-- A statement adds its deeds. -/
theorem Deeds.Agree.next (h : w.Agree j pending) (hok : m.allows q) :
    (w.next j q env view).Agree j fun d => q.effect env view (pending d) where
  tasks d x := by
    unfold Query.effect Query.write Deeds.next
    rw [insert_tasks hok]
    cases hs : q.taskSet with
    | none => exact h.tasks d x
    | some c =>
      simp only [Table.get?_updateWhere, h.tasks, Option.map_map]
      cases hrow : d.tasks.get? x with
      | none => rfl
      | some row =>
        have hid : (row.after (w.sets x)).taskID = x := by
          have hkey : row.taskID = x := Table.key_of_get? hrow
          cases w.sets x <;> exact hkey
        simp only [Option.map_some, Function.comp_apply, hid, decide_eq_true_eq]
        show some (if x ∈ hits q env view then _ else _) = some (row.after (if _ then _ else _))
        split
        · exact congrArg some (row.after_set _ c)
        · rfl
  outputs d := by
    unfold Query.effect Query.write Deeds.next
    rw [insert_outputs]
    split
    · exact (congrArg (· ++ _) (h.outputs d)).trans (List.append_assoc _ _ _)
    · exact h.outputs d
  status d := by
    rw [effect_jobStatus, h.status]
    unfold Deeds.next Query.onStatus
    cases hst : d.jobStatus j with
    | none => simp [allows_insertsJob hok]
    | some st =>
      cases q.jobSet with
      | none => rfl
      | some st' =>
        simp only [Option.map_some]
        split <;> rfl

theorem Deeds.next_sets {c : Query.TaskSet} (hq : q.taskSet = some c) (x : UUID) :
    (w.next j q env view).sets x =
      if x ∈ hits q env view then some (c.over (w.sets x)) else w.sets x := by
  simp only [Deeds.next, hq]

theorem Deeds.next_cases (w : Deeds) (j : UUID) (env : Env Resource) (view : DB) (x : UUID) :
    (w.next j q env view).sets x = w.sets x ∨ ∃ c, q.taskSet = some c ∧ x ∈ hits q env view ∧
      (w.next j q env view).sets x = some (c.over (w.sets x)) := by
  cases hset : q.taskSet with
  | none => exact .inl (by simp only [Deeds.next, hset])
  | some c =>
    rw [Deeds.next_sets hset]
    by_cases hx : x ∈ hits q env view
    · exact .inr ⟨c, rfl, hx, if_pos hx⟩
    · exact .inl (if_neg hx)

end Effect

/-! ## 4. The store as the session sees it -/

section View

variable {j : UUID} {w : Deeds} {db : DB} {pending : DB → DB}

theorem Deeds.Agree.found (h : w.Agree j pending) {x : UUID} {row' : TaskRow}
    (hrow : (pending db).tasks.get? x = some row') :
    ∃ row, db.tasks.get? x = some row ∧ row' = row.after (w.sets x) := by
  rw [h.tasks] at hrow
  obtain ⟨row, hget, rfl⟩ := Option.map_eq_some_iff.mp hrow
  exact ⟨row, hget, rfl⟩

theorem Deeds.Agree.untouched (h : w.Agree j pending) {x : UUID}
    (hx : w.sets x = none) : (pending db).tasks.get? x = db.tasks.get? x := by
  rw [h.tasks, hx]
  exact Option.map_id' ..

theorem Deeds.Agree.jobOf (h : w.Agree j pending) (x : UUID) :
    (pending db).jobOf x = db.jobOf x := by
  unfold DB.jobOf
  rw [h.tasks, Option.map_map]
  congr 1
  funext row
  exact row.after_jobID _

theorem Deeds.Agree.allDone_iff (h : w.Agree j pending) :
    (pending db).AllDone j ↔ ∀ x row, db.tasks.get? x = some row → row.jobID = j →
      (row.after (w.sets x)).status = .completed := by
  constructor
  · intro hd x row hget hj
    refine hd x _ ?_ ((row.after_jobID _).trans hj)
    rw [h.tasks, hget]
    rfl
  · intro hd x row' hget hj
    obtain ⟨row, hrow, rfl⟩ := h.found hget
    exact hd x row hrow ((row.after_jobID _).symm.trans hj)

/-- A task that a session has set to another status is not Completed for it. -/
theorem Deeds.Agree.not_allDone (h : w.Agree j pending) {st : TaskStatus}
    (hw : w.Sets j db st) (hst : st ≠ .completed) : ¬ (pending db).AllDone j := by
  intro hd
  obtain ⟨x, c, row, hc, hcst, hget, hj⟩ := hw
  have hdone := h.allDone_iff.mp hd x row hget hj
  rw [hc] at hdone
  exact hst (hcst.symm.trans hdone)

/-- All tasks are Completed for a session that has completed none: they were before. -/
theorem Deeds.Agree.allDone_of (h : w.Agree j pending)
    (hw : ¬ w.Sets j db .completed) (hd : (pending db).AllDone j) : db.AllDone j := by
  intro x row hget hj
  have hdone := h.allDone_iff.mp hd x row hget hj
  cases hc : w.sets x with
  | none =>
    rw [hc] at hdone
    exact hdone
  | some c =>
    rw [hc] at hdone
    exact absurd ⟨x, c, row, hc, hdone, hget, hj⟩ hw

end View

end KubeMapReduce
