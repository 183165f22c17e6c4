import KubeMapReduce.Fencing

/-!
# The phase barrier

The Reduce tasks of a job start only when all its Map tasks are Completed. A job that is
scheduled once gets no further Map task, and a Completed task is final, so the inputs of
its Reduce tasks do not change any more.

* `barrier_apply`, `barrier_step`: the barrier, for one change and for one step.
* `mapsOver_run`: after the Map phase the inputs of the Reduce tasks are fixed.
* `phase_barrier`: the barrier, the inputs that GetNextTask hands out, and the Reduce
  tasks that are completed without running.
-/

namespace KubeMapReduce

open Tables Runs Transactions

variable {c : Change} {cs : List Change} {as : List Label} {s : Scheduler} {row' : TaskRow}
  {t : UUID} {w : World} {now : Time} {db : DB} {j : UUID}

/-! ## 1. Inputs of a partition -/

/-- The task is a Map task of the job. -/
def DB.isMapOf (db : DB) (job t : UUID) : Bool :=
  (db.tasks.get? t).any fun m => decide (m.jobID = job) && decide (m.taskType = .map)

/-- The output rows of the Map tasks of the job whose partition is NULL or `p`. -/
def DB.reduceInputs (db : DB) (job : UUID) (p : Nat) : List OutputRow :=
  db.outputs.filter fun o => db.isMapOf job o.taskID &&
    (decide (o.partitionIndex = none) || decide (o.partitionIndex = some p))

/-- Once the Map phase is over, the join on Completed Map tasks misses no row. -/
theorem mapOutputs_of_mapsDone (h : db.MapsDone j) (p : Nat) :
    db.mapOutputs j p = db.reduceInputs j p := by
  refine List.filter_congr fun o _ => ?_
  congr 1
  unfold DB.isMapOf
  cases hm : db.tasks.get? o.taskID with
  | none => rfl
  | some m =>
    by_cases hmap : m.jobID = j ∧ m.taskType = .map
    · simp [hmap.1, hmap.2, h o.taskID m hm hmap.1 hmap.2]
    · rw [Option.any_some]
      have hfalse : (decide (m.jobID = j) && decide (m.taskType = .map)) = false := by
        simpa using hmap
      dsimp only
      rw [hfalse]
      rfl

/-- A task keeps its job and its type. -/
theorem isMapOf_some (c : Change) {row : TaskRow} (h : db.tasks.get? t = some row) :
    (c.apply now db).isMapOf j t = db.isMapOf j t := by
  unfold DB.isMapOf
  by_cases ht : c.Touches db row
  · rw [Change.task_touched h ht, h]
    rfl
  · rw [Change.task_untouched h ht, h]

theorem isMapOf_apply (hc : c.Spares j) (t : UUID) :
    (c.apply now db).isMapOf j t = db.isMapOf j t := by
  cases hrow : db.tasks.get? t with
  | some row => exact isMapOf_some c hrow
  | none =>
    unfold DB.isMapOf
    cases hrow' : (c.apply now db).tasks.get? t with
    | none => rw [hrow]
    | some row' =>
      rcases Change.task_cases hrow' with ⟨rfl, _⟩ | ⟨row, h, _⟩
      · rw [Option.any_some, decide_eq_false hc, hrow]
        rfl
      · rw [hrow] at h
        cases h

theorem mapsDone_apply (hd : db.MapsDone j) (hg : c.Guard now db) (hc : c.Spares j) :
    (c.apply now db).MapsDone j := by
  intro t row' h hj hty
  rcases Change.task_cases h with ⟨rfl, _⟩ | ⟨row, hrow, ⟨ht, rfl⟩ | ⟨_, rfl⟩⟩
  · exact absurd hj hc
  · exact absurd (hd t row hrow hj hty) (Change.touched_status hg hrow ht)
  · exact hd t _ hrow hj hty

/-- After the Map phase no change touches the inputs of a partition: output rows are added
to In-Progress tasks only. -/
theorem reduceInputs_apply (hd : db.MapsDone j) (hg : c.Guard now db) (hc : c.Spares j) (p : Nat) :
    (c.apply now db).reduceInputs j p = db.reduceInputs j p := by
  have hnew : c.rows.filter (fun o => db.isMapOf j o.taskID &&
      (decide (o.partitionIndex = none) || decide (o.partitionIndex = some p))) = [] := by
    refine List.filter_eq_nil_iff.mpr fun o ho hp => ?_
    obtain ⟨row, hrow, hs⟩ := rows_inProgress hg ho
    have hmap := (Bool.and_eq_true_iff.mp hp).1
    rw [DB.isMapOf, hrow, Option.any_some, Bool.and_eq_true, decide_eq_true_eq,
      decide_eq_true_eq] at hmap
    rw [hd o.taskID row hrow hmap.1 hmap.2] at hs
    cases hs
  unfold DB.reduceInputs
  simp only [isMapOf_apply hc]
  rw [apply_outputs, List.filter_append, hnew, List.append_nil]

/-! ## 2. The barrier -/

/-- A Reduce task of the job has started only if all its Map tasks are Completed. -/
def Barrier (db : DB) (j : UUID) : Prop :=
  ∀ t row, db.tasks.get? t = some row → row.jobID = j → row.taskType = .reduce →
    row.status = .inProgress ∨ row.status = .completed → db.MapsDone j

theorem barrier_apply (hb : Barrier db j) (hg : c.Guard now db) (hc : c.Spares j) :
    Barrier (c.apply now db) j := by
  intro t row' h hj hty hs
  refine mapsDone_apply ?_ hg hc
  rcases Change.task_cases h with ⟨rfl, _⟩ | ⟨row, hrow, ⟨ht, rfl⟩ | ⟨_, rfl⟩⟩
  · rcases hs with hs | hs <;> rw [hg.2.1] at hs <;> cases hs
  · cases c with
    | assign t' a r =>
      obtain ⟨_, _, _, row', ht', _, _, hready⟩ := hg
      rw [Table.eq_of_get?_key hrow ht ht'] at hready
      exact hj ▸ (hready hty).1
    | complete t' a lease skew rows =>
      obtain ⟨_, row', _, hcur, _⟩ := hg
      have hs := hcur.status
      rw [Table.eq_of_get?_key hrow ht hcur.task] at hs
      exact hb t row hrow hj hty (.inl hs)
    | release t' a status =>
      obtain ⟨_, _, _, rfl⟩ := hg
      have hs : (if _ then TaskStatus.failed else .idle) = .inProgress ∨
        (if _ then TaskStatus.failed else .idle) = .completed := hs
      split at hs <;> rcases hs with hs | hs <;> cases hs
    | completeEmpty j' => exact hj.symm.trans ht.1 ▸ hg
    | cancel | resetReplica => rcases hs with hs | hs <;> cases hs
    | _ => exact ht.elim
  · exact hb t _ hrow hj hty hs

/-- A ScheduleJob call for the job that succeeds finds no task of the job: it is the only one. -/
def scheduledOnce (j : UUID) (w : World) : Label → Prop
  | .call (.scheduleJob s req) now locked => s.uuidParse req.jobID = some j →
      (perform (.scheduleJob s req) now locked w.db).1.result.isOk = true →
      ∀ row ∈ w.db.tasks.rows, row.jobID ≠ j
  | _ => True

instance (j : UUID) (w : World) (a : Label) : Decidable (scheduledOnce j w a) := by
  unfold scheduledOnce
  split <;> infer_instance

theorem barrier_step {w' : World} {a : Label} (hb : Barrier w.db j) (h : Step w a w')
    (ho : scheduledOnce j w a) : Barrier w'.db j := by
  rcases step_inserts h j with ⟨now, cs, hcs, _, hspare⟩ |
    ⟨s, req, now, locked, cs, rfl, hj, hok, hcs, hins⟩
  · refine hcs.keeps (I := fun d => Barrier d j) ?_ hb
    rintro d c hc hg hd
    exact barrier_apply hd hg (hspare c hc)
  · have hnone := ho hj hok
    intro t row ht hj _ hs
    rw [inserts_idle hcs hins (fun t row ht => hnone row (Table.mem_of_get? ht)) ht hj] at hs
    rcases hs with hs | hs <;> cases hs

theorem barrier_run {q : Option Nat}
    (h : Run (Under Step (scheduledOnce j)) (World.initial q) as w) :
    Barrier w.db j := by
  refine h.invariant (I := fun w : World => Barrier w.db j) ?_ ?_
  · rintro v a v' hv ⟨hs, ho⟩
    exact barrier_step hv hs ho
  · intro t row ht
    cases ht

/-- The job has tasks, and its Map tasks are Completed. -/
def MapsOver (db : DB) (j : UUID) : Prop :=
  db.MapsDone j ∧ ∃ row ∈ db.tasks.rows, row.jobID = j

/-- After the Map phase of a job that is scheduled once, no Map task of it is added or
undone and the inputs of its partitions do not change. -/
theorem mapsOver_run {w' : World} (h : Run (Under Step (scheduledOnce j)) w as w')
    (hw : MapsOver w.db j) :
    MapsOver w'.db j ∧ ∀ p, w'.db.reduceInputs j p = w.db.reduceInputs j p := by
  refine h.invariant (I := fun v : World =>
    MapsOver v.db j ∧ ∀ p, v.db.reduceInputs j p = w.db.reduceInputs j p) ?_ ⟨hw, fun _ => rfl⟩
  rintro v a v' ⟨⟨hd, row, hrow, hj⟩, hin⟩ ⟨hs, ho⟩
  rcases step_inserts hs j with ⟨now, cs, hcs, _, hspare⟩ |
    ⟨s, req, now, locked, cs, rfl, hp, hok, _⟩
  · refine hcs.keeps (I := fun d : DB =>
      MapsOver d j ∧ ∀ p, d.reduceInputs j p = w.db.reduceInputs j p) ?_ ⟨⟨hd, row, hrow, hj⟩, hin⟩
    rintro d c hc hg ⟨⟨hd, row, hrow, hj⟩, hin⟩
    have hjob : (c.apply now d).jobOf row.taskID = some j :=
      c.jobOf_apply (by rw [DB.jobOf, Table.mem_rows_iff.mp hrow, Option.map_some, hj])
    obtain ⟨row', hrow', hj'⟩ := Option.map_eq_some_iff.mp hjob
    exact ⟨⟨mapsDone_apply hd hg (hspare c hc), row', Table.mem_of_get? hrow', hj'⟩,
      fun p => (reduceInputs_apply hd hg (hspare c hc) p).trans (hin p)⟩
  · exact absurd hj (ho hp hok row hrow)

/-! ## 3. GetNextTask -/

/-- The change can complete tasks. -/
def Change.Completes : Change → Prop
  | .complete _ _ _ _ _ => True
  | .completeEmpty _ => True
  | _ => False

/-- A task that is Completed after the changes was so before, or is reported or completed as an
empty reduce by one of them. -/
theorem completed_origin {db' : DB} (h : Changes now db cs db') (ht : db'.tasks.get? t = some row')
    (hs : row'.status = .completed) :
    db.tasks.get? t = some row' ∨ (∃ x lease skew rows, .complete t x lease skew rows ∈ cs) ∨
      .completeEmpty row'.jobID ∈ cs := by
  by_cases hdone : ∃ row, db.tasks.get? t = some row ∧ row.status = .completed
  · obtain ⟨row, hrow, hdone⟩ := hdone
    cases ht.symm.trans (completed_changes h hrow hdone).1
    exact .inl hrow
  obtain ⟨bs, c, cs, d, _, rfl, _, ⟨hg, rfl⟩, hrest, hd, row₁, hrow₁, hs₁⟩ := h.exists_switch
    (P := fun d => ∃ row, d.tasks.get? t = some row ∧ row.status = .completed) hdone ⟨row', ht, hs⟩
  have hc : c ∈ bs ++ c :: cs := List.mem_append_right _ List.mem_cons_self
  cases ht.symm.trans (completed_changes hrest hrow₁ hs₁).1
  rcases Change.task_cases hrow₁ with ⟨rfl, _⟩ | ⟨row, hrow, ⟨htouch, rfl⟩ | ⟨_, rfl⟩⟩
  · cases hg.2.1.symm.trans hs₁
  · rcases Change.touched_cases hg hrow htouch with
      ⟨_, _, rfl⟩ | ⟨x, lease, skew, rows, rfl⟩ | ⟨j', rfl, _⟩ | ⟨_, hne⟩
    · cases hs₁
    · exact .inr (.inl ⟨x, lease, skew, rows, hc⟩)
    · obtain ⟨rfl, _⟩ := htouch
      exact .inr (.inr hc)
    · exact absurd hs₁ hne
  · exact absurd ⟨_, hrow, hs₁⟩ hd

/-- Other changes complete no task. -/
theorem completed_before {db' : DB} (h : Changes now db cs db') (hcs : ∀ c ∈ cs, ¬ c.Completes)
    (ht : db'.tasks.get? t = some row') (hs : row'.status = .completed) :
    ∃ row, db.tasks.get? t = some row ∧ row.status = .completed := by
  rcases completed_origin h ht hs with hrow | ⟨_, _, _, _, hc⟩ | hc
  · exact ⟨row', hrow, hs⟩
  · exact absurd trivial (hcs _ hc)
  · exact absurd trivial (hcs _ hc)

theorem logs_completes {es : List Event} (h : c ∈ logs s es) : ¬ c.Completes := by
  obtain ⟨e, rfl⟩ := mem_logs h
  exact id

/-- A task that a GetNextTask call completes is an Idle Reduce task without inputs. -/
theorem getNextTask_completes {worker : String} {a lease : UUID} {locked : Resource → Bool}
    {row : TaskRow} (ht : db.tasks.get? t = some row)
    (ht' : (perform (.getNextTask s j worker a lease) now locked db).2.tasks.get? t = some row')
    (hs : row.status ≠ .completed) (hs' : row'.status = .completed) :
    db.MapsDone j ∧ row.jobID = j ∧ row.taskType = .reduce ∧ row.status = .idle ∧
      db.reduceInputs j row.replicaIndex = [] := by
  have hnot : ∀ {row₀ : TaskRow}, db.tasks.get? t = some row₀ → row₀.status ≠ .completed := by
    intro row₀ h
    rw [ht] at h
    cases h
    exact hs
  -- what is completed is completed by the first change
  have hfirst : ∀ {tail : List Change}, db.MapsDone j → (∀ c ∈ tail, ¬ c.Completes) →
      Changes now db (.completeEmpty j :: tail)
        (perform (.getNextTask s j worker a lease) now locked db).2 →
      db.MapsDone j ∧ row.jobID = j ∧ row.taskType = .reduce ∧ row.status = .idle ∧
        db.reduceInputs j row.replicaIndex = [] := by
    intro tail hd htail hcs
    cases hcs with
    | cons hstep hrest =>
      obtain ⟨_, rfl⟩ := hstep
      obtain ⟨row₁, hrow₁, hs₁⟩ := completed_before hrest htail ht' hs'
      rcases Change.task_cases hrow₁ with ⟨hc, _⟩ | ⟨row₀, hrow₀, ⟨htouch, _⟩ | ⟨_, rfl⟩⟩
      · cases hc
      · cases ht.symm.trans hrow₀
        obtain ⟨hj, hty, hidle, hin⟩ := htouch
        rw [hj, mapOutputs_of_mapsDone hd] at hin
        exact ⟨hd, hj, hty, hidle, hin⟩
      · exact absurd hs₁ (hnot hrow₀)
  obtain ⟨_, _, h | h | ⟨ty, row₁, h⟩⟩ :=
    performed (c := .getNextTask s j worker a lease) rfl getNextTask_changes
  · rw [h.refused.1] at ht'
    exact absurd hs' (hnot ht')
  · obtain ⟨tail, hcs, htail⟩ := h.changes
    refine hfirst h.maps ?_ hcs
    rcases htail with ⟨rfl, _⟩ | ⟨_, _, rfl, _⟩
    · nofun
    · exact List.forall_mem_singleton.mpr id
  · have hrest : ∀ c ∈ Change.assign row₁.taskID (s.attemptRow now row₁.taskID a worker lease)
        s.replicaIndex :: .setJob j .running :: logs s
          (if ty = .map then [.taskAssigned row₁.taskID j .map worker s.leaseTTL] else []),
        ¬ c.Completes :=
      List.forall_mem_cons.mpr ⟨id, List.forall_mem_cons.mpr ⟨id, fun c => logs_completes⟩⟩
    cases ty with
    | map =>
      obtain ⟨row₀, hrow₀, hs₀⟩ := completed_before h.changes hrest ht' hs'
      exact absurd hs₀ (hnot hrow₀)
    | reduce => exact hfirst (h.maps rfl) hrest h.changes

/-- What autoCompleteEmptyReducesTx does to a task. -/
theorem autoCompleteEmptyReducesTx_task (locked : Resource → Bool) {row : TaskRow}
    (ht : db.tasks.get? t = some row) :
    ∃ row', (transact sem now locked (autoCompleteEmptyReducesTx j fun _ => commit () [])
        db).2.tasks.get? t = some row' ∧
      (row.status ≠ .completed ∧ row'.status = .completed ↔
        Change.Touches db row (.completeEmpty j)) := by
  have hrow : ∃ row', ((Change.completeEmpty j).apply now db).tasks.get? t = some row' ∧
      (row.status ≠ .completed ∧ row'.status = .completed ↔
        Change.Touches db row (.completeEmpty j)) := by
    by_cases hc : Change.Touches db row (.completeEmpty j)
    · refine ⟨_, Change.task_touched ht hc, fun _ => hc, fun _ => ⟨?_, rfl⟩⟩
      rw [hc.2.2.1]
      nofun
    · exact ⟨row, Change.task_untouched ht hc, fun h => absurd h.2 h.1, fun h => absurd h hc⟩
  have hlead : Leads now locked db (autoCompleteEmptyReducesTx j fun _ => commit () []) db
      fun _ db' => ∃ row', db'.tasks.get? t = some row' ∧
        (row.status ≠ .completed ∧ row'.status = .completed ↔
          Change.Touches db row (.completeEmpty j)) :=
    leads_autoCompleteEmptyReducesTx (leads_commit hrow) fun _ _ => leads_commit hrow
  exact hlead

/-! ## 4. The result -/

/-- In every state that a run reaches in which the job `j` is scheduled once:
a Reduce task of `j` is In-Progress or Completed only if all its Map tasks are Completed,
and they stay so; a Reduce task that GetNextTask hands out carries all output rows of the
Map tasks for its partition, at least one; the tasks that autoCompleteEmptyReducesTx
completes are the Idle Reduce tasks with no such row now or later, and GetNextTask
completes no other task. -/
theorem phase_barrier {q : Option Nat} {as : List Label} {w : World} (j : UUID)
    (h : Run (Under Step (scheduledOnce j)) (World.initial q) as w) :
    (∀ t row, w.db.tasks.get? t = some row → row.jobID = j → row.taskType = .reduce →
      row.status = .inProgress ∨ row.status = .completed →
      ∀ as' w', Run (Under Step (scheduledOnce j)) w as' w' → w'.db.MapsDone j) ∧
    (∀ s worker a lease now locked task,
      (perform (.getNextTask s j worker a lease) now locked w.db).1.result = .ok (.task task) →
      task.type = .reduce →
      ∃ row, w.db.tasks.get? task.id = some row ∧ row.jobID = j ∧ row.taskType = .reduce ∧
        task.shuffleInputs = (w.db.reduceInputs j row.replicaIndex).map OutputRow.ref ∧
        task.shuffleInputs ≠ []) ∧
    (∀ now locked, w.db.MapsDone j → ∀ t row, w.db.tasks.get? t = some row →
      ∃ row', (transact sem now locked (autoCompleteEmptyReducesTx j fun _ => commit () [])
          w.db).2.tasks.get? t = some row' ∧
        (row.status ≠ .completed ∧ row'.status = .completed ↔
          row.jobID = j ∧ row.taskType = .reduce ∧ row.status = .idle ∧
            ∀ as' w', Run (Under Step (scheduledOnce j)) w as' w' →
              w'.db.reduceInputs j row.replicaIndex = [])) ∧
    ∀ s worker a lease now locked t row row', w.db.tasks.get? t = some row →
      (perform (.getNextTask s j worker a lease) now locked w.db).2.tasks.get? t = some row' →
      row.status ≠ .completed → row'.status = .completed →
      row.jobID = j ∧ row.taskType = .reduce ∧ row.status = .idle ∧
        ∀ as' w', Run (Under Step (scheduledOnce j)) w as' w' →
          w'.db.reduceInputs j row.replicaIndex = [] := by
  have hafter : ∀ {t row}, w.db.MapsDone j → w.db.tasks.get? t = some row → row.jobID = j →
      ∀ as' w', Run (Under Step (scheduledOnce j)) w as' w' →
        MapsOver w'.db j ∧ ∀ p, w'.db.reduceInputs j p = w.db.reduceInputs j p :=
    fun hd ht hj as' w' hr => mapsOver_run hr ⟨hd, _, Table.mem_of_get? ht, hj⟩
  refine ⟨?_, ?_, ?_, ?_⟩
  · intro t row ht hj hty hs as' w' hr
    exact (hafter (barrier_run h t row ht hj hty hs) ht hj as' w' hr).1.1
  · intro s worker a lease now locked task hok hty
    obtain ⟨row, hrow, hj, _, _, htype, hreduce⟩ := getNextTask_ok hok
    have hty : row.taskType = .reduce := htype.symm.trans hty
    obtain ⟨hd, hne, _, hin⟩ := hreduce hty
    rw [mapOutputs_of_mapsDone hd] at hne hin
    refine ⟨row, hrow, hj, hty, hin, ?_⟩
    rw [hin]
    exact fun hnil => hne (List.map_eq_nil_iff.mp hnil)
  · intro now locked hd t row ht
    obtain ⟨row', hrow', hiff⟩ := autoCompleteEmptyReducesTx_task locked ht
    refine ⟨row', hrow', hiff.trans ⟨?_, ?_⟩⟩
    · rintro ⟨hj, hty, hidle, hin⟩
      refine ⟨hj, hty, hidle, fun as' w' hr => ?_⟩
      rw [(hafter hd ht hj as' w' hr).2, ← mapOutputs_of_mapsDone hd, ← hj]
      exact hin
    · rintro ⟨hj, hty, hidle, hin⟩
      refine ⟨hj, hty, hidle, ?_⟩
      rw [hj, mapOutputs_of_mapsDone hd]
      exact hin [] w (.nil w)
  · intro s worker a lease now locked t row row' ht ht' hs hs'
    obtain ⟨hd, hj, hty, hidle, hin⟩ := getNextTask_completes ht ht' hs hs'
    refine ⟨hj, hty, hidle, fun as' w' hr => ?_⟩
    rw [(hafter hd ht hj as' w' hr).2, hin]

/-- Both Map tasks are completed and the Reduce task is handed out. -/
def reduceRun : List Label :=
  smallStart ++
    [calling (.getNextTask soloReplica 1 "a" 10 20) 2,
      calling (.completeTask soloReplica 2 10 20 ["uri"] ["sum"]) 3,
      calling (.getNextTask soloReplica 1 "a" 11 21) 4,
      calling (.completeTask soloReplica 3 11 21 ["uri"] ["sum"]) 5,
      calling (.getNextTask soloReplica 1 "a" 12 22) 6]

theorem phase_barrier_reduceRun :
    ∃ w, Run (Under Step (scheduledOnce 1)) (World.initial none) reduceRun w ∧
      ((w.db.tasks.get? 4).map fun row => (row.jobID, row.taskType, row.status)) =
        some (1, .reduce, .inProgress) ∧
      ∀ as' w', Run (Under Step (scheduledOnce 1)) w as' w' → w'.db.MapsDone 1 := by
  obtain ⟨w, hw, htask⟩ := (run_afterUnder (by decide) :
    ∃ w, Run (Under Step (scheduledOnce 1)) _ reduceRun w ∧
      ((w.db.tasks.get? 4).map fun row => (row.jobID, row.taskType, row.status)) =
        some (1, .reduce, .inProgress))
  obtain ⟨row, hrow, heq⟩ := Option.map_eq_some_iff.mp htask
  obtain ⟨hj, heq⟩ := Prod.mk.inj heq
  obtain ⟨hty, hs⟩ := Prod.mk.inj heq
  exact ⟨w, hw, htask, (phase_barrier 1 hw).1 4 row hrow hj hty (.inl hs)⟩

end KubeMapReduce
