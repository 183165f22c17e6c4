import KubeMapReduce.Cluster

/-!
# Attempts and the tasks they run for

* `Linked`: every Running attempt is the current attempt of an In-Progress task. It is
  kept by every change, except a reset of tasks whose attempts still run; Recover
  fails the attempts of its replica first and the replica assigns nothing until it has
  reset its tasks (`Coherent`).
* `running_attempts_current`: so it holds in every reachable state.
* `Tracked`: the converse, that an In-Progress task has a Running attempt. The reaper
  breaks it: after its commit it fails all Running attempts of a job, also those of
  healthy tasks (`tracked_lost`). It holds exactly in the runs in which no attempt is
  left for this statement to fail (`tracked_iff`).
-/

namespace KubeMapReduce

open Tables Runs

variable {row : TaskRow} {c : Change} {a : Label} {r : Nat} {skip : Nat → Prop} {t : UUID}
  {w w' : World} {now : Time} {db : DB}

/-! ## 1. References between the rows -/

structure Linked (db : DB) : Prop where
  job : ∀ t row, db.tasks.get? t = some row → (db.jobs.get? row.jobID).isSome = true
  owner : ∀ t row x, db.tasks.get? t = some row → row.currentAttemptID = some x →
    ∃ a, db.attempts.get? x = some a ∧ a.taskID = t
  busy : ∀ t row, db.tasks.get? t = some row → row.status = .inProgress →
    ∃ x, row.currentAttemptID = some x
  current : ∀ x a, db.attempts.get? x = some a → a.status = .running →
    ∃ row, Change.Current db a.taskID x row a

theorem linked_initial (q : Option Nat) : Linked (DB.initial q) := by
  constructor <;> nofun

/-- No attempt of a task of this replica is Running. -/
def Calm (db : DB) (r : Nat) : Prop :=
  ∀ x a, db.attempts.get? x = some a → a.status = .running → db.replicaOf a.taskID ≠ some r

theorem replicaOf_of_task (h : db.tasks.get? t = some row) :
    db.replicaOf t = (db.jobs.get? row.jobID).map JobRow.replicaIndex := by
  rw [DB.replicaOf, DB.jobOf, h]
  rfl

/-- A task keeps its replica. -/
theorem replicaOf_apply (c : Change) (h : db.replicaOf t = some r) :
    (c.apply now db).replicaOf t = some r := by
  obtain ⟨row, hrow, hr⟩ := Option.map_eq_some_iff.mp h
  obtain ⟨j, hj, hrow⟩ := Option.bind_eq_some_iff.mp hrow
  obtain ⟨row', hrow', hr', _⟩ := c.job_apply now hrow
  rw [DB.replicaOf, c.jobOf_apply hj, Option.bind_some, hrow', Option.map_some, hr', hr]

/-- The row of a Running attempt's task is not touched by a change that does not end
the attempt. -/
theorem running_untouched (hg : c.Guard now db) (hreset : ∀ r, c = .resetReplica r → Calm db r)
    {x : UUID} {a : AttemptRow} (hc : Change.Current db a.taskID x row a)
    (hrun : a.status = .running) (hstop : ¬ c.Stops db a) : ¬ c.Touches db row := by
  have hx := Table.key_of_get? hc.attempt
  intro htouch
  cases c with
  | assign t a' r =>
    obtain ⟨_, _, _, row', ht, hidle, _⟩ := hg
    rw [Table.eq_of_get?_key hc.task htouch ht, hc.status] at hidle
    cases hidle
  | complete t x' lease skew rows =>
    obtain ⟨_, row', _, hc', _⟩ := hg
    have hcur := hc'.current
    rw [Table.eq_of_get?_key hc.task htouch hc'.task, hc.current] at hcur
    exact hstop (hx.trans (Option.some.inj hcur))
  | release t x' status =>
    obtain ⟨row', _, hc', _⟩ := hg
    have hcur := hc'.current
    rw [Table.eq_of_get?_key hc.task htouch hc'.task, hc.current] at hcur
    exact hstop (hx.trans (Option.some.inj hcur))
  | completeEmpty j =>
    have hidle := htouch.2.2.1
    rw [hc.status] at hidle
    cases hidle
  | cancel j =>
    refine hstop ?_
    show db.jobOf a.taskID = some j
    rw [DB.jobOf, hc.task, Option.map_some, htouch.1]
  | resetReplica r =>
    refine hreset r rfl x a hc.attempt hrun ?_
    rw [replicaOf_of_task hc.task]
    exact htouch.2
  | _ => exact htouch.elim

namespace Linked

theorem replica (hl : Linked db) (h : db.tasks.get? t = some row) :
    ∃ r, db.replicaOf t = some r := by
  obtain ⟨jrow, hj⟩ := Option.isSome_iff_exists.mp (hl.job t row h)
  exact ⟨jrow.replicaIndex, by rw [replicaOf_of_task h, hj]; rfl⟩

theorem apply (hl : Linked db) (hg : c.Guard now db)
    (hreset : ∀ r, c = .resetReplica r → Calm db r) :
    Linked (c.apply now db) where
  job := by
    intro t row' h
    have hold : ∀ row : TaskRow, (db.jobs.get? row.jobID).isSome = true →
        ((c.apply now db).jobs.get? row.jobID).isSome = true := by
      intro row hj
      obtain ⟨jrow, hj⟩ := Option.isSome_iff_exists.mp hj
      obtain ⟨_, hj', _⟩ := c.job_apply now hj
      rw [hj']
      rfl
    rcases Change.task_cases h with ⟨rfl, _⟩ | ⟨row, hrow, ⟨_, rfl⟩ | ⟨_, rfl⟩⟩
    · exact hold row' hg.2.2.2
    · exact hold row (hl.job t row hrow)
    · exact hold _ (hl.job t _ hrow)
  owner := by
    intro t row' x h hx
    have hold : ∀ {row : TaskRow}, db.tasks.get? t = some row → row.currentAttemptID = some x →
        ∃ a, (c.apply now db).attempts.get? x = some a ∧ a.taskID = t := by
      intro row hrow hcur
      obtain ⟨a, ha, rfl⟩ := hl.owner t row x hrow hcur
      obtain ⟨a', ha', ht, _⟩ := c.attempt_apply now ha
      exact ⟨a', ha', ht⟩
    rcases Change.task_cases h with ⟨rfl, _⟩ | ⟨row, hrow, ⟨htouch, rfl⟩ | ⟨_, rfl⟩⟩
    · rw [hg.2.2.1] at hx
      cases hx
    · cases c with
      | assign t' a r =>
        obtain ⟨rfl, _, hnew, _⟩ := hg
        cases hx
        exact ⟨a, Table.get?_insert_self hnew, htouch.symm.trans (Table.key_of_get? hrow)⟩
      | cancel j => exact hold hrow hx
      | _ => cases hx
    · exact hold hrow hx
  busy := by
    intro t row' h hs
    rcases Change.inProgress_cases hg h hs with ⟨hrow, _⟩ | ⟨a, _, _, ha⟩
    · exact hl.busy t row' hrow hs
    · exact ⟨a.attemptID, ha⟩
  current := by
    intro x a' h hrun
    cases hx : db.attempts.get? x with
    | none =>
      obtain ⟨t, r, rfl⟩ := Change.attempt_cases h hx
      obtain ⟨rfl, _, _, row, ht, _⟩ := hg
      have hx' := Table.key_of_get? h
      refine ⟨_, Change.task_touched ht (Table.key_of_get? ht), rfl, ?_, h⟩
      exact congrArg some hx'
    | some a =>
      obtain ⟨a'', ha'', ht, hiff, _⟩ := c.attempt_apply now hx
      obtain rfl : a'' = a' := Option.some.inj (ha''.symm.trans h)
      obtain ⟨hrun, hstop⟩ := hiff.mp hrun
      obtain ⟨row, hc⟩ := hl.current x a hx hrun
      have hu := running_untouched hg hreset hc hrun hstop
      exact ⟨row, by rw [ht]; exact Change.task_untouched hc.task hu, hc.status, hc.current, h⟩

end Linked

/-! ## 2. Runs -/

/-- A change keeps a replica calm unless it assigns one of its tasks. -/
theorem Calm.apply (hc : Calm db r) (hl : Linked db) (hg : c.Guard now db)
    (hassign : ∀ t a, c ≠ .assign t a r) : Calm (c.apply now db) r := by
  intro x a' h hrun hr
  cases hx : db.attempts.get? x with
  | none =>
    obtain ⟨t, r', rfl⟩ := Change.attempt_cases h hx
    obtain ⟨rfl, _, _, row, ht, _, hr', _⟩ := hg
    rw [← replicaOf_of_task ht] at hr'
    rw [replicaOf_apply _ hr'] at hr
    cases hr
    exact hassign _ _ rfl
  | some a =>
    obtain ⟨a'', ha'', ht, hiff, _⟩ := c.attempt_apply now hx
    obtain rfl : a'' = a' := Option.some.inj (ha''.symm.trans h)
    obtain ⟨row, hcur⟩ := hl.current x a hx (hiff.mp hrun).1
    obtain ⟨r', hr'⟩ := hl.replica hcur.task
    rw [ht, replicaOf_apply c hr'] at hr
    exact hc x a hx (hiff.mp hrun).1 (hr'.trans hr)

/-- The first statement of Recover leaves no attempt of its replica Running. -/
theorem calm_failReplica (r : Nat) :
    Calm ((Change.failReplica r).apply now db) r := by
  intro x a' h hrun hr
  cases hx : db.attempts.get? x with
  | none =>
    obtain ⟨_, _, hc⟩ := Change.attempt_cases h hx
    cases hc
  | some a =>
    obtain ⟨a'', ha'', ht, hiff, _⟩ := (Change.failReplica r).attempt_apply now hx
    obtain rfl : a'' = a' := Option.some.inj (ha''.symm.trans h)
    refine (hiff.mp hrun).2 ?_
    rw [ht] at hr
    exact hr

/-- The references hold, and a replica in the middle of Recover is calm. -/
structure Coherent (phase : Nat → Phase) (db : DB) : Prop where
  linked : Linked db
  calm : ∀ r, (phase r).midRecover → Calm db r

theorem coherent_initial (q : Option Nat) :
    Coherent (World.initial q).phase (World.initial q).db :=
  ⟨linked_initial q, fun _ _ => nofun⟩

/-- Every change of a step keeps this, under the phases before the step. -/
theorem Coherent.apply (h : Step w a w') (hd : Coherent w.phase db) (hg : c.Guard now db)
    (hm : Makes a c) : Coherent w.phase (c.apply now db) := by
  refine ⟨hd.linked.apply hg ?_, fun r hr => (hd.calm r hr).apply hd.linked hg ?_⟩
  · rintro r rfl
    exact hd.calm r (reset_midRecover h hm)
  · rintro t att rfl
    rw [assign_serving h hm] at hr
    rcases hr with hr | hr <;> cases hr

theorem coherent_step (hw : Coherent w.phase w.db) (h : Step w a w') : Coherent w'.phase w'.db := by
  obtain ⟨hl, hcalm⟩ : Coherent w.phase w'.db := by
    obtain ⟨now, cs, _, hcs, hm⟩ := step_changes h
    refine hcs.keeps ?_ hw
    rintro d c hc hg hd
    exact hd.apply h hg (hm c hc)
  refine ⟨hl, fun r hr => ?_⟩
  have hkeep : w'.phase r = w.phase r → Calm w'.db r := fun he => hcalm r (he ▸ hr)
  cases a with
  | call c now locked =>
    obtain ⟨_, _, _, _, hphase, _⟩ := step_call h
    rw [hphase] at hr hkeep
    cases c with
    | recoverFailAttempts s =>
      by_cases he : r = s.replicaIndex
      · rw [step_failReplica h, he]
        exact calm_failReplica _
      · exact hkeep (Function.update_of_ne he _ _)
    | recoverResetTasks s | recoverWorkerPools s =>
      by_cases he : r = s.replicaIndex
      · rw [advance, he, Function.update_self] at hr
        rcases hr with hr | hr <;> cases hr
      · exact hkeep (Function.update_of_ne he _ _)
    | _ => exact hkeep rfl
  | post i action now =>
    obtain ⟨_, _, _, _, _, hphase, _⟩ := step_post h
    exact hkeep (congrFun hphase r)
  | restart r' => exact hcalm r ((midRecover_restart h r).mp hr)

theorem coherent_run {q : Option Nat} {as : List Label} (h : Run Step (World.initial q) as w) :
    Coherent w.phase w.db :=
  h.invariant (I := fun w => Coherent w.phase w.db) (fun _ _ _ hw hs => coherent_step hw hs)
    (coherent_initial q)

/-! ## 3. Running attempts -/

/-- The task is In-Progress and its current attempt is its own and Running. -/
def DB.live (db : DB) (row : TaskRow) : Bool :=
  decide (row.status = .inProgress) && (row.currentAttemptID.bind db.attempts.get?).any fun a =>
    decide (a.taskID = row.taskID) && decide (a.status = .running)

theorem Linked.live_iff (hl : Linked db) (h : row ∈ db.tasks.rows) :
    db.live row = true ↔ ∃ a ∈ db.attempts.rows, a.status = .running ∧ a.taskID = row.taskID := by
  have hrow := Table.mem_rows_iff.mp h
  constructor
  · intro hlive
    obtain ⟨_, hany⟩ := Bool.and_eq_true_iff.mp hlive
    obtain ⟨a, ha, hp⟩ := (Option.any_eq_true ..).mp hany
    obtain ⟨x, _, hx⟩ := Option.bind_eq_some_iff.mp ha
    obtain ⟨ht, hs⟩ := Bool.and_eq_true_iff.mp hp
    exact ⟨a, Table.mem_of_get? hx, of_decide_eq_true hs, of_decide_eq_true ht⟩
  · rintro ⟨a, ha, hs, ht⟩
    obtain ⟨row', hc⟩ := hl.current _ a (Table.mem_rows_iff.mp ha) hs
    obtain rfl : row' = row := by
      have hrow' := hc.task
      rw [ht, hrow] at hrow'
      exact (Option.some.inj hrow').symm
    unfold DB.live
    rw [hc.current, Option.bind_some, hc.attempt]
    simp [hc.status, ht, hs]

theorem Linked.running_unique (hl : Linked db) {x y : UUID} {a b : AttemptRow}
    (hx : db.attempts.get? x = some a) (hy : db.attempts.get? y = some b)
    (ha : a.status = .running) (hb : b.status = .running) (ht : a.taskID = b.taskID) : x = y := by
  obtain ⟨row, hc⟩ := hl.current x a hx ha
  obtain ⟨row', hc'⟩ := hl.current y b hy hb
  have hrow := hc.task
  rw [ht, hc'.task] at hrow
  cases hrow
  exact Option.some.inj (hc.current.symm.trans hc'.current)

/-- The tasks of the Running attempts are the live tasks, each one once. -/
theorem Linked.running_count (hl : Linked db) :
    db.runningAttempts = (db.tasks.rows.filter db.live).length := by
  have hperm : ((db.attempts.rows.filter fun a => decide (a.status = .running)).map
      AttemptRow.taskID).Perm ((db.tasks.rows.filter db.live).map TaskRow.taskID) := by
    refine (List.perm_ext_iff_of_nodup ?_ ?_).mpr fun t => ?_
    · refine List.Nodup.map_on ?_ ((List.Nodup.of_map _ db.attempts.nodup).filter _)
      intro a ha b hb ht
      obtain ⟨ha, hsa⟩ := List.mem_filter.mp ha
      obtain ⟨hb, hsb⟩ := List.mem_filter.mp hb
      have ha := Table.mem_rows_iff.mp ha
      have hb := Table.mem_rows_iff.mp hb
      rw [hl.running_unique ha hb (of_decide_eq_true hsa) (of_decide_eq_true hsb) ht, hb] at ha
      exact (Option.some.inj ha).symm
    · exact List.Nodup.sublist (List.filter_sublist.map _) db.tasks.nodup
    · rw [List.mem_map, List.mem_map]
      constructor
      · rintro ⟨a, ha, rfl⟩
        obtain ⟨ha, hs⟩ := List.mem_filter.mp ha
        have hs := of_decide_eq_true hs
        obtain ⟨row, hc⟩ := hl.current _ a (Table.mem_rows_iff.mp ha) hs
        have hrow := Table.mem_of_get? hc.task
        have ht := Table.key_of_get? hc.task
        exact ⟨row, List.mem_filter.mpr ⟨hrow, (hl.live_iff hrow).mpr ⟨a, ha, hs, ht.symm⟩⟩, ht⟩
      · rintro ⟨row, hrow, rfl⟩
        obtain ⟨hrow, hlive⟩ := List.mem_filter.mp hrow
        obtain ⟨a, ha, hs, ht⟩ := (hl.live_iff hrow).mp hlive
        exact ⟨a, List.mem_filter.mpr ⟨ha, decide_eq_true hs⟩, ht⟩
  rw [DB.runningAttempts, List.countP_eq_length_filter]
  simpa only [List.length_map] using hperm.length_eq

/-- In every reachable state a Running attempt is the current attempt of an In-Progress
task. So a task has at most one Running attempt, a task that is not In-Progress has none,
and there are as many Running attempts as In-Progress tasks with a live attempt. -/
theorem running_attempts_current {q : Option Nat} {as : List Label} {w : World}
    (h : Run Step (World.initial q) as w) :
    (∀ x a, w.db.attempts.get? x = some a → a.status = .running →
      ∃ row, Change.Current w.db a.taskID x row a) ∧
    (∀ x y a b, w.db.attempts.get? x = some a → w.db.attempts.get? y = some b →
      a.status = .running → b.status = .running → a.taskID = b.taskID → x = y) ∧
    (∀ t row, w.db.tasks.get? t = some row → row.status ≠ .inProgress →
      ∀ x a, w.db.attempts.get? x = some a → a.taskID = t → a.status ≠ .running) ∧
    w.db.runningAttempts = (w.db.tasks.rows.filter w.db.live).length := by
  have hl := (coherent_run h).linked
  refine ⟨hl.current, fun x y a b hx hy ha hb ht => hl.running_unique hx hy ha hb ht, ?_,
    hl.running_count⟩
  rintro t row ht hs x a hx rfl hrun
  obtain ⟨row', hc⟩ := hl.current x a hx hrun
  cases ht.symm.trans hc.task
  exact hs hc.status

/-- Two workers with one attempt each. -/
def twoWorkers : List Label :=
  smallStart ++
    [calling (.getNextTask soloReplica 1 "a" 10 20) 2,
      calling (.getNextTask soloReplica 1 "b" 11 21) (30 * second)]

theorem running_attempts_current_two :
    ∃ w, Run Step (World.initial none) twoWorkers w ∧ w.db.runningAttempts = 2 ∧
      w.db.runningAttempts = (w.db.tasks.rows.filter w.db.live).length := by
  obtain ⟨w, hw, htwo⟩ := (run_after (by decide) :
    ∃ w, Run Step _ twoWorkers w ∧ w.db.runningAttempts = 2)
  exact ⟨w, hw, htwo, (running_attempts_current hw).2.2.2⟩

/-! ## 4. In-Progress tasks -/

/-- The current attempt of the task is its own and Running. -/
def Tracked (db : DB) (t : UUID) (row : TaskRow) : Prop :=
  ∃ x a, Change.Current db t x row a ∧ a.taskID = t ∧ a.status = .running

/-- Every In-Progress task is tracked, those of the replicas in `skip` apart. -/
def TrackedBut (skip : Nat → Prop) (db : DB) : Prop :=
  ∀ t row, db.tasks.get? t = some row → row.status = .inProgress →
    (∀ r, db.replicaOf t = some r → ¬ skip r) → Tracked db t row

theorem TrackedBut.apply (ht : TrackedBut skip db) (hl : Linked db) (hg : c.Guard now db)
    (hreplica : ∀ r, c = .failReplica r → skip r)
    (hjob : ∀ j, c = .failAttempts j → ∀ a ∈ db.attempts.rows, db.jobOf a.taskID = some j →
      a.status ≠ .running) : TrackedBut skip (c.apply now db) := by
  intro t row' h hs hskip
  rcases Change.inProgress_cases hg h hs with ⟨hrow, hn⟩ | ⟨a, r, rfl, hcur⟩
  · obtain ⟨r, hr⟩ := hl.replica hrow
    have hnot : ¬ skip r := hskip r (replicaOf_apply c hr)
    obtain ⟨x, a, hc, rfl, hrun⟩ := ht t _ hrow hs fun r' hr' =>
      Option.some.inj (hr.symm.trans hr') ▸ hnot
    obtain ⟨a', ha', ht', hiff, _⟩ := c.attempt_apply now hc.attempt
    refine ⟨x, a', ⟨h, hs, hc.current, ha'⟩, ht', hiff.mpr ⟨hrun, fun hstop => ?_⟩⟩
    have hx := Table.key_of_get? hc.attempt
    have hkey := Table.key_of_get? hrow
    -- what ends the attempt also writes the row of its task
    have hcur : ∀ {t' x' : UUID} {row'' : TaskRow} {att : AttemptRow}, a.attemptID = x' →
        Change.Current db t' x' row'' att → row'.taskID = t' := by
      intro t' x' row'' att he hc'
      obtain ⟨b, hb, rfl⟩ := hl.owner _ _ _ hc'.task hc'.current
      rw [← he, hx, hc.attempt] at hb
      cases hb
      exact hkey
    cases c with
    | complete t' x' lease skew rows =>
      obtain ⟨_, _, _, hc', _⟩ := hg
      exact hn (hcur hstop hc')
    | release t' x' status =>
      obtain ⟨_, _, hc', _⟩ := hg
      exact hn (hcur hstop hc')
    | cancel j =>
      refine hn ⟨?_, by rw [hs]; nofun⟩
      have hj : db.jobOf a.taskID = some j := hstop
      rw [DB.jobOf, hrow] at hj
      exact Option.some.inj hj
    | failAttempts j => exact hjob j rfl a (Table.mem_of_get? hc.attempt) hstop hrun
    | failReplica r' =>
      cases hr.symm.trans hstop
      exact hnot (hreplica r rfl)
    | _ => exact hstop
  · obtain ⟨ht, hrun, hnew, _⟩ := hg
    exact ⟨_, a, ⟨h, hs, hcur, Table.get?_insert_self hnew⟩, ht, hrun⟩

theorem TrackedBut.mono {skip' : Nat → Prop} (ht : TrackedBut skip db) (h : ∀ r, skip r → skip' r) :
    TrackedBut skip' db :=
  fun t row hrow hs hskip => ht t row hrow hs fun r hr hr' => hskip r hr (h r hr')

/-- The second statement of Recover leaves no task of its replica In-Progress. -/
theorem reset_notInProgress (h : ((Change.resetReplica r).apply now db).tasks.get? t = some row)
    (hr : ((Change.resetReplica r).apply now db).replicaOf t = some r) :
    row.status ≠ .inProgress := by
  intro hs
  rw [replicaOf_of_task h] at hr
  rcases Change.task_cases h with ⟨hc, _⟩ | ⟨row₀, hrow, ⟨_, rfl⟩ | ⟨hn, rfl⟩⟩
  · cases hc
  · cases hs
  · exact hn ⟨hs, hr⟩

/-- Every In-Progress task is tracked, except in the middle of its replica's Recover. -/
def AllTracked (w : World) : Prop := TrackedBut (fun r => (w.phase r).midRecover) w.db

theorem allTracked_initial (q : Option Nat) : AllTracked (World.initial q) := by
  intro t row h
  cases h

/-- The statement that the reaper issues after its commit finds no Running attempt. -/
def respawnsIdle (w : World) : Label → Prop
  | .post _ (.failRunningAttemptsByJob j) _ =>
    ∀ a ∈ w.db.attempts.rows, w.db.jobOf a.taskID = some j → a.status ≠ .running
  | _ => True

instance (w : World) (a : Label) : Decidable (respawnsIdle w a) := by
  unfold respawnsIdle
  split <;> infer_instance

/-- The phases after a step, those that a reset ends apart. -/
theorem midRecover_mono (h : Step w a w') (ha : ¬ Makes a (.resetReplica r))
    (hr : (w.phase r).midRecover) : (w'.phase r).midRecover := by
  cases a with
  | call c now locked =>
    obtain ⟨_, he, _, _, hphase, _⟩ := step_call h
    rw [hphase]
    cases c with
    | recoverFailAttempts s =>
      by_cases hs : r = s.replicaIndex
      · exact .inl (by rw [advance, hs, Function.update_self])
      · rwa [advance, Function.update_of_ne hs]
    | recoverResetTasks s =>
      by_cases hs : r = s.replicaIndex
      · exact absurd ⟨s, now, locked, rfl, hs⟩ ha
      · rwa [advance, Function.update_of_ne hs]
    | recoverWorkerPools s =>
      by_cases hs : r = s.replicaIndex
      · rw [hs, of_decide_eq_true he] at hr
        rcases hr with hr | hr <;> cases hr
      · rwa [advance, Function.update_of_ne hs]
    | _ => exact hr
  | post i action now =>
    obtain ⟨_, _, _, _, _, hphase, _⟩ := step_post h
    rwa [hphase]
  | restart r' => exact (midRecover_restart h r).mpr hr

theorem tracked_changes (hw : Coherent w.phase w.db) (h : Step w a w') (hok : respawnsIdle w a)
    (ht : TrackedBut skip w.db) (hskip : ∀ r, Makes a (.failReplica r) → skip r) :
    TrackedBut skip w'.db := by
  obtain ⟨now, cs, _, hcs, hm⟩ := step_changes h
  by_cases ha : ∃ i j now', a = .post i (.failRunningAttemptsByJob j) now'
  · obtain ⟨i, j, now', rfl⟩ := ha
    rw [step_failAttempts h]
    refine ht.apply hw.linked trivial nofun ?_
    rintro _ ⟨⟩
    exact hok
  · refine (hcs.keeps (I := fun d => Coherent w.phase d ∧ TrackedBut skip d) ?_
      ⟨hw, ht⟩).2
    rintro d c hc hg ⟨hd, ht⟩
    refine ⟨hd.apply h hg (hm c hc), ht.apply hd.linked hg ?_ ?_⟩
    · rintro r rfl
      exact hskip r (hm _ hc)
    · rintro j rfl
      obtain ⟨i, now', rfl⟩ := hm _ hc
      exact absurd ⟨i, j, now', rfl⟩ ha

/-- A step keeps all tasks tracked exactly when it meets the condition. -/
theorem tracked_step (hw : Coherent w.phase w.db) (ht : AllTracked w) (h : Step w a w') :
    AllTracked w' ↔ respawnsIdle w a := by
  constructor
  · intro ht'
    unfold respawnsIdle
    split
    · next i j now =>
      intro a ha hj hrun
      have hx := Table.mem_rows_iff.mp ha
      obtain ⟨row, hc⟩ := hw.linked.current _ a hx hrun
      have hdb := step_failAttempts h
      obtain ⟨_, _, _, _, _, hphase, _⟩ := step_post h
      obtain ⟨r, hr⟩ := hw.linked.replica hc.task
      obtain ⟨x, a', hc', _, hrun'⟩ := ht' _ row
        (by rw [hdb]; exact Change.task_untouched hc.task nofun) hc.status fun r' hr' hmid => by
          rw [hdb, replicaOf_apply _ hr] at hr'
          cases hr'
          rw [hphase] at hmid
          exact hw.calm r hmid _ a hx hrun hr
      obtain ⟨a'', ha'', _, hiff, _⟩ := (Change.failAttempts j).attempt_apply now hx
      have ha' := hc'.attempt
      rw [Option.some.inj (hc'.current.symm.trans hc.current), hdb, ha''] at ha'
      cases ha'
      exact (hiff.mp hrun').2 hj
    · trivial
  · intro hok
    have hskip : ∀ r, Makes a (.failReplica r) → (w'.phase r).midRecover := by
      rintro r ⟨s, now, locked, rfl, rfl⟩
      obtain ⟨_, _, _, _, hphase, _⟩ := step_call h
      exact .inl (by rw [hphase, advance, Function.update_self])
    -- the tasks of a replica that resets them need not be tracked before
    have hmono := tracked_changes hw h hok (ht.mono fun r hr =>
      (em (Makes a (.resetReplica r))).imp_right fun ha => midRecover_mono h ha hr)
      fun r hr => .inr (hskip r hr)
    intro t row hrow hs hmid
    refine hmono t row hrow hs ?_
    rintro r hr (⟨s, now, locked, rfl, rfl⟩ | hr')
    · rw [step_resetReplica h] at hrow hr
      exact reset_notInProgress hrow hr hs
    · exact hmid r hr hr'

/-- In a run from the empty store all states reached have every In-Progress task tracked
exactly when every statement that the reaper issues after its commit finds no Running
attempt of its job. -/
theorem tracked_iff (q : Option Nat) (as : List Label) (w : World) :
    Run (fun v a v' => Step v a v' ∧ AllTracked v') (World.initial q) as w ↔
      Run (Under Step respawnsIdle) (World.initial q) as w := by
  refine Run.under_iff (I := fun w : World => Coherent w.phase w.db) ?_ (coherent_initial q)
    (allTracked_initial q)
  intro v a v' hw ht h
  exact ⟨coherent_step hw h, tracked_step hw ht h⟩

/-- The lease of the first worker of `twoWorkers` has expired and the reaper respawns the
job: its last statement fails the attempt of the second worker, whose lease has not. -/
def siblingRun : List Label :=
  twoWorkers ++
    [calling (.failStaleTasks soloReplica (fun _ => none) (40 * second)) (40 * second),
      .post 7 (.orchestratorCancel 1) (40 * second),
      .post 7 (.failRunningAttemptsByJob 1) (40 * second)]

theorem tracked_lost :
    ∃ w, Run Step (World.initial none) siblingRun w ∧ w.phase 0 = .serving ∧ ¬ AllTracked w := by
  obtain ⟨w, hw, hphase, htask, hr, hatt⟩ := (run_after (by decide) :
    ∃ w, Run Step _ siblingRun w ∧ w.phase 0 = .serving ∧
      ((w.db.tasks.get? 3).map fun row => (row.status, row.currentAttemptID)) =
        some (.inProgress, some 11) ∧
      w.db.replicaOf 3 = some 0 ∧ (w.db.attempts.get? 11).map AttemptRow.status = some .failed)
  refine ⟨w, hw, hphase, fun hall => ?_⟩
  obtain ⟨row, hrow, heq⟩ := Option.map_eq_some_iff.mp htask
  obtain ⟨hs, hx⟩ := Prod.mk.inj heq
  obtain ⟨x, a, hc, _, hrun⟩ := hall 3 row hrow hs fun r hr' hmid => by
    cases hr.symm.trans hr'
    rw [hphase] at hmid
    rcases hmid with hmid | hmid <;> cases hmid
  cases hc.current.symm.trans hx
  rw [hc.attempt, Option.map_some, hrun] at hatt
  cases hatt

end KubeMapReduce
