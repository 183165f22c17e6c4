import KubeMapReduce.EventLog

/-!
# The events of the reaper

A pass of the reaper selects the Running attempts of its replica, the fresh ones with the stale
ones, and releases those that are stale. The tasks.reaped events are inserted by a second loop,
over all that were selected. So the events are those of the tasks that were released exactly if
everything that was selected is stale.

* `reclaimed_iff`: the tasks that a pass releases are those selected with a stale heartbeat.
* `reaped_events_iff`: when the events, the released tasks and the count agree.
-/

namespace KubeMapReduce

open Tables Transactions Runs

/-! ## 1. The tasks that a pass releases -/

/-- Task `t` was In-Progress under the Running attempt `x`. The attempt is now Failed and the
task is no longer In-Progress. -/
structure Reclaimed (db db' : DB) (t x : UUID) : Prop where
  held : ∃ row att, Change.Current db t x row att ∧ att.status = .running
  failed : ∃ att, db'.attempts.get? x = some att ∧ att.status = .failed
  moved : ∃ row, db'.tasks.get? t = some row ∧ row.status ≠ .inProgress

/-- What a pass changes: it releases tasks, closes jobs and inserts events. -/
def Reaping : Change → Prop
  | .release _ _ status => status ≠ .inProgress
  | .setJob _ _ => True
  | .log _ => True
  | _ => False

section Pass

variable {s : Scheduler} {heartbeats : UUID → Option Time} {clock now : Time}
  {locked : Resource → Bool} {db db' : DB} {recs : List StaleRec} {cs : List Change}

theorem reaping_of_mem {es es' : List Event} {c : Change}
    (h : c ∈ reapChanges s heartbeats clock recs ++ (logs s es ++ logs s es')) : Reaping c := by
  rcases List.mem_append.mp h with h | h
  · obtain ⟨_, _, _, ⟨_, rfl | rfl⟩ | rfl⟩ := mem_reapChanges h
    · exact nofun
    · trivial
    · exact nofun
  · obtain ⟨e, rfl⟩ := (List.mem_append.mp h).elim mem_logs mem_logs
    trivial

theorem stale_release {rec : StaleRec} (h : rec ∈ recs)
    (hs : isStale s heartbeats clock rec = true) :
    ∃ status, .release rec.taskID rec.attemptID status ∈ reapChanges s heartbeats clock recs := by
  by_cases hmax : MaxTaskAttempts ≤ rec.attemptCount
  · exact ⟨_, release_mem_reapChanges h hs hmax⟩
  · refine ⟨.idle, List.mem_flatMap.mpr ⟨rec, h, ?_⟩⟩
    rw [if_pos hs, if_neg hmax]
    exact List.mem_singleton_self _

/-- A released task stays out of In-Progress for the rest of the pass, and its attempt Failed. -/
theorem reaping_keeps (h : Changes now db cs db') (hcs : ∀ c ∈ cs, Reaping c) {t x : UUID}
    (htask : ∃ row, db.tasks.get? t = some row ∧ row.status ≠ .inProgress)
    (hatt : ∃ att, db.attempts.get? x = some att ∧ att.status = .failed) :
    (∃ row, db'.tasks.get? t = some row ∧ row.status ≠ .inProgress) ∧
      ∃ att, db'.attempts.get? x = some att ∧ att.status = .failed := by
  refine h.keeps (I := fun d : DB =>
    (∃ row, d.tasks.get? t = some row ∧ row.status ≠ .inProgress) ∧
      ∃ att, d.attempts.get? x = some att ∧ att.status = .failed) ?_ ⟨htask, hatt⟩
  rintro d c hc _ ⟨⟨row, hrow, hs⟩, att, hatt, hf⟩
  have hreap := hcs c hc
  cases c with
  | release t' x' status =>
    constructor
    · by_cases ht : (Change.release t' x' status).Touches d row
      · exact ⟨_, Change.task_touched hrow ht, hreap⟩
      · exact ⟨row, Change.task_untouched hrow ht, hs⟩
    · show ∃ att, (d.setAttempt now x' (.finish .failed)).attempts.get? x = some att ∧ _
      rw [DB.setAttempt_get?]
      split
      · next he => exact ⟨_, by rw [← he, hatt]; rfl, rfl⟩
      · exact ⟨att, hatt, hf⟩
  | setJob => exact ⟨⟨row, hrow, hs⟩, att, hatt, hf⟩
  | log => exact ⟨⟨row, hrow, hs⟩, att, hatt, hf⟩
  | _ => exact hreap.elim

theorem released_reclaimed (h : Changes now db cs db') (hcs : ∀ c ∈ cs, Reaping c) {t x : UUID}
    {status : TaskStatus} (hmem : .release t x status ∈ cs) :
    (∃ row, db'.tasks.get? t = some row ∧ row.status ≠ .inProgress) ∧
      ∃ att, db'.attempts.get? x = some att ∧ att.status = .failed := by
  have hstatus : status ≠ .inProgress := hcs _ hmem
  obtain ⟨as, bs, rfl⟩ := List.append_of_mem hmem
  obtain ⟨d, _, hbs⟩ := h.of_append
  cases hbs with
  | cons hstep hrest =>
    obtain ⟨⟨row, att, hc, _⟩, rfl⟩ := hstep
    refine reaping_keeps hrest (fun c hc => hcs c (by simp [hc])) ?_ ?_
    · exact ⟨_, Change.task_touched hc.task (Table.key_of_get? hc.task), hstatus⟩
    · refine ⟨att.set now (.finish .failed), ?_, rfl⟩
      show ((d.setTask t _).setAttempt now x _).attempts.get? x = _
      rw [DB.setAttempt_get?, if_pos rfl]
      show (d.attempts.get? x).map _ = _
      rw [hc.attempt]
      rfl

/-- A task that is not released is not touched. -/
theorem reaping_untouched (h : Changes now db cs db') (hcs : ∀ c ∈ cs, Reaping c) {t : UUID}
    (hnone : ∀ x status, .release t x status ∉ cs) {row : TaskRow}
    (hrow : db.tasks.get? t = some row) : db'.tasks.get? t = some row := by
  refine h.keeps (I := fun d : DB => d.tasks.get? t = some row) ?_ hrow
  rintro d c hc _ hrow
  refine Change.task_untouched hrow fun htouch => ?_
  have hreap := hcs c hc
  cases c with
  | release t' x status =>
    cases (Table.key_of_get? hrow).symm.trans htouch
    exact hnone x status hc
  | setJob => exact htouch
  | log => exact htouch
  | _ => exact hreap

/-- A pass releases the tasks that it selects with a stale heartbeat. -/
theorem reclaimed_iff {r : Nat} {env : Env Resource} {es es' : List Event}
    (h : Changes now db (reapChanges s heartbeats clock (staleTasks r env db) ++
      (logs s es ++ logs s es')) db') {t x : UUID} :
    Reclaimed db db' t x ↔ ∃ rec ∈ staleTasks r env db,
      isStale s heartbeats clock rec = true ∧ rec.taskID = t ∧ rec.attemptID = x := by
  constructor
  · rintro ⟨⟨row, att, hc, _⟩, _, row', hrow', hs'⟩
    by_contra hno
    have hkeep := reaping_untouched h (fun _ => reaping_of_mem) (t := t) ?_ hc.task
    · cases hkeep.symm.trans hrow'
      exact hs' hc.status
    · intro y status hmem
      rcases List.mem_append.mp hmem with hmem | hmem
      · obtain ⟨rec, hrec, hstale, hcase⟩ := mem_reapChanges hmem
        have ht : rec.taskID = t := by
          rcases hcase with ⟨_, hcase | hcase⟩ | hcase <;> cases hcase <;> rfl
        obtain ⟨⟨row₀, _, hc₀⟩, _⟩ := staleTasks_fresh hrec
        have hrow := hc₀.task
        rw [ht, hc.task] at hrow
        cases hrow
        exact hno ⟨rec, hrec, hstale, ht, Option.some.inj (hc₀.current.symm.trans hc.current)⟩
      · obtain ⟨_, hlog⟩ := (List.mem_append.mp hmem).elim mem_logs mem_logs
        cases hlog
  · rintro ⟨rec, hrec, hstale, rfl, rfl⟩
    obtain ⟨status, hmem⟩ := stale_release hrec hstale
    obtain ⟨hmoved, hfailed⟩ := released_reclaimed h (fun _ => reaping_of_mem)
      (List.mem_append_left _ hmem)
    obtain ⟨row, att, _, hrow, hatt, _, _, hcur, hs, hrun, _⟩ := QueryLemmas.staleTasks_mem hrec
    exact ⟨⟨row, att, ⟨hrow, hs, hcur, hatt⟩, hrun⟩, hfailed, hmoved⟩

/-! ## 2. The events and the count -/

/-- The task and the attempt of a tasks.reaped event. -/
def Event.reaped : Event → Option (UUID × UUID)
  | .taskReaped t _ x _ => some (t, x)
  | _ => none

def reapedEvents (db db' : DB) : List (UUID × UUID) := (newEvents db db').filterMap Event.reaped

/-- The loop counts the stale records. -/
theorem reapedBy_count (recs : List StaleRec) (acc : Reaped) :
    (reapedBy s heartbeats clock recs acc).recoveredCount =
      acc.recoveredCount + recs.countP (isStale s heartbeats clock) := by
  induction recs generalizing acc with
  | nil => rfl
  | cons rec recs ih =>
    rw [reapedBy, List.foldl_cons, ← reapedBy, ih, List.countP_cons]
    by_cases hs : isStale s heartbeats clock rec = true
    · rw [if_pos hs, if_pos hs]
      split <;> exact Nat.succ_add_eq_add_succ _ _
    · rw [if_neg hs, if_neg hs, Nat.add_zero]

/-- The events of a pass are those of all records that it has selected. -/
theorem reapedEvents_pass (hs : s.emitsEvents = true) {jobs : List UUID}
    (h : Changes now db (reapChanges s heartbeats clock recs ++
      (logs s (recs.map fun rec =>
          .taskReaped rec.taskID rec.jobID rec.attemptID "lease expired") ++
        logs s (jobs.map fun j => .jobStateChanged j .running .cleaning))) db') :
    reapedEvents db db' = recs.map fun rec => (rec.taskID, rec.attemptID) := by
  rw [reapedEvents, newEvents_changes h, events_append, events_append, events_reapChanges,
    events_logs hs, events_logs hs, List.nil_append, List.filterMap_append, List.filterMap_map,
    List.filterMap_map]
  have hjobs : jobs.filterMap (Event.reaped ∘ fun j => .jobStateChanged j .running .cleaning) =
      [] := List.filterMap_eq_nil_iff.mpr fun _ _ => rfl
  rw [hjobs, List.append_nil]
  exact congrFun
    (List.filterMap_eq_map (f := fun rec : StaleRec => (rec.taskID, rec.attemptID))) recs

end Pass

/-- The pass inserts one tasks.reaped event for each task that it releases and no others, and
returns their number. -/
structure ReapedExactly (db db' : DB) (result : Except Err Reply) : Prop where
  events : ∀ t x, (t, x) ∈ reapedEvents db db' ↔ Reclaimed db db' t x
  once : (reapedEvents db db').Nodup
  count : result = .ok (.count (reapedEvents db db').length)

/-- With the events inserted, a pass is exact if and only if all the attempts that it selects are
stale. -/
theorem reaped_events_iff {s : Scheduler} (hs : s.emitsEvents = true)
    (heartbeats : UUID → Option Time) (clock now : Time) (locked : Resource → Bool) (db : DB) :
    ReapedExactly db (perform (.failStaleTasks s heartbeats clock) now locked db).2
        (perform (.failStaleTasks s heartbeats clock) now locked db).1.result ↔
      ∀ rec ∈ staleTasks s.replicaIndex (atomically now locked) db,
        isStale s heartbeats clock rec = true := by
  obtain ⟨out, hout, hres, _, hcs⟩ :=
    @performed _ (.failStaleTasks s heartbeats clock) now locked db _ _ _ rfl
      failStaleTasks_changes
  have hevents := reapedEvents_pass hs hcs
  have hcount : (perform (.failStaleTasks s heartbeats clock) now locked db).1.result =
      .ok (.count ((staleTasks s.replicaIndex (atomically now locked) db).countP
        (isStale s heartbeats clock))) := by
    rw [hout, Outcome.map, hres, reapedBy_count, Nat.zero_add]
    rfl
  constructor
  · intro h
    have hlen := hcount.symm.trans h.count
    rw [hevents, List.length_map] at hlen
    injection hlen with hlen
    injection hlen with hlen
    exact List.countP_eq_length.mp hlen
  · intro hall
    refine ⟨fun t x => ?_, ?_, ?_⟩
    · rw [hevents, reclaimed_iff hcs, List.mem_map]
      constructor
      · rintro ⟨rec, hrec, heq⟩
        cases heq
        exact ⟨rec, hrec, hall rec hrec, rfl, rfl⟩
      · rintro ⟨rec, hrec, _, rfl, rfl⟩
        exact ⟨rec, hrec, rfl⟩
    · rw [hevents]
      exact List.Nodup.of_map Prod.fst (by
        rw [List.map_map]
        exact staleTasks_nodup s.replicaIndex (atomically now locked))
    · rw [hcount, hevents, List.length_map, List.countP_eq_length.mpr hall]

/-- A pass after the leases of both workers have expired. -/
def latePass : Call := .failStaleTasks emittingReplica (fun _ => none) (90 * second)

theorem reaped_events_two :
    ∃ w, Run Step (World.initial none) twoWorkers w ∧
      ReapedExactly w.db (perform latePass (90 * second) (fun _ => false) w.db).2
        (perform latePass (90 * second) (fun _ => false) w.db).1.result ∧
      (perform latePass (90 * second) (fun _ => false) w.db).1.result = .ok (.count 2) := by
  obtain ⟨w, hw, hall, hcount⟩ := (run_after (by decide) :
    ∃ w, Run Step (World.initial none) twoWorkers w ∧
      (∀ rec ∈ staleTasks 0 (atomically (90 * second) fun _ => false) w.db,
        isStale emittingReplica (fun _ => none) (90 * second) rec = true) ∧
      (perform latePass (90 * second) (fun _ => false) w.db).1.result = .ok (.count 2))
  exact ⟨w, hw, (reaped_events_iff rfl (fun _ => none) (90 * second) (90 * second)
    (fun _ => false) w.db).mpr hall, hcount⟩

/-- A pass within a second of the assignments. -/
def freshPass : Call := .failStaleTasks emittingReplica (fun _ => none) second

/-- Nothing is released and nothing counted, and both attempts are reported as reaped. -/
theorem reaped_events_fresh :
    ∃ w, Run Step (World.initial none)
        (smallStart ++ [calling (.getNextTask soloReplica 1 "a" 10 20) 2,
          calling (.getNextTask soloReplica 1 "b" 11 21) 3]) w ∧
      (perform freshPass second (fun _ => false) w.db).1.result = .ok (.count 0) ∧
      newEvents w.db (perform freshPass second (fun _ => false) w.db).2 =
        [.taskReaped 2 1 10 "lease expired", .taskReaped 3 1 11 "lease expired"] ∧
      ((perform freshPass second (fun _ => false) w.db).2.tasks.get? 2).map
        (fun row => (row.status, row.currentAttemptID)) = some (.inProgress, some 10) ∧
      ((perform freshPass second (fun _ => false) w.db).2.attempts.get? 10).map
        AttemptRow.status = some .running :=
  run_after (by decide)

end KubeMapReduce
