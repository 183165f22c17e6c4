import KubeMapReduce.Exchange
import KubeMapReduce.ReduceTask

/-!
# What reaches the Reduce tasks

The blobs of a job are keyed by the partition only, and they are visible when their stream
ends, while the attempt commits later and elsewhere. So the blobs of a retried or aborted
attempt stay.

* `Reports`: the Completed Map tasks are those of the committed attempts, and the output
  rows are those of their reports, in the order of the commits.
* `exchange_cases`, `exchanged_step`: what a step can do, and what every state satisfies.
* `shuffle_exactly_once`: when the Map phase is over the blobs are those of the committed
  attempts, in a run in which only current attempts store their streams and no task is
  assigned again after a stream of it was stored. `pushed_twice` is a run in which an
  attempt pushes and is retried.
-/

namespace KubeMapReduce

open Tables Runs

variable {p : Nat} {j lease t x : UUID}

/-! ## 1. Reports -/

section Board

variable {J : MapJob} {now : Time} {db db' : DB} {committed : List (UUID × UUID)} {c : Change}

theorem isMapOf_iff : db.isMapOf j t = true ↔
    ∃ row, db.tasks.get? t = some row ∧ row.jobID = j ∧ row.taskType = .map := by
  simp only [DB.isMapOf, Option.any_eq_true, Bool.and_eq_true, decide_eq_true_eq]

theorem mapTaskOf_eq_some (h : db.mapTaskOf j x = some t) :
    ∃ a, db.attempts.get? x = some a ∧ a.taskID = t ∧ db.isMapOf j t = true := by
  obtain ⟨a, ha, hif⟩ := Option.bind_eq_some_iff.mp h
  split at hif
  · next hmap =>
    cases hif
    exact ⟨a, ha, rfl, hmap⟩
  · cases hif

/-- An attempt keeps its task. -/
theorem mapTaskOf_apply (c : Change) (now : Time) (h : db.mapTaskOf j x = some t) :
    (c.apply now db).mapTaskOf j x = some t := by
  obtain ⟨a, ha, rfl, hmap⟩ := mapTaskOf_eq_some h
  obtain ⟨row, hrow, _⟩ := isMapOf_iff.mp hmap
  obtain ⟨a', ha', ht', _⟩ := c.attempt_apply now ha
  rw [DB.mapTaskOf, ha', Option.bind_some, ht', isMapOf_some c hrow, if_pos hmap]

/-- The change completes no Map task of the job. -/
def Change.Leaves (j : UUID) (db : DB) (c : Change) : Prop :=
  ∀ t x lease skew rows, c = .complete t x lease skew rows → db.isMapOf j t = false

/-- A Map task of the job that such a change writes is not In-Progress or Completed then,
unless it was assigned. -/
theorem touched_map {row : TaskRow} (hg : c.Guard now db) (hc : c.Leaves J.jobID db)
    (ht : db.tasks.get? t = some row) (htouch : c.Touches db row) (hj : row.jobID = J.jobID)
    (hty : row.taskType = .map) :
    (∃ a r, c = .assign t a r) ∨
      c.taskSet.status ≠ .inProgress ∧ c.taskSet.status ≠ .completed := by
  obtain hassign | ⟨x, lease, skew, rows, rfl⟩ | ⟨_, _, hred⟩ | hother :=
    Change.touched_cases hg ht htouch
  · exact .inl hassign
  · have hmap := hc t x lease skew rows rfl
    rw [isMapOf_iff.mpr ⟨row, ht, hj, hty⟩] at hmap
    cases hmap
  · rw [hty] at hred
    cases hred
  · exact .inr hother

/-- The Completed Map tasks of the job are those of the committed attempts, and their output
rows are those of the reports, in the order of the commits. -/
structure Reports (J : MapJob) (committed : List (UUID × UUID)) (db : DB) : Prop where
  once : (committed.map Prod.fst).Nodup
  task : ∀ c ∈ committed, db.mapTaskOf J.jobID c.2 = some c.1 ∧
    ∃ row, db.tasks.get? c.1 = some row ∧ row.status = .completed
  all : ∀ t row, db.tasks.get? t = some row → row.jobID = J.jobID → row.taskType = .map →
    row.status = .completed → t ∈ committed.map Prod.fst
  rows : (db.outputs.filter fun o => db.isMapOf J.jobID o.taskID) =
    committed.flatMap fun c => J.rows c.1 c.2
  existing : ∀ o ∈ db.outputs, ∃ row, db.tasks.get? o.taskID = some row

namespace Reports

theorem existing_apply (h : Reports J committed db) (hg : c.Guard now db) :
    ∀ o ∈ (c.apply now db).outputs, ∃ row, (c.apply now db).tasks.get? o.taskID = some row := by
  intro o ho
  rw [apply_outputs] at ho
  refine Option.ne_none_iff_exists'.mp fun hnone => ?_
  have hold := Change.task_none hnone
  rcases List.mem_append.mp ho with ho | ho
  · obtain ⟨row, hrow⟩ := h.existing o ho
    cases hold.symm.trans hrow
  · obtain ⟨row, hrow, _⟩ := rows_inProgress hg ho
    cases hold.symm.trans hrow

theorem task_apply (h : Reports J committed db) (hg : c.Guard now db) :
    ∀ p ∈ committed, (c.apply now db).mapTaskOf J.jobID p.2 = some p.1 ∧
      ∃ row, (c.apply now db).tasks.get? p.1 = some row ∧ row.status = .completed := by
  intro p hp
  obtain ⟨hmap, row, hrow, hs⟩ := h.task p hp
  exact ⟨mapTaskOf_apply c now hmap, row, completed_apply hg hrow hs, hs⟩

/-- The rows of the Map tasks after a change: the old ones and those of the change. -/
theorem rows_apply (h : Reports J committed db) (hg : c.Guard now db) :
    ((c.apply now db).outputs.filter fun o => (c.apply now db).isMapOf J.jobID o.taskID) =
      (committed.flatMap fun p => J.rows p.1 p.2) ++
        c.rows.filter fun o => db.isMapOf J.jobID o.taskID := by
  rw [apply_outputs, List.filter_append, ← h.rows]
  congr 1
  · refine List.filter_congr fun o ho => ?_
    obtain ⟨row, hrow⟩ := h.existing o ho
    exact isMapOf_some c hrow
  · refine List.filter_congr fun o ho => ?_
    obtain ⟨row, hrow, _⟩ := rows_inProgress hg ho
    exact isMapOf_some c hrow

/-- A change that completes no Map task of the job. -/
theorem apply (h : Reports J committed db) (hg : c.Guard now db) (hc : c.Leaves J.jobID db) :
    Reports J committed (c.apply now db) := by
  refine ⟨h.once, h.task_apply hg, fun t row' hrow' hj hty hs => ?_, ?_, h.existing_apply hg⟩
  · rcases Change.task_cases hrow' with ⟨rfl, _⟩ | ⟨row, hrow, ⟨htouch, rfl⟩ | ⟨_, rfl⟩⟩
    · have hidle := hg.2.1
      rw [hs] at hidle
      cases hidle
    · rcases touched_map hg hc hrow htouch hj hty with ⟨a, r, rfl⟩ | ⟨_, hne⟩
      · cases hs
      · exact absurd hs hne
    · exact h.all t row' hrow hj hty hs
  · rw [h.rows_apply hg, List.filter_eq_nil_iff.mpr, List.append_nil]
    intro o ho hmap
    cases c with
    | complete t x lease skew rows =>
      obtain ⟨hrows, _⟩ := hg
      rw [hrows o ho, hc t x lease skew rows rfl] at hmap
      cases hmap
    | _ => cases ho

/-- The report of an attempt. -/
theorem complete {skew : Nat} (h : Reports J committed db)
    (hg : (Change.complete t x lease skew (J.rows t x)).Guard now db)
    (hmap : db.mapTaskOf J.jobID x = some t) :
    Reports J (committed ++ [(t, x)])
      ((Change.complete t x lease skew (J.rows t x)).apply now db) := by
  obtain ⟨hrows, row, _, hcur, _⟩ := id hg
  have hdone := complete_task hcur lease skew (J.rows t x) now
  refine ⟨?_, fun p hp => ?_, fun t' row' hrow' hj hty hs => ?_, ?_, h.existing_apply hg⟩
  · rw [List.map_append]
    refine List.nodup_append.mpr ⟨h.once, List.nodup_singleton _, ?_⟩
    rintro t' ht' _ hnew rfl
    obtain ⟨p, hp, rfl⟩ := List.mem_map.mp ht'
    obtain ⟨_, row', hrow', hs⟩ := h.task p hp
    rw [List.mem_singleton.mp hnew] at hrow'
    cases hrow'.symm.trans hcur.task
    cases hs.symm.trans hcur.status
  · rcases List.mem_append.mp hp with hp | hp
    · exact h.task_apply hg p hp
    · cases List.mem_singleton.mp hp
      exact ⟨mapTaskOf_apply _ now hmap, _, hdone, rfl⟩
  · rw [List.map_append, List.mem_append]
    rcases Change.task_cases hrow' with ⟨he, _⟩ | ⟨row₀, hrow₀, ⟨htouch, rfl⟩ | ⟨_, rfl⟩⟩
    · cases he
    · exact .inr (List.mem_singleton.mpr ((Table.key_of_get? hrow₀).symm.trans htouch))
    · exact .inl (h.all t' row' hrow₀ hj hty hs)
  · obtain ⟨_, _, _, htask⟩ := mapTaskOf_eq_some hmap
    rw [h.rows_apply hg, List.flatMap_append, List.flatMap_singleton]
    congr 1
    refine List.filter_eq_self.mpr fun o ho => ?_
    rw [hrows o ho]
    exact htask

end Reports

/-- An attempt that has stored a stream is the current one while its task is In-Progress, and
the committed one when the task is Completed. -/
def Owned (J : MapJob) (stored : List (UUID × Nat × Bytes)) (committed : List (UUID × UUID))
    (db : DB) : Prop :=
  ∀ s ∈ stored, ∃ t row, db.mapTaskOf J.jobID s.1 = some t ∧ db.tasks.get? t = some row ∧
    (row.status = .inProgress → row.currentAttemptID = some s.1) ∧
    (row.status = .completed → (t, s.1) ∈ committed)

theorem Owned.apply {stored : List (UUID × Nat × Bytes)} (h : Owned J stored committed db)
    (hg : c.Guard now db) (hc : c.Leaves J.jobID db)
    (hassign : ∀ t a r, c = .assign t a r → ∀ s ∈ stored, db.mapTaskOf J.jobID s.1 ≠ some t) :
    Owned J stored committed (c.apply now db) := by
  intro s hs
  obtain ⟨t, row, hmap, hrow, hcur, hdone⟩ := h s hs
  refine ⟨t, ?_⟩
  by_cases htouch : c.Touches db row
  · obtain ⟨_, _, _, htask⟩ := mapTaskOf_eq_some hmap
    obtain ⟨row', hrow', hj, hty⟩ := isMapOf_iff.mp htask
    cases hrow.symm.trans hrow'
    refine ⟨_, mapTaskOf_apply c now hmap, Change.task_touched hrow htouch, ?_⟩
    rcases touched_map hg hc hrow htouch hj hty with ⟨a, r, rfl⟩ | ⟨hne, hne'⟩
    · exact absurd hmap (hassign t a r rfl s hs)
    · exact ⟨fun he => absurd he hne, fun he => absurd he hne'⟩
  · exact ⟨row, mapTaskOf_apply c now hmap, Change.task_untouched hrow htouch, hcur, hdone⟩

theorem Owned.complete {stored : List (UUID × Nat × Bytes)} {skew : Nat} {rows : List OutputRow}
    (h : Owned J stored committed db) (hg : (Change.complete t x lease skew rows).Guard now db) :
    Owned J stored (committed ++ [(t, x)])
      ((Change.complete t x lease skew rows).apply now db) := by
  intro s hs
  obtain ⟨t', row, hmap, hrow, hcur, hdone⟩ := h s hs
  refine ⟨t', ?_⟩
  by_cases htouch : (Change.complete t x lease skew rows).Touches db row
  · obtain ⟨_, row', _, hcur', _⟩ := hg
    have ht : t' = t := (Table.key_of_get? hrow).symm.trans htouch
    subst ht
    cases hrow.symm.trans hcur'.task
    have hx : s.1 = x := Option.some.inj ((hcur hcur'.status).symm.trans hcur'.current)
    refine ⟨_, mapTaskOf_apply _ now hmap, Change.task_touched hrow htouch, nofun, fun _ => ?_⟩
    rw [hx]
    exact List.mem_append_right _ (List.mem_singleton_self _)
  · exact ⟨row, mapTaskOf_apply _ now hmap, Change.task_untouched hrow htouch, hcur,
      fun he => List.mem_append_left _ (hdone he)⟩

end Board

/-! ## 2. Steps of the cluster -/

section Steps

variable {J : MapJob} {w w' : World} {a : Label} {c : Change} {committed : List (UUID × UUID)}

theorem Foreign.leaves {db : DB} (h : Foreign j db a) (hm : Makes a c) : c.Leaves j db := by
  rintro t x lease skew rows rfl
  obtain ⟨s, us, cks, now, locked, rfl, _⟩ := hm
  exact h

theorem Foreign.apply {db : DB} (h : Foreign j db a) (hm : Makes a c) (now : Time) :
    Foreign j (c.apply now db) a := by
  unfold Foreign at h ⊢
  split
  · have hspares : c.Spares j := by
      cases c with
      | addTask row =>
        obtain ⟨_, _, _, _, he, _⟩ := hm
        cases he
      | _ => trivial
    rw [isMapOf_apply hspares]
    exact h
  · trivial

theorem Reports.cluster (h : Reports J committed w.db) (hstep : Step w a w')
    (hf : Foreign J.jobID w.db a) : Reports J committed w'.db := by
  obtain ⟨now, cs, _, hcs, hm⟩ := step_changes hstep
  refine (hcs.keeps
    (I := fun d => Reports J committed d ∧ Foreign J.jobID d a) ?_ ⟨h, hf⟩).1
  rintro d c hc hg ⟨hd, hfd⟩
  exact ⟨hd.apply hg (hfd.leaves (hm c hc)), hfd.apply (hm c hc) now⟩

/-- GetNextTask is not called for the job while a task with a stored stream is Idle. -/
def Unretried (J : MapJob) (stored : List (UUID × Nat × Bytes)) (db : DB) : Label → Prop
  | .call (.getNextTask _ j _ _ _) _ _ => j = J.jobID →
    ∀ s ∈ stored, ∀ t ∈ db.mapTaskOf J.jobID s.1, ∀ row ∈ db.tasks.get? t, row.status ≠ .idle
  | _ => True

instance (J : MapJob) (stored : List (UUID × Nat × Bytes)) (db : DB) (a : Label) :
    Decidable (Unretried J stored db a) := by
  unfold Unretried
  split <;> infer_instance

theorem Owned.cluster {stored : List (UUID × Nat × Bytes)} (h : Owned J stored committed w.db)
    (hstep : Step w a w') (hf : Foreign J.jobID w.db a) (hok : Unretried J stored w.db a) :
    Owned J stored committed w'.db := by
  obtain ⟨now, cs, hcs, hm, hassign⟩ := step_assigns hstep
  refine (hcs.keeps (I := fun d => Owned J stored committed d ∧
    Foreign J.jobID d a ∧ ∀ x t, w.db.mapTaskOf J.jobID x = some t →
      d.mapTaskOf J.jobID x = some t) ?_ ⟨h, hf, fun _ _ => id⟩).1
  rintro d c hc hg ⟨hd, hfd, hkept⟩
  refine ⟨hd.apply hg (hfd.leaves (hm c hc)) ?_, hfd.apply (hm c hc) now,
    fun x t hx => mapTaskOf_apply c now (hkept x t hx)⟩
  -- an assigned task was Idle at the start of the step, so it has no stored stream
  rintro t att r rfl s hs hmap
  obtain ⟨_, j, _, _, _, _, _, rfl, row, hrow, hj, hidle⟩ := hassign t att r hc
  obtain ⟨t₀, _, hmap₀, _⟩ := h s hs
  cases hmap.symm.trans (hkept s.1 t₀ hmap₀)
  obtain ⟨_, _, _, htask⟩ := mapTaskOf_eq_some hmap₀
  obtain ⟨row', hrow', hj', _⟩ := isMapOf_iff.mp htask
  cases hrow.symm.trans hrow'
  exact hok (hj.symm.trans hj') s hs t hmap₀ row hrow hidle

end Steps

/-! ## 3. Runs -/

section Exchanges

variable {J : MapJob} {e e' : Exchange} {a : Act}

/-- The report of an attempt whose streams are all closed is refused or completes its task. -/
theorem report_cases {s : Scheduler} {now : Time} {locked : Resource → Bool}
    (h : e.report J x s lease now locked = some e') :
    ∃ t, e.world.db.mapTaskOf J.jobID x = some t ∧
      (∀ p ∈ J.partitions x, e.push x p = .closed) ∧
      e'.server = e.server ∧ e'.push = e.push ∧ e'.stored = e.stored ∧
      (e'.world.db = e.world.db ∧ e'.committed = e.committed ∨
        e'.committed = e.committed ++ [(t, x)] ∧ ∃ tail,
          Changes now e.world.db
            (.complete t x lease s.leaseClockSkewSeconds (J.rows t x) :: tail) e'.world.db ∧
          ∀ c ∈ tail, c.Epilogue) := by
  unfold Exchange.report at h
  split at h
  · cases h
  next t hmap =>
  split at h
  · cases h
  next us cks hrun =>
  split at h
  · next hclosed =>
    obtain ⟨w, hw, rfl⟩ := Option.map_eq_some_iff.mp h
    obtain ⟨_, _, hdb, _⟩ := step_call hw
    refine ⟨t, hmap, hclosed, rfl, rfl, rfl, ?_⟩
    dsimp only
    rw [hdb, ← MapJob.rows_of_runMap hrun]
    obtain ⟨hsame, err, herr⟩ | ⟨hok, _, tail, hcs, htail⟩ :=
      completeTask_perform s t x lease us cks now locked e.world.db
    · rw [herr]
      exact .inl ⟨hsame, rfl⟩
    · rw [hok]
      exact .inr ⟨rfl, tail, hcs, htail⟩
  · cases h

/-- No chunk has arrived of the stream. -/
def Push.unsent : Push → Bool
  | .streaming handler _ => decide (handler.jobID = "")
  | _ => true

/-- What a step of a stream leaves as it is, and what it stores. -/
structure Streamed (e e' : Exchange) (a : Act) : Prop where
  world : e'.world = e.world
  committed : e'.committed = e.committed
  closed : ∀ x p, e.push x p = .closed → e'.push x p = .closed
  stored : ∃ ys, e'.stored = e.stored ++ ys ∧ ∀ s ∈ ys, a = .close s.1 s.2.1 ∨
    a = .abort s.1 s.2.1 ∧ (e.push s.1 s.2.1).unsent = false

theorem streamed_setPush {st : Push} (h : e.push x p ≠ .closed) :
    Streamed e (e.setPush x p st) a := by
  refine ⟨rfl, rfl, fun x' p' hc => ?_, [], (List.append_nil _).symm, nofun⟩
  rw [setPush_push, if_neg]
  · exact hc
  · rintro ⟨rfl, rfl⟩
    exact h hc

theorem streamed_endStream {handler : PushStream} {after : Push} (h : e.push x p ≠ .closed)
    (ha : handler.jobID ≠ "" → a = .close x p ∨ a = .abort x p ∧ (e.push x p).unsent = false) :
    Streamed e (e.endStream x p handler after) a := by
  have hset : ∀ st, Streamed e (e.setPush x p st) a := fun _ => streamed_setPush h
  unfold Exchange.endStream
  split
  · refine ⟨rfl, rfl, (hset after).closed, ?_⟩
    dsimp only
    split
    · exact (hset after).stored
    · next hjob => exact ⟨_, rfl, List.forall_mem_singleton.mpr (ha hjob)⟩
  · exact ⟨rfl, rfl, (hset .gone).closed, (hset .gone).stored⟩

theorem exchange_cluster {l : Label} (h : Exchanges J e (.cluster l) e') :
    Foreign J.jobID e.world.db l ∧ ∃ w, Step e.world l w ∧ e' = { e with world := w } := by
  have h : (if Foreign J.jobID e.world.db l then
    (next e.world l).map fun w => { e with world := w } else none) = some e' := h
  split at h
  · next hf =>
    obtain ⟨w, hw, rfl⟩ := Option.map_eq_some_iff.mp h
    exact ⟨hf, w, hw, rfl⟩
  · cases h

/-- Every step is one of the cluster, of a stream, or a report. -/
theorem exchange_cases (hp : Pushes J e) (h : Exchanges J e a e') :
    (∃ l w, a = .cluster l ∧ Foreign J.jobID e.world.db l ∧ Step e.world l w ∧
      e' = { e with world := w }) ∨
    (Pushes J e' ∧ Streamed e e' a) ∨
    ∃ x s lease now locked, a = .report x s lease now locked ∧
      e.report J x s lease now locked = some e' := by
  cases a with
  | cluster l =>
    obtain ⟨hf, w, hw, rfl⟩ := exchange_cluster h
    exact .inl ⟨l, w, rfl, hf, hw, rfl⟩
  | openPush x p =>
    have h : (if e.push x p = .unopened ∧ (e.world.db.mapTaskOf J.jobID x).isSome = true ∧
      p ∈ J.partitions x then some (e.setPush x p (.streaming .begin (J.payload x p)))
      else none) = some e' := h
    split at h
    · next ho =>
      cases h
      obtain ⟨hun, howner, hpart⟩ := ho
      have hold : e.push x p ≠ .closed := by simp [hun]
      refine .inr (.inl ⟨hp.setPush hold ⟨by simp, by simp⟩ howner ?_, streamed_setPush hold⟩)
      rintro _ _ ⟨⟩
      exact ⟨hpart, handles_begin J p, rfl, fun b => hp.unopened x p b hun⟩
    · cases h
  | send x p =>
    refine .inr (.inl ⟨hp.send h, ?_⟩)
    have h : e.send J x p = some e' := h
    unfold Exchange.send at h
    split at h
    · next handler rest hpush =>
      have hold : e.push x p ≠ .closed := by simp [hpush]
      split at h
      · cases h
      split at h <;> cases h <;> exact streamed_setPush hold
    · cases h
  | close x p =>
    refine .inr (.inl ⟨hp.close h, ?_⟩)
    have h : e.close J x p = some e' := h
    unfold Exchange.close at h
    split at h
    · next handler rest hpush =>
      have hold : e.push x p ≠ .closed := by simp [hpush]
      split at h
      · cases h
      split at h
      · cases h
        exact streamed_endStream hold fun _ => .inl rfl
      split at h <;> cases h
      · exact streamed_endStream hold fun _ => .inl rfl
      · exact streamed_setPush hold
    · cases h
  | abort x p =>
    refine .inr (.inl ⟨hp.abort h, ?_⟩)
    have h : e.abort x p = some e' := h
    unfold Exchange.abort at h
    split at h
    · next handler rest hpush =>
      cases h
      refine streamed_endStream (by simp [hpush]) fun hjob => .inr ⟨rfl, ?_⟩
      rw [hpush]
      exact decide_eq_false hjob
    · cases h
  | lose x p =>
    have h : exchange J e (.lose x p) = some e' := h
    rw [exchange] at h
    split at h
    · next handler rest hpush =>
      cases h
      have hold : e.push x p ≠ .closed := by simp [hpush]
      have howner := hp.owner x p (by simp [hpush])
      exact .inr (.inl ⟨hp.setPush hold ⟨by simp, by simp⟩ howner (by rintro _ _ ⟨⟩),
        streamed_setPush hold⟩)
    · cases h
  | report x s lease now locked => exact .inr (.inr ⟨x, s, lease, now, locked, rfl, h⟩)

/-- What every state of a run satisfies. -/
structure Exchanged (J : MapJob) (e : Exchange) : Prop where
  pushes : Pushes J e
  reports : Reports J e.committed e.world.db
  closed : ∀ c ∈ e.committed, ∀ p ∈ J.partitions c.2, e.push c.2 p = .closed

theorem exchanged_initial (J : MapJob) (q : Option Nat) : Exchanged J (.initial q) :=
  ⟨pushes_initial J q, ⟨.nil, nofun, nofun, rfl, nofun⟩, nofun⟩

theorem owner_changes {now : Time} {db db' : DB} {cs : List Change} (hcs : Changes now db cs db')
    (h : (db.mapTaskOf j x).isSome = true) : (db'.mapTaskOf j x).isSome = true := by
  obtain ⟨t, ht⟩ := Option.isSome_iff_exists.mp h
  refine hcs.keeps (I := fun d => (d.mapTaskOf j x).isSome = true) ?_ h
  rintro d c _ _ hd
  obtain ⟨t', ht'⟩ := Option.isSome_iff_exists.mp hd
  rw [mapTaskOf_apply c now ht']
  rfl

theorem exchanged_step (he : Exchanged J e) (h : Exchanges J e a e') : Exchanged J e' := by
  obtain ⟨l, w, rfl, hf, hw, rfl⟩ | ⟨hp, hs⟩ | ⟨x, s, lease, now, locked, rfl, hr⟩ :=
    exchange_cases he.pushes h
  · obtain ⟨_, _, _, hcs, _⟩ := step_changes hw
    exact ⟨he.pushes.congr rfl rfl rfl fun _ => owner_changes hcs, he.reports.cluster hw hf,
      he.closed⟩
  · refine ⟨hp, ?_, fun c hc p hpart => ?_⟩
    · rw [hs.committed, hs.world]
      exact he.reports
    · exact hs.closed _ _ (he.closed c (hs.committed ▸ hc) p hpart)
  · obtain ⟨t, hmap, hclosed, hserver, hpush, hstored, ⟨hdb, hcom⟩ | ⟨hcom, tail, hcs, htail⟩⟩ :=
      report_cases hr
    · refine ⟨he.pushes.congr hserver hpush hstored fun _ => by rw [hdb]; exact id, ?_, ?_⟩
      · rw [hcom, hdb]
        exact he.reports
      · rw [hcom, hpush]
        exact he.closed
    · refine ⟨he.pushes.congr hserver hpush hstored fun _ => owner_changes hcs, ?_, ?_⟩
      · cases hcs with
        | cons hstep hrest =>
          obtain ⟨hg, rfl⟩ := hstep
          rw [hcom]
          refine Changes.keeps hrest (I := Reports J (e.committed ++ [(t, x)])) ?_
            (he.reports.complete hg hmap)
          rintro d c hc hg hd
          exact hd.apply hg fun t x lease skew rows heq =>
            absurd heq ((htail c hc).not_complete t x lease skew rows)
      · rw [hcom, hpush]
        intro c hc p hpart
        rcases List.mem_append.mp hc with hc | hc
        · exact he.closed c hc p hpart
        · cases List.mem_singleton.mp hc
          exact hclosed p hpart

/-- The attempt is the current one of its Map task, which is In-Progress. -/
def DB.isCurrent (db : DB) (j x : UUID) : Prop :=
  ∃ t ∈ db.mapTaskOf j x, ∃ row ∈ db.tasks.get? t,
    row.status = .inProgress ∧ row.currentAttemptID = some x

instance (db : DB) (j x : UUID) : Decidable (db.isCurrent j x) := by
  unfold DB.isCurrent
  infer_instance

/-- A stream is stored only while its attempt is current, and a task with a stored stream is
not assigned again. -/
def pushedOnce (J : MapJob) (e : Exchange) : Act → Prop
  | .close x _ => e.world.db.isCurrent J.jobID x
  | .abort x p => (e.push x p).unsent = true ∨ e.world.db.isCurrent J.jobID x
  | .cluster l => Unretried J e.stored e.world.db l
  | _ => True

instance (J : MapJob) (e : Exchange) (a : Act) : Decidable (pushedOnce J e a) := by
  unfold pushedOnce
  split <;> infer_instance

theorem pushedOnce.current (hok : pushedOnce J e a)
    (h : a = .close x p ∨ a = .abort x p ∧ (e.push x p).unsent = false) :
    e.world.db.isCurrent J.jobID x := by
  rcases h with rfl | ⟨rfl, hsent⟩
  · exact hok
  · exact hok.resolve_left (by rw [hsent]; nofun)

theorem owned_step (he : Exchanged J e) (ho : Owned J e.stored e.committed e.world.db)
    (h : Exchanges J e a e') (hok : pushedOnce J e a) :
    Owned J e'.stored e'.committed e'.world.db := by
  obtain ⟨l, w, rfl, hf, hw, rfl⟩ | ⟨_, hs⟩ | ⟨x, s, lease, now, locked, rfl, hr⟩ :=
    exchange_cases he.pushes h
  · exact ho.cluster hw hf hok
  · rw [hs.world, hs.committed]
    obtain ⟨ys, hys, hnew⟩ := hs.stored
    intro s hmem
    rw [hys] at hmem
    rcases List.mem_append.mp hmem with hold | hmem
    · exact ho s hold
    · obtain ⟨t, hmap, row, hrow, hrun, hcur⟩ := hok.current (hnew s hmem)
      refine ⟨t, row, hmap, hrow, fun _ => hcur, fun hdone => ?_⟩
      rw [hrun] at hdone
      cases hdone
  · obtain ⟨t, _, _, _, _, hstored, ⟨hdb, hcom⟩ | ⟨hcom, tail, hcs, htail⟩⟩ := report_cases hr
    · rw [hstored, hcom, hdb]
      exact ho
    · rw [hstored, hcom]
      cases hcs with
      | cons hstep hrest =>
        obtain ⟨hg, rfl⟩ := hstep
        refine Changes.keeps hrest (I := Owned J e.stored (e.committed ++ [(t, x)])) ?_
          (ho.complete hg)
        rintro d c hc hg hd
        refine hd.apply hg (fun t x lease skew rows heq =>
          absurd heq ((htail c hc).not_complete t x lease skew rows)) ?_
        rintro t a r rfl
        exact (htail _ hc).elim

/-- The blobs that GetShuffleData delivers for a partition. -/
def Exchange.delivered (J : MapJob) (e : Exchange) (p : Nat) : List Bytes :=
  match e.server.getShuffleData J.worker.sha256Hex (toString J.jobID) p with
  | .ok chunks => (streamSegments chunks).map Prod.fst
  | .error _ => []

theorem delivered_eq (J : MapJob) (e : Exchange) (p : Nat) :
    e.delivered J p =
      (e.server.blobs (toString J.jobID) p).filter fun blob => !blob.isEmpty := by
  unfold Exchange.delivered
  cases hdata : e.server.data (toString J.jobID) with
  | none =>
    rw [ShuffleServer.getShuffleData, ShuffleServer.blobs, hdata]
    rfl
  | some parts =>
    obtain ⟨chunks, hok, hsegs⟩ := ShuffleServer.getShuffleData_ok (s := e.server)
      J.worker.sha256Hex (j := toString J.jobID) (by rw [hdata]; rfl) p
    rw [hok]
    show (streamSegments chunks).map Prod.fst = _
    rw [streamSegments, hsegs, List.map_map]
    exact List.map_id _

/-- The attempts whose streams for the partition are stored are the committed ones that have
records for it. -/
theorem stored_perm (he : Exchanged J e) (p : Nat)
    (hmem : ∀ x, (∃ b, (x, p, b) ∈ e.stored) ↔ ∃ t, (t, x) ∈ e.committed ∧ p ∈ J.partitions x) :
    ((e.stored.filter fun s => decide (s.2.1 = p)).map fun s => s.1).Perm
      ((e.committed.filter fun c => decide (p ∈ J.partitions c.2)).map fun c => c.2) := by
  have hkeys : ((e.stored.filter fun s => decide (s.2.1 = p)).map fun s => (s.1, s.2.1)).Nodup :=
    he.pushes.once.sublist (List.filter_sublist.map _)
  have hstored : ((e.stored.filter fun s => decide (s.2.1 = p)).map fun s => s.1).Nodup := by
    refine List.Nodup.map_on (fun s hs s' hs' heq => ?_) (List.Nodup.of_map _ hkeys)
    have hp := of_decide_eq_true (List.mem_filter.mp hs).2
    have hp' := of_decide_eq_true (List.mem_filter.mp hs').2
    exact List.inj_on_of_nodup_map hkeys hs hs' (Prod.ext heq (hp.trans hp'.symm))
  have hcommitted : ((e.committed.filter fun c => decide (p ∈ J.partitions c.2)).map
      fun c => c.2).Nodup := by
    refine List.Nodup.map_on (fun c hc c' hc' heq => ?_)
      ((List.Nodup.of_map _ he.reports.once).filter _)
    -- an attempt has one task
    have hmap := (he.reports.task c (List.mem_filter.mp hc).1).1
    have hmap' := (he.reports.task c' (List.mem_filter.mp hc').1).1
    rw [heq] at hmap
    exact Prod.ext (Option.some.inj (hmap.symm.trans hmap')) heq
  refine (List.perm_ext_iff_of_nodup hstored hcommitted).mpr fun x => ?_
  simp only [List.mem_map, List.mem_filter, decide_eq_true_eq]
  constructor
  · rintro ⟨⟨_, _, b⟩, ⟨hs, rfl⟩, rfl⟩
    obtain ⟨t, hc, hpart⟩ := (hmem _).mp ⟨b, hs⟩
    exact ⟨(t, _), ⟨hc, hpart⟩, rfl⟩
  · rintro ⟨⟨t, _⟩, ⟨hc, hpart⟩, rfl⟩
    obtain ⟨b, hs⟩ := (hmem _).mpr ⟨t, hc, hpart⟩
    exact ⟨_, ⟨hs, rfl⟩, rfl⟩

/-- When all stored streams are those of committed attempts, the reader of a partition gets
what these attempts have written for it, in the order in which the streams were stored. -/
theorem delivered_stored (he : Exchanged J e)
    (hmem : ∀ s ∈ e.stored, ∃ t, (t, s.1) ∈ e.committed) (p : Nat) :
    e.delivered J p =
      ((e.stored.filter fun s => decide (s.2.1 = p)).map fun s => s.1).map (J.payload · p) := by
  have hblobs : e.server.blobs (toString J.jobID) p =
      ((e.stored.filter fun s => decide (s.2.1 = p)).map fun s => s.1).map (J.payload · p) := by
    rw [he.pushes.blobs, List.map_map]
    refine List.map_congr_left fun s hs => ?_
    obtain ⟨hst, hp⟩ := List.mem_filter.mp hs
    obtain ⟨x, p', b⟩ := s
    cases of_decide_eq_true hp
    obtain ⟨t, hc⟩ := hmem _ hst
    exact he.pushes.stored_closed (he.closed _ hc _ (he.pushes.partition _ _ _ hst)) hst
  rw [delivered_eq, hblobs]
  refine List.filter_eq_self.mpr fun b hb => ?_
  obtain ⟨x, hx, rfl⟩ := List.mem_map.mp hb
  obtain ⟨s, hs, rfl⟩ := List.mem_map.mp hx
  obtain ⟨hst, hp⟩ := List.mem_filter.mp hs
  cases of_decide_eq_true hp
  rw [List.isEmpty_eq_false_iff.mpr (MapJob.payload_ne_nil (he.pushes.partition _ _ _ hst))]
  rfl

/-- After the Map phase the committed attempts are those of the Map tasks. -/
theorem committed_iff (he : Exchanged J e) (hdone : e.world.db.MapsDone J.jobID) (t : UUID) :
    t ∈ e.committed.map Prod.fst ↔ e.world.db.isMapOf J.jobID t = true := by
  constructor
  · intro ht
    obtain ⟨c, hc, rfl⟩ := List.mem_map.mp ht
    obtain ⟨_, _, _, htask⟩ := mapTaskOf_eq_some (he.reports.task c hc).1
    exact htask
  · intro ht
    obtain ⟨row, hrow, hj, hty⟩ := isMapOf_iff.mp ht
    exact he.reports.all t row hrow hj hty (hdone t row hrow hj hty)

/-- The blobs of a partition are then what the committed attempts with records for it have
written. -/
theorem delivered_committed (he : Exchanged J e) (ho : Owned J e.stored e.committed e.world.db)
    (hdone : e.world.db.MapsDone J.jobID) (p : Nat) :
    ∃ xs : List UUID, e.delivered J p = xs.map (J.payload · p) ∧
      xs.Perm ((e.committed.filter fun c => decide (p ∈ J.partitions c.2)).map fun c => c.2) := by
  have hcommitted : ∀ y ∈ e.stored, ∃ t, (t, y.1) ∈ e.committed := by
    intro y hy
    obtain ⟨t, row, hmap, hrow, _, hcom⟩ := ho y hy
    obtain ⟨_, _, _, htask⟩ := mapTaskOf_eq_some hmap
    obtain ⟨row', hrow', hj, hty⟩ := isMapOf_iff.mp htask
    cases hrow.symm.trans hrow'
    exact ⟨t, hcom (hdone t row hrow hj hty)⟩
  refine ⟨_, delivered_stored he hcommitted p, stored_perm he p fun x => ⟨?_, ?_⟩⟩
  · rintro ⟨b, hs⟩
    obtain ⟨t, hc⟩ := hcommitted _ hs
    exact ⟨t, hc, he.pushes.partition _ _ _ hs⟩
  · rintro ⟨t, hc, hpart⟩
    exact ⟨_, he.pushes.closed x p (he.closed _ hc p hpart)⟩

/-- In every run whose steps meet the condition: once all Map tasks of the job are Completed,
each one has one committed attempt, and GetShuffleData delivers for a partition exactly what
the committed attempts with records for it have written, each one once. -/
theorem shuffle_exactly_once {J : MapJob} {q : Option Nat} {as : List Act} {e : Exchange}
    (h : Run (Under (Exchanges J) (pushedOnce J)) (.initial q) as e)
    (hdone : e.world.db.MapsDone J.jobID) :
    (e.committed.map Prod.fst).Nodup ∧
    (∀ t, t ∈ e.committed.map Prod.fst ↔ e.world.db.isMapOf J.jobID t = true) ∧
    (∀ c ∈ e.committed, e.world.db.mapTaskOf J.jobID c.2 = some c.1) ∧
    ∀ p, (e.delivered J p).Perm
      ((e.committed.filter fun c => decide (p ∈ J.partitions c.2)).map
        fun c => J.payload c.2 p) := by
  obtain ⟨he, ho⟩ := h.invariant
    (I := fun e => Exchanged J e ∧ Owned J e.stored e.committed e.world.db)
    (fun _ _ _ hi hs => ⟨exchanged_step hi.1 hs.1, owned_step hi.1 hi.2 hs.1 hs.2⟩)
    ⟨exchanged_initial J q, nofun⟩
  refine ⟨he.reports.once, committed_iff he hdone, fun c hc => (he.reports.task c hc).1,
    fun p => ?_⟩
  obtain ⟨xs, hxs, hperm⟩ := delivered_committed he ho hdone p
  have hmap := hperm.map (J.payload · p)
  rw [List.map_map (f := fun c : UUID × UUID => c.2)] at hmap
  rwa [hxs]

end Exchanges

/-! ## 4. A retried attempt -/

theorem mapsDone_iff {db : DB} : db.MapsDone j ↔
    ∀ row ∈ db.tasks.rows, row.jobID = j → row.taskType = .map → row.status = .completed := by
  constructor
  · exact fun h row hrow => h row.taskID row (Table.mem_rows_iff.mp hrow)
  · exact fun h t row hrow => h row (Table.mem_of_get? hrow)

instance (db : DB) (j : UUID) : Decidable (db.MapsDone j) :=
  decidable_of_iff _ mapsDone_iff.symm

/-- The Map tasks of `smallJob`: attempt 12 emits the line "b", the others the line "a". -/
def smallMap : MapJob :=
  ⟨1, 1, shuffleWorker, fun x => if x = 12 then [[98]] else [[97]], by decide, shuffleWorker_pushes⟩

/-- Attempt 10 is reaped while its stream is open. Its task is assigned again as attempt 11, the
other one as attempt 12; both push and report. -/
def smallRetried : List Act :=
  (smallStart ++ [calling (.getNextTask soloReplica 1 "worker" 10 20) 2]).map .cluster ++
    [.openPush 10 0,
      .cluster (calling (.failStaleTasks soloReplica (fun _ => none) (40 * second)) (40 * second)),
      .cluster (calling (.getNextTask soloReplica 1 "worker" 11 21) (41 * second)),
      .cluster (calling (.getNextTask soloReplica 1 "worker" 12 22) (41 * second)),
      .openPush 11 0, .openPush 12 0, .close 12 0, .close 11 0,
      .report 11 soloReplica 21 (42 * second) fun _ => false,
      .report 12 soloReplica 22 (42 * second) fun _ => false]

theorem shuffle_exactly_once_pair :
    ∃ e, Run (Under (Exchanges smallMap) (pushedOnce smallMap)) (.initial none) smallRetried e ∧
      e.world.db.MapsDone 1 ∧ e.committed = [(2, 11), (3, 12)] ∧
      (e.delivered smallMap 0).Perm [[97, 10], [98, 10]] := by
  obtain ⟨e, he, hdone, hcom, hpayload⟩ := (run_toUnder (by decide +kernel) :
    ∃ e, Run (Under (Exchanges smallMap) (pushedOnce smallMap)) (.initial none) smallRetried e ∧
      e.world.db.MapsDone 1 ∧ e.committed = [(2, 11), (3, 12)] ∧
      ((e.committed.filter fun c => decide (0 ∈ smallMap.partitions c.2)).map
        fun c => smallMap.payload c.2 0) = [[97, 10], [98, 10]])
  have hperm := (shuffle_exactly_once he hdone).2.2.2 0
  rw [hpayload] at hperm
  exact ⟨e, he, hdone, hcom, hperm⟩

/-- The Map task of `pairJob`, every attempt of which emits the line "a". -/
def pairMap : MapJob :=
  ⟨1, 2, shuffleWorker, fun _ => [[97]], by decide, shuffleWorker_pushes⟩

/-- The worker stops after its push and before its report; the reaper releases the task,
and it is assigned again. -/
def pairRetried : List Act :=
  pairStart.map .cluster ++
    [.openPush 10 0, .close 10 0,
      .cluster (calling (.failStaleTasks soloReplica (fun _ => none) (40 * second)) (40 * second)),
      .cluster (calling (.getNextTask soloReplica 1 "worker" 11 21) (41 * second)),
      .openPush 11 0, .close 11 0, .report 11 soloReplica 21 (42 * second) fun _ => false]

/-- Both attempts have pushed the record, and the second one is committed. -/
theorem pushed_twice :
    ∃ e, Run (Exchanges pairMap) (.initial none) pairRetried e ∧
      e.world.db.MapsDone 1 ∧ e.committed = [(2, 11)] ∧
      pairMap.payload 11 0 = [97, 10] ∧ e.delivered pairMap 0 = [[97, 10], [97, 10]] :=
  run_to (by decide)

end KubeMapReduce
