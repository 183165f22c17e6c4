import KubeMapReduce.ReduceTask
import KubeMapReduce.Routing

/-!
# The output object of a Reduce task

An attempt of a Reduce task uploads its output and then reports it with CompleteTask. The
report is fenced, the upload is not: the key of the object depends on the job and the
partition only, so an attempt that has been reaped replaces the object of the committed one.

* `runReduce_cases`: what an attempt uploads and reports.
* `Uploaded`: what the object holds, while the task is In-Progress and afterwards.
* `output_kept`: the object of a committed output keeps its checksum, in a run in which only
  current attempts upload. `output_replaced` is a run in which a reaped attempt does.
-/

namespace KubeMapReduce

open Tables Runs

/-! ## 1. What an attempt does -/

/-- A Reduce task, with what its attempts find when they run. -/
structure ReduceJob where
  taskID : UUID
  worker : Worker
  assignment : ReduceAssignment
  code : UUID → ReduceCode
  chunks : UUID → List ShuffleDataChunk
  failure : UUID → Option Status

/-- runReduce in an attempt. -/
def ReduceJob.run (R : ReduceJob) (x : UUID) : ReduceRun :=
  runReduce R.worker (R.code x) R.assignment (R.chunks x) (R.failure x)

section RunReduce

variable {w : Worker} {code : ReduceCode} {a : ReduceAssignment} {chunks : List ShuffleDataChunk}
  {failure : Option Status}

theorem putOutput_cases (w : Worker) (code : ReduceCode) (a : ReduceAssignment) (what : String)
    (content : Bytes) :
    (∃ e, putOutput w code a what content = ([], .error e)) ∨
      putOutput w code a what content =
        ([(a.outputKey, content)], .ok ([a.outputURI], [w.sha256Hex content])) := by
  unfold putOutput
  split
  · exact .inl ⟨_, rfl⟩
  · exact .inr rfl

/-- An attempt uploads nothing, or one object under the key of the partition; what it reports
is this object. -/
theorem runReduce_cases :
    (runReduce w code a chunks failure).stored = [] ∧
      (∀ out, (runReduce w code a chunks failure).result ≠ .ok out) ∨
    ∃ content, (runReduce w code a chunks failure).stored = [(a.outputKey, content)] ∧
      ∀ out, (runReduce w code a chunks failure).result = .ok out →
        out = ([a.outputURI], [w.sha256Hex content]) := by
  unfold runReduce
  split
  · exact .inl ⟨rfl, nofun⟩
  · obtain ⟨e, he⟩ | hput := putOutput_cases w code a "empty output" []
    · rw [he]
      exact .inl ⟨rfl, nofun⟩
    · rw [hput]
      exact .inr ⟨_, rfl, fun _ h => (Except.ok.inj h).symm⟩
  · split
    · exact .inl ⟨rfl, nofun⟩
    split
    · exact .inl ⟨rfl, nofun⟩
    next stdout exit _ =>
    obtain ⟨e, he⟩ | hput := putOutput_cases w code a "output" stdout
    · rw [he]
      cases exit <;> exact .inl ⟨rfl, nofun⟩
    · rw [hput]
      cases exit with
      | some _ => exact .inr ⟨_, rfl, nofun⟩
      | none => exact .inr ⟨_, rfl, fun _ h => (Except.ok.inj h).symm⟩

end RunReduce

/-! ## 2. Steps -/

structure Uploads where
  world : World
  /-- The objects of the output bucket, by their keys. -/
  objects : String → Option Bytes
  /-- The attempts of the task whose PutObject has taken effect. -/
  uploaded : List UUID

namespace Uploads

def initial (maxConcurrentPods : Option Nat) : Uploads :=
  ⟨World.initial maxConcurrentPods, fun _ => none, []⟩

/-- PutObject replaces the object. -/
def put (objects : String → Option Bytes) (stored : List (String × Bytes)) :
    String → Option Bytes :=
  stored.foldl (fun objects o => Function.update objects o.1 (some o.2)) objects

/-- The attempt reports what runReduce has returned. -/
def report (R : ReduceJob) (u : Uploads) (x : UUID) (s : Scheduler) (lease : UUID) (now : Time)
    (locked : Resource → Bool) : Option Uploads :=
  match (R.run x).result with
  | .error _ => none
  | .ok (us, cks) =>
    if x ∈ u.uploaded then
      (next u.world (.call (.completeTask s R.taskID x lease us cks) now locked)).map
        fun w => { u with world := w }
    else none

end Uploads

inductive Upload where
  /-- A step of the cluster that is not the report of the task. -/
  | cluster (a : Label)
  /-- The PutObject of an attempt of the task takes effect. -/
  | upload (x : UUID)
  | report (x : UUID) (s : Scheduler) (lease : UUID) (now : Time) (locked : Resource → Bool)

/-- The step reports another task, or none. -/
def ReportsNot (t : UUID) : Label → Prop
  | .call (.completeTask _ t' _ _ _ _) _ _ => t' ≠ t
  | _ => True

instance (t : UUID) (a : Label) : Decidable (ReportsNot t a) := by
  induction a using Label.casesOn with
  | call c => induction c using Call.casesOn <;> dsimp only [ReportsNot] <;> infer_instance
  | _ => exact instDecidableTrue

def upload (R : ReduceJob) (u : Uploads) : Upload → Option Uploads
  | .cluster a =>
    if ReportsNot R.taskID a then (next u.world a).map fun w => { u with world := w } else none
  | .upload x =>
    if (u.world.db.attempts.get? x).map AttemptRow.taskID = some R.taskID ∧ x ∉ u.uploaded then
      some { u with
        objects := Uploads.put u.objects (R.run x).stored
        uploaded := u.uploaded ++ [x] }
    else none
  | .report x s lease now locked => u.report R x s lease now locked

abbrev UploadStep (R : ReduceJob) : Uploads → Upload → Uploads → Prop := Steps (upload R)

/-! ## 3. The object -/

section Object

variable {R : ReduceJob} {objects : String → Option Bytes} {uploaded : List UUID} {db : DB}
  {now : Time} {c : Change}

/-- The object is that of the current attempt, once it has uploaded, and that of the output
rows, once there are any. -/
structure Uploaded (R : ReduceJob) (objects : String → Option Bytes) (uploaded : List UUID)
    (db : DB) : Prop where
  known : ∀ x ∈ uploaded, ∃ a, db.attempts.get? x = some a
  current : ∀ row y content, db.tasks.get? R.taskID = some row → row.status = .inProgress →
    row.currentAttemptID = some y → y ∈ uploaded →
    (R.run y).stored = [(R.assignment.outputKey, content)] →
    objects R.assignment.outputKey = some content
  rows : ∀ o ∈ db.outputsOf R.taskID,
    (∃ row, db.tasks.get? R.taskID = some row ∧ row.status = .completed) ∧
    o.outputURI = R.assignment.outputURI ∧
    (objects R.assignment.outputKey).map R.worker.sha256Hex = some o.checksum

namespace Uploaded

theorem known_apply (h : Uploaded R objects uploaded db) (c : Change) (now : Time) :
    ∀ x ∈ uploaded, ∃ a, (c.apply now db).attempts.get? x = some a := by
  intro x hx
  obtain ⟨a, ha⟩ := h.known x hx
  obtain ⟨a', ha', _⟩ := c.attempt_apply now ha
  exact ⟨a', ha'⟩

/-- A change that does not report the task. -/
theorem apply (h : Uploaded R objects uploaded db) (hg : c.Guard now db)
    (hc : ∀ x lease skew rows, c ≠ .complete R.taskID x lease skew rows) :
    Uploaded R objects uploaded (c.apply now db) := by
  refine ⟨h.known_apply c now, fun row' y content hrow' hs hcur hy hstored => ?_, fun o ho => ?_⟩
  · obtain ⟨b, hb⟩ := h.known y hy
    exact h.current row' y content (Change.current_cases hg hb hrow' hs hcur) hs hcur hy hstored
  · rw [DB.outputsOf, apply_outputs, List.filter_append] at ho
    rcases List.mem_append.mp ho with ho | ho
    · obtain ⟨⟨row, hrow, hdone⟩, hobj⟩ := h.rows o ho
      exact ⟨⟨row, completed_apply hg hrow hdone, hdone⟩, hobj⟩
    · obtain ⟨ho, ht⟩ := List.mem_filter.mp ho
      cases c with
      | complete t x lease skew rows =>
        have ht : t = R.taskID := (hg.1 o ho).symm.trans (of_decide_eq_true ht)
        subst ht
        exact absurd rfl (hc x lease skew rows)
      | _ => cases ho

/-- The report of an attempt that has uploaded. -/
theorem complete {x lease : UUID} {skew : Nat} {us cks : List String}
    (h : Uploaded R objects uploaded db) (hx : x ∈ uploaded)
    (hrun : (R.run x).result = .ok (us, cks))
    (hg : (Change.complete R.taskID x lease skew (outputRows R.taskID us cks)).Guard now db) :
    Uploaded R objects uploaded
      ((Change.complete R.taskID x lease skew (outputRows R.taskID us cks)).apply now db) := by
  obtain ⟨_, row, att, hcur, _⟩ := id hg
  have hdone := complete_task hcur lease skew (outputRows R.taskID us cks) now
  refine ⟨h.known_apply _ now, fun row' y content hrow' hs => ?_, fun o ho => ?_⟩
  · cases hdone.symm.trans hrow'
    cases hs
  · rw [DB.outputsOf, apply_outputs, List.filter_append] at ho
    rcases List.mem_append.mp ho with ho | ho
    · obtain ⟨⟨row', hrow', hs⟩, _⟩ := h.rows o ho
      cases hrow'.symm.trans hcur.task
      cases hs.symm.trans hcur.status
    · refine ⟨⟨_, hdone, rfl⟩, ?_⟩
      rcases runReduce_cases (w := R.worker) (a := R.assignment) with ⟨_, hno⟩ | ⟨content, hst, hok⟩
      · exact absurd hrun (hno _)
      · cases hok _ hrun
        have hrow : o = ⟨R.taskID, some 0, R.assignment.outputURI, R.worker.sha256Hex content⟩ :=
          List.mem_singleton.mp (List.mem_filter.mp ho).1
        rw [h.current row x content hcur.task hcur.status hcur.current hx hst, hrow]
        exact ⟨rfl, rfl⟩

end Uploaded

end Object

/-! ## 4. Runs -/

section Runs

variable {R : ReduceJob} {u u' : Uploads} {a : Upload}

/-- An attempt uploads only while it is the current one of the task, which is In-Progress. -/
def uploadsFenced (R : ReduceJob) (u : Uploads) : Upload → Prop
  | .upload x => ∃ row ∈ u.world.db.tasks.get? R.taskID,
      row.status = .inProgress ∧ row.currentAttemptID = some x
  | _ => True

instance (R : ReduceJob) (u : Uploads) (a : Upload) : Decidable (uploadsFenced R u a) := by
  unfold uploadsFenced
  split <;> infer_instance

theorem uploaded_upload {x : UUID} (h : Uploaded R u.objects u.uploaded u.world.db)
    (hok : uploadsFenced R u (.upload x))
    (hx : (u.world.db.attempts.get? x).map AttemptRow.taskID = some R.taskID) :
    Uploaded R (Uploads.put u.objects (R.run x).stored) (u.uploaded ++ [x]) u.world.db := by
  obtain ⟨row, hrow, hrun, hcur⟩ := hok
  refine ⟨fun y hy => ?_, fun row' y content hrow' _ hcur' _ hstored => ?_, fun o ho => ?_⟩
  · rcases List.mem_append.mp hy with hy | hy
    · exact h.known y hy
    · obtain ⟨att, hatt, _⟩ := Option.map_eq_some_iff.mp hx
      rw [List.mem_singleton.mp hy]
      exact ⟨att, hatt⟩
  · cases hrow'.symm.trans hrow
    cases hcur'.symm.trans hcur
    rw [hstored]
    exact Function.update_self ..
  · obtain ⟨⟨row', hrow', hdone⟩, _⟩ := h.rows o ho
    cases hrow'.symm.trans hrow
    cases hdone.symm.trans hrun

theorem uploaded_step (h : Uploaded R u.objects u.uploaded u.world.db)
    (hs : UploadStep R u a u') (hok : uploadsFenced R u a) :
    Uploaded R u'.objects u'.uploaded u'.world.db := by
  cases a with
  | cluster l =>
    have hs : (if ReportsNot R.taskID l then
      (next u.world l).map fun w => { u with world := w } else none) = some u' := hs
    split at hs
    · next hnot =>
      obtain ⟨w, hw, rfl⟩ := Option.map_eq_some_iff.mp hs
      obtain ⟨now, cs, _, hcs, hm⟩ := step_changes hw
      refine hcs.keeps (I := Uploaded R u.objects u.uploaded) ?_ h
      rintro d c hc hg hd
      refine hd.apply hg fun x lease skew rows he => ?_
      subst he
      obtain ⟨_, _, _, _, _, rfl, _⟩ := hm _ hc
      exact hnot rfl
    · cases hs
  | upload x =>
    have hs : (if (u.world.db.attempts.get? x).map AttemptRow.taskID = some R.taskID ∧
        x ∉ u.uploaded then
      some { u with
        objects := Uploads.put u.objects (R.run x).stored
        uploaded := u.uploaded ++ [x] } else none) = some u' := hs
    split at hs
    · next hx =>
      cases hs
      exact uploaded_upload h hok hx.1
    · cases hs
  | report x s lease now locked =>
    have hs : u.report R x s lease now locked = some u' := hs
    unfold Uploads.report at hs
    split at hs
    · cases hs
    next us cks hrun =>
    split at hs
    · next hx =>
      obtain ⟨w, hw, rfl⟩ := Option.map_eq_some_iff.mp hs
      obtain ⟨_, _, hdb, _⟩ := step_call hw
      show Uploaded R u.objects u.uploaded w.db
      rw [hdb]
      obtain ⟨hsame, _⟩ | ⟨_, _, tail, hcs, htail⟩ :=
        completeTask_perform s R.taskID x lease us cks now locked u.world.db
      · rw [hsame]
        exact h
      · cases hcs with
        | cons hstep hrest =>
          obtain ⟨hg, rfl⟩ := hstep
          refine Changes.keeps hrest (I := Uploaded R u.objects u.uploaded) ?_
            (h.complete hx hrun hg)
          rintro d c hc hg hd
          exact hd.apply hg fun x lease skew rows => (htail c hc).not_complete _ x lease skew rows
    · cases hs

/-- In every run in which only current attempts upload: every committed output row of the task
names the object of its partition, and the object has the checksum of the row. -/
theorem output_kept {R : ReduceJob} {q : Option Nat} {as : List Upload} {u : Uploads}
    (h : Run (Under (UploadStep R) (uploadsFenced R)) (.initial q) as u) :
    ∀ o ∈ u.world.db.outputsOf R.taskID, o.outputURI = R.assignment.outputURI ∧
      (u.objects R.assignment.outputKey).map R.worker.sha256Hex = some o.checksum := by
  have hu := h.invariant (I := fun u => Uploaded R u.objects u.uploaded u.world.db)
    (fun _ _ _ hu hs => uploaded_step hu hs.1 hs.2) ⟨nofun, nofun, nofun⟩
  exact fun o ho => (hu.rows o ho).2

end Runs

/-! ## 5. A reaped attempt -/

/-- The Reduce task of partition 0 of `pairJob`: attempt 11 writes "b", the others "a". -/
def pairReduce : ReduceJob where
  taskID := 3
  worker := shuffleWorker
  assignment := reduceOne
  code x := ⟨fun readers => .ok readers.flatten,
    fun _ => .ok (if x = 11 then [98, 10] else [97, 10], none), fun _ _ => none⟩
  chunks _ := [⟨"1", 0, [97, 10], "", false⟩, ⟨"1", 0, [], "0610a", true⟩]
  failure _ := none

/-- The Map phase is over, and the Reduce task is assigned as attempt 11. -/
def pairReducing : List Upload :=
  (pairStart ++ [reported ["shuffle://1/0", "shuffle://1/1"] ["0610a", "0620a"],
    calling (.getNextTask soloReplica 1 "worker" 11 21) 4]).map .cluster

/-- Attempt 11 is reaped before its upload, and both Reduce tasks are assigned. -/
def pairReaped : List Upload :=
  pairReducing ++
    [.cluster (calling (.failStaleTasks soloReplica (fun _ => none) (40 * second)) (40 * second)),
      .cluster (calling (.getNextTask soloReplica 1 "worker" 12 22) (41 * second)),
      .cluster (calling (.getNextTask soloReplica 1 "other" 13 23) (41 * second))]

/-- The task of partition 1 is completed, and then attempt 12 uploads and reports. -/
def pairKept : List Upload :=
  pairReaped ++
    [.cluster (calling (.completeTask soloReplica 4 13 23
        ["s3://mapreduce-outputs/1/partition-1.jsonl"] ["0620a"]) (42 * second)),
      .upload 12, .report 12 soloReplica 22 (42 * second) fun _ => false]

theorem output_kept_first :
    ∃ u, Run (Under (UploadStep pairReduce) (uploadsFenced pairReduce)) (.initial none) pairKept u ∧
      u.world.db.outputsOf 3 =
        [⟨3, some 0, "s3://mapreduce-outputs/1/partition-0.jsonl", "0610a"⟩] ∧
      (u.objects "1/partition-0.jsonl").map shuffleWorker.sha256Hex = some "0610a" ∧
      (u.world.db.outputsOf 4).length = 1 := by
  obtain ⟨u, hu, hrows, hother⟩ := (run_toUnder (by decide +kernel) :
    ∃ u, Run (Under (UploadStep pairReduce) (uploadsFenced pairReduce)) (.initial none) pairKept u ∧
      u.world.db.outputsOf 3 =
        [⟨3, some 0, "s3://mapreduce-outputs/1/partition-0.jsonl", "0610a"⟩] ∧
      (u.world.db.outputsOf 4).length = 1)
  have hkept := output_kept hu _ (hrows ▸ List.mem_singleton_self _ :
    _ ∈ u.world.db.outputsOf pairReduce.taskID)
  exact ⟨u, hu, hrows, hkept.2, hother⟩

/-- Attempt 11 is reaped before its upload, attempt 12 is committed, and then the upload of
attempt 11 takes effect. -/
theorem output_replaced :
    ∃ u, Run (UploadStep pairReduce) (.initial none)
        (pairReaped ++
          [.upload 12, .report 12 soloReplica 22 (42 * second) fun _ => false, .upload 11]) u ∧
      u.world.db.outputsOf 3 =
        [⟨3, some 0, "s3://mapreduce-outputs/1/partition-0.jsonl", "0610a"⟩] ∧
      (u.objects "1/partition-0.jsonl").map shuffleWorker.sha256Hex = some "0620a" :=
  run_to (by decide)

end KubeMapReduce
