import KubeMapReduce.MapTask
import KubeMapReduce.Phases

/-!
# From a key to its Reduce task

The worker reports the objects of the partitions that have records, and CompleteTask writes
the position in that list into partition_index. The readers of TASK_OUTPUTS take
partition_index for the partition.

* `Commits.outputs`: the output rows of a committed task are those of its report.
* `index_of_initial`, `initial_of_index`: in an ascending list of partitions the position of
  each one is the partition itself exactly when no partition below it is missing.
* `routed_iff`: the records of a job reach their Reduce tasks exactly when no Map task skips
  a partition below one that it has a record for. `empty_partition_skipped` is a Map task
  that does.
-/

namespace KubeMapReduce

open Tables Runs

variable {r : Line × Record} {recs : List (Line × Record)} {cks us : List String} {p : Nat}
  {o : OutputRow}

/-! ## 1. Committed reports -/

/-- Some CompleteTask call of the run has reported these outputs for the task and has
succeeded. -/
def Commits (q : Option Nat) (as : List Label) (t : UUID) (us cks : List String) : Prop :=
  ∃ bs cs v s a lease now locked,
    as = bs ++ .call (.completeTask s t a lease us cks) now locked :: cs ∧
    Run Step (World.initial q) bs v ∧
    (perform (.completeTask s t a lease us cks) now locked v.db).1.result = .ok .done

/-- The output rows of a committed task are those of its report, and it is Completed. -/
theorem Commits.outputs {q : Option Nat} {as : List Label} {w : World} {t : UUID}
    (hc : Commits q as t us cks) (h : Run Step (World.initial q) as w) :
    w.db.outputsOf t = outputRows t us cks ∧
      ∃ row, w.db.tasks.get? t = some row ∧ row.status = .completed := by
  obtain ⟨bs, cs, v, s, a, lease, now, locked, rfl, hbs, hok⟩ := hc
  obtain ⟨v₀, hv₀, hrest⟩ := h.of_append
  cases run_unique hv₀ hbs
  cases hrest with
  | cons hstep hcs =>
    obtain ⟨_, hno⟩ | ⟨hfence, hout, row, hrow, hdone⟩ := completeTask_cases (.of_step hstep)
    · exact absurd hok hno
    have hnil : v.db.outputsOf t = [] := by
      by_contra hne
      have hany := hbs.mono fun _ _ _ => AnyStep.of_step
      obtain ⟨row, hrow, hdone⟩ := completed_of_outputs hany hne
      obtain ⟨row', _, hcur, _⟩ := hfence.current
      cases hrow.symm.trans hcur.task
      cases hdone.symm.trans hcur.status
    obtain ⟨hrow', hout'⟩ := completed_run (hcs.mono fun _ _ _ => AnyStep.of_step) hrow hdone
    refine ⟨?_, row, hrow', hdone⟩
    rw [hout', DB.outputsOf, hout, List.filter_append, outputRows_filter]
    show v.db.outputsOf t ++ _ = _
    rw [hnil, List.nil_append]

theorem mem_outputRows {t : UUID} {objects : List (String × String)} :
    o ∈ outputRows t objects.unzip.1 objects.unzip.2 ↔
      ∃ i x, objects[i]? = some x ∧ o = ⟨t, some i, x.1, x.2⟩ := by
  unfold outputRows
  rw [List.zip_unzip, List.mem_map]
  constructor
  · rintro ⟨⟨x, i⟩, hx, rfl⟩
    exact ⟨i, x, List.mem_zipIdx_iff_getElem?.mp hx, rfl⟩
  · rintro ⟨i, x, hx, rfl⟩
    exact ⟨(x, i), List.mem_zipIdx_iff_getElem?.mpr hx, rfl⟩

/-! ## 2. Positions in an ascending list -/

section Positions

variable {ps : List Nat}

theorem index_le (hs : ps.Pairwise (· < ·)) {i : Nat} (h : ps[i]? = some p) : i ≤ p := by
  induction i generalizing p with
  | zero => exact Nat.zero_le p
  | succ i ih =>
    obtain ⟨hi, rfl⟩ := List.getElem?_eq_some_iff.mp h
    have hprev := ih (List.getElem?_eq_getElem (by omega : i < ps.length))
    have hlt := List.pairwise_iff_getElem.mp hs i (i + 1) (by omega) hi (Nat.lt_succ_self i)
    omega

/-- Without gaps the position of a partition is the partition. -/
theorem index_of_initial (hs : ps.Pairwise (· < ·)) (hinit : ∀ p ∈ ps, ∀ p' < p, p' ∈ ps) {i : Nat}
    (h : ps[i]? = some p) : i = p := by
  induction i using Nat.strong_induction_on generalizing p with
  | _ i ih =>
    refine (index_le hs h).eq_or_lt.resolve_right fun hlt => ?_
    -- otherwise partition i stands before position i, at its own position by induction
    obtain ⟨k, hk⟩ := List.mem_iff_getElem?.mp (hinit p (List.mem_of_getElem? h) i hlt)
    rcases (index_le hs hk).eq_or_lt with rfl | hki
    · cases hk.symm.trans h
      exact hlt.false
    · exact hki.ne (ih k hki hk)

/-- A partition at its own position has no gap below it. -/
theorem initial_of_index (hs : ps.Pairwise (· < ·)) (h : ps[p]? = some p) : ∀ p' < p, p' ∈ ps := by
  induction p with
  | zero => nofun
  | succ p ih =>
    obtain ⟨hp, hget⟩ := List.getElem?_eq_some_iff.mp h
    have hprev := List.getElem?_eq_getElem (by omega : p < ps.length)
    have hlt := List.pairwise_iff_getElem.mp hs p (p + 1) (by omega) hp (Nat.lt_succ_self p)
    have hle := index_le hs hprev
    rw [show ps[p] = p by omega] at hprev
    intro p' hp'
    rcases Nat.lt_succ_iff_lt_or_eq.mp hp' with hp' | rfl
    · exact ih hprev p' hp'
    · exact List.mem_of_getElem? hprev

end Positions

/-! ## 3. Routing -/

/-- The assignment of a Map task, with what the partition phase reads of it. -/
def mapAssignment (R : Nat) (j t : UUID) : TaskAssignment := ⟨toString j, toString t, R⟩

theorem mapAssignment_reducers {R : Nat} (hR : 1 ≤ R) (j t : UUID) :
    (mapAssignment R j t).reducers = R := by
  unfold TaskAssignment.reducers mapAssignment
  dsimp only
  split <;> omega

/-- The Map tasks of the job have run: each one has emitted these lines, and its report has
been committed. -/
structure MapPhase (worker : Worker) (R : Nat) (j : UUID) (emitted : UUID → List Line)
    (q : Option Nat) (as : List Label) (w : World) : Prop where
  reducers : 1 ≤ R
  run : Run Step (World.initial q) as w
  committed : ∀ t, w.db.isMapOf j t = true → ∃ us cks,
    runMap worker (mapAssignment R j t) (emitted t) = .ok (us, cks) ∧ Commits q as t us cks

/-- The object with this URI and checksum, of this task, holds the line. -/
def HeldIn (worker : Worker) (a : TaskAssignment) (lines : List Line) (object : String × String)
    (line : Line) : Prop :=
  ∃ pw, Wrote worker a lines pw ∧ pw.close worker = object ∧ line ∈ pw.written

/-- Every record reaches the Reduce task of its key. -/
structure Routed (worker : Worker) (R : Nat) (j : UUID) (emitted : UUID → List Line) (db : DB) :
    Prop where
  /-- Each record lies in an object whose row has the partition of its key. -/
  placed : ∀ t, db.isMapOf j t = true → ∀ r ∈ worker.recordsOf (emitted t),
    ∃ o ∈ db.outputsOf t, o.partitionIndex = some (hashPartition r.2.key R) ∧
      HeldIn worker (mapAssignment R j t) (emitted t) (o.outputURI, o.checksum) r.1
  /-- A Reduce task gets exactly the objects that hold a record of its partition. -/
  listed : ∀ rt row env, db.tasks.get? rt = some row → row.jobID = j → ∀ object,
    (∃ ref ∈ (answer (.getReduceTaskInputs rt) env db : List TaskOutputRef),
        (ref.outputURI, ref.checksum) = object) ↔
      ∃ t, db.isMapOf j t = true ∧ ∃ r ∈ worker.recordsOf (emitted t),
        hashPartition r.2.key R = row.replicaIndex ∧
          HeldIn worker (mapAssignment R j t) (emitted t) object r.1
  /-- A Reduce task is completed without running only if its partition has no record. -/
  emptied : ∀ rt row env, db.tasks.get? rt = some row →
    rt ∈ (answer (.completeEmptyReduceTasks j) env db : List UUID) →
      ∀ t, db.isMapOf j t = true → ∀ r ∈ worker.recordsOf (emitted t),
        hashPartition r.2.key R ≠ row.replicaIndex

/-- The partitions of the records have no gap: below each one, every other has a record too. -/
def NoGap (R : Nat) (recs : List (Line × Record)) : Prop :=
  ∀ r ∈ recs, ∀ p < hashPartition r.2.key R, ∃ r' ∈ recs, hashPartition r'.2.key R = p

instance (R : Nat) (recs : List (Line × Record)) : Decidable (NoGap R recs) := by
  unfold NoGap
  infer_instance

section Routing

variable {worker : Worker} {R : Nat} {j : UUID} {emitted : UUID → List Line} {q : Option Nat}
  {as : List Label} {w : World} {t : UUID}

theorem mem_partitionsOf_iff (hR : 1 ≤ R) :
    p ∈ partitionsOf R recs ↔ ∃ r ∈ recs, hashPartition r.2.key R = p := by
  rw [mem_partitionsOf hR]
  constructor
  · intro hne
    obtain ⟨r, hr⟩ := List.exists_mem_of_ne_nil _ hne
    exact ⟨r, mem_bucket.mp hr⟩
  · rintro ⟨r, hr⟩
    exact List.ne_nil_of_mem (mem_bucket.mpr hr)

theorem noGap_iff (hR : 1 ≤ R) :
    NoGap R recs ↔ ∀ p ∈ partitionsOf R recs, ∀ p' < p, p' ∈ partitionsOf R recs := by
  constructor
  · intro h p hp p' hp'
    obtain ⟨r, hr, rfl⟩ := (mem_partitionsOf_iff hR).mp hp
    exact (mem_partitionsOf_iff hR).mpr (h r hr p' hp')
  · intro h r hr p hp
    exact (mem_partitionsOf_iff hR).mp (h _ ((mem_partitionsOf_iff hR).mpr ⟨r, hr, rfl⟩) p hp)

namespace MapPhase

variable (h : MapPhase worker R j emitted q as w)
include h

theorem reducers_eq (t : UUID) : (mapAssignment R j t).reducers = R :=
  mapAssignment_reducers h.reducers j t

theorem mapsDone : w.db.MapsDone j := by
  intro t row hrow hj hty
  obtain ⟨us, cks, _, hc⟩ := h.committed t (by simp [DB.isMapOf, hrow, hj, hty])
  obtain ⟨_, row', hrow', hdone⟩ := hc.outputs h.run
  cases hrow.symm.trans hrow'
  exact hdone

/-- The output rows of a Map task: the object of the `i`-th partition with records, under
`partition_index` `i`. -/
theorem mem_outputsOf (ht : w.db.isMapOf j t = true) :
    o ∈ w.db.outputsOf t ↔
      ∃ i p, (partitionsOf R (worker.recordsOf (emitted t)))[i]? = some p ∧
        o.taskID = t ∧ o.partitionIndex = some i ∧
        (o.outputURI, o.checksum) =
          (objectOf worker (mapAssignment R j t) (emitted t) p).close worker := by
  obtain ⟨us, cks, hmap, hc⟩ := h.committed t ht
  have hout := runMap_outputs hmap
  rw [h.reducers_eq, Prod.ext_iff] at hout
  dsimp only at hout
  rw [(hc.outputs h.run).1, hout.1, hout.2, mem_outputRows]
  refine exists_congr fun i => ?_
  simp only [List.getElem?_map, Option.map_eq_some_iff]
  constructor
  · rintro ⟨x, ⟨p, hp, rfl⟩, rfl⟩
    exact ⟨p, hp, rfl, rfl, rfl⟩
  · rintro ⟨p, hp, rfl, hi, hx⟩
    exact ⟨_, ⟨p, hp, rfl⟩, by rw [← hx]; cases o; cases hi; rfl⟩

/-- A record is held in the object of its partition only. -/
theorem heldIn_iff (ht : w.db.isMapOf j t = true) (hr : r ∈ worker.recordsOf (emitted t))
    {object : String × String} :
    HeldIn worker (mapAssignment R j t) (emitted t) object r.1 ↔
      (objectOf worker (mapAssignment R j t) (emitted t) (hashPartition r.2.key R)).close worker =
        object := by
  obtain ⟨us, cks, hmap, _⟩ := h.committed t ht
  constructor
  · rintro ⟨pw, hpw, rfl, hline⟩
    obtain ⟨p, _, rfl⟩ := (wrote_iff hmap).mp hpw
    rw [mem_written hr, h.reducers_eq] at hline
    rw [hline]
  · rintro rfl
    refine ⟨_, (wrote_iff hmap).mpr ⟨_, ?_, rfl⟩, rfl, (mem_written hr).mpr ?_⟩
    · rw [h.reducers_eq]
      exact (mem_partitionsOf_iff h.reducers).mpr ⟨r, hr, rfl⟩
    · rw [h.reducers_eq]

/-- The row of a record's partition, if there are no gaps. -/
theorem row_of_noGap (ht : w.db.isMapOf j t = true) (hgap : NoGap R (worker.recordsOf (emitted t)))
    (hr : r ∈ worker.recordsOf (emitted t)) :
    ∃ o ∈ w.db.outputsOf t, o.partitionIndex = some (hashPartition r.2.key R) ∧
      HeldIn worker (mapAssignment R j t) (emitted t) (o.outputURI, o.checksum) r.1 := by
  have hp := (mem_partitionsOf_iff h.reducers).mpr ⟨r, hr, rfl⟩
  obtain ⟨i, hi⟩ := List.mem_iff_getElem?.mp hp
  have hip := index_of_initial (partitionsOf_ascending _ _) ((noGap_iff h.reducers).mp hgap) hi
  refine ⟨⟨t, some i, _, _⟩, (h.mem_outputsOf ht).mpr ⟨i, _, hi, rfl, rfl, rfl⟩, ?_,
    (h.heldIn_iff ht hr).mpr rfl⟩
  rw [hip]

/-- The rows that a reader of partition `p` gets. -/
theorem mem_mapOutputs :
    o ∈ w.db.mapOutputs j p ↔
      ∃ t, w.db.isMapOf j t = true ∧ o ∈ w.db.outputsOf t ∧ o.partitionIndex = some p := by
  rw [mapOutputs_of_mapsDone h.mapsDone, DB.reduceInputs, List.mem_filter, Bool.and_eq_true,
    Bool.or_eq_true, decide_eq_true_iff, decide_eq_true_iff]
  constructor
  · rintro ⟨ho, ht, hp⟩
    have hot : o ∈ w.db.outputsOf o.taskID := List.mem_filter.mpr ⟨ho, decide_eq_true rfl⟩
    obtain ⟨i, _, _, _, hi, _⟩ := (h.mem_outputsOf ht).mp hot
    exact ⟨_, ht, hot, hp.resolve_left (by rw [hi]; nofun)⟩
  · rintro ⟨t, ht, ho, hp⟩
    obtain ⟨ho, heq⟩ := List.mem_filter.mp ho
    rw [of_decide_eq_true heq]
    exact ⟨ho, ht, .inr hp⟩

end MapPhase

/-- After the Map phase every record reaches its Reduce task exactly if the partitions of no
Map task have a gap. -/
theorem routed_iff (h : MapPhase worker R j emitted q as w) :
    Routed worker R j emitted w.db ↔
      ∀ t, w.db.isMapOf j t = true → NoGap R (worker.recordsOf (emitted t)) := by
  constructor
  · intro hrouted t ht
    refine (noGap_iff h.reducers).mpr fun p hp => ?_
    obtain ⟨r, hr, rfl⟩ := (mem_partitionsOf_iff h.reducers).mp hp
    obtain ⟨o, ho, hidx, hheld⟩ := hrouted.placed t ht r hr
    obtain ⟨i, p, hi, _, hidx', hclose⟩ := (h.mem_outputsOf ht).mp ho
    cases hidx.symm.trans hidx'
    have huri := ((h.heldIn_iff ht hr).mp hheld).trans hclose
    have hpart : hashPartition r.2.key R = p :=
      close_uri_inj (by rfl) (by rfl) (congrArg Prod.fst huri)
    rw [← hpart] at hi
    exact initial_of_index (partitionsOf_ascending _ _) hi
  · intro hgap
    refine ⟨fun t ht r hr => h.row_of_noGap ht (hgap t ht) hr, ?_, ?_⟩
    · rintro rt row env hrow rfl object
      have hans : (answer (.getReduceTaskInputs rt) env w.db : List TaskOutputRef) =
          (w.db.mapOutputs row.jobID row.replicaIndex).map OutputRow.ref := by
        simp only [answer, hrow]
      rw [hans]
      constructor
      · rintro ⟨ref, href, rfl⟩
        obtain ⟨o, ho, rfl⟩ := List.mem_map.mp href
        obtain ⟨t, ht, hot, hp⟩ := h.mem_mapOutputs.mp ho
        obtain ⟨i, p, hi, _, hidx, hclose⟩ := (h.mem_outputsOf ht).mp hot
        cases hp.symm.trans hidx
        have hip := index_of_initial (partitionsOf_ascending _ _)
          ((noGap_iff h.reducers).mp (hgap t ht)) hi
        obtain ⟨r, hr, hhash⟩ :=
          (mem_partitionsOf_iff h.reducers).mp (List.mem_of_getElem? hi)
        refine ⟨t, ht, r, hr, hhash.trans hip.symm, (h.heldIn_iff ht hr).mpr ?_⟩
        rw [hhash]
        exact hclose.symm
      · rintro ⟨t, ht, r, hr, hhash, hheld⟩
        obtain ⟨o, ho, hidx, hheld'⟩ := h.row_of_noGap ht (hgap t ht) hr
        refine ⟨o.ref, List.mem_map_of_mem (h.mem_mapOutputs.mpr ⟨t, ht, ho, hhash ▸ hidx⟩), ?_⟩
        exact ((h.heldIn_iff ht hr).mp hheld').symm.trans ((h.heldIn_iff ht hr).mp hheld)
    · rintro rt row env hrow hrt t ht r hr hhash
      obtain ⟨row', hmem, hid⟩ := List.mem_map.mp hrt
      obtain ⟨hrow', hwhere⟩ := List.mem_filter.mp hmem
      have hrow' : w.db.tasks.get? row'.taskID = some row' := Table.mem_rows_iff.mp hrow'
      rw [hid, hrow] at hrow'
      cases hrow'
      simp only [Query.taskWhere, Bool.and_eq_true, decide_eq_true_eq, List.isEmpty_iff] at hwhere
      obtain ⟨o, ho, hidx, _⟩ := h.row_of_noGap ht (hgap t ht) hr
      have hmem := h.mem_mapOutputs.mpr ⟨t, ht, ho, hhash ▸ hidx⟩
      rw [← hwhere.1.1.1.1, hwhere.1.2] at hmem
      cases hmem

end Routing

/-! ## 4. A job with one Map task and two Reduce tasks -/

/-- A worker without shuffle service, for lines that are their keys. -/
def plainWorker : Worker where
  hasShuffleClient := false
  blank line := line.all fun b => decide (b = 10 ∨ b = 32)
  decode line := some ⟨String.ofList (line.map fun b => Char.ofNat b.toNat), ""⟩
  sha256Hex _ := "sum"
  blank_newline := rfl

def pairJob : ScheduleJobRequest :=
  { smallJob with
    mTasks := 1
    rTasks := 2
    tasks := [⟨"2", "Map", 0, []⟩, ⟨"3", "Reduce", 0, []⟩, ⟨"4", "Reduce", 1, []⟩] }

def pairStart : List Label :=
  smallStart.dropLast ++ [calling (.scheduleJob soloReplica pairJob) 1,
    calling (.getNextTask soloReplica 1 "worker" 10 20) 2]

/-- The Map task reports these outputs. -/
def reported (us cks : List String) : Label :=
  calling (.completeTask soloReplica 2 10 20 us cks) 3

/-- The Map phase of the job, with the report that runMap makes of these lines. -/
theorem mapPhase_reported {lines : List Line}
    (hmap : runMap plainWorker (mapAssignment 2 1 2) lines = .ok (us, cks)) {P : World → Prop}
    [DecidablePred P] (hbefore : (after pairStart).any (fun v => decide
      ((perform (.completeTask soloReplica 2 10 20 us cks) 3 (fun _ => false) v.db).1.result =
        .ok .done)) = true) (hafter : (after (pairStart ++ [reported us cks])).any (fun w => decide
      ((∀ row ∈ w.db.tasks.rows, row.taskType = .map → row.taskID = 2) ∧ P w)) = true) :
    ∃ w, MapPhase plainWorker 2 1 (fun _ => lines) none (pairStart ++ [reported us cks]) w ∧
      P w := by
  obtain ⟨v, hv, hok⟩ := run_after (P := fun v => (perform
    (.completeTask soloReplica 2 10 20 us cks) 3 (fun _ => false) v.db).1.result =
      .ok .done) hbefore
  obtain ⟨w, hw, honly, hp⟩ := run_after (P := fun w =>
    (∀ row ∈ w.db.tasks.rows, row.taskType = .map → row.taskID = 2) ∧ P w) hafter
  refine ⟨w, ⟨Nat.le_succ 1, hw, fun t ht => ?_⟩, hp⟩
  obtain ⟨row, hrow, hmapRow⟩ := (Option.any_eq_true ..).mp ht
  have hty := of_decide_eq_true (Bool.and_eq_true_iff.mp hmapRow).2
  have ht2 : t = 2 :=
    (Table.key_of_get? hrow).symm.trans (honly row (Table.mem_of_get? hrow) hty)
  rw [ht2]
  exact ⟨us, cks, hmap, pairStart, [], v, _, _, _, _, _, rfl, hv, hok⟩

/-- The keys "a" and "b" go to the partitions 0 and 1. -/
theorem routed_iff_two_keys :
    ∃ as w, MapPhase plainWorker 2 1 (fun _ => [[97], [98]]) none as w ∧
      Routed plainWorker 2 1 (fun _ => [[97], [98]]) w.db := by
  have hmap : runMap plainWorker (mapAssignment 2 1 2) [[97], [98]] =
      .ok (["s3://mapreduce-staging/1/2/partition-0.jsonl",
        "s3://mapreduce-staging/1/2/partition-1.jsonl"], ["sum", "sum"]) := rfl
  obtain ⟨w, hphase, _⟩ := mapPhase_reported hmap (P := fun _ => True) (by decide) (by decide)
  have hgap : NoGap 2 (plainWorker.recordsOf [[97], [98]]) := by decide
  exact ⟨_, w, hphase, (routed_iff hphase).mpr fun _ _ => hgap⟩

/-- The only key, "b", goes to partition 1. Its object is the first of the report, so its row
has partition 0, and the Reduce task of partition 1 is completed as one without input. -/
theorem empty_partition_skipped :
    ∃ as w, MapPhase plainWorker 2 1 (fun _ => [[98]]) none as w ∧
      ¬ Routed plainWorker 2 1 (fun _ => [[98]]) w.db := by
  have hmap : runMap plainWorker (mapAssignment 2 1 2) [[98]] =
      .ok (["s3://mapreduce-staging/1/2/partition-1.jsonl"], ["sum"]) := rfl
  obtain ⟨w, hphase, hmapTask, hrow, hempty⟩ := mapPhase_reported hmap
    (P := fun w => w.db.isMapOf 1 2 = true ∧
      (w.db.tasks.get? 4).map TaskRow.replicaIndex = some 1 ∧
      4 ∈ (answer (.completeEmptyReduceTasks 1) (atomically 3 fun _ => false) w.db : List UUID))
    (by decide) (by decide)
  obtain ⟨row, hrow, hidx⟩ := Option.map_eq_some_iff.mp hrow
  refine ⟨_, w, hphase, fun hrouted => ?_⟩
  have hhash : hashPartition "b" 2 = 1 := by decide
  exact hrouted.emptied 4 row _ hrow hempty 2 hmapTask ([98], ⟨"b", ""⟩) (by decide)
    (hhash.trans hidx.symm)

end KubeMapReduce
