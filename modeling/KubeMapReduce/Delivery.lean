import KubeMapReduce.ExactlyOnce

/-!
# The order of the segments

A Reduce task compares the segments of its stream with the checksums of its assignment by
position. The segments come in the order in which the push streams have ended, the
checksums in the order in which the Map tasks were committed.

* `reduceAssignment`: the assignment of a Reduce task that GetNextTask has handed out.
* `checksums_eq`, `segments_eq`: both lists, when every attempt of a Map task is committed.
* `first_try_iff`: the download succeeds with a reader for every input exactly if the digests
  stand in the same order in both. `pushed_crosswise` is a run in which they do not.
-/

namespace KubeMapReduce

open Tables Runs

/-! ## 1. Assignments -/

/-- The location of an input, with its checksum. -/
def dataLocation (input : TaskOutputRef) : String :=
  if input.checksum ≠ "" then s!"{input.outputURI}#sha256={input.checksum}" else input.outputURI

/-- The assignment of a Reduce task. -/
def reduceAssignment (task : Task) : ReduceAssignment :=
  ⟨toString task.jobID, task.reducePartition, task.shuffleInputs.map dataLocation⟩

/-- Digests are numbers in hex. -/
structure HexDigest (sha256Hex : Bytes → String) : Prop where
  nonempty : ∀ b, sha256Hex b ≠ ""
  digits : ∀ b, ∀ c ∈ (sha256Hex b).toList, c ∈ "0123456789abcdef".toList

namespace HexDigest

variable {sha256Hex : Bytes → String} (h : HexDigest sha256Hex)
include h

theorem splitChecksumURI_dataLocation {input : TaskOutputRef} {b : Bytes}
    (hb : input.checksum = sha256Hex b) :
    splitChecksumURI (dataLocation input) = (input.outputURI, sha256Hex b) := by
  have hfree : '#' ∉ (sha256Hex b).toList := by
    intro hc
    have hdigit := h.digits b '#' hc
    revert hdigit
    decide
  rw [dataLocation, if_pos (by rw [hb]; exact h.nonempty b), hb, splitChecksumURI_append _ _ hfree]

theorem trimSpace_eq (b : Bytes) : trimSpace (sha256Hex b) = sha256Hex b := by
  have hdigits : ("0123456789abcdef".toList.all fun c => !isSpace c) = true := by decide
  have hkeep : ∀ cs : List Char, (∀ c ∈ cs, c ∈ (sha256Hex b).toList) →
      cs.dropWhile isSpace = cs := by
    intro cs hcs
    cases cs with
    | nil => rfl
    | cons c cs =>
      have hc := List.all_eq_true.mp hdigits c (h.digits b c (hcs c List.mem_cons_self))
      exact List.dropWhile_cons_of_neg (by simpa using hc)
  unfold trimSpace
  rw [hkeep _ fun _ hc => hc, hkeep _ fun _ hc => List.mem_reverse.mp hc, List.reverse_reverse,
    String.ofList_toList]

end HexDigest

/-- Segments with the announced digests are accepted. -/
theorem download_of_digests {w : Worker} (hsha : HexDigest w.sha256Hex) {a : ReduceAssignment}
    {chunks : List ShuffleDataChunk} {blobs : List Bytes}
    (hsegs : streamSegments chunks = blobs.map fun b => (b, some (w.sha256Hex b)))
    (hsums : blobs.map w.sha256Hex = a.checksums) :
    downloadShuffleInputsFromService w a chunks none = .ok blobs := by
  refine download_ok_iff.mpr ⟨rfl, ?_, fun i content mark hi => ?_⟩
  · rw [hsegs, List.map_map]
    exact (List.map_id _).symm
  · rw [hsegs, List.getElem?_map] at hi
    obtain ⟨b, hb, heq⟩ := Option.map_eq_some_iff.mp hi
    cases heq
    have hsum : a.checksums[i]? = some (w.sha256Hex content) := by
      rw [← hsums, List.getElem?_map, hb]
      rfl
    rw [checkSegment_ok_iff, getD_checksums hsum, if_neg (hsha.nonempty content), Option.getD_some,
      hsha.trimSpace_eq]
    exact ⟨.inr rfl, rfl⟩

/-! ## 2. The two orders -/

/-- Every attempt of a Map task of the job is its committed one. -/
def FirstTry (J : MapJob) (e : Exchange) : Prop :=
  ∀ x t, e.world.db.mapTaskOf J.jobID x = some t → (t, x) ∈ e.committed

/-- The checksums that the rows with this `partition_index` have, in the order of the
commits. -/
def reportedDigests (J : MapJob) (e : Exchange) (p : Nat) : List String :=
  e.committed.filterMap fun c =>
    (J.partitions c.2)[p]?.map fun p' => J.worker.sha256Hex (J.payload c.2 p')

/-- The digests of what was pushed for the partition, in the order in which the streams
ended. -/
def pushedDigests (J : MapJob) (e : Exchange) (p : Nat) : List String :=
  (e.stored.filter fun s => decide (s.2.1 = p)).map fun s => J.worker.sha256Hex (J.payload s.1 p)

/-- The download of a Reduce task. -/
def Exchange.download (J : MapJob) (e : Exchange) (a : ReduceAssignment) :
    Except String (List Bytes) :=
  match e.server.getShuffleData J.worker.sha256Hex a.jobID a.partitionID with
  | .ok chunks => downloadShuffleInputsFromService J.worker a chunks none
  | .error status => downloadShuffleInputsFromService J.worker a [] (some status)

theorem filter_zipIdx {α : Type} (xs : List α) (p k : Nat) :
    ((xs.zipIdx k).filter fun q => decide (q.2 = k + p)) = xs[p]?.toList.map (·, k + p) := by
  induction xs generalizing p k with
  | nil => rfl
  | cons x xs ih =>
    rw [List.zipIdx_cons, List.filter_cons]
    cases p with
    | zero =>
      have hrest : ((xs.zipIdx (k + 1)).filter fun q => decide (q.2 = k + 0)) = [] := by
        refine List.filter_eq_nil_iff.mpr fun q hq heq => ?_
        have hle := List.le_snd_of_mem_zipIdx hq
        have heq := of_decide_eq_true heq
        omega
      rw [hrest]
      simp
    | succ p =>
      have hne : k ≠ k + (p + 1) := by omega
      have hih := ih p (k + 1)
      rw [show k + 1 + p = k + (p + 1) by omega] at hih
      rw [decide_eq_false hne, if_neg nofun, hih, List.getElem?_cons_succ]

section FirstTry

variable {J : MapJob} {e : Exchange}

/-- The rows of a partition are those of the reports, in the order of the commits. -/
theorem mapOutputs_eq (he : Exchanged J e) (hdone : e.world.db.MapsDone J.jobID) (p : Nat) :
    e.world.db.mapOutputs J.jobID p =
      (e.committed.flatMap fun c => J.rows c.1 c.2).filter fun o =>
        decide (o.partitionIndex = none) || decide (o.partitionIndex = some p) := by
  rw [mapOutputs_of_mapsDone hdone, ← he.reports.rows, List.filter_filter, DB.reduceInputs]
  exact List.filter_congr fun o _ => Bool.and_comm ..

theorem mapOutputs_checksums (he : Exchanged J e) (hdone : e.world.db.MapsDone J.jobID) (p : Nat) :
    (e.world.db.mapOutputs J.jobID p).map OutputRow.checksum = reportedDigests J e p := by
  have hone : ∀ t x, ((J.rows t x).filter fun o =>
      decide (o.partitionIndex = none) || decide (o.partitionIndex = some p)).map
        OutputRow.checksum =
      ((J.partitions x)[p]?.map fun p' => J.worker.sha256Hex (J.payload x p')).toList := by
    intro t x
    have hfilter := filter_zipIdx (J.partitions x) p 0
    rw [Nat.zero_add] at hfilter
    rw [MapJob.rows, List.filter_map, List.map_map]
    have hcongr : ((J.partitions x).zipIdx.filter ((fun o : OutputRow =>
        decide (o.partitionIndex = none) || decide (o.partitionIndex = some p)) ∘ fun q =>
          ⟨t, some q.2, s!"shuffle://{toString J.jobID}/{q.1}",
            J.worker.sha256Hex (J.payload x q.1)⟩)) =
        (J.partitions x)[p]?.toList.map (·, p) := by
      rw [← hfilter]
      refine List.filter_congr fun q _ => ?_
      simp
    rw [hcongr, List.map_map]
    cases (J.partitions x)[p]? <;> rfl
  rw [mapOutputs_eq he hdone, List.filter_flatMap, List.map_flatMap, reportedDigests,
    List.filterMap_eq_flatMap_toList]
  exact List.flatMap_congr fun c _ => hone c.1 c.2

/-- The assignment announces the reported checksums. -/
theorem checksums_eq (hsha : HexDigest J.worker.sha256Hex) (he : Exchanged J e)
    (hdone : e.world.db.MapsDone J.jobID) {task : Task}
    (hin : task.shuffleInputs =
      (e.world.db.mapOutputs J.jobID task.reducePartition).map OutputRow.ref) :
    (reduceAssignment task).checksums = reportedDigests J e task.reducePartition ∧
      ∀ loc ∈ (reduceAssignment task).dataLocations, (splitChecksumURI loc).2 ≠ "" := by
  have hsplit : ∀ o ∈ e.world.db.mapOutputs J.jobID task.reducePartition,
      (splitChecksumURI (dataLocation o.ref)).2 = o.checksum ∧ o.checksum ≠ "" := by
    intro o ho
    rw [mapOutputs_eq he hdone] at ho
    obtain ⟨c, _, hrow⟩ := List.mem_flatMap.mp (List.mem_filter.mp ho).1
    obtain ⟨q, _, rfl⟩ := List.mem_map.mp hrow
    rw [hsha.splitChecksumURI_dataLocation (b := J.payload c.2 q.1) rfl]
    exact ⟨rfl, hsha.nonempty _⟩
  constructor
  · rw [← mapOutputs_checksums he hdone]
    show ((task.shuffleInputs.map dataLocation).map fun loc => (splitChecksumURI loc).2) = _
    rw [hin, List.map_map, List.map_map]
    exact List.map_congr_left fun o ho => (hsplit o ho).1
  · intro loc hloc
    obtain ⟨input, hinput, rfl⟩ := List.mem_map.mp hloc
    rw [hin] at hinput
    obtain ⟨o, ho, rfl⟩ := List.mem_map.mp hinput
    rw [(hsplit o ho).1]
    exact (hsplit o ho).2

theorem pushedDigests_eq (he : Exchanged J e) (hfirst : FirstTry J e) (p : Nat) :
    pushedDigests J e p = (e.delivered J p).map J.worker.sha256Hex := by
  have hcommitted : ∀ s ∈ e.stored, ∃ t, (t, s.1) ∈ e.committed := by
    intro s hs
    obtain ⟨t, ht⟩ := Option.isSome_iff_exists.mp
      (he.pushes.owner s.1 s.2.1 fun hun => he.pushes.unopened s.1 s.2.1 s.2.2 hun hs)
    exact ⟨t, hfirst s.1 t ht⟩
  rw [delivered_stored he hcommitted, List.map_map, List.map_map]
  rfl

/-- The segments that a reader of the partition gets. -/
theorem segments_eq {p : Nat} {chunks : List ShuffleDataChunk}
    (hok : e.server.getShuffleData J.worker.sha256Hex (toString J.jobID) p = .ok chunks) :
    streamSegments chunks = (e.delivered J p).map fun b => (b, some (J.worker.sha256Hex b)) := by
  have hdata : (e.server.data (toString J.jobID)).isSome = true := by
    unfold ShuffleServer.getShuffleData at hok
    split at hok
    · cases hok
    · next hsome => rw [hsome]; rfl
  obtain ⟨chunks', hok', hsegs⟩ := ShuffleServer.getShuffleData_ok J.worker.sha256Hex hdata p
  cases hok.symm.trans hok'
  rw [streamSegments, hsegs, delivered_eq]

/-- When every Map task has succeeded on its first attempt, and the Reduce task has been
handed out: its download succeeds and has a reader for every input exactly if the digests of
its partition were reported in the order in which they were pushed. -/
theorem first_try_iff {J : MapJob} {q : Option Nat} {as : List Act} {e : Exchange}
    (hsha : HexDigest J.worker.sha256Hex) (h : Run (Exchanges J) (.initial q) as e)
    (hfirst : FirstTry J e) {s : Scheduler} {worker : String} {a lease : UUID} {now : Time}
    {locked : Resource → Bool} {task : Task}
    (hnext : (perform (.getNextTask s J.jobID worker a lease) now locked e.world.db).1.result =
      .ok (.task task)) (hty : task.type = .reduce) :
    (∃ readers, e.download J (reduceAssignment task) = .ok readers ∧
        readers.length = task.shuffleInputs.length) ↔
      reportedDigests J e task.reducePartition = pushedDigests J e task.reducePartition := by
  have he := h.invariant (I := Exchanged J) (fun _ _ _ => exchanged_step) (exchanged_initial J q)
  obtain ⟨row, _, _, _, hjob, htype, hreduce⟩ := getNextTask_ok hnext
  obtain ⟨hdone, hne, hpart, hin⟩ := hreduce (htype.symm.trans hty)
  rw [← hpart] at hin hne
  obtain ⟨hsums, hnonempty⟩ := checksums_eq hsha he hdone hin
  have hlocs : (reduceAssignment task).dataLocations.length = task.shuffleInputs.length :=
    List.length_map _
  rw [pushedDigests_eq he hfirst, ← hsums]
  unfold Exchange.download
  have hrequest : e.server.getShuffleData J.worker.sha256Hex (reduceAssignment task).jobID
      (reduceAssignment task).partitionID =
      e.server.getShuffleData J.worker.sha256Hex (toString J.jobID) task.reducePartition := by
    rw [reduceAssignment, hjob]
  rw [hrequest]
  cases hdata : e.server.getShuffleData J.worker.sha256Hex (toString J.jobID)
      task.reducePartition with
  | error status =>
    -- nothing was pushed for the job, but a row of the partition exists
    refine iff_of_false (fun ⟨readers, hr, _⟩ => download_failed _ _ _ _ _ hr) fun heq => ?_
    rw [Exchange.delivered, hdata, hsums, ← mapOutputs_checksums he hdone] at heq
    exact hne (List.map_eq_nil_iff.mp heq)
  | ok chunks =>
    have hsegs := segments_eq hdata
    constructor
    · rintro ⟨readers, hdown, hlen⟩
      rw [← digests_of_length hnonempty hdown (hlen.trans hlocs.symm),
        (download_ok_iff.mp hdown).2.1, hsegs, List.map_map, List.map_map]
      rfl
    · intro heq
      refine ⟨_, download_of_digests hsha hsegs heq.symm, ?_⟩
      have hlen := congrArg List.length heq
      rw [List.length_map, ReduceAssignment.checksums, List.length_map, hlocs] at hlen
      exact hlen.symm

end FirstTry

/-! ## 3. Two Map tasks -/

theorem firstTry_iff {J : MapJob} {e : Exchange} : FirstTry J e ↔
    ∀ a ∈ e.world.db.attempts.rows, e.world.db.isMapOf J.jobID a.taskID = true →
      (a.taskID, a.attemptID) ∈ e.committed := by
  constructor
  · intro h a ha hmap
    refine h a.attemptID a.taskID ?_
    rw [DB.mapTaskOf, Table.mem_rows_iff.mp ha, Option.bind_some, if_pos hmap]
  · intro h x t hx
    obtain ⟨a, ha, rfl, hmap⟩ := mapTaskOf_eq_some hx
    have hkey : a.attemptID = x := Table.key_of_get? ha
    rw [← hkey]
    exact h a (Table.mem_of_get? ha) hmap

instance (J : MapJob) (e : Exchange) : Decidable (FirstTry J e) :=
  decidable_of_iff _ firstTry_iff.symm

theorem shuffleWorker_hexDigest : HexDigest shuffleWorker.sha256Hex := by
  have hdigit : ∀ n < 16, Nat.digitChar n ∈ "0123456789abcdef".toList := by decide
  refine ⟨fun b hnil => ?_, fun b c hc => ?_⟩
  · have hlist := congrArg String.toList hnil
    rw [shuffleWorker, String.toList_ofList] at hlist
    cases hlist
  · rw [shuffleWorker, String.toList_ofList] at hc
    rcases List.mem_cons.mp hc with rfl | hc
    · decide
    · obtain ⟨n, _, hc⟩ := List.mem_flatMap.mp hc
      have hn := n.toNat_lt
      rcases List.mem_cons.mp hc with rfl | hc
      · exact hdigit _ (by omega)
      · rw [List.mem_singleton.mp hc]
        exact hdigit _ (Nat.mod_lt _ (by decide))

/-- The two Map tasks of `smallJob`: attempt 10 emits the line "a", the other the line "b". -/
def twoMaps : MapJob :=
  ⟨1, 1, shuffleWorker, fun x => if x = 10 then [[97]] else [[98]], Nat.one_pos,
    shuffleWorker_pushes⟩

/-- Both tasks are assigned, and their streams are open. -/
def twoPushing : List Act :=
  (smallStart ++ [calling (.getNextTask soloReplica 1 "worker" 10 20) 2,
    calling (.getNextTask soloReplica 1 "worker" 11 21) 2]).map .cluster ++
    [.openPush 10 0, .openPush 11 0]

/-- The first task is committed before the second. -/
def twoReported : List Act :=
  [.report 10 soloReplica 20 3 fun _ => false, .report 11 soloReplica 21 4 fun _ => false]

/-- The task of a reply. -/
def Reply.toTask : Except Err Reply → Option Task
  | .ok (.task t) => some t
  | _ => none

theorem Reply.of_toTask {r : Except Err Reply} {t : Task} (h : toTask r = some t) :
    r = .ok (.task t) := by
  unfold toTask at h
  split at h
  · cases h
    rfl
  · cases h

/-- A Reduce task that GetNextTask hands out in this state. -/
def nextReduce (db : DB) : Option Task :=
  (Reply.toTask (perform (.getNextTask soloReplica 1 "worker" 12 22) 5
    (fun _ => false) db).1.result).filter
    fun task => decide (task.type = .reduce)

theorem first_try_iff_straight :
    ∃ e task, Run (Exchanges twoMaps) (.initial none)
        (twoPushing ++ [.close 10 0, .close 11 0] ++ twoReported) e ∧ FirstTry twoMaps e ∧
      nextReduce e.world.db = some task ∧
      ∃ readers, e.download twoMaps (reduceAssignment task) = .ok readers ∧
        readers.length = task.shuffleInputs.length := by
  obtain ⟨e, he, hfirst, htask⟩ := (run_to (by decide) :
    ∃ e, Run (Exchanges twoMaps) (.initial none)
        (twoPushing ++ [.close 10 0, .close 11 0] ++ twoReported) e ∧ FirstTry twoMaps e ∧
      (nextReduce e.world.db).any (fun task => decide
        (reportedDigests twoMaps e task.reducePartition =
          pushedDigests twoMaps e task.reducePartition)) = true)
  obtain ⟨task, hnext, heq⟩ := (Option.any_eq_true ..).mp htask
  obtain ⟨hreply, hty⟩ := Option.filter_eq_some_iff.mp hnext
  exact ⟨e, task, he, hfirst, hnext, (first_try_iff shuffleWorker_hexDigest he hfirst
    (Reply.of_toTask hreply) (of_decide_eq_true hty)).mpr (of_decide_eq_true heq)⟩

/-- The stream of the second task ends first. The Reduce task compares its segment with the
checksum of the first. -/
theorem pushed_crosswise :
    ∃ e, Run (Exchanges twoMaps) (.initial none)
        (twoPushing ++ [.close 11 0, .close 10 0] ++ twoReported) e ∧ FirstTry twoMaps e ∧
      (nextReduce e.world.db).map (fun task => e.download twoMaps (reduceAssignment task)) =
        some (.error
          "segment 0 checksum metadata mismatch: assignment=0610a stream=0620a") :=
  run_to (by decide)

end KubeMapReduce
