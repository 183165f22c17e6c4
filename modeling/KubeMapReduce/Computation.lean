import KubeMapReduce.Coverage
import KubeMapReduce.WholeJob

/-!
# From the input object to the outputs

The Map tasks of a job without a combiner read one split each of one object, their mapper works line
by line, and the records go through the sorters, the shuffle and the reducers. In the fenced runs of
`job_result` that have reported every partition with records, what comes out depends on the lines of
the object and on the user's programs only: not on the size of the splits, the number of Reduce
tasks, the threshold of the sorters, the batch size of the merges, or the order of events.

* `MapAttempt`: what an attempt of a Map task does from its split up to the partition phase.
* `job_computes`: the outputs of the job.
-/

namespace KubeMapReduce

open Lines Runs Grouping

/-! ## 1. An attempt of a Map task -/

/-- The attempt has read its split, the mapper has written the records of every line, and they were
sorted without an error. -/
structure MapAttempt (w : MapWorker) (J : MapJob) (o : StoredObject) (mapLine : Bytes → List Record)
    (split : ScheduleTaskInput) (x : UUID) where
  lines : List (Nat × Bytes)
  thresholdBytes : Int
  mapOutput : Bytes
  stream : SortedStream
  read : readSplitRecordsStreaming w.sha256Hex o split.byteStart.toNat split.byteEnd.toNat
    split.splitChecksum = .ok lines
  mapped : Accepts w mapOutput (lines.flatMap fun y => mapLine y.2)
  sorted : sortedOutput w thresholdBytes mapOutput none = .ok stream
  emitted : J.emitted x = (scanOutput stream.bytes).1

section Attempt

variable {w : MapWorker} {J : MapJob} {o : StoredObject} {content : Bytes} {S : Nat}
  {mapLine : Bytes → List Record} {inputURI : String} {sp : Nat × Nat} {x : UUID}

/-- The worker of a split reads the lines that it reaches. -/
theorem MapAttempt.lines_eq
    (a : MapAttempt w J o mapLine (spanInput w.sha256Hex inputURI content sp) x)
    (ho : o.Serves content) (hfit : LinesFit content) (hS : 0 < S)
    (hsp : sp ∈ spans content.length S) : a.lines = spanLines content sp := by
  have hread := read_span w.sha256Hex inputURI ho hfit hS sp hsp
  dsimp only at hread
  rw [a.read] at hread
  split at hread
  · exact Except.ok.inj hread
  · obtain ⟨e, he⟩ := hread
    cases he

/-- It emits the records of these lines. -/
theorem MapAttempt.emits
    (a : MapAttempt w J o mapLine (spanInput w.sha256Hex inputURI content sp) x)
    (hw : J.worker = w.toWorker) (ho : o.Serves content) (hfit : LinesFit content) (hS : 0 < S)
    (hsp : sp ∈ spans content.length S)
    (hdecode : ∀ line, ∀ r ∈ mapLine line, w.decode (encodeRecord r) = some r)
    (hfits : ∀ line, ∀ r ∈ mapLine line, r.Fits defaultMaxRecordBytes) :
    ∃ out, Emits J x out ∧
      out.Perm ((spanLines content sp).flatMap fun y => mapLine y.2) := by
  have hall : ∀ {P : Record → Prop}, (∀ line, ∀ r ∈ mapLine line, P r) →
      ∀ r ∈ a.lines.flatMap fun y => mapLine y.2, P r := by
    intro P hP r hr
    obtain ⟨y, _, hr⟩ := List.mem_flatMap.mp hr
    exact hP y.2 r hr
  have hcombiner : ∀ c ∈ (none : Option (Bytes × List Record)), Accepts w c.1 c.2 := nofun
  obtain ⟨out, hout, hperm⟩ := emits_of_stages hw a.mapped hcombiner (hall hdecode) (hall hfits)
    a.sorted a.emitted
  rw [← a.lines_eq ho hfit hS hsp]
  exact ⟨out, hout, hperm⟩

end Attempt

/-! ## 2. The job -/

/-- The lines that the workers of all splits read. -/
theorem flatMap_spanLines {content : Bytes} {S : Nat} (hS : 0 < S) (hcov : Covered content S)
    (mapLine : Bytes → List Record) :
    (spans content.length S).flatMap
        (fun sp => (spanLines content sp).flatMap fun y => mapLine y.2) =
      (lines isNewline content).flatMap mapLine := by
  rw [← List.flatMap_assoc, (flatMap_spanLines_iff hS).mpr ⟨hcov.once, hcov.whole⟩, lines,
    List.flatMap_map]

/-- A job without a combiner, with one split for each Map task, in the runs of `job_result`: the job
is scheduled once, no manager restarts, only current attempts store and upload, and no Map task is
assigned again after a stream of it was stored. When the committed attempts have worked off the
splits of an object whose lines they cover, and every partition with records has been reported, then
the output objects together have the results of the groups of the records that the mapper writes for
the lines of the object. -/
theorem job_computes {J : Job} {w : MapWorker} {o : StoredObject} {content : Bytes} {S : Nat}
    {inputURI : String} {mapLine : Bytes → List Record} {span : UUID → Nat × Nat} {q : Option Nat}
    {as : List JobAct} {s : JobState} {f : List Record → List Record}
    {reduce : Multiset Record → Multiset Record} (hw : J.worker = w.toWorker)
    (ho : o.Serves content) (hfit : LinesFit content) (hS : 0 < S) (hcov : Covered content S)
    (hdecode : ∀ line, ∀ r ∈ mapLine line, w.decode (encodeRecord r) = some r)
    (hfits : ∀ line, ∀ r ∈ mapLine line, r.Fits defaultMaxRecordBytes)
    (hreduces : Reduces J f) (hf : ∀ g, (f g : Multiset Record) = reduce g)
    (h : Run (Under (JobSteps J) (fencedSteps J)) (.initial q) as s)
    (hpart : DistinctPartitions s.db J.jobID) (hdone : s.db.MapsDone J.jobID)
    (hspans : (s.exchange.committed.map fun c => span c.2).Perm (spans content.length S))
    (hattempts : ∀ c ∈ s.exchange.committed, Nonempty (MapAttempt w J.toMapJob o mapLine
      (spanInput w.sha256Hex inputURI content (span c.2)) c.2))
    (hall : ∀ p < J.reducers, s.Reported J p ∨
      ∀ line ∈ lines isNewline content, ∀ r ∈ mapLine line, hashPartition r.key J.reducers ≠ p) :
    s.Outputs J (reduced Record.key reduce ((lines isNewline content).flatMap mapLine)) := by
  -- the records of each committed attempt
  have hrecs : ∀ x, ∃ out : List Record, (∃ t, (t, x) ∈ s.exchange.committed) →
      Emits J.toMapJob x out ∧
        out.Perm ((spanLines content (span x)).flatMap fun y => mapLine y.2) := by
    intro x
    by_cases hx : ∃ t, (t, x) ∈ s.exchange.committed
    · obtain ⟨t, ht⟩ := hx
      obtain ⟨a⟩ := hattempts (t, x) ht
      have hsp : span x ∈ spans content.length S :=
        hspans.mem_iff.mp (List.mem_map_of_mem (f := fun c : UUID × UUID => span c.2) ht)
      obtain ⟨out, hout⟩ := a.emits hw ho hfit hS hsp hdecode hfits
      exact ⟨out, fun _ => hout⟩
    · exact ⟨[], fun hyes => absurd hyes hx⟩
  choose recs hrecs using hrecs
  have hemits : ∀ c ∈ s.exchange.committed, Emits J.toMapJob c.2 (recs c.2) :=
    fun c hc => (hrecs c.2 ⟨c.1, hc⟩).1
  have hrecords : (s.records recs).Perm ((lines isNewline content).flatMap mapLine) := by
    rw [← flatMap_spanLines hS hcov]
    refine (List.Perm.flatMap_left _ fun c hc => (hrecs c.2 ⟨c.1, hc⟩).2).trans ?_
    have hmap := hspans.flatMap_right fun sp => (spanLines content sp).flatMap fun y => mapLine y.2
    rwa [List.flatMap_map] at hmap
  have hempty : ∀ p < J.reducers, s.Reported J p ∨
      partitionRecords J.reducers p (s.records recs) = [] := by
    intro p hp
    refine (hall p hp).imp_right fun hno => List.filter_eq_nil_iff.mpr fun r hr hpr => ?_
    obtain ⟨line, hmem, hr⟩ := List.mem_flatMap.mp (hrecords.mem_iff.mp hr)
    exact hno line hmem r hr (of_decide_eq_true hpr)
  rw [← Multiset.coe_eq_coe.mpr hrecords]
  exact outputs_reduced (running_run h) hpart hdone hemits hreduces hf hempty

/-! ## 3. A file with two lines -/

def wordMapWorker : MapWorker :=
  { wordWorker with
    sort := insertionSlice
    blank_brace := fun line h => List.all_eq_false.mpr ⟨123, h, by decide⟩ }

/-- The line "a" has one word, the line "b" two. -/
def wordsOf (line : Bytes) : List Record :=
  if line = [97, 10] then [word] else if line = [98, 10] then [angle, word] else []

/-- The splits of the two attempts, of two bytes each. -/
def wordSpan (x : UUID) : Nat × Nat := if x = 10 then (0, 1) else (2, 3)

def twoLines : Bytes := [97, 10, 98, 10]

def firstLine : MapAttempt wordMapWorker wordJob.toMapJob (servedObject twoLines) wordsOf
    (spanInput wordMapWorker.sha256Hex "s3://in" twoLines (wordSpan 10)) 10 where
  lines := [(0, [97, 10])]
  thresholdBytes := 0
  mapOutput := encodeAll [word]
  stream := ⟨encodeAll [word], none⟩
  read := by decide +kernel
  mapped := ⟨by decide +kernel, by decide +kernel⟩
  sorted := by decide +kernel
  emitted := by decide +kernel

def secondLine : MapAttempt wordMapWorker wordJob.toMapJob (servedObject twoLines) wordsOf
    (spanInput wordMapWorker.sha256Hex "s3://in" twoLines (wordSpan 11)) 11 where
  lines := [(2, [98, 10])]
  thresholdBytes := 0
  mapOutput := encodeAll [angle, word]
  stream := ⟨encodeAll [angle, word], none⟩
  read := by decide +kernel
  mapped := ⟨by decide +kernel, by decide +kernel⟩
  sorted := by decide +kernel
  emitted := by decide +kernel

theorem wordsOf_cases {P : Record → Prop} (hword : P word) (hangle : P angle) (line : Bytes) :
    ∀ r ∈ wordsOf line, P r := by
  intro r hr
  unfold wordsOf at hr
  split at hr
  · rw [List.mem_singleton.mp hr]
    exact hword
  · split at hr
    · rcases List.mem_cons.mp hr with rfl | hr
      · exact hangle
      · rw [List.mem_singleton.mp hr]
        exact hword
    · cases hr

/-- The output counts the words of the file. -/
theorem job_computes_words :
    ∃ s outs, Run (Under (JobSteps wordJob) (fencedSteps wordJob)) (.initial none) wordRun s ∧
      s.objects "1/partition-0.jsonl" = some (encodeAll outs) ∧
      (outs : Multiset Record) =
        reduced Record.key keyCounts ((lines isNewline twoLines).flatMap wordsOf) := by
  obtain ⟨s, hrun, hcommitted, hdone, hpart, hp⟩ := wordRun_ends
  have hlines : (spans (List.length twoLines) 2).flatMap (spanLines twoLines) =
      linesAt isNewline 0 twoLines := by decide
  obtain ⟨honce, hwhole⟩ := (flatMap_spanLines_iff Nat.two_pos).mp hlines
  have hcov : Covered twoLines 2 := ⟨by decide, honce, hwhole⟩
  have hfit : LinesFit twoLines := by
    unfold LinesFit
    decide
  have hspans : (s.exchange.committed.map fun c => wordSpan c.2).Perm
      (spans (List.length twoLines) 2) := by
    rw [hcommitted]
    decide
  have hattempts : ∀ c ∈ s.exchange.committed, Nonempty (MapAttempt wordMapWorker
      wordJob.toMapJob (servedObject twoLines) wordsOf
      (spanInput wordMapWorker.sha256Hex "s3://in" twoLines (wordSpan c.2)) c.2) := by
    rw [hcommitted]
    intro c hc
    rcases List.mem_cons.mp hc with rfl | hc
    · exact ⟨firstLine⟩
    · rw [List.mem_singleton.mp hc]
      exact ⟨secondLine⟩
  obtain ⟨outs, hobj, _, hsum⟩ := job_computes rfl (servedObject_serves twoLines) hfit
    Nat.two_pos hcov (wordsOf_cases rfl rfl) (wordsOf_cases (by decide) (by decide))
    (reduces_recordReducer fun _ => rfl) countKeys_coe hrun hpart hdone hspans hattempts
    (fun p hlt => .inl (Nat.lt_one_iff.mp hlt ▸ hp))
  exact ⟨s, outs 0, hrun, hobj 0 hp, (Finset.sum_range_one _).symm.trans hsum⟩

end KubeMapReduce
