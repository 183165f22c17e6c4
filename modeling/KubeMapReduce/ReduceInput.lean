import KubeMapReduce.Delivery
import KubeMapReduce.MapOutput

/-!
# What a reducer reads

The records of a Map attempt go through the partition phase, the shuffle service, the download and
the merge. Here they are followed from the attempt to the reducer: when every attempt has emitted
sorted records, the reducer of a partition reads all records with a key of this partition, sorted by
key, whatever the batch size of the merge is.

* `emits_of_stages`: what an attempt emits, from the output of the mapper and the combiner.
* `payload_eq`: what it writes for a partition.
* `mergeShuffleInputs_eq`: the merge of what several attempts have written.
-/

namespace KubeMapReduce

open Lines Merging

/-! ## 1. The records of an attempt -/

/-- The attempt has emitted these records, sorted by key, one to a line. -/
structure Emits (J : MapJob) (x : UUID) (rs : List Record) : Prop where
  lines : J.emitted x = rs.map encodeRecord
  sorted : KeySorted rs
  notBlank : ∀ r ∈ rs, J.worker.blank (encodeRecord r) = false
  decoded : ∀ r ∈ rs, J.worker.decode (encodeRecord r) = some r

/-- The records of a partition. -/
def partitionRecords (R p : Nat) (rs : List Record) : List Record :=
  rs.filter fun r => decide (hashPartition r.key R = p)

section Stages

variable {w : MapWorker} {thresholdBytes : Int} {mapOutput : Bytes} {recs : List Record}
  {combined : Option (Bytes × List Record)} {stream : SortedStream}

/-- The sorted stream has the records of the mapper, or those of the combiner if there is one. -/
theorem sortedOutput_ok (hmap : Accepts w mapOutput recs)
    (hcombiner : ∀ c ∈ combined, Accepts w c.1 c.2)
    (hdecode : ∀ r ∈ combined.elim recs Prod.snd, w.decode (encodeRecord r) = some r)
    (hfits : ∀ r ∈ combined.elim recs Prod.snd, r.Fits defaultMaxRecordBytes)
    (hok : sortedOutput w thresholdBytes mapOutput (combined.map Prod.fst) = .ok stream) :
    ∃ out : List Record, stream = ⟨encodeAll out, none⟩ ∧
      out.Perm (combined.elim recs Prod.snd) ∧ KeySorted out := by
  have hfinal : ∀ rs : List Record, (∀ r ∈ rs, w.decode (encodeRecord r) = some r) →
      (∀ r ∈ rs, r.Fits defaultMaxRecordBytes) → ∃ out : List Record,
        ((newSpillingSorter thresholdBytes).addAll w.sort rs).finalize w.sort w.decode =
          ⟨encodeAll out, none⟩ ∧ out.Perm rs ∧ KeySorted out := by
    intro rs hd hf
    obtain ⟨runs, hsorting⟩ := sorting_addAll w.sort thresholdBytes rs
    exact finalize_ok w.sort hsorting hd (.inr hf)
  unfold sortedOutput at hok
  rw [collectOutput_ok hmap] at hok
  cases combined with
  | none =>
    obtain ⟨out, hout, hperm, hsorted⟩ := hfinal recs hdecode hfits
    cases hok
    exact ⟨out, hout, hperm, hsorted⟩
  | some c =>
    obtain ⟨out, hout, hperm, hsorted⟩ := hfinal c.2 hdecode hfits
    dsimp only [Option.map_some] at hok
    rw [collectOutput_ok (hcombiner c rfl)] at hok
    dsimp only at hok
    split at hok
    · cases hok
    · cases hok
      exact ⟨out, hout, hperm, hsorted⟩

/-- An attempt emits what its sorted stream has: the records that the mapper has written, or those
of the combiner. -/
theorem emits_of_stages {J : MapJob} {x : UUID} (hw : J.worker = w.toWorker)
    (hmap : Accepts w mapOutput recs) (hcombiner : ∀ c ∈ combined, Accepts w c.1 c.2)
    (hdecode : ∀ r ∈ combined.elim recs Prod.snd, w.decode (encodeRecord r) = some r)
    (hfits : ∀ r ∈ combined.elim recs Prod.snd, r.Fits defaultMaxRecordBytes)
    (hok : sortedOutput w thresholdBytes mapOutput (combined.map Prod.fst) = .ok stream)
    (hx : J.emitted x = (scanOutput stream.bytes).1) :
    ∃ out : List Record, Emits J x out ∧ out.Perm (combined.elim recs Prod.snd) := by
  obtain ⟨out, rfl, hperm, hsorted⟩ := sortedOutput_ok hmap hcombiner hdecode hfits hok
  have hmem : ∀ r ∈ out, r ∈ combined.elim recs Prod.snd := fun r hr => hperm.mem_iff.mp hr
  refine ⟨out, ⟨?_, hsorted, fun r _ => ?_, fun r hr => ?_⟩, hperm⟩
  · rw [hx]
    exact congrArg Prod.fst (scanAll_encodeAll fun r hr => hfits r (hmem r hr))
  · rw [hw]
    exact blank_encodeRecord w r
  · rw [hw]
    exact hdecode r (hmem r hr)

end Stages

/-! ## 2. The partitions -/

section Payload

variable {J : MapJob} {x : UUID} {rs : List Record}

theorem Emits.recordsOf_eq (h : Emits J x rs) :
    J.worker.recordsOf (J.emitted x) = rs.map fun r => (encodeRecord r, r) := by
  have hline : ∀ r ∈ rs, (if J.worker.blank (encodeRecord r) then none
      else (J.worker.decode (encodeRecord r)).map (encodeRecord r, ·)) =
        some (encodeRecord r, r) := by
    intro r hr
    rw [h.notBlank r hr, h.decoded r hr]
    rfl
  unfold Worker.recordsOf
  rw [h.lines, List.filterMap_map]
  exact (List.filterMap_congr hline).trans (congrFun List.filterMap_eq_map rs)

/-- The attempt writes the records of the partition. -/
theorem payload_eq (h : Emits J x rs) (p : Nat) :
    J.payload x p = encodeAll (partitionRecords J.reducers p rs) := by
  unfold MapJob.payload bucket partitionRecords encodeAll
  rw [h.recordsOf_eq, List.filter_map, List.flatMap_map, List.flatMap_map]
  rfl

theorem mem_partitions_iff (h : Emits J x rs) {p : Nat} :
    p ∈ J.partitions x ↔ partitionRecords J.reducers p rs ≠ [] := by
  unfold MapJob.partitions
  rw [mem_partitionsOf J.reducers_pos, h.recordsOf_eq, bucket, List.filter_map, ne_eq,
    List.map_eq_nil_iff]
  rfl

theorem partitionRecords_sorted (h : Emits J x rs) (p : Nat) :
    KeySorted (partitionRecords J.reducers p rs) :=
  h.sorted.filter _

end Payload

/-! ## 3. The merge -/

/-- What the worker is configured with. -/
structure ShuffleConfig where
  shuffleBatchSize : Int
  shuffleMaxRecordBytes : Int

def defaultMergeConfig : MergeConfig := ⟨500, defaultMaxRecordBytes⟩

/-- The configuration of the merge. -/
def ShuffleConfig.mergeConfig (cfg : ShuffleConfig) : MergeConfig where
  batchSize :=
    if cfg.shuffleBatchSize > 0 then cfg.shuffleBatchSize else defaultMergeConfig.batchSize
  maxRecordBytes :=
    if cfg.shuffleMaxRecordBytes > 0 then cfg.shuffleMaxRecordBytes
    else defaultMergeConfig.maxRecordBytes

/-- The merged file; `message` is the text of an error of MergeInputs. -/
def mergeShuffleInputs (decode : Line → Option Record) (message : MergeErr → String)
    (cfg : ShuffleConfig) (readers : List Bytes) : Except String Bytes :=
  match (mergeInputs decode cfg.mergeConfig readers).err with
  | some e => .error (message e)
  | none => .ok (mergeInputs decode cfg.mergeConfig readers).output

section Merge

variable {J : MapJob} {recs : UUID → List Record} {xs : List UUID} {p : Nat} {cfg : ShuffleConfig}

/-- What these attempts have written for the partition is read as their records. -/
theorem reads_payloads {maxBytes : Nat} (hemits : ∀ x ∈ xs, Emits J x (recs x))
    (hfits : ∀ x ∈ xs, ∀ r ∈ partitionRecords J.reducers p (recs x), r.Fits maxBytes) :
    Reads J.worker.decode maxBytes (xs.map (J.payload · p))
      (xs.map fun x => partitionRecords J.reducers p (recs x)) := by
  unfold Reads
  rw [List.forall₂_map_left_iff, List.forall₂_map_right_iff, List.forall₂_same]
  intro x hx
  rw [payload_eq (hemits x hx)]
  exact readRecords_encodeAll
    (fun r hr => (hemits x hx).decoded r (List.mem_of_mem_filter hr)) (hfits x hx)

/-- A merge fails when a record of the partition is longer than its limit. -/
theorem fits_of_merged {message : MergeErr → String} {merged : Bytes}
    (hemits : ∀ x ∈ xs, Emits J x (recs x))
    (h : mergeShuffleInputs J.worker.decode message cfg (xs.map (J.payload · p)) = .ok merged) :
    ∀ x ∈ xs, ∀ r ∈ partitionRecords J.reducers p (recs x), r.Fits cfg.mergeConfig.limit := by
  intro x hx r hr
  by_contra hlong
  have hread : readRecords J.worker.decode cfg.mergeConfig.limit (J.payload x p) = none := by
    rw [payload_eq (hemits x hx)]
    exact readRecords_tooLong
      (fun r hr => (hemits x hx).decoded r (List.mem_of_mem_filter hr)) hr hlong
  unfold mergeShuffleInputs at h
  split at h
  · cases h
  · next hok => exact mergeInputs_fails ⟨_, List.mem_map_of_mem hx, hread⟩ hok

/-- A merged file has the records of the partition that these attempts have emitted, sorted by
key. -/
theorem mergeShuffleInputs_ok {message : MergeErr → String} {merged : Bytes}
    (hemits : ∀ x ∈ xs, Emits J x (recs x))
    (h : mergeShuffleInputs J.worker.decode message cfg (xs.map (J.payload · p)) = .ok merged) :
    ∃ out : List Record, merged = encodeAll out ∧
      out.Perm (partitionRecords J.reducers p (xs.flatMap recs)) ∧ KeySorted out := by
  have hfits := fits_of_merged hemits h
  set rss := xs.map fun x => partitionRecords J.reducers p (recs x) with hrss
  have hall : ∀ {P : Record → Prop},
      (∀ x ∈ xs, ∀ r ∈ partitionRecords J.reducers p (recs x), P r) →
        ∀ rs ∈ rss, ∀ r ∈ rs, P r := by
    intro P hP rs hrs
    obtain ⟨x, hx, rfl⟩ := List.mem_map.mp hrs
    exact hP x hx
  have hsorted : ∀ rs ∈ rss, KeySorted rs := by
    intro rs hrs
    obtain ⟨x, hx, rfl⟩ := List.mem_map.mp hrs
    exact partitionRecords_sorted (hemits x hx) p
  obtain ⟨stats, hmerged⟩ := mergeInputs_ok (reads_payloads hemits hfits) hsorted
    (hall fun x hx r hr => (hemits x hx).decoded r (List.mem_of_mem_filter hr))
    (.inr (hall hfits))
  refine ⟨stableMerge Record.key rss, ?_, ?_, (stable_stableMerge Record.key rss).sorted⟩
  · unfold mergeShuffleInputs at h
    rw [hmerged] at h
    exact (Except.ok.inj h).symm
  · refine (stableMerge_perm Record.key rss).trans (List.Perm.of_eq ?_)
    rw [hrss, ← List.flatMap_def, partitionRecords, List.filter_flatMap]
    rfl

end Merge

end KubeMapReduce
