import KubeMapReduce.ExternalMerge

/-!
# The sorter of a Map task

A spillingSorter buffers records up to a number of bytes. When the buffer has reached it, the
records are sorted and written to a spill file. At the end the files are merged; if there is none,
the sorted buffer is returned as it is.

* `Sorting.add`, `sorting_addAll`: the records are in the files and in the buffer, the files are
  sorted, and the buffer stays below the threshold.
* `finalize_ok`, `finalize_tooLong`: what the merge at the end returns.
* `finalize_sorted`: the stream has the added records, sorted by key.
-/

namespace KubeMapReduce

open Merging

/-! ## 1. The sorter -/

/-- A sort.Slice by the key. It need not be stable. -/
structure SliceSort where
  run : List Record → List Record
  perm : ∀ rs, (run rs).Perm rs
  sorted : ∀ rs, KeySorted (run rs)

def insertionSlice : SliceSort where
  run rs := rs.insertionSort (·.key ≤ ·.key)
  perm := List.perm_insertionSort _
  sorted := List.pairwise_insertionSort _

def recordOverheadBytes : Int := 32

def defaultSpillThresholdBytes : Int := 67108864

/-- `spillFiles` are the contents of the files. -/
structure SpillingSorter where
  thresholdBytes : Int
  buffer : List Record
  bufferBytes : Int
  spillFiles : List Bytes

def newSpillingSorter (thresholdBytes : Int) : SpillingSorter :=
  ⟨if thresholdBytes ≤ 0 then defaultSpillThresholdBytes else thresholdBytes, [], 0, []⟩

/-- The size that is counted for a record. -/
def Record.estimate (r : Record) : Int :=
  (bytesOf r.key).length + (bytesOf r.value).length + recordOverheadBytes

/-- What Finalize returns: a stream, which can end with the error of a merge. -/
structure SortedStream where
  bytes : Bytes
  err : Option MergeErr
deriving DecidableEq

section Operations

variable (sort : SliceSort) (decode : Line → Option Record)

def SpillingSorter.spill (s : SpillingSorter) : SpillingSorter :=
  if s.buffer.length = 0 then s
  else { s with
    spillFiles := s.spillFiles ++ [encodeAll (sort.run s.buffer)]
    buffer := []
    bufferBytes := 0 }

def SpillingSorter.add (s : SpillingSorter) (rec : Record) : SpillingSorter :=
  let s := { s with
    buffer := s.buffer ++ [rec]
    bufferBytes := s.bufferBytes + rec.estimate }
  if s.bufferBytes ≥ s.thresholdBytes then s.spill sort else s

def SpillingSorter.addAll (s : SpillingSorter) (records : List Record) : SpillingSorter :=
  records.foldl (SpillingSorter.add sort) s

def SpillingSorter.finalize (s : SpillingSorter) : SortedStream :=
  if s.spillFiles.length = 0 then ⟨encodeAll (sort.run s.buffer), none⟩
  else
    let merged := mergeInputs decode ⟨0, 0⟩ (s.spill sort).spillFiles
    ⟨merged.output, merged.err⟩

end Operations

/-! ## 2. Where the records are -/

section Invariant

variable {recs : List Record} {s : SpillingSorter} {runs : List (List Record)}

def SpillingSorter.buffered (s : SpillingSorter) : Int := (s.buffer.map Record.estimate).sum

/-- After the records `recs` were added: the files have the sorted `runs`, the buffer the rest. -/
structure Sorting (recs : List Record) (s : SpillingSorter) (runs : List (List Record)) : Prop where
  files : s.spillFiles = runs.map encodeAll
  sorted : ∀ run ∈ runs, KeySorted run
  perm : (runs.flatten ++ s.buffer).Perm recs
  bytes : s.bufferBytes = s.buffered

theorem sorting_new (thresholdBytes : Int) : Sorting [] (newSpillingSorter thresholdBytes) [] :=
  ⟨rfl, nofun, .nil, rfl⟩

/-- A spill takes the buffer to a new run. -/
theorem Sorting.spill (h : Sorting recs s runs) (sort : SliceSort) :
    ∃ runs', Sorting recs (s.spill sort) runs' ∧ (s.spill sort).buffer = [] := by
  unfold SpillingSorter.spill
  split
  · next hnil => exact ⟨runs, h, List.length_eq_zero_iff.mp hnil⟩
  · refine ⟨runs ++ [sort.run s.buffer], ⟨?_, ?_, ?_, rfl⟩, rfl⟩
    · rw [h.files, List.map_append]
      rfl
    · intro run hrun
      rcases List.mem_append.mp hrun with hrun | hrun
      · exact h.sorted run hrun
      · rw [List.mem_singleton.mp hrun]
        exact sort.sorted s.buffer
    · rw [List.flatten_append, List.flatten_singleton, List.append_nil]
      exact ((sort.perm s.buffer).append_left runs.flatten).trans h.perm

theorem Sorting.add (h : Sorting recs s runs) (sort : SliceSort) (rec : Record) :
    ∃ runs', Sorting (recs ++ [rec]) (s.add sort rec) runs' := by
  have hadded : Sorting (recs ++ [rec])
      { s with buffer := s.buffer ++ [rec], bufferBytes := s.bufferBytes + rec.estimate } runs := by
    refine ⟨h.files, h.sorted, ?_, ?_⟩
    · rw [← List.append_assoc]
      exact h.perm.append_right [rec]
    · simp [SpillingSorter.buffered, h.bytes]
  unfold SpillingSorter.add
  dsimp only
  split
  · obtain ⟨runs', h', _⟩ := hadded.spill sort
    exact ⟨runs', h'⟩
  · exact ⟨runs, hadded⟩

theorem Sorting.addAll (h : Sorting recs s runs) (sort : SliceSort) (added : List Record) :
    ∃ runs', Sorting (recs ++ added) (s.addAll sort added) runs' := by
  induction added generalizing recs s runs with
  | nil => exact ⟨runs, by rwa [List.append_nil]⟩
  | cons rec added ih =>
    obtain ⟨runs', h'⟩ := h.add sort rec
    rw [List.append_cons]
    exact ih h'

theorem sorting_addAll (sort : SliceSort) (thresholdBytes : Int) (recs : List Record) :
    ∃ runs, Sorting recs ((newSpillingSorter thresholdBytes).addAll sort recs) runs :=
  (sorting_new thresholdBytes).addAll sort recs

/-! ## 3. The bound on the buffer -/

theorem add_below (sort : SliceSort) (hpos : 0 < s.thresholdBytes) (rec : Record) :
    (s.add sort rec).bufferBytes < (s.add sort rec).thresholdBytes ∧
      (s.add sort rec).thresholdBytes = s.thresholdBytes := by
  unfold SpillingSorter.add
  dsimp only
  split
  · unfold SpillingSorter.spill
    rw [if_neg (by simp)]
    exact ⟨hpos, rfl⟩
  · next hlt => exact ⟨Int.not_le.mp hlt, rfl⟩

theorem add_unspilled (sort : SliceSort) {rec : Record}
    (h : s.bufferBytes + rec.estimate < s.thresholdBytes) :
    (s.add sort rec).spillFiles = s.spillFiles := by
  unfold SpillingSorter.add
  dsimp only
  rw [if_neg (Int.not_le.mpr h)]

theorem addAll_below (sort : SliceSort) (hpos : 0 < s.thresholdBytes)
    (hbelow : s.bufferBytes < s.thresholdBytes) (added : List Record) :
    (s.addAll sort added).bufferBytes < (s.addAll sort added).thresholdBytes ∧
      (s.addAll sort added).thresholdBytes = s.thresholdBytes := by
  induction added generalizing s with
  | nil => exact ⟨hbelow, rfl⟩
  | cons rec added ih =>
    obtain ⟨hlt, heq⟩ := add_below sort hpos rec
    obtain ⟨hlt', heq'⟩ := ih (heq ▸ hpos) hlt
    exact ⟨hlt', heq'.trans heq⟩

theorem newSpillingSorter_pos (thresholdBytes : Int) :
    0 < (newSpillingSorter thresholdBytes).thresholdBytes := by
  unfold newSpillingSorter defaultSpillThresholdBytes
  dsimp only
  split <;> omega

/-- The buffered records stay below the threshold. -/
theorem buffered_lt (sort : SliceSort) (thresholdBytes : Int) (recs : List Record) :
    ((newSpillingSorter thresholdBytes).addAll sort recs).buffered <
      ((newSpillingSorter thresholdBytes).addAll sort recs).thresholdBytes := by
  obtain ⟨runs, h⟩ := sorting_addAll sort thresholdBytes recs
  rw [← h.bytes]
  have hpos := newSpillingSorter_pos thresholdBytes
  exact (addAll_below sort hpos hpos recs).1

theorem Sorting.runs_nil (h : Sorting recs s runs) (hnil : s.spillFiles.length = 0) :
    runs = [] := by
  have hfiles := h.files
  rw [List.length_eq_zero_iff.mp hnil] at hfiles
  exact List.map_eq_nil_iff.mp hfiles.symm

/-- Records that come to the threshold do not all stay in the buffer. -/
theorem addAll_spills (sort : SliceSort) {thresholdBytes : Int}
    (hle : (newSpillingSorter thresholdBytes).thresholdBytes ≤ (recs.map Record.estimate).sum) :
    ((newSpillingSorter thresholdBytes).addAll sort recs).spillFiles.length ≠ 0 := by
  intro hnil
  obtain ⟨runs, h⟩ := sorting_addAll sort thresholdBytes recs
  have hperm := h.perm
  rw [h.runs_nil hnil, List.flatten_nil, List.nil_append] at hperm
  have hpos := newSpillingSorter_pos thresholdBytes
  have hlt := buffered_lt sort thresholdBytes recs
  rw [(addAll_below sort hpos hpos recs).2, SpillingSorter.buffered,
    (hperm.map Record.estimate).sum_eq] at hlt
  exact absurd hle (Int.not_le.mpr hlt)

end Invariant

/-! ## 4. Finalize -/

section Finalize

variable (sort : SliceSort) {decode : Line → Option Record} {recs : List Record}
  {s : SpillingSorter} {runs : List (List Record)} (h : Sorting recs s runs)
  (hdecode : ∀ r ∈ recs, decode (encodeRecord r) = some r)
include h

theorem Sorting.mem_run {run : List Record} (hrun : run ∈ runs) {r : Record} (hr : r ∈ run) :
    r ∈ recs :=
  h.perm.subset (List.mem_append_left _ (List.mem_flatten_of_mem hrun hr))

include hdecode

/-- The merge of the files and the rest of the buffer. -/
theorem merge_ok (hfits : ∀ r ∈ recs, r.Fits defaultMaxRecordBytes) :
    ∃ stats out, mergeInputs decode ⟨0, 0⟩ (s.spill sort).spillFiles = ⟨stats, out, none⟩ ∧
      out.Perm recs ∧ KeySorted out := by
  obtain ⟨runs', h', hbuffer⟩ := h.spill sort
  have hperm := h'.perm
  rw [hbuffer, List.append_nil] at hperm
  have hreads : Reads decode (MergeConfig.limit ⟨0, 0⟩) (s.spill sort).spillFiles runs' := by
    rw [h'.files]
    exact List.forall₂_map_left_iff.mpr <| List.forall₂_same.mpr fun run hrun =>
      readRecords_encodeAll (fun r hr => hdecode r (h'.mem_run hrun hr))
        fun r hr => hfits r (h'.mem_run hrun hr)
  obtain ⟨stats, hmerge⟩ := mergeInputs_ok hreads h'.sorted
    (fun run hrun r hr => hdecode r (h'.mem_run hrun hr))
    (.inr fun run hrun r hr => hfits r (h'.mem_run hrun hr))
  exact ⟨_, _, hmerge, (stableMerge_perm Record.key runs').trans hperm,
    (stable_stableMerge Record.key runs').sorted⟩

/-- The stream has the records in their order, if there are no files or if all records fit. -/
theorem finalize_ok
    (hfits : s.spillFiles = [] ∨ ∀ r ∈ recs, r.Fits defaultMaxRecordBytes) :
    ∃ out, s.finalize sort decode = ⟨encodeAll out, none⟩ ∧ out.Perm recs ∧ KeySorted out := by
  unfold SpillingSorter.finalize
  split
  · next hnil =>
    have hperm := h.perm
    rw [h.runs_nil hnil, List.flatten_nil, List.nil_append] at hperm
    exact ⟨_, rfl, (sort.perm _).trans hperm, sort.sorted _⟩
  · next hne =>
    have hfits := hfits.resolve_left fun hnil => hne (List.length_eq_zero_iff.mpr hnil)
    obtain ⟨stats, out, hmerge, hperm, hsorted⟩ := merge_ok sort h hdecode hfits
    rw [hmerge]
    exact ⟨out, rfl, hperm, hsorted⟩

/-- A record in a file does not fit, and the merge fails. -/
theorem finalize_tooLong (hne : s.spillFiles ≠ []) {r : Record} (hr : r ∈ recs)
    (hlong : ¬ r.Fits defaultMaxRecordBytes) : (s.finalize sort decode).err ≠ none := by
  obtain ⟨runs', h', hbuffer⟩ := h.spill sort
  have hmem := h'.perm.symm.subset hr
  rw [hbuffer, List.append_nil] at hmem
  obtain ⟨run, hrun, hr⟩ := List.mem_flatten.mp hmem
  unfold SpillingSorter.finalize
  rw [if_neg fun hnil => hne (List.length_eq_zero_iff.mp hnil)]
  refine mergeInputs_fails ⟨encodeAll run, ?_, ?_⟩
  · rw [h'.files]
    exact List.mem_map_of_mem hrun
  · exact readRecords_tooLong (fun r hr => hdecode r (h'.mem_run hrun hr)) hr hlong

end Finalize

/-- However often the sorter has spilled, its stream has the added records, sorted by key; and the
buffer has never reached the threshold after a record was added. -/
theorem finalize_sorted {sort : SliceSort} {decode : Line → Option Record} {thresholdBytes : Int}
    {recs : List Record} (hfits : ∀ r ∈ recs, r.Fits defaultMaxRecordBytes)
    (hdecode : ∀ r ∈ recs, decode (encodeRecord r) = some r) :
    (∃ out,
      (((newSpillingSorter thresholdBytes).addAll sort recs).finalize sort decode).err = none ∧
      readRecords decode defaultMaxRecordBytes
        (((newSpillingSorter thresholdBytes).addAll sort recs).finalize sort decode).bytes =
          some out ∧
      out.Perm recs ∧ KeySorted out) ∧
    ∀ added, added <+: recs →
      ((newSpillingSorter thresholdBytes).addAll sort added).buffered <
        ((newSpillingSorter thresholdBytes).addAll sort added).thresholdBytes := by
  refine ⟨?_, fun added _ => buffered_lt sort thresholdBytes added⟩
  obtain ⟨runs, h⟩ := sorting_addAll sort thresholdBytes recs
  obtain ⟨out, hfinal, hperm, hsorted⟩ := finalize_ok sort h hdecode (.inr hfits)
  rw [hfinal]
  refine ⟨out, rfl, ?_, hperm, hsorted⟩
  exact readRecords_encodeAll (fun r hr => hdecode r (hperm.subset hr))
    fun r hr => hfits r (hperm.subset hr)

theorem finalize_sorted_two :
    (∃ out,
      (((newSpillingSorter 1).addAll insertionSlice [word, angle]).finalize insertionSlice
        sampleDecode).err = none ∧
      readRecords sampleDecode defaultMaxRecordBytes
        (((newSpillingSorter 1).addAll insertionSlice [word, angle]).finalize insertionSlice
          sampleDecode).bytes = some out ∧
      out.Perm [word, angle] ∧ KeySorted out) ∧
    ∀ added, added <+: [word, angle] →
      ((newSpillingSorter 1).addAll insertionSlice added).buffered <
        ((newSpillingSorter 1).addAll insertionSlice added).thresholdBytes :=
  finalize_sorted (by decide +kernel) (by decide +kernel)

/-- With a threshold of one byte every record is a run of its own. -/
example : ((newSpillingSorter 1).addAll insertionSlice [word, angle]).finalize insertionSlice
    sampleDecode = ⟨encodeAll [angle, word], none⟩ := by
  decide +kernel

end KubeMapReduce
