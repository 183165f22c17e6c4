import Mathlib.Algebra.BigOperators.Intervals
import Mathlib.Data.String.Basic
import KubeMapReduce.Lib.Frames
import KubeMapReduce.Lib.Merge
import KubeMapReduce.Records

/-!
# The external merge

MergeInputs merges sorted streams of records with a heap. If there are more streams than it may
open at once, it merges them in batches to spill files, as often as it takes, and then merges the
files. A spill file has the records as the encoder writes them, and it is read with the same limit
on a line as the inputs. So a record that was read from an input can be too long in a later pass,
and whether there is a later pass depends on the batch size.

* `mergeInputs_stable`: the output is the stable merge of the inputs, if every line that is read
  fits.
* `mergeInputs_independent_iff`: for which inputs the batch size does not matter. `escaped_spill`
  are three readers that can be merged at once and not in batches of two.
-/

namespace KubeMapReduce

open Lines Merging

variable {batches : List (List Bytes)} {ls : List Bytes} {fuel : Nat} {r : Record}

/-! ## 1. One pass -/

inductive ReadErr where
  | malformed
  | tooLong
deriving DecidableEq

section Merge

variable (decode : Line → Option Record) (maxBytes : Nat)

/-- The next record of a stream, from the lines that are still to be read. -/
def nextRecord : List Bytes → Pull Record (List Bytes) ReadErr
  | [] => .done
  | line :: rest =>
    match scanLine maxBytes line with
    | none => .fail .tooLong
    | some text =>
      match decode text with
      | none => .fail .malformed
      | some r => .item r rest

/-- The Less method of recordHeap. Go compares strings by their bytes; in UTF-8 this is the order of
the characters. -/
def recordHeapLess (x y : Item Record (List Bytes)) : Bool :=
  if x.record.key = y.record.key then decide (x.index < y.index)
  else decide (x.record.key < y.record.key)

/-- The merge has the order of recordHeap. -/
theorem recordHeapLess_iff (x y : Item Record (List Bytes)) :
    recordHeapLess x y = true ↔ x.rank Record.key < y.rank Record.key := by
  rw [Item.rank, Item.rank, Prod.Lex.toLex_lt_toLex, recordHeapLess]
  split
  · next h => simp [h]
  · next h => simp [h]

/-- The records that are written, and the stream that ends the merge with an error. -/
def heapMerge (readers : List Bytes) : List Record × Option (Nat × ReadErr) :=
  merge (nextRecord decode maxBytes) Record.key List.length (readers.map (lines isNewline))

/-! ## 2. Several passes -/

structure MergeConfig where
  batchSize : Int
  maxRecordBytes : Int

def maxBatchSize : Nat := 900

def defaultMaxRecordBytes : Nat := 1048576

/-- The batch size after the checks. -/
def MergeConfig.batch (cfg : MergeConfig) : Nat :=
  min (if cfg.batchSize ≤ 1 then 500 else cfg.batchSize.toNat) maxBatchSize

def recordLimit (maxRecordBytes : Int) : Nat :=
  if maxRecordBytes ≤ 0 then defaultMaxRecordBytes else maxRecordBytes.toNat

/-- The limit on a line after the checks. -/
def MergeConfig.limit (cfg : MergeConfig) : Nat := recordLimit cfg.maxRecordBytes

structure MergeStats where
  totalPasses : Nat
  peakOpenStreams : Nat
  spillCount : Nat
  totalRecords : Nat
deriving DecidableEq

/-- An error of the last merge, or one of a merge to a spill file. -/
inductive MergeErr where
  | stream (index : Nat) (cause : ReadErr)
  | toSpillFile (index : Nat) (cause : ReadErr)
deriving DecidableEq

/-- What MergeInputs returns, and the records that it has written to its writer. -/
structure Merged where
  stats : MergeStats
  written : List Record
  err : Option MergeErr
deriving DecidableEq

/-- A merge to the writer, under these statistics. -/
def mergeTo (stats : MergeStats) (inputs : List Bytes) : Merged :=
  match heapMerge decode maxBytes inputs with
  | (out, some (i, e)) => ⟨stats, out, some (.stream i e)⟩
  | (out, none) => ⟨{ stats with totalRecords := out.length }, out, none⟩

/-- The batches of a pass, each to its spill file. -/
def spillBatches : List (List Bytes) → MergeStats →
    Except (MergeErr × MergeStats) (List Bytes × MergeStats)
  | [], stats => .ok ([], stats)
  | batch :: rest, stats =>
    let stats := { stats with
      peakOpenStreams := max stats.peakOpenStreams batch.length
      spillCount := stats.spillCount + 1 }
    match heapMerge decode maxBytes batch with
    | (_, some (i, e)) => .error (.toSpillFile i e, stats)
    | (out, none) =>
      match spillBatches rest stats with
      | .error e => .error e
      | .ok (files, stats) => .ok (encodeAll out :: files, stats)

def lastPass (inputs : List Bytes) (stats : MergeStats) : Merged :=
  mergeTo decode maxBytes { stats with
    totalPasses := stats.totalPasses + 1
    peakOpenStreams := max stats.peakOpenStreams inputs.length } inputs

/-- The passes; every one leaves fewer streams, so that their number is enough fuel. -/
def mergePasses (B : Nat) : Nat → List Bytes → MergeStats → Merged
  | 0, inputs, stats => lastPass decode maxBytes inputs stats
  | fuel + 1, inputs, stats =>
    if inputs.length > B then
      match spillBatches decode maxBytes (Frames.pieces B inputs.length inputs)
        { stats with totalPasses := stats.totalPasses + 1 } with
      | .error (e, stats) => ⟨stats, [], some e⟩
      | .ok (files, stats) => mergePasses B fuel files stats
    else lastPass decode maxBytes inputs stats

def mergeInputs (cfg : MergeConfig) (readers : List Bytes) : Merged :=
  if readers.length = 0 then ⟨⟨0, 0, 0, 0⟩, [], none⟩
  else if readers.length ≤ cfg.batch then
    mergeTo decode cfg.limit ⟨1, readers.length, 0, 0⟩ readers
  else mergePasses decode cfg.limit cfg.batch readers.length readers ⟨0, 0, 0, 0⟩

end Merge

theorem MergeConfig.two_le_batch (cfg : MergeConfig) : 2 ≤ cfg.batch := by
  unfold MergeConfig.batch maxBatchSize
  split <;> omega

theorem MergeConfig.batch_le (cfg : MergeConfig) : cfg.batch ≤ 900 := by
  unfold MergeConfig.batch maxBatchSize
  omega

/-- A batch size within the limits is left as it is. -/
theorem MergeConfig.batch_eq {n : Nat} (hn : 2 ≤ n) (hn' : n ≤ 900) (maxRecordBytes : Int) :
    MergeConfig.batch ⟨n, maxRecordBytes⟩ = n := by
  unfold MergeConfig.batch maxBatchSize
  dsimp only
  rw [if_neg (by omega), Int.toNat_natCast, Nat.min_eq_left hn']

/-! ## 3. Streams that are read -/

section Streams

variable {decode : Line → Option Record} {maxBytes : Nat} {inputs : List Bytes}
  {rss : List (List Record)} {stats : MergeStats}

/-- The inputs are streams of these records. -/
def Reads (decode : Line → Option Record) (maxBytes : Nat) :
    List Bytes → List (List Record) → Prop :=
  List.Forall₂ fun input rs => readRecords decode maxBytes input = some rs

/-- The records have the order of their keys. -/
def KeySorted (rs : List Record) : Prop := rs.Pairwise (·.key ≤ ·.key)

instance (rs : List Record) : Decidable (KeySorted rs) :=
  inferInstanceAs (Decidable (rs.Pairwise _))

variable (decode maxBytes) in
/-- The three answers for a line. -/
theorem nextRecord_cons (line : Bytes) (ls : List Bytes) :
    (scanLine maxBytes line = none ∧ nextRecord decode maxBytes (line :: ls) = .fail .tooLong) ∨
    (∃ text, scanLine maxBytes line = some text ∧ decode text = none ∧
      nextRecord decode maxBytes (line :: ls) = .fail .malformed) ∨
    ∃ text r, scanLine maxBytes line = some text ∧ decode text = some r ∧
      nextRecord decode maxBytes (line :: ls) = .item r ls := by
  cases hscan : scanLine maxBytes line with
  | none => exact .inl ⟨rfl, by simp only [nextRecord, hscan]⟩
  | some text =>
    cases hdecode : decode text with
    | none => exact .inr (.inl ⟨text, rfl, hdecode, by simp only [nextRecord, hscan, hdecode]⟩)
    | some r => exact .inr (.inr ⟨text, r, rfl, hdecode, by simp only [nextRecord, hscan, hdecode]⟩)

theorem nextRecord_length {rest : List Bytes} (h : nextRecord decode maxBytes ls = .item r rest) :
    rest.length < ls.length := by
  cases ls with
  | nil => cases h
  | cons line ls =>
    obtain ⟨_, hn⟩ | ⟨_, _, _, hn⟩ | ⟨_, _, _, _, hn⟩ :=
      nextRecord_cons decode maxBytes line ls
    all_goals
      rw [hn] at h
      cases h
    exact Nat.lt_succ_self _

theorem yields_of_records {rs : List Record} (h : records decode maxBytes ls = some rs) :
    Yields (nextRecord decode maxBytes) ls rs := by
  induction ls generalizing rs with
  | nil =>
    cases h
    exact .done rfl
  | cons line ls ih =>
    obtain ⟨hscan, _⟩ | ⟨_, hscan, hdecode, _⟩ | ⟨_, _, hscan, hdecode, hnext⟩ :=
      nextRecord_cons decode maxBytes line ls
    · simp [records, hscan] at h
    · simp [records, hscan, hdecode] at h
    · simp only [records, hscan, Option.bind_some, hdecode] at h
      obtain ⟨rs', hrs', rfl⟩ := Option.map_eq_some_iff.mp h
      exact .item hnext (ih hrs')

theorem fails_of_records (h : records decode maxBytes ls = none) :
    Fails (nextRecord decode maxBytes) ls := by
  induction ls with
  | nil => cases h
  | cons line ls ih =>
    obtain ⟨_, hnext⟩ | ⟨_, _, _, hnext⟩ | ⟨_, _, hscan, hdecode, hnext⟩ :=
      nextRecord_cons decode maxBytes line ls
    · exact .now hnext
    · exact .now hnext
    · refine .later hnext (ih ?_)
      simpa [records, hscan, hdecode] using h

theorem heapMerge_ok (hreads : Reads decode maxBytes inputs rss)
    (hsorted : ∀ rs ∈ rss, KeySorted rs) :
    heapMerge decode maxBytes inputs = (stableMerge Record.key rss, none) := by
  refine merge_yields nextRecord_length ?_ hsorted
  exact List.forall₂_map_left_iff.mpr (hreads.imp fun _ _ => yields_of_records)

theorem heapMerge_fails (h : ∃ input ∈ inputs, readRecords decode maxBytes input = none) :
    ∃ e, (heapMerge decode maxBytes inputs).2 = some e := by
  obtain ⟨input, hmem, hnone⟩ := h
  exact merge_fails nextRecord_length ⟨_, List.mem_map_of_mem hmem, fails_of_records hnone⟩

/-- The spill files of a pass over streams that are read. -/
theorem spillBatches_ok {rsss : List (List (List Record))}
    (hreads : List.Forall₂ (Reads decode maxBytes) batches rsss)
    (hsorted : ∀ rss ∈ rsss, ∀ rs ∈ rss, KeySorted rs) (stats : MergeStats) :
    ∃ stats' : MergeStats, spillBatches decode maxBytes batches stats =
      .ok (rsss.map fun rss => encodeAll (stableMerge Record.key rss), stats') := by
  induction hreads generalizing stats with
  | nil => exact ⟨stats, rfl⟩
  | cons hbatch _ ih =>
    obtain ⟨hfirst, hsorted⟩ := List.forall_mem_cons.mp hsorted
    unfold spillBatches
    rw [heapMerge_ok hbatch hfirst]
    dsimp only
    obtain ⟨stats', hrest⟩ := ih hsorted _
    rw [hrest]
    exact ⟨stats', rfl⟩

theorem spillBatches_fails
    (h : ∃ batch ∈ batches, ∃ input ∈ batch, readRecords decode maxBytes input = none)
    (stats : MergeStats) : ∃ e, spillBatches decode maxBytes batches stats = .error e := by
  induction batches generalizing stats with
  | nil =>
    obtain ⟨_, hmem, _⟩ := h
    cases hmem
  | cons batch rest ih =>
    unfold spillBatches
    dsimp only
    split
    · exact ⟨_, rfl⟩
    · next out hmerge =>
      obtain ⟨batch', hmem, hbad⟩ := h
      rcases List.mem_cons.mp hmem with rfl | hmem
      · obtain ⟨e, he⟩ := heapMerge_fails hbad
        rw [hmerge] at he
        cases he
      · obtain ⟨e, he⟩ := ih ⟨batch', hmem, hbad⟩ _
        rw [he]
        exact ⟨e, rfl⟩

theorem mergeTo_ok (hreads : Reads decode maxBytes inputs rss)
    (hsorted : ∀ rs ∈ rss, KeySorted rs) :
    mergeTo decode maxBytes stats inputs =
      ⟨{ stats with totalRecords := (stableMerge Record.key rss).length },
        stableMerge Record.key rss, none⟩ := by
  unfold mergeTo
  rw [heapMerge_ok hreads hsorted]

theorem mergeTo_fails (h : ∃ input ∈ inputs, readRecords decode maxBytes input = none) :
    (mergeTo decode maxBytes stats inputs).err ≠ none := by
  obtain ⟨e, he⟩ := heapMerge_fails h
  unfold mergeTo
  split
  · exact Option.some_ne_none _
  · next hmerge =>
    rw [hmerge] at he
    cases he

theorem mergePasses_fails {B : Nat} (hB : 0 < B)
    (h : ∃ input ∈ inputs, readRecords decode maxBytes input = none) :
    (mergePasses decode maxBytes B fuel inputs stats).err ≠ none := by
  cases fuel with
  | zero => exact mergeTo_fails h
  | succ fuel =>
    unfold mergePasses
    split
    · obtain ⟨input, hmem, hnone⟩ := h
      rw [← Frames.pieces_flatten hB (Nat.le_refl inputs.length)] at hmem
      obtain ⟨batch, hbatch, hmem⟩ := List.mem_flatten.mp hmem
      obtain ⟨e, he⟩ := spillBatches_fails ⟨batch, hbatch, input, hmem, hnone⟩
        { stats with totalPasses := stats.totalPasses + 1 }
      rw [he]
      exact Option.some_ne_none _
    · exact mergeTo_fails h

end Streams

/-! ## 4. The output -/

section Output

variable {decode : Line → Option Record} {maxBytes B : Nat} {inputs : List Bytes}
  {rss : List (List Record)} {stats : MergeStats}

theorem mem_stableMerge : r ∈ stableMerge Record.key rss ↔ ∃ rs ∈ rss, r ∈ rs := by
  rw [(stable_stableMerge Record.key rss).mem_iff, List.mem_flatten]

theorem ceilDiv_lt {n : Nat} (hB : 2 ≤ B) (hlt : B < n) : n ⌈/⌉ B < n := by
  rw [Nat.ceilDiv_eq_add_pred_div, Nat.div_lt_iff_lt_mul (by omega)]
  have := Nat.mul_le_mul_left n hB
  omega

/-- The records of the spill files after a pass over `n` streams. -/
def spilled (B n : Nat) (rss : List (List Record)) : List (List Record) :=
  (Frames.pieces B n rss).map (stableMerge Record.key)

theorem spilled_sorted (B n : Nat) (rss : List (List Record)) :
    ∀ rs ∈ spilled B n rss, KeySorted rs := by
  intro rs hrs
  obtain ⟨batch, _, rfl⟩ := List.mem_map.mp hrs
  exact (stable_stableMerge Record.key batch).sorted

section Spilled

variable {n : Nat} (hB : 0 < B) (hn : rss.length ≤ n)
include hB hn

theorem length_spilled : (spilled B n rss).length = rss.length ⌈/⌉ B := by
  rw [spilled, List.length_map, Frames.length_pieces hB hn]

/-- The files of a pass have the same stable merge as its inputs. -/
theorem stableMerge_spilled :
    stableMerge Record.key (spilled B n rss) = stableMerge Record.key rss := by
  refine Stable.unique ?_ (stable_stableMerge Record.key rss)
  have hparts : List.Forall₂ (Stable Record.key) ((Frames.pieces B n rss).map List.flatten)
      (spilled B n rss) := by
    refine List.forall₂_map_left_iff.mpr (List.forall₂_map_right_iff.mpr ?_)
    exact List.forall₂_same.mpr fun batch _ => stable_stableMerge Record.key batch
  have h := Stable.of_parts hparts (stable_stableMerge Record.key _)
  rwa [← List.flatten_flatten, Frames.pieces_flatten hB hn] at h

theorem mem_spilled : (∃ rs ∈ spilled B n rss, r ∈ rs) ↔ ∃ rs ∈ rss, r ∈ rs := by
  rw [← mem_stableMerge, stableMerge_spilled hB hn, mem_stableMerge]

theorem forall_spilled {P : Record → Prop} (h : ∀ rs ∈ rss, ∀ r ∈ rs, P r) :
    ∀ rs ∈ spilled B n rss, ∀ r ∈ rs, P r := by
  intro file hfile r hr
  obtain ⟨rs, hrs, hr⟩ := (mem_spilled hB hn).mp ⟨file, hfile, hr⟩
  exact h rs hrs r hr

end Spilled

variable (hreads : Reads decode maxBytes inputs rss) (hsorted : ∀ rs ∈ rss, KeySorted rs)
  (hdecode : ∀ rs ∈ rss, ∀ r ∈ rs, decode (encodeRecord r) = some r)
include hreads hsorted

/-- The files of one pass. -/
theorem spill_pass (hB : 0 < B) (stats : MergeStats) :
    ∃ stats', spillBatches decode maxBytes (Frames.pieces B inputs.length inputs) stats =
      .ok ((spilled B inputs.length rss).map encodeAll, stats') := by
  rw [spilled, List.map_map]
  refine spillBatches_ok (Frames.forall₂_pieces B inputs.length hreads)
    (fun batch hbatch rs hrs => hsorted rs ?_) stats
  rw [← Frames.pieces_flatten hB (Nat.le_of_eq hreads.length_eq.symm)]
  exact List.mem_flatten_of_mem hbatch hrs

include hdecode

/-- Streams that are read are merged in passes if the spill files can be read. -/
theorem mergePasses_ok (hB : 2 ≤ B) (hfuel : inputs.length ≤ fuel)
    (hfits : ∀ rs ∈ rss, ∀ r ∈ rs, r.Fits maxBytes) :
    ∃ stats' : MergeStats, mergePasses decode maxBytes B fuel inputs stats =
      ⟨{ stats' with totalRecords := (stableMerge Record.key rss).length },
        stableMerge Record.key rss, none⟩ := by
  have hpos : 0 < B := Nat.lt_of_lt_of_le Nat.zero_lt_two hB
  induction fuel generalizing inputs rss stats with
  | zero => exact ⟨_, mergeTo_ok hreads hsorted⟩
  | succ fuel ih =>
    unfold mergePasses
    split
    · next hlt =>
      have hlen := Nat.le_of_eq hreads.length_eq.symm
      obtain ⟨stats', hspill⟩ := spill_pass hreads hsorted hpos
        { stats with totalPasses := stats.totalPasses + 1 }
      rw [hspill]
      have hdecode' := forall_spilled hpos hlen hdecode
      have hfits' := forall_spilled hpos hlen hfits
      have hreads' : Reads decode maxBytes ((spilled B inputs.length rss).map encodeAll)
          (spilled B inputs.length rss) :=
        List.forall₂_map_left_iff.mpr <| List.forall₂_same.mpr fun rs hrs =>
          readRecords_encodeAll (hdecode' rs hrs) (hfits' rs hrs)
      have hfewer := ceilDiv_lt hB hlt
      rw [← stableMerge_spilled hpos hlen]
      refine ih hreads' (spilled_sorted _ _ _) hdecode' ?_ hfits'
      rw [List.length_map, length_spilled hpos hlen, ← hreads.length_eq]
      omega
    · exact ⟨_, mergeTo_ok hreads hsorted⟩

/-- A record that does not fit is in a spill file, and the next pass does not read it. -/
theorem mergePasses_tooLong (hB : 2 ≤ B) (hlt : B < inputs.length)
    (hlong : ∃ rs ∈ rss, ∃ r ∈ rs, ¬ r.Fits maxBytes) :
    (mergePasses decode maxBytes B (fuel + 1) inputs stats).err ≠ none := by
  have hpos : 0 < B := Nat.lt_of_lt_of_le Nat.zero_lt_two hB
  have hlen := Nat.le_of_eq hreads.length_eq.symm
  obtain ⟨stats', hspill⟩ := spill_pass hreads hsorted hpos
    { stats with totalPasses := stats.totalPasses + 1 }
  unfold mergePasses
  rw [if_pos hlt, hspill]
  refine mergePasses_fails hpos ?_
  obtain ⟨rs, hrs, r, hr, hlong⟩ := hlong
  obtain ⟨file, hfile, hr⟩ := (mem_spilled hpos hlen).mpr ⟨rs, hrs, hr⟩
  exact ⟨encodeAll file, List.mem_map_of_mem hfile,
    readRecords_tooLong (forall_spilled hpos hlen hdecode file hfile) hr hlong⟩

end Output

/-! ## 5. MergeInputs -/

section Inputs

variable {decode : Line → Option Record} {cfg : MergeConfig} {readers : List Bytes}
  {rss : List (List Record)}

/-- The records of a merge that has succeeded. -/
def Merged.result (m : Merged) : Option (List Record) :=
  match m.err with
  | none => some m.written
  | some _ => none

theorem Merged.result_eq_none {m : Merged} (h : m.err ≠ none) : m.result = none := by
  unfold Merged.result
  split
  · next hnone => exact absurd hnone h
  · rfl

/-- What is in the writer. -/
def Merged.output (m : Merged) : Bytes := encodeAll m.written

theorem mergeInputs_fails (h : ∃ input ∈ readers, readRecords decode cfg.limit input = none) :
    (mergeInputs decode cfg readers).err ≠ none := by
  have hne : readers.length ≠ 0 := by
    obtain ⟨_, hmem, _⟩ := h
    exact Nat.ne_of_gt (List.length_pos_of_mem hmem)
  unfold mergeInputs
  rw [if_neg hne]
  split
  · exact mergeTo_fails h
  · exact mergePasses_fails (Nat.lt_of_lt_of_le Nat.zero_lt_two cfg.two_le_batch) h

variable (hreads : Reads decode cfg.limit readers rss) (hsorted : ∀ rs ∈ rss, KeySorted rs)
  (hdecode : ∀ rs ∈ rss, ∀ r ∈ rs, decode (encodeRecord r) = some r)
include hreads hsorted hdecode

theorem mergeInputs_ok
    (hfits : readers.length ≤ cfg.batch ∨ ∀ rs ∈ rss, ∀ r ∈ rs, r.Fits cfg.limit) :
    ∃ stats : MergeStats, mergeInputs decode cfg readers =
      ⟨{ stats with totalRecords := (stableMerge Record.key rss).length },
        stableMerge Record.key rss, none⟩ := by
  unfold mergeInputs
  split
  · next hnil =>
    cases List.length_eq_zero_iff.mp hnil
    cases hreads
    exact ⟨⟨0, 0, 0, 0⟩, rfl⟩
  split
  · exact ⟨_, mergeTo_ok hreads hsorted⟩
  · next hmany =>
    exact mergePasses_ok hreads hsorted hdecode cfg.two_le_batch (Nat.le_refl _)
      (hfits.resolve_left hmany)

theorem mergeInputs_tooLong (hmany : cfg.batch < readers.length)
    (hlong : ∃ rs ∈ rss, ∃ r ∈ rs, ¬ r.Fits cfg.limit) :
    (mergeInputs decode cfg readers).err ≠ none := by
  have hpos : readers.length ≠ 0 := by omega
  obtain ⟨fuel, hfuel⟩ := Nat.exists_eq_succ_of_ne_zero hpos
  unfold mergeInputs
  rw [if_neg hpos, if_neg (Nat.not_le.mpr hmany)]
  rw [hfuel]
  exact mergePasses_tooLong hreads hsorted hdecode cfg.two_le_batch hmany hlong

/-- When a merge of sorted streams succeeds, and with which result. -/
theorem mergeInputs_result : (mergeInputs decode cfg readers).result =
    if readers.length ≤ cfg.batch ∨ ∀ rs ∈ rss, ∀ r ∈ rs, r.Fits cfg.limit
    then some (stableMerge Record.key rss) else none := by
  split
  · next hfits =>
    obtain ⟨stats, h⟩ := mergeInputs_ok hreads hsorted hdecode hfits
    rw [h]
    rfl
  · next hnot =>
    obtain ⟨hmany, hfits⟩ := not_or.mp hnot
    have hlong : ∃ rs ∈ rss, ∃ r ∈ rs, ¬ r.Fits cfg.limit := by simpa using hfits
    exact Merged.result_eq_none
      (mergeInputs_tooLong hreads hsorted hdecode (Nat.not_le.mp hmany) hlong)

end Inputs

/-! Two records for the examples; the line of the first one is shorter in the input than the encoder
writes it. -/

def angle : Record := ⟨"<", ""⟩

def word : Record := ⟨"a", "1"⟩

def angleLine : Line := utf8 "\x7b\"key\":\"<\",\"value\":\"\"\x7d".toList

def sampleDecode (line : Line) : Option Record :=
  if line = angleLine ∨ line = encodeRecord angle then some angle
  else if line = encodeRecord word then some word else none

/-- Sorted streams are merged to the stable merge, whatever the batch size, if every line that is
read fits: those of the inputs, and with a second pass those of the spill files. -/
theorem mergeInputs_stable {decode : Line → Option Record} {cfg : MergeConfig}
    {readers : List Bytes} {rss : List (List Record)} (hreads : Reads decode cfg.limit readers rss)
    (hsorted : ∀ rs ∈ rss, KeySorted rs)
    (hdecode : ∀ rs ∈ rss, ∀ r ∈ rs, decode (encodeRecord r) = some r)
    (hspills : readers.length ≤ cfg.batch ∨ ∀ rs ∈ rss, ∀ r ∈ rs, r.Fits cfg.limit) :
    (mergeInputs decode cfg readers).err = none ∧
    (mergeInputs decode cfg readers).output = encodeAll (stableMerge Record.key rss) ∧
    (mergeInputs decode cfg readers).stats.totalRecords = (rss.map List.length).sum := by
  obtain ⟨stats, h⟩ := mergeInputs_ok hreads hsorted hdecode hspills
  rw [h]
  exact ⟨rfl, rfl, (stableMerge_perm Record.key rss).length_eq.trans List.length_flatten⟩

theorem mergeInputs_stable_three :
    (mergeInputs sampleDecode ⟨2, 0⟩
      [encodeAll [angle, word], encodeAll [word], encodeAll [angle]]).err = none ∧
    (mergeInputs sampleDecode ⟨2, 0⟩
      [encodeAll [angle, word], encodeAll [word], encodeAll [angle]]).output =
      encodeAll (stableMerge Record.key [[angle, word], [word], [angle]]) ∧
    (mergeInputs sampleDecode ⟨2, 0⟩
      [encodeAll [angle, word], encodeAll [word], encodeAll [angle]]).stats.totalRecords = 4 :=
  mergeInputs_stable
    (.cons (by decide +kernel) (.cons (by decide +kernel) (.cons (by decide +kernel) .nil)))
    (by decide +kernel) (by decide +kernel) (.inr (by decide +kernel))

/-! ## 6. The batch size -/

section Batch

variable {decode : Line → Option Record} {maxBytes : Nat} {readers : List Bytes}

/-- The streams of readers that can all be read. -/
theorem reads_filterMap (h : ¬ ∃ input ∈ readers, readRecords decode maxBytes input = none) :
    Reads decode maxBytes readers (readers.filterMap (readRecords decode maxBytes)) := by
  induction readers with
  | nil => exact .nil
  | cons input readers ih =>
    cases hread : readRecords decode maxBytes input with
    | none => exact absurd ⟨input, List.mem_cons_self, hread⟩ h
    | some rs =>
      rw [List.filterMap_cons_some hread]
      exact .cons hread (ih fun ⟨i, hi, hnone⟩ => h ⟨i, List.mem_cons_of_mem _ hi, hnone⟩)

end Batch

/-- The batch size does not matter exactly if an input cannot be read, if the merge has one pass for
every batch size or several for every one, or if every record fits as it is encoded. -/
theorem mergeInputs_independent_iff {decode : Line → Option Record} {maxRecordBytes : Int}
    {readers : List Bytes}
    (hinputs : ∀ input ∈ readers, ∀ rs,
      readRecords decode (recordLimit maxRecordBytes) input = some rs →
      KeySorted rs ∧ ∀ r ∈ rs, decode (encodeRecord r) = some r) :
    (∀ batchSize batchSize', (mergeInputs decode ⟨batchSize, maxRecordBytes⟩ readers).result =
      (mergeInputs decode ⟨batchSize', maxRecordBytes⟩ readers).result) ↔
    (∃ input ∈ readers, readRecords decode (recordLimit maxRecordBytes) input = none) ∨
    readers.length ≤ 2 ∨ 900 < readers.length ∨
    ∀ input ∈ readers, ∀ rs, readRecords decode (recordLimit maxRecordBytes) input = some rs →
      ∀ r ∈ rs, r.Fits (recordLimit maxRecordBytes) := by
  by_cases hbad : ∃ input ∈ readers, readRecords decode (recordLimit maxRecordBytes) input = none
  · refine iff_of_true (fun b b' => ?_) (.inl hbad)
    have hfails : ∀ b, (mergeInputs decode ⟨b, maxRecordBytes⟩ readers).result = none :=
      fun b => Merged.result_eq_none (mergeInputs_fails hbad)
    rw [hfails b, hfails b']
  have hreads := reads_filterMap hbad
  have hresult : ∀ b, (mergeInputs decode ⟨b, maxRecordBytes⟩ readers).result =
      if readers.length ≤ MergeConfig.batch ⟨b, maxRecordBytes⟩ ∨
        ∀ rs ∈ readers.filterMap (readRecords decode (recordLimit maxRecordBytes)),
          ∀ r ∈ rs, r.Fits (recordLimit maxRecordBytes)
      then some (stableMerge Record.key
        (readers.filterMap (readRecords decode (recordLimit maxRecordBytes)))) else none := by
    intro b
    refine mergeInputs_result hreads (fun rs hrs => ?_) fun rs hrs => ?_
    all_goals obtain ⟨input, hinput, hread⟩ := List.mem_filterMap.mp hrs
    · exact (hinputs input hinput rs hread).1
    · exact (hinputs input hinput rs hread).2
  have hfits : (∀ rs ∈ readers.filterMap (readRecords decode (recordLimit maxRecordBytes)),
      ∀ r ∈ rs, r.Fits (recordLimit maxRecordBytes)) ↔
      ∀ input ∈ readers, ∀ rs, readRecords decode (recordLimit maxRecordBytes) input = some rs →
        ∀ r ∈ rs, r.Fits (recordLimit maxRecordBytes) := by
    simp only [List.mem_filterMap, forall_exists_index, and_imp]
    exact ⟨fun h input hinput rs hread => h rs input hinput hread,
      fun h rs input hinput hread => h input hinput rs hread⟩
  rw [or_iff_right hbad, ← hfits]
  constructor
  · intro h
    by_contra hnot
    obtain ⟨hthree, hmany, hlong⟩ : 2 < readers.length ∧ readers.length ≤ 900 ∧ ¬ _ := by
      simpa only [not_or, not_le, not_lt] using hnot
    -- two streams at once are not enough, and all of them at once are
    have htwo := h (2 : Nat) readers.length
    rw [hresult, hresult, MergeConfig.batch_eq (by omega) (by omega),
      MergeConfig.batch_eq (by omega) hmany, if_neg (not_or.mpr ⟨by omega, hlong⟩),
      if_pos (.inl (Nat.le_refl _))] at htwo
    cases htwo
  · rintro (htwo | hmany | hfits) b b'
    · rw [hresult, hresult, if_pos (.inl (htwo.trans (MergeConfig.two_le_batch _))),
        if_pos (.inl (htwo.trans (MergeConfig.two_le_batch _)))]
    · have hlt : ∀ b, ¬ readers.length ≤ MergeConfig.batch ⟨b, maxRecordBytes⟩ := fun b =>
        Nat.not_le.mpr (Nat.lt_of_le_of_lt (MergeConfig.batch_le _) hmany)
      rw [hresult, hresult]
      simp only [hlt, false_or]
    · rw [hresult, hresult, if_pos (.inr hfits), if_pos (.inr hfits)]

theorem mergeInputs_independent_words :
    (mergeInputs sampleDecode ⟨2, 25⟩ (List.replicate 3 (encodeAll [word]))).result =
      (mergeInputs sampleDecode ⟨3, 25⟩ (List.replicate 3 (encodeAll [word]))).result := by
  have hread : readRecords sampleDecode (recordLimit 25) (encodeAll [word]) = some [word] := by
    decide +kernel
  refine (mergeInputs_independent_iff fun input hinput rs hrs => ?_).mpr
    (.inr (.inr (.inr fun input hinput rs hrs => ?_))) 2 3
  all_goals
    rw [List.eq_of_mem_replicate hinput, hread] at hrs
    cases hrs
  · decide +kernel
  · decide +kernel

/-- Three readers whose lines have 23 bytes. At once they are merged; in batches of two the last
pass finds a line of 28 bytes. -/
theorem escaped_spill :
    (∀ line ∈ lines isNewline (angleLine ++ newlineBytes), LineFits 25 line) ∧
    (mergeInputs sampleDecode ⟨3, 25⟩ (List.replicate 3 (angleLine ++ newlineBytes))).result =
      some [angle, angle, angle] ∧
    (mergeInputs sampleDecode ⟨2, 25⟩ (List.replicate 3 (angleLine ++ newlineBytes))).err =
      some (.stream 0 .tooLong) := by
  decide +kernel

end KubeMapReduce
