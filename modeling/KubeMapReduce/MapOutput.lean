import KubeMapReduce.SpillingSorter

/-!
# From the mapper's output to the partitions

runMap scans the output of the mapper, sorts its records, sends them through the combiner if there
is one and sorts them again, and scans the sorted stream to give every record to the writer of its
partition. The scanners have the same limit on a line. The first one sees a record as the user's
program has written it, the last one as the encoder writes it, and that can be six times as long.

* `collectOutput_ok`, `partitionStream_ok`, `partitionStream_tooLong`: the stages one by one.
* `mapStages_iff`: when all records reach their writers. `angles_lost` is a record of 200 kB that
  the first scanner accepts and the last one does not.
-/

namespace KubeMapReduce

open Lines

/-! ## 1. The stages -/

/-- A worker with the sort of its Map tasks. -/
structure MapWorker extends Worker where
  sort : SliceSort
  /-- A line with an opening brace is not blank. -/
  blank_brace : ∀ line, 123 ∈ line → blank line = false

inductive UserCode where
  | mapper
  | combiner
deriving DecidableEq

inductive StageErr where
  | decodeRecord (code : UserCode)
  | readOutput (code : UserCode)
  | wait (code : UserCode)
  | decodeSortedRecord
  | readSortedStream
deriving DecidableEq

/-- The lines of a scanner with a limit, and whether it stops at one that does not fit. -/
def scanAll (maxBytes : Nat) : List Bytes → List Line × Bool
  | [] => ([], false)
  | line :: rest =>
    match scanLine maxBytes line with
    | none => ([], true)
    | some text => (text :: (scanAll maxBytes rest).1, (scanAll maxBytes rest).2)

def scanOutput (output : Bytes) : List Line × Bool :=
  scanAll defaultMaxRecordBytes (lines isNewline output)

/-- The loop over the output of the user's code; `none` is a line that cannot be decoded. -/
def collectLines (w : MapWorker) : List Line → SpillingSorter → Option SpillingSorter
  | [], s => some s
  | line :: rest, s =>
    if w.blank line then collectLines w rest s else
    match w.decode line with
    | none => none
    | some rec => collectLines w rest (s.add w.sort rec)

/-- The output of the mapper or of the combiner goes to a sorter. -/
def collectOutput (w : MapWorker) (code : UserCode) (output : Bytes) (s : SpillingSorter) :
    Except StageErr SpillingSorter :=
  match collectLines w (scanOutput output).1 s with
  | none => .error (.decodeRecord code)
  | some s => if (scanOutput output).2 then .error (.readOutput code) else .ok s

/-- The sorted stream that is partitioned. The combiner reads all of its input and ends without an
error of its own, so that its wait returns the error of the stream it reads. -/
def sortedOutput (w : MapWorker) (thresholdBytes : Int) (mapOutput : Bytes)
    (combinerOutput : Option Bytes) : Except StageErr SortedStream :=
  match collectOutput w .mapper mapOutput (newSpillingSorter thresholdBytes) with
  | .error e => .error e
  | .ok sorter =>
    match combinerOutput with
    | none => .ok (sorter.finalize w.sort w.decode)
    | some output =>
      match collectOutput w .combiner output (newSpillingSorter thresholdBytes) with
      | .error e => .error e
      | .ok cSorter =>
        if (sorter.finalize w.sort w.decode).err.isSome then .error (.wait .combiner)
        else .ok (cSorter.finalize w.sort w.decode)

/-- The partition phase on a stream; the error of the stream comes after its lines. -/
def partitionStream (w : MapWorker) (a : TaskAssignment) (stream : SortedStream) :
    Except StageErr Partitions :=
  match partitionLines w.toWorker a a.reducers (scanOutput stream.bytes).1 .empty with
  | .error .decodeSortedRecord => .error .decodeSortedRecord
  | .ok st =>
    if (scanOutput stream.bytes).2 || stream.err.isSome then .error .readSortedStream else .ok st

/-- runMap from the output of the mapper up to the writers. -/
def mapStages (w : MapWorker) (a : TaskAssignment) (thresholdBytes : Int) (mapOutput : Bytes)
    (combinerOutput : Option Bytes) : Except StageErr Partitions :=
  match sortedOutput w thresholdBytes mapOutput combinerOutput with
  | .error e => .error e
  | .ok stream => partitionStream w a stream

/-! ## 2. The output of the user's code -/

section Collect

variable {w : MapWorker} {output : Bytes} {recs : List Record}

/-- The records of these lines; `none` if one cannot be decoded. -/
def decodeLines (w : MapWorker) : List Line → Option (List Record)
  | [] => some []
  | line :: rest =>
    if w.blank line then decodeLines w rest else
    match w.decode line with
    | none => none
    | some rec => (decodeLines w rest).map (rec :: ·)

/-- The scanner accepts every line, and the lines decode to these records. -/
structure Accepts (w : MapWorker) (output : Bytes) (recs : List Record) : Prop where
  fits : (scanOutput output).2 = false
  decoded : decodeLines w (scanOutput output).1 = some recs

theorem collectLines_eq {ls : List Line} (h : decodeLines w ls = some recs) (s : SpillingSorter) :
    collectLines w ls s = some (s.addAll w.sort recs) := by
  induction ls generalizing recs s with
  | nil =>
    cases h
    rfl
  | cons line ls ih =>
    unfold decodeLines at h
    unfold collectLines
    split
    · next hblank =>
      rw [if_pos hblank] at h
      exact ih h s
    · next hblank =>
      rw [if_neg hblank] at h
      split at h
      · cases h
      · next rec _ =>
        obtain ⟨recs', hrecs', rfl⟩ := Option.map_eq_some_iff.mp h
        exact ih hrecs' _

theorem collectOutput_ok (h : Accepts w output recs) (code : UserCode) (s : SpillingSorter) :
    collectOutput w code output s = .ok (s.addAll w.sort recs) := by
  unfold collectOutput
  rw [collectLines_eq h.decoded, h.fits]
  rfl

end Collect

/-! ## 3. The partition phase -/

section Partition

variable {w : MapWorker} {a : TaskAssignment} {rs : List Record} {maxBytes : Nat}

theorem scanAll_encodeAll (hfits : ∀ r ∈ rs, r.Fits maxBytes) :
    scanAll maxBytes (lines isNewline (encodeAll rs)) = (rs.map encodeRecord, false) := by
  rw [lines_encodeAll]
  induction rs with
  | nil => rfl
  | cons r rs ih =>
    obtain ⟨hr, hfits⟩ := List.forall_mem_cons.mp hfits
    simp only [List.map_cons, scanAll, scanLine_encodeRecord, if_pos hr, ih hfits]

/-- A record that does not fit ends the scan, after some of the records. -/
theorem scanAll_tooLong {r : Record} (hr : r ∈ rs) (hlong : ¬ r.Fits maxBytes) :
    (scanAll maxBytes (lines isNewline (encodeAll rs))).2 = true ∧
      (scanAll maxBytes (lines isNewline (encodeAll rs))).1 <+: rs.map encodeRecord := by
  rw [lines_encodeAll]
  induction rs with
  | nil => cases hr
  | cons r' rs ih =>
    simp only [List.map_cons, scanAll, scanLine_encodeRecord]
    by_cases hfits : r'.Fits maxBytes
    · rw [if_pos hfits]
      rcases List.mem_cons.mp hr with rfl | hr
      · exact absurd hfits hlong
      · obtain ⟨hstop, hinit⟩ := ih hr
        exact ⟨hstop, List.cons_prefix_cons.mpr ⟨rfl, hinit⟩⟩
    · rw [if_neg hfits]
      exact ⟨rfl, List.nil_prefix⟩

theorem blank_encodeRecord (w : MapWorker) (r : Record) : w.blank (encodeRecord r) = false := by
  refine w.blank_brace _ (List.mem_append_left _ ?_)
  decide

theorem partitionLines_ok {ls : List Line} (h : ∀ line ∈ ls, (w.decode line).isSome)
    (st : Partitions) : ∃ st', partitionLines w.toWorker a a.reducers ls st = .ok st' := by
  induction ls generalizing st with
  | nil => exact ⟨st, rfl⟩
  | cons line ls ih =>
    obtain ⟨hline, h⟩ := List.forall_mem_cons.mp h
    obtain ⟨rec, hrec⟩ := Option.isSome_iff_exists.mp hline
    unfold partitionLines
    split
    · exact ih h st
    · rw [hrec]
      exact ih h _

theorem recordsOf_encode (hdecode : ∀ r ∈ rs, w.decode (encodeRecord r) = some r) :
    w.recordsOf (rs.map encodeRecord) = rs.map fun r => (encodeRecord r, r) := by
  rw [Worker.recordsOf, List.filterMap_map, ← List.filterMap_eq_map]
  refine List.filterMap_congr fun r hr => ?_
  simp [blank_encodeRecord, hdecode r hr]

variable (hdecode : ∀ r ∈ rs, w.decode (encodeRecord r) = some r)
include hdecode

theorem decodeLines_encode : decodeLines w (rs.map encodeRecord) = some rs := by
  induction rs with
  | nil => rfl
  | cons r rs ih =>
    obtain ⟨hr, hdecode⟩ := List.forall_mem_cons.mp hdecode
    simp [decodeLines, blank_encodeRecord, hr, ih hdecode]

theorem isSome_decode_encode : ∀ line ∈ rs.map encodeRecord, (w.decode line).isSome := by
  intro line hline
  obtain ⟨r, hr, rfl⟩ := List.mem_map.mp hline
  rw [hdecode r hr]
  rfl

/-- Every record of the stream is written. -/
theorem partitionStream_ok (hfits : ∀ r ∈ rs, r.Fits defaultMaxRecordBytes) :
    ∃ st, partitionStream w a ⟨encodeAll rs, none⟩ = .ok st ∧
      Written a a.reducers (rs.map fun r => (encodeRecord r, r)) st := by
  obtain ⟨st, hst⟩ := partitionLines_ok (a := a) (isSome_decode_encode hdecode) .empty
  have hwritten := (written_empty (a := a) (R := a.reducers)).lines hst
  rw [List.nil_append, recordsOf_encode hdecode] at hwritten
  refine ⟨st, ?_, hwritten⟩
  unfold partitionStream scanOutput
  rw [scanAll_encodeAll hfits]
  dsimp only
  rw [hst]
  rfl

theorem partitionStream_tooLong {r : Record} (hr : r ∈ rs)
    (hlong : ¬ r.Fits defaultMaxRecordBytes) :
    partitionStream w a ⟨encodeAll rs, none⟩ = .error .readSortedStream := by
  obtain ⟨hstop, hinit⟩ := scanAll_tooLong hr hlong
  obtain ⟨st, hst⟩ := partitionLines_ok (a := a)
    (fun line hline => isSome_decode_encode hdecode line (hinit.subset hline)) .empty
  unfold partitionStream scanOutput
  rw [hst, hstop]
  rfl

end Partition

/-! ## 4. All stages -/

/-- The stages have ended, and the writer of every partition has its records, in the order of their
keys. -/
def Delivered (a : TaskAssignment) (recs : List Record) (result : Except StageErr Partitions) :
    Prop :=
  ∃ st out, result = .ok st ∧ out.Perm recs ∧ KeySorted out ∧
    Written a a.reducers (out.map fun r => (encodeRecord r, r)) st

section Stages

variable {w : MapWorker} {a : TaskAssignment} {thresholdBytes : Int} {recs : List Record}

theorem partitionStream_failed {stream : SortedStream} (h : stream.err ≠ none) (st : Partitions) :
    partitionStream w a stream ≠ .ok st := by
  have hsome := Option.isSome_iff_ne_none.mpr h
  unfold partitionStream
  split
  · exact nofun
  · rw [hsome, Bool.or_true, if_pos rfl]
    exact nofun

variable (hdecode : ∀ r ∈ recs, w.decode (encodeRecord r) = some r)
include hdecode

/-- The last sort and the partition phase. -/
theorem delivered_iff :
    Delivered a recs (partitionStream w a
      (((newSpillingSorter thresholdBytes).addAll w.sort recs).finalize w.sort w.decode)) ↔
    ∀ r ∈ recs, r.Fits defaultMaxRecordBytes := by
  obtain ⟨runs, h⟩ := sorting_addAll w.sort thresholdBytes recs
  constructor
  · rintro ⟨st, _, hok, _⟩
    by_contra hnot
    obtain ⟨r, hr, hlong⟩ : ∃ r ∈ recs, ¬ r.Fits defaultMaxRecordBytes := by simpa using hnot
    by_cases hfiles : ((newSpillingSorter thresholdBytes).addAll w.sort recs).spillFiles = []
    · obtain ⟨out, hfinal, hperm, _⟩ := finalize_ok w.sort h hdecode (.inl hfiles)
      rw [hfinal, partitionStream_tooLong (fun r hr => hdecode r (hperm.subset hr))
        (hperm.symm.subset hr) hlong] at hok
      cases hok
    · exact partitionStream_failed (finalize_tooLong w.sort h hdecode hfiles hr hlong) st hok
  · intro hfits
    obtain ⟨out, hfinal, hperm, hsorted⟩ := finalize_ok w.sort h hdecode (.inr hfits)
    obtain ⟨st, hok, hwritten⟩ := partitionStream_ok (a := a)
      (fun r hr => hdecode r (hperm.subset hr)) fun r hr => hfits r (hperm.subset hr)
    rw [hfinal]
    exact ⟨st, out, hok, hperm, hsorted, hwritten⟩

/-- When the first sorter of a task with a combiner can be read to its end. -/
theorem finalize_err_iff :
    (((newSpillingSorter thresholdBytes).addAll w.sort recs).finalize w.sort w.decode).err = none ↔
    ((newSpillingSorter thresholdBytes).addAll w.sort recs).spillFiles = [] ∨
      ∀ r ∈ recs, r.Fits defaultMaxRecordBytes := by
  obtain ⟨runs, h⟩ := sorting_addAll w.sort thresholdBytes recs
  constructor
  · intro hnone
    by_contra hnot
    obtain ⟨hfiles, hfits⟩ := not_or.mp hnot
    obtain ⟨r, hr, hlong⟩ : ∃ r ∈ recs, ¬ r.Fits defaultMaxRecordBytes := by simpa using hfits
    exact finalize_tooLong w.sort h hdecode hfiles hr hlong hnone
  · intro hfits
    obtain ⟨out, hfinal, _⟩ := finalize_ok w.sort h hdecode hfits
    rw [hfinal]

end Stages

/-- The records that were accepted reach their writers exactly if those of the last sorter fit as
they are encoded, and with a combiner also those of the mapper, unless they have all stayed in the
buffer. `combined` is the output of the combiner with its records. -/
theorem mapStages_iff {w : MapWorker} {a : TaskAssignment} {thresholdBytes : Int}
    {mapOutput : Bytes} {recs : List Record} {combined : Option (Bytes × List Record)}
    (hmap : Accepts w mapOutput recs) (hcombiner : ∀ c ∈ combined, Accepts w c.1 c.2)
    (hdecode : ∀ r ∈ recs, w.decode (encodeRecord r) = some r)
    (hdecodec : ∀ c ∈ combined, ∀ r ∈ c.2, w.decode (encodeRecord r) = some r) :
    Delivered a (combined.elim recs Prod.snd)
      (mapStages w a thresholdBytes mapOutput (combined.map Prod.fst)) ↔
    (∀ r ∈ combined.elim recs Prod.snd, r.Fits defaultMaxRecordBytes) ∧
      (combined.isSome →
        ((newSpillingSorter thresholdBytes).addAll w.sort recs).spillFiles = [] ∨
          ∀ r ∈ recs, r.Fits defaultMaxRecordBytes) := by
  unfold mapStages sortedOutput
  rw [collectOutput_ok hmap]
  cases combined with
  | none =>
    dsimp only [Option.elim_none, Option.map_none]
    rw [delivered_iff hdecode]
    simp
  | some c =>
    obtain ⟨output, crecs⟩ := c
    dsimp only [Option.elim_some, Option.map_some]
    rw [collectOutput_ok (hcombiner _ rfl), ← finalize_err_iff hdecode]
    dsimp only
    cases herr : (((newSpillingSorter thresholdBytes).addAll w.sort recs).finalize w.sort
      w.decode).err with
    | none =>
      rw [if_neg (by simp), delivered_iff (hdecodec _ rfl)]
      simp
    | some e =>
      refine iff_of_false ?_ (by simp)
      rintro ⟨st, _, hok, _⟩
      cases hok

/-- A worker that decodes in this way; only lines of ASCII spaces are blank. -/
def spaceWorker (decode : Line → Option Record) : MapWorker where
  hasShuffleClient := false
  blank line := line.all fun b => b == 32 || (decide (9 ≤ b) && decide (b ≤ 13))
  decode := decode
  sha256Hex _ := ""
  blank_newline := by decide
  sort := insertionSlice
  blank_brace line h := List.all_eq_false.mpr ⟨123, h, by decide⟩

def sampleTask : TaskAssignment := ⟨"job", "task", 2⟩

theorem mapStages_delivered :
    Delivered sampleTask [angle] (mapStages (spaceWorker sampleDecode) sampleTask 1
      (encodeAll [word, angle]) (some (encodeAll [angle]))) := by
  have hmap : Accepts (spaceWorker sampleDecode) (encodeAll [word, angle]) [word, angle] :=
    ⟨by decide +kernel, by decide +kernel⟩
  have hcombiner : ∀ c ∈ some (encodeAll [angle], [angle]),
      Accepts (spaceWorker sampleDecode) c.1 c.2 := by
    rintro _ ⟨⟩
    exact ⟨by decide +kernel, by decide +kernel⟩
  have hdecodec : ∀ c ∈ some (encodeAll [angle], [angle]), ∀ r ∈ c.2,
      (spaceWorker sampleDecode).decode (encodeRecord r) = some r := by
    rintro _ ⟨⟩
    decide +kernel
  exact (mapStages_iff hmap hcombiner (by decide +kernel) hdecodec).mpr
    ⟨by decide +kernel, fun _ => .inr (by decide +kernel)⟩

/-! ## 5. A record that is lost -/

section Angles

variable {n : Nat}

def angles (n : Nat) : Record := ⟨String.ofList (List.replicate n '<'), ""⟩

/-- The record without escapes, as a user's program can write it. -/
def anglesLine (n : Nat) : Line :=
  utf8 "\x7b\"key\":\"".toList ++
    (utf8 (List.replicate n '<') ++ utf8 "\",\"value\":\"\"\x7d".toList)

def anglesWorker (n : Nat) : MapWorker :=
  spaceWorker fun line =>
    if line = anglesLine n ∨ line = encodeRecord (angles n) then some (angles n) else none

theorem utf8_angles (n : Nat) : utf8 (List.replicate n '<') = List.replicate n 60 := by
  induction n with
  | zero => rfl
  | succ n ih =>
    rw [List.replicate_succ, List.replicate_succ, ← ih]
    rfl

theorem length_anglesLine (n : Nat) : (anglesLine n).length = n + 21 := by
  have hkey : (utf8 "\x7b\"key\":\"".toList).length = 8 := by decide
  have hend : (utf8 "\",\"value\":\"\"\x7d".toList).length = 13 := by decide
  rw [anglesLine, List.length_append, List.length_append, utf8_angles, List.length_replicate, hkey,
    hend]
  omega

theorem length_escaped_angles (n : Nat) : (escaped (angles n).key).length = 6 * n := by
  rw [escaped, angles, String.toList_ofList]
  induction n with
  | zero => rfl
  | succ n ih =>
    have hone : (utf8 (escapeChar '<')).length = 6 := by decide
    rw [utf8] at ih hone ⊢
    rw [List.replicate_succ, List.flatMap_cons, List.flatMap_append, List.length_append, ih, hone]
    omega

theorem estimate_angles (n : Nat) : (angles n).estimate = n + 32 := by
  have hkey : bytesOf (angles n).key = utf8 (List.replicate n '<') := by
    simp [bytesOf, angles, utf8, String.toUTF8, List.utf8Encode]
  rw [Record.estimate, hkey, utf8_angles, List.length_replicate]
  rfl

theorem fits_angles (h : 6 * n + 22 ≤ defaultMaxRecordBytes) :
    (angles n).Fits defaultMaxRecordBytes := by
  have hvalue : (escaped (angles n).value).length = 0 := rfl
  rw [Record.Fits, length_encodeRecord, length_escaped_angles, hvalue]
  omega

theorem decode_angles : (anglesWorker n).decode (encodeRecord (angles n)) = some (angles n) :=
  if_pos (.inr rfl)

theorem not_fits_angles (h : defaultMaxRecordBytes < 6 * n + 22) :
    ¬ (angles n).Fits defaultMaxRecordBytes := by
  rw [Record.Fits, length_encodeRecord, length_escaped_angles]
  omega

theorem accepts_angles (h : n + 22 ≤ defaultMaxRecordBytes) :
    Accepts (anglesWorker n) (anglesLine n ++ newlineBytes) [angles n] := by
  have hone : ∀ b ∈ anglesLine n, isNewline b = false := by
    unfold anglesLine
    simp only [List.forall_mem_append]
    refine ⟨isNewline_utf8 (by decide), isNewline_utf8 fun h => ?_, isNewline_utf8 (by decide)⟩
    exact absurd (List.eq_of_mem_replicate h) (by decide)
  have hlines : lines isNewline (anglesLine n ++ newlineBytes) = [anglesLine n ++ newlineBytes] :=
    lines_whole rfl hone
  have hcr : dropCR (anglesLine n) = anglesLine n := by
    have hend : utf8 "\",\"value\":\"\"\x7d".toList =
        utf8 "\",\"value\":\"\"".toList ++ [125] := by decide
    rw [dropCR, anglesLine, hend]
    simp
  have hscan : scanOutput (anglesLine n ++ newlineBytes) = ([anglesLine n], false) := by
    have hfits : LineFits defaultMaxRecordBytes (anglesLine n ++ newlineBytes) := by
      rw [LineFits, lineContent_newline, length_anglesLine]
      omega
    simp only [scanOutput, hlines, scanAll, scanLine, if_pos hfits, lineContent_newline, hcr]
  have hbrace : 123 ∈ anglesLine n := List.mem_append_left _ (by decide)
  have hdecode : (anglesWorker n).decode (anglesLine n) = some (angles n) := if_pos (.inl rfl)
  refine ⟨by rw [hscan], ?_⟩
  rw [hscan]
  simp only [decodeLines, (anglesWorker n).blank_brace _ hbrace, hdecode]
  rfl

/-- One record that stays in the buffer. -/
theorem mapStages_angles (h : n + 22 ≤ defaultMaxRecordBytes)
    (hlong : defaultMaxRecordBytes < 6 * n + 22) (a : TaskAssignment) :
    mapStages (anglesWorker n) a 0 (anglesLine n ++ newlineBytes) none =
      .error .readSortedStream := by
  have hdecode : ∀ r ∈ [angles n], (anglesWorker n).decode (encodeRecord r) = some r := by
    intro r hr
    rw [List.mem_singleton.mp hr]
    exact decode_angles
  have hfiles :
      ((newSpillingSorter 0).addAll (anglesWorker n).sort [angles n]).spillFiles = [] := by
    refine add_unspilled (s := newSpillingSorter 0) (anglesWorker n).sort ?_
    have hnew : newSpillingSorter 0 = ⟨67108864, [], 0, []⟩ := rfl
    unfold defaultMaxRecordBytes at h
    rw [hnew, estimate_angles]
    dsimp only
    omega
  obtain ⟨runs, hsorting⟩ := sorting_addAll (anglesWorker n).sort 0 [angles n]
  obtain ⟨out, hfinal, hperm, _⟩ :=
    finalize_ok (anglesWorker n).sort hsorting hdecode (.inl hfiles)
  unfold mapStages sortedOutput
  rw [collectOutput_ok (accepts_angles h)]
  dsimp only
  rw [hfinal]
  exact partitionStream_tooLong (fun r hr => hdecode r (hperm.subset hr))
    (hperm.symm.subset List.mem_cons_self) (not_fits_angles hlong)

/-- The mapper's line has 200021 bytes, and the record as it is encoded 1200021. -/
theorem angles_lost :
    Accepts (anglesWorker 200000) (anglesLine 200000 ++ newlineBytes) [angles 200000] ∧
    mapStages (anglesWorker 200000) sampleTask 0 (anglesLine 200000 ++ newlineBytes) none =
      .error .readSortedStream :=
  have h : 200000 + 22 ≤ defaultMaxRecordBytes := by decide
  ⟨accepts_angles h, mapStages_angles h (by decide) sampleTask⟩

end Angles

end KubeMapReduce
