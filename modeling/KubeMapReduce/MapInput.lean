import KubeMapReduce.Manifest
import KubeMapReduce.Submission

/-!
# The input of the mapper

A Map task opens a reader for each of its splits, puts them one after the other with io.MultiReader
and gives the result to the mapper as its standard input. A reader writes whole lines, but the last
line of an object can lack its newline, and nothing is put between two readers.

* `openSplit_lines`: the lines of a reader are those that it has written.
* `mapper_lines_iff`: the mapper gets the lines of the readers exactly if every one that something
  follows ends with a newline. `lines_joined` is a task with two objects of one folder that gets a
  line from both.
-/

namespace KubeMapReduce

open Lines

variable {ls : List (Nat × List UInt8)}

/-! ## 1. The readers -/

/-- What a reader delivers, and whether it ends with an error. -/
structure SplitReader where
  lines : List Bytes
  failed : Bool
deriving DecidableEq

variable {readers : List SplitReader} {r : SplitReader}

def SplitReader.bytes (r : SplitReader) : Bytes := r.lines.flatten

/-- Why a split is not opened: its URI, or an error of the storage. -/
inductive OpenErr where
  | uri (message : String)
  | split (cause : SplitErr)
deriving DecidableEq

section Open

variable (sha256Hex : Bytes → String) (storage : String → String → StoredObject)

/-- readSplitRecordsStreaming, with the reader that it returns. -/
def openSplit (split : TaskInputSplit) : Except OpenErr SplitReader :=
  match parseS3URI split.uri with
  | .error e => .error (.uri e)
  | .ok (bucket, key) =>
    match readSplitRecordsStreaming sha256Hex (storage bucket key) split.byteStart
      split.byteEnd split.checksum with
    -- the goroutine skips the line, so that its error comes out of the pipe
    | .error .skipPartialLine => .ok ⟨[], true⟩
    | .error e => .error (.split e)
    | .ok lines => .ok ⟨lines.map Prod.snd, false⟩

/-- All readers, or the URI of the first split that is not opened. -/
def openSplits : List TaskInputSplit → Except (String × OpenErr) (List SplitReader)
  | [] => .ok []
  | split :: rest =>
    match openSplit sha256Hex storage split with
    | .error e => .error (split.uri, e)
    | .ok r => (openSplits rest).map (r :: ·)

end Open

/-- The readers that are read: all of them, or those up to the first one with an error. -/
def readThrough : List SplitReader → List SplitReader
  | [] => []
  | r :: rest => if r.failed then [r] else r :: readThrough rest

/-- io.MultiReader: the bytes, and whether an error ends them. -/
def multiReader : List SplitReader → Bytes × Bool
  | [] => ([], false)
  | r :: rest =>
    if r.failed then (r.bytes, true) else (r.bytes ++ (multiReader rest).1, (multiReader rest).2)

theorem multiReader_bytes (readers : List SplitReader) :
    (multiReader readers).1 = ((readThrough readers).map SplitReader.bytes).flatten := by
  induction readers with
  | nil => rfl
  | cons r rest ih =>
    unfold multiReader readThrough
    split
    · exact (List.append_nil _).symm
    · rw [List.map_cons, List.flatten_cons, ← ih]

/-! ## 2. The lines -/

section Lines

variable {sha256Hex : Bytes → String} {storage : String → String → StoredObject}

/-- The loop over the lines stops at one of them. -/
theorem copyLines_initial (e : Nat) (ls : List (Nat × List UInt8)) : copyLines e ls <+: ls := by
  induction ls with
  | nil => exact List.nil_prefix
  | cons y ls ih =>
    obtain ⟨pos, line⟩ := y
    unfold copyLines
    refine List.cons_prefix_cons.mpr ⟨rfl, ?_⟩
    split
    · exact List.nil_prefix
    · exact ih

theorem streamLines_initial {raw : Bytes} {s e : Nat} {atBoundary : Bool}
    (h : streamLines raw s e atBoundary = .ok ls) : ∃ o ys, ls <+: linesAt isNewline o ys := by
  unfold streamLines at h
  split at h
  · split at h
    · cases h
    · next first skipped rest hlines =>
      split at h
      · cases h
        -- the lines behind the first one are those of the rest of the buffer
        have hne : raw ≠ [] := by
          rintro rfl
          cases hlines
        rw [linesAt_eq hne] at hlines
        cases hlines
        exact ⟨_, _, copyLines_initial e _⟩
      · cases h
  · cases h
    exact ⟨_, _, copyLines_initial e _⟩

theorem readSplit_initial {o : StoredObject} {s e : Nat} {checksum : String}
    (h : readSplitRecordsStreaming sha256Hex o s e checksum = .ok ls) :
    ∃ o ys, ls <+: linesAt isNewline o ys := by
  unfold readSplitRecordsStreaming at h
  split at h
  · split at h
    · cases h
    · cases h
      exact ⟨0, _, List.prefix_refl _⟩
  split at h
  · cases h
  split at h
  · cases h
  split at h
  · cases h
  · exact streamLines_initial h

/-- The lines of a reader are those that it has written. -/
theorem openSplit_lines {split : TaskInputSplit} (h : openSplit sha256Hex storage split = .ok r) :
    lines isNewline r.bytes = r.lines := by
  unfold openSplit at h
  split at h
  · cases h
  split at h
  · cases h
    rfl
  · cases h
  · next ls hread =>
    cases h
    obtain ⟨o, ys, hfirst⟩ := readSplit_initial hread
    have hlines := lines_of_first hfirst
    rw [List.flatMap_def] at hlines
    exact hlines

theorem openSplits_lines {splits : List TaskInputSplit}
    (h : openSplits sha256Hex storage splits = .ok readers) :
    ∀ r ∈ readers, lines isNewline r.bytes = r.lines := by
  induction splits generalizing readers with
  | nil =>
    cases h
    exact nofun
  | cons split rest ih =>
    unfold openSplits at h
    split at h
    · cases h
    · next r hopen =>
      cases hrest : openSplits sha256Hex storage rest with
      | error e =>
        rw [hrest] at h
        cases h
      | ok readers' =>
        rw [hrest] at h
        cases h
        exact List.forall_mem_cons.mpr ⟨openSplit_lines hopen, ih hrest⟩

theorem mem_of_mem_readThrough (h : r ∈ readThrough readers) : r ∈ readers := by
  induction readers with
  | nil => cases h
  | cons r' rest ih =>
    unfold readThrough at h
    split at h
    · cases List.mem_singleton.mp h
      exact List.mem_cons_self
    · rcases List.mem_cons.mp h with rfl | h
      · exact List.mem_cons_self
      · exact List.mem_cons_of_mem _ (ih h)

/-- The mapper gets the lines of the readers, one reader after the other, exactly if every reader
that bytes of another one follow ends with a newline. -/
theorem mapper_lines_iff {a : Pb.TaskAssignment} {readers : List SplitReader}
    (h : openSplits sha256Hex storage (taskInputSplits a) = .ok readers) :
    lines isNewline (multiReader readers).1 = (readThrough readers).flatMap SplitReader.lines ↔
      Separated isNewline ((readThrough readers).map SplitReader.bytes) := by
  have hlines : (readThrough readers).flatMap SplitReader.lines =
      ((readThrough readers).map SplitReader.bytes).flatMap (lines isNewline) := by
    rw [List.flatMap_map]
    exact List.flatMap_congr fun r hr => (openSplits_lines h r (mem_of_mem_readThrough hr)).symm
  rw [multiReader_bytes, hlines]
  exact lines_flatten_iff _

end Lines

/-! ## 3. A folder with two objects -/

def textObject (content : Bytes) : StoredObject :=
  ⟨some content.length, some content, fun i j => some ((content.drop i).take (j + 1 - i))⟩

/-- The contents of `in/a` and `in/b`: the last line of the first one is `b`, without a newline. -/
def folderObject (key : String) : StoredObject :=
  if key = "in/a" then textObject [97, 10, 98] else textObject [99, 10]

def folder : ScheduleObjectClient :=
  ⟨folderObject, fun _ => some [⟨"in/a", 3⟩, ⟨"in/b", 2⟩]⟩

/-- The assignment of a Map task with these splits. -/
def folderAssignment (splits : List ScheduleTaskInput) : Pb.TaskAssignment where
  taskID := ""
  attemptID := ""
  jobID := ""
  type := .map
  codeLocation := ""
  combinerLocation := ""
  runtimeEnv := ""
  dataLocations := splits.map ScheduleTaskInput.inputURI
  byteStart := 0
  byteEnd := 0
  partitionID := 0
  isManifest := false
  totalReducers := 1
  splitChecksum := ""
  leaseID := ""
  inputSplits := splits.map fun split =>
    ⟨split.inputURI, split.byteStart.toNat, split.byteEnd.toNat, split.splitChecksum⟩

def splitA : ScheduleTaskInput := ⟨"s3://mapreduce-inputs/in/a", 0, 2, ""⟩

def splitB : ScheduleTaskInput := ⟨"s3://mapreduce-inputs/in/b", 0, 1, ""⟩

/-- The readers of the Map task with these splits. -/
def folderReaders (splits : List ScheduleTaskInput) :
    Except (String × OpenErr) (List SplitReader) :=
  openSplits (fun _ => "") (fun _ key => folderObject key)
    (taskInputSplits (folderAssignment splits))

/-- In the other order the line without newline is the last one. -/
theorem mapper_lines_last :
    folderReaders [splitB, splitA] = .ok [⟨[[99, 10]], false⟩, ⟨[[97, 10], [98]], false⟩] ∧
    lines isNewline (multiReader [⟨[[99, 10]], false⟩, ⟨[[97, 10], [98]], false⟩]).1 =
      [[99, 10], [97, 10], [98]] := by
  have hopen : folderReaders [splitB, splitA] =
      .ok [⟨[[99, 10]], false⟩, ⟨[[97, 10], [98]], false⟩] := by rfl
  exact ⟨hopen, (mapper_lines_iff hopen).mpr (by decide)⟩

/-- The two objects of the folder go to one task, and its mapper gets the line `bc`. -/
theorem lines_joined :
    buildPrefixInputBuckets (fun _ => "") (some folder) "in/" "" = [[splitA, splitB]] ∧
    folderReaders [splitA, splitB] = .ok [⟨[[97, 10], [98]], false⟩, ⟨[[99, 10]], false⟩] ∧
    lines isNewline (multiReader [⟨[[97, 10], [98]], false⟩, ⟨[[99, 10]], false⟩]).1 =
      [[97, 10], [98, 99, 10]] := by
  refine ⟨by decide +kernel, by rfl, by decide⟩

end KubeMapReduce
