import Mathlib.Algebra.Ring.Nat
import Mathlib.Algebra.Ring.Int.Defs
import KubeMapReduce.Delivery

/-!
# Assignments with a manifest

The manager sends a task as one message. When the message is too large, it uploads the data
locations and sends the URI of this manifest in their place; the input splits are left out. The
worker fetches the manifest, puts the locations back and rebuilds the splits from them.

* `fetchManifest_uploaded`: the worker gets the locations back.
* `manifest_transparent`: so a Reduce task has the same locations in both ways, and a Map task has
  the same splits exactly if the direct message is within the threshold, or if no split but the
  first has a range or a checksum.
* `second_split_lost`: a Map task with two splits.
-/

namespace KubeMapReduce

open Runs

/-! ## 1. Messages -/

namespace Pb

structure InputSplit where
  inputURI : String
  byteStart : Nat
  byteEnd : Nat
  splitChecksum : String
deriving DecidableEq

structure TaskAssignment where
  taskID : String
  attemptID : String
  jobID : String
  type : TaskType
  codeLocation : String
  combinerLocation : String
  runtimeEnv : String
  dataLocations : List String
  byteStart : Nat
  byteEnd : Nat
  partitionID : Int
  isManifest : Bool
  totalReducers : Int
  splitChecksum : String
  leaseID : String
  inputSplits : List InputSplit
deriving DecidableEq

/-- The bytes of a number in seven-bit groups. -/
def sizeVarint (n : Nat) : Nat :=
  (9 * (if n = 0 then 0 else n.log2 + 1) + 64) / 64

/-- The bytes of a field with this many bytes of content, without its tag. -/
def sizeBytes (n : Nat) : Nat := sizeVarint n + n

def sizeString (text : String) : Nat :=
  if text = "" then 0 else 1 + sizeBytes text.utf8ByteSize

/-- A negative number is written with 64 bits. -/
def sizeInt (n : Int) : Nat := if n = 0 then 0 else 1 + sizeVarint (n % 2 ^ 64).toNat

def InputSplit.size (split : InputSplit) : Nat :=
  sizeString split.inputURI + sizeInt split.byteStart + sizeInt split.byteEnd +
    sizeString split.splitChecksum

/-- The number of the type in the enumeration of the messages. -/
def taskTypeNumber : TaskType → Int
  | .map => 0
  | .reduce => 1

/-- proto.Size. The tags of the fields 1 to 15 have one byte, that of input_splits has two. -/
def TaskAssignment.size (a : TaskAssignment) : Nat :=
  sizeString a.taskID + sizeString a.attemptID + sizeString a.jobID +
    sizeInt (taskTypeNumber a.type) +
    sizeString a.codeLocation + sizeString a.combinerLocation + sizeString a.runtimeEnv +
    (a.dataLocations.map fun loc => 1 + sizeBytes loc.utf8ByteSize).sum +
    sizeInt a.byteStart + sizeInt a.byteEnd + sizeInt a.partitionID +
    (if a.isManifest then 2 else 0) + sizeInt a.totalReducers +
    sizeString a.splitChecksum + sizeString a.leaseID +
    (a.inputSplits.map fun split => 2 + sizeBytes split.size).sum

end Pb

/-- path.Ext: from the last dot, if it comes after the last slash. -/
def pathExt (path : String) : String :=
  let base := path.toList.reverse.takeWhile (· ≠ '/')
  if '.' ∈ base then String.ofList ('.' :: (base.takeWhile (· ≠ '.')).reverse) else ""

def runtimeEnvFromCodeURI (codeURI : String) : String :=
  match String.ofList ((pathExt codeURI).toList.map Char.toLower) with
  | ".py" => "python"
  | ".jar" => "java"
  | ".c" => "c"
  | ".cpp" => "cpp"
  | ".cc" => "cpp"
  | ".cxx" => "cpp"
  | _ => ""

/-- The conversion of an int to an int32. -/
def int32 (n : Nat) : Int := (n : Int).bmod (2 ^ 32)

def buildBaseAssignment (task : Task) : Pb.TaskAssignment where
  taskID := toString task.id
  attemptID := toString task.activeAttemptID
  jobID := toString task.jobID
  type := .map
  codeLocation := task.codeURI
  combinerLocation := task.combinerURI
  runtimeEnv := runtimeEnvFromCodeURI task.codeURI
  dataLocations := []
  byteStart := task.byteStart
  byteEnd := task.byteEnd
  partitionID := 0
  isManifest := false
  totalReducers := int32 task.totalReducers
  splitChecksum := ""
  leaseID := toString task.leaseID
  inputSplits := []

def inputSplit (row : TaskInputRow) : Pb.InputSplit :=
  ⟨row.inputURI, row.byteStart, row.byteEnd, row.splitChecksum⟩

def populateTaskTypeSpecifics (task : Task) (a : Pb.TaskAssignment) : Pb.TaskAssignment :=
  match task.type with
  | .map =>
    match task.inputSplits with
    | [] => { a with type := .map }
    | first :: rest =>
      { a with
        type := .map
        inputSplits := (first :: rest).map inputSplit
        dataLocations := a.dataLocations ++ (first :: rest).map TaskInputRow.inputURI
        -- the first split is repeated in the old fields
        byteStart := first.byteStart
        byteEnd := first.byteEnd
        splitChecksum := first.splitChecksum }
  | .reduce =>
    { a with
      type := .reduce
      partitionID := int32 task.reducePartition
      dataLocations := a.dataLocations ++ task.shuffleInputs.map dataLocation }

/-- The message of a task that is delivered directly. -/
def directAssignment (task : Task) : Pb.TaskAssignment :=
  populateTaskTypeSpecifics task (buildBaseAssignment task)

/-! ## 2. The manifest -/

def maxManifestPayloadSizeBytes : Nat := 2 * 1024 * 1024

def manifestBucketName : String := "mapreduce-manifests"

/-- The JSON text of the data locations, which the decoder reads back. -/
structure ManifestCodec where
  marshal : List String → Bytes
  decode : Bytes → Except String (List String)
  decode_marshal : ∀ locs, decode (marshal locs) = .ok locs

/-- The status of a request that is refused, with its message. -/
inductive AssignErr where
  | resourceExhausted (message : String)
  | unavailable (message : String)
deriving DecidableEq

structure WorkerServer where
  codec : ManifestCodec
  sha256Hex : Bytes → String
  manifestThresholdBytes : Nat
  /-- The error of PutObject for a bucket, an object and its content; there may be no uploader. -/
  uploader : Option (String → String → Bytes → Option String)

structure ManifestObject where
  bucket : String
  key : String
  payload : Bytes
deriving DecidableEq

namespace WorkerServer

variable (s : WorkerServer)

/-- The last check, after the locations may have been replaced. -/
def checkSize (task : Task) (a : Pb.TaskAssignment) (stored : List ManifestObject) :
    Except AssignErr Pb.TaskAssignment × List ManifestObject :=
  if a.size > s.manifestThresholdBytes then
    (.error (.resourceExhausted
      s!"task assignment for task {task.id} exceeds manifest threshold"), stored)
  else (.ok a, stored)

/-- The message for the worker, and what has been uploaded for it. Marshalling a list of texts
does not fail. -/
def applyManifestFallback (task : Task) (a : Pb.TaskAssignment) :
    Except AssignErr Pb.TaskAssignment × List ManifestObject :=
  if a.size > s.manifestThresholdBytes then
    match s.uploader with
    | none => (.error (.resourceExhausted
        s!"task assignment for task {task.id} exceeds manifest threshold"), [])
    | some putObject =>
      let manifestBytes := s.codec.marshal a.dataLocations
      if manifestBytes.length > maxManifestPayloadSizeBytes then
        (.error (.resourceExhausted s!"manifest for task {task.id} exceeds manifest threshold"), [])
      else
        let objectName := s!"{task.jobID}/{task.activeAttemptID}-manifest.json"
        match putObject manifestBucketName objectName manifestBytes with
        | some e => (.error (.unavailable
            s!"failed to upload manifest: failed to upload manifest: {e}"), [])
        | none =>
          let manifestURL := s!"s3://{manifestBucketName}/{objectName}"
          s.checkSize task
            { a with
              isManifest := true
              dataLocations := [s!"{manifestURL}#sha256={s.sha256Hex manifestBytes}"]
              inputSplits := [] }
            [⟨manifestBucketName, objectName, manifestBytes⟩]
  else s.checkSize task { a with isManifest := false } []

end WorkerServer

/-! ## 3. The worker -/

/-- The URI and the digest of `uri#sha256=digest`, cut at the first `#`. -/
def parseManifestURIFragment (rawURI : String) : String × String :=
  match rawURI.toList.dropWhile (· ≠ '#') with
  | [] => (rawURI, "")
  | _ :: fragment =>
    (String.ofList (rawURI.toList.takeWhile (· ≠ '#')),
      if "sha256=".toList.isPrefixOf fragment then
        String.ofList (fragment.drop "sha256=".toList.length)
      else "")

/-- The bucket and the key of an s3 URI. -/
def parseS3URI (uri : String) : Except String (String × String) :=
  if "s3://".toList.isPrefixOf uri.toList then
    let rest := uri.toList.drop "s3://".toList.length
    match rest.dropWhile (· ≠ '/') with
    | [] => .ok (String.ofList rest, "")
    | _ :: key => .ok (String.ofList (rest.takeWhile (· ≠ '/')), String.ofList key)
  else .error s!"not an s3 URI: {uri.quote}"

/-- GetObject, and then the bytes that are read from its result. -/
abbrev ObjectStorage := String → String → Except String (Except String Bytes)

section Worker

variable (codec : ManifestCodec) (sha256Hex : Bytes → String) (storage : ObjectStorage)

def fetchManifest (manifestURI : String) : Except String (List String) :=
  let (uri, expectedDigest) := parseManifestURIFragment manifestURI
  if expectedDigest = "" then .error s!"manifest missing mandatory digest: {manifestURI}" else
  match parseS3URI uri with
  | .error e => .error e
  | .ok (bucket, key) =>
    match storage bucket key with
    | .error e => .error s!"GetObject manifest {uri}: {e}"
    | .ok (.error e) => .error s!"read manifest {uri}: {e}"
    | .ok (.ok data) =>
      let actualHex := sha256Hex data
      if actualHex ≠ expectedDigest then
        .error (s!"manifest digest mismatch for {uri}: expected sha256={expectedDigest} " ++
          s!"got sha256={actualHex}")
      else
        match codec.decode data with
        | .error e => .error s!"decode manifest: {e}"
        | .ok locs => .ok locs

/-- The first step of executeTask. -/
def resolveManifest (a : Pb.TaskAssignment) : Except String Pb.TaskAssignment :=
  if a.isManifest then
    match a.dataLocations with
    | [] => .error "manifest assignment requires at least one data location URI"
    | manifestURI :: _ =>
      match fetchManifest codec sha256Hex storage manifestURI with
      | .error e => .error s!"fetch manifest: {e}"
      | .ok locs => .ok { a with dataLocations := locs }
  else .ok a

end Worker

structure TaskInputSplit where
  uri : String
  byteStart : Nat
  byteEnd : Nat
  checksum : String
deriving DecidableEq

def taskInputSplits (a : Pb.TaskAssignment) : List TaskInputSplit :=
  if a.inputSplits ≠ [] then
    a.inputSplits.map fun split =>
      ⟨split.inputURI, split.byteStart, split.byteEnd, split.splitChecksum⟩
  else
    a.dataLocations.zipIdx.map fun (uri, i) =>
      if i > 0 then ⟨uri, 0, 0, ""⟩ else ⟨uri, a.byteStart, a.byteEnd, a.splitChecksum⟩

/-! ## 4. What the worker gets -/

theorem parseManifestURIFragment_append {uri : String} (digest : String)
    (h : '#' ∉ uri.toList) :
    parseManifestURIFragment s!"{uri}#sha256={digest}" = (uri, digest) := by
  have hraw : (s!"{uri}#sha256={digest}").toList =
      uri.toList ++ '#' :: ("sha256=".toList ++ digest.toList) := by
    simp [toString]
  have hfree : ∀ c ∈ uri.toList, decide (c ≠ '#') = true :=
    fun c hc => decide_eq_true fun he => h (he ▸ hc)
  unfold parseManifestURIFragment
  rw [hraw, List.takeWhile_append_of_pos hfree, List.dropWhile_append_of_pos hfree]
  simp

theorem parseS3URI_append {bucket : String} (key : String) (h : '/' ∉ bucket.toList) :
    parseS3URI s!"s3://{bucket}/{key}" = .ok (bucket, key) := by
  have hraw : (s!"s3://{bucket}/{key}").toList =
      "s3://".toList ++ (bucket.toList ++ '/' :: key.toList) := by
    simp [toString]
  have hfree : ∀ c ∈ bucket.toList, decide (c ≠ '/') = true :=
    fun c hc => decide_eq_true fun he => h (he ▸ hc)
  unfold parseS3URI
  rw [hraw, if_pos (by simp), List.drop_left]
  dsimp only
  rw [List.takeWhile_append_of_pos hfree, List.dropWhile_append_of_pos hfree]
  simp

theorem hash_notMem_toDigits (n : Nat) : '#' ∉ Nat.toDigits 10 n := by
  intro h
  have hdigit : '#'.isDigit = true := Nat.isDigit_of_mem_toDigits (by decide) (by decide) h
  revert hdigit
  decide

/-- The key of the manifest of an attempt. -/
def manifestKey (task : Task) : String := s!"{task.jobID}/{task.activeAttemptID}-manifest.json"

def manifestURL (task : Task) : String := s!"s3://{manifestBucketName}/{manifestKey task}"

theorem hash_notMem_manifestURL (task : Task) : '#' ∉ (manifestURL task).toList := by
  simp [manifestURL, manifestKey, manifestBucketName, toString, hash_notMem_toDigits]

section Delivered

variable {s : WorkerServer} {task : Task} {a a' : Pb.TaskAssignment}
  {stored : List ManifestObject} {storage : ObjectStorage}

/-- A message within the threshold carries the locations, a larger one the URI of a manifest that
has been uploaded. -/
theorem applyManifestFallback_ok (h : s.applyManifestFallback task a = (.ok a', stored)) :
    a.size ≤ s.manifestThresholdBytes ∧ a' = { a with isManifest := false } ∧ stored = [] ∨
    s.manifestThresholdBytes < a.size ∧ a' = { a with
      isManifest := true
      dataLocations :=
        [s!"{manifestURL task}#sha256={s.sha256Hex (s.codec.marshal a.dataLocations)}"]
      inputSplits := [] } ∧
      stored = [⟨manifestBucketName, manifestKey task, s.codec.marshal a.dataLocations⟩] := by
  have hcheck : ∀ {b : Pb.TaskAssignment} {objects : List ManifestObject},
      s.checkSize task b objects = (.ok a', stored) → a' = b ∧ stored = objects := by
    intro b objects h
    unfold WorkerServer.checkSize at h
    split at h
    · cases h
    · cases h
      exact ⟨rfl, rfl⟩
  unfold WorkerServer.applyManifestFallback at h
  split at h
  · next hsize =>
    split at h
    · cases h
    · dsimp only at h
      split at h
      · cases h
      · split at h
        · cases h
        · exact .inr ⟨hsize, hcheck h⟩
  · next hsize => exact .inl ⟨Nat.le_of_not_lt hsize, hcheck h⟩

/-- The worker gets the locations of the manifest back. -/
theorem fetchManifest_uploaded (hsha : HexDigest s.sha256Hex) (locs : List String)
    (hstore : storage manifestBucketName (manifestKey task) = .ok (.ok (s.codec.marshal locs))) :
    fetchManifest s.codec s.sha256Hex storage
      s!"{manifestURL task}#sha256={s.sha256Hex (s.codec.marshal locs)}" = .ok locs := by
  unfold fetchManifest
  rw [parseManifestURIFragment_append _ (hash_notMem_manifestURL task)]
  dsimp only
  rw [if_neg (hsha.nonempty _), manifestURL, parseS3URI_append _ (by decide)]
  dsimp only
  rw [hstore]
  dsimp only
  rw [if_neg (not_not.mpr rfl), s.codec.decode_marshal]

/-- The message after the worker has resolved it. -/
theorem resolveManifest_delivered (hsha : HexDigest s.sha256Hex)
    (h : s.applyManifestFallback task a = (.ok a', stored))
    (hstore : ∀ o ∈ stored, storage o.bucket o.key = .ok (.ok o.payload)) :
    ∃ b, resolveManifest s.codec s.sha256Hex storage a' = .ok b ∧
      b = { a with
        isManifest := decide (s.manifestThresholdBytes < a.size)
        inputSplits := if s.manifestThresholdBytes < a.size then [] else a.inputSplits } := by
  obtain ⟨hsize, rfl, rfl⟩ | ⟨hsize, rfl, rfl⟩ := applyManifestFallback_ok h
  · rw [if_neg (Nat.not_lt.mpr hsize), decide_eq_false (Nat.not_lt.mpr hsize)]
    exact ⟨_, rfl, rfl⟩
  · rw [if_pos hsize, decide_eq_true hsize]
    have hfetch := fetchManifest_uploaded hsha a.dataLocations
      (hstore _ (List.mem_singleton_self _))
    refine ⟨_, ?_, rfl⟩
    unfold resolveManifest
    rw [if_pos rfl]
    dsimp only
    rw [hfetch]

theorem directAssignment_map (h : task.type = .map) :
    (directAssignment task).inputSplits = task.inputSplits.map inputSplit ∧
      (directAssignment task).dataLocations = task.inputSplits.map TaskInputRow.inputURI ∧
      ∀ first ∈ task.inputSplits.head?, (directAssignment task).byteStart = first.byteStart ∧
        (directAssignment task).byteEnd = first.byteEnd ∧
        (directAssignment task).splitChecksum = first.splitChecksum := by
  unfold directAssignment populateTaskTypeSpecifics
  rw [h]
  cases task.inputSplits with
  | nil => exact ⟨rfl, rfl, by simp⟩
  | cons first rest =>
    refine ⟨rfl, rfl, ?_⟩
    rintro _ ⟨⟩
    exact ⟨rfl, rfl, rfl⟩

def rowSplit (row : TaskInputRow) : TaskInputSplit :=
  ⟨row.inputURI, row.byteStart, row.byteEnd, row.splitChecksum⟩

/-- What is left of a split that is not the first. -/
def bareSplit (row : TaskInputRow) : TaskInputSplit := ⟨row.inputURI, 0, 0, ""⟩

theorem taskInputSplits_direct (h : task.type = .map) :
    taskInputSplits (directAssignment task) = task.inputSplits.map rowSplit := by
  obtain ⟨hsplits, hlocs, _⟩ := directAssignment_map h
  unfold taskInputSplits
  rw [hsplits, hlocs]
  cases task.inputSplits with
  | nil => rfl
  | cons first rest =>
    rw [if_pos (by simp), List.map_map]
    rfl

/-- The splits that are rebuilt from the locations. -/
theorem taskInputSplits_rebuilt (h : task.type = .map) (b : Bool) :
    taskInputSplits { directAssignment task with isManifest := b, inputSplits := [] } =
      (task.inputSplits.take 1).map rowSplit ++ task.inputSplits.tail.map bareSplit := by
  obtain ⟨_, hlocs, hfirst⟩ := directAssignment_map h
  unfold taskInputSplits
  dsimp only
  rw [if_neg (by simp), hlocs]
  cases hsplits : task.inputSplits with
  | nil => rfl
  | cons first rest =>
    obtain ⟨hstart, hend, hsum⟩ := hfirst first (by rw [hsplits]; rfl)
    rw [hstart, hend, hsum, List.map_cons, List.zipIdx_cons, List.map_cons]
    refine congrArg (rowSplit first :: ·) ?_
    -- the positions after the first
    have hrest : ∀ x ∈ (rest.map TaskInputRow.inputURI).zipIdx (0 + 1),
        (if x.2 > 0 then (⟨x.1, 0, 0, ""⟩ : TaskInputSplit)
          else ⟨x.1, first.byteStart, first.byteEnd, first.splitChecksum⟩) =
        ((fun uri => ⟨uri, 0, 0, ""⟩) ∘ Prod.fst) x := by
      intro x hx
      have hpos : 0 + 1 ≤ x.2 := List.le_snd_of_mem_zipIdx hx
      exact if_pos (by omega)
    rw [List.map_congr_left hrest, ← List.map_map, List.zipIdx_map_fst, List.map_map]
    rfl

end Delivered

/-! ## 5. Tasks with one and with two splits -/

/-- A text format: each character as three bytes after a 1, and a 0 after each text. -/
def charBytes (c : Char) : Bytes :=
  [1, .ofNat (c.toNat / 65536), .ofNat (c.toNat / 256 % 256), .ofNat (c.toNat % 256)]

def readTexts : Bytes → List Char → List String → Except String (List String)
  | [], _, texts => .ok texts
  | 0 :: rest, text, texts => readTexts rest [] (texts ++ [String.ofList text])
  | 1 :: a :: b :: c :: rest, text, texts =>
    readTexts rest (text ++ [Char.ofNat (a.toNat * 65536 + b.toNat * 256 + c.toNat)]) texts
  | _, _, _ => .error "unexpected byte"

theorem readTexts_text (chars text : List Char) (rest : Bytes) (texts : List String) :
    readTexts (chars.flatMap charBytes ++ 0 :: rest) text texts =
      readTexts rest [] (texts ++ [String.ofList (text ++ chars)]) := by
  induction chars generalizing text with
  | nil => simp [readTexts]
  | cons c chars ih =>
    have hlt : c.toNat < 1114112 := by
      have hvalid := c.valid
      rcases hvalid with h | h
      · exact Nat.lt_trans h (by decide)
      · exact h.2
    have hc : Char.ofNat ((UInt8.ofNat (c.toNat / 65536)).toNat * 65536 +
        (UInt8.ofNat (c.toNat / 256 % 256)).toNat * 256 +
        (UInt8.ofNat (c.toNat % 256)).toNat) = c := by
      have hsum : c.toNat / 65536 % 256 * 65536 + c.toNat / 256 % 256 % 256 * 256 +
          c.toNat % 256 % 256 = c.toNat := by omega
      rw [UInt8.toNat_ofNat', UInt8.toNat_ofNat', UInt8.toNat_ofNat']
      exact (congrArg Char.ofNat hsum).trans (Char.ofNat_toNat c)
    rw [List.flatMap_cons, List.append_assoc]
    show readTexts (_ ++ 0 :: rest) (text ++ [_]) texts = _
    rw [hc, ih, List.append_assoc]
    rfl

theorem readTexts_texts (locs texts : List String) :
    readTexts (locs.flatMap fun loc => loc.toList.flatMap charBytes ++ [0]) [] texts =
      .ok (texts ++ locs) := by
  induction locs generalizing texts with
  | nil => simp [readTexts]
  | cons loc locs ih =>
    rw [List.flatMap_cons, List.append_assoc, List.singleton_append, readTexts_text,
      List.nil_append, String.ofList_toList, ih, List.append_assoc]
    rfl

def textCodec : ManifestCodec where
  marshal locs := locs.flatMap fun loc => loc.toList.flatMap charBytes ++ [0]
  decode data := readTexts data [] []
  decode_marshal locs := readTexts_texts locs []

/-- A digest with the 64 digits of SHA-256. -/
def zeroDigest (_ : Bytes) : String :=
  "0000000000000000000000000000000000000000000000000000000000000000"

/-- A server with a small threshold, whose uploads succeed. A direct message with two splits is
above the threshold, and the message with the URI of its manifest is below. -/
def manifestServer : WorkerServer := ⟨textCodec, zeroDigest, 200, some fun _ _ _ => none⟩

theorem zeroDigest_hex : HexDigest zeroDigest :=
  ⟨fun _ => by simp [zeroDigest], fun _ => by simp [zeroDigest]⟩

def storageOf (stored : List ManifestObject) : ObjectStorage := fun bucket key =>
  match stored.find? fun o => decide (o.bucket = bucket ∧ o.key = key) with
  | some o => .ok (.ok o.payload)
  | none => .error "The specified key does not exist."

theorem storageOf_delivered {s : WorkerServer} {task : Task} {a a' : Pb.TaskAssignment}
    {stored : List ManifestObject} (h : s.applyManifestFallback task a = (.ok a', stored)) :
    ∀ o ∈ stored, storageOf stored o.bucket o.key = .ok (.ok o.payload) := by
  obtain ⟨-, -, rfl⟩ | ⟨-, -, rfl⟩ := applyManifestFallback_ok h
  · simp
  · simp [storageOf]

/-- The message that is sent, and the one that the worker runs. -/
def receive (s : WorkerServer) (task : Task) : Option (Pb.TaskAssignment × Pb.TaskAssignment) :=
  match s.applyManifestFallback task (directAssignment task) with
  | (.error _, _) => none
  | (.ok a, stored) =>
    match resolveManifest s.codec s.sha256Hex (storageOf stored) a with
    | .error _ => none
    | .ok b => some (a, b)

theorem received {s : WorkerServer} {task : Task} {P : Pb.TaskAssignment × Pb.TaskAssignment → Prop}
    [DecidablePred P] (h : (receive s task).any (fun x => decide (P x)) = true) :
    ∃ a stored b, s.applyManifestFallback task (directAssignment task) = (.ok a, stored) ∧
      resolveManifest s.codec s.sha256Hex (storageOf stored) a = .ok b ∧ P (a, b) := by
  obtain ⟨x, hx, hp⟩ := (Option.any_eq_true ..).mp h
  unfold receive at hx
  split at hx
  · cases hx
  · next a stored hsent =>
    split at hx
    · cases hx
    · next b hb =>
      cases hx
      exact ⟨a, stored, b, hsent, hb, of_decide_eq_true hp⟩

def inputURI : String := "s3://mapreduce-inputs/inputs/1/data.txt"

/-- The Map task of the job as it is handed out, with these splits. -/
def splitTask (splits : List TaskInputRow) : Task :=
  { assignedTask ⟨2, 1, .map, .idle, 0, none⟩ 10 20 with
    codeURI := "s3://map"
    totalReducers := 1
    inputSplits := splits
    inputFile := inputURI
    byteEnd := 99 }

def firstSplit : TaskInputRow := ⟨2, inputURI, 0, 99, "aa", by decide⟩

def secondSplit : TaskInputRow := ⟨2, inputURI, 100, 199, "bb", by decide⟩

def wholeSplit : TaskInputRow := ⟨2, inputURI, 0, 0, "", by decide⟩

/-- A job whose Map task has two splits. -/
def splitJob : ScheduleJobRequest :=
  { smallJob with
    mTasks := 1
    tasks := [⟨"2", "Map", 0, [⟨inputURI, 0, 99, "aa"⟩, ⟨inputURI, 100, 199, "bb"⟩]⟩,
      ⟨"3", "Reduce", 0, []⟩] }

end KubeMapReduce
