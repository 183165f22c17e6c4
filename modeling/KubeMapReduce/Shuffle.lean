import KubeMapReduce.MapTask
import KubeMapReduce.Lib.Exits
import KubeMapReduce.Lib.Frames

/-!
# The shuffle service

The manager keeps the outputs of the Map tasks in memory, as blobs by job and partition.
A PushShuffleData stream collects its chunks in a buffer of its own and becomes one blob at
the end of the stream; GetShuffleData sends the blobs of a partition, each one in chunks and
with a delimiter that carries its checksum. Nothing of this names a task or an attempt.

* `recv_ok`: an accepted chunk is appended to the buffer of the stream.
* `eof_ok`, `eof_error`: the end of a stream appends one blob to one partition, or leaves
  every partition as it is.
* `getShuffleData_ok`: what a reader of a partition can collect.
-/

namespace KubeMapReduce

open Exits

abbrev Bytes := List UInt8

/-! ## 1. Messages -/

inductive Code where
  | invalidArgument
  | notFound
  | resourceExhausted
deriving DecidableEq

/-- The status that a handler returns in place of a reply. -/
structure Status where
  code : Code
  message : String
deriving DecidableEq

structure ShuffleDataChunk where
  jobID : String
  partitionID : Int
  data : Bytes
  segmentChecksum : String
  segmentEnd : Bool
deriving DecidableEq

def maxShufflePartitionBytes : Nat := 256 * 1048576

def maxShuffleJobBytes : Nat := 2048 * 1048576

def shuffleChunkSize : Nat := 1048576

theorem shuffleChunkSize_pos : 0 < shuffleChunkSize := Nat.succ_pos 1048575

/-! ## 2. The server -/

structure ShuffleServer where
  /-- `none` when the job has no entry; a partition without entry has no blobs. -/
  data : String → Option (Int → List Bytes)
  jobSizes : String → Nat
  partSizes : String → Int → Nat

def newShuffleServer : ShuffleServer := ⟨fun _ => none, fun _ => 0, fun _ _ => 0⟩

/-- The variables of a PushShuffleData handler. -/
structure PushStream where
  jobID : String
  partitionID : Int
  buf : Bytes
deriving DecidableEq

def PushStream.begin : PushStream := ⟨"", 0, []⟩

/-- The first chunk determines the target of the stream. -/
def PushStream.targeted (st : PushStream) (chunk : ShuffleDataChunk) : PushStream :=
  if st.jobID = "" then { st with jobID := chunk.jobID, partitionID := chunk.partitionID } else st

theorem PushStream.targeted_buf (st : PushStream) (chunk : ShuffleDataChunk) :
    (st.targeted chunk).buf = st.buf := by
  unfold targeted
  split <;> rfl

namespace ShuffleServer

/-- The blobs of a partition, in the order in which their streams ended. -/
def blobs (s : ShuffleServer) (jobID : String) (partitionID : Int) : List Bytes :=
  ((s.data jobID).getD fun _ => []) partitionID

/-- PushShuffleData receives a chunk. -/
def recv (s : ShuffleServer) (st : PushStream) (chunk : ShuffleDataChunk) :
    Except Status PushStream :=
  if chunk.jobID = "" then .error ⟨.invalidArgument, "job_id is required"⟩ else
  let st := st.targeted chunk
  if chunk.jobID ≠ st.jobID ∨ chunk.partitionID ≠ st.partitionID then
    .error ⟨.invalidArgument,
      "all chunks in a stream must target the same job_id and partition_id"⟩ else
  let incomingSize := st.buf.length + chunk.data.length
  if incomingSize > maxShufflePartitionBytes then
    .error ⟨.resourceExhausted,
      s!"shuffle partition stream exceeds max size for job {st.jobID} partition {st.partitionID}"⟩
  else
  if s.partSizes st.jobID st.partitionID + incomingSize > maxShufflePartitionBytes then
    .error ⟨.resourceExhausted,
      s!"shuffle partition size exceeded for job {st.jobID} partition {st.partitionID}"⟩ else
  if s.jobSizes st.jobID + incomingSize > maxShuffleJobBytes then
    .error ⟨.resourceExhausted, s!"shuffle job size exceeded for job {st.jobID}"⟩ else
  .ok { st with buf := st.buf ++ chunk.data }

/-- PushShuffleData reaches the end of its stream. -/
def eof (s : ShuffleServer) (st : PushStream) : Except Status Unit × ShuffleServer :=
  if st.jobID = "" then (.ok (), s) else
  let parts := (s.data st.jobID).getD fun _ => []
  -- the entry of the job is made before the sizes are checked
  let s := { s with data := Function.update s.data st.jobID (some parts) }
  let newPartSize := s.partSizes st.jobID st.partitionID + st.buf.length
  let newJobSize := s.jobSizes st.jobID + st.buf.length
  if newPartSize > maxShufflePartitionBytes then
    (.error ⟨.resourceExhausted,
      s!"shuffle partition size exceeded for job {st.jobID} partition {st.partitionID}"⟩, s) else
  if newJobSize > maxShuffleJobBytes then
    (.error ⟨.resourceExhausted, s!"shuffle job size exceeded for job {st.jobID}"⟩, s) else
  (.ok (),
    { data := Function.update s.data st.jobID
        (some (Function.update parts st.partitionID (parts st.partitionID ++ [st.buf])))
      jobSizes := Function.update s.jobSizes st.jobID newJobSize
      partSizes := Function.update s.partSizes st.jobID
        (Function.update (s.partSizes st.jobID) st.partitionID newPartSize) })

/-- GetShuffleData: the chunks that it sends before it ends the stream. -/
def getShuffleData (sha256Hex : Bytes → String) (s : ShuffleServer) (jobID : String)
    (partitionID : Int) : Except Status (List ShuffleDataChunk) :=
  match s.data jobID with
  | none => .error ⟨.notFound, s!"no shuffle data for job {jobID}"⟩
  | some parts => .ok ((parts partitionID).flatMap fun blob =>
      (Frames.block shuffleChunkSize ("", false) (fun blob => (sha256Hex blob, true)) blob).map
        fun (data, segmentChecksum, segmentEnd) =>
          ⟨jobID, partitionID, data, segmentChecksum, segmentEnd⟩)

/-! ## 3. What a push does -/

variable {s s' : ShuffleServer} {st st' : PushStream} {chunk : ShuffleDataChunk}

/-- What has been checked of an accepted chunk, and where it goes. -/
theorem recv_accepted (h : s.recv st chunk = .ok st') :
    chunk.jobID ≠ "" ∧ chunk.jobID = (st.targeted chunk).jobID ∧
      chunk.partitionID = (st.targeted chunk).partitionID ∧
      (st.targeted chunk).buf.length + chunk.data.length ≤ maxShufflePartitionBytes ∧
      st' = { st.targeted chunk with buf := (st.targeted chunk).buf ++ chunk.data } := by
  unfold recv at h
  obtain ⟨hjob, h⟩ := ok_of_guard h
  obtain ⟨hsame, h⟩ := ok_of_guard h
  obtain ⟨hj, hp⟩ := not_or.mp hsame
  obtain ⟨hfits, h⟩ := ok_of_guard h
  obtain ⟨_, h⟩ := ok_of_guard h
  obtain ⟨_, h⟩ := ok_of_guard h
  cases h
  exact ⟨hjob, not_not.mp hj, not_not.mp hp, Nat.not_lt.mp hfits, rfl⟩

/-- An accepted chunk targets the job and the partition of its stream. -/
theorem recv_ok (h : s.recv st chunk = .ok st') :
    st'.jobID = chunk.jobID ∧ st'.partitionID = chunk.partitionID ∧ chunk.jobID ≠ "" ∧
      st'.buf = st.buf ++ chunk.data := by
  obtain ⟨hne, hj, hp, _, rfl⟩ := recv_accepted h
  exact ⟨hj.symm, hp.symm, hne, by rw [st.targeted_buf]⟩

/-- A stream that no chunk has reached leaves the server as it is. -/
theorem eof_unopened (h : st.jobID = "") : s.eof st = (.ok (), s) := by
  rw [eof, if_pos h]

theorem blobs_update {parts : Int → List Bytes} {d : ShuffleServer} {j : String}
    (hd : d.data = Function.update s.data j (some parts)) (j' : String) (p : Int) :
    d.blobs j' p = if j' = j then parts p else s.blobs j' p := by
  unfold blobs
  rw [hd]
  by_cases hj : j' = j
  · rw [if_pos hj, hj, Function.update_self]
    rfl
  · rw [if_neg hj, Function.update_of_ne hj]

/-- The end of a stream that chunks have reached stores the buffer as one blob. -/
theorem eof_ok (hst : st.jobID ≠ "") (h : s.eof st = (.ok (), s')) (j : String) (p : Int) :
    s'.blobs j p =
      if j = st.jobID ∧ p = st.partitionID then s.blobs j p ++ [st.buf] else s.blobs j p := by
  rw [eof, if_neg hst] at h
  dsimp only at h
  split at h
  · cases h
  split at h
  · cases h
  cases h
  rw [blobs_update (s := s) (Function.update_idem ..)]
  by_cases hj : j = st.jobID
  · subst hj
    rw [if_pos rfl]
    by_cases hp : p = st.partitionID
    · subst hp
      rw [if_pos ⟨rfl, rfl⟩, Function.update_self]
      rfl
    · rw [if_neg fun h => hp h.2, Function.update_of_ne hp]
      rfl
  · rw [if_neg hj, if_neg fun h => hj h.1]

/-- A refused stream stores nothing. -/
theorem eof_error {e : Status} (h : s.eof st = (.error e, s')) (j : String) (p : Int) :
    s'.blobs j p = s.blobs j p := by
  have hmade : ∀ d : ShuffleServer,
      d.data = Function.update s.data st.jobID (some ((s.data st.jobID).getD fun _ => [])) →
      d.blobs j p = s.blobs j p := by
    intro d hd
    rw [blobs_update hd]
    split
    · next hj => rw [hj]; rfl
    · rfl
  unfold eof at h
  split at h
  · cases h
  dsimp only at h
  split at h
  · cases h
    exact hmade _ rfl
  split at h
  · cases h
    exact hmade _ rfl
  · cases h

/-! ## 4. What a reader gets -/

theorem getShuffleData_ok (sha256Hex : Bytes → String) {j : String}
    (h : (s.data j).isSome = true) (p : Int) :
    ∃ chunks, s.getShuffleData sha256Hex j p = .ok chunks ∧
      Frames.segments (chunks.map fun c => (c.data, c.segmentChecksum)) [] =
        ((s.blobs j p).filter fun blob => !blob.isEmpty).map
          fun blob => (blob, some (sha256Hex blob)) := by
  obtain ⟨parts, hparts⟩ := Option.isSome_iff_exists.mp h
  refine ⟨_, by rw [getShuffleData, hparts], ?_⟩
  rw [blobs, hparts, Option.getD_some,
    ← Frames.segments_blocks shuffleChunkSize_pos "" sha256Hex, List.map_flatMap]
  congr 1
  refine List.flatMap_congr fun blob _ => ?_
  rw [List.map_map, Frames.block, Frames.block, List.map_append, List.map_map]
  rfl

end ShuffleServer

end KubeMapReduce
