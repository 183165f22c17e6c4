import KubeMapReduce.Scheduler
import KubeMapReduce.Shuffle

/-!
# The inputs of a Reduce task

A Reduce task reads the chunks of its partition from the shuffle service, splits them at
the delimiters and compares each segment with the checksum that the assignment has at the
same position.

* `collect`: the same check on the whole segments. `download_eq`: the loop over the chunks
  is this check of the segments of the stream.
* `download_ok_iff`: which streams are accepted, and what the readers hold.
* `shuffle_complete_iff`: the readers of an accepted stream are those that the assignment
  announces exactly when there are as many segments as locations, also those of a task that stores
  its output. `segment_lost` is a stream that is accepted without any.
-/

namespace KubeMapReduce

variable {mark : Option String} {readers : List Bytes} {chunks : List ShuffleDataChunk}
  {expected : List String} {failure : Option Status} {w : Worker}

/-! ## 1. Checksums -/

/-- The URI and the checksum of `uri#sha256=checksum`, split at the last `#`. -/
def splitChecksumURI (raw : String) : String × String :=
  let fragment := (raw.toList.reverse.takeWhile (· ≠ '#')).reverse
  match raw.toList.reverse.dropWhile (· ≠ '#') with
  | [] => (raw, "")
  | _ :: uri =>
    if "sha256=".toList.isPrefixOf fragment then
      (String.ofList uri.reverse, String.ofList (fragment.drop "sha256=".toList.length))
    else (raw, "")

theorem splitChecksumURI_append (uri checksum : String) (h : '#' ∉ checksum.toList) :
    splitChecksumURI s!"{uri}#sha256={checksum}" = (uri, checksum) := by
  have hraw : (s!"{uri}#sha256={checksum}").toList.reverse =
      (checksum.toList.reverse ++ "sha256=".toList.reverse) ++ '#' :: uri.toList.reverse := by
    simp [toString]
  have hfree : ∀ c ∈ checksum.toList.reverse ++ "sha256=".toList.reverse,
      decide (c ≠ '#') = true := by
    intro c hc
    refine decide_eq_true fun he => ?_
    rcases List.mem_append.mp hc with hc | hc
    · exact h (he ▸ List.mem_reverse.mp hc)
    · subst he
      revert hc
      decide
  unfold splitChecksumURI
  rw [hraw, List.takeWhile_append_of_pos hfree, List.dropWhile_append_of_pos hfree]
  simp

def trimSpace (s : String) : String :=
  String.ofList ((s.toList.dropWhile isSpace).reverse.dropWhile isSpace).reverse

/-- The fields of the assignment that a Reduce task reads. -/
structure ReduceAssignment where
  jobID : String
  partitionID : Int
  dataLocations : List String

variable {a : ReduceAssignment}

/-- The checksums of the locations, in their order. -/
def ReduceAssignment.checksums (a : ReduceAssignment) : List String :=
  a.dataLocations.map fun loc => (splitChecksumURI loc).2

/-- The checksum that segment `idx` has to have: that of the assignment, or that of the
stream when the assignment has none. -/
def resolveExpectedChecksum (expected : List String) (idx : Nat) (chunkChecksum : String) :
    Except String String :=
  let expectedFromAssignment := expected.getD idx ""
  let chunkChecksum := trimSpace chunkChecksum
  if expectedFromAssignment ≠ "" ∧ chunkChecksum ≠ "" ∧
      expectedFromAssignment ≠ chunkChecksum then
    .error (s!"segment {idx} checksum metadata mismatch: " ++
      s!"assignment={expectedFromAssignment} stream={chunkChecksum}")
  else if expectedFromAssignment ≠ "" then .ok expectedFromAssignment
  else .ok chunkChecksum

def validateChecksumHex (w : Worker) (content : Bytes) (expectedChecksum : String) :
    Except String Unit :=
  if expectedChecksum = "" then .ok () else
  let got := w.sha256Hex content
  if got ≠ expectedChecksum then
    .error s!"SHA-256 mismatch: expected {expectedChecksum}, got {got}"
  else .ok ()

/-! ## 2. The download -/

/-- The variables of the loop over the chunks. -/
structure Segments where
  segmentIdx : Nat
  /-- What the temporary file of the segment holds and the hasher has read. -/
  segment : Bytes
  segmentHasData : Bool
  readers : List Bytes

def Segments.begin : Segments := ⟨0, [], false, []⟩

/-- The segment becomes a reader, and the next one begins. -/
def finalizeSegment (w : Worker) (st : Segments) (expected : String) : Except String Segments :=
  match validateChecksumHex w st.segment expected with
  | .error e => .error s!"segment {st.segmentIdx} checksum mismatch: {e}"
  | .ok _ => .ok ⟨st.segmentIdx + 1, [], false, st.readers ++ [st.segment]⟩

def recvChunks (w : Worker) (expected : List String) :
    List ShuffleDataChunk → Segments → Except String Segments
  | [], st => .ok st
  | chunk :: rest, st =>
    if chunk.data.isEmpty then
      if st.segmentHasData then
        match resolveExpectedChecksum expected st.segmentIdx chunk.segmentChecksum with
        | .error e => .error e
        | .ok want =>
          match finalizeSegment w st want with
          | .error e => .error e
          | .ok st => recvChunks w expected rest st
      else recvChunks w expected rest st
    else recvChunks w expected rest
      { st with segment := st.segment ++ chunk.data, segmentHasData := true }

/-- What is left when the stream has ended. -/
def finishDownload (w : Worker) (expected : List String) (st : Segments) :
    Except String (List Bytes) :=
  if st.segmentHasData then
    match resolveExpectedChecksum expected st.segmentIdx "" with
    | .error e => .error e
    | .ok want =>
      match validateChecksumHex w st.segment want with
      | .error e => .error s!"segment {st.segmentIdx} checksum mismatch: {e}"
      | .ok _ => .ok (st.readers ++ [st.segment])
  else .ok st.readers

/-- The readers that a Reduce task gets from these chunks, after which the stream ends or
fails with a status. -/
def downloadShuffleInputsFromService (w : Worker) (a : ReduceAssignment)
    (chunks : List ShuffleDataChunk) (failure : Option Status) : Except String (List Bytes) :=
  match recvChunks w a.checksums chunks .begin with
  | .error e => .error e
  | .ok st =>
    match failure with
    | some status => .error s!"receive shuffle chunk: {status.message}"
    | none => finishDownload w a.checksums st

/-! ## 3. The check of whole segments -/

/-- A segment with its number and the checksum of its delimiter. -/
def checkSegment (w : Worker) (expected : List String) (idx : Nat) (content : Bytes)
    (mark : Option String) : Except String Unit :=
  match resolveExpectedChecksum expected idx (mark.getD "") with
  | .error e => .error e
  | .ok want =>
    match validateChecksumHex w content want with
    | .error e => .error s!"segment {idx} checksum mismatch: {e}"
    | .ok _ => .ok ()

/-- The segments from number `idx` on, each one checked in turn. -/
def collect (w : Worker) (expected : List String) :
    Nat → List (Bytes × Option String) → Except String (List Bytes)
  | _, [] => .ok []
  | idx, (content, mark) :: rest =>
    match checkSegment w expected idx content mark with
    | .error e => .error e
    | .ok _ => (collect w expected (idx + 1) rest).map (content :: ·)

/-- The segments of a stream, with the checksums of their delimiters. -/
def streamSegments (chunks : List ShuffleDataChunk) : List (Bytes × Option String) :=
  Frames.segments (chunks.map fun c => (c.data, c.segmentChecksum)) []

/-- The variables of the loop agree with each other. -/
structure Segments.Sound (st : Segments) : Prop where
  idx : st.segmentIdx = st.readers.length
  hasData : st.segmentHasData = !st.segment.isEmpty

/-- The loop and what follows it are the check of the segments that are still to come. -/
theorem recvChunks_eq (w : Worker) (expected : List String) (chunks : List ShuffleDataChunk)
    {st : Segments} (h : st.Sound) :
    (recvChunks w expected chunks st).bind (finishDownload w expected) =
      (collect w expected st.segmentIdx (Frames.segments
        (chunks.map fun c => (c.data, c.segmentChecksum)) st.segment)).map (st.readers ++ ·) := by
  induction chunks generalizing st with
  | nil =>
    show finishDownload w expected st = _
    rw [List.map_nil, Frames.segments, finishDownload, h.hasData]
    cases hnil : st.segment.isEmpty with
    | true =>
      show _ = Except.ok (st.readers ++ [])
      rw [List.append_nil]
      rfl
    | false =>
      rw [Bool.not_false, if_pos rfl, if_neg Bool.false_ne_true, collect, checkSegment,
        Option.getD_none]
      cases resolveExpectedChecksum expected st.segmentIdx "" with
      | error e => rfl
      | ok want =>
        dsimp only
        cases validateChecksumHex w st.segment want <;> rfl
  | cons chunk rest ih =>
    rw [List.map_cons, Frames.segments, recvChunks]
    cases hdata : chunk.data.isEmpty with
    | false =>
      rw [if_neg Bool.false_ne_true, if_neg Bool.false_ne_true]
      have hsound : Segments.Sound
          { st with segment := st.segment ++ chunk.data, segmentHasData := true } :=
        ⟨h.idx, by simp [List.isEmpty_eq_false_iff.mp hdata]⟩
      exact ih hsound
    | true =>
      rw [if_pos rfl, if_pos rfl, h.hasData]
      cases hnil : st.segment.isEmpty with
      | true =>
        rw [Bool.not_true, if_neg Bool.false_ne_true, if_pos rfl]
        have hseg := List.isEmpty_iff.mp hnil
        have := ih h
        rwa [hseg] at this
      | false =>
        rw [Bool.not_false, if_pos rfl, if_neg Bool.false_ne_true, collect, checkSegment,
          Option.getD_some]
        cases resolveExpectedChecksum expected st.segmentIdx chunk.segmentChecksum with
        | error e => rfl
        | ok want =>
          dsimp only
          unfold finalizeSegment
          cases validateChecksumHex w st.segment want with
          | error e => rfl
          | ok _ =>
            dsimp only
            rw [ih ⟨by rw [h.idx, List.length_append]; rfl, rfl⟩]
            cases collect w expected (st.segmentIdx + 1)
              (Frames.segments (rest.map fun c => (c.data, c.segmentChecksum)) []) with
            | error e => rfl
            | ok readers =>
              show Except.ok (st.readers ++ [st.segment] ++ readers) = _
              rw [List.append_assoc]
              rfl

/-- The download is the check of the segments of its stream. -/
theorem download_eq (w : Worker) (a : ReduceAssignment) (chunks : List ShuffleDataChunk) :
    downloadShuffleInputsFromService w a chunks none =
      collect w a.checksums 0 (streamSegments chunks) := by
  have hloop := recvChunks_eq w a.checksums chunks (⟨rfl, rfl⟩ : Segments.begin.Sound)
  have hmap : (collect w a.checksums 0 (streamSegments chunks)).map ([] ++ ·) =
      collect w a.checksums 0 (streamSegments chunks) := by
    cases collect w a.checksums 0 (streamSegments chunks) <;> rfl
  refine Eq.trans ?_ (hloop.trans hmap)
  unfold downloadShuffleInputsFromService
  cases recvChunks w a.checksums chunks .begin <;> rfl

/-- A stream that fails is refused. -/
theorem download_failed (w : Worker) (a : ReduceAssignment) (chunks : List ShuffleDataChunk)
    (status : Status) (readers : List Bytes) :
    downloadShuffleInputsFromService w a chunks (some status) ≠ .ok readers := by
  unfold downloadShuffleInputsFromService
  split <;> nofun

/-- The checksum of the assignment decides when there is one, and that of the delimiter
otherwise. A delimiter without checksum is always accepted. -/
theorem checkSegment_ok_iff {idx : Nat} {content : Bytes} :
    checkSegment w expected idx content mark = .ok () ↔
      if expected.getD idx "" = "" then
        trimSpace (mark.getD "") = "" ∨ w.sha256Hex content = trimSpace (mark.getD "")
      else (trimSpace (mark.getD "") = "" ∨ trimSpace (mark.getD "") = expected.getD idx "") ∧
        w.sha256Hex content = expected.getD idx "" := by
  have hvalid : ∀ want : String, validateChecksumHex w content want = .ok () ↔
      want = "" ∨ w.sha256Hex content = want := by
    intro want
    unfold validateChecksumHex
    by_cases hwant : want = ""
    · rw [if_pos hwant]
      exact iff_of_true rfl (.inl hwant)
    · rw [if_neg hwant]
      dsimp only
      by_cases hgot : w.sha256Hex content = want
      · rw [if_neg (not_not.mpr hgot)]
        exact iff_of_true rfl (.inr hgot)
      · rw [if_pos hgot]
        exact iff_of_false nofun fun h => h.elim hwant hgot
  have hcheck : ∀ want : String, (match validateChecksumHex w content want with
      | .error e => Except.error s!"segment {idx} checksum mismatch: {e}"
      | .ok _ => .ok ()) = Except.ok () ↔ want = "" ∨ w.sha256Hex content = want := by
    intro want
    rw [← hvalid want]
    cases validateChecksumHex w content want with
    | error e => exact iff_of_false nofun nofun
    | ok _ => exact iff_of_true rfl rfl
  unfold checkSegment resolveExpectedChecksum
  dsimp only
  by_cases hexp : expected.getD idx "" = ""
  · rw [if_neg fun h => h.1 hexp, if_neg (not_not.mpr hexp), if_pos hexp]
    exact hcheck _
  · rw [if_neg hexp]
    by_cases hmark : trimSpace (mark.getD "") = "" ∨ trimSpace (mark.getD "") = expected.getD idx ""
    · rw [if_neg fun h => hmark.elim h.2.1 fun he => h.2.2 he.symm, if_pos hexp]
      refine (hcheck _).trans ?_
      rw [or_iff_right hexp]
      exact (and_iff_right hmark).symm
    · obtain ⟨hne, hother⟩ := not_or.mp hmark
      rw [if_pos ⟨hexp, hne, fun he => hother he.symm⟩]
      exact iff_of_false nofun fun h => hmark h.1

theorem collect_ok_iff {idx : Nat} {segs : List (Bytes × Option String)} :
    collect w expected idx segs = .ok readers ↔
      readers = segs.map Prod.fst ∧ ∀ i content mark, segs[i]? = some (content, mark) →
        checkSegment w expected (idx + i) content mark = .ok () := by
  induction segs generalizing idx readers with
  | nil =>
    rw [collect, List.map_nil]
    exact ⟨fun h => ⟨(Except.ok.inj h).symm, nofun⟩, fun h => congrArg Except.ok h.1.symm⟩
  | cons seg rest ih =>
    obtain ⟨content, mark⟩ := seg
    rw [collect]
    cases hcheck : checkSegment w expected idx content mark with
    | error e =>
      refine iff_of_false nofun fun h => ?_
      have hfirst := h.2 0 content mark rfl
      rw [Nat.add_zero, hcheck] at hfirst
      cases hfirst
    | ok _ =>
      dsimp only
      have hrest : ∀ readers, collect w expected (idx + 1) rest = .ok readers ↔ _ :=
        fun _ => ih
      constructor
      · intro h
        cases hcollect : collect w expected (idx + 1) rest with
        | error e =>
          rw [hcollect] at h
          cases h
        | ok readers' =>
          rw [hcollect] at h
          cases h
          obtain ⟨rfl, hall⟩ := (hrest _).mp hcollect
          refine ⟨rfl, fun i content' mark' hi => ?_⟩
          cases i with
          | zero =>
            cases hi
            exact hcheck
          | succ i =>
            rw [show idx + (i + 1) = idx + 1 + i by omega]
            exact hall i content' mark' hi
      · rintro ⟨rfl, hall⟩
        rw [(hrest (rest.map Prod.fst)).mpr ⟨rfl, fun i content' mark' hi => ?_⟩]
        · rfl
        · rw [show idx + 1 + i = idx + (i + 1) by omega]
          exact hall (i + 1) content' mark' hi

/-- A download succeeds when the stream ends and every segment passes its check; the readers
then hold the segments. -/
theorem download_ok_iff :
    downloadShuffleInputsFromService w a chunks failure = .ok readers ↔
      failure = none ∧ readers = (streamSegments chunks).map Prod.fst ∧
      ∀ i content mark, (streamSegments chunks)[i]? = some (content, mark) →
        checkSegment w a.checksums i content mark = .ok () := by
  cases failure with
  | some status => exact iff_of_false (download_failed w a chunks status readers) nofun
  | none =>
    rw [download_eq, collect_ok_iff]
    simp only [Nat.zero_add, true_and]

/-! ## 4. Completeness -/

theorem getD_checksums {i : Nat} {checksum : String} (h : a.checksums[i]? = some checksum) :
    a.checksums.getD i "" = checksum := by
  rw [List.getD_eq_getElem?_getD, h, Option.getD_some]

/-- A segment that passes has the checksum of its location, if the location has one. -/
theorem sha256Hex_of_check {i : Nat} {content : Bytes} {checksum : String}
    (hi : a.checksums[i]? = some checksum) (hne : checksum ≠ "")
    (h : checkSegment w a.checksums i content mark = .ok ()) : w.sha256Hex content = checksum := by
  rw [checkSegment_ok_iff, getD_checksums hi, if_neg hne] at h
  exact h.2

/-- As many segments as locations: the readers have the announced checksums. -/
theorem digests_of_length (hsums : ∀ loc ∈ a.dataLocations, (splitChecksumURI loc).2 ≠ "")
    (hdown : downloadShuffleInputsFromService w a chunks failure = .ok readers)
    (hcount : readers.length = a.dataLocations.length) : readers.map w.sha256Hex = a.checksums := by
  have hlen : a.checksums.length = a.dataLocations.length := List.length_map _
  obtain ⟨_, rfl, hcheck⟩ := download_ok_iff.mp hdown
  rw [List.length_map] at hcount
  refine List.ext_getElem? fun i => ?_
  rw [List.getElem?_map, List.getElem?_map]
  cases hseg : (streamSegments chunks)[i]? with
  | none =>
    have hi := List.getElem?_eq_none_iff.mp hseg
    exact (List.getElem?_eq_none (by rw [hlen, ← hcount]; exact hi)).symm
  | some seg =>
    have hi : i < a.checksums.length := by
      rw [hlen, ← hcount]
      exact (List.getElem?_eq_some_iff.mp hseg).1
    have hsum := List.getElem?_eq_getElem hi
    obtain ⟨loc, hloc, hne⟩ := List.mem_map.mp (List.getElem_mem hi)
    rw [hsum]
    exact congrArg some (sha256Hex_of_check hsum (hne ▸ hsums loc hloc) (hcheck i seg.1 seg.2 hseg))

/-- The readers are the announced ones exactly if there are as many segments as locations. -/
theorem digests_iff (hsums : ∀ loc ∈ a.dataLocations, (splitChecksumURI loc).2 ≠ "")
    (hdown : downloadShuffleInputsFromService w a chunks failure = .ok readers) :
    readers.map w.sha256Hex = a.checksums ↔
      (streamSegments chunks).length = a.dataLocations.length := by
  obtain ⟨_, hreaders, _⟩ := download_ok_iff.mp hdown
  have hlen : readers.length = (streamSegments chunks).length := by
    rw [hreaders, List.length_map]
  constructor
  · intro heq
    have hsum := congrArg List.length heq
    rw [List.length_map, hlen] at hsum
    exact hsum.trans (List.length_map _)
  · exact fun hcount => digests_of_length hsums hdown (hlen.trans hcount)

/-! ## 5. The task -/

def outputBucket : String := "mapreduce-outputs"

/-- The key of the output object. -/
def ReduceAssignment.outputKey (a : ReduceAssignment) : String :=
  s!"{a.jobID}/partition-{a.partitionID}.jsonl"

def ReduceAssignment.outputURI (a : ReduceAssignment) : String :=
  s!"s3://{outputBucket}/{a.outputKey}"

/-- What runReduce uses of its surroundings. -/
structure ReduceCode where
  /-- MergeInputs of the readers. -/
  merge : List Bytes → Except String Bytes
  /-- The reducer process on the merged records: what it writes, and how it exits. -/
  reducer : Bytes → Except String (Bytes × Option String)
  /-- The error of PutObject; without one the object is stored. -/
  putObject : String → Bytes → Option String

/-- The objects that runReduce has stored, and what it returns. -/
structure ReduceRun where
  stored : List (String × Bytes)
  result : Except String (List String × List String)

/-- PutObject of an output, with its URI and its checksum. -/
def putOutput (w : Worker) (code : ReduceCode) (a : ReduceAssignment) (what : String)
    (content : Bytes) : List (String × Bytes) × Except String (List String × List String) :=
  match code.putObject a.outputKey content with
  | some e => ([], .error s!"upload {what}: {e}")
  | none => ([(a.outputKey, content)], .ok ([a.outputURI], [w.sha256Hex content]))

def runReduce (w : Worker) (code : ReduceCode) (a : ReduceAssignment)
    (chunks : List ShuffleDataChunk) (failure : Option Status) : ReduceRun :=
  match downloadShuffleInputsFromService w a chunks failure with
  | .error e => ⟨[], .error e⟩
  | .ok [] =>
    let (stored, result) := putOutput w code a "empty output" []
    ⟨stored, result⟩
  | .ok readers =>
    match code.merge readers with
    | .error e => ⟨[], .error s!"merge: {e}"⟩
    | .ok merged =>
      match code.reducer merged with
      | .error e => ⟨[], .error s!"reducer: {e}"⟩
      | .ok (stdout, exit) =>
        let (stored, result) := putOutput w code a "output" stdout
        -- the reducer is waited for after the upload
        match exit with
        | some e => ⟨stored, .error s!"reducer: {e}"⟩
        | none => ⟨stored, result⟩

/-- Nothing is stored unless the download has succeeded. -/
theorem runReduce_downloaded {code : ReduceCode}
    (h : (runReduce w code a chunks failure).stored ≠ []) :
    ∃ readers, downloadShuffleInputsFromService w a chunks failure = .ok readers := by
  cases hdown : downloadShuffleInputsFromService w a chunks failure with
  | ok readers => exact ⟨readers, rfl⟩
  | error e =>
    unfold runReduce at h
    rw [hdown] at h
    exact absurd rfl h

/-- All locations have checksums. The readers of a download that succeeds are the announced ones,
in number and in order, exactly if the stream has as many segments as there are locations: each
segment is compared with the checksum at its place, and the number is not compared. A task that
stores an output has had such a download, and so its output comes from the announced segments in the
same case. -/
theorem shuffle_complete_iff (w : Worker) (a : ReduceAssignment) (chunks : List ShuffleDataChunk)
    (failure : Option Status) (hsums : ∀ loc ∈ a.dataLocations, (splitChecksumURI loc).2 ≠ "") :
    (∀ readers, downloadShuffleInputsFromService w a chunks failure = .ok readers →
      (readers.map w.sha256Hex = a.checksums ↔
        (streamSegments chunks).length = a.dataLocations.length)) ∧
    ∀ code, (runReduce w code a chunks failure).stored ≠ [] →
      ∃ readers, downloadShuffleInputsFromService w a chunks failure = .ok readers ∧
        (readers.map w.sha256Hex = a.checksums ↔
          (streamSegments chunks).length = a.dataLocations.length) := by
  refine ⟨fun readers hdown => digests_iff hsums hdown, fun code hstored => ?_⟩
  obtain ⟨readers, hdown⟩ := runReduce_downloaded hstored
  exact ⟨readers, hdown, digests_iff hsums hdown⟩

theorem newline_blank : ([10] : Line).all (fun b => decide (b = 10 ∨ b = 32)) = true := rfl

/-- A worker whose digest is the content in hex. -/
def shuffleWorker : Worker where
  hasShuffleClient := true
  blank line := line.all fun b => decide (b = 10 ∨ b = 32)
  decode line := some ⟨String.ofList (line.map fun b => Char.ofNat b.toNat), ""⟩
  sha256Hex content := String.ofList
    ('0' :: content.flatMap fun b => [Nat.digitChar (b.toNat / 16), Nat.digitChar (b.toNat % 16)])
  blank_newline := newline_blank

theorem shuffleWorker_pushes : shuffleWorker.hasShuffleClient = true := rfl

/-- One Map task has a record "a" in partition 0. -/
def reduceOne : ReduceAssignment := ⟨"1", 0, ["shuffle://1/0#sha256=0610a"]⟩

/-- Two Map tasks have a record in partition 0. -/
def reduceTwo : ReduceAssignment :=
  ⟨"1", 0, ["shuffle://1/0#sha256=0610a", "shuffle://1/0#sha256=0620a"]⟩

/-- Both have pushed it. -/
def pushedServer : ShuffleServer :=
  (ShuffleServer.eof (ShuffleServer.eof newShuffleServer ⟨"1", 0, [97, 10]⟩).2
    ⟨"1", 0, [98, 10]⟩).2

theorem shuffle_complete_iff_two :
    ∃ chunks, pushedServer.getShuffleData shuffleWorker.sha256Hex "1" 0 = .ok chunks ∧
      (streamSegments chunks).length = 2 ∧
      downloadShuffleInputsFromService shuffleWorker reduceTwo chunks none =
        .ok [[97, 10], [98, 10]] ∧
      [[97, 10], [98, 10]].map shuffleWorker.sha256Hex = reduceTwo.checksums := by
  obtain ⟨chunks, hget, hlen, hdown⟩ :
      ∃ chunks, pushedServer.getShuffleData shuffleWorker.sha256Hex "1" 0 = .ok chunks ∧
        (streamSegments chunks).length = 2 ∧
        downloadShuffleInputsFromService shuffleWorker reduceTwo chunks none =
          .ok [[97, 10], [98, 10]] := ⟨_, rfl, by decide, by decide⟩
  exact ⟨chunks, hget, hlen, hdown,
    ((shuffle_complete_iff shuffleWorker reduceTwo chunks none (by decide)).1 _ hdown).mpr hlen⟩

/-- The manager has lost its data, and a Map task has pushed partition 1 since. -/
def restartedServer : ShuffleServer := (ShuffleServer.eof newShuffleServer ⟨"1", 1, [98, 10]⟩).2

/-- The download of partition 0 succeeds without a reader, and the task stores an empty
output. -/
theorem segment_lost :
    ∃ chunks, restartedServer.getShuffleData shuffleWorker.sha256Hex "1" 0 = .ok chunks ∧
      (∀ loc ∈ reduceOne.dataLocations, (splitChecksumURI loc).2 ≠ "") ∧
      downloadShuffleInputsFromService shuffleWorker reduceOne chunks none = .ok [] ∧
      [].map shuffleWorker.sha256Hex ≠ reduceOne.checksums ∧
      ∀ code : ReduceCode, code.putObject reduceOne.outputKey [] = none →
        runReduce shuffleWorker code reduceOne chunks none =
          ⟨[("1/partition-0.jsonl", [])],
            .ok (["s3://mapreduce-outputs/1/partition-0.jsonl"], ["0"])⟩ := by
  refine ⟨[], rfl, by decide, rfl, by decide, fun code hput => ?_⟩
  show ReduceRun.mk (putOutput shuffleWorker code reduceOne "empty output" []).1 _ = _
  rw [putOutput, hput]
  rfl

end KubeMapReduce
