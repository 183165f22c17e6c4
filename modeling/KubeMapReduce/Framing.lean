import KubeMapReduce.Accounting
import KubeMapReduce.Delivery

/-!
# The framing of the shuffle

A shufflePartitionWriter cuts what a Map task writes into chunks of 1 MiB and sends them on a
PushShuffleData stream. The server keeps what a stream has brought as one blob, cuts it again for
GetShuffleData, and ends it with an empty chunk that carries its digest. The Reduce task puts the
chunks together again and opens a reader at each empty chunk.

* `write_ok`, `close_ok`: what has been written is on the stream or in the buffer of the writer.
* `pushOutputs_ok`: the blobs after some outputs have been pushed.
* `framing_roundtrip`: the readers are the outputs with data, and their digests are those that Close
  has returned.
-/

namespace KubeMapReduce

/-! ## 1. The writer -/

/-- A shufflePartitionWriter; `hashed` is what its hasher has read and `stream` the handler at the
other end of its stream. -/
structure ShufflePartitionWriter where
  jobID : String
  partitionID : Int
  hashed : Bytes
  buf : Bytes
  closed : Bool
  stream : PushStream

namespace ShufflePartitionWriter

/-- A new writer, as openPartitionWriter makes it when there is a shuffle client. -/
def begin (jobID : String) (partitionID : Int) : ShufflePartitionWriter :=
  ⟨jobID, partitionID, [], [], false, .begin⟩

variable (s : ShuffleServer)

/-- Send -/
def send (w : ShufflePartitionWriter) (data : Bytes) : Except Status ShufflePartitionWriter :=
  (s.recv w.stream ⟨w.jobID, w.partitionID, data, "", false⟩).map fun st => { w with stream := st }

/-- The loop of Write, at most `fuel` times. -/
def sendFull : Nat → ShufflePartitionWriter → Except String ShufflePartitionWriter
  | 0, w => .ok w
  | fuel + 1, w =>
    if w.buf.length ≥ shuffleChunkSizeBytes then
      match w.send s (w.buf.take shuffleChunkSizeBytes) with
      | .error status => .error s!"send shuffle chunk: {status.message}"
      | .ok w' => sendFull fuel { w' with buf := w.buf.drop shuffleChunkSizeBytes }
    else .ok w

def write (w : ShufflePartitionWriter) (p : Bytes) : Except String ShufflePartitionWriter :=
  sendFull s (w.buf ++ p).length { w with hashed := w.hashed ++ p, buf := w.buf ++ p }

/-- The rest of the buffer, as a last chunk. -/
def sendRest (w : ShufflePartitionWriter) : Except String ShufflePartitionWriter :=
  if w.buf.length > 0 then
    match w.send s w.buf with
    | .error status => .error s!"send final shuffle chunk: {status.message}"
    | .ok w' => .ok { w' with buf := [] }
  else .ok w

/-- The URI and the checksum that Close returns, and the server after it. -/
def close (sha256Hex : Bytes → String) (w : ShufflePartitionWriter) :
    Except String ((String × String) × ShuffleServer) :=
  if w.closed then .error "partition writer already closed" else
  match w.sendRest s with
  | .error e => .error e
  | .ok w' =>
    match s.eof w'.stream with
    | (.error status, _) => .error s!"close shuffle stream: {status.message}"
    | (.ok _, s') =>
      .ok ((s!"shuffle://{w.jobID}/{w.partitionID}", sha256Hex w.hashed), s')

def writeAll (w : ShufflePartitionWriter) : List Bytes → Except String ShufflePartitionWriter
  | [] => .ok w
  | p :: rest =>
    match w.write s p with
    | .error e => .error e
    | .ok w' => writeAll w' rest

end ShufflePartitionWriter

/-- One output after the other, each with its Write calls. -/
def pushOutputs (sha256Hex : Bytes → String) (jobID : String) (partitionID : Int) :
    List (List Bytes) → ShuffleServer → Except String (List (String × String) × ShuffleServer)
  | [], s => .ok ([], s)
  | writes :: rest, s =>
    match (ShufflePartitionWriter.begin jobID partitionID).writeAll s writes with
    | .error e => .error e
    | .ok w =>
      match w.close s sha256Hex with
      | .error e => .error e
      | .ok (closed, s') =>
        match pushOutputs sha256Hex jobID partitionID rest s' with
        | .error e => .error e
        | .ok (closes, s'') => .ok (closed :: closes, s'')

/-! ## 2. What a writer has sent -/

namespace ShuffleServer

variable {s : ShuffleServer} {st : PushStream}

theorem Fits.left {j : String} {p : Int} {b b' : Bytes} (h : s.Fits ⟨j, p, b ++ b'⟩) :
    s.Fits ⟨j, p, b⟩ := by
  obtain ⟨hpart, hjob⟩ := h
  dsimp only at hpart hjob
  rw [List.length_append] at hpart hjob
  exact ⟨by dsimp only; omega, by dsimp only; omega⟩

/-- A partition with a blob has an entry. -/
theorem data_isSome_of_blobs {j : String} {p : Int} (h : s.blobs j p ≠ []) :
    (s.data j).isSome = true := by
  cases hdata : s.data j with
  | none =>
    rw [blobs, hdata] at h
    exact absurd rfl h
  | some parts => rfl

/-- A chunk that fits is accepted. -/
theorem recv_accepts {chunk : ShuffleDataChunk} (hjob : chunk.jobID ≠ "")
    (htarget : st.jobID = "" ∨
      st.jobID = chunk.jobID ∧ st.partitionID = chunk.partitionID)
    (hfits : s.Fits ⟨chunk.jobID, chunk.partitionID, st.buf ++ chunk.data⟩) :
    s.recv st chunk = .ok ⟨chunk.jobID, chunk.partitionID, st.buf ++ chunk.data⟩ := by
  have htargeted : st.targeted chunk = ⟨chunk.jobID, chunk.partitionID, st.buf⟩ := by
    unfold PushStream.targeted
    rcases htarget with h | ⟨hj, hp⟩
    · rw [if_pos h]
    · rw [if_neg (by rw [hj]; exact hjob), ← hj, ← hp]
  obtain ⟨hpart, hjobSize⟩ := hfits
  rw [List.length_append] at hpart hjobSize
  rw [recv, if_neg hjob, htargeted]
  dsimp only
  rw [if_neg (not_or.mpr ⟨not_not.mpr rfl, not_not.mpr rfl⟩),
    if_neg (by dsimp only at hpart; omega),
    if_neg (Nat.not_lt.mpr hpart), if_neg (Nat.not_lt.mpr hjobSize)]

end ShuffleServer

namespace ShufflePartitionWriter

/-- The writer has got `content` for the partition: it is on the stream or in the buffer. -/
structure Carries (w : ShufflePartitionWriter) (j : String) (p : Int) (content : Bytes) : Prop where
  jobID : w.jobID = j
  partitionID : w.partitionID = p
  hashed : w.hashed = content
  bytes : w.stream.buf ++ w.buf = content
  notClosed : w.closed = false
  stream : w.stream = .begin ∨
    w.stream.jobID = j ∧ w.stream.partitionID = p ∧ w.stream.buf ≠ []

variable {s : ShuffleServer} {w : ShufflePartitionWriter} {j : String} {p : Int} {content : Bytes}

theorem begin_carries (j : String) (p : Int) : (begin j p).Carries j p [] :=
  ⟨rfl, rfl, rfl, rfl, rfl, .inl rfl⟩

/-- The first bytes of the buffer go to the stream. -/
theorem Carries.send (h : w.Carries j p content) (hj : j ≠ "") (hfits : s.Fits ⟨j, p, content⟩)
    {data rest : Bytes} (hbuf : w.buf = data ++ rest) (hdata : data ≠ []) :
    ∃ w', w.send s data = .ok w' ∧ Carries { w' with buf := rest } j p content := by
  have hbytes := h.bytes
  rw [hbuf, ← List.append_assoc] at hbytes
  have htarget : w.stream.jobID = "" ∨
      w.stream.jobID = w.jobID ∧ w.stream.partitionID = w.partitionID := by
    rcases h.stream with hst | ⟨hj', hp', _⟩
    · rw [hst]
      exact .inl rfl
    · exact .inr ⟨hj'.trans h.jobID.symm, hp'.trans h.partitionID.symm⟩
  have hrecv : s.recv w.stream ⟨w.jobID, w.partitionID, data, "", false⟩ =
      .ok ⟨w.jobID, w.partitionID, w.stream.buf ++ data⟩ := by
    refine ShuffleServer.recv_accepts (by rw [h.jobID]; exact hj) htarget ?_
    rw [h.jobID, h.partitionID]
    rw [← hbytes] at hfits
    exact hfits.left
  refine ⟨{ w with stream := ⟨w.jobID, w.partitionID, w.stream.buf ++ data⟩ }, ?_,
    h.jobID, h.partitionID, h.hashed, hbytes, h.notClosed,
    .inr ⟨h.jobID, h.partitionID, List.append_ne_nil_of_right_ne_nil _ hdata⟩⟩
  rw [ShufflePartitionWriter.send, hrecv]
  rfl

/-- The loop of Write ends with less than a chunk in the buffer. -/
theorem Carries.sendFull (h : w.Carries j p content) (hj : j ≠ "") (hfits : s.Fits ⟨j, p, content⟩)
    {fuel : Nat} (hfuel : w.buf.length ≤ fuel) :
    ∃ w', sendFull s fuel w = .ok w' ∧ w'.Carries j p content ∧
      w'.buf.length < shuffleChunkSizeBytes := by
  induction fuel generalizing w with
  | zero => exact ⟨w, rfl, h, Nat.lt_of_le_of_lt hfuel (by decide)⟩
  | succ fuel ih =>
    unfold ShufflePartitionWriter.sendFull
    split
    · next hfull =>
      have hpos : 0 < shuffleChunkSizeBytes := by decide
      obtain ⟨w', hsend, hw'⟩ := h.send hj hfits
        (List.take_append_drop shuffleChunkSizeBytes w.buf).symm
        (List.ne_nil_of_length_pos (by rw [List.length_take]; omega))
      rw [hsend]
      refine ih hw' ?_
      rw [List.length_drop]
      omega
    · next hfull => exact ⟨w, rfl, h, Nat.not_le.mp hfull⟩

/-- Write takes all of its argument. -/
theorem Carries.write (h : w.Carries j p content) (hj : j ≠ "") {data : Bytes}
    (hfits : s.Fits ⟨j, p, content ++ data⟩) :
    ∃ w', w.write s data = .ok w' ∧ w'.Carries j p (content ++ data) ∧
      w'.buf.length < shuffleChunkSizeBytes := by
  refine Carries.sendFull (w := { w with hashed := w.hashed ++ data, buf := w.buf ++ data })
    ⟨h.jobID, h.partitionID, ?_, ?_, h.notClosed, h.stream⟩ hj hfits (Nat.le_refl _)
  · dsimp only
    rw [h.hashed]
  · dsimp only
    rw [← List.append_assoc, h.bytes]

theorem Carries.writeAll (h : w.Carries j p content) (hj : j ≠ "") {writes : List Bytes}
    (hfits : s.Fits ⟨j, p, content ++ writes.flatten⟩) :
    ∃ w', w.writeAll s writes = .ok w' ∧ w'.Carries j p (content ++ writes.flatten) := by
  induction writes generalizing w content with
  | nil =>
    rw [List.flatten_nil, List.append_nil]
    exact ⟨w, rfl, h⟩
  | cons data writes ih =>
    rw [List.flatten_cons, ← List.append_assoc] at hfits ⊢
    obtain ⟨w', hwrite, hw', _⟩ := h.write hj hfits.left
    obtain ⟨w'', hrest, hw''⟩ := ih hw' hfits
    refine ⟨w'', ?_, hw''⟩
    rw [ShufflePartitionWriter.writeAll, hwrite]
    exact hrest

/-- The handler has all bytes when the buffer has been sent. -/
theorem Carries.sendRest (h : w.Carries j p content) (hj : j ≠ "")
    (hfits : s.Fits ⟨j, p, content⟩) :
    ∃ w', w.sendRest s = .ok w' ∧
      (content = [] ∧ w'.stream = .begin ∨ content ≠ [] ∧ w'.stream = ⟨j, p, content⟩) := by
  have hdone : ∀ w' : ShufflePartitionWriter, w'.Carries j p content → w'.buf = [] →
      content = [] ∧ w'.stream = .begin ∨ content ≠ [] ∧ w'.stream = ⟨j, p, content⟩ := by
    intro w' hw' hnil
    have hbytes := hw'.bytes
    rw [hnil, List.append_nil] at hbytes
    rcases hw'.stream with hst | ⟨hj', hp', hne⟩
    · rw [hst] at hbytes
      exact .inl ⟨hbytes.symm, hst⟩
    · refine .inr ⟨hbytes ▸ hne, ?_⟩
      rw [← hj', ← hp', ← hbytes]
  unfold ShufflePartitionWriter.sendRest
  split
  · next hlen =>
    obtain ⟨w', hsend, hw'⟩ := h.send hj hfits (List.append_nil w.buf).symm
      (List.ne_nil_of_length_pos hlen)
    rw [hsend]
    exact ⟨_, rfl, hdone _ hw' rfl⟩
  · next hlen =>
    exact ⟨w, rfl, hdone w h (List.length_eq_zero_iff.mp (Nat.eq_zero_of_not_pos hlen))⟩

/-- Close stores what has been written as one blob, if there is anything, and returns its digest. -/
theorem Carries.close (h : w.Carries j p content) (hj : j ≠ "") (hs : s.Accounted)
    (hfits : s.Fits ⟨j, p, content⟩) (sha256Hex : Bytes → String) :
    ∃ s', w.close s sha256Hex = .ok ((s!"shuffle://{j}/{p}", sha256Hex content), s') ∧
      s'.Accounted ∧
      (∀ j' p', s'.partSizes j' p' =
        s.partSizes j' p' + if j' = j ∧ p' = p then content.length else 0) ∧
      (∀ j', s'.jobSizes j' = s.jobSizes j' + if j' = j then content.length else 0) ∧
      s'.blobs j p = s.blobs j p ++ [content].filter (fun b => !b.isEmpty) := by
  obtain ⟨w', hrest, hst⟩ := h.sendRest hj hfits
  unfold ShufflePartitionWriter.close
  rw [h.notClosed, if_neg Bool.false_ne_true, hrest, h.jobID, h.partitionID, h.hashed]
  dsimp only
  rcases hst with ⟨rfl, hst⟩ | ⟨hne, hst⟩
  · rw [hst, ShuffleServer.eof_unopened rfl]
    exact ⟨s, rfl, hs, by simp, by simp, by simp⟩
  · rw [hst]
    obtain ⟨heof, hparts, hjobs⟩ := ShuffleServer.eof_of_fits hj hfits
    rw [heof]
    have hblobs := ShuffleServer.eof_ok hj heof j p
    refine ⟨_, rfl, hs.eof hj hfits, hparts, hjobs, ?_⟩
    rw [hblobs, if_pos ⟨rfl, rfl⟩]
    simp [hne]

end ShufflePartitionWriter

/-! ## 3. The round trip -/

section RoundTrip

variable {s : ShuffleServer} {j : String} {p : Int} {outputs : List (List Bytes)}

/-- The outputs are pushed one after the other; those with data become blobs. -/
theorem pushOutputs_ok (sha256Hex : Bytes → String) (hj : j ≠ "") (hs : s.Accounted)
    (hfits : s.Fits ⟨j, p, outputs.flatten.flatten⟩) :
    ∃ s', pushOutputs sha256Hex j p outputs s = .ok
        (outputs.map fun writes => (s!"shuffle://{j}/{p}", sha256Hex writes.flatten), s') ∧
      s'.blobs j p =
        s.blobs j p ++ (outputs.map List.flatten).filter fun b => !b.isEmpty := by
  induction outputs generalizing s with
  | nil => exact ⟨s, rfl, (List.append_nil _).symm⟩
  | cons writes outputs ih =>
    rw [List.flatten_cons, List.flatten_append] at hfits
    have hfirst : s.Fits ⟨j, p, [] ++ writes.flatten⟩ := hfits.left
    obtain ⟨w, hwrite, hw⟩ := (ShufflePartitionWriter.begin_carries j p).writeAll hj hfirst
    rw [List.nil_append] at hw
    obtain ⟨s', hclose, hs', hparts, hjobs, hblobs⟩ := hw.close hj hs hfits.left sha256Hex
    -- the sizes have grown by what was pushed
    have hfits' : s'.Fits ⟨j, p, outputs.flatten.flatten⟩ := by
      obtain ⟨hpart, hjob⟩ := hfits
      dsimp only at hpart hjob
      rw [List.length_append] at hpart hjob
      refine ⟨?_, ?_⟩
      · dsimp only
        rw [hparts, if_pos ⟨rfl, rfl⟩]
        omega
      · dsimp only
        rw [hjobs, if_pos rfl]
        omega
    obtain ⟨s'', hrest, hblobs'⟩ := ih hs' hfits'
    refine ⟨s'', ?_, ?_⟩
    · rw [pushOutputs, hwrite]
      dsimp only
      rw [hclose]
      dsimp only
      rw [hrest]
      rfl
    · rw [hblobs', hblobs, List.append_assoc, ← List.filter_append]
      rfl

/-- The outputs come back as they were written, and in the order of the pushes, each with the digest
that its Close has returned; outputs without data leave no trace. -/
theorem framing_roundtrip {w : Worker} {a : ReduceAssignment} (hsha : HexDigest w.sha256Hex)
    (hs : s.Accounted) (hjob : a.jobID ≠ "") (hnone : s.data a.jobID = none)
    (hsums : ∀ checksum ∈ a.checksums, checksum = "")
    (hdata : ∃ writes ∈ outputs, writes.flatten ≠ [])
    (hfits : outputs.flatten.flatten.length ≤ maxShufflePartitionBytes) :
    ∃ closes s' chunks,
      pushOutputs w.sha256Hex a.jobID a.partitionID outputs s = .ok (closes, s') ∧
      s'.getShuffleData w.sha256Hex a.jobID a.partitionID = .ok chunks ∧
      downloadShuffleInputsFromService w a chunks none =
        .ok ((outputs.map List.flatten).filter fun b => !b.isEmpty) ∧
      closes.map Prod.snd = outputs.map (fun writes => w.sha256Hex writes.flatten) ∧
      streamSegments chunks = ((outputs.map List.flatten).filter fun b => !b.isEmpty).map
        fun b => (b, some (w.sha256Hex b)) := by
  have hfresh : s.Fits ⟨a.jobID, a.partitionID, outputs.flatten.flatten⟩ :=
    hs.fits_of_none hnone hfits
  obtain ⟨s', hpush, hblobs⟩ := pushOutputs_ok w.sha256Hex hjob hs hfresh
  have hempty : s.blobs a.jobID a.partitionID = [] := by
    rw [ShuffleServer.blobs, hnone]
    rfl
  rw [hempty, List.nil_append] at hblobs
  have hsome : (s'.data a.jobID).isSome = true := by
    obtain ⟨writes, hwrites, hne⟩ := hdata
    refine ShuffleServer.data_isSome_of_blobs (p := a.partitionID) ?_
    rw [hblobs]
    refine List.ne_nil_of_mem (List.mem_filter.mpr ⟨List.mem_map_of_mem hwrites, ?_⟩)
    simpa using hne
  obtain ⟨chunks, hget, hsegs⟩ :=
    ShuffleServer.getShuffleData_ok w.sha256Hex hsome a.partitionID
  rw [hblobs, List.filter_filter] at hsegs
  simp only [Bool.and_self] at hsegs
  refine ⟨_, s', chunks, hpush, hget, ?_, ?_, hsegs⟩
  · refine download_ok_iff.mpr ⟨rfl, ?_, fun i content mark hi => ?_⟩
    · rw [streamSegments, hsegs, List.map_map]
      exact (List.map_id _).symm
    · have hnosum : a.checksums.getD i "" = "" := by
        rw [List.getD_eq_getElem?_getD]
        cases hck : a.checksums[i]? with
        | none => rfl
        | some checksum => exact hsums checksum (List.mem_of_getElem? hck)
      rw [streamSegments, hsegs, List.getElem?_map] at hi
      obtain ⟨b, _, heq⟩ := Option.map_eq_some_iff.mp hi
      cases heq
      rw [checkSegment_ok_iff, hnosum, if_pos rfl, Option.getD_some, hsha.trimSpace_eq]
      exact .inr rfl
  · rw [List.map_map]
    rfl

end RoundTrip

/-- Three outputs, the second one without data. -/
def threeOutputs : List (List Bytes) := [[[1, 2], [3]], [[]], [[4]]]

theorem framing_roundtrip_three :
    ∃ closes s' chunks,
      pushOutputs shuffleWorker.sha256Hex "1" 0 threeOutputs newShuffleServer = .ok (closes, s') ∧
      s'.getShuffleData shuffleWorker.sha256Hex "1" 0 = .ok chunks ∧
      downloadShuffleInputsFromService shuffleWorker ⟨"1", 0, []⟩ chunks none =
        .ok [[1, 2, 3], [4]] := by
  have hdata : ∃ writes ∈ threeOutputs, writes.flatten ≠ [] := ⟨[[4]], by decide, by decide⟩
  obtain ⟨closes, s', chunks, hpush, hget, hdown, _⟩ :=
    framing_roundtrip (s := newShuffleServer) (a := ⟨"1", 0, []⟩) shuffleWorker_hexDigest
      ShuffleServer.newShuffleServer_accounted (by decide) rfl
        (by simp [ReduceAssignment.checksums])
      hdata (by decide)
  exact ⟨closes, s', chunks, hpush, hget, hdown⟩

end KubeMapReduce
