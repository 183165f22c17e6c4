import Mathlib.Data.List.TakeWhile
import KubeMapReduce.Coverage
import KubeMapReduce.Isolation

/-!
# The request for the schedule

buildScheduleRequest puts a request together from the buckets of the input, one Map task for each,
and the Reduce tasks. Whatever the object storage answers, the manager accepts the request: every
helper falls back to a single bucket for the whole input. But the number of reducers has no upper
bound, and the slices of the splits and the tasks are made with sums of an int64.

* `buildInputBuckets_ne_nil`: there is at least one bucket.
* `splitLoop_tiles`: the ranges of an object follow each other up to its end.
* `buildScheduleRequest_valid`: the request of an accepted submission is built, passes
  ValidateScheduleJobRequest, has every Reduce index once, and its Map tasks tile a single object
  or have all of it, exactly if the two sums are in their bounds.
* `buildScheduleRequest_panics`: a submission with the largest number of reducers.
-/

namespace KubeMapReduce

open Exits

variable {req : JobSubmissionRequest} {splits : List ScheduleTaskInput} {s : Scheduler}

/-! ## 1. The ranges of an object -/

/-- The ranges follow each other from `start` to the end of the object, without a gap. -/
inductive Tiles (P : Nat → Nat → ScheduleTaskInput → Prop) (size : Nat) :
    Nat → List ScheduleTaskInput → Prop
  | nil : Tiles P size size []
  | cons {start stop : Nat} {split : ScheduleTaskInput} {rest : List ScheduleTaskInput}
      (ordered : start ≤ stop) (inside : stop < size) (holds : P start stop split)
      (tail : Tiles P size (stop + 1) rest) : Tiles P size start (split :: rest)

/-- The split of a range of at most `splitSize` bytes, with the checksum of its bytes. -/
def RangeSplit (sha256Hex : List UInt8 → String) (o : StoredObject) (inputURI : String)
    (splitSize start stop : Nat) (split : ScheduleTaskInput) : Prop :=
  stop - start + 1 ≤ splitSize ∧ ∃ bytes, o.getRange start stop = some bytes ∧
    bytes.length = stop - start + 1 ∧ split = ⟨inputURI, start, stop, sha256Hex bytes⟩

section Build

variable {sha256Hex : List UInt8 → String} {o : StoredObject} {inputURI : String}
  {size splitSize : Nat}

theorem checksumObjectRange_some {start stop : Nat} {checksum : String}
    (h : checksumObjectRange sha256Hex o start stop = some checksum) :
    ∃ bytes, o.getRange start stop = some bytes ∧ bytes.length = stop - start + 1 ∧
      checksum = sha256Hex bytes := by
  unfold checksumObjectRange at h
  split at h
  · cases h
  · next bytes hbytes =>
    split at h
    · next hlen =>
      cases h
      exact ⟨bytes, hbytes, hlen, rfl⟩
    · cases h

/-- The loop, if no checksum fails. -/
theorem splitLoop_tiles (hsplit : 0 < splitSize) {fuel start : Nat}
    (hfuel : size ≤ start + fuel * splitSize)
    (h : splitLoop sha256Hex o inputURI size splitSize fuel start = some splits) :
    Tiles (RangeSplit sha256Hex o inputURI splitSize) size (min start size) splits := by
  induction fuel generalizing start splits with
  | zero =>
    cases h
    rw [Nat.zero_mul, Nat.add_zero] at hfuel
    rw [Nat.min_eq_right hfuel]
    exact .nil
  | succ fuel ih =>
    rw [splitLoop] at h
    split at h
    · next hlt =>
      have hstop : (if start + splitSize - 1 ≥ size then size - 1 else start + splitSize - 1) =
          min (start + splitSize) size - 1 := by
        split <;> omega
      rw [hstop] at h
      dsimp only at h
      split at h
      · cases h
      · next checksum hsum =>
        obtain ⟨rest, hrest, rfl⟩ := Option.map_eq_some_iff.mp h
        obtain ⟨bytes, hbytes, hlen, rfl⟩ := checksumObjectRange_some hsum
        have htail := ih (by rw [Nat.succ_mul] at hfuel; omega) hrest
        rw [Nat.min_eq_left (Nat.le_of_lt hlt)]
        refine .cons (by omega) (by omega) ⟨by omega, bytes, hbytes, hlen, rfl⟩ ?_
        rwa [Nat.sub_add_cancel (by omega)]
    · next hge =>
      cases h
      rw [Nat.min_eq_right (Nat.not_lt.mp hge)]
      exact .nil

/-- The splits of an object: its ranges, or all of it in one. -/
theorem buildInputSplits_cases (sha256Hex : List UInt8 → String) (storage : Option StoredObject)
    (target : Int) (inputURI : String) :
    buildInputSplits sha256Hex storage target inputURI = [wholeInput inputURI] ∨
      ∃ o size, storage = some o ∧ o.stat = some size ∧ 0 < size ∧
        Tiles (RangeSplit sha256Hex o inputURI (targetSplitSize target)) size 0
          (buildInputSplits sha256Hex storage target inputURI) := by
  have hsplit : 0 < targetSplitSize target := by
    unfold targetSplitSize
    split
    · decide
    · omega
  unfold buildInputSplits
  split
  · exact .inl rfl
  · next o =>
    split
    · exact .inl rfl
    · next size hstat =>
      split
      · exact .inl rfl
      · next hsize =>
        split
        · exact .inl rfl
        · next splits hloop =>
          split
          · exact .inl rfl
          · refine .inr ⟨o, size, rfl, hstat, Nat.pos_of_ne_zero hsize, ?_⟩
            have htiles := splitLoop_tiles hsplit
              (by rw [Nat.zero_add]; exact Nat.le_mul_of_pos_right _ hsplit) hloop
            rwa [Nat.zero_min] at htiles

end Build

theorem Tiles.ne_nil {P : Nat → Nat → ScheduleTaskInput → Prop} {size start : Nat}
    (h : Tiles P size start splits) (hlt : start < size) : splits ≠ [] := by
  rintro rfl
  cases h
  exact Nat.lt_irrefl _ hlt

/-! ## 2. The buckets -/

section Buckets

variable (sha256Hex : List UInt8 → String) (storage : Option ScheduleObjectClient)

theorem buildInputSplits_ne_nil (o : Option StoredObject) (target : Int) (inputURI : String) :
    buildInputSplits sha256Hex o target inputURI ≠ [] := by
  rcases buildInputSplits_cases sha256Hex o target inputURI with h | ⟨_, _, _, _, hsize, h⟩
  · rw [h]
    exact List.cons_ne_nil _ _
  · exact h.ne_nil hsize

theorem buildPrefixInputBuckets_ne_nil (folder inputURI : String) :
    buildPrefixInputBuckets sha256Hex storage folder inputURI ≠ [] := by
  unfold buildPrefixInputBuckets
  split
  · exact List.cons_ne_nil _ _
  · split
    · exact List.cons_ne_nil _ _
    · split
      · exact List.cons_ne_nil _ _
      · split
        · exact List.cons_ne_nil _ _
        · dsimp only
          split
          · exact List.cons_ne_nil _ _
          · next hne => exact fun h => hne (by rw [h]; rfl)

/-- The buckets of a single object are its splits. -/
theorem buildInputBuckets_single {name : String} (hname : name.toList.getLast? ≠ some '/')
    (inputURI : String) :
    buildInputBuckets sha256Hex storage name inputURI =
      (buildInputSplits sha256Hex (storage.map (·.object name)) defaultTargetSplitSizeBytes
        inputURI).map fun split => [split] := by
  rw [buildInputBuckets, if_neg hname]
  exact if_neg fun h => buildInputSplits_ne_nil _ _ _ _ (List.length_eq_zero_iff.mp h)

theorem buildInputBuckets_ne_nil (name inputURI : String) :
    buildInputBuckets sha256Hex storage name inputURI ≠ [] := by
  by_cases hname : name.toList.getLast? = some '/'
  · rw [buildInputBuckets, if_pos hname]
    exact buildPrefixInputBuckets_ne_nil sha256Hex storage name inputURI
  · rw [buildInputBuckets_single sha256Hex storage hname, Ne, List.map_eq_nil_iff]
    exact buildInputSplits_ne_nil _ _ _ _

end Buckets

/-! ## 3. The checks of the manager -/

/-- The inputs of the Map tasks. -/
def ScheduleJobRequest.mapSplits (req : ScheduleJobRequest) : List (List ScheduleTaskInput) :=
  (req.tasks.filter fun t => decide (t.taskType = "Map")).map ScheduleTask.inputSplits

/-- The indices of the Reduce tasks. -/
def ScheduleJobRequest.reduceIndices (req : ScheduleJobRequest) : List Int :=
  (req.tasks.filter fun t => decide (t.taskType = "Reduce")).map ScheduleTask.replicaIndex

section Blank

theorem trimSpace_of_isBlank {text : String} (h : isBlank text = true) : trimSpace text = "" := by
  have hdrop : text.toList.dropWhile isSpace = [] :=
    List.dropWhile_eq_nil_iff.mpr (List.all_eq_true.mp h)
  rw [trimSpace, hdrop]
  rfl

theorem objectURI_notBlank (key : String) : isBlank (objectURI key) = false := by
  rw [isBlank, objectURI_toList]
  simp [isSpace]

theorem promotedURI_notBlank {artifactURI : String} (h : trimSpace artifactURI ≠ "")
    (userID jobID : String) : isBlank (promotedURI userID jobID artifactURI) = false := by
  unfold promotedURI
  split
  · exact Bool.eq_false_iff.mpr fun hb => h (trimSpace_of_isBlank hb)
  · exact objectURI_notBlank _

end Blank

theorem validateFunctionSpec_artifact {name interface : String} {spec : FunctionSpec}
    (h : validateFunctionSpec name spec interface = .ok ()) : trimSpace spec.artifact ≠ "" := by
  unfold validateFunctionSpec at h
  obtain ⟨_, h⟩ := ok_of_guard h
  exact (ok_of_guard h).1

/-- What an accepted submission has: a name, the two functions and a number of reducers. -/
theorem validated_request (h : validateJobSubmission req = .ok ()) :
    trimSpace req.filename ≠ "" ∧ trimSpace req.mapper.artifact ≠ "" ∧
      trimSpace req.reducer.artifact ≠ "" ∧ 1 ≤ req.reducers := by
  unfold validateJobSubmission at h
  dsimp only at h
  obtain ⟨hname, h⟩ := ok_of_guard h
  obtain ⟨_, h⟩ := ok_of_guard h
  obtain ⟨_, h⟩ := ok_of_guard h
  obtain ⟨_, h⟩ := ok_of_guard h
  obtain ⟨_, hmap, h⟩ := bind_ok h
  obtain ⟨_, hred, h⟩ := bind_ok h
  have hone : (if req.reducers < 1 then .error "reducers must be a positive integer" else .ok () :
      Except String Unit) = .ok () := by
    split at h
    · exact (bind_ok h).choose_spec.2
    · exact h
  refine ⟨hname, validateFunctionSpec_artifact hmap, validateFunctionSpec_artifact hred,
    Int.not_lt.mp fun hlt => ?_⟩
  rw [if_pos hlt] at hone
  cases hone

section Request

variable (taskID : Nat → String) (jobID userID : String) (req : JobSubmissionRequest)
  (files : JobFiles) (buckets : List (List ScheduleTaskInput))

/-- The tasks of one kind. -/
theorem requestOf_filter (kind : String) :
    (requestOf taskID jobID userID req files buckets).tasks.filter
        (fun t => decide (t.taskType = kind)) =
      (if kind = "Map" then
        buckets.zipIdx.map fun (bucket, i) => ⟨taskID i, "Map", 0, bucket⟩ else []) ++
      if kind = "Reduce" then
        (List.range req.reducers.toNat).map fun i =>
          ⟨taskID (buckets.length + i), "Reduce", i, []⟩
      else [] := by
  have hkeep : ∀ {α : Type} {k : String} {f : α → ScheduleTask} (l : List α),
      (∀ a, (f a).taskType = k) → (l.map f).filter (fun t => decide (t.taskType = kind)) =
        if kind = k then l.map f else [] := by
    intro α k f l hf
    split
    · next hk => exact List.filter_eq_self.mpr (by simp [hf, hk])
    · next hk => exact List.filter_eq_nil_iff.mpr (by simp [hf, Ne.symm hk])
  rw [requestOf, List.filter_append]
  exact congrArg₂ (· ++ ·) (hkeep _ fun _ => rfl) (hkeep _ fun _ => rfl)

theorem requestOf_mapSplits :
    (requestOf taskID jobID userID req files buckets).mapSplits = buckets := by
  rw [ScheduleJobRequest.mapSplits, requestOf_filter, if_pos rfl, if_neg (by decide),
    List.append_nil, List.map_map]
  exact List.zipIdx_map_fst ..

theorem requestOf_reduceIndices :
    (requestOf taskID jobID userID req files buckets).reduceIndices =
      (List.range req.reducers.toNat).map Nat.cast := by
  rw [ScheduleJobRequest.reduceIndices, requestOf_filter, if_neg (by decide), if_pos rfl,
    List.nil_append, List.map_map]
  rfl

theorem requestOf_length :
    (requestOf taskID jobID userID req files buckets).tasks.length =
      buckets.length + req.reducers.toNat := by
  rw [requestOf, List.length_append, List.length_map, List.length_zipIdx, List.length_map,
    List.length_range]

/-- ValidateScheduleJobRequest checks the ids, the URIs and the numbers of the tasks. -/
theorem validate_of_mapSplits {r : ScheduleJobRequest} (hjob : s.uuidParse r.jobID ≠ none)
    (huser : s.uuidParse r.userID ≠ none) (hinput : isBlank r.inputURI = false)
    (hmapper : isBlank r.mapperURI = false) (hreducer : isBlank r.reducerURI = false)
    (hm : 1 ≤ r.mTasks) (hr : 1 ≤ r.rTasks) (hlen : (r.tasks.length : Int) = r.mTasks + r.rTasks)
    (hmaps : (r.mapSplits.length : Int) = r.mTasks)
    (hreduces : (r.reduceIndices.length : Int) = r.rTasks) :
    validateScheduleJobRequest s r = .ok () := by
  have hcount : countTasks "Map" r.tasks = r.mTasks := by
    rw [← hmaps, ScheduleJobRequest.mapSplits, List.length_map, ← List.countP_eq_length_filter]
    rfl
  have hcount' : countTasks "Reduce" r.tasks = r.rTasks := by
    rw [← hreduces, ScheduleJobRequest.reduceIndices, List.length_map,
      ← List.countP_eq_length_filter]
    rfl
  rw [validateScheduleJobRequest, if_neg hjob, if_neg huser, hinput, hmapper, hreducer,
    if_neg Bool.false_ne_true, if_neg Bool.false_ne_true, if_neg Bool.false_ne_true,
    if_neg (by omega), if_neg (not_not.mpr hlen), hcount, hcount']
  dsimp only
  rw [if_neg (not_not.mpr rfl), if_neg (not_not.mpr rfl)]

end Request

/-- The manager accepts the request for a submission that the API has accepted, by a user whose
subject is a UUID. -/
theorem validate_requestOf {jobID userID : String} {buckets : List (List ScheduleTaskInput)}
    (hjob : s.uuidParse jobID ≠ none) (huser : s.uuidParse userID ≠ none)
    (hreq : validateJobSubmission req = .ok ()) (hne : buckets ≠ []) (taskID : Nat → String) :
    validateScheduleJobRequest s (requestOf taskID jobID userID req
      (promotedFiles userID jobID req req.combinerArtifact) buckets) = .ok () := by
  obtain ⟨hfile, hmapper, hreducer, hone⟩ := validated_request hreq
  have hpos := List.length_pos_iff.mpr hne
  refine validate_of_mapSplits hjob huser (promotedURI_notBlank hfile ..)
    (promotedURI_notBlank hmapper ..) (promotedURI_notBlank hreducer ..)
    (Int.ofNat_le.mpr hpos) hone ?_ ?_ ?_
  · rw [requestOf_length, Nat.cast_add, Int.toNat_of_nonneg (by omega)]
    rfl
  · rw [requestOf_mapSplits]
    rfl
  · rw [requestOf_reduceIndices, List.length_map, List.length_range,
      Int.toNat_of_nonneg (by omega)]
    rfl

/-- An accepted submission, by a user whose subject is a UUID, has a request as it should be exactly
if make grants both slices, whatever else the object storage does: a single object has at most
2^63 - 64 MiB bytes, so that the int64 sum for the number of its splits does not wrap, and the Map
and the Reduce tasks together are at most 2^42. Nothing else bounds the number of reducers. -/
theorem buildScheduleRequest_valid (s : Scheduler) (sha256Hex : List UInt8 → String)
    (storage : Option ScheduleObjectClient) (taskID : Nat → String) (jobID userID : String)
    (req : JobSubmissionRequest) (hjob : s.uuidParse jobID ≠ none)
    (huser : s.uuidParse userID ≠ none) (hreq : validateJobSubmission req = .ok ()) :
    let files := promotedFiles userID jobID req req.combinerArtifact
    let name := objectName files.inputURI
    (∃ r, buildScheduleRequest sha256Hex storage taskID jobID userID req files = some r ∧
      validateScheduleJobRequest s r = .ok () ∧
      (r.rTasks = req.reducers ∧ r.reduceIndices = (List.range req.reducers.toNat).map Nat.cast) ∧
      (name.toList.getLast? ≠ some '/' →
        r.mapSplits = [[wholeInput files.inputURI]] ∨
        ∃ client size splits, storage = some client ∧ (client.object name).stat = some size ∧
          r.mapSplits = splits.map (fun split => [split]) ∧
          Tiles (RangeSplit sha256Hex (client.object name) files.inputURI
            (targetSplitSize defaultTargetSplitSizeBytes)) size 0 splits)) ↔
    (name.toList.getLast? ≠ some '/' → ∀ client ∈ storage, ∀ size ∈ (client.object name).stat,
      size ≤ 9223372036787666944) ∧
    (buildInputBuckets sha256Hex storage name files.inputURI).length + req.reducers ≤
      maxTaskCapacity := by
  intro files name
  have hone := (validated_request hreq).2.2.2
  have hbounds : splitsOverflow storage name = false ↔ (name.toList.getLast? ≠ some '/' →
      ∀ client ∈ storage, ∀ size ∈ (client.object name).stat, size ≤ 9223372036787666944) := by
    simp only [splitsOverflow, splitCapacityWraps, Bool.and_eq_false_imp, decide_eq_true_eq,
      Option.any_eq_false, decide_eq_false_iff_not,
      show targetSplitSize defaultTargetSplitSizeBytes = 67108864 from rfl]
    refine imp_congr_right fun _ => forall₂_congr fun _ _ => forall₂_congr fun _ _ => ?_
    omega
  have hbuild : buildScheduleRequest sha256Hex storage taskID jobID userID req files =
      if splitsOverflow storage name then none else
      if (buildInputBuckets sha256Hex storage name files.inputURI).length + req.reducers < 0 ∨
        maxTaskCapacity < (buildInputBuckets sha256Hex storage name files.inputURI).length +
          req.reducers then none
      else some (requestOf taskID jobID userID req files
        (buildInputBuckets sha256Hex storage name files.inputURI)) := rfl
  rw [← hbounds, hbuild]
  cases splitsOverflow storage name with
  | true =>
    rw [if_pos rfl]
    refine iff_of_false ?_ ?_
    · rintro ⟨r, ⟨⟩, _⟩
    · rintro ⟨⟨⟩, _⟩
  | false =>
    rw [if_neg Bool.false_ne_true]
    by_cases hcap : (buildInputBuckets sha256Hex storage name files.inputURI).length +
        req.reducers ≤ maxTaskCapacity
    · rw [if_neg (by omega)]
      refine iff_of_true ⟨_, rfl, ?_, ⟨rfl, requestOf_reduceIndices ..⟩, fun hname => ?_⟩
        ⟨rfl, hcap⟩
      · exact validate_requestOf hjob huser hreq (buildInputBuckets_ne_nil _ _ _ _) taskID
      · rw [requestOf_mapSplits, buildInputBuckets_single sha256Hex storage hname]
        rcases buildInputSplits_cases sha256Hex (storage.map (·.object name))
          defaultTargetSplitSizeBytes files.inputURI with hwhole | ⟨o, size, ho, hstat, _, htiles⟩
        · exact .inl (by rw [hwhole]; rfl)
        · obtain ⟨client, rfl, rfl⟩ := Option.map_eq_some_iff.mp ho
          exact .inr ⟨client, size, _, rfl, hstat, rfl, htiles⟩
    · rw [if_pos (by omega)]
      refine iff_of_false ?_ fun h => hcap h.2
      rintro ⟨r, ⟨⟩, _⟩

/-- A submission with this number of reducers. -/
def wordsWith (reducers : Int) : JobSubmissionRequest :=
  { countWords "map.py" "reduce.py" with reducers := reducers }

/-- A storage in which every object has two bytes. -/
def twoBytes : ScheduleObjectClient := ⟨fun _ => servedObject [97, 10], fun _ => none⟩

theorem buildScheduleRequest_valid_two :
    let files := promotedFiles "uu" "u" (wordsWith 2) ""
    ∃ r, buildScheduleRequest (fun _ => "0") (some twoBytes) strokes "u" "uu" (wordsWith 2)
        files = some r ∧
      validateScheduleJobRequest strokeReplica r = .ok () ∧ r.reduceIndices = [0, 1] ∧
      r.mapSplits = [[⟨"s3://mapreduce-inputs/inputs/u/words.txt", 0, 1, "0"⟩]] := by
  intro files
  obtain ⟨r, hr, hvalid, ⟨-, hindices⟩, -⟩ := (buildScheduleRequest_valid strokeReplica
    (fun _ => "0") (some twoBytes) strokes "u" "uu" (wordsWith 2) (by decide) (by decide)
    (by decide +kernel)).mpr ⟨by decide +kernel, by decide +kernel⟩
  refine ⟨r, hr, hvalid, hindices, ?_⟩
  rw [buildScheduleRequest_eq hr, requestOf_mapSplits]
  decide +kernel

/-- A submission with as many reducers as an int64 can say is accepted, and the slice of its tasks
cannot be made. -/
theorem buildScheduleRequest_panics :
    validateJobSubmission (wordsWith 9223372036854775807) = .ok () ∧
      buildScheduleRequest (fun _ => "0") (some twoBytes) strokes "u" "uu"
        (wordsWith 9223372036854775807)
        (promotedFiles "uu" "u" (wordsWith 9223372036854775807) "") = none := by
  decide +kernel

end KubeMapReduce
