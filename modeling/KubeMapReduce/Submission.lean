import Mathlib.Algebra.Ring.Int.Defs
import Mathlib.Data.List.Sort
import KubeMapReduce.Lib.Client
import KubeMapReduce.ReduceTask
import KubeMapReduce.Splits

/-!
# The submission of a job

The API checks a submission, copies its files from the temporary area of the user to the inputs
of the job, cuts the input into buckets, stores the job and asks a manager to schedule it. The
handler is a program: each thing it asks of another service is a query, and the answer says if
it went well.

* `handleJobsSubmit`: the handler, with every answer it can give.
* `promoteJobFiles`: the copies. `promotedURI` is where a file ends up.
* `buildScheduleRequest`: the request to the manager, one Map task for each bucket; the numbers
  may be too large for a slice.
-/

namespace KubeMapReduce

open Programs

/-! ## 1. The request -/

structure FunctionSpec where
  language : String
  artifact : String
  entrypoint : String
  interface : String
deriving DecidableEq

structure JobSubmissionRequest where
  filename : String
  inputChecksum : String
  mapper : FunctionSpec
  reducer : FunctionSpec
  combiner : Option FunctionSpec
  reducers : Int
deriving DecidableEq

/-- strings.HasPrefix -/
def beginsWith (text start : String) : Bool := start.toList.isPrefixOf text.toList

/-- strings.Contains -/
def containsText (text part : String) : Bool :=
  text.toList.tails.any fun rest => part.toList.isPrefixOf rest

/-- strings.ToLower, for ASCII letters. -/
def toLower (text : String) : String := String.ofList (text.toList.map Char.toLower)

def mapInterface : String := "map(key,value)->[]KeyValue"

def reduceInterface : String := "reduce(key,values)->Value"

def allowedLanguages : List String := ["python", "java", "c", "cpp"]

def validateFunctionSpec (functionName : String) (spec : FunctionSpec)
    (expectedInterface : String) : Except String Unit :=
  if toLower (trimSpace spec.language) ∉ allowedLanguages then
    .error (functionName ++ ".language must be one of: python, java, c, cpp") else
  if trimSpace spec.artifact = "" then .error (functionName ++ ".artifact is required") else
  if trimSpace spec.entrypoint = "" then .error (functionName ++ ".entrypoint is required") else
  if trimSpace spec.interface ≠ expectedInterface then
    .error (functionName ++ ".interface must be " ++ expectedInterface) else
  .ok ()

/-- A part of a path that is empty, unless it is the last one, or that is a dot or two. -/
def invalidPart (last : Bool) (part : List Char) : Bool :=
  if part = [] then !last else decide (part = ['.']) || decide (part = ['.', '.'])

def validateJobSubmission (req : JobSubmissionRequest) : Except String Unit :=
  let filename := trimSpace req.filename
  if filename = "" then .error "filename is required" else
  if beginsWith filename "/" || containsText filename "\\" then .error "filename is invalid" else
  let parts := filename.toList.splitOn '/'
  if parts.zipIdx.any fun (part, i) => invalidPart (i == parts.length - 1) part then
    .error "filename is invalid" else
  if parts = [['.']] ∨ parts = [['.', '.']] then .error "filename is invalid" else do
    validateFunctionSpec "mapper" req.mapper mapInterface
    validateFunctionSpec "reducer" req.reducer reduceInterface
    match req.combiner with
    | some spec => validateFunctionSpec "combiner" spec reduceInterface
    | none => .ok ()
    if req.reducers < 1 then .error "reducers must be a positive integer" else .ok ()

/-- The checks that are made one after the other have all passed. -/
theorem bind_ok {ε α β : Type} {x : Except ε α} {f : α → Except ε β} {b : β}
    (h : (x >>= f) = .ok b) : ∃ a, x = .ok a ∧ f a = .ok b := by
  cases x with
  | error e => cases h
  | ok a => exact ⟨a, rfl, h⟩

def defaultReducers : Int := 1

/-- A request without a number of reducers has one. -/
def JobSubmissionRequest.withReducers (req : JobSubmissionRequest) : JobSubmissionRequest :=
  if req.reducers = 0 then { req with reducers := defaultReducers } else req

def JobSubmissionRequest.combinerArtifact (req : JobSubmissionRequest) : String :=
  (req.combiner.map FunctionSpec.artifact).getD ""

/-! ## 2. Buckets -/

def inputBucketName : String := "mapreduce-inputs"

/-- The URI of an object in the bucket of the inputs. -/
def objectURI (key : String) : String := s!"s3://{inputBucketName}/{key}"

def defaultTargetSplitSizeBytes : Int := 64 * 1024 * 1024

structure ScheduleObjectInfo where
  key : String
  size : Int
deriving DecidableEq

/-- The object storage as the API reads it: an object, and the objects below a folder; `none` is
an error. -/
structure ScheduleObjectClient where
  object : String → StoredObject
  listObjects : String → Option (List ScheduleObjectInfo)

/-- Large objects come first, and objects of one size by their keys. -/
def ScheduleObjectInfo.before (a b : ScheduleObjectInfo) : Prop :=
  if a.size = b.size then a.key ≤ b.key else b.size < a.size

instance : DecidableRel ScheduleObjectInfo.before := fun a b =>
  inferInstanceAs (Decidable (if a.size = b.size then a.key ≤ b.key else b.size < a.size))

structure Bucket where
  splits : List ScheduleTaskInput
  size : Int
deriving DecidableEq

/-- The first of the smallest buckets. -/
def leastLoaded (buckets : List Bucket) : Nat :=
  (List.range buckets.length).foldl (fun best i =>
    if (buckets[i]?.map Bucket.size).getD 0 < (buckets[best]?.map Bucket.size).getD 0 then i
    else best) 0

def Bucket.add (b : Bucket) (split : ScheduleTaskInput) (size : Int) : Bucket :=
  ⟨b.splits ++ [split], if size > 0 then b.size + size else b.size⟩

section Buckets

variable (sha256Hex : List UInt8 → String)

/-- The split of a listed object; `none` after a checksum error. -/
def listedSplit (client : ScheduleObjectClient) (obj : ScheduleObjectInfo) :
    Option ScheduleTaskInput :=
  if obj.size > 0 then
    (checksumObjectRange sha256Hex (client.object obj.key) 0 (obj.size - 1).toNat).map
      fun checksum => ⟨objectURI obj.key, 0, obj.size - 1, checksum⟩
  else some ⟨objectURI obj.key, 0, 0, ""⟩

/-- The loop over the sorted objects. -/
def fillBuckets (client : ScheduleObjectClient) :
    List ScheduleObjectInfo → List Bucket → Option (List Bucket)
  | [], buckets => some buckets
  | obj :: rest, buckets =>
    match listedSplit sha256Hex client obj with
    | none => none
    | some split =>
      fillBuckets client rest (buckets.modify (leastLoaded buckets) (·.add split obj.size))

def bucketCount (objects : List ScheduleObjectInfo) : Nat :=
  let totalSize := (objects.map fun obj => if obj.size > 0 then obj.size else 0).sum
  let splitSize := (targetSplitSize defaultTargetSplitSizeBytes : Int)
  let mTasks := ((totalSize + splitSize - 1) / splitSize).toNat
  min (max mTasks 1) objects.length

def buildPrefixInputBuckets (storage : Option ScheduleObjectClient) (folder : String)
    (fallbackInputURI : String) : List (List ScheduleTaskInput) :=
  let fallback := [[wholeInput fallbackInputURI]]
  match storage with
  | none => fallback
  | some client =>
    match client.listObjects folder with
    | none => fallback
    | some objects =>
      if objects.length = 0 then fallback else
      match fillBuckets sha256Hex client (objects.insertionSort ScheduleObjectInfo.before)
        (List.replicate (bucketCount objects) ⟨[], 0⟩) with
      | none => fallback
      | some buckets =>
        let result := (buckets.filter fun b => b.splits.length > 0).map Bucket.splits
        if result.length = 0 then fallback else result

def buildInputBuckets (storage : Option ScheduleObjectClient) (objectName inputURI : String) :
    List (List ScheduleTaskInput) :=
  if objectName.toList.getLast? = some '/' then
    buildPrefixInputBuckets sha256Hex storage objectName inputURI
  else
    let single := buildInputSplits sha256Hex (storage.map (·.object objectName))
      defaultTargetSplitSizeBytes inputURI
    if single.length = 0 then [[wholeInput inputURI]] else single.map fun split => [split]

/-- The names of the promoted files. -/
structure JobFiles where
  inputURI : String
  mapperURI : String
  reducerURI : String
  combinerURI : String
deriving DecidableEq

/-- The files that a job record names. -/
def JobRecord.files (rec : JobRecord) : JobFiles :=
  ⟨rec.filename, rec.mapperURI, rec.reducerURI, rec.combinerURI⟩

def ScheduleJobRequest.files (req : ScheduleJobRequest) : JobFiles :=
  ⟨req.inputURI, req.mapperURI, req.reducerURI, req.combinerURI⟩

/-- The name of an object in the bucket of the inputs. -/
def objectName (inputURI : String) : String :=
  if beginsWith inputURI (objectURI "") then
    String.ofList (inputURI.toList.drop (objectURI "").toList.length)
  else inputURI

/-- The request for these buckets, one Map task for each. `taskID` are the new UUIDs, in the order
in which they are drawn. -/
def requestOf (taskID : Nat → String) (jobID userID : String) (req : JobSubmissionRequest)
    (files : JobFiles) (inputBuckets : List (List ScheduleTaskInput)) : ScheduleJobRequest where
  jobID := jobID
  userID := userID
  inputURI := files.inputURI
  mapperURI := files.mapperURI
  reducerURI := files.reducerURI
  combinerURI := files.combinerURI
  mTasks := inputBuckets.length
  rTasks := req.reducers
  inputChecksum := req.inputChecksum
  tasks :=
    (inputBuckets.zipIdx.map fun (bucket, i) => ⟨taskID i, "Map", 0, bucket⟩) ++
    (List.range req.reducers.toNat).map fun i =>
      ⟨taskID (inputBuckets.length + i), "Reduce", i, []⟩

/-- The largest capacity of a slice of tasks: a task has 64 bytes, and the addresses have 48 bits.
-/
def maxTaskCapacity : Int := 4398046511104

/-- The splits of a single object are more than an int64 can count. -/
def splitsOverflow (storage : Option ScheduleObjectClient) (objectName : String) : Bool :=
  objectName.toList.getLast? ≠ some '/' &&
    storage.any fun client =>
      splitCapacityWraps (client.object objectName) defaultTargetSplitSizeBytes

/-- `none` is a panic of make: in buildInputSplits, or for the slice of the tasks, whose capacity is
the sum of the two numbers. A sum that no int64 holds wraps to a negative number, which make refuses
as it refuses too large a one. -/
def buildScheduleRequest (storage : Option ScheduleObjectClient) (taskID : Nat → String)
    (jobID userID : String) (req : JobSubmissionRequest) (files : JobFiles) :
    Option ScheduleJobRequest :=
  if splitsOverflow storage (objectName files.inputURI) then none else
  let inputBuckets := buildInputBuckets sha256Hex storage (objectName files.inputURI) files.inputURI
  let capacity := inputBuckets.length + req.reducers
  if capacity < 0 ∨ maxTaskCapacity < capacity then none
  else some (requestOf taskID jobID userID req files inputBuckets)

variable {sha256Hex} in
theorem buildScheduleRequest_eq {storage : Option ScheduleObjectClient} {taskID : Nat → String}
    {jobID userID : String} {req : JobSubmissionRequest} {files : JobFiles}
    {r : ScheduleJobRequest}
    (h : buildScheduleRequest sha256Hex storage taskID jobID userID req files = some r) :
    r = requestOf taskID jobID userID req files
      (buildInputBuckets sha256Hex storage (objectName files.inputURI) files.inputURI) := by
  unfold buildScheduleRequest at h
  dsimp only at h
  split at h
  · cases h
  · split at h <;> cases h
    rfl

end Buckets

/-! ## 3. The handler -/

/-- What the API, and the command line before it, ask of the other services: to store an object
by a presigned URL, to copy an object of the input bucket, to store a job, and to schedule it.
The answer says if it went well. -/
inductive Ask where
  | putObject (key : String) (content : Bytes)
  | copyObject (dst src : String)
  | createJob (rec : JobRecord)
  | postSchedule (url token : String) (req : ScheduleJobRequest)

abbrev Ask.Ans : Ask → Type := fun _ => Bool

/-- How a call to another process ends: it is answered, it is lost on the way there, or its
answer is lost on the way back. -/
inductive Fate where
  | answered
  | lost
  | unanswered
deriving DecidableEq

inductive ResponseBody where
  | error (message : String)
  | job (jobID status message : String)
  | none
deriving DecidableEq

structure Response where
  code : Nat
  body : ResponseBody
deriving DecidableEq

/-- The handler has panicked. The server closes the connection and sends no answer. -/
def Response.aborted : Response := ⟨0, .none⟩

abbrev Api := Prog Ask Ask.Ans Response

/-- An error as the answer. -/
def writeErrorJSON (code : Nat) (message : String) : Api := .finish false ⟨code, .error message⟩

/-- The configuration of the API. `store` has the number of replicas and the UUID parser that
CreateJob uses; the copier is there if the client of the object storage is. -/
structure Handlers where
  store : Scheduler
  minioClient : Option ScheduleObjectClient
  managerAddr : String
  internalAPIKey : String
  sha256Hex : List UInt8 → String

inductive BodyErr where
  | tooLarge
  | invalid
deriving DecidableEq

/-- A request, with the time and the new UUIDs of its handling. -/
structure SubmitRequest where
  method : String
  body : Except BodyErr JobSubmissionRequest
  subject : Option String
  jobID : String
  taskID : Nat → String
  now : Time

def tempKey (userID filename : String) : String := s!"temp/{userID}/{filename}"

def inputsKey (jobID filename : String) : String := s!"inputs/{jobID}/{filename}"

/-- The name in the temporary area, of a URI that points there or of a bare name. Any other URI
is external. -/
def uploadedName (userID artifactURI : String) : Option String :=
  if beginsWith artifactURI (objectURI (tempKey userID "")) then
    some (String.ofList (artifactURI.toList.drop (objectURI (tempKey userID "")).toList.length))
  else if !containsText artifactURI "://" then some artifactURI
  else none

/-- Where a file is after its promotion. -/
def promotedURI (userID jobID artifactURI : String) : String :=
  match uploadedName userID artifactURI with
  | none => artifactURI
  | some filename => objectURI (inputsKey jobID filename)

/-- `fail` is the handling of an error, `k` goes on with the URI. -/
def promoteArtifact (userID jobID artifactURI : String) (fail : Api) (k : String → Api) : Api :=
  match uploadedName userID artifactURI with
  | none => k artifactURI
  | some filename =>
    .query (.copyObject (inputsKey jobID filename) (tempKey userID filename)) fun ok =>
    if ok then k (objectURI (inputsKey jobID filename)) else fail

def promoteJobFiles (userID jobID : String) (req : JobSubmissionRequest)
    (combinerArtifact : String) (fail : Api) (k : JobFiles → Api) : Api :=
  promoteArtifact userID jobID req.filename fail fun inputURI =>
  promoteArtifact userID jobID req.mapper.artifact fail fun mapperURI =>
  promoteArtifact userID jobID req.reducer.artifact fail fun reducerURI =>
  if combinerArtifact ≠ "" then
    promoteArtifact userID jobID combinerArtifact fail fun combinerURI =>
    k ⟨inputURI, mapperURI, reducerURI, combinerURI⟩
  else k ⟨inputURI, mapperURI, reducerURI, ""⟩

def promotedFiles (userID jobID : String) (req : JobSubmissionRequest)
    (combinerArtifact : String) : JobFiles where
  inputURI := promotedURI userID jobID req.filename
  mapperURI := promotedURI userID jobID req.mapper.artifact
  reducerURI := promotedURI userID jobID req.reducer.artifact
  combinerURI := if combinerArtifact ≠ "" then promotedURI userID jobID combinerArtifact else ""

def buildManagerInternalURL (managerAddr path : String) : Except String String :=
  let base := trimSpace managerAddr
  if base = "" then .error "manager internal address is not configured" else
  if beginsWith base "http://" || beginsWith base "https://" then
    .ok (String.ofList (base.toList.reverse.dropWhile (· = '/')).reverse ++ path)
  else .error "manager internal address must include http:// or https:// scheme"

namespace Handlers

variable (h : Handlers)

def postSchedule (req : ScheduleJobRequest) (k : Bool → Api) : Api :=
  match buildManagerInternalURL h.managerAddr "/internal/schedule" with
  | .error _ => k false
  | .ok url => .query (.postSchedule url h.internalAPIKey req) k

/-- The part of the handler after the promotion. -/
def createAndSchedule (r : SubmitRequest) (userID : String) (request : JobSubmissionRequest)
    (files : JobFiles) : Api :=
  match buildScheduleRequest h.sha256Hex h.minioClient r.taskID r.jobID userID request files with
  | none => .finish false .aborted
  | some schedReq =>
    .query (.createJob
      { jobID := r.jobID
        userID := userID
        filename := files.inputURI
        mapperURI := files.mapperURI
        reducerURI := files.reducerURI
        combinerURI := files.combinerURI
        mTasks := schedReq.mTasks
        reducers := request.reducers
        inputChecksum := request.inputChecksum
        createdAt := r.now }) fun ok =>
    if ok then
      let accepted : Api := .finish true ⟨202, .job r.jobID "accepted"
        "job specification validated and accepted (metadata only — no file transfer)"⟩
      -- an error of the schedule call is only logged
      if h.managerAddr ≠ "" then h.postSchedule schedReq fun _ => accepted else accepted
    else writeErrorJSON 500 "failed to persist job"

def handleJobsSubmit (r : SubmitRequest) : Api :=
  if r.method ≠ "POST" then writeErrorJSON 405 "method not allowed" else
  match r.body with
  | .error .tooLarge => writeErrorJSON 413 "request payload too large"
  | .error .invalid => writeErrorJSON 400 "invalid job payload"
  | .ok request =>
    let request := request.withReducers
    match validateJobSubmission request with
    | .error message => writeErrorJSON 400 message
    | .ok () =>
      match r.subject with
      | none => writeErrorJSON 403 "forbidden: authenticated subject required"
      | some userID =>
        let combinerArtifact := request.combinerArtifact
        if h.minioClient.isNone then writeErrorJSON 503 "object storage not available" else
        promoteJobFiles userID r.jobID request combinerArtifact
          (writeErrorJSON 500 "failed to stage job files")
          (h.createAndSchedule r userID request)

end Handlers

/-! ## 4. The handler under a monitor -/

section Monitored

variable {M : Type} {mon : Monitor Ask Ask.Ans M} {post : M → Response → Prop} {m : M}
  {userID jobID : String} {fail : Api}

/-- The handler refuses the request, or it promotes the files of the user and goes on. -/
theorem meets_handleJobsSubmit {h : Handlers} {r : SubmitRequest}
    (hrefused : ∀ code message, code ≠ 202 → post m ⟨code, .error message⟩)
    (hgo : ∀ request userID, r.body = .ok request → r.subject = some userID →
      validateJobSubmission request.withReducers = .ok () →
      (promoteJobFiles userID r.jobID request.withReducers request.withReducers.combinerArtifact
        (writeErrorJSON 500 "failed to stage job files")
        (h.createAndSchedule r userID request.withReducers)).Meets mon post m) :
    (h.handleJobsSubmit r).Meets mon post m := by
  unfold Handlers.handleJobsSubmit
  refine Prog.meets_ite (fun _ => .finish (hrefused _ _ (by decide))) fun _ => ?_
  split
  · exact .finish (hrefused _ _ (by decide))
  · exact .finish (hrefused _ _ (by decide))
  · next request hbody =>
    dsimp only
    split
    · exact .finish (hrefused _ _ (by decide))
    · next hvalid =>
      split
      · exact .finish (hrefused _ _ (by decide))
      · next userID hsub =>
        refine Prog.meets_ite (fun _ => .finish (hrefused _ _ (by decide))) fun _ => ?_
        exact hgo request userID hbody hsub hvalid

theorem meets_promoteArtifact {uri : String} {k : String → Api}
    (hext : uploadedName userID uri = none → (k (promotedURI userID jobID uri)).Meets mon post m)
    (hcopy : ∀ f, uploadedName userID uri = some f →
      mon.ok m (.copyObject (inputsKey jobID f) (tempKey userID f)) ∧
      (k (promotedURI userID jobID uri)).Meets mon post
        (mon.next m (.copyObject (inputsKey jobID f) (tempKey userID f)) true) ∧
      fail.Meets mon post
        (mon.next m (.copyObject (inputsKey jobID f) (tempKey userID f)) false)) :
    (promoteArtifact userID jobID uri fail k).Meets mon post m := by
  unfold promoteArtifact
  unfold promotedURI at hext hcopy
  split
  · next h =>
    rw [h] at hext
    exact hext rfl
  · next f h =>
    rw [h] at hcopy
    obtain ⟨hok, hk, hfail⟩ := hcopy f rfl
    refine .query hok fun ok => ?_
    cases ok with
    | true => exact hk
    | false => exact hfail

/-- A monitor that allows the copies and does not follow them. -/
theorem meets_promoteJobFiles {req : JobSubmissionRequest} {combinerArtifact : String}
    {k : JobFiles → Api}
    (hok : ∀ uri ∈ [req.filename, req.mapper.artifact, req.reducer.artifact, combinerArtifact],
      ∀ f, uploadedName userID uri = some f →
        mon.ok m (.copyObject (inputsKey jobID f) (tempKey userID f)))
    (hnext : ∀ dst src ok, mon.next m (.copyObject dst src) ok = m) (hfail : fail.Meets mon post m)
    (hk : (k (promotedFiles userID jobID req combinerArtifact)).Meets mon post m) :
    (promoteJobFiles userID jobID req combinerArtifact fail k).Meets mon post m := by
  have hart : ∀ uri ∈ [req.filename, req.mapper.artifact, req.reducer.artifact, combinerArtifact],
      ∀ k' : String → Api, (k' (promotedURI userID jobID uri)).Meets mon post m →
      (promoteArtifact userID jobID uri fail k').Meets mon post m := by
    intro uri huri k' hk'
    refine meets_promoteArtifact (fun _ => hk') fun f hf => ⟨hok uri huri f hf, ?_, ?_⟩
    · rw [hnext]
      exact hk'
    · rw [hnext]
      exact hfail
  unfold promotedFiles at hk
  refine hart _ (by simp) _ (hart _ (by simp) _ (hart _ (by simp) _ ?_))
  refine Prog.meets_ite (fun hc => hart _ (by simp) _ ?_) fun hc => ?_
  · rw [if_pos hc] at hk
    exact hk
  · rw [if_neg hc] at hk
    exact hk

/-- A monitor that allows the calls for the job and does not follow them. -/
theorem meets_createAndSchedule {h : Handlers} {r : SubmitRequest} {request : JobSubmissionRequest}
    {files : JobFiles} (hcreate : ∀ rec, rec.files = files → mon.ok m (.createJob rec))
    (hschedule : ∀ url token req, req.files = files → mon.ok m (.postSchedule url token req))
    (hcreate' : ∀ rec ok, mon.next m (.createJob rec) ok = m)
    (hschedule' : ∀ url token req ok, mon.next m (.postSchedule url token req) ok = m)
    (hpost : ∀ resp, post m resp) :
    (h.createAndSchedule r userID request files).Meets mon post m := by
  unfold Handlers.createAndSchedule
  split
  · exact .finish (hpost _)
  · next schedReq hbuilt =>
    obtain rfl := buildScheduleRequest_eq hbuilt
    refine .query (hcreate _ rfl) fun ok => ?_
    rw [hcreate']
    refine Prog.meets_ite (fun _ => ?_) fun _ => .finish (hpost _)
    refine Prog.meets_ite (fun _ => ?_) fun _ => .finish (hpost _)
    unfold Handlers.postSchedule
    split
    · exact .finish (hpost _)
    · refine .query (hschedule _ _ _ rfl) fun _ => ?_
      rw [hschedule']
      exact .finish (hpost _)

end Monitored

/-! ## 5. A small API -/

/-- An object storage that copies objects but does not answer questions about them. -/
def muteStorage : ScheduleObjectClient := ⟨fun _ => ⟨none, none, fun _ _ => none⟩, fun _ => none⟩

/-- UUIDs are written as numbers of strokes. -/
def strokes (n : Nat) : String := String.ofList (List.replicate n 'u')

def strokeReplica : Scheduler :=
  newScheduler 0 1 "manager-0" 30 fun text => some text.toList.length

def smallApi : Handlers where
  store := strokeReplica
  minioClient := some muteStorage
  managerAddr := "http://manager:8081"
  internalAPIKey := ""
  sha256Hex := fun _ => ""

end KubeMapReduce
