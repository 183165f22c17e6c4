import Mathlib.Data.List.Infix
import KubeMapReduce.Manifest
import KubeMapReduce.Submission

/-!
# The files of a submission

The command line uploads the files of a job to the temporary area of the user, each under the
last element of its path, and then submits the job; the API copies the objects to the inputs
of the job. Any number of submissions run at the same time, and they share the temporary area of
their user.

* `promoted_contents`: the inputs of an accepted job are its local files, if files with one name
  are the same, and if no other submission uploads another file under one of the names between
  the first upload and the last copy.
* `mapper_overwritten`: a mapper and a reducer with one name in two folders.
-/

namespace KubeMapReduce

open Runs Programs
open Clients (Service System ClientRule)

variable {request : JobSubmissionRequest} {f f' path : String}

/-! ## 1. The command line -/

/-- filepath.Base: the last element of the path. -/
def filepathBase (path : String) : String :=
  if path = "" then "." else
  let base := ((path.toList.reverse.dropWhile (· = '/')).takeWhile (· ≠ '/')).reverse
  if base = [] then "/" else String.ofList base

def codeKey (userID localPath : String) : String := tempKey userID (filepathBase localPath)

/-- The language of a file, from its extension. -/
def inferLanguage (path : String) : Option String :=
  match toLower (pathExt path) with
  | ".py" => some "python"
  | ".java" => some "java"
  | ".jar" => some "java"
  | ".c" => some "c"
  | ".cpp" => some "cpp"
  | ".cc" => some "cpp"
  | ".cxx" => some "cpp"
  | _ => none

/-- A call of `jobs submit`: the user of the token, the local files, the flags, and what the API
draws for the job. -/
structure CliSubmission where
  userID : String
  /-- MINIO_CODE_BUCKET -/
  codeBucket : String
  files : String → Option Bytes
  mapper : String
  reducer : String
  combiner : String
  input : String
  reducers : Int
  jobID : String
  taskID : Nat → String
  now : Time

/-- A command line, with the answer of the API if it gets that far. -/
abbrev CliProgram := Prog Ask Ask.Ans (Option Response)

def cliExit : CliProgram := .finish false none

namespace CliSubmission

variable (h : Handlers) (c : CliSubmission)

/-- The API ignores the bucket of the request, so all files go to the input bucket; the URI has
the bucket of the environment. -/
def uploadFileToStorage (bucket key localPath : String) (k : String → String → CliProgram) :
    CliProgram :=
  match c.files localPath with
  | none => cliExit
  | some content =>
    .query (.putObject key content) fun ok =>
    if ok then k s!"s3://{bucket}/{key}" (h.sha256Hex content) else cliExit

/-- The request without a combiner. -/
def payload (mapperLanguage reducerLanguage mapperURI reducerURI inputChecksum : String) :
    JobSubmissionRequest where
  filename := filepathBase c.input
  inputChecksum := inputChecksum
  mapper := ⟨mapperLanguage, mapperURI, "map", "map(key,value)->[]KeyValue"⟩
  reducer := ⟨reducerLanguage, reducerURI, "reduce", "reduce(key,values)->Value"⟩
  combiner := none
  reducers := c.reducers

def uploadJobFilesAndBuildPayload (k : JobSubmissionRequest → CliProgram) : CliProgram :=
  c.uploadFileToStorage h c.codeBucket (codeKey c.userID c.mapper) c.mapper fun mapperURI _ =>
  c.uploadFileToStorage h c.codeBucket (codeKey c.userID c.reducer) c.reducer fun reducerURI _ =>
  c.uploadFileToStorage h inputBucketName (codeKey c.userID c.input) c.input fun _ inputChecksum =>
  match inferLanguage c.mapper, inferLanguage c.reducer with
  | some mapperLanguage, some reducerLanguage =>
    let payload := c.payload mapperLanguage reducerLanguage mapperURI reducerURI inputChecksum
    if c.combiner ≠ "" then
      c.uploadFileToStorage h c.codeBucket (codeKey c.userID c.combiner) c.combiner
        fun combinerURI _ =>
      match inferLanguage c.combiner with
      | some language =>
        k { payload with
          combiner := some ⟨language, combinerURI, "combine", "reduce(key,values)->Value"⟩ }
      | none => cliExit
    else k payload
  | _, _ => cliExit

/-- The request to the API, which handles it. -/
def submit (request : JobSubmissionRequest) : CliProgram :=
  (h.handleJobsSubmit
    { method := "POST"
      body := .ok request
      subject := some c.userID
      jobID := c.jobID
      taskID := c.taskID
      now := c.now }).map some

/-- The command up to the answer of the API. -/
def cmdJobsSubmit : CliProgram :=
  if c.mapper = "" ∨ c.reducer = "" ∨ c.input = "" then cliExit else
  if c.reducers < 1 then cliExit else
  c.uploadJobFilesAndBuildPayload h (c.submit h)

/-- The paths of the files. -/
def paths : List String :=
  [c.mapper, c.reducer, c.input] ++ if c.combiner ≠ "" then [c.combiner] else []

/-- What the command puts under a key, the first file if there are several. -/
def staged (key : String) : Option Bytes :=
  (c.paths.find? fun path => codeKey c.userID path = key).bind c.files

/-- Files with one name are the same. -/
def Consistent : Prop :=
  ∀ path ∈ c.paths, ∀ path' ∈ c.paths, filepathBase path = filepathBase path' →
    c.files path = c.files path'

end CliSubmission

/-! ## 2. Keys -/

theorem tempKey_toList (userID filename : String) :
    (tempKey userID filename).toList =
      "temp/".toList ++ (userID.toList ++ '/' :: filename.toList) := by
  simp [tempKey, toString]

theorem inputsKey_toList (jobID filename : String) :
    (inputsKey jobID filename).toList =
      "inputs/".toList ++ (jobID.toList ++ '/' :: filename.toList) := by
  simp [inputsKey, toString]

theorem objectURI_toList (key : String) :
    (objectURI key).toList = "s3://mapreduce-inputs/".toList ++ key.toList := by
  simp [objectURI, inputBucketName, toString]

theorem tempKey_inj {userID : String} (h : tempKey userID f = tempKey userID f') : f = f' := by
  have h := congrArg String.toList h
  rw [tempKey_toList, tempKey_toList] at h
  exact String.toList_inj.mp (by simpa using h)

theorem inputsKey_inj {jobID : String} (h : inputsKey jobID f = inputsKey jobID f') : f = f' := by
  have h := congrArg String.toList h
  rw [inputsKey_toList, inputsKey_toList] at h
  exact String.toList_inj.mp (by simpa using h)

theorem tempKey_ne_inputsKey (userID f jobID f' : String) :
    tempKey userID f ≠ inputsKey jobID f' := by
  intro h
  have h := congrArg String.toList h
  rw [tempKey_toList, inputsKey_toList] at h
  simp at h

/-- The keys of two jobs are different. -/
theorem inputsKey_jobID {jobID jobID' : String} (hj : '/' ∉ jobID.toList)
    (hj' : '/' ∉ jobID'.toList) (h : inputsKey jobID f = inputsKey jobID' f') : jobID = jobID' := by
  have h := congrArg String.toList h
  rw [inputsKey_toList, inputsKey_toList] at h
  have h := congrArg (List.takeWhile (· ≠ '/')) (List.append_cancel_left h)
  have hfree : ∀ {id : String}, '/' ∉ id.toList → ∀ ch ∈ id.toList, decide (ch ≠ '/') = true :=
    fun hid ch hch => decide_eq_true fun he => hid (he ▸ hch)
  rw [List.takeWhile_append_of_pos (hfree hj), List.takeWhile_append_of_pos (hfree hj')] at h
  exact String.toList_inj.mp (by simpa using h)

theorem beginsWith_mem {text start : String} (h : beginsWith text start = true) {ch : Char}
    (hch : ch ∈ start.toList) : ch ∈ text.toList :=
  (List.isPrefixOf_iff_prefix.mp h).subset hch

theorem containsText_mem {text part : String} (h : containsText text part = true) {ch : Char}
    (hch : ch ∈ part.toList) : ch ∈ text.toList := by
  obtain ⟨rest, hrest, hpre⟩ := List.any_eq_true.mp h
  exact ((List.mem_tails _ _).mp hrest).subset ((List.isPrefixOf_iff_prefix.mp hpre).subset hch)

/-- The name of a file has no slash, unless it is one. -/
theorem filepathBase_cases (path : String) :
    filepathBase path = "/" ∨ '/' ∉ (filepathBase path).toList := by
  unfold filepathBase
  split
  · exact .inr (by decide)
  · dsimp only
    split
    · exact .inl rfl
    · refine .inr fun hmem => ?_
      rw [String.toList_ofList] at hmem
      have hch := List.all_eq_true.mp List.all_takeWhile _ (List.mem_reverse.mp hmem)
      simp at hch

/-- A bare name is the name of an uploaded file. -/
theorem uploadedName_base (userID path : String) :
    uploadedName userID (filepathBase path) = some (filepathBase path) := by
  have hstart : beginsWith (filepathBase path) (objectURI (tempKey userID "")) = false := by
    rcases filepathBase_cases path with h | h
    · rw [h, beginsWith, objectURI_toList]
      simp [List.isPrefixOf]
    · refine Bool.eq_false_iff.mpr fun hb => h (beginsWith_mem hb ?_)
      rw [objectURI_toList]
      simp
  have hscheme : containsText (filepathBase path) "://" = false := by
    rcases filepathBase_cases path with h | h
    · rw [h]
      decide
    · exact Bool.eq_false_iff.mpr fun hc => h (containsText_mem hc (by decide))
  rw [uploadedName, hstart, hscheme]
  rfl

/-- So is the last part of a URI in the temporary area. -/
theorem uploadedName_uri (userID f : String) :
    uploadedName userID (objectURI (tempKey userID f)) = some f := by
  have hlist : (objectURI (tempKey userID f)).toList =
      (objectURI (tempKey userID "")).toList ++ f.toList := by
    simp [objectURI_toList, tempKey_toList]
  have hstart :
      beginsWith (objectURI (tempKey userID f)) (objectURI (tempKey userID "")) = true := by
    rw [beginsWith, hlist]
    exact List.isPrefixOf_iff_prefix.mpr (List.prefix_append _ _)
  rw [uploadedName, if_pos hstart, hlist, List.drop_left, String.ofList_toList]

/-! ## 3. The platform -/

abbrev Objects := String → Option Bytes

/-- The objects of the input bucket, and the jobs in the store. -/
structure Platform where
  objects : Objects
  jobs : List JobRecord

/-- A call with this fate, where `s'` is the state after it. -/
def Fate.meet {σ : Type} (fate : Fate) (s s' : σ) : Bool × σ :=
  match fate with
  | .answered => (true, s')
  | .lost => (false, s)
  | .unanswered => (false, s')

def Platform.put (s : Platform) (key : String) (content : Bytes) : Platform :=
  { s with objects := Function.update s.objects key (some content) }

/-- The services that the commands and the API call. The copy of an object that is not there
fails. -/
def platformService : Service Platform Ask Ask.Ans Empty Fate where
  serve
    | .putObject key content, fate, s => some (fate.meet s (s.put key content))
    | .copyObject dst src, fate, s =>
      match s.objects src with
      | none => some (false, s)
      | some content => some (fate.meet s (s.put dst content))
    | .createJob rec, fate, s => some (fate.meet s { s with jobs := s.jobs ++ [rec] })
    | .postSchedule _ _ _, fate, s => some (fate.meet s s)
  env _ e := e.elim

theorem Fate.meet_cases {σ : Type} {fate : Fate} {s s' u : σ} {ok : Bool}
    (h : fate.meet s s' = (ok, u)) : ok = false ∧ u = s ∨ u = s' := by
  cases fate with
  | answered =>
    cases h
    exact .inr rfl
  | lost =>
    cases h
    exact .inl ⟨rfl, rfl⟩
  | unanswered =>
    cases h
    exact .inr rfl

/-! ## 4. The course of a command -/

/-- The keys that have been uploaded, the copies that have been made, and the record that has
been stored. -/
structure Trail where
  uploaded : List String
  promoted : List (String × String)
  created : Option JobRecord

/-- The command puts its own files into the temporary area of the user, and copies what it has
put there to the inputs of its job. -/
def trail (c : CliSubmission) : Monitor Ask Ask.Ans Trail where
  next
    | t, .putObject key _, ok => if ok then { t with uploaded := key :: t.uploaded } else t
    | t, .copyObject dst src, ok =>
      if ok then { t with promoted := (dst, src) :: t.promoted } else t
    | t, .createJob rec, ok => if ok then { t with created := some rec } else t
    | t, .postSchedule _ _ _, _ => t
  ok
    | _, .putObject key content => (∃ f, key = tempKey c.userID f) ∧ c.staged key = some content
    | t, .copyObject dst src => src ∈ t.uploaded ∧
        ∃ f, dst = inputsKey c.jobID f ∧ src = tempKey c.userID f
    | _, _ => True

/-- The copy of a file. -/
def CliSubmission.copyOf (c : CliSubmission) (path : String) : String × String :=
  (inputsKey c.jobID (filepathBase path), tempKey c.userID (filepathBase path))

/-- The URIs of the copies. -/
def CliSubmission.copies (c : CliSubmission) : JobFiles where
  inputURI := objectURI (c.copyOf c.input).1
  mapperURI := objectURI (c.copyOf c.mapper).1
  reducerURI := objectURI (c.copyOf c.reducer).1
  combinerURI := if c.combiner ≠ "" then objectURI (c.copyOf c.combiner).1 else ""

/-- The record has the URIs of the copies. -/
def CliSubmission.Records (c : CliSubmission) (rec : JobRecord) : Prop :=
  rec.jobID = c.jobID ∧
    (⟨rec.filename, rec.mapperURI, rec.reducerURI, rec.combinerURI⟩ : JobFiles) = c.copies

/-- All files have been copied when the job is accepted, and its record says where they are. -/
def Trail.Accounts (c : CliSubmission) (t : Trail) (result : Option Response) : Prop :=
  ∀ resp, result = some resp → resp.code = 202 →
    (∀ path ∈ c.paths, c.copyOf path ∈ t.promoted) ∧ ∃ rec ∈ t.created, c.Records rec

section Course

variable {h : Handlers} {c : CliSubmission} {t : Trail}

theorem mem_paths :
    path ∈ c.paths ↔ path = c.mapper ∨ path = c.reducer ∨ path = c.input ∨
      c.combiner ≠ "" ∧ path = c.combiner := by
  unfold CliSubmission.paths
  split
  · next hc => simp [hc]
  · next hc => simp [hc]

theorem staged_path (hc : c.Consistent) (hp : path ∈ c.paths) :
    c.staged (codeKey c.userID path) = c.files path := by
  unfold CliSubmission.staged
  cases hf : c.paths.find? fun path' => codeKey c.userID path' = codeKey c.userID path with
  | none =>
    have := List.find?_eq_none.mp hf path hp
    simp at this
  | some path' =>
    have hkey : codeKey c.userID path' = codeKey c.userID path := by
      simpa using List.find?_some hf
    exact hc path' (List.mem_of_find?_eq_some hf) path hp (tempKey_inj hkey)

theorem meets_exit : cliExit.Meets (trail c) (Trail.Accounts c) t := by
  refine .finish fun resp hresp => ?_
  cases hresp

theorem accounts_refused {code : Nat} {body : ResponseBody} (hcode : code ≠ 202) :
    Trail.Accounts c t (some ⟨code, body⟩) := by
  intro resp hresp hacc
  cases hresp
  exact absurd hacc hcode

theorem meets_upload (hc : c.Consistent) {path : String} {k : String → String → CliProgram}
    (hp : path ∈ c.paths) (hk : ∀ checksum,
      (k (objectURI (codeKey c.userID path)) checksum).Meets (trail c) (Trail.Accounts c)
        { t with uploaded := codeKey c.userID path :: t.uploaded }) :
    (c.uploadFileToStorage h inputBucketName (codeKey c.userID path) path k).Meets (trail c)
      (Trail.Accounts c) t := by
  unfold CliSubmission.uploadFileToStorage
  split
  · exact meets_exit
  · next content hfile =>
    refine .query ⟨⟨_, rfl⟩, (staged_path hc hp).trans hfile⟩ fun ok => ?_
    cases ok with
    | true => exact hk _
    | false => exact meets_exit

theorem meets_promotePath {path artifact : String} {message : String} {k : String → Api}
    (hname : uploadedName c.userID artifact = some (filepathBase path))
    (hup : codeKey c.userID path ∈ t.uploaded)
    (hk : (k (objectURI (c.copyOf path).1)).Meets (trail c) (fun t r => Trail.Accounts c t (some r))
      { t with promoted := c.copyOf path :: t.promoted }) :
    (promoteArtifact c.userID c.jobID artifact (writeErrorJSON 500 message) k).Meets (trail c)
      (fun t r => Trail.Accounts c t (some r)) t := by
  have huri : promotedURI c.userID c.jobID artifact = objectURI (c.copyOf path).1 := by
    rw [promotedURI, hname]
    rfl
  refine meets_promoteArtifact (fun hnone => ?_) fun f hf => ?_
  · cases hnone.symm.trans hname
  · cases hf.symm.trans hname
    rw [huri]
    exact ⟨⟨hup, _, rfl, rfl⟩, hk, .finish (accounts_refused (by decide))⟩

theorem meets_created {r : SubmitRequest} {userID : String} (hid : r.jobID = c.jobID)
    (hall : ∀ path ∈ c.paths, c.copyOf path ∈ t.promoted) :
    (h.createAndSchedule r userID request c.copies).Meets (trail c)
      (fun t r => Trail.Accounts c t (some r)) t := by
  unfold Handlers.createAndSchedule
  split
  · exact .finish (accounts_refused (by decide : (0 : Nat) ≠ 202))
  · refine .query trivial fun ok => ?_
    cases ok with
    | false => exact .finish (accounts_refused (by decide))
    | true =>
      have haccept : ∀ rec resp, c.Records rec →
          Trail.Accounts c { t with created := some rec } (some resp) :=
        fun rec _ hrec _ _ _ => ⟨hall, rec, rfl, hrec⟩
      dsimp only
      rw [if_pos rfl]
      refine Prog.meets_ite (fun _ => ?_) fun _ => .finish (haccept _ _ ⟨hid, rfl⟩)
      unfold Handlers.postSchedule
      split
      · exact .finish (haccept _ _ ⟨hid, rfl⟩)
      · exact .query trivial fun _ => .finish (haccept _ _ ⟨hid, rfl⟩)

/-- A request names the files of the command. -/
structure CliSubmission.Names (c : CliSubmission) (request : JobSubmissionRequest) : Prop where
  input : request.filename = filepathBase c.input
  mapper : request.mapper.artifact = objectURI (codeKey c.userID c.mapper)
  reducer : request.reducer.artifact = objectURI (codeKey c.userID c.reducer)
  combiner : request.combinerArtifact =
    if c.combiner ≠ "" then objectURI (codeKey c.userID c.combiner) else ""

theorem CliSubmission.Names.withReducers (hn : c.Names request) : c.Names request.withReducers := by
  unfold JobSubmissionRequest.withReducers
  split
  · exact ⟨hn.input, hn.mapper, hn.reducer, hn.combiner⟩
  · exact hn

theorem objectURI_ne (key : String) : objectURI key ≠ "" := by
  intro h
  have h := congrArg String.toList h
  rw [objectURI_toList] at h
  simp at h

theorem meets_promote {message : String} {k : JobFiles → Api} (hn : c.Names request)
    (hup : ∀ path ∈ c.paths, codeKey c.userID path ∈ t.uploaded)
    (hk : ∀ t, (∀ path ∈ c.paths, c.copyOf path ∈ t.promoted) →
      (k c.copies).Meets (trail c) (fun t r => Trail.Accounts c t (some r)) t) :
    (promoteJobFiles c.userID c.jobID request request.combinerArtifact (writeErrorJSON 500 message)
      k).Meets (trail c) (fun t r => Trail.Accounts c t (some r)) t := by
  unfold promoteJobFiles
  rw [hn.input, hn.mapper, hn.reducer, hn.combiner]
  refine meets_promotePath (uploadedName_base _ _) (hup _ (mem_paths.mpr (by simp))) ?_
  refine meets_promotePath (uploadedName_uri _ _) (hup _ (mem_paths.mpr (by simp))) ?_
  refine meets_promotePath (uploadedName_uri _ _) (hup _ (mem_paths.mpr (by simp))) ?_
  unfold CliSubmission.copies at hk
  by_cases hc : c.combiner ≠ ""
  · rw [if_pos hc] at hk
    rw [if_pos hc, if_pos (objectURI_ne _)]
    refine meets_promotePath (uploadedName_uri _ _) (hup _ (mem_paths.mpr (by simp [hc])))
      (hk _ fun path hp => ?_)
    rcases mem_paths.mp hp with rfl | rfl | rfl | ⟨_, rfl⟩ <;> simp
  · rw [if_neg hc] at hk
    rw [if_neg hc, if_neg (by simp)]
    refine hk _ fun path hp => ?_
    rcases mem_paths.mp hp with rfl | rfl | rfl | ⟨hc', _⟩
    · simp
    · simp
    · simp
    · exact absurd hc' hc

theorem meets_submit (hn : c.Names request)
    (hup : ∀ path ∈ c.paths, codeKey c.userID path ∈ t.uploaded) :
    (c.submit h request).Meets (trail c) (Trail.Accounts c) t := by
  refine (meets_handleJobsSubmit (fun _ _ hcode => accounts_refused hcode) ?_).map
  rintro _ _ ⟨⟩ ⟨⟩ _
  exact meets_promote hn.withReducers hup fun _ hall => meets_created rfl hall

/-- The command follows its course. -/
theorem meets_cmdJobsSubmit (hc : c.Consistent) (hbucket : c.codeBucket = inputBucketName) :
    (c.cmdJobsSubmit h).Meets (trail c) (Trail.Accounts c) ⟨[], [], none⟩ := by
  have hmapper : c.mapper ∈ c.paths := mem_paths.mpr (by simp)
  have hreducer : c.reducer ∈ c.paths := mem_paths.mpr (by simp)
  have hinput : c.input ∈ c.paths := mem_paths.mpr (by simp)
  unfold CliSubmission.cmdJobsSubmit CliSubmission.uploadJobFilesAndBuildPayload
  rw [hbucket]
  refine Prog.meets_ite (fun _ => meets_exit) fun _ => ?_
  refine Prog.meets_ite (fun _ => meets_exit) fun _ => ?_
  refine meets_upload hc hmapper fun _ => ?_
  refine meets_upload hc hreducer fun _ => ?_
  refine meets_upload hc hinput fun checksum => ?_
  split
  · next mapperLanguage reducerLanguage _ _ =>
    dsimp only
    refine Prog.meets_ite (fun hcomb => ?_) fun hcomb => ?_
    · refine meets_upload hc (mem_paths.mpr (by simp [hcomb])) fun _ => ?_
      split
      · refine meets_submit ?_ fun path hp => ?_
        · refine ⟨rfl, rfl, rfl, ?_⟩
          rw [if_pos hcomb]
          rfl
        · rcases mem_paths.mp hp with rfl | rfl | rfl | ⟨_, rfl⟩ <;> simp
      · exact meets_exit
    · refine meets_submit ?_ fun path hp => ?_
      · refine ⟨rfl, rfl, rfl, ?_⟩
        rw [if_neg hcomb]
        rfl
      · rcases mem_paths.mp hp with rfl | rfl | rfl | ⟨hcomb', _⟩
        · simp
        · simp
        · simp
        · exact absurd hcomb' hcomb
  · exact meets_exit

end Course

/-! ## 5. Commands side by side -/

abbrev Commands := System Platform Ask Ask.Ans (Option Response)

/-- What a command can ask for: to put objects into the temporary area of its user, and to copy
objects to the inputs of its job. -/
def CliSubmission.Asks (c : CliSubmission) : Ask → Prop
  | .putObject key _ => ∃ f, key = tempKey c.userID f
  | .copyObject dst _ => ∃ f, dst = inputsKey c.jobID f
  | _ => True

section Asks

variable {h : Handlers} {c : CliSubmission}

theorem asks_upload {bucket : String} {k : String → String → CliProgram}
    (hk : ∀ uri checksum, (k uri checksum).Meets (only c.Asks) (fun _ _ => True) ()) :
    (c.uploadFileToStorage h bucket (codeKey c.userID path) path k).Meets (only c.Asks)
      (fun _ _ => True) () := by
  unfold CliSubmission.uploadFileToStorage
  split
  · exact .finish trivial
  · refine .query ⟨_, rfl⟩ fun _ => ?_
    exact Prog.meets_ite (fun _ => hk _ _) fun _ => .finish trivial

theorem asks_submit : (c.submit h request).Meets (only c.Asks) (fun _ _ => True) () := by
  refine (meets_handleJobsSubmit (fun _ _ _ => trivial) ?_).map
  rintro _ _ ⟨⟩ ⟨⟩ _
  refine meets_promoteJobFiles (fun _ _ f _ => ⟨f, rfl⟩) (fun _ _ _ => rfl) (.finish trivial) ?_
  exact meets_createAndSchedule (fun _ _ => trivial) (fun _ _ _ _ => trivial) (fun _ _ => rfl)
    (fun _ _ _ _ => rfl) fun _ => trivial

/-- What the commands ask for. -/
theorem asks_cmdJobsSubmit (h : Handlers) (c : CliSubmission) :
    (c.cmdJobsSubmit h).Obeys (only c.Asks) () := by
  have hmeets : (c.cmdJobsSubmit h).Meets (only c.Asks) (fun _ _ => True) () := by
    unfold CliSubmission.cmdJobsSubmit CliSubmission.uploadJobFilesAndBuildPayload
    refine Prog.meets_ite (fun _ => .finish trivial) fun _ => ?_
    refine Prog.meets_ite (fun _ => .finish trivial) fun _ => ?_
    refine asks_upload fun _ _ => asks_upload fun _ _ => asks_upload fun _ _ => ?_
    split
    · refine Prog.meets_ite (fun _ => asks_upload fun _ _ => ?_) fun _ => asks_submit
      split
      · exact asks_submit
      · exact .finish trivial
    · exact .finish trivial
  exact hmeets.obeys_only fun _ _ hok => hok

end Asks

/-- The objects that a command has uploaded and copied are its files, and its record is in the
store. -/
structure Trail.Holds (c : CliSubmission) (s : Platform) (t : Trail) : Prop where
  uploaded : ∀ key ∈ t.uploaded, (∃ f, key = tempKey c.userID f) ∧
    ∃ b, c.staged key = some b ∧ s.objects key = some b
  promoted : ∀ p ∈ t.promoted, (∃ f, p = (inputsKey c.jobID f, tempKey c.userID f)) ∧
    ∃ b, c.staged p.2 = some b ∧ s.objects p.1 = some b
  created : ∀ rec ∈ t.created, rec ∈ s.jobs

section Holds

variable {c : CliSubmission} {s s' : Platform} {t : Trail} {key : String} {content : Bytes}
  {fate : Fate} {ok : Bool}

/-- A write keeps the objects of a command, if it writes no other content under their keys. -/
theorem Trail.Holds.put (ht : t.Holds c s) (hs : fate.meet s (s.put key content) = (ok, s'))
    (hup : key ∈ t.uploaded → ∀ b, c.staged key = some b → content = b)
    (hpro : ∀ p ∈ t.promoted, p.1 = key → ∀ b, c.staged p.2 = some b → content = b) :
    t.Holds c s' := by
  rcases Fate.meet_cases hs with ⟨_, rfl⟩ | rfl
  · exact ht
  · refine ⟨fun key' hkey => ?_, fun p hp => ?_, ht.created⟩
    · obtain ⟨hf, b, hb, hsb⟩ := ht.uploaded key' hkey
      refine ⟨hf, b, hb, ?_⟩
      show Function.update s.objects key (some content) key' = some b
      by_cases he : key' = key
      · subst he
        rw [Function.update_self, hup hkey b hb]
      · rw [Function.update_of_ne he, hsb]
    · obtain ⟨hf, b, hb, hsb⟩ := ht.promoted p hp
      refine ⟨hf, b, hb, ?_⟩
      show Function.update s.objects key (some content) p.1 = some b
      by_cases he : p.1 = key
      · rw [he, Function.update_self, hpro p hp he b hb]
      · rw [Function.update_of_ne he, hsb]

theorem put_objects (h : fate.meet s (s.put key content) = (true, s')) :
    s'.objects key = some content := by
  rcases Fate.meet_cases h with ⟨hok, _⟩ | rfl
  · cases hok
  · exact Function.update_self ..

/-- A record is added. -/
theorem Trail.Holds.create (ht : t.Holds c s) {rec : JobRecord}
    (hs : fate.meet s { s with jobs := s.jobs ++ [rec] } = (ok, s')) : t.Holds c s' := by
  rcases Fate.meet_cases hs with ⟨_, rfl⟩ | rfl
  · exact ht
  · exact ⟨ht.uploaded, ht.promoted, fun rec' hrec => List.mem_append_left _ (ht.created rec' hrec)⟩

end Holds

/-- The commands have job IDs of their own, without slashes. -/
structure OwnJobs (c : Nat → CliSubmission) : Prop where
  ne : ∀ i k, i ≠ k → (c i).jobID ≠ (c k).jobID
  slash : ∀ i, '/' ∉ (c i).jobID.toList

/-- No other command puts something else under a key of command `i`. -/
def undisturbed (c : Nat → CliSubmission) (i : Nat) (m : Commands) :
    Clients.Label Empty Fate → Prop
  | .env _ => True
  | .client k _ =>
    match m.clients k with
    | .query (.putObject key content) _ => k ≠ i → ∀ b ∈ (c i).staged key, content = b
    | _ => True

section Commands

variable {c : Nat → CliSubmission} {i k : Nat} {s s' : Platform} {t : Trail} {fate : Fate}
  {ok : Bool}

/-- What another command does, if it puts nothing else under the keys of the uploaded files. -/
theorem Trail.Holds.other (hown : OwnJobs c) (ht : t.Holds (c i) s) {q : Ask} (hk : k ≠ i)
    (hq : (c k).Asks q) (hs : platformService.serve q fate s = some (ok, s'))
    (hput : ∀ key content, q = .putObject key content → key ∈ t.uploaded →
      ∀ b, (c i).staged key = some b → content = b) : t.Holds (c i) s' := by
  cases q with
  | putObject key content =>
    obtain ⟨f, rfl⟩ := hq
    refine ht.put (Option.some.inj hs) (hput _ _ rfl) fun p hp he => ?_
    obtain ⟨⟨f', rfl⟩, _⟩ := ht.promoted p hp
    exact absurd he.symm (tempKey_ne_inputsKey _ _ _ _)
  | copyObject dst src =>
    obtain ⟨f, rfl⟩ := hq
    simp only [platformService] at hs
    split at hs
    · cases hs
      exact ht
    · refine ht.put (Option.some.inj hs) (fun hup => ?_) fun p hp he => ?_
      · obtain ⟨⟨f', hf'⟩, _⟩ := ht.uploaded _ hup
        exact absurd hf'.symm (tempKey_ne_inputsKey _ _ _ _)
      · obtain ⟨⟨f', rfl⟩, _⟩ := ht.promoted p hp
        exact absurd (inputsKey_jobID (hown.slash i) (hown.slash k) he) (hown.ne i k (Ne.symm hk))
  | createJob rec => exact ht.create (Option.some.inj hs)
  | postSchedule url token req =>
    rcases Fate.meet_cases (Option.some.inj hs) with ⟨_, rfl⟩ | rfl <;> exact ht

/-- What the command does itself. -/
theorem Trail.Holds.own {c : CliSubmission} (ht : t.Holds c s) {q : Ask} (hq : (trail c).ok t q)
    (hs : platformService.serve q fate s = some (ok, s')) :
    ((trail c).next t q ok).Holds c s' := by
  cases q with
  | putObject key content =>
    obtain ⟨⟨f, rfl⟩, hst⟩ := hq
    have hw := Option.some.inj hs
    have ht' : t.Holds c s' := by
      refine ht.put hw (fun _ b hb => ?_) fun p hp he => ?_
      · cases hst.symm.trans hb
        rfl
      · obtain ⟨⟨f', rfl⟩, _⟩ := ht.promoted p hp
        exact absurd he.symm (tempKey_ne_inputsKey _ _ _ _)
    cases ok with
    | false => exact ht'
    | true =>
      exact ⟨List.forall_mem_cons.mpr ⟨⟨⟨f, rfl⟩, content, hst, put_objects hw⟩, ht'.uploaded⟩,
        ht'.promoted, ht'.created⟩
  | copyObject dst src =>
    obtain ⟨hup, f, rfl, rfl⟩ := hq
    obtain ⟨_, b, hb, hsb⟩ := ht.uploaded _ hup
    simp only [platformService, hsb] at hs
    have hw := Option.some.inj hs
    have ht' : t.Holds c s' := by
      refine ht.put hw (fun hup' => ?_) fun p hp he b' hb' => ?_
      · obtain ⟨⟨f', hf'⟩, _⟩ := ht.uploaded _ hup'
        exact absurd hf'.symm (tempKey_ne_inputsKey _ _ _ _)
      · obtain ⟨⟨f', rfl⟩, _⟩ := ht.promoted p hp
        cases inputsKey_inj he
        cases hb.symm.trans hb'
        rfl
    cases ok with
    | false => exact ht'
    | true =>
      exact ⟨ht'.uploaded, List.forall_mem_cons.mpr ⟨⟨⟨f, rfl⟩, b, hb, put_objects hw⟩,
        ht'.promoted⟩, ht'.created⟩
  | createJob rec =>
    have hw := Option.some.inj hs
    have ht' := ht.create hw
    cases ok with
    | false => exact ht'
    | true =>
      refine ⟨ht'.uploaded, ht'.promoted, ?_⟩
      rintro _ ⟨⟩
      rcases Fate.meet_cases hw with ⟨hok, _⟩ | rfl
      · cases hok
      · exact List.mem_append_right _ List.mem_cons_self
  | postSchedule url token req =>
    rcases Fate.meet_cases (Option.some.inj hs) with ⟨_, rfl⟩ | rfl <;> exact ht

/-- The rule for one command among the others, from its first upload on. -/
theorem tracked_command (hown : OwnJobs c) :
    ClientRule (α := Option Response) platformService (undisturbed c i) i (trail (c i))
      (fun k => (c k).Asks) (fun s t => t.Holds (c i) s) where
  env {m e} := e.elim
  other {m k fate q cont a s t} hk hi hq hs hu hI := by
    refine hI.other hown hk hq hs ?_
    rintro key content rfl _ b hb
    have hu : k ≠ i → ∀ b ∈ (c i).staged key, content = b := by simpa [undisturbed, hi] using hu
    exact hu hk b hb
  own _ hok hs _ hI := hI.own hok hs

/-- The rule for a command that has ended: nothing changes what it has promoted. -/
theorem tracked_ended (hown : OwnJobs c) (t : Trail) :
    ClientRule (α := Option Response) platformService (fun _ _ => True) i (only fun _ => False)
      (fun k => (c k).Asks) (fun s _ => Trail.Holds (c i) s { t with uploaded := [] }) where
  env {m e} := e.elim
  other hk _ hq hs _ hI := hI.other hown hk hq hs (by simp)
  own _ hok := hok.elim

/-- The object at the URI has the content of the local file. -/
def Contains (s : Objects) (uri : String) (file : Option Bytes) : Prop :=
  ∃ key content, uri = objectURI key ∧ s key = some content ∧ file = some content

/-- A command that begins in `m₁` and whose job is accepted in `m₂`: its record is in the store,
and from then on the objects that it names for the input, the mapper, the reducer and the combiner
are the local files of these roles. -/
theorem promoted_contents {h : Handlers} (hown : OwnJobs c) (hc : (c i).Consistent)
    (hbucket : (c i).codeBucket = inputBucketName) {s₀ : Platform} {m₁ m₂ m₃ : Commands}
    {bs cs ds : List (Clients.Label Empty Fate)}
    (hbefore : Run platformService.Step ⟨s₀, fun k => (c k).cmdJobsSubmit h⟩ bs m₁)
    (hbegin : ∀ fate, .client i fate ∉ bs)
    (hduring : Run (Under platformService.Step (undisturbed c i)) m₁ cs m₂) {resp : Response}
    (hresp : (m₂.clients i).result? = some (some resp)) (hacc : resp.code = 202)
    (hafter : Run platformService.Step m₂ ds m₃) :
    ∃ rec ∈ m₃.state.jobs, rec.jobID = (c i).jobID ∧
      Contains m₃.state.objects rec.filename ((c i).files (c i).input) ∧
      Contains m₃.state.objects rec.mapperURI ((c i).files (c i).mapper) ∧
      Contains m₃.state.objects rec.reducerURI ((c i).files (c i).reducer) ∧
      ((c i).combiner ≠ "" →
        Contains m₃.state.objects rec.combinerURI ((c i).files (c i).combiner)) := by
  have hasks : ∀ {m : Commands} {ls}, Run platformService.Step
      ⟨s₀, fun k => (c k).cmdJobsSubmit h⟩ ls m → ∀ k, k ≠ i →
      (m.clients k).Obeys (only (c k).Asks) () :=
    fun hrun k _ => Service.obeys_run hrun k (asks_cmdJobsSubmit h (c k))
  have hfirst : m₁.clients i = (c i).cmdJobsSubmit h := Service.client_kept hbefore hbegin
  obtain ⟨t, ht, hdone⟩ := (tracked_command hown).run_finish hduring (hasks hbefore)
    (t := ⟨[], [], none⟩) ⟨by simp, by simp, by simp⟩
    (hfirst ▸ meets_cmdJobsSubmit hc hbucket) hresp
  obtain ⟨hall, rec, hrec, hid, hfiles⟩ := hdone resp rfl hacc
  obtain ⟨_, ht', _⟩ := (tracked_ended hown t).run (hafter.mono fun _ _ _ hs => ⟨hs, trivial⟩)
    (hasks (hbefore.append hduring.of_under)) (t := ()) ⟨by simp, ht.promoted, ht.created⟩
    (Prog.meets_of_result hresp)
  have hcontains : ∀ path ∈ (c i).paths,
      Contains m₃.state.objects (objectURI ((c i).copyOf path).1) ((c i).files path) := by
    intro path hp
    obtain ⟨_, b, hb, hsb⟩ := ht'.promoted _ (hall path hp)
    exact ⟨_, b, rfl, hsb, (staged_path hc hp).symm.trans hb⟩
  refine ⟨rec, ht'.created rec hrec, hid, ?_, ?_, ?_, fun hcomb => ?_⟩
  · rw [show rec.filename = (c i).copies.inputURI from congrArg JobFiles.inputURI hfiles]
    exact hcontains _ (mem_paths.mpr (by simp))
  · rw [show rec.mapperURI = (c i).copies.mapperURI from congrArg JobFiles.mapperURI hfiles]
    exact hcontains _ (mem_paths.mpr (by simp))
  · rw [show rec.reducerURI = (c i).copies.reducerURI from congrArg JobFiles.reducerURI hfiles]
    exact hcontains _ (mem_paths.mpr (by simp))
  · rw [show rec.combinerURI = (c i).copies.combinerURI from congrArg JobFiles.combinerURI hfiles,
      CliSubmission.copies, if_pos hcomb]
    exact hcontains _ (mem_paths.mpr (by simp [hcomb]))

end Commands

/-! ## 6. Names -/

/-- The local files: two programs with one name in two folders, and the input. -/
def localFiles : String → Option Bytes
  | "a/main.py" => some [1]
  | "b/main.py" => some [2]
  | "b/reduce.py" => some [3]
  | "in.txt" => some [4]
  | _ => none

/-- Commands with this reducer and this combiner. -/
def command (reducer combiner : String) (k : Nat) : CliSubmission where
  userID := "u"
  codeBucket := inputBucketName
  files := localFiles
  mapper := "a/main.py"
  reducer := reducer
  combiner := combiner
  input := "in.txt"
  reducers := 1
  jobID := strokes k
  taskID := fun i => strokes (k + 1 + i)
  now := 1

theorem command_own (reducer combiner : String) : OwnJobs (command reducer combiner) where
  ne i k hne he := by
    have hlen := congrArg (fun text : String => text.toList.length) he
    simp [command, strokes] at hlen
    exact hne hlen
  slash i := by simp [command, strokes]

/-- Every step of the command is answered. -/
def commandSteps (n : Nat) : List (Clients.Label Empty Fate) :=
  List.replicate n (.client 1 .answered)

def commandStart (reducer combiner : String) : Commands :=
  ⟨⟨fun _ => none, []⟩, fun k => (command reducer combiner k).cmdJobsSubmit smallApi⟩

/-- The status of the answer that the command prints. -/
def printedCode (m : Commands) (i : Nat) : Option Nat :=
  (m.clients i).result?.bind fun result => result.map Response.code

theorem undisturbed_own {c : Nat → CliSubmission} {i : Nat} {m : Commands} {fate : Fate} :
    undisturbed c i m (.client i fate) := by
  dsimp only [undisturbed]
  split
  · exact fun hne => absurd rfl hne
  · trivial

/-- The reducer is the combiner as well, so that two uploads go to one key. -/
theorem promoted_contents_reduce :
    ∃ m, Run platformService.Step (commandStart "b/reduce.py" "b/reduce.py") (commandSteps 10) m ∧
      ∃ rec ∈ m.state.jobs, rec.jobID = strokes 1 ∧
        Contains m.state.objects rec.filename (localFiles "in.txt") ∧
        Contains m.state.objects rec.mapperURI (localFiles "a/main.py") ∧
        Contains m.state.objects rec.reducerURI (localFiles "b/reduce.py") ∧
        Contains m.state.objects rec.combinerURI (localFiles "b/reduce.py") := by
  obtain ⟨m, hrun, hcode⟩ : ∃ m, Run platformService.Step
      (commandStart "b/reduce.py" "b/reduce.py") (commandSteps 10) m ∧
      printedCode m 1 = some 202 := run_to (by decide +kernel)
  obtain ⟨result, hresult, hcode⟩ := Option.bind_eq_some_iff.mp hcode
  obtain ⟨resp, rfl, hacc⟩ := Option.map_eq_some_iff.mp hcode
  have hduring : Run (Under platformService.Step
      (undisturbed (command "b/reduce.py" "b/reduce.py") 1))
      (commandStart "b/reduce.py" "b/reduce.py") (commandSteps 10) m := by
    refine hrun.under_mem.mono ?_
    rintro _ l _ ⟨hs, hl⟩
    cases List.eq_of_mem_replicate hl
    exact ⟨hs, undisturbed_own⟩
  obtain ⟨rec, hrec, hid, hinput, hmapper, hreducer, hcombiner⟩ :=
    promoted_contents (command_own _ _) (by unfold CliSubmission.Consistent; decide +kernel) rfl
      (.nil _) (by simp) hduring hresult hacc (.nil _)
  exact ⟨m, hrun, rec, hrec, hid, hinput, hmapper, hreducer, hcombiner (by decide)⟩

/-- The reducer is uploaded under the name of the mapper before the mapper is copied. -/
theorem mapper_overwritten :
    ∃ m, Run platformService.Step (commandStart "b/main.py" "") (commandSteps 8) m ∧
      (printedCode m 1 = some 202 ∧
        m.state.jobs.map JobRecord.mapperURI = [objectURI (inputsKey (strokes 1) "main.py")] ∧
        m.state.objects (inputsKey (strokes 1) "main.py") ≠ localFiles "a/main.py") :=
  run_to (by decide +kernel)

end KubeMapReduce
