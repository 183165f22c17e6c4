import KubeMapReduce.Lib.Exits
import KubeMapReduce.Lib.Paths
import KubeMapReduce.Promotion

/-!
# What a submission can reach

The files of all users are in one bucket: those of a user below `temp/<user>/` until a job takes
them, those of a job below `inputs/<job>/`. ValidateJobSubmission looks at the elements of the name
of the input, but not at those of the mapper, the reducer and the combiner. promoteArtifact takes a
name without scheme as it is, and it passes on every URI that does not begin with the temporary area
of the user, whatever that URI names.

Keys are compared after their paths have been cleaned, that is, with `.` and `..` resolved.

* `validated_filename`: the input is a name that stays in the directory of its user.
* `submission_isolated`: a submission stays with the files of its user and its job exactly if the
  names of its code files stay in their directory and the URIs among them name nothing else in the
  bucket, unless it ends before it comes to them.
* `foreign_code_read`: a submission that runs a file of another job.
-/

namespace KubeMapReduce

open Programs Paths Exits

/-! ## 1. Keys and directories -/

/-- The elements of a path. -/
def components (path : String) : List (List Char) := path.toList.splitOn '/'

/-- An element that a path can do without. -/
def isHere (e : List Char) : Bool := decide (e = []) || decide (e = ['.'])

def isUp (e : List Char) : Bool := decide (e = ['.', '.'])

def cleanPath (path : String) : List (List Char) := Paths.clean isHere isUp (components path)

/-- The key, after cleaning, names the directory or something below it. -/
def Below (dir key : String) : Prop := cleanPath dir <+: cleanPath key

instance (dir key : String) : Decidable (Below dir key) :=
  inferInstanceAs (Decidable (cleanPath dir <+: cleanPath key))

/-- A name that does not lead out of the directory in which it is used. -/
def Inside (name : String) : Prop := Stays isHere isUp (components name)

instance (name : String) : Decidable (Inside name) :=
  inferInstanceAs (Decidable (Stays isHere isUp (components name)))

/-- One element of a path, as a UUID is. -/
structure PathElement (name : String) : Prop where
  single : '/' ∉ name.toList
  notHere : isHere name.toList = false
  notUp : isUp name.toList = false

def tempDir (userID : String) : String := s!"temp/{userID}"

def inputsDir (jobID : String) : String := s!"inputs/{jobID}"

section Directory

variable {top name dir : String}

/-- The elements of a directory of two elements. -/
theorem components_pair (htop : PathElement top) (hname : PathElement name)
    (hdir : dir.toList = top.toList ++ '/' :: name.toList) :
    components dir = [top.toList, name.toList] ∧
      ∀ e ∈ components dir, isHere e = false ∧ isUp e = false := by
  have hpair : components dir = [top.toList, name.toList] := by
    rw [components, hdir, List.splitOn_append_cons_self, List.splitOn_eq_singleton htop.single,
      List.splitOn_eq_singleton hname.single]
    rfl
  refine ⟨hpair, ?_⟩
  rw [hpair]
  simp [htop.notHere, htop.notUp, hname.notHere, hname.notUp]

/-- A directory of two elements is clean. -/
theorem cleanPath_pair (htop : PathElement top) (hname : PathElement name)
    (hdir : dir.toList = top.toList ++ '/' :: name.toList) :
    cleanPath dir = [top.toList, name.toList] := by
  obtain ⟨hpair, hnames⟩ := components_pair htop hname hdir
  rw [cleanPath, Paths.clean, foldl_enter_names hnames, List.append_nil, List.reverse_reverse,
    hpair]

end Directory

theorem tempDir_element : PathElement "temp" := ⟨by decide, by decide, by decide⟩

theorem inputsDir_element : PathElement "inputs" := ⟨by decide, by decide, by decide⟩

theorem tempDir_toList (userID : String) :
    (tempDir userID).toList = "temp".toList ++ '/' :: userID.toList := by simp [tempDir, toString]

theorem inputsDir_toList (jobID : String) :
    (inputsDir jobID).toList = "inputs".toList ++ '/' :: jobID.toList := by
  simp [inputsDir, toString]

theorem cleanPath_tempDir {userID : String} (h : PathElement userID) :
    cleanPath (tempDir userID) = ["temp".toList, userID.toList] :=
  cleanPath_pair tempDir_element h (tempDir_toList userID)

theorem cleanPath_inputsDir {jobID : String} (h : PathElement jobID) :
    cleanPath (inputsDir jobID) = ["inputs".toList, jobID.toList] :=
  cleanPath_pair inputsDir_element h (inputsDir_toList jobID)

/-- A name is below the directory of the user and below that of the job exactly if it does not lead
out of the directory in which it is used: once it has, it cannot come back to both of them. -/
theorem below_both_iff {userID jobID : String} (huser : PathElement userID)
    (hjob : PathElement jobID) (hne : userID ≠ jobID) (name : String) :
    Below (tempDir userID) (tempKey userID name) ∧ Below (inputsDir jobID) (inputsKey jobID name) ↔
      Inside name := by
  obtain ⟨names, parents, hstays, hparents, hclean⟩ := clean_split isHere isUp (components name)
  have hkey : ∀ {dir key top element : String}, PathElement top → PathElement element →
      dir.toList = top.toList ++ '/' :: element.toList →
      key.toList = dir.toList ++ '/' :: name.toList →
      (Below dir key ↔ [top.toList, element.toList] <+:
        (parents.take (parents.length - 2)).reverse ++
          ([top.toList, element.toList].take (2 - parents.length) ++ names)) := by
    intro dir key top element htop helement hdir hkey
    obtain ⟨hpair, hnames⟩ := components_pair htop helement hdir
    have hcomp : components key = components dir ++ components name := by
      unfold components
      rw [hkey, List.splitOn_append_cons_self]
    rw [Below, cleanPath_pair htop helement hdir, cleanPath, hcomp, hclean _ hnames, hpair]
    rfl
  rw [hkey tempDir_element huser (tempDir_toList userID) (by simp [tempKey, tempDir, toString]),
    hkey inputsDir_element hjob (inputsDir_toList jobID) (by simp [inputsKey, inputsDir, toString]),
    Inside, hstays]
  rcases parents with _ | ⟨p₁, _ | ⟨p₂, _ | ⟨p, rest⟩⟩⟩
  · exact iff_of_true ⟨List.prefix_append _ _, List.prefix_append _ _⟩ rfl
  · refine iff_of_false ?_ (by simp)
    rintro ⟨⟨s, hs⟩, ⟨s', hs'⟩⟩
    refine hne (String.toList_inj.mp ?_)
    have hs : "temp".toList :: userID.toList :: s = "temp".toList :: names := hs
    have hs' : "inputs".toList :: jobID.toList :: s' = "inputs".toList :: names := hs'
    exact (List.cons.inj ((List.cons.inj hs).2.trans (List.cons.inj hs').2.symm)).1
  · refine iff_of_false ?_ (by simp)
    rintro ⟨⟨s, hs⟩, ⟨s', hs'⟩⟩
    have hs : "temp".toList :: userID.toList :: s = names := hs
    have hs' : "inputs".toList :: jobID.toList :: s' = names := hs'
    exact absurd (List.cons.inj (hs.trans hs'.symm)).1 (by decide)
  · refine iff_of_false ?_ (by simp)
    rintro ⟨htemp, _⟩
    -- what the key begins with is a parent
    have hmem : "temp".toList ∈ ((p₁ :: p₂ :: p :: rest).take (rest.length + 1)).reverse := by
      obtain ⟨s, hs⟩ := htemp
      cases hrev : ((p₁ :: p₂ :: p :: rest).take (rest.length + 1)).reverse with
      | nil => simp at hrev
      | cons q qs =>
        have hs : "temp".toList :: userID.toList :: s = _ ++ _ := hs
        rw [show (p₁ :: p₂ :: p :: rest).length - 2 = rest.length + 1 from rfl, hrev,
          List.cons_append] at hs
        rw [(List.cons.inj hs).1]
        exact List.mem_cons_self
    have hup := hparents _ (List.mem_of_mem_take (List.mem_reverse.mp hmem))
    exact absurd hup (by decide)

/-- The directories of a key are the same up to the length of the shorter one. -/
theorem Below.unique {dir dir' key : String} (h : Below dir key) (h' : Below dir' key)
    (hlen : (cleanPath dir).length = (cleanPath dir').length) : cleanPath dir = cleanPath dir' :=
  (List.prefix_of_prefix_length_le h h' (Nat.le_of_eq hlen)).eq_of_length hlen

/-! ## 2. The name of the input -/

section Filename

variable {req : JobSubmissionRequest}

/-- What ValidateJobSubmission finds out about the parts of the name. -/
theorem validated_parts (h : validateJobSubmission req = .ok ()) :
    let parts := (trim isSpace req.filename.toList).splitOn '/'
    ∀ i part, parts[i]? = some part → invalidPart (i == parts.length - 1) part = false := by
  intro parts i part hpart
  have hlist : (trimSpace req.filename).toList = trim isSpace req.filename.toList :=
    String.toList_ofList
  unfold validateJobSubmission at h
  dsimp only at h
  rw [hlist] at h
  obtain ⟨_, h⟩ := ok_of_guard h
  obtain ⟨_, h⟩ := ok_of_guard h
  obtain ⟨hany, _⟩ := ok_of_guard h
  refine Bool.eq_false_iff.mpr fun hbad => hany (List.any_eq_true.mpr ⟨(part, i), ?_, hbad⟩)
  exact List.mem_zipIdx_iff_getElem?.mpr hpart

/-- There is no element in it that leads upwards. -/
theorem validated_inside (h : validateJobSubmission req = .ok ()) : Inside req.filename := by
  refine stays_of_forall fun e he => Bool.eq_false_iff.mpr fun hup => ?_
  have he' := mem_splitOn_trim (p := isSpace) (by decide) (by
    rw [of_decide_eq_true hup]
    simp [isSpace]) he
  obtain ⟨i, hi⟩ := List.getElem?_of_mem he'
  have hbad := validated_parts h i e hi
  rw [of_decide_eq_true hup] at hbad
  simp [invalidPart] at hbad

/-- There are no two slashes in a row, and so no scheme. -/
theorem validated_slashes (h : validateJobSubmission req = .ok ()) :
    ¬ "//".toList <:+: req.filename.toList := by
  intro hin
  obtain ⟨s, t, hst⟩ := infix_trim (p := isSpace) (by decide) (by simp [isSpace]) hin
  have hsplit : (trim isSpace req.filename.toList).splitOn '/' =
      s.splitOn '/' ++ [] :: t.splitOn '/' := by
    rw [← hst, List.append_assoc]
    show (s ++ '/' :: ([] ++ '/' :: t)).splitOn '/' = _
    rw [List.splitOn_append_cons_self, List.splitOn_append_cons_self]
    rfl
  have hbad := validated_parts h (s.splitOn '/').length [] (by rw [hsplit]; simp)
  have hpos := List.length_pos_iff.mpr (List.splitOn_ne_nil '/' t)
  rw [hsplit, List.length_append, List.length_cons] at hbad
  simp only [invalidPart, if_true, Bool.not_eq_false', beq_iff_eq] at hbad
  omega

/-- The input is taken from the temporary area, whatever its name. -/
theorem validated_filename (h : validateJobSubmission req = .ok ()) (userID : String) :
    uploadedName userID req.filename = some req.filename ∧ Inside req.filename := by
  have hslash := validated_slashes h
  have hstart : beginsWith req.filename (objectURI (tempKey userID "")) = false := by
    refine Bool.eq_false_iff.mpr fun hb => hslash ?_
    refine List.IsInfix.trans ?_ (List.isPrefixOf_iff_prefix.mp hb).isInfix
    rw [objectURI_toList]
    exact ⟨"s3:".toList, "mapreduce-inputs/".toList ++ (tempKey userID "").toList, by simp⟩
  have hscheme : containsText req.filename "://" = false := by
    refine Bool.eq_false_iff.mpr fun hc => hslash ?_
    obtain ⟨rest, hrest, hpre⟩ := List.any_eq_true.mp hc
    refine List.IsInfix.trans ?_ ((List.mem_tails _ _).mp hrest).isInfix
    refine List.IsInfix.trans ?_ (List.isPrefixOf_iff_prefix.mp hpre).isInfix
    exact ⟨[':'], [], by decide⟩
  refine ⟨?_, validated_inside h⟩
  rw [uploadedName, hstart, hscheme]
  rfl

end Filename

/-! ## 3. Isolation -/

/-- The key of a URI that names the bucket of the platform. -/
def platformKey (uri : String) : Option String :=
  match parseS3URI uri with
  | .ok (bucket, key) => if bucket = inputBucketName then some key else none
  | .error _ => none

/-- The URI names nothing in the bucket of the platform, or an input of the job. -/
def Own (jobID uri : String) : Prop := ∀ key ∈ platformKey uri, Below (inputsDir jobID) key

def JobFiles.uris (files : JobFiles) : List String :=
  [files.inputURI, files.mapperURI, files.reducerURI, files.combinerURI]

/-- What a handler may ask for a job of the user: copies from the area of the user to the inputs of
the job, and records whose URIs are those of the job. -/
def Isolated (userID jobID : String) : Ask → Prop
  | .putObject _ _ => False
  | .copyObject dst src => Below (tempDir userID) src ∧ Below (inputsDir jobID) dst
  | .createJob rec => ∀ uri ∈ rec.files.uris, Own jobID uri
  | .postSchedule _ _ req => ∀ uri ∈ req.files.uris, Own jobID uri

/-- The keys that are read, by the copy or by the tasks of the job. -/
def Ask.reads : Ask → List String
  | .putObject _ _ => []
  | .copyObject _ src => [src]
  | .createJob rec => rec.files.uris.filterMap platformKey
  | .postSchedule _ _ req => req.files.uris.filterMap platformKey

/-- A temporary file of another user, or an input of another job. -/
def OfOthers (userID jobID key : String) : Prop :=
  (∃ other, PathElement other ∧ other ≠ userID ∧ Below (tempDir other) key) ∨
    ∃ other, PathElement other ∧ other ≠ jobID ∧ Below (inputsDir other) key

/-- The code files that a submission names. -/
def JobSubmissionRequest.artifacts (req : JobSubmissionRequest) : List String :=
  [req.mapper.artifact, req.reducer.artifact] ++
    if req.combinerArtifact ≠ "" then [req.combinerArtifact] else []

section Isolation

variable {userID jobID uri : String}

theorem platformKey_objectURI (key : String) : platformKey (objectURI key) = some key := by
  unfold platformKey objectURI
  rw [parseS3URI_append key (by decide)]
  rfl

/-- What is isolated reads no file of others. -/
theorem Isolated.reads_own {q : Ask} (h : Isolated userID jobID q) (huser : PathElement userID)
    (hjob : PathElement jobID) : ∀ key ∈ q.reads, ¬ OfOthers userID jobID key := by
  have htemp : ∀ key, Below (tempDir userID) key → ¬ OfOthers userID jobID key := by
    rintro key hkey (⟨other, ho, hne, hb⟩ | ⟨other, ho, hne, hb⟩)
    · have := hkey.unique hb (by rw [cleanPath_tempDir huser, cleanPath_tempDir ho]; rfl)
      rw [cleanPath_tempDir huser, cleanPath_tempDir ho] at this
      exact hne (String.toList_inj.mp (by simpa using this.symm))
    · have := hkey.unique hb (by rw [cleanPath_tempDir huser, cleanPath_inputsDir ho]; rfl)
      rw [cleanPath_tempDir huser, cleanPath_inputsDir ho] at this
      simp at this
  have hinputs : ∀ key, Below (inputsDir jobID) key → ¬ OfOthers userID jobID key := by
    rintro key hkey (⟨other, ho, hne, hb⟩ | ⟨other, ho, hne, hb⟩)
    · have := hkey.unique hb (by rw [cleanPath_inputsDir hjob, cleanPath_tempDir ho]; rfl)
      rw [cleanPath_inputsDir hjob, cleanPath_tempDir ho] at this
      simp at this
    · have := hkey.unique hb (by rw [cleanPath_inputsDir hjob, cleanPath_inputsDir ho]; rfl)
      rw [cleanPath_inputsDir hjob, cleanPath_inputsDir ho] at this
      exact hne (String.toList_inj.mp (by simpa using this.symm))
  have huris : ∀ uris : List String, (∀ uri ∈ uris, Own jobID uri) →
      ∀ key ∈ uris.filterMap platformKey, ¬ OfOthers userID jobID key := by
    intro uris hown key hkey
    obtain ⟨uri, huri, hk⟩ := List.mem_filterMap.mp hkey
    exact hinputs key (hown uri huri key hk)
  cases q with
  | putObject key content => exact h.elim
  | copyObject dst src => exact List.forall_mem_singleton.mpr (htemp src h.1)
  | createJob rec => exact huris _ h
  | postSchedule url token req => exact huris _ h

section Asks

variable {P : Ask → Prop} {fail : Api}

/-- What promoteArtifact asks for. -/
theorem obeys_promoteArtifact {k : String → Api} (hfail : fail.Obeys (only P) ()) :
    (promoteArtifact userID jobID uri fail k).Obeys (only P) () ↔
      (∀ name, uploadedName userID uri = some name →
        P (.copyObject (inputsKey jobID name) (tempKey userID name))) ∧
      (k (promotedURI userID jobID uri)).Obeys (only P) () := by
  unfold promoteArtifact promotedURI
  split
  · next h => simp [h]
  · next name h =>
    refine ⟨fun ⟨hcopy, hk⟩ => ⟨?_, ?_⟩, fun ⟨hcopy, hk⟩ => ⟨hcopy name h, fun ok => ?_⟩⟩
    · rintro _ hname
      cases h.symm.trans hname
      exact hcopy
    · exact hk true
    · cases ok with
      | true => exact hk
      | false => exact hfail

theorem obeys_promoteJobFiles {req : JobSubmissionRequest} {k : JobFiles → Api}
    (hfail : fail.Obeys (only P) ()) :
    (promoteJobFiles userID jobID req req.combinerArtifact fail k).Obeys (only P) () ↔
      (∀ uri ∈ req.filename :: req.artifacts, ∀ name, uploadedName userID uri = some name →
        P (.copyObject (inputsKey jobID name) (tempKey userID name))) ∧
      (k (promotedFiles userID jobID req req.combinerArtifact)).Obeys (only P) () := by
  unfold promoteJobFiles promotedFiles JobSubmissionRequest.artifacts
  rw [obeys_promoteArtifact hfail, obeys_promoteArtifact hfail, obeys_promoteArtifact hfail]
  split
  · rw [obeys_promoteArtifact hfail]
    simp only [List.forall_mem_cons, List.cons_append, List.nil_append, List.not_mem_nil,
      false_implies, implies_true, and_true, and_assoc]
  · simp only [List.forall_mem_cons, List.cons_append, List.nil_append, List.not_mem_nil,
      false_implies, implies_true, and_true, and_assoc]

end Asks

/-- The rest of the handler records the URIs of the files, if the request can be built. -/
theorem isolated_createAndSchedule {h : Handlers} {r : SubmitRequest}
    {request : JobSubmissionRequest} {files : JobFiles} :
    (h.createAndSchedule r userID request files).Obeys (only (Isolated userID jobID)) () ↔
      ((buildScheduleRequest h.sha256Hex h.minioClient r.taskID r.jobID userID request
        files).isSome = true → ∀ uri ∈ files.uris, Own jobID uri) := by
  unfold Handlers.createAndSchedule
  split
  · next hnone => exact iff_of_true trivial (by simp [hnone])
  · next schedReq hbuilt =>
    obtain rfl := buildScheduleRequest_eq hbuilt
    rw [hbuilt]
    refine ⟨fun h _ => h.1, fun h => ⟨h rfl, fun ok => ?_⟩⟩
    refine Prog.obeys_ite (fun _ => Prog.obeys_ite (fun _ => ?_) fun _ => trivial) fun _ => trivial
    unfold Handlers.postSchedule
    split
    · trivial
    · exact ⟨h rfl, fun _ => trivial⟩

/-- The URI of a promoted file is that of an input of the job, or it is passed on. -/
theorem own_promotedURI (hbelow : ∀ name, uploadedName userID uri = some name →
      Below (inputsDir jobID) (inputsKey jobID name)) :
    Own jobID (promotedURI userID jobID uri) ↔
      (uploadedName userID uri = none → Own jobID uri) := by
  unfold promotedURI
  split
  · next h => simp [h]
  · next name h =>
    refine iff_of_true (fun key hkey => ?_) fun hnone => by cases h.symm.trans hnone
    rw [platformKey_objectURI] at hkey
    cases hkey
    exact hbelow name h

theorem own_promotedFiles {req : JobSubmissionRequest}
    (hbelow : ∀ uri ∈ req.filename :: req.artifacts, ∀ name, uploadedName userID uri = some name →
      Below (inputsDir jobID) (inputsKey jobID name)) :
    (∀ uri ∈ (promotedFiles userID jobID req req.combinerArtifact).uris, Own jobID uri) ↔
      ∀ uri ∈ req.filename :: req.artifacts, uploadedName userID uri = none → Own jobID uri := by
  have hempty : Own jobID "" := fun key hkey => by cases hkey
  unfold JobSubmissionRequest.artifacts at hbelow ⊢
  unfold JobFiles.uris promotedFiles
  split at hbelow <;> rename_i hc
  · simp only [List.forall_mem_cons, List.cons_append, List.nil_append, List.not_mem_nil,
      false_implies, implies_true, and_true] at hbelow
    simp only [if_pos hc, List.forall_mem_cons, List.cons_append, List.nil_append,
      List.not_mem_nil, false_implies, implies_true, and_true, own_promotedURI hbelow.1,
      own_promotedURI hbelow.2.1, own_promotedURI hbelow.2.2.1, own_promotedURI hbelow.2.2.2]
  · simp only [List.forall_mem_cons, List.cons_append, List.nil_append, List.not_mem_nil,
      false_implies, implies_true, and_true] at hbelow
    simp only [if_neg hc, List.forall_mem_cons, List.cons_append, List.nil_append,
      List.not_mem_nil, false_implies, implies_true, and_true, own_promotedURI hbelow.1,
      own_promotedURI hbelow.2.1, own_promotedURI hbelow.2.2, hempty]

theorem artifacts_withReducers (req : JobSubmissionRequest) :
    req.withReducers.artifacts = req.artifacts := by
  unfold JobSubmissionRequest.withReducers
  split <;> rfl

/-- For a user and a job with IDs of their own: a submission copies only from the area of its user
to the inputs of its job, and every URI that it records and that names the bucket is below these
inputs, exactly if the names of its code files do not lead out of their directory and, as far as the
request for the schedule is built, the URIs among them name nothing else in the bucket. That is
asked only of a submission that gets so far. Nothing is asked of the name of the input. So the
submission reads no file of others. -/
theorem submission_isolated {h : Handlers} {r : SubmitRequest} {request : JobSubmissionRequest}
    {userID : String} (hbody : r.body = .ok request) (hsubject : r.subject = some userID)
    (huser : PathElement userID) (hjob : PathElement r.jobID) (hne : userID ≠ r.jobID) :
    ((h.handleJobsSubmit r).Obeys (only (Isolated userID r.jobID)) () ↔
      (r.method = "POST" → validateJobSubmission request.withReducers = .ok () →
        h.minioClient.isSome = true →
        (∀ uri ∈ request.artifacts, ∀ name, uploadedName userID uri = some name → Inside name) ∧
        ((buildScheduleRequest h.sha256Hex h.minioClient r.taskID r.jobID userID
          request.withReducers (promotedFiles userID r.jobID request.withReducers
            request.withReducers.combinerArtifact)).isSome = true →
          ∀ uri ∈ request.artifacts, uploadedName userID uri = none → Own r.jobID uri))) ∧
    ((h.handleJobsSubmit r).Obeys (only (Isolated userID r.jobID)) () →
      (h.handleJobsSubmit r).Obeys
        (only fun q => ∀ key ∈ q.reads, ¬ OfOthers userID r.jobID key) ()) := by
  refine ⟨?_, fun h => h.only_mono fun _ hq => hq.reads_own huser hjob⟩
  unfold Handlers.handleJobsSubmit
  by_cases hpost : r.method = "POST"
  swap
  · rw [if_pos hpost]
    exact iff_of_true trivial fun h => absurd h hpost
  rw [if_neg (not_not.mpr hpost), hbody]
  dsimp only
  cases hvalid : validateJobSubmission request.withReducers with
  | error message => exact iff_of_true trivial fun _ h => by cases h
  | ok _ =>
    rw [hsubject]
    dsimp only
    cases hclient : h.minioClient.isSome with
    | false =>
      rw [if_pos (by simpa using hclient)]
      exact iff_of_true trivial fun _ _ h => by cases h
    | true =>
      obtain ⟨hname, hinside⟩ := validated_filename hvalid userID
      have hfile : ∀ name, uploadedName userID request.withReducers.filename = some name →
          Inside name := by
        intro name hname'
        cases hname.symm.trans hname'
        exact hinside
      have hcopies : (∀ uri ∈ request.withReducers.filename :: request.withReducers.artifacts,
          ∀ name, uploadedName userID uri = some name →
            Isolated userID r.jobID (.copyObject (inputsKey r.jobID name) (tempKey userID name))) ↔
          ∀ uri ∈ request.artifacts, ∀ name, uploadedName userID uri = some name →
            Inside name := by
        rw [artifacts_withReducers, List.forall_mem_cons]
        simp only [Isolated, below_both_iff huser hjob hne]
        exact and_iff_right hfile
      rw [if_neg (by rw [Option.isNone_iff_eq_none,
        ← Option.not_isSome_iff_eq_none]; simp [hclient]),
        obeys_promoteJobFiles (by trivial), isolated_createAndSchedule]
      simp only [hpost, forall_const]
      refine ⟨fun ⟨hcopy, hown⟩ => ⟨hcopies.mp hcopy, fun hbuilt => ?_⟩,
        fun ⟨hcopy, hown⟩ => ⟨hcopies.mpr hcopy, fun hbuilt => ?_⟩⟩
      · have hall := (own_promotedFiles fun uri huri name hn => (hcopy uri huri name hn).2).mp
          (hown hbuilt)
        rw [artifacts_withReducers] at hall
        exact (List.forall_mem_cons.mp hall).2
      · refine (own_promotedFiles fun uri huri name hn =>
          (hcopies.mpr hcopy uri huri name hn).2).mpr (List.forall_mem_cons.mpr ⟨?_, ?_⟩)
        · intro hnone
          cases hname.symm.trans hnone
        · rw [artifacts_withReducers]
          exact hown hbuilt

end Isolation

/-! ## 4. Two submissions -/

def pythonCode (artifact interface : String) : FunctionSpec :=
  ⟨"python", artifact, "main", interface⟩

def countWords (mapper reducer : String) : JobSubmissionRequest where
  filename := "words.txt"
  inputChecksum := ""
  mapper := pythonCode mapper mapInterface
  reducer := pythonCode reducer reduceInterface
  combiner := none
  reducers := 1

/-- A submission by mallory of the job `b`. -/
def malloryRequest (mapper reducer : String) : SubmitRequest where
  method := "POST"
  body := .ok (countWords mapper reducer)
  subject := some "mallory"
  jobID := "b"
  taskID := fun _ => ""
  now := 0

/-- The code is a file of the user and one of an external storage. -/
theorem submission_isolated_own :
    let r := malloryRequest "map.py" "s3://code/reduce.py"
    ((smallApi.handleJobsSubmit r).play fun _ => true).2.code = 202 ∧
    (smallApi.handleJobsSubmit r).Obeys (only (Isolated "mallory" "b")) () ∧
    (smallApi.handleJobsSubmit r).Obeys
      (only fun q => ∀ key ∈ q.reads, ¬ OfOthers "mallory" "b" key) () := by
  intro r
  have hmapper : uploadedName "mallory" "map.py" = some "map.py" := by decide +kernel
  have hreducer : uploadedName "mallory" "s3://code/reduce.py" = none := by decide +kernel
  obtain ⟨hiff, hreads⟩ := submission_isolated (h := smallApi)
    (rfl : r.body = .ok (countWords "map.py" "s3://code/reduce.py")) rfl
    ⟨by decide, by decide, by decide⟩ ⟨by decide, by decide, by decide⟩
    (by decide : "mallory" ≠ "b")
  have hisolated := hiff.mpr fun _ _ _ => by
    have hartifacts : (countWords "map.py" "s3://code/reduce.py").artifacts =
      ["map.py", "s3://code/reduce.py"] := rfl
    rw [hartifacts]
    simp only [List.forall_mem_cons, List.not_mem_nil, false_implies, implies_true, and_true,
      hmapper, hreducer, Option.some.injEq, forall_eq', reduceCtorEq, forall_const, true_and]
    exact ⟨by decide +kernel, fun _ key hkey => by
      rw [show platformKey "s3://code/reduce.py" = none by decide +kernel] at hkey
      cases hkey⟩
  exact ⟨by decide +kernel, hisolated, hreads hisolated⟩

/-- The reducer is an input of the job `a`. The submission is accepted, and the URI of that file is
recorded for the tasks of the job. -/
theorem foreign_code_read :
    let r := malloryRequest "map.py" "s3://mapreduce-inputs/inputs/a/reduce.py"
    let played := (smallApi.handleJobsSubmit r).play fun _ => true
    played.2.code = 202 ∧
    ∃ key ∈ played.1.flatMap Ask.reads,
      Below "inputs/a/reduce.py" key ∧ OfOthers "mallory" "b" key := by
  have hplayed : let played := (smallApi.handleJobsSubmit (malloryRequest "map.py"
        "s3://mapreduce-inputs/inputs/a/reduce.py")).play fun _ => true
      played.2.code = 202 ∧ "inputs/a/reduce.py" ∈ played.1.flatMap Ask.reads := by
    decide +kernel
  obtain ⟨hcode, hreducer⟩ := hplayed
  refine ⟨hcode, _, hreducer, by decide, .inr ⟨"a", ?_⟩⟩
  exact ⟨⟨by decide, by decide, by decide⟩, by decide, by decide⟩

end KubeMapReduce
