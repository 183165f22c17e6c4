import KubeMapReduce.JobListing
import KubeMapReduce.JobOutputs
import KubeMapReduce.Submission
import KubeMapReduce.UploadKeys

/-!
# Access to jobs

A request to the API passes the token validator and the check of the roles, and the handlers look up
jobs for the subject of the token, or any job for an administrator. A submission, an upload and an
administrative request are followed up to their handlers, which read no jobs of the store
(`handleJobsSubmit` has a model of its own). The rate limiter and errors of the database are left
out, and the order of a listing is a function of the rows that it lists.

* `respond`: what the API does with a request.
* `tenant_view`: what a user without the role ADMIN is answered depends on the own jobs only.
-/

namespace KubeMapReduce

open Tables

/-! ## 1. Tokens -/

/-- A value of a claim, as far as the code looks at it. -/
inductive ClaimValue where
  | text (s : String)
  | items (vs : List ClaimValue)
  | fields (vs : List (String × ClaimValue))
  | other

def ClaimValue.text? : ClaimValue → Option String
  | .text s => some s
  | _ => none

abbrev Claims := List (String × ClaimValue)

def getRoles (claims : Claims) : Option (List String) :=
  match claims.lookup "realm_access" with
  | some (.fields realmAccess) =>
    match realmAccess.lookup "roles" with
    | some (.items rawRoles) => rawRoles.mapM ClaimValue.text?
    | _ => none
  | _ => none

def getSubject (claims : Claims) : Option String :=
  match claims.lookup "sub" with
  | some (.text sub) => if trimSpace sub = "" then none else some (trimSpace sub)
  | _ => none

def hasRole (claims : Claims) (role : String) : Bool :=
  (getRoles claims).any fun roles => roles.contains role

/-- The code and the text of an error. -/
abbrev HttpError := Nat × String

def requireRoles (claims : Claims) (requiredRoles : List String) (anyMatch : Bool) :
    Except HttpError Unit :=
  match getRoles claims with
  | none => .error (403, "forbidden: insufficient permissions")
  | some roles =>
    if (if anyMatch then requiredRoles.any roles.contains
        else requiredRoles.all roles.contains) then
      .ok ()
    else .error (403, "forbidden: required role missing")

/-! ## 2. Requests -/

structure PresignRequest where
  key : String
  jobID : String

structure HttpRequest where
  method : String
  /-- The elements of the path. -/
  path : List String
  authorization : String
  rawLimit : String
  rawOffset : String
  /-- decodeJSONBody of a presign request. -/
  presign : Except HttpError PresignRequest

/-- What the API is configured with, and what other components answer. -/
structure Gateway where
  uuidParse : String → Option UUID
  /-- The claims of a token that is signed, not expired, and of the issuer and audience. -/
  parseWithClaims : String → Option Claims
  /-- The order that the database chooses for the rows of a listing. -/
  arrange : List ListedJob → List ListedJob
  /-- PresignedGetObject of a bucket and a key, if there is a storage client. -/
  minioClient : Option (String → String → Option String)

/-- The chain of middlewares up to the claims. -/
def Gateway.middleware (g : Gateway) (authHeader : String) : Except HttpError Claims :=
  if authHeader = "" then .error (401, "authorization header missing")
  else
    match authHeader.toList.splitOn ' ' with
    | [scheme, token] =>
      if toLower (String.ofList scheme) = "bearer" then
        match g.parseWithClaims (String.ofList token) with
        | some claims => .ok claims
        | none => .error (401, "invalid token")
      else .error (401, "invalid authorization header format")
    | _ => .error (401, "invalid authorization header format")

inductive Endpoint where
  | jobs
  | deleteJob (jobID : String)
  | getJob (jobID : String)
  | presignUpload
  | presignDownload
  | adminConfig
  | adminGetConfig
  | adminUsers
  | adminUser (username : String)

/-- The patterns with a token. One for GET also matches HEAD, and a wildcard matches no empty
element. All other requests are public. -/
def registerRoutes (method : String) : List String → Option Endpoint
  | ["api", "v1", "jobs"] => some .jobs
  | ["api", "v1", "jobs", jobID] =>
    if jobID = "" then none
    else if method = "DELETE" then some (.deleteJob jobID)
    else if method = "GET" ∨ method = "HEAD" then some (.getJob jobID) else none
  | ["api", "v1", "uploads", "presigned"] => if method = "POST" then some .presignUpload else none
  | ["api", "v1", "downloads", "presigned"] =>
    if method = "POST" then some .presignDownload else none
  | ["api", "v1", "admin", "config", "workers"] =>
    if method = "POST" then some .adminConfig
    else if method = "GET" ∨ method = "HEAD" then some .adminGetConfig else none
  | ["api", "v1", "admin", "users"] => some .adminUsers
  | ["api", "v1", "admin", "users", username] =>
    if username = "" then none else some (.adminUser username)
  | _ => none

/-- RequireRole for the administrative endpoints, RequireAnyRole for the others. -/
def Endpoint.authorize (claims : Claims) : Endpoint → Except HttpError Unit
  | .adminConfig | .adminGetConfig | .adminUsers | .adminUser _ =>
    requireRoles claims ["ADMIN"] false
  | _ => requireRoles claims ["USER", "ADMIN"] true

/-- What a request leads to. -/
inductive ApiReply where
  | error (e : HttpError)
  | list (jobs : List (ListedJob × String))
  | job (job : ListedJob) (message : String)
  | notComplete (status : JobStatus)
  | urls (jobID : String) (urls : List String)
  | url (url : String)
  /-- The manager is asked to cancel the job. -/
  | cancel (jobID : String)
  /-- A handler goes on that reads no jobs. -/
  | goesOn (e : Endpoint) (subject : Option String)
  | isPublic

/-! ## 3. Handlers -/

def jobMessage : JobStatus → String
  | .pending => "job specification validated and accepted"
  | .running => "job is currently running"
  | .completed => "job completed successfully"
  | .failed => "job failed"
  | .cancelled => "job was cancelled"
  | .cleaning => "job is cleaning up temporary resources"

def errInvalidJobID : String := "invalid job id"

section Handlers

variable (g : Gateway) (db : DB) (r : HttpRequest) (claims : Claims)

def getJob (userID jobID : String) : Except String (Option ListedJob) :=
  match parseUserUUID g.uuidParse userID, g.uuidParse jobID with
  | .error err, _ => .error err
  | .ok _, none => .error errInvalidJobID
  | .ok userUUID, some j =>
    .ok (((db.jobs.get? j).filter fun row => row.userID = userUUID).map db.listedJob)

def getAnyJob (jobID : String) : Except String (Option ListedJob) :=
  match g.uuidParse jobID with
  | none => .error errInvalidJobID
  | some j => .ok ((db.jobs.get? j).map db.listedJob)

/-- The lookup of four handlers, with what they answer to an ID that is no UUID. They go on with the
job that is found. -/
def withJob (invalid : HttpError) (userID jobID : String) (found : ListedJob → ApiReply) :
    ApiReply :=
  match if hasRole claims "ADMIN" then getAnyJob g db jobID else getJob g db userID jobID with
  | .error err =>
    if err = errInvalidJobID then .error invalid else .error (403, "forbidden: invalid subject")
  | .ok none => .error (404, "job not found")
  | .ok (some job) => found job

/-- The checks of the job ID and of the subject. -/
def withSubject (jobID : String) (next : String → ApiReply) : ApiReply :=
  if jobID = "" then .error (400, "job id required")
  else if g.uuidParse jobID = none then .error (400, "invalid job id")
  else
    match getSubject claims with
    | none => .error (403, "forbidden: authenticated subject required")
    | some userID => next userID

def handleJobsGet (jobID : String) : ApiReply :=
  if r.method ≠ "GET" then .error (405, "method not allowed")
  else withSubject g claims jobID fun userID =>
    withJob g db claims (400, "invalid job id") userID jobID fun job =>
      .job job (jobMessage job.status)

def handleJobsDelete (jobID : String) : ApiReply :=
  withSubject g claims jobID fun userID =>
    withJob g db claims (500, "failed to retrieve job") userID jobID fun _ => .cancel jobID

def parseOutputURI (uri : String) : Option (String × String) :=
  if beginsWith uri "s3://" then
    let rest := uri.toList.drop 5
    if '/' ∈ rest then
      some (String.ofList (rest.takeWhile (· ≠ '/')),
        String.ofList ((rest.dropWhile (· ≠ '/')).drop 1))
    else none
  else none

def presignOutputs (presign : String → String → Option String) :
    List String → Except HttpError (List String)
  | [] => .ok []
  | uri :: uris =>
    match parseOutputURI uri with
    | none => .error (500, "invalid output URI")
    | some (bucket, key) =>
      match presign bucket key with
      | none => .error (500, "failed to generate download URL")
      | some u => (presignOutputs presign uris).map (u :: ·)

def handleJobBatchPresign (jobID userID : String) : ApiReply :=
  if g.uuidParse jobID = none then .error (400, "invalid job id")
  else withJob g db claims (400, "invalid job id") userID jobID fun job =>
    if job.status ≠ .completed then .notComplete job.status
    else
      match getJobOutputs g.uuidParse db jobID, g.minioClient with
      | none, _ => .error (500, "failed to retrieve job outputs")
      | some _, none => .error (503, "storage not available")
      | some uris, some presign =>
        match presignOutputs presign uris with
        | .error e => .error e
        | .ok urls => .urls jobID urls

def validateDownloadKey (key : String) : Except String String :=
  let parts := key.toList.splitOn '/'
  if key = "" then .error "key is required"
  else if 512 < key.utf8ByteSize then .error "key too long"
  else if key.toList.any ['\x00', '\r', '\n'].contains then .error "key contains invalid characters"
  else if beginsWith key "/" then .error "key must not start with '/'"
  else
    match parts with
    | first :: second :: _ :: _ =>
      if first ≠ "outputs".toList then .error "key must start with 'outputs/<job_id>/'"
      else if g.uuidParse (String.ofList second) = none then .error "invalid job id in key"
      else if parts.any [[], ['.'], ['.', '.']].contains then
        .error "key contains invalid path segment"
      else if pathClean (bytesOf key) ≠ bytesOf key then .error "key contains path traversal"
      else .ok (String.ofList second)
    | _ => .error "key must start with 'outputs/<job_id>/'"

def handlePresignDownload : ApiReply :=
  match getSubject claims, r.presign with
  | none, _ => .error (403, "forbidden: authenticated subject required")
  | some _, .error e => .error e
  | some userID, .ok req =>
    if req.jobID ≠ "" then handleJobBatchPresign g db claims req.jobID userID
    else if req.key = "" then .error (400, "key or job_id required")
    else
      match g.minioClient, validateDownloadKey g req.key with
      | none, _ => .error (503, "object storage not configured")
      | some _, .error err => .error (400, err)
      | some presign, .ok jobID =>
        withJob g db claims (400, "invalid job id") userID jobID fun _ =>
          match presign "mapreduce-outputs" req.key with
          | none => .error (500, "failed to generate download URL")
          | some url => .url url

def listReply : ApiReply :=
  match handleJobsList g.uuidParse (fun u => g.arrange (db.listAPIJobs u))
      (g.arrange db.listAPIJobsAll)
      ⟨r.method, r.rawLimit, r.rawOffset, getSubject claims, hasRole claims "ADMIN"⟩ with
  | .error e => .error e
  | .ok jobs => .list (jobs.map fun job => (job, jobMessage job.status))

def Endpoint.handle : Endpoint → ApiReply
  | .jobs =>
    if r.method = "POST" then .goesOn .jobs (getSubject claims)
    else if r.method = "GET" then listReply g db r claims else .error (405, "method not allowed")
  | .deleteJob jobID => handleJobsDelete g db claims jobID
  | .getJob jobID => handleJobsGet g db r claims jobID
  | .presignDownload => handlePresignDownload g db r claims
  | e => .goesOn e (getSubject claims)

def respond : ApiReply :=
  match registerRoutes r.method r.path with
  | none => .isPublic
  | some e =>
    match g.middleware r.authorization with
    | .error err => .error err
    | .ok claims =>
      match e.authorize claims with
      | .error err => .error err
      | .ok _ => e.handle g db r claims

end Handlers

/-! ## 4. What a user sees -/

/-- The jobs of a user with their outputs. -/
def DB.view (db : DB) (userUUID : UUID) : List (ListedJob × List String) :=
  (db.jobs.rows.filter fun row => row.userID = userUUID).map fun row =>
    (db.listedJob row, queryGetJobOutputURIs db row.jobID)

section View

variable {g : Gateway} {db db' : DB} {r : HttpRequest} {claims : Claims} {userUUID j : UUID}
  {userID jobID : String}

def DB.ownJob (db : DB) (userUUID j : UUID) : Option (ListedJob × List String) :=
  ((db.jobs.get? j).filter fun row => row.userID = userUUID).map fun row =>
    (db.listedJob row, queryGetJobOutputURIs db j)

theorem mem_view {e : ListedJob × List String} :
    e ∈ db.view userUUID ∧ e.1.jobID = j ↔ db.ownJob userUUID j = some e := by
  simp only [DB.view, DB.ownJob, List.mem_map, List.mem_filter, Option.map_eq_some_iff,
    Option.filter_eq_some_iff, Table.mem_rows_iff]
  constructor
  · rintro ⟨⟨row, ⟨hrow, hu⟩, rfl⟩, rfl⟩
    exact ⟨row, ⟨hrow, hu⟩, rfl⟩
  · rintro ⟨row, ⟨hrow, hu⟩, rfl⟩
    cases Table.key_of_get? hrow
    exact ⟨⟨row, ⟨hrow, hu⟩, rfl⟩, rfl⟩

/-- The jobs of the subject are the same in both stores. -/
def SameView (g : Gateway) (claims : Claims) (db db' : DB) : Prop :=
  ∀ userID userUUID, getSubject claims = some userID →
    parseUserUUID g.uuidParse userID = .ok userUUID → db.view userUUID = db'.view userUUID

theorem ownJob_outputs {e : ListedJob × List String} (h : db.ownJob userUUID j = some e) :
    queryGetJobOutputURIs db j = e.2 := by
  obtain ⟨_, _, rfl⟩ := Option.map_eq_some_iff.mp h
  rfl

variable (hsame : SameView g claims db db') (hadmin : hasRole claims "ADMIN" = false)
include hsame hadmin

/-- The lookup finds the same job, with the same outputs. -/
theorem withJob_congr {invalid : HttpError} (hsub : getSubject claims = some userID)
    {found found' : ListedJob → ApiReply}
    (h : ∀ job, getJobOutputs g.uuidParse db jobID = getJobOutputs g.uuidParse db' jobID →
      found job = found' job) :
    withJob g db claims invalid userID jobID found =
      withJob g db' claims invalid userID jobID found' := by
  unfold withJob getJob
  rw [hadmin]
  cases hu : parseUserUUID g.uuidParse userID with
  | error err => rfl
  | ok u =>
    cases hj : g.uuidParse jobID with
    | none => rfl
    | some j =>
      have hown : db.ownJob u j = db'.ownJob u j :=
        Option.ext fun e => by rw [← mem_view, ← mem_view, hsame userID u hsub hu]
      have hfst : ∀ d : DB, ((d.jobs.get? j).filter fun row => row.userID = u).map d.listedJob =
          (d.ownJob u j).map Prod.fst := fun d => by rw [DB.ownJob, Option.map_map]; rfl
      simp only [Bool.false_eq_true, if_false, hfst, ← hown]
      cases he : db.ownJob u j with
      | none => rfl
      | some e =>
        refine h e.1 ?_
        rw [getJobOutputs, getJobOutputs, hj, Option.map_some, Option.map_some, ownJob_outputs he,
          ownJob_outputs (hown.symm.trans he)]

theorem listReply_congr : listReply g db r claims = listReply g db' r claims := by
  have hlist : ∀ (d : DB) u, d.listAPIJobs u = (d.view u).map Prod.fst := by
    intro d u
    rw [DB.view, List.map_map]
    rfl
  unfold listReply handleJobsList
  rw [hadmin]
  cases hsub : getSubject claims with
  | none => rfl
  | some userID =>
    cases hu : parseUserUUID g.uuidParse userID with
    | error err => simp only [listJobs, hu, Except.map, Bool.false_eq_true, if_false]
    | ok u =>
      simp only [listJobs, hu, Except.map, hlist, hsame userID u hsub hu, Bool.false_eq_true,
        if_false]

theorem withSubject_congr {invalid : HttpError} {found : ListedJob → ApiReply} :
    withSubject g claims jobID (fun userID => withJob g db claims invalid userID jobID found) =
      withSubject g claims jobID fun userID => withJob g db' claims invalid userID jobID found := by
  unfold withSubject
  cases hsub : getSubject claims with
  | none => rfl
  | some userID =>
    dsimp only
    rw [withJob_congr hsame hadmin hsub fun _ _ => rfl]

theorem handlePresignDownload_congr :
    handlePresignDownload g db r claims = handlePresignDownload g db' r claims := by
  unfold handlePresignDownload
  cases hsub : getSubject claims with
  | none => rfl
  | some userID =>
    cases r.presign with
    | error e => rfl
    | ok req =>
      refine ite_congr rfl (fun _ => ?_) fun _ => ite_congr rfl (fun _ => rfl) fun _ => ?_
      · exact ite_congr rfl (fun _ => rfl) fun _ =>
          withJob_congr hsame hadmin hsub fun job houts => by rw [houts]
      · cases g.minioClient with
        | none => rfl
        | some presign =>
          cases validateDownloadKey g req.key with
          | error err => rfl
          | ok jobID => exact withJob_congr hsame hadmin hsub fun _ _ => rfl

/-- What the handlers answer depends on the jobs of the subject only. -/
theorem handle_congr (e : Endpoint) : e.handle g db r claims = e.handle g db' r claims := by
  cases e with
  | jobs =>
    exact ite_congr rfl (fun _ => rfl) fun _ =>
      ite_congr rfl (fun _ => listReply_congr hsame hadmin) fun _ => rfl
  | deleteJob jobID => exact withSubject_congr hsame hadmin
  | getJob jobID => exact ite_congr rfl (fun _ => rfl) fun _ => withSubject_congr hsame hadmin
  | presignDownload => exact handlePresignDownload_congr hsame hadmin
  | _ => rfl

end View

/-- The answer to a request without the role ADMIN is the same in two stores in which the jobs of
its user are the same: so nothing of other users' jobs shows in a listing, a status, a download, a
cancellation or an error. Of a submission or an upload this says that its checks do not look at
jobs. -/
theorem tenant_view {g : Gateway} {db db' : DB} {r : HttpRequest}
    (hadmin : ∀ claims, g.middleware r.authorization = .ok claims → hasRole claims "ADMIN" = false)
    (hsame : ∀ claims, g.middleware r.authorization = .ok claims → SameView g claims db db') :
    respond g db r = respond g db' r := by
  unfold respond
  cases registerRoutes r.method r.path with
  | none => rfl
  | some e =>
    cases hclaims : g.middleware r.authorization with
    | error err => rfl
    | ok claims =>
      dsimp only
      rw [handle_congr (hsame claims hclaims) (hadmin claims hclaims)]

/-- The token of a user with the ID 1. -/
def userClaims : Claims :=
  [("sub", .text "1"), ("realm_access", .fields [("roles", .items [.text "USER"])])]

def userGateway : Gateway := ⟨soloReplica.uuidParse, fun _ => some userClaims, id, none⟩

def listRequest : HttpRequest :=
  ⟨"GET", ["api", "v1", "jobs"], "Bearer token", "", "", .error (400, "invalid presign request")⟩

/-- User 1 does not see that user 9 has a job. -/
theorem tenant_view_list :
    let db := (perform (.scheduleJob soloReplica smallJob) 1 (fun _ => false) (.initial none)).2
    db.jobs.rows ≠ [] ∧
      respond userGateway (.initial none) listRequest = respond userGateway db listRequest := by
  have hclaims : userGateway.middleware listRequest.authorization = .ok userClaims := rfl
  refine ⟨by decide +kernel, tenant_view (fun claims h => ?_) fun claims h userID u hsub hu => ?_⟩
  · cases hclaims.symm.trans h
    decide
  · cases hclaims.symm.trans h
    cases hsub
    cases hu
    decide +kernel

end KubeMapReduce
