import KubeMapReduce.Lib.Paging
import KubeMapReduce.ReduceTask

/-!
# The listing of jobs

GET /jobs lists the jobs of a user page by page, the newest first. The query orders by created_at
only. Jobs of one timestamp have no order among them, and every page is a query of its own.

* `listJobs_pages_iff`: the pages list every job once exactly if the jobs of no timestamp lie on
  both sides of a page boundary.
-/

namespace KubeMapReduce

open Tables Paging

/-! ## 1. The query -/

/-- The fields of a job record that a listing reads. -/
structure ListedJob where
  jobID : UUID
  status : JobStatus
  filename : String
  reducers : Nat
  createdAt : Time
deriving DecidableEq

/-- A row of JOBS with the one of JOB_CONFIGS, if there is one. -/
def DB.listedJob (db : DB) (row : JobRow) : ListedJob where
  jobID := row.jobID
  status := row.status
  filename := ((db.jobConfigs.get? row.jobID).map JobConfigRow.inputURI).getD ""
  reducers := ((db.jobConfigs.get? row.jobID).map JobConfigRow.rTasks).getD 0
  createdAt := row.createdAt

/-- queryListAPIJobs before its ORDER BY. -/
def DB.listAPIJobs (db : DB) (userID : UUID) : List ListedJob :=
  (db.jobs.rows.filter fun row => row.userID = userID).map db.listedJob

/-- queryListAPIJobsAll before its ORDER BY. -/
def DB.listAPIJobsAll (db : DB) : List ListedJob := db.jobs.rows.map db.listedJob

def errInvalidUserID : String := "invalid user id"

def parseUserUUID (uuidParse : String → Option UUID) (userID : String) : Except String UUID :=
  if userID = "" then .error errInvalidUserID
  else
    match uuidParse userID with
    | some userUUID => .ok userUUID
    | none => .error errInvalidUserID

/-- ListJobs, for the order `o userUUID` that the database has chosen for the rows of this
query. -/
def listJobs (uuidParse : String → Option UUID) (o : UUID → List ListedJob) (userID : String)
    (limit offset : Nat) : Except String (List ListedJob) :=
  (parseUserUUID uuidParse userID).map fun userUUID => cut limit offset (o userUUID)

def listAllJobs (o : List ListedJob) (limit offset : Nat) : List ListedJob := cut limit offset o

/-! ## 2. The request -/

def defaultListLimit : Int := 100
def maxListLimit : Int := 500

def decimal (digits : List Char) : Option Nat :=
  if digits ≠ [] ∧ digits.all Char.isDigit then
    some (digits.foldl (fun n c => 10 * n + (c.toNat - '0'.toNat)) 0)
  else none

/-- strconv.Atoi, for an int of 64 bits. -/
def atoi (text : String) : Option Int :=
  match text.toList with
  | '-' :: digits => (decimal digits).bind fun n => if n ≤ 2 ^ 63 then some (-n) else none
  | '+' :: digits => (decimal digits).bind fun n => if n < 2 ^ 63 then some n else none
  | digits => (decimal digits).bind fun n => if n < 2 ^ 63 then some n else none

/-- The limit of a request, as its parameter is written. -/
def parseLimit (rawLimit : String) : Except String Int :=
  if trimSpace rawLimit = "" then .ok defaultListLimit
  else
    match atoi (trimSpace rawLimit) with
    | some parsedLimit =>
      if parsedLimit ≤ 0 then .error "limit must be a positive integer"
      else if maxListLimit < parsedLimit then .ok maxListLimit
      else .ok parsedLimit
    | none => .error "limit must be a positive integer"

def parseOffset (rawOffset : String) : Except String Int :=
  if trimSpace rawOffset = "" then .ok 0
  else
    match atoi (trimSpace rawOffset) with
    | some parsedOffset =>
      if parsedOffset < 0 then .error "offset must be a non-negative integer"
      else .ok parsedOffset
    | none => .error "offset must be a non-negative integer"

def parsePagination (rawLimit rawOffset : String) : Except String (Int × Int) :=
  match parseLimit rawLimit with
  | .error err => .error err
  | .ok limit => (parseOffset rawOffset).map (limit, ·)

structure ListRequest where
  method : String
  rawLimit : String
  rawOffset : String
  /-- The subject of the token, if there is one. -/
  subject : Option String
  isAdmin : Bool

/-- HandleJobsList: the code and the message of an error, or the records. -/
def handleJobsList (uuidParse : String → Option UUID) (o : UUID → List ListedJob)
    (all : List ListedJob) (r : ListRequest) : Except (Nat × String) (List ListedJob) :=
  if r.method ≠ "GET" then .error (405, "method not allowed")
  else
    match parsePagination r.rawLimit r.rawOffset with
    | .error err => .error (400, err)
    | .ok (limit, offset) =>
      match r.subject with
      | none => .error (403, "forbidden: authenticated subject required")
      | some userID =>
        if r.isAdmin then .ok (listAllJobs all limit.toNat offset.toNat)
        else
          match listJobs uuidParse o userID limit.toNat offset.toNat with
          | .error _ => .error (403, "forbidden: invalid subject")
          | .ok records => .ok records

/-! ## 3. The pages of a user -/

section Pages

variable {db : DB} {userUUID : UUID}

theorem listAPIJobs_ids (db : DB) (userUUID : UUID) :
    (db.listAPIJobs userUUID).map ListedJob.jobID =
      (db.jobs.rows.filter fun row => row.userID = userUUID).map JobRow.jobID := by
  rw [DB.listAPIJobs, List.map_map]
  rfl

theorem listAPIJobs_nodup (db : DB) (userUUID : UUID) :
    ((db.listAPIJobs userUUID).map ListedJob.jobID).Nodup := by
  rw [listAPIJobs_ids]
  exact db.jobs.nodup.sublist (List.filter_sublist.map _)

/-- The pages, read one after the other with whatever orders the database chooses, list the jobs
of the user once each. -/
def ListsOnce (db : DB) (uuidParse : String → Option UUID) (userID : String) (userUUID : UUID)
    (L : Nat) : Prop :=
  ∀ o : Nat → UUID → List ListedJob,
    (∀ k, Arranged ListedJob.createdAt (db.listAPIJobs userUUID) (o k userUUID)) →
    ∀ n, (db.listAPIJobs userUUID).length ≤ n * L →
    ∃ listed : Nat → List ListedJob,
      (∀ k, listJobs uuidParse (o k) userID L (k * L) = .ok (listed k)) ∧
      (((List.range n).flatMap listed).map ListedJob.jobID).Perm
        ((db.jobs.rows.filter fun row => row.userID = userUUID).map JobRow.jobID)

theorem listJobs_ok {uuidParse : String → Option UUID} {userID : String}
    (hu : parseUserUUID uuidParse userID = .ok userUUID) (o : UUID → List ListedJob)
    (limit offset : Nat) :
    listJobs uuidParse o userID limit offset = .ok (cut limit offset (o userUUID)) := by
  rw [listJobs, hu]
  rfl

theorem listsOnce_of_not_crosses {uuidParse : String → Option UUID} {userID : String} {L : Nat}
    (hu : parseUserUUID uuidParse userID = .ok userUUID)
    (hm : ∀ k t, ¬ Crosses ListedJob.createdAt (db.listAPIJobs userUUID) (k * L) t) :
    ListsOnce db uuidParse userID userUUID L := by
  intro o ho n hn
  refine ⟨fun k => cut L (k * L) (o k userUUID), fun k => listJobs_ok hu (o k) L (k * L), ?_⟩
  rw [← listAPIJobs_ids]
  exact (pages_perm ho hm hn).map _

/-- Page by page each job of the user is listed exactly once, whatever orders the database
chooses, exactly if there is no timestamp whose jobs lie on both sides of a page boundary. -/
theorem listJobs_pages_iff (db : DB) (uuidParse : String → Option UUID) (userID : String)
    (userUUID : UUID) (hu : parseUserUUID uuidParse userID = .ok userUUID) (L : Nat) (hL : 1 ≤ L) :
    ListsOnce db uuidParse userID userUUID L ↔
      ∀ k t, ¬ Crosses ListedJob.createdAt (db.listAPIJobs userUUID) (k * L) t := by
  constructor
  · intro h k t hc
    have hn : (db.listAPIJobs userUUID).length ≤ (db.listAPIJobs userUUID).length * L :=
      Nat.le_mul_of_pos_right _ hL
    obtain ⟨orders, horders, hrepeat⟩ := pages_repeat hc hn
    obtain ⟨listed, hlisted, hperm⟩ := h (fun k _ => orders k) horders _ hn
    rw [← listAPIJobs_ids] at hperm
    refine hrepeat (List.Nodup.of_map ListedJob.jobID ?_)
    have hpages : pages L (db.listAPIJobs userUUID).length orders =
        (List.range (db.listAPIJobs userUUID).length).flatMap listed := by
      refine congrArg (List.flatMap · _) (funext fun k => ?_)
      have heq := (listJobs_ok hu (fun _ => orders k) L (k * L)).symm.trans (hlisted k)
      exact Except.ok.inj heq
    rw [hpages]
    exact hperm.nodup_iff.mpr (listAPIJobs_nodup db userUUID)
  · exact listsOnce_of_not_crosses hu

/-- A store in which user 7 has the jobs 1 and 2, created at these times. -/
def twoJobs (t₁ t₂ : Time) : DB :=
  { DB.initial none with
    jobs := ⟨[⟨1, 7, .pending, 0, t₁, t₁⟩, ⟨2, 7, .pending, 0, t₂, t₂⟩], by simp⟩ }

/-- The rows of such a listing, which have no configuration. -/
def plainJob (jobID : UUID) (createdAt : Time) : ListedJob := ⟨jobID, .pending, "", 0, createdAt⟩

/-- Two jobs with different timestamps, a page for each. -/
theorem listJobs_pages_two :
    parseUserUUID (fun _ => some 7) "user" = .ok 7 ∧
    (twoJobs 4 5).listAPIJobs 7 = [plainJob 1 4, plainJob 2 5] ∧
    ListsOnce (twoJobs 4 5) (fun _ => some 7) "user" 7 1 := by
  refine ⟨rfl, rfl, (listJobs_pages_iff _ _ _ 7 rfl 1 le_rfl).mpr fun k t => ?_⟩
  exact not_crosses_of_nodup (by decide) _ t

/-- Two jobs with one timestamp. The query for the second page arranges them the other way round,
so that job 1 is on both pages and job 2 on none. -/
theorem listJobs_tie :
    Arranged ListedJob.createdAt ((twoJobs 5 5).listAPIJobs 7) [plainJob 1 5, plainJob 2 5] ∧
    Arranged ListedJob.createdAt ((twoJobs 5 5).listAPIJobs 7) [plainJob 2 5, plainJob 1 5] ∧
    listJobs (fun _ => some 7) (fun _ => [plainJob 1 5, plainJob 2 5]) "user" 1 0 =
      .ok [plainJob 1 5] ∧
    listJobs (fun _ => some 7) (fun _ => [plainJob 2 5, plainJob 1 5]) "user" 1 1 =
      .ok [plainJob 1 5] ∧
    ¬ ListsOnce (twoJobs 5 5) (fun _ => some 7) "user" 7 1 := by
  have hone : Arranged ListedJob.createdAt ((twoJobs 5 5).listAPIJobs 7)
      [plainJob 1 5, plainJob 2 5] := ⟨by decide, by decide⟩
  have htwo : Arranged ListedJob.createdAt ((twoJobs 5 5).listAPIJobs 7)
      [plainJob 2 5, plainJob 1 5] := ⟨by decide, by decide⟩
  refine ⟨hone, htwo, rfl, rfl, fun h => ?_⟩
  obtain ⟨listed, hlisted, hperm⟩ := h
    (fun k _ => if k = 0 then [plainJob 1 5, plainJob 2 5] else [plainJob 2 5, plainJob 1 5])
    (fun k => by
      split
      · exact hone
      · exact htwo) 2 (by decide)
  have hfirst : listed 0 = [plainJob 1 5] := (Except.ok.inj (hlisted 0)).symm
  have hsecond : listed 1 = [plainJob 1 5] := (Except.ok.inj (hlisted 1)).symm
  have hpages : (List.range 2).flatMap listed = [plainJob 1 5, plainJob 1 5] := by
    simp [List.range_succ, hfirst, hsecond]
  rw [hpages] at hperm
  exact absurd hperm (by decide)

end Pages

end KubeMapReduce
