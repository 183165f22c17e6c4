import KubeMapReduce.Finished
import KubeMapReduce.Submission

/-!
# What an answer to a submission says

Any number of submissions run in the API while the cluster goes on. CreateJob and ScheduleJob are
two transactions, the second one in another process, and a call to another process may be lost
on the way there or on the way back. The handler does not look at the result of the schedule
call.

* `submission_atomic`: a job that is accepted is in the store with all its tasks, and a job that
  is not accepted has no row, exactly if every schedule call commits and every CreateJob that
  commits is answered to an API that has the address of a manager.
* `accepted_without_tasks`: a job is accepted although the schedule call was lost.
-/

namespace KubeMapReduce

open Tables Runs Programs
open Clients (Service System ClientRule)

variable {ok : Bool} {locked : Resource → Bool} {q : Ask} {h : Handlers} {cfg : JobConfigRow}
  {resp : Response} {req : ScheduleJobRequest} {s : Scheduler} {w w' : World} {now : Time}
  {db db' : DB} {j : UUID} {cs : List Change}

/-! ## 1. The rows of a job -/

/-- Whether a job has a row, the numbers in its row of JOB_CONFIGS, and the numbers of its tasks. -/
structure Standing where
  job : Bool
  config : Option (Nat × Nat)
  maps : Nat
  reduces : Nat
deriving DecidableEq

namespace Standing

def absent : Standing := ⟨false, none, 0, 0⟩

/-- After CreateJob. -/
def created (mTasks rTasks : Nat) : Standing := ⟨true, some (mTasks, rTasks), 0, 0⟩

/-- After ScheduleJob. -/
def scheduled (mTasks rTasks : Nat) : Standing := ⟨true, some (mTasks, rTasks), mTasks, rTasks⟩

end Standing

def JobConfigRow.numbers (cfg : JobConfigRow) : Nat × Nat := (cfg.mTasks, cfg.rTasks)

def DB.standing (db : DB) (j : UUID) : Standing where
  job := (db.jobs.get? j).isSome
  config := (db.jobConfigs.get? j).map JobConfigRow.numbers
  maps := db.taskCount j .map
  reduces := db.taskCount j .reduce

theorem hasJob_changes (hcs : Changes now db cs db') (hf : ∀ c ∈ cs, c.founds ≠ some j) :
    (db'.jobs.get? j).isSome = (db.jobs.get? j).isSome := by
  induction hcs with
  | nil => rfl
  | @cons d d' _ c cs hstep _ ih =>
    obtain ⟨_, rfl⟩ := hstep
    rw [ih fun c' hc' => hf c' (List.mem_cons_of_mem _ hc')]
    cases hj : d.jobs.get? j with
    | some row =>
      obtain ⟨row', hrow', _⟩ := c.job_apply now hj
      rw [hrow']
      rfl
    | none =>
      cases hj' : (c.apply now d).jobs.get? j with
      | none => rfl
      | some row =>
        obtain rfl := Change.job_cases hj' hj
        refine absurd ?_ (hf _ List.mem_cons_self)
        exact congrArg some (Table.key_of_get? hj')

theorem hasJob_kept (hcs : Changes now db cs db') (h : (db.jobs.get? j).isSome = true) :
    (db'.jobs.get? j).isSome = true := by
  refine hcs.keeps (I := fun d => (d.jobs.get? j).isSome = true) ?_ h
  rintro d c _ _ hd
  obtain ⟨row, hrow⟩ := Option.isSome_iff_exists.mp hd
  obtain ⟨row', hrow', _⟩ := c.job_apply now hrow
  rw [hrow']
  rfl

theorem config_changes (hcs : Changes now db cs db') (hf : ∀ c ∈ cs, c.founds ≠ some j) :
    db'.jobConfigs.get? j = db.jobConfigs.get? j := by
  induction hcs with
  | nil => rfl
  | @cons d d' _ c cs hstep _ ih =>
    obtain ⟨_, rfl⟩ := hstep
    rw [ih fun c' hc' => hf c' (List.mem_cons_of_mem _ hc')]
    cases c with
    | addConfig row =>
      show (d.jobConfigs.insert row).get? j = _
      rw [Table.get?_insert, if_neg]
      exact fun he => hf _ List.mem_cons_self (congrArg some he)
    | _ => rfl

/-- Only the submission of a job adds its rows. -/
theorem standing_step {a : Label} (h : Step w a w') (hn : a.submitted ≠ some j) :
    w'.db.standing j = w.db.standing j := by
  obtain ⟨now, cs, _, hcs, hm⟩ := step_allows h
  have hfounds : ∀ c ∈ cs, c.founds ≠ some j := fun c hc hf => hn ((hm c hc).founds j hf)
  have hspare : ∀ c ∈ cs, c.Spares j := by
    intro c hc
    cases c with
    | addTask row =>
      rintro rfl
      obtain ⟨s, req, _, _, rfl, hj⟩ := (hm _ hc).makes
      exact hn hj
    | _ => trivial
  unfold DB.standing
  rw [hasJob_changes hcs hfounds, config_changes hcs hfounds, taskCount_spares hcs hspare,
    taskCount_spares hcs hspare]

theorem taskCount_eq_zero (h : db.taskCount j .map = 0) (h' : db.taskCount j .reduce = 0) :
    ¬ db.HasTask j := by
  rintro ⟨row, hrow, hj⟩
  cases hty : row.taskType with
  | map => exact List.countP_eq_zero.mp h row hrow (by simp [hj, hty])
  | reduce => exact List.countP_eq_zero.mp h' row hrow (by simp [hj, hty])

theorem numbers_configRow {input mapper reducer combiner checksum : String} {m r : Int}
    (h : Query.configRow j input mapper reducer combiner m r checksum = some cfg) :
    (cfg.mTasks : Int) = m ∧ (cfg.rTasks : Int) = r := by
  unfold Query.configRow at h
  split at h
  · next hpos =>
    cases h
    exact ⟨Int.toNat_of_nonneg hpos.1.le, Int.toNat_of_nonneg hpos.2.le⟩
  · cases h

theorem standing_founded {row : JobRow} (hcfg : cfg.jobID = row.jobID)
    (hcs : Changes now db [.addJob row, .addConfig cfg] db')
    (habs : db.standing row.jobID = .absent) :
    db'.standing row.jobID = .created cfg.mTasks cfg.rTasks := by
  have hnone : db.jobConfigs.get? row.jobID = none :=
    Option.map_eq_none_iff.mp (congrArg Standing.config habs)
  have hjob : (db'.jobs.get? row.jobID).isSome = true := by
    cases hcs with
    | cons hstep hrest =>
      obtain ⟨hg, rfl⟩ := hstep
      refine hasJob_kept hrest ?_
      show ((db.jobs.insert row).get? row.jobID).isSome = true
      rw [Table.get?_insert_self hg.1]
      rfl
  have hconfig : db'.jobConfigs.get? row.jobID = some cfg := by
    rw [configs_changes hcs]
    show (db.jobConfigs.insert cfg).get? row.jobID = some cfg
    rw [← hcfg] at hnone ⊢
    exact Table.get?_insert_self hnone
  have htasks : ∀ ty, db'.taskCount row.jobID ty = db.taskCount row.jobID ty :=
    taskCount_spares hcs (List.forall_mem_cons.mpr ⟨trivial, List.forall_mem_singleton.mpr trivial⟩)
  have hmaps : db.taskCount row.jobID .map = 0 := congrArg Standing.maps habs
  have hreduces : db.taskCount row.jobID .reduce = 0 := congrArg Standing.reduces habs
  rw [DB.standing, hjob, hconfig, htasks, htasks, hmaps, hreduces]
  rfl

/-- CreateJob is refused, or it stores the job with its numbers. -/
theorem createJob_standing {rec : JobRecord} (h : Step w (.call (.createJob s rec) now locked) w')
    (hj : s.uuidParse rec.jobID = some j) (habs : w.db.standing j = .absent) :
    (perform (.createJob s rec) now locked w.db).1.result.isOk = false ∧
      w'.db.standing j = .absent ∨
    (perform (.createJob s rec) now locked w.db).1.result.isOk = true ∧
      ∃ m r : Nat, (m : Int) = rec.mTasks ∧ (r : Int) = rec.reducers ∧
        w'.db.standing j = .created m r := by
  obtain ⟨_, _, hdb, _⟩ := step_call h
  obtain ⟨out, hout, hr | ⟨hok, _, row, cfg, hj', hcfg, hcs⟩⟩ :=
    performed (c := .createJob s rec) rfl createJob_changes
  · obtain ⟨hsame, _, e, he⟩ := hr
    refine .inl ⟨?_, ?_⟩
    · rw [hout, Outcome.map, he]
      rfl
    · rw [hdb, hsame]
      exact habs
  · cases hj.symm.trans hj'
    obtain ⟨hm, hr⟩ := numbers_configRow hcfg
    refine .inr ⟨?_, cfg.mTasks, cfg.rTasks, hm, hr, ?_⟩
    · rw [hout, Outcome.map, hok]
      rfl
    · rw [hdb]
      exact standing_founded (configRow_jobID hcfg) hcs habs

/-- ScheduleJob adds the tasks of a job that was created with the numbers of the request. -/
theorem scheduleJob_standing {m r : Nat} (h : Step w (.call (.scheduleJob s req) now locked) w')
    (hok : (perform (.scheduleJob s req) now locked w.db).1.result.isOk = true)
    (hj : s.uuidParse req.jobID = some j) (hm : (m : Int) = req.mTasks)
    (hr : (r : Int) = req.rTasks) (hst : w.db.standing j = .created m r) :
    w'.db.standing j = .scheduled m r := by
  obtain ⟨cs, hcs, hsub⟩ := scheduled_changes h hok hj
  obtain ⟨hmap, hreduce⟩ := hsub.counts hcs
  obtain ⟨row, hcfg, _⟩ := hsub.config_get? hcs
  have hmaps : w.db.taskCount j .map = 0 := congrArg Standing.maps hst
  have hreduces : w.db.taskCount j .reduce = 0 := congrArg Standing.reduces hst
  have hconfig : (w'.db.jobConfigs.get? j).map JobConfigRow.numbers = some (m, r) := by
    have hold : (w.db.jobConfigs.get? j).map JobConfigRow.numbers = some (m, r) :=
      congrArg Standing.config hst
    obtain ⟨cfg, hcfg', hnum⟩ := Option.map_eq_some_iff.mp hold
    rw [hcfg, hcfg', Option.some_or, Option.map_some, hnum]
  have hmaps' : w'.db.taskCount j .map = m := by omega
  have hreduces' : w'.db.taskCount j .reduce = r := by omega
  rw [DB.standing, hasJob_kept hcs (congrArg Standing.job hst), hconfig, hmaps', hreduces']
  rfl

/-- A schedule call that fails leaves the store. -/
theorem scheduleJob_refused (h : Step w (.call (.scheduleJob s req) now locked) w')
    (hres : (perform (.scheduleJob s req) now locked w.db).1.result.isOk = false) :
    w'.db = w.db := by
  obtain ⟨_, _, hdb, _⟩ := step_call h
  obtain ⟨out, hout, hr | ⟨hok, _⟩⟩ := performed (c := .scheduleJob s req) rfl scheduleJob_changes
  · exact hdb.trans hr.1
  · rw [hout, Outcome.map, hok] at hres
    cases hres

/-! ## 2. The calls of the API -/

/-- What is not up to the API when it makes a call: its fate, and the manager that a schedule
call reaches. -/
structure Visit where
  fate : Fate
  manager : Scheduler
  now : Time
  locked : Resource → Bool

variable {v : Visit}

/-- A transaction that is called with this fate. -/
def Visit.call (v : Visit) (c : Call) (w : World) : Option (Bool × World) :=
  match v.fate with
  | .answered => (next w (.call c v.now v.locked)).map fun w' =>
      ((perform c v.now v.locked w.db).1.result.isOk, w')
  | .lost => some (false, w)
  | .unanswered => (next w (.call c v.now v.locked)).map fun w' => (false, w')

/-- The manager of a schedule call. All processes have one UUID parser. -/
def Handlers.manager (h : Handlers) (v : Visit) : Scheduler :=
  { v.manager with uuidParse := h.store.uuidParse }

/-- The other services of the API. The store and the managers are the cluster, and jobs come to
it from the API only; what the object storage holds is left open. -/
def Handlers.service (h : Handlers) : Service World Ask Ask.Ans Label Visit where
  serve
    | .createJob rec, v, w => v.call (.createJob h.store rec) w
    | .postSchedule _ _ req, v, w => v.call (.scheduleJob (h.manager v) req) w
    | .copyObject _ _, v, w => some (decide (v.fate = .answered), w)
    | .putObject _ _, v, w => some (decide (v.fate = .answered), w)
  env w a := if a.submitted = none then next w a else none

/-- The job that a question is about. -/
def Ask.jobID? : Ask → Option String
  | .createJob rec => some rec.jobID
  | .postSchedule _ _ req => some req.jobID
  | _ => none

theorem Visit.call_cases {c : Call} (h : v.call c w = some (ok, w')) :
    v.fate = .lost ∧ ok = false ∧ w' = w ∨
    v.fate ≠ .lost ∧ Step w (.call c v.now v.locked) w' ∧
      (v.fate = .answered ∧ ok = (perform c v.now v.locked w.db).1.result.isOk ∨
        v.fate = .unanswered ∧ ok = false) := by
  unfold Visit.call at h
  split at h
  · next hf =>
    obtain ⟨w'', hs, he⟩ := Option.map_eq_some_iff.mp h
    cases he
    exact .inr ⟨by simp [hf], hs, .inl ⟨hf, rfl⟩⟩
  · next hf =>
    cases h
    exact .inl ⟨hf, rfl, rfl⟩
  · next hf =>
    obtain ⟨w'', hs, he⟩ := Option.map_eq_some_iff.mp h
    cases he
    exact .inr ⟨by simp [hf], hs, .inr ⟨hf, rfl⟩⟩

/-- A question about other jobs leaves the rows of the job alone. -/
theorem serve_other (hs : h.service.serve q v w = some (ok, w'))
    (hq : ∀ id, q.jobID? = some id → h.store.uuidParse id ≠ some j) :
    w'.db.standing j = w.db.standing j := by
  cases q with
  | createJob rec =>
    rcases Visit.call_cases hs with ⟨_, _, rfl⟩ | ⟨_, hs, _⟩
    · rfl
    · exact standing_step hs (hq _ rfl)
  | postSchedule url token req =>
    rcases Visit.call_cases hs with ⟨_, _, rfl⟩ | ⟨_, hs, _⟩
    · rfl
    · exact standing_step hs (hq _ rfl)
  | copyObject dst src =>
    cases hs
    rfl
  | putObject key content =>
    cases hs
    rfl

theorem env_other {a : Label} (hs : h.service.env w a = some w') :
    w'.db.standing j = w.db.standing j := by
  have hs : (if a.submitted = none then next w a else none) = some w' := hs
  split at hs
  · next ha =>
    refine standing_step hs ?_
    rw [ha]
    simp
  · cases hs

/-! ## 3. The course of a submission -/

/-- How far a submission has come, as its handler sees it. -/
inductive Ticket where
  | fresh
  | refused
  | created
  | asked
deriving DecidableEq

variable {t : Ticket}

/-- The request for the schedule, if the files are promoted. -/
def Handlers.scheduleRequest (h : Handlers) (r : SubmitRequest) (userID : String)
    (request : JobSubmissionRequest) : ScheduleJobRequest :=
  let files := promotedFiles userID r.jobID request request.combinerArtifact
  requestOf r.taskID r.jobID userID request files
    (buildInputBuckets h.sha256Hex h.minioClient (objectName files.inputURI) files.inputURI)

/-- The API has the address of a manager. -/
def Handlers.Addressed (h : Handlers) : Prop :=
  (buildManagerInternalURL h.managerAddr "/internal/schedule").isOk = true

/-- The submission asks for these numbers of tasks. -/
def Handlers.AsksFor (h : Handlers) (r : SubmitRequest) (mTasks rTasks : Int) : Prop :=
  ∃ request userID, r.body = .ok request ∧ r.subject = some userID ∧
    (h.scheduleRequest r userID request.withReducers).mTasks = mTasks ∧
    request.withReducers.reducers = rTasks

/-- The handler creates the job and then asks for its schedule, with the same numbers. -/
def ticket (h : Handlers) (jobID : String) (mTasks rTasks : Int) : Monitor Ask Ask.Ans Ticket where
  next
    | .fresh, .createJob _, ok => if ok then .created else .refused
    | .created, .postSchedule _ _ _, _ => .asked
    | t, _, _ => t
  ok
    | .fresh, .createJob rec =>
      rec.jobID = jobID ∧ rec.mTasks = mTasks ∧ rec.reducers = rTasks
    | .created, .postSchedule _ _ req =>
      h.Addressed ∧ req.jobID = jobID ∧ req.mTasks = mTasks ∧ req.rTasks = rTasks
    | .fresh, .copyObject _ _ => True
    | _, _ => False

/-- The answer to a submission at each point. -/
def Ticket.Answers (h : Handlers) (r : SubmitRequest) (mTasks rTasks : Int) :
    Ticket → Response → Prop
  | .fresh, resp => resp.code ≠ 202
  | .refused, resp => resp.code ≠ 202
  | .created, resp => ¬ h.Addressed ∧ resp.code = 202
  | .asked, resp => resp.code = 202 ∧ h.AsksFor r mTasks rTasks

/-- The job is in the store with these numbers, before and after its schedule. -/
def DB.CreatedWith (db : DB) (j : UUID) (mTasks rTasks : Int) : Prop :=
  ∃ m r : Nat, (m : Int) = mTasks ∧ (r : Int) = rTasks ∧ db.standing j = .created m r

def DB.ScheduledWith (db : DB) (j : UUID) (mTasks rTasks : Int) : Prop :=
  ∃ m r : Nat, (m : Int) = mTasks ∧ (r : Int) = rTasks ∧ db.standing j = .scheduled m r

/-- The rows of the job at each point, when all has gone well. -/
def Ticket.Stands (h : Handlers) (j : UUID) (mTasks rTasks : Int) (w : World) : Ticket → Prop
  | .fresh | .refused => w.db.standing j = .absent
  | .created => h.Addressed ∧ w.db.CreatedWith j mTasks rTasks
  | .asked => w.db.ScheduledWith j mTasks rTasks

/-- The job has been created, and the handler does not know it or it will not be scheduled. -/
def Ticket.Spoiled (h : Handlers) (j : UUID) (mTasks rTasks : Int) (w : World) : Ticket → Prop
  | .fresh => False
  | .created => ¬ h.Addressed ∧ w.db.CreatedWith j mTasks rTasks
  | .refused | .asked => w.db.CreatedWith j mTasks rTasks

section Congr

variable {h : Handlers} {mTasks rTasks : Int} {w w' : World} {t : Ticket}

theorem Ticket.Stands.congr (ht : t.Stands h j mTasks rTasks w)
    (hst : w'.db.standing j = w.db.standing j) : t.Stands h j mTasks rTasks w' := by
  cases t <;> simpa only [Stands, DB.CreatedWith, DB.ScheduledWith, hst] using ht

theorem Ticket.Spoiled.congr (ht : t.Spoiled h j mTasks rTasks w)
    (hst : w'.db.standing j = w.db.standing j) : t.Spoiled h j mTasks rTasks w' := by
  cases t with
  | fresh => exact ht
  | refused | created | asked => simpa only [Spoiled, DB.CreatedWith, hst] using ht

end Congr

section Handle

variable {h : Handlers} {r : SubmitRequest} {mTasks rTasks : Int}

theorem meets_ticket_created {userID : String} {request : JobSubmissionRequest}
    {files : JobFiles}
    (hm : (requestOf r.taskID r.jobID userID request files (buildInputBuckets h.sha256Hex
      h.minioClient (objectName files.inputURI) files.inputURI)).mTasks = mTasks)
    (hr : request.reducers = rTasks) (hasks : h.AsksFor r mTasks rTasks) :
    (h.createAndSchedule r userID request files).Meets (ticket h r.jobID mTasks rTasks)
      (Ticket.Answers h r mTasks rTasks) .fresh := by
  unfold Handlers.createAndSchedule
  split
  · exact .finish (by decide : (0 : Nat) ≠ 202)
  · next schedReq hbuilt =>
    obtain rfl := buildScheduleRequest_eq hbuilt
    refine .query ⟨rfl, hm, hr⟩ fun ok => ?_
    cases ok with
    | false => exact .finish (by decide : (500 : Nat) ≠ 202)
    | true =>
      dsimp only
      rw [if_pos rfl]
      refine Prog.meets_ite (fun _ => ?_) fun haddr => .finish ⟨?_, rfl⟩
      · unfold Handlers.postSchedule
        split
        · next herr =>
          refine .finish ⟨?_, rfl⟩
          unfold Handlers.Addressed
          rw [herr]
          simp [Except.isOk, Except.toBool]
        · next url hurl =>
          have haddr : h.Addressed := by
            unfold Handlers.Addressed
            rw [hurl]
            rfl
          exact .query ⟨haddr, rfl, hm, hr⟩ fun ok => .finish ⟨rfl, hasks⟩
      · unfold Handlers.Addressed
        rw [not_not.mp haddr]
        decide

/-- The handler follows the course of a submission. -/
theorem meets_ticket (hasks : ∀ request userID, r.body = .ok request →
      r.subject = some userID →
      (h.scheduleRequest r userID request.withReducers).mTasks = mTasks ∧
        request.withReducers.reducers = rTasks) :
    (h.handleJobsSubmit r).Meets (ticket h r.jobID mTasks rTasks)
      (Ticket.Answers h r mTasks rTasks) .fresh := by
  refine meets_handleJobsSubmit (fun _ _ hcode => hcode) fun request userID hbody hsub _ => ?_
  obtain ⟨hm, hr⟩ := hasks request userID hbody hsub
  refine meets_promoteJobFiles (fun _ _ _ _ => trivial) (fun _ _ _ => rfl) ?_ ?_
  · exact .finish (by decide : (500 : Nat) ≠ 202)
  · exact meets_ticket_created hm hr ⟨request, userID, hbody, hsub, hm, hr⟩

theorem ticket_jobID {jobID : String} (hok : (ticket h jobID mTasks rTasks).ok t q) :
    ∀ id, q.jobID? = some id → id = jobID := by
  cases q with
  | createJob rec =>
    rintro _ ⟨⟩
    cases t with
    | fresh => exact hok.1
    | _ => exact hok.elim
  | postSchedule url token req =>
    rintro _ ⟨⟩
    cases t with
    | created => exact hok.2.1
    | _ => exact hok.elim
  | copyObject dst src => simp [Ask.jobID?]
  | putObject key content => simp [Ask.jobID?]

/-- The numbers that a submission asks for, if it has a body and a user. -/
theorem exists_numbers (h : Handlers) (r : SubmitRequest) :
    ∃ mTasks rTasks, ∀ request userID, r.body = .ok request → r.subject = some userID →
      (h.scheduleRequest r userID request.withReducers).mTasks = mTasks ∧
        request.withReducers.reducers = rTasks := by
  cases hbody : r.body with
  | error e => exact ⟨0, 0, by simp⟩
  | ok request =>
    cases hsub : r.subject with
    | none => exact ⟨0, 0, by simp⟩
    | some userID =>
      refine ⟨(h.scheduleRequest r userID request.withReducers).mTasks,
        request.withReducers.reducers, fun _ _ hb hs => ?_⟩
      cases hb
      cases hs
      exact ⟨rfl, rfl⟩

/-- The handler asks about its own job only. -/
theorem obeys_handleJobsSubmit (h : Handlers) (r : SubmitRequest) :
    (h.handleJobsSubmit r).Obeys (only fun q => ∀ id, q.jobID? = some id → id = r.jobID) () := by
  obtain ⟨_, _, hnum⟩ := exists_numbers h r
  exact (meets_ticket hnum).obeys_only fun _ _ hok => ticket_jobID hok

end Handle

/-! ## 4. Answers -/

abbrev Submissions := System World Ask Ask.Ans Response

/-- The transaction is reached and commits, whether or not the API learns of it. -/
def Visit.commits (v : Visit) (c : Call) (db : DB) : Bool :=
  decide (v.fate ≠ .lost) && (perform c v.now v.locked db).1.result.isOk

/-- A CreateJob that commits is answered, to an API that has the address of a manager, and a
schedule call commits. The answer of the schedule call may be lost. -/
def Handlers.hears (h : Handlers) (v : Visit) (db : DB) : Ask → Prop
  | .createJob rec => v.commits (.createJob h.store rec) db = true →
      v.fate = .answered ∧ h.Addressed
  | .postSchedule _ _ req => v.commits (.scheduleJob (h.manager v) req) db = true
  | _ => True

instance (h : Handlers) (v : Visit) (db : DB) (q : Ask) : Decidable (h.hears v db q) := by
  induction q using Ask.casesOn <;> dsimp only [Handlers.hears, Handlers.Addressed] <;>
    infer_instance

/-- The condition on the calls of one submission. -/
def heard (h : Handlers) (i : Nat) (m : Submissions) : Clients.Label Label Visit → Prop
  | .env _ => True
  | .client k v =>
    match m.clients k with
    | .query q _ => k = i → h.hears v m.state.db q
    | .finish _ _ => True

instance (h : Handlers) (i : Nat) (m : Submissions) (a : Clients.Label Label Visit) :
    Decidable (heard h i m a) := by
  induction a using Clients.Label.casesOn with
  | env e => exact .isTrue trivial
  | client k v =>
    dsimp only [heard]
    split <;> infer_instance

section Answer

variable {h : Handlers} {ids : Nat → UUID} {i : Nat} {r : Nat → SubmitRequest}
  {mTasks rTasks : Int}

/-- What a call of the submission itself makes of its rows. -/
theorem own_call {m : Submissions} (hid : h.store.uuidParse (r i).jobID = some j)
    (hok : (ticket h (r i).jobID mTasks rTasks).ok t q)
    (hs : h.service.serve q v m.state = some (ok, w)) (ht : t.Stands h j mTasks rTasks m.state) :
    (h.hears v m.state.db q →
      ((ticket h (r i).jobID mTasks rTasks).next t q ok).Stands h j mTasks rTasks w) ∧
    (¬ h.hears v m.state.db q →
      ((ticket h (r i).jobID mTasks rTasks).next t q ok).Spoiled h j mTasks rTasks w) := by
  cases q with
  | createJob rec =>
    cases t with
    | fresh =>
      obtain ⟨hrec, hm, hr⟩ := hok
      have hj : h.store.uuidParse rec.jobID = some j := by rw [hrec, hid]
      -- nothing is committed
      have hnone : v.commits (.createJob h.store rec) m.state.db = false →
          h.hears v m.state.db (.createJob rec) := fun hno hc => by rw [hno] at hc; cases hc
      rcases Visit.call_cases hs with ⟨hf, rfl, rfl⟩ | ⟨hf, hstep, hans⟩
      · exact ⟨fun _ => ht, fun hn => absurd (hnone (by simp [Visit.commits, hf])) hn⟩
      · rcases createJob_standing hstep hj ht with ⟨hres, hst⟩ | ⟨hres, m', r', hm', hr', hst⟩
        · have hfalse : ok = false := by
            rcases hans with ⟨-, rfl⟩ | ⟨-, rfl⟩
            · exact hres
            · rfl
          rw [hfalse]
          exact ⟨fun _ => hst, fun hn => absurd (hnone (by simp [Visit.commits, hres])) hn⟩
        · have hcreated : w.db.CreatedWith j mTasks rTasks :=
            ⟨m', r', hm'.trans hm, hr'.trans hr, hst⟩
          have hc : v.commits (.createJob h.store rec) m.state.db = true := by
            simp [Visit.commits, hf, hres]
          rcases hans with ⟨hfate, rfl⟩ | ⟨hfate, rfl⟩
          · rw [hres]
            exact ⟨fun hh => ⟨(hh hc).2, hcreated⟩,
              fun hn => ⟨fun haddr => hn fun _ => ⟨hfate, haddr⟩, hcreated⟩⟩
          · refine ⟨fun hh => ?_, fun _ => hcreated⟩
            cases hfate.symm.trans (hh hc).1
    | _ => exact hok.elim
  | postSchedule url token req =>
    cases t with
    | created =>
      obtain ⟨-, hreq, hm, hr⟩ := hok
      obtain ⟨-, m', r', hm', hr', hst⟩ := ht
      have hkept : w.db = m.state.db →
        v.commits (.scheduleJob (h.manager v) req) m.state.db = false →
          (h.hears v m.state.db (.postSchedule url token req) →
            Ticket.asked.Stands h j mTasks rTasks w) ∧
          (¬ h.hears v m.state.db (.postSchedule url token req) →
            Ticket.asked.Spoiled h j mTasks rTasks w) := fun he hno =>
        ⟨fun hh => absurd hh (by simp [Handlers.hears, hno]),
          fun _ => ⟨m', r', hm', hr', by rw [he, hst]⟩⟩
      rcases Visit.call_cases hs with ⟨hf, -, rfl⟩ | ⟨hf, hstep, -⟩
      · exact hkept rfl (by simp [Visit.commits, hf])
      · cases hres : (perform (.scheduleJob (h.manager v) req) v.now v.locked
            m.state.db).1.result.isOk with
        | true =>
          refine ⟨fun _ => ⟨m', r', hm', hr', scheduleJob_standing hstep hres ?_ ?_ ?_ hst⟩,
            fun hn => absurd ?_ hn⟩
          · exact (congrArg h.store.uuidParse hreq).trans hid
          · exact hm'.trans hm.symm
          · exact hr'.trans hr.symm
          · simp [Handlers.hears, Visit.commits, hf, hres]
        | false => exact hkept (scheduleJob_refused hstep hres) (by simp [Visit.commits, hres])
    | _ => exact hok.elim
  | copyObject dst src =>
    cases hs
    refine ⟨fun _ => ?_, fun hn => absurd trivial hn⟩
    cases t with
    | fresh => exact ht
    | _ => exact hok.elim
  | putObject key content => cases t <;> exact hok.elim

/-- The rule for one submission among the others, for what none of the others touches. -/
theorem tracked_submission (ok : Submissions → Clients.Label Label Visit → Prop)
    (I : World → Ticket → Prop)
    (hids : ∀ k, h.store.uuidParse (r k).jobID = some (ids k)) (hne : ids.Injective)
    (hcongr : ∀ {w w' : World} {t : Ticket}, I w t →
      w'.db.standing (ids i) = w.db.standing (ids i) → I w' t)
    (hown : ∀ {m : Submissions} {v : Visit} {q cont t a s}, m.clients i = .query q cont →
      (ticket h (r i).jobID mTasks rTasks).ok t q → h.service.serve q v m.state = some (a, s) →
      ok m (.client i v) → I m.state t →
      I s ((ticket h (r i).jobID mTasks rTasks).next t q a)) :
    ClientRule (α := Response) h.service ok i (ticket h (r i).jobID mTasks rTasks)
      (fun k q => ∀ id, q.jobID? = some id → id = (r k).jobID) I where
  env hs _ hI := hcongr hI (env_other hs)
  other {m k v q cont a s t} hk _ hq hs _ hI := by
    refine hcongr hI (serve_other hs fun id hid => ?_)
    rw [hq id hid, hids k]
    exact fun he => hk (hne (Option.some.inj he))
  own hi hok hs hh hI := hown hi hok hs hh hI

theorem Ticket.Spoiled.own_none (ht : t.Spoiled h j mTasks rTasks w)
    (hok : (ticket h (r i).jobID mTasks rTasks).ok t q) : False := by
  cases t with
  | fresh => exact ht
  | refused | asked => cases q <;> exact hok
  | created =>
    cases q with
    | postSchedule url token req => exact ht.1 hok.1
    | _ => exact hok

/-- The answer fits the rows: an accepted job is in the store with the tasks that its submission
asks for, and a job that is not accepted has no row. -/
def Handlers.Fits (h : Handlers) (r : SubmitRequest) (j : UUID) (db : DB)
    (resp : Response) : Prop :=
  (resp.code = 202 → ∃ request userID, r.body = .ok request ∧ r.subject = some userID ∧
    ∃ row cfg, db.jobs.get? j = some row ∧ db.jobConfigs.get? j = some cfg ∧
      (cfg.mTasks : Int) = (h.scheduleRequest r userID request.withReducers).mTasks ∧
      (cfg.rTasks : Int) = request.withReducers.reducers ∧
      db.taskCount j .map = cfg.mTasks ∧ db.taskCount j .reduce = cfg.rTasks) ∧
  (resp.code ≠ 202 →
    db.jobs.get? j = none ∧ db.jobConfigs.get? j = none ∧ ¬ db.HasTask j)

theorem fits_of_stands {r : SubmitRequest} (ht : t.Stands h j mTasks rTasks w)
    (hans : t.Answers h r mTasks rTasks resp) : h.Fits r j w.db resp := by
  have hnone : resp.code ≠ 202 → w.db.standing j = .absent → h.Fits r j w.db resp := by
    refine fun hne hst => ⟨fun hcode => absurd hcode hne, fun _ => ⟨?_, ?_, ?_⟩⟩
    · exact Option.not_isSome_iff_eq_none.mp (Bool.eq_false_iff.mp (congrArg Standing.job hst))
    · exact Option.map_eq_none_iff.mp (congrArg Standing.config hst)
    · exact taskCount_eq_zero (congrArg Standing.maps hst) (congrArg Standing.reduces hst)
  cases t with
  | fresh | refused => exact hnone hans ht
  | created => exact absurd ht.1 hans.1
  | asked =>
    obtain ⟨hcode, request, userID, hbody, hsub, hm, hr⟩ := hans
    obtain ⟨m', r', hm', hr', hst⟩ := ht
    refine ⟨fun _ => ⟨request, userID, hbody, hsub, ?_⟩, fun hne => absurd hcode hne⟩
    obtain ⟨row, hrow⟩ := Option.isSome_iff_exists.mp (congrArg Standing.job hst)
    obtain ⟨cfg, hcfg, hnums⟩ := Option.map_eq_some_iff.mp (congrArg Standing.config hst)
    cases hnums
    exact ⟨row, cfg, hrow, hcfg, hm'.trans hm.symm, hr'.trans hr.symm, congrArg Standing.maps hst,
      congrArg Standing.reduces hst⟩

/-- A created job has a row, and no task of the one or more in its row of JOB_CONFIGS. -/
theorem not_fits_of_spoiled {r : SubmitRequest} (ht : t.Spoiled h j mTasks rTasks w)
    (hans : t.Answers h r mTasks rTasks resp) : ¬ h.Fits r j w.db resp := by
  rintro ⟨haccepted, hrefused⟩
  have hbad : resp.code = 202 → ¬ w.db.CreatedWith j mTasks rTasks := by
    rintro hcode ⟨_, _, -, -, hst⟩
    obtain ⟨_, _, _, _, _, cfg, _, _, _, _, hmaps, _⟩ := haccepted hcode
    have hzero : w.db.taskCount j .map = 0 := congrArg Standing.maps hst
    exact absurd (hmaps.symm.trans hzero) (Nat.ne_of_gt cfg.mTasks_pos)
  cases t with
  | fresh => exact ht
  | created => exact hbad hans.2 ht.2
  | asked => exact hbad hans.1 ht
  | refused =>
    obtain ⟨_, _, -, -, hst⟩ := ht
    have hsome : (w.db.jobs.get? j).isSome = true := congrArg Standing.job hst
    rw [(hrefused hans).1] at hsome
    cases hsome

/-- The answer to a submission fits the rows of its job exactly if every CreateJob of it that
commits is answered, to an API that has the address of a manager, and its schedule call commits.
Any number of submissions run beside it, with new job IDs, and every step of the cluster. What
happens to the copies, and whether the answer of the schedule call arrives, does not matter. -/
theorem submission_atomic {q : Option Nat}
    (hids : ∀ k, h.store.uuidParse (r k).jobID = some (ids k)) (hne : ids.Injective)
    {ls : List (Clients.Label Label Visit)} {m : Submissions}
    (hrun : Run h.service.Step ⟨World.initial q, fun k => h.handleJobsSubmit (r k)⟩ ls m)
    {resp : Response} (hresp : (m.clients i).result? = some resp) :
    h.Fits (r i) (ids i) m.state.db resp ↔
      Run (Under h.service.Step (heard h i)) ⟨World.initial q, fun k => h.handleJobsSubmit (r k)⟩
        ls m := by
  obtain ⟨mTasks, rTasks, hnum⟩ := exists_numbers h (r i)
  have hothers : ∀ k, k ≠ i → (h.handleJobsSubmit (r k)).Obeys
      (only fun q => ∀ id, q.jobID? = some id → id = (r k).jobID) () :=
    fun k _ => obeys_handleJobsSubmit h (r k)
  have htracked := tracked_submission (heard h i) (fun w t => t.Stands h (ids i) mTasks rTasks w)
    hids hne Ticket.Stands.congr fun hi hok hs hh hI => (own_call (hids i) hok hs hI).1 (by
      simpa only [heard, hi, forall_const] using hh)
  constructor
  · intro hfits
    refine hrun.under_or.resolve_right ?_
    rintro ⟨bs, a, cs, m₁, m₂, rfl, hbs, hs, hno, hcs⟩
    obtain ⟨t, ht, hp⟩ := htracked.run hbs hothers (t := .fresh) rfl (meets_ticket hnum)
    cases a with
    | env e => exact hno trivial
    | client k v =>
      obtain ⟨qu, cont, b, w, hk, hserve, rfl⟩ := Clients.Service.step_client hs
      have hunheard : k = i ∧ ¬ h.hears v m₁.state.db qu := by
        simpa only [heard, hk, Classical.not_imp] using hno
      obtain ⟨rfl, hunheard⟩ := hunheard
      rw [hk] at hp
      cases hp with
      | query hok hcont =>
        have hspoiled := (own_call (hids k) hok hserve ht).2 hunheard
        have hrule := tracked_submission (fun _ _ => True)
          (fun w t => t.Spoiled h (ids k) mTasks rTasks w) hids hne Ticket.Spoiled.congr
          fun _ hok _ _ hI => (hI.own_none hok).elim
        obtain ⟨t', ht', hans⟩ := hrule.run_finish
          (hcs.mono fun _ _ _ hs => ⟨hs, trivial⟩)
          (fun k' hk' => Clients.Service.obeys_run (hbs.of_under.snoc hs) k' (hothers k' hk'))
          hspoiled (by dsimp only; rw [Function.update_self]; exact hcont b) hresp
        exact not_fits_of_spoiled ht' hans hfits
  · intro hheard
    obtain ⟨t, ht, hans⟩ := htracked.run_finish hheard hothers (t := .fresh) rfl
      (meets_ticket hnum) hresp
    exact fits_of_stands ht hans

end Answer

/-! ## 5. A lost call -/

def pythonSpec (artifact entrypoint interface : String) : FunctionSpec :=
  ⟨"python", artifact, entrypoint, interface⟩

def wordCount : JobSubmissionRequest where
  filename := "in.txt"
  inputChecksum := ""
  mapper := pythonSpec "map.py" "map" mapInterface
  reducer := pythonSpec "reduce.py" "reduce" reduceInterface
  combiner := none
  reducers := 0

/-- The submission that becomes job `k`. -/
def submission (k : Nat) : SubmitRequest where
  method := "POST"
  body := .ok wordCount
  subject := some (strokes 9)
  jobID := strokes k
  taskID := fun i => strokes (k + 1 + i)
  now := 1

def promptVisit : Visit := ⟨.answered, strokeReplica, 1, fun _ => false⟩

/-- The steps of a submission until its schedule call. -/
def untilCreated (k : Nat) : List (Clients.Label Label Visit) :=
  [.client k promptVisit, .client k promptVisit, .client k promptVisit, .client k promptVisit]

def apiStart : Submissions :=
  ⟨World.initial none, fun k => smallApi.handleJobsSubmit (submission k)⟩

/-- The answer of the schedule call is lost, and the job has its tasks. -/
theorem submission_atomic_unanswered :
    ∃ ls m, Run (Under smallApi.service.Step (heard smallApi 1)) apiStart ls m ∧
      ∃ resp, (m.clients 1).result? = some resp ∧ resp.code = 202 ∧
        smallApi.Fits (submission 1) 1 m.state.db resp := by
  obtain ⟨m, hrun, hresp⟩ : ∃ m,
      Run (Under smallApi.service.Step (heard smallApi 1)) apiStart
        (untilCreated 1 ++ [.client 1 { promptVisit with fate := .unanswered }]) m ∧
      (m.clients 1).result?.map Response.code = some 202 :=
    run_toUnder (by decide +kernel)
  obtain ⟨resp, hresp, hcode⟩ := Option.map_eq_some_iff.mp hresp
  have hids : ∀ k, smallApi.store.uuidParse (submission k).jobID = some k := fun k => by
    simp [smallApi, strokeReplica, newScheduler, submission, strokes]
  exact ⟨_, m, hrun, resp, hresp, hcode,
    (submission_atomic hids (fun _ _ he => he) hrun.of_under hresp).mpr hrun⟩

/-- The schedule call is lost; the job is accepted and has no tasks. -/
theorem accepted_without_tasks :
    ∃ ls m, Run smallApi.service.Step apiStart ls m ∧
      ((m.clients 1).result?.map Response.code = some 202 ∧
        m.state.db.standing 1 = ⟨true, some (1, 1), 0, 0⟩) :=
  ⟨untilCreated 1 ++ [.client 1 { promptVisit with fate := .lost }], run_to (by decide +kernel)⟩

end KubeMapReduce
