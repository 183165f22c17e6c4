import KubeMapReduce.Lib.Client
import KubeMapReduce.Lib.Paths
import KubeMapReduce.Submission

/-!
# Worker pools in Kubernetes

The workers of a job are run by Kubernetes Jobs that have the label of the job: one pool, which any
replica of the manager may create or delete, and in older deployments one Job for each attempt. A
request to the API server is one step between the steps of the others; it may fail, and its answer
may be lost. All statements are about these Job objects. Their pods are deleted by the server in the
background.

* `Cancelling`: how far CancelJob has come. Every Job with the label is still to be deleted.
* `cancelJob_removes`: when CancelJob has returned, no Job has the label, also if a pool was created
  meanwhile.
* `ensureWorkerPool_kept`: a pool stays until its own job is cancelled.
-/

namespace KubeMapReduce

open Programs Runs Paths
open Clients (Service System)

variable {names : List String}

/-! ## 1. Names -/

def isDNSChar (c : Char) : Bool :=
  decide ('a' ≤ c) && decide (c ≤ 'z') || decide ('0' ≤ c) && decide (c ≤ '9') || decide (c = '-')

/-- `toLower` is unicode.ToLower. -/
def sanitizeForDNSLabel (toLower : Char → Char) (value : String) : String :=
  let value := (trimSpace value).toList.map toLower
  if value = [] then "task" else
  let sanitized := trim (· == '-') (value.map fun c => if isDNSChar c then c else '-')
  if sanitized = [] then "task" else String.ofList sanitized

def poolName (label : String) : String := "worker-pool-" ++ label

theorem poolName_inj {a b : String} : poolName a = poolName b ↔ a = b := by
  simp [poolName]

/-! ## 2. The API server -/

/-- A Kubernetes Job: `workers` is its parallelism and the number of its completions. -/
structure WorkerJob where
  name : String
  labels : List (String × String)
  workers : Int
  env : List (String × String)
deriving DecidableEq

inductive KubeError where
  | alreadyExists
  | notFound
  | other
deriving DecidableEq

variable {err : Option KubeError}

inductive KubeRequest where
  | create (job : WorkerJob)
  | list (key value : String)
  | delete (name : String)

abbrev KubeRequest.Ans : KubeRequest → Type
  | .list _ _ => Except KubeError (List WorkerJob)
  | _ => Option KubeError

/-- A request with this fate, when the server makes `served` of it. -/
def Fate.answer {σ α : Type} (fate : Fate) (failed : α) (s : σ) (served : α × σ) : α × σ :=
  match fate with
  | .answered => served
  | .lost => (failed, s)
  | .unanswered => (failed, served.2)

/-- The Jobs of the namespace. -/
abbrev Namespace := List WorkerJob

namespace Namespace

def named (jobs : Namespace) (name : String) : Bool := jobs.any fun w => decide (w.name = name)

def create (jobs : Namespace) (job : WorkerJob) : Option KubeError × Namespace :=
  if jobs.named job.name then (some .alreadyExists, jobs) else (none, jobs ++ [job])

def remove (jobs : Namespace) (name : String) : Namespace :=
  jobs.filter fun w => !decide (w.name = name)

def delete (jobs : Namespace) (name : String) : Option KubeError × Namespace :=
  (if jobs.named name then none else some .notFound, jobs.remove name)

end Namespace

/-- A Job may also be removed by others than the manager. -/
def kubeService : Service Namespace KubeRequest KubeRequest.Ans String Fate where
  serve
    | .create job, fate, jobs => some (fate.answer (some .other) jobs (jobs.create job))
    | .list key value, fate, jobs =>
      some (fate.answer (.error .other) jobs
        (.ok (jobs.filter fun w => w.labels.contains (key, value)), jobs))
    | .delete name, fate, jobs => some (fate.answer (some .other) jobs (jobs.delete name))
  env jobs name := some (jobs.remove name)

/-! ## 3. The calls -/

abbrev KubeProg := Prog KubeRequest KubeRequest.Ans (Option KubeError)

/-- Delete one after the other; one that is not there any more is passed over. -/
def deleteJobs : List String → KubeProg
  | [] => .finish true none
  | name :: names => .query (.delete name) fun err =>
      if err = none ∨ err = some .notFound then deleteJobs names else .finish true err

/-- The conversion of an int to an int32. -/
def toInt32 (n : Int) : Int := n.bmod 4294967296

def workerPool (label jobID : String) (numWorkers : Int) (managerAddr : String) : WorkerJob where
  name := poolName label
  labels := [("app", "kubemapreduce-worker"), ("job_id", label)]
  workers := if toInt32 numWorkers ≤ 0 then 1 else toInt32 numWorkers
  env := [("JOB_ID", jobID), ("MANAGER_ADDR", managerAddr)]

namespace KubeOrchestrator

def ensureWorkerPool (label jobID : String) (numWorkers : Int) (managerAddr : String) : KubeProg :=
  .query (.create (workerPool label jobID numWorkers managerAddr)) fun err =>
    if err = some .alreadyExists then .finish true none else .finish true err

/-- All Jobs with the label are deleted, and at last the pool by its name, in case it has no
labels. -/
def cancelJob (label : String) : KubeProg :=
  .query (.list "job_id" label) fun
    | .error e => .finish true (some e)
    | .ok jobs => deleteJobs (jobs.map WorkerJob.name ++ [poolName label])

end KubeOrchestrator

/-- The calls of the managers, with the namespace that they share. -/
abbrev Replicas := System Namespace KubeRequest KubeRequest.Ans (Option KubeError)

abbrev KubeStep := Clients.Label String Fate

inductive PoolCall where
  | ensureWorkerPool (jobID : String) (numWorkers : Int) (managerAddr : String)
  | cancelJob (jobID : String)

def PoolCall.jobID : PoolCall → String
  | .ensureWorkerPool jobID _ _ => jobID
  | .cancelJob jobID => jobID

def PoolCall.cancels : PoolCall → Bool
  | .ensureWorkerPool _ _ _ => false
  | .cancelJob _ => true

def PoolCall.label (toLower : Char → Char) (c : PoolCall) : String :=
  sanitizeForDNSLabel toLower c.jobID

def PoolCall.program (toLower : Char → Char) (c : PoolCall) : KubeProg :=
  match c with
  | .ensureWorkerPool jobID numWorkers managerAddr =>
    KubeOrchestrator.ensureWorkerPool (c.label toLower) jobID numWorkers managerAddr
  | .cancelJob _ => KubeOrchestrator.cancelJob (c.label toLower)

/-! ## 4. What a request does -/

section Serve

variable {jobs jobs' : Namespace} {fate : Fate} {w : WorkerJob} {name : String}

def WorkerJob.isFor (w : WorkerJob) (label : String) : Bool := w.labels.contains ("job_id", label)

/-- The Job is a pool as EnsureWorkerPool makes it: it has the label of a job exactly if it has the
name of its pool. -/
def WorkerJob.Pooled (w : WorkerJob) : Prop :=
  ∀ label, w.isFor label = true ↔ w.name = poolName label

theorem pooled_workerPool (label jobID : String) (n : Int) (addr : String) :
    (workerPool label jobID n addr).Pooled := by
  intro v
  simp only [workerPool, WorkerJob.isFor, poolName_inj]
  simp [eq_comm]

theorem mem_remove : w ∈ jobs.remove name ↔ w ∈ jobs ∧ w.name ≠ name := by
  simp [Namespace.remove]

theorem Fate.answer_cases {σ α : Type} {failed a : α} {s s' : σ} {served : α × σ}
    (h : fate.answer failed s served = (a, s')) :
    (s' = s ∨ s' = served.2) ∧ (a ≠ failed → (a, s') = served) := by
  cases fate with
  | answered => exact ⟨.inr (congrArg Prod.snd h.symm), fun _ => h.symm⟩
  | lost =>
    cases h
    exact ⟨.inl rfl, fun ha => absurd rfl ha⟩
  | unanswered =>
    cases h
    exact ⟨.inr rfl, fun ha => absurd rfl ha⟩

/-- Only a create request adds a worker, and only a delete request removes one. -/
theorem serve_state {q : KubeRequest} {a : q.Ans}
    (h : kubeService.serve q fate jobs = some (a, jobs')) :
    (∀ w ∈ jobs', w ∈ jobs ∨ q = .create w) ∧ ∀ w ∈ jobs, w ∈ jobs' ∨ q = .delete w.name := by
  have hkeep : (∀ w ∈ jobs, w ∈ jobs ∨ q = .create w) ∧ ∀ w ∈ jobs, w ∈ jobs ∨ q = .delete w.name :=
    ⟨fun _ hw => .inl hw, fun _ hw => .inl hw⟩
  cases q with
  | create job =>
    rcases (Fate.answer_cases (Option.some.inj h)).1 with rfl | rfl
    · exact hkeep
    · unfold Namespace.create
      split
      · exact hkeep
      · refine ⟨fun w hw => ?_, fun w hw => .inl (List.mem_append_left _ hw)⟩
        rcases List.mem_append.mp hw with hw | hw
        · exact .inl hw
        · exact .inr (congrArg _ (List.mem_singleton.mp hw).symm)
  | list key value =>
    rcases (Fate.answer_cases (Option.some.inj h)).1 with rfl | rfl
    · exact hkeep
    · exact hkeep
  | delete name =>
    rcases (Fate.answer_cases (Option.some.inj h)).1 with rfl | rfl
    · exact hkeep
    · refine ⟨fun w hw => .inl (mem_remove.mp hw).1, fun w hw => ?_⟩
      by_cases hn : w.name = name
      · exact .inr (congrArg _ hn.symm)
      · exact .inl (mem_remove.mpr ⟨hw, hn⟩)

/-- A delete request that is answered without another error has removed the worker. -/
theorem serve_delete (h : kubeService.serve (.delete name) fate jobs = some (err, jobs'))
    (herr : err = none ∨ err = some .notFound) : jobs' = jobs.remove name := by
  have h := (Fate.answer_cases (Option.some.inj h)).2 (by rcases herr with rfl | rfl <;> simp)
  exact congrArg Prod.snd h

theorem serve_list {key value : String} {found : List WorkerJob}
    (h : kubeService.serve (.list key value) fate jobs = some (.ok found, jobs')) :
    jobs' = jobs ∧ found = jobs.filter fun w => w.labels.contains (key, value) := by
  cases (Fate.answer_cases (Option.some.inj h)).2 (by simp)
  exact ⟨rfl, rfl⟩

/-- After a create request that is answered without another error there is a worker of this name. -/
theorem serve_create {job : WorkerJob}
    (h : kubeService.serve (.create job) fate jobs = some (err, jobs'))
    (herr : err = none ∨ err = some .alreadyExists) : ∃ w ∈ jobs', w.name = job.name := by
  have h := (Fate.answer_cases (Option.some.inj h)).2 (by rcases herr with rfl | rfl <;> simp)
  unfold Namespace.create at h
  split at h
  · next hnamed =>
    cases h
    simpa [Namespace.named] using hnamed
  · cases h
    exact ⟨job, List.mem_append_right _ List.mem_cons_self, rfl⟩

end Serve

/-! ## 5. The course of the calls -/

section Course

variable {jobs jobs' : Namespace} {label : String} {p : KubeProg} {q : KubeRequest}
  {k : q.Ans → KubeProg} {fate : Fate} {a : q.Ans}

/-- How far CancelJob has come: every Job with the label is still to be deleted, by the name that
was listed or as the pool. -/
inductive Cancelling (label : String) (jobs : Namespace) : KubeProg → Prop
  | listing : Cancelling label jobs (KubeOrchestrator.cancelJob label)
  | deleting {names : List String} :
      (∀ w ∈ jobs, w.isFor label = true → w.name ∈ names ++ [poolName label]) →
      Cancelling label jobs (deleteJobs (names ++ [poolName label]))
  | removed : (∀ w ∈ jobs, w.isFor label = false) → Cancelling label jobs (.finish true none)
  | failed {e : KubeError} : Cancelling label jobs (.finish true (some e))

/-- A pool that is created meanwhile is deleted at last. -/
theorem Cancelling.others (hp : Cancelling label jobs p)
    (h : ∀ w ∈ jobs', w.isFor label = true →
      w ∈ jobs ∨ w.name = poolName label ∧ p.result? = none) : Cancelling label jobs' p := by
  cases hp with
  | listing => exact .listing
  | deleting hnames =>
    refine .deleting fun w hw hfor => ?_
    rcases h w hw hfor with hw | ⟨hname, _⟩
    · exact hnames w hw hfor
    · rw [hname]
      exact List.mem_append_right _ List.mem_cons_self
  | removed hnone =>
    refine .removed fun w hw => Bool.eq_false_iff.mpr fun hfor => ?_
    rcases h w hw hfor with hw | ⟨_, hres⟩
    · exact absurd hfor (Bool.eq_false_iff.mp (hnone w hw))
    · cases hres
  | failed => exact .failed

/-- The next delete request. -/
theorem Cancelling.delete {name : String}
    (h : kubeService.serve (.delete name) fate jobs = some (err, jobs'))
    (hnames : ∀ w ∈ jobs, w.isFor label = true → w.name ∈ name :: names)
    (hlast : names = [] ∨ ∃ front, names = front ++ [poolName label]) :
    Cancelling label jobs'
      (if err = none ∨ err = some .notFound then deleteJobs names else .finish true err) := by
  split
  · next herr =>
    have hrest : ∀ w ∈ jobs', w.isFor label = true → w.name ∈ names := by
      intro w hw hfor
      rw [serve_delete h herr, mem_remove] at hw
      exact (List.mem_cons.mp (hnames w hw.1 hfor)).resolve_left hw.2
    rcases hlast with rfl | ⟨front, rfl⟩
    · exact .removed fun w hw => Bool.eq_false_iff.mpr fun hfor =>
        List.not_mem_nil (hrest w hw hfor)
    · exact .deleting hrest
  · next herr =>
    cases err with
    | none => exact absurd (.inl rfl) herr
    | some e => exact .failed

theorem Cancelling.own (hp : Cancelling label jobs p) (hq : p = .query q k)
    (h : kubeService.serve q fate jobs = some (a, jobs')) : Cancelling label jobs' (k a) := by
  cases hp with
  | listing =>
    cases hq
    cases a with
    | error e => exact .failed
    | ok found =>
      obtain ⟨rfl, rfl⟩ := serve_list h
      exact .deleting fun w hw hfor => List.mem_append_left _
        (List.mem_map_of_mem (List.mem_filter.mpr ⟨hw, hfor⟩))
  | @deleting names hnames =>
    cases names with
    | nil =>
      cases hq
      exact Cancelling.delete h hnames (.inl rfl)
    | cons name names =>
      cases hq
      exact Cancelling.delete h hnames (.inr ⟨names, rfl⟩)
  | removed => cases hq
  | failed => cases hq

theorem Cancelling.returned (hp : Cancelling label jobs p) (hr : p.result? = some none) :
    ∀ w ∈ jobs, w.isFor label = false := by
  cases hp with
  | listing => cases hr
  | @deleting names =>
    cases names with
    | nil => cases hr
    | cons => cases hr
  | removed hnone => exact hnone
  | failed => cases hr

/-- What is created is a pool, and what is deleted by its name meets `P`. -/
def KubeRequest.Within (P : String → Prop) : KubeRequest → Prop
  | .create job => job.Pooled
  | .list _ _ => True
  | .delete name => P name

theorem within_deleteJobs {P : String → Prop} (h : ∀ name ∈ names, P name) :
    (deleteJobs names).Obeys (only (KubeRequest.Within P)) () := by
  induction names with
  | nil => trivial
  | cons name names ih =>
    exact ⟨h name List.mem_cons_self, fun err => Prog.obeys_ite
      (fun _ => ih fun n hn => h n (List.mem_cons_of_mem _ hn)) fun _ => trivial⟩

theorem within_ensure (P : String → Prop) (label jobID : String) (n : Int) (addr : String) :
    (KubeOrchestrator.ensureWorkerPool label jobID n addr).Obeys (only (KubeRequest.Within P)) () :=
  ⟨pooled_workerPool _ _ _ _, fun _ => Prog.obeys_ite (fun _ => trivial) fun _ => trivial⟩

theorem within_program (toLower : Char → Char) (c : PoolCall) :
    (c.program toLower).Obeys (only (KubeRequest.Within fun _ => True)) () := by
  cases c with
  | ensureWorkerPool jobID n addr => exact within_ensure ..
  | cancelJob jobID =>
    refine ⟨trivial, fun found => ?_⟩
    cases found with
    | error e => trivial
    | ok found => exact within_deleteJobs fun _ _ => trivial

/-- A call that does not delete the pool with the label: CancelJob of another job, before it has
listed the Jobs, or a program without this request. -/
def Harmless (label : String) (p : KubeProg) : Prop :=
  (∃ other, other ≠ label ∧ p = KubeOrchestrator.cancelJob other) ∨
    p.Obeys (only (KubeRequest.Within (· ≠ poolName label))) ()

theorem Harmless.within (hp : Harmless label p) (hq : p = .query q k) :
    q.Within (· ≠ poolName label) := by
  rcases hp with ⟨other, _, rfl⟩ | hp
  · cases hq
    trivial
  · rw [hq] at hp
    exact hp.1

theorem Harmless.own (hp : Harmless label p)
    (hnamed : ∀ w ∈ jobs, w.name = poolName label → w.Pooled) (hq : p = .query q k)
    (h : kubeService.serve q fate jobs = some (a, jobs')) : Harmless label (k a) := by
  rcases hp with ⟨other, hne, rfl⟩ | hp
  · cases hq
    cases a with
    | error e => exact .inr trivial
    | ok found =>
      obtain ⟨_, rfl⟩ := serve_list h
      refine .inr (within_deleteJobs fun name hname he => hne ?_)
      rw [he] at hname
      rcases List.mem_append.mp hname with hname | hname
      · -- a Job with the name of the pool has the label of its own job only
        obtain ⟨w, hw, hwname⟩ := List.mem_map.mp hname
        obtain ⟨hw, hfor⟩ := List.mem_filter.mp hw
        exact poolName_inj.mp (((hnamed w hw hwname other).mp hfor).symm.trans hwname)
      · exact (poolName_inj.mp (List.mem_singleton.mp hname)).symm
  · rw [hq] at hp
    exact .inr (hp.2 a)

theorem harmless_program {toLower : Char → Char} {c : PoolCall}
    (h : c.cancels = true → c.label toLower ≠ label) : Harmless label (c.program toLower) := by
  cases c with
  | ensureWorkerPool jobID n addr => exact .inr (within_ensure ..)
  | cancelJob jobID => exact .inl ⟨_, h rfl, rfl⟩

end Course

/-! ## 6. Runs -/

section Runs

variable {toLower : Char → Char} {calls : Nat → PoolCall} {jobs : Namespace} {i : Nat}
  {label : String} {m m' : Replicas} {l : KubeStep} {ls : List KubeStep}

/-- The client is about to create a Job with this label. -/
def creates (label : String) : KubeProg → Bool
  | .query (.create job) _ => job.isFor label
  | _ => false

/-- Somebody else removes the Job with this name. -/
def removes (name : String) : KubeStep → Bool
  | .env n => decide (n = name)
  | .client _ _ => false

/-- No Job with this label is created after the call `i` has returned. -/
def quietAfter (i : Nat) (label : String) (m : Replicas) : KubeStep → Bool
  | .env _ => true
  | .client n _ => (m.clients i).result?.isNone || !creates label (m.clients n)

theorem cancelling_step (hs : kubeService.Step m l m') (hok : quietAfter i label m l = true)
    (hpools : ∀ n, (m.clients n).Obeys (only (KubeRequest.Within fun _ => True)) ())
    (hp : Cancelling label m.state (m.clients i)) :
    Cancelling label m'.state (m'.clients i) := by
  cases l with
  | env name =>
    obtain ⟨_, hstate, rfl⟩ := Service.step_env hs
    cases hstate
    exact hp.others fun w hw _ => .inl (mem_remove.mp hw).1
  | client n fate =>
    obtain ⟨q, k, a, jobs', hn, ha, rfl⟩ := Service.step_client hs
    by_cases he : i = n
    · subst he
      simpa using hp.own hn ha
    · dsimp only
      rw [Function.update_of_ne he]
      refine hp.others fun w hw hfor => ?_
      rcases (serve_state ha).1 w hw with hw | rfl
      · exact .inl hw
      · have hq := hpools n
        rw [hn] at hq
        rw [quietAfter, hn, creates, hfor] at hok
        exact .inr ⟨(hq.1 label).mp hfor, by simpa using hok⟩

/-- Whatever the other calls do meanwhile and whatever Jobs there were at first, pools or Jobs of
single attempts: when CancelJob has returned without an error, no Job has the label of the job. It
stays so until a pool is created for the job again. -/
theorem cancelJob_removes
    (h : Run (Under kubeService.Step fun m l => quietAfter i ((calls i).label toLower) m l = true)
      ⟨jobs, fun n => (calls n).program toLower⟩ ls m)
    (hcall : (calls i).cancels = true) (hr : (m.clients i).result? = some none) :
    ∀ w ∈ m.state, w.isFor ((calls i).label toLower) = false := by
  have hstart : Cancelling ((calls i).label toLower) jobs ((calls i).program toLower) := by
    cases hc : calls i with
    | ensureWorkerPool => cases (hc ▸ hcall : (PoolCall.ensureWorkerPool ..).cancels = true)
    | cancelJob jobID => exact .listing
  obtain ⟨_, hp⟩ := h.invariant (I := fun m =>
      (∀ n, (m.clients n).Obeys (only (KubeRequest.Within fun _ => True)) ()) ∧
        Cancelling ((calls i).label toLower) m.state (m.clients i))
    (fun s l t hI hs => ⟨fun n => Service.obeys_step hs.1 n (hI.1 n),
      cancelling_step hs.1 hs.2 hI.1 hI.2⟩)
    ⟨fun n => within_program toLower (calls n), hstart⟩
  exact hp.returned hr

/-- One call cancels a job, the others create the pool of job 7. -/
def raceCalls (cancelled : String) : Nat → PoolCall
  | 0 => .cancelJob cancelled
  | _ => .ensureWorkerPool "7" 4 "manager-0"

/-- A Job of one attempt of a task of job 7. -/
def attemptJob : WorkerJob :=
  ⟨"worker-2-10", [("app", "kubemapreduce-worker"), ("job_id", "7"), ("task_id", "2"),
    ("attempt_id", "10")], 1, []⟩

/-- The pool is created after the Jobs have been listed. -/
def raceSteps : List KubeStep :=
  [.client 0 .answered, .client 1 .answered, .client 0 .answered]

/-- The Job of an attempt is listed and deleted, and then the pool that was created meanwhile. -/
theorem cancelJob_removes_race :
    ∃ m, Run (Under kubeService.Step
        fun m l => quietAfter 0 ((raceCalls "7" 0).label id) m l = true)
      ⟨[attemptJob], fun n => (raceCalls "7" n).program id⟩ (raceSteps ++ [.client 0 .answered]) m ∧
      (m.clients 1).result? = some none ∧
      ∀ w ∈ m.state, w.isFor ((raceCalls "7" 0).label id) = false := by
  obtain ⟨m, hrun, hr, hcreated⟩ :=
    (run_toUnder (by decide +kernel) : ∃ m : Replicas,
      Run (Under kubeService.Step fun m l => quietAfter 0 ((raceCalls "7" 0).label id) m l = true)
        ⟨[attemptJob], fun n => (raceCalls "7" n).program id⟩ (raceSteps ++ [.client 0 .answered])
        m ∧
      (m.clients 0).result? = some none ∧ (m.clients 1).result? = some none)
  exact ⟨m, hrun, hcreated, cancelJob_removes hrun rfl hr⟩

/-- While no call cancels the job with the label: a Job with the name of its pool is a pool, and
there is one if EnsureWorkerPool has returned without an error. -/
structure Holding (label : String) (i : Nat) (m : Replicas) : Prop where
  named : ∀ w ∈ m.state, w.name = poolName label → w.Pooled
  harmless : ∀ n, Harmless label (m.clients n)
  ensured : (∃ jobID n addr, m.clients i = KubeOrchestrator.ensureWorkerPool label jobID n addr) ∨
    ∃ r, m.clients i = .finish true r ∧ (r = none → ∃ w ∈ m.state, w.name = poolName label)

theorem holding_step (hI : Holding label i m) (hs : kubeService.Step m l m')
    (hok : removes (poolName label) l = false) : Holding label i m' := by
  cases l with
  | env name =>
    obtain ⟨_, hstate, rfl⟩ := Service.step_env hs
    cases hstate
    refine ⟨fun w hw => hI.named w (mem_remove.mp hw).1, hI.harmless, hI.ensured.imp_right ?_⟩
    rintro ⟨r, hr, hpool⟩
    refine ⟨r, hr, fun h => ?_⟩
    obtain ⟨w, hw, hname⟩ := hpool h
    exact ⟨w, mem_remove.mpr ⟨hw, fun he =>
      of_decide_eq_false hok (he.symm.trans hname)⟩, hname⟩
  | client n fate =>
    obtain ⟨q, k, a, jobs', hn, ha, rfl⟩ := Service.step_client hs
    have hq := (hI.harmless n).within hn
    refine ⟨fun w hw hname => ?_, fun x => ?_, ?_⟩
    · rcases (serve_state ha).1 w hw with hw | rfl
      · exact hI.named w hw hname
      · exact hq
    · by_cases he : x = n
      · subst he
        simpa using (hI.harmless x).own hI.named hn ha
      · simpa [Function.update_of_ne he] using hI.harmless x
    · dsimp only
      by_cases he : i = n
      · subst he
        rw [Function.update_self]
        rcases hI.ensured with ⟨jobID, num, addr, hp⟩ | ⟨r, hr, _⟩
        · rw [hn] at hp
          cases hp
          refine .inr ?_
          dsimp only
          split
          · next herr => exact ⟨none, rfl, fun _ => serve_create ha (.inr herr)⟩
          · exact ⟨a, rfl, fun herr => serve_create ha (.inl herr)⟩
        · rw [hn] at hr
          cases hr
      · rw [Function.update_of_ne he]
        refine hI.ensured.imp_right ?_
        rintro ⟨r, hr, hpool⟩
        refine ⟨r, hr, fun h => ?_⟩
        obtain ⟨w, hw, hname⟩ := hpool h
        rcases (serve_state ha).2 w hw with hw | rfl
        · exact ⟨w, hw, hname⟩
        · exact absurd hname hq

/-- Whatever the other calls do, when EnsureWorkerPool has returned without an error there is a Job
with the label of the job, as long as no call cancels a job with this label and nobody else removes
the pool. A Job that had the name of the pool before has to be a pool itself, with its label:
EnsureWorkerPool takes it for the pool without a look at its labels. -/
theorem ensureWorkerPool_kept
    (hnamed : ∀ w ∈ jobs, w.name = poolName ((calls i).label toLower) → w.Pooled)
    (h : Run (Under kubeService.Step fun _ l =>
        removes (poolName ((calls i).label toLower)) l = false)
      ⟨jobs, fun n => (calls n).program toLower⟩ ls m)
    (hcall : (calls i).cancels = false)
    (hother : ∀ n, (calls n).cancels = true → (calls n).label toLower ≠ (calls i).label toLower)
    (hr : (m.clients i).result? = some none) :
    ∃ w ∈ m.state, w.isFor ((calls i).label toLower) = true := by
  have hstart : ∃ jobID n addr, (calls i).program toLower =
      KubeOrchestrator.ensureWorkerPool ((calls i).label toLower) jobID n addr := by
    cases hc : calls i with
    | ensureWorkerPool jobID n addr => exact ⟨jobID, n, addr, rfl⟩
    | cancelJob => cases (hc ▸ hcall : (PoolCall.cancelJob _).cancels = false)
  have hend := h.invariant (I := Holding ((calls i).label toLower) i)
    (fun _ _ _ hI hs => holding_step hI hs.1 hs.2)
    ⟨hnamed, fun n => harmless_program (hother n), .inl hstart⟩
  rcases hend.ensured with ⟨_, _, _, hp⟩ | ⟨r, hp, hpool⟩
  · rw [hp] at hr
    cases hr
  · rw [hp] at hr
    obtain ⟨w, hw, hname⟩ := hpool (Option.some.inj hr)
    exact ⟨w, hw, (hend.named w hw hname _).mpr hname⟩

theorem ensureWorkerPool_kept_race :
    ∃ m, Run (Under kubeService.Step fun _ l =>
        removes (poolName ((raceCalls "8" 1).label id)) l = false)
      ⟨[], fun n => (raceCalls "8" n).program id⟩ raceSteps m ∧
      (m.clients 0).result? = some none ∧
      ∃ w ∈ m.state, w.isFor ((raceCalls "8" 1).label id) = true := by
  obtain ⟨m, hrun, hr, hcancelled⟩ :=
    (run_toUnder (by decide +kernel) : ∃ m : Replicas,
      Run (Under kubeService.Step fun _ l =>
          removes (poolName ((raceCalls "8" 1).label id)) l = false)
        ⟨[], fun n => (raceCalls "8" n).program id⟩ raceSteps m ∧
      (m.clients 1).result? = some none ∧ (m.clients 0).result? = some none)
  refine ⟨m, hrun, hcancelled, ensureWorkerPool_kept (by simp) hrun rfl (fun n hn => ?_) hr⟩
  cases n with
  | zero => decide
  | succ n => cases hn

end Runs

end KubeMapReduce
