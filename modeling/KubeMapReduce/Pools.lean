import KubeMapReduce.MapTask
import KubeMapReduce.Terminal

/-!
# Worker pools and the replicas that serve them

EnsureWorkerPool starts the workers of one job with the address of one manager, and all their
GetNextTask calls go there. GetNextTask serves a job only on the replica that JOBS.replica_index
names. The address that an operation passes is that of the replica that runs it: Recover and
FailStaleTasks look only at jobs of their own replica, but ScheduleJob runs on whichever replica
the request of the API reaches.

* `pool_reaches_owner`: when every schedule request reaches the owner of its job, every pool has
  the address of the owner, and its workers are never turned away for the wrong replica.
* `pool_misdirected`: a schedule request that reaches the other one of two replicas.
-/

namespace KubeMapReduce

open Tables Transactions Programs Runs

/-! ## 1. Owners -/

section Owner

variable {now : Time} {locked : Resource → Bool} {db db' : DB} {cs : List Change} {j : UUID}
  {r : Nat}

theorem DB.owner_changes (hcs : Changes now db cs db') (h : db.owner j = some r) :
    db'.owner j = some r := by
  refine hcs.keeps (I := fun d => d.owner j = some r) ?_ h
  rintro d c _ _ hd
  obtain ⟨row, hrow, rfl⟩ := Option.map_eq_some_iff.mp hd
  obtain ⟨row', hrow', hr, _⟩ := c.job_apply now hrow
  rw [DB.owner, hrow', Option.map_some, hr]

theorem DB.owner_step {w w' : World} {a : Label} (hs : Step w a w') (h : w.db.owner j = some r) :
    w'.db.owner j = some r := by
  obtain ⟨now, cs, _, hcs, _⟩ := step_changes hs
  exact DB.owner_changes hcs h

/-- A job keeps its owner for ever. -/
theorem DB.owner_run {w w' : World} {as : List Label} (hrun : Run Step w as w')
    (h : w.db.owner j = some r) : w'.db.owner j = some r :=
  hrun.invariant (I := fun w => w.db.owner j = some r) (fun _ _ _ h hs => DB.owner_step hs h) h

/-- The owner of a job does not turn a worker away for being the wrong replica. -/
theorem getNextTask_owner {s : Scheduler} (h : db.owner j = some s.replicaIndex) (worker : String)
    (x lease : UUID) (r r' : Nat) :
    (perform (.getNextTask s j worker x lease) now locked db).1.result ≠
      .error (.wrongReplica r r') := by
  obtain ⟨out, hout, hcases⟩ :=
    performed (c := .getNextTask s j worker x lease) rfl getNextTask_changes
  intro he
  have herr : out.result = .error (.wrongReplica r r') := by
    cases hres : out.result with
    | error e =>
      rw [hout, Outcome.map, hres] at he
      cases he
      rfl
    | ok task =>
      rw [hout, Outcome.map, hres] at he
      cases he
  rcases hcases with hr | hr | ⟨_, _, hr⟩
  · exact hr.owner r r' herr h
  · obtain ⟨e, he, hwaits⟩ := hr.error
    cases herr.symm.trans he
    rcases hwaits with hc | hc <;> cases hc
  · obtain ⟨_, hok⟩ := hr.result
    cases herr.symm.trans hok

end Owner

/-! ## 2. Addresses -/

/-- The replicas have addresses of their own. -/
structure Deployment where
  addr : Nat → String
  addr_inj : addr.Injective

/-- The replica of the step knows its address. -/
def Deployment.runs (D : Deployment) : Label → Prop
  | .call c _ _ => ∀ s ∈ c.manager?, s.managerAddr = D.addr s.replicaIndex
  | _ => True

instance (D : Deployment) (a : Label) : Decidable (D.runs a) := by
  induction a using Label.casesOn <;> dsimp only [Deployment.runs] <;> infer_instance

/-- A schedule request that succeeds has reached the owner of its job. -/
def reachesOwner (w : World) : Label → Prop
  | .call (.scheduleJob s req) now locked =>
    (perform (.scheduleJob s req) now locked w.db).1.result.isOk = true →
      ∀ j ∈ s.uuidParse req.jobID,
        (perform (.scheduleJob s req) now locked w.db).2.owner j = some s.replicaIndex
  | _ => True

instance (w : World) (a : Label) : Decidable (reachesOwner w a) := by
  induction a using Label.casesOn with
  | call c => induction c using Call.casesOn <;> dsimp only [reachesOwner] <;> infer_instance
  | _ => exact instDecidableTrue

/-- The pool that the action ensures has the address of the owner of its job. -/
def Deployment.Directs (D : Deployment) (db : DB) : PostAction → Prop
  | .ensureWorkerPool j _ addr => ∃ r, db.owner j = some r ∧ addr = D.addr r
  | _ => True

section Direct

variable {D : Deployment} {w w' : World} {a : Label}

theorem Deployment.Directs.kept {act : PostAction} (h : D.Directs w.db act) (hs : Step w a w') :
    D.Directs w'.db act := by
  cases act with
  | ensureWorkerPool j workers addr =>
    obtain ⟨r, hr, haddr⟩ := h
    exact ⟨r, DB.owner_step hs hr, haddr⟩
  | _ => trivial

/-- The pools of a call have the address of the owner. -/
theorem directs_call {c : Call} {now : Time} {locked : Resource → Bool}
    (hs : Step w (.call c now locked) w') (hD : D.runs (.call c now locked))
    (hown : reachesOwner w (.call c now locked)) {thread : List PostAction} {act : PostAction}
    (ht : thread ∈ (perform c now locked w.db).1.post) (ha : act ∈ thread) :
    D.Directs w'.db act := by
  have hpool := post_pools ht ha
  cases act with
  | ensureWorkerPool j workers addr =>
    obtain ⟨s, hm, rfl, ⟨req, rfl, hj, hok⟩ | hr⟩ := hpool
    · refine ⟨s.replicaIndex, ?_, hD s hm⟩
      rw [(step_call hs).2.2.1]
      exact hown hok j hj
    · exact ⟨s.replicaIndex, DB.owner_step hs hr, hD s hm⟩
  | _ => trivial

theorem directs_step (h : ∀ thread ∈ w.threads, ∀ act ∈ thread, D.Directs w.db act)
    (hs : Step w a w') (hD : D.runs a) (hown : reachesOwner w a) :
    ∀ thread ∈ w'.threads, ∀ act ∈ thread, D.Directs w'.db act := by
  intro thread ht act ha
  cases a with
  | call c now locked =>
    rw [(step_call hs).2.2.2.2.2] at ht
    rcases List.mem_append.mp ht with ht | ht
    · exact (h thread ht act ha).kept hs
    · exact directs_call hs hD hown ht ha
  | post i action now =>
    obtain ⟨rest, hi, _, _, _, _, hthreads⟩ := step_post hs
    rw [hthreads] at ht
    rcases List.mem_or_eq_of_mem_set ht with ht | rfl
    · exact (h thread ht act ha).kept hs
    · exact (h _ (List.mem_of_getElem? hi) act (List.mem_cons_of_mem _ ha)).kept hs
  | restart r =>
    rw [step_restart hs] at ht
    exact (h thread ht act ha).kept hs

theorem directs_run {q : Option Nat} {as : List Label}
    (h : Run (Under Step fun w a => D.runs a ∧ reachesOwner w a) (World.initial q) as w) :
    ∀ thread ∈ w.threads, ∀ act ∈ thread, D.Directs w.db act :=
  h.invariant (I := fun w => ∀ thread ∈ w.threads, ∀ act ∈ thread, D.Directs w.db act)
    (fun _ _ _ hw hs => directs_step hw hs.1 hs.2.1 hs.2.2) nofun

end Direct

/-! ## 3. Pools and their workers -/

/-- When schedule requests reach the owners of their jobs, every worker pool is started with the
address of the owner of its job, whichever replica starts it. From then on the replica with that
address never turns a worker of the job away for being the wrong one. -/
theorem pool_reaches_owner (D : Deployment) {q : Option Nat} {as : List Label} {w w' : World}
    (h : Run (Under Step fun w a => D.runs a ∧ reachesOwner w a) (World.initial q) as w)
    {i workers : Nat} {j : UUID} {addr : String} {now : Time}
    (hs : Step w (.post i (.ensureWorkerPool j workers addr) now) w') :
    (∃ row, w.db.jobs.get? j = some row ∧ addr = D.addr row.replicaIndex) ∧
    ∀ bs v s, Run Step w' bs v → s.managerAddr = D.addr s.replicaIndex → s.managerAddr = addr →
      ∀ worker x lease now locked r r',
        (perform (.getNextTask s j worker x lease) now locked v.db).1.result ≠
          .error (.wrongReplica r r') := by
  obtain ⟨rest, hi, _⟩ := step_post hs
  obtain ⟨r, hr, rfl⟩ : D.Directs w.db (.ensureWorkerPool j workers addr) :=
    directs_run h _ (List.mem_of_getElem? hi) _ List.mem_cons_self
  refine ⟨?_, fun bs v s hbs hs' haddr => ?_⟩
  · obtain ⟨row, hrow, rfl⟩ := Option.map_eq_some_iff.mp hr
    exact ⟨row, hrow, rfl⟩
  · obtain rfl : s.replicaIndex = r := D.addr_inj (hs'.symm.trans haddr)
    exact fun _ _ _ _ _ => getNextTask_owner (DB.owner_run hbs (DB.owner_step hs hr)) _ _ _

/-! ## 4. Two replicas -/

/-- The address of a replica as the StatefulSet names its pods. -/
def podAddr (r : Nat) : String := s!"manager-{r}.manager-headless.default.svc.cluster.local:50051"

def pods : Deployment where
  addr := podAddr
  addr_inj r r' h := repr_inj (by simpa [podAddr, String.append_assoc, String.append_right_inj,
    String.append_left_inj] using h)

/-- Pod `r` of two. -/
def pod (r : Nat) : Scheduler := newScheduler r 2 (podAddr r) 30 soloReplica.uuidParse

def startPod (r : Nat) : List Label :=
  [calling (.recoverFailAttempts (pod r)) 0, calling (.recoverResetTasks (pod r)) 0,
    calling (.recoverWorkerPools (pod r)) 0]

/-- The request reaches pod 0, which owns the job. -/
theorem pool_reaches_owner_direct : ∃ w w',
    Run (Under Step fun w a => pods.runs a ∧ reachesOwner w a) (World.initial none)
      (startPod 0 ++ [calling (.scheduleJob (pod 0) smallJob) 1]) w ∧
    Step w (.post 3 (.ensureWorkerPool 1 2 (podAddr 0)) 1) w' ∧
    ∀ bs v, Run Step w' bs v → ∀ worker x lease now locked r r',
      (perform (.getNextTask (pod 0) 1 worker x lease) now locked v.db).1.result ≠
        .error (.wrongReplica r r') := by
  obtain ⟨w, w', hw, hs, _, _⟩ := (run_then (by decide) : ∃ w w',
    Run (Under Step fun w a => pods.runs a ∧ reachesOwner w a) (World.initial none)
      (startPod 0 ++ [calling (.scheduleJob (pod 0) smallJob) 1]) w ∧
    Under Step (fun w a => pods.runs a ∧ reachesOwner w a) w
      (.post 3 (.ensureWorkerPool 1 2 (podAddr 0)) 1) w' ∧ True ∧ True)
  exact ⟨w, w', hw, hs.1, fun bs v hbs =>
    (pool_reaches_owner pods hw hs.1).2 bs v (pod 0) hbs rfl rfl⟩

/-- The request for a job of pod 0 reaches pod 1, which starts the workers with its own address
and then turns them away. -/
theorem pool_misdirected : ∃ w w',
    Run (Under Step fun _ a => pods.runs a) (World.initial none)
      (startPod 1 ++ [calling (.scheduleJob (pod 1) smallJob) 1]) w ∧
    Step w (.post 3 (.ensureWorkerPool 1 2 (podAddr 1)) 1) w' ∧
    w'.db.owner 1 = some 0 ∧ podAddr 1 ≠ podAddr 0 ∧
    (perform (.getNextTask (pod 1) 1 "worker" 10 20) 2 (fun _ => false) w'.db).1.result =
      .error (.wrongReplica 0 1) := by
  obtain ⟨w, w', hw, hs, _, howner, hres⟩ := (run_then (by decide) : ∃ w w',
    Run (Under Step fun _ a => pods.runs a) (World.initial none)
      (startPod 1 ++ [calling (.scheduleJob (pod 1) smallJob) 1]) w ∧
    Under Step (fun _ a => pods.runs a) w (.post 3 (.ensureWorkerPool 1 2 (podAddr 1)) 1) w' ∧
    True ∧ (w'.db.owner 1 = some 0 ∧
      (perform (.getNextTask (pod 1) 1 "worker" 10 20) 2 (fun _ => false) w'.db).1.result =
        .error (.wrongReplica 0 1)))
  exact ⟨w, w', hw, hs.1, howner, pods.addr_inj.ne (by decide), hres⟩

end KubeMapReduce
