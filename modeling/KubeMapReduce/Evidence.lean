import KubeMapReduce.Sessions

/-!
# What a transaction knows when it changes tasks

Whether a job can be left behind with all its tasks Completed depends on what a
transaction has found out, under which locks, before it changes a task, and on the count
of the pending tasks after it. `ledger` is a monitor that says it once:

* a task is reported Completed only after the JOBS row has been locked through this task
  and the task has been found In-Progress under its row lock;
* the Reduce tasks without inputs are completed only after no Map task was pending;
* a Reduce task is assigned only after those have been completed;
* a task goes back to Idle or to Failed only after it has been found In-Progress under its
  lock;
* JOBS.status becomes Running only after a task of the job has been assigned;
* a transaction that has completed tasks commits only after it has counted a pending task
  or has written Cleaning.

`work_follows` goes through every transaction but the two that submit a job, once for the ledger
and the protocol of the sessions together.
-/

namespace KubeMapReduce

open Tables Transactions Programs Prog

variable {cks us : List String} {s : Scheduler} {a j lease t : UUID}
  {heartbeats : UUID → Option Time}

/-! ## 1. The transactions on submitted jobs -/

/-- The call submits a job. -/
def Call.submits : Call → Bool
  | .createJob _ _ | .scheduleJob _ _ => true
  | _ => false

/-- A transaction on the jobs that have been submitted. -/
abbrev Work := {c : Call // c.submits = false}

def work (c : Work) : Tx Reply := code c.1

abbrev WorkSession := Session Work DB Query Query.Ans Resource (Outcome Reply)

abbrev WorkMachine := Machine Work DB Query Query.Ans Resource (Outcome Reply)

/-- The steps of these sessions. -/
abbrev WorkStep := Transactions.Step sem work

/-! ## 2. The monitor -/

/-- What a transaction has found out and done so far. -/
structure Evidence where
  /-- It has written nothing. -/
  clean : Bool
  /-- The task through which it has locked the JOBS row, and the job. -/
  jobLock : Option (UUID × UUID)
  /-- The tasks that it has locked and found In-Progress. -/
  current : List UUID
  /-- The task that it has picked, with the job and the type it asked for. -/
  picked : Option (UUID × UUID × TaskType)
  /-- The job without a pending Map task. -/
  mapsDone : Option UUID
  /-- The job whose Reduce tasks without inputs it has completed. -/
  swept : Option UUID
  /-- The job of the task that it has assigned. -/
  assigned : Option UUID
  /-- The job whose pending tasks it has to count before it commits. -/
  uncounted : Option UUID

namespace Evidence

/-- The statements that may come next. -/
def allows (m : Evidence) : Query → Prop
  | .lockJobByTask _ | .selectTaskForUpdate _ | .selectStaleTasks _
  | .countPendingTasksByType _ .map => m.clean = true
  | .completeTask t =>
    m.clean = true ∧ m.assigned = none ∧ t ∈ m.current ∧ ∃ j, m.jobLock = some (t, j)
  | .completeEmptyReduceTasks j => m.clean = true ∧ m.assigned = none ∧ m.mapsDone = some j
  | .updateTaskInProgress _ t =>
    m.assigned = none ∧ ∃ j ty, m.picked = some (t, j, ty) ∧ (ty = .reduce → m.swept = some j)
  | .updateTaskStatus st t => m.assigned = none ∧ t ∈ m.current ∧ (st = .idle ∨ st = .failed)
  | .bulkFailNonCompletedTasksByJob _ => m.assigned = none
  | .resetTasksForReplica _ => m.clean = true ∧ m.assigned = none
  | .insertOutputBulk rows => ∀ o ∈ rows, o.taskID ∈ m.current
  | .updateJobStatus j st =>
    st = .cleaning ∨ (st = .running ∧ m.assigned = some j) ∨
      (m.clean = true ∧ st ≠ .pending ∧ st ≠ .running)
  | .insertJob _ _ _ | .insertAPIJob _ _ _ _ | .insertTask _ _ _ _ => False
  | _ => True

/-- What the answer of a statement tells. -/
def next (m : Evidence) : (q : Query) → q.Ans → Evidence
  | .lockJobByTask t, some (j, _) => { m with jobLock := some (t, j) }
  | .selectTaskForUpdate t, some (.inProgress, _) => { m with current := t :: m.current }
  | .selectStaleTasks _, recs => { m with current := recs.map StaleRec.taskID ++ m.current }
  | .selectIdleTask j _ ty, some row => { m with picked := some (row.taskID, j, ty) }
  | .countPendingTasksByType j .map, n =>
    { m with mapsDone := if n = 0 then some j else m.mapsDone }
  | .completeEmptyReduceTasks j, ids =>
    { m with
      clean := false
      swept := some j
      uncounted := if ids.length = 0 then none else some j }
  | .completeTask _, _ => { m with clean := false, uncounted := m.jobLock.map Prod.snd }
  | .countAllPendingTasks j, n =>
    { m with uncounted := m.uncounted.filter fun x => decide (n = 0 ∨ x ≠ j) }
  | .updateTaskInProgress _ _, n =>
    { m with
      clean := false
      assigned := if n = 0 then m.assigned else m.picked.map fun p => p.2.1 }
  | .updateTaskStatus _ _, _ | .bulkFailNonCompletedTasksByJob _, _ | .resetTasksForReplica _, _
  | .insertOutputBulk _, _ => { m with clean := false }
  | .updateJobStatus j st, _ =>
    { m with
      clean := false
      uncounted := m.uncounted.filter fun x => decide (st ≠ .cleaning ∨ x ≠ j) }
  | _, _ => m

def start : Evidence := ⟨true, none, [], none, none, none, none, none⟩

end Evidence

def ledger : Monitor Query Query.Ans Evidence where
  next := Evidence.next
  ok := Evidence.allows

/-- The transaction follows the ledger and commits with nothing left to count. -/
abbrev Accounts {α : Type} (m : Evidence) (p : Tx α) : Prop :=
  p.Fulfils ledger (fun m => m.uncounted = none) m

/-! ## 3. Every transaction follows both monitors -/

/-- The transaction obeys the protocol and follows the ledger, and it commits with nothing left to
count. -/
abbrev Follows {α : Type} (m : Progress) (e : Evidence) (p : Tx α) : Prop :=
  p.Fulfils (protocol.prod ledger) (fun x => x.2.uncounted = none) (m, e)

namespace EvidenceLemmas

variable {α : Type} {m : Progress} {e : Evidence}

theorem follows_emit {ev : Event} {k : Tx α} (h : Follows m e k) : Follows m e (emit s ev k) :=
  fulfils_ite (fun _ => fulfils_query ⟨trivial, trivial⟩ fun _ => h) fun _ => h

theorem follows_emitAll {es : List Event} {k : Tx α} (h : Follows m e k) :
    Follows m e (emitAll s es k) := by
  induction es with
  | nil => exact h
  | cons ev es ih => exact follows_emit ih

theorem follows_commit {r : α} {post : List PostAction} (h : e.uncounted = none) :
    Follows m e (commit r post) := fun _ => h

theorem follows_hydrate {t : Task} {fail : Err → Tx α} {k : Task → Tx α}
    (hfail : Follows m e (fail .noRows)) (hk : ∀ task, Follows m e (k task)) :
    Follows m e (hydrateTaskMetadata t fail k) := by
  unfold hydrateTaskMetadata
  refine fulfils_query ⟨trivial, trivial⟩ fun cfg => ?_
  cases cfg with
  | none => exact hfail
  | some cfg =>
    dsimp only
    split
    · exact fulfils_query ⟨trivial, trivial⟩ fun _ => hk _
    · exact fulfils_query ⟨trivial, trivial⟩ fun _ => hk _

/-- The continuation of the quota check runs only if there is room. -/
theorem follows_enforceQuota {fail : Err → Tx α} {k : Tx α} (hquota : m.quota = .clean)
    (htask : m.task ≠ none) (hfail : ∀ m', Follows m' e (fail .quotaExceeded))
    (hk : Follows { m with fresh := false, quota := .room } e k) :
    Follows m e (enforceQuotaTx fail k) := by
  refine fulfils_query ⟨⟨hquota, htask⟩, trivial⟩ fun _ =>
    fulfils_query ⟨trivial, trivial⟩ fun max => fulfils_query ⟨trivial, trivial⟩ fun n =>
      fulfils_ite (fun _ => hfail _) fun hroom => ?_
  have hlt : n < max.getD DefaultMaxConcurrentPods := by
    by_contra hle
    exact hroom (if_neg hle)
  have hnext : protocol.next (protocol.next (protocol.next m .acquireSchedulingLock ())
      .getMaxConcurrentPods max) .countRunningAttempts n =
        { m with fresh := false, quota := .room } := by
    simp [protocol, Progress.next, Progress.learn, Query.takesLocks, Quota.read, Quota.count, hlt]
  rw [← hnext] at hk
  exact hk

/-- A Reduce task is picked only when the job has been swept. -/
theorem follows_tryAssignTask {s : Scheduler} {j a lease : UUID} {worker : String}
    {ty : TaskType} {fail : Err → Tx α} {k : Task → Tx α} (hquota : m.quota = .clean)
    (hnew : e.assigned = none) (hswept : ty = .reduce → e.swept = some j)
    (hfail : ∀ err m' e', err ≠ .noIdleTasks → Follows m' e' (fail err))
    (hnone : Follows { m with fresh := false } e (fail .noIdleTasks))
    (hk : ∀ task t, Follows { m with fresh := false, task := some t, quota := .inserted }
      { e with clean := false, picked := some (t, j, ty), assigned := some j } (k task)) :
    Follows m e (tryAssignTask s j worker a lease ty fail k) := by
  refine fulfils_query ⟨trivial, trivial⟩ fun row => ?_
  cases row with
  | none => exact hnone
  | some row =>
    refine fulfils_ite (fun _ => hfail _ _ _ nofun) fun _ => ?_
    refine follows_hydrate (hfail _ _ _ nofun) fun task => ?_
    refine follows_enforceQuota hquota nofun (fun _ => hfail _ _ _ nofun) ?_
    refine fulfils_query ⟨rfl, hnew, j, ty, rfl, hswept⟩ fun n =>
      fulfils_ite (fun _ => hfail _ _ _ nofun) fun hn => ?_
    refine fulfils_query ⟨rfl, trivial⟩ fun ok =>
      fulfils_ite (fun _ => ?_) fun _ => hfail _ _ _ nofun
    have hassigned : (if n = 0 then e.assigned else some j) = some j := if_neg hn
    have h := hk task row.taskID
    rw [← hassigned] at h
    exact h

/-- Whatever the sweep has completed is counted when it is over. -/
theorem follows_autoComplete {j : UUID} {k : Bool → Tx α} (hraw : m.raw = true)
    (hquota : m.quota = .clean) (hclean : e.clean = true) (hnew : e.assigned = none)
    (hmaps : e.mapsDone = some j)
    (hk : ∀ b t status, Follows { m with fresh := false, task := t, status := status }
      { e with clean := false, swept := some j, uncounted := none } (k b)) :
    Follows m e (autoCompleteEmptyReducesTx j k) := by
  have hlocks : m.quota.locks = false := by rw [hquota]; rfl
  refine fulfils_query ⟨hlocks, hclean, hnew, hmaps⟩ fun completed => ?_
  have hswept : ledger.next e (.completeEmptyReduceTasks j) completed =
      { e with
        clean := false
        swept := some j
        uncounted := if completed.length = 0 then none else some j } := rfl
  unfold Monitor.prod
  dsimp only
  rw [hswept]
  refine fulfils_ite (fun hempty => ?_) fun hempty => ?_
  · rw [if_pos hempty]
    exact hk false _ m.status
  rw [if_neg hempty]
  have htask : (completed.head?.or m.task) ≠ none := by
    cases completed with
    | nil => exact absurd rfl hempty
    | cons t ts => nofun
  refine fulfils_query ⟨trivial, trivial⟩ fun pending => fulfils_ite (fun hp => ?_) fun hp => ?_
  · subst hp
    refine fulfils_query ⟨.inl ⟨hraw, htask, .inr rfl⟩, .inl rfl⟩ fun _ => ?_
    have hpaid : ((some j).filter fun x => decide (0 = 0 ∨ x ≠ j)).filter
        (fun x => decide (JobStatus.cleaning ≠ .cleaning ∨ x ≠ j)) = none := by simp
    have h := hk true (completed.head?.or m.task) none
    rw [← hpaid] at h
    exact h
  · have hpaid : ((some j).filter fun x => decide (pending = 0 ∨ x ≠ j)) = none := by simp [hp]
    have h := hk false (completed.head?.or m.task) m.status
    rw [← hpaid] at h
    exact h

theorem follows_getNextReduceTask {worker : String} (hraw : m.raw = true)
    (hquota : m.quota = .clean) (hclean : e.clean = true) (hnew : e.assigned = none)
    (hmaps : e.mapsDone = some j) : Follows m e (getNextReduceTask s j worker a lease) := by
  refine follows_autoComplete hraw hquota hclean hnew hmaps fun b t status => ?_
  refine follows_tryAssignTask hquota hnew (fun _ => rfl) (fun err m' e' he => ?_) ?_
    fun task t => ?_
  · rw [if_pos he]
    exact fulfils_rollback
  · exact fulfils_query ⟨trivial, trivial⟩ fun n => fulfils_ite (fun _ _ => rfl) fun _ _ => rfl
  · exact fulfils_query ⟨.inl ⟨hraw, nofun, .inl rfl⟩, .inr (.inl ⟨rfl, rfl⟩)⟩ fun _ =>
      follows_commit rfl

theorem follows_getNextTask {worker : String} :
    Follows (.start (.getNextTask s j worker a lease)) .start
      (getNextTask s j worker a lease) := by
  refine fulfils_ite (fun _ => fulfils_rollback) fun _ =>
    fulfils_query ⟨trivial, trivial⟩ fun failed => fulfils_ite (fun _ => fulfils_rollback) fun _ =>
      fulfils_query ⟨trivial, trivial⟩ fun r => ?_
  cases r with
  | none => exact fulfils_rollback
  | some r =>
    refine fulfils_ite (fun _ => fulfils_rollback) fun _ => ?_
    refine follows_tryAssignTask rfl rfl nofun (fun err m' e' he => ?_) ?_ fun task t => ?_
    · rw [if_pos he]
      exact fulfils_rollback
    · refine fulfils_query ⟨trivial, rfl⟩ fun n =>
        fulfils_ite (fun _ => fulfils_rollback) fun hn => ?_
      exact follows_getNextReduceTask rfl rfl rfl rfl
        (if_pos (Nat.le_zero.mp (Nat.not_lt.mp hn)))
    · exact fulfils_query ⟨.inl ⟨rfl, nofun, .inl rfl⟩, .inr (.inl ⟨rfl, rfl⟩)⟩ fun _ =>
        follows_emit (follows_commit rfl)

theorem follows_checkCurrentAttempt {t a : UUID} {k : UUID → Tx α} (hlocks : m.quota.locks = false)
    (hclean : e.clean = true)
    (hk : ∀ j, Follows { m with fresh := false, task := some t }
      { e with current := t :: e.current } (k j)) :
    Follows m e (checkCurrentAttempt t a k) := by
  refine fulfils_query ⟨hlocks, hclean⟩ fun row => ?_
  rcases row with _ | ⟨state, cur, job⟩
  · exact fulfils_rollback
  refine fulfils_ite (fun _ => fulfils_rollback) fun hstate =>
    fulfils_ite (fun _ => fulfils_rollback) fun _ => ?_
  rw [not_not.mp hstate]
  exact hk job

theorem follows_validateLease {k : Tx α} (hk : Follows m e k) :
    Follows m e (validateLeaseTx s a lease k) := by
  refine fulfils_query ⟨trivial, trivial⟩ fun valid => ?_
  cases valid with
  | none => exact fulfils_rollback
  | some valid => exact fulfils_ite (fun _ => hk) fun _ => fulfils_rollback

theorem follows_insertOutputs {k : Tx α} (hclean : e.clean = false) (ht : t ∈ e.current)
    (hk : Follows m e k) : Follows m e (insertOutputs (outputRows t us cks) k) := by
  refine fulfils_ite (fun _ => fulfils_query ⟨trivial, ?_⟩ fun _ => ?_) fun _ => hk
  · intro o ho
    obtain ⟨p, _, rfl⟩ := List.mem_map.mp ho
    exact ht
  · have hsame : { e with clean := false } = e := by rw [← hclean]
    rw [← hsame] at hk
    exact hk

/-- A status that CompleteTask and FailTask go on with may change to Cleaning. -/
theorem cleaning_allowed {st : JobStatus} (h : ¬ (st ≠ .running ∧ st ≠ .pending)) :
    allowedJobTransitions st .cleaning = true := by
  cases st <;> first | rfl | exact absurd ⟨nofun, nofun⟩ h

theorem follows_completeTask :
    Follows (.start (.completeTask s t a lease us cks)) .start
      (completeTask s t a lease us cks) := by
  refine fulfils_ite (fun _ => fulfils_rollback) fun _ =>
    fulfils_query ⟨⟨rfl, rfl, rfl⟩, rfl⟩ fun locked => ?_
  rcases locked with _ | ⟨j, st⟩
  · exact fulfils_rollback
  refine fulfils_ite (fun _ => fulfils_rollback) fun _ =>
    fulfils_ite (fun _ => fulfils_rollback) fun hst => ?_
  refine follows_checkCurrentAttempt rfl rfl fun _ => follows_validateLease ?_
  refine fulfils_query ⟨rfl, rfl, rfl, List.mem_cons_self, j, rfl⟩ fun _ =>
    fulfils_query ⟨rfl, trivial⟩ fun _ => follows_insertOutputs rfl List.mem_cons_self
      (fulfils_query ⟨trivial, trivial⟩ fun n => ?_)
  refine fulfils_ite (fun _ => ?_) fun hn => follows_emit (follows_commit ?_)
  · refine fulfils_query ⟨.inr ⟨rfl, rfl, st, rfl, cleaning_allowed hst⟩, .inl rfl⟩ fun _ =>
      follows_emitAll (follows_commit ?_)
    show ((some j).filter fun x => decide (n = 0 ∨ x ≠ j)).filter
      (fun x => decide (JobStatus.cleaning ≠ .cleaning ∨ x ≠ j)) = none
    simp
  · show ((some j).filter fun x => decide (n = 0 ∨ x ≠ j)) = none
    simp [hn]

theorem follows_failTask {reason : String} :
    Follows (.start (.failTask s t a lease reason)) .start (failTask s t a lease reason) := by
  refine fulfils_query ⟨⟨rfl, rfl, rfl⟩, rfl⟩ fun locked => ?_
  rcases locked with _ | ⟨j, st⟩
  · exact fulfils_rollback
  refine fulfils_ite (fun _ => fulfils_rollback) fun hst => ?_
  refine follows_checkCurrentAttempt rfl rfl fun _ => follows_validateLease ?_
  refine fulfils_query ⟨trivial, trivial⟩ fun n =>
    fulfils_query ⟨rfl, rfl, List.mem_cons_self, ?_⟩ fun _ =>
      fulfils_query ⟨rfl, trivial⟩ fun _ => ?_
  · split
    · exact .inr rfl
    · exact .inl rfl
  refine fulfils_ite (fun _ => ?_) fun _ => follows_emit (follows_commit rfl)
  exact fulfils_query ⟨.inr ⟨rfl, rfl, st, rfl, cleaning_allowed hst⟩, .inl rfl⟩ fun _ =>
    follows_emitAll (follows_commit rfl)

theorem follows_renewLease {sampled : Bool} :
    Follows (.start (.renewLease s t a lease sampled)) .start (renewLease s t a lease sampled) :=
  follows_checkCurrentAttempt rfl rfl fun _ => follows_validateLease
    (fulfils_query ⟨rfl, trivial⟩ fun _ => follows_emitAll (follows_commit rfl))

theorem follows_applyJobTransition {target : JobStatus} {fail : Err → Tx α} {k : JobStatus → Tx α}
    (htarget : target ≠ .pending ∧ target ≠ .running)
    (hfail : ∀ err m', Follows m' .start (fail err))
    (hk : ∀ cur status clean, Follows ⟨false, false, some j, status, none, .clean⟩
      { Evidence.start with clean := clean } (k cur)) :
    Follows ⟨false, true, none, none, none, .clean⟩ .start
      (applyJobTransitionTx j target fail k) := by
  refine fulfils_query ⟨⟨rfl, rfl, rfl⟩, trivial⟩ fun cur => ?_
  cases cur with
  | none => exact hfail _ _
  | some cur =>
    refine fulfils_ite (fun _ => hk cur (some cur) true) fun _ => ?_
    unfold validateJobTransition
    by_cases hall : allowedJobTransitions cur target = true
    · rw [if_pos hall]
      exact fulfils_query ⟨.inr ⟨rfl, rfl, cur, rfl, hall⟩, .inr (.inr ⟨rfl, htarget⟩)⟩ fun _ =>
        hk cur none false
    · rw [if_neg hall]
      exact hfail _ _

theorem follows_cancelJob : Follows (.start (.cancelJob s j)) .start (cancelJob s j) := by
  refine follows_applyJobTransition ⟨nofun, nofun⟩ (fun err m' => ?_) fun cur status clean => ?_
  · cases err <;> exact fulfils_rollback
  · exact fulfils_query ⟨rfl, trivial⟩ fun _ => fulfils_query ⟨trivial, trivial⟩ fun _ =>
      fulfils_query ⟨rfl, rfl⟩ fun _ => fulfils_query ⟨rfl, trivial⟩ fun _ =>
        follows_emitAll (follows_commit rfl)

theorem follows_finalizeJob {ts : TerminalState} :
    Follows (.start (.finalizeJob j ts)) .start (finalizeJob j ts) := by
  refine follows_applyJobTransition ?_ (fun _ _ => fulfils_rollback) fun _ _ _ => follows_commit rfl
  cases ts <;> exact ⟨nofun, nofun⟩

/-- The reaper's loop: the tasks that it has selected stay locked. -/
theorem follows_reapTasks {clock : Time} {recs : List StaleRec} {acc : Reaped} {k : Reaped → Tx α}
    (hraw : m.raw = true) (hlocks : m.quota.locks = false) (htask : recs ≠ [] → m.task ≠ none)
    (hnew : e.assigned = none) (hcount : e.uncounted = none)
    (hcur : ∀ rec ∈ recs, rec.taskID ∈ e.current)
    (hk : ∀ acc m' e', e'.uncounted = none → Follows m' e' (k acc)) :
    Follows m e (reapTasks s heartbeats clock recs acc k) := by
  induction recs generalizing m e acc with
  | nil => exact hk _ _ _ hcount
  | cons rec rest ih =>
    have htask' : m.task ≠ none := htask (List.cons_ne_nil _ _)
    have hrest : ∀ rec ∈ rest, rec.taskID ∈ e.current := fun r hr =>
      hcur r (List.mem_cons_of_mem _ hr)
    refine fulfils_ite (fun _ => ?_) fun _ => ih hraw hlocks (fun _ => htask') hnew hcount hrest
    refine fulfils_query ⟨hlocks, hnew, hcur rec List.mem_cons_self, ?_⟩ fun _ =>
      fulfils_query ⟨hlocks, trivial⟩ fun _ => fulfils_ite (fun _ => ?_) fun _ =>
        ih hraw rfl (fun _ => htask') hnew hcount hrest
    · split
      · exact .inr rfl
      · exact .inl rfl
    · refine fulfils_query ⟨.inl ⟨hraw, htask', .inr rfl⟩, .inl rfl⟩ fun _ =>
        ih hraw rfl (fun _ => htask') hnew ?_ hrest
      show e.uncounted.filter _ = none
      rw [hcount]
      rfl

theorem follows_failStaleTasks {clock : Time} :
    Follows (.start (.failStaleTasks s heartbeats clock)) .start
      (failStaleTasks s heartbeats clock) := by
  refine fulfils_query ⟨trivial, rfl⟩ fun stales => follows_reapTasks rfl rfl
    (fun hne => ?_) rfl rfl
    (fun rec hrec => ?_) fun acc m' e' h => follows_emitAll (follows_emitAll fun _ => h)
  · cases stales with
    | nil => exact absurd rfl hne
    | cons rec rest => nofun
  · exact List.mem_append_left _ (List.mem_map_of_mem hrec)

end EvidenceLemmas

open EvidenceLemmas in
/-- Every transaction on a submitted job follows both monitors. -/
theorem work_follows (c : Work) : Follows (.start c.1) .start (work c) := by
  obtain ⟨c, hc⟩ := c
  cases c with
  | createJob s rec => cases hc
  | scheduleJob s req => cases hc
  | getNextTask s j worker a lease => exact follows_getNextTask.map
  | renewLease s t a lease sampled => exact follows_renewLease.map
  | completeTask s t a lease us cks => exact follows_completeTask.map
  | failTask s t a lease reason => exact follows_failTask.map
  | cancelJob s j => exact follows_cancelJob.map
  | failStaleTasks s heartbeats clock => exact follows_failStaleTasks.map
  | finalizeJob j ts => exact follows_finalizeJob.map
  | recoverFailAttempts s => exact ⟨⟨rfl, trivial⟩, fun _ _ => rfl⟩
  | recoverResetTasks s => exact ⟨⟨rfl, rfl, rfl⟩, fun _ _ => rfl⟩
  | recoverWorkerPools s => exact ⟨⟨trivial, trivial⟩, fun _ _ => rfl⟩
  | failRunningAttemptsByJob j => exact ⟨⟨rfl, trivial⟩, fun _ _ => rfl⟩

open SessionLemmas in
/-- Every transaction obeys the protocol from its start. -/
theorem code_obeys (c : Call) : (code c).Obeys protocol (Progress.start c) := by
  by_cases hc : c.submits = false
  · exact (work_follows ⟨c, hc⟩).fst
  · cases c with
    | createJob s rec => exact (obeys_map _ _ _ _).mpr (obeys_createJob rfl rfl)
    | scheduleJob s req => exact (obeys_map _ _ _ _).mpr (obeys_scheduleJob rfl rfl)
    | _ => exact absurd rfl hc

/-- Every transaction on a submitted job follows the ledger. -/
theorem work_fulfils (c : Work) : Accounts .start (work c) :=
  (work_follows c).snd fun e : Evidence => e.uncounted = none

end KubeMapReduce
