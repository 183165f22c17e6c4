import KubeMapReduce.Changes
import KubeMapReduce.Lib.Exits

/-!
# The operations as changes of the task board

Each operation, taken as one atomic transaction, either leaves the store as it was or
makes the changes that its theorem lists, each under its guard. The theorems follow
the programs statement by statement; everything after this module reasons about
changes only.
-/

namespace KubeMapReduce

open Tables Transactions Programs Runs Exits

variable {env : Env Resource} {c : Change} {es : List Event} {req : ScheduleJobRequest}
  {s : Scheduler} {rec : StaleRec} {workerID : String} {ty : TaskType} {a j lease t : UUID}

/-! ## 1. Statements in one piece -/

/-- The environment of a transaction in one piece. -/
abbrev atomically (now : Time) (locked : Resource → Bool) : Env Resource :=
  ⟨now, locked, fun _ => true⟩

/-- The transaction `p`, begun in `start` and now at `cur`, ends in `Φ`. -/
abbrev Leads {α : Type} (now : Time) (locked : Resource → Bool) (start : DB) (p : Tx α)
    (cur : DB) (Φ : Outcome α → DB → Prop) : Prop :=
  Ends sem (atomically now locked) start p cur Φ

section Answers

variable {now : Time} {locked : Resource → Bool} {db : DB}

theorem answer_selectTaskForUpdate (t : UUID) :
    answer (.selectTaskForUpdate t) (atomically now locked) db =
      (db.tasks.get? t).map fun row => (row.status, row.currentAttemptID, row.jobID) := by
  have h : (Query.selectTaskForUpdate t).matchedTasks (fun _ => true) db =
      (db.tasks.get? t).toList :=
    (Query.matchedTasks_all fun _ _ => rfl).trans (Table.filter_key _ _)
  simp only [answer, h]
  cases db.tasks.get? t <;> rfl

theorem answer_getJobStatusForUpdate (j : UUID) :
    answer (.getJobStatusForUpdate j) (atomically now locked) db = db.jobStatus j := by
  have h : (Query.getJobStatusForUpdate j).matchedJobs (fun _ => true) db =
      (db.jobs.get? j).toList :=
    (Query.matchedJobs_all fun _ _ => rfl).trans (Table.filter_key _ _)
  simp only [answer, h, DB.jobStatus]
  cases db.jobs.get? j <;> rfl

theorem answer_lockJobByTask (t : UUID) :
    answer (.lockJobByTask t) (atomically now locked) db =
      (db.jobOf t).bind fun j => (db.jobStatus j).map fun s => (j, s) := by
  have h : (Query.lockJobByTask t).matchedJobs (fun _ => true) db =
      db.jobs.rows.filter fun j => decide (db.jobOf t = some j.jobID) :=
    Query.matchedJobs_all fun _ _ => rfl
  simp only [answer, h]
  cases hj : db.jobOf t with
  | none => simp
  | some j =>
    have hf : (fun r : JobRow => decide (some j = some r.jobID)) =
        fun r => decide (r.jobID = j) := by
      funext r
      simp [eq_comm]
    rw [hf, Table.filter_key]
    simp only [DB.jobStatus, Option.bind_some]
    cases hr : db.jobs.get? j with
    | none => rfl
    | some r =>
      have hk := Table.key_of_get? hr
      simp [hk]

/-- All tasks of the job are Completed. -/
def DB.AllDone (db : DB) (j : UUID) : Prop :=
  ∀ t row, db.tasks.get? t = some row → row.jobID = j → row.status = .completed

/-- A task of the job is Failed. -/
def DB.HasFailed (db : DB) (j : UUID) : Prop :=
  ∃ t row, db.tasks.get? t = some row ∧ row.jobID = j ∧ row.status = .failed

theorem countFailedTasks_eq_zero : answer (.countFailedTasks j) env db = 0 ↔ ¬ db.HasFailed j := by
  simp only [answer, List.countP_eq_zero]
  constructor
  · rintro h ⟨t, row, ht, hj, hs⟩
    have hp := h row (Table.mem_of_get? ht)
    simp [hj, hs] at hp
  · intro h row hrow hp
    simp only [Bool.and_eq_true, decide_eq_true_eq] at hp
    exact h ⟨_, row, Table.mem_rows_iff.mp hrow, hp.1, hp.2⟩

theorem countAllPendingTasks_eq_zero :
    answer (.countAllPendingTasks j) env db = 0 ↔ db.AllDone j := by
  simp only [answer, List.countP_eq_zero]
  constructor
  · intro h t row ht hj
    have hp := h row (Table.mem_of_get? ht)
    simpa [hj] using hp
  · intro h row hrow hp
    simp only [Bool.and_eq_true, decide_eq_true_eq] at hp
    exact hp.2 (h _ row (Table.mem_rows_iff.mp hrow) hp.1)

theorem countPendingMapTasks_eq_zero :
    answer (.countPendingTasksByType j .map) env db = 0 ↔ db.MapsDone j := by
  simp only [answer, List.countP_eq_zero]
  constructor
  · intro h t row ht hj hty
    have hp := h row (Table.mem_of_get? ht)
    simpa [hj, hty] using hp
  · intro h row hrow hp
    simp only [Bool.and_eq_true, decide_eq_true_eq] at hp
    exact hp.2 (h _ row (Table.mem_rows_iff.mp hrow) hp.1.1 hp.1.2)

end Answers

/-! ## 2. Rules for the parts of an operation -/

section Rules

variable {α : Type} {now : Time} {locked : Resource → Bool} {start cur : DB}
  {Φ : Outcome α → DB → Prop}

theorem leads_stmt {q : Query} {k : q.Ans → Tx α}
    (h : Leads now locked start (k (answer q (atomically now locked) cur)) (q.apply now cur) Φ) :
    Leads now locked start (.query q k) cur Φ := by
  refine ends_query ?_
  have he : sem.effect q (atomically now locked) cur cur = q.apply now cur :=
    Query.effect_eq_apply fun _ _ => rfl
  rw [he]
  exact h

/-- A statement that changes nothing. -/
theorem leads_read {q : Query} {k : q.Ans → Tx α} (hq : q.apply now cur = cur)
    (h : Leads now locked start (k (answer q (atomically now locked) cur)) cur Φ) :
    Leads now locked start (.query q k) cur Φ :=
  leads_stmt (hq.symm ▸ h)

theorem leads_rollback {e : Err} (h : Φ ⟨.error e, []⟩ start) :
    Leads now locked start (rollback e) cur Φ := h

theorem leads_commit {r : α} {post : List PostAction} (h : Φ ⟨.ok r, [post]⟩ cur) :
    Leads now locked start (commit r post) cur Φ := h

/-- The events that an operation writes. -/
def logs (s : Scheduler) (es : List Event) : List Change :=
  if s.emitsEvents then es.map .log else []

theorem mem_logs (h : c ∈ logs s es) : ∃ e, c = .log e := by
  unfold logs at h
  split at h
  · obtain ⟨e, _, rfl⟩ := List.mem_map.mp h
    exact ⟨e, rfl⟩
  · cases h

theorem changes_logs_nil (s : Scheduler) (db : DB) : Changes now db (logs s []) db := by
  unfold logs
  split <;> exact .nil db

theorem leads_emitAll {k : Tx α}
    (h : ∀ db, Changes now cur (logs s es) db → Leads now locked start k db Φ) :
    Leads now locked start (emitAll s es k) cur Φ := by
  induction es generalizing cur with
  | nil => exact h cur (changes_logs_nil s cur)
  | cons e es ih =>
    refine ends_ite (fun he => leads_stmt (ih fun db hdb => h db ?_))
      fun he => ih fun db hdb => h db ?_
    · rw [logs, if_pos he] at hdb ⊢
      exact .cons ⟨trivial, rfl⟩ hdb
    · rw [logs, if_neg he] at hdb ⊢
      exact hdb

theorem leads_emit {e : Event} {k : Tx α}
    (h : ∀ db, Changes now cur (logs s [e]) db → Leads now locked start k db Φ) :
    Leads now locked start (emit s e k) cur Φ :=
  leads_emitAll h

theorem leads_checkCurrentAttempt {k : UUID → Tx α} (hfail : ∀ e, Φ ⟨.error e, []⟩ start)
    (hk : ∀ row, cur.tasks.get? t = some row → row.status = .inProgress →
      row.currentAttemptID = some a → Leads now locked start (k row.jobID) cur Φ) :
    Leads now locked start (checkCurrentAttempt t a k) cur Φ := by
  refine leads_read rfl ?_
  rw [answer_selectTaskForUpdate]
  cases ht : cur.tasks.get? t with
  | none => exact leads_rollback (hfail _)
  | some row =>
    refine ends_ite (fun _ => leads_rollback (hfail _)) fun hs => ?_
    refine ends_ite (fun _ => leads_rollback (hfail _)) fun hc => ?_
    exact hk row ht (not_not.mp hs) (not_not.mp hc)

theorem leads_validateLeaseTx {k : Tx α} (hfail : ∀ e, Φ ⟨.error e, []⟩ start)
    (hk : ∀ att, cur.attempts.get? a = some att → att.leaseID = lease →
      now ≤ att.lastRenewedAt + (att.leaseTTL + s.leaseClockSkewSeconds) * second →
      Leads now locked start k cur Φ) :
    Leads now locked start (validateLeaseTx s a lease k) cur Φ := by
  refine leads_read rfl ?_
  simp only [answer]
  cases ha : cur.attempts.get? a with
  | none => exact leads_rollback (hfail _)
  | some att =>
    refine ends_ite (fun hv => ?_) fun _ => leads_rollback (hfail _)
    simp only [Bool.and_eq_true, decide_eq_true_eq] at hv
    exact hk att ha hv.1 hv.2

/-- The locked job of a task; the operation goes on with its status. -/
theorem leads_lockJobByTask {k : Option (UUID × JobStatus) → Tx α}
    (hnone : Leads now locked start (k none) cur Φ)
    (hk : ∀ j status, cur.jobOf t = some j → cur.jobStatus j = some status →
      Leads now locked start (k (some (j, status))) cur Φ) :
    Leads now locked start (.query (.lockJobByTask t) k) cur Φ := by
  refine leads_read rfl ?_
  rw [answer_lockJobByTask]
  cases hj : cur.jobOf t with
  | none => exact hnone
  | some j =>
    cases hs : cur.jobStatus j with
    | none =>
      simp only [Option.bind_some, hs, Option.map_none]
      exact hnone
    | some status =>
      simp only [Option.bind_some, hs, Option.map_some]
      exact hk j status hj hs

theorem leads_insertOutputs {rows : List OutputRow} {k : Tx α}
    (h : Leads now locked start k { cur with outputs := cur.outputs ++ rows } Φ) :
    Leads now locked start (insertOutputs rows k) cur Φ := by
  refine ends_ite (fun _ => leads_stmt h) fun hr => ?_
  have hnil : rows = [] := List.length_eq_zero_iff.mp (Nat.le_zero.mp (Nat.not_lt.mp hr))
  rw [hnil, List.append_nil] at h
  exact h

theorem leads_applyJobTransitionTx {target : JobStatus} {fail : Err → Tx α} {k : JobStatus → Tx α}
    (hfail : ∀ e, Leads now locked start (fail e) cur Φ)
    (hsame : cur.jobStatus j = some target → Leads now locked start (k target) cur Φ)
    (hk : ∀ current, cur.jobStatus j = some current →
      allowedJobTransitions current target = true →
      Leads now locked start (k current) (cur.setJob now j target) Φ) :
    Leads now locked start (applyJobTransitionTx j target fail k) cur Φ := by
  refine leads_read rfl ?_
  rw [answer_getJobStatusForUpdate]
  cases hs : cur.jobStatus j with
  | none => exact hfail _
  | some current =>
    refine ends_ite (fun heq => ?_) fun _ => ?_
    · subst heq
      exact hsame hs
    · unfold validateJobTransition
      by_cases ha : allowedJobTransitions current target = true
      · rw [if_pos ha]
        exact leads_stmt (hk current hs ha)
      · rw [if_neg ha]
        exact hfail _

end Rules

/-! ## 3. The operations of a worker -/

section Operations

variable {now : Time} {locked : Resource → Bool} {db : DB}

theorem logs_eq {db' : DB} (h : Changes now db (logs s es) db') :
    ∃ outbox, db' = { db with outbox := outbox } := by
  have hinv : ∀ d c d', (∃ outbox, d = { db with outbox := outbox }) →
      (Change.Step now d c d' ∧ c ∈ logs s es) → ∃ outbox, d' = { db with outbox := outbox } := by
    rintro d c d' ⟨ob, rfl⟩ ⟨⟨_, rfl⟩, hc⟩
    obtain ⟨e, rfl⟩ := mem_logs hc
    exact ⟨ob ++ [e], rfl⟩
  exact (Run.under_mem h).invariant hinv ⟨db.outbox, rfl⟩

/-- A job can be moved to any later state but Running without a check on its tasks. -/
theorem step_setJob (j : UUID) (status : JobStatus) (hp : status ≠ .pending)
    (h : status ≠ .running) : Change.Step now db (.setJob j status) (db.setJob now j status) :=
  ⟨⟨hp, fun e => absurd e h⟩, rfl⟩

theorem step_cleaning (j : UUID) :
    Change.Step now db (.setJob j .cleaning) (db.setJob now j .cleaning) :=
  step_setJob j .cleaning (by decide) (by decide)

/-- The operation returned an error and left the store as it was. -/
def Refused {α : Type} (db : DB) (out : Outcome α) (db' : DB) : Prop :=
  db' = db ∧ out.post = [] ∧ ∃ e, out.result = .error e

theorem refused {α : Type} (e : Err) : Refused (α := α) db ⟨.error e, []⟩ db :=
  ⟨rfl, rfl, e, rfl⟩

theorem outputRows_taskID {us cks : List String} {o : OutputRow} (h : o ∈ outputRows t us cks) :
    o.taskID = t := by
  obtain ⟨_, _, rfl⟩ := List.mem_map.mp h
  rfl

theorem running_of_open {status : JobStatus} (h : db.jobStatus j = some status)
    (hopen : ¬ (status ≠ .running ∧ status ≠ .pending)) :
    db.jobStatus j = some .running ∨ db.jobStatus j = some .pending := by
  rw [h]
  cases status <;> simp at hopen ⊢

/-- CompleteTask or FailTask accepts the report of an attempt: the change `c` ends it and `e` is its
event. If the report also `closes` the job, it is enqueued to be finalized with `status`. -/
structure Reported (s : Scheduler) (now : Time) (db : DB) (t a j : UUID) (c : Change) (e : Event)
    (status : JobStatus) (closes : Prop) (out : Outcome Unit) (db' : DB) : Prop where
  result : out.result = .ok ()
  current : ∃ row att, Change.Current db t a row att ∧ row.jobID = j
  running : db.jobStatus j = some .running ∨ db.jobStatus j = some .pending
  course : Changes now db (c :: logs s [e]) db' ∧ out.post = [[.deleteHeartbeat a]] ∨
    closes ∧ Changes now db (c :: .setJob j .cleaning ::
        logs s [e, .jobStateChanged j .running .cleaning]) db' ∧
      out.post = [[.deleteHeartbeat a, .enqueueCleanup j status]]

theorem Reported.job {c : Change} {e : Event} {status : JobStatus} {closes : Prop}
    {out : Outcome Unit} {db' : DB} (h : Reported s now db t a j c e status closes out db') :
    db.jobOf t = some j := by
  obtain ⟨row, _, hcur, rfl⟩ := h.current
  rw [DB.jobOf, hcur.task, Option.map_some]

/-- CompleteTask is refused, or completes its task under its own attempt and lease; the
job goes to Cleaning when no task of it is pending any more. -/
theorem completeTask_changes {us cks : List String} :
    Leads now locked db (completeTask s t a lease us cks) db fun out db' =>
      Refused db out db' ∨
      us.length = cks.length ∧ ∃ j, Reported s now db t a j
        (.complete t a lease s.leaseClockSkewSeconds (outputRows t us cks))
        (.attemptCompleted t j a (toString a)) .completed (db'.AllDone j) out db' := by
  refine ends_ite (fun _ => leads_rollback (.inl (refused _))) fun hlen => ?_
  refine leads_lockJobByTask (leads_rollback (.inl (refused _))) fun j status hj hstatus => ?_
  refine ends_ite (fun _ => leads_rollback (.inl (refused _))) fun _ => ?_
  refine ends_ite (fun _ => leads_rollback (.inl (refused _))) fun hopen => ?_
  refine leads_checkCurrentAttempt (fun e => .inl (refused e)) fun row hrow hrun hcur => ?_
  refine leads_validateLeaseTx (fun e => .inl (refused e)) fun att hatt hlease hnow => ?_
  refine leads_stmt (leads_stmt (leads_insertOutputs (leads_read rfl ?_)))
  have hcurrent : Change.Current db t a row att := ⟨hrow, hrun, hcur, hatt⟩
  obtain rfl : row.jobID = j := by simpa [DB.jobOf, hrow] using hj
  have hrunning := running_of_open hstatus hopen
  have hstep : Change.Step now db
      (.complete t a lease s.leaseClockSkewSeconds (outputRows t us cks)) _ :=
    ⟨⟨fun o ho => outputRows_taskID ho, row, att, hcurrent, hlease, hnow, hrunning⟩, rfl⟩
  refine ends_ite (fun hpend => leads_stmt (leads_emitAll fun db' hdb' => leads_commit ?_))
    fun _ => leads_emit fun db' hdb' => leads_commit ?_
  · have hdone := countAllPendingTasks_eq_zero.mp hpend
    refine .inr ⟨not_not.mp hlen, _, rfl, ⟨row, att, hcurrent, rfl⟩, hrunning,
      .inr ⟨?_, .cons hstep (.cons (step_cleaning _) hdb'), rfl⟩⟩
    obtain ⟨ob, rfl⟩ := logs_eq hdb'
    exact hdone
  · exact .inr ⟨not_not.mp hlen, _, rfl, ⟨row, att, hcurrent, rfl⟩, hrunning,
      .inl ⟨.cons hstep hdb', rfl⟩⟩

theorem renewLease_changes {sampled : Bool} :
    Leads now locked db (renewLease s t a lease sampled) db fun out db' =>
      Refused db out db' ∨
      out.result = .ok () ∧ out.post = [[.storeHeartbeat a]] ∧
        ∃ row att, Change.Current db t a row att ∧ att.leaseID = lease ∧
          now ≤ att.lastRenewedAt + (att.leaseTTL + s.leaseClockSkewSeconds) * second ∧
          Changes now db (.renew a ::
            logs s (if sampled then [.heartbeatReceived t row.jobID a] else [])) db' := by
  refine leads_checkCurrentAttempt (fun e => .inl (refused e)) fun row hrow hrun hcur => ?_
  refine leads_validateLeaseTx (fun e => .inl (refused e)) fun att hatt hlease hnow => ?_
  refine leads_stmt (leads_emitAll fun db' hdb' => leads_commit ?_)
  exact .inr ⟨rfl, rfl, row, att, ⟨hrow, hrun, hcur, hatt⟩, hlease, hnow, .cons ⟨trivial, rfl⟩ hdb'⟩

/-- FailTask is refused, or releases its task; when the attempts of the task are used
up the task fails and the job goes to Cleaning. -/
theorem failTask_changes {reason : String} :
    Leads now locked db (failTask s t a lease reason) db fun out db' =>
      Refused db out db' ∨
      ∃ j status, Reported s now db t a j (.release t a status) (.attemptFailed t j a "" reason)
        .failed (status = .failed) out db' := by
  refine leads_lockJobByTask (leads_rollback (.inl (refused _))) fun j status hj hstatus => ?_
  refine ends_ite (fun _ => leads_rollback (.inl (refused _))) fun hopen => ?_
  refine leads_checkCurrentAttempt (fun e => .inl (refused e)) fun row hrow hrun hcur => ?_
  refine leads_validateLeaseTx (fun e => .inl (refused e)) fun att hatt _ _ => ?_
  refine leads_read rfl (leads_stmt (leads_stmt ?_))
  have hcurrent : Change.Current db t a row att := ⟨hrow, hrun, hcur, hatt⟩
  obtain rfl : row.jobID = j := by simpa [DB.jobOf, hrow] using hj
  refine ends_ite (fun hc => ?_) fun hc => ?_
  · rw [if_pos hc]
    refine leads_stmt (leads_emitAll fun db' hdb' => leads_commit ?_)
    exact .inr ⟨_, .failed, rfl, ⟨row, att, hcurrent, rfl⟩, running_of_open hstatus hopen,
      .inr ⟨rfl, .cons ⟨⟨row, att, hcurrent, (if_pos hc).symm⟩, rfl⟩
        (.cons (step_cleaning _) hdb'), rfl⟩⟩
  · rw [if_neg hc]
    refine leads_emit fun db' hdb' => leads_commit ?_
    exact .inr ⟨_, .idle, rfl, ⟨row, att, hcurrent, rfl⟩, running_of_open hstatus hopen,
      .inl ⟨.cons ⟨⟨row, att, hcurrent, (if_neg hc).symm⟩, rfl⟩ hdb', rfl⟩⟩

/-! ## 4. Cancellation, finalization, recovery -/

/-- CancelJob changes nothing, or fails every task of the job that is not Completed
and every Running attempt, in a job that is then Cleaning. -/
theorem cancelJob_changes :
    Leads now locked db (cancelJob s j) db fun out db' =>
      db' = db ∧ out.post = [] ∨
      out.result = .ok () ∧ ∃ old cs, db.jobStatus j = some old ∧
        out.post = [(answer (.selectRunningAttemptIDsByJob j) (atomically now locked) db).map
          .deleteHeartbeat ++ [.enqueueCleanup j .cancelled]] ∧
        Changes now db (cs ++ .cancel j ::
          logs s [.jobCancelRequested j, .jobStateChanged j old .cleaning]) db' ∧
        (old = .cleaning ∧ cs = [] ∨
          allowedJobTransitions old .cleaning = true ∧ cs = [.setJob j .cleaning]) := by
  refine leads_applyJobTransitionTx (fun e => ?_) (fun hs => ?_) fun current hs ha => ?_
  · split
    · exact .inl ⟨rfl, rfl⟩
    · exact .inl ⟨rfl, rfl⟩
  · refine leads_read rfl (leads_read rfl (leads_stmt (leads_stmt ?_)))
    refine leads_emitAll fun db' hdb' => leads_commit (.inr ⟨rfl, .cleaning, [], hs, rfl, ?_,
      .inl ⟨rfl, rfl⟩⟩)
    exact .cons ⟨trivial, rfl⟩ hdb'
  · refine leads_read rfl (leads_read rfl (leads_stmt (leads_stmt ?_)))
    refine leads_emitAll fun db' hdb' => leads_commit (.inr ⟨rfl, current, _, hs, rfl, ?_,
      .inr ⟨ha, rfl⟩⟩)
    exact .cons (step_cleaning j) (.cons ⟨trivial, rfl⟩ hdb')

theorem finalizeJob_changes {ts : TerminalState} :
    Leads now locked db (finalizeJob j ts) db fun out db' =>
      (out.post = [[.orchestratorCancel j]] ∨ out.post = [[.enqueueCleanup j ts.status]]) ∧
      (db' = db ∨ out.result = .ok () ∧ db.jobStatus j = some .cleaning ∧
        Changes now db [.setJob j ts.status] db') := by
  refine leads_applyJobTransitionTx (fun e => ⟨.inr rfl, .inl rfl⟩) (fun _ => ⟨.inl rfl, .inl rfl⟩)
    fun current hs ha => ?_
  refine ⟨.inl rfl, .inr ⟨rfl, ?_, .single (step_setJob j _ ?_ ?_)⟩⟩
  · rw [hs]
    cases current <;> cases ts <;> simp [allowedJobTransitions, TerminalState.status] at ha ⊢
  · cases ts <;> nofun
  · cases ts <;> nofun

theorem failRunningAttemptsByJob_changes :
    Leads now locked db (failRunningAttemptsByJob j) db fun out db' =>
      out.post = [[]] ∧ Changes now db [.failAttempts j] db' :=
  leads_stmt ⟨rfl, .single ⟨trivial, rfl⟩⟩

theorem recoverFailAttempts_changes :
    Leads now locked db (recoverFailAttempts s) db fun out db' =>
      out.post = [[]] ∧ Changes now db [.failReplica s.replicaIndex] db' :=
  leads_stmt ⟨rfl, .single ⟨trivial, rfl⟩⟩

theorem recoverResetTasks_changes :
    Leads now locked db (recoverResetTasks s) db fun out db' =>
      out.post = [[]] ∧ Changes now db [.resetReplica s.replicaIndex] db' :=
  leads_stmt ⟨rfl, .single ⟨trivial, rfl⟩⟩

theorem recoverWorkerPools_unchanged :
    Leads now locked db (recoverWorkerPools s) db fun out db' =>
      db' = db ∧ out.post = [((db.jobs.rows.filter fun j =>
          decide (j.status = .running) && decide (j.replicaIndex = s.replicaIndex)).map
        JobRow.jobID).flatMap fun jobID =>
          [.orchestratorCancel jobID, .ensureWorkerPool jobID 4 s.managerAddr]] :=
  leads_read rfl ⟨rfl, rfl⟩

/-! ## 5. GetNextTask -/

/-- The attempt that an assignment inserts. -/
def Scheduler.attemptRow (s : Scheduler) (now : Time) (t a : UUID) (workerID : String)
    (lease : UUID) : AttemptRow :=
  ⟨a, t, workerID, lease, now, s.leaseTTL, now, none, .running, s.leaseTTL_pos⟩

/-- The task that is handed out for `row`, with the metadata read from `db`. -/
def handedOut (db : DB) (row : TaskRow) (a lease : UUID) (cfg : JobConfigRow) : Task :=
  let task := (assignedTask row a lease).withConfig cfg
  match row.taskType with
  | .reduce =>
    { task with shuffleInputs := (db.mapOutputs row.jobID row.replicaIndex).map OutputRow.ref }
  | .map => task.withSplits (db.taskInputs.filter fun i => decide (i.taskID = row.taskID))

section HandedOut

variable (row : TaskRow) (a lease : UUID) (cfg : JobConfigRow)

theorem handedOut_id : (handedOut db row a lease cfg).id = row.taskID := by
  unfold handedOut Task.withSplits
  split
  · rfl
  · split <;> rfl

theorem handedOut_jobID : (handedOut db row a lease cfg).jobID = row.jobID := by
  unfold handedOut Task.withSplits
  split
  · rfl
  · split <;> rfl

theorem handedOut_type : (handedOut db row a lease cfg).type = row.taskType := by
  unfold handedOut Task.withSplits
  split
  · rfl
  · split <;> rfl

end HandedOut

/-- An Idle task of the job that this replica may select and that no other transaction holds. -/
structure Selectable (s : Scheduler) (locked : Resource → Bool) (db : DB) (j : UUID) (ty : TaskType)
    (row : TaskRow) : Prop where
  task : db.tasks.get? row.taskID = some row
  job : row.jobID = j
  idle : row.status = .idle
  type : row.taskType = ty
  replica : ty = .reduce ∨ row.replicaIndex = s.replicaIndex
  free : locked (.task row.taskID) = false

/-- What an assignment needs beside the task: the configuration of the job, a free place in the
quota and an attempt that is new. -/
structure Admits (db : DB) (j a : UUID) : Prop where
  config : (db.jobConfigs.get? j).isSome = true
  quota : db.runningAttempts < db.maxConcurrentPods.getD DefaultMaxConcurrentPods
  fresh : db.attempts.get? a = none

/-- The task is selected, and the attempt `a` can be inserted for it. -/
structure Picked (s : Scheduler) (locked : Resource → Bool) (db : DB) (j a : UUID) (ty : TaskType)
    (row : TaskRow) : Prop extends Selectable s locked db j ty row, Admits db j a

/-- What GetNextTask demands before it looks for a task. -/
structure Serves (s : Scheduler) (db : DB) (j : UUID) (workerID : String) : Prop where
  worker : workerID ≠ ""
  healthy : ¬ db.HasFailed j
  replica : (db.jobs.get? j).map JobRow.replicaIndex = some s.replicaIndex

/-- A task is to be handed out: a Map task of the replica or, when all Map tasks are Completed, a
Reduce task with inputs. -/
structure FindsTask (s : Scheduler) (locked : Resource → Bool) (db : DB) (j : UUID)
    (workerID : String) (a : UUID) : Prop extends Serves s db j workerID, Admits db j a where
  task : (∃ row, Selectable s locked db j .map row) ∨
    db.MapsDone j ∧ ∃ row, Selectable s locked db j .reduce row ∧
      db.mapOutputs row.jobID row.replicaIndex ≠ []

/-- A Reduce task is to be completed for want of inputs, and no other is to be handed out. -/
structure CompletesEmpty (s : Scheduler) (locked : Resource → Bool) (db : DB) (j : UUID)
    (workerID : String) : Prop extends Serves s db j workerID where
  maps : db.MapsDone j
  empty : ∃ t row, db.tasks.get? t = some row ∧ row.jobID = j ∧ row.taskType = .reduce ∧
    row.status = .idle ∧ db.mapOutputs row.jobID row.replicaIndex = []
  rest : ∀ row, Selectable s locked db j .reduce row →
    db.mapOutputs row.jobID row.replicaIndex = []

section Assignment

variable {α : Type} {start cur : DB} {Φ : Outcome α → DB → Prop}

theorem leads_hydrateTaskMetadata {row : TaskRow} {fail : Err → Tx α} {k : Task → Tx α}
    (hrow : cur.tasks.get? row.taskID = some row)
    (hfail : cur.jobConfigs.get? row.jobID = none → Leads now locked start (fail .noRows) cur Φ)
    (hk : ∀ cfg, cur.jobConfigs.get? row.jobID = some cfg →
      Leads now locked start (k (handedOut cur row a lease cfg)) cur Φ) :
    Leads now locked start (hydrateTaskMetadata (assignedTask row a lease) fail k) cur Φ := by
  have hof : cur.jobOf (assignedTask row a lease).id = some row.jobID := by
    show (cur.tasks.get? row.taskID).map TaskRow.jobID = _
    rw [hrow]
    rfl
  refine leads_read rfl ?_
  simp only [answer, hof, Option.bind_some]
  cases hc : cur.jobConfigs.get? row.jobID with
  | none => exact hfail hc
  | some cfg =>
    have h := hk cfg hc
    unfold handedOut at h
    cases hty : row.taskType with
    | map =>
      rw [hty] at h
      have hty' : (assignedTask row a lease).type = .map := hty
      simp only [hty']
      exact leads_read rfl h
    | reduce =>
      rw [hty] at h
      have hty' : (assignedTask row a lease).type = .reduce := hty
      simp only [hty']
      refine leads_read rfl ?_
      have hid : (assignedTask row a lease).id = row.taskID := rfl
      simp only [answer, hid, hrow]
      exact h

theorem leads_enforceQuotaTx {fail : Err → Tx α} {k : Tx α}
    (hfail : ¬ cur.runningAttempts < cur.maxConcurrentPods.getD DefaultMaxConcurrentPods →
      Leads now locked start (fail .quotaExceeded) cur Φ)
    (hk : cur.runningAttempts < cur.maxConcurrentPods.getD DefaultMaxConcurrentPods →
      Leads now locked start k cur Φ) :
    Leads now locked start (enforceQuotaTx fail k) cur Φ := by
  refine leads_read rfl (leads_read rfl (leads_read rfl ?_))
  refine ends_ite (fun h => hfail fun hlt => ?_) fun h => hk (by_contra fun hlt => h (if_neg hlt))
  exact Nat.sub_ne_zero_of_lt hlt ((if_pos hlt).symm.trans h)

/-- The two writes of an assignment are the change `assign`. -/
theorem apply_assign {row : TaskRow} (hrow : cur.tasks.get? row.taskID = some row)
    (hidle : row.status = .idle) :
    (Query.insertAttempt a row.taskID workerID lease s.leaseTTL s.leaseTTL_pos).apply now
        ((Query.updateTaskInProgress a row.taskID).apply now cur) =
      (Change.assign row.taskID (s.attemptRow now row.taskID a workerID lease)
        s.replicaIndex).apply now cur := by
  have htasks : cur.tasks.updateWhere
        (fun r => decide (r.taskID = row.taskID) && decide (r.status = .idle))
        (TaskRow.set · ⟨.inProgress, fun _ => some a⟩) (fun r _ => r.set_taskID _) =
      cur.tasks.updateWhere (fun r => decide (r.taskID = row.taskID))
        (TaskRow.set · ⟨.inProgress, fun _ => some a⟩) (fun r _ => r.set_taskID _) := by
    refine Table.updateWhere_congr _ fun r hr => ?_
    by_cases hid : r.taskID = row.taskID
    · have hget := Table.mem_rows_iff.mp hr
      rw [hid, hrow, Option.some.injEq] at hget
      simp [← hget, hidle]
    · simp [hid]
  let row' := s.attemptRow now row.taskID a workerID lease
  exact congrArg (fun ts => ({ cur with tasks := ts, attempts := cur.attempts.insert row' } : DB))
    htasks

/-- tryAssignTask fails for want of a task, or with a task for want of what an assignment needs
beside it. -/
theorem leads_tryAssignTask {fail : Err → Tx α} {k : Task → Tx α}
    (hfail : ∀ e cur', e ≠ .noIdleTasks ∧ (∀ r r', e ≠ .wrongReplica r r') →
      (∃ row, Selectable s locked cur j ty row) ∧ ¬ Admits cur j a →
      Leads now locked start (fail e) cur' Φ)
    (hnone : (∀ row, ¬ Selectable s locked cur j ty row) →
      Leads now locked start (fail .noIdleTasks) cur Φ)
    (hk : ∀ row cfg, Picked s locked cur j a ty row →
      Leads now locked start (k (handedOut cur row a lease cfg))
        ((Change.assign row.taskID (s.attemptRow now row.taskID a workerID lease)
          s.replicaIndex).apply now cur) Φ) :
    Leads now locked start (tryAssignTask s j workerID a lease ty fail k) cur Φ := by
  have hmem : ∀ row, row ∈ idleTasks j s.replicaIndex ty (atomically now locked) cur ↔
      Selectable s locked cur j ty row := by
    intro row
    simp only [idleTasks, List.mem_filter, Bool.and_eq_true, Bool.or_eq_true, decide_eq_true_eq,
      Bool.not_eq_true', Table.mem_rows_iff]
    constructor
    · rintro ⟨ht, ⟨⟨⟨hj, hidle⟩, hty⟩, hrep⟩, hfree⟩
      exact ⟨ht, hj, hidle, hty, hrep, hfree⟩
    · exact fun h => ⟨h.task, ⟨⟨⟨h.job, h.idle⟩, h.type⟩, h.replica⟩, h.free⟩
  refine leads_read rfl ?_
  simp only [answer]
  cases hfirst : firstTask (idleTasks j s.replicaIndex ty (atomically now locked) cur) with
  | none =>
    refine hnone fun row hrow => ?_
    have hin := (hmem row).mpr hrow
    rw [QueryLemmas.firstTask_none hfirst] at hin
    cases hin
  | some row =>
    have hs := (hmem row).mp (QueryLemmas.firstTask_mem hfirst)
    have hfail' : ∀ {e cur'}, e ≠ .noIdleTasks ∧ (∀ r r', e ≠ .wrongReplica r r') →
        ¬ Admits cur j a → Leads now locked start (fail e) cur' Φ :=
      fun he hnot => hfail _ _ he ⟨⟨row, hs⟩, hnot⟩
    have herr : ∀ {e : Err}, e = .noRows ∨ e = .quotaExceeded ∨ e = .constraint →
        e ≠ .noIdleTasks ∧ ∀ r r', e ≠ .wrongReplica r r' := by
      rintro e (rfl | rfl | rfl) <;> simp
    refine ends_ite (fun hne => absurd hs.job hne) fun _ => ?_
    refine leads_hydrateTaskMetadata hs.task (fun hc => hfail' (herr (.inl rfl)) fun had => ?_)
      fun cfg hcfg => ?_
    · have hsome := had.config
      rw [← hs.job, hc] at hsome
      cases hsome
    refine leads_enforceQuotaTx
      (fun hq => hfail' (herr (.inr (.inl rfl))) fun had => hq had.quota) fun hquota => ?_
    refine leads_stmt (ends_ite (fun hzero => ?_) fun _ => ?_)
    · -- the selected row is Idle, so the update finds it
      simp only [answer] at hzero
      rw [Query.matchedTasks_all fun _ _ => rfl, List.length_eq_zero_iff,
        List.filter_eq_nil_iff] at hzero
      refine absurd ?_ (hzero row (Table.mem_rows_iff.mpr hs.task))
      simp [Query.taskWhere, hs.idle]
    have hin : (((Query.updateTaskInProgress a row.taskID).apply now cur).tasks.get?
        row.taskID).isSome = true := by
      show ((cur.setTasks _ _).tasks.get? row.taskID).isSome = true
      rw [DB.setTasks_get?, hs.task]
      rfl
    refine leads_stmt (ends_ite (fun hok => ?_) fun hno =>
      hfail' (herr (.inr (.inr rfl))) fun had => hno ?_)
    · rw [apply_assign hs.task hs.idle]
      simp only [answer, Bool.and_eq_true, decide_eq_true_eq] at hok
      refine hk row cfg ⟨hs, ?_, hquota, hok.1⟩
      rw [← hs.job, hcfg]
      rfl
    · simp only [answer, hin, Bool.and_true, decide_eq_true_eq]
      exact had.fresh

theorem leads_autoCompleteEmptyReducesTx {k : Bool → Tx α}
    (hk : Leads now locked start (k false) ((Change.completeEmpty j).apply now cur) Φ)
    (hdone : ¬ cur.AllDone j → ((Change.completeEmpty j).apply now cur).AllDone j →
      Leads now locked start (k true) (((Change.completeEmpty j).apply now cur).setJob now j
        .cleaning) Φ) : Leads now locked start (autoCompleteEmptyReducesTx j k) cur Φ := by
  refine leads_stmt (ends_ite (fun _ => hk) fun hsome => leads_read rfl ?_)
  refine ends_ite (fun hp => leads_stmt (hdone (fun hall => hsome ?_) ?_)) fun _ => hk
  · -- only Idle tasks are completed here
    simp only [answer, List.length_map]
    rw [Query.matchedTasks_all fun _ _ => rfl, List.length_eq_zero_iff, List.filter_eq_nil_iff]
    intro row hrow hp
    simp only [Query.taskWhere, Bool.and_eq_true, decide_eq_true_eq] at hp
    have hc := hall _ row (Table.mem_rows_iff.mp hrow) hp.1.1.1
    rw [hp.1.2] at hc
    cases hc
  · exact countAllPendingTasks_eq_zero.mp hp

end Assignment

/-- Completing the empty reduces does not change what the Map tasks have written. -/
theorem mapOutputs_completeEmpty (j job : UUID) (p : Nat) :
    ((Change.completeEmpty j).apply now db).mapOutputs job p = db.mapOutputs job p := by
  refine List.filter_congr fun o _ => ?_
  congr 1
  rw [Change.apply, DB.setTasks_get?]
  cases db.tasks.get? o.taskID with
  | none => rfl
  | some m =>
    simp only [Option.map_some]
    split
    · next hm =>
      simp only [Bool.and_eq_true, decide_eq_true_eq] at hm
      simp [TaskRow.set, hm.1.1.2]
    · rfl

theorem mapsDone_completeEmpty (h : db.MapsDone j) :
    ((Change.completeEmpty j).apply now db).MapsDone j := by
  intro t row ht hj hty
  obtain ⟨row₀, hrow₀, ⟨_, rfl⟩ | ⟨_, rfl⟩⟩ := db.setTasks_cases ht
  · rfl
  · exact h t row hrow₀ hj hty

/-- A Reduce task that is still Idle after the empty ones were completed has inputs. -/
theorem inputs_of_idle {row : TaskRow}
    (ht : ((Change.completeEmpty j).apply now db).tasks.get? row.taskID = some row)
    (hj : row.jobID = j) (hty : row.taskType = .reduce) (hidle : row.status = .idle) :
    ((Change.completeEmpty j).apply now db).mapOutputs row.jobID row.replicaIndex ≠ [] := by
  rw [mapOutputs_completeEmpty]
  obtain ⟨row₀, _, ⟨_, heq⟩ | ⟨hp, rfl⟩⟩ := db.setTasks_cases ht
  · rw [heq] at hidle
    cases hidle
  · intro hempty
    rw [hempty] at hp
    simp [hj, hty, hidle] at hp

/-- A task that is Idle after the empty reduces were completed was so before. -/
theorem idle_completeEmpty {row : TaskRow}
    (h : ((Change.completeEmpty j).apply now db).tasks.get? t = some row)
    (hs : row.status = .idle) :
    db.tasks.get? t = some row := by
  obtain ⟨row₀, hrow₀, ⟨_, heq⟩ | ⟨_, rfl⟩⟩ := db.setTasks_cases h
  · rw [heq] at hs
    cases hs
  · exact hrow₀

theorem Selectable.maps {row : TaskRow} (h : Selectable s locked db j .map row) :
    ¬ db.MapsDone j := by
  intro hmaps
  have hdone := hmaps _ row h.task h.job h.type
  rw [h.idle] at hdone
  cases hdone

/-- The Reduce tasks that are left when the empty ones are completed have inputs. -/
theorem selectable_completeEmpty {row : TaskRow} :
    Selectable s locked ((Change.completeEmpty j).apply now db) j .reduce row ↔
      Selectable s locked db j .reduce row ∧ db.mapOutputs row.jobID row.replicaIndex ≠ [] := by
  constructor
  · intro h
    have hinputs := inputs_of_idle h.task h.job h.type h.idle
    rw [mapOutputs_completeEmpty] at hinputs
    exact ⟨⟨idle_completeEmpty h.task h.idle, h.job, h.idle, h.type, h.replica, h.free⟩, hinputs⟩
  · rintro ⟨h, hinputs⟩
    have hrow : ((Change.completeEmpty j).apply now db).tasks.get? row.taskID = some row :=
      Change.task_untouched h.task fun hc => hinputs hc.2.2.2
    exact ⟨hrow, h.job, h.idle, h.type, h.replica, h.free⟩

/-- The guard of an assignment, from what the transaction has checked. -/
theorem guard_assign {row : TaskRow} (hp : Picked s locked db j a ty row)
    (hrep : (db.jobs.get? j).map JobRow.replicaIndex = some s.replicaIndex)
    (hready : ty = .reduce → db.MapsDone j ∧ db.mapOutputs row.jobID row.replicaIndex ≠ []) :
    Change.Guard now db (.assign row.taskID (s.attemptRow now row.taskID a workerID lease)
      s.replicaIndex) := by
  refine ⟨rfl, rfl, hp.fresh, row, hp.task, hp.idle, ?_, fun h => ?_⟩
  · rw [hp.job]
    exact hrep
  · rw [hp.job] at hready ⊢
    exact hready (hp.type.symm.trans h)

/-- After an assignment the job has a task In-Progress. -/
theorem step_running {lease : UUID} {workerID : String} {row : TaskRow}
    (hp : Picked s locked db j a ty row) :
    let db' := (Change.assign row.taskID (s.attemptRow now row.taskID a workerID lease)
      s.replicaIndex).apply now db
    Change.Step now db' (.setJob j .running) (db'.setJob now j .running) := by
  refine ⟨⟨nofun, fun _ => ⟨row.taskID, row.set ⟨.inProgress, fun _ => some a⟩, ?_, hp.job, rfl⟩⟩,
    rfl⟩
  show (db.setTask row.taskID _).tasks.get? row.taskID = _
  rw [DB.setTask_get?, if_pos rfl, hp.task]
  rfl

/-- What GetNextTask changes before it looks for a task of this type. -/
def sweeps (j : UUID) : TaskType → List Change
  | .map => []
  | .reduce => [.completeEmpty j]

/-- The store in which it looks for one. -/
def DB.swept (db : DB) (now : Time) (j : UUID) : TaskType → DB
  | .map => db
  | .reduce => (Change.completeEmpty j).apply now db

/-- The changes with which a task is handed out. The assignment of a Reduce task is not logged. -/
def handout (s : Scheduler) (now : Time) (j : UUID) (workerID : String) (a lease t : UUID)
    (ty : TaskType) : List Change :=
  sweeps j ty ++ .assign t (s.attemptRow now t a workerID lease) s.replicaIndex ::
    .setJob j .running ::
      logs s (if ty = .map then [.taskAssigned t j .map workerID s.leaseTTL] else [])

theorem mem_handout (h : c ∈ handout s now j workerID a lease t ty) :
    c = .completeEmpty j ∨
      c = .assign t (s.attemptRow now t a workerID lease) s.replicaIndex ∨
      c = .setJob j .running ∨ ∃ e, c = .log e := by
  rcases List.mem_append.mp h with h | h
  · cases ty with
    | map => cases h
    | reduce => exact .inl (List.mem_singleton.mp h)
  · refine .inr ((List.mem_cons.mp h).imp_right fun h => ?_)
    exact (List.mem_cons.mp h).imp_right mem_logs

theorem setJob_handout {j' : UUID} {st : JobStatus}
    (h : .setJob j' st ∈ handout s now j workerID a lease t ty) : j' = j ∧ st = .running := by
  rcases mem_handout h with hc | hc | hc | ⟨_, hc⟩ <;> cases hc
  exact ⟨rfl, rfl⟩

theorem assign_handout {t' : UUID} {att : AttemptRow} {r : Nat}
    (h : .assign t' att r ∈ handout s now j workerID a lease t ty) :
    t' = t ∧ att = s.attemptRow now t a workerID lease ∧ r = s.replicaIndex := by
  rcases mem_handout h with hc | hc | hc | ⟨_, hc⟩ <;> cases hc
  exact ⟨rfl, rfl, rfl⟩

/-- GetNextTask is refused. -/
structure TurnsAway (s : Scheduler) (locked : Resource → Bool) (db : DB) (j : UUID)
    (workerID : String) (a : UUID) (out : Outcome Task) (db' : DB) : Prop where
  refused : Refused db out db'
  idle : ¬ FindsTask s locked db j workerID a ∧ ¬ CompletesEmpty s locked db j workerID
  owner : ∀ r r', out.result = .error (.wrongReplica r r') →
    (db.jobs.get? j).map JobRow.replicaIndex ≠ some s.replicaIndex

/-- The Map phase is over, and no Reduce task with inputs is to be handed out. -/
structure FindsNone (s : Scheduler) (now : Time) (locked : Resource → Bool) (db : DB) (j : UUID)
    (workerID : String) (out : Outcome Task) (db' : DB) : Prop extends Serves s db j workerID where
  maps : db.MapsDone j
  rest : ∀ row, ¬ Selectable s locked (db.swept now j .reduce) j .reduce row
  error : ∃ e, out.result = .error e ∧ (e = .noIdleTasks ∨ e = .jobCompleted)
  changes : ∃ tail, Changes now db (.completeEmpty j :: tail) db' ∧
    (tail = [] ∧ out.post = [[]] ∨
      ¬ db.AllDone j ∧ db'.AllDone j ∧ tail = [.setJob j .cleaning] ∧
        out.post = [[.enqueueCleanup j .completed]])

/-- The task is handed out. -/
structure HandsOver (s : Scheduler) (now : Time) (locked : Resource → Bool) (db : DB) (j : UUID)
    (workerID : String) (a lease : UUID) (ty : TaskType) (row : TaskRow) (out : Outcome Task)
    (db' : DB) : Prop extends FindsTask s locked db j workerID a where
  picked : Picked s locked (db.swept now j ty) j a ty row
  maps : ty = .reduce → db.MapsDone j
  result : ∃ cfg, out.result = .ok (handedOut (db.swept now j ty) row a lease cfg)
  post : out.post = [[]]
  changes : Changes now db (handout s now j workerID a lease row.taskID ty) db'

abbrev NextTask (s : Scheduler) (now : Time) (locked : Resource → Bool) (db : DB) (j : UUID)
    (workerID : String) (a lease : UUID) (out : Outcome Task) (db' : DB) : Prop :=
  TurnsAway s locked db j workerID a out db' ∨ FindsNone s now locked db j workerID out db' ∨
    ∃ ty row, HandsOver s now locked db j workerID a lease ty row out db'

section NextTask

variable {out : Outcome Task} {db' : DB} {row : TaskRow}

theorem Serves.known (h : Serves s db j workerID) : db.jobStatus j ≠ none := by
  obtain ⟨job, hjob, _⟩ := Option.map_eq_some_iff.mp h.replica
  rw [DB.jobStatus, hjob]
  nofun

theorem HandsOver.row_eq (h : HandsOver s now locked db j workerID a lease ty row out db') :
    db.tasks.get? row.taskID = some row := by
  cases ty with
  | map => exact h.picked.task
  | reduce =>
    have hrow : ((Change.completeEmpty j).apply now db).tasks.get? row.taskID = some row :=
      h.picked.task
    exact idle_completeEmpty hrow h.picked.idle

/-- The changes after the assignment. -/
theorem HandsOver.tail (h : HandsOver s now locked db j workerID a lease ty row out db') :
    Changes now ((Change.assign row.taskID (s.attemptRow now row.taskID a workerID lease)
        s.replicaIndex).apply now (db.swept now j ty))
      (.setJob j .running ::
        logs s (if ty = .map then [.taskAssigned row.taskID j .map workerID s.leaseTTL] else []))
      db' := by
  obtain ⟨d, hd, hcs⟩ := h.changes.of_append
  have hswept : d = db.swept now j ty := by
    cases ty with
    | map =>
      cases hd
      rfl
    | reduce =>
      cases hd with
      | cons hstep hnil =>
        cases hnil
        exact hstep.2
  cases hcs with
  | cons hstep hrest =>
    obtain ⟨_, rfl⟩ := hstep
    exact hswept ▸ hrest

/-- No change removes an attempt. -/
theorem attempt_changes {cs : List Change} {x : UUID} (h : Changes now db cs db')
    (hx : ∃ att, db.attempts.get? x = some att) : ∃ att, db'.attempts.get? x = some att := by
  refine h.keeps (I := fun d => ∃ att, d.attempts.get? x = some att) ?_ hx
  rintro d c _ _ ⟨att, hatt⟩
  obtain ⟨att', hatt', _⟩ := c.attempt_apply now hatt
  exact ⟨att', hatt'⟩

theorem HandsOver.attempt (h : HandsOver s now locked db j workerID a lease ty row out db') :
    ∃ att, db'.attempts.get? a = some att :=
  attempt_changes h.tail ⟨_, Table.get?_insert_self h.picked.fresh⟩

theorem leads_turnsAway {cur : DB} {e : Err} (hno : ¬ FindsTask s locked db j workerID a)
    (hne : ¬ CompletesEmpty s locked db j workerID)
    (howner : ∀ r r', e = .wrongReplica r r' →
      (db.jobs.get? j).map JobRow.replicaIndex ≠ some s.replicaIndex) :
    Leads now locked db (rollback e) cur (NextTask s now locked db j workerID a lease) :=
  leads_rollback (.inl ⟨refused _, ⟨hno, hne⟩, fun r r' h => howner r r' (Except.error.inj h)⟩)

/-- The Reduce phase: the tasks without inputs are completed first, and without another task the
transaction commits. -/
theorem getNextReduceTask_changes (hserves : Serves s db j workerID) (hmaps : db.MapsDone j) :
    Leads now locked db (getNextReduceTask s j workerID a lease) db
      (NextTask s now locked db j workerID a lease) := by
  have hempty : Change.Step now db (.completeEmpty j) ((Change.completeEmpty j).apply now db) :=
    ⟨hmaps, rfl⟩
  refine leads_autoCompleteEmptyReducesTx ?_ fun hnot hdone => ?_
  · refine leads_tryAssignTask (fun e _ he hrefused => ?_) (fun hrest => ?_) fun row cfg hp => ?_
    · obtain ⟨⟨row, hrow⟩, hno⟩ := hrefused
      obtain ⟨hrow, hinputs⟩ := selectable_completeEmpty.mp hrow
      rw [if_pos he.1]
      exact leads_turnsAway (fun hh => hno ⟨hh.config, hh.quota, hh.fresh⟩)
        (fun hc => hinputs (hc.rest row hrow)) fun r r' h => absurd h (he.2 r r')
    · rw [if_neg (not_not.mpr rfl)]
      have hnone : ∀ e, e = .noIdleTasks ∨ e = .jobCompleted →
          NextTask s now locked db j workerID a lease ⟨.error e, [[]]⟩ (db.swept now j .reduce) :=
        fun e he => .inr (.inl ⟨hserves, hmaps, hrest, ⟨e, rfl, he⟩, [], .single hempty,
          .inl ⟨rfl, rfl⟩⟩)
      exact leads_read rfl (ends_ite (fun _ => hnone _ (.inl rfl)) fun _ => hnone _ (.inr rfl))
    · obtain ⟨hrow, hinputs⟩ := selectable_completeEmpty.mp hp.toSelectable
      refine leads_stmt (leads_commit (.inr (.inr ⟨.reduce, row, ⟨hserves,
        ⟨hp.config, hp.quota, hp.fresh⟩, .inr ⟨hmaps, row, hrow, hinputs⟩⟩, hp, fun _ => hmaps,
        ⟨cfg, rfl⟩, rfl, ?_⟩)))
      refine .cons hempty (.cons ⟨guard_assign hp hserves.replica fun _ => ?_, rfl⟩
        (.cons (step_running hp) (changes_logs_nil s _)))
      exact ⟨mapsDone_completeEmpty hmaps, inputs_of_idle hp.task hp.job hp.type hp.idle⟩
  · -- no task of the job is Idle once all of them are Completed
    have hrest : ∀ row, ¬ Selectable s locked (db.swept now j .reduce) j .reduce row := by
      intro row hrow
      have hc := hdone row.taskID row hrow.task hrow.job
      rw [hrow.idle] at hc
      cases hc
    have hleft : ∀ {row : TaskRow}, ¬ Selectable s locked
        ((db.swept now j .reduce).setJob now j .cleaning) j .reduce row := fun h =>
      hrest _ ⟨h.task, h.job, h.idle, h.type, h.replica, h.free⟩
    refine leads_tryAssignTask (fun e _ he hrefused => ?_) (fun _ => ?_) fun row cfg hp => ?_
    · obtain ⟨⟨row, hrow⟩, _⟩ := hrefused
      exact absurd hrow hleft
    · rw [if_neg (not_not.mpr rfl)]
      have hnone : ∀ e, e = .noIdleTasks ∨ e = .jobCompleted →
          NextTask s now locked db j workerID a lease
            ⟨.error e, [[.enqueueCleanup j .completed]]⟩
            ((db.swept now j .reduce).setJob now j .cleaning) :=
        fun e he => .inr (.inl ⟨hserves, hmaps, hrest, ⟨e, rfl, he⟩, _,
          .cons hempty (.single (step_cleaning j)), .inr ⟨hnot, hdone, rfl, rfl⟩⟩)
      exact leads_read rfl (ends_ite (fun _ => hnone _ (.inl rfl)) fun _ => hnone _ (.inr rfl))
    · exact absurd hp.toSelectable hleft

/-- GetNextTask is refused, or finds the Map phase over and no task left, or hands out a task. -/
theorem getNextTask_changes :
    Leads now locked db (getNextTask s j workerID a lease) db
      (NextTask s now locked db j workerID a lease) := by
  refine ends_ite (fun h => ?_) fun hworker => ?_
  · refine leads_turnsAway (fun hh => hh.worker h) (fun hc => hc.worker h) fun _ _ he => ?_
    cases he
  refine leads_read rfl (ends_ite (fun hfailed => ?_) fun hfailed => ?_)
  · have hnot : ¬ ¬ db.HasFailed j := fun hno =>
      absurd (countFailedTasks_eq_zero.mpr hno) (Nat.ne_of_gt hfailed)
    refine leads_turnsAway (fun hh => hnot hh.healthy) (fun hc => hnot hc.healthy) fun _ _ he => ?_
    cases he
  have hhealthy : ¬ db.HasFailed j :=
    countFailedTasks_eq_zero.mp (Nat.le_zero.mp (Nat.not_lt.mp hfailed))
  have hother : ∀ {e : Err} {cur : DB},
      (db.jobs.get? j).map JobRow.replicaIndex ≠ some s.replicaIndex →
      Leads now locked db (rollback e) cur (NextTask s now locked db j workerID a lease) :=
    fun h => leads_turnsAway (fun hh => h hh.replica) (fun hc => h hc.replica) fun _ _ _ => h
  refine leads_read rfl ?_
  simp only [answer]
  cases hrep : (db.jobs.get? j).map JobRow.replicaIndex with
  | none => exact hother (hrep ▸ (Option.some_ne_none _).symm)
  | some r =>
    refine ends_ite (fun hne => hother ?_) fun hr => ?_
    · rw [hrep]
      exact fun h => hne (Option.some.inj h)
    have hserves : Serves s db j workerID := ⟨hworker, hhealthy, by rw [hrep, not_not.mp hr]⟩
    refine leads_tryAssignTask (fun e _ he hrefused => ?_) (fun hmap => ?_) fun row cfg hp => ?_
    · obtain ⟨⟨row, hrow⟩, hno⟩ := hrefused
      rw [if_pos he.1]
      exact leads_turnsAway (fun hh => hno hh.toAdmits) (fun hc => hrow.maps hc.maps)
        fun r r' h => absurd h (he.2 r r')
    · rw [if_neg (not_not.mpr rfl)]
      refine leads_read rfl (ends_ite (fun hpending => ?_) fun hpending => ?_)
      · have hmaps : ¬ db.MapsDone j := fun h =>
          absurd (countPendingMapTasks_eq_zero.mpr h) (Nat.ne_of_gt hpending)
        refine leads_turnsAway (fun hh => ?_) (fun hc => hmaps hc.maps) fun _ _ he => ?_
        · rcases hh.task with ⟨row, hrow⟩ | ⟨h, -⟩
          · exact hmap row hrow
          · exact hmaps h
        · cases he
      · exact getNextReduceTask_changes hserves
          (countPendingMapTasks_eq_zero.mp (Nat.le_zero.mp (Nat.not_lt.mp hpending)))
    · have hmap : TaskType.map ≠ .reduce := by decide
      refine leads_stmt (leads_emit fun db' hdb' => leads_commit (.inr (.inr ⟨.map, row,
        ⟨hserves, hp.toAdmits, .inl ⟨row, hp.toSelectable⟩⟩, hp, fun h => absurd h hmap,
        ⟨cfg, rfl⟩, rfl, ?_⟩)))
      rw [handedOut_id, handedOut_jobID, handedOut_type, hp.job, hp.type] at hdb'
      exact .cons ⟨guard_assign hp hserves.replica fun h => absurd h hmap, rfl⟩
        (.cons (step_running hp) hdb')

end NextTask

/-! ## 6. The reaper -/

/-- The new status of a released task. -/
def releasedStatus (attemptCount : Nat) : TaskStatus :=
  if MaxTaskAttempts ≤ attemptCount then .failed else .idle

/-- What the reaper's loop changes. -/
def reapChanges (s : Scheduler) (heartbeats : UUID → Option Time) (clock : Time)
    (recs : List StaleRec) : List Change :=
  recs.flatMap fun rec =>
    if isStale s heartbeats clock rec then
      if MaxTaskAttempts ≤ rec.attemptCount then
        [.release rec.taskID rec.attemptID .failed, .setJob rec.jobID .cleaning]
      else [.release rec.taskID rec.attemptID .idle]
    else []

/-- What the reaper's loop counts and collects. -/
def reapedBy (s : Scheduler) (heartbeats : UUID → Option Time) (clock : Time)
    (recs : List StaleRec) (acc : Reaped) : Reaped :=
  recs.foldl (fun acc rec =>
    if isStale s heartbeats clock rec then
      if MaxTaskAttempts ≤ rec.attemptCount then
        { acc with
          recoveredCount := acc.recoveredCount + 1
          failedJobs := acc.failedJobs.insert rec.jobID }
      else
        { acc with
          recoveredCount := acc.recoveredCount + 1
          respawnJobs := acc.respawnJobs.insert rec.jobID }
    else acc) acc

/-- The record describes a task that is In-Progress under the record's attempt. -/
def Fresh (db : DB) (rec : StaleRec) : Prop :=
  (∃ row att, Change.Current db rec.taskID rec.attemptID row att) ∧
    rec.attemptCount = db.attempts.rows.countP (fun b => decide (b.taskID = rec.taskID))

theorem countP_setAttempt (a t : UUID) (c : Query.AttemptSet) :
    (db.setAttempt now a c).attempts.rows.countP (fun b => decide (b.taskID = t)) =
      db.attempts.rows.countP (fun b => decide (b.taskID = t)) := by
  exact Table.countP_updateWhere _ _ _ _ (fun r _ => r.set_attemptID now c)
    fun b _ => by rw [AttemptRow.set_taskID]

/-- Releasing one task does not touch the record of another. -/
theorem fresh_release {status : TaskStatus} (h : Fresh db rec) (hne : rec.taskID ≠ t) :
    Fresh ((Change.release t a status).apply now db) rec := by
  obtain ⟨⟨row, att, hc⟩, hcount⟩ := h
  have htask : ((Change.release t a status).apply now db).tasks.get? rec.taskID = some row := by
    show (db.setTask t _).tasks.get? rec.taskID = _
    rw [DB.setTask_get?, if_neg hne, hc.task]
  have hatt : ∃ att', ((Change.release t a status).apply now db).attempts.get? rec.attemptID =
      some att' := by
    show ∃ att', (db.setAttempt now a _).attempts.get? rec.attemptID = some att'
    rw [DB.setAttempt_get?]
    split
    · next he => exact ⟨_, by rw [← he, hc.attempt]; rfl⟩
    · exact ⟨att, hc.attempt⟩
  obtain ⟨att', hatt'⟩ := hatt
  refine ⟨⟨row, att', htask, hc.status, hc.current, hatt'⟩, ?_⟩
  rw [hcount]
  exact (countP_setAttempt a rec.taskID _).symm

theorem fresh_setJob (j : UUID) (status : JobStatus) (h : Fresh db rec) :
    Fresh (db.setJob now j status) rec := by
  obtain ⟨⟨row, att, hc⟩, hcount⟩ := h
  exact ⟨⟨row, att, hc.task, hc.status, hc.current, hc.attempt⟩, hcount⟩

theorem leads_reapTasks {α : Type} {start cur : DB} {Φ : Outcome α → DB → Prop}
    {heartbeats : UUID → Option Time} {clock : Time} {recs : List StaleRec} {acc : Reaped}
    {k : Reaped → Tx α} (hfresh : ∀ rec ∈ recs, Fresh cur rec)
    (hnodup : (recs.map StaleRec.taskID).Nodup)
    (hk : ∀ db, Changes now cur (reapChanges s heartbeats clock recs) db →
      Leads now locked start (k (reapedBy s heartbeats clock recs acc)) db Φ) :
    Leads now locked start (reapTasks s heartbeats clock recs acc k) cur Φ := by
  induction recs generalizing cur acc with
  | nil => exact hk cur (.nil cur)
  | cons rec rest ih =>
    obtain ⟨hhead, hrest⟩ := List.nodup_cons.mp hnodup
    obtain ⟨⟨row, att, hc⟩, hcount⟩ := hfresh rec List.mem_cons_self
    have hother : ∀ status, ∀ r ∈ rest,
        Fresh ((Change.release rec.taskID rec.attemptID status).apply now cur) r := by
      intro status r hr
      refine fresh_release (hfresh r (List.mem_cons_of_mem _ hr)) fun he => hhead ?_
      exact he ▸ List.mem_map_of_mem hr
    have hguard : Change.Guard now cur
        (.release rec.taskID rec.attemptID (releasedStatus rec.attemptCount)) :=
      ⟨row, att, hc, by rw [releasedStatus, hcount]⟩
    refine ends_ite (fun hstale => leads_stmt (leads_stmt ?_)) fun hstale => ?_
    · refine ends_ite (fun hmax => ?_) fun hmax => ?_
      · rw [if_pos hmax]
        rw [releasedStatus, if_pos hmax] at hguard
        refine leads_stmt (ih (fun r hr => fresh_setJob _ _ (hother .failed r hr)) hrest
          fun db hdb => ?_)
        have h := hk db
        simp only [reapChanges, reapedBy, List.flatMap_cons, List.foldl_cons, if_pos hstale,
          if_pos hmax] at h
        exact h (.cons ⟨hguard, rfl⟩ (.cons (step_cleaning rec.jobID) hdb))
      · rw [if_neg hmax]
        rw [releasedStatus, if_neg hmax] at hguard
        refine ih (hother .idle) hrest fun db hdb => ?_
        have h := hk db
        simp only [reapChanges, reapedBy, List.flatMap_cons, List.foldl_cons, if_pos hstale,
          if_neg hmax] at h
        exact h (.cons ⟨hguard, rfl⟩ hdb)
    · refine ih (fun r hr => hfresh r (List.mem_cons_of_mem _ hr)) hrest fun db hdb => ?_
      have h := hk db
      simp only [reapChanges, reapedBy, List.flatMap_cons, List.foldl_cons, if_neg hstale] at h
      exact h hdb

theorem staleTasks_nodup (r : Nat) (env : Env Resource) :
    ((staleTasks r env db).map StaleRec.taskID).Nodup := by
  refine db.tasks.nodup.sublist ?_
  unfold staleTasks
  induction db.tasks.rows with
  | nil => exact .slnil
  | cons t ts ih =>
    rw [List.filterMap_cons, List.map_cons]
    split
    · exact ih.cons _
    · next rec hrec =>
      have hid : rec.taskID = t.taskID := by
        split at hrec
        · split at hrec
          · cases hrec
            rfl
          · cases hrec
        · cases hrec
      rw [List.map_cons, hid]
      exact ih.cons_cons _

theorem staleTasks_fresh {r : Nat} (h : rec ∈ staleTasks r env db) : Fresh db rec := by
  obtain ⟨t, a, _, ht, ha, _, _, hcur, hst, _, _, hcount, _⟩ := QueryLemmas.staleTasks_mem h
  exact ⟨⟨t, a, ht, hst, hcur, ha⟩, hcount⟩

/-- One pass of the reaper releases exactly the selected tasks that are stale. -/
theorem failStaleTasks_changes {heartbeats : UUID → Option Time} {clock : Time} :
    Leads now locked db (failStaleTasks s heartbeats clock) db fun out db' =>
      let stales := staleTasks s.replicaIndex (atomically now locked) db
      let acc := reapedBy s heartbeats clock stales ⟨0, [], []⟩
      out.result = .ok acc.recoveredCount ∧
      out.post = acc.failedJobs.map (fun j => .enqueueCleanup j .failed) ::
        acc.respawnJobs.map (respawn s) ∧
      Changes now db (reapChanges s heartbeats clock stales ++
        (logs s (stales.map fun rec =>
            .taskReaped rec.taskID rec.jobID rec.attemptID "lease expired") ++
          logs s (acc.failedJobs.map fun j => .jobStateChanged j .running .cleaning))) db' := by
  refine leads_read rfl ?_
  refine leads_reapTasks (fun rec h => staleTasks_fresh h) (staleTasks_nodup _ _) fun db₁ h₁ => ?_
  refine leads_emitAll fun db₂ h₂ => leads_emitAll fun db₃ h₃ => ?_
  exact ⟨rfl, rfl, h₁.append (h₂.append h₃)⟩

/-! ## 7. Submission -/

/-- The change only adds rows, of the job `j`. -/
def Inserts (j : UUID) : Change → Prop
  | .addJob row => row.jobID = j
  | .addConfig row => row.jobID = j
  | .addTask row => row.jobID = j
  | .addInput _ => True
  | .log _ => True
  | _ => False

theorem inserts_logs (h : c ∈ logs s es) : Inserts j c := by
  obtain ⟨e, rfl⟩ := mem_logs h
  trivial

theorem addedTasks_logs (s : Scheduler) (es : List Event) : addedTasks (logs s es) = [] := by
  refine List.filterMap_eq_nil_iff.mpr fun c hc => ?_
  obtain ⟨e, rfl⟩ := mem_logs hc
  rfl

theorem addedConfigs_logs (s : Scheduler) (es : List Event) : addedConfigs (logs s es) = [] := by
  refine List.filterMap_eq_nil_iff.mpr fun c hc => ?_
  obtain ⟨e, rfl⟩ := mem_logs hc
  rfl

section Inserts

variable {j : UUID} {db' : DB} {cs : List Change}

theorem Inserts.untouched (h : Inserts j c) (row : TaskRow) : ¬ c.Touches db row := by
  cases c <;> first | exact id | exact h.elim

/-- The tasks that are added are Idle. -/
theorem inserts_idle (hcs : Changes now db cs db') (hins : ∀ c ∈ cs, Inserts j c)
    (hnone : ∀ t row, db.tasks.get? t = some row → row.jobID ≠ j) {row : TaskRow}
    (ht : db'.tasks.get? t = some row) (hj : row.jobID = j) : row.status = .idle := by
  refine hcs.keeps
    (I := fun d => ∀ t row, d.tasks.get? t = some row → row.jobID = j → row.status = .idle) ?_
    (fun t row ht hj => absurd hj (hnone t row ht)) t row ht hj
  rintro d c hc hg hd t row' ht hj
  rcases Change.task_cases ht with ⟨rfl, _⟩ | ⟨row, hrow, ⟨htouch, _⟩ | ⟨_, rfl⟩⟩
  · exact hg.2.1
  · exact absurd htouch ((hins c hc).untouched row)
  · exact hd t _ hrow hj

/-- What is added is there in the end. -/
theorem inserts_added (hcs : Changes now db cs db') (hins : ∀ c ∈ cs, Inserts j c)
    {row : TaskRow} (h : .addTask row ∈ cs) :
    db'.tasks.get? row.taskID = some row ∧ ∃ job, db'.jobs.get? row.jobID = some job := by
  induction hcs with
  | nil => cases h
  | @cons d d₁ db' c cs hstep hrest ih =>
    have hins' : ∀ c ∈ cs, Inserts j c := fun c hc => hins c (List.mem_cons_of_mem _ hc)
    rcases List.mem_cons.mp h with rfl | h
    · obtain ⟨⟨hnew, _, _, hjob⟩, rfl⟩ := hstep
      refine Changes.keeps hrest (I := fun d => d.tasks.get? row.taskID = some row ∧
        ∃ job, d.jobs.get? row.jobID = some job) ?_
        ⟨Table.get?_insert_self hnew, Option.isSome_iff_exists.mp hjob⟩
      rintro d c hc _ ⟨hrow, job, hjob⟩
      obtain ⟨job', hjob', _⟩ := c.job_apply now hjob
      exact ⟨Change.task_untouched hrow ((hins' c hc).untouched row), job', hjob'⟩
    · exact ih hins' h

end Inserts

section Submission

variable {α : Type} {start cur : DB} {Φ : Outcome α → DB → Prop} {j : UUID}

theorem leads_insertTaskInputs {splits : List ScheduleTaskInput} {k : Tx α}
    (hfail : ∀ e, Φ ⟨.error e, []⟩ start)
    (hk : ∀ cs db, Changes now cur cs db → (∀ c ∈ cs, Inserts j c) → addedTasks cs = [] →
      addedConfigs cs = [] → Leads now locked start k db Φ) :
    Leads now locked start (insertTaskInputs t splits k) cur Φ := by
  induction splits generalizing cur with
  | nil => exact hk [] cur (.nil cur) nofun rfl rfl
  | cons split rest ih =>
    refine leads_stmt (ends_ite (fun hok => ?_) fun _ => leads_rollback (hfail _))
    simp only [answer] at hok
    obtain ⟨row, hrow⟩ := Option.isSome_iff_exists.mp hok
    refine ih fun cs db hcs hins ht hc =>
      hk (.addInput row :: cs) db (.cons ⟨trivial, ?_⟩ hcs) ?_ ht hc
    · simp only [Query.apply, Query.write, Query.insert, hrow]
      rfl
    · exact List.forall_mem_cons.mpr ⟨trivial, hins⟩

/-- The row of TASKS for a task of the request. -/
def ScheduleTask.row (s : Scheduler) (j : UUID) (expectedReplicaIndex : Nat)
    (task : ScheduleTask) : Option TaskRow :=
  match s.uuidParse task.taskID, parseTaskType task.taskType with
  | some t, some ty =>
    let replicaIndex :=
      match ty with
      | .map => (expectedReplicaIndex : Int)
      | .reduce => task.replicaIndex
    some ⟨t, j, ty, .idle, replicaIndex.toNat, none⟩
  | _, _ => none

theorem leads_insertTasks {replica : Nat} {tasks : List ScheduleTask} {k : Tx α}
    (hfail : ∀ e, Φ ⟨.error e, []⟩ start)
    (hk : ∀ cs db, Changes now cur cs db → (∀ c ∈ cs, Inserts j c) →
      (addedTasks cs).map some = tasks.map (ScheduleTask.row s j replica) → addedConfigs cs = [] →
      Leads now locked start k db Φ) :
    Leads now locked start (insertTasks s j replica tasks k) cur Φ := by
  induction tasks generalizing cur with
  | nil => exact hk [] cur (.nil cur) nofun rfl rfl
  | cons task rest ih =>
    unfold insertTasks
    split
    · exact leads_rollback (hfail _)
    · next t ht =>
      refine ends_ite (fun _ => leads_rollback (hfail _)) fun _ => ?_
      split
      · exact leads_rollback (hfail _)
      · next ty hty =>
        refine leads_stmt (ends_ite (fun hok => ?_) fun _ => leads_rollback (hfail _))
        simp only [answer, Bool.and_eq_true, decide_eq_true_eq] at hok
        refine leads_insertTaskInputs (j := j) hfail fun cs db hcs hins hts hcfg => ?_
        refine ih fun cs' db' hcs' hins' hrows hcfg' =>
          hk (.addTask ⟨t, j, ty, .idle, Int.toNat _, none⟩ :: (cs ++ cs')) db'
            (.cons ⟨⟨hok.1.1, rfl, rfl, hok.1.2⟩, rfl⟩ (hcs.append hcs')) ?_ ?_ ?_
        · refine List.forall_mem_cons.mpr ⟨rfl, fun c hc => ?_⟩
          exact (List.mem_append.mp hc).elim (hins c) (hins' c)
        · rw [show addedTasks (_ :: (cs ++ cs')) = _ :: addedTasks (cs ++ cs') from rfl,
            addedTasks_append, hts, List.nil_append, List.map_cons, List.map_cons, hrows]
          refine congrArg (· :: _) ?_
          cases ty <;> simp only [ScheduleTask.row, ht, hty]
        · rw [show addedConfigs (_ :: (cs ++ cs')) = addedConfigs (cs ++ cs') from rfl,
            addedConfigs_append, hcfg, hcfg', List.append_nil]

theorem leads_insertJob {user : UUID} {replica : Nat} {k : Unit → Tx α}
    (hk : ∀ cs db, Changes now cur cs db → (∀ c ∈ cs, Inserts j c) →
      (db.jobs.get? j).isSome = true → addedTasks cs = [] → addedConfigs cs = [] →
      Leads now locked start (k ()) db Φ) :
    Leads now locked start (.query (.insertJob j user replica) k) cur Φ := by
  let row : JobRow := ⟨j, user, .pending, replica, now, now⟩
  refine leads_stmt ?_
  show Leads now locked start (k ()) { cur with jobs := cur.jobs.insert row } Φ
  cases hj : cur.jobs.get? j with
  | none =>
    refine hk [.addJob row] _ (.single ⟨⟨hj, rfl⟩, rfl⟩) (List.forall_mem_singleton.mpr rfl) ?_
      rfl rfl
    exact Option.isSome_iff_exists.mpr ⟨row, Table.get?_insert_self (r := row) hj⟩
  | some row' =>
    rw [Table.insert_of_some (r := row) hj]
    exact hk [] cur (.nil cur) nofun (by rw [hj]; rfl) rfl rfl

theorem configRow_jobID {input mapper reducer combiner checksum : String} {m r : Int}
    {row : JobConfigRow}
    (h : Query.configRow j input mapper reducer combiner m r checksum = some row) :
    row.jobID = j := by
  unfold Query.configRow at h
  split at h
  · cases h
    rfl
  · cases h

theorem leads_insertJobConfig {input mapper reducer combiner checksum : String} {m r : Int}
    {k : Bool → Tx α}
    (hfail : ∀ cur', Leads now locked start (k false) cur' Φ)
    (hk : ∀ row db, Query.configRow j input mapper reducer combiner m r checksum = some row →
      Changes now cur [.addConfig row] db → Leads now locked start (k true) db Φ) :
    Leads now locked start (.query (.insertJobConfig j input mapper reducer combiner m r checksum)
      k) cur Φ := by
  refine leads_stmt ?_
  simp only [answer, Query.apply, Query.write, Query.insert]
  cases hrow : Query.configRow j input mapper reducer combiner m r checksum with
  | none => exact hfail _
  | some row =>
    show Leads now locked start (k true) { cur with jobConfigs := cur.jobConfigs.insert row } Φ
    exact hk row _ hrow (.single ⟨trivial, rfl⟩)

end Submission

/-- The numbers of a valid request are positive, and those of its tasks. -/
theorem valid_counts (h : validateScheduleJobRequest s req = .ok ()) :
    (1 ≤ req.mTasks ∧ 1 ≤ req.rTasks) ∧
      countTasks "Map" req.tasks = req.mTasks ∧ countTasks "Reduce" req.tasks = req.rTasks := by
  unfold validateScheduleJobRequest at h
  obtain ⟨_, h⟩ := ok_of_guard h
  obtain ⟨_, h⟩ := ok_of_guard h
  obtain ⟨_, h⟩ := ok_of_guard h
  obtain ⟨_, h⟩ := ok_of_guard h
  obtain ⟨_, h⟩ := ok_of_guard h
  obtain ⟨hpos, h⟩ := ok_of_guard h
  obtain ⟨_, h⟩ := ok_of_guard h
  obtain ⟨hmap, h⟩ := ok_of_guard h
  obtain ⟨hreduce, _⟩ := ok_of_guard h
  exact ⟨by omega, not_not.mp hmap, not_not.mp hreduce⟩

/-- A request that passes the validation has a Map task and a Reduce task. -/
theorem validateScheduleJobRequest_tasks (h : validateScheduleJobRequest s req = .ok ())
    (ty : TaskType) : ∃ task ∈ req.tasks, parseTaskType task.taskType = some ty := by
  have hcount : ∀ name : String, 0 < countTasks name req.tasks →
      ∃ task ∈ req.tasks, task.taskType = name := by
    intro name hpos
    obtain ⟨task, htask, hname⟩ := List.countP_pos_iff.mp (Int.natCast_pos.mp hpos)
    exact ⟨task, htask, of_decide_eq_true hname⟩
  obtain ⟨⟨hm, hr⟩, hmaps, hreduces⟩ := valid_counts h
  cases ty with
  | map =>
    obtain ⟨task, htask, hname⟩ := hcount "Map" (by omega)
    exact ⟨task, htask, hname ▸ rfl⟩
  | reduce =>
    obtain ⟨task, htask, hname⟩ := hcount "Reduce" (by omega)
    exact ⟨task, htask, hname ▸ rfl⟩

/-- The changes of a ScheduleJob call: a row of TASKS for each task of a valid request, and the
row of JOB_CONFIGS, both for the job. -/
structure Submits (s : Scheduler) (req : ScheduleJobRequest) (j : UUID) (cs : List Change) :
    Prop where
  valid : validateScheduleJobRequest s req = .ok ()
  inserts : ∀ c ∈ cs, Inserts j c
  tasks : ∃ replica, computeReplicaIndex req.jobID s.totalReplicas = some replica ∧
    (addedTasks cs).map some = req.tasks.map (ScheduleTask.row s j replica)
  config : ∃ row, addedConfigs cs = [row] ∧ Query.configRow j req.inputURI req.mapperURI
    req.reducerURI req.combinerURI req.mTasks req.rTasks req.inputChecksum = some row

/-- There are tasks of both types among them. -/
theorem Submits.tasks_of {cs : List Change} (h : Submits s req j cs) (ty : TaskType) :
    ∃ row, .addTask row ∈ cs ∧ row.taskType = ty := by
  obtain ⟨task, htask, hty⟩ := validateScheduleJobRequest_tasks h.valid ty
  obtain ⟨replica, _, hrows⟩ := h.tasks
  have hmem := List.mem_map_of_mem (f := ScheduleTask.row s j replica) htask
  rw [← hrows] at hmem
  obtain ⟨row, hrow, heq⟩ := List.mem_map.mp hmem
  refine ⟨row, mem_addedTasks.mp hrow, ?_⟩
  unfold ScheduleTask.row at heq
  rw [hty] at heq
  split at heq
  · next h' =>
    cases h'
    cases heq
    rfl
  · cases heq

/-- ScheduleJob is refused, or adds the rows of its request. -/
theorem scheduleJob_changes :
    Leads now locked db (scheduleJob s req) db fun out db' =>
      Refused db out db' ∨
      out.result = .ok () ∧ ∃ j cs, s.uuidParse req.jobID = some j ∧
        out.post = [[.ensureWorkerPool j (min defaultReaperPoolSize req.mTasks.toNat)
          s.managerAddr]] ∧
        Changes now db cs db' ∧ Submits s req j cs := by
  unfold scheduleJob
  split
  · next j user replica hvalid hj huser hreplica =>
    refine leads_insertJob fun cs₁ db₁ h₁ hi₁ _ ht₁ hc₁ => ?_
    refine leads_insertJobConfig (fun _ => leads_rollback (.inl (refused _)))
      fun row db₂ hrow h₂ => ?_
    refine leads_insertTasks (fun e => .inl (refused e)) fun cs₃ db₃ h₃ hi₃ ht₃ hc₃ => ?_
    refine leads_emit fun db₄ h₄ => leads_commit (.inr ⟨rfl, j, _, hj, rfl,
      h₁.append (h₂.append (h₃.append h₄)), ⟨hvalid, fun c hc => ?_, ⟨replica, hreplica, ?_⟩,
        ⟨row, ?_, hrow⟩⟩⟩)
    · simp only [List.mem_append] at hc
      rcases hc with hc | hc | hc | hc
      · exact hi₁ c hc
      · exact List.mem_singleton.mp hc ▸ configRow_jobID hrow
      · exact hi₃ c hc
      · exact inserts_logs hc
    · rw [addedTasks_append, ht₁, addedTasks_append, addedTasks_append, addedTasks_logs,
        List.append_nil]
      exact ht₃
    · rw [addedConfigs_append, hc₁, addedConfigs_append, addedConfigs_append, hc₃,
        addedConfigs_logs]
      rfl
  · exact leads_rollback (.inl (refused _))
  · exact leads_rollback (.inl (refused _))

/-- The API's CreateJob is refused, or adds the job and its configuration. -/
theorem createJob_changes {rec : JobRecord} :
    Leads now locked db (createJob s rec) db fun out db' =>
      Refused db out db' ∨
      out.result = .ok () ∧ out.post = [[]] ∧ ∃ row cfg, s.uuidParse rec.jobID = some row.jobID ∧
        Query.configRow row.jobID rec.filename rec.mapperURI rec.reducerURI rec.combinerURI
          rec.mTasks rec.reducers rec.inputChecksum = some cfg ∧
        Changes now db [.addJob row, .addConfig cfg] db' := by
  unfold createJob
  split
  · next j user replica hj huser hreplica =>
    refine leads_stmt (ends_ite (fun hok => ?_) fun _ => leads_rollback (.inl (refused _)))
    simp only [answer, decide_eq_true_eq] at hok
    let row : JobRow := ⟨j, user, .pending, replica, rec.createdAt, rec.createdAt⟩
    have hjob : Changes now db [.addJob row] { db with jobs := db.jobs.insert row } :=
      .single ⟨⟨hok, rfl⟩, rfl⟩
    refine leads_stmt (ends_ite (fun hok' => ?_) fun _ => leads_rollback (.inl (refused _)))
    simp only [answer, Bool.and_eq_true] at hok'
    obtain ⟨cfg, hcfg⟩ := Option.isSome_iff_exists.mp hok'.1
    have hconf : Change.Step now { db with jobs := db.jobs.insert row } (.addConfig cfg) _ :=
      ⟨trivial, rfl⟩
    simp only [Query.apply, Query.write, Query.insert, hcfg]
    exact leads_commit (.inr ⟨rfl, rfl, row, cfg, hj, hcfg, hjob.snoc hconf⟩)
  · exact leads_rollback (.inl (refused _))

end Operations

end KubeMapReduce
