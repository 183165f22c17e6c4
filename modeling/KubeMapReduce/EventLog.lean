import KubeMapReduce.Closing

/-!
# The event log

The operations write their events into the outbox in the transaction that makes the change. Each
of them names the events by hand, with the old status of a job as a constant in most of them.

* `Logged`: a transaction has one tasks.assigned event for each task that it takes from Idle to
  In-Progress, and for each job whose status it changes one jobs.state.changed event, with the old
  and the new status.
* `logged_iff`: which steps of a run are logged. GetNextTask writes no event for a Reduce task and
  none for the status of the job, finalizeJob writes none at all, and the reaper says Running for
  the old status of every job.
* `events_missing`: a job whose steps are not logged.
-/

namespace KubeMapReduce

open Tables Runs

variable {s' : JobStatus} {recs : List StaleRec} {clock : Time} {a lease t : UUID}
  {heartbeats : UUID → Option Time} {now : Time} {db db' : DB} {j : UUID} {cs : List Change}

/-! ## 1. The events of a transaction -/

def Change.event : Change → Option Event
  | log e => some e
  | _ => none

/-- The events that the changes insert, in their order. -/
def events (cs : List Change) : List Event := cs.filterMap Change.event

@[simp] theorem events_nil : events [] = [] := rfl

@[simp] theorem events_cons (c : Change) (cs : List Change) :
    events (c :: cs) = c.event.toList ++ events cs := by
  rw [events, List.filterMap_cons]
  cases c.event <;> rfl

@[simp] theorem events_append (cs cs' : List Change) :
    events (cs ++ cs') = events cs ++ events cs' := List.filterMap_append

theorem events_logs {s : Scheduler} (h : s.emitsEvents = true) (es : List Event) :
    events (logs s es) = es := by
  rw [logs, if_pos h, events, List.filterMap_map]
  exact List.filterMap_some

/-- The events that a transaction has inserted. -/
def newEvents (db db' : DB) : List Event := db'.outbox.drop db.outbox.length

theorem apply_outbox (c : Change) : (c.apply now db).outbox = db.outbox ++ c.event.toList := by
  cases c with
  | log e => rfl
  | _ => exact (List.append_nil _).symm

theorem outbox_changes (h : Changes now db cs db') : db'.outbox = db.outbox ++ events cs := by
  induction h with
  | nil => exact (List.append_nil _).symm
  | cons hs _ ih => rw [ih, hs.2, apply_outbox, events_cons, List.append_assoc]

theorem newEvents_changes (h : Changes now db cs db') : newEvents db db' = events cs := by
  rw [newEvents, outbox_changes h, List.drop_left]

/-! ## 2. The law -/

def Event.assigns (t : UUID) : Event → Bool
  | taskAssigned t' _ _ _ _ => decide (t' = t)
  | _ => false

def Event.changesState (j : UUID) : Event → Bool
  | jobStateChanged j' _ _ => decide (j' = j)
  | _ => false

/-- The task goes from Idle to In-Progress. -/
def Assigns (db db' : DB) (t : UUID) : Prop :=
  ∃ row row', db.tasks.get? t = some row ∧ db'.tasks.get? t = some row' ∧ row.status = .idle ∧
    row'.status = .inProgress

/-- The transaction has inserted the events of what it has changed. -/
structure Logged (db db' : DB) : Prop where
  assigned : ∀ t, Assigns db db' t → (newEvents db db').countP (Event.assigns t) = 1
  changed : ∀ j s s', db.jobStatus j = some s → db'.jobStatus j = some s' → s ≠ s' →
    (newEvents db db').filter (Event.changesState j) = [.jobStateChanged j s s']

/-- A task that is In-Progress after the changes was so before, or has been assigned. -/
theorem inProgress_origin (h : Changes now db cs db') {row' : TaskRow}
    (ht : db'.tasks.get? t = some row') (hs : row'.status = .inProgress) :
    (∃ row, db.tasks.get? t = some row ∧ row.status = .inProgress) ∨
      ∃ a r, .assign t a r ∈ cs := by
  by_cases hrun : ∃ row, db.tasks.get? t = some row ∧ row.status = .inProgress
  · exact .inl hrun
  obtain ⟨bs, c, ds, d, _, rfl, _, ⟨hg, rfl⟩, _, hd, row₁, hrow₁, hs₁⟩ := h.exists_switch
    (P := fun d => ∃ row, d.tasks.get? t = some row ∧ row.status = .inProgress) hrun ⟨row', ht, hs⟩
  rcases Change.inProgress_cases hg hrow₁ hs₁ with ⟨hrow, _⟩ | ⟨a, r, rfl, _⟩
  · exact absurd ⟨row₁, hrow, hs₁⟩ hd
  · exact .inr ⟨a, r, List.mem_append_right _ List.mem_cons_self⟩

theorem Assigns.mem (h : Changes now db cs db') (ha : Assigns db db' t) :
    ∃ a r, .assign t a r ∈ cs := by
  obtain ⟨row, row', ht, ht', hs, hs'⟩ := ha
  refine (inProgress_origin h ht' hs').resolve_left ?_
  rintro ⟨row₀, ht₀, hs₀⟩
  cases ht.symm.trans ht₀
  cases hs.symm.trans hs₀

/-- The status of a job changes by a change that writes it. -/
theorem setJob_mem (h : Changes now db cs db') {s : JobStatus} (hs : db.jobStatus j = some s)
    (hs' : db'.jobStatus j = some s') (hne : s ≠ s') : ∃ status, .setJob j status ∈ cs := by
  by_contra hno
  rcases jobStatus_kept h fun status hmem => hno ⟨status, hmem⟩ with hkept | ⟨hnone, _⟩
  · rw [hs, hs'] at hkept
    exact hne (Option.some.inj hkept).symm
  · cases hs.symm.trans hnone

/-- A transaction that assigns no task, and writes the status of no job but this one. -/
theorem logged_of_job (h : Changes now db cs db') (hassign : ∀ t a r, .assign t a r ∉ cs)
    (hset : ∀ j' status, .setJob j' status ∈ cs → j' = j)
    (hlog : ∀ s s', db.jobStatus j = some s → db'.jobStatus j = some s' → s ≠ s' →
      (events cs).filter (Event.changesState j) = [.jobStateChanged j s s']) :
    Logged db db' := by
  refine ⟨fun t ha => ?_, fun j' s s' hs hs' hne => ?_⟩
  · obtain ⟨a, r, hmem⟩ := ha.mem h
    exact absurd hmem (hassign t a r)
  · obtain ⟨status, hmem⟩ := setJob_mem h hs hs' hne
    cases hset j' status hmem
    rw [newEvents_changes h]
    exact hlog s s' hs hs' hne

/-- A transaction that assigns no task and writes the status of no job. -/
theorem logged_of_quiet (h : Changes now db cs db') (hassign : ∀ t a r, .assign t a r ∉ cs)
    (hset : ∀ j' status, .setJob j' status ∉ cs) : Logged db db' := by
  refine ⟨fun t ha => ?_, fun j' s s' hs hs' hne => ?_⟩
  · obtain ⟨a, r, hmem⟩ := ha.mem h
    exact absurd hmem (hassign t a r)
  · obtain ⟨status, hmem⟩ := setJob_mem h hs hs' hne
    exact absurd hmem (hset j' status)

/-! ## 3. Jobs of tasks that are In-Progress -/

/-- The job of a task that is In-Progress is not Pending. -/
def Started (db : DB) : Prop :=
  ∀ t row, db.tasks.get? t = some row → row.status = .inProgress →
    ∃ st ∈ db.jobStatus row.jobID, st ≠ .pending

theorem notPending_changes (h : Changes now db cs db')
    (hs : ∃ st ∈ db.jobStatus j, st ≠ .pending) : ∃ st ∈ db'.jobStatus j, st ≠ .pending := by
  refine h.keeps (I := fun d => ∃ st ∈ d.jobStatus j, st ≠ .pending) ?_ hs
  rintro d c _ hg ⟨st, hst, hne⟩
  obtain ⟨row, hrow, rfl⟩ := Option.map_eq_some_iff.mp hst
  obtain ⟨row', hrow', _, hsame | hc⟩ := c.job_apply now hrow
  · exact ⟨row'.status, by rw [DB.jobStatus, hrow']; rfl, hsame ▸ hne⟩
  · refine ⟨row'.status, by rw [DB.jobStatus, hrow']; rfl, ?_⟩
    rw [hc] at hg
    exact hg.1

theorem Started.changes (hd : Started db) (h : Changes now db cs db')
    (hassign : ∀ t a r, .assign t a r ∈ cs → ∀ row ∈ db'.tasks.get? t,
      ∃ st ∈ db'.jobStatus row.jobID, st ≠ .pending) : Started db' := by
  intro t row' ht' hs'
  rcases inProgress_origin h ht' hs' with ⟨row, ht, hs⟩ | ⟨a, r, hmem⟩
  · have hjob := changes_jobOf h (t := t) (j := row.jobID) (by rw [DB.jobOf, ht]; rfl)
    rw [DB.jobOf, ht', Option.map_some] at hjob
    rw [Option.some.inj hjob]
    exact notPending_changes h (hd t row ht hs)
  · exact hassign t a r hmem row' ht'

/-! ## 4. GetNextTask -/

/-- Status changes and events leave the tasks as they are. -/
theorem tasks_kept (h : Changes now db cs db')
    (hcs : ∀ c ∈ cs, (∃ j status, c = .setJob j status) ∨ ∃ e, c = .log e) :
    db'.tasks = db.tasks := by
  refine h.keeps (I := fun d => d.tasks = db.tasks) ?_ rfl
  rintro d c hc _ hd
  obtain ⟨_, _, rfl⟩ | ⟨_, rfl⟩ := hcs c hc
  · exact hd
  · exact hd

section HandsOver

variable {s : Scheduler} {locked : Resource → Bool} {worker : String} {ty : TaskType}
  {row : TaskRow} {out : Outcome Task}

theorem HandsOver.assigned (h : HandsOver s now locked db j worker a lease ty row out db') :
    ∃ row', db'.tasks.get? row.taskID = some row' ∧ row'.status = .inProgress ∧
      row'.jobID = j := by
  rw [tasks_kept h.tail fun c hc => (List.mem_cons.mp hc).imp (fun he => ⟨_, _, he⟩) mem_logs]
  exact ⟨_, Change.task_touched h.picked.task rfl, rfl, h.picked.job⟩

/-- A Map task is handed out with an event. -/
theorem HandsOver.events (h : HandsOver s now locked db j worker a lease ty row out db') :
    newEvents db db' = events (logs s (if row.taskType = .map then
      [.taskAssigned row.taskID j .map worker s.leaseTTL] else [])) := by
  rw [newEvents_changes h.changes, h.picked.type]
  cases ty <;> rfl

/-- Without a task to hand out, GetNextTask has no event. -/
theorem getNextTask_log (s : Scheduler) (j : UUID) (worker : String) (a lease : UUID) (now : Time)
    (locked : Resource → Bool) (db : DB) :
    (∃ out ty row, HandsOver s now locked db j worker a lease ty row out
      (perform (.getNextTask s j worker a lease) now locked db).2) ∨
    ∃ cs, Changes now db cs (perform (.getNextTask s j worker a lease) now locked db).2 ∧
      (∀ t att r, .assign t att r ∉ cs) ∧ (∀ j' status, .setJob j' status ∈ cs → j' = j) ∧
      events cs = [] ∧ (cs = [] ∨ db.jobStatus j ≠ none) := by
  obtain ⟨out, _, h | h | ⟨ty, row, h⟩⟩ :=
    performed (c := .getNextTask s j worker a lease) rfl getNextTask_changes
  · exact .inr ⟨[], h.refused.1 ▸ .nil _, by simp⟩
  · obtain ⟨tail, hcs, htail⟩ := h.changes
    refine .inr ⟨_, hcs, ?_⟩
    rcases htail with ⟨rfl, _⟩ | ⟨_, _, rfl, _⟩
    · simp [Change.event, h.known]
    · simp [Change.event, h.known]
  · exact .inl ⟨out, ty, row, h⟩

end HandsOver

theorem started_step {w w' : World} {a : Label} (hw : Started w.db) (h : Step w a w') :
    Started w'.db := by
  by_cases ha : ∃ s j worker x lease now locked,
      a = .call (.getNextTask s j worker x lease) now locked
  · obtain ⟨s, j, worker, x, lease, now, locked, rfl⟩ := ha
    obtain ⟨_, _, hdb, _⟩ := step_call h
    rw [hdb]
    obtain ⟨_, _, row, ho⟩ | ⟨cs, hcs, hno, _, _, _⟩ :=
      getNextTask_log s j worker x lease now locked w.db
    · refine hw.changes ho.changes fun t att r hmem row' hrow' => ?_
      obtain ⟨row₁, hrow₁, _, hj⟩ := ho.assigned
      obtain ⟨rfl, _⟩ := assign_handout hmem
      cases hrow₁.symm.trans hrow'
      exact ⟨.running, by rw [hj]; exact ho.running, by simp⟩
    · exact hw.changes hcs fun t att r hmem => absurd hmem (hno t att r)
  · obtain ⟨now, cs, _, hcs, hm⟩ := step_changes h
    refine hw.changes hcs fun t att r hmem => ?_
    obtain ⟨s, j, worker, x, lease, now', locked, he, _⟩ := hm _ hmem
    exact absurd ⟨s, j, worker, x, lease, now', locked, he⟩ ha

theorem started_run {q : Option Nat} {as : List Label} {w : World}
    (h : Run Step (World.initial q) as w) : Started w.db := by
  refine h.invariant (I := fun v => Started v.db) (fun _ _ _ hv hs => started_step hv hs) ?_
  intro t row ht
  cases ht

/-! ## 5. Which steps are logged -/

def Call.scheduler : Call → Option Scheduler
  | .createJob s _ | .scheduleJob s _ | .getNextTask s _ _ _ _ | .renewLease s _ _ _ _
  | .completeTask s _ _ _ _ _ | .failTask s _ _ _ _ | .cancelJob s _ | .failStaleTasks s _ _
  | .recoverFailAttempts s | .recoverResetTasks s | .recoverWorkerPools s => some s
  | .finalizeJob _ _ | .failRunningAttemptsByJob _ => none

/-- The scheduler that runs the call has a live emitter. -/
def emitting : Label → Prop
  | .call c _ _ => ∀ s ∈ c.scheduler, s.emitsEvents = true
  | _ => True

/-- GetNextTask changes the status of the job or assigns a Reduce task, finalizeJob changes the
status of the job, or the reaper that of a job that was not Running. -/
def unlogged (db db' : DB) : Label → Prop
  | .call (.getNextTask _ j _ _ _) _ _ => db'.jobStatus j ≠ db.jobStatus j ∨
      ∃ t row, db.tasks.get? t = some row ∧ row.taskType = .reduce ∧ Assigns db db' t
  | .call (.finalizeJob j _) _ _ => db'.jobStatus j ≠ db.jobStatus j
  | .call (.failStaleTasks _ _ _) _ _ => ∃ j s, db.jobStatus j = some s ∧ s ≠ .running ∧
      db'.jobStatus j ≠ some s
  | _ => False

section Calls

variable {s : Scheduler} {locked : Resource → Bool}

theorem Logged.refl (db : DB) : Logged db db := by
  have h : Changes 0 db [] db := .nil db
  exact logged_of_quiet h (by simp) (by simp)

/-- A transaction without a jobs.state.changed event has to leave the status as it is. -/
theorem Logged.unchanged (h : Logged db db')
    (hno : (newEvents db db').filter (Event.changesState j) = []) {s : JobStatus}
    (hs : db.jobStatus j = some s) (hs' : db'.jobStatus j = some s') : s = s' := by
  by_contra hne
  cases hno.symm.trans (h.changed j s s' hs hs' hne)

/-- A job keeps a row, so a status that differs is another status. -/
theorem status_of_changes (h : Changes now db cs db') {s : JobStatus}
    (hs : db.jobStatus j = some s) : ∃ s', db'.jobStatus j = some s' := by
  refine h.keeps (I := fun d => ∃ s, d.jobStatus j = some s) ?_ ⟨s, hs⟩
  rintro d c _ _ ⟨s, hs⟩
  obtain ⟨row, hrow, _⟩ := Option.map_eq_some_iff.mp hs
  obtain ⟨row', hrow', _⟩ := c.job_apply now hrow
  exact ⟨row'.status, by rw [DB.jobStatus, hrow']; rfl⟩

theorem getNextTask_logged {worker : String} (he : s.emitsEvents = true) :
    Logged db (perform (.getNextTask s j worker a lease) now locked db).2 ↔
      ¬ unlogged db (perform (.getNextTask s j worker a lease) now locked db).2
        (.call (.getNextTask s j worker a lease) now locked) := by
  obtain ⟨_, _, row, ho⟩ | ⟨cs, hcs, hno, hset, hev, hknown⟩ :=
    getNextTask_log s j worker a lease now locked db
  · generalize (perform (.getNextTask s j worker a lease) now locked db).2 = db' at ho
    have hev := ho.events
    rw [events_logs he] at hev
    have hassigns : Assigns db db' row.taskID := by
      obtain ⟨row', hrow', hs', _⟩ := ho.assigned
      exact ⟨row, row', ho.row_eq, hrow', ho.picked.idle, hs'⟩
    have hstate : (newEvents db db').filter (Event.changesState j) = [] := by
      rw [hev]
      split <;> rfl
    obtain ⟨st, hst⟩ := Option.ne_none_iff_exists'.mp ho.known
    constructor
    · rintro hl (hne | ⟨t, row', hrow', hred, ha⟩)
      · rw [hst, ho.running, hl.unchanged hstate hst ho.running] at hne
        exact hne rfl
      · obtain ⟨_, _, hmem⟩ := ha.mem ho.changes
        obtain ⟨rfl, _⟩ := assign_handout hmem
        cases ho.row_eq.symm.trans hrow'
        have hone := hl.assigned _ ha
        rw [hev, if_neg (by rw [hred]; simp)] at hone
        cases hone
    · intro hun
      obtain ⟨hsame, hmap⟩ := not_or.mp hun
      have htype : row.taskType = .map := by
        cases hty : row.taskType with
        | map => rfl
        | reduce => exact absurd ⟨_, row, ho.row_eq, hty, hassigns⟩ hmap
      refine ⟨fun t ha => ?_, fun j' s₁ s₂ hs₁ hs₂ hne => ?_⟩
      · obtain ⟨_, _, hmem⟩ := ha.mem ho.changes
        obtain ⟨rfl, _⟩ := assign_handout hmem
        rw [hev, if_pos htype]
        simp [Event.assigns]
      · obtain ⟨_, hmem⟩ := setJob_mem ho.changes hs₁ hs₂ hne
        obtain ⟨rfl, _⟩ := setJob_handout hmem
        rw [hs₁, hs₂] at hsame
        exact absurd (Option.some.inj (not_not.mp hsame)).symm hne
  · generalize (perform (.getNextTask s j worker a lease) now locked db).2 = db' at hcs
    constructor
    · rintro hl (hne | ⟨t, _, _, _, ha⟩)
      · rcases hknown with rfl | hknown
        · cases hcs
          exact hne rfl
        · obtain ⟨st, hst⟩ := Option.ne_none_iff_exists'.mp hknown
          obtain ⟨st', hst'⟩ := status_of_changes hcs hst
          have hsame := hl.unchanged (by rw [newEvents_changes hcs, hev]; rfl) hst hst'
          exact hne (by rw [hst, hst', hsame])
      · obtain ⟨_, _, hmem⟩ := ha.mem hcs
        exact hno _ _ _ hmem
    · intro hun
      refine logged_of_job hcs hno hset fun s₁ s₂ hs₁ hs₂ hne => absurd ?_ hun
      refine .inl ?_
      rw [hs₁, hs₂]
      exact fun heq => hne (Option.some.inj heq).symm

theorem assign_notMem_logs {es : List Event} {a : AttemptRow} {r : Nat} :
    Change.assign t a r ∉ logs s es := by
  intro h
  obtain ⟨e, he⟩ := mem_logs h
  cases he

theorem Started.running (hd : Started db) {row : TaskRow} (ht : db.tasks.get? t = some row)
    (hs : row.status = .inProgress)
    (hopen : db.jobStatus row.jobID = some .running ∨ db.jobStatus row.jobID = some .pending) :
    db.jobStatus row.jobID = some .running := by
  obtain ⟨st, hst, hne⟩ := hd t row ht hs
  refine hopen.resolve_right fun hp => ?_
  cases hst.symm.trans hp
  exact hne rfl

/-- A report is logged, also if it closes its job, which is Running then. -/
theorem Reported.logged {c : Change} {e : Event} {status : JobStatus} {closes : Prop}
    {out : Outcome Unit} (h : Reported s now db t a j c e status closes out db')
    (he : s.emitsEvents = true) (hd : Started db) (hassign : ∀ t a r, Change.assign t a r ≠ c)
    (hset : ∀ j' st, Change.setJob j' st ≠ c) (hc : c.event = none)
    (hev : e.changesState j = false) : Logged db db' := by
  rcases h.course with ⟨hcs, _⟩ | ⟨_, hcs, _⟩
  · refine logged_of_quiet hcs (fun t a r hmem => ?_) fun j' st => setJob_notMem_cons (hset j' st)
    exact assign_notMem_logs ((List.mem_cons.mp hmem).resolve_left (hassign t a r))
  have hsets : ∀ j' st, .setJob j' st ∈ c :: .setJob j .cleaning ::
      logs s [e, .jobStateChanged j .running .cleaning] → j' = j ∧ st = .cleaning :=
    fun j' st => eq_of_setJob_mem (hset j' st)
  have hrun : db.jobStatus j = some .running := by
    obtain ⟨row, _, hcur, rfl⟩ := h.current
    exact hd.running hcur.task hcur.status h.running
  refine logged_of_job hcs (fun t a r hmem => ?_) (fun j' st hmem => (hsets j' st hmem).1)
    fun s₁ s₂ hs₁ hs₂ _ => ?_
  · rcases List.mem_cons.mp hmem with hmem | hmem
    · exact hassign t a r hmem
    · rcases List.mem_cons.mp hmem with hmem | hmem
      · cases hmem
      · exact assign_notMem_logs hmem
  · have hclean : db'.jobStatus j = some .cleaning :=
      jobStatus_set hcs (by simp [hrun]) (fun st hmem => (hsets j st hmem).2) (.inl (by simp))
    cases hrun.symm.trans hs₁
    cases hclean.symm.trans hs₂
    rw [events_cons, hc, events_cons, events_logs he]
    show [e, .jobStateChanged j .running .cleaning].filter (Event.changesState j) = _
    rw [List.filter_cons_of_neg (by simp [hev]),
      List.filter_cons_of_pos (by simp [Event.changesState]),
      List.filter_nil]

theorem completeTask_logged {us cks : List String} (he : s.emitsEvents = true) (hd : Started db) :
    Logged db (perform (.completeTask s t a lease us cks) now locked db).2 := by
  obtain ⟨_, _, h | ⟨_, j, h⟩⟩ := performed
    (c := .completeTask s t a lease us cks) rfl completeTask_changes
  · rw [h.1]
    exact .refl db
  · exact h.logged he hd (by simp) (by simp) rfl rfl

theorem failTask_logged {reason : String} (he : s.emitsEvents = true) (hd : Started db) :
    Logged db (perform (.failTask s t a lease reason) now locked db).2 := by
  obtain ⟨_, _, h | ⟨j, status, h⟩⟩ :=
    performed (c := .failTask s t a lease reason) rfl failTask_changes
  · rw [h.1]
    exact .refl db
  · exact h.logged he hd (by simp) (by simp) rfl rfl

theorem cancelJob_logged (he : s.emitsEvents = true) :
    Logged db (perform (.cancelJob s j) now locked db).2 := by
  obtain ⟨_, _, h | ⟨_, old, cs, hold, _, h, hcs⟩⟩ :=
    performed (c := .cancelJob s j) rfl cancelJob_changes
  · rw [h.1]
    exact .refl db
  · have htail : ∀ c ∈ Change.cancel j ::
        logs s [.jobCancelRequested j, .jobStateChanged j old .cleaning],
        c = .cancel j ∨ ∃ e, c = .log e := fun c hc => (List.mem_cons.mp hc).imp_right mem_logs
    rcases hcs with ⟨_, rfl⟩ | ⟨_, rfl⟩
    · refine logged_of_quiet h (fun t a r hmem => ?_) fun j' st hmem => ?_
      · obtain hc | ⟨_, hc⟩ := htail _ hmem <;> cases hc
      · obtain hc | ⟨_, hc⟩ := htail _ hmem <;> cases hc
    · have hsets : ∀ j' st, .setJob j' st ∈ [Change.setJob j .cleaning] ++ .cancel j ::
          logs s [.jobCancelRequested j, .jobStateChanged j old .cleaning] →
          j' = j ∧ st = .cleaning := by
        intro j' st hmem
        rcases List.mem_append.mp hmem with hmem | hmem
        · cases List.mem_singleton.mp hmem
          exact ⟨rfl, rfl⟩
        · obtain hc | ⟨_, hc⟩ := htail _ hmem <;> cases hc
      refine logged_of_job h (fun t a r hmem => ?_) (fun j' st hmem => (hsets j' st hmem).1)
        fun s₁ s₂ hs₁ hs₂ _ => ?_
      · rcases List.mem_append.mp hmem with hmem | hmem
        · cases List.mem_singleton.mp hmem
        · obtain hc | ⟨_, hc⟩ := htail _ hmem <;> cases hc
      · have hclean := jobStatus_set h (by simp [hold]) (fun st hmem => (hsets j st hmem).2)
          (.inl (by simp))
        cases hold.symm.trans hs₁
        cases hclean.symm.trans hs₂
        simp [events_logs he, Change.event, Event.changesState]

theorem finalizeJob_logged {ts : TerminalState} :
    Logged db (perform (.finalizeJob j ts) now locked db).2 ↔
      ¬ unlogged db (perform (.finalizeJob j ts) now locked db).2
        (.call (.finalizeJob j ts) now locked) := by
  obtain ⟨_, _, _, h | ⟨_, hclean, h⟩⟩ := performed (c := .finalizeJob j ts) rfl finalizeJob_changes
  · rw [h]
    exact iff_of_true (.refl db) fun hne => hne rfl
  · generalize (perform (.finalizeJob j ts) now locked db).2 = db' at h
    have hst : db'.jobStatus j = some ts.status :=
      jobStatus_set h (by simp [hclean]) (by simp) (.inl (by simp))
    refine iff_of_false (fun hl => ?_) (not_not.mpr ?_)
    · have hsame := hl.unchanged (by rw [newEvents_changes h]; rfl) hclean hst
      cases ts <;> cases hsame
    · show db'.jobStatus j ≠ db.jobStatus j
      rw [hst, hclean]
      cases ts <;> simp [TerminalState.status]

theorem failedJobs_nodup {acc : Reaped} (h : acc.failedJobs.Nodup) :
    (reapedBy s heartbeats clock recs acc).failedJobs.Nodup := by
  induction recs generalizing acc with
  | nil => exact h
  | cons rec recs ih =>
    rw [reapedBy, List.foldl_cons]
    refine ih ?_
    split
    · split
      · exact h.insert
      · exact h
    · exact h

theorem events_reapChanges : events (reapChanges s heartbeats clock recs) = [] := by
  refine List.filterMap_eq_nil_iff.mpr fun c hc => ?_
  obtain ⟨_, _, _, ⟨_, rfl | rfl⟩ | rfl⟩ := mem_reapChanges hc <;> rfl

/-- A job among those that the reaper fails has one event. -/
theorem filter_failedJobs {jobs : List UUID} (hnodup : jobs.Nodup) (hj : j ∈ jobs) :
    (jobs.map fun j => Event.jobStateChanged j .running .cleaning).filter (Event.changesState j) =
      [.jobStateChanged j .running .cleaning] := by
  have hone : jobs.filter (fun j' => decide (j' = j)) = [j] := by
    rw [List.filter_eq, List.count_eq_one_of_mem hnodup hj]
    rfl
  rw [List.filter_map]
  exact congrArg (List.map _) hone

theorem failStaleTasks_logged (he : s.emitsEvents = true) :
    Logged db (perform (.failStaleTasks s heartbeats clock) now locked db).2 ↔
      ¬ unlogged db (perform (.failStaleTasks s heartbeats clock) now locked db).2
        (.call (.failStaleTasks s heartbeats clock) now locked) := by
  obtain ⟨_, _, _, _, hcs⟩ := performed (c := .failStaleTasks s heartbeats clock) rfl
    failStaleTasks_changes
  generalize (perform (.failStaleTasks s heartbeats clock) now locked db).2 = db' at hcs
  generalize hres : reapedBy s heartbeats clock
    (staleTasks s.replicaIndex (atomically now locked) db) ⟨0, [], []⟩ = res at hcs
  generalize staleTasks s.replicaIndex (atomically now locked) db = stales at hres hcs
  -- a job whose status changes is failed, and has one event
  have hjob : ∀ j s₁ s₂, db.jobStatus j = some s₁ → db'.jobStatus j = some s₂ → s₁ ≠ s₂ →
      s₂ = .cleaning ∧ (newEvents db db').filter (Event.changesState j) =
        [.jobStateChanged j .running .cleaning] := by
    intro j s₁ s₂ hs₁ hs₂ hne
    obtain ⟨st, hmem⟩ := setJob_mem hcs hs₁ hs₂ hne
    obtain ⟨rfl, hj⟩ := setJob_reaped hres hmem
    have hclean := jobStatus_set hcs (by simp [hs₁]) (fun st h => (setJob_reaped hres h).1)
      (.inl hmem)
    have hnodup : res.failedJobs.Nodup := hres ▸ failedJobs_nodup List.nodup_nil
    have hreaped : (stales.map fun rec => Event.taskReaped rec.taskID rec.jobID rec.attemptID
        "lease expired").filter (Event.changesState j) = [] := by
      rw [List.filter_map, List.filter_eq_nil_iff.mpr (by simp [Event.changesState]), List.map_nil]
    refine ⟨Option.some.inj (hs₂.symm.trans hclean), ?_⟩
    rw [newEvents_changes hcs, events_append, events_append, events_reapChanges, events_logs he,
      events_logs he, List.nil_append, List.filter_append, hreaped, List.nil_append]
    exact filter_failedJobs hnodup hj
  constructor
  · rintro hl ⟨j, s₁, hs₁, hrun, hne⟩
    obtain ⟨s₂, hs₂⟩ := status_of_changes hcs hs₁
    have hne' : s₁ ≠ s₂ := by
      rintro rfl
      exact hne hs₂
    obtain ⟨_, hev⟩ := hjob j s₁ s₂ hs₁ hs₂ hne'
    cases hev.symm.trans (hl.changed j s₁ s₂ hs₁ hs₂ hne')
    exact hrun rfl
  · intro hun
    refine ⟨fun t ha => ?_, fun j s₁ s₂ hs₁ hs₂ hne => ?_⟩
    · obtain ⟨a, r, hmem⟩ := ha.mem hcs
      rcases List.mem_append.mp hmem with hmem | hmem
      · obtain ⟨_, _, _, ⟨_, hc | hc⟩ | hc⟩ := mem_reapChanges hmem <;> cases hc
      · rcases List.mem_append.mp hmem with hmem | hmem
        · exact absurd hmem assign_notMem_logs
        · exact absurd hmem assign_notMem_logs
    · obtain ⟨rfl, hev⟩ := hjob j s₁ s₂ hs₁ hs₂ hne
      have hrun : s₁ = .running := by
        by_contra hrun
        refine hun ⟨j, s₁, hs₁, hrun, ?_⟩
        rw [hs₂]
        exact fun heq => hne (Option.some.inj heq).symm
      rw [hev, hrun]

end Calls

/-- In every run with live emitters, a step is logged unless GetNextTask changes the status of the
job or assigns a Reduce task, finalizeJob changes the status of the job, or the reaper changes
that of a job that is not Running. -/
theorem logged_iff {q : Option Nat} {as : List Label} {w w' : World} {a : Label}
    (h : Run Step (World.initial q) as w) (hs : Step w a w') (he : emitting a) :
    Logged w.db w'.db ↔ ¬ unlogged w.db w'.db a := by
  have hd : Started w.db := started_run h
  obtain ⟨now, cs, _, hcs, hm⟩ := step_changes hs
  -- every other step assigns no task and writes no status
  have hquiet : (∀ t att r, ¬ Makes a (.assign t att r)) →
      (∀ j status, ¬ Makes a (.setJob j status)) → Logged w.db w'.db := fun hassign hset =>
    logged_of_quiet hcs (fun t att r hmem => hassign t att r (hm _ hmem))
      fun j status hmem => hset j status (hm _ hmem)
  cases a with
  | call c now locked =>
    obtain ⟨_, _, hdb, _⟩ := step_call hs
    cases c with
    | getNextTask s j worker x lease =>
      rw [hdb]
      exact getNextTask_logged (he s rfl)
    | completeTask s t x lease us cks =>
      rw [hdb]
      exact iff_of_true (completeTask_logged (he s rfl) hd) id
    | failTask s t x lease reason =>
      rw [hdb]
      exact iff_of_true (failTask_logged (he s rfl) hd) id
    | cancelJob s j =>
      rw [hdb]
      exact iff_of_true (cancelJob_logged (he s rfl)) id
    | failStaleTasks s heartbeats clock =>
      rw [hdb]
      exact failStaleTasks_logged (he s rfl)
    | finalizeJob j ts =>
      rw [hdb]
      exact finalizeJob_logged
    | _ => exact iff_of_true (hquiet (by simp [Makes]) (by simp [Makes, Closes])) id
  | post i action now =>
    exact iff_of_true (hquiet (by simp [Makes]) (by simp [Makes, Closes])) id
  | restart r => exact iff_of_true (hquiet (by simp [Makes]) (by simp [Makes, Closes])) id

def emittingReplica : Scheduler := { soloReplica with emitsEvents := true }

/-- The small job is scheduled. -/
def loggedStart : List Label :=
  [calling (.recoverFailAttempts emittingReplica) 0, calling (.recoverResetTasks emittingReplica) 0,
    calling (.recoverWorkerPools emittingReplica) 0,
    calling (.scheduleJob emittingReplica smallJob) 1]

def loggedNext (x lease : UUID) (now : Time) : Label :=
  calling (.getNextTask emittingReplica 1 "worker" x lease) now

def loggedReport (t x lease : UUID) (now : Time) : Label :=
  calling (.completeTask emittingReplica t x lease ["uri"] ["sum"]) now

/-- Its two Map tasks are Completed. -/
def loggedMaps : List Label :=
  loggedStart ++ [loggedNext 10 20 2, loggedReport 2 10 20 3, loggedNext 11 21 4,
    loggedReport 3 11 21 5]

/-- The report of the Reduce task closes the job. -/
theorem logged_iff_closing :
    ∃ w w', Run Step (World.initial none) (loggedMaps ++ [loggedNext 12 22 6]) w ∧
      Step w (loggedReport 4 12 22 7) w' ∧ w.db.jobStatus 1 = some .running ∧
      w'.db.jobStatus 1 = some .cleaning ∧ Logged w.db w'.db := by
  obtain ⟨w, w', hw, hs, hrun, hclean⟩ := (run_last (by decide) :
    ∃ w w', Run Step (World.initial none) (loggedMaps ++ [loggedNext 12 22 6]) w ∧
      Step w (loggedReport 4 12 22 7) w' ∧ w.db.jobStatus 1 = some .running ∧
      w'.db.jobStatus 1 = some .cleaning)
  refine ⟨w, w', hw, hs, hrun, hclean, (logged_iff hw hs ?_).mpr id⟩
  rintro s ⟨⟩
  rfl

/-- The first assignment takes the job from Pending to Running without an event, the assignment
of the Reduce task has no event, and neither has the end of the job. -/
theorem events_missing :
    (∃ w w', Run Step (World.initial none) loggedStart w ∧ Step w (loggedNext 10 20 2) w' ∧
      w.db.jobStatus 1 = some .pending ∧ w'.db.jobStatus 1 = some .running ∧
      (newEvents w.db w'.db).filter (Event.changesState 1) = []) ∧
    (∃ w w', Run Step (World.initial none) loggedMaps w ∧ Step w (loggedNext 12 22 6) w' ∧
      (w.db.tasks.get? 4).map TaskRow.status = some .idle ∧
      (w'.db.tasks.get? 4).map TaskRow.status = some .inProgress ∧ newEvents w.db w'.db = []) ∧
    ∃ w w', Run Step (World.initial none)
        (loggedMaps ++ [loggedNext 12 22 6, loggedReport 4 12 22 7]) w ∧
      Step w (calling (.finalizeJob 1 .completed) 8) w' ∧ w.db.jobStatus 1 = some .cleaning ∧
      w'.db.jobStatus 1 = some .completed ∧ newEvents w.db w'.db = [] :=
  ⟨run_last (by decide), run_last (by decide), run_last (by decide)⟩

end KubeMapReduce
