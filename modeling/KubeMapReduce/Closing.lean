import KubeMapReduce.Retries

/-!
# How a job is closed

Five operations move a job to Cleaning, and each of them puts the job with a terminal state into
the cleanup queue of its process. The tasks justify that state: all of them are Completed, one
of them is Failed, or the job was cancelled and none of them is left to run. The process can end
before the job is finalized. Then another one derives the terminal state from the tasks.

* `call_effect`: what a call does to the status of a job and to the queue.
* `derived_recorded`: the derived state is the recorded one, if the job was not cancelled and is
  not scheduled again.
* `cancelled_derived_completed`: a cancelled job can be derived to be Completed.
-/

namespace KubeMapReduce

open Tables Runs

variable {cs : List Change} {as : List Label} {recs : List StaleRec} {s : Scheduler}
  {ts : TerminalState} {heartbeats : UUID → Option Time} {w w' : World} {now : Time} {db db' : DB}
  {j : UUID}

/-! ## 1. What the tasks say -/

theorem DB.HasFailed.apply (h : db.HasFailed j) {c : Change} (hg : c.Guard now db) :
    (c.apply now db).HasFailed j := by
  obtain ⟨t, row, ht, hj, hs⟩ := h
  obtain ⟨row', ht', hj', hs'⟩ := settled_apply hg ht (.inr hs)
  exact ⟨t, row', ht', hj'.trans hj, hs'.trans hs⟩

theorem DB.HasFailed.changes (h : db.HasFailed j) (hcs : Changes now db cs db') :
    db'.HasFailed j := by
  refine hcs.keeps (I := fun d => d.HasFailed j) ?_ h
  rintro d c _ hg hd
  exact hd.apply hg

theorem DB.AllDone.apply (h : db.AllDone j) {c : Change} (hg : c.Guard now db)
    (hc : c.Spares j) : (c.apply now db).AllDone j := by
  intro t row' ht' hj'
  rcases Change.task_cases ht' with ⟨rfl, _⟩ | ⟨row, hrow, ⟨htouch, rfl⟩ | ⟨_, rfl⟩⟩
  · exact absurd hj' hc
  · exact absurd (h t row hrow hj') (Change.touched_status hg hrow htouch)
  · exact h t row' hrow hj'

theorem DB.AllDone.changes (h : db.AllDone j) (hcs : Changes now db cs db')
    (hspare : ∀ c ∈ cs, c.Spares j) : db'.AllDone j := by
  refine hcs.keeps (I := fun d => d.AllDone j) ?_ h
  rintro d c hc hg hd
  exact hd.apply hg (hspare c hc)

theorem DB.HasFailed.not_allDone (h : db.HasFailed j) : ¬ db.AllDone j := by
  intro hall
  obtain ⟨t, row, ht, hj, hs⟩ := h
  rw [hall t row ht hj] at hs
  cases hs

theorem Exhausted.hasFailed (h : Exhausted db j) : db.HasFailed j := by
  obtain ⟨t, row, ht, hj, hs, _⟩ := h
  exact ⟨t, row, ht, hj, hs⟩

/-- The tasks of the job say how it ends: one has failed, or all are Completed. -/
def Decided (db : DB) (j : UUID) : Prop := db.HasFailed j ∨ db.AllDone j

theorem Quiet.not_busy (h : Quiet db j) {t : UUID} {row : TaskRow}
    (ht : db.tasks.get? t = some row) (hj : row.jobID = j) : row.status ≠ .inProgress := by
  intro hs
  rcases h t row ht hj with h | h <;> rw [hs] at h <;> cases h

theorem Quiet.decided (h : Quiet db j) : Decided db j := by
  by_cases hf : db.HasFailed j
  · exact .inl hf
  · refine .inr fun t row ht hj => (h t row ht hj).resolve_right fun hs => hf ⟨t, row, ht, hj, hs⟩

/-- The tasks of the job justify the terminal state. -/
def Backed (db : DB) (j : UUID) : TerminalState → Prop
  | .completed => db.AllDone j
  | .failed => db.HasFailed j
  | .cancelled => Quiet db j

theorem Backed.decided (h : Backed db j ts) : Decided db j := by
  cases ts with
  | completed => exact .inr h
  | failed => exact .inl h
  | cancelled => exact Quiet.decided h

theorem Backed.changes (h : Backed db j ts) (hcs : Changes now db cs db')
    (hspare : ∀ c ∈ cs, c.Spares j) : Backed db' j ts := by
  cases ts with
  | completed => exact DB.AllDone.changes h hcs hspare
  | failed => exact DB.HasFailed.changes h hcs
  | cancelled =>
    refine hcs.keeps (I := fun d => Quiet d j) ?_ h
    rintro d c hc hg hd
    exact quiet_apply hd hg (hspare c hc)

theorem Decided.changes (h : Decided db j) (hcs : Changes now db cs db')
    (hspare : ∀ c ∈ cs, c.Spares j) : Decided db' j :=
  h.imp (fun h => h.changes hcs) fun h => h.changes hcs hspare

/-! ## 2. The status through the changes of a transaction -/

theorem jobStatus_kept (h : Changes now db cs db') (hno : ∀ status, .setJob j status ∉ cs) :
    db'.jobStatus j = db.jobStatus j ∨
      db.jobStatus j = none ∧ db'.jobStatus j = some .pending := by
  refine h.keeps (I := fun d => d.jobStatus j = db.jobStatus j ∨
    db.jobStatus j = none ∧ d.jobStatus j = some .pending) ?_ (.inl rfl)
  rintro d c hc hg hd
  cases hrow : d.jobs.get? j with
  | some row =>
    obtain ⟨row', hrow', _, hsame | hset⟩ := c.job_apply now hrow
    · have hstatus : (c.apply now d).jobStatus j = d.jobStatus j := by
        rw [DB.jobStatus, DB.jobStatus, hrow, hrow', Option.map_some, Option.map_some, hsame]
      rw [hstatus]
      exact hd
    · exact absurd (hset ▸ hc) (hno _)
  | none =>
    have hnone : d.jobStatus j = none := by rw [DB.jobStatus, hrow, Option.map_none]
    have hdb : db.jobStatus j = none := by
      rcases hd with hd | ⟨hd, _⟩
      · rw [← hd, hnone]
      · exact hd
    cases hrow' : (c.apply now d).jobs.get? j with
    | none => exact .inl (by rw [DB.jobStatus, hrow', Option.map_none, hdb])
    | some row' =>
      cases Change.job_cases hrow' hrow
      exact .inr ⟨hdb, by rw [DB.jobStatus, hrow', Option.map_some, hg.2]⟩

theorem jobStatus_setJob {status : JobStatus} (h : db.jobStatus j ≠ none) :
    ((Change.setJob j status).apply now db).jobStatus j = some status := by
  show ((db.setJob now j status).jobs.get? j).map JobRow.status = some status
  rw [DB.setJob_get?, if_pos rfl]
  unfold DB.jobStatus at h
  cases hrow : db.jobs.get? j with
  | none => exact absurd (by rw [hrow, Option.map_none]) h
  | some row => rfl

/-- Changes that write one status into a row of JOBS leave it there. -/
theorem jobStatus_set (h : Changes now db cs db') {status : JobStatus}
    (hjob : db.jobStatus j ≠ none) (hall : ∀ status', .setJob j status' ∈ cs → status' = status)
    (hor : .setJob j status ∈ cs ∨ db.jobStatus j = some status) :
    db'.jobStatus j = some status := by
  induction h with
  | nil =>
    rcases hor with hmem | hs
    · cases hmem
    · exact hs
  | @cons d _ _ c cs hstep _ ih =>
    have hone : Changes now d [c] _ := .single hstep
    obtain ⟨_, rfl⟩ := hstep
    by_cases hc : ∃ status', c = .setJob j status'
    · obtain ⟨status', rfl⟩ := hc
      cases hall status' List.mem_cons_self
      have hset : ((Change.setJob j status).apply now d).jobStatus j = some status :=
        jobStatus_setJob hjob
      exact ih (by rw [hset]; simp) (fun st hst => hall st (List.mem_cons_of_mem _ hst)) (.inr hset)
    · have hsame : (c.apply now d).jobStatus j = d.jobStatus j := by
        refine (jobStatus_kept hone fun st hst => hc ⟨st, ?_⟩).resolve_right
          fun hnone => hjob hnone.1
        exact (List.mem_singleton.mp hst).symm
      rw [hsame] at ih
      refine ih hjob (fun st hst => hall st (List.mem_cons_of_mem _ hst))
        (hor.imp_left fun hmem => ?_)
      exact (List.mem_cons.mp hmem).resolve_left fun he => hc ⟨status, he.symm⟩

theorem HandsOver.running {locked : Resource → Bool} {worker : String} {a lease : UUID}
    {ty : TaskType} {row : TaskRow} {out : Outcome Task}
    (h : HandsOver s now locked db j worker a lease ty row out db') :
    db'.jobStatus j = some .running :=
  jobStatus_set h.changes h.known (fun _ hst => (setJob_handout hst).2)
    (.inl (List.mem_append_right _ (by simp)))

/-! ## 3. What a call does to a job -/

/-- The call puts the job into the cleanup queue with this state. -/
def Records (c : Call) (now : Time) (locked : Resource → Bool) (db : DB) (j : UUID)
    (status : JobStatus) : Prop :=
  ∃ thread ∈ (perform c now locked db).1.post, .enqueueCleanup j status ∈ thread

/-- The call leaves the job open or closed as it was: its status stays, the job is new, or it
goes to Running while its tasks do not say yet how it ends. -/
structure Passes (c : Call) (now : Time) (locked : Resource → Bool) (db : DB)
    (j : UUID) : Prop where
  silent : ∀ status, ¬ Records c now locked db j status
  status : (perform c now locked db).2.jobStatus j = db.jobStatus j ∨
    db.jobStatus j = none ∧ (perform c now locked db).2.jobStatus j = some .pending ∨
    (perform c now locked db).2.jobStatus j = some .running ∧ ¬ Decided db j

/-- The call moves the job to Cleaning with this terminal state, which its tasks justify. -/
structure ClosesAs (c : Call) (now : Time) (locked : Resource → Bool) (db : DB) (j : UUID)
    (ts : TerminalState) : Prop where
  records : Records c now locked db j ts.status
  only : ∀ status, Records c now locked db j status → status = ts.status
  cleaning : (perform c now locked db).2.jobStatus j = some .cleaning
  backed : Backed (perform c now locked db).2 j ts
  undecided : ts = .completed → ¬ Decided db j
  busy : ts = .failed → ¬ Quiet db j
  cancels : ts = .cancelled ↔ ∃ s, c = .cancelJob s j
  live : ts = .cancelled → ¬ Terminal db j

section Calls

variable {c : Call} {locked : Resource → Bool} {α : Type} {out : Outcome α} {f : α → Reply}

theorem passes_of (hout : (perform c now locked db).1 = out.map f)
    (hpost : ∀ thread ∈ out.post, ∀ status, .enqueueCleanup j status ∉ thread)
    (hcs : Changes now db cs (perform c now locked db).2) (hno : ∀ status, .setJob j status ∉ cs) :
    Passes c now locked db j := by
  refine ⟨?_, ?_⟩
  · rintro status ⟨thread, ht, ha⟩
    rw [hout] at ht
    exact hpost thread ht status ha
  · rcases jobStatus_kept hcs hno with h | h
    · exact .inl h
    · exact .inr (.inl h)

theorem passes_unchanged (hout : (perform c now locked db).1 = out.map f)
    (hpost : ∀ thread ∈ out.post, ∀ status, .enqueueCleanup j status ∉ thread)
    (hdb : (perform c now locked db).2 = db) : Passes c now locked db j := by
  have hcs : Changes now db [] (perform c now locked db).2 := hdb.symm ▸ .nil db
  exact passes_of hout hpost hcs (by simp)

theorem passes_refused (hout : (perform c now locked db).1 = out.map f) (hpost : out.post = [])
    (hdb : (perform c now locked db).2 = db) : Passes c now locked db j :=
  passes_unchanged hout (by simp [hpost]) hdb

theorem closesAs_of (hout : (perform c now locked db).1 = out.map f)
    (hrec : ∃ thread ∈ out.post, .enqueueCleanup j ts.status ∈ thread)
    (honly : ∀ thread ∈ out.post, ∀ status, .enqueueCleanup j status ∈ thread → status = ts.status)
    (hcs : Changes now db cs (perform c now locked db).2) (hjob : db.jobStatus j ≠ none)
    (hset : .setJob j .cleaning ∈ cs ∨ db.jobStatus j = some .cleaning)
    (hall : ∀ status, .setJob j status ∈ cs → status = .cleaning)
    (hb : Backed (perform c now locked db).2 j ts) (hu : ts = .completed → ¬ Decided db j)
    (hq : ts = .failed → ¬ Quiet db j) (hc : ts = .cancelled ↔ ∃ s, c = .cancelJob s j)
    (hl : ts = .cancelled → ¬ Terminal db j) :
    ClosesAs c now locked db j ts where
  records := by
    obtain ⟨thread, ht, ha⟩ := hrec
    exact ⟨thread, by rw [hout]; exact ht, ha⟩
  only := by
    rintro status ⟨thread, ht, ha⟩
    rw [hout] at ht
    exact honly thread ht status ha
  cleaning := jobStatus_set hcs hjob hall hset
  backed := hb
  undecided := hu
  busy := hq
  cancels := hc
  live := hl

theorem getNextTask_effect (s : Scheduler) (j' : UUID) (worker : String) (a lease : UUID) :
    Passes (.getNextTask s j' worker a lease) now locked db j ∨
      ∃ ts, ClosesAs (.getNextTask s j' worker a lease) now locked db j ts := by
  obtain ⟨out, hout, hr | hr | ⟨ty, row, hr⟩⟩ :=
    performed (c := .getNextTask s j' worker a lease) rfl getNextTask_changes
  · exact .inl (passes_refused hout hr.refused.2.1 hr.refused.1)
  · obtain ⟨tail, hcs, ⟨rfl, hpost⟩ | ⟨hnot, hdone, rfl, hpost⟩⟩ := hr.changes
    · exact .inl (passes_of hout (by simp [hpost]) hcs (by simp))
    · by_cases hj : j' = j
      · subst hj
        refine .inr ⟨.completed, closesAs_of hout ?_ ?_ hcs hr.known (.inl (by simp)) (by simp)
          hdone (fun _ => ?_) (by simp) (by simp) (by simp)⟩
        · exact ⟨_, by rw [hpost]; exact List.mem_singleton_self _, List.mem_singleton_self _⟩
        · simp [hpost, TerminalState.status]
        · exact not_or.mpr ⟨hr.healthy, hnot⟩
      · refine .inl (passes_of hout ?_ hcs ?_)
        · simp [hpost, Ne.symm hj]
        · simp [Ne.symm hj]
  · left
    by_cases hj : j' = j
    · subst hj
      refine ⟨?_, .inr (.inr ⟨?_, not_or.mpr ⟨hr.healthy, fun hd => ?_⟩⟩)⟩
      · rintro status ⟨thread, ht, ha⟩
        rw [hout, Outcome.map, hr.post, List.mem_singleton] at ht
        rw [ht] at ha
        cases ha
      · exact hr.running
      · -- an assignment finds an Idle task
        have hc := hd _ row hr.row_eq hr.picked.job
        rw [hr.picked.idle] at hc
        cases hc
    · exact passes_of hout (by simp [hr.post]) hr.changes fun st hst =>
        hj (setJob_handout hst).1.symm

/-- A report that is accepted can close its job. The task of the report was In-Progress. -/
theorem Reported.effect {t a j' : UUID} {ch : Change} {e : Event} {closes : Prop}
    {out : Outcome Unit} {f : Unit → Reply} (ts : TerminalState)
    (h : Reported s now db t a j' ch e ts.status closes out (perform c now locked db).2)
    (hout : (perform c now locked db).1 = out.map f)
    (hch : ∀ j st, Change.setJob j st ≠ ch) (hts : ts ≠ .cancelled)
    (hc : ∀ s, c ≠ .cancelJob s j')
    (hb : closes → Changes now db (ch :: .setJob j' .cleaning ::
      logs s [e, .jobStateChanged j' .running .cleaning]) (perform c now locked db).2 →
        Backed (perform c now locked db).2 j' ts) :
    Passes c now locked db j ∨ ∃ ts, ClosesAs c now locked db j ts := by
  rcases h.course with ⟨hcs, hpost⟩ | ⟨hcl, hcs, hpost⟩
  · exact .inl (passes_of hout (by simp [hpost]) hcs fun st => setJob_notMem_cons (hch j st))
  have hset : ∀ j'' st, .setJob j'' st ∈ ch :: .setJob j' .cleaning ::
      logs s [e, .jobStateChanged j' .running .cleaning] → j'' = j' ∧ st = .cleaning :=
    fun j'' st => eq_of_setJob_mem (hch j'' st)
  obtain ⟨row, att, hcur, hrow⟩ := h.current
  have hback := hb hcl hcs
  by_cases hj : j' = j
  · subst hj
    refine .inr ⟨ts, closesAs_of hout ?_ ?_ hcs ?_ (.inl (by simp))
      (fun st hst => (hset j' st hst).2) hback ?_ ?_ (iff_of_false hts fun hex => ?_) hts.elim⟩
    · exact ⟨_, by rw [hpost]; exact List.mem_singleton_self _, by simp⟩
    · simp [hpost]
    · rcases h.running with h | h <;> simp [h]
    · rintro rfl (hf | hd)
      · exact (hf.changes hcs).not_allDone hback
      · have hdone := hd t row hcur.task hrow
        rw [hcur.status] at hdone
        cases hdone
    · exact fun _ hq => hq.not_busy hcur.task hrow hcur.status
    · obtain ⟨s, hs⟩ := hex
      exact hc s hs
  · exact .inl (passes_of hout (by simp [hpost, Ne.symm hj]) hcs
      fun st hst => hj (hset j st hst).1.symm)

theorem completeTask_effect (s : Scheduler) (t a lease : UUID) (us cks : List String) :
    Passes (.completeTask s t a lease us cks) now locked db j ∨
      ∃ ts, ClosesAs (.completeTask s t a lease us cks) now locked db j ts := by
  obtain ⟨out, hout, hr | ⟨_, j', hr⟩⟩ :=
    performed (c := .completeTask s t a lease us cks) rfl completeTask_changes
  · exact .inl (passes_refused hout hr.2.1 hr.1)
  · exact hr.effect .completed hout (by simp) (by simp) (by simp) fun hdone _ => hdone

theorem failTask_effect (s : Scheduler) (t a lease : UUID) (reason : String) :
    Passes (.failTask s t a lease reason) now locked db j ∨
      ∃ ts, ClosesAs (.failTask s t a lease reason) now locked db j ts := by
  obtain ⟨out, hout, hr | ⟨j', status, hr⟩⟩ :=
    performed (c := .failTask s t a lease reason) rfl failTask_changes
  · exact .inl (passes_refused hout hr.2.1 hr.1)
  · refine hr.effect .failed hout (by simp) (by simp) (by simp) fun hfailed hcs => ?_
    subst hfailed
    exact (exhausted_of_release hcs List.mem_cons_self hr.job).hasFailed

theorem cancelJob_effect (s : Scheduler) (j' : UUID) :
    Passes (.cancelJob s j') now locked db j ∨
      ∃ ts, ClosesAs (.cancelJob s j') now locked db j ts := by
  obtain ⟨out, hout, hr | ⟨_, old, cs, hold, hpost, hcs, hcases⟩⟩ :=
    performed (c := .cancelJob s j') rfl cancelJob_changes
  · exact .inl (passes_refused hout hr.2 hr.1)
  · have hset : ∀ j'' st, .setJob j'' st ∈ cs ++ .cancel j' ::
        logs s [.jobCancelRequested j', .jobStateChanged j' old .cleaning] →
        j'' = j' ∧ st = .cleaning := by
      intro j'' st hst
      rcases List.mem_append.mp hst with hst | hst
      · rcases hcases with ⟨_, rfl⟩ | ⟨_, rfl⟩
        · cases hst
        · cases List.mem_singleton.mp hst
          exact ⟨rfl, rfl⟩
      · exact absurd hst (setJob_notMem_cons (by simp))
    by_cases hj : j' = j
    · subst hj
      refine .inr ⟨.cancelled, closesAs_of hout ?_ ?_ hcs (by simp [hold]) ?_
        (fun st hst => (hset j' st hst).2) ?_ (by simp) (by simp) (by simp) fun _ => ?_⟩
      · exact ⟨_, by rw [hpost]; exact List.mem_singleton_self _, by simp [TerminalState.status]⟩
      · simp [hpost, TerminalState.status]
      · rcases hcases with ⟨rfl, _⟩ | ⟨_, rfl⟩
        · exact .inr hold
        · exact .inl (by simp)
      · exact quiet_of_cancel hcs (hcases.imp And.right And.right)
      · rintro ⟨status, hst, hterm⟩
        cases hold.symm.trans hst
        rcases hcases with ⟨rfl, _⟩ | ⟨hallowed, _⟩
        · simp at hterm
        · rcases hterm with rfl | rfl | rfl <;> cases hallowed
    · refine .inl (passes_of hout ?_ hcs fun st hst => hj (hset j st hst).1.symm)
      simp [hpost, Ne.symm hj]

/-- A pass of the reaper fails the jobs of the tasks that it gives up. -/
theorem failedJobs_of_lost {clock : Time} {acc : Reaped}
    (h : j ∈ acc.failedJobs ∨ ∃ rec ∈ recs, rec.jobID = j ∧
      isStale s heartbeats clock rec = true ∧ MaxTaskAttempts ≤ rec.attemptCount) :
    j ∈ (reapedBy s heartbeats clock recs acc).failedJobs := by
  induction recs generalizing acc with
  | nil =>
    rcases h with h | ⟨rec, hrec, _⟩
    · exact h
    · cases hrec
  | cons rec recs ih =>
    rw [reapedBy, List.foldl_cons]
    refine ih ?_
    rcases h with h | ⟨rec', hrec', hj, hstale, hmax⟩
    · left
      split
      · split
        · exact List.mem_insert_of_mem h
        · exact h
      · exact h
    · rcases List.mem_cons.mp hrec' with rfl | hrec'
      · left
        rw [if_pos hstale, if_pos hmax]
        exact hj ▸ List.mem_insert_self
      · exact .inr ⟨rec', hrec', hj, hstale, hmax⟩

/-- The reaper writes the status of the jobs that it fails, and of no other. -/
theorem setJob_reaped {clock : Time} {res : Reaped} {es es' : List Event} {st : JobStatus}
    (hres : reapedBy s heartbeats clock recs ⟨0, [], []⟩ = res)
    (h : .setJob j st ∈ reapChanges s heartbeats clock recs ++ (logs s es ++ logs s es')) :
    st = .cleaning ∧ j ∈ res.failedJobs := by
  rcases List.mem_append.mp h with h | h
  · obtain ⟨rec, hrec, hstale, ⟨hmax, hc | hc⟩ | hc⟩ := mem_reapChanges h
    · cases hc
    · cases hc
      exact ⟨rfl, hres ▸ failedJobs_of_lost (.inr ⟨rec, hrec, rfl, hstale, hmax⟩)⟩
    · cases hc
  · rcases List.mem_append.mp h with h | h
    · exact absurd h setJob_notMem_logs
    · exact absurd h setJob_notMem_logs

theorem failStaleTasks_effect (s : Scheduler) (heartbeats : UUID → Option Time) (clock : Time) :
    Passes (.failStaleTasks s heartbeats clock) now locked db j ∨
      ∃ ts, ClosesAs (.failStaleTasks s heartbeats clock) now locked db j ts := by
  obtain ⟨out, hout, _, hpost, hcs⟩ := performed (c := .failStaleTasks s heartbeats clock) rfl
    failStaleTasks_changes
  generalize hres : reapedBy s heartbeats clock
    (staleTasks s.replicaIndex (atomically now locked) db) ⟨0, [], []⟩ = res at hpost hcs
  by_cases hj : j ∈ res.failedJobs
  · right
    obtain ⟨rec, hrec, rfl, hstale, hmax⟩ :=
      ((reapedBy_jobs hres).2 j hj).resolve_left (List.not_mem_nil)
    obtain ⟨row, _, job, hrow, _, hjob, hrowj, _, hbusy, _⟩ := QueryLemmas.staleTasks_mem hrec
    refine ⟨.failed, closesAs_of hout ?_ ?_ hcs ?_ (.inl ?_)
      (fun st hst => (setJob_reaped hres hst).1) ?_
      (by simp) (fun _ hq => hq.not_busy hrow hrowj hbusy) (by simp) (by simp)⟩
    · refine ⟨_, by rw [hpost]; exact List.mem_cons_self, ?_⟩
      exact List.mem_map.mpr ⟨_, hj, rfl⟩
    · rw [hpost]
      intro thread hth st ha
      rcases List.mem_cons.mp hth with rfl | hth
      · obtain ⟨_, _, he⟩ := List.mem_map.mp ha
        cases he
        rfl
      · obtain ⟨j', _, rfl⟩ := List.mem_map.mp hth
        simp [respawn] at ha
    · rw [DB.jobStatus, hjob]
      simp
    · refine List.mem_append_left _ (List.mem_flatMap.mpr ⟨rec, hrec, ?_⟩)
      rw [if_pos hstale, if_pos hmax]
      exact List.mem_cons_of_mem _ List.mem_cons_self
    · refine (exhausted_of_release hcs (List.mem_append_left _
        (release_mem_reapChanges hrec hstale hmax)) ?_).hasFailed
      rw [DB.jobOf, hrow, Option.map_some, hrowj]
  · refine .inl (passes_of hout ?_ hcs fun st hst => hj (setJob_reaped hres hst).2)
    rw [hpost]
    intro thread hth st ha
    rcases List.mem_cons.mp hth with rfl | hth
    · obtain ⟨j', hj', he⟩ := List.mem_map.mp ha
      cases he
      exact hj hj'
    · obtain ⟨j', _, rfl⟩ := List.mem_map.mp hth
      simp [respawn] at ha

theorem finalizeJob_passes {j' : UUID} (ts : TerminalState) (hj : j' ≠ j) :
    Passes (.finalizeJob j' ts) now locked db j := by
  obtain ⟨out, hout, hpost, hcs⟩ := performed (c := .finalizeJob j' ts) rfl finalizeJob_changes
  have hsilent : ∀ thread ∈ out.post, ∀ st, .enqueueCleanup j st ∉ thread := by
    rcases hpost with hpost | hpost <;> simp [hpost, Ne.symm hj]
  rcases hcs with hsame | ⟨_, _, hcs⟩
  · exact passes_unchanged hout hsilent hsame
  · exact passes_of hout hsilent hcs (by simp [Ne.symm hj])

/-- What a call other than the finalization of the job does to it. -/
theorem call_effect (c : Call) (now : Time) (locked : Resource → Bool) (db : DB) (j : UUID)
    (hfin : ∀ ts, c ≠ .finalizeJob j ts) :
    Passes c now locked db j ∨ ∃ ts, ClosesAs c now locked db j ts := by
  cases c with
  | createJob s rec =>
    obtain ⟨out, hout, hr | ⟨_, hpost, row, cfg, _, _, hcs⟩⟩ :=
      performed (c := .createJob s rec) rfl createJob_changes
    · exact .inl (passes_refused hout hr.2.1 hr.1)
    · exact .inl (passes_of hout (by simp [hpost]) hcs (by simp))
  | scheduleJob s req =>
    obtain ⟨out, hout, hr | ⟨_, j', cs, _, hpost, hcs, hsub⟩⟩ :=
      performed (c := .scheduleJob s req) rfl scheduleJob_changes
    · exact .inl (passes_refused hout hr.2.1 hr.1)
    · exact .inl (passes_of hout (by simp [hpost]) hcs fun st hst => hsub.inserts _ hst)
  | getNextTask s j' worker a lease => exact getNextTask_effect s j' worker a lease
  | renewLease s t a lease sampled =>
    obtain ⟨out, hout, hr | ⟨_, hpost, row, att, _, _, _, hcs⟩⟩ :=
      performed (c := .renewLease s t a lease sampled) rfl renewLease_changes
    · exact .inl (passes_refused hout hr.2.1 hr.1)
    · exact .inl (passes_of hout (by simp [hpost]) hcs fun _ => setJob_notMem_cons (by simp))
  | completeTask s t a lease us cks => exact completeTask_effect s t a lease us cks
  | failTask s t a lease reason => exact failTask_effect s t a lease reason
  | cancelJob s j' => exact cancelJob_effect s j'
  | failStaleTasks s heartbeats clock => exact failStaleTasks_effect s heartbeats clock
  | finalizeJob j' ts => exact .inl (finalizeJob_passes ts fun h => hfin ts (h ▸ rfl))
  | recoverFailAttempts s =>
    obtain ⟨out, hout, hpost, hcs⟩ :=
      performed (c := .recoverFailAttempts s) rfl recoverFailAttempts_changes
    exact .inl (passes_of hout (by simp [hpost]) hcs (by simp))
  | recoverResetTasks s =>
    obtain ⟨out, hout, hpost, hcs⟩ :=
      performed (c := .recoverResetTasks s) rfl recoverResetTasks_changes
    exact .inl (passes_of hout (by simp [hpost]) hcs (by simp))
  | recoverWorkerPools s =>
    obtain ⟨out, hout, hdb, hpost⟩ :=
      performed (c := .recoverWorkerPools s) rfl recoverWorkerPools_unchanged
    refine .inl (passes_unchanged hout ?_ hdb)
    rw [hpost]
    simp only [List.mem_singleton, forall_eq, List.mem_flatMap, List.mem_map]
    rintro st ⟨_, ⟨row, _, rfl⟩, ha⟩
    simp at ha
  | failRunningAttemptsByJob j' =>
    obtain ⟨out, hout, hpost, hcs⟩ :=
      performed (c := .failRunningAttemptsByJob j') rfl failRunningAttemptsByJob_changes
    exact .inl (passes_of hout (by simp [hpost]) hcs (by simp))

end Calls

/-! ## 4. The state that is derived after a restart -/

/-- The answer of the first query of determineCleaningTerminalState. -/
def failedCount (db : DB) (j : UUID) : Nat :=
  db.tasks.rows.countP fun t => decide (t.jobID = j) && decide (t.status = .failed)

/-- The answer of its second query. -/
def pendingCount (db : DB) (j : UUID) : Nat :=
  db.tasks.rows.countP fun t => decide (t.jobID = j) && decide (t.status ≠ .completed)

theorem failedCount_eq_zero : failedCount db j = 0 ↔ ¬ db.HasFailed j := by
  show answer (.countFailedTasks j) (atomically 0 fun _ => false) db = 0 ↔ _
  exact countFailedTasks_eq_zero

theorem pendingCount_eq_zero : pendingCount db j = 0 ↔ db.AllDone j := by
  show answer (.countAllPendingTasks j) (atomically 0 fun _ => false) db = 0 ↔ _
  exact countAllPendingTasks_eq_zero

/-- The two queries run outside of a transaction, so each one has a store of its own. -/
def determineCleaningTerminalState (atFailed atPending : DB) (j : UUID) : TerminalState :=
  if failedCount atFailed j > 0 then .failed
  else if pendingCount atPending j > 0 then .failed
  else .completed

theorem determine_failed (h : db.HasFailed j) :
    determineCleaningTerminalState db db' j = .failed := by
  refine if_pos (Nat.pos_of_ne_zero fun hz => ?_)
  exact failedCount_eq_zero.mp hz h

theorem determine_completed (h : db.AllDone j) (h' : db'.AllDone j) :
    determineCleaningTerminalState db db' j = .completed := by
  have hf : failedCount db j = 0 := failedCount_eq_zero.mpr fun hf => hf.not_allDone h
  have hp : pendingCount db' j = 0 := pendingCount_eq_zero.mpr h'
  rw [determineCleaningTerminalState, hf, hp]
  rfl

/-- No derivation ends with Cancelled. -/
theorem determine_ne_cancelled : determineCleaningTerminalState db db' j ≠ .cancelled := by
  unfold determineCleaningTerminalState
  split
  · simp
  · split <;> simp

/-- The step is no ScheduleJob call that adds tasks to this job. -/
def notScheduled (j : UUID) (w : World) : Label → Prop
  | .call (.scheduleJob s req) now locked =>
    (perform (.scheduleJob s req) now locked w.db).1.result.isOk = true →
      s.uuidParse req.jobID ≠ some j
  | _ => True

instance (j : UUID) (w : World) (a : Label) : Decidable (notScheduled j w a) := by
  induction a using Label.casesOn with
  | call c =>
    induction c using Call.casesOn with
    | scheduleJob =>
      dsimp only [notScheduled]
      exact instDecidableForall
    | _ => exact instDecidableTrue
  | _ => exact instDecidableTrue

theorem spares_step {a : Label} (h : Step w a w') (ho : notScheduled j w a) :
    ∃ now cs, Changes now w.db cs w'.db ∧ ∀ c ∈ cs, c.Spares j := by
  rcases step_inserts h j with ⟨now, cs, hcs, _, hspare⟩ | ⟨s, req, now, locked, _, rfl, hj, hok, _⟩
  · exact ⟨now, cs, hcs, hspare⟩
  · exact absurd hj (ho hok)

theorem allDone_run (h : Run (Under Step (notScheduled j)) w as w') (hall : w.db.AllDone j) :
    w'.db.AllDone j := by
  refine h.invariant (I := fun v => v.db.AllDone j) (fun v a v' hv hs => ?_) hall
  obtain ⟨_, _, hcs, hspare⟩ := spares_step hs.1 hs.2
  exact hv.changes hcs hspare

theorem hasFailed_run (h : Run Step w as w') (hf : w.db.HasFailed j) : w'.db.HasFailed j :=
  kept_run h (fun hd hg => DB.HasFailed.apply hd hg) hf

/-- Finalization does not move a job to Cleaning. -/
theorem finalizeJob_not_cleaning {locked : Resource → Bool} (h : db.jobStatus j ≠ some .cleaning) :
    (perform (.finalizeJob j ts) now locked db).2.jobStatus j ≠ some .cleaning := by
  obtain ⟨_, _, _, hsame | ⟨_, hcl, _⟩⟩ :=
    performed (c := .finalizeJob j ts) rfl finalizeJob_changes
  · rw [hsame]
    exact h
  · exact absurd hcl h

/-- The operation that moves a job to Cleaning records one terminal state. The state that is
derived from the tasks at any later time is the same one exactly if the operation is not
CancelJob, as long as the job is not scheduled again. -/
theorem derived_recorded {w w' : World} {c : Call} {locked : Resource → Bool}
    (h : Step w (.call c now locked) w') (hopen : w.db.jobStatus j ≠ some .cleaning)
    (hcl : w'.db.jobStatus j = some .cleaning) :
    ∃ ts : TerminalState,
      (∀ status, Records c now locked w.db j status ↔ status = ts.status) ∧
      ∀ as v bs v', Run (Under Step (notScheduled j)) w' as v →
        Run (Under Step (notScheduled j)) v bs v' →
        (determineCleaningTerminalState v.db v'.db j = ts ↔ ∀ s, c ≠ .cancelJob s j) := by
  obtain ⟨_, _, hdb, _⟩ := step_call h
  have hfin : ∀ ts, c ≠ .finalizeJob j ts := by
    rintro ts rfl
    rw [hdb] at hcl
    exact finalizeJob_not_cleaning hopen hcl
  rcases call_effect c now locked w.db j hfin with hp | ⟨ts, hts⟩
  · rw [hdb] at hcl
    rcases hp.status with hst | ⟨_, hst⟩ | ⟨hst, _⟩ <;> rw [hcl] at hst
    · exact absurd hst.symm hopen
    · cases hst
    · cases hst
  · refine ⟨ts, fun status => ⟨hts.only status, ?_⟩, fun as v bs v' hv hv' => ?_⟩
    · rintro rfl
      exact hts.records
    · have hback := hts.backed
      rw [← hdb] at hback
      have hcancel := hts.cancels
      cases ts with
      | completed =>
        have hdone := allDone_run hv hback
        rw [determine_completed hdone (allDone_run hv' hdone)]
        simpa using hcancel
      | failed =>
        rw [determine_failed (hasFailed_run hv.of_under hback)]
        simpa using hcancel
      | cancelled =>
        obtain ⟨s, rfl⟩ := hcancel.mp rfl
        exact iff_of_false determine_ne_cancelled fun hne => hne s rfl

/-- The third failure of a task moves its job to Cleaning. -/
theorem derived_recorded_failed :
    ∃ w w', Run Step (World.initial none) thirdAttempt w ∧
      Step w (calling (.failTask soloReplica 2 12 22 "crash") 7) w' ∧
      w'.db.jobStatus 1 = some .cleaning ∧
      ∃ ts : TerminalState,
        Records (.failTask soloReplica 2 12 22 "crash") 7 (fun _ => false) w.db 1 ts.status ∧
        determineCleaningTerminalState w'.db w'.db 1 = ts := by
  obtain ⟨w, w', hw, hw', hopen, hcl⟩ := (run_then (by decide) :
    ∃ w w', Run (Under Step fun _ _ => True) (World.initial none) thirdAttempt w ∧
      Under Step (fun _ _ => True) w (calling (.failTask soloReplica 2 12 22 "crash") 7) w' ∧
      w.db.jobStatus 1 ≠ some .cleaning ∧ w'.db.jobStatus 1 = some .cleaning)
  obtain ⟨ts, hrec, hsame⟩ := derived_recorded hw'.1 hopen hcl
  exact ⟨w, w', hw.of_under, hw'.1, hcl, ts, (hrec _).mpr rfl,
    (hsame [] w' [] w' (.nil _) (.nil _)).mpr (by simp)⟩

instance (c : Call) (now : Time) (locked : Resource → Bool) (db : DB) (j : UUID)
    (status : JobStatus) : Decidable (Records c now locked db j status) :=
  inferInstanceAs (Decidable (∃ thread ∈ (perform c now locked db).1.post,
    .enqueueCleanup j status ∈ thread))

/-- A job is cancelled before it is scheduled, and the manager process ends. Cancelled is
recorded, and Completed is derived, since there is no task. -/
theorem cancelled_derived_completed :
    ∃ w w' v, Run Step (World.initial none) [calling (.createJob soloReplica smallRecord) 1] w ∧
      Step w (calling (.cancelJob soloReplica 1) 2) w' ∧ Step w' (.restart 0) v ∧
      w.db.jobStatus 1 ≠ some .cleaning ∧ v.db.jobStatus 1 = some .cleaning ∧
      Records (.cancelJob soloReplica 1) 2 (fun _ => false) w.db 1 .cancelled ∧
      determineCleaningTerminalState v.db v.db 1 = .completed := by
  obtain ⟨w, w', hw, hw', ⟨hopen, hrec⟩, hcl, hdet⟩ := (run_then (by decide) :
    ∃ w w', Run (Under Step fun _ _ => True) (World.initial none)
        [calling (.createJob soloReplica smallRecord) 1] w ∧
      Under Step (fun _ _ => True) w (calling (.cancelJob soloReplica 1) 2) w' ∧
      (w.db.jobStatus 1 ≠ some .cleaning ∧
        Records (.cancelJob soloReplica 1) 2 (fun _ => false) w.db 1 .cancelled) ∧
      w'.db.jobStatus 1 = some .cleaning ∧
      determineCleaningTerminalState w'.db w'.db 1 = .completed)
  exact ⟨w, w', _, hw.of_under, hw'.1, rfl, hopen, hcl, hrec, hdet⟩

end KubeMapReduce
