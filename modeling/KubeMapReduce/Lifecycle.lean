import KubeMapReduce.Evidence

/-!
# The life of a job

CompleteTask, FailTask, CancelJob and finalizeJob read JOBS.status under the row lock and
check the transition before they write it. GetNextTask and the reaper write the status
without a look at it, so a Cleaning job can go back to Running (`cleaning_left`).

`job_lifecycle`: if each of those unchecked writes finds the job in its new status or in
one that may change to it, every change of JOBS.status that a commit makes is an edge of
`allowedJobTransitions`. The row lock keeps the status of a job as its holder has read it,
so the checked writes are edges in any interleaving.
-/

namespace KubeMapReduce

open Tables Transactions TransactionLemmas Programs Runs

/-! ## 1. Transitions -/

/-- The status stays as it is or changes along an edge. -/
def Legal (source target : JobStatus) : Prop :=
  source = target ∨ allowedJobTransitions source target = true

instance (source target : JobStatus) : Decidable (Legal source target) := by
  unfold Legal
  infer_instance

/-- Two changes in one transaction are one edge, if the second leads to Running or
Cleaning. -/
theorem Legal.trans {a b c : JobStatus} (h : Legal a b) (h' : Legal b c)
    (hc : c = .running ∨ c = .cleaning) : Legal a c := by
  rcases h with rfl | h
  · exact h'
  · rcases h' with rfl | h'
    · exact .inr h
    · rcases hc with rfl | rfl <;> cases b <;>
        first | exact absurd h' (by decide) | (cases a <;> first | exact .inr rfl | cases h)

/-! ## 2. What a statement does to the status of a job -/

/-- The job that the statement adds. -/
def Query.insertsJob : Query → Option UUID
  | .insertJob j _ _ => some j
  | .insertAPIJob j _ _ _ => some j
  | _ => none

/-- What the statement does to the status of `j`, when it has matched the jobs `ids`. -/
def Query.onStatus (q : Query) (ids : List UUID) (j : UUID) : Option JobStatus → Option JobStatus
  | some st =>
    match q.jobSet with
    | some st' => some (if j ∈ ids then st' else st)
    | none => some st
  | none => if q.insertsJob = some j then some .pending else none

namespace LifecycleLemmas

variable {q : Query} {env : Env Resource} {view db : DB} {now : Time} {j : UUID}

/-- A row that is added shows only under a key that was free. -/
theorem insert_status {jobs : Table JobRow.jobID} {row : JobRow} (hrow : row.status = .pending) :
    ((jobs.insert row).get? j).map JobRow.status =
      match (jobs.get? j).map JobRow.status with
      | some st => some st
      | none => if some row.jobID = some j then some .pending else none := by
  rw [Table.get?_insert]
  cases hj : jobs.get? j with
  | some r => split <;> rfl
  | none =>
    by_cases hk : row.jobID = j
    · simp [hk, hrow]
    · simp [hk]

theorem insert_jobs (h : q.insertsJob = none) : (q.insert now db).jobs = db.jobs := by
  unfold Query.insert
  split <;> first | rfl | (split <;> rfl) | cases h

theorem insert_jobStatus : (q.insert now db).jobStatus j =
    match db.jobStatus j with
    | some st => some st
    | none => if q.insertsJob = some j then some .pending else none := by
  have hsame : ∀ {d : DB}, d.jobs = db.jobs → d.jobStatus j =
      match db.jobStatus j with
      | some st => some st
      | none => if (none : Option UUID) = some j then some .pending else none := by
    intro d hd
    unfold DB.jobStatus
    rw [hd]
    cases (db.jobs.get? j).map JobRow.status <;> rfl
  cases q with
  | insertJob job user replica => exact insert_status rfl
  | insertAPIJob job user createdAt replica => exact insert_status rfl
  | _ => exact hsame (insert_jobs rfl)

/-- The jobs that the statement has matched. -/
def matchedIDs (q : Query) (env : Env Resource) (view : DB) : List UUID :=
  (q.matchedJobs env.scan view).map JobRow.jobID

theorem effect_jobStatus :
    (q.effect env view db).jobStatus j = q.onStatus (matchedIDs q env view) j (db.jobStatus j) := by
  unfold Query.effect Query.write
  rw [insert_jobStatus]
  unfold DB.jobStatus Query.onStatus matchedIDs
  cases hs : q.jobSet with
  | none => cases (db.jobs.get? j).map JobRow.status <;> rfl
  | some st =>
    simp only [Table.get?_updateWhere, Option.map_map]
    cases hj : db.jobs.get? j with
    | none => rfl
    | some row =>
      have hid := Table.key_of_get? hj
      simp only [Option.map_some, Function.comp_apply, hid, decide_eq_true_eq]
      split <;> rfl

theorem mem_matchedIDs (h : j ∈ matchedIDs q env view) :
    ∃ row, view.jobs.get? j = some row ∧ q.jobWhere view row = true ∧ env.scan (.job j) = true := by
  obtain ⟨row, hrow, rfl⟩ := List.mem_map.mp h
  exact ⟨row, QueryLemmas.mem_matchedJobs.mp hrow⟩

/-- A status that is there changes only by the UPDATE of its own row. -/
theorem onStatus_some (st : JobStatus) :
    q.onStatus (matchedIDs q env view) j (some st) = some st ∨
      ∃ st', q = .updateJobStatus j st' ∧ j ∈ matchedIDs q env view ∧
        q.onStatus (matchedIDs q env view) j (some st) = some st' := by
  by_cases hj : j ∈ matchedIDs q env view
  · obtain ⟨row, hget, hw, _⟩ := mem_matchedIDs hj
    have hid := Table.key_of_get? hget
    cases q with
    | updateJobStatus id st' =>
      have hj' : id = j := (of_decide_eq_true hw).symm.trans hid
      subst hj'
      refine .inr ⟨st', rfl, hj, ?_⟩
      simp only [Query.onStatus, Query.jobSet, if_pos hj]
    | _ => exact .inl rfl
  · left
    unfold Query.onStatus
    cases hs : q.jobSet with
    | none => rfl
    | some st' => simp only [if_neg hj]

end LifecycleLemmas

open LifecycleLemmas

/-! ## 3. The invariant of a session -/

/-- `f j` is what the session does to the status of the job `j`. -/
structure Writes (f : UUID → Option JobStatus → Option JobStatus) (m : Progress) (db : DB)
    (s : DBSession) : Prop where
  raw : m.raw = s.call.raw
  acts : ∀ d j, (s.pending d).jobStatus j = f j (d.jobStatus j)
  /-- A job that is written is locked and was there when the session began. -/
  kept : ∀ j st, .job j ∉ s.held ∨ db.jobStatus j = none → f j (some st) = some st
  legal : ∀ j st, db.jobStatus j = some st → ∃ st', f j (some st) = some st' ∧ Legal st st'
  /-- A checked write comes after the lock. -/
  clean : m.raw = false → m.job = none → ∀ j st, f j (some st) = some st
  /-- A session that adds a job writes no other. -/
  adds : m.raw = true ∨ m.fresh = true ∨ m.job ≠ none → ∀ j, f j none = none
  read : ∀ j st, m.job = some j → m.status = some st → .job j ∈ s.held ∧ db.jobStatus j = some st

def StatusKept (m : Progress) (db : DB) (s : DBSession) : Prop := ∃ f, Writes f m db s

/-- The write of JOBS.status that the session is about to make. -/
def statusWrite : Tx Reply → Option (UUID × JobStatus)
  | .query (.updateJobStatus j st) _ => some (j, st)
  | _ => none

/-- The condition: a write of GetNextTask or of the reaper finds the job in its new status
or in one that may change to it. -/
def WriteChecked (M : DBMachine) : Transactions.Label Call Resource → Prop
  | .exec i => ∀ s ∈ M.sessions.rows, s.sid = i → s.call.raw = true →
      ∀ w ∈ statusWrite s.prog, ∀ cur ∈ (s.view M.db).jobStatus w.1, Legal cur w.2
  | _ => True

instance (M : DBMachine) (a : Transactions.Label Call Resource) : Decidable (WriteChecked M a) := by
  induction a using Transactions.Label.casesOn <;> dsimp only [WriteChecked] <;> infer_instance

section Moves

variable {f : UUID → Option JobStatus → Option JobStatus} {m : Progress} {db : DB}
  {s t : DBSession}

theorem Writes.more {s' : DBSession} (h : Writes f m db s) (hcall : s'.call = s.call)
    (hp : s'.pending = s.pending) (hh : ∀ r ∈ s.held, r ∈ s'.held) : Writes f m db s' where
  raw := by rw [hcall]; exact h.raw
  acts := by rw [hp]; exact h.acts
  kept j st hj := h.kept j st (hj.imp_left fun hn hr => hn (hh _ hr))
  legal := h.legal
  clean := h.clean
  adds := h.adds
  read j st hj hst := (h.read j st hj hst).imp_left (hh _)

/-- What another session commits does not touch a job that the session has locked. -/
theorem Writes.stable {g : UUID → Option JobStatus → Option JobStatus} {m' : Progress}
    (hs : Writes f m db s) (ht : Writes g m' db t) (hexcl : ∀ r ∈ s.held, r ∉ t.held) :
    Writes g m' (s.pending db) t := by
  have hnone : ∀ {j}, (s.pending db).jobStatus j = none → db.jobStatus j = none := by
    intro j hj
    rw [hs.acts] at hj
    cases hd : db.jobStatus j with
    | none => rfl
    | some st =>
      obtain ⟨st', hst', _⟩ := hs.legal j st hd
      rw [hd, hst'] at hj
      cases hj
  have hheld : ∀ {j st}, .job j ∈ t.held → db.jobStatus j = some st →
      (s.pending db).jobStatus j = some st := by
    intro j st hj hd
    rw [hs.acts, hd]
    exact hs.kept j st (.inl fun hr => hexcl _ hr hj)
  refine ⟨ht.raw, ht.acts, fun j st hj => ht.kept j st (hj.imp_right hnone), fun j st hj => ?_,
    ht.clean, ht.adds, fun j st hj hst => ?_⟩
  · by_cases hlock : .job j ∈ t.held ∧ db.jobStatus j ≠ none
    · obtain ⟨st₀, hd⟩ := Option.ne_none_iff_exists'.mp hlock.2
      rw [hheld hlock.1 hd] at hj
      cases hj
      exact ht.legal j st hd
    · refine ⟨st, ht.kept j st ?_, .inl rfl⟩
      by_cases hr : .job j ∈ t.held
      · exact .inr (by_contra fun hne => hlock ⟨hr, hne⟩)
      · exact .inl hr
  · obtain ⟨hr, hd⟩ := ht.read j st hj hst
    exact ⟨hr, hheld hr hd⟩

end Moves

/-! ## 4. One statement -/

section Exec

variable {M : DBMachine} {s : DBSession} {m : Progress} {q : Query} {k : q.Ans → Tx Reply}
  {f : UUID → Option JobStatus → Option JobStatus}

/-- A session whose monitor still follows its job has added none, and the statement adds
none. -/
theorem adds_none (hok : m.allows q)
    (h : (m.next q (answer q (M.env s) (s.view M.db))).raw = true ∨
      (m.next q (answer q (M.env s) (s.view M.db))).fresh = true ∨
      (m.next q (answer q (M.env s) (s.view M.db))).job ≠ none) :
    (m.raw = true ∨ m.fresh = true ∨ m.job ≠ none) ∧ q.insertsJob = none := by
  have hins : q.insertsJob = none ∨ (m.raw = false ∧ m.job = none ∧ q.takesLocks = true ∧
      (m.learn q (answer q (M.env s) (s.view M.db))).job = m.job) := by
    cases q with
    | insertJob _ _ _ => exact .inr ⟨hok.1, hok.2, rfl, rfl⟩
    | insertAPIJob _ _ _ _ => exact .inr ⟨hok.1, hok.2, rfl, rfl⟩
    | _ => exact .inl rfl
  have hraw : (m.next q (answer q (M.env s) (s.view M.db))).raw = m.raw := Progress.learn_raw
  rcases hins with hins | ⟨hraw', hjob', hlocks, hjob⟩
  · refine ⟨?_, hins⟩
    rcases h with h | h | h
    · exact .inl (hraw.symm.trans h)
    · exact .inr (.inl (Bool.and_eq_true_iff.mp h).2)
    · obtain ⟨j, hj⟩ := Option.ne_none_iff_exists'.mp h
      rcases Progress.learn_job hj with ⟨hj, _⟩ | ⟨_, _, hfresh⟩
      · exact .inr (.inr (by rw [hj]; nofun))
      · exact .inr (.inl (hfresh hok).2.1)
  · rcases h with h | h | h
    · rw [hraw, hraw'] at h
      cases h
    · have hnot := (Bool.and_eq_true_iff.mp h).1
      rw [hlocks] at hnot
      cases hnot
    · exact absurd (hjob.trans hjob') h

/-- A write of a job's status finds the job in the committed store. -/
theorem Writes.update_found (h : Writes f m M.db s) {j : UUID} {st : JobStatus}
    (hok : m.allows (.updateJobStatus j st)) {cur : JobStatus}
    (hview : (s.view M.db).jobStatus j = some cur) : ∃ st₀, M.db.jobStatus j = some st₀ := by
  have hadds : ∀ j, f j none = none := by
    refine h.adds ?_
    rcases hok with hok | hok
    · exact .inl hok.1
    · exact .inr (.inr (by rw [hok.2.1]; nofun))
  refine Option.ne_none_iff_exists'.mp fun hnone => ?_
  rw [Session.view, h.acts, hnone, hadds] at hview
  cases hview

theorem Writes.acted (h : Writes f m M.db s) (hok : m.allows q)
    (hheld : ∀ r ∈ s.scan, r ∈ s.held)
    (hcheck : s.call.raw = true → ∀ j st, q = .updateJobStatus j st →
      ∀ cur ∈ (s.view M.db).jobStatus j, Legal cur st) :
    StatusKept (m.next q (answer q (M.env s) (s.view M.db))) M.db (s.acted sem M q k) := by
  let ids := matchedIDs q (M.env s) (s.view M.db)
  have hmore : ∀ r ∈ s.held, r ∈ (s.acted sem M q k).held := fun r hr =>
    List.mem_append_right _ hr
  have hraw : (m.next q (answer q (M.env s) (s.view M.db))).raw = m.raw := Progress.learn_raw
  refine ⟨fun j o => q.onStatus ids j (f j o), ?_, ?_, ?_, ?_, ?_, ?_, ?_⟩
  · exact hraw.trans h.raw
  · intro d j
    rw [← h.acts]
    exact effect_jobStatus
  · intro j st hj
    rw [h.kept j st (hj.imp_left fun hn hr => hn (hmore _ hr))]
    rcases onStatus_some (q := q) (j := j) st with hsame | ⟨st', hq, hids, _⟩
    · exact hsame
    · subst hq
      obtain ⟨row, hget, _, hscan⟩ := mem_matchedIDs hids
      have hview : (s.view M.db).jobStatus j = some row.status := congrArg (Option.map _) hget
      obtain ⟨st₀, hdb⟩ := h.update_found hok hview
      rcases hj with hj | hj
      · exact absurd (hmore _ (hheld _ (of_decide_eq_true hscan))) hj
      · rw [hdb] at hj
        cases hj
  · intro j st hdb
    obtain ⟨st₁, hst₁, hlegal⟩ := h.legal j st hdb
    rw [hst₁]
    rcases onStatus_some (q := q) (j := j) st₁ with hsame | ⟨st', hq, _, hnew⟩
    · exact ⟨st₁, hsame, hlegal⟩
    · refine ⟨st', hnew, ?_⟩
      subst hq
      rcases hok with ⟨hraw, _, hst'⟩ | ⟨_, hjob, cur, hcur, hall⟩
      · have hview : (s.view M.db).jobStatus j = some st₁ := by
          rw [Session.view, h.acts, hdb, hst₁]
        exact hlegal.trans (hcheck (h.raw.symm.trans hraw) j st' rfl st₁ hview) hst'
      · rw [(h.read j cur hjob hcur).2] at hdb
        cases hdb
        exact .inr hall
  · intro hraw' hjob j st
    have hjob' := Progress.learn_job_none hjob
    rw [h.clean (hraw.symm.trans hraw') hjob']
    rcases onStatus_some (q := q) (j := j) st with hsame | ⟨st', hq, _, _⟩
    · exact hsame
    · subst hq
      rcases hok with hok | hok
      · rw [hraw, hok.1] at hraw'
        cases hraw'
      · rw [hok.2.1] at hjob'
        cases hjob'
  · intro hadds j
    obtain ⟨hadds, hins⟩ := adds_none hok hadds
    rw [h.adds hadds]
    simp [Query.onStatus, hins]
  · intro j st hjob hst
    rcases Progress.learn_job hjob with ⟨hjob', hst'⟩ | ⟨hscan, hst', hfresh⟩
    · exact (h.read j st hjob' (hst' st hst)).imp_left (hmore _)
    · obtain ⟨hraw', hfresh, hjob'⟩ := hfresh hok
      refine ⟨hmore _ (hheld _ (of_decide_eq_true hscan)), ?_⟩
      have hview : (s.view M.db).jobStatus j = some st := hst'.symm.trans hst
      rw [Session.view, h.acts] at hview
      cases hdb : M.db.jobStatus j with
      | none =>
        rw [hdb, h.adds (.inr (.inl hfresh))] at hview
        cases hview
      | some st₀ =>
        rw [hdb, h.clean hraw' hjob'] at hview
        exact hview

end Exec

/-! ## 5. Every run -/

theorem status_rule :
    Rule sem code WriteChecked protocol Progress.start (fun _ => True) StatusKept where
  obeys := code_obeys
  begin _ _ _ _ _ :=
    ⟨fun _ o => o, rfl, fun _ _ => rfl, fun _ _ _ => rfl, fun _ st _ => ⟨st, rfl, .inl rfl⟩,
      fun _ _ _ _ => rfl, fun _ _ => rfl, nofun⟩
  request _ _ _ _ _ _ _ _ _ _ _ _ _ h := by
    obtain ⟨f, h⟩ := h
    exact ⟨f, h.more requested_frame.1 requested_frame.2.1 requested_frame.2.2⟩
  lock _ _ _ _ _ _ _ _ h := by
    obtain ⟨f, h⟩ := h
    exact ⟨f, h.more rfl rfl fun _ hr => List.mem_cons_of_mem _ hr⟩
  exec M s q k m _ hs hok _ hp hallows _ hheld h := by
    obtain ⟨f, h⟩ := h
    refine h.acted hallows hheld fun hraw j st hq cur hcur => ?_
    subst hq
    have hwrite : (j, st) ∈ statusWrite s.prog := by rw [hp]; rfl
    exact hok s hs rfl hraw _ hwrite cur hcur
  commit _ _ _ _ _ _ _ _ _ := trivial
  stable M s t r m m' hM hs ht hne _ h h' := by
    obtain ⟨f, h⟩ := h
    obtain ⟨g, h'⟩ := h'
    exact ⟨g, h.stable h' (hM.excl s hs t ht hne)⟩

/-- Every change of JOBS.status is an edge of the job state machine, in every run whose
unchecked writes find the job in a status that allows them. -/
theorem job_lifecycle {db : DB} {as : List (Transactions.Label Call Resource)}
    {a : Transactions.Label Call Resource} {M M' : DBMachine}
    (hrun : Run (Under SessionStep WriteChecked) (Machine.idle db) as M)
    (hstep : Under SessionStep WriteChecked M a M') {j : UUID} {st st' : JobStatus}
    (h : M.db.jobStatus j = some st) (h' : M'.db.jobStatus j = some st') (hne : st ≠ st') :
    allowedJobTransitions st st' = true ∧
      st ≠ .completed ∧ st ≠ .failed ∧ st ≠ .cancelled ∧ ¬ (st = .cleaning ∧ st' = .running) := by
  have hM := status_rule.run hrun (holds_idle trivial)
  have hedge : allowedJobTransitions st st' = true := by
    have hsame : M'.db = M.db → False := by
      intro hdb
      rw [hdb, h] at h'
      exact hne (Option.some.inj h')
    cases hstep.1 with
    | begin _ => exact (hsame rfl).elim
    | move _ _ => exact (hsame rfl).elim
    | abort _ => exact (hsame rfl).elim
    | @finish s commit r hs _ _ =>
      cases commit with
      | false => exact (hsame rfl).elim
      | true =>
        obtain ⟨m, _, f, hf⟩ := hM.sess s hs
        obtain ⟨st₁, hst₁, hlegal⟩ := hf.legal j st h
        have hdb : (s.pending M.db).jobStatus j = some st' := h'
        rw [hf.acts, h, hst₁] at hdb
        cases hdb
        exact hlegal.resolve_left hne
  refine ⟨hedge, ?_⟩
  cases st <;> cases st' <;> first | exact absurd hedge (by decide) | decide

/-- GetNextTask takes a Pending job to Running. -/
theorem job_lifecycle_started : ∃ (as : List (Transactions.Label Call Resource))
    (M M' : DBMachine) (st st' : JobStatus),
    Run (Under SessionStep WriteChecked) (Machine.idle (smallDB none)) as M ∧
      M.db.jobStatus 1 = some st ∧ M'.db.jobStatus 1 = some st' ∧ st ≠ st' ∧
      allowedJobTransitions st st' = true := by
  have hsome : (runAllUnder (Transactions.next sem code) WriteChecked
      (Machine.idle (smallDB none)) (assigning ++ statement 1 [.job 1])).any (fun M =>
        ((Transactions.next sem code M (.finish 1)).any fun M' =>
          decide (M.db.jobStatus 1 = some .pending) &&
            decide (M'.db.jobStatus 1 = some .running))) = true := by decide
  obtain ⟨M, hM, hsome⟩ := (Option.any_eq_true ..).mp hsome
  obtain ⟨M', hM', hst⟩ := (Option.any_eq_true ..).mp hsome
  obtain ⟨h, h'⟩ := Bool.and_eq_true_iff.mp hst
  have hrun : Run (Under SessionStep WriteChecked) (Machine.idle (smallDB none)) _ M :=
    (run_of_runAllUnder hM).mono fun _ _ _ hs => ⟨step_of_next hs.1, hs.2⟩
  exact ⟨_, M, M', _, _, hrun, of_decide_eq_true h, of_decide_eq_true h', by decide,
    (job_lifecycle hrun ⟨step_of_next hM', trivial⟩ (of_decide_eq_true h) (of_decide_eq_true h')
      (by decide)).1⟩

/-- The job is cancelled before it is scheduled. -/
def cancelledDB : DB :=
  [Call.createJob soloReplica smallRecord, .cancelJob soloReplica 1,
    .scheduleJob soloReplica smallJob].foldl (fun db c => (perform c 1 (fun _ => false) db).2)
    (DB.initial none)

/-- A job that is cancelled and then scheduled goes from Cleaning back to Running with the
first GetNextTask. -/
theorem cleaning_left : ∃ as M a M', Run SessionStep (Machine.idle (DB.initial none)) as M ∧
    SessionStep M a M' ∧ M.db.jobStatus 1 = some .cleaning ∧
      M'.db.jobStatus 1 = some .running := by
  obtain ⟨as, has⟩ : ∃ as, Run SessionStep (Machine.idle (DB.initial none)) as
      (Machine.idle cancelledDB) := by
    have hall : ∃ as, Run SessionStep (Machine.idle (DB.initial none)) as (Machine.idle _) :=
      serial_all lawful ([Call.createJob soloReplica smallRecord, .cancelJob soloReplica 1,
        .scheduleJob soloReplica smallJob].map (·, 1))
    rwa [List.foldl_map] at hall
  obtain ⟨bs, M, hrun, hdb, hend⟩ :=
    serial_call cancelledDB 1 (.getNextTask soloReplica 1 "w1" 10 11) 2
  refine ⟨_, M, _, _, has.append hrun, hend, ?_, ?_⟩
  · rw [hdb]
    decide
  · show (perform (.getNextTask soloReplica 1 "w1" 10 11) 2 _ cancelledDB).2.jobStatus 1 = _
    decide

end KubeMapReduce
