import KubeMapReduce.Cleanup

/-!
# Agreement on the end of a job

Several processes can hold an entry for one job, with a recorded state or with one that is
derived from the tasks. They agree as long as no state is Cancelled: this one is recorded and
never derived.

* `Steady`, `Agreed`: the entries that the live processes hold for a job lead to one terminal
  status.
* `finalize_settles`: then the transition of a finalizer is allowed, and the job does not go back
  into the map unless the storage, the database or the orchestrator fails. The finalizer ends with
  the terminal status as long as no further task of the job is given up (`keepsEnded`).
* `cancelled_requeued`: two replicas hold different states for a cancelled job, and the second
  finalizer puts the job back although nothing fails.
-/

namespace KubeMapReduce

open Tables Transactions Runs

variable {locked : Resource → Bool} {now : Time} {a : CleanMove} {f : Finalizer} {cs : List Change}
  {k : Nat} {q : Option Nat} {e : Option TerminalState} {stage : Stage} {ts : TerminalState}
  {m m' : Cleaners}

/-! ## 1. Agreement -/

variable {j : UUID}

/-- The status of a finalized job is the one that this entry leads to. -/
def Fits (db : DB) (j : UUID) (status : JobStatus) : Option TerminalState → Prop
  | some ts => status = ts.status
  | none => ∃ ts : TerminalState, status = ts.status ∧ ts ≠ .cancelled ∧ Backed db j ts

theorem Fits.changes {db db' : DB} {status : JobStatus} (h : Fits db j status e)
    (hcs : Changes now db cs db') (hspare : ∀ c ∈ cs, c.Spares j) : Fits db' j status e := by
  cases e with
  | none =>
    obtain ⟨ts, hst, hne, hb⟩ := h
    exact ⟨ts, hst, hne, hb.changes hcs hspare⟩
  | some ts => exact h

/-- The tasks do not justify both of two terminal states. -/
theorem Backed.unique {db : DB} {ts' : TerminalState} (h : Backed db j ts) (h' : Backed db j ts')
    (hne : ts ≠ .cancelled) (hne' : ts' ≠ .cancelled) : ts = ts' := by
  cases ts with
  | cancelled => exact absurd rfl hne
  | completed =>
    cases ts' with
    | completed => rfl
    | failed => exact absurd h (DB.HasFailed.not_allDone h')
    | cancelled => exact absurd rfl hne'
  | failed =>
    cases ts' with
    | completed => exact absurd h' (DB.HasFailed.not_allDone h)
    | failed => rfl
    | cancelled => exact absurd rfl hne'

/-- A finalizer that waits for the transition of its job has it accepted. -/
theorem finalizeJob_accepted {db : DB}
    (h : db.jobStatus j = some .cleaning ∨ db.jobStatus j = some ts.status) :
    (perform (.finalizeJob j ts) now locked db).1.result.isOk = true ∧
      (perform (.finalizeJob j ts) now locked db).2.jobStatus j = some ts.status := by
  have hleads : Leads now locked db (finalizeJob j ts) db fun out db' =>
      out.result = .ok () ∧ db'.jobStatus j = some ts.status := by
    refine leads_read rfl ?_
    rw [answer_getJobStatusForUpdate]
    rcases h with h | h
    · rw [h]
      refine ends_ite (fun heq => ?_) fun _ => ?_
      · cases ts <;> cases heq
      · have hv : validateJobTransition .cleaning ts.status = .ok () := by cases ts <;> rfl
        rw [hv]
        exact leads_stmt (leads_commit ⟨rfl, jobStatus_setJob (by simp [h])⟩)
    · rw [h]
      exact ends_ite (fun _ => leads_commit ⟨rfl, h⟩) fun hne => absurd rfl hne
  obtain ⟨out, hout, hok, hst⟩ := performed (c := .finalizeJob j ts) rfl hleads
  refine ⟨?_, hst⟩
  rw [hout, Outcome.map, hok]
  rfl

theorem closed_cleaning {db : DB} (h : db.jobStatus j = some .cleaning) : Closed db j :=
  ⟨.cleaning, h, by simp, by simp⟩

theorem closed_status {db : DB} (h : db.jobStatus j = some ts.status) : Closed db j :=
  ⟨ts.status, h, by cases ts <;> nofun, by cases ts <;> nofun⟩

/-- The tasks of a closed job say how it ends, the processes hold entries for closed jobs only, and
when a finalizer has counted no Failed task, all tasks are Completed. -/
structure Steady (m : Cleaners) (j : UUID) : Prop where
  decided : Closed m.world.db j → Decided m.world.db j
  closed : ∀ e, m.Holds j e → Closed m.world.db j
  counted : m.Counting j → m.world.db.AllDone j

theorem not_holds_initial {b : Bool} : ¬ (Cleaners.initial b q).Holds j e := by
  rintro (⟨_, hx, _⟩ | ⟨_, hi, _⟩ | ⟨_, hf, _⟩)
  · cases hx
  · cases hi
  · cases hf

theorem steady_initial (b : Bool) (q : Option Nat) (j : UUID) :
    Steady (Cleaners.initial b q) j := by
  refine ⟨?_, fun e he => absurd he not_holds_initial, fun h => absurd h.holds not_holds_initial⟩
  rintro ⟨status, hs, _⟩
  cases hs

/-- A closed job stays closed when it is not moved to Cleaning or finalized. -/
theorem Steady.status_kept (hm : Steady m j) (hcl : Closed m.world.db j)
    (hstatus : m'.world.db.jobStatus j = m.world.db.jobStatus j ∨
      m.world.db.jobStatus j = none ∧ m'.world.db.jobStatus j = some .pending ∨
      m'.world.db.jobStatus j = some .running ∧ ¬ Decided m.world.db j) :
    m'.world.db.jobStatus j = m.world.db.jobStatus j := by
  rcases hstatus with h | ⟨h, _⟩ | ⟨_, h⟩
  · exact h
  · obtain ⟨status, hs, _⟩ := hcl
    rw [h] at hs
    cases hs
  · exact absurd (hm.decided hcl) h

theorem steady_step (hm : Steady m j) (h : Cleans m a m')
    (ho : Schedules m j a → ¬ Closed m.world.db j) : Steady m' j := by
  have hdecided : Closed m.world.db j → Decided m'.world.db j := by
    intro hcl
    obtain ⟨_, _, hcs, hspare⟩ := cleans_spares h fun hsch => ho hsch hcl
    exact (hm.decided hcl).changes hcs hspare
  have hcounted : m.Counting j → m'.world.db.AllDone j := by
    intro hc
    obtain ⟨_, _, hcs, hspare⟩ := cleans_spares h fun hsch => ho hsch (hm.closed none hc.holds)
    exact (hm.counted hc).changes hcs hspare
  cases cleans_effect h j with
  | passes status holds counting =>
    refine ⟨fun hcl' => ?_, fun e he => ?_, fun hc => hcounted (counting hc)⟩
    · by_cases hcl : Closed m.world.db j
      · exact hdecided hcl
      · obtain ⟨st, hst, hp, hr⟩ := hcl'
        rcases status with h | ⟨_, h⟩ | ⟨h, _⟩
        · exact absurd ⟨st, h ▸ hst, hp, hr⟩ hcl
        · exact absurd (Option.some.inj (hst.symm.trans h)) hp
        · exact absurd (Option.some.inj (hst.symm.trans h)) hr
    · have hcl := hm.closed e (holds e he)
      obtain ⟨st, hst, hopen⟩ := hcl
      exact ⟨st, (hm.status_kept (hm.closed e (holds e he)) status).trans hst, hopen⟩
  | closes closes db holds counting =>
    exact ⟨fun _ => (db ▸ closes.backed).decided, fun _ _ => closed_cleaning (db ▸ closes.cleaning),
      fun hc => hcounted (counting hc)⟩
  | starts cleaning world holds counting =>
    exact ⟨fun hcl => hdecided (world ▸ hcl), fun _ _ => closed_cleaning (world ▸ cleaning),
      fun hc => hcounted (counting hc)⟩
  | counts none sound world holds =>
    have hdone := (hm.decided (hm.closed _ none)).resolve_left sound
    exact ⟨fun hcl => hdecided (world ▸ hcl), fun e he => world ▸ hm.closed e (holds e he),
      fun _ => world ▸ hdone⟩
  | derives none state world holds counting =>
    exact ⟨fun hcl => hdecided (world ▸ hcl), fun _ _ => world ▸ hm.closed _ none,
      fun hc => hcounted (counting hc)⟩
  | finalizes held step holds counting =>
    have hcl := hm.closed _ held
    refine ⟨fun _ => hdecided hcl, fun _ _ => ?_, fun hc => hcounted (counting hc)⟩
    rw [(step_call step).2.2.1]
    obtain ⟨_, _, _, hsame | ⟨_, hcleaning, _⟩⟩ :=
      performed (c := .finalizeJob j _) rfl finalizeJob_changes
    · rw [hsame]
      exact hcl
    · exact closed_status (finalizeJob_accepted (.inl hcleaning)).2

/-- The entries that the live processes hold for a job lead to one terminal status: the tasks
justify each of them, Cancelled stands alone, and a finalized job has that status. -/
structure Agreed (m : Cleaners) (j : UUID) : Prop extends Steady m j where
  backed : ∀ ts, m.Holds j (some ts) → Backed m.world.db j ts
  cancelled : m.Holds j (some .cancelled) → ∀ e, m.Holds j e → e = some .cancelled
  ended : ∀ e status, m.Holds j e → m.world.db.jobStatus j = some status →
    status = .cleaning ∨ Fits m.world.db j status e

theorem agreed_initial (b : Bool) (q : Option Nat) (j : UUID) :
    Agreed (Cleaners.initial b q) j :=
  ⟨steady_initial b q j, fun _ he => absurd he not_holds_initial,
    fun he => absurd he not_holds_initial, fun _ _ he => absurd he not_holds_initial⟩

namespace Agreed

variable (hm : Agreed m j) (hm' : Steady m' j)
include hm hm'

/-- A step after which the processes hold no new entry for the job and a closed job has the status
that it had. -/
theorem keep (hspare : Closed m.world.db j →
      ∃ now cs, Changes now m.world.db cs m'.world.db ∧ ∀ c ∈ cs, c.Spares j)
    (hstatus : Closed m.world.db j → m'.world.db.jobStatus j = m.world.db.jobStatus j)
    (hholds : ∀ e, m'.Holds j e → m.Holds j e) : Agreed m' j := by
  refine ⟨hm', fun ts he => ?_, fun hc e he => hm.cancelled (hholds _ hc) e (hholds _ he),
    fun e status he hs => ?_⟩
  · obtain ⟨_, _, hcs, hspare⟩ := hspare (hm.closed _ (hholds _ he))
    exact (hm.backed ts (hholds _ he)).changes hcs hspare
  · have hcl := hm.closed _ (hholds _ he)
    obtain ⟨_, _, hcs, hspare⟩ := hspare hcl
    exact (hm.ended e status (hholds e he) (hstatus hcl ▸ hs)).imp_right fun h =>
      h.changes hcs hspare

/-- An operation closes the job and is about to put its entry into the map. -/
theorem close {c : Call} (hc : ClosesAs c now locked m.world.db j ts)
    (hdb : m'.world.db = (perform c now locked m.world.db).2) (hspare : Closed m.world.db j →
      ∃ now cs, Changes now m.world.db cs m'.world.db ∧ ∀ c ∈ cs, c.Spares j)
    (hopen : ts = .cancelled → ¬ Closed m.world.db j)
    (hholds : ∀ e, m'.Holds j e → m.Holds j e ∨ e = some ts) : Agreed m' j := by
  have hb : Backed m'.world.db j ts := hdb ▸ hc.backed
  have hcl : m'.world.db.jobStatus j = some .cleaning := hdb ▸ hc.cleaning
  refine ⟨hm', fun ts' he => ?_, fun hcan e he => ?_,
    fun e status _ hs => .inl (Option.some.inj (hs.symm.trans hcl))⟩
  · rcases hholds _ he with he | he
    · obtain ⟨now, cs, hcs, hspare⟩ := hspare (hm.closed _ he)
      exact (hm.backed ts' he).changes hcs hspare
    · cases he
      exact hb
  · rcases hholds _ hcan with hcan | hts
    · -- no other operation closes a job that was cancelled before
      have hq : Quiet m.world.db j := hm.backed _ hcan
      cases ts with
      | completed => exact absurd (Quiet.decided hq) (hc.undecided rfl)
      | failed => exact absurd hq (hc.busy rfl)
      | cancelled => exact absurd (hm.closed _ hcan) (hopen rfl)
    · cases hts
      rcases hholds e he with he | he
      · exact absurd (hm.closed e he) (hopen rfl)
      · exact he

/-- The state of the job is derived from its tasks. -/
theorem derive (hnone : m.Holds j none) (hb : Backed m.world.db j ts) (hne : ts ≠ .cancelled)
    (hw : m'.world = m.world) (hholds : ∀ e, m'.Holds j e → m.Holds j e ∨ e = some ts) :
    Agreed m' j := by
  refine ⟨hm', fun ts' he => ?_, fun hcan => ?_, fun e status he hs => ?_⟩
  · rw [hw]
    rcases hholds _ he with he | he
    · exact hm.backed ts' he
    · cases he
      exact hb
  · rcases hholds _ hcan with hcan | hts
    · cases hm.cancelled hcan none hnone
    · cases hts
      exact absurd rfl hne
  · rw [hw] at hs ⊢
    rcases hholds e he with he | rfl
    · exact hm.ended e status he hs
    · refine (hm.ended none status hnone hs).imp_right ?_
      rintro ⟨ts', rfl, hne', hb'⟩
      rw [hb.unique hb' hne hne']
      rfl

/-- A finalizer writes the terminal status. -/
theorem finalize (hts : m.Holds j (some ts)) (hcs : Changes now m.world.db cs m'.world.db)
    (hspare : ∀ c ∈ cs, c.Spares j) (hst : m'.world.db.jobStatus j = some ts.status)
    (hholds : ∀ e, m'.Holds j e → m.Holds j e) : Agreed m' j := by
  refine ⟨hm', fun ts' he => (hm.backed ts' (hholds _ he)).changes hcs hspare,
    fun hc e he => hm.cancelled (hholds _ hc) e (hholds _ he), fun e status he hs => .inr ?_⟩
  cases hst.symm.trans hs
  have he := hholds e he
  cases e with
  | none =>
    refine ⟨ts, rfl, ?_, (hm.backed ts hts).changes hcs hspare⟩
    rintro rfl
    cases hm.cancelled hts none he
  | some ts' =>
    by_cases hc : ts = .cancelled
    · subst hc
      cases hm.cancelled hts _ he
      rfl
    · by_cases hc' : ts' = .cancelled
      · subst hc'
        cases hm.cancelled he _ hts
        rfl
      · exact congrArg _ ((hm.backed ts hts).unique (hm.backed ts' he) hc hc')

omit hm' in
/-- The transition of a finalizer is allowed. -/
theorem accepts (hts : m.Holds j (some ts)) :
    m.world.db.jobStatus j = some .cleaning ∨ m.world.db.jobStatus j = some ts.status := by
  obtain ⟨status, hs, _⟩ := hm.closed _ hts
  rcases hm.ended _ status hts hs with rfl | hfits
  · exact .inl hs
  · exact .inr (hfits ▸ hs)

end Agreed

/-! ## 2. Undisputed runs -/

/-- Conditions under which the processes do not get to hold different states for a job: CancelJob
is not called for a job that is Cleaning already, a closed job is not scheduled, and a process
that starts finds no Cleaning job that a live process is about to finalize as Cancelled. -/
def undisputed (m : Cleaners) : CleanMove → Prop
  | .serve _ (.cancelJob _ j) _ _ => m.world.db.jobStatus j ≠ some .cleaning
  | .serve _ (.scheduleJob s req) now locked =>
    (perform (.scheduleJob s req) now locked m.world.db).1.result.isOk = true →
      ∀ j ∈ s.uuidParse req.jobID, ¬ Closed m.world.db j
  | .start _ ok => ok = true → ∀ row ∈ m.world.db.jobs.rows, row.status = .cleaning →
      ¬ m.Holds row.jobID (some .cancelled)
  | _ => True

theorem agreed_step (hm : Agreed m j) (h : Cleans m a m') (ho : undisputed m a) : Agreed m' j := by
  have hopen : Schedules m j a → ¬ Closed m.world.db j := by
    intro hsch
    unfold Schedules at hsch
    split at hsch
    · exact ho hsch.1 j hsch.2
    · exact hsch.elim
  have hm' := steady_step hm.toSteady h hopen
  have hspare : Closed m.world.db j →
      ∃ now cs, Changes now m.world.db cs m'.world.db ∧ ∀ c ∈ cs, c.Spares j :=
    fun hcl => cleans_spares h fun hsch => hopen hsch hcl
  cases cleans_effect h j with
  | passes status holds counting =>
    exact hm.keep hm' hspare (fun hcl => hm.status_kept hcl status) holds
  | closes closes db holds counting =>
    refine hm.close hm' closes db hspare ?_ holds
    rintro rfl ⟨status, hst, hp, hrun⟩
    obtain ⟨s, rfl⟩ := closes.cancels.mp rfl
    refine closes.live rfl ⟨status, hst, ?_⟩
    cases status with
    | pending => exact absurd rfl hp
    | running => exact absurd rfl hrun
    | cleaning => exact absurd hst ho
    | _ => simp
  | starts cleaning world holds counting =>
    have hno : ¬ m.Holds j (some .cancelled) := by
      obtain ⟨row, hrow, hst⟩ := Option.map_eq_some_iff.mp cleaning
      have hnot := ho rfl row (Table.mem_of_get? hrow) hst
      rwa [show row.jobID = j from Table.key_of_get? hrow] at hnot
    have hold : ∀ {ts}, m'.Holds j (some ts) → m.Holds j (some ts) := fun he =>
      (holds _ he).resolve_right (by simp)
    rw [← world] at cleaning
    exact ⟨hm', fun ts he => world ▸ hm.backed ts (hold he), fun hc => absurd (hold hc) hno,
      fun e status _ hs => .inl (Option.some.inj (hs.symm.trans cleaning))⟩
  | counts none sound world holds =>
    exact hm.keep hm' hspare (fun _ => by rw [world]) holds
  | derives none state world holds counting =>
    rcases state with ⟨rfl, hf⟩ | ⟨⟨f, hk, hcounting⟩, hts⟩
    · exact hm.derive hm' none (show Backed m.world.db j .failed from hf) (by simp) world holds
    · have hdone : Backed m.world.db j .completed :=
        hm.counted ⟨f, List.mem_of_getElem? hk, hcounting⟩
      rw [pendingCount_eq_zero.mpr hdone, if_neg (Nat.lt_irrefl 0)] at hts
      subst hts
      exact hm.derive hm' none hdone (by simp) world holds
  | finalizes held step holds counting =>
    obtain ⟨_, cs, hcs, hspare⟩ := spares_step (j := j) step trivial
    refine hm.finalize hm' held hcs hspare ?_ holds
    rw [(step_call step).2.2.1]
    exact (finalizeJob_accepted (hm.accepts held)).2

theorem agreed_run {b : Bool} {as : List CleanMove}
    (h : Run (Under Cleans undisputed) (Cleaners.initial b q) as m) (j : UUID) : Agreed m j :=
  h.invariant (I := fun m => Agreed m j) (fun _ _ _ hm hs => agreed_step hm hs.1 hs.2)
    (agreed_initial b q j)

/-! ## 3. The end of a finalization -/

/-- The services that this finalizer calls succeed, and its process goes on. -/
def succeeds (k r : Nat) : CleanMove → Prop
  | .finalizer k' (.deleteStaging ok) => k' = k → ok = true
  | .finalizer k' .updateFails => k' ≠ k
  | .finalizer k' (.cancelWorkers ok) => k' = k → ok = true
  | .restart r' => r' ≠ r
  | _ => True

/-- FailTask and FailStaleTasks give up no further task of the job when it has its terminal status;
that would move the job back to Cleaning. -/
def keepsEnded (j : UUID) (m : Cleaners) : CleanMove → Prop
  | .serve _ c now locked =>
    Terminal m.world.db j → ¬ Records c now locked m.world.db j .failed
  | _ => True

/-- Then the job keeps the status that it has. -/
theorem ended_kept (hm : Agreed m j) (h : Cleans m a m') (hkeeps : keepsEnded j m a)
    (hst : m.world.db.jobStatus j = some ts.status) : m'.world.db.jobStatus j = some ts.status := by
  have hterminal : Terminal m.world.db j :=
    ⟨ts.status, hst, by cases ts <;> simp [TerminalState.status]⟩
  have hne : m.world.db.jobStatus j ≠ some .cleaning := by
    rw [hst]
    cases ts <;> simp [TerminalState.status]
  cases cleans_effect h j with
  | passes status => exact (hm.status_kept hterminal.closed status).trans hst
  | @closes _ _ _ _ ts' closes =>
    cases ts' with
    | completed => exact absurd (hm.decided hterminal.closed) (closes.undecided rfl)
    | failed => exact absurd closes.records (hkeeps hterminal)
    | cancelled => exact absurd hterminal (closes.live rfl)
  | starts cleaning => exact absurd cleaning hne
  | counts _ _ world => rw [world, hst]
  | derives _ _ world => rw [world, hst]
  | finalizes held step =>
    have hsame := (hm.accepts held).resolve_left hne
    rw [(step_call step).2.2.1, (finalizeJob_accepted (.inr hsame)).2, ← hsame, hst]

/-- The stages of finalizeJob when everything that it calls succeeds. -/
def Stage.onward : Stage → Option Stage
  | .deleteStaging ts => some (.updateStatus ts)
  | .updateStatus ts => some (.cancelWorkers ts)
  | .cancelWorkers _ => some .done
  | _ => none

theorem finalizer_set {step : FinalizerStep} (h : m.finalizerNext k f stage step = some m') :
    ∃ stage', m'.finalizers = m.finalizers.set k { f with stage := stage' } := by
  cases finalizerNext_cases h <;> exact ⟨_, rfl⟩

/-- The other moves leave a finalizer as it is, unless its process ends. -/
theorem finalizer_kept (h : Cleans m a m') (hk : m.finalizers[k]? = some f)
    (ha : ∀ step, a ≠ .finalizer k step) (hr : a ≠ .restart f.replica) :
    m'.finalizers[k]? = some f := by
  have happend : ∀ l, (m.finalizers ++ l)[k]? = some f := fun l => by
    rw [List.getElem?_append_left (List.getElem?_eq_some_iff.mp hk).1, hk]
  cases a with
  | serve r c now locked =>
    obtain ⟨_, _, hm'⟩ := cleans_serve h
    rw [hm']
    exact hk
  | post i action now =>
    obtain ⟨r, w, _, _, rfl⟩ := cleans_post h
    cases action <;> exact hk
  | restart r =>
    obtain ⟨_, hm'⟩ := cleans_restart h
    rw [hm']
    dsimp only
    rw [List.getElem?_map, hk, Option.map_some, Finalizer.stop, if_neg]
    exact fun he => hr (he ▸ rfl)
  | start r ok =>
    obtain ⟨_, rfl⟩ := cleans_start h
    exact happend _
  | tick r jobs =>
    obtain ⟨popped, _, rfl⟩ := cleans_tick h
    exact happend _
  | finalizer k' step =>
    obtain ⟨g, _, hnext⟩ := cleans_finalizer h
    obtain ⟨stage, hset⟩ := finalizer_set hnext
    rw [hset, List.getElem?_set_ne, hk]
    rintro rfl
    exact ha step rfl

/-- A step of a finalizer whose transition is accepted leads on, and writes the status. -/
theorem finalizer_onward {step : FinalizerStep} (hm : Agreed m f.jobID)
    (hk : m.finalizers[k]? = some f) (hon : f.stage.onward = some stage)
    (h : Cleans m (.finalizer k step) m') (hok : succeeds k f.replica (.finalizer k step)) :
    m'.finalizers[k]? = some { f with stage := stage } ∧
      ∀ ts, stage = .cancelWorkers ts → m'.world.db.jobStatus f.jobID = some ts.status := by
  obtain ⟨g, hg, hnext⟩ := cleans_finalizer h
  obtain rfl : f = g := Option.some.inj (hk.symm.trans hg)
  have hset : (m.finalizers.set k { f with stage := stage })[k]? = some { f with stage := stage } :=
    List.getElem?_set_self (List.getElem?_eq_some_iff.mp hk).1
  generalize hs : f.stage = stage' at hnext hon
  cases finalizerNext_cases hnext with
  | deleteStaging ts ok _ =>
    cases hon
    cases hok rfl
    exact ⟨hset, by simp⟩
  | skipStaging ts _ =>
    cases hon
    exact ⟨hset, by simp⟩
  | updateStatus ts now locked w hw =>
    cases hon
    obtain ⟨_, _, hdb, _⟩ := step_call hw
    have hheld : m.Holds f.jobID (some ts) := Cleaners.holds_of_finalizer hk (by rw [hs]; rfl)
    obtain ⟨hacc, hst⟩ : _ ∧ (perform (.finalizeJob f.jobID ts) now locked _).2.jobStatus _ = _ :=
      finalizeJob_accepted (hm.accepts hheld)
    rw [← hdb] at hst
    refine ⟨?_, fun ts' hts => ?_⟩
    · dsimp only [Cleaners.goto]
      rw [hacc, if_pos rfl]
      exact hset
    · cases hts
      exact hst
  | updateFails ts => exact absurd rfl hok
  | cancelWorkers ts =>
    cases hon
    exact ⟨hset, by simp⟩
  | cancelFails ts => cases hok rfl
  | _ => cases hon

/-- A finalizer that is not done can take its next step. -/
theorem finalizer_enabled (hk : m.finalizers[k]? = some f) (hon : f.stage.onward = some stage) :
    ∃ step m', Cleans m (.finalizer k step) m' ∧ succeeds k f.replica (.finalizer k step) := by
  have hclean : ∀ step, clean m (.finalizer k step) = m.finalizerNext k f f.stage step := by
    intro step
    simp only [clean, hk, Option.bind_some]
  cases hs : f.stage with
  | deleteStaging ts =>
    rw [hs] at hclean
    by_cases hr : m.hasStaging = true ∧ m.retries f.replica f.jobID < maxCleanupRetries
    · exact ⟨.deleteStaging true, m.goto k f (.updateStatus ts), (hclean _).trans (if_pos hr),
        fun _ => rfl⟩
    · exact ⟨.skipStaging, m.goto k f (.updateStatus ts), (hclean _).trans (if_neg hr), trivial⟩
  | updateStatus ts =>
    rw [hs] at hclean
    obtain ⟨w, hw⟩ : ∃ w, next m.world
        (.call (.finalizeJob f.jobID ts) m.world.now fun _ => false) = some w :=
      ⟨_, if_pos ⟨Nat.le_refl _, rfl⟩⟩
    exact ⟨.updateStatus m.world.now fun _ => false, _,
      (hclean _).trans (Option.map_eq_some_iff.mpr ⟨w, hw, rfl⟩), trivial⟩
  | cancelWorkers ts =>
    rw [hs] at hclean
    exact ⟨.cancelWorkers true, _, hclean _, fun _ => rfl⟩
  | _ =>
    rw [hs] at hon
    cases hon

/-- The path of a finalizeJob call. -/
def Stage.finalizing (ts : TerminalState) (stage : Stage) : Prop :=
  stage = .deleteStaging ts ∨ stage = .updateStatus ts ∨ stage = .cancelWorkers ts ∨ stage = .done

theorem finalizing_onward (h : stage.finalizing ts) :
    stage = .done ∨ ∃ stage', stage.onward = some stage' ∧ stage'.finalizing ts := by
  rcases h with rfl | rfl | rfl | rfl
  · exact .inr ⟨_, rfl, .inr (.inl rfl)⟩
  · exact .inr ⟨_, rfl, .inr (.inr (.inl rfl))⟩
  · exact .inr ⟨_, rfl, .inr (.inr (.inr rfl))⟩
  · exact .inl rfl

/-- The moves after an entry has been taken from the map, while the services succeed. -/
def Finalizing (k r : Nat) (m : Cleaners) (a : CleanMove) : Prop := undisputed m a ∧ succeeds k r a

/-- What a finalizer keeps while it goes through its stages. -/
structure OnPath (k : Nat) (f : Finalizer) (ts : TerminalState) (stage : Stage) (m : Cleaners) :
    Prop where
  agreed : Agreed m f.jobID
  found : m.finalizers[k]? = some { f with stage := stage }
  path : stage.finalizing ts

theorem OnPath.step (hv : OnPath k f ts stage m)
    (h : Under Cleans (Finalizing k f.replica) m a m') :
    ∃ stage', OnPath k f ts stage' m' ∧ (stage' = stage ∨ stage.onward = some stage' ∧
      (stage' = .cancelWorkers ts → m'.world.db.jobStatus f.jobID = some ts.status)) := by
  obtain ⟨hs, ho, hok⟩ := h
  have hagreed := agreed_step hv.agreed hs ho
  by_cases ha : ∃ step, a = .finalizer k step
  · obtain ⟨step, rfl⟩ := ha
    rcases finalizing_onward hv.path with rfl | ⟨stage', hon, hpath'⟩
    · -- a finalizer that is done takes no step
      obtain ⟨g, hg, hnext⟩ := cleans_finalizer hs
      cases hv.found.symm.trans hg
      cases step <;> cases hnext
    · obtain ⟨hk, hst⟩ :=
        finalizer_onward (f := { f with stage := stage }) hv.agreed hv.found hon hs hok
      exact ⟨stage', ⟨hagreed, hk, hpath'⟩, .inr ⟨hon, hst ts⟩⟩
  · refine ⟨stage, ⟨hagreed, finalizer_kept hs hv.found (fun step he => ha ⟨step, he⟩) ?_, hv.path⟩,
      .inl rfl⟩
    rintro rfl
    exact hok rfl

/-- In an undisputed run a finalizeJob call whose services succeed goes through its stages to the
end, whatever the other processes do: its next step is enabled, every step leads on, the transaction
writes the terminal status of the entry, and the job is never put back into the map. The job still
has that status when the call ends, if no further task of it is given up in between. -/
theorem finalize_settles {q : Option Nat} {b : Bool} {as : List CleanMove}
    (h : Run (Under Cleans undisputed) (Cleaners.initial b q) as m) {k : Nat} {f : Finalizer}
    {ts : TerminalState} (hk : m.finalizers[k]? = some f) (hts : f.stage = .deleteStaging ts) :
    (∀ bs m', Run (Under Cleans (Finalizing k f.replica)) m bs m' →
      ∃ stage, m'.finalizers[k]? = some { f with stage := stage } ∧ stage.finalizing ts ∧
        (stage = .done ∨ ∃ stage', stage.onward = some stage' ∧
          (∃ step m'', Cleans m' (.finalizer k step) m'' ∧
            succeeds k f.replica (.finalizer k step)) ∧
          ∀ step m'', Cleans m' (.finalizer k step) m'' →
            succeeds k f.replica (.finalizer k step) →
            m''.finalizers[k]? = some { f with stage := stage' } ∧
              (stage' = .cancelWorkers ts → m''.world.db.jobStatus f.jobID = some ts.status))) ∧
    ∀ bs m', Run (Under Cleans fun m a => Finalizing k f.replica m a ∧ keepsEnded f.jobID m a)
        m bs m' →
      ∃ stage, m'.finalizers[k]? = some { f with stage := stage } ∧ stage.finalizing ts ∧
        (stage = .cancelWorkers ts ∨ stage = .done →
          m'.world.db.jobStatus f.jobID = some ts.status) := by
  have hstart : OnPath k f ts (.deleteStaging ts) m :=
    ⟨agreed_run h f.jobID, by rw [hk, ← hts], .inl rfl⟩
  refine ⟨fun bs m' h' => ?_, fun bs m' h' => ?_⟩
  · obtain ⟨stage, hm'⟩ := h'.invariant (I := fun v => ∃ stage, OnPath k f ts stage v)
      (fun v a v' ⟨stage, hv⟩ hs => (hv.step hs).imp fun _ h => h.1) ⟨_, hstart⟩
    refine ⟨stage, hm'.found, hm'.path, ?_⟩
    rcases finalizing_onward hm'.path with hdone | ⟨stage', hon, _⟩
    · exact .inl hdone
    · refine .inr ⟨stage', hon, finalizer_enabled (f := { f with stage := stage }) hm'.found hon,
        fun step m'' hs hok => ?_⟩
      obtain ⟨hk', hst⟩ :=
        finalizer_onward (f := { f with stage := stage }) hm'.agreed hm'.found hon hs hok
      exact ⟨hk', hst ts⟩
  · obtain ⟨stage, hm', hst⟩ : ∃ stage, OnPath k f ts stage m' ∧ (stage = .cancelWorkers ts ∨
        stage = .done → m'.world.db.jobStatus f.jobID = some ts.status) := by
      refine h'.invariant (I := fun v => ∃ stage, OnPath k f ts stage v ∧
          (stage = .cancelWorkers ts ∨
        stage = .done → v.world.db.jobStatus f.jobID = some ts.status)) ?_
        ⟨_, hstart, by rintro (h | h) <;> cases h⟩
      rintro v a v' ⟨stage, hv, hst⟩ ⟨hs, hf, hkeeps⟩
      obtain ⟨stage', hv', heq | ⟨hon, hwritten⟩⟩ := hv.step ⟨hs, hf⟩
      · exact ⟨stage', hv', fun hend => ended_kept hv.agreed hs hkeeps (hst (heq ▸ hend))⟩
      · refine ⟨stage', hv', ?_⟩
        rintro (rfl | rfl)
        · exact hwritten rfl
        · -- the step to the end leaves the store as it is
          rcases hv.path with rfl | rfl | rfl | rfl <;> cases hon
          exact ended_kept hv.agreed hs hkeeps (hst (.inl rfl))
    exact ⟨stage, hm'.found, hm'.path, hst⟩

/-! ## 4. A cancelled job -/

instance (m : Cleaners) (a : CleanMove) : Decidable (undisputed m a) := by
  unfold undisputed
  split <;> infer_instance

instance (k r : Nat) (a : CleanMove) : Decidable (succeeds k r a) := by
  unfold succeeds
  split <;> infer_instance

/-- Replica `r` of two. -/
def replicaOfTwo (r : Nat) : Scheduler := newScheduler r 2 "manager" 30 soloReplica.uuidParse

/-- A call to this replica while no other transaction holds a lock. -/
def callTo (r : Nat) (c : Call) (now : Time) : CleanMove := .serve r c now fun _ => false

def startProcess (r : Nat) (now : Time) : List CleanMove :=
  [callTo r (.recoverFailAttempts (replicaOfTwo r)) now,
    callTo r (.recoverResetTasks (replicaOfTwo r)) now,
    callTo r (.recoverWorkerPools (replicaOfTwo r)) now, .start r true]

/-- Replica 0 creates a job and cancels it. -/
def cancelledMoves : List CleanMove :=
  startProcess 0 0 ++
    [callTo 0 (.createJob (replicaOfTwo 0) smallRecord) 1,
      callTo 0 (.cancelJob (replicaOfTwo 0) 1) 2, .post 4 (.enqueueCleanup 1 .cancelled) 2]

/-- The steps of a finalizer whose services succeed, up to the transaction. -/
def finalizing (k : Nat) (now : Time) : List CleanMove :=
  [.finalizer k (.deleteStaging true), .finalizer k (.updateStatus now fun _ => false)]

instance (k r : Nat) (m : Cleaners) (a : CleanMove) : Decidable (Finalizing k r m a) :=
  inferInstanceAs (Decidable (_ ∧ _))

instance (j : UUID) (m : Cleaners) (a : CleanMove) : Decidable (keepsEnded j m a) := by
  unfold keepsEnded
  split <;> infer_instance

/-- The finalizer of a cancelled job goes to its end. -/
theorem finalize_settles_cancelled :
    ∃ m m', Run (Under Cleans undisputed) (Cleaners.initial true none)
        (cancelledMoves ++ [.tick 0 [1]]) m ∧
      m.finalizers[0]? = some ⟨0, 1, .deleteStaging .cancelled⟩ ∧
      Run Cleans m (finalizing 0 3 ++ [.finalizer 0 (.cancelWorkers true)]) m' ∧
      m'.finalizers[0]? = some ⟨0, 1, .done⟩ ∧
      m'.world.db.jobStatus 1 = some .cancelled := by
  obtain ⟨m, hm, hk⟩ := (run_toUnder (by decide) :
    ∃ m, Run (Under Cleans undisputed) (Cleaners.initial true none)
        (cancelledMoves ++ [.tick 0 [1]]) m ∧
      (m.finalizers[0]? = some ⟨0, 1, .deleteStaging .cancelled⟩ ∧
        (runAllUnder clean (fun m a => Finalizing 0 0 m a ∧ keepsEnded 1 m a) m
          (finalizing 0 3 ++ [.finalizer 0 (.cancelWorkers true)])).any
            (fun m' => decide (m'.finalizers[0]? = some ⟨0, 1, .done⟩)) = true))
  obtain ⟨m', hm', hdone⟩ := run_toUnder hk.2
  obtain ⟨stage, hstage, _, hst⟩ := (finalize_settles hm hk.1 rfl).2 _ m' hm'
  cases hdone.symm.trans hstage
  exact ⟨m, m', hm, hk.1, hm'.of_under, hdone, hst (.inr rfl)⟩

/-- Replica 1 starts before the job is finalized, finds it Cleaning without tasks, and derives
Completed. Replica 0 finalizes it as Cancelled. Then replica 1 takes its entry from its map. -/
def disputedMoves : List CleanMove :=
  cancelledMoves ++ startProcess 1 3 ++
    [.finalizer 0 .count, .finalizer 0 .count, .finalizer 0 .enqueue, .tick 0 [1]] ++
    finalizing 1 4 ++ [.finalizer 1 (.cancelWorkers true), .tick 1 [1]]

/-- The finalizer of replica 1 puts the job back into the map, although nothing has failed. -/
theorem cancelled_requeued :
    ∃ m m', Run Cleans (Cleaners.initial true none) disputedMoves m ∧
      m.finalizers[2]? = some ⟨1, 1, .deleteStaging .completed⟩ ∧
      Run (Under Cleans fun _ a => succeeds 2 1 a) m
        (finalizing 2 5 ++ [.finalizer 2 .enqueue]) m' ∧
      m'.world.db.jobStatus 1 = some .cancelled ∧
      m'.pending.get? (1, 1) = some ⟨1, 1, some .completed⟩ := by
  obtain ⟨m, hm, hk⟩ := (run_to (by decide) :
    ∃ m, Run Cleans (Cleaners.initial true none) disputedMoves m ∧
      (m.finalizers[2]? = some ⟨1, 1, .deleteStaging .completed⟩ ∧
        (runAllUnder clean (fun _ a => succeeds 2 1 a) m
          (finalizing 2 5 ++ [.finalizer 2 .enqueue])).any
            (fun m' => decide (m'.world.db.jobStatus 1 = some .cancelled ∧
              m'.pending.get? (1, 1) = some ⟨1, 1, some .completed⟩)) = true))
  obtain ⟨m', hm', hst⟩ := run_toUnder hk.2
  exact ⟨m, m', hm, hk.1, hm', hst⟩

end KubeMapReduce
