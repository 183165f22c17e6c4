import KubeMapReduce.Cluster

/-!
# Commit fencing

The output rows of a task come from one CompleteTask call that held the task's
current attempt and an unexpired lease, and a Completed task is never changed again.

* `completed_apply`, `apply_outputs`: no change touches a Completed task, and only
  `complete` adds output rows.
* `completed_run`: so a Completed task and its output rows are final in every run.
* `commit_fencing`: the whole property, in every run from the empty store.
-/

namespace KubeMapReduce

open Tables Runs

variable {row : TaskRow} {c : Change} {cs : List Change} {as : List Label} {t : UUID} {w : World}
  {now : Time} {db db' : DB}

/-! ## 1. Changes -/

/-- The output rows that a change adds. -/
def Change.rows : Change → List OutputRow
  | .complete _ _ _ _ rows => rows
  | _ => []

theorem apply_outputs (c : Change) : (c.apply now db).outputs = db.outputs ++ c.rows := by
  cases c with
  | complete => rfl
  | _ => exact (List.append_nil _).symm

/-- Output rows are added only to a task that is In-Progress. -/
theorem rows_inProgress (hg : c.Guard now db) {o : OutputRow} (ho : o ∈ c.rows) :
    ∃ row, db.tasks.get? o.taskID = some row ∧ row.status = .inProgress := by
  cases c with
  | complete t a lease skew rows =>
    obtain ⟨hrows, row, _, hc, _⟩ := hg
    exact ⟨row, by rw [hrows o ho]; exact hc.task, hc.status⟩
  | _ => cases ho

/-- No change touches a Completed task. -/
theorem completed_apply (hg : c.Guard now db) (ht : db.tasks.get? t = some row)
    (hs : row.status = .completed) : (c.apply now db).tasks.get? t = some row :=
  Change.task_untouched ht fun hc => Change.touched_status hg ht hc hs

/-- A Completed task and its output rows stay as they are. -/
theorem completed_changes (h : Changes now db cs db') (ht : db.tasks.get? t = some row)
    (hs : row.status = .completed) :
    db'.tasks.get? t = some row ∧ db'.outputsOf t = db.outputsOf t := by
  refine h.keeps (I := fun d => d.tasks.get? t = some row ∧ d.outputsOf t = db.outputsOf t)
    ?_ ⟨ht, rfl⟩
  rintro d c _ hg ⟨hd, ho⟩
  refine ⟨completed_apply hg hd hs, ?_⟩
  have hrows : c.rows.filter (fun o => decide (o.taskID = t)) = [] := by
    refine List.filter_eq_nil_iff.mpr fun o hm heq => ?_
    obtain ⟨row', hrow', hp⟩ := rows_inProgress hg hm
    rw [of_decide_eq_true heq, hd] at hrow'
    cases hrow'
    rw [hs] at hp
    cases hp
  rw [DB.outputsOf, apply_outputs, List.filter_append, hrows, List.append_nil]
  exact ho

theorem changes_outputs (h : Changes now db cs db') :
    db'.outputs = db.outputs ++ cs.flatMap Change.rows := by
  induction h with
  | nil => exact (List.append_nil _).symm
  | cons hs _ ih =>
    rw [ih, hs.2, apply_outputs, List.flatMap_cons, List.append_assoc]

/-! ## 2. Runs -/

/-- A step of the cluster in which the replicas may have run any part of Recover: the
transactions come in any order. -/
def AnyStep (w : World) (a : Label) (w' : World) : Prop :=
  ∃ phase, Step { w with phase := phase } a w'

theorem AnyStep.of_step {w' : World} {a : Label} (h : Step w a w') : AnyStep w a w' :=
  ⟨w.phase, h⟩

/-- A Completed task is final in every run. -/
theorem completed_run {w' : World} (h : Run AnyStep w as w') (ht : w.db.tasks.get? t = some row)
    (hs : row.status = .completed) :
    w'.db.tasks.get? t = some row ∧ w'.db.outputsOf t = w.db.outputsOf t := by
  refine h.invariant
    (I := fun v => v.db.tasks.get? t = some row ∧ v.db.outputsOf t = w.db.outputsOf t) ?_ ⟨ht, rfl⟩
  rintro v a v' ⟨hv, ho⟩ ⟨_, hstep⟩
  obtain ⟨_, cs, _, hcs, _⟩ := step_changes hstep
  obtain ⟨ht', ho'⟩ := completed_changes hcs hv hs
  exact ⟨ht', ho'.trans ho⟩

/-- The call CompleteTask with these arguments, made in `v`, passes the fence: the
attempt is the current one of the task, and the lease is its lease and not expired. -/
structure Fenced (v : World) (s : Scheduler) (t a lease : UUID) (now : Time) : Prop where
  current : ∃ row att, Change.Current v.db t a row att ∧ att.leaseID = lease ∧
    now ≤ att.lastRenewedAt + (att.leaseTTL + s.leaseClockSkewSeconds) * second

theorem complete_task {a : UUID} {att : AttemptRow} (hc : Change.Current db t a row att)
    (lease : UUID) (skew : Nat) (rows : List OutputRow) (now : Time) :
    ((Change.complete t a lease skew rows).apply now db).tasks.get? t =
      some (row.set ⟨.completed, fun _ => none⟩) :=
  Change.task_touched hc.task (Table.key_of_get? hc.task)

theorem epilogue_rows (hc : c.Epilogue) : c.rows = [] := by
  cases c with
  | setJob | log => rfl
  | _ => exact hc.elim

/-- A CompleteTask call is refused, or it passes the fence, completes the task and inserts
its own rows. -/
theorem completeTask_cases {v v' : World} {s : Scheduler} {a lease : UUID} {us cks : List String}
    {locked : Resource → Bool}
    (h : AnyStep v (.call (.completeTask s t a lease us cks) now locked) v') :
    v'.db = v.db ∧
      (perform (.completeTask s t a lease us cks) now locked v.db).1.result ≠ .ok .done ∨
    Fenced v s t a lease now ∧ v'.db.outputs = v.db.outputs ++ outputRows t us cks ∧
      ∃ row, v'.db.tasks.get? t = some row ∧ row.status = .completed := by
  obtain ⟨_, h⟩ := h
  obtain ⟨_, _, hdb, _⟩ := step_call h
  rw [hdb]
  obtain ⟨hsame, e, he⟩ | ⟨_, _, tail, hcs, htail⟩ :=
    completeTask_perform s t a lease us cks now locked v.db
  · exact .inl ⟨hsame, by rw [he]; nofun⟩
  · have hout := changes_outputs hcs
    rw [List.flatMap_cons, List.flatMap_eq_nil_iff.mpr fun c hc => epilogue_rows (htail c hc),
      List.append_nil] at hout
    cases hcs with
    | cons hstep hrest =>
      obtain ⟨⟨_, row, att, hc, hlease, hnow, _⟩, rfl⟩ := hstep
      exact .inr ⟨⟨row, att, hc, hlease, hnow⟩, hout, _,
        (completed_changes hrest (complete_task hc _ _ _ now) rfl).1, rfl⟩

/-- Every other step leaves the output rows of the task as they are. -/
theorem outputs_step {v v' : World} {a : Label} (h : AnyStep v a v')
    (hne : v'.db.outputsOf t ≠ v.db.outputsOf t) :
    ∃ s att lease us cks now locked, a = .call (.completeTask s t att lease us cks) now locked := by
  obtain ⟨_, h⟩ := h
  obtain ⟨now, cs, _, hcs, hm⟩ := step_changes h
  have hout := changes_outputs hcs
  by_contra hno
  refine hne ?_
  have hnil : (cs.flatMap Change.rows).filter (fun o => decide (o.taskID = t)) = [] := by
    refine List.filter_eq_nil_iff.mpr fun o ho heq => hno ?_
    obtain ⟨c, hc, hoc⟩ := List.mem_flatMap.mp ho
    cases c with
    | complete t' att lease skew rows =>
      obtain ⟨s, us, cks, now', locked, rfl, _, rfl, _⟩ := hm _ hc
      have ht' : t' = t := (outputRows_taskID hoc).symm.trans (of_decide_eq_true heq)
      subst ht'
      exact ⟨s, att, lease, us, cks, now', locked, rfl⟩
    | _ => cases hoc
  rw [DB.outputsOf, hout, List.filter_append, hnil, List.append_nil]
  rfl

theorem outputRows_filter (t : UUID) (us cks : List String) :
    (outputRows t us cks).filter (fun o => decide (o.taskID = t)) = outputRows t us cks :=
  List.filter_eq_self.mpr fun _ ho => decide_eq_true (outputRows_taskID ho)

/-- Only a Completed task has output rows. -/
theorem completed_of_outputs {q : Option Nat} (h : Run AnyStep (World.initial q) as w)
    (hne : w.db.outputsOf t ≠ []) :
    ∃ row, w.db.tasks.get? t = some row ∧ row.status = .completed := by
  refine h.invariant (I := fun v => v.db.outputsOf t ≠ [] →
    ∃ row, v.db.tasks.get? t = some row ∧ row.status = .completed) ?_ (fun h0 => absurd rfl h0) hne
  intro v a v' hv hstep hne'
  by_cases hsame : v'.db.outputsOf t = v.db.outputsOf t
  · obtain ⟨row, hrow, hdone⟩ := hv (hsame ▸ hne')
    exact ⟨row, (completed_run (.single hstep) hrow hdone).1, hdone⟩
  · obtain ⟨s, att, lease, us, cks, now, locked, rfl⟩ := outputs_step hstep hsame
    obtain ⟨hdb, _⟩ | ⟨_, _, hdone⟩ := completeTask_cases hstep
    · exact absurd (congrArg (DB.outputsOf · t) hdb) hsame
    · exact hdone

/-- In every run from the empty store: the output rows of a task are exactly those of
one CompleteTask call of the run, which passed the fence and found no output row of
the task; and once a task is Completed, its row and its output rows never change. -/
theorem commit_fencing {q : Option Nat} {as : List Label} {w : World}
    (h : Run AnyStep (World.initial q) as w) (t : UUID) :
    (w.db.outputsOf t ≠ [] →
      ∃ bs cs v v' s a lease us cks now locked,
        as = bs ++ .call (.completeTask s t a lease us cks) now locked :: cs ∧
        Run AnyStep (World.initial q) bs v ∧
        AnyStep v (.call (.completeTask s t a lease us cks) now locked) v' ∧ Run AnyStep v' cs w ∧
        Fenced v s t a lease now ∧ v.db.outputsOf t = [] ∧
        v'.db.outputsOf t = outputRows t us cks ∧ w.db.outputsOf t = outputRows t us cks) ∧
    ∀ row, w.db.tasks.get? t = some row → row.status = .completed →
      ∀ as' w', Run AnyStep w as' w' →
        w'.db.tasks.get? t = some row ∧ w'.db.outputsOf t = w.db.outputsOf t := by
  refine ⟨fun hne => ?_, fun row ht hs as' w' h' => completed_run h' ht hs⟩
  obtain ⟨bs, a, cs, v, v', has, hbs, hstep, hcs, hv, hv'⟩ :=
    h.exists_switch (P := fun v => v.db.outputsOf t ≠ []) (fun h0 => h0 rfl) hne
  have hv : v.db.outputsOf t = [] := not_not.mp hv
  obtain ⟨s, att, lease, us, cks, now, locked, rfl⟩ := outputs_step hstep (by rw [hv]; exact hv')
  obtain ⟨hsame, _⟩ | ⟨hfence, hout, row, hrow, hdone⟩ := completeTask_cases hstep
  · rw [hsame] at hv'
    exact absurd hv hv'
  have hrows : v'.db.outputsOf t = outputRows t us cks := by
    rw [DB.outputsOf, hout, List.filter_append, outputRows_filter]
    show v.db.outputsOf t ++ _ = _
    rw [hv, List.nil_append]
  exact ⟨bs, cs, v, v', s, att, lease, us, cks, now, locked, has, hbs, hstep, hcs, hfence, hv,
    hrows,
    (completed_run hcs hrow hdone).2.trans hrows⟩

/-- A Map task completed by its first attempt, and a zombie that replays the call. -/
def zombieRun : List Label :=
  smallStart ++
    [calling (.getNextTask soloReplica 1 "worker" 10 20) 2,
      calling (.completeTask soloReplica 2 10 20 ["uri"] ["sum"]) 3,
      calling (.completeTask soloReplica 2 10 20 ["zombie"] ["sum"]) 4]

theorem commit_fencing_zombie :
    ∃ w, Run AnyStep (World.initial none) zombieRun w ∧
      w.db.outputsOf 2 = outputRows 2 ["uri"] ["sum"] ∧
      ∃ bs cs v v' s a lease us cks now locked,
        zombieRun = bs ++ .call (.completeTask s 2 a lease us cks) now locked :: cs ∧
        Run AnyStep (World.initial none) bs v ∧
        AnyStep v (.call (.completeTask s 2 a lease us cks) now locked) v' ∧ Run AnyStep v' cs w ∧
        Fenced v s 2 a lease now ∧ v.db.outputsOf 2 = [] ∧
        v'.db.outputsOf 2 = outputRows 2 us cks ∧ w.db.outputsOf 2 = outputRows 2 us cks := by
  obtain ⟨w, hw, hrows⟩ := (run_after (by decide) :
    ∃ w, Run Step _ zombieRun w ∧ w.db.outputsOf 2 = outputRows 2 ["uri"] ["sum"])
  have hw := hw.mono fun _ _ _ => AnyStep.of_step
  exact ⟨w, hw, hrows, (commit_fencing hw 2).1 (by rw [hrows]; decide)⟩

end KubeMapReduce
