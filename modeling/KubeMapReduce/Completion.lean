import KubeMapReduce.Deeds

/-!
# Transactions that complete tasks

A transaction that completes tasks of a job counts the pending ones afterwards. Its count
does not see what the others have not committed, so two transactions that complete the last
two tasks at the same time could both find one left.

`completes_excl`: two transactions that complete tasks of one job are never open together.

* Two reports both need the JOBS row.
* A report of a Map task and a sweep of the Reduce tasks without inputs exclude each other,
  because the sweep has seen all Map tasks Completed.
* A report of a Reduce task and a sweep exclude each other, because while a Reduce task is
  In-Progress no Idle one is without inputs (`Attended.fed`): who assigns a Reduce task has
  swept before.
* Two sweeps need the same rows.

With it the invariants of the committed state and of the other sessions outlast a commit
(`Sound.attended`, `Sound.stable`).
-/

namespace KubeMapReduce

open Tables Transactions Programs

variable {row : TaskRow} {st : TaskStatus} {x : UUID}

/-! ## 1. The committed state -/

namespace DB

variable (db : DB) (j : UUID) (row : TaskRow)

/-- A Reduce task of the job that no Completed Map task has written for. -/
def Unfed : Prop :=
  row.jobID = j ∧ row.taskType = .reduce ∧ db.mapOutputs j row.replicaIndex = []

/-- GetNextTask completes the task without a worker. -/
def Starving : Prop := db.Unfed j row ∧ row.status = .idle

end DB

/-- The invariant of the committed state. -/
structure Attended (j : UUID) (db : DB) : Prop where
  found : ∃ st, db.jobStatus j = some st
  done : db.AllDone j → db.jobStatus j ≠ some .pending ∧ db.jobStatus j ≠ some .running
  /-- While a Reduce task is In-Progress, those without inputs are over. -/
  fed : ∀ t row t' row', db.tasks.get? t = some row → row.jobID = j → row.taskType = .reduce →
    row.status = .inProgress → db.tasks.get? t' = some row' → db.Unfed j row' →
    row'.status = .completed ∨ row'.status = .failed

theorem mem_mapOutputs_iff {db : DB} {j : UUID} {p : Nat} {o : OutputRow} :
    o ∈ db.mapOutputs j p ↔ o ∈ db.outputs ∧
      (∃ row, db.tasks.get? o.taskID = some row ∧ row.jobID = j ∧ row.taskType = .map ∧
        row.status = .completed) ∧ (o.partitionIndex = none ∨ o.partitionIndex = some p) := by
  unfold DB.mapOutputs
  rw [List.mem_filter]
  cases db.tasks.get? o.taskID with
  | none => simp
  | some row => simp [and_assoc]

/-! ## 2. The invariant of a session -/

/-- Why a task of the job may be set to a status: `row` is the committed row. -/
def Licensed (j : UUID) (m : Evidence) (db : DB) (held : List Resource) (row : TaskRow) :
    TaskStatus → Prop
  | .idle => row.status = .inProgress
  | .inProgress => (row.status = .idle ∨ row.status = .inProgress) ∧
      (row.taskType = .reduce → m.swept = some j)
  | .completed => (row.status = .inProgress ∧ .job j ∈ held) ∨
      (db.Starving j row ∧ m.mapsDone = some j ∧ m.swept = some j)
  | .failed => row.status ≠ .completed

/-- What the transaction has found out is so, and its locks keep it so. -/
structure Known (j : UUID) (m : Evidence) (db : DB) (held : List Resource) : Prop where
  current : ∀ x ∈ m.current, .task x ∈ held ∧
    ∀ row, db.tasks.get? x = some row → row.status = .inProgress
  jobLock : ∀ t j', m.jobLock = some (t, j') → .job j' ∈ held ∧ db.jobOf t = some j'
  picked : ∀ t j' ty, m.picked = some (t, j', ty) →
    ∀ row, db.tasks.get? t = some row → row.jobID = j' ∧ row.taskType = ty
  mapsDone : m.mapsDone = some j → db.MapsDone j

/-- What the transaction has written it was entitled to. -/
structure Entitled (j : UUID) (w : Deeds) (m : Evidence) (db : DB) (held : List Resource) :
    Prop where
  clean : m.clean = true → (∀ x, w.sets x = none) ∧ w.outputs = []
  locks : ∀ x c, w.sets x = some c → .task x ∈ held
  licensed : ∀ x c row, w.sets x = some c → db.tasks.get? x = some row → row.jobID = j →
    Licensed j m db held row c.status
  swept : m.swept = some j → ∀ x row, db.tasks.get? x = some row → db.Starving j row →
    ∃ c, w.sets x = some c ∧ c.status = .completed
  outputs : ∀ o ∈ w.outputs, o.taskID ∈ m.current
  assigned : m.assigned = some j → w.Sets j db .inProgress
  running : w.status = some .running → m.assigned = some j
  pending : w.status ≠ some .pending

/-- The statement that the session is in has requested the rows that it has to change. -/
structure Scanned (j : UUID) (db : DB) (s : WorkSession) : Prop where
  sweep : s.todo ≠ none → ∀ k, s.prog = .query (.completeEmptyReduceTasks j) k →
    ∀ x row, db.tasks.get? x = some row → db.Starving j row → .task x ∈ s.scan
  status : s.todo ≠ none → ∀ st k, s.prog = .query (.updateJobStatus j st) k → .job j ∈ s.scan

structure Sound (j : UUID) (w : Deeds) (m : Evidence) (db : DB) (s : WorkSession) : Prop where
  acts : w.Agree j s.pending
  accounts : Accounts m s.prog
  known : Known j m db s.held
  entitled : Entitled j w m db s.held
  scanned : Scanned j db s
  /-- A session that has completed tasks and has counted finds one left or has written
  Cleaning. -/
  counted : m.uncounted ≠ some j → w.Sets j db .completed → (s.pending db).AllDone j →
    w.status = some .cleaning

theorem Licensed.not_completed {j : UUID} {m : Evidence} {db : DB} {held : List Resource}
    (h : Licensed j m db held row st) : row.status ≠ .completed := by
  intro hrow
  cases st with
  | idle => cases hrow.symm.trans h
  | inProgress => rcases h.1 with h | h <;> cases hrow.symm.trans h
  | completed =>
    rcases h with h | h
    · cases hrow.symm.trans h.1
    · cases hrow.symm.trans h.1.2
  | failed => exact h hrow

section Commit

variable {j : UUID} {w w' : Deeds} {m m' : Evidence} {db : DB} {s t : WorkSession}

/-- Completed tasks of the job stay as they are. -/
theorem Sound.completed (h : Sound j w m db s) (hget : db.tasks.get? x = some row)
    (hj : row.jobID = j) (hdone : row.status = .completed) : w.sets x = none := by
  cases hc : w.sets x with
  | none => rfl
  | some c => exact absurd hdone (h.entitled.licensed x c row hc hget hj).not_completed

theorem Sound.mapsDone (h : Sound j w m db s) (hd : db.MapsDone j) :
    (s.pending db).MapsDone j := by
  intro x row' hget hj hty
  obtain ⟨row, hrow, rfl⟩ := h.acts.found hget
  rw [TaskRow.after_jobID] at hj
  rw [TaskRow.after_taskType] at hty
  have hdone := hd x row hrow hj hty
  rw [h.completed hrow hj hdone]
  exact hdone

/-- Inputs are never lost. -/
theorem Sound.unfed_of (h : Sound j w m db s) (hun : (s.pending db).Unfed j row) :
    db.Unfed j row := by
  refine ⟨hun.1, hun.2.1, List.eq_nil_iff_forall_not_mem.mpr fun o ho => ?_⟩
  obtain ⟨ho, ⟨mrow, hget, hj, hty, hdone⟩, hp⟩ := mem_mapOutputs_iff.mp ho
  have hmem : o ∈ (s.pending db).mapOutputs j row.replicaIndex := by
    refine mem_mapOutputs_iff.mpr ⟨?_, ⟨mrow, ?_, hj, hty, hdone⟩, hp⟩
    · rw [h.acts.outputs]
      exact List.mem_append_left _ ho
    · rw [h.acts.untouched (h.completed hget hj hdone)]
      exact hget
  rw [hun.2.2] at hmem
  exact List.not_mem_nil hmem

/-- After the Map phase no inputs are added. -/
theorem Sound.unfed (h : Sound j w m db s) (hd : db.MapsDone j) (hun : db.Unfed j row) :
    (s.pending db).Unfed j row := by
  refine ⟨hun.1, hun.2.1, List.eq_nil_iff_forall_not_mem.mpr fun o ho => ?_⟩
  obtain ⟨ho, ⟨mrow', hget', hj, hty, _⟩, hp⟩ := mem_mapOutputs_iff.mp ho
  obtain ⟨mrow, hget, rfl⟩ := h.acts.found hget'
  rw [TaskRow.after_jobID] at hj
  rw [TaskRow.after_taskType] at hty
  have hdone := hd _ mrow hget hj hty
  rw [h.acts.outputs] at ho
  rcases List.mem_append.mp ho with ho | ho
  · have hmem := mem_mapOutputs_iff.mpr ⟨ho, ⟨mrow, hget, hj, hty, hdone⟩, hp⟩
    rw [hun.2.2] at hmem
    exact List.not_mem_nil hmem
  · cases hdone.symm.trans ((h.known.current _ (h.entitled.outputs o ho)).2 mrow hget)

/-- A session leaves no new task without inputs behind: what it sets to Idle was
In-Progress. -/
theorem Sound.starving_of (h : Sound j w m db s) (hdb : Attended j db) {row' : TaskRow}
    (hget : (s.pending db).tasks.get? x = some row') (hst : (s.pending db).Starving j row') :
    db.tasks.get? x = some row' ∧ db.Starving j row' := by
  obtain ⟨row, hrow, rfl⟩ := h.acts.found hget
  have hun := h.unfed_of hst.1
  have hidle := hst.2
  revert hun hidle
  cases hc : w.sets x with
  | none => exact fun hun hidle => ⟨hrow, hun, hidle⟩
  | some c =>
    intro hun hidle
    have hj : row.jobID = j := hun.1
    have hlic := h.entitled.licensed x c row hc hrow hj
    rw [show c.status = .idle from hidle] at hlic
    rcases hdb.fed x row x row hrow hj hun.2.1 hlic hrow ⟨hj, hun.2.1, hun.2.2⟩ with hf | hf <;>
      cases hf.symm.trans hlic

/-- Two sessions that complete tasks of one job are not open together. -/
theorem completes_excl (hdb : Attended j db) (hs : Sound j w m db s) (ht : Sound j w' m' db t)
    (hexcl : ∀ r ∈ s.held, r ∉ t.held) (hws : w.Sets j db .completed)
    (hwt : w'.Sets j db .completed) : False := by
  obtain ⟨x, c, row, hc, hst, hget, hj⟩ := hws
  obtain ⟨x', c', row', hc', hst', hget', hj'⟩ := hwt
  have hlic := hs.entitled.licensed x c row hc hget hj
  have hlic' := ht.entitled.licensed x' c' row' hc' hget' hj'
  rw [hst] at hlic
  rw [hst'] at hlic'
  -- a report and a sweep
  have hmixed : ∀ {y z : UUID} {r r' : TaskRow}, db.tasks.get? y = some r → r.jobID = j →
      r.status = .inProgress → db.tasks.get? z = some r' → db.Starving j r' → db.MapsDone j →
      False := by
    intro y z r r' hy hr hprog hz hstarve hmaps
    cases hty : r.taskType with
    | map => cases hprog.symm.trans (hmaps y r hy hr hty)
    | reduce =>
      rcases hdb.fed y r z r' hy hr hty hprog hz hstarve.1 with hf | hf <;>
        cases hf.symm.trans hstarve.2
  rcases hlic with ⟨hprog, hlock⟩ | ⟨hstarve, hmaps, _⟩
  · rcases hlic' with ⟨_, hlock'⟩ | ⟨hstarve', hmaps', _⟩
    · exact hexcl _ hlock hlock'
    · exact hmixed hget hj hprog hget' hstarve' (ht.known.mapsDone hmaps')
  · rcases hlic' with ⟨hprog', _⟩ | ⟨_, _, hswept'⟩
    · exact hmixed hget' hj' hprog' hget hstarve (hs.known.mapsDone hmaps)
    · obtain ⟨_, hboth, _⟩ := ht.entitled.swept hswept' x row hget hstarve
      exact hexcl _ (hs.entitled.locks x c hc) (ht.entitled.locks x _ hboth)

/-- A commit keeps the invariant of the committed state. -/
theorem Sound.attended (h : Sound j w m db s) (hdb : Attended j db) (hm : m.uncounted ≠ some j) :
    Attended j (s.pending db) where
  found := by
    obtain ⟨st, hst⟩ := hdb.found
    exact ⟨_, (h.acts.status db).trans (congrArg _ hst)⟩
  done hd := by
    obtain ⟨st, hst⟩ := hdb.found
    rw [h.acts.status, hst]
    by_cases hw : w.Sets j db .completed
    · rw [h.counted hm hw hd]
      exact ⟨nofun, nofun⟩
    · have hold := hdb.done (h.acts.allDone_of hw hd)
      rw [hst] at hold
      cases hnew : w.status with
      | none => exact hold
      | some st' =>
        refine ⟨?_, ?_⟩ <;> rintro ⟨⟩
        · exact h.entitled.pending hnew
        · exact h.acts.not_allDone (h.entitled.assigned (h.entitled.running hnew)) nofun hd
  fed x row' y rowy' hget hj hty hprog hget' hun := by
    obtain ⟨row, hrow, rfl⟩ := h.acts.found hget
    obtain ⟨rowy, hrowy, rfl⟩ := h.acts.found hget'
    rw [TaskRow.after_jobID] at hj
    rw [TaskRow.after_taskType] at hty
    have hunfed : db.Unfed j rowy := by
      have hold := h.unfed_of hun
      unfold DB.Unfed at hold ⊢
      simpa using hold
    -- the committed row of the task without inputs, and what the session made of it
    have hkept : rowy.status = .completed ∨ rowy.status = .failed →
        (rowy.after (w.sets y)).status = .completed ∨ (rowy.after (w.sets y)).status = .failed := by
      intro hover
      cases hc : w.sets y with
      | none => exact hover
      | some c =>
        have hlic := h.entitled.licensed y c rowy hc hrowy hunfed.1
        show c.status = .completed ∨ c.status = .failed
        have hfailed := hover.resolve_left hlic.not_completed
        cases hcs : c.status with
        | completed => exact .inl rfl
        | failed => exact .inr rfl
        | idle =>
          rw [hcs] at hlic
          cases hfailed.symm.trans hlic
        | inProgress =>
          rw [hcs] at hlic
          rcases hlic.1 with hf | hf <;> cases hfailed.symm.trans hf
    have hidle : ∀ z r, db.tasks.get? z = some r → r.jobID = j → r.taskType = .reduce →
        r.status = .inProgress →
        (rowy.after (w.sets y)).status = .completed ∨ (rowy.after (w.sets y)).status = .failed :=
      fun z r hz hr hrt hrp => hkept (hdb.fed z r y rowy hz hr hrt hrp hrowy hunfed)
    cases hc : w.sets x with
    | none =>
      rw [hc] at hprog
      exact hidle x row hrow hj hty hprog
    | some c =>
      have hlic := h.entitled.licensed x c row hc hrow hj
      rw [hc] at hprog
      rw [show c.status = .inProgress from hprog] at hlic
      cases hst : rowy.status with
      | idle =>
        obtain ⟨c', hc', hst'⟩ := h.entitled.swept (hlic.2 hty) y rowy hrowy ⟨hunfed, hst⟩
        rw [hc']
        exact .inl hst'
      | inProgress => exact hidle y rowy hrowy hunfed.1 hunfed.2.1 hst
      | completed => exact hkept (.inl hst)
      | failed => exact hkept (.inr hst)

/-- What another session commits does not touch the rows that a session has locked. -/
theorem Sound.untouched (hs : Sound j w m db s) (hexcl : ∀ r ∈ s.held, r ∉ t.held)
    (hx : .task x ∈ t.held) : (s.pending db).tasks.get? x = db.tasks.get? x := by
  refine hs.acts.untouched ?_
  cases hc : w.sets x with
  | none => rfl
  | some c => exact absurd hx (hexcl _ (hs.entitled.locks x c hc))

theorem Deeds.Sets.pending (hs : Sound j w m db s) (h : w'.Sets j db st) :
    w'.Sets j (s.pending db) st := by
  obtain ⟨x, c, row, hc, hst, hget, hj⟩ := h
  refine ⟨x, c, row.after (w.sets x), hc, hst, ?_, (row.after_jobID _).trans hj⟩
  rw [hs.acts.tasks, hget]
  rfl

theorem Deeds.Sets.of_pending (hs : Sound j w m db s) (h : w'.Sets j (s.pending db) st) :
    w'.Sets j db st := by
  obtain ⟨x, c, row', hc, hst, hget, hj⟩ := h
  obtain ⟨row, hrow, rfl⟩ := hs.acts.found hget
  exact ⟨x, c, row, hc, hst, hrow, (row.after_jobID _).symm.trans hj⟩

theorem Known.stable (hs : Sound j w m db s) (h : Known j m' db t.held)
    (hexcl : ∀ r ∈ s.held, r ∉ t.held) : Known j m' (s.pending db) t.held where
  current x hx := by
    obtain ⟨hheld, hrow⟩ := h.current x hx
    refine ⟨hheld, ?_⟩
    rw [hs.untouched hexcl hheld]
    exact hrow
  jobLock x j' hx := by
    obtain ⟨hheld, hjob⟩ := h.jobLock x j' hx
    exact ⟨hheld, (hs.acts.jobOf x).trans hjob⟩
  picked x j' ty hx row' hget := by
    obtain ⟨row, hrow, rfl⟩ := hs.acts.found hget
    rw [TaskRow.after_jobID, TaskRow.after_taskType]
    exact h.picked x j' ty hx row hrow
  mapsDone hm := hs.mapsDone (h.mapsDone hm)

theorem Entitled.stable (hdb : Attended j db) (hs : Sound j w m db s) (ht : Sound j w' m' db t)
    (hexcl : ∀ r ∈ s.held, r ∉ t.held) : Entitled j w' m' (s.pending db) t.held where
  clean := ht.entitled.clean
  locks := ht.entitled.locks
  licensed x c row hc hget hj := by
    rw [hs.untouched hexcl (ht.entitled.locks x c hc)] at hget
    have hlic := ht.entitled.licensed x c row hc hget hj
    revert hlic
    cases c.status with
    | idle => exact id
    | inProgress => exact id
    | completed =>
      rintro (hrep | ⟨hstarve, hmaps, hswept⟩)
      · exact .inl hrep
      · exact .inr ⟨⟨hs.unfed (ht.known.mapsDone hmaps) hstarve.1, hstarve.2⟩, hmaps, hswept⟩
    | failed => exact id
  swept hm x row hget hst := by
    obtain ⟨hget, hst⟩ := hs.starving_of hdb hget hst
    exact ht.entitled.swept hm x row hget hst
  outputs := ht.entitled.outputs
  assigned hm := (ht.entitled.assigned hm).pending hs
  running := ht.entitled.running
  pending := ht.entitled.pending

/-- A commit of one session keeps the invariants of the others. -/
theorem Sound.stable (hdb : Attended j db) (hs : Sound j w m db s) (ht : Sound j w' m' db t)
    (hexcl : ∀ r ∈ s.held, r ∉ t.held) : Sound j w' m' (s.pending db) t where
  acts := ht.acts
  accounts := ht.accounts
  known := ht.known.stable hs hexcl
  entitled := .stable hdb hs ht hexcl
  scanned := by
    refine ⟨fun htodo k hp x row hget hst => ?_, ht.scanned.status⟩
    obtain ⟨hget, hst⟩ := hs.starving_of hdb hget hst
    exact ht.scanned.sweep htodo k hp x row hget hst
  counted hm hw hd := by
    have hw := hw.of_pending hs
    have hnone : ¬ w.Sets j db .completed := fun hws => completes_excl hdb hs ht hexcl hws hw
    refine ht.counted hm hw (ht.acts.allDone_iff.mpr fun x row hget hj => ?_)
    have hget' : (s.pending db).tasks.get? x = some (row.after (w.sets x)) := by
      rw [hs.acts.tasks, hget]
      rfl
    have hdone := ht.acts.allDone_iff.mp hd x _ hget' ((row.after_jobID _).trans hj)
    cases hc' : w'.sets x with
    | some c' =>
      rw [hc'] at hdone
      exact hdone
    | none =>
      rw [hc'] at hdone
      cases hc : w.sets x with
      | none =>
        rw [hc] at hdone
        exact hdone
      | some c =>
        rw [hc] at hdone
        exact absurd ⟨x, c, row, hc, hdone, hget, hj⟩ hnone

end Commit

end KubeMapReduce
