import KubeMapReduce.Attempts

/-!
# The heartbeat map

A manager keeps the time of the last heartbeat of an attempt in its memory too, and the
reaper prefers this copy to the row of the store. `Managers` is the cluster together with
the heartbeat maps of the manager processes, on one clock: GetNextTask stores the new
attempt in its transaction, RenewLease stores the attempt after its commit, and a pass of
the reaper reads the map of its own replica.

* `renewed_call`: `last_renewed_at` is written by a renewal and by an assignment only.
* `reclaimed_expired`: in a run in which every renewal is served by the replica of its job
  the reaper reclaims an attempt only after its committed lease has expired, if no renewal
  of the attempt still has its store to do.
* `renewed_reclaimed`: without this the reaper reclaims an attempt whose renewal has just
  been committed.
-/

namespace KubeMapReduce

open Tables Runs

variable {locked : Resource → Bool} {a a' att att' : AttemptRow} {c : Call} {cs : List Change}
  {i r : Nat} {action : PostAction} {s : Scheduler} {time : Time} {x : UUID}
  {heartbeats : UUID → Option Time} {w w' : World} {now : Time} {db db' : DB}

/-! ## 1. The manager processes -/

structure Managers where
  world : World
  /-- The heartbeat map in the process of a replica. -/
  heartbeats : Nat → UUID → Option Time
  /-- The replica whose process runs a thread, `none` when the process has ended. -/
  owner : Nat → Option Nat

variable {m m' : Managers}

namespace Managers

def initial (maxConcurrentPods : Option Nat) : Managers :=
  ⟨World.initial maxConcurrentPods, fun _ _ => none, fun _ => none⟩

/-- The owners after replica `r` has begun new threads. -/
def spawn (m : Managers) (r : Nat) : Nat → Option Nat :=
  fun i => if m.world.threads.length ≤ i then some r else m.owner i

/-- A renewal of the attempt has committed on replica `r` and its store is still to come. -/
def Unstored (m : Managers) (r : Nat) (x : UUID) : Prop :=
  ∃ i < m.world.threads.length, m.owner i = some r ∧
    .storeHeartbeat x ∈ m.world.threads.getD i []

instance (m : Managers) (r : Nat) (x : UUID) : Decidable (m.Unstored r x) := by
  unfold Unstored
  infer_instance

/-- A thread of replica `r` still has the action to do. -/
def Owes (m : Managers) (r : Nat) (act : PostAction) : Prop :=
  ∃ i < m.world.threads.length, m.owner i = some r ∧ act ∈ m.world.threads.getD i []

end Managers

inductive Move where
  | serve (r : Nat) (c : Call) (now : Time) (locked : Resource → Bool)
  | reap (s : Scheduler) (now : Time) (locked : Resource → Bool)
  | post (thread : Nat) (action : PostAction) (now : Time)
  | restart (r : Nat)

/-- The process of the replica can make the call. Its reaper has a move of its own. -/
def Call.runsOn (r : Nat) : Call → Bool
  | .createJob s _ | .scheduleJob s _ | .getNextTask s _ _ _ _ | .renewLease s _ _ _ _
  | .completeTask s _ _ _ _ _ | .failTask s _ _ _ _ | .cancelJob s _
  | .recoverFailAttempts s | .recoverResetTasks s | .recoverWorkerPools s =>
    decide (s.replicaIndex = r)
  | .failStaleTasks _ _ _ => false
  | .finalizeJob _ _ | .failRunningAttemptsByJob _ => true

/-- The heartbeat map after a call: tryAssignTask stores the new attempt before the commit. -/
def heartbeatsCall (c : Call) (result : Except Err Reply) (now : Time)
    (heartbeats : UUID → Option Time) : UUID → Option Time :=
  match c with
  | .getNextTask _ _ _ a _ =>
    if result.isOk then Function.update heartbeats a (some now) else heartbeats
  | _ => heartbeats

theorem heartbeatsCall_entry (c : Call) (result : Except Err Reply) (now : Time)
    (heartbeats : UUID → Option Time) (x : UUID) :
    heartbeatsCall c result now heartbeats x = heartbeats x ∨
      (∃ s j worker lease, c = .getNextTask s j worker x lease) ∧ result.isOk = true ∧
        heartbeatsCall c result now heartbeats x = some now := by
  cases c with
  | getNextTask s j worker a lease =>
    simp only [heartbeatsCall]
    split
    · next hok =>
      rcases eq_or_ne x a with rfl | hne
      · exact .inr ⟨⟨s, j, worker, lease, rfl⟩, hok, Function.update_self ..⟩
      · exact .inl (Function.update_of_ne hne ..)
    · exact .inl rfl
  | _ => exact .inl rfl

/-- The heartbeat map after an action. -/
def heartbeatsPost (now : Time) (heartbeats : UUID → Option Time) :
    PostAction → UUID → Option Time
  | .storeHeartbeat a => Function.update heartbeats a (some now)
  | .deleteHeartbeat a => Function.update heartbeats a none
  | _ => heartbeats

theorem heartbeatsPost_entry (now : Time) (heartbeats : UUID → Option Time) (action : PostAction)
    (x : UUID) :
    action = .storeHeartbeat x ∧ heartbeatsPost now heartbeats action x = some now ∨
    action = .deleteHeartbeat x ∧ heartbeatsPost now heartbeats action x = none ∨
    action ≠ .storeHeartbeat x ∧ action ≠ .deleteHeartbeat x ∧
      heartbeatsPost now heartbeats action x = heartbeats x := by
  cases action with
  | storeHeartbeat a =>
    rcases eq_or_ne a x with rfl | hne
    · exact .inl ⟨rfl, Function.update_self ..⟩
    · exact .inr (.inr ⟨by simpa, by simp, Function.update_of_ne hne.symm ..⟩)
  | deleteHeartbeat a =>
    rcases eq_or_ne a x with rfl | hne
    · exact .inr (.inl ⟨rfl, Function.update_self ..⟩)
    · exact .inr (.inr ⟨by simp, by simpa, Function.update_of_ne hne.symm ..⟩)
  | _ => exact .inr (.inr ⟨by simp, by simp, rfl⟩)

def move (m : Managers) : Move → Option Managers
  | .serve r c now locked =>
    if c.runsOn r then
      (next m.world (.call c now locked)).map fun w =>
        ⟨w, Function.update m.heartbeats r
          (heartbeatsCall c (perform c now locked m.world.db).1.result now (m.heartbeats r)),
          m.spawn r⟩
    else none
  | .reap s now locked =>
    (next m.world (.call (.failStaleTasks s (m.heartbeats s.replicaIndex) now) now locked)).map
      fun w => ⟨w, m.heartbeats, m.spawn s.replicaIndex⟩
  | .post i action now =>
    (m.owner i).bind fun r => (next m.world (.post i action now)).map fun w =>
      ⟨w, Function.update m.heartbeats r (heartbeatsPost now (m.heartbeats r) action), m.owner⟩
  | .restart r =>
    (next m.world (.restart r)).map fun w =>
      ⟨w, Function.update m.heartbeats r fun _ => none,
        fun i => if m.owner i = some r then none else m.owner i⟩

abbrev Moves : Managers → Move → Managers → Prop := Steps move

theorem moves_serve (h : Moves m (.serve r c now locked) m') :
    c.runsOn r = true ∧ Step m.world (.call c now locked) m'.world ∧
      m'.heartbeats = Function.update m.heartbeats r
        (heartbeatsCall c (perform c now locked m.world.db).1.result now (m.heartbeats r)) ∧
      m'.owner = m.spawn r := by
  simp only [Steps, move] at h
  split at h
  · next hr =>
    obtain ⟨w, hw, rfl⟩ := Option.map_eq_some_iff.mp h
    exact ⟨hr, hw, rfl, rfl⟩
  · cases h

theorem moves_reap (h : Moves m (.reap s now locked) m') :
    Step m.world (.call (.failStaleTasks s (m.heartbeats s.replicaIndex) now) now locked) m'.world ∧
      m'.heartbeats = m.heartbeats ∧ m'.owner = m.spawn s.replicaIndex := by
  obtain ⟨w, hw, rfl⟩ := Option.map_eq_some_iff.mp h
  exact ⟨hw, rfl, rfl⟩

theorem moves_post (h : Moves m (.post i action now) m') :
    ∃ r, m.owner i = some r ∧ Step m.world (.post i action now) m'.world ∧
      m'.heartbeats =
        Function.update m.heartbeats r (heartbeatsPost now (m.heartbeats r) action) ∧
      m'.owner = m.owner := by
  obtain ⟨r, hr, h⟩ := Option.bind_eq_some_iff.mp h
  obtain ⟨w, hw, rfl⟩ := Option.map_eq_some_iff.mp h
  exact ⟨r, hr, hw, rfl, rfl⟩

/-- An entry of a heartbeat map after a call. -/
theorem entry_serve (h : Moves m (.serve r c now locked) m') (r' : Nat) (x : UUID) :
    m'.heartbeats r' x = m.heartbeats r' x ∨
      r' = r ∧ (∃ s j worker lease, c = .getNextTask s j worker x lease) ∧
        (perform c now locked m.world.db).1.result.isOk = true ∧ m'.heartbeats r' x = some now := by
  obtain ⟨_, _, hbeats, _⟩ := moves_serve h
  rw [hbeats]
  rcases eq_or_ne r' r with rfl | hne
  · rw [Function.update_self]
    exact (heartbeatsCall_entry ..).imp_right fun hnew => ⟨rfl, hnew⟩
  · exact .inl (by rw [Function.update_of_ne hne])

/-- An entry of a heartbeat map after an action. -/
theorem entry_post (h : Moves m (.post i action now) m') (r' : Nat) (x : UUID) :
    m.owner i = some r' ∧ action = .storeHeartbeat x ∧ m'.heartbeats r' x = some now ∨
    m'.heartbeats r' x = none ∨
    ¬ (m.owner i = some r' ∧ (action = .storeHeartbeat x ∨ action = .deleteHeartbeat x)) ∧
      m'.heartbeats r' x = m.heartbeats r' x := by
  obtain ⟨r, hr, _, hbeats, _⟩ := moves_post h
  rw [hbeats]
  rcases eq_or_ne r' r with rfl | hne
  · rw [Function.update_self]
    rcases heartbeatsPost_entry now (m.heartbeats r') action x with
      ⟨hact, he⟩ | ⟨_, he⟩ | ⟨hs, hd, he⟩
    · exact .inl ⟨hr, hact, he⟩
    · exact .inr (.inl he)
    · exact .inr (.inr ⟨fun hact => hact.2.elim hs hd, he⟩)
  · refine .inr (.inr ⟨fun hact => hne (Option.some.inj (hact.1.symm.trans hr)), ?_⟩)
    rw [Function.update_of_ne hne]

theorem moves_restart (h : Moves m (.restart r) m') :
    Step m.world (.restart r) m'.world ∧
      m'.heartbeats = Function.update m.heartbeats r (fun _ => none) ∧
      m'.owner = fun i => if m.owner i = some r then none else m.owner i := by
  cases h
  exact ⟨rfl, rfl, rfl⟩

/-! ## 2. `last_renewed_at` -/

/-- A row of TASK_ATTEMPTS through the changes of a transaction. -/
theorem renewed_changes (hcs : Changes now db cs db') (h : db.attempts.get? x = some a) :
    ∃ a', db'.attempts.get? x = some a' ∧ a'.taskID = a.taskID ∧
      (a'.status = .running → a.status = .running) ∧
      (a'.lastRenewedAt = a.lastRenewedAt ∨ .renew x ∈ cs ∧ a'.lastRenewedAt = now) := by
  refine hcs.keeps (I := fun d => ∃ a', d.attempts.get? x = some a' ∧
    a'.taskID = a.taskID ∧ (a'.status = .running → a.status = .running) ∧
    (a'.lastRenewedAt = a.lastRenewedAt ∨ .renew x ∈ cs ∧ a'.lastRenewedAt = now)) ?_
    ⟨a, h, rfl, id, .inl rfl⟩
  rintro d c hc _ ⟨b, hb, ht, hrun, hrenew⟩
  obtain ⟨b', hb', hrow⟩ := c.attempt_apply now hb
  refine ⟨b', hb', hrow.task.trans ht, fun hr => hrun (hrow.running.mp hr).1, ?_⟩
  rcases hrow.renewed with he | ⟨rfl, he⟩
  · rwa [he]
  · exact .inr ⟨Table.key_of_get? hb ▸ hc, he⟩

/-- A new row of TASK_ATTEMPTS comes from an assignment among the changes. -/
theorem assigned_changes (hcs : Changes now db cs db') (hx : db.attempts.get? x = none)
    (h : db'.attempts.get? x = some a') :
    ∃ t a r, .assign t a r ∈ cs ∧ a.attemptID = x ∧ db'.replicaOf a'.taskID = some r ∧
      (a'.lastRenewedAt = a.lastRenewedAt ∨ .renew x ∈ cs) := by
  have hinv := hcs.keeps (I := fun d => d.attempts.get? x = none ∨
    ∃ b t a r, d.attempts.get? x = some b ∧ .assign t a r ∈ cs ∧ a.attemptID = x ∧
      d.replicaOf b.taskID = some r ∧ (b.lastRenewedAt = a.lastRenewedAt ∨ .renew x ∈ cs)) ?_
    (.inl hx)
  · rcases hinv with hnone | ⟨b, t, a, r, hb, hrest⟩
    · cases hnone.symm.trans h
    · cases hb.symm.trans h
      exact ⟨t, a, r, hrest⟩
  · rintro d c hc hg (hnone | ⟨b, t, a, r, hb, hc', ha, hr, hrenew⟩)
    · cases hb : (c.apply now d).attempts.get? x with
      | none => exact .inl rfl
      | some b =>
        obtain ⟨t, r, rfl⟩ := Change.attempt_cases hb hnone
        obtain ⟨rfl, _, _, row, ht, _, hr, _⟩ := hg
        refine .inr ⟨b, _, b, r, rfl, hc, Table.key_of_get? hb, ?_, .inl rfl⟩
        exact replicaOf_apply _ ((replicaOf_of_task ht).trans hr)
    · obtain ⟨b', hb', hrow⟩ := c.attempt_apply now hb
      refine .inr ⟨b', t, a, r, hb', hc', ha, by rw [hrow.task]; exact replicaOf_apply c hr, ?_⟩
      rcases hrow.renewed with he | ⟨rfl, _⟩
      · rwa [he]
      · exact .inr (Table.key_of_get? hb ▸ hc)

/-- What a call does to a row of TASK_ATTEMPTS: `last_renewed_at` stays, or it is the time of
the call, which renews the lease or assigns the attempt. -/
theorem renewed_call (h : Step w (.call c now locked) w') (hx : w'.db.attempts.get? x = some att') :
    (∃ att, w.db.attempts.get? x = some att ∧ att'.taskID = att.taskID ∧
      (att'.status = .running → att.status = .running) ∧
      (att'.lastRenewedAt = att.lastRenewedAt ∨ att'.lastRenewedAt = now ∧
        ∃ s t lease sampled row, c = .renewLease s t x lease sampled ∧
          Change.Current w.db t x row att ∧ w'.threads = w.threads ++ [[.storeHeartbeat x]])) ∨
    w.db.attempts.get? x = none ∧ att'.lastRenewedAt = now ∧
      ∃ s j worker lease, c = .getNextTask s j worker x lease ∧
        (perform c now locked w.db).1.result.isOk = true ∧
        w'.db.replicaOf att'.taskID = some s.replicaIndex := by
  obtain ⟨_, he, hdb, _, _, hthreads⟩ := step_call h
  obtain ⟨cs, hcs, hm⟩ : ∃ cs, Changes now w.db cs (perform c now locked w.db).2 ∧
      ∀ ch ∈ cs, Allows (.call c now locked) ch := perform_changes he
  cases hold : w.db.attempts.get? x with
  | some att =>
    refine .inl ⟨att, rfl, ?_⟩
    obtain ⟨b, hb, ht, hrun, hrenew⟩ := renewed_changes (hdb ▸ hcs) hold
    cases hb.symm.trans hx
    refine ⟨ht, hrun, ?_⟩
    rcases hrenew with hsame | ⟨hc, hnow⟩
    · exact .inl hsame
    · obtain ⟨s, t, lease, sampled, _, _, heq⟩ := (hm _ hc).makes
      cases heq
      obtain ⟨out, hout, hr | ⟨_, hpost, row, att₀, hcur, _⟩⟩ := performed
        (c := .renewLease s t x lease sampled) rfl renewLease_changes
      · rw [hdb, hr.1, hold] at hx
        cases hx
        exact .inl rfl
      · cases hold.symm.trans hcur.attempt
        refine .inr ⟨hnow, s, t, lease, sampled, row, rfl, hcur, ?_⟩
        rw [hthreads, hout, Outcome.map, hpost]
  | none =>
    refine .inr ⟨rfl, ?_⟩
    obtain ⟨t, a, r, hc, -⟩ := assigned_changes (hdb ▸ hcs) hold hx
    obtain ⟨s, j, worker, y, lease, _, _, heq, -⟩ := (hm _ hc).makes
    cases heq
    obtain ⟨out, hout, hr | hr | ⟨ty, row, hr⟩⟩ := performed
      (c := .getNextTask s j worker y lease) rfl getNextTask_changes
    · rw [hdb, hr.refused.1, hold] at hx
      cases hx
    · obtain ⟨tail, hcs, htail⟩ := hr.changes
      obtain ⟨_, a, r, hc, -⟩ := assigned_changes (hdb ▸ hcs) hold hx
      rcases htail with ⟨rfl, _⟩ | ⟨_, _, rfl, _⟩ <;> simp at hc
    · -- the new row is the one of `attemptRow`
      obtain ⟨_, a, r, hc, ha, hrep, hl⟩ := assigned_changes (hdb ▸ hr.changes) hold hx
      obtain ⟨_, rfl, rfl⟩ := assign_handout hc
      cases ha
      rcases hl with hl | hl
      · obtain ⟨cfg, hok⟩ := hr.result
        refine ⟨hl, s, j, worker, lease, rfl, ?_, hrep⟩
        rw [hout, Outcome.map, hok]
        rfl
      · rcases mem_handout hl with hc | hc | hc | ⟨_, hc⟩ <;> cases hc

/-- The steps that are not calls leave `last_renewed_at` as it is. -/
theorem renewed_other {a : Label} (h : Step w a w') (ha : ∀ c now locked, a ≠ .call c now locked)
    (hx : w'.db.attempts.get? x = some att') :
    ∃ att, w.db.attempts.get? x = some att ∧ att'.taskID = att.taskID ∧
      (att'.status = .running → att.status = .running) ∧
      att'.lastRenewedAt = att.lastRenewedAt := by
  obtain ⟨now, cs, _, hcs, hm⟩ := step_changes h
  cases hold : w.db.attempts.get? x with
  | some att =>
    obtain ⟨b, hb, ht, hrun, hsame | ⟨hc, _⟩⟩ := renewed_changes hcs hold
    · cases hb.symm.trans hx
      exact ⟨att, rfl, ht, hrun, hsame⟩
    · obtain ⟨_, _, _, _, _, _, rfl⟩ := hm _ hc
      exact absurd rfl (ha _ _ _)
  | none =>
    obtain ⟨_, _, _, hc, -⟩ := assigned_changes hcs hold hx
    obtain ⟨_, _, _, _, _, _, _, rfl, -⟩ := hm _ hc
    exact absurd rfl (ha _ _ _)

/-! ## 3. Freshness -/

/-- A RenewLease call is served by the replica of the task's job. -/
def servedAtHome (m : Managers) : Move → Prop
  | .serve _ (.renewLease s t _ _ _) _ _ => ∀ r ∈ m.world.db.replicaOf t, r = s.replicaIndex
  | _ => True

instance (m : Managers) (a : Move) : Decidable (servedAtHome m a) := by
  unfold servedAtHome
  split <;> infer_instance

/-- The entry of a Running attempt in the map of its own replica is not older than its row,
unless a store is still to come. -/
structure Beating (m : Managers) : Prop where
  coherent : Coherent m.world.phase m.world.db
  past : ∀ x att, m.world.db.attempts.get? x = some att → att.lastRenewedAt ≤ m.world.now
  fresh : ∀ x att r time, m.world.db.attempts.get? x = some att → att.status = .running →
    m.world.db.replicaOf att.taskID = some r → m.heartbeats r x = some time →
      att.lastRenewedAt ≤ time ∨ m.Unstored r x

theorem beating_initial (q : Option Nat) : Beating (Managers.initial q) :=
  ⟨coherent_initial q, nofun, nofun⟩

namespace Managers

variable {m m' : Managers} {r : Nat} {act : PostAction}

theorem owes_iff : m.Owes r act ↔
    ∃ k thread, m.world.threads[k]? = some thread ∧ m.owner k = some r ∧ act ∈ thread := by
  constructor
  · rintro ⟨k, hk, hr, hmem⟩
    rw [List.getD_eq_getElem?_getD, List.getElem?_eq_getElem hk] at hmem
    exact ⟨k, _, List.getElem?_eq_getElem hk, hr, hmem⟩
  · rintro ⟨k, thread, hk, hr, hmem⟩
    refine ⟨k, (List.getElem?_eq_some_iff.mp hk).1, hr, ?_⟩
    rwa [List.getD_eq_getElem?_getD, hk]

/-- New threads leave the open ones as they are. -/
theorem owes_spawn {post : List (List PostAction)} {r' : Nat}
    (hthreads : m'.world.threads = m.world.threads ++ post) (howner : m'.owner = m.spawn r') :
    m'.Owes r act ↔ m.Owes r act ∨ r = r' ∧ ∃ thread ∈ post, act ∈ thread := by
  rw [owes_iff, owes_iff, hthreads, howner]
  constructor
  · rintro ⟨k, thread, hk, hr, hmem⟩
    unfold spawn at hr
    split at hr
    · next hle =>
      rw [List.getElem?_append_right hle] at hk
      exact .inr ⟨(Option.some.inj hr).symm, thread, List.mem_of_getElem? hk, hmem⟩
    · next hlt =>
      rw [List.getElem?_append_left (Nat.not_le.mp hlt)] at hk
      exact .inl ⟨k, thread, hk, hr, hmem⟩
  · rintro (⟨k, thread, hk, hr, hmem⟩ | ⟨rfl, thread, ht, hmem⟩)
    · have hlt := (List.getElem?_eq_some_iff.mp hk).1
      exact ⟨k, thread, by rwa [List.getElem?_append_left hlt],
        by rwa [spawn, if_neg (Nat.not_le.mpr hlt)], hmem⟩
    · obtain ⟨k, hk⟩ := List.mem_iff_getElem?.mp ht
      refine ⟨m.world.threads.length + k, thread, ?_, if_pos (Nat.le_add_right _ _), hmem⟩
      rwa [List.getElem?_append_right (Nat.le_add_right _ _), Nat.add_sub_cancel_left]

/-- The thread of an action goes on with the rest. -/
theorem owes_post {rest : List PostAction} (hi : m.world.threads[i]? = some (action :: rest))
    (hthreads : m'.world.threads = m.world.threads.set i rest) (howner : m'.owner = m.owner) :
    m.Owes r act ↔ m.owner i = some r ∧ action = act ∨ m'.Owes r act := by
  have hself : (m.world.threads.set i rest)[i]? = some rest :=
    List.getElem?_set_self (List.getElem?_eq_some_iff.mp hi).1
  rw [owes_iff, owes_iff, hthreads, howner]
  constructor
  · rintro ⟨k, thread, hk, hr, hmem⟩
    by_cases he : i = k
    · subst he
      cases hi.symm.trans hk
      rcases List.mem_cons.mp hmem with rfl | hmem
      · exact .inl ⟨hr, rfl⟩
      · exact .inr ⟨i, rest, hself, hr, hmem⟩
    · exact .inr ⟨k, thread, by rwa [List.getElem?_set_ne he], hr, hmem⟩
  · rintro (⟨hr, rfl⟩ | ⟨k, thread, hk, hr, hmem⟩)
    · exact ⟨i, _, hi, hr, List.mem_cons_self⟩
    · by_cases he : i = k
      · subst he
        cases hself.symm.trans hk
        exact ⟨i, _, hi, hr, List.mem_cons_of_mem _ hmem⟩
      · exact ⟨k, thread, by rwa [List.getElem?_set_ne he] at hk, hr, hmem⟩

theorem owes_restart {r' : Nat} (h : Moves m (.restart r') m') :
    m'.Owes r act ↔ r ≠ r' ∧ m.Owes r act := by
  obtain ⟨hs, _, howner⟩ := moves_restart h
  rw [owes_iff, owes_iff, howner, step_restart hs]
  dsimp only
  constructor
  · rintro ⟨k, thread, hk, hr, hmem⟩
    split at hr
    · cases hr
    · next hne => exact ⟨fun he => hne (he ▸ hr), k, thread, hk, hr, hmem⟩
  · rintro ⟨hne, k, thread, hk, hr, hmem⟩
    exact ⟨k, thread, hk, by rw [hr, if_neg fun he => hne (Option.some.inj he)], hmem⟩

end Managers

/-- A row that a step leaves as it is, with the old entry in the map or a new one. -/
theorem Beating.keep (hm : Beating m) {l : Label} (hs : Step m.world l m'.world)
    (hx : m.world.db.attempts.get? x = some att) (htask : att'.taskID = att.taskID)
    (hrun : att.status = .running) (hsame : att'.lastRenewedAt = att.lastRenewedAt)
    (hr : m'.world.db.replicaOf att'.taskID = some r)
    (hbeat : m.heartbeats r x = some time ∨ m.world.now ≤ time) :
    m.world.db.replicaOf att.taskID = some r ∧
      (att'.lastRenewedAt ≤ time ∨ m.Unstored r x) := by
  obtain ⟨row, hcur⟩ := hm.coherent.linked.current x att hx hrun
  obtain ⟨r₀, hr₀⟩ := hm.coherent.linked.replica hcur.task
  have hkeep : m'.world.db.replicaOf att.taskID = some r₀ := by
    obtain ⟨_, cs, _, hcs, _⟩ := step_changes hs
    refine hcs.keeps (I := fun d => d.replicaOf att.taskID = some r₀) ?_ hr₀
    rintro d ch _ _ hd
    exact replicaOf_apply ch hd
  obtain rfl : r₀ = r := by
    rw [htask, hkeep] at hr
    exact Option.some.inj hr
  refine ⟨hr₀, ?_⟩
  rw [hsame]
  rcases hbeat with hbeat | hle
  · exact hm.fresh x att r₀ time hx hrun hr₀ hbeat
  · exact .inl (Nat.le_trans (hm.past x att hx) hle)

theorem beating_serve (hm : Beating m) (h : Moves m (.serve r c now locked) m')
    (hok : servedAtHome m (.serve r c now locked)) : Beating m' := by
  obtain ⟨hruns, hs, hbeats, howner⟩ := moves_serve h
  obtain ⟨hn, _, _, hnow, _, hthreads⟩ := step_call hs
  refine ⟨coherent_step hm.coherent hs, fun x att' hx => ?_,
    fun x att' r' time hx hrun hr' ht => ?_⟩
  · rw [hnow]
    rcases renewed_call hs hx with ⟨att, hatt, _, _, hsame | ⟨hsame, _⟩⟩ | ⟨_, hsame, _⟩
    · rw [hsame]
      exact Nat.le_trans (hm.past x att hatt) hn
    · exact Nat.le_of_eq hsame
    · exact Nat.le_of_eq hsame
  · have hbeat : m.heartbeats r' x = some time ∨ time = now := by
      rcases entry_serve h r' x with he | ⟨_, _, _, he⟩
      · exact .inl (he.symm.trans ht)
      · exact .inr (Option.some.inj (ht.symm.trans he))
    rcases renewed_call hs hx with ⟨att, hatt, htask, hold, hcases⟩ |
      ⟨_, hsame, s, j, worker, lease, rfl, hres, hr⟩
    · rcases hcases with hsame | ⟨_, s, t, lease, sampled, row', rfl, hcur', hpost⟩
      · exact (hm.keep hs hatt htask (hold hrun) hsame hr'
          (hbeat.imp_right fun he => he ▸ hn)).2.imp_right fun hun =>
            (Managers.owes_spawn hthreads howner).mpr (.inl hun)
      · right
        obtain ⟨b, hb, hbt⟩ := hm.coherent.linked.owner t row' x hcur'.task hcur'.current
        cases hb.symm.trans hatt
        have hr₀ := (hm.keep hs hatt rfl (hold hrun) rfl (htask ▸ hr')
          (hbeat.imp_right fun he => he ▸ hn)).1
        obtain rfl : r' = r := by
          rw [hok r' (hbt ▸ hr₀)]
          exact of_decide_eq_true hruns
        exact (Managers.owes_spawn hpost howner).mpr
          (.inr ⟨rfl, _, List.mem_cons_self, List.mem_cons_self⟩)
    · left
      rw [hsame]
      obtain rfl : s.replicaIndex = r := of_decide_eq_true hruns
      cases hr.symm.trans hr'
      rw [hbeats, Function.update_self, heartbeatsCall, if_pos hres, Function.update_self] at ht
      exact Nat.le_of_eq (Option.some.inj ht)

theorem beating_reap (hm : Beating m) (h : Moves m (.reap s now locked) m') : Beating m' := by
  obtain ⟨hs, hbeats, howner⟩ := moves_reap h
  obtain ⟨hn, _, _, hnow, _, hthreads⟩ := step_call hs
  have hkeep : ∀ x att', m'.world.db.attempts.get? x = some att' →
      ∃ att, m.world.db.attempts.get? x = some att ∧ att'.taskID = att.taskID ∧
        (att'.status = .running → att.status = .running) ∧
        att'.lastRenewedAt = att.lastRenewedAt := by
    intro x att' hx
    rcases renewed_call hs hx with ⟨att, hatt, htask, hold, hsame | ⟨_, _, _, _, _, _, hc, _⟩⟩ |
      ⟨_, _, _, _, _, _, hc, _⟩
    · exact ⟨att, hatt, htask, hold, hsame⟩
    · cases hc
    · cases hc
  refine ⟨coherent_step hm.coherent hs, fun x att' hx => ?_, fun x att' r time hx hrun hr ht => ?_⟩
  · obtain ⟨att, hatt, _, _, hsame⟩ := hkeep x att' hx
    rw [hnow, hsame]
    exact Nat.le_trans (hm.past x att hatt) hn
  · obtain ⟨att, hatt, htask, hold, hsame⟩ := hkeep x att' hx
    exact (hm.keep hs hatt htask (hold hrun) hsame hr (.inl (hbeats ▸ ht))).2.imp_right
      fun hun => (Managers.owes_spawn hthreads howner).mpr (.inl hun)

theorem beating_post (hm : Beating m) (h : Moves m (.post i action now) m') : Beating m' := by
  obtain ⟨_, _, hs, _, howner⟩ := moves_post h
  obtain ⟨rest, hi, hn, _, hnow, _, hthreads⟩ := step_post hs
  refine ⟨coherent_step hm.coherent hs, fun x att' hx => ?_,
    fun x att' r' time hx hrun hr' ht => ?_⟩
  · obtain ⟨att, hatt, _, _, hsame⟩ := renewed_other hs nofun hx
    rw [hnow, hsame]
    exact Nat.le_trans (hm.past x att hatt) hn
  · obtain ⟨att, hatt, htask, hold, hsame⟩ := renewed_other hs nofun hx
    rcases entry_post h r' x with ⟨_, _, he⟩ | he | ⟨hno, he⟩
    · cases he.symm.trans ht
      rw [hsame]
      exact .inl (Nat.le_trans (hm.past x att hatt) hn)
    · cases he.symm.trans ht
    · rcases (hm.keep hs hatt htask (hold hrun) hsame hr' (.inl (he.symm.trans ht))).2
        with hle | hun
      · exact .inl hle
      · refine .inr (((Managers.owes_post hi hthreads howner).mp hun).resolve_left ?_)
        exact fun hact => hno ⟨hact.1, .inl hact.2⟩

theorem beating_restart (hm : Beating m) (h : Moves m (.restart r) m') : Beating m' := by
  obtain ⟨hs, hbeats, _⟩ := moves_restart h
  have hw := step_restart hs
  refine ⟨coherent_step hm.coherent hs, fun x att' hx => ?_,
    fun x att' r' time hx hrun hr' ht => ?_⟩
  · rw [hw] at hx ⊢
    exact hm.past x att' hx
  · have hne : r' ≠ r := by
      rintro rfl
      rw [hbeats, Function.update_self] at ht
      cases ht
    rw [hbeats, Function.update_of_ne hne] at ht
    rw [hw] at hx hr'
    exact (hm.fresh x att' r' time hx hrun hr' ht).imp_right fun hun =>
      (Managers.owes_restart h).mpr ⟨hne, hun⟩

theorem beating_run {q : Option Nat} {as : List Move}
    (h : Run (Under Moves servedAtHome) (Managers.initial q) as m) : Beating m := by
  refine h.invariant (I := Beating) ?_ (beating_initial q)
  rintro m a m' hm ⟨hs, hok⟩
  cases a with
  | serve r c now locked => exact beating_serve hm hs hok
  | reap s now locked => exact beating_reap hm hs
  | post i action now => exact beating_post hm hs
  | restart r => exact beating_restart hm hs

/-! ## 4. The reaper -/

/-- One of the changes ends an attempt that is Running before them and not afterwards. -/
theorem stops_changes (hcs : Changes now db cs db') (h : db.attempts.get? x = some a)
    (hrun : a.status = .running)
    (hstop : ∀ a', db'.attempts.get? x = some a' → a'.status ≠ .running) :
    ∃ c ∈ cs, ∃ bs d b, Changes now db bs d ∧ d.attempts.get? x = some b ∧ b.taskID = a.taskID ∧
      c.Stops d b := by
  obtain ⟨bs, c, _, d, _, rfl, hbs, ⟨_, rfl⟩, _, hd, hd'⟩ := hcs.exists_switch
    (P := fun d => ∀ a', d.attempts.get? x = some a' → a'.status ≠ .running)
    (fun hno => hno a h hrun) hstop
  obtain ⟨b, hb, ht, _⟩ := renewed_changes hbs h
  have hbrun : b.status = .running := by
    by_contra hno
    exact hd fun a' ha' => by cases hb.symm.trans ha'; exact hno
  obtain ⟨b', hb', _, hiff, _⟩ := c.attempt_apply now hb
  refine ⟨c, List.mem_append_right _ List.mem_cons_self, bs, d, b, hbs, hb, ht, ?_⟩
  by_contra hno
  exact hd' b' hb' (hiff.mpr ⟨hbrun, hno⟩)

theorem stopped_changes (hcs : Changes now db cs db') (h : db.attempts.get? x = some a)
    (hrun : a.status = .running) (h' : db'.attempts.get? x = some a')
    (hstop : a'.status ≠ .running) :
    ∃ c ∈ cs, ∃ d b, c.Stops d b ∧ b.attemptID = x := by
  obtain ⟨c, hc, _, d, b, _, hb, _, hstops⟩ := stops_changes hcs h hrun fun b hb => by
    cases hb.symm.trans h'
    exact hstop
  exact ⟨c, hc, d, b, hstops, Table.key_of_get? hb⟩

/-- A pass of the reaper ends only attempts that it has found stale. -/
theorem reaped_stale {clock : Time}
    (h : Step w (.call (.failStaleTasks s heartbeats clock) now locked) w')
    (hx : w.db.attempts.get? x = some att) (hrun : att.status = .running)
    (hx' : w'.db.attempts.get? x = some att') (hstop : att'.status ≠ .running) :
    ∃ rec ∈ staleTasks s.replicaIndex (atomically now locked) w.db,
      rec.attemptID = x ∧ isStale s heartbeats clock rec = true := by
  obtain ⟨_, _, hdb, _⟩ := step_call h
  obtain ⟨_, _, _, _, hcs⟩ := performed (c := .failStaleTasks s heartbeats clock) rfl
    failStaleTasks_changes
  obtain ⟨c, hc, d, b, hstops, hb⟩ := stopped_changes (hdb ▸ hcs) hx hrun hx' hstop
  have hlogs : ∀ es, c ∉ logs s es := by
    intro es hc
    obtain ⟨e, rfl⟩ := mem_logs hc
    exact hstops
  rcases List.mem_append.mp hc with hc | hc
  · obtain ⟨rec, hrec, hc⟩ := List.mem_flatMap.mp hc
    split at hc
    · next hstale =>
      have hrel : ∀ {status}, c = .release rec.taskID rec.attemptID status →
          ∃ rec ∈ staleTasks s.replicaIndex (atomically now locked) w.db,
            rec.attemptID = x ∧ isStale s heartbeats clock rec = true := by
        rintro status rfl
        exact ⟨rec, hrec, hstops.symm.trans hb, hstale⟩
      split at hc
      · rcases List.mem_cons.mp hc with hc | hc
        · exact hrel hc
        · cases List.mem_singleton.mp hc
          exact hstops.elim
      · exact hrel (List.mem_singleton.mp hc)
    · cases hc
  · exact absurd hc fun hc => (List.mem_append.mp hc).elim (hlogs _) (hlogs _)

/-- In a run in which each RenewLease call is served by the replica of its job, a pass of the
reaper ends a Running attempt for which no renewal still has its store to do only if the
committed `last_renewed_at` is at least the lease and the clock-skew tolerance in the past. -/
theorem reclaimed_expired {q : Option Nat} {as : List Move} {m m' : Managers} {s : Scheduler}
    {now : Time} {locked : Resource → Bool} {x : UUID} {att att' : AttemptRow}
    (h : Run (Under Moves servedAtHome) (Managers.initial q) as m)
    (hreap : Moves m (.reap s now locked) m') (hstored : ¬ m.Unstored s.replicaIndex x)
    (hx : m.world.db.attempts.get? x = some att) (hrun : att.status = .running)
    (hx' : m'.world.db.attempts.get? x = some att') (hstop : att'.status ≠ .running) :
    att.lastRenewedAt + (att.leaseTTL + s.leaseClockSkewSeconds) * second ≤ now := by
  have hm := beating_run h
  obtain ⟨rec, hrec, rfl, hstale⟩ := reaped_stale (moves_reap hreap).1 hx hrun hx' hstop
  obtain ⟨row, b, j, hrow, hb, hj, hrj, hcur, _, _, hr, _, hlast, httl, _⟩ :=
    QueryLemmas.staleTasks_mem hrec
  cases hx.symm.trans hb
  have hstale := of_decide_eq_true hstale
  rw [hlast, httl] at hstale
  cases hbeat : m.heartbeats s.replicaIndex rec.attemptID with
  | none => rwa [hbeat, Option.getD_none] at hstale
  | some time =>
    rw [hbeat, Option.getD_some] at hstale
    obtain ⟨b, hb', htask⟩ := hm.coherent.linked.owner _ row _ hrow hcur
    cases hb'.symm.trans hx
    have hreplica : m.world.db.replicaOf att.taskID = some s.replicaIndex := by
      rw [htask, replicaOf_of_task hrow, hrj, hj, Option.map_some, hr]
    rcases hm.fresh _ att _ time hx hrun hreplica hbeat with hle | hun
    · exact Nat.le_trans (Nat.add_le_add_right hle _) hstale
    · exact absurd hun hstored

def serving (c : Call) (now : Time) : Move := .serve 0 c now fun _ => false

def reaping (now : Time) : Move := .reap soloReplica now fun _ => false

/-- A worker of the small job gets its first task. -/
def heldMoves : List Move :=
  [serving (.recoverFailAttempts soloReplica) 0, serving (.recoverResetTasks soloReplica) 0,
    serving (.recoverWorkerPools soloReplica) 0, serving (.scheduleJob soloReplica smallJob) 1,
    serving (.getNextTask soloReplica 1 "a" 10 20) 2]

/-- It renews its lease and is not heard of again. -/
def lapsedMoves : List Move :=
  heldMoves ++ [serving (.renewLease soloReplica 2 10 20 false) (10 * second),
    .post 5 (.storeHeartbeat 10) (10 * second)]

theorem reclaimed_expired_lapsed :
    ∃ m m' att, Run (Under Moves servedAtHome) (Managers.initial none) lapsedMoves m ∧
      Moves m (reaping (50 * second)) m' ∧ m.world.db.attempts.get? 10 = some att ∧
      att.lastRenewedAt + (att.leaseTTL + soloReplica.leaseClockSkewSeconds) * second ≤
        50 * second := by
  obtain ⟨m, m', hm, hreap, ⟨hrunning, hstored⟩, hfailed⟩ := (run_then (by decide) :
    ∃ m m', Run (Under Moves servedAtHome) (Managers.initial none) lapsedMoves m ∧
      Under Moves servedAtHome m (reaping (50 * second)) m' ∧
      ((m.world.db.attempts.get? 10).map AttemptRow.status = some .running ∧ ¬ m.Unstored 0 10) ∧
      (m'.world.db.attempts.get? 10).map AttemptRow.status = some .failed)
  obtain ⟨att, hatt, hs⟩ := Option.map_eq_some_iff.mp hrunning
  obtain ⟨att', hatt', hs'⟩ := Option.map_eq_some_iff.mp hfailed
  exact ⟨m, m', att, hm, hreap.1, hatt,
    reclaimed_expired hm hreap.1 hstored hatt hs hatt' (by rw [hs']; nofun)⟩

/-- It renews its lease and the reaper runs before the heartbeat is stored. -/
def renewedMoves : List Move :=
  heldMoves ++ [serving (.renewLease soloReplica 2 10 20 false) (30 * second)]

/-- The renewal was committed 10 s ago and the attempt is reclaimed, with a lease of 30 s. -/
theorem renewed_reclaimed :
    ∃ m m', Run (Under Moves servedAtHome) (Managers.initial none) renewedMoves m ∧
      Moves m (reaping (40 * second)) m' ∧
      (m.world.db.attempts.get? 10).map (fun a => (a.status, a.lastRenewedAt, a.leaseTTL)) =
        some (.running, 30 * second, 30) ∧
      (m'.world.db.attempts.get? 10).map AttemptRow.status = some .failed ∧
      ¬ 30 * second + (30 + soloReplica.leaseClockSkewSeconds) * second ≤ 40 * second := by
  obtain ⟨m, m', hm, hreap, hrunning, hfailed⟩ := (run_then (by decide) :
    ∃ m m', Run (Under Moves servedAtHome) (Managers.initial none) renewedMoves m ∧
      Under Moves servedAtHome m (reaping (40 * second)) m' ∧
      (m.world.db.attempts.get? 10).map (fun a => (a.status, a.lastRenewedAt, a.leaseTTL)) =
        some (.running, 30 * second, 30) ∧
      (m'.world.db.attempts.get? 10).map AttemptRow.status = some .failed)
  exact ⟨m, m', hm, hreap.1, hrunning, hfailed, by decide⟩

end KubeMapReduce
