import KubeMapReduce.Evidence

/-!
# The quota of running attempts

The check of the quota and the insertion of the attempt are separate statements of
transactions that overlap. `quota_kept`: however the statements are interleaved, the
number of committed Running attempts never exceeds max_concurrent_pods.

A transaction that has found room holds the advisory lock until it ends, so no other
transaction adds an attempt in between, and what the others commit can only lower the
number (`Counted.stable`).
-/

namespace KubeMapReduce

open Tables Transactions TransactionLemmas Programs Runs

/-! ## 1. What a statement does to the attempts -/

namespace QuotaLemmas

variable {q : Query} {env : Env Resource} {view db : DB} {now : Time}

theorem insert_max : (q.insert now db).maxConcurrentPods = db.maxConcurrentPods := by
  unfold Query.insert
  split <;> first | rfl | (split <;> rfl)

theorem effect_max : (q.effect env view db).maxConcurrentPods = db.maxConcurrentPods := insert_max

/-- The statement inserts an attempt. -/
def inserts : Query → Bool
  | .insertAttempt _ _ _ _ _ _ => true
  | _ => false

theorem insert_attempts (hq : inserts q = false) : (q.insert now db).attempts = db.attempts := by
  unfold Query.insert
  split <;> first | rfl | (split <;> rfl) | cases hq

theorem running_congr {d d' : DB} (h : d'.attempts = d.attempts) :
    d'.runningAttempts = d.runningAttempts := by
  unfold DB.runningAttempts
  rw [h]

theorem effect_attempts (hq : inserts q = false) (hs : q.attemptSet = none) :
    (q.effect env view db).attempts = db.attempts := by
  unfold Query.effect Query.write
  rw [insert_attempts hq, hs]

/-- A SET clause on an attempt never makes it Running. -/
theorem set_running {c : Query.AttemptSet} (hs : q.attemptSet = some c) {a : AttemptRow}
    (h : (a.set now c).status = .running) : a.status = .running := by
  cases q <;> cases hs <;> first | exact h | cases h

/-- Only the INSERT raises the number of Running attempts. -/
theorem effect_running (hq : inserts q = false) :
    (q.effect env view db).runningAttempts ≤ db.runningAttempts := by
  cases hs : q.attemptSet with
  | none => exact Nat.le_of_eq (running_congr (effect_attempts hq hs))
  | some c =>
    unfold Query.effect Query.write DB.runningAttempts
    rw [insert_attempts hq, hs]
    refine Table.countP_updateWhere_le _ _ _ _ (fun r _ => r.set_attemptID env.now c)
      fun a _ ha => ?_
    exact decide_eq_true (set_running hs (of_decide_eq_true ha))

theorem effect_insertAttempt (view : DB) {a t lease : UUID} {worker : String} {ttl : Nat}
    {httl : 0 < ttl} :
    ((Query.insertAttempt a t worker lease ttl httl).effect env view db).runningAttempts ≤
      db.runningAttempts + 1 := by
  let row : AttemptRow := ⟨a, t, worker, lease, env.now, ttl, env.now, none, .running, httl⟩
  show (db.attempts.insert row).rows.countP _ ≤ _
  cases hg : db.attempts.get? (AttemptRow.attemptID row) with
  | some r =>
    rw [Table.insert_of_some hg]
    exact Nat.le_succ _
  | none =>
    rw [Table.rows_insert hg, List.countP_append]
    exact Nat.add_le_add_left List.countP_le_length _

/-- The statements that change the progress of the quota check are the ones below. -/
theorem next_quota {m : Progress} (hq : inserts q = false) (hs : q.attemptSet = none)
    (h₁ : q ≠ .acquireSchedulingLock) (h₂ : q ≠ .getMaxConcurrentPods)
    (h₃ : q ≠ .countRunningAttempts) (ans : q.Ans) : (m.next q ans).quota = m.quota := by
  show (m.learn q ans).quota = m.quota
  unfold Progress.learn
  split <;> first | rfl | contradiction

end QuotaLemmas

open QuotaLemmas

/-! ## 2. The invariant of a session -/

/-- The quota: the row of SYSTEM_CONFIG, or the default. -/
def maxPods (max : Option Nat) : Nat := max.getD DefaultMaxConcurrentPods

/-- The session has not changed the attempts. -/
def KeepsAttempts (s : DBSession) : Prop := ∀ d, (s.pending d).attempts = d.attempts

/-- What is known of a session at each point of the quota check. -/
def Quota.Bound (max : Option Nat) (db : DB) (s : DBSession) : Quota → Prop
  | .clean => KeepsAttempts s
  | .locked => .scheduling ∈ s.held ∧ KeepsAttempts s
  | .limit n => n = max ∧ .scheduling ∈ s.held ∧ KeepsAttempts s
  | .room => db.runningAttempts < maxPods max ∧ .scheduling ∈ s.held ∧ KeepsAttempts s
  | .inserted =>
    db.runningAttempts < maxPods max ∧ .scheduling ∈ s.held ∧
      ∀ d, (s.pending d).runningAttempts ≤ d.runningAttempts + 1
  | .ended => ∀ d, (s.pending d).runningAttempts ≤ d.runningAttempts

structure Counted (max : Option Nat) (m : Progress) (db : DB) (s : DBSession) : Prop where
  pods : ∀ d, (s.pending d).maxConcurrentPods = d.maxConcurrentPods
  bound : m.quota.Bound max db s

/-- The committed state respects the quota. -/
def WithinQuota (max : Option Nat) (db : DB) : Prop :=
  db.maxConcurrentPods = max ∧ db.runningAttempts ≤ maxPods max

section Bound

variable {max : Option Nat} {db db' : DB} {s s' : DBSession} {c : Quota} {m : Progress}

theorem KeepsAttempts.running (h : KeepsAttempts s) (d : DB) :
    (s.pending d).runningAttempts = d.runningAttempts :=
  running_congr (h d)

/-- The progress of a session that ends no attempt and adds none after its check. -/
theorem Quota.Bound.le (h : c.Bound max db s) (hc : c ≠ .inserted) (d : DB) :
    (s.pending d).runningAttempts ≤ d.runningAttempts := by
  cases c with
  | clean => exact Nat.le_of_eq (KeepsAttempts.running h d)
  | locked => exact Nat.le_of_eq (h.2.running d)
  | limit n => exact Nat.le_of_eq (h.2.2.running d)
  | room => exact Nat.le_of_eq (h.2.2.running d)
  | inserted => exact absurd rfl hc
  | ended => exact h d

theorem Quota.Bound.more (h : c.Bound max db s) (hp : s'.pending = s.pending)
    (hh : ∀ r ∈ s.held, r ∈ s'.held) : c.Bound max db s' := by
  have hk : KeepsAttempts s → KeepsAttempts s' := fun hs d => by rw [hp]; exact hs d
  cases c with
  | clean => exact hk h
  | locked => exact ⟨hh _ h.1, hk h.2⟩
  | limit n => exact ⟨h.1, hh _ h.2.1, hk h.2.2⟩
  | room => exact ⟨h.1, hh _ h.2.1, hk h.2.2⟩
  | inserted => exact ⟨h.1, hh _ h.2.1, by rw [hp]; exact h.2.2⟩
  | ended =>
    intro d
    rw [hp]
    exact h d

theorem Counted.more (h : Counted max m db s) (hp : s'.pending = s.pending)
    (hh : ∀ r ∈ s.held, r ∈ s'.held) : Counted max m db s' :=
  ⟨by rw [hp]; exact h.pods, h.bound.more hp hh⟩

/-- Another session commits. If the first one has found room, the other does not hold
the advisory lock, so it adds no attempt. -/
theorem Counted.stable {t : DBSession} {m' : Progress} (hs : Counted max m db s)
    (ht : Counted max m' db t) (hexcl : ∀ r ∈ s.held, r ∉ t.held) :
    Counted max m' (s.pending db) t := by
  have hle : .scheduling ∈ t.held → db.runningAttempts < maxPods max →
      (s.pending db).runningAttempts < maxPods max := by
    intro hheld hlt
    refine Nat.lt_of_le_of_lt (hs.bound.le ?_ db) hlt
    intro hins
    have hb := hs.bound
    rw [hins] at hb
    exact hexcl _ hb.2.1 hheld
  refine ⟨ht.pods, ?_⟩
  have hb := ht.bound
  revert hb
  cases m'.quota with
  | clean => exact id
  | locked => exact id
  | limit n => exact id
  | room => exact fun hb => ⟨hle hb.2.1 hb.1, hb.2⟩
  | inserted => exact fun hb => ⟨hle hb.2.1 hb.1, hb.2⟩
  | ended => exact id

end Bound

/-! ## 3. One statement -/

section Exec

variable {max : Option Nat} {M : DBMachine} {s : DBSession} {q : Query}
  {k : q.Ans → Tx Reply} {m : Progress} {c : Quota}

/-- A statement that leaves the attempts alone. -/
theorem Quota.Bound.kept (h : c.Bound max M.db s) (hq : inserts q = false)
    (hs : q.attemptSet = none) : c.Bound max M.db (s.acted sem M q k) := by
  have hheld : ∀ r ∈ s.held, r ∈ (s.acted sem M q k).held := fun r hr =>
    List.mem_append_right _ hr
  have hk : KeepsAttempts s → KeepsAttempts (s.acted sem M q k) := fun hs' d =>
    (effect_attempts hq hs).trans (hs' d)
  cases c with
  | clean => exact hk h
  | locked => exact ⟨hheld _ h.1, hk h.2⟩
  | limit n => exact ⟨h.1, hheld _ h.2.1, hk h.2.2⟩
  | room => exact ⟨h.1, hheld _ h.2.1, hk h.2.2⟩
  | inserted => exact ⟨h.1, hheld _ h.2.1, fun d => Nat.le_trans (effect_running hq) (h.2.2 d)⟩
  | ended => exact fun d => Nat.le_trans (effect_running hq) (h d)

/-- A statement that ends attempts. -/
theorem Quota.Bound.ends (h : c.Bound max M.db s) (hq : inserts q = false)
    (hc : c.locks = false) : Quota.ended.Bound max M.db (s.acted sem M q k) := by
  have hne : c ≠ .inserted := fun he => by rw [he] at hc; cases hc
  exact fun d => Nat.le_trans (effect_running hq) (h.le hne d)

/-- The count is exact: the session has not changed the attempts and the limit is the
one of the committed state. -/
theorem Quota.Bound.counted (h : c.Bound max M.db s) :
    (c.count (s.view M.db).runningAttempts).Bound max M.db s := by
  cases c with
  | limit n =>
    have hrun : (s.view M.db).runningAttempts = M.db.runningAttempts := h.2.2.running M.db
    rw [hrun, h.1]
    show (if M.db.runningAttempts < maxPods max then Quota.room else .limit max).Bound max M.db s
    split
    · next hlt => exact ⟨hlt, h.2⟩
    · exact ⟨rfl, h.2⟩
  | clean => exact h
  | locked => exact h
  | room => exact h
  | inserted => exact h
  | ended => exact h

/-- One statement keeps the invariant. -/
theorem Counted.acted (h : Counted max m M.db s) (hdb : M.db.maxConcurrentPods = max)
    (hok : m.allows q) (hlock : q = .acquireSchedulingLock → .scheduling ∈ s.held) :
    Counted max (m.next q (answer q (M.env s) (s.view M.db))) M.db (s.acted sem M q k) := by
  refine ⟨fun d => effect_max.trans (h.pods d), ?_⟩
  have hb := h.bound
  by_cases hi : inserts q = true
  · -- the INSERT, after room was found
    cases q with
    | insertAttempt a t worker lease ttl httl =>
      rw [show m.quota = .room from hok] at hb
      refine ⟨hb.1, List.mem_append_right _ hb.2.1, fun d => ?_⟩
      exact Nat.le_trans (effect_insertAttempt (s.view M.db))
        (Nat.succ_le_succ (Nat.le_of_eq (hb.2.2.running d)))
    | _ => cases hi
  have hi' : inserts q = false := by simpa using hi
  cases hs : q.attemptSet with
  | some set =>
    cases q <;> first | exact hb.ends rfl hok | cases hs
  | none =>
    by_cases h₁ : q = .acquireSchedulingLock
    · subst h₁
      rw [show m.quota = .clean from hok.1] at hb
      exact ⟨List.mem_append_right _ (hlock rfl), Quota.Bound.kept (c := .clean) hb rfl rfl⟩
    by_cases h₂ : q = .getMaxConcurrentPods
    · subst h₂
      have hread : (m.quota.read (s.view M.db).maxConcurrentPods).Bound max M.db s := by
        revert hb
        cases m.quota with
        | locked => exact fun hb => ⟨(h.pods _).trans hdb, hb⟩
        | clean => exact id
        | limit n => exact id
        | room => exact id
        | inserted => exact id
        | ended => exact id
      exact hread.kept rfl rfl
    by_cases h₃ : q = .countRunningAttempts
    · subst h₃
      exact hb.counted.kept rfl rfl
    · rw [next_quota hi' hs h₁ h₂ h₃]
      exact hb.kept hi' hs

end Exec

/-! ## 4. Every run -/

theorem quota_rule (max : Option Nat) :
    Rule sem code (fun _ _ => True) protocol Progress.start (WithinQuota max) (Counted max) where
  obeys := code_obeys
  begin _ _ _ _ _ := ⟨fun _ => rfl, fun _ => rfl⟩
  request _ _ _ _ _ _ _ _ _ _ _ _ _ h := h.more requested_frame.2.1 requested_frame.2.2
  lock _ _ _ _ _ _ _ _ h := h.more rfl fun _ hr => List.mem_cons_of_mem _ hr
  exec M s q k m hM hs _ _ _ hok hscan hheld h := by
    refine h.acted hM.db.1 hok ?_
    rintro rfl
    obtain ⟨db, hdb⟩ := hscan
    refine hheld _ ?_
    rw [hdb]
    exact List.mem_append_right _ (List.mem_singleton.mpr rfl)
  commit M s r m hM _ _ _ h := by
    refine ⟨(h.pods _).trans hM.db.1, ?_⟩
    by_cases hins : m.quota = .inserted
    · have hb := h.bound
      rw [hins] at hb
      exact Nat.le_trans (hb.2.2 M.db) hb.1
    · exact Nat.le_trans (h.bound.le hins M.db) hM.db.2
  stable M s t r m m' hM hs ht hne _ h h' := h.stable h' (hM.excl s hs t ht hne)

/-- However the statements of the transactions are interleaved, the committed Running
attempts stay within the quota. -/
theorem quota_kept {db : DB} {as : List (Transactions.Label Call Resource)} {M : DBMachine}
    (hrun : Run SessionStep (Machine.idle db) as M)
    (h : db.runningAttempts ≤ maxPods db.maxConcurrentPods) :
    M.db.maxConcurrentPods = db.maxConcurrentPods ∧
      M.db.runningAttempts ≤ maxPods db.maxConcurrentPods :=
  ((quota_rule db.maxConcurrentPods).run (hrun.mono fun _ _ _ hs => ⟨hs, trivial⟩)
    (holds_idle ⟨rfl, h⟩)).db

/-- With a quota of one, the second of two calls is refused. -/
theorem quota_kept_one : ∃ as M, Run SessionStep (Machine.idle (smallDB (some 1))) as M ∧
    M.db.runningAttempts = 1 ∧ M.db.runningAttempts ≤ 1 := by
  obtain ⟨as, M, hrun, _, hend⟩ :=
    serial_call (smallDB (some 1)) 1 (.getNextTask soloReplica 1 "w1" 10 11) 2
  obtain ⟨bs, M', hrun', _, hend'⟩ := serial_call
    (perform (.getNextTask soloReplica 1 "w1" 10 11) 2 (fun _ => false) (smallDB (some 1))).2
    2 (.getNextTask soloReplica 1 "w2" 20 21) 3
  have hall := (hrun.snoc hend).append (hrun'.snoc hend')
  exact ⟨_, _, hall, by decide, (quota_kept hall (by decide)).2⟩

end KubeMapReduce
