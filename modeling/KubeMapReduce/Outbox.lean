import Mathlib.Algebra.Group.Nat.Defs
import KubeMapReduce.Lib.Run
import KubeMapReduce.Schema

/-!
# The event outbox

The transactions of the scheduler insert events into EVENT_OUTBOX. Relays on any number of
replicas claim due rows with FOR UPDATE SKIP LOCKED, hand their events to Publish one after the
other, and write the outcome of the batch in the transaction that holds the locks. An
administrator puts dead-lettered rows back, and delivered rows are purged.

The loop of a relay and its transaction are two things. BeginTx passes the context on, so
database/sql rolls the transaction back when the context is cancelled, and the server rolls it
back when the session ends. The loop looks at the context before each event and at the
transaction only behind the last one: in between it goes on publishing (`RelayAct.lose`).

* `advances`: what one step does to the table, row by row.
* `locks_run`: a row that an open transaction has locked is as it was when it was claimed.
-/

namespace KubeMapReduce

open Runs Tables

variable {limit : Nat} {err : Option String}

/-! ## 1. The table -/

inductive EventType where
  | jobSubmitted
  | jobStateChanged
  | jobCancelRequested
  | taskIdleDetected
  | taskAssigned
  | taskHeartbeatReceived
  | taskAttemptCompleted
  | taskAttemptFailed
  | taskReaped
  | systemConfigUpdated
  | systemReconcileTick
  | eventDeadLetter
  | eventReplayRequested
deriving DecidableEq, Repr

structure EventEnvelope where
  eventID : UUID
  eventType : EventType
  payload : Event

/-- A row of EVENT_OUTBOX. `id` is the serial number of the insertion. -/
structure OutboxRow where
  id : Nat
  eventID : UUID
  eventType : EventType
  payload : Event
  delivered : Bool
  deliveredAt : Option Time
  retryCount : Nat
  lastError : Option String
  nextAttemptAt : Time
  originalEventType : Option EventType
deriving DecidableEq

variable {r r' : OutboxRow} {seen : OutboxRow → Bool}

/-- One run of processBatch. `tx` is its transaction, begun at `now`, and `held` says whether
that is still open; `claims` are the rows whose events it has not published yet. -/
structure Batch where
  tx : Nat
  now : Time
  held : Bool
  claims : List OutboxRow
  delivered : List OutboxRow
  failures : List (OutboxRow × String)
deriving DecidableEq

variable {b : Batch}

/-- The rows that the batch has claimed. -/
def Batch.rows (b : Batch) : List OutboxRow := b.delivered ++ b.failures.map (·.1) ++ b.claims

/-- What was done, by serial number of the row, for an observer. No step reads it. -/
inductive Deed where
  | inserted (row : Nat) (eventType : EventType)
  | published (tx row : Nat) (err : Option String)
  | failed (row : Nat)
  | reprocessed (row : Nat)
deriving DecidableEq

/-- The table in the order of `id`, the batches that are running, the next numbers of the two
sequences, and the deeds, latest first. -/
structure Outbox where
  rows : Table OutboxRow.eventID
  batches : Table Batch.tx
  nextID : Nat
  nextTx : Nat
  deeds : List Deed

def Outbox.empty : Outbox := ⟨.empty, .empty, 0, 0, []⟩

/-! ## 2. The statements -/

def OutboxRow.new (id : Nat) (e : EventEnvelope) (now : Time) : OutboxRow where
  id := id
  eventID := e.eventID
  eventType := e.eventType
  payload := e.payload
  delivered := false
  deliveredAt := none
  retryCount := 0
  lastError := none
  nextAttemptAt := now
  originalEventType := none

/-- An event whose `event_id` is taken violates the primary key. -/
def insertEvent (s : Outbox) (e : EventEnvelope) (now : Time) : Option Outbox :=
  if (s.rows.get? e.eventID).isSome then none else
  some { s with
    rows := s.rows.insert (.new s.nextID e now)
    nextID := s.nextID + 1
    deeds := .inserted s.nextID e.eventType :: s.deeds }

def Outbox.locked (s : Outbox) (e : UUID) : Bool :=
  s.batches.rows.any fun b => b.held && b.rows.any (decide <| ·.eventID = e)

def OutboxRow.due (r : OutboxRow) (now : Time) : Bool :=
  !r.delivered && decide (r.eventType ≠ .eventDeadLetter) && decide (r.nextAttemptAt ≤ now)

/-- The rows that the SELECT returns and locks. `seen` are those of its snapshot: a row that was
committed behind the snapshot is not returned. -/
def claimUndeliveredEvents (s : Outbox) (limit : Nat) (seen : OutboxRow → Bool) (now : Time) :
    List OutboxRow :=
  (s.rows.rows.filter fun r => seen r && r.due now && !s.locked r.eventID).take limit

def markBatchDelivered (rows : Table OutboxRow.eventID) (eventIDs : List UUID) (now : Time) :
    Table OutboxRow.eventID :=
  rows.updateWhere (fun r => decide (r.eventID ∈ eventIDs))
    (fun r => { r with delivered := true, deliveredAt := some now }) fun _ _ => rfl

/-- One millisecond. -/
def millisecond : Time := 1000000

/-- The delay before the next attempt; `random` is cut to the quarter that is drawn from. -/
def outboxBackoff (retries : Nat) (random : Nat) : Time :=
  let expo := min (1000 * 2 ^ (max retries 1 - 1)) 30000 * millisecond
  expo + min random (expo / 4)

/-- The SET clause of RecordDeliveryFailures: every expression reads the old row. -/
def OutboxRow.fail (maxRetries : Nat) (now : Time) (random : Nat) (err : String) (r : OutboxRow) :
    OutboxRow :=
  { r with
    retryCount := r.retryCount + 1
    lastError := some err
    nextAttemptAt := now + outboxBackoff (r.retryCount + 1) random
    originalEventType :=
      if r.retryCount + 1 ≥ maxRetries ∧ r.eventType ≠ .eventDeadLetter then some r.eventType
      else r.originalEventType
    eventType := if r.retryCount + 1 ≥ maxRetries then .eventDeadLetter else r.eventType }

/-- `random` gives what outbox_backoff draws for each row. -/
def recordDeliveryFailures (rows : Table OutboxRow.eventID) (failures : List (UUID × String))
    (maxRetries : Nat) (now : Time) (random : UUID → Nat) : Table OutboxRow.eventID :=
  rows.updateWhere (fun r => (failures.lookup r.eventID).isSome)
    (fun r => r.fail maxRetries now (random r.eventID) ((failures.lookup r.eventID).getD ""))
    fun _ _ => rfl

def OutboxRow.reprocess (now : Time) (r : OutboxRow) : OutboxRow :=
  { r with
    eventType := r.originalEventType.getD r.eventType
    originalEventType := none
    retryCount := 0
    lastError := none
    nextAttemptAt := now }

/-- An event that is not dead-lettered is left alone, and the call returns sql.ErrNoRows. -/
def reprocessEvent (s : Outbox) (eventID : UUID) (now : Time) : Outbox :=
  { s with
    rows := s.rows.updateWhere
      (fun r => decide (r.eventID = eventID ∧ r.eventType = .eventDeadLetter))
      (OutboxRow.reprocess now) fun _ _ => rfl
    deeds := (s.rows.rows.filter fun r =>
      decide (r.eventID = eventID ∧ r.eventType = .eventDeadLetter)).map (.reprocessed ·.id)
        ++ s.deeds }

def OutboxRow.purgeable (cutoff : Time) (r : OutboxRow) : Bool :=
  r.delivered && r.deliveredAt.any (decide <| · < cutoff)

def purgeDeliveredOlderThan (s : Outbox) (cutoff : Time) : Outbox :=
  { s with rows := s.rows.deleteWhere (OutboxRow.purgeable cutoff) }

/-! ## 3. The relay -/

/-- The retries of a relay: NewRelayService replaces a value that is not positive. -/
def relayMaxRetries (cfg : Int) : Nat := if cfg ≤ 0 then 3 else cfg.toNat

/-- The loop hands the next event to Publish, which returned `err`. -/
def Batch.publish (err : Option String) (b : Batch) : Batch :=
  match b.claims with
  | [] => b
  | c :: cs =>
    match err with
    | none => { b with claims := cs, delivered := b.delivered ++ [c] }
    | some e => { b with claims := cs, failures := b.failures ++ [(c, e)] }

@[simp] theorem Batch.publish_tx (err : Option String) (b : Batch) : (b.publish err).tx = b.tx := by
  unfold publish
  split
  · rfl
  · split <;> rfl

@[simp] theorem Batch.publish_held (err : Option String) (b : Batch) :
    (b.publish err).held = b.held := by
  unfold publish
  split
  · rfl
  · split <;> rfl

/-- The two statements of the end of the batch, and its commit. -/
def commitBatch (maxRetries : Nat) (random : UUID → Nat) (s : Outbox) (b : Batch) : Outbox :=
  { s with
    rows := recordDeliveryFailures
      (markBatchDelivered s.rows (b.delivered.map (·.eventID)) b.now)
      (b.failures.map fun f => (f.1.eventID, f.2)) maxRetries b.now random
    batches := s.batches.erase b.tx
    deeds := b.failures.map (fun f => .failed f.1.id) ++ s.deeds }

/-- What can happen next. `rollback` ends a batch without a commit: the loop saw the cancelled
context, a statement or the commit failed, or the process crashed. `lose` is a rollback of the
transaction that the loop has not noticed. -/
inductive RelayAct where
  | insertEvent (e : EventEnvelope) (now : Time)
  | claim (limit : Nat) (seen : OutboxRow → Bool) (now : Time)
  | publish (tx : Nat) (err : Option String)
  | commit (tx : Nat) (random : UUID → Nat)
  | rollback (tx : Nat)
  | lose (tx : Nat)
  | reprocessEvent (eventID : UUID) (now : Time)
  | purge (cutoff : Time)

/-- The row whose event the batch `x` hands to Publish next. -/
def Outbox.publishing (s : Outbox) (x : Nat) : Option OutboxRow :=
  (s.batches.get? x).bind (·.claims.head?)

/-- Start a batch on the rows that were claimed; without rows it ends at once. -/
def Outbox.begin (s : Outbox) (now : Time) : List OutboxRow → Outbox
  | [] => s
  | claims => { s with
    batches := s.batches.insert ⟨s.nextTx, now, true, claims, [], []⟩
    nextTx := s.nextTx + 1 }

def relayNext (maxRetries : Nat) (s : Outbox) : RelayAct → Option Outbox
  | .insertEvent e now => insertEvent s e now
  | .claim limit seen now =>
    if limit = 0 then none else some (s.begin now (claimUndeliveredEvents s limit seen now))
  | .publish x err =>
    (s.batches.get? x).bind fun b => b.claims.head?.map fun c =>
      { s with
        batches := s.batches.updateWhere (fun b => decide (b.tx = x)) (Batch.publish err)
          fun b _ => b.publish_tx err
        deeds := .published x c.id err :: s.deeds }
  | .commit x random =>
    (s.batches.get? x).bind fun b =>
      if b.held = true ∧ b.claims = [] then some (commitBatch maxRetries random s b) else none
  | .rollback x => (s.batches.get? x).map fun _ => { s with batches := s.batches.erase x }
  | .lose x =>
    (s.batches.get? x).map fun _ =>
      { s with
        batches := s.batches.updateWhere (fun b => decide (b.tx = x))
          (fun b => { b with held := false }) fun _ _ => rfl }
  | .reprocessEvent e now => some (reprocessEvent s e now)
  | .purge cutoff => some (purgeDeliveredOlderThan s cutoff)

abbrev RelayStep (maxRetries : Nat) : Outbox → RelayAct → Outbox → Prop :=
  Steps (relayNext maxRetries)

/-! ## 4. One step, row by row -/

/-- A row after MarkBatchDelivered. -/
def Batch.mark (b : Batch) (r : OutboxRow) : OutboxRow :=
  if r.eventID ∈ b.delivered.map (·.eventID) then
    { r with delivered := true, deliveredAt := some b.now }
  else r

/-- The error that Publish returned for an event. -/
def Batch.errorOf (b : Batch) (e : UUID) : Option String :=
  (b.failures.map fun f => (f.1.eventID, f.2)).lookup e

/-- A row after the two statements of a batch. -/
def Batch.settle (maxRetries : Nat) (random : UUID → Nat) (b : Batch) (r : OutboxRow) : OutboxRow :=
  match b.errorOf r.eventID with
  | none => b.mark r
  | some err => (b.mark r).fail maxRetries b.now (random r.eventID) err

@[simp] theorem Batch.mark_eventID (b : Batch) (r : OutboxRow) :
    (b.mark r).eventID = r.eventID := by
  unfold mark
  split <;> rfl

/-- What a step makes of a row; `none` when it deletes the row. -/
def RelayAct.rewrite (maxRetries : Nat) (s : Outbox) (r : OutboxRow) : RelayAct → Option OutboxRow
  | .commit x random => some (((s.batches.get? x).map fun b => b.settle maxRetries random r).getD r)
  | .reprocessEvent e now =>
    some (if r.eventID = e ∧ r.eventType = .eventDeadLetter then r.reprocess now else r)
  | .purge cutoff => if r.purgeable cutoff then none else some r
  | _ => some r

/-- The rows that a step adds. -/
def RelayAct.adds (s : Outbox) : RelayAct → List OutboxRow
  | .insertEvent e now => [.new s.nextID e now]
  | _ => []

/-- The deeds that a step records. -/
def RelayAct.records (s : Outbox) : RelayAct → List Deed
  | .insertEvent e _ => [.inserted s.nextID e.eventType]
  | .publish x err => (s.publishing x).toList.map fun r => .published x r.id err
  | .commit x _ => ((s.batches.get? x).toList.flatMap (·.failures)).map fun f => .failed f.1.id
  | .reprocessEvent e _ => (s.rows.rows.filter fun r =>
      decide (r.eventID = e ∧ r.eventType = .eventDeadLetter)).map (.reprocessed ·.id)
  | _ => []

section Step

variable {m x : Nat} {s t : Outbox} {a : RelayAct} {e : EventEnvelope} {now : Time}

theorem next_insertEvent (h : relayNext m s (.insertEvent e now) = some t) :
    s.rows.get? e.eventID = none ∧ t = { s with
      rows := s.rows.insert (.new s.nextID e now)
      nextID := s.nextID + 1
      deeds := .inserted s.nextID e.eventType :: s.deeds } := by
  dsimp only [relayNext, insertEvent] at h
  split at h
  · cases h
  · next hn => exact ⟨Option.not_isSome_iff_eq_none.mp hn, (Option.some.inj h).symm⟩

theorem next_claim (h : relayNext m s (.claim limit seen now) = some t) :
    t = s.begin now (claimUndeliveredEvents s limit seen now) := by
  dsimp only [relayNext] at h
  split at h
  · cases h
  · exact (Option.some.inj h).symm

theorem next_publish (h : relayNext m s (.publish x err) = some t) :
    ∃ b c, s.batches.get? x = some b ∧ b.claims.head? = some c ∧ t = { s with
      batches := s.batches.updateWhere (fun b => decide (b.tx = x)) (Batch.publish err)
        fun b _ => b.publish_tx err
      deeds := .published x c.id err :: s.deeds } := by
  obtain ⟨b, hb, h⟩ := Option.bind_eq_some_iff.mp h
  obtain ⟨c, hc, ht⟩ := Option.map_eq_some_iff.mp h
  exact ⟨b, c, hb, hc, ht.symm⟩

theorem next_commit {random : UUID → Nat} (h : relayNext m s (.commit x random) = some t) :
    ∃ b, s.batches.get? x = some b ∧ b.held = true ∧ b.claims = [] ∧
      t = commitBatch m random s b := by
  obtain ⟨b, hb, h⟩ := Option.bind_eq_some_iff.mp h
  split at h
  · next hc => exact ⟨b, hb, hc.1, hc.2, (Option.some.inj h).symm⟩
  · cases h

theorem next_rollback (h : relayNext m s (.rollback x) = some t) :
    t = { s with batches := s.batches.erase x } := by
  obtain ⟨b, -, ht⟩ := Option.map_eq_some_iff.mp h
  exact ht.symm

theorem next_lose (h : relayNext m s (.lose x) = some t) :
    t = { s with
      batches := s.batches.updateWhere (fun b => decide (b.tx = x))
        (fun b => { b with held := false }) fun _ _ => rfl } := by
  obtain ⟨b, -, ht⟩ := Option.map_eq_some_iff.mp h
  exact ht.symm

theorem commitBatch_rows (random : UUID → Nat) (b : Batch) :
    (commitBatch m random s b).rows.rows = s.rows.rows.map (b.settle m random) := by
  have hmark : (markBatchDelivered s.rows (b.delivered.map (·.eventID)) b.now).rows =
      s.rows.rows.map b.mark := by
    refine List.map_congr_left fun r _ => ?_
    unfold Batch.mark
    simp only [decide_eq_true_eq]
  show (List.map _ (markBatchDelivered ..).rows) = _
  rw [hmark, List.map_map]
  refine List.map_congr_left fun r _ => ?_
  unfold Batch.settle Batch.errorOf
  simp only [Function.comp_apply, Batch.mark_eventID]
  cases (b.failures.map fun f => (f.1.eventID, f.2)).lookup r.eventID with
  | none => rfl
  | some err => rfl

/-- What a step does to the table, to the two sequences and to the record of what was done. The
table is rewritten row by row, and the event that is inserted is added at the end. -/
structure Advances (m : Nat) (s t : Outbox) (a : RelayAct) : Prop where
  rows : t.rows.rows = (s.rows.rows.filterMap fun r => a.rewrite m s r) ++ a.adds s
  deeds : t.deeds = a.records s ++ s.deeds
  nextID : t.nextID = s.nextID + (a.adds s).length
  nextTx : s.nextTx ≤ t.nextTx

theorem advances (h : relayNext m s a = some t) : Advances m s t a := by
  have hsame : ∀ rs : List OutboxRow, rs = rs.filterMap some ++ [] := by
    intro rs
    rw [List.append_nil, List.filterMap_some]
  cases a with
  | insertEvent e now =>
    obtain ⟨hn, rfl⟩ := next_insertEvent h
    refine ⟨?_, rfl, rfl, Nat.le_refl _⟩
    show (s.rows.insert _).rows = s.rows.rows.filterMap some ++ _
    rw [Table.rows_insert hn, List.filterMap_some]
    rfl
  | claim limit seen now =>
    rw [next_claim h]
    cases claimUndeliveredEvents s limit seen now with
    | nil => exact ⟨hsame _, rfl, rfl, Nat.le_refl _⟩
    | cons c cs => exact ⟨hsame _, rfl, rfl, Nat.le_succ _⟩
  | publish x err =>
    obtain ⟨b, c, hb, hc, rfl⟩ := next_publish h
    refine ⟨hsame _, ?_, rfl, Nat.le_refl _⟩
    dsimp only [RelayAct.records]
    rw [Outbox.publishing, hb, Option.bind_some, hc]
    rfl
  | commit x random =>
    obtain ⟨b, hb, -, -, rfl⟩ := next_commit h
    refine ⟨?_, ?_, rfl, Nat.le_refl _⟩
    · rw [commitBatch_rows]
      dsimp only [RelayAct.rewrite, RelayAct.adds]
      rw [List.append_nil, hb]
      exact (congrFun (List.filterMap_eq_map' ..) _).symm
    · dsimp only [RelayAct.records]
      rw [hb, Option.toList_some, List.flatMap_singleton]
      rfl
  | rollback x =>
    rw [next_rollback h]
    exact ⟨hsame _, rfl, rfl, Nat.le_refl _⟩
  | lose x =>
    rw [next_lose h]
    exact ⟨hsame _, rfl, rfl, Nat.le_refl _⟩
  | reprocessEvent e now =>
    cases h
    refine ⟨?_, rfl, rfl, Nat.le_refl _⟩
    dsimp only [RelayAct.rewrite, RelayAct.adds]
    rw [List.append_nil]
    refine Eq.trans ?_ (congrFun (List.filterMap_eq_map' ..) _).symm
    exact List.map_congr_left fun r _ => by simp only [decide_eq_true_eq]
  | purge cutoff =>
    cases h
    refine ⟨?_, rfl, rfl, Nat.le_refl _⟩
    dsimp only [RelayAct.rewrite, RelayAct.adds]
    rw [List.append_nil]
    show s.rows.rows.filter _ = _
    rw [← List.filterMap_eq_filter]
    refine List.filterMap_congr fun r _ => ?_
    cases hp : r.purgeable cutoff <;> simp [hp, Option.guard]

/-! ## 5. The locks -/

theorem settle_id (random : UUID → Nat) (b : Batch) (r : OutboxRow) :
    (b.settle m random r).id = r.id ∧ (b.settle m random r).eventID = r.eventID := by
  have hmark : (b.mark r).id = r.id := by
    unfold Batch.mark
    split <;> rfl
  unfold Batch.settle
  split
  · exact ⟨hmark, b.mark_eventID r⟩
  · exact ⟨hmark, b.mark_eventID r⟩

/-- A row that stays is as it was, except after the commit of a batch and after ReprocessEvent. -/
theorem rewrite_cases (h : a.rewrite m s r = some r') :
    r' = r ∨
      (∃ x random b, a = .commit x random ∧ s.batches.get? x = some b ∧ r' = b.settle m random r) ∨
      r.eventType = .eventDeadLetter ∧ ∃ now, r' = r.reprocess now := by
  cases a with
  | commit x random =>
    cases h
    cases hb : s.batches.get? x with
    | none => exact .inl rfl
    | some b => exact .inr (.inl ⟨x, random, b, rfl, hb, rfl⟩)
  | reprocessEvent e now =>
    cases h
    split
    · next hp => exact .inr (.inr ⟨hp.2, now, rfl⟩)
    · exact .inl rfl
  | purge cutoff =>
    dsimp only [RelayAct.rewrite] at h
    split at h
    · cases h
    · exact .inl (Option.some.inj h).symm
  | _ => exact .inl (Option.some.inj h).symm

theorem rewrite_id (h : a.rewrite m s r = some r') : r'.id = r.id ∧ r'.eventID = r.eventID := by
  rcases rewrite_cases h with rfl | ⟨x, random, b, _, _, rfl⟩ | ⟨_, now, rfl⟩
  · exact ⟨rfl, rfl⟩
  · exact settle_id random b r
  · exact ⟨rfl, rfl⟩

theorem mem_next (h : relayNext m s a = some t) : r' ∈ t.rows.rows ↔
    (∃ r ∈ s.rows.rows, a.rewrite m s r = some r') ∨ r' ∈ a.adds s := by
  rw [(advances h).rows, List.mem_append, List.mem_filterMap]

theorem settle_other (random : UUID → Nat) (h : r.eventID ∉ b.rows.map (·.eventID)) :
    b.settle m random r = r := by
  unfold Batch.rows at h
  simp only [List.map_append, List.mem_append, not_or, List.map_map] at h
  have herr : b.errorOf r.eventID = none := by
    refine List.lookup_eq_none_iff.mpr fun f hf => ?_
    obtain ⟨g, hg, rfl⟩ := List.mem_map.mp hf
    exact bne_iff_ne.mpr fun he => h.1.2 (List.mem_map.mpr ⟨g, hg, he.symm⟩)
  unfold Batch.settle Batch.mark
  rw [herr, if_neg h.1.1]

/-- A row that waits for its delivery is changed by the batch that has claimed it only. -/
theorem rewrite_waiting (hd : r.delivered = false) (ht : r.eventType ≠ .eventDeadLetter)
    (hc : ∀ x random b, a = .commit x random → s.batches.get? x = some b →
      r.eventID ∉ b.rows.map (·.eventID)) : a.rewrite m s r = some r := by
  cases a with
  | commit x random =>
    dsimp only [RelayAct.rewrite]
    cases hb : s.batches.get? x with
    | none => rfl
    | some b => rw [Option.map_some, Option.getD_some, settle_other random (hc x random b rfl hb)]
  | reprocessEvent e now => exact congrArg some (if_neg fun h => ht h.2)
  | purge cutoff =>
    refine if_neg fun h => ?_
    rw [OutboxRow.purgeable, hd] at h
    cases h
  | _ => rfl

theorem publish_rows (err : Option String) (b : Batch) : (b.publish err).rows.Perm b.rows := by
  unfold Batch.publish Batch.rows
  cases hc : b.claims with
  | nil => simp [hc]
  | cons c cs =>
    cases err with
    | none =>
      dsimp only
      rw [List.append_assoc, List.append_assoc, List.append_assoc, List.singleton_append]
      exact List.Perm.append_left _ List.perm_middle.symm
    | some e =>
      dsimp only
      rw [List.map_append, List.append_assoc, List.append_assoc, List.append_assoc]
      exact List.Perm.refl _

theorem publish_delivered (h : r ∈ (b.publish err).delivered) :
    r ∈ b.delivered ∨ err = none ∧ b.claims.head? = some r := by
  unfold Batch.publish at h
  cases hc : b.claims with
  | nil =>
    rw [hc] at h
    exact .inl h
  | cons c cs =>
    rw [hc] at h
    cases err with
    | none =>
      refine (List.mem_append.mp h).imp_right fun hr => ⟨rfl, ?_⟩
      rw [List.mem_singleton.mp hr]
      rfl
    | some e => exact .inl h

/-- A batch goes on from the step before, or it has just been started. -/
inductive Continues (s t : Outbox) (b' : Batch) (a : RelayAct) : Prop
  | same (b : Batch) (hb : b ∈ s.batches.rows) (tx : b'.tx = b.tx)
      (held : b'.held = true → b.held = true) (rows : b'.rows.Perm b.rows)
      (told : ∀ r ∈ b'.delivered, r ∈ b.delivered ∨ .published b'.tx r.id none ∈ t.deeds)
      (other : ∀ random, a ≠ .commit b.tx random)
  | started (limit : Nat) (seen : OutboxRow → Bool) (now : Time) (ha : a = .claim limit seen now)
      (hb : b' = ⟨s.nextTx, now, true, claimUndeliveredEvents s limit seen now, [], []⟩)
      (tx : t.nextTx = s.nextTx + 1)

theorem batch_next (h : relayNext m s a = some t) (hb : b ∈ t.batches.rows) :
    Continues s t b a := by
  have hold : ∀ {b : Batch}, b ∈ s.batches.rows → (∀ random, a ≠ .commit b.tx random) →
      Continues s t b a := fun hb ho => .same _ hb rfl id (List.Perm.refl _) (fun r => .inl) ho
  cases a with
  | insertEvent e now =>
    obtain ⟨-, rfl⟩ := next_insertEvent h
    exact hold hb (by simp)
  | claim limit seen now =>
    rw [next_claim h] at hb ⊢
    generalize hcs : claimUndeliveredEvents s limit seen now = cs at hb ⊢
    cases cs with
    | nil => exact .same b hb rfl id (List.Perm.refl _) (fun r => .inl) (by simp)
    | cons c cs =>
      rcases Table.mem_of_mem_insert hb with hb | rfl
      · exact .same b hb rfl id (List.Perm.refl _) (fun r => .inl) (by simp)
      · exact .started limit seen now rfl (by rw [hcs]) rfl
  | publish x err =>
    obtain ⟨c, r, hc, hr, rfl⟩ := next_publish h
    obtain ⟨b, hbs, rfl⟩ := List.mem_map.mp hb
    split
    · next hx =>
      have hbx := of_decide_eq_true hx
      have hget := Table.mem_rows_iff.mp hbs
      rw [hbx, hc] at hget
      cases hget
      refine .same c hbs (c.publish_tx err) (fun h => by rwa [Batch.publish_held] at h)
        (publish_rows err c) (fun q hq => ?_) (by simp)
      rcases publish_delivered hq with hq | ⟨rfl, hhead⟩
      · exact .inl hq
      · rw [hr] at hhead
        cases hhead
        rw [Batch.publish_tx, hbx]
        exact .inr List.mem_cons_self
    · exact hold hbs (by simp)
  | commit x random =>
    obtain ⟨c, hc, -, -, rfl⟩ := next_commit h
    obtain ⟨hb, hne⟩ := Table.mem_erase.mp hb
    refine hold hb fun random' hcom => hne ?_
    rw [Table.key_of_get? hc]
    injection hcom with hx
    exact hx.symm
  | rollback x =>
    rw [next_rollback h] at hb ⊢
    exact .same b (Table.mem_erase.mp hb).1 rfl id (List.Perm.refl _) (fun r => .inl) (by simp)
  | lose x =>
    rw [next_lose h] at hb ⊢
    obtain ⟨b, hbs, rfl⟩ := List.mem_map.mp hb
    split
    · exact .same b hbs rfl (by simp) (List.Perm.refl _) (fun r => .inl) (by simp)
    · exact .same b hbs rfl id (List.Perm.refl _) (fun r => .inl) (by simp)
  | reprocessEvent e now =>
    cases h
    exact hold hb (by simp)
  | purge cutoff =>
    cases h
    exact hold hb (by simp)

/-- The rows are numbered in order. Every row that an open transaction has claimed is locked: it
is as it was claimed, still to be delivered, and claimed by that transaction only. What a batch
counts as delivered, Publish has accepted from it. -/
structure Outbox.Sound (s : Outbox) : Prop where
  ordered : s.rows.rows.Pairwise (·.id < ·.id)
  numbered : ∀ r ∈ s.rows.rows, r.id < s.nextID
  opened : ∀ b ∈ s.batches.rows, b.tx < s.nextTx
  current : ∀ b ∈ s.batches.rows, b.held = true → ∀ r ∈ b.rows,
    r ∈ s.rows.rows ∧ r.delivered = false ∧ r.eventType ≠ .eventDeadLetter
  once : ∀ b ∈ s.batches.rows, (b.rows.map (·.eventID)).Nodup
  apart : ∀ b ∈ s.batches.rows, ∀ c ∈ s.batches.rows, b.held = true → c.held = true →
    b.tx ≠ c.tx → ∀ r ∈ b.rows, r.eventID ∉ c.rows.map (·.eventID)
  told : ∀ b ∈ s.batches.rows, ∀ r ∈ b.delivered, .published b.tx r.id none ∈ s.deeds

theorem Outbox.Sound.eq_of_id (hs : s.Sound) (hr : r ∈ s.rows.rows) (hr' : r' ∈ s.rows.rows)
    (hid : r.id = r'.id) : r = r' := by
  have hnodup : (s.rows.rows.map (·.id)).Nodup :=
    List.pairwise_map.mpr (hs.ordered.imp Nat.ne_of_lt)
  exact List.inj_on_of_nodup_map hnodup hr hr' hid

theorem locks_empty : Outbox.Sound .empty where
  ordered := .nil
  numbered := by simp [Outbox.empty, Table.empty]
  opened := by simp [Outbox.empty, Table.empty]
  current := by simp [Outbox.empty, Table.empty]
  once := by simp [Outbox.empty, Table.empty]
  apart := by simp [Outbox.empty, Table.empty]
  told := by simp [Outbox.empty, Table.empty]

theorem mem_claim (h : r ∈ claimUndeliveredEvents s limit seen now) :
    r ∈ s.rows.rows ∧ r.due now = true ∧
      s.locked r.eventID = false := by
  obtain ⟨hm, hp⟩ := List.mem_filter.mp (List.mem_of_mem_take h)
  simp only [Bool.and_eq_true, Bool.not_eq_true'] at hp
  exact ⟨hm, hp.1.2, hp.2⟩

theorem locks_ordered (hs : s.Sound) (h : relayNext m s a = some t) :
    t.rows.rows.Pairwise (·.id < ·.id) ∧ ∀ r ∈ t.rows.rows, r.id < t.nextID := by
  have hid := (advances h).nextID
  have hold : ∀ r' ∈ s.rows.rows.filterMap fun r => a.rewrite m s r, r'.id < s.nextID := by
    intro r' hr'
    obtain ⟨r, hr, hw⟩ := List.mem_filterMap.mp hr'
    rw [(rewrite_id hw).1]
    exact hs.numbered r hr
  have hnew : ∀ r ∈ a.adds s, r.id = s.nextID ∧ (a.adds s).length = 1 := by
    intro r hr
    cases a with
    | insertEvent e now => exact ⟨by rw [List.mem_singleton.mp hr]; rfl, rfl⟩
    | _ => cases hr
  rw [(advances h).rows]
  constructor
  · refine List.pairwise_append.mpr ⟨?_, ?_, fun r hr r' hr' => ?_⟩
    · refine hs.ordered.filterMap _ fun r r' hlt q hq q' hq' => ?_
      rw [(rewrite_id hq).1, (rewrite_id hq').1]
      exact hlt
    · cases a with
      | insertEvent e now => exact List.pairwise_singleton _ _
      | _ => exact .nil
    · rw [(hnew r' hr').1]
      exact hold r hr
  · intro r hr
    rcases List.mem_append.mp hr with hr | hr
    · exact Nat.lt_of_lt_of_le (hold r hr) (hid ▸ Nat.le_add_right _ _)
    · rw [(hnew r hr).1, hid, (hnew r hr).2]
      exact Nat.lt_succ_self _

theorem locks_current (hs : s.Sound) (h : relayNext m s a = some t) (hb : b ∈ t.batches.rows)
    (hheld : b.held = true) (hr : r ∈ b.rows) :
    r ∈ t.rows.rows ∧ r.delivered = false ∧ r.eventType ≠ .eventDeadLetter := by
  cases batch_next h hb with
  | same c hc htx hh hrows _ hother =>
    have hrc := hrows.mem_iff.mp hr
    obtain ⟨hmem, hd, ht⟩ := hs.current c hc (hh hheld) r hrc
    refine ⟨(mem_next h).mpr (.inl ⟨r, hmem, rewrite_waiting hd ht ?_⟩), hd, ht⟩
    -- the batch that commits is another one, and it holds other rows
    intro x random d ha hd
    subst ha
    obtain ⟨d', hd', hheld', -, -⟩ := next_commit h
    rw [hd] at hd'
    cases hd'
    refine hs.apart c hc d (Table.mem_of_get? hd) (hh hheld) hheld' (fun htx' => ?_) r hrc
    refine hother random ?_
    rw [htx', Table.key_of_get? hd]
  | started limit seen now ha hb' =>
    subst ha hb'
    obtain ⟨hmem, hdue, -⟩ := mem_claim (List.mem_append.mp hr |>.resolve_left (by simp))
    unfold OutboxRow.due at hdue
    simp only [Bool.and_eq_true, Bool.not_eq_true', decide_eq_true_eq] at hdue
    exact ⟨(mem_next h).mpr (.inl ⟨r, hmem, rfl⟩), hdue.1.1, hdue.1.2⟩

theorem locked_of_held (hb : b ∈ s.batches.rows) (hheld : b.held = true) (hr : r ∈ b.rows) :
    s.locked r.eventID = true := by
  refine List.any_eq_true.mpr ⟨b, hb, ?_⟩
  rw [hheld, Bool.true_and]
  exact List.any_eq_true.mpr ⟨r, hr, decide_eq_true rfl⟩

/-- A claim skips the rows that another transaction has locked. -/
theorem claim_apart (hb : b ∈ s.batches.rows) (hheld : b.held = true) (hr : r ∈ b.rows)
    (hr' : r' ∈ claimUndeliveredEvents s limit seen now) : r.eventID ≠ r'.eventID := by
  intro he
  have hfree := (mem_claim hr').2.2
  rw [← he, locked_of_held hb hheld hr] at hfree
  cases hfree

theorem locks_apart (hs : s.Sound) (h : relayNext m s a = some t) {c : Batch}
    (hb : b ∈ t.batches.rows) (hc : c ∈ t.batches.rows) (hbh : b.held = true) (hch : c.held = true)
    (hne : b.tx ≠ c.tx) (hr : r ∈ b.rows) (hr' : r' ∈ c.rows) : r.eventID ≠ r'.eventID := by
  cases batch_next h hb with
  | same b₀ hb₀ htx hh hrows _ _ =>
    have hr₀ := hrows.mem_iff.mp hr
    cases batch_next h hc with
    | same c₀ hc₀ htx' hh' hrows' _ _ =>
      rw [htx, htx'] at hne
      intro he
      exact hs.apart b₀ hb₀ c₀ hc₀ (hh hbh) (hh' hch) hne r hr₀
        (List.mem_map.mpr ⟨r', hrows'.mem_iff.mp hr', he.symm⟩)
    | started limit seen now ha hc' =>
      subst hc'
      exact claim_apart hb₀ (hh hbh) hr₀ (List.mem_append.mp hr' |>.resolve_left (by simp))
  | started limit seen now ha hb' =>
    subst hb'
    have hr₀ := List.mem_append.mp hr |>.resolve_left (by simp)
    cases batch_next h hc with
    | same c₀ hc₀ htx' hh' hrows' _ _ =>
      exact (claim_apart hc₀ (hh' hch) (hrows'.mem_iff.mp hr') hr₀).symm
    | started limit' seen' now' ha' hc' =>
      subst hc'
      exact absurd rfl hne

theorem locks_next (hs : s.Sound) (h : relayNext m s a = some t) : t.Sound where
  ordered := (locks_ordered hs h).1
  numbered := (locks_ordered hs h).2
  opened b hb := by
    cases batch_next h hb with
    | same c hc htx _ _ _ _ =>
      rw [htx]
      exact Nat.lt_of_lt_of_le (hs.opened c hc) (advances h).nextTx
    | started limit seen now ha hb' htx =>
      rw [hb', htx]
      exact Nat.lt_succ_self _
  current b hb hheld r hr := locks_current hs h hb hheld hr
  once b hb := by
    cases batch_next h hb with
    | same c hc _ _ hrows _ _ => exact (hrows.map _).nodup_iff.mpr (hs.once c hc)
    | started limit seen now ha hb' _ =>
      subst hb'
      exact s.rows.nodup.sublist (((List.take_sublist ..).trans List.filter_sublist).map _)
  apart b hb c hc hbh hch hne r hr hmem := by
    obtain ⟨r', hr', he⟩ := List.mem_map.mp hmem
    exact locks_apart hs h hb hc hbh hch hne hr hr' he.symm
  told b hb r hr := by
    cases batch_next h hb with
    | same c hc htx _ _ htold _ =>
      rcases htold r hr with hr | hr
      · rw [(advances h).deeds, htx]
        exact List.mem_append_right _ (hs.told c hc r hr)
      · exact hr
    | started limit seen now ha hb' _ =>
      subst hb'
      cases hr

theorem locks_run {as : List RelayAct} (h : Run (RelayStep m) .empty as s) : s.Sound :=
  h.invariant (fun _ _ _ hs h => locks_next hs h) locks_empty

end Step

end KubeMapReduce
