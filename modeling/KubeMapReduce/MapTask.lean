import Mathlib.Data.List.Sort
import Mathlib.Logic.Function.Basic
import KubeMapReduce.Hash

/-!
# The partition phase of a Map task

The last part of the worker's runMap: the sorted (and combined) records are read line by
line, each line goes to the writer of its key's partition, a writer is opened with the
first record of its partition, and at the end the writers are closed in ascending order.
What CompleteTask gets are the URIs and checksums that the writers return.

* `Written.lines`: after the loop every partition with a record has a writer, and the
  writer has the lines of its records.
* `runMap_outputs`: the returned lists are those of the partitions with a record, in
  ascending order; a partition without records leaves no gap.
* `mem_written`: a record lies in the object of its own partition and in no other.
-/

namespace KubeMapReduce

variable {out : List String × List String} {p : Nat}

/-! ## 1. Writers -/

/-- A line of a JSONL stream, without its newline. -/
abbrev Line := List UInt8

structure Record where
  key : String
  value : String
deriving DecidableEq

/-- A worker, with the functions of Go's libraries that it uses. -/
structure Worker where
  /-- A client of the shuffle service is configured. -/
  hasShuffleClient : Bool
  /-- `len(bytes.TrimSpace(line)) == 0`. -/
  blank : Line → Bool
  /-- `json.Unmarshal` into a record. -/
  decode : Line → Option Record
  /-- The SHA-256 of the bytes in hex. -/
  sha256Hex : List UInt8 → String
  blank_newline : blank [10] = true

/-- The fields of the assignment that the partition phase reads. -/
structure TaskAssignment where
  jobID : String
  taskID : String
  totalReducers : Int

def stagingBucket : String := "mapreduce-staging"

def newlineBytes : Line := [10]

/-- An open writer; `written` are the arguments of its Write calls. -/
structure PartitionWriter where
  jobID : String
  taskID : String
  partitionID : Nat
  written : List Line
deriving DecidableEq

def openPartitionWriter (a : TaskAssignment) (p : Nat) : PartitionWriter :=
  ⟨a.jobID, a.taskID, p, []⟩

def PartitionWriter.write (pw : PartitionWriter) (bytes : Line) : PartitionWriter :=
  { pw with written := pw.written ++ [bytes] }

/-- The URI and the checksum that Close returns. -/
def PartitionWriter.close (w : Worker) (pw : PartitionWriter) : String × String :=
  (if w.hasShuffleClient then s!"shuffle://{pw.jobID}/{pw.partitionID}"
    else s!"s3://{stagingBucket}/{pw.jobID}/{pw.taskID}/partition-{pw.partitionID}.jsonl",
    w.sha256Hex pw.written.flatten)

theorem repr_inj {m n : Nat} (h : m.repr = n.repr) : m = n := by
  rw [Nat.repr_eq_ofList_toDigits, Nat.repr_eq_ofList_toDigits] at h
  have hread := congrArg (Nat.ofDigitChars 10 · 0) (String.ofList_injective h)
  simpa only [Nat.ofDigitChars_ten_toDigits] using hread

/-- The URI of a partition determines it. -/
theorem close_uri_inj {w : Worker} {pw pw' : PartitionWriter} (hj : pw.jobID = pw'.jobID)
    (ht : pw.taskID = pw'.taskID) (h : (pw.close w).1 = (pw'.close w).1) :
    pw.partitionID = pw'.partitionID := by
  refine repr_inj ?_
  unfold PartitionWriter.close at h
  rw [hj, ht] at h
  split at h
  · simpa [String.append_assoc, String.append_right_inj] using h
  · simpa [String.append_assoc, String.append_right_inj, String.append_left_inj] using h

/-! ## 2. The loop -/

inductive MapErr where
  | decodeSortedRecord
deriving DecidableEq

/-- The open writers by partition, and the partitions in the order in which they were
opened. -/
structure Partitions where
  writers : Nat → Option PartitionWriter
  openOrder : List Nat

def Partitions.empty : Partitions := ⟨fun _ => none, []⟩

/-- One record goes to the writer of its partition. -/
def Partitions.add (a : TaskAssignment) (st : Partitions) (p : Nat) (line : Line) : Partitions :=
  match st.writers p with
  | some pw =>
    { st with writers := Function.update st.writers p ((pw.write line).write newlineBytes) }
  | none =>
    { writers := Function.update st.writers p
        (((openPartitionWriter a p).write line).write newlineBytes)
      openOrder := st.openOrder ++ [p] }

def partitionLines (w : Worker) (a : TaskAssignment) (R : Nat) :
    List Line → Partitions → Except MapErr Partitions
  | [], st => .ok st
  | line :: rest, st =>
    if w.blank line then partitionLines w a R rest st else
    match w.decode line with
    | none => .error .decodeSortedRecord
    | some rec => partitionLines w a R rest (st.add a (hashPartition rec.key R) line)

/-- Insertion sort: `v` goes behind the last element of the sorted part that is not
greater. The sorted part is kept in reverse. -/
def sortInts (xs : List Nat) : List Nat :=
  (xs.foldl (fun sorted v => sorted.orderedInsert (· ≥ ·) v) []).reverse

/-- The number of reducers of the assignment. -/
def TaskAssignment.reducers (a : TaskAssignment) : Nat :=
  if a.totalReducers ≤ 0 then 1 else a.totalReducers.toNat

/-- The partition phase of runMap, on the lines of the sorted stream. -/
def runMap (w : Worker) (a : TaskAssignment) (lines : List Line) :
    Except MapErr (List String × List String) :=
  match partitionLines w a a.reducers lines .empty with
  | .error e => .error e
  | .ok st =>
    let closed := (sortInts st.openOrder).filterMap fun i => (st.writers i).map (·.close w)
    .ok (closed.map Prod.fst, closed.map Prod.snd)

/-! ## 3. What the loop has written -/

/-- The records of a stream, with their lines. -/
def Worker.recordsOf (w : Worker) (lines : List Line) : List (Line × Record) :=
  lines.filterMap fun line => if w.blank line then none else (w.decode line).map (line, ·)

/-- The records of a partition. -/
def bucket (R p : Nat) (recs : List (Line × Record)) : List (Line × Record) :=
  recs.filter fun r => decide (hashPartition r.2.key R = p)

/-- The writer of a partition after these records. -/
def writerOf (a : TaskAssignment) (p : Nat) (recs : List (Line × Record)) : PartitionWriter :=
  ⟨a.jobID, a.taskID, p, recs.flatMap fun r => [r.1, newlineBytes]⟩

/-- The state of the loop after `recs`: a writer for every partition with a record. -/
structure Written (a : TaskAssignment) (R : Nat) (recs : List (Line × Record)) (st : Partitions) :
    Prop where
  writers : ∀ p, st.writers p =
    if bucket R p recs = [] then none else some (writerOf a p (bucket R p recs))
  nodup : st.openOrder.Nodup
  order : ∀ p, p ∈ st.openOrder ↔ bucket R p recs ≠ []

section Loop

variable {w : Worker} {a : TaskAssignment} {R : Nat} {recs : List (Line × Record)}
  {st : Partitions}

theorem bucket_append (p : Nat) (r : Line × Record) :
    bucket R p (recs ++ [r]) =
      if hashPartition r.2.key R = p then bucket R p recs ++ [r] else bucket R p recs := by
  unfold bucket
  rw [List.filter_append, List.filter_singleton]
  by_cases h : hashPartition r.2.key R = p <;> simp [h]

theorem writerOf_append (p : Nat) (r : Line × Record) :
    writerOf a p (recs ++ [r]) = ((writerOf a p recs).write r.1).write newlineBytes := by
  simp [writerOf, PartitionWriter.write]

theorem Partitions.add_writers (p : Nat) (line : Line) :
    (st.add a p line).writers = Function.update st.writers p
      (((((st.writers p).getD (openPartitionWriter a p)).write line).write newlineBytes)) := by
  unfold Partitions.add
  cases st.writers p <;> rfl

theorem Partitions.add_openOrder (p : Nat) (line : Line) :
    (st.add a p line).openOrder =
      if st.writers p = none then st.openOrder ++ [p] else st.openOrder := by
  unfold Partitions.add
  cases st.writers p <;> rfl

theorem Written.writers_eq_none (h : Written a R recs st) (p : Nat) :
    st.writers p = none ↔ bucket R p recs = [] := by
  rw [h.writers]
  split <;> simp_all

/-- The writer that the next record of a partition goes to. -/
theorem Written.current (h : Written a R recs st) (p : Nat) :
    (st.writers p).getD (openPartitionWriter a p) = writerOf a p (bucket R p recs) := by
  rw [h.writers]
  split
  · next hnil => rw [hnil]; rfl
  · rfl

/-- One record keeps the state of the loop. -/
theorem Written.add (h : Written a R recs st) (line : Line) (rec : Record) :
    Written a R (recs ++ [(line, rec)]) (st.add a (hashPartition rec.key R) line) := by
  have hne : bucket R (hashPartition rec.key R) (recs ++ [(line, rec)]) ≠ [] := by
    rw [bucket_append, if_pos rfl]
    exact List.append_ne_nil_of_right_ne_nil _ nofun
  have hother : ∀ {p}, p ≠ hashPartition rec.key R →
      bucket R p (recs ++ [(line, rec)]) = bucket R p recs :=
    fun hp => by rw [bucket_append, if_neg fun he => hp he.symm]
  refine ⟨fun p => ?_, ?_, fun p => ?_⟩
  · rw [Partitions.add_writers, h.current, ← writerOf_append _ (line, rec)]
    by_cases hp : p = hashPartition rec.key R
    · subst hp
      rw [Function.update_self, if_neg hne, bucket_append, if_pos rfl]
    · rw [Function.update_of_ne hp, hother hp, h.writers]
  · rw [Partitions.add_openOrder]
    split
    · next hnone =>
      have hnew := (h.writers_eq_none _).mp hnone
      refine List.nodup_append.mpr ⟨h.nodup, List.nodup_singleton _, ?_⟩
      intro p hp p' hp' he
      rw [List.mem_singleton.mp hp'] at he
      exact (h.order p).mp hp (he ▸ hnew)
    · exact h.nodup
  · rw [Partitions.add_openOrder]
    by_cases hp : p = hashPartition rec.key R
    · subst hp
      refine iff_of_true ?_ hne
      split
      · exact List.mem_append_right _ (List.mem_singleton_self _)
      · next hsome => exact (h.order _).mpr fun hnil => hsome ((h.writers_eq_none _).mpr hnil)
    · rw [hother hp, ← h.order]
      split
      · rw [List.mem_append, List.mem_singleton, or_iff_left hp]
      · exact Iff.rfl

/-- The whole loop. -/
theorem Written.lines {lines : List Line} {st' : Partitions} (h : Written a R recs st)
    (hok : partitionLines w a R lines st = .ok st') :
    Written a R (recs ++ w.recordsOf lines) st' := by
  induction lines generalizing recs st with
  | nil =>
    cases hok
    rw [Worker.recordsOf, List.filterMap_nil, List.append_nil]
    exact h
  | cons line rest ih =>
    unfold partitionLines at hok
    by_cases hb : w.blank line = true
    · rw [if_pos hb] at hok
      have hrecs : w.recordsOf (line :: rest) = w.recordsOf rest := by simp [Worker.recordsOf, hb]
      rw [hrecs]
      exact ih h hok
    · rw [if_neg hb] at hok
      cases hd : w.decode line with
      | none =>
        rw [hd] at hok
        cases hok
      | some rec =>
        rw [hd] at hok
        have hrecs : w.recordsOf (line :: rest) = (line, rec) :: w.recordsOf rest := by
          simp [Worker.recordsOf, hb, hd]
        rw [hrecs, List.append_cons]
        exact ih (h.add line rec) hok

theorem written_empty : Written a R [] .empty :=
  ⟨fun _ => rfl, .nil, fun _ => by simp [bucket, Partitions.empty]⟩

end Loop

/-! ## 4. What runMap returns -/

theorem sortInts_perm (xs : List Nat) : (sortInts xs).Perm xs := by
  have hstep : ∀ sorted : List Nat,
      (xs.foldl (fun sorted v => sorted.orderedInsert (· ≥ ·) v) sorted).Perm (sorted ++ xs) := by
    induction xs with
    | nil => exact fun sorted => by rw [List.append_nil]; rfl
    | cons v xs ih =>
      intro sorted
      refine (ih _).trans (((List.perm_orderedInsert _ v sorted).append_right xs).trans ?_)
      exact List.perm_middle.symm
  exact (List.reverse_perm _).trans (hstep [])

theorem sortInts_ascending (xs : List Nat) : (sortInts xs).Pairwise (· ≤ ·) := by
  have hstep : ∀ sorted : List Nat, sorted.Pairwise (· ≥ ·) →
      (xs.foldl (fun sorted v => sorted.orderedInsert (· ≥ ·) v) sorted).Pairwise (· ≥ ·) := by
    induction xs with
    | nil => exact fun _ h => h
    | cons v xs ih => exact fun sorted h => ih _ (h.orderedInsert v sorted)
  exact List.pairwise_reverse.mpr (hstep [] .nil)

/-- The partitions that some record goes to, in ascending order. -/
def partitionsOf (R : Nat) (recs : List (Line × Record)) : List Nat :=
  (List.range R).filter fun p => !(bucket R p recs).isEmpty

theorem partitionsOf_ascending (R : Nat) (recs : List (Line × Record)) :
    (partitionsOf R recs).Pairwise (· < ·) :=
  List.pairwise_lt_range.filter _

theorem mem_bucket {R : Nat} {recs : List (Line × Record)} {r : Line × Record} :
    r ∈ bucket R p recs ↔ r ∈ recs ∧ hashPartition r.2.key R = p := by
  rw [bucket, List.mem_filter, decide_eq_true_iff]

theorem mem_partitionsOf {R : Nat} (hR : 0 < R) {recs : List (Line × Record)} :
    p ∈ partitionsOf R recs ↔ bucket R p recs ≠ [] := by
  simp only [partitionsOf, List.mem_filter, List.mem_range, Bool.not_eq_true',
    List.isEmpty_eq_false_iff, and_iff_right_iff_imp]
  intro hne
  obtain ⟨r, hr⟩ := List.exists_mem_of_ne_nil _ hne
  rw [← (mem_bucket.mp hr).2]
  exact hashPartition_lt _ hR

section Outputs

variable {w : Worker} {a : TaskAssignment} {lines : List Line}

theorem reducers_pos (a : TaskAssignment) : 0 < a.reducers := by
  unfold TaskAssignment.reducers
  split <;> omega

/-- The object that the task writes for a partition. -/
def objectOf (w : Worker) (a : TaskAssignment) (lines : List Line) (p : Nat) : PartitionWriter :=
  writerOf a p (bucket a.reducers p (w.recordsOf lines))

/-- The task has this writer when its loop has ended. -/
def Wrote (w : Worker) (a : TaskAssignment) (lines : List Line) (pw : PartitionWriter) : Prop :=
  ∃ st p, partitionLines w a a.reducers lines .empty = .ok st ∧ st.writers p = some pw

theorem runMap_cases (h : runMap w a lines = .ok out) :
    ∃ st, partitionLines w a a.reducers lines .empty = .ok st ∧
      Written a a.reducers (w.recordsOf lines) st ∧
      ((sortInts st.openOrder).filterMap fun i => (st.writers i).map (·.close w)).unzip = out := by
  unfold runMap at h
  split at h
  · cases h
  · next st hst =>
    cases h
    exact ⟨st, hst, written_empty.lines hst, List.unzip_eq_map⟩

/-- The outputs are those of the partitions with records, in ascending order. -/
theorem runMap_outputs (h : runMap w a lines = .ok out) :
    out = ((partitionsOf a.reducers (w.recordsOf lines)).map fun p =>
      (objectOf w a lines p).close w).unzip := by
  obtain ⟨st, _, hst, rfl⟩ := runMap_cases h
  have horder : sortInts st.openOrder = partitionsOf a.reducers (w.recordsOf lines) := by
    refine List.Perm.eq_of_pairwise' (sortInts_ascending _)
      ((partitionsOf_ascending _ _).imp Nat.le_of_lt) ((sortInts_perm _).trans ?_)
    refine (List.perm_ext_iff_of_nodup hst.nodup (partitionsOf_ascending _ _).nodup).mpr fun p => ?_
    rw [hst.order, mem_partitionsOf (reducers_pos a)]
  rw [horder, ← List.filterMap_eq_map]
  congr 1
  refine List.filterMap_congr fun p hp => ?_
  rw [hst.writers, if_neg ((mem_partitionsOf (reducers_pos a)).mp hp)]
  rfl

/-- A partition has an object if it has a record. -/
theorem wrote_iff (h : runMap w a lines = .ok out) {pw : PartitionWriter} : Wrote w a lines pw ↔
      ∃ p ∈ partitionsOf a.reducers (w.recordsOf lines), pw = objectOf w a lines p := by
  obtain ⟨st, hst, hw, _⟩ := runMap_cases h
  have hp : ∀ p, st.writers p = some pw ↔
      p ∈ partitionsOf a.reducers (w.recordsOf lines) ∧ pw = objectOf w a lines p := by
    intro p
    rw [hw.writers, mem_partitionsOf (reducers_pos a)]
    split
    · next hnil => exact iff_of_false nofun fun h => h.1 hnil
    · next hne => rw [Option.some.injEq, eq_comm]; exact (and_iff_right hne).symm
  constructor
  · rintro ⟨st', p, hst', hpw⟩
    cases hst.symm.trans hst'
    exact ⟨p, (hp p).mp hpw⟩
  · rintro ⟨p, hpw⟩
    exact ⟨st, p, hst, (hp p).mpr hpw⟩

/-- A record lies in the object of its own partition and in no other. -/
theorem mem_written {r : Line × Record} (hr : r ∈ w.recordsOf lines) :
    r.1 ∈ (objectOf w a lines p).written ↔ hashPartition r.2.key a.reducers = p := by
  have hdec : ∀ {r : Line × Record}, r ∈ w.recordsOf lines →
      w.blank r.1 = false ∧ w.decode r.1 = some r.2 := by
    intro r hr
    obtain ⟨line, _, hline⟩ := List.mem_filterMap.mp hr
    split at hline
    · cases hline
    · next hb =>
      obtain ⟨rec, hrec, rfl⟩ := Option.map_eq_some_iff.mp hline
      exact ⟨Bool.eq_false_iff.mpr hb, hrec⟩
  constructor
  · intro hmem
    obtain ⟨r', hr', hline⟩ := List.mem_flatMap.mp hmem
    obtain ⟨hin, rfl⟩ := mem_bucket.mp hr'
    rcases List.mem_pair.mp hline with he | he
    · have hrec := (hdec hr).2
      rw [he, (hdec hin).2] at hrec
      rw [Option.some.inj hrec]
    · have hblank := (hdec hr).1
      rw [he, newlineBytes, w.blank_newline] at hblank
      cases hblank
  · intro hp
    exact List.mem_flatMap.mpr ⟨r, mem_bucket.mpr ⟨hr, hp⟩, List.mem_cons_self⟩

end Outputs

end KubeMapReduce
