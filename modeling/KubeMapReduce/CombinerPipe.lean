import KubeMapReduce.MapExits

/-!
# The pipe of the combiner's merge

At every exit of runMap the goroutines end and the files are removed, unless the merge of the
combiner's sorter has written something that nobody has read: its reader is the one that is never
closed. What this merge writes follows from the output of the two programs and the threshold of the
sorters. Which exit is taken is up to the partition writers, the disk and the schedule.

* `settles_iff`: at an exit, what has to be read.
* `short_partition`, `pending_partition`: what the partition phase leaves unread.
* `runMap_settles_iff`: for which inputs every exit is a clean one. `runMap_waits` is a task with
  another input.
-/

namespace KubeMapReduce

open Exits Lines Runs

variable {r : Record} {s : SpillingSorter}

namespace MapFiles

/-! ## 1. At an exit -/

/-- Nobody waits for a reader of the combiner's merge. -/
def Released (t : Temp) : Prop := ∀ m ∈ t.merges .combiner, m.work.unread = 0

section Reading

variable {t u : Temp} {n : Nat} {code : UserCode} {w : MapWorker} {a : TaskAssignment}
  {env : MapEnv}

theorem released_of_none (h : t.merges .combiner = none) : Released t := by
  intro m hm
  rw [h] at hm
  cases hm

theorem Pending.released (h : Pending 0 t) : Released t := by
  obtain ⟨m, hm, _, hunread⟩ := h
  intro m' hm'
  cases Option.some.inj (hm.symm.trans hm')
  exact hunread

theorem Released.move {a : MergeMove} (h : Released t) (hmove : t.move a = some u) :
    Released u := by
  obtain ⟨code, m, work, hm, rfl, hcases⟩ := move_cases hmove
  intro m' hm'
  obtain ⟨rfl, rfl⟩ | ⟨_, hm'⟩ := mem_update hm'
  · obtain ⟨step, _, hnext⟩ | ⟨_, hmapper, _⟩ := hcases
    · obtain ⟨heq, _⟩ | ⟨rfl, _⟩ := next_cases hnext
      · exact heq.trans (h m hm)
      · rfl
    · cases hmapper
  · exact h m' hm'

/-- Lines are read by the scanner only; the merge can fail before. -/
theorem Pending.move {a : MergeMove} (h : Pending n t) (hmove : t.move a = some u) :
    (Pending n u ∨ Released u) ∧ (a ≠ .own .combiner .fail → Pending n u) := by
  obtain ⟨m, hm, hopen, hunread⟩ := h
  obtain ⟨code, m', work, hm', rfl, hcases⟩ := move_cases hmove
  by_cases hcode : UserCode.combiner = code
  · subst hcode
    cases Option.some.inj (hm.symm.trans hm')
    obtain ⟨step, rfl, hnext⟩ | ⟨_, hmapper, _⟩ := hcases
    · obtain ⟨heq, _⟩ | ⟨rfl, hfail⟩ := next_cases hnext
      · have hkept : Pending n (t.advance .combiner m work) :=
          ⟨_, advance_merges_self, hopen, heq.trans hunread⟩
        exact ⟨.inl hkept, fun _ => hkept⟩
      · refine ⟨.inr (Pending.released ⟨_, advance_merges_self, hopen, rfl⟩), fun hne => ?_⟩
        obtain rfl | hclosed := hfail
        · exact absurd rfl hne
        · rw [hopen] at hclosed
          cases hclosed
    · cases hmapper
  · have hkept : Pending n (t.advance code m' work) :=
      ⟨m, (advance_merges_of_ne hcode).trans hm, hopen, hunread⟩
    exact ⟨.inl hkept, fun _ => hkept⟩

theorem Released.moveAll (h : Released t) (moves : List MergeMove) : Released (t.moveAll moves) :=
  moveAll_invariant (fun _ _ _ _ h => h.move) h

theorem Released.elapse (h : Released t) (env : MapEnv) : Released (t.elapse env) :=
  h.moveAll (env.moves t.clock)

theorem Pending.moveAll {moves : List MergeMove} (h : Pending n t)
    (hmoves : .own .combiner .fail ∉ moves) : Pending n (t.moveAll moves) := by
  refine moveAll_invariant (fun a ha _ _ h hmove => (h.move hmove).2 ?_) h
  rintro rfl
  exact hmoves ha

/-- What is left to read, or nothing, when the merge may fail. -/
def Drains (n : Nat) (t : Temp) : Prop := Pending n t ∨ Released t

theorem Drains.moveAll (h : Drains n t) (moves : List MergeMove) : Drains n (t.moveAll moves) := by
  refine moveAll_invariant (fun _ _ _ _ h hmove => ?_) h
  obtain h | h := h
  · exact (h.move hmove).1
  · exact .inr (h.move hmove)

theorem Drains.elapse (h : Drains n t) (env : MapEnv) : Drains n (t.elapse env) :=
  h.moveAll (env.moves t.clock)

theorem Pending.drive (h : Pending n t) : Pending n (t.drive .combiner .write) := by
  refine h.moveAll fun hfail => ?_
  rcases List.mem_append.mp hfail with hfail | hfail
  · cases List.eq_of_mem_replicate hfail
  · cases List.mem_singleton.mp hfail

theorem Released.take (h : Released t) (code : UserCode) : Released (t.take code).2 := by
  have hdrive : Released (t.drive code .write) := h.moveAll _
  unfold Temp.take
  split
  · next u htaken =>
    obtain ⟨m, work, hm, hwork, rfl⟩ := taken_some htaken
    intro m' hm'
    obtain ⟨rfl, rfl⟩ | ⟨_, hm'⟩ := mem_update hm'
    · have hunread := taken_unread hwork
      rw [hdrive m hm] at hunread
      cases hunread
    · exact hdrive m' hm'
  · exact hdrive

/-- The scanner gets the next line. -/
theorem Pending.take (h : Pending (n + 1) t) :
    (t.take .combiner).1 = true ∧ Pending n (t.take .combiner).2 := by
  obtain ⟨m, hm, hopen, hunread⟩ := h
  obtain ⟨files, hwrite⟩ := drive_write hm hunread
  rw [hopen] at hwrite
  have htaken : (t.drive .combiner .write).taken .combiner =
      some ((t.drive .combiner .write).advance .combiner ⟨.writing n files, true⟩
        (.running 0 n files)) := by
    simp [Temp.taken, hwrite, MergeWork.taken]
  unfold Temp.take
  rw [htaken]
  exact ⟨rfl, _, advance_merges_self, rfl, rfl⟩

theorem Drains.take (h : Drains (n + 1) t) : Drains n (t.take .combiner).2 := by
  obtain h | h := h
  · exact .inl h.take.2
  · exact .inr (h.take .combiner)

/-- A deferred call does not touch the merge, unless it closes its reader. -/
theorem undo_merges {d : Deferred} (hd : d ≠ .close (.pipe .combiner)) :
    (t.undo d).merges .combiner = t.merges .combiner := by
  cases d with
  | cleanup code => rfl
  | close reader =>
    cases reader with
    | memory => rfl
    | pipe code =>
      unfold Temp.undo Temp.close
      dsimp only
      split
      · refine setMerge_of_ne (t := t) ?_
        rintro rfl
        exact hd rfl
      · rfl

theorem unwind_invariant {I : Temp → Prop} {ds : List Deferred}
    (helapse : ∀ t, I t → I (t.elapse env))
    (hundo : ∀ t u, u.merges .combiner = t.merges .combiner → I t → I u)
    (hds : .close (.pipe .combiner) ∉ ds) (h : I t) : I (unwind env ds t) := by
  induction ds generalizing t with
  | nil => exact h
  | cons d ds ih =>
    obtain ⟨hd, hds⟩ := not_or.mp (List.mem_cons.not.mp hds)
    exact ih hds (hundo _ _ (undo_merges (Ne.symm hd)) (helapse t h))

/-- At rest, with nothing deferred: a file would have an owner. -/
theorem rests_clean (hg : Guards [] u) (hreleased : Released u)
    (hrest : Rests (Steps Temp.move) u) :
    (∀ code, ∀ m ∈ u.merges code, m.work.isEnded = true) ∧ u.disk = [] := by
  have hended : ∀ code, ∀ m ∈ u.merges code, m.work.isEnded = true := by
    intro code m hm
    refine (rests_merge hrest hm).resolve_right ?_
    rintro ⟨hunread, hopen⟩
    cases code with
    | mapper => exact absurd (hg.closes m hm hopen) List.not_mem_nil
    | combiner => exact hunread (hreleased m hm)
  refine ⟨hended, List.eq_nil_iff_forall_not_mem.mpr fun f hf => ?_⟩
  obtain ⟨code, hfiles⟩ | ⟨code, m, hm, hfiles⟩ := hg.owned f hf
  · exact absurd (hg.cleans code (List.ne_nil_of_mem hfiles)) List.not_mem_nil
  · have hwork := hended code m hm
    obtain ⟨work, isOpen⟩ := m
    cases work with
    | running | writing => cases hwork
    | ended failed => cases hfiles

theorem settles_iff (hg : Guards [] t) : t.Settles ↔ Released t := by
  constructor
  · intro hsettles m hm
    by_contra hunread
    exact not_settles hm hunread (hg.opened m hm) hsettles
  · intro hreleased
    refine ⟨⟨t.rank, fun moves u hrun => ?_⟩, fun moves u hrun hrest => ?_⟩
    · exact Nat.le_of_add_right_le (hrun.length_le move_rank)
    · have hu := hrun.invariant (I := fun t => Guards [] t ∧ Released t)
        (fun _ _ _ h hmove => ⟨h.1.move hmove, h.2.move hmove⟩) ⟨hg, hreleased⟩
      exact rests_clean hu.1 hu.2 hrest

/-- The deferred calls do not read. -/
theorem settles_of_body (h : Released (body w a env (.new env.thresholdBytes)).2) :
    (runMap w a env).2.Settles := by
  refine (settles_iff (guards_exit w a env)).mpr (unwind_invariant (fun _ h => h.elapse env) ?_
    (left_body w a env).unclosed h)
  intro t u hmerges h
  rwa [Released, hmerges]

theorem not_settles_of_body (hmoves : ∀ n, .own .combiner .fail ∉ env.moves n)
    (h : Pending (n + 1) (body w a env (.new env.thresholdBytes)).2) :
    ¬ (runMap w a env).2.Settles := by
  have hexit : Pending (n + 1) (runMap w a env).2 := by
    refine unwind_invariant (fun t h => h.moveAll (hmoves t.clock)) ?_
      (left_body w a env).unclosed h
    intro t u hmerges h
    rwa [Pending, hmerges]
  obtain ⟨m, hm, hopen, hunread⟩ := hexit
  exact not_settles hm (by rw [hunread]; exact Nat.succ_ne_zero n) hopen

end Reading

/-! ## 2. The partition phase -/

section Partition

variable {l : List Record} {sorted : SortedReader × SortedStream} {w : MapWorker}
  {a : TaskAssignment} {env : MapEnv}

/-- When nothing is left to read, nothing is left afterwards. -/
theorem released_partition (reader : SortedReader) (err : Option MergeErr) (ls : List Bytes)
    (st : Partitions) :
    Ensures Released (partition w a env reader err ls st) (fun _ => Released)
      fun _ => Released := by
  refine ensures_partition (I := fun _ => Released) (fun _ _ _ h => h) (fun _ _ h => h.elapse env)
    (fun _ _ moves h => h.moveAll moves) (fun _ _ _ h => h) (fun code _ _ t h => ?_) ls st
  split
  · exact h.take code
  · exact fun _ => h.take code

/-- A phase that gets to its end has read everything. -/
theorem drained_partition :
    Ensures (Piped l sorted)
      (partition w a env sorted.1 sorted.2.err (lines isNewline sorted.2.bytes) .empty)
      (fun _ => Released) fun _ _ => True := by
  obtain ⟨reader, bytes, err⟩ := sorted
  rintro t (⟨_, hnone⟩ | ⟨rfl, rfl, hpending⟩)
  · exact ((released_partition _ _ _ _).exit fun _ _ _ => trivial) t (released_of_none hnone)
  · have hdrains : Ensures (Drains (lines isNewline (encodeAll l)).length)
        (partition w a env (.pipe .combiner) err (lines isNewline (encodeAll l)) .empty)
        (fun _ => Drains 0) fun _ _ => True := by
      refine ensures_partition (fun _ _ _ _ => trivial) (fun _ _ h => h.elapse env)
        (fun _ _ moves h => h.moveAll moves) nofun ?_ _ _
      rintro code ⟨⟩ n u h
      split
      · exact h.take
      · exact fun _ => trivial
    refine hdrains.post ?_ t (.inl ?_)
    · rintro _ u (h | h)
      · exact h.released
      · exact h
    · simpa [lines_encodeAll] using hpending

/-- A phase with at most one line reads it before it can fail. -/
theorem short_partition (hlength : l.length ≤ 1)
    (hfits : ∀ r ∈ l, r.Fits defaultMaxRecordBytes) :
    Ensures (Piped l sorted)
      (partition w a env sorted.1 sorted.2.err (lines isNewline sorted.2.bytes) .empty)
      (fun _ => Released) fun _ => Released := by
  obtain ⟨reader, bytes, err⟩ := sorted
  rintro t (⟨_, hnone⟩ | ⟨rfl, rfl, hpending⟩)
  · exact released_partition _ _ _ _ t (released_of_none hnone)
  cases l with
  | nil => exact released_partition _ _ _ _ t hpending.released
  | cons r rest =>
    have hrest : rest.length ≤ 0 := Nat.le_of_succ_le_succ hlength
    obtain rfl := List.length_eq_zero_iff.mp (Nat.le_zero.mp hrest)
    rw [lines_encodeAll, List.map_cons, List.map_cons]
    unfold partition
    rw [scanLine_encodeRecord, if_pos (hfits r List.mem_cons_self)]
    have hcall : ∀ e, Ensures Released (call env e) (fun _ => Released) fun _ => Released :=
      ensures_call (fun _ _ h => h) fun _ h => h.elapse env
    refine ensures_bind (Q := fun _ => Released) ((ensures_readLine (I := Drains 1)
      (fun _ h => h.elapse env) (by rintro ⟨⟩) ?_).pre fun _ h => .inl h) (fun ok => ?_) t hpending
    · rintro code ⟨⟩ u h
      obtain h | h := h.take
      · exact h.released
      · exact h
    refine ensures_bind (ensures_failIf (fun _ _ h => h) fun _ _ h => h) fun _ =>
      ensures_ite (fun _ => released_partition _ _ _ _) fun _ => ?_
    split
    · exact ensures_throw fun _ h => h
    · refine ensures_bind (ensures_openWriter (fun _ _ h => h) (fun _ h => h.elapse env) _ _)
        fun _ => ?_
      exact ensures_bind (hcall _) fun _ => ensures_bind (hcall _) fun _ =>
        released_partition _ _ _ _

/-- The error of a phase that cannot open a writer: it comes at the first record of the stream. -/
def firstFailure (w : MapWorker) (a : TaskAssignment) (r : Record) : MapFailure :=
  if r.Fits defaultMaxRecordBytes then
    match w.decode (encodeRecord r) with
    | none => .stage .decodeSortedRecord
    | some rec => .openPartition (hashPartition rec.key a.reducers)
  else .stage .readSortedStream

/-- Such a phase leaves the lines after the first one, and also that one if it is too long. -/
theorem pending_partition {rest : List Record} {err : Option MergeErr}
    (hmoves : ∀ n, .own .combiner .fail ∉ env.moves n) (hwriter : ∀ n, env.writerFails n = true)
    (hl : l = r :: rest) (hleft : rest = [] → ¬ r.Fits defaultMaxRecordBytes) :
    Ensures (Pending l.length)
      (partition w a env (.pipe .combiner) err (lines isNewline (encodeAll l)) .empty)
      (fun _ _ => False) fun e t => e = firstFailure w a r ∧ ∃ n, Pending (n + 1) t := by
  have helapse : ∀ {n} t, Pending n t → Pending n (t.elapse env) := fun t h =>
    h.moveAll (hmoves t.clock)
  rw [hl, lines_encodeAll, List.map_cons, List.map_cons]
  unfold partition firstFailure
  rw [scanLine_encodeRecord]
  by_cases hfits : r.Fits defaultMaxRecordBytes
  · rw [if_pos hfits, if_pos hfits]
    obtain ⟨n, hn⟩ := Nat.exists_eq_succ_of_ne_zero
      (mt List.length_eq_zero_iff.mp fun hnil => hleft hnil hfits)
    refine ensures_bind (Q := fun ok t => ok = true ∧ Pending (n + 1) t)
      (ensures_readLine helapse (by rintro ⟨⟩) ?_) fun ok => ?_
    · rintro code ⟨⟩ t h
      rw [List.length_cons, hn] at h
      exact h.take
    refine ensures_check (fun h t ht => ?_) fun _ => ensures_ite (fun hblank => ?_) fun _ => ?_
    · rw [ht.1] at h
      cases h
    · rw [blank_encodeRecord] at hblank
      cases hblank
    · cases w.decode (encodeRecord r) with
      | none => exact ensures_throw fun t h => ⟨rfl, n, h.2⟩
      | some rec =>
        refine ensures_bind (Q := fun _ _ => False) ?_ fun _ t h => h.elim
        refine ensures_bind (ensures_await fun t h => ⟨h.1, helapse t h.2⟩) fun k => ?_
        rw [hwriter k]
        exact ensures_throw fun t h => ⟨rfl, n, h.2⟩
  · rw [if_neg hfits, if_neg hfits]
    refine ensures_bind (Q := fun _ => Pending (rest.length + 1)) (ensures_bind
      (ensures_await helapse) fun _ => ensures_modify fun t h => h.drive) fun _ => ?_
    exact ensures_throw fun t h => ⟨rfl, _, h⟩

end Partition

/-! ## 3. The exits of a task -/

section Inputs

variable {w : MapWorker} {a : TaskAssignment} {env : MapEnv}

/-- A task that succeeds has read every line. -/
theorem runMap_ok_settles {out : List String × List String} (h : (runMap w a env).1 = .ok out) :
    (runMap w a env).2.Settles := by
  have hbody : Ensures _ (body w a env) (fun _ => Released) fun _ _ => True :=
    body_exit (fun _ _ => trivial) (fun _ _ _ => trivial)
      (fun _ => drained_partition.pre fun _ h => h.2) (fun _ _ _ => trivial)
      fun _ h => h.elapse env
  exact settles_of_body (hbody.ok (within_new env.thresholdBytes) h)

/-- One in which the merge writes at most one line has read it, or never started the merge. -/
theorem settles_of_short (hlength : (env.combinerWrites w).length ≤ 1)
    (hfits : ∀ r ∈ env.combinerWrites w, r.Fits defaultMaxRecordBytes) :
    (runMap w a env).2.Settles := by
  have hbody : Ensures _ (body w a env) (fun _ => Released) fun _ => Released :=
    body_exit (fun _ _ => trivial) (fun _ _ h => released_of_none h.fresh)
      (fun _ => (short_partition hlength hfits).pre fun _ h => h.2) (fun _ _ h => h)
      fun _ h => h.elapse env
  exact settles_of_body (hbody.state (within_new env.thresholdBytes))

/-- The task with these moves of the goroutines; no spill fails, and no writer can be opened. -/
def unopened (env : MapEnv) (moves : Nat → List MergeMove) : MapEnv :=
  { env with moves, spill := fun _ => .done, writerFails := fun _ => true }

theorem runMap_held {moves : Nat → List MergeMove} {rest : List Record}
    (hmoves : ∀ n, .own .combiner .fail ∉ moves n) (hwrites : env.combinerWrites w = r :: rest)
    (hleft : rest = [] → ¬ r.Fits defaultMaxRecordBytes) :
    (runMap w a (unopened env moves)).1 = .error (firstFailure w a r) ∧
      ¬ (runMap w a (unopened env moves)).2.Settles := by
  have hspill : ∀ n, (unopened env moves).spill n ≠ .done → False := fun _ h => h rfl
  have hbody : Ensures (Within [] fun _ => newSpillingSorter env.thresholdBytes)
      (body w a (unopened env moves)) (fun _ _ => False)
      fun e t => e = firstFailure w a r ∧ ∃ n, Pending (n + 1) t := by
    refine body_exit hspill ?_ ?_ (fun _ _ h => h.elim) fun _ h => h
    · rintro e t ⟨_, h | h, _⟩
      · exact h.elim
      · have hnone : env.combinerWrites w = [] := by
          rw [MapEnv.combinerWrites, show env.combinerSorter w = none from h]
          rfl
        cases hwrites.symm.trans hnone
    · rintro ⟨reader, bytes, err⟩ t ⟨_, ⟨hnil, _⟩ | ⟨rfl, rfl, hpending⟩⟩
      · cases hwrites.symm.trans hnil
      · exact pending_partition hmoves (fun _ => rfl) hwrites hleft t hpending
  have hexit := hbody _ (within_new env.thresholdBytes)
  rcases h : body w a (unopened env moves) (.new env.thresholdBytes) with ⟨e | out, t⟩
  · rw [h] at hexit
    obtain ⟨rfl, n, hpending⟩ := hexit
    refine ⟨congrArg Prod.fst h, not_settles_of_body hmoves (n := n) ?_⟩
    rw [show body w a (unopened env moves) (.new (unopened env moves).thresholdBytes) = _ from h]
    exact hpending
  · rw [h] at hexit
    exact hexit.elim

/-- For which programs and thresholds every exit of runMap is a clean one, whatever fails and
however the goroutines are scheduled: all goroutines end and all temporary files are removed exactly
if the merge of the combiner's sorter writes at most one record. There is no such merge without a
combiner, when its output stays below the threshold, or when a program before it fails. A task that
succeeds is clean in any case. -/
theorem runMap_settles_iff (w : MapWorker) (a : TaskAssignment) (env : MapEnv) :
    ((∀ moves spill writerFails,
        (runMap w a { env with moves, spill, writerFails }).2.Settles) ↔
      (env.combinerWrites w).length ≤ 1 ∧
        ∀ r ∈ env.combinerWrites w, r.Fits defaultMaxRecordBytes) ∧
    ∀ out, (runMap w a env).1 = .ok out → (runMap w a env).2.Settles := by
  refine ⟨⟨fun h => ?_, ?_⟩, fun _ => runMap_ok_settles⟩
  · by_contra hnot
    match hwrites : env.combinerWrites w with
    | [] =>
      rw [hwrites] at hnot
      exact hnot ⟨Nat.zero_le 1, nofun⟩
    | r :: rest =>
      have hleft : rest = [] → ¬ r.Fits defaultMaxRecordBytes := by
        rintro rfl hfits
        rw [hwrites] at hnot
        exact hnot ⟨Nat.le_refl 1, by simpa using hfits⟩
      have hheld := (runMap_held (a := a) (fun _ => List.not_mem_nil) hwrites hleft).2
      exact hheld (h (fun _ => []) (fun _ => .done) fun _ => true)
  · rintro ⟨hlength, hfits⟩ moves spill writerFails
    have hsame : MapEnv.combinerWrites w { env with moves, spill, writerFails } =
        env.combinerWrites w := rfl
    exact settles_of_short (hsame ▸ hlength) (hsame ▸ hfits)

/-- The merge of a sorter with files writes all of its records. -/
theorem merged_perm {recs : List Record} {runs : List (List Record)} (h : Sorting recs s runs)
    (hdecode : ∀ r ∈ recs, w.decode (encodeRecord r) = some r)
    (hfits : ∀ r ∈ recs, r.Fits defaultMaxRecordBytes) (hne : s.spillFiles.length ≠ 0) :
    (s.merged w).Perm recs := by
  obtain ⟨stats, out, hmerge, hperm, _⟩ := merge_ok w.sort h hdecode hfits
  rwa [SpillingSorter.merged, if_neg hne, hmerge]

end Inputs

/-! Seven records whose keys have `n` characters that the encoder escapes. -/

section Long

variable {n : Nat}

def longRecords (n : Nat) : List Record := List.replicate 7 (angles n)

def longRun (n : Nat) : CodeRun := ⟨false, false, encodeAll (longRecords n), false, false⟩

/-- The merge of the mapper's sorter is fed to the combiner, and that of the combiner's waits in a
write as soon as it can. -/
def feedMoves : List MergeMove :=
  (List.replicate 7 [.own .mapper .write, .feed]).flatten ++
    [.own .mapper .finish, .own .combiner .write]

/-- The least threshold that a worker accepts, 1 MiB. No partition writer can be opened. -/
def longEnv (n : Nat) : MapEnv :=
  ⟨1048576, false, longRun n, some (longRun n), fun _ => feedMoves, fun _ => .done, fun _ => true⟩

variable (hfits : 6 * n + 22 ≤ defaultMaxRecordBytes)
include hfits

theorem mem_longRecords (hr : r ∈ longRecords n) :
    r.Fits defaultMaxRecordBytes ∧ (anglesWorker n).decode (encodeRecord r) = some r := by
  rw [List.eq_of_mem_replicate hr]
  exact ⟨fits_angles hfits, decode_angles⟩

theorem collected_longRun (s : SpillingSorter) :
    (longRun n).collected (anglesWorker n) s =
      some (s.addAll (anglesWorker n).sort (longRecords n)) := by
  have hscan : scanOutput (longRun n).output = ((longRecords n).map encodeRecord, false) :=
    scanAll_encodeAll fun r hr => (mem_longRecords hfits hr).1
  unfold CodeRun.collected
  rw [hscan, collectLines_eq (decodeLines_encode fun r hr => (mem_longRecords hfits hr).2)]
  rfl

theorem longWrites_perm (hspills : 1048576 ≤ 7 * (n + 32)) :
    ((longEnv n).combinerWrites (anglesWorker n)).Perm (longRecords n) := by
  have hsorter : (longEnv n).combinerSorter (anglesWorker n) =
      some ((newSpillingSorter 1048576).addAll (anglesWorker n).sort (longRecords n)) := by
    unfold MapEnv.combinerSorter longEnv
    dsimp only
    rw [collected_longRun hfits, Option.bind_some, Option.bind_some, collected_longRun hfits]
    rfl
  obtain ⟨runs, h⟩ := sorting_addAll (anglesWorker n).sort 1048576 (longRecords n)
  rw [MapEnv.combinerWrites, hsorter]
  refine merged_perm h (fun r hr => (mem_longRecords hfits hr).2)
    (fun r hr => (mem_longRecords hfits hr).1) (addAll_spills _ ?_)
  rw [longRecords, List.map_replicate, List.sum_replicate, estimate_angles]
  have hnew : (newSpillingSorter 1048576).thresholdBytes = 1048576 := rfl
  rw [hnew, nsmul_eq_mul]
  omega

theorem runMap_long (hspills : 1048576 ≤ 7 * (n + 32)) :
    (∃ p, (runMap (anglesWorker n) sampleTask (longEnv n)).1 = .error (.openPartition p)) ∧
    ¬ (runMap (anglesWorker n) sampleTask (longEnv n)).2.Settles := by
  have hperm := longWrites_perm hfits hspills
  match hwrites : (longEnv n).combinerWrites (anglesWorker n) with
  | [] | [_] =>
    rw [hwrites] at hperm
    cases hperm.length_eq
  | r :: r' :: rest =>
    rw [hwrites] at hperm
    obtain ⟨hr, hdecode⟩ := mem_longRecords hfits (hperm.subset List.mem_cons_self)
    have hmoves : ∀ k, .own .combiner .fail ∉ (longEnv n).moves k := fun _ =>
      show .own .combiner .fail ∉ feedMoves by decide
    obtain ⟨hresult, hwaits⟩ := runMap_held (a := sampleTask) hmoves hwrites nofun
    rw [firstFailure, if_pos hr, hdecode] at hresult
    have henv : unopened (longEnv n) (longEnv n).moves = longEnv n := rfl
    rw [henv] at hresult hwaits
    exact ⟨⟨_, hresult⟩, hwaits⟩

end Long

/-- The writer of the first record cannot be opened. The goroutine of the merge is in the write of
the second record then, and nobody reads or closes its pipe. -/
theorem runMap_waits :
    (∃ p, (runMap (anglesWorker 170000) sampleTask (longEnv 170000)).1 =
      .error (.openPartition p)) ∧
    ¬ (runMap (anglesWorker 170000) sampleTask (longEnv 170000)).2.Settles :=
  runMap_long (by decide) (by decide)

end MapFiles

end KubeMapReduce
