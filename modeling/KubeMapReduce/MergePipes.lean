import Mathlib.Logic.Function.Basic
import KubeMapReduce.Lib.Run
import KubeMapReduce.MapOutput

/-!
# The temporary files of a Map task and the goroutines of its merges

A Map task has a sorter for the output of the mapper and one for that of the combiner. A sorter with
spill files is read through a pipe: a goroutine merges the files, in several passes if there are
many, and writes one record after the other to the pipe. It waits in a write until the write has
been read or the reader is closed, and it removes the files of its passes when it ends.

* `move_cases`: a step changes the work of one merge, and the disk by its files.
* `rests_merge`: a goroutine that cannot go on has ended, or it waits in a write to an open pipe.
* `not_settles`: one that nobody reads any more waits for ever.
-/

namespace KubeMapReduce

open Runs

variable {isOpen : Bool} {code' : UserCode}

/-! ## 1. Files, goroutines and what runMap has deferred -/

/-- A temporary file, by the sorter or the merge that has created it. -/
inductive TempFile where
  | mapSpill (code : UserCode) (n : Nat)
  | shuffleSpill (code : UserCode) (n : Nat)
deriving DecidableEq

/-- Where the goroutine of a merge is: it has files to create, and then lines to write to its pipe;
it is in a write, with `left` writes after this one; or it has ended. -/
inductive MergeWork where
  | running (creates writes : Nat) (files : List TempFile)
  | writing (left : Nat) (files : List TempFile)
  | ended (failed : Bool)
deriving DecidableEq

/-- The files of its passes that the goroutine has on the disk. -/
def MergeWork.files : MergeWork → List TempFile
  | .running _ _ files => files
  | .writing _ files => files
  | .ended _ => []

/-- The number of writes that nobody has read. -/
def MergeWork.unread : MergeWork → Nat
  | .running _ writes _ => writes
  | .writing left _ => left + 1
  | .ended _ => 0

/-- The files that are created before the first write. -/
def MergeWork.creates : MergeWork → Nat
  | .running creates _ _ => creates
  | .writing _ _ => 0
  | .ended _ => 0

def MergeWork.isEnded : MergeWork → Bool
  | .ended _ => true
  | _ => false

/-- `fail` is an error of a file, `closed` one of a write to a pipe whose reader is closed. -/
inductive MergeStep where
  | create
  | write
  | finish
  | fail
  | closed
deriving DecidableEq

/-- MergeInputs and the CloseWithError after it, on its own. -/
def MergeWork.next (code : UserCode) (isOpen : Bool) : MergeWork → MergeStep → Option MergeWork
  | .running (creates + 1) writes files, .create =>
    some (.running creates writes (files ++ [.shuffleSpill code files.length]))
  | .running 0 (writes + 1) files, .write => some (.writing writes files)
  | .running 0 0 _, .finish => some (.ended false)
  | .running _ _ _, .fail => some (.ended true)
  | .writing _ _, .closed => if isOpen then none else some (.ended true)
  | _, _ => none

/-- The write is read. -/
def MergeWork.taken : MergeWork → Option MergeWork
  | .writing left files => some (.running 0 left files)
  | _ => none

structure MergeRun where
  work : MergeWork
  /-- The reader of the pipe has not been closed. -/
  isOpen : Bool
deriving DecidableEq

/-- A sorter with the files of its spills. -/
structure FileSorter where
  sorter : SpillingSorter
  created : Nat
  files : List TempFile

/-- What Finalize returns: a buffer, whose Close does nothing, or the pipe of a merge. -/
inductive SortedReader where
  | memory
  | pipe (code : UserCode)
deriving DecidableEq

/-- A deferred call, with the value that it is bound to. -/
inductive Deferred where
  | cleanup (code : UserCode)
  | close (reader : SortedReader)
deriving DecidableEq

/-- `clock` counts the operations of runMap. While `feeding`, a goroutine of os/exec reads the pipe
of the mapper's sorter for the combiner. The last deferred call is the first of its list. -/
structure Temp where
  clock : Nat
  disk : List TempFile
  sorters : UserCode → FileSorter
  merges : UserCode → Option MergeRun
  feeding : Bool
  deferred : List Deferred

/-! ## 2. The steps of the goroutines -/

inductive MergeMove where
  | own (code : UserCode) (step : MergeStep)
  | feed
deriving DecidableEq

namespace Temp

/-- The merge `m` goes on to `work`: the files that it gives up are removed, those that it has are
on the disk. -/
def advance (t : Temp) (code : UserCode) (m : MergeRun) (work : MergeWork) : Temp :=
  { t with
    merges := Function.update t.merges code (some { m with work })
    disk := t.disk.filter (· ∉ m.work.files) ++ work.files }

def taken (t : Temp) (code : UserCode) : Option Temp :=
  (t.merges code).bind fun m => m.work.taken.map (t.advance code m)

def move (t : Temp) : MergeMove → Option Temp
  | .own code step =>
    (t.merges code).bind fun m => (m.work.next code m.isOpen step).map (t.advance code m)
  | .feed =>
    if t.feeding && (t.merges .mapper).any (·.isOpen) then t.taken .mapper else none

/-- Those of the moves that are possible. -/
def moveAll (t : Temp) (moves : List MergeMove) : Temp :=
  moves.foldl (fun t a => (t.move a).getD t) t

/-- A read waits until the goroutine has created its files and takes a step. -/
def drive (t : Temp) (code : UserCode) (step : MergeStep) : Temp :=
  t.moveAll (List.replicate ((t.merges code).elim 0 (·.work.creates)) (.own code .create) ++
    [.own code step])

/-- The goroutines come to rest on their own; then all have ended, and no file is left. -/
structure Settles (t : Temp) : Prop where
  bounded : ∃ n, ∀ moves u, Run (Steps move) t moves u → moves.length ≤ n
  clean : ∀ moves u, Run (Steps move) t moves u → Rests (Steps move) u →
    (∀ code, ∀ m ∈ u.merges code, m.work.isEnded = true) ∧ u.disk = []

end Temp

section Moves

variable {t u : Temp} {a : MergeMove} {code : UserCode} {m : MergeRun} {work work' : MergeWork}

theorem advance_merges_self : (t.advance code m work).merges code = some { m with work } :=
  Function.update_self ..

theorem advance_merges_of_ne (h : code' ≠ code) :
    (t.advance code m work).merges code' = t.merges code' :=
  Function.update_of_ne h ..

/-- A step starts no merge. -/
theorem advance_none (hm : t.merges code = some m) (h : t.merges code' = none) :
    (t.advance code m work).merges code' = none := by
  refine (advance_merges_of_ne ?_).trans h
  rintro rfl
  rw [h] at hm
  cases hm

/-- The merges when one has been replaced. -/
theorem mem_update {merges : UserCode → Option MergeRun} {m' : MergeRun}
    (h : m' ∈ Function.update merges code (some m) code') :
    (code' = code ∧ m' = m) ∨ (code' ≠ code ∧ m' ∈ merges code') := by
  by_cases hcode : code' = code
  · subst hcode
    rw [Function.update_self] at h
    exact .inl ⟨rfl, (Option.some.inj h).symm⟩
  · rw [Function.update_of_ne hcode] at h
    exact .inr ⟨hcode, h⟩

theorem taken_some (h : t.taken code = some u) :
    ∃ m work, t.merges code = some m ∧ m.work.taken = some work ∧ u = t.advance code m work := by
  obtain ⟨m, hm, h⟩ := Option.bind_eq_some_iff.mp h
  obtain ⟨work, hwork, rfl⟩ := Option.map_eq_some_iff.mp h
  exact ⟨m, work, hm, hwork, rfl⟩

theorem move_own {step : MergeStep} (hm : t.merges code = some m)
    (h : m.work.next code m.isOpen step = some work) :
    t.move (.own code step) = some (t.advance code m work) := by
  simp only [Temp.move, hm, Option.bind_some, h, Option.map_some]

/-- A step is one of a goroutine on its own, or the combiner gets a line of the mapper's merge. -/
theorem move_cases (h : t.move a = some u) :
    ∃ code m work, t.merges code = some m ∧ u = t.advance code m work ∧
      ((∃ step, a = .own code step ∧ m.work.next code m.isOpen step = some work) ∨
        (a = .feed ∧ code = .mapper ∧ t.feeding = true ∧ m.work.taken = some work)) := by
  cases a with
  | own code step =>
    obtain ⟨m, hm, h⟩ := Option.bind_eq_some_iff.mp h
    obtain ⟨work, hwork, rfl⟩ := Option.map_eq_some_iff.mp h
    exact ⟨code, m, work, hm, rfl, .inl ⟨step, rfl, hwork⟩⟩
  | feed =>
    dsimp only [Temp.move] at h
    split at h
    · next hcond =>
      obtain ⟨m, work, hm, hwork, rfl⟩ := taken_some h
      exact ⟨.mapper, m, work, hm, rfl, .inr ⟨rfl, rfl, (Bool.and_eq_true_iff.mp hcond).1, hwork⟩⟩
    · cases h

theorem moveAll_invariant {I : Temp → Prop} {moves : List MergeMove}
    (hstep : ∀ a ∈ moves, ∀ t u, I t → t.move a = some u → I u) (h : I t) :
    I (t.moveAll moves) := by
  induction moves generalizing t with
  | nil => exact h
  | cons a moves ih =>
    obtain ⟨hfirst, hstep⟩ := List.forall_mem_cons.mp hstep
    show I (((t.move a).getD t).moveAll moves)
    refine ih hstep ?_
    cases hmove : t.move a with
    | none => exact h
    | some u => exact hfirst t u h hmove

theorem exists_run (t : Temp) (moves : List MergeMove) :
    ∃ taken, Run (Steps Temp.move) t taken (t.moveAll moves) := by
  induction moves generalizing t with
  | nil => exact ⟨[], .nil t⟩
  | cons a moves ih =>
    show ∃ taken, Run _ t taken (((t.move a).getD t).moveAll moves)
    cases hmove : t.move a with
    | none => exact ih t
    | some u =>
      obtain ⟨taken, hrun⟩ := ih u
      exact ⟨a :: taken, .cons hmove hrun⟩

theorem moveAll_append (t : Temp) (moves moves' : List MergeMove) :
    t.moveAll (moves ++ moves') = (t.moveAll moves).moveAll moves' := List.foldl_append ..

/-- A move that is possible, and the ones after it. -/
theorem moveAll_cons {moves : List MergeMove} (h : t.move a = some u) :
    t.moveAll (a :: moves) = u.moveAll moves := by
  show ((t.move a).getD t).moveAll moves = _
  rw [h]
  rfl

theorem moveAll_creates {creates writes : Nat} {files : List TempFile}
    (h : t.merges code = some ⟨.running creates writes files, isOpen⟩) :
    ∃ files', (t.moveAll (List.replicate creates (.own code .create))).merges code =
      some ⟨.running 0 writes files', isOpen⟩ := by
  induction creates generalizing t files with
  | zero => exact ⟨files, h⟩
  | succ creates ih =>
    have hmove : t.move (.own code .create) = _ := move_own h rfl
    rw [List.replicate_succ, moveAll_cons hmove]
    exact ih advance_merges_self

/-- A goroutine with something to write comes to a write. -/
theorem drive_write {n : Nat} (hm : t.merges code = some m) (h : m.work.unread = n + 1) :
    ∃ files, (t.drive code .write).merges code = some ⟨.writing n files, m.isOpen⟩ := by
  obtain ⟨work, isOpen⟩ := m
  unfold Temp.drive
  rw [hm, moveAll_append]
  cases work with
  | running creates writes files =>
    cases h
    obtain ⟨files', hcreated⟩ := moveAll_creates hm
    have hmove : Temp.move _ (.own code .write) = _ := move_own hcreated rfl
    exact ⟨files', moveAll_cons hmove ▸ advance_merges_self⟩
  | writing left files =>
    cases h
    refine ⟨files, ?_⟩
    have hnone : t.move (.own code .write) = none := by simp [Temp.move, hm, MergeWork.next]
    show ((t.move _).getD t).merges code = _
    rw [hnone]
    exact hm
  | ended failed => cases h

/-! ## 3. Coming to rest -/

/-- The steps that a goroutine can still take. -/
def MergeWork.rank : MergeWork → Nat
  | .running creates writes _ => creates + 2 * writes + 1
  | .writing left _ => 2 * left + 2
  | .ended _ => 0

theorem next_rank {step : MergeStep} (h : work.next code isOpen step = some work') :
    work'.rank < work.rank := by
  unfold MergeWork.next at h
  split at h
  · cases h
    simp only [MergeWork.rank]
    omega
  · cases h
    simp only [MergeWork.rank]
    omega
  · cases h
    simp [MergeWork.rank]
  · cases h
    simp [MergeWork.rank]
  · split at h <;> cases h
    simp [MergeWork.rank]
  · cases h

theorem taken_rank (h : work.taken = some work') : work'.rank < work.rank := by
  unfold MergeWork.taken at h
  split at h
  · cases h
    simp [MergeWork.rank]
  · cases h

theorem taken_unread (h : work.taken = some work') : work.unread = work'.unread + 1 := by
  unfold MergeWork.taken at h
  split at h
  · cases h
    rfl
  · cases h

/-- On its own a goroutine reads nothing of its pipe. It fails by an error of a file, or because the
reader is closed. -/
theorem next_cases {step : MergeStep} (h : work.next code isOpen step = some work') :
    (work'.unread = work.unread ∧ work' ≠ .ended true) ∨
      (work' = .ended true ∧ (step = .fail ∨ isOpen = false)) := by
  unfold MergeWork.next at h
  split at h
  · cases h
    exact .inl ⟨rfl, by rintro ⟨⟩⟩
  · cases h
    exact .inl ⟨rfl, by rintro ⟨⟩⟩
  · cases h
    exact .inl ⟨rfl, by rintro ⟨⟩⟩
  · cases h
    exact .inr ⟨rfl, .inl rfl⟩
  · split at h
    · cases h
    · next hopen =>
      cases h
      exact .inr ⟨rfl, .inr (Bool.not_eq_true _ ▸ hopen)⟩
  · cases h

def Temp.rankOf (t : Temp) (code : UserCode) : Nat := (t.merges code).elim 0 (·.work.rank)

/-- Every step lowers this number. -/
def Temp.rank (t : Temp) : Nat := t.rankOf .mapper + t.rankOf .combiner

theorem advance_rank (hm : t.merges code = some m) (h : work.rank < m.work.rank) :
    (t.advance code m work).rank < t.rank := by
  have hself : (t.advance code m work).rankOf code < t.rankOf code := by
    rw [Temp.rankOf, Temp.rankOf, advance_merges_self, hm]
    exact h
  have hother : ∀ code', code' ≠ code → (t.advance code m work).rankOf code' = t.rankOf code' := by
    intro code' hne
    rw [Temp.rankOf, Temp.rankOf, advance_merges_of_ne hne]
  unfold Temp.rank
  cases code with
  | mapper =>
    rw [hother .combiner (by decide)]
    omega
  | combiner =>
    rw [hother .mapper (by decide)]
    omega

theorem move_rank (t : Temp) (a : MergeMove) (u : Temp) (h : Steps Temp.move t a u) :
    u.rank < t.rank := by
  obtain ⟨code, m, work, hm, rfl, ⟨step, _, hnext⟩ | ⟨_, _, _, htaken⟩⟩ := move_cases h
  · exact advance_rank hm (next_rank hnext)
  · exact advance_rank hm (taken_rank htaken)

/-- A goroutine that cannot go on has ended or is in a write to an open pipe. -/
theorem rests_merge (h : Rests (Steps Temp.move) u) (hm : u.merges code = some m) :
    m.work.isEnded = true ∨ (m.work.unread ≠ 0 ∧ m.isOpen = true) := by
  have hnone : ∀ step, m.work.next code m.isOpen step = none := by
    intro step
    by_contra hsome
    obtain ⟨work, hwork⟩ := Option.ne_none_iff_exists'.mp hsome
    exact h (.own code step) (u.advance code m work) (move_own hm hwork)
  obtain ⟨work, isOpen⟩ := m
  cases work with
  | running creates writes files =>
    have hfail := hnone .fail
    simp [MergeWork.next] at hfail
  | writing left files =>
    have hclosed := hnone .closed
    cases isOpen with
    | true => exact .inr ⟨Nat.succ_ne_zero left, rfl⟩
    | false => simp [MergeWork.next] at hclosed
  | ended failed => exact .inl rfl

end Moves

/-! ## 4. Waiting for ever -/

section Stuck

variable {t u : Temp} {m : MergeRun}

/-- The goroutine of the combiner's merge is in a write, and the reader is open. -/
def Temp.Waits (t : Temp) : Prop :=
  ∃ left files, t.merges .combiner = some ⟨.writing left files, true⟩

theorem waits_move {a : MergeMove} (h : t.Waits) (hmove : t.move a = some u) : u.Waits := by
  obtain ⟨left, files, hwaits⟩ := h
  obtain ⟨code, m, work, hm, rfl, hcases⟩ := move_cases hmove
  by_cases hcode : code = .combiner
  · subst hcode
    rw [hwaits] at hm
    cases hm
    obtain ⟨step, _, hnext⟩ | ⟨_, hmapper, _⟩ := hcases
    · cases step <;> simp [MergeWork.next] at hnext
    · cases hmapper
  · refine ⟨left, files, ?_⟩
    rw [advance_merges_of_ne (Ne.symm hcode), hwaits]

/-- A merge of the combiner's sorter with unread writes and an open reader can wait for ever. -/
theorem not_settles (hm : t.merges .combiner = some m) (hunread : m.work.unread ≠ 0)
    (hopen : m.isOpen = true) : ¬ t.Settles := by
  intro hsettles
  obtain ⟨left, hleft⟩ := Nat.exists_eq_succ_of_ne_zero hunread
  obtain ⟨files, hwrite⟩ := drive_write hm hleft
  rw [hopen] at hwrite
  obtain ⟨moves, hrun⟩ := exists_run t _
  obtain ⟨moves', v, hrun', hrest⟩ := exists_rests move_rank (t.drive .combiner .write)
  obtain ⟨left, files, hv⟩ : v.Waits :=
    hrun'.invariant (fun _ _ _ h hmove => waits_move h hmove) ⟨left, files, hwrite⟩
  have hended := (hsettles.clean _ v (hrun.append hrun') hrest).1 .combiner _ hv
  cases hended

end Stuck

end KubeMapReduce
