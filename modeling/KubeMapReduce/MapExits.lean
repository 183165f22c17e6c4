import KubeMapReduce.TempFiles

/-!
# What runMap leaves behind

The sorters remove their spill files by deferred calls. A deferred Close is bound to the reader of
the mapper's sorter; with a combiner, the partition phase reads from another one, and nothing closes
that. What the merge of the combiner's sorter writes follows from the output of the two programs and
the threshold of the sorters.

* `Guards`: every file has an owner, and the deferred calls are enough for the owners.
* `body_exit`: runMap up to the partition phase, and what there is to read when that begins.
* `guards_exit`: at every exit the sorters have no files, and the reader of the mapper's sorter is
  closed.
-/

namespace KubeMapReduce

open Exits Lines Runs

variable {d : Deferred} {E : MapFailure → Temp → Prop} {m : MergeRun} {reader : SortedReader}

/-! ## 1. Who removes the files -/

/-- Every file has an owner, and the calls `ds` are enough for the owners: they clean up the sorters
with files and close the reader of the mapper's sorter. Nothing closes that of the combiner's. -/
structure Guards (ds : List Deferred) (t : Temp) : Prop where
  owned : ∀ f ∈ t.disk, (∃ code, f ∈ (t.sorters code).files) ∨
    ∃ code, ∃ m ∈ t.merges code, f ∈ m.work.files
  cleans : ∀ code, (t.sorters code).files ≠ [] → .cleanup code ∈ ds
  closes : ∀ m ∈ t.merges .mapper, m.isOpen = true → .close (.pipe .mapper) ∈ ds
  opened : ∀ m ∈ t.merges .combiner, m.isOpen = true
  unclosed : .close (.pipe .combiner) ∉ ds

section Guards

variable {t u : Temp} {ds : List Deferred} {code : UserCode} {m : MergeRun} {s : FileSorter}

theorem setSorter_files (h : s.files = (t.sorters code).files) (code' : UserCode) :
    ((t.setSorter code s).sorters code').files = (t.sorters code').files := by
  by_cases hcode : code' = code
  · rw [hcode, setSorter_self, h]
  · rw [setSorter_of_ne hcode]

/-- The files, their owners and the pipes are all that matters. -/
theorem Guards.of_eq (h : Guards ds t) (hdisk : u.disk = t.disk) (hmerges : u.merges = t.merges)
    (hfiles : ∀ code, (u.sorters code).files = (t.sorters code).files) : Guards ds u := by
  refine ⟨?_, ?_, ?_, ?_, h.unclosed⟩
  · simpa only [hdisk, hmerges, hfiles] using h.owned
  · simpa only [hfiles] using h.cleans
  · simpa only [hmerges] using h.closes
  · simpa only [hmerges] using h.opened

theorem Guards.advance (h : Guards ds t) (hm : t.merges code = some m) (work : MergeWork) :
    Guards ds (t.advance code m work) := by
  refine ⟨?_, h.cleans, ?_, ?_, h.unclosed⟩
  · intro f hf
    rcases List.mem_append.mp hf with hf | hf
    · obtain ⟨hf, hnot⟩ := List.mem_filter.mp hf
      obtain hsorter | ⟨code', m', hm', hfiles⟩ := h.owned f hf
      · exact .inl hsorter
      · have hne : code' ≠ code := by
          rintro rfl
          rw [hm] at hm'
          cases hm'
          exact of_decide_eq_true hnot hfiles
        exact .inr ⟨code', m', (advance_merges_of_ne hne).trans hm', hfiles⟩
    · exact .inr ⟨code, _, advance_merges_self, hf⟩
  · intro m' hm' hopen
    obtain ⟨rfl, rfl⟩ | ⟨_, hm'⟩ := mem_update hm'
    · exact h.closes m hm hopen
    · exact h.closes m' hm' hopen
  · intro m' hm'
    obtain ⟨rfl, rfl⟩ | ⟨_, hm'⟩ := mem_update hm'
    · exact h.opened m hm
    · exact h.opened m' hm'

/-- Another state of a pipe, or a new one. -/
theorem Guards.setMerge (h : Guards ds t)
    (hfiles : ∀ m' ∈ t.merges code, m'.work.files = m.work.files)
    (hmapper : code = .mapper → m.isOpen = true → .close (.pipe .mapper) ∈ ds)
    (hcombiner : code = .combiner → m.isOpen = true) : Guards ds (t.setMerge code m) := by
  refine ⟨?_, h.cleans, ?_, ?_, h.unclosed⟩
  · intro f hf
    obtain hsorter | ⟨code', m', hm', hmem⟩ := h.owned f hf
    · exact .inl hsorter
    · refine .inr ?_
      by_cases hcode : code' = code
      · subst hcode
        exact ⟨code', m, setMerge_self, hfiles m' hm' ▸ hmem⟩
      · exact ⟨code', m', (setMerge_of_ne hcode).trans hm', hmem⟩
  · intro m' hm' hopen
    obtain ⟨rfl, rfl⟩ | ⟨_, hm'⟩ := mem_update hm'
    · exact hmapper rfl hopen
    · exact h.closes m' hm' hopen
  · intro m' hm'
    obtain ⟨rfl, rfl⟩ | ⟨_, hm'⟩ := mem_update hm'
    · exact hcombiner rfl
    · exact h.opened m' hm'

theorem Guards.move {a : MergeMove} (h : Guards ds t) (hmove : t.move a = some u) :
    Guards ds u := by
  obtain ⟨code, m, work, hm, rfl, _⟩ := move_cases hmove
  exact h.advance hm work

theorem Guards.elapse (h : Guards ds t) (env : MapEnv) : Guards ds (t.elapse env) :=
  (moveAll_invariant (fun _ _ _ _ h => h.move) h).of_eq rfl rfl fun _ => rfl

theorem Guards.keepSpill (h : Guards ds t) (hmem : .cleanup code ∈ ds) (sort : SliceSort) :
    Guards ds (t.keepSpill sort code) := by
  refine ⟨?_, ?_, h.closes, h.opened, h.unclosed⟩
  · intro f hf
    rcases List.mem_append.mp hf with hf | hf
    · obtain ⟨code', hfiles⟩ | hmerge := h.owned f hf
      · refine .inl ⟨code', ?_⟩
        by_cases hcode : code' = code
        · subst hcode
          exact setSorter_self (t := t) ▸ List.mem_append_left _ hfiles
        · exact setSorter_of_ne (t := t) hcode ▸ hfiles
      · exact .inr hmerge
    · exact .inl ⟨code, setSorter_self (t := t) ▸ List.mem_append_right _ hf⟩
  · intro code' hfiles
    by_cases hcode : code' = code
    · rwa [hcode]
    · exact h.cleans code' (setSorter_of_ne (t := t) hcode ▸ hfiles)

theorem Guards.cleanup (h : Guards ds t) (code : UserCode) : Guards ds (t.cleanup code) := by
  refine ⟨?_, ?_, h.closes, h.opened, h.unclosed⟩
  · intro f hf
    obtain ⟨hf, hnot⟩ := List.mem_filter.mp hf
    obtain ⟨code', hfiles⟩ | hmerge := h.owned f hf
    · have hcode : code' ≠ code := by
        rintro rfl
        exact of_decide_eq_true hnot hfiles
      exact .inl ⟨code', setSorter_of_ne (t := t) hcode ▸ hfiles⟩
    · exact .inr hmerge
  · intro code' hfiles
    by_cases hcode : code' = code
    · subst hcode
      exact absurd (congrArg FileSorter.files (setSorter_self (t := t))) hfiles
    · exact h.cleans code' (setSorter_of_ne (t := t) hcode ▸ hfiles)

/-- One more deferred call. -/
theorem Guards.defer (h : Guards ds t) (hd : d ≠ .close (.pipe .combiner)) :
    Guards (d :: ds) t where
  owned := h.owned
  cleans code hfiles := List.mem_cons_of_mem _ (h.cleans code hfiles)
  closes m hm hopen := List.mem_cons_of_mem _ (h.closes m hm hopen)
  opened := h.opened
  unclosed hmem := (List.mem_cons.mp hmem).elim (fun heq => hd heq.symm) h.unclosed

/-- A call that has nothing left to do. -/
theorem Guards.drop (h : Guards (d :: ds) t)
    (hclean : ∀ code, d = .cleanup code → (t.sorters code).files = [])
    (hclose : d = .close (.pipe .mapper) → ∀ m ∈ t.merges .mapper, m.isOpen = false) :
    Guards ds t where
  owned := h.owned
  cleans code hfiles :=
    (List.mem_cons.mp (h.cleans code hfiles)).resolve_left fun heq =>
      hfiles (hclean code heq.symm)
  closes m hm hopen :=
    (List.mem_cons.mp (h.closes m hm hopen)).resolve_left fun heq =>
      absurd hopen (by simp [hclose heq.symm m hm])
  opened := h.opened
  unclosed hmem := h.unclosed (List.mem_cons_of_mem _ hmem)

theorem Guards.close (h : Guards ds t) (hr : reader ≠ .pipe .combiner) :
    Guards ds (t.close reader) := by
  cases reader with
  | memory => exact h
  | pipe code =>
    have hcode : code = .mapper := by
      cases code with
      | mapper => rfl
      | combiner => exact absurd rfl hr
    subst hcode
    unfold Temp.close
    dsimp only
    split
    · next work hm =>
      refine Guards.cleanup (h.setMerge ?_ (by rintro - ⟨⟩) (by rintro ⟨⟩)) .mapper
      intro m' hm'
      rw [hm] at hm'
      cases hm'
      rfl
    · exact h

theorem close_isOpen (hm : m ∈ (t.close (.pipe code)).merges code) : m.isOpen = false := by
  unfold Temp.close at hm
  dsimp only at hm
  split at hm
  · obtain ⟨_, rfl⟩ | ⟨hne, _⟩ := mem_update hm
    · rfl
    · exact absurd rfl hne
  · next hnot =>
    obtain ⟨work, isOpen⟩ := m
    cases isOpen with
    | true => exact absurd hm (hnot work)
    | false => rfl

theorem close_none (h : t.merges code = none) : (t.close reader).merges code = none := by
  unfold Temp.close
  split
  · exact h
  · next code' =>
    split
    · next hm =>
      refine (setMerge_of_ne ?_).trans h
      rintro rfl
      rw [h] at hm
      cases hm
    · exact h

theorem close_deferred (t : Temp) (reader : SortedReader) :
    (t.close reader).deferred = t.deferred := by
  unfold Temp.close
  split
  · rfl
  · split <;> rfl

theorem Guards.undo (h : Guards (d :: ds) t) : Guards ds (t.undo d) := by
  cases d with
  | cleanup code =>
    refine (h.cleanup code).drop ?_ (by rintro ⟨⟩)
    rintro _ ⟨⟩
    exact congrArg FileSorter.files (setSorter_self (t := t))
  | close reader =>
    have hr : reader ≠ .pipe .combiner := by
      rintro rfl
      exact h.unclosed List.mem_cons_self
    refine (h.close hr).drop (by rintro _ ⟨⟩) ?_
    rintro ⟨⟩ m hm
    exact close_isOpen hm

/-- The deferred calls. -/
theorem guards_unwind (h : Guards ds t) (env : MapEnv) : Guards [] (MapFiles.unwind env ds t) := by
  induction ds generalizing t with
  | nil => exact h
  | cons d ds ih => exact ih (h.elapse env).undo

end Guards

/-! ## 2. What the sorters have -/

/-- The sorter with the output of a user's program, if runMap gets beyond it. -/
def CodeRun.collected (w : MapWorker) (run : CodeRun) (s : SpillingSorter) :
    Option SpillingSorter :=
  (collectLines w (scanOutput run.output).1 s).bind fun s =>
    if (scanOutput run.output).2 || run.readFails then none
    else if run.waitFails then none else some s

/-- The combiner's sorter before its Finalize, if runMap comes to that when no spill fails. -/
def MapEnv.combinerSorter (w : MapWorker) (env : MapEnv) : Option SpillingSorter :=
  if env.mapper.prepareFails then none
  else if env.splitFails then none
  else if env.mapper.execFails then none
  else
    (env.mapper.collected w (newSpillingSorter env.thresholdBytes)).bind fun _ =>
      env.combiner.bind fun c =>
        if c.prepareFails then none
        else if c.execFails then none
        else c.collected w (newSpillingSorter env.thresholdBytes)

/-- The records that the merge of a sorter writes; without files there is no merge. -/
def SpillingSorter.merged (w : MapWorker) (s : SpillingSorter) : List Record :=
  if s.spillFiles.length = 0 then []
  else (mergeInputs w.decode ⟨0, 0⟩ (s.spill w.sort).spillFiles).written

def MapEnv.combinerWrites (w : MapWorker) (env : MapEnv) : List Record :=
  (env.combinerSorter w).elim [] (·.merged w)

/-! ## 3. The parts of runMap -/

/-- Within runMap, before the combiner's merge is started: the calls that are deferred, and what the
sorters have. A merge has been started only if the Close of its reader is deferred. -/
structure Within (ds : List Deferred) (ss : UserCode → SpillingSorter) (t : Temp) : Prop where
  deferred : t.deferred = ds
  guards : Guards ds t
  idle : ∀ code, .close (.pipe code) ∉ ds → t.merges code = none
  sorters : ∀ code, (t.sorters code).sorter = ss code

/-- At an exit. -/
def Left (t : Temp) : Prop := Guards t.deferred t

/-- At an exit before the combiner's merge is started, which is taken in the case `c`. -/
structure Early (c : Prop) (t : Temp) : Prop where
  left : Left t
  cause : c
  fresh : t.merges .combiner = none

section Within

variable {t u : Temp} {ds : List Deferred} {ss : UserCode → SpillingSorter} {code : UserCode}
  {c : Prop}

theorem Left.move {a : MergeMove} (h : Left t) (hmove : t.move a = some u) : Left u := by
  obtain ⟨code, m, work, hm, rfl, _⟩ := move_cases hmove
  exact Guards.advance h hm work

theorem Left.moveAll (h : Left t) (moves : List MergeMove) : Left (t.moveAll moves) :=
  moveAll_invariant (fun _ _ _ _ h => h.move) h

theorem Left.elapse (h : Left t) (env : MapEnv) : Left (t.elapse env) :=
  Guards.of_eq (h.moveAll (env.moves t.clock)) rfl rfl fun _ => rfl

theorem Left.take (h : Left t) (code : UserCode) : Left (t.take code).2 := by
  have hdrive : Left (t.drive code .write) := h.moveAll _
  unfold Temp.take
  split
  · next u htaken =>
    obtain ⟨m, work, hm, _, rfl⟩ := taken_some htaken
    exact Guards.advance hdrive hm work
  · exact hdrive

theorem Within.left (h : Within ds ss t) : Left t := by
  rw [Left, h.deferred]
  exact h.guards

theorem Within.fresh (h : Within ds ss t) : t.merges .combiner = none :=
  h.idle .combiner h.guards.unclosed

theorem Within.early (h : Within ds ss t) (hc : c) : Early c t := ⟨h.left, hc, h.fresh⟩

theorem Within.elapse (h : Within ds ss t) (env : MapEnv) : Within ds ss (t.elapse env) := by
  have hmoves : Within ds ss (t.moveAll (env.moves t.clock)) := by
    refine moveAll_invariant (fun a _ t u h hmove => ?_) h
    obtain ⟨code, m, work, hm, rfl, _⟩ := move_cases hmove
    exact ⟨h.deferred, h.guards.advance hm work, fun code' hcode' =>
      advance_none hm (h.idle code' hcode'), h.sorters⟩
  exact ⟨hmoves.deferred, hmoves.guards.of_eq rfl rfl fun _ => rfl, hmoves.idle, hmoves.sorters⟩

theorem sorters_update {s : FileSorter} {x : SpillingSorter}
    (h : ∀ code, (t.sorters code).sorter = ss code) (hx : s.sorter = x) (code' : UserCode) :
    ((t.setSorter code s).sorters code').sorter = Function.update ss code x code' := by
  by_cases hcode : code' = code
  · subst hcode
    rw [setSorter_self, Function.update_self, hx]
  · rw [setSorter_of_ne hcode, Function.update_of_ne hcode]
    exact h code'

/-- Only the records of a sorter change. -/
theorem Within.setSorter {s : FileSorter} {x : SpillingSorter} (h : Within ds ss t)
    (hfiles : s.files = (t.sorters code).files) (hx : s.sorter = x) :
    Within ds (Function.update ss code x) (t.setSorter code s) :=
  ⟨h.deferred, h.guards.of_eq rfl rfl (setSorter_files hfiles), h.idle, sorters_update h.sorters hx⟩

theorem Within.keepSpill (h : Within ds ss t) (hmem : .cleanup code ∈ ds) (sort : SliceSort) :
    Within ds (Function.update ss code ((ss code).spill sort)) (t.keepSpill sort code) := by
  refine ⟨h.deferred, h.guards.keepSpill hmem sort, h.idle, ?_⟩
  rw [← h.sorters code]
  exact sorters_update h.sorters rfl

/-- One more deferred call. -/
theorem Within.defer (h : Within ds ss t) (hd : d ≠ .close (.pipe .combiner)) :
    Within (d :: ds) ss { t with deferred := d :: t.deferred } :=
  ⟨congrArg _ h.deferred, (h.guards.defer hd).of_eq rfl rfl fun _ => rfl, fun code hcode =>
    h.idle code fun hmem => hcode (List.mem_cons_of_mem _ hmem), h.sorters⟩

theorem Within.feed (h : Within ds ss t) (b : Bool) : Within ds ss { t with feeding := b } :=
  ⟨h.deferred, h.guards.of_eq rfl rfl fun _ => rfl, h.idle, h.sorters⟩

end Within

namespace MapFiles

/-- The program returns what `r` has. It leaves early only if `r` has nothing or in the case
`fails`. -/
def Computes {α β : Type} (fails : Prop) (P : Temp → Prop) (p : MapM α) (r : Option β)
    (Q : β → α → Temp → Prop) : Prop :=
  Ensures P p (fun x t => ∃ b, r = some b ∧ Q b x t) fun _ => Early (fails ∨ r = none)

/-- The combiner's sorter is this one. -/
def Has (ds : List Deferred) (s : SpillingSorter) (t : Temp) : Prop :=
  ∃ ss, ss .combiner = s ∧ Within ds ss t

/-- The combiner's merge has `n` lines that nobody has read, and its reader is open. -/
def Pending (n : Nat) (t : Temp) : Prop :=
  ∃ m, t.merges .combiner = some m ∧ m.isOpen = true ∧ m.work.unread = n

/-- The partition phase begins: it reads what the combiner's merge writes, or there is none. -/
def Piped (l : List Record) (sorted : SortedReader × SortedStream) (t : Temp) : Prop :=
  (l = [] ∧ t.merges .combiner = none) ∨
    (sorted.1 = .pipe .combiner ∧ sorted.2.bytes = encodeAll l ∧ Pending l.length t)

section Walk

variable {α β γ δ : Type} {fails : Prop} {P : Temp → Prop} {ds : List Deferred}
  {ss : UserCode → SpillingSorter} {s : SpillingSorter} {code : UserCode} {w : MapWorker}
  {a : TaskAssignment} {env : MapEnv}

theorem computes_bind {p : MapM α} {k : α → MapM γ} {r : Option β} {f : β → Option δ}
    {Q : β → α → Temp → Prop} {R : δ → γ → Temp → Prop} (hp : Computes fails P p r Q)
    (hk : ∀ b x, Computes fails (Q b x) (k x) (f b) R) :
    Computes fails P (p >>= k) (r.bind f) R := by
  refine ensures_bind (hp.exit ?_) fun x => ?_
  · rintro e t ⟨hleft, hfails | rfl, hfresh⟩
    · exact ⟨hleft, .inl hfails, hfresh⟩
    · exact ⟨hleft, .inr rfl, hfresh⟩
  · rintro t ⟨b, rfl, h⟩
    exact hk b x t h

theorem ensures_check {c : Bool} {e : MapFailure} {k : Unit → MapM γ} {R : γ → Temp → Prop}
    (htrue : c = true → ∀ t, P t → E e t) (hfalse : c = false → Ensures P (k ()) R E) :
    Ensures P (failIf c e >>= k) R E := by
  cases c with
  | true => exact htrue rfl
  | false => exact hfalse rfl

section Spills

variable (hspill : ∀ n, env.spill n ≠ .done → fails)
include hspill

theorem within_spill (hmem : .cleanup code ∈ ds) (e : MapFailure) :
    Ensures (Within ds ss) (spill w env code e)
      (fun _ => Within ds (Function.update ss code ((ss code).spill w.sort)))
      fun _ => Early fails := by
  refine ensures_bind (ensures_await fun _ h => h.elapse env) fun n => ensures_get fun t ht => ?_
  refine ensures_ite (fun hnil => ensures_pure fun _ heq => ?_) fun _ => ?_
  · rw [ht.sorters] at hnil
    rw [heq, SpillingSorter.spill, if_pos hnil, Function.update_eq_self]
    exact ht
  · have hfails := hspill n
    cases hn : env.spill n with
    | done => exact ensures_modify fun _ heq => heq ▸ ht.keepSpill hmem w.sort
    | createFails =>
      exact ensures_throw fun _ heq => heq ▸ ht.early (hfails (by rw [hn]; nofun))
    | writeFails =>
      have hdrop : Within ds _ (t.dropSpill code) := ht.setSorter rfl rfl
      refine ensures_bind (ensures_modify fun _ heq => ?_) fun _ => ensures_throw fun _ h => h
      exact heq ▸ hdrop.early (hfails (by rw [hn]; nofun))

theorem within_add (hmem : .cleanup code ∈ ds) (rec : Record) :
    Ensures (Within ds ss) (add w env code rec)
      (fun _ => Within ds (Function.update ss code ((ss code).add w.sort rec)))
      fun _ => Early fails := by
  refine ensures_bind (Q := fun _ => Within ds (Function.update ss code { ss code with
    buffer := (ss code).buffer ++ [rec]
    bufferBytes := (ss code).bufferBytes + rec.estimate })) (ensures_modify fun t ht => ?_)
      fun _ => ensures_get fun t ht => ?_
  · refine ht.setSorter rfl ?_
    rw [ht.sorters]
  · have hsorter := ht.sorters code
    rw [Function.update_self] at hsorter
    unfold SpillingSorter.add
    dsimp only
    rw [hsorter]
    split
    · refine ((within_spill hspill hmem _).pre fun _ heq => heq ▸ ht).post fun _ _ h => ?_
      rwa [Function.update_self, Function.update_idem] at h
    · exact ensures_pure fun _ heq => heq ▸ ht

/-- The lines of the user's program, as `collectLines` has them. -/
theorem computes_addLines (hmem : .cleanup code ∈ ds) (ls : List Line) :
    Computes fails (Within ds ss) (addLines w env code ls) (collectLines w ls (ss code))
      fun s _ => Within ds (Function.update ss code s) := by
  induction ls generalizing ss with
  | nil =>
    refine ensures_pure fun t ht => ⟨ss code, rfl, ?_⟩
    show Within ds (Function.update ss code (ss code)) t
    rwa [Function.update_eq_self]
  | cons line rest ih =>
    unfold addLines collectLines
    split
    · exact ih
    · cases w.decode line with
      | none => exact ensures_throw fun _ h => h.early (.inr rfl)
      | some rec =>
        refine ensures_bind ((within_add hspill hmem rec).exit fun _ _ h =>
          ⟨h.left, .inl h.cause, h.fresh⟩) fun _ => ?_
        have hrest := @ih (Function.update ss code ((ss code).add w.sort rec))
        simp only [Function.update_self, Function.update_idem] at hrest
        exact hrest

theorem computes_collect (hmem : .cleanup code ∈ ds) (run : CodeRun) :
    Computes fails (Within ds ss) (collect w env code run) (run.collected w (ss code))
      fun s _ => Within ds (Function.update ss code s) := by
  refine computes_bind (computes_addLines hspill hmem _) fun s _ => ?_
  refine ensures_check (fun h t ht => ht.early (.inr (if_pos h))) fun h => ?_
  rw [if_neg (Bool.eq_false_iff.mp h)]
  exact ensures_failIf (fun t h ht => ht.early (.inr (if_pos h))) fun t h ht =>
    ⟨s, if_neg (Bool.eq_false_iff.mp h), ht⟩

/-- Finalize returns a buffer, or it has started the merge of the files. -/
theorem within_finalize (hmem : .cleanup code ∈ ds) :
    Ensures (Within ds ss) (finalize w env code)
      (fun sorted t => ∃ s u, Within ds (Function.update ss code s) u ∧
        (((ss code).spillFiles.length = 0 ∧ sorted.1 = .memory ∧ t = u) ∨
          ∃ merged, merged = mergeInputs w.decode ⟨0, 0⟩ ((ss code).spill w.sort).spillFiles ∧
            (ss code).spillFiles.length ≠ 0 ∧
            sorted = (.pipe code, ⟨merged.output, merged.err⟩) ∧ t = u.startMerge code merged))
      fun _ => Early fails := by
  refine ensures_get fun t ht => ensures_ite (fun hnil => ?_) fun hne => ?_
  · rw [ht.sorters] at hnil
    have hclear : Within ds _ (t.clearBuffer code) := ht.setSorter rfl rfl
    rintro _ rfl
    exact ⟨_, _, hclear, .inl ⟨hnil, rfl, rfl⟩⟩
  · rw [ht.sorters] at hne
    refine ensures_bind
      (Q := fun _ => Within ds (Function.update ss code ((ss code).spill w.sort))) ?_
      fun _ => ensures_get fun u hu => ?_
    · refine ensures_tryCatch ((within_spill hspill hmem _).pre fun _ heq => heq ▸ ht) fun e => ?_
      refine ensures_bind (ensures_modify fun t h => ?_) fun _ => ensures_throw fun _ h => h
      exact Early.mk (Guards.cleanup h.left code) h.cause h.fresh
    · have hsorter := hu.sorters code
      rw [Function.update_self] at hsorter
      rintro _ rfl
      refine ⟨_, _, hu, .inr ⟨_, rfl, hne, ?_⟩⟩
      rw [← hsorter]
      exact ⟨rfl, rfl⟩

/-- The reader of the mapper's sorter, for which a Close is still to be deferred. -/
theorem has_finalize (hmem : .cleanup .mapper ∈ ds) (hidle : .close (.pipe .mapper) ∉ ds) :
    Ensures (Within ds ss) (finalize w env .mapper)
      (fun sorted t => sorted.1 ≠ .pipe .combiner ∧ Has (.close sorted.1 :: ds) (ss .combiner)
        { t with deferred := .close sorted.1 :: t.deferred }) fun _ => Early fails := by
  have hother : UserCode.combiner ≠ .mapper := by decide
  refine (within_finalize hspill hmem).post ?_
  rintro ⟨reader, stream⟩ t ⟨s, u, hu, ⟨_, rfl, rfl⟩ | ⟨merged, _, _, ⟨⟩, rfl⟩⟩
  · exact ⟨nofun, _, Function.update_of_ne hother .., hu.defer nofun⟩
  · have hdefer := hu.defer (d := .close (.pipe .mapper)) nofun
    refine ⟨nofun, _, Function.update_of_ne hother .., hdefer.deferred, ?_, fun code hcode => ?_,
      hu.sorters⟩
    · refine Guards.setMerge (t := { u with deferred := _ }) hdefer.guards ?_
        (fun _ _ => List.mem_cons_self) (by rintro ⟨⟩)
      intro m hm
      rw [show u.merges .mapper = none from hu.idle _ hidle] at hm
      cases hm
    · refine (setMerge_of_ne ?_).trans (hdefer.idle code hcode)
      rintro rfl
      exact hcode List.mem_cons_self

omit hspill in
theorem has_close (hr : reader ≠ .pipe .combiner) :
    Ensures (Has ds s) (close env reader) (fun _ => Has ds s) E := by
  refine ensures_bind (ensures_await ?_) fun _ => ensures_modify ?_
  · rintro t ⟨ss, hss, h⟩
    exact ⟨ss, hss, h.elapse env⟩
  · rintro t ⟨ss, rfl, h⟩
    refine ⟨fun code => ((t.close reader).sorters code).sorter, ?_,
      (close_deferred t reader).trans h.deferred, h.guards.close hr, fun code hcode =>
        close_none (h.idle code hcode), fun _ => rfl⟩
    refine Eq.trans ?_ (h.sorters .combiner)
    unfold Temp.close
    split
    · rfl
    · next code =>
      split
      · refine congrArg FileSorter.sorter (setSorter_of_ne ?_)
        rintro rfl
        exact hr rfl
      · rfl

theorem has_collect (hmem : .cleanup .combiner ∈ ds) (c : CodeRun) :
    Computes fails (Has ds s) (collect w env .combiner c) (c.collected w s)
      fun s _ => Has ds s := by
  rintro t ⟨ss, rfl, ht⟩
  refine (computes_collect hspill hmem c).post ?_ t ht
  rintro _ u ⟨s, hs, h⟩
  exact ⟨s, hs, _, Function.update_self .., h⟩

/-- The merge of the combiner's sorter. No Close is deferred for its reader. -/
theorem piped_finalize (hmem : .cleanup .combiner ∈ ds) :
    Ensures (Has ds s) (finalize w env .combiner)
      (fun sorted t => Left t ∧ Piped (s.merged w) sorted t) fun _ => Early fails := by
  rintro t ⟨ss, rfl, ht⟩
  refine (within_finalize hspill hmem).post ?_ t ht
  unfold SpillingSorter.merged
  rintro sorted v ⟨s, u, hu, ⟨hnil, _, rfl⟩ | ⟨merged, rfl, hne, rfl, rfl⟩⟩
  · exact ⟨hu.left, .inl ⟨if_pos hnil, hu.fresh⟩⟩
  · rw [if_neg hne]
    refine ⟨Guards.setMerge hu.left (fun m hm => ?_) (by rintro ⟨⟩) fun _ => rfl,
      .inr ⟨rfl, rfl, _, setMerge_self, rfl, rfl⟩⟩
    rw [hu.fresh] at hm
    cases hm

/-- What the combiner's stage returns when the mapper's has passed. -/
theorem piped_combine {sorted : SortedReader × SortedStream} (hr : sorted.1 ≠ .pipe .combiner)
    (hsorter : env.combinerSorter w = env.combiner.bind fun c =>
      if c.prepareFails then none
      else if c.execFails then none
      else c.collected w (newSpillingSorter env.thresholdBytes)) :
    Ensures (Has ds (newSpillingSorter env.thresholdBytes)) (combine w env sorted)
      (fun sorted t => Left t ∧ Piped (env.combinerWrites w) sorted t)
      fun _ => Early (fails ∨ env.combinerSorter w = none) := by
  unfold combine MapEnv.combinerWrites
  cases hc : env.combiner with
  | none =>
    rw [hc, Option.bind_none] at hsorter
    rw [hsorter]
    rintro t ⟨ss, _, h⟩
    exact ⟨h.left, .inl ⟨rfl, h.fresh⟩⟩
  | some c =>
    rw [hc, Option.bind_some] at hsorter
    have hnone : env.combinerSorter w = none →
        ∀ t, Has ds (newSpillingSorter env.thresholdBytes) t →
        Early (fails ∨ env.combinerSorter w = none) t := by
      rintro hnone t ⟨ss, _, h⟩
      exact h.early (.inr hnone)
    refine ensures_check (fun h => hnone (hsorter.trans (if_pos h))) fun h => ?_
    rw [if_neg (Bool.eq_false_iff.mp h)] at hsorter
    refine ensures_check (fun h => hnone (hsorter.trans (if_pos h))) fun h => ?_
    rw [if_neg (Bool.eq_false_iff.mp h)] at hsorter
    rw [hsorter]
    have hfeed : ∀ {ds s b E}, Ensures (Has ds s)
        (modify fun t => { t with feeding := b } : MapM Unit) (fun _ => Has ds s) E :=
      fun {ds s b E} => ensures_modify fun _ ⟨ss, hss, h⟩ => ⟨ss, hss, h.feed b⟩
    refine ensures_bind hfeed fun _ => ensures_bind
      (Q := fun _ => Has (.cleanup .combiner :: ds) (newSpillingSorter env.thresholdBytes))
      (ensures_modify fun _ ⟨ss, hss, h⟩ => ⟨ss, hss, h.defer nofun⟩) fun _ =>
      ensures_bind (has_collect hspill List.mem_cons_self c) fun _ => ?_
    rintro t ⟨s, hs, ht⟩
    rw [hs]
    refine ensures_bind hfeed (fun _ => ensures_bind (has_close hr) fun _ => ?_) t ht
    exact (piped_finalize hspill List.mem_cons_self).exit fun _ _ h =>
      ⟨h.left, .inl h.cause, h.fresh⟩

/-- All of runMap, given what holds of the partition phase. -/
theorem body_exit {R : Temp → Prop}
    (hearly : ∀ e t, Early (fails ∨ env.combinerSorter w = none) t → E e t)
    (hpartition : ∀ sorted, Ensures (fun t => Left t ∧ Piped (env.combinerWrites w) sorted t)
      (partition w a env sorted.1 sorted.2.err (lines isNewline sorted.2.bytes) .empty)
      (fun _ => R) E)
    (hexit : ∀ e t, R t → E e t) (helapse : ∀ t, R t → R (t.elapse env)) :
    Ensures (Within [] fun _ => newSpillingSorter env.thresholdBytes) (body w a env) (fun _ => R)
      E := by
  have hsorter : env.combinerSorter w = _ := rfl
  conv_rhs at hsorter => unfold MapEnv.combinerSorter
  refine ensures_check (fun h t ht => hearly _ t (ht.early (.inr (hsorter.trans (if_pos h)))))
    fun h => ?_
  rw [if_neg (Bool.eq_false_iff.mp h)] at hsorter
  refine ensures_check (fun h t ht => hearly _ t (ht.early (.inr (hsorter.trans (if_pos h)))))
    fun h => ?_
  rw [if_neg (Bool.eq_false_iff.mp h)] at hsorter
  refine ensures_check (fun h t ht => hearly _ t (ht.early (.inr (hsorter.trans (if_pos h)))))
    fun h => ?_
  rw [if_neg (Bool.eq_false_iff.mp h)] at hsorter
  refine ensures_bind
    (Q := fun _ => Within [.cleanup .mapper] fun _ => newSpillingSorter env.thresholdBytes)
    (ensures_modify fun _ h => h.defer nofun) fun _ => ?_
  refine ensures_bind ((computes_collect hspill List.mem_cons_self env.mapper).exit ?_)
    fun _ => ?_
  · rintro e t ⟨hleft, hfails | hnone, hfresh⟩
    · exact hearly e t ⟨hleft, .inl hfails, hfresh⟩
    · refine hearly e t ⟨hleft, .inr ?_, hfresh⟩
      rw [hsorter, hnone]
      rfl
  rintro t ⟨s, hs, ht⟩
  rw [hs, Option.bind_some] at hsorter
  refine ensures_bind ((has_finalize hspill List.mem_cons_self (by simp)).exit fun e t h =>
    hearly e t ⟨h.left, .inl h.cause, h.fresh⟩) (fun sorted => ?_) t ht
  refine ensures_bind (Q := fun _ t => sorted.1 ≠ .pipe .combiner ∧
    Has [.close sorted.1, .cleanup .mapper] (newSpillingSorter env.thresholdBytes) t)
    (ensures_modify fun _ h => h) fun _ => ?_
  refine ensures_of_fact fun t h => ?_
  refine ensures_bind (((piped_combine hspill h.1 hsorter).pre fun _ h => h.2).exit hearly)
    fun sorted => ensures_bind (hpartition sorted) fun st => ?_
  exact ensures_bind (ensures_closePartitions hexit helapse _ _) fun closed =>
    ensures_pure fun _ h => h

end Spills

theorem within_new (thresholdBytes : Int) :
    Within [] (fun _ => newSpillingSorter thresholdBytes) (.new thresholdBytes) :=
  ⟨rfl, ⟨nofun, fun _ h => absurd rfl h, nofun, nofun, nofun⟩, fun _ _ => rfl, fun _ => rfl⟩

theorem left_partition (reader : SortedReader) (err : Option MergeErr) (ls : List Bytes)
    (st : Partitions) :
    Ensures Left (partition w a env reader err ls st) (fun _ => Left) fun _ => Left := by
  refine ensures_partition (I := fun _ => Left) (fun _ _ _ h => h) (fun _ _ h => h.elapse env)
    (fun _ _ moves h => h.moveAll moves) (fun _ _ _ h => h) (fun code _ _ t h => ?_) ls st
  split
  · exact h.take code
  · exact fun _ => h.take code

/-- When the body has returned, at any exit. -/
theorem left_body (w : MapWorker) (a : TaskAssignment) (env : MapEnv) :
    Left (body w a env (.new env.thresholdBytes)).2 := by
  have hbody : Ensures _ (body w a env) (fun _ => Left) fun _ => Left :=
    body_exit (fun _ _ => trivial) (fun _ _ h => h.left)
      (fun _ => (left_partition _ _ _ _).pre fun _ h => h.1) (fun _ _ h => h)
      fun _ h => h.elapse env
  exact hbody.state (within_new env.thresholdBytes)

/-- With the deferred calls done. -/
theorem guards_exit (w : MapWorker) (a : TaskAssignment) (env : MapEnv) :
    Guards [] (runMap w a env).2 :=
  guards_unwind (left_body w a env) env

end Walk

end MapFiles

end KubeMapReduce
