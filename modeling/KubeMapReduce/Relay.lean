import KubeMapReduce.Outbox

/-!
# What the relay guarantees

Every row is inserted with the type of its event. RecordDeliveryFailures saves that type when it
dead-letters a row and ReprocessEvent restores it, so neither loses it: a row is dead-lettered
exactly by the failure with which its retries are used up (`dead_letter_exact`).

Only the batch in which Publish accepted an event marks it delivered, only delivered rows are
deleted, and open transactions hold different events. A delivered event is not published again
by a relay whose transaction is open (`relay_at_least_once`). A relay that has lost its
transaction goes on with its loop, and then it does publish such an event
(`delivered_published_again`).
-/

namespace KubeMapReduce

open Runs Tables

variable {b : Batch} {l : List Deed} {n : Nat} {random : UUID → Nat}

/-! ## 1. Delivery -/

/-- The transaction of the batch `x` is open. -/
def Outbox.holds (s : Outbox) (x : Nat) : Bool := (s.batches.get? x).any (·.held)

section Delivery

variable {m : Nat} {s t : Outbox} {a : RelayAct} {r r' : OutboxRow}

theorem settle_delivered (h : (b.settle m random r).delivered = true) :
    r.delivered = true ∨ r.eventID ∈ b.delivered.map (·.eventID) := by
  have hmark : (b.mark r).delivered = true := by
    unfold Batch.settle at h
    split at h
    · exact h
    · exact h
  unfold Batch.mark at hmark
  split at hmark
  · next hm => exact .inr hm
  · exact .inl hmark

theorem settle_delivered_of (h : r.delivered = true) : (b.settle m random r).delivered = true := by
  have hmark : (b.mark r).delivered = true := by
    unfold Batch.mark
    split
    · rfl
    · exact h
  unfold Batch.settle
  split
  · exact hmark
  · exact hmark

/-- Only a commit marks rows delivered: those that Publish has accepted. -/
theorem rewrite_delivered (h : a.rewrite m s r = some r') (hr' : r'.delivered = true) :
    r.delivered = true ∨ ∃ x random b, a = .commit x random ∧ s.batches.get? x = some b ∧
      r.eventID ∈ b.delivered.map (·.eventID) := by
  rcases rewrite_cases h with rfl | ⟨x, random, b, ha, hb, rfl⟩ | ⟨_, now, rfl⟩
  · exact .inl hr'
  · exact (settle_delivered hr').imp_right fun hm => ⟨x, random, b, ha, hb, hm⟩
  · exact .inl hr'

theorem rewrite_delivered_of (h : a.rewrite m s r = some r') (hr : r.delivered = true) :
    r'.delivered = true := by
  rcases rewrite_cases h with rfl | ⟨_, _, b, _, _, rfl⟩ | ⟨_, now, rfl⟩
  · exact hr
  · exact settle_delivered_of hr
  · exact hr

theorem delivered_of_rewrite_none (h : a.rewrite m s r = none) : r.delivered = true := by
  cases a with
  | purge cutoff =>
    dsimp only [RelayAct.rewrite] at h
    split at h
    · next hp => exact (Bool.and_eq_true_iff.mp hp).1
    · cases h
  | _ => cases h

/-- The row with number `n` has been inserted, and it is delivered as long as it is there. -/
def Outbox.Done (s : Outbox) (n : Nat) : Prop :=
  n < s.nextID ∧ ∀ r ∈ s.rows.rows, r.id = n → r.delivered = true

theorem adds_id (h : r ∈ a.adds s) : r.id = s.nextID := by
  cases a with
  | insertEvent e now =>
    rw [List.mem_singleton.mp h]
    rfl
  | _ => cases h

theorem done_next (hd : s.Done n) (h : relayNext m s a = some t) : t.Done n := by
  refine ⟨Nat.lt_of_lt_of_le hd.1 ((advances h).nextID ▸ Nat.le_add_right _ _), ?_⟩
  intro r' hr' hid
  rcases (mem_next h).mp hr' with ⟨r, hr, hw⟩ | hadd
  · exact rewrite_delivered_of hw (hd.2 r hr ((rewrite_id hw).1 ▸ hid))
  · exact absurd hid (adds_id hadd ▸ Nat.ne_of_gt hd.1)

theorem done_of_delivered (hs : s.Sound) (hr : r ∈ s.rows.rows) (hd : r.delivered = true) :
    s.Done r.id := by
  refine ⟨hs.numbered r hr, fun q hq hid => ?_⟩
  rwa [hs.eq_of_id hq hr hid]

theorem holds_iff {x : Nat} : s.holds x = true ↔ ∃ b, s.batches.get? x = some b ∧ b.held = true :=
  Option.any_eq_true ..

end Delivery

/-- A row is marked delivered only by the commit of a batch in which Publish returned success for
it; no row that is not delivered is deleted; two open transactions hold different events; and a
relay whose transaction is open does not publish a delivered row again. -/
theorem relay_at_least_once {m : Nat} {as : List RelayAct} {s : Outbox}
    (h : Run (RelayStep m) .empty as s) :
    (∀ a t, relayNext m s a = some t → ∀ r' ∈ t.rows.rows, r'.delivered = true →
      (∀ r ∈ s.rows.rows, r.id = r'.id → r.delivered = false) →
      ∃ x random, a = .commit x random ∧ s.holds x = true ∧
        .published x r'.id none ∈ s.deeds) ∧
    (∀ a t, relayNext m s a = some t → ∀ r ∈ s.rows.rows,
      (∀ r' ∈ t.rows.rows, r'.id ≠ r.id) → r.delivered = true) ∧
    (∀ x y b c, s.batches.get? x = some b → s.batches.get? y = some c → x ≠ y →
      b.held = true → c.held = true → ∀ r ∈ b.rows, ∀ r' ∈ c.rows, r.eventID ≠ r'.eventID) ∧
    ∀ r ∈ s.rows.rows, r.delivered = true → ∀ bs t, Run (RelayStep m) s bs t →
      ∀ x, t.holds x = true → ∀ r', t.publishing x = some r' → r'.id ≠ r.id := by
  have hs := locks_run h
  refine ⟨?_, ?_, ?_, ?_⟩
  · intro a t ha r' hr' hd hnew
    rcases (mem_next ha).mp hr' with ⟨r, hr, hw⟩ | hadd
    · have hid := (rewrite_id hw).1
      rcases rewrite_delivered hw hd with hd | ⟨x, random, b, rfl, hb, hm⟩
      · rw [hnew r hr hid.symm] at hd
        cases hd
      · obtain ⟨c, hc, hheld, -, -⟩ := next_commit ha
        rw [hb] at hc
        cases hc
        refine ⟨x, random, rfl, holds_iff.mpr ⟨b, hb, hheld⟩, ?_⟩
        -- the row that the batch counts as delivered is the row of the table
        obtain ⟨q, hq, he⟩ := List.mem_map.mp hm
        have hqs := (hs.current b (Table.mem_of_get? hb) hheld q
          (List.mem_append_left _ (List.mem_append_left _ hq))).1
        have hqr : q = r := List.inj_on_of_nodup_map s.rows.nodup hqs hr he
        rw [hid, ← hqr, ← Table.key_of_get? hb]
        exact hs.told b (Table.mem_of_get? hb) q hq
    · cases a with
      | insertEvent e now =>
        rw [List.mem_singleton.mp hadd] at hd
        cases hd
      | _ => cases hadd
  · intro a t ha r hr hgone
    cases hw : a.rewrite m s r with
    | none => exact delivered_of_rewrite_none hw
    | some r' => exact absurd (rewrite_id hw).1 (hgone r' ((mem_next ha).mpr (.inl ⟨r, hr, hw⟩)))
  · intro x y b c hb hc hne hbh hch r hr r' hr' he
    refine hs.apart b (Table.mem_of_get? hb) c (Table.mem_of_get? hc) hbh hch ?_ r hr
      (List.mem_map.mpr ⟨r', hr', he.symm⟩)
    rw [Table.key_of_get? hb, Table.key_of_get? hc]
    exact hne
  · intro r hr hd bs t hbs x hx r' hpub hid
    have hdone : t.Done r.id :=
      hbs.invariant (fun _ _ _ hd h => done_next hd h) (done_of_delivered hs hr hd)
    obtain ⟨b, hb, hheld⟩ := holds_iff.mp hx
    have hclaim : r' ∈ b.rows := by
      rw [Outbox.publishing, hb] at hpub
      exact List.mem_append_right _ (List.mem_of_mem_head? hpub)
    obtain ⟨hmem, hwait, -⟩ :=
      (locks_run (h.append hbs)).current b (Table.mem_of_get? hb) hheld r' hclaim
    rw [hdone.2 r' hmem hid] at hwait
    cases hwait

def cancelEvent (e : UUID) : EventEnvelope := ⟨e, .jobCancelRequested, .jobCancelRequested 1⟩

/-- Two relays share two events, and the first one has delivered its own. -/
def sharedEvents : List RelayAct :=
  [.insertEvent (cancelEvent 1) 0, .insertEvent (cancelEvent 2) 0, .claim 1 (fun _ => true) 0,
    .claim 1 (fun _ => true) 0, .publish 0 none, .commit 0 fun _ => 0]

theorem relay_at_least_once_shared :
    ∃ s, Run (RelayStep 3) .empty sharedEvents s ∧ s.rows.rows.map (·.delivered) = [true, false] ∧
      (s.publishing 1).map (·.id) = some 1 ∧
      ∀ r ∈ s.rows.rows, r.delivered = true → ∀ r', s.publishing 1 = some r' → r'.id ≠ r.id := by
  obtain ⟨s, hs, hrows, hpub, hopen⟩ := (run_to (by decide) :
    ∃ s, Run (RelayStep 3) .empty sharedEvents s ∧ s.rows.rows.map (·.delivered) = [true, false] ∧
      (s.publishing 1).map (·.id) = some 1 ∧ s.holds 1 = true)
  exact ⟨s, hs, hrows, hpub, fun r hr hd r' hpub' =>
    (relay_at_least_once hs).2.2.2 r hr hd [] s (.nil s) 1 hopen r' hpub'⟩

/-- The transaction of relay 0 is rolled back behind the check of its context. Relay 1 claims,
publishes and commits the event; relay 0 is still about to publish it, and does. -/
theorem delivered_published_again :
    ∃ s, Run (RelayStep 3) .empty
        [.insertEvent (cancelEvent 1) 0, .claim 1 (fun _ => true) 0, .lose 0,
          .claim 1 (fun _ => true) 0, .publish 1 none, .commit 1 fun _ => 0] s ∧
      s.rows.rows.map (fun r => (r.id, r.delivered)) = [(0, true)] ∧
      (s.publishing 0).map (·.id) = some 0 ∧
      (relayNext 3 s (.publish 0 none)).map (·.deeds.head?) = some (some (.published 0 0 none)) :=
  run_to (by decide)

/-! ## 2. Dead letters -/

/-- The type of the event with which row `n` was inserted. -/
def insertedAs (n : Nat) : List Deed → Option EventType
  | .inserted k ty :: ds => if k = n then some ty else insertedAs n ds
  | _ :: ds => insertedAs n ds
  | [] => none

/-- The failures recorded for row `n` since its insertion or since it was last put back. -/
def failuresSince (n : Nat) : List Deed → Nat
  | .inserted k _ :: ds => if k = n then 0 else failuresSince n ds
  | .reprocessed k :: ds => if k = n then 0 else failuresSince n ds
  | .failed k :: ds => if k = n then failuresSince n ds + 1 else failuresSince n ds
  | .published .. :: ds => failuresSince n ds
  | [] => 0

/-- The deed is about row `n`; what Publish was called with does not count. -/
def Deed.about (n : Nat) : Deed → Prop
  | .inserted k _ => k = n
  | .reprocessed k => k = n
  | .failed k => k = n
  | .published .. => False

theorem deeds_skip {ds : List Deed} (h : ∀ d ∈ ds, ¬ d.about n) :
    insertedAs n (ds ++ l) = insertedAs n l ∧ failuresSince n (ds ++ l) = failuresSince n l := by
  induction ds with
  | nil => exact ⟨rfl, rfl⟩
  | cons d ds ih =>
    have hd := h d List.mem_cons_self
    rw [← (ih fun d hd => h d (List.mem_cons_of_mem _ hd)).1,
      ← (ih fun d hd => h d (List.mem_cons_of_mem _ hd)).2]
    cases d with
    | inserted k ty => exact ⟨if_neg hd, if_neg hd⟩
    | reprocessed k => exact ⟨rfl, if_neg hd⟩
    | failed k => exact ⟨rfl, if_neg hd⟩
    | published x k err => exact ⟨rfl, rfl⟩

/-- Failures of different rows are recorded once each. -/
theorem deeds_failed {ns : List Nat} (hn : ns.Nodup) :
    insertedAs n (ns.map .failed ++ l) = insertedAs n l ∧
      failuresSince n (ns.map .failed ++ l) = failuresSince n l + if n ∈ ns then 1 else 0 := by
  induction ns with
  | nil => exact ⟨rfl, rfl⟩
  | cons k ns ih =>
    obtain ⟨hk, hn⟩ := List.nodup_cons.mp hn
    obtain ⟨ih₁, ih₂⟩ := ih hn
    refine ⟨ih₁, ?_⟩
    show (if k = n then failuresSince n (ns.map .failed ++ l) + 1
      else failuresSince n (ns.map .failed ++ l)) = _
    rw [ih₂]
    split
    · next h =>
      subst h
      rw [if_neg hk, if_pos List.mem_cons_self]
    · next h =>
      simp only [List.mem_cons, Ne.symm h, false_or]

/-- The rows that were put back start again. -/
theorem deeds_reprocessed (n : Nat) (ns : List Nat) (l : List Deed) :
    insertedAs n (ns.map .reprocessed ++ l) = insertedAs n l ∧
      failuresSince n (ns.map .reprocessed ++ l) = if n ∈ ns then 0 else failuresSince n l := by
  induction ns with
  | nil => exact ⟨rfl, rfl⟩
  | cons k ns ih =>
    refine ⟨ih.1, ?_⟩
    show (if k = n then 0 else failuresSince n (ns.map .reprocessed ++ l)) = _
    rw [ih.2]
    split
    · next h => rw [if_pos (h ▸ List.mem_cons_self)]
    · next h => simp only [List.mem_cons, Ne.symm h, false_or]

/-- What holds of a row: its type, its saved type and its counter agree with what was done to
it. -/
structure Outbox.Typed (m : Nat) (s : Outbox) (r : OutboxRow) : Prop where
  origin : insertedAs r.id s.deeds = some (r.originalEventType.getD r.eventType)
  proper : r.originalEventType.getD r.eventType ≠ .eventDeadLetter
  saved : r.eventType = .eventDeadLetter ↔ r.originalEventType.isSome = true
  tally : failuresSince r.id s.deeds = r.retryCount
  dead : r.eventType = .eventDeadLetter ↔ r.retryCount = m
  bound : r.retryCount ≤ m

/-- InsertEvent is called with a type other than the one of dead letters. -/
def typedInserts : RelayAct → Prop
  | .insertEvent e _ => e.eventType ≠ .eventDeadLetter
  | _ => True

instance (a : RelayAct) : Decidable (typedInserts a) := by
  induction a using RelayAct.casesOn <;> dsimp only [typedInserts] <;> infer_instance

section Typed

variable {m : Nat} {s t : Outbox} {a : RelayAct} {r r' : OutboxRow}

/-- A row whose type, saved type and counter stay, and about which nothing was done. -/
theorem Outbox.Typed.keep (h : s.Typed m r) (hid : r'.id = r.id) (hty : r'.eventType = r.eventType)
    (horig : r'.originalEventType = r.originalEventType) (hcount : r'.retryCount = r.retryCount)
    (hdeeds : insertedAs r.id t.deeds = insertedAs r.id s.deeds ∧
      failuresSince r.id t.deeds = failuresSince r.id s.deeds) : t.Typed m r' where
  origin := by rw [hid, hty, horig, hdeeds.1, h.origin]
  proper := by rw [hty, horig]; exact h.proper
  saved := by rw [hty, horig]; exact h.saved
  tally := by rw [hid, hcount, hdeeds.2, h.tally]
  dead := by rw [hty, hcount]; exact h.dead
  bound := by rw [hcount]; exact h.bound

/-- The failure of a row that is not dead-lettered saves the type exactly when the retries are
used up. -/
theorem Outbox.Typed.fail (h : s.Typed m r) (hty : r.eventType ≠ .eventDeadLetter)
    {now : Time} {random : Nat} {err : String}
    (horigin : insertedAs r.id t.deeds = insertedAs r.id s.deeds)
    (htally : failuresSince r.id t.deeds = failuresSince r.id s.deeds + 1) :
    t.Typed m (r.fail m now random err) := by
  have hnone : r.originalEventType = none := by
    rw [← Option.not_isSome_iff_eq_none, ← h.saved]
    exact hty
  have hlt : r.retryCount < m := Nat.lt_of_le_of_ne h.bound fun he => hty (h.dead.mpr he)
  have horig := h.origin
  have hproper := h.proper
  rw [hnone, Option.getD_none] at horig hproper
  unfold OutboxRow.fail
  by_cases hlast : r.retryCount + 1 ≥ m
  · rw [if_pos hlast, if_pos ⟨hlast, hty⟩]
    exact ⟨horigin.trans horig, hproper, iff_of_true rfl rfl, by rw [htally, h.tally],
      iff_of_true rfl (Nat.le_antisymm hlt hlast), hlt⟩
  · rw [if_neg hlast, if_neg fun hc => hlast hc.1, hnone]
    exact ⟨horigin.trans horig, hproper, iff_of_false hty (by simp), by rw [htally, h.tally],
      iff_of_false hty fun he => hlast (Nat.le_of_eq he.symm), hlt⟩

theorem Outbox.Typed.reprocess (hm : 1 ≤ m) (h : s.Typed m r) {now : Time}
    (horigin : insertedAs r.id t.deeds = insertedAs r.id s.deeds)
    (htally : failuresSince r.id t.deeds = 0) : t.Typed m (r.reprocess now) :=
  ⟨horigin.trans h.origin, h.proper, iff_of_false h.proper (by simp [OutboxRow.reprocess]), htally,
    iff_of_false h.proper (Nat.ne_of_lt hm), Nat.zero_le m⟩

theorem typed_new (hm : 1 ≤ m) {e : EventEnvelope} {now : Time}
    (he : e.eventType ≠ .eventDeadLetter) (hd : t.deeds = .inserted s.nextID e.eventType :: l) :
    t.Typed m (.new s.nextID e now) :=
  ⟨by rw [hd]; exact if_pos rfl, he, iff_of_false he (by simp [OutboxRow.new]),
    by rw [hd]; exact if_pos rfl, iff_of_false he (Nat.ne_of_lt hm), Nat.zero_le m⟩

theorem errorOf_isSome {e : UUID} :
    (b.errorOf e).isSome = true ↔ ∃ f ∈ b.failures, f.1.eventID = e := by
  rw [Batch.errorOf, List.lookup_isSome_iff]
  constructor
  · rintro ⟨p, hp, he⟩
    obtain ⟨f, hf, rfl⟩ := List.mem_map.mp hp
    exact ⟨f, hf, (beq_iff_eq.mp he).symm⟩
  · rintro ⟨f, hf, rfl⟩
    exact ⟨_, List.mem_map_of_mem hf, beq_self_eq_true _⟩

/-- The rows for which a batch records failures, by number. -/
theorem failures_nodup (hs : s.Sound) (hb : b ∈ s.batches.rows) (hheld : b.held = true) :
    (b.failures.map fun f => f.1.id).Nodup ∧
      ∀ r ∈ s.rows.rows, r.id ∈ b.failures.map (fun f => f.1.id) ↔
        (b.errorOf r.eventID).isSome := by
  have hrow : ∀ f ∈ b.failures, f.1 ∈ b.rows := fun f hf =>
    List.mem_append_left _ (List.mem_append_right _ (List.mem_map_of_mem hf))
  have hmem : ∀ f ∈ b.failures, f.1 ∈ s.rows.rows := fun f hf =>
    (hs.current b hb hheld f.1 (hrow f hf)).1
  have honce : (b.failures.map fun f => f.1.eventID).Nodup := by
    have hsub : (b.failures.map (·.1)).Sublist b.rows :=
      (List.sublist_append_right _ _).trans (List.sublist_append_left _ _)
    have := (hs.once b hb).sublist (hsub.map (·.eventID))
    rwa [List.map_map] at this
  constructor
  · refine List.Nodup.map_on ?_ (List.Nodup.of_map _ honce)
    intro f hf g hg hid
    exact List.inj_on_of_nodup_map honce hf hg
      (congrArg (·.eventID) (hs.eq_of_id (hmem f hf) (hmem g hg) hid))
  · intro r hr
    rw [errorOf_isSome, List.mem_map]
    constructor
    · rintro ⟨f, hf, hid⟩
      exact ⟨f, hf, congrArg (·.eventID) (hs.eq_of_id (hmem f hf) hr hid)⟩
    · rintro ⟨f, hf, he⟩
      exact ⟨f, hf, congrArg (·.id) (List.inj_on_of_nodup_map s.rows.nodup (hmem f hf) hr he)⟩

theorem typed_commit (hs : s.Sound) (ht : ∀ r ∈ s.rows.rows, s.Typed m r) (hb : b ∈ s.batches.rows)
    (hheld : b.held = true) (random : UUID → Nat) (hr : r ∈ s.rows.rows) :
    (commitBatch m random s b).Typed m (b.settle m random r) := by
  obtain ⟨hnodup, hmem⟩ := failures_nodup hs hb hheld
  have hdeeds : (commitBatch m random s b).deeds =
      (b.failures.map fun f => f.1.id).map .failed ++ s.deeds := by
    rw [List.map_map]
    rfl
  have hcount := deeds_failed (n := r.id) (l := s.deeds) hnodup
  rw [← hdeeds] at hcount
  have hmark : (b.mark r).id = r.id ∧ (b.mark r).eventType = r.eventType ∧
      (b.mark r).originalEventType = r.originalEventType ∧
      (b.mark r).retryCount = r.retryCount := by
    unfold Batch.mark
    split <;> exact ⟨rfl, rfl, rfl, rfl⟩
  unfold Batch.settle
  cases herr : b.errorOf r.eventID with
  | none =>
    have hout : r.id ∉ b.failures.map (fun f => f.1.id) := by
      rw [hmem r hr, herr]
      simp
    rw [if_neg hout] at hcount
    exact (ht r hr).keep hmark.1 hmark.2.1 hmark.2.2.1 hmark.2.2.2 hcount
  | some err =>
    have hin : r.id ∈ b.failures.map (fun f => f.1.id) := by
      rw [hmem r hr, herr]
      rfl
    rw [if_pos hin] at hcount
    obtain ⟨f, hf, hid⟩ := List.mem_map.mp hin
    obtain ⟨hfs, -, hty⟩ := hs.current b hb hheld f.1
      (List.mem_append_left _ (List.mem_append_right _ (List.mem_map_of_mem hf)))
    rw [hs.eq_of_id hfs hr hid] at hty
    have hkept : s.Typed m (b.mark r) :=
      (ht r hr).keep hmark.1 hmark.2.1 hmark.2.2.1 hmark.2.2.2 ⟨rfl, rfl⟩
    refine hkept.fail (hmark.2.1 ▸ hty) ?_ ?_
    · rw [hmark.1]
      exact hcount.1
    · rw [hmark.1]
      exact hcount.2

theorem typed_reprocess (hm : 1 ≤ m) (hs : s.Sound) (ht : ∀ r ∈ s.rows.rows, s.Typed m r)
    (e : UUID) (now : Time) (hr : r ∈ s.rows.rows) :
    (reprocessEvent s e now).Typed m
      (if r.eventID = e ∧ r.eventType = .eventDeadLetter then r.reprocess now else r) := by
  have hdeeds : (reprocessEvent s e now).deeds = ((s.rows.rows.filter fun r =>
      decide (r.eventID = e ∧ r.eventType = .eventDeadLetter)).map (·.id)).map .reprocessed
        ++ s.deeds := by
    rw [List.map_map]
    rfl
  have hcount := deeds_reprocessed r.id ((s.rows.rows.filter fun r =>
    decide (r.eventID = e ∧ r.eventType = .eventDeadLetter)).map (·.id)) s.deeds
  rw [← hdeeds] at hcount
  split
  · next hp =>
    rw [if_pos (List.mem_map_of_mem (List.mem_filter.mpr ⟨hr, decide_eq_true hp⟩))] at hcount
    exact (ht r hr).reprocess hm hcount.1 hcount.2
  · next hp =>
    rw [if_neg] at hcount
    · exact (ht r hr).keep rfl rfl rfl rfl hcount
    · intro hmem
      obtain ⟨q, hq, hid⟩ := List.mem_map.mp hmem
      obtain ⟨hqs, hqp⟩ := List.mem_filter.mp hq
      rw [hs.eq_of_id hqs hr hid] at hqp
      exact hp (of_decide_eq_true hqp)

theorem typed_next (hm : 1 ≤ m) (hs : s.Sound) (ht : ∀ r ∈ s.rows.rows, s.Typed m r)
    (h : relayNext m s a = some t) (hok : typedInserts a) : ∀ r ∈ t.rows.rows, t.Typed m r := by
  intro r' hr'
  have hsame : (∀ d ∈ a.records s, ¬ d.about r'.id) → r' ∈ s.rows.rows → t.Typed m r' := by
    intro hd hr
    refine (ht r' hr).keep rfl rfl rfl rfl ?_
    rw [(advances h).deeds]
    exact deeds_skip hd
  rcases (mem_next h).mp hr' with ⟨r, hr, hw⟩ | hadd
  · cases a with
    | insertEvent e now =>
      cases hw
      refine hsame (fun d hd => ?_) hr
      rw [List.mem_singleton.mp hd]
      exact Nat.ne_of_gt (hs.numbered r' hr)
    | publish x err =>
      cases hw
      refine hsame (fun d hd => ?_) hr
      obtain ⟨c, -, rfl⟩ := List.mem_map.mp hd
      exact id
    | commit x random =>
      obtain ⟨b, hb, hheld, -, rfl⟩ := next_commit h
      dsimp only [RelayAct.rewrite] at hw
      rw [hb] at hw
      cases hw
      exact typed_commit hs ht (Table.mem_of_get? hb) hheld random hr
    | reprocessEvent e now =>
      cases h
      cases hw
      exact typed_reprocess hm hs ht e now hr
    | purge cutoff =>
      dsimp only [RelayAct.rewrite] at hw
      split at hw
      · cases hw
      · cases hw
        exact hsame (by simp [RelayAct.records]) hr
    | _ =>
      cases hw
      exact hsame (by simp [RelayAct.records]) hr
  · cases a with
    | insertEvent e now =>
      rw [List.mem_singleton.mp hadd]
      obtain ⟨-, rfl⟩ := next_insertEvent h
      exact typed_new hm hok rfl
    | _ => cases hadd

theorem typed_run (hm : 1 ≤ m) {as : List RelayAct}
    (h : Run (Under (RelayStep m) fun _ => typedInserts) .empty as s) :
    s.Sound ∧ ∀ r ∈ s.rows.rows, s.Typed m r := by
  refine h.invariant (I := fun s => s.Sound ∧ ∀ r ∈ s.rows.rows, s.Typed m r) ?_ ?_
  · rintro s a t ⟨hs, ht⟩ ⟨h, hok⟩
    exact ⟨locks_next hs h, typed_next hm hs ht h hok⟩
  · exact ⟨locks_empty, by simp [Outbox.empty, Table.empty]⟩

/-- Only a recorded failure dead-letters a row, when its retries are used up. -/
theorem rewrite_dead (h : a.rewrite m s r = some r') (hlive : r.eventType ≠ .eventDeadLetter)
    (hdead : r'.eventType = .eventDeadLetter) : ∃ x random b, a = .commit x random ∧
      s.batches.get? x = some b ∧ (b.errorOf r.eventID).isSome = true ∧ m ≤ r.retryCount + 1 := by
  rcases rewrite_cases h with rfl | ⟨x, random, b, ha, hb, rfl⟩ | ⟨hty, _⟩
  · exact absurd hdead hlive
  · have hmark : (b.mark r).eventType = r.eventType ∧ (b.mark r).retryCount = r.retryCount := by
      unfold Batch.mark
      split <;> exact ⟨rfl, rfl⟩
    refine ⟨x, random, b, ha, hb, ?_⟩
    unfold Batch.settle at hdead
    split at hdead
    · exact absurd (hmark.1.symm.trans hdead) hlive
    · next err herr =>
      rw [herr]
      refine ⟨rfl, Nat.le_of_not_lt fun hlt => ?_⟩
      unfold OutboxRow.fail at hdead
      rw [hmark.1, hmark.2, if_neg (Nat.not_le.mpr hlt)] at hdead
      exact hlive hdead
  · exact absurd hty hlive

end Typed

/-- In every run the saved type, or else the type, of a row is the one that it was inserted with;
a row is of the type of dead letters exactly when it has a saved type, and exactly when the
failures recorded since its insertion or its last ReprocessEvent are `maxRetries`. A step that
dead-letters a row records the last of these. -/
theorem dead_letter_exact {maxRetries : Nat} (hm : 1 ≤ maxRetries) {as : List RelayAct}
    {s : Outbox} (h : Run (Under (RelayStep maxRetries) fun _ => typedInserts) .empty as s) :
    (∀ r ∈ s.rows.rows,
      insertedAs r.id s.deeds = some (r.originalEventType.getD r.eventType) ∧
      (r.eventType = .eventDeadLetter ↔ r.originalEventType.isSome = true) ∧
      (r.eventType = .eventDeadLetter ↔ failuresSince r.id s.deeds = maxRetries) ∧
      failuresSince r.id s.deeds ≤ maxRetries) ∧
    ∀ a t, relayNext maxRetries s a = some t → ∀ r ∈ s.rows.rows, ∀ r' ∈ t.rows.rows,
      r'.id = r.id → r.eventType ≠ .eventDeadLetter → r'.eventType = .eventDeadLetter →
      .failed r.id ∈ a.records s ∧ failuresSince r.id s.deeds + 1 = maxRetries := by
  obtain ⟨hs, ht⟩ := typed_run hm h
  refine ⟨fun r hr => ?_, ?_⟩
  · have hr := ht r hr
    rw [hr.tally]
    exact ⟨hr.origin, hr.saved, hr.dead, hr.bound⟩
  · intro a t ha r hr r' hr' hid hlive hdead
    rcases (mem_next ha).mp hr' with ⟨q, hq, hw⟩ | hadd
    · cases hs.eq_of_id hq hr ((rewrite_id hw).1.symm.trans hid)
      obtain ⟨x, random, b, rfl, hb, herr, hle⟩ := rewrite_dead hw hlive hdead
      obtain ⟨c, hc, hheld, -, -⟩ := next_commit ha
      rw [hb] at hc
      cases hc
      have hfail := ((failures_nodup hs (Table.mem_of_get? hb) hheld).2 r hr).mpr herr
      have hlt : r.retryCount < maxRetries :=
        Nat.lt_of_le_of_ne (ht r hr).bound fun he => hlive ((ht r hr).dead.mpr he)
      refine ⟨?_, (ht r hr).tally.symm ▸ Nat.le_antisymm hlt hle⟩
      obtain ⟨f, hf, hfid⟩ := List.mem_map.mp hfail
      refine List.mem_map.mpr ⟨f, ?_, congrArg Deed.failed hfid⟩
      rw [hb, Option.toList_some, List.flatMap_singleton]
      exact hf
    · exact absurd (hid.symm.trans (adds_id hadd)) (Nat.ne_of_lt (hs.numbered r hr))

/-- A relay has at least one retry, whatever its configuration says. -/
theorem relayMaxRetries_pos (cfg : Int) : 1 ≤ relayMaxRetries cfg := by
  unfold relayMaxRetries
  split <;> omega

/-- One event, claimed, refused by Publish and recorded, `n` times over. -/
def publishRefused : Nat → Nat → List RelayAct
  | 0, _ => []
  | n + 1, x => [.claim 1 (fun _ => true) (x * 60 * second), .publish x (some "no responders"),
      .commit x fun _ => 0] ++ publishRefused n (x + 1)

/-- With the default of three retries the third failure dead-letters the event, which keeps its own
type beside. -/
theorem dead_letter_exact_third :
    ∃ s, Run (Under (RelayStep 3) fun _ => typedInserts) .empty
        (.insertEvent (cancelEvent 1) 0 :: publishRefused 3 0) s ∧
      s.rows.rows.map (fun r => (r.eventType, r.originalEventType)) =
        [(.eventDeadLetter, some .jobCancelRequested)] ∧
      ∀ r ∈ s.rows.rows, insertedAs r.id s.deeds = some (r.originalEventType.getD r.eventType) ∧
        (r.eventType = .eventDeadLetter ↔ failuresSince r.id s.deeds = 3) := by
  obtain ⟨s, hs, hrows⟩ := (run_toUnder (by decide) :
    ∃ s, Run (Under (RelayStep 3) fun _ => typedInserts) .empty
        (.insertEvent (cancelEvent 1) 0 :: publishRefused 3 0) s ∧
      s.rows.rows.map (fun r => (r.eventType, r.originalEventType)) =
        [(.eventDeadLetter, some .jobCancelRequested)])
  refine ⟨s, hs, hrows, fun r hr => ?_⟩
  obtain ⟨horigin, -, hdead, -⟩ := (dead_letter_exact (relayMaxRetries_pos 0) hs).1 r hr
  exact ⟨horigin, hdead⟩

end KubeMapReduce
