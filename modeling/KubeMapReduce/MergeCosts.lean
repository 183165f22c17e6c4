import KubeMapReduce.ExternalMerge

/-!
# The costs of an external merge

Each pass of MergeInputs leaves a file for every batch, so that `n` streams become `n ⌈/⌉ B`. From
this come the closed forms of its statistics.

* `spillBatches_stats`, `mergePasses_stats`: one pass, and all of them.
* `mergeInputs_stats`: the passes are the least `k` with `n ≤ B ^ k`, and no more than `B` streams
  are open.
-/

namespace KubeMapReduce

open Merging

/-! ## 1. Ceilings -/

section Ceilings

variable {B n : Nat}

theorem ceilDiv_ceilDiv {a b : Nat} (ha : 0 < a) (hb : 0 < b) : n ⌈/⌉ a ⌈/⌉ b = n ⌈/⌉ (a * b) := by
  refine eq_of_forall_ge_iff fun c => ?_
  rw [ceilDiv_le_iff_le_mul hb, ceilDiv_le_iff_le_mul ha, ceilDiv_le_iff_le_mul (Nat.mul_pos ha hb),
    Nat.mul_assoc]

/-- The number of passes for `n` streams, from the number for what the first one leaves. -/
theorem isLeast_succ {k : Nat} (hB : 0 < B) (hlt : B < n)
    (h : IsLeast {k | 1 ≤ k ∧ n ⌈/⌉ B ≤ B ^ k} k) : IsLeast {k | 1 ≤ k ∧ n ≤ B ^ k} (k + 1) := by
  refine ⟨⟨by omega, ?_⟩, fun m ⟨hm, hnm⟩ => ?_⟩
  · rw [pow_succ']
    exact (ceilDiv_le_iff_le_mul hB).mp h.1.2
  · obtain ⟨m, rfl⟩ := Nat.exists_eq_add_of_le' hm
    have hm : 1 ≤ m := by
      by_contra hzero
      have : m = 0 := by omega
      subst this
      rw [zero_add, pow_one] at hnm
      omega
    rw [pow_succ'] at hnm
    exact Nat.succ_le_succ (h.2 ⟨hm, (ceilDiv_le_iff_le_mul hB).mpr hnm⟩)

/-- The files of all passes, from those of the first one and the later ones. -/
theorem sum_succ {k : Nat} (hB : 0 < B) (hk : 1 ≤ k) :
    ∑ i ∈ Finset.Ico 1 (k + 1), n ⌈/⌉ B ^ i =
      n ⌈/⌉ B + ∑ i ∈ Finset.Ico 1 k, n ⌈/⌉ B ⌈/⌉ B ^ i := by
  rw [Finset.sum_eq_sum_Ico_succ_bot (by omega), pow_one, ← Finset.sum_Ico_add' _ 1 k 1]
  refine congrArg _ (Finset.sum_congr rfl fun i _ => ?_)
  rw [ceilDiv_ceilDiv hB (Nat.pow_pos hB), pow_succ']

end Ceilings

/-! ## 2. The passes -/

section Passes

variable {decode : Line → Option Record} {maxBytes B : Nat} {inputs : List Bytes}
  {stats : MergeStats}

/-- The number of streams in the largest batch. -/
def widest (batches : List (List Bytes)) : Nat := (batches.map List.length).foldr max 0

theorem widest_le {batches : List (List Bytes)} (h : ∀ batch ∈ batches, batch.length ≤ B) :
    widest batches ≤ B := by
  induction batches with
  | nil => exact Nat.zero_le B
  | cons batch rest ih =>
    obtain ⟨hbatch, hrest⟩ := List.forall_mem_cons.mp h
    exact Nat.max_le.mpr ⟨hbatch, ih hrest⟩

theorem widest_pieces (hlt : B < inputs.length) :
    widest (Frames.pieces B inputs.length inputs) = B := by
  refine Nat.le_antisymm (widest_le fun batch => Frames.length_le_of_mem_pieces) ?_
  obtain ⟨fuel, hfuel⟩ := Nat.exists_eq_succ_of_ne_zero (Nat.ne_zero_of_lt hlt)
  have hne : inputs.isEmpty = false := by
    cases inputs with
    | nil => cases hlt
    | cons => rfl
  rw [hfuel, Frames.pieces, hne, if_neg Bool.false_ne_true, widest, List.map_cons, List.foldr_cons,
    List.length_take]
  omega

/-- What the batches of a pass add to the statistics. -/
theorem spillBatches_stats {batches : List (List Bytes)} {files : List Bytes} {stats' : MergeStats}
    (h : spillBatches decode maxBytes batches stats = .ok (files, stats')) :
    files.length = batches.length ∧ stats'.totalPasses = stats.totalPasses ∧
      stats'.spillCount = stats.spillCount + batches.length ∧
      stats'.peakOpenStreams = max stats.peakOpenStreams (widest batches) := by
  induction batches generalizing files stats with
  | nil =>
    cases h
    exact ⟨rfl, rfl, rfl, (Nat.max_zero _).symm⟩
  | cons batch rest ih =>
    unfold spillBatches at h
    dsimp only at h
    split at h
    · cases h
    split at h
    · cases h
    · next hrest =>
      cases h
      obtain ⟨hfiles, hpasses, hspills, hpeak⟩ := ih hrest
      refine ⟨congrArg (· + 1) hfiles, hpasses, ?_, ?_⟩
      · rw [hspills, List.length_cons]
        dsimp only
        omega
      · rw [hpeak, widest, widest, List.map_cons, List.foldr_cons, Nat.max_assoc]

theorem mergeTo_stats (h : (mergeTo decode maxBytes stats inputs).err = none) :
    (mergeTo decode maxBytes stats inputs).stats =
      { stats with totalRecords := (mergeTo decode maxBytes stats inputs).written.length } := by
  unfold mergeTo at h ⊢
  split
  · next hmerge =>
    rw [hmerge] at h
    cases h
  · rfl

/-- The statistics `s` are those of `k` passes over `n` streams, after `stats`. -/
structure Costs (B n : Nat) (stats s : MergeStats) (k : Nat) : Prop where
  least : IsLeast {k | 1 ≤ k ∧ n ≤ B ^ k} k
  passes : s.totalPasses = stats.totalPasses + k
  spills : s.spillCount = stats.spillCount + ∑ i ∈ Finset.Ico 1 k, n ⌈/⌉ B ^ i
  peak : s.peakOpenStreams = max stats.peakOpenStreams (min n B)

theorem lastPass_stats (hle : inputs.length ≤ B)
    (hok : (lastPass decode maxBytes inputs stats).err = none) :
    Costs B inputs.length stats (lastPass decode maxBytes inputs stats).stats 1 := by
  have hstats := mergeTo_stats hok
  have hone : inputs.length ≤ B ^ 1 := by rwa [pow_one]
  refine ⟨⟨⟨Nat.le_refl 1, hone⟩, fun m hm => hm.1⟩, ?_, ?_, ?_⟩
  all_goals rw [lastPass, hstats]
  · rfl
  · dsimp only
    rw [Nat.min_eq_left hle]

/-- All passes; the loop ends because every pass leaves fewer streams. -/
theorem mergePasses_stats {fuel : Nat} (hB : 2 ≤ B) (hpos : 0 < inputs.length)
    (hfuel : inputs.length ≤ fuel)
    (hok : (mergePasses decode maxBytes B fuel inputs stats).err = none) :
    ∃ k, Costs B inputs.length stats (mergePasses decode maxBytes B fuel inputs stats).stats k := by
  induction fuel generalizing inputs stats with
  | zero => omega
  | succ fuel ih =>
    by_cases hlt : inputs.length > B
    · unfold mergePasses at hok ⊢
      rw [if_pos hlt] at hok ⊢
      split at hok
      · cases hok
      · next files stats' hspill =>
        obtain ⟨hfiles, hpasses, hspills, hpeak⟩ := spillBatches_stats hspill
        rw [Frames.length_pieces (by omega) (Nat.le_refl _)] at hfiles hspills
        rw [widest_pieces hlt] at hpeak
        dsimp only at hpasses hspills hpeak
        have hfewer := ceilDiv_lt hB hlt
        have hsome : 0 < inputs.length ⌈/⌉ B := by
          rw [Nat.pos_iff_ne_zero]
          intro hzero
          have := (ceilDiv_le_iff_le_mul (by omega)).mp (Nat.le_of_eq hzero)
          omega
        obtain ⟨k, hk⟩ := ih (by omega) (by omega) hok
        rw [hfiles] at hk
        refine ⟨k + 1, isLeast_succ (by omega) hlt hk.least, ?_, ?_, ?_⟩
        · rw [hk.passes, hpasses]
          omega
        · rw [hk.spills, hspills, sum_succ (by omega) hk.least.1.1, Nat.add_assoc]
        · rw [hk.peak, hpeak]
          omega
    · unfold mergePasses at hok ⊢
      rw [if_neg hlt] at hok ⊢
      exact ⟨1, lastPass_stats (Nat.not_lt.mp hlt) hok⟩

end Passes

/-! ## 3. MergeInputs -/

/-- The statistics of a merge that succeeds. -/
theorem mergeInputs_stats {decode : Line → Option Record} {cfg : MergeConfig} {readers : List Bytes}
    (hne : readers ≠ []) (hok : (mergeInputs decode cfg readers).err = none) :
    (2 ≤ cfg.batch ∧ cfg.batch ≤ 900) ∧
    IsLeast {k | 1 ≤ k ∧ readers.length ≤ cfg.batch ^ k}
      (mergeInputs decode cfg readers).stats.totalPasses ∧
    (mergeInputs decode cfg readers).stats.spillCount =
      ∑ i ∈ Finset.Ico 1 (mergeInputs decode cfg readers).stats.totalPasses,
        readers.length ⌈/⌉ cfg.batch ^ i ∧
    (mergeInputs decode cfg readers).stats.peakOpenStreams = min readers.length cfg.batch := by
  have hpos : 0 < readers.length := List.length_pos_iff.mpr hne
  have hsingle : mergeTo decode cfg.limit ⟨1, readers.length, 0, 0⟩ readers =
      lastPass decode cfg.limit readers ⟨0, 0, 0, 0⟩ := by
    rw [lastPass, Nat.zero_max]
  refine ⟨⟨cfg.two_le_batch, cfg.batch_le⟩, ?_⟩
  obtain ⟨k, hk⟩ : ∃ k, Costs cfg.batch readers.length ⟨0, 0, 0, 0⟩
      (mergeInputs decode cfg readers).stats k := by
    unfold mergeInputs at hok ⊢
    rw [if_neg (Nat.ne_of_gt hpos)] at hok ⊢
    split
    · next hle =>
      rw [if_pos hle, hsingle] at hok
      rw [hsingle]
      exact ⟨1, lastPass_stats hle hok⟩
    · next hmany =>
      rw [if_neg hmany] at hok
      exact mergePasses_stats cfg.two_le_batch hpos (Nat.le_refl _) hok
  have hpasses := hk.passes
  have hpeak := hk.peak
  have hspills := hk.spills
  rw [Nat.zero_add] at hpasses hspills
  rw [hpasses]
  refine ⟨hk.least, hspills, ?_⟩
  rw [hpeak, Nat.zero_max]

def fiveReaders : List Bytes := List.replicate 5 (encodeAll [word])

theorem mergeInputs_stats_five :
    (2 ≤ MergeConfig.batch ⟨2, 0⟩ ∧ MergeConfig.batch ⟨2, 0⟩ ≤ 900) ∧
    IsLeast {k | 1 ≤ k ∧ fiveReaders.length ≤ MergeConfig.batch ⟨2, 0⟩ ^ k}
      (mergeInputs sampleDecode ⟨2, 0⟩ fiveReaders).stats.totalPasses ∧
    (mergeInputs sampleDecode ⟨2, 0⟩ fiveReaders).stats.spillCount =
      ∑ i ∈ Finset.Ico 1 (mergeInputs sampleDecode ⟨2, 0⟩ fiveReaders).stats.totalPasses,
        fiveReaders.length ⌈/⌉ MergeConfig.batch ⟨2, 0⟩ ^ i ∧
    (mergeInputs sampleDecode ⟨2, 0⟩ fiveReaders).stats.peakOpenStreams =
      min fiveReaders.length (MergeConfig.batch ⟨2, 0⟩) :=
  mergeInputs_stats (by simp [fiveReaders]) (by decide +kernel)

/-- Five streams in batches of two: three passes, with three files and two. -/
example : (mergeInputs sampleDecode ⟨2, 0⟩ fiveReaders).stats = ⟨3, 2, 5, 5⟩ := by
  decide +kernel

end KubeMapReduce
