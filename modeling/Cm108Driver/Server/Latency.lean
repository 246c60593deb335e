import Cm108Driver.Types.Basic
import Cm108Driver.Lib.OrderStatistic
import Mathlib.Data.Nat.Log

/-!
# Latency — the histogram of dispatch latencies

`LatencyHistogram` keeps one counter for each power of two, the number of samples and the two
extremes.  This file defines:

* `LatencyHistogram` with `record`, `reset`, `p99_us` and `to_stats`;
* `IsSummary samples s`, what a summary of a list of samples is, in terms of ranks only;
* `Summarizes`, the invariant that ties the counters to the samples since the last `reset`.

The counters are `u64` and wrap, the percentile is taken with a multiplication by 99: the results
below hold as long as that multiplication fits.
-/

namespace Cm108Driver

open Lib
open scoped List

/-! ## The histogram -/

def u32Max : UInt32 := 0xFFFFFFFF

/-- `u32::checked_ilog2`. -/
def checkedIlog2 (us : UInt32) : Option Nat :=
  if us = 0 then none else some us.toNat.log2

/-- `u32::checked_shl`. -/
def checkedShl (x : UInt32) (n : Nat) : Option UInt32 :=
  if n < 32 then some (x <<< n.toUInt32) else none

structure LatencyHistogram where
  buckets : Vector UInt64 64
  total : UInt64
  minUs : UInt32
  maxUs : UInt32
  deriving DecidableEq, Repr

/-- The bucket `record` counts a sample in. -/
def bucketOf (us : UInt32) : Nat := min ((checkedIlog2 us).getD 0) 63

theorem bucketOf_lt (us : UInt32) : bucketOf us < 64 := by
  unfold bucketOf
  omega

namespace LatencyHistogram

def new : LatencyHistogram :=
  { buckets := Vector.replicate 64 0
    total := 0
    minUs := u32Max
    maxUs := 0 }

def record (h : LatencyHistogram) (us : UInt32) : LatencyHistogram :=
  { buckets :=
      h.buckets.set (bucketOf us) (h.buckets.get ⟨bucketOf us, bucketOf_lt us⟩ + 1) (bucketOf_lt us)
    total := h.total + 1
    minUs := if us < h.minUs then us else h.minUs
    maxUs := if us > h.maxUs then us else h.maxUs }

def reset (_ : LatencyHistogram) : LatencyHistogram := new

/-- The bucket loop of `p99_us` from bucket `i` on; `none` when it runs off the end and the code
falls back to `max_us`. -/
def p99Loop (threshold : UInt64) : Nat → UInt64 → List UInt64 → Option UInt32
  | _, _, [] => none
  | i, cumulative, count :: rest =>
      if threshold ≤ cumulative + count then
        -- The upper bound of bucket `i`, saturated for the top one.
        some ((checkedShl 1 (i + 1)).getD u32Max)
      else
        p99Loop threshold (i + 1) (cumulative + count) rest

def p99Threshold (h : LatencyHistogram) : UInt64 := (h.total * 99 + 99) / 100

def p99Us (h : LatencyHistogram) : UInt32 :=
  if h.total = 0 then 0
  else (p99Loop h.p99Threshold 0 0 h.buckets.toList).getD h.maxUs

def toStats (h : LatencyHistogram) : LatencyStats :=
  { minUs := if h.total = 0 then 0 else h.minUs
    maxUs := if h.total = 0 then 0 else h.maxUs
    p99Us := h.p99Us }

end LatencyHistogram

/-! ## What is recorded since the last reset -/

inductive HistogramOp
  | record (us : UInt32)
  | reset
  deriving DecidableEq, Repr

namespace HistogramOp

def apply (h : LatencyHistogram) : HistogramOp → LatencyHistogram
  | record us => h.record us
  | reset => h.reset

/-- A histogram after a list of calls, from `LatencyHistogram::new` on. -/
def run (ops : List HistogramOp) : LatencyHistogram := ops.foldl apply LatencyHistogram.new

/-- The samples of `ops` after its last `reset`, behind those of `before`. -/
def samplesAfter : List UInt32 → List HistogramOp → List UInt32
  | before, [] => before
  | before, record us :: ops => samplesAfter (before ++ [us]) ops
  | _, reset :: ops => samplesAfter [] ops

def sinceReset (ops : List HistogramOp) : List UInt32 := samplesAfter [] ops

end HistogramOp

/-! ## The reference definition -/

/-- The class of a sample: the floor of its binary logarithm, 0 counting as 1. -/
def latencyClass (us : Nat) : Nat := (max us 1).log2

/-- The bound reported for a class, the top one saturated to `u32::MAX`. -/
def classBound (k : Nat) : Nat := if k < 31 then 2 ^ (k + 1) else 2 ^ 32 - 1

/-- `s` is the summary of `samples`: the extremes are exact, and the percentile is the bound of the
class of the sample of rank `⌈99 n / 100⌉`. -/
structure IsSummary (samples : List UInt32) (s : LatencyStats) : Prop where
  empty : samples = [] → s = LatencyStats.default
  minUs_mem : samples ≠ [] → s.minUs ∈ samples
  minUs_le : ∀ us ∈ samples, s.minUs ≤ us
  maxUs_mem : samples ≠ [] → s.maxUs ∈ samples
  le_maxUs : ∀ us ∈ samples, us ≤ s.maxUs
  p99Us_eq : samples ≠ [] →
    ∃ q, kthSmallest (samples.map UInt32.toNat) (99 * samples.length ⌈/⌉ 100) = some q ∧
      s.p99Us.toNat = classBound (latencyClass q)

/-! ## Classes and bounds -/

theorem latencyClass_mono : Monotone latencyClass := by
  intro a b hab
  simpa [latencyClass, Nat.log2_eq_log_two] using
    Nat.log_mono_right (b := 2) (max_le_max hab (le_refl 1))

/-- A `u32` has at most 32 binary digits: the cut at bucket 63 never shows. -/
theorem latencyClass_lt (us : UInt32) : latencyClass us.toNat < 32 := by
  have hfit : max us.toNat 1 < 2 ^ 32 := max_lt us.toNat_lt (by decide)
  exact (Nat.log2_lt (by omega)).mpr hfit

theorem bucketOf_eq (us : UInt32) : bucketOf us = latencyClass us.toNat := by
  have hlt := latencyClass_lt us
  by_cases h0 : us = 0
  · simp [bucketOf, checkedIlog2, latencyClass, h0, Nat.log2_def]
  · have hpos : 1 ≤ us.toNat := by
      have : us.toNat ≠ 0 := fun h => h0 (UInt32.toNat_inj.mp h)
      omega
    have hclass : latencyClass us.toNat = us.toNat.log2 := by
      simp [latencyClass, Nat.max_eq_left hpos]
    simp only [bucketOf, checkedIlog2, h0, if_false, Option.getD_some, hclass] at hlt ⊢
    omega

/-- No sample is above the bound of its class. -/
theorem le_classBound (us : UInt32) : us.toNat ≤ classBound (latencyClass us.toNat) := by
  unfold classBound
  split
  · have hlog : max us.toNat 1 < 2 ^ (latencyClass us.toNat + 1) := Nat.lt_log2_self
    exact Nat.le_of_lt (lt_of_le_of_lt (le_max_left _ _) hlog)
  · have := us.toNat_lt
    omega

/-- `1u32.checked_shl(k + 1)`, saturated. -/
theorem toNat_checkedShl (k : Nat) :
    ((checkedShl 1 (k + 1)).getD u32Max).toNat = classBound k := by
  have hsmall : ∀ k < 31, ((checkedShl 1 (k + 1)).getD u32Max).toNat = 2 ^ (k + 1) := by decide
  by_cases hk : k < 31
  · simp only [classBound, hk, if_true]
    exact hsmall k hk
  · have hbig : ¬ k + 1 < 32 := by omega
    simp only [classBound, checkedShl, hk, hbig, if_false]
    rfl

/-! ## What a summary says -/

namespace IsSummary

variable {samples samples' : List UInt32} {s s' : LatencyStats}

/-- A summary is determined by the multiset of the samples. -/
theorem unique (h : IsSummary samples s) (h' : IsSummary samples' s') (hperm : samples ~ samples') :
    s = s' := by
  by_cases hnil : samples = []
  · have hnil' : samples' = [] := by
      simpa [hnil] using hperm
    rw [h.empty hnil, h'.empty hnil']
  · have hnil' : samples' ≠ [] := fun h0 => hnil (by simpa [h0] using hperm)
    have hmin : s.minUs = s'.minUs :=
      UInt32.le_antisymm (h.minUs_le _ (hperm.mem_iff.mpr (h'.minUs_mem hnil')))
        (h'.minUs_le _ (hperm.mem_iff.mp (h.minUs_mem hnil)))
    have hmax : s.maxUs = s'.maxUs :=
      UInt32.le_antisymm (h'.le_maxUs _ (hperm.mem_iff.mp (h.maxUs_mem hnil)))
        (h.le_maxUs _ (hperm.mem_iff.mpr (h'.maxUs_mem hnil')))
    have hp99 : s.p99Us = s'.p99Us := by
      obtain ⟨q, hq, hs⟩ := h.p99Us_eq hnil
      obtain ⟨q', hq', hs'⟩ := h'.p99Us_eq hnil'
      -- Both ranks are taken in permutations of one list.
      rw [← hperm.length_eq, ← kthSmallest_congr (hperm.map _) _, hq] at hq'
      cases hq'
      exact UInt32.toNat_inj.mp (hs.trans hs'.symm)
    cases s
    cases s'
    simp_all

/-- At least 99 percent of the samples are at most the reported percentile. -/
theorem ninetyNine_percent (h : IsSummary samples s) :
    99 * samples.length ≤ 100 * samples.countP (fun us => us ≤ s.p99Us) := by
  by_cases hnil : samples = []
  · simp [hnil]
  · obtain ⟨q, hq, hs⟩ := h.p99Us_eq hnil
    have hlen : 0 < samples.length := List.length_pos_of_ne_nil hnil
    have hrank : 99 * samples.length ≤ 100 * (99 * samples.length ⌈/⌉ 100) := by
      rw [Nat.ceilDiv_eq_add_pred_div]
      omega
    have hpos : 0 < 99 * samples.length ⌈/⌉ 100 := by omega
    obtain ⟨us, -, rfl⟩ := List.mem_map.mp (mem_of_kthSmallest hq)
    have hbelow := le_countP_le_kthSmallest hpos hq
    rw [List.countP_map] at hbelow
    have hmono : samples.countP ((fun x => decide (x ≤ us.toNat)) ∘ UInt32.toNat) ≤
        samples.countP (fun x => decide (x ≤ s.p99Us)) := by
      refine List.countP_mono_left fun x _ hx => ?_
      have hx' : x.toNat ≤ us.toNat := by simpa using hx
      have : x.toNat ≤ s.p99Us.toNat := by
        rw [hs]
        exact hx'.trans (le_classBound us)
      simpa [UInt32.le_iff_toNat_le] using this
    omega

end IsSummary

/-! ## The counters partition the samples -/

/-- The counters of `h`, modulo their width, are those of `samples`; the extremes are exact. -/
structure Summarizes (h : LatencyHistogram) (samples : List UInt32) : Prop where
  buckets_eq : ∀ k (hk : k < 64),
    h.buckets[k] = UInt64.ofNat (samples.countP fun us => bucketOf us = k)
  total_eq : h.total = UInt64.ofNat samples.length
  minUs_mem : h.minUs ∈ samples ∨ samples = [] ∧ h.minUs = u32Max
  minUs_le : ∀ us ∈ samples, h.minUs ≤ us
  maxUs_mem : h.maxUs ∈ samples ∨ samples = [] ∧ h.maxUs = 0
  le_maxUs : ∀ us ∈ samples, us ≤ h.maxUs

namespace Summarizes

variable {h : LatencyHistogram} {samples : List UInt32}

theorem new : Summarizes LatencyHistogram.new [] :=
  { buckets_eq := by
      intro k hk
      simp [LatencyHistogram.new]
    total_eq := rfl
    minUs_mem := Or.inr ⟨rfl, rfl⟩
    minUs_le := by simp
    maxUs_mem := Or.inr ⟨rfl, rfl⟩
    le_maxUs := by simp }

theorem le_u32Max (us : UInt32) : us ≤ u32Max := by
  have := us.toNat_lt
  rw [UInt32.le_iff_toNat_le]
  simp only [u32Max, UInt32.reduceToNat]
  omega

/-- Only the counter of the sample's own bucket moves. -/
theorem buckets_record (h : LatencyHistogram) (us : UInt32) {k : Nat} (hk : k < 64) :
    (h.record us).buckets[k] = h.buckets[k] + if bucketOf us = k then 1 else 0 := by
  by_cases hself : bucketOf us = k
  · subst hself
    simp only [LatencyHistogram.record, Vector.getElem_set_self, if_true]
    rfl
  · simp [LatencyHistogram.record, hself]

theorem minUs_record_le (h : LatencyHistogram) (us : UInt32) :
    (h.record us).minUs ≤ h.minUs ∧ (h.record us).minUs ≤ us := by
  by_cases hlt : us < h.minUs
  · simpa [LatencyHistogram.record, hlt] using UInt32.le_of_lt hlt
  · simpa [LatencyHistogram.record, hlt] using UInt32.not_lt.mp hlt

theorem le_maxUs_record (h : LatencyHistogram) (us : UInt32) :
    h.maxUs ≤ (h.record us).maxUs ∧ us ≤ (h.record us).maxUs := by
  by_cases hgt : us > h.maxUs
  · simpa [LatencyHistogram.record, hgt] using UInt32.le_of_lt hgt
  · simpa [LatencyHistogram.record, hgt] using UInt32.not_lt.mp hgt

/-- The smallest sample is the new one or was there before.  The first sample always counts: if it
is not below `u32::MAX`, it is `u32::MAX`. -/
theorem minUs_record_mem (hs : Summarizes h samples) (us : UInt32) :
    (h.record us).minUs ∈ samples ++ [us] := by
  by_cases hlt : us < h.minUs
  · simp [LatencyHistogram.record, hlt]
  · rcases hs.minUs_mem with hmem | ⟨hnil, hmax⟩
    · simp [LatencyHistogram.record, hlt, hmem]
    · have heq : us = u32Max :=
        UInt32.le_antisymm (le_u32Max us) (UInt32.not_lt.mp (hmax ▸ hlt))
      simp [LatencyHistogram.record, hmax, hnil, heq]

theorem maxUs_record_mem (hs : Summarizes h samples) (us : UInt32) :
    (h.record us).maxUs ∈ samples ++ [us] := by
  by_cases hgt : us > h.maxUs
  · simp [LatencyHistogram.record, hgt]
  · rcases hs.maxUs_mem with hmem | ⟨hnil, hzero⟩
    · simp [LatencyHistogram.record, hgt, hmem]
    · have heq : us = 0 :=
        UInt32.le_antisymm (UInt32.not_lt.mp (hzero ▸ hgt)) (UInt32.zero_le)
      simp [LatencyHistogram.record, hzero, hnil, heq]

/-- Recording a sample appends it. -/
theorem record (hs : Summarizes h samples) (us : UInt32) :
    Summarizes (h.record us) (samples ++ [us]) :=
  { buckets_eq := by
      intro k hk
      rw [buckets_record h us hk, hs.buckets_eq k hk, List.countP_append, List.countP_singleton,
        UInt64.ofNat_add]
      by_cases hself : bucketOf us = k
      · simp [hself]
      · simp [hself]
    total_eq := by simp [LatencyHistogram.record, hs.total_eq, UInt64.ofNat_add]
    minUs_mem := Or.inl (hs.minUs_record_mem us)
    minUs_le := by
      intro x hx
      rcases List.mem_append.mp hx with hold | hnew
      · exact UInt32.le_trans (minUs_record_le h us).1 (hs.minUs_le x hold)
      · exact (List.mem_singleton.mp hnew) ▸ (minUs_record_le h us).2
    maxUs_mem := Or.inl (hs.maxUs_record_mem us)
    le_maxUs := by
      intro x hx
      rcases List.mem_append.mp hx with hold | hnew
      · exact UInt32.le_trans (hs.le_maxUs x hold) (le_maxUs_record h us).1
      · exact (List.mem_singleton.mp hnew) ▸ (le_maxUs_record h us).2 }

/-- Whatever was called before, the histogram holds the samples since the last `reset`. -/
theorem foldl_apply (ops : List HistogramOp) {h : LatencyHistogram} {before : List UInt32}
    (hs : Summarizes h before) :
    Summarizes (ops.foldl HistogramOp.apply h) (HistogramOp.samplesAfter before ops) := by
  induction ops generalizing h before with
  | nil => exact hs
  | cons op ops ih =>
      cases op with
      | record us => exact ih (hs.record us)
      | reset => exact ih new

theorem run (ops : List HistogramOp) :
    Summarizes (HistogramOp.run ops) (HistogramOp.sinceReset ops) :=
  foldl_apply ops new

end Summarizes

/-! ## The percentile loop -/

/-- The samples in the buckets before `i`: what `cumulative` is when the loop comes to bucket `i`. -/
def countBelow (samples : List UInt32) (i : Nat) : Nat :=
  samples.countP fun us => bucketOf us < i

theorem countBelow_zero (samples : List UInt32) : countBelow samples 0 = 0 := by
  simp [countBelow]

theorem countBelow_succ (samples : List UInt32) (i : Nat) :
    countBelow samples (i + 1) =
      countBelow samples i + samples.countP fun us => bucketOf us = i := by
  induction samples with
  | nil => rfl
  | cons us samples ih =>
      simp only [countBelow] at ih ⊢
      rw [List.countP_cons, List.countP_cons, List.countP_cons, ih]
      rcases Nat.lt_trichotomy (bucketOf us) i with hlt | heq | hgt
      · have : bucketOf us < i + 1 := by omega
        simp [hlt, this, hlt.ne]
        omega
      · simp [heq]
        omega
      · have : ¬ bucketOf us < i + 1 := by omega
        simp [this, hgt.ne', Nat.not_lt.mpr (Nat.le_of_lt hgt)]

theorem countBelow_le (samples : List UInt32) (i : Nat) :
    countBelow samples i ≤ samples.length := List.countP_le_length

/-- The loop, entered at bucket `i` before the class `k` of the ranked sample, stops at bucket `k`. -/
theorem p99Loop_eq (samples : List UInt32) {threshold : UInt64} {k : Nat}
    (hfit : samples.length < 2 ^ 64) (hk : k < 64)
    (hrank : ∀ i, threshold.toNat ≤ countBelow samples i ↔ k < i) :
    ∀ (counts : List UInt64) (i : Nat), i ≤ k → i + counts.length = 64 →
      (∀ j (hj : j < counts.length),
        counts[j] = UInt64.ofNat (samples.countP fun us => bucketOf us = i + j)) →
      LatencyHistogram.p99Loop threshold i (UInt64.ofNat (countBelow samples i)) counts =
        some ((checkedShl 1 (k + 1)).getD u32Max) := by
  intro counts
  induction counts with
  | nil =>
      intro i hik hlen _
      simp only [List.length_nil] at hlen
      omega
  | cons count rest ih =>
      intro i hik hlen hcounts
      have hcount : count = UInt64.ofNat (samples.countP fun us => bucketOf us = i) :=
        hcounts 0 (by simp)
      have hcumulative : UInt64.ofNat (countBelow samples i) + count =
          UInt64.ofNat (countBelow samples (i + 1)) := by
        rw [hcount, countBelow_succ, UInt64.ofNat_add]
      -- The sum fits: it counts samples.
      have hreach : threshold ≤ UInt64.ofNat (countBelow samples (i + 1)) ↔ k < i + 1 := by
        have hlt : countBelow samples (i + 1) < 2 ^ 64 :=
          Nat.lt_of_le_of_lt (countBelow_le samples (i + 1)) hfit
        rw [← hrank (i + 1), UInt64.le_iff_toNat_le, UInt64.toNat_ofNat_of_lt' hlt]
      simp only [LatencyHistogram.p99Loop, hcumulative]
      by_cases hstop : threshold ≤ UInt64.ofNat (countBelow samples (i + 1))
      · have hki : i = k := by
          have := hreach.mp hstop
          omega
        rw [if_pos hstop, hki]
      · simp only [hstop, if_false]
        have hnot : ¬ k < i + 1 := fun hlt => hstop (hreach.mpr hlt)
        refine ih (i + 1) (by omega) (by simp only [List.length_cons] at hlen; omega) ?_
        intro j hj
        have hnext := hcounts (j + 1) (by simpa using hj)
        have hshift : i + (j + 1) = i + 1 + j := by omega
        simpa only [List.getElem_cons_succ, hshift] using hnext

namespace Summarizes

variable {h : LatencyHistogram} {samples : List UInt32}

theorem toNat_total (hs : Summarizes h samples) (hfit : 99 * samples.length + 99 < 2 ^ 64) :
    h.total.toNat = samples.length := by
  rw [hs.total_eq]
  exact UInt64.toNat_ofNat_of_lt' (Nat.lt_of_le_of_lt (by omega) hfit)

/-- The multiplication fits: the threshold is the rank. -/
theorem toNat_p99Threshold (hs : Summarizes h samples)
    (hfit : 99 * samples.length + 99 < 2 ^ 64) :
    h.p99Threshold.toNat = 99 * samples.length ⌈/⌉ 100 := by
  have htotal := hs.toNat_total hfit
  calc
    h.p99Threshold.toNat
        = ((h.total.toNat * 99 % 2 ^ 64 + 99) % 2 ^ 64) / 100 := by
          simp [LatencyHistogram.p99Threshold]
    _ = (99 * samples.length + 99) / 100 := by
          rw [htotal]
          omega
    _ = 99 * samples.length ⌈/⌉ 100 := by
          rw [Nat.ceilDiv_eq_add_pred_div]
          rfl

/-- With a sample in it, the loop over the buckets finds the class of the ranked one. -/
theorem p99Loop_eq (hs : Summarizes h samples) (hfit : 99 * samples.length + 99 < 2 ^ 64)
    (hne : samples ≠ []) :
    ∃ q, kthSmallest (samples.map UInt32.toNat) (99 * samples.length ⌈/⌉ 100) = some q ∧
      LatencyHistogram.p99Loop h.p99Threshold 0 0 h.buckets.toList =
        some ((checkedShl 1 (latencyClass q + 1)).getD u32Max) := by
  have hlen : 0 < samples.length := List.length_pos_of_ne_nil hne
  have hceil : 99 * samples.length ⌈/⌉ 100 = (99 * samples.length + 99) / 100 := by
    rw [Nat.ceilDiv_eq_add_pred_div]
    rfl
  have hpos : 0 < 99 * samples.length ⌈/⌉ 100 := by omega
  have hle : 99 * samples.length ⌈/⌉ 100 ≤ (samples.map UInt32.toNat).length := by
    rw [List.length_map]
    omega
  obtain ⟨q, hq⟩ := exists_kthSmallest hpos hle
  obtain ⟨us, -, husq⟩ := List.mem_map.mp (mem_of_kthSmallest hq)
  have hclass : latencyClass q < 64 := by
    have := latencyClass_lt us
    rw [← husq]
    omega
  -- A bucket is reached with enough samples counted exactly when it is behind the class of `q`.
  have hrank : ∀ i, h.p99Threshold.toNat ≤ countBelow samples i ↔ latencyClass q < i := by
    intro i
    rw [hs.toNat_p99Threshold hfit]
    cases i with
    | zero =>
        rw [countBelow_zero]
        omega
    | succ i =>
        have hcount : countBelow samples (i + 1) =
            (samples.map UInt32.toNat).countP (fun x => latencyClass x ≤ i) := by
          rw [List.countP_map]
          refine List.countP_congr fun x _ => ?_
          simp only [bucketOf_eq, Function.comp_apply, decide_eq_true_eq, Nat.lt_succ_iff]
        rw [hcount, le_countP_iff_kthSmallest latencyClass_mono hpos hq i]
        exact Nat.lt_succ_iff.symm
  refine ⟨q, hq, ?_⟩
  have hloop := Cm108Driver.p99Loop_eq samples (by omega) hclass hrank
    h.buckets.toList 0 (Nat.zero_le _) (by simp) (by
      intro j hj
      have hj' : j < 64 := by simpa using hj
      simpa using hs.buckets_eq j hj')
  rw [countBelow_zero] at hloop
  exact hloop

/-- `to_stats` is the summary of the samples, and the fallback of `p99_us` is not reached. -/
theorem isSummary (hs : Summarizes h samples) (hfit : 99 * samples.length + 99 < 2 ^ 64) :
    IsSummary samples h.toStats := by
  have htotal := hs.toNat_total hfit
  by_cases hnil : samples = []
  -- `toStats` returns the default when the total is 0, which is when there are no samples
  · have hzero : h.total = 0 := UInt64.toNat_inj.mp (by simpa [hnil] using htotal)
    subst hnil
    refine
      { empty := fun _ => ?_
        minUs_mem := fun hne => absurd rfl hne
        minUs_le := by simp
        maxUs_mem := fun hne => absurd rfl hne
        le_maxUs := by simp
        p99Us_eq := fun hne => absurd rfl hne }
    simp [LatencyHistogram.toStats, LatencyHistogram.p99Us, hzero, LatencyStats.default]
  · have hlen : 0 < samples.length := List.length_pos_of_ne_nil hnil
    have hpos : h.total ≠ 0 := by
      intro hzero
      rw [hzero] at htotal
      exact absurd htotal.symm (Nat.ne_of_gt hlen)
    -- the loop over the buckets ends at that of the sample `q`
    obtain ⟨q, hq, hloop⟩ := hs.p99Loop_eq hfit hnil
    refine
      { empty := fun h0 => absurd h0 hnil
        minUs_mem := fun _ => ?_
        minUs_le := ?_
        maxUs_mem := fun _ => ?_
        le_maxUs := ?_
        p99Us_eq := fun _ => ⟨q, hq, ?_⟩ }
    · simpa [LatencyHistogram.toStats, hpos, hnil] using hs.minUs_mem
    · simpa [LatencyHistogram.toStats, hpos] using hs.minUs_le
    · simpa [LatencyHistogram.toStats, hpos, hnil] using hs.maxUs_mem
    · simpa [LatencyHistogram.toStats, hpos] using hs.le_maxUs
    · simp only [LatencyHistogram.toStats, LatencyHistogram.p99Us, hpos, if_false, hloop,
        Option.getD_some]
      exact toNat_checkedShl (latencyClass q)

end Summarizes

/-! ## The histogram meets the reference definition -/

/-- Whatever was recorded and reset before: the snapshot is the summary of the samples since the
last `reset`, it depends on their multiset only, at least 99 percent of them are at most `p99_us`,
and the loop of `p99_us` never runs off its buckets. -/
theorem toStats_spec (ops : List HistogramOp)
    (hfit : 99 * (HistogramOp.sinceReset ops).length + 99 < 2 ^ 64) :
    IsSummary (HistogramOp.sinceReset ops) (HistogramOp.run ops).toStats ∧
      (∀ ops', HistogramOp.sinceReset ops ~ HistogramOp.sinceReset ops' →
        (HistogramOp.run ops).toStats = (HistogramOp.run ops').toStats) ∧
      99 * (HistogramOp.sinceReset ops).length ≤
        100 * (HistogramOp.sinceReset ops).countP
          (fun us => us ≤ (HistogramOp.run ops).toStats.p99Us) ∧
      ((HistogramOp.run ops).total ≠ 0 →
        LatencyHistogram.p99Loop (HistogramOp.run ops).p99Threshold 0 0
          (HistogramOp.run ops).buckets.toList ≠ none) := by
  have hs := Summarizes.run ops
  have hsummary := hs.isSummary hfit
  refine ⟨hsummary, ?_, hsummary.ninetyNine_percent, ?_⟩
  · intro ops' hperm
    have hfit' : 99 * (HistogramOp.sinceReset ops').length + 99 < 2 ^ 64 := by
      rw [← hperm.length_eq]
      exact hfit
    exact hsummary.unique ((Summarizes.run ops').isSummary hfit') hperm
  · intro htotal
    -- A histogram that counts something has a sample in it.
    have hne : HistogramOp.sinceReset ops ≠ [] := by
      intro hnil
      have hzero := hs.toNat_total hfit
      rw [hnil] at hzero
      exact htotal (UInt64.toNat_inj.mp hzero)
    obtain ⟨q, -, hloop⟩ := hs.p99Loop_eq hfit hne
    simp [hloop]

/-- Two windows; the second holds the smallest and the largest `u32`. -/
theorem toStats_spec_two_windows :
    (HistogramOp.run [.record 7, .reset, .record u32Max, .record 0]).toStats =
        { minUs := 0, maxUs := u32Max, p99Us := u32Max } ∧
      IsSummary [u32Max, 0] { minUs := 0, maxUs := u32Max, p99Us := u32Max } := by
  have hstats : (HistogramOp.run [.record 7, .reset, .record u32Max, .record 0]).toStats =
      { minUs := 0, maxUs := u32Max, p99Us := u32Max } := by decide
  have hspec := (toStats_spec [.record 7, .reset, .record u32Max, .record 0] (by decide)).1
  rw [hstats] at hspec
  exact ⟨hstats, hspec⟩

end Cm108Driver
