import Cm108Driver.Hal.Attribution
import Cm108Driver.Types.Grammar
import Mathlib.Data.List.GetD
import Mathlib.Data.List.Induction
import Mathlib.Data.List.TakeDrop

/-!
# Pcm — samples in packets and samples in frames

A USB packet carries mono samples, an audio frame 48 stereo samples.  `bytes_to_frame` cuts a
packet to 48 samples or fills it up with silence; `frame_to_mono` writes the left channel over the
whole of the packet buffer, so that nothing of an earlier packet stays in it.
-/

namespace Cm108Driver

open Lib

/-! ## Channels -/

/-- The samples at the even places. -/
def AudioFrame.left (f : AudioFrame) : List Int16 :=
  (List.range samplesPerFrame).map fun i => f.samples.toList.getD (i * 2) 0

/-- The samples at the odd places. -/
def AudioFrame.right (f : AudioFrame) : List Int16 :=
  (List.range samplesPerFrame).map fun i => f.samples.toList.getD (i * 2 + 1) 0

@[simp] theorem AudioFrame.length_left (f : AudioFrame) : f.left.length = samplesPerFrame := by
  simp [AudioFrame.left]

/-- The 16-bit little-endian samples of a packet. -/
def samplesOf : List UInt8 → List Int16
  | b0 :: b1 :: bs => sampleOfBytes b0 b1 :: samplesOf bs
  | _ => []

/-- The bytes of samples, the lower one first. -/
def bytesOf (xs : List Int16) : List UInt8 := xs.flatMap fun s => [lowByte s, highByte s]

theorem length_samplesOf (bs : List UInt8) : (samplesOf bs).length = bs.length / 2 := by
  induction bs using List.twoStepInduction with
  | nil => rfl
  | singleton b => simp [samplesOf]
  | cons_cons b0 b1 bs ih _ =>
      simp only [samplesOf, List.length_cons, ih]
      omega

theorem getD_samplesOf (bs : List UInt8) {i : Nat} (hi : i < bs.length / 2) :
    (samplesOf bs).getD i 0 = sampleOfBytes (bs.getD (i * 2) 0) (bs.getD (i * 2 + 1) 0) := by
  induction bs using List.twoStepInduction generalizing i with
  | nil => simp at hi
  | singleton b => simp at hi
  | cons_cons b0 b1 bs ih _ =>
      cases i with
      | zero => simp [samplesOf]
      | succ i =>
          have hi' : i < bs.length / 2 := by
            simp only [List.length_cons] at hi
            omega
          have heven : (i + 1) * 2 = i * 2 + 1 + 1 := by omega
          simpa [samplesOf, heven] using ih hi'

theorem takeD_eq_map_range {α : Type} (n : Nat) (l : List α) (a : α) :
    l.takeD n a = (List.range n).map fun i => l.getD i a := by
  induction n generalizing l with
  | zero => rfl
  | succ n ih =>
      rw [List.range_succ_eq_map, List.map_cons, List.map_map]
      cases l with
      | nil => simp [Function.comp_def]
      | cons x l => simp [ih, Function.comp_def]

theorem takeD_of_length {α : Type} {l : List α} {n : Nat} (h : l.length = n) (a : α) :
    l.takeD n a = l := by
  subst h
  calc
    l.takeD l.length a = l.take l.length := List.takeD_eq_take a (Nat.le_refl _)
    _ = l := List.take_length

/-! ## The two loops over the samples -/

/-- Both helpers write the places `2 i` and `2 i + 1` for `i` from 0 up. -/
theorem getElem_setPairs {α : Type} {n : Nat} (f g : Nat → α) (v : Vector α n) (m : Nat) {k : Nat}
    (hk : k < n) :
    ((List.range m).foldl
      (fun v i => (v.setIfInBounds (i * 2) (f i)).setIfInBounds (i * 2 + 1) (g i)) v)[k] =
      if k / 2 < m then (if k % 2 = 0 then f (k / 2) else g (k / 2)) else v[k] := by
  induction m with
  | zero => simp
  | succ m ih =>
      rw [List.range_succ, List.foldl_append, List.foldl_cons, List.foldl_nil,
        Vector.getElem_setIfInBounds hk, Vector.getElem_setIfInBounds hk, ih]
      by_cases hodd : m * 2 + 1 = k
      · have hdiv : k / 2 = m := by omega
        have hmod : ¬ k % 2 = 0 := by omega
        rw [if_pos hodd, hdiv, if_pos (Nat.lt_succ_self m), if_neg hmod]
      · rw [if_neg hodd]
        by_cases heven : m * 2 = k
        · have hdiv : k / 2 = m := by omega
          have hmod : k % 2 = 0 := by omega
          rw [if_pos heven, hdiv, if_pos (Nat.lt_succ_self m), if_pos hmod]
        · have hiff : k / 2 < m + 1 ↔ k / 2 < m := by omega
          rw [if_neg heven]
          simp only [hiff]

theorem getD_bytesToFrame (bs : List UInt8) {k : Nat} (hk : k < samplesPerFrame * 2) :
    (bytesToFrame bs).samples.toList.getD k 0 = (samplesOf bs).getD (k / 2) 0 := by
  have hlen : k < (bytesToFrame bs).samples.toList.length := by simpa using hk
  rw [List.getD_eq_getElem _ _ hlen, Vector.getElem_toList]
  simp only [bytesToFrame]
  rw [getElem_setPairs _ _ _ _ hk, ite_self]
  have hframe : k / 2 < samplesPerFrame := by omega
  split
  · rename_i hcount
    rw [getD_samplesOf bs (Nat.lt_of_lt_of_le hcount (Nat.min_le_left ..))]
  · rename_i hcount
    -- beyond the last sample of the packet the frame keeps its default
    have hge : (samplesOf bs).length ≤ k / 2 := by
      rw [length_samplesOf]
      omega
    rw [List.getD_eq_default _ _ hge]
    simp [AudioFrame.default]

/-- Either channel carries the packet's samples, cut or filled up with silence to 48. -/
theorem channel_bytesToFrame (bs : List UInt8) {j : Nat} (hj : j < 2) :
    ((List.range samplesPerFrame).map fun i =>
        (bytesToFrame bs).samples.toList.getD (i * 2 + j) 0) =
      (samplesOf bs).takeD samplesPerFrame 0 := by
  rw [takeD_eq_map_range]
  apply List.map_congr_left
  intro i hi
  have hlt : i < samplesPerFrame := List.mem_range.1 hi
  have hdiv : (i * 2 + j) / 2 = i := by omega
  rw [getD_bytesToFrame bs (by omega), hdiv]

theorem left_bytesToFrame (bs : List UInt8) :
    (bytesToFrame bs).left = (samplesOf bs).takeD samplesPerFrame 0 :=
  channel_bytesToFrame bs (j := 0) (by decide)

theorem right_bytesToFrame (bs : List UInt8) :
    (bytesToFrame bs).right = (samplesOf bs).takeD samplesPerFrame 0 :=
  channel_bytesToFrame bs (j := 1) (by decide)

/-- The packet is the left channel, whatever was in the buffer. -/
theorem toList_frameToMono (f : AudioFrame) (buf : Vector UInt8 isoOutPacket) :
    (frameToMono f buf).toList = bytesOf f.left := by
  have hbytes : (bytesOf f.left).length = isoOutPacket := by
    rw [bytesOf, length_flatMap_pair, f.length_left]
    rfl
  apply List.ext_getElem
  · rw [Vector.length_toList, hbytes]
  · intro k hk hk'
    have hlt : k < isoOutPacket := by simpa using hk
    have hframe : k / 2 < samplesPerFrame := by
      simp only [isoOutPacket, samplesPerFrame] at hlt ⊢
      omega
    have hframe' : k / 2 < f.left.length := by simpa using hframe
    have hpair := getD_flatMap_pair lowByte highByte 0 f.left [] (k / 2) hframe'
    have hsample : f.left[k / 2] = f.samples.toList.getD (k / 2 * 2) 0 := by
      simp [AudioFrame.left]
    rw [List.append_nil, hsample] at hpair
    rw [Vector.getElem_toList, ← List.getD_eq_getElem _ 0 hk']
    simp only [frameToMono]
    -- byte `k` is the low or the high byte of sample `k / 2`
    rw [getElem_setPairs _ _ _ _ hlt, if_pos hframe]
    by_cases heven : k % 2 = 0
    · have hk2 : k / 2 * 2 = k := by omega
      rw [if_pos heven, ← hpair.1, hk2]
      rfl
    · have hk2 : k / 2 * 2 + 1 = k := by omega
      rw [if_neg heven, ← hpair.2, hk2]
      rfl

end Cm108Driver
