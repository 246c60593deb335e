import Cm108Driver.Hal.Pcm

/-!
# MonoRoundTrip — packets and frames through the two format helpers

`bytes_to_frame` and `frame_to_mono` change between the packed mono samples of a packet and the
interleaved stereo samples of a frame.  This file defines:

* `throughMono buf f` — the frame `f` written to a packet and read back;
* `MonoFrame`, the frames with equal channels, and `frameOfPacket`, which maps the 96-byte packets
  onto them one to one;
* `sampleValue p i` — the number that the `i`-th sample of a packet stands for.

What was in the output buffer before plays no part in any of them.
-/

namespace Cm108Driver

open Lib

/-! ## Values of samples -/

/-- The 16-bit two's-complement number at place `i` of a packet, lower byte first. -/
def sampleValue (p : List UInt8) (i : Nat) : Int :=
  (ofLe ((p.drop (i * 2)).take 2) : Int).bmod (2 ^ 16)

theorem toBitVec_sampleOfBytes (b0 b1 : UInt8) :
    (sampleOfBytes b0 b1).toBitVec = b1.toBitVec ++ b0.toBitVec := by
  apply BitVec.eq_of_getLsbD_eq
  intro i hi
  rw [getLsbD_sampleOfBytes b0 b1 hi, BitVec.getLsbD_append]

theorem toNat_sampleOfBytes (b0 b1 : UInt8) :
    (sampleOfBytes b0 b1).toBitVec.toNat = ofLe [b0, b1] := by
  calc
    (sampleOfBytes b0 b1).toBitVec.toNat = b1.toNat <<< 8 ||| b0.toNat := by
          rw [toBitVec_sampleOfBytes, BitVec.toNat_append]
          rfl
    _ = b1.toNat <<< 8 + b0.toNat := (Nat.shiftLeft_add_eq_or_of_lt b0.toNat_lt _).symm
    _ = ofLe [b0, b1] := by simp [ofLe, Nat.shiftLeft_eq, Nat.add_comm, Nat.mul_comm]

/-- `i16::from_le_bytes`. -/
theorem toInt_sampleOfBytes (b0 b1 : UInt8) :
    (sampleOfBytes b0 b1).toInt = (ofLe [b0, b1] : Int).bmod (2 ^ 16) := by
  calc
    (sampleOfBytes b0 b1).toInt
        = ((sampleOfBytes b0 b1).toBitVec.toNat : Int).bmod (2 ^ 16) :=
          BitVec.toInt_eq_toNat_bmod _
    _ = (ofLe [b0, b1] : Int).bmod (2 ^ 16) := by rw [toNat_sampleOfBytes]

theorem toInt_samplesOf (p : List UInt8) {i : Nat} (hi : i < p.length / 2) :
    ((samplesOf p).getD i 0).toInt = sampleValue p i := by
  have hlow : i * 2 < p.length := by omega
  have hhigh : i * 2 + 1 < p.length := by omega
  have hbytes : (p.drop (i * 2)).take 2 = [p.getD (i * 2) 0, p.getD (i * 2 + 1) 0] := by
    rw [List.drop_eq_getElem_cons hlow, List.drop_eq_getElem_cons hhigh,
      List.getD_eq_getElem _ _ hlow, List.getD_eq_getElem _ _ hhigh]
    rfl
  calc
    ((samplesOf p).getD i 0).toInt
        = (sampleOfBytes (p.getD (i * 2) 0) (p.getD (i * 2 + 1) 0)).toInt :=
          congrArg Int16.toInt (getD_samplesOf p hi)
    _ = (ofLe [p.getD (i * 2) 0, p.getD (i * 2 + 1) 0] : Int).bmod (2 ^ 16) :=
          toInt_sampleOfBytes _ _
    _ = sampleValue p i :=
          congrArg (fun bs => (ofLe bs : Int).bmod (2 ^ 16)) hbytes.symm

/-! ## Samples and bytes -/

theorem samplesOf_bytesOf (xs : List Int16) : samplesOf (bytesOf xs) = xs := by
  induction xs with
  | nil => rfl
  | cons s xs ih =>
      calc
        samplesOf (bytesOf (s :: xs))
            = sampleOfBytes (lowByte s) (highByte s) :: samplesOf (bytesOf xs) := rfl
        _ = s :: xs := by rw [sampleOfBytes_bytes, ih]

/-- An odd byte at the end of a packet belongs to no sample, hence the condition. -/
theorem bytesOf_samplesOf {bs : List UInt8} (heven : bs.length % 2 = 0) :
    bytesOf (samplesOf bs) = bs := by
  induction bs using List.twoStepInduction with
  | nil => rfl
  | singleton b => simp at heven
  | cons_cons b0 b1 bs ih _ =>
      have htail : bs.length % 2 = 0 := by
        simpa [Nat.add_assoc] using heven
      calc
        bytesOf (samplesOf (b0 :: b1 :: bs))
            = lowByte (sampleOfBytes b0 b1) :: highByte (sampleOfBytes b0 b1)
                :: bytesOf (samplesOf bs) := rfl
        _ = b0 :: b1 :: bs := by
              rw [lowByte_sampleOfBytes, highByte_sampleOfBytes, ih htail]

/-! ## Frames and their channels -/

/-- A frame is its two channels. -/
theorem AudioFrame.ext_channels {f g : AudioFrame} (hleft : f.left = g.left)
    (hright : f.right = g.right) : f = g := by
  have hplace : ∀ k < samplesPerFrame * 2,
      f.samples.toList.getD k 0 = g.samples.toList.getD k 0 := by
    intro k hk
    have hi : k / 2 < samplesPerFrame := by omega
    have hmem : k / 2 ∈ List.range samplesPerFrame := List.mem_range.2 hi
    rcases Nat.mod_two_eq_zero_or_one k with heven | hodd
    · have hk2 : k / 2 * 2 = k := by omega
      simpa only [hk2] using List.map_inj_left.1 hleft (k / 2) hmem
    · have hk2 : k / 2 * 2 + 1 = k := by omega
      simpa only [hk2] using List.map_inj_left.1 hright (k / 2) hmem
  have hsamples : f.samples = g.samples := by
    ext k hk
    simpa [hk] using hplace k hk
  cases f
  cases g
  exact congrArg AudioFrame.mk hsamples

/-- The frame read from a packet has the packet's sample, or silence, at both places of a pair. -/
theorem getElem?_bytesToFrame (p : List UInt8) {i j : Nat} (hi : i < samplesPerFrame)
    (hj : j < 2) :
    (bytesToFrame p).samples[i * 2 + j]? = some ((samplesOf p).getD i 0) := by
  have hplace : i * 2 + j < samplesPerFrame * 2 := by omega
  have hpair : (i * 2 + j) / 2 = i := by omega
  have hsample := getD_bytesToFrame p hplace
  rw [hpair] at hsample
  simpa [hplace] using hsample

-- two samples, then an odd byte
example : (bytesToFrame [0x34, 0x12, 0xff, 0xff, 7]).left.take 3 = [0x1234, -1, 0] := by decide

/-! ## Packets as mono frames -/

/-- `frame` written to a packet and read back. -/
def throughMono (buf : Vector UInt8 isoOutPacket) (frame : AudioFrame) : AudioFrame :=
  bytesToFrame (frameToMono frame buf).toList

theorem left_throughMono (buf : Vector UInt8 isoOutPacket) (f : AudioFrame) :
    (throughMono buf f).left = f.left := by
  calc
    (throughMono buf f).left
        = (samplesOf (frameToMono f buf).toList).takeD samplesPerFrame 0 := left_bytesToFrame _
    _ = f.left.takeD samplesPerFrame 0 := by rw [toList_frameToMono, samplesOf_bytesOf]
    _ = f.left := takeD_of_length f.length_left 0

theorem left_eq_right_bytesToFrame (p : List UInt8) :
    (bytesToFrame p).left = (bytesToFrame p).right :=
  (left_bytesToFrame p).trans (right_bytesToFrame p).symm

theorem right_throughMono (buf : Vector UInt8 isoOutPacket) (f : AudioFrame) :
    (throughMono buf f).right = f.left :=
  (left_eq_right_bytesToFrame _).symm.trans (left_throughMono buf f)

theorem throughMono_eq_self_iff (buf : Vector UInt8 isoOutPacket) (f : AudioFrame) :
    throughMono buf f = f ↔ f.left = f.right := by
  constructor
  · intro hself
    calc
      f.left = (throughMono buf f).right := (right_throughMono buf f).symm
      _ = f.right := congrArg AudioFrame.right hself
  · intro hmono
    exact AudioFrame.ext_channels (left_throughMono buf f)
      ((right_throughMono buf f).trans hmono)

/-- A packet read and written again is the same packet, whatever it is written over. -/
theorem frameToMono_bytesToFrame (b buf : Vector UInt8 isoOutPacket) :
    frameToMono (bytesToFrame b.toList) buf = b := by
  have hlen : b.toList.length = isoOutPacket := Vector.length_toList
  have hcount : (samplesOf b.toList).length = samplesPerFrame := by
    rw [length_samplesOf, hlen]
    rfl
  have heven : b.toList.length % 2 = 0 := by
    rw [hlen]
    rfl
  apply Vector.toList_inj.1
  calc
    (frameToMono (bytesToFrame b.toList) buf).toList
        = bytesOf (bytesToFrame b.toList).left := toList_frameToMono _ buf
    _ = bytesOf (samplesOf b.toList) := by
          rw [left_bytesToFrame, takeD_of_length hcount]
    _ = b.toList := bytesOf_samplesOf heven

/-- A frame whose channels carry the same samples. -/
def MonoFrame := {f : AudioFrame // f.left = f.right}

/-- The frame of a whole packet. -/
def frameOfPacket (b : Vector UInt8 isoOutPacket) : MonoFrame :=
  ⟨bytesToFrame b.toList, left_eq_right_bytesToFrame _⟩

/-- Packets of 96 bytes and mono frames hold the same data. -/
theorem frameOfPacket_bijective : Function.Bijective frameOfPacket := by
  let buf : Vector UInt8 isoOutPacket := Vector.replicate isoOutPacket 0
  have hleft : Function.LeftInverse (fun f : MonoFrame => frameToMono f.val buf) frameOfPacket :=
    fun b => frameToMono_bytesToFrame b buf
  have hright : Function.RightInverse (fun f : MonoFrame => frameToMono f.val buf) frameOfPacket :=
    fun f => Subtype.ext ((throughMono_eq_self_iff buf f.val).2 f.property)
  exact ⟨hleft.injective, hright.surjective⟩

/-! ## The round trip -/

/-- What the two helpers do to each other's results, over a buffer with any content. -/
structure MonoRoundTrip (buf : Vector UInt8 isoOutPacket) : Prop where
  packet : ∀ b : Vector UInt8 isoOutPacket, frameToMono (bytesToFrame b.toList) buf = b
  frame : ∀ f g : AudioFrame, g = throughMono buf f ↔ g.left = f.left ∧ g.right = f.left
  idempotent : ∀ (f : AudioFrame) (buf' : Vector UInt8 isoOutPacket),
    throughMono buf' (throughMono buf f) = throughMono buf f
  identity : ∀ f : AudioFrame, throughMono buf f = f ↔ f.left = f.right
  /-- Both samples of a pair are the packet's, for a packet of any length. -/
  inPacket : ∀ (p : List UInt8) (i j : Nat), i < min (p.length / 2) samplesPerFrame → j < 2 →
    (bytesToFrame p).samples[i * 2 + j]?.map Int16.toInt = some (sampleValue p i)
  beyond : ∀ (p : List UInt8) (i j : Nat), min (p.length / 2) samplesPerFrame ≤ i →
    i < samplesPerFrame → j < 2 → (bytesToFrame p).samples[i * 2 + j]? = some 0

theorem mono_roundTrip (buf : Vector UInt8 isoOutPacket) : MonoRoundTrip buf where
  packet b := frameToMono_bytesToFrame b buf
  frame f g := by
    constructor
    · rintro rfl
      exact ⟨left_throughMono buf f, right_throughMono buf f⟩
    · rintro ⟨hleft, hright⟩
      exact AudioFrame.ext_channels (hleft.trans (left_throughMono buf f).symm)
        (hright.trans (right_throughMono buf f).symm)
  idempotent f buf' :=
    (throughMono_eq_self_iff buf' _).2 (left_eq_right_bytesToFrame _)
  identity f := throughMono_eq_self_iff buf f
  inPacket p i j hi hj := by
    have hsample : i < p.length / 2 := Nat.lt_of_lt_of_le hi (Nat.min_le_left ..)
    have hframe : i < samplesPerFrame := Nat.lt_of_lt_of_le hi (Nat.min_le_right ..)
    simpa [getElem?_bytesToFrame p hframe hj] using toInt_samplesOf p hsample
  beyond p i j hge hframe hj := by
    have hend : (samplesOf p).length ≤ i := by
      rw [length_samplesOf]
      omega
    calc
      (bytesToFrame p).samples[i * 2 + j]? = some ((samplesOf p).getD i 0) :=
            getElem?_bytesToFrame p hframe hj
      _ = some 0 := congrArg some (List.getD_eq_default _ _ hend)

end Cm108Driver
