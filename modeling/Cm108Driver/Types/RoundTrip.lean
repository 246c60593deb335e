import Cm108Driver.Types.Codec

/-!
# RoundTrip — every encodable value decodes to itself, with any suffix left over

One lemma for each reader undoes the matching writer in front of an arbitrary rest; the message
types follow by cases on the constructor.  `Encodable` is the range in which the encoder does not
narrow anything: flags within `0b111`, at most `maxFrames` frames, strings of at most 65535 bytes.
-/

namespace Cm108Driver

open Lib

/-! ## Integers -/

@[simp] theorem readU8_pushU8 (v : UInt8) (r : List UInt8) :
    readU8 (pushU8 v ++ r) = some (v, r) := rfl

/-- An integer of `w` bytes is read back in front of any rest, whatever type it is cast to. -/
theorem readLe_toLe {w n : Nat} {α : Type} (cast : Nat → α) (h : n < 256 ^ w) (r : List UInt8) :
    (if (toLe w n ++ r).length < w then none
      else some (cast (ofLe ((toLe w n ++ r).take w)), (toLe w n ++ r).drop w)) =
      some (cast n, r) := by
  have hlen : ¬ (toLe w n ++ r).length < w := by
    rw [List.length_append, length_toLe]
    exact Nat.not_lt.2 (Nat.le_add_right _ _)
  rw [if_neg hlen, List.take_left' (length_toLe w n), List.drop_left' (length_toLe w n),
    ofLe_toLe h]

@[simp] theorem readU16_pushU16 (v : UInt16) (r : List UInt8) :
    readU16 (pushU16 v ++ r) = some (v, r) := by
  have hv : v.toNat < 256 ^ 2 := v.toNat_lt
  simpa [readU16, pushU16] using readLe_toLe UInt16.ofNat hv r

@[simp] theorem readU32_pushU32 (v : UInt32) (r : List UInt8) :
    readU32 (pushU32 v ++ r) = some (v, r) := by
  have hv : v.toNat < 256 ^ 4 := v.toNat_lt
  simpa [readU32, pushU32] using readLe_toLe UInt32.ofNat hv r

@[simp] theorem readU64_pushU64 (v : UInt64) (r : List UInt8) :
    readU64 (pushU64 v ++ r) = some (v, r) := by
  have hv : v.toNat < 256 ^ 8 := v.toNat_lt
  simpa [readU64, pushU64] using readLe_toLe UInt64.ofNat hv r

/-! ## Strings -/

@[simp] theorem fromUtf8_asBytes (s : String) : fromUtf8 (asBytes s) = some s := by
  have hbytes : (⟨(asBytes s).toArray⟩ : ByteArray) = s.toByteArray := by
    simp [asBytes]
  simp only [fromUtf8, hbytes, String.fromUTF8?]
  rw [dif_pos s.isValidUTF8]
  rfl

/-- A string of at most 65535 bytes keeps its length in the two-byte field. -/
theorem readStr_pushStr {s : String} (h : (asBytes s).length < 65536) (r : List UInt8) :
    readStr (pushStr s ++ r) = some (s, r) := by
  have hlen : (UInt16.ofNat (asBytes s).length).toNat = (asBytes s).length := by
    simp [Nat.mod_eq_of_lt h]
  simp [readStr, pushStr, List.append_assoc, hlen, List.take_left', List.drop_left']

/-! ## Samples -/

theorem and_byteMask (x : BitVec 8) : x &&& 255#8 = x := by
  have hmask : (255#8 : BitVec 8) = BitVec.allOnes 8 := by decide
  rw [hmask, BitVec.and_allOnes]

theorem toBitVec_lowByte (s : Int16) : (lowByte s).toBitVec = s.toBitVec.setWidth 8 := by
  simp [lowByte, and_byteMask]

theorem toBitVec_highByte (s : Int16) :
    (highByte s).toBitVec = (s.toBitVec.sshiftRight 8).setWidth 8 := by
  simp [highByte, and_byteMask]

theorem getLsbD_sampleOfBytes (b0 b1 : UInt8) {i : Nat} (hi : i < 16) :
    (sampleOfBytes b0 b1).toBitVec.getLsbD i =
      if i < 8 then b0.toBitVec.getLsbD i else b1.toBitVec.getLsbD (i - 8) := by
  by_cases h : i < 8
  · simp [sampleOfBytes, h, hi]
  · have hge : 8 ≤ i := by omega
    simp [sampleOfBytes, h, hi, hge]

/-- The two bytes of a sample, put together again, are the sample (whatever its sign). -/
theorem sampleOfBytes_bytes (s : Int16) : sampleOfBytes (lowByte s) (highByte s) = s := by
  apply Int16.toBitVec.inj
  apply BitVec.eq_of_getLsbD_eq
  intro i hi
  rw [getLsbD_sampleOfBytes _ _ hi, toBitVec_lowByte, toBitVec_highByte]
  by_cases h : i < 8
  · simp [h]
  · have hlt : i - 8 < 8 := by omega
    have hlt16 : ¬ 16 ≤ i - 8 := by omega
    have hsum : 8 + (i - 8) = i := by omega
    rw [if_neg h, BitVec.getLsbD_setWidth, BitVec.getLsbD_sshiftRight]
    simp [hi, hlt, hlt16, hsum]

/-! ## Frames -/

/-- In a list of interleaved pairs, position `2 i` holds the first component of pair `i` and
position `2 i + 1` the second. -/
theorem getD_flatMap_pair {α : Type} (f g : α → UInt8) (d : UInt8) (l : List α) (r : List UInt8)
    (i : Nat) (hi : i < l.length) :
    ((l.flatMap fun a => [f a, g a]) ++ r).getD (i * 2) d = f l[i] ∧
      ((l.flatMap fun a => [f a, g a]) ++ r).getD (i * 2 + 1) d = g l[i] := by
  induction l generalizing i with
  | nil => simp at hi
  | cons a l ih =>
      cases i with
      | zero => simp
      | succ i =>
          have hi' : i < l.length := by simpa using hi
          have heven : (i + 1) * 2 = i * 2 + 1 + 1 := by omega
          have hodd : (i + 1) * 2 + 1 = i * 2 + 1 + 1 + 1 := by omega
          simpa [heven, hodd] using ih i hi'

theorem length_flatMap_pair {α : Type} (f g : α → UInt8) (l : List α) :
    (l.flatMap fun a => [f a, g a]).length = l.length * 2 := by
  induction l with
  | nil => rfl
  | cons a l ih =>
      simp only [List.flatMap_cons, List.length_append, ih, List.length_cons, List.length_nil]
      omega

@[simp] theorem length_encode_frame (f : AudioFrame) : (encode f).length = frameBytes := by
  have henc : encode f = f.samples.toList.flatMap fun s => [lowByte s, highByte s] := rfl
  rw [henc, length_flatMap_pair, Vector.length_toList]
  rfl

theorem decode_encode_frame (f : AudioFrame) (r : List UInt8) :
    decode (encode f ++ r) = some (f, r) := by
  have hlen : ¬ (encode f ++ r).length < frameBytes := by simp
  have hsamples : (Vector.ofFn fun i : Fin (samplesPerFrame * 2) =>
      sampleOfBytes ((encode f ++ r).getD (i.val * 2) 0)
        ((encode f ++ r).getD (i.val * 2 + 1) 0)) = f.samples := by
    ext i hi
    have hi' : i < f.samples.toList.length := by simpa using hi
    have hpair := getD_flatMap_pair lowByte highByte 0 f.samples.toList r i hi'
    have henc : encode f = f.samples.toList.flatMap fun s => [lowByte s, highByte s] := rfl
    simp only [Vector.getElem_ofFn]
    rw [henc, hpair.1, hpair.2, sampleOfBytes_bytes]
    simp
  have hdrop : (encode f ++ r).drop frameBytes = r := by
    simp [List.drop_left']
  simp only [decode, if_neg hlen, hsamples, hdrop]

theorem decodeFrames_encode (frames : List AudioFrame) (r : List UInt8) :
    decodeFrames frames.length (frames.flatMap encode ++ r) = some (frames, r) := by
  induction frames with
  | nil => rfl
  | cons f fs ih =>
      simp [decodeFrames, List.append_assoc, decode_encode_frame, ih]

theorem length_flatMap_encode (frames : List AudioFrame) :
    (frames.flatMap encode).length = frameBytes * frames.length := by
  induction frames with
  | nil => rfl
  | cons f fs ih =>
      simp only [List.flatMap_cons, List.length_append, length_encode_frame, ih, List.length_cons]
      rw [Nat.mul_succ, Nat.add_comm]

/-! ## Messages -/

/-- The range in which `ClientMsg::encode` narrows nothing. -/
def ClientMsg.Encodable : ClientMsg → Prop
  | .subscribe streams => streams.bits &&& 0b0111 = streams.bits
  | .audioWrite frames => frames.length ≤ maxFrames
  | _ => True

/-- The range in which `ServerMsg::encode` narrows nothing. -/
def ServerMsg.Encodable : ServerMsg → Prop
  | .error s => (asBytes s).length < 65536
  | _ => True

theorem toUInt8_ne_zero (high : Bool) : (high.toUInt8 != 0) = high := by
  cases high <;> rfl

theorem decode_encode_clientMsg {m : ClientMsg} (h : m.Encodable) (r : List UInt8) :
    decode (encode m ++ r) = some (m, r) := by
  cases m with
  | subscribe streams =>
      have hbits : StreamFlags.fromBitsTruncate streams.bits = streams :=
        congrArg StreamFlags.mk h
      simp [encode, decode, List.append_assoc, hbits]
  | setGpio pin high =>
      simp [encode, decode, List.append_assoc, toUInt8_ne_zero]
  | audioWrite frames =>
      have hle : frames.length ≤ 65536 := h
      have hmod : frames.length % 4294967296 = frames.length := Nat.mod_eq_of_lt (by omega)
      have hcap : frames.length ≤ maxFrames := h
      have hloop := decodeFrames_encode frames r
      simp only [encode] at hloop
      simp [encode, decode, List.append_assoc, hmod, hcap, hloop]
  | ping => rfl
  | getStats => rfl

theorem decode_encode_serverMsg {m : ServerMsg} (h : m.Encodable) (r : List UInt8) :
    decode (encode m ++ r) = some (m, r) := by
  cases m with
  | audioReady seq => simp [encode, decode, List.append_assoc]
  | radioEvent ev => cases ev <;> rfl
  | stats rx tx lat => simp [encode, decode, List.append_assoc]
  | pong => rfl
  | error s =>
      simp [encode, decode, List.append_assoc, readStr_pushStr h]

/-- Every encodable message in front of any suffix decodes to itself and leaves the suffix. -/
theorem decode_encode_suffix :
    (∀ m : ClientMsg, m.Encodable → ∀ r, decode (encode m ++ r) = some (m, r)) ∧
      ∀ m : ServerMsg, m.Encodable → ∀ r, decode (encode m ++ r) = some (m, r) :=
  ⟨fun _ h r => decode_encode_clientMsg h r, fun _ h r => decode_encode_serverMsg h r⟩

theorem decode_encode_suffix_oneFrame :
    decode (encode (ClientMsg.audioWrite [AudioFrame.default]) ++ [7]) =
        some (ClientMsg.audioWrite [AudioFrame.default], [7]) ∧
      decode (encode (ServerMsg.error "") ++ [7]) = some (ServerMsg.error "", [7]) :=
  ⟨decode_encode_suffix.1 (.audioWrite [AudioFrame.default]) (show 1 ≤ maxFrames by decide) [7],
    decode_encode_suffix.2 (.error "") (show 0 < 65536 by decide) [7]⟩

theorem fromBytes_encode_clientMsg {m : ClientMsg} (h : m.Encodable) :
    fromBytes ClientMsg (encode m) = some m := by
  have hdec := decode_encode_clientMsg h []
  rw [List.append_nil] at hdec
  simp [fromBytes, hdec]

theorem fromBytes_encode_serverMsg {m : ServerMsg} (h : m.Encodable) :
    fromBytes ServerMsg (encode m) = some m := by
  have hdec := decode_encode_serverMsg h []
  rw [List.append_nil] at hdec
  simp [fromBytes, hdec]

/-! ## Outside the range -/

/-- The message as the decoder sees it: flag bits that name no stream are cleared. -/
def ClientMsg.truncated : ClientMsg → ClientMsg
  | .subscribe streams => .subscribe (StreamFlags.fromBitsTruncate streams.bits)
  | m => m

/-- The frame count wraps around (`as u32`) to one that the decoder takes. -/
def ClientMsg.Wraps : ClientMsg → Prop
  | .audioWrite frames => 2 ^ 32 ≤ frames.length ∧ frames.length % 2 ^ 32 ≤ maxFrames
  | _ => False

/-- The string length wraps around (`as u16`) to one that ends on a character boundary. -/
def ServerMsg.Wraps : ServerMsg → Prop
  | .error s =>
      65536 ≤ (asBytes s).length ∧
        (fromUtf8 ((asBytes s).take ((asBytes s).length % 65536))).isSome
  | _ => False

/-- A string whose length wraps, but not onto a character boundary, is not read back at all. -/
theorem readStr_pushStr_none {s : String}
    (h : fromUtf8 ((asBytes s).take ((asBytes s).length % 65536)) = none) :
    readStr (pushStr s) = none := by
  have hlen : (UInt16.ofNat (asBytes s).length).toNat = (asBytes s).length % 65536 := by simp
  have hle : ¬ (asBytes s).length < (asBytes s).length % 65536 :=
    Nat.not_lt.2 (Nat.mod_le _ _)
  simp only [readStr, pushStr, readU16_pushU16, Option.bind_eq_bind, Option.bind_some, hlen,
    if_neg hle, h, Option.bind_none]

theorem decode_encode_truncated {m : ClientMsg} (h : ¬ m.Wraps) :
    decode (encode m) = some (m.truncated, []) ∨ decode (α := ClientMsg) (encode m) = none := by
  cases m with
  | subscribe streams => exact Or.inl rfl
  | setGpio pin high =>
      have hm : (ClientMsg.setGpio pin high).Encodable := trivial
      have hround := decode_encode_clientMsg hm []
      exact Or.inl (by simpa [ClientMsg.truncated] using hround)
  | audioWrite frames =>
      by_cases hcap : frames.length ≤ maxFrames
      · have hm : (ClientMsg.audioWrite frames).Encodable := hcap
        have hround := decode_encode_clientMsg hm []
        exact Or.inl (by simpa [ClientMsg.truncated] using hround)
      · -- the count on the wire is beyond the cap, whether it wrapped or not
        have hcount : maxFrames < frames.length % 4294967296 := by
          by_cases hwrap : 2 ^ 32 ≤ frames.length
          · exact Nat.lt_of_not_le fun hle => h ⟨hwrap, hle⟩
          · have hsmall : frames.length < 4294967296 := Nat.lt_of_not_le hwrap
            rw [Nat.mod_eq_of_lt hsmall]
            exact Nat.lt_of_not_le hcap
        exact Or.inr (by simp [encode, decode, List.append_assoc, hcount])
  | ping => exact Or.inl rfl
  | getStats => exact Or.inl rfl

theorem decode_encode_or_fails {m : ServerMsg} (h : ¬ m.Wraps) :
    decode (encode m) = some (m, []) ∨ decode (α := ServerMsg) (encode m) = none := by
  by_cases hm : m.Encodable
  · exact Or.inl (by simpa using decode_encode_serverMsg hm [])
  · cases m with
    | error s =>
        have hlong : 65536 ≤ (asBytes s).length := Nat.not_lt.1 hm
        have hnone : fromUtf8 ((asBytes s).take ((asBytes s).length % 65536)) = none := by
          cases htext : fromUtf8 ((asBytes s).take ((asBytes s).length % 65536)) with
          | none => rfl
          | some t => exact absurd ⟨hlong, by rw [htext]; rfl⟩ h
        exact Or.inr (by simp [encode, decode, readStr_pushStr_none hnone])
    | audioReady seq => exact absurd trivial hm
    | radioEvent ev => exact absurd trivial hm
    | stats rx tx lat => exact absurd trivial hm
    | pong => exact absurd trivial hm

/-- Unless a length wraps around to one that parses, the encoding of a message decodes to the
message without its unused flag bits, with nothing left over, or not at all. -/
theorem encoder_not_corrupting :
    (∀ m : ClientMsg, ¬ m.Wraps →
      decode (encode m) = some (m.truncated, []) ∨ decode (α := ClientMsg) (encode m) = none) ∧
    ∀ m : ServerMsg, ¬ m.Wraps →
      decode (encode m) = some (m, []) ∨ decode (α := ServerMsg) (encode m) = none :=
  ⟨fun _ h => decode_encode_truncated h, fun _ h => decode_encode_or_fails h⟩

theorem encoder_not_corrupting_subscribe :
    (decode (encode (ClientMsg.subscribe ⟨0xFF⟩)) = some (ClientMsg.subscribe ⟨0b0111⟩, []) ∨
        decode (α := ClientMsg) (encode (ClientMsg.subscribe ⟨0xFF⟩)) = none) ∧
      (decode (encode ServerMsg.pong) = some (ServerMsg.pong, []) ∨
        decode (α := ServerMsg) (encode ServerMsg.pong) = none) :=
  ⟨encoder_not_corrupting.1 (.subscribe ⟨0xFF⟩) (fun h => h),
    encoder_not_corrupting.2 .pong (fun h => h)⟩

/-- All eight flag bits are written, three of them are read back. -/
theorem subscribe_flags_dropped :
    decode (encode (ClientMsg.subscribe ⟨0xFF⟩)) = some (ClientMsg.subscribe ⟨0b0111⟩, []) ∧
      (ClientMsg.subscribe ⟨0xFF⟩) ≠ ClientMsg.subscribe ⟨0b0111⟩ := by
  constructor
  · rfl
  · decide

end Cm108Driver
