import Cm108Driver.Lib.PrefixParser
import Cm108Driver.Types.RoundTrip

/-!
# Grammar — what the decoders accept

Every reader takes exactly the bytes its writer would have pushed, so that an accepted buffer is
the encoding of the value in front of the unconsumed rest.  Two fields of a client message are not
canonical: `Subscribe` drops the flag bits above `0b111`, and `SetGpio` takes any non-zero byte for
`true`.  `ClientMsg.SpelledBy` is the grammar with these two liberties.
-/

namespace Cm108Driver

open Lib

/-! ## Integers and strings -/

theorem readU8_sound {b rest : List UInt8} {v : UInt8} (h : readU8 b = some (v, rest)) :
    b = pushU8 v ++ rest := by
  cases b with
  | nil => simp [readU8] at h
  | cons x xs =>
      simp only [readU8, Option.some.injEq, Prod.mk.injEq] at h
      rcases h with ⟨rfl, rfl⟩
      rfl

/-- The first `w` bytes of a buffer, read as a number and written again. -/
theorem toLe_ofLe_take {w : Nat} {b : List UInt8} (h : ¬ b.length < w) :
    toLe w (ofLe (b.take w)) ++ b.drop w = b := by
  have hlen : (b.take w).length = w := List.length_take_of_le (Nat.not_lt.1 h)
  have hword := toLe_ofLe (b.take w)
  rw [hlen] at hword
  rw [hword, List.take_append_drop]

/-- What an integer of `w` bytes is read from, whatever type the number is cast to. -/
theorem readLe_sound {w : Nat} {α : Type} {cast : Nat → α} {b rest : List UInt8} {v : α}
    (h : (if b.length < w then none else some (cast (ofLe (b.take w)), b.drop w)) =
      some (v, rest)) :
    ∃ n < 256 ^ w, v = cast n ∧ b = toLe w n ++ rest := by
  split at h
  · cases h
  · rename_i hlen
    have hlt := ofLe_lt (b.take w)
    rw [List.length_take_of_le (Nat.not_lt.1 hlen)] at hlt
    simp only [Option.some.injEq, Prod.mk.injEq] at h
    rcases h with ⟨rfl, rfl⟩
    exact ⟨_, hlt, rfl, (toLe_ofLe_take hlen).symm⟩

theorem readU16_sound {b rest : List UInt8} {v : UInt16} (h : readU16 b = some (v, rest)) :
    b = pushU16 v ++ rest := by
  rcases readLe_sound h with ⟨n, hlt, rfl, hb⟩
  rw [hb, pushU16, UInt16.toNat_ofNat_of_lt' hlt]

theorem readU32_sound {b rest : List UInt8} {v : UInt32} (h : readU32 b = some (v, rest)) :
    b = pushU32 v ++ rest := by
  rcases readLe_sound h with ⟨n, hlt, rfl, hb⟩
  rw [hb, pushU32, UInt32.toNat_ofNat_of_lt' hlt]

theorem readU64_sound {b rest : List UInt8} {v : UInt64} (h : readU64 b = some (v, rest)) :
    b = pushU64 v ++ rest := by
  rcases readLe_sound h with ⟨n, hlt, rfl, hb⟩
  rw [hb, pushU64, UInt64.toNat_ofNat_of_lt' hlt]

/-- Accepted bytes are the bytes of the string they were read as. -/
theorem asBytes_of_fromUtf8 {bs : List UInt8} {s : String} (h : fromUtf8 bs = some s) :
    asBytes s = bs := by
  unfold fromUtf8 String.fromUTF8? at h
  split at h
  · simp only [Option.some.injEq] at h
    subst h
    rfl
  · cases h

theorem readStr_sound {b rest : List UInt8} {s : String} (h : readStr b = some (s, rest)) :
    (asBytes s).length < 65536 ∧ b = pushStr s ++ rest := by
  simp only [readStr, Option.bind_eq_bind, Option.bind_eq_some_iff] at h
  rcases h with ⟨⟨len, r⟩, hlen, h⟩
  split at h
  · cases h
  · rename_i hfits
    simp only [Option.bind_eq_some_iff, Option.pure_def, Option.some.injEq, Prod.mk.injEq] at h
    rcases h with ⟨s', htext, rfl, rfl⟩
    have hbytes : asBytes s' = r.take len.toNat := asBytes_of_fromUtf8 htext
    have hcount : (asBytes s').length = len.toNat := by
      rw [hbytes, List.length_take_of_le (Nat.not_lt.1 hfits)]
    constructor
    · rw [hcount]
      exact len.toNat_lt
    · rw [readU16_sound hlen, pushStr, hcount, UInt16.ofNat_toNat, hbytes, List.append_assoc,
        List.take_append_drop]

/-! ## Frames -/

theorem lowByte_sampleOfBytes (b0 b1 : UInt8) : lowByte (sampleOfBytes b0 b1) = b0 := by
  apply UInt8.toBitVec_inj.1
  rw [toBitVec_lowByte]
  apply BitVec.eq_of_getLsbD_eq
  intro i hi
  have hi16 : i < 16 := by omega
  rw [BitVec.getLsbD_setWidth, getLsbD_sampleOfBytes b0 b1 hi16]
  simp [hi]

theorem highByte_sampleOfBytes (b0 b1 : UInt8) : highByte (sampleOfBytes b0 b1) = b1 := by
  apply UInt8.toBitVec_inj.1
  rw [toBitVec_highByte]
  apply BitVec.eq_of_getLsbD_eq
  intro i hi
  have hsum : 8 + i < 16 := by omega
  have hhigh : ¬ 8 + i < 8 := by omega
  have hlt : ¬ 16 ≤ i := by omega
  have hsub : 8 + i - 8 = i := by omega
  rw [BitVec.getLsbD_setWidth, BitVec.getLsbD_sshiftRight, if_pos hsum,
    getLsbD_sampleOfBytes b0 b1 hsum, if_neg hhigh, hsub]
  simp [hi, hlt]

/-- The samples read from the first `n` byte pairs, written out again. -/
theorem flatMap_samples (n : Nat) {b : List UInt8} (h : n * 2 ≤ b.length) :
    (List.ofFn fun i : Fin n =>
        sampleOfBytes (b.getD (i.val * 2) 0) (b.getD (i.val * 2 + 1) 0)).flatMap
      (fun s => [lowByte s, highByte s]) = b.take (n * 2) := by
  induction n generalizing b with
  | zero => simp
  | succ n ih =>
      match b with
      | [] => simp at h
      | [x] =>
          simp only [List.length_singleton] at h
          omega
      | x :: y :: b =>
          have hb : n * 2 ≤ b.length := by
            simp only [List.length_cons] at h
            omega
          have hnext : (n + 1) * 2 = n * 2 + 1 + 1 := by omega
          have heven : ∀ i : Fin n, (i.val + 1) * 2 = i.val * 2 + 1 + 1 := fun i => by omega
          rw [List.ofFn_succ, List.flatMap_cons, hnext]
          simp only [Fin.val_succ, heven, List.getD_cons_succ, List.take_succ_cons]
          rw [ih hb]
          simp [lowByte_sampleOfBytes, highByte_sampleOfBytes]

theorem decode_frame_sound {b rest : List UInt8} {f : AudioFrame}
    (h : decode b = some (f, rest)) : b = encode f ++ rest := by
  simp only [decode] at h
  split at h
  · cases h
  · rename_i hlen
    simp only [Option.some.injEq, Prod.mk.injEq] at h
    rcases h with ⟨rfl, rfl⟩
    have hle : samplesPerFrame * 2 * 2 ≤ b.length := Nat.not_lt.1 hlen
    have hbytes := flatMap_samples (samplesPerFrame * 2) hle
    simp only [encode, Vector.toList_ofFn]
    rw [hbytes]
    exact (List.take_append_drop frameBytes b).symm

theorem decodeFrames_sound {n : Nat} {b rest : List UInt8} {frames : List AudioFrame}
    (h : decodeFrames n b = some (frames, rest)) :
    frames.length = n ∧ b = frames.flatMap encode ++ rest := by
  induction n generalizing b frames with
  | zero =>
      simp only [decodeFrames, Option.some.injEq, Prod.mk.injEq] at h
      rcases h with ⟨rfl, rfl⟩
      exact ⟨rfl, rfl⟩
  | succ n ih =>
      simp only [decodeFrames, Option.bind_eq_bind, Option.bind_eq_some_iff, Option.pure_def,
        Option.some.injEq, Prod.mk.injEq] at h
      rcases h with ⟨⟨f, r⟩, hframe, ⟨fs, r'⟩, hloop, rfl, rfl⟩
      rcases ih hloop with ⟨hcount, hr⟩
      simp only at hr
      constructor
      · rw [List.length_cons, hcount]
      · rw [decode_frame_sound hframe, hr, List.flatMap_cons, List.append_assoc]

/-! ## Nested fields -/

theorem decode_latencyStats_sound {b rest : List UInt8} {l : LatencyStats}
    (h : decode b = some (l, rest)) : b = encode l ++ rest := by
  simp only [decode, Option.bind_eq_bind, Option.bind_eq_some_iff, Prod.exists, Option.pure_def,
    Option.some.injEq, Prod.mk.injEq] at h
  rcases h with ⟨minUs, r₁, hmin, maxUs, r₂, hmax, p99Us, r₃, hp99, rfl, rfl⟩
  rw [readU32_sound hmin, readU32_sound hmax, readU32_sound hp99]
  simp [encode, List.append_assoc]

/-- A tag is known by its value. -/
theorem tag_sound {b rest : List UInt8} {tag : UInt8} (h : readU8 b = some (tag, rest)) (n : Nat)
    (htag : tag.toNat = n) : b = pushU8 (UInt8.ofNat n) ++ rest := by
  rw [← htag, UInt8.ofNat_toNat]
  exact readU8_sound h

theorem decode_radioEvent_sound {b rest : List UInt8} {ev : RadioEvent}
    (h : decode b = some (ev, rest)) : b = encode ev ++ rest := by
  simp only [decode, Option.bind_eq_bind, Option.bind_eq_some_iff, Prod.exists,
    Option.pure_def] at h
  rcases h with ⟨tag, r, htag, h⟩
  have hb := tag_sound htag
  split at h
  case h_1 hnum =>
    cases h
    exact hb 0 hnum
  case h_2 hnum =>
    cases h
    exact hb 1 hnum
  case h_3 hnum =>
    cases h
    exact hb 2 hnum
  case h_4 hnum =>
    cases h
    exact hb 3 hnum
  case h_5 hnum =>
    simp only [Option.bind_eq_some_iff, Prod.exists, Option.some.injEq, Prod.mk.injEq] at h
    rcases h with ⟨g, r₁, ⟨x, r₂, hg, rfl, rfl⟩, rfl, rfl⟩
    rw [hb 4 hnum, readU8_sound hg]
    rfl
  case h_6 => cases h

/-! ## Server messages -/

theorem decode_serverMsg_sound {b rest : List UInt8} {m : ServerMsg}
    (h : decode b = some (m, rest)) : m.Encodable ∧ b = encode m ++ rest := by
  unfold decode instDecodeServerMsg at h
  simp only [Option.bind_eq_bind, Option.bind_eq_some_iff, Prod.exists, Option.pure_def] at h
  rcases h with ⟨tag, r, htag, h⟩
  have hb := tag_sound htag
  split at h
  case h_1 hnum =>
    simp only [Option.bind_eq_some_iff, Prod.exists, Option.some.injEq, Prod.mk.injEq] at h
    -- one case for each tag of the source's `match`, and the tags that it refuses
    rcases h with ⟨seq, r₁, hseq, rfl, rfl⟩
    rw [hb 0 hnum, readU64_sound hseq]
    exact ⟨trivial, by simp [encode, List.append_assoc]⟩
  case h_2 hnum =>
    simp only [Option.bind_eq_some_iff, Prod.exists, Option.some.injEq, Prod.mk.injEq] at h
    rcases h with ⟨ev, r₁, hev, rfl, rfl⟩
    rw [hb 1 hnum, decode_radioEvent_sound hev]
    exact ⟨trivial, by simp [encode, List.append_assoc]⟩
  case h_3 hnum =>
    simp only [Option.bind_eq_some_iff, Prod.exists, Option.some.injEq, Prod.mk.injEq] at h
    rcases h with ⟨rxXruns, r₁, hrx, txXruns, r₂, htx, lat, r₃, hlat, rfl, rfl⟩
    rw [hb 2 hnum, readU64_sound hrx, readU64_sound htx, decode_latencyStats_sound hlat]
    exact ⟨trivial, by simp [encode, List.append_assoc]⟩
  case h_4 hnum =>
    cases h
    exact ⟨trivial, hb 3 hnum⟩
  case h_5 hnum =>
    simp only [Option.bind_eq_some_iff, Prod.exists, Option.some.injEq, Prod.mk.injEq] at h
    rcases h with ⟨s, r₁, htext, rfl, rfl⟩
    rcases readStr_sound htext with ⟨hfits, hr⟩
    rw [hb 4 hnum, hr]
    exact ⟨hfits, by simp [encode, List.append_assoc]⟩
  case h_6 => cases h

/-- `ServerMsg::decode` accepts the encodings of the encodable messages, and nothing else. -/
theorem exact_serverMsg :
    Exact (decode (α := ServerMsg)) fun m c => m.Encodable ∧ c = encode m where
  sound := by
    intro b m rest h
    rcases decode_serverMsg_sound h with ⟨hm, hb⟩
    exact ⟨encode m, ⟨hm, rfl⟩, hb⟩
  complete := by
    rintro m c rest ⟨hm, rfl⟩
    exact decode_encode_serverMsg hm rest

/-! ## Client messages -/

/-- `c` is the encoding of the message, up to the upper bits of the flags byte of `Subscribe` and up
to the choice of the non-zero byte for a high level. -/
def ClientMsg.SpelledBy : ClientMsg → List UInt8 → Prop
  | .subscribe streams, c =>
      ∃ b : UInt8, c = pushU8 0 ++ pushU8 b ∧ b &&& 0b0111 = streams.bits &&& 0b0111
  | .setGpio pin high, c =>
      ∃ b : UInt8, c = pushU8 1 ++ pushU8 pin ++ pushU8 b ∧
        (b = high.toUInt8 ∨ high.toUInt8 = 1 ∧ b ≠ 0)
  | m, c => c = encode m

theorem ClientMsg.SpelledBy.length {m : ClientMsg} {c : List UInt8} (h : m.SpelledBy c) :
    c.length = (encode m).length := by
  cases m with
  | subscribe streams =>
      rcases h with ⟨b, rfl, -⟩
      rfl
  | setGpio pin high =>
      rcases h with ⟨b, rfl, -⟩
      rfl
  | audioWrite frames => exact congrArg List.length h
  | ping => exact congrArg List.length h
  | getStats => exact congrArg List.length h

theorem decode_clientMsg_sound {b rest : List UInt8} {m : ClientMsg}
    (h : decode b = some (m, rest)) : m.Encodable ∧ ∃ c, m.SpelledBy c ∧ b = c ++ rest := by
  simp only [decode, Option.bind_eq_bind, Option.bind_eq_some_iff, Prod.exists,
    Option.pure_def] at h
  rcases h with ⟨tag, r, htag, h⟩
  have hb := tag_sound htag
  split at h
  case h_1 hnum =>
    simp only [Option.bind_eq_some_iff, Prod.exists, Option.some.injEq, Prod.mk.injEq] at h
    rcases h with ⟨streams, r₁, ⟨x, r₂, hx, rfl, rfl⟩, rfl, rfl⟩
    -- masking twice is masking once
    have hmask : x &&& 0b0111 &&& 0b0111 = x &&& 0b0111 := by
      rw [UInt8.and_assoc]
      rfl
    refine ⟨hmask, pushU8 0 ++ pushU8 x, ⟨x, rfl, hmask.symm⟩, ?_⟩
    rw [hb 0 hnum, readU8_sound hx]
    rfl
  case h_2 hnum =>
    simp only [Option.bind_eq_some_iff, Prod.exists, Option.some.injEq, Prod.mk.injEq] at h
    rcases h with ⟨pin, r₁, hpin, level, r₂, hlevel, rfl, rfl⟩
    refine ⟨trivial, pushU8 1 ++ pushU8 pin ++ pushU8 level, ⟨level, rfl, ?_⟩, ?_⟩
    · -- every byte but 0 spells "high"
      by_cases hzero : level = 0
      · subst hzero
        exact Or.inl rfl
      · have hhigh : (level != 0) = true := by simpa using hzero
        exact Or.inr ⟨by rw [hhigh]; rfl, hzero⟩
    · rw [hb 1 hnum, readU8_sound hpin, readU8_sound hlevel]
      rfl
  case h_3 hnum =>
    simp only [Option.bind_eq_some_iff, Prod.exists] at h
    rcases h with ⟨frameCount, r₁, hcount, h⟩
    -- a count beyond the cap is refused before any frame is read
    split at h
    · cases h
    · rename_i hcap
      simp only [Option.bind_eq_some_iff, Prod.exists, Option.some.injEq, Prod.mk.injEq] at h
      rcases h with ⟨frames, r₂, hloop, rfl, rfl⟩
      rcases decodeFrames_sound hloop with ⟨hlen, hr⟩
      have hle : frames.length ≤ maxFrames := by
        rw [hlen]
        exact Nat.not_lt.1 hcap
      refine ⟨hle, _, rfl, ?_⟩
      rw [hb 2 hnum, readU32_sound hcount, hr]
      simp [encode, List.append_assoc, hlen]
  case h_4 hnum =>
    cases h
    exact ⟨trivial, _, rfl, hb 3 hnum⟩
  case h_5 hnum =>
    cases h
    exact ⟨trivial, _, rfl, hb 4 hnum⟩
  case h_6 => cases h

theorem decode_of_spelledBy {m : ClientMsg} {c : List UInt8} (hm : m.Encodable)
    (h : m.SpelledBy c) (rest : List UInt8) : decode (c ++ rest) = some (m, rest) := by
  cases m with
  | subscribe streams =>
      rcases h with ⟨b, rfl, hb⟩
      have hflags : StreamFlags.fromBitsTruncate b = streams :=
        congrArg StreamFlags.mk (hb.trans hm)
      simp [decode, List.append_assoc, hflags]
  | setGpio pin high =>
      rcases h with ⟨b, rfl, hb⟩
      have hlevel : (b != 0) = high := by
        rcases hb with rfl | ⟨hhigh, hb⟩
        · exact toUInt8_ne_zero high
        · cases high with
          | false => cases hhigh
          | true => simpa using hb
      simp [decode, List.append_assoc, hlevel]
  | audioWrite frames =>
      rw [h]
      -- the other messages have one spelling, their encoding
      exact decode_encode_clientMsg hm rest
  | ping =>
      rw [h]
      exact decode_encode_clientMsg hm rest
  | getStats =>
      rw [h]
      exact decode_encode_clientMsg hm rest

/-- `ClientMsg::decode` accepts the spellings of the encodable messages, and nothing else. -/
theorem exact_clientMsg :
    Exact (decode (α := ClientMsg)) fun m c => m.Encodable ∧ m.SpelledBy c where
  sound := by
    intro b m rest h
    rcases decode_clientMsg_sound h with ⟨hm, c, hc, hb⟩
    exact ⟨c, ⟨hm, hc⟩, hb⟩
  complete := by
    rintro m c rest ⟨hm, hc⟩
    exact decode_of_spelledBy hm hc rest

/-! ## The grammar -/

/-- An accepted buffer is a spelling of the decoded message in front of the rest; the message is in
the encodable range; what follows the rest does not matter; and a spelling cut short is refused. -/
theorem decode_accepts_grammar :
    (∀ (b : List UInt8) (m : ServerMsg) (rest : List UInt8), decode b = some (m, rest) →
      b = encode m ++ rest ∧ m.Encodable ∧
      (∀ t, decode (b ++ t) = some (m, rest ++ t)) ∧
      ∀ c, c <+: encode m → c ≠ encode m → decode (α := ServerMsg) c = none) ∧
    ∀ (b : List UInt8) (m : ClientMsg) (rest : List UInt8), decode b = some (m, rest) →
      ∃ c, b = c ++ rest ∧ c.length = (encode m).length ∧ m.SpelledBy c ∧ m.Encodable ∧
        (∀ t, decode (b ++ t) = some (m, rest ++ t)) ∧
        ∀ c', c' <+: c → c' ≠ c → decode (α := ClientMsg) c' = none := by
  constructor
  · intro b m rest h
    rcases decode_serverMsg_sound h with ⟨hm, hb⟩
    exact ⟨hb, hm, exact_serverMsg.extend h, fun c hpre hne =>
      exact_serverMsg.properPrefix ⟨hm, rfl⟩ hpre hne⟩
  · intro b m rest h
    rcases decode_clientMsg_sound h with ⟨hm, c, hc, hb⟩
    exact ⟨c, hb, hc.length, hc, hm, exact_clientMsg.extend h, fun c' hpre hne =>
      exact_clientMsg.properPrefix ⟨hm, hc⟩ hpre hne⟩

/-- A radio event in front of one more byte, and a `SetGpio` with level byte 2. -/
theorem decode_accepts_grammar_gpio :
    decode ([1, 4, 9] ++ [7] ++ [8]) =
        some (ServerMsg.radioEvent (.gpioChange ⟨9⟩), [7] ++ [8]) ∧
      ∃ c, [1, 3, 2] ++ [7] = c ++ [7] ∧ c.length = 3 ∧ (ClientMsg.setGpio 3 true).SpelledBy c := by
  constructor
  · exact (decode_accepts_grammar.1 ([1, 4, 9] ++ [7]) (.radioEvent (.gpioChange ⟨9⟩)) [7]
      rfl).2.2.1 [8]
  · rcases decode_accepts_grammar.2 ([1, 3, 2] ++ [7]) (.setGpio 3 true) [7] rfl with
      ⟨c, hc, hlen, hspell, -⟩
    exact ⟨c, hc, hlen, hspell⟩

end Cm108Driver
