import Cm108Driver.Lib.LittleEndian
import Cm108Driver.Lib.Stream

/-!
# Framing — length-prefixed packets over a byte stream

A packet is a four-byte little-endian payload length followed by the payload.  `frame` writes one,
`read` is the reader loop body: header, length cap, payload, decoder.  The reader keeps no
state between calls, so whatever a failing call has taken off the stream is lost.

The central rule is `read_frame`: when a whole frame is available, one call takes exactly
that frame, however it was cut into reads.
-/

namespace Cm108Driver
namespace Lib

/-- One packet: the payload length narrowed to `u32`, then the payload. -/
def frame (payload : List UInt8) : List UInt8 :=
  toLe 4 payload.length ++ payload

/-- The parameters of a framed reader. -/
structure FrameReader (α : Type) where
  /-- Longest payload accepted. -/
  cap : Nat
  /-- Errors in the header that count as "no message". -/
  noneOn : IoError → Bool
  decode : List UInt8 → Option α

namespace FrameReader

variable {α : Type} (R : FrameReader α)

/-- The payload part of a call, once the header is in. -/
def readPayload (mode : Mode) (ending : Ending) (len : Nat) (es : List (Arrival UInt8)) :
    Outcome (Option α) × List (Arrival UInt8) :=
  if R.cap < len then
    (.err (.invalidData "message too large"), es)
  else
    match readExact mode ending len es with
    | (.ok buf, es) =>
        match R.decode buf with
        | some m => (.ok (some m), es)
        | none => (.err (.invalidData "decode error"), es)
    | (.err e, es) => (.err e, es)
    | (.pending, es) => (.pending, es)

/-- One call of the reader. -/
def read (mode : Mode) (ending : Ending) (es : List (Arrival UInt8)) :
    Outcome (Option α) × List (Arrival UInt8) :=
  match readExact mode ending 4 es with
  | (.ok header, es) => R.readPayload mode ending (ofLe header) es
  | (.err e, es) => (if R.noneOn e then .ok none else .err e, es)
  | (.pending, es) => (.pending, es)

/-- How a blocking call ends that takes the last byte of a stream, in the header or behind it. -/
def cutOff (ending : Ending) (inHeader : Bool) : Outcome (Option α) :=
  match ending.error? with
  | some e => if inHeader && R.noneOn e then .ok none else .err e
  | none => .pending

theorem cutOff_ne_some (ending : Ending) (inHeader : Bool) (a : α) :
    R.cutOff ending inHeader ≠ .ok (some a) := by
  unfold cutOff
  split
  · split
    · simp
    · simp
  · simp

end FrameReader

/-! ## Frames -/

@[simp] theorem length_frame (payload : List UInt8) :
    (frame payload).length = 4 + payload.length := by
  simp [frame]

theorem take_four_frame (payload r : List UInt8) :
    (frame payload ++ r).take 4 = toLe 4 payload.length := by
  simp [frame, List.append_assoc, List.take_left']

theorem drop_four_frame (payload r : List UInt8) :
    (frame payload ++ r).drop 4 = payload ++ r := by
  simp [frame, List.append_assoc, List.drop_left']

theorem ofLe_header {payload : List UInt8} (h : payload.length < 4294967296) :
    ofLe (toLe 4 payload.length) = payload.length :=
  ofLe_toLe (by simpa using h)

/-! ## One call -/

section Read

variable {α : Type} (R : FrameReader α) (mode : Mode) (ending : Ending)

/-- With the header available, a call goes on with the payload behind it. -/
theorem read_header {es : List (Arrival UInt8)} (h : 4 ≤ (available mode es).length) :
    ∃ es', R.read mode ending es =
        R.readPayload mode ending (ofLe ((available mode es).take 4)) es' ∧
      arrived es' = (arrived es).drop 4 ∧ available mode es' = (available mode es).drop 4 ∧
      (GapFree es → GapFree es') := by
  rcases readExact_enough mode ending 4 es h with ⟨es', hread, harr, havail, hfree⟩
  exact ⟨es', by simp [FrameReader.read, hread], harr, havail, hfree⟩

/-- A frame longer than the cap is refused as soon as its header is in. -/
theorem read_tooLarge {es : List (Arrival UInt8)} (h : 4 ≤ (available mode es).length)
    (hcap : R.cap < ofLe ((available mode es).take 4)) :
    (R.read mode ending es).1 = .err (.invalidData "message too large") := by
  rcases read_header R mode ending h with ⟨es', hread, _⟩
  simp [hread, FrameReader.readPayload, hcap]

/-- When a whole frame within the cap is available, one call takes exactly that frame and returns
its decoded payload. -/
theorem read_frame {es : List (Arrival UInt8)} {payload r : List UInt8} {m : α}
    (havail : available mode es = frame payload ++ r) (hcap : payload.length ≤ R.cap)
    (hwidth : payload.length < 4294967296) (hdec : R.decode payload = some m) :
    ∃ es', R.read mode ending es = (.ok (some m), es') ∧
      arrived es' = (arrived es).drop (4 + payload.length) ∧ available mode es' = r ∧
      (GapFree es → GapFree es') := by
  have hlen : 4 ≤ (available mode es).length := by
    simp [havail]
    omega
  rcases read_header R mode ending hlen with ⟨es₁, hread, harr₁, havail₁, hfree₁⟩
  rw [havail, drop_four_frame] at havail₁
  rw [havail, take_four_frame, ofLe_header hwidth] at hread
  have hpayload : payload.length ≤ (available mode es₁).length := by
    simp [havail₁]
  rcases readExact_enough mode ending payload.length es₁ hpayload with
    ⟨es₂, hread₂, harr₂, havail₂, hfree₂⟩
  refine ⟨es₂, ?_, ?_, ?_, fun hg => hfree₂ (hfree₁ hg)⟩
  · have hnot : ¬ R.cap < payload.length := Nat.not_lt.2 hcap
    rw [havail₁, List.take_left' rfl] at hread₂
    simp [hread, FrameReader.readPayload, hnot, hread₂, hdec]
  · rw [harr₂, harr₁, List.drop_drop]
  · rw [havail₂, havail₁, List.drop_left' rfl]

/-- A frame that arrives as one portion is taken off the front of the script. -/
theorem read_portion {es : List (Arrival UInt8)} {payload : List UInt8} {m : α}
    (hpos : payload ≠ []) (hcap : payload.length ≤ R.cap) (hwidth : payload.length < 4294967296)
    (hdec : R.decode payload = some m) :
    R.read mode ending (.data (frame payload) :: es) = (.ok (some m), es) := by
  have hheader : readExact mode ending 4 (.data (frame payload) :: es) =
      (.ok (toLe 4 payload.length), .data payload :: es) := by
    have hlt : 4 < (frame payload).length := by
      rw [length_frame]
      have := List.length_pos_iff.2 hpos
      omega
    have htake := take_four_frame payload []
    have hdrop := drop_four_frame payload []
    rw [List.append_nil] at htake hdrop
    rw [readExact, if_pos hlt, htake, hdrop, List.append_nil]
  have hnot : ¬ R.cap < payload.length := Nat.not_lt.2 hcap
  have hpayload := readExact_portion mode ending hpos es
  simp [FrameReader.read, hheader, ofLe_header hwidth, FrameReader.readPayload, hnot, hpayload, hdec]

/-- With less than a header left, a blocking call ends as the stream ends. -/
theorem read_blocking_short {es : List (Arrival UInt8)} (h : (arrived es).length < 4) :
    R.read .blocking ending es = (R.cutOff ending true, []) := by
  have hread := readExact_blocking_short ending 4 es h
  cases ending <;> simp [FrameReader.read, FrameReader.cutOff, hread, atEnd, Ending.error?]

/-- The error of a non-blocking read that has taken everything there is. -/
def dryError (ending : Ending) : IoError := ending.error?.getD .wouldBlock

theorem atEnd_nonblocking (ending : Ending) :
    (atEnd .nonblocking ending : Outcome (List UInt8)) = .err (dryError ending) := by
  cases ending <;> rfl

/-- Without a gap, a non-blocking call that finds less than a header takes what there is. -/
theorem read_gapFree_short {es : List (Arrival UInt8)} (hfree : GapFree es)
    (h : (arrived es).length < 4) :
    R.read .nonblocking ending es =
      (if R.noneOn (dryError ending) then .ok none else .err (dryError ending), []) := by
  have hread := readExact_gapFree_short .nonblocking ending 4 hfree h
  rw [atEnd_nonblocking] at hread
  simp [FrameReader.read, hread]

/-- Without a gap, a non-blocking call that finds a header and only part of the payload behind it
fails and takes what there is. -/
theorem read_gapFree_torn {es : List (Arrival UInt8)} (hfree : GapFree es)
    (hfour : 4 ≤ (arrived es).length) (hcap : ofLe ((arrived es).take 4) ≤ R.cap)
    (hshort : (arrived es).length < 4 + ofLe ((arrived es).take 4)) :
    R.read .nonblocking ending es = (.err (dryError ending), []) := by
  have havail : available .nonblocking es = arrived es := hfree.available_eq .nonblocking
  have hheader : 4 ≤ (available .nonblocking es).length := by rw [havail]; exact hfour
  rcases read_header R .nonblocking ending hheader with ⟨es', hread, harr, _, hkeep⟩
  have hrest : (arrived es').length < ofLe ((arrived es).take 4) := by
    rw [harr, List.length_drop]
    omega
  have hpayload := readExact_gapFree_short .nonblocking ending _ (hkeep hfree) hrest
  rw [atEnd_nonblocking] at hpayload
  rw [havail] at hread
  simp [hread, FrameReader.readPayload, Nat.not_lt.2 hcap, hpayload]

/-- With nothing available, a non-blocking call that counts `wouldBlock` as "no message" returns
none and leaves the data of the stream alone. -/
theorem read_nonblocking_dry {es : List (Arrival UInt8)} (h : ready es = [])
    (hnone : R.noneOn .wouldBlock = true) :
    ∃ es', R.read .nonblocking .alive es = (.ok none, es') ∧ arrived es' = arrived es := by
  rcases readExact_nonblocking_short 4 es (by simp [h]) with ⟨es', hread, harr⟩
  refine ⟨es', by simp [FrameReader.read, hread, hnone], ?_⟩
  simpa [h] using harr

/-- A non-blocking call that finds part of a frame, with a length within the cap, returns no message
and the part is gone from the stream. -/
theorem read_nonblocking_partial {es : List (Arrival UInt8)} (hpos : ready es ≠ [])
    (hshort : 4 ≤ (ready es).length → (ready es).length < 4 + ofLe ((ready es).take 4))
    (hcap : 4 ≤ (ready es).length → ofLe ((ready es).take 4) ≤ R.cap)
    (hnone : R.noneOn .wouldBlock = true) :
    ∃ es', (R.read .nonblocking .alive es = (.ok none, es') ∨
          R.read .nonblocking .alive es = (.err .wouldBlock, es')) ∧
        (arrived es').length < (arrived es).length := by
  have hready := List.length_pos_iff.2 hpos
  have hle := (ready_prefix_arrived es).length_le
  by_cases hfour : 4 ≤ (ready es).length
  · have hheader : 4 ≤ (available .nonblocking es).length := hfour
    rcases read_header R .nonblocking .alive hheader with ⟨es₁, hread, harr₁, havail₁, _⟩
    rw [available, FrameReader.readPayload, if_neg (Nat.not_lt.2 (hcap hfour))] at hread
    -- The header is taken and the payload is not all there.
    have hdrop : ready es₁ = (ready es).drop 4 := havail₁
    have hdry : (ready es₁).length < ofLe ((ready es).take 4) := by
      have hlt := hshort hfour
      rw [hdrop, List.length_drop]
      omega
    rcases readExact_nonblocking_short _ es₁ hdry with ⟨es₂, hread₂, harr₂⟩
    refine ⟨es₂, Or.inr (by rw [hread, hread₂]), ?_⟩
    rw [harr₂, harr₁, List.length_drop, List.length_drop]
    omega
  · rcases readExact_nonblocking_short 4 es (Nat.lt_of_not_le hfour) with ⟨es₁, hread, harr⟩
    refine ⟨es₁, Or.inl (by simp [FrameReader.read, hread, hnone]), ?_⟩
    rw [harr, List.length_drop]
    omega

/-- A non-blocking call that finds part of a frame fails, and unless the header is refused the part
is gone from the stream. -/
theorem read_nonblocking_torn {es : List (Arrival UInt8)} (hpos : ready es ≠ [])
    (hshort : 4 ≤ (ready es).length → (ready es).length < 4 + ofLe ((ready es).take 4))
    (hnone : R.noneOn .wouldBlock = true) :
    ∃ es', R.read .nonblocking .alive es = (.err (.invalidData "message too large"), es') ∨
      ((R.read .nonblocking .alive es = (.ok none, es') ∨
          R.read .nonblocking .alive es = (.err .wouldBlock, es')) ∧
        (arrived es').length < (arrived es).length) := by
  by_cases hcap : 4 ≤ (ready es).length → ofLe ((ready es).take 4) ≤ R.cap
  · rcases read_nonblocking_partial R hpos hshort hcap hnone with ⟨es', hread⟩
    exact ⟨es', Or.inr hread⟩
  · rcases Classical.not_imp.1 hcap with ⟨hfour, htoo⟩
    have hlarge := read_tooLarge R .nonblocking .alive hfour (Nat.lt_of_not_le htoo)
    exact ⟨(R.read .nonblocking .alive es).2, Or.inl (by rw [← hlarge])⟩

/-- A blocking call that finds part of a frame takes it all, and ends as the stream ends. -/
theorem read_blocking_torn {es : List (Arrival UInt8)} {payload r : List UInt8}
    (hpre : arrived es <+: frame payload ++ r) (hshort : (arrived es).length < (frame payload).length)
    (hcap : payload.length ≤ R.cap) (hwidth : payload.length < 4294967296) :
    R.read .blocking ending es = (R.cutOff ending ((arrived es).length < 4), []) := by
  by_cases hheader : (arrived es).length < 4
  · rw [read_blocking_short R ending hheader]
    simp [hheader]
  · have hfour : 4 ≤ (available .blocking es).length := by
      simp only [available]
      omega
    rcases read_header R .blocking ending hfour with ⟨es', hread, harr, _⟩
    have htake : (arrived es).take 4 = toLe 4 payload.length := by
      rw [List.prefix_iff_eq_take.1 hpre, List.take_take, Nat.min_eq_left (by omega),
        take_four_frame]
    rw [available, htake, ofLe_header hwidth] at hread
    have hrest : (arrived es').length < payload.length := by
      rw [harr, List.length_drop]
      rw [length_frame] at hshort
      omega
    have hnot : ¬ R.cap < payload.length := Nat.not_lt.2 hcap
    rw [hread, FrameReader.readPayload, if_neg hnot, readExact_blocking_short ending _ es' hrest]
    cases ending <;> simp [atEnd, FrameReader.cutOff, Ending.error?, hheader]

/-- As long as the peer is connected, a blocking call waits for the rest of its frame. -/
theorem read_blocking_waits {es : List (Arrival UInt8)} {payload r : List UInt8}
    (hpre : arrived es <+: frame payload ++ r) (hshort : (arrived es).length < (frame payload).length)
    (hcap : payload.length ≤ R.cap) (hwidth : payload.length < 4294967296) :
    (R.read .blocking .alive es).1 = .pending := by
  rw [read_blocking_torn R .alive hpre hshort hcap hwidth]
  rfl

/-- A payload read that returns a message leaves no more than it found. -/
theorem arrived_readPayload_le {len : Nat} {es es' : List (Arrival UInt8)} {m : Option α}
    (h : R.readPayload mode ending len es = (.ok m, es')) :
    (arrived es').length ≤ (arrived es).length := by
  unfold FrameReader.readPayload at h
  split at h
  · cases h
  · cases hr : readExact mode ending len es with
    | mk out rest =>
        rw [hr] at h
        cases out with
        | err e => cases h
        | pending => cases h
        | ok buf =>
            have hsplit := congrArg List.length (readExact_ok hr).2
            rw [List.length_append] at hsplit
            cases hd : R.decode buf with
            | none =>
                simp only [hd] at h
                cases h
            | some x =>
                simp only [hd] at h
                cases h
                omega

/-- A call that returns a message has taken at least its header off the stream. -/
theorem arrived_read_lt {es es' : List (Arrival UInt8)} {m : α}
    (h : R.read mode ending es = (.ok (some m), es')) :
    (arrived es').length < (arrived es).length := by
  unfold FrameReader.read at h
  cases hr : readExact mode ending 4 es with
  | mk out rest =>
      rw [hr] at h
      cases out with
      | pending => cases h
      | err e =>
          simp only at h
          split at h <;> cases h
      | ok header =>
          rcases readExact_ok hr with ⟨hfour, hsplit⟩
          have hle := arrived_readPayload_le R mode ending h
          have hlen := congrArg List.length hsplit
          rw [List.length_append] at hlen
          omega

end Read

end Lib
end Cm108Driver
