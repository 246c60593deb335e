import Cm108Driver.Ipc.ClientToServer
import Cm108Driver.Lib.LeadingRun
import Cm108Driver.Types.Grammar

/-!
# SliceFraming — `to_framed` and `from_framed` against the stream readers and writers

The codec frames a message in a byte slice on its own; the two ends of the socket write and read
the same frames on a stream.  `from_framed` has no cap on the length, the stream readers refuse a
payload of more than 65536 bytes: below the cap, cutting a buffer up and reading it as a stream
that then ends are the same thing.
-/

namespace Cm108Driver

open Lib

/-! ## The slice functions -/

def toFramed {α : Type} [Encode α] (msg : α) : List UInt8 :=
  let payload := toVec msg
  pushU32 (UInt32.ofNat payload.length) ++ payload

/-- What the decoder leaves of the payload is dropped. -/
def fromFramed (α : Type) [Decode α] (buf : List UInt8) : Option (α × List UInt8) := do
  let (len, rest) ← readU32 buf
  if rest.length < len.toNat then
    none
  else do
    let (val, _) ← decode (α := α) (rest.take len.toNat)
    return (val, rest.drop len.toNat)

section Slices

variable {α : Type} [Decode α]

/-- What `from_framed` takes: a header and the payload it announces, which the decoder accepts. -/
theorem fromFramed_iff {b rest : List UInt8} {m : α} :
    fromFramed α b = some (m, rest) ↔
      ∃ header payload, b = header ++ payload ++ rest ∧ header.length = 4 ∧
        payload.length = ofLe header ∧ fromBytes α payload = some m := by
  constructor
  · intro h
    simp only [fromFramed, Option.bind_eq_bind, Option.bind_eq_some_iff] at h
    rcases h with ⟨⟨len, r⟩, hlen, h⟩
    split at h
    · -- less than the header announces
      cases h
    · rename_i hfits
      simp only [Option.bind_eq_some_iff, Option.pure_def, Option.some.injEq, Prod.mk.injEq] at h
      rcases h with ⟨⟨m', left⟩, hdec, rfl, rfl⟩
      have hb : b = pushU32 len ++ r := readU32_sound hlen
      refine ⟨pushU32 len, r.take len.toNat, ?_, length_toLe 4 _, ?_, ?_⟩
      · rw [List.append_assoc, List.take_append_drop, hb]
      · rw [List.length_take_of_le (Nat.not_lt.1 hfits), pushU32, ofLe_toLe len.toNat_lt]
      · simp [fromBytes, hdec]
  · rintro ⟨header, payload, rfl, hfour, hlen, hdec⟩
    rw [fromBytes, Option.bind_eq_bind, Option.bind_eq_some_iff] at hdec
    rcases hdec with ⟨⟨m', left⟩, hdec, hm⟩
    cases hm
    -- four bytes fit in the `u32`
    have hlt : ofLe header < 2 ^ 32 := by
      have := ofLe_lt header
      rwa [hfour] at this
    have hread : readU32 (header ++ (payload ++ rest)) =
        some (UInt32.ofNat (ofLe header), payload ++ rest) := by
      have hle : ¬ (header ++ (payload ++ rest)).length < 4 := by
        simp [hfour]
      rw [readU32, if_neg hle, List.take_left' hfour, List.drop_left' hfour]
    have hnat : (UInt32.ofNat (ofLe header)).toNat = payload.length := by
      rw [UInt32.toNat_ofNat_of_lt' hlt, hlen]
    rw [List.append_assoc]
    simp [fromFramed, hread, hnat, hdec]

/-- At least a header is gone. -/
theorem length_fromFramed_lt {b rest : List UInt8} {m : α} (h : fromFramed α b = some (m, rest)) :
    rest.length < b.length := by
  rcases fromFramed_iff.mp h with ⟨header, payload, rfl, hfour, _, _⟩
  simp only [List.length_append, hfour]
  omega

/-- `from_framed` over and over, until it returns `None`. -/
def splitFramed (α : Type) [Decode α] (b : List UInt8) : List α :=
  match _h : fromFramed α b with
  | some (m, rest) => m :: splitFramed α rest
  | none => []
termination_by b.length
decreasing_by exact length_fromFramed_lt _h

theorem splitFramed_some {b rest : List UInt8} {m : α} (h : fromFramed α b = some (m, rest)) :
    splitFramed α b = m :: splitFramed α rest := by
  rw [splitFramed]
  split
  · rename_i h'
    rw [h] at h'
    cases h'
    rfl
  · rename_i h'
    rw [h] at h'
    cases h'

theorem splitFramed_none {b : List UInt8} (h : fromFramed α b = none) : splitFramed α b = [] := by
  rw [splitFramed]
  split
  · rename_i h'
    rw [h] at h'
    cases h'
  · rfl

/-- The length prefix in front of the buffer, if it is there, is within the cap of the readers. -/
def HeaderFits (b : List UInt8) : Prop := 4 ≤ b.length → ofLe (b.take 4) ≤ maxPayload

/-- The buffers that splitting `b` comes to. -/
inductive Reached (α : Type) [Decode α] (b : List UInt8) : List UInt8 → Prop where
  | start : Reached α b b
  | next {b' rest : List UInt8} {m : α} :
      Reached α b b' → fromFramed α b' = some (m, rest) → Reached α b rest

/-- Every length prefix reached while splitting is within the cap. -/
def PrefixesFit (α : Type) [Decode α] (b : List UInt8) : Prop :=
  ∀ b', Reached α b b' → HeaderFits b'

theorem Reached.cons {b b' rest : List UInt8} {m : α} (h : fromFramed α b = some (m, rest))
    (hreach : Reached α rest b') : Reached α b b' := by
  induction hreach with
  | start => exact .next .start h
  | next _ hnext ih => exact .next ih hnext

/-- What the slice functions and a pair of stream functions should have in common. -/
structure SliceAgrees (α : Type) [Encode α] [Decode α] (write : α → List UInt8)
    (read : List (Arrival UInt8) → Outcome (Option α) × List (Arrival UInt8))
    (readAll : List (Arrival UInt8) → List α) : Prop where
  read_iff : ∀ es, HeaderFits (arrived es) → ∀ m rest,
    fromFramed α (arrived es) = some (m, rest) ↔
      ∃ es', read es = (.ok (some m), es') ∧ arrived es' = rest
  readAll_eq : ∀ es, PrefixesFit α (arrived es) → splitFramed α (arrived es) = readAll es
  write_eq : ∀ m, (toVec m).length < 2 ^ 32 → toFramed m = write m

end Slices

/-! ## One frame -/

section Readers

variable {α : Type} [Decode α] {R : FrameReader α}

/-- Below the cap, a slice and a reader with the same decoder take the same frame. -/
theorem fromFramed_iff_accepts (hcap : R.cap = maxPayload) (hdec : R.decode = fromBytes α)
    {b rest : List UInt8} (hfits : HeaderFits b) {m : α} :
    fromFramed α b = some (m, rest) ↔ ∃ f, R.Accepts f m ∧ b = f ++ rest := by
  rw [fromFramed_iff]
  constructor
  · rintro ⟨header, payload, rfl, hfour, hlen, hm⟩
    refine ⟨header ++ payload, ⟨header, payload, rfl, hfour, hlen, ?_, by rw [hdec, hm]⟩, rfl⟩
    -- the cap is the only thing that the reader asks for and the slice does not
    have hle : 4 ≤ (header ++ payload ++ rest).length := by
      simp [hfour]
    have hheader := hfits hle
    rw [List.append_assoc, List.take_left' hfour] at hheader
    rw [hcap, hlen]
    exact hheader
  · rintro ⟨f, ⟨header, payload, rfl, hfour, hlen, _, hm⟩, rfl⟩
    exact ⟨header, payload, rfl, hfour, hlen, by rw [← hdec, hm]⟩

/-- `from_framed` returns a message and a rest exactly when one read of the closed stream returns
the message and leaves the rest. -/
theorem fromFramed_iff_read (hcap : R.cap = maxPayload) (hdec : R.decode = fromBytes α)
    {es : List (Arrival UInt8)} (hfits : HeaderFits (arrived es)) {m : α} {rest : List UInt8} :
    fromFramed α (arrived es) = some (m, rest) ↔
      ∃ es', R.read .blocking .eof es = (.ok (some m), es') ∧ arrived es' = rest := by
  rw [fromFramed_iff_accepts hcap hdec hfits]
  constructor
  · rintro ⟨f, hacc, harr⟩
    exact read_accepts hacc .eof harr
  · rintro ⟨es', hread, rfl⟩
    exact accepts_of_read hread

/-- Cutting a buffer up and reading it to its end give the same messages. -/
theorem splitFramed_eq_readAll (hcap : R.cap = maxPayload) (hdec : R.decode = fromBytes α)
    (es : List (Arrival UInt8)) (hfits : PrefixesFit α (arrived es)) :
    splitFramed α (arrived es) = R.readAll .eof es := by
  -- on the length of what is left
  induction hn : (arrived es).length using Nat.strongRecOn generalizing es with
  | ind n ih =>
      subst hn
      have hheader := hfits _ .start
      cases hslice : fromFramed α (arrived es) with
      | none =>
          -- no frame for the slice is none for the reader
          have hstop : ∀ m es', R.read .blocking .eof es ≠ (.ok (some m), es') := by
            intro m es' hread
            have hsome := (fromFramed_iff_read hcap hdec hheader).mpr ⟨es', hread, rfl⟩
            rw [hslice] at hsome
            cases hsome
          rw [splitFramed_none hslice, readAll_stop hstop]
      | some res =>
          rcases res with ⟨m, rest⟩
          -- the same frame goes off both
          rcases (fromFramed_iff_read hcap hdec hheader).mp hslice with ⟨es', hread, rfl⟩
          have htail := ih _ (length_fromFramed_lt hslice) es'
            (fun b' hreach => hfits b' (hreach.cons hslice)) rfl
          rw [splitFramed_some hslice, readAll_some hread, htail]

end Readers

/-! ## Both message types -/

theorem toFramed_eq_frame {α : Type} [Encode α] {m : α} (h : (toVec m).length < 2 ^ 32) :
    toFramed m = frame (toVec m) := by
  simp only [toFramed, frame, pushU32, UInt32.toNat_ofNat_of_lt' h]

/-- The list of `readMsgs` is what reading on until no message comes returns. -/
theorem readMsgs_eq_readAll (closed : Bool) (es : List (Arrival UInt8)) :
    (readMsgs closed es).1 = serverReader.readAll closed es := by
  induction hn : (arrived es).length using Nat.strongRecOn generalizing es with
  | ind n ih =>
      subst hn
      cases hread : readMsg closed es with
      | mk out es' =>
          have hturn := readMsgs_of hread
          match out with
          | .ok (some m) =>
              have hlt := arrived_read_lt serverReader .blocking closed hread
              simp only [hturn, readAll_some hread, ih _ hlt es' rfl]
          | .ok none | .err e | .pending =>
              have hstop : ∀ m es', serverReader.read .blocking closed es ≠ (.ok (some m), es') := by
                intro m es' h
                rw [readMsg, h] at hread
                cases hread
              simp only [hturn, readAll_stop hstop]

/-- Reads in blocking mode until a call returns no message. -/
def readServerMsgs (ending : Ending) (es : List (Arrival UInt8)) : List ServerMsg :=
  clientReader.readAll ending es

/-- Slices and streams agree for both message types: on one frame of a closed stream, on all frames
of it, and in what is written. -/
theorem sliceFraming_agrees :
    SliceAgrees ClientMsg writeClientMsg (readMsg .eof) (fun es => (readMsgs true es).1) ∧
      SliceAgrees ServerMsg writeMsg (readServerMsg .blocking .eof) (readServerMsgs .eof) := by
  refine ⟨⟨?_, ?_, ?_⟩, ⟨?_, ?_, ?_⟩⟩
  · intro es hfits m rest
    exact fromFramed_iff_read (R := serverReader) rfl rfl hfits
  · intro es hfits
    rw [readMsgs_eq_readAll]
    exact splitFramed_eq_readAll rfl rfl es hfits
  · intro m hm
    exact toFramed_eq_frame hm
  · intro es hfits m rest
    exact fromFramed_iff_read (R := clientReader) rfl rfl hfits
  · intro es hfits
    exact splitFramed_eq_readAll (R := clientReader) rfl rfl es hfits
  · intro m hm
    exact toFramed_eq_frame hm

/-- A `Ping` with a byte too many inside its frame, and half a header behind it. -/
example : splitFramed ClientMsg [2, 0, 0, 0, 3, 9, 1, 0] = [.ping] := by
  have hfirst : fromFramed ClientMsg [2, 0, 0, 0, 3, 9, 1, 0] = some (.ping, [1, 0]) := rfl
  have hrest : fromFramed ClientMsg [1, 0] = none := rfl
  rw [splitFramed_some hfirst, splitFramed_none hrest]

end Cm108Driver
