import Cm108Driver.Ipc.Framing

/-!
# ClientToServer — what the client library sends and what the server makes of it

The sending calls of `Cm108Client` write one frame each; the session loop of `handle_client` calls
`read_msg` until it sees the end of the stream or an error.  The client bounds the frames of an
`AudioWrite` nowhere, `ClientMsg::decode` bounds them at 65536, and `read_msg` bounds the payload
at 65536 *bytes*, which is 341 frames.
-/

namespace Cm108Driver

open Lib

/-! ## The sending calls of the client -/

inductive ClientCall
  | subscribe (flags : StreamFlags)
  | setPtt (asserted : Bool)
  | setGpio (pin : UInt8) (high : Bool)
  | writeAudio (frames : List AudioFrame)
  | ping
  | getStats
  deriving DecidableEq, Repr

namespace ClientCall

/-- The message a call writes; `write_audio` of an empty slice writes nothing. -/
def msg? : ClientCall → Option ClientMsg
  | subscribe flags => some (.subscribe flags)
  | setPtt asserted => some (.setGpio 0 asserted)
  | setGpio pin high => some (.setGpio pin high)
  | writeAudio frames => if frames.isEmpty then none else some (.audioWrite frames)
  | ping => some .ping
  | getStats => some .getStats

/-- The bytes a call writes. -/
def written (c : ClientCall) : List UInt8 :=
  match c.msg? with
  | some m => writeClientMsg m
  | none => []

/-- Flags within `0b111`, and no more frames than `ClientMsg::decode` accepts. -/
def InRange : ClientCall → Prop
  | subscribe flags => flags.bits &&& 0b0111 = flags.bits
  | writeAudio frames => frames.length ≤ maxFrames
  | _ => True

/-- At most 341 frames: the payload then stays within the cap of `read_msg`. -/
def FitsReadCap : ClientCall → Prop
  | writeAudio frames => frames.length ≤ 341
  | _ => True

theorem msg?_writeAudio {frames : List AudioFrame} (h : 0 < frames.length) :
    (writeAudio frames).msg? = some (.audioWrite frames) := by
  cases frames with
  | nil => simp at h
  | cons f fs => rfl

theorem eq_of_msg?_writeAudio {frames : List AudioFrame} {m : ClientMsg}
    (h : (writeAudio frames).msg? = some m) : m = .audioWrite frames := by
  by_cases hempty : frames.isEmpty
  · simp [msg?, hempty] at h
  · simp only [msg?, if_neg hempty, Option.some.injEq] at h
    exact h.symm

theorem written_writeAudio {frames : List AudioFrame} (h : 0 < frames.length) :
    (writeAudio frames).written = writeClientMsg (.audioWrite frames) := by
  simp [written, msg?_writeAudio h]

theorem InRange.encodable {c : ClientCall} (h : c.InRange) {m : ClientMsg} (hm : c.msg? = some m) :
    m.Encodable := by
  cases c with
  | writeAudio frames =>
      cases eq_of_msg?_writeAudio hm
      exact h
  | subscribe flags =>
      cases hm
      exact h
  | _ =>
      cases hm
      trivial

/-- The message of a call is within the cap of `read_msg` exactly when the call fits it. -/
theorem length_le_iff {c : ClientCall} {m : ClientMsg} (hm : c.msg? = some m) :
    (toVec m).length ≤ maxPayload ↔ c.FitsReadCap := by
  cases c with
  | writeAudio frames =>
      cases eq_of_msg?_writeAudio hm
      simp only [length_encode_audioWrite, FitsReadCap, frameBytes, maxPayload]
      omega
  | _ =>
      cases hm
      refine ⟨fun _ => trivial, fun _ => ?_⟩
      exact Nat.le_trans (length_encode_clientMsg_le fun _ hne => by cases hne) (by decide)

end ClientCall

/-! ## The server's session loop -/

inductive SessionEnd
  | eof
  | error (e : IoError)
  | blocked
  deriving DecidableEq, Repr

/-- The loop of `handle_client`: the messages that `read_msg` returns, and how the loop ends. -/
def readMsgs (closed : Bool) (es : List (Arrival UInt8)) : List ClientMsg × SessionEnd :=
  match _h : readMsg closed es with
  | (.ok (some m), es') =>
      let r := readMsgs closed es'
      (m :: r.1, r.2)
  | (.ok none, _) => ([], .eof)
  | (.err e, _) => ([], .error e)
  | (.pending, _) => ([], .blocked)
termination_by (arrived es).length
decreasing_by exact arrived_read_lt serverReader .blocking closed _h

/-- How the loop ends at the end of a stream of whole frames. -/
def streamEnd (closed : Bool) : SessionEnd :=
  if closed then .eof else .blocked

/-- One turn of the loop. -/
theorem readMsgs_of {closed : Bool} {es es' : List (Arrival UInt8)}
    {out : Outcome (Option ClientMsg)} (h : readMsg closed es = (out, es')) :
    readMsgs closed es =
      match out with
      | .ok (some m) => (m :: (readMsgs closed es').1, (readMsgs closed es').2)
      | .ok none => ([], .eof)
      | .err e => ([], .error e)
      | .pending => ([], .blocked) := by
  rw [readMsgs]
  split
  all_goals
    rename_i h'
    rw [h] at h'
    cases h'
    rfl

theorem readMsgs_end {closed : Bool} {es : List (Arrival UInt8)} (h : arrived es = []) :
    readMsgs closed es = ([], streamEnd closed) := by
  have hshort : (arrived es).length < 4 := by simp [h]
  have hread := read_blocking_short serverReader closed hshort
  rw [readMsgs_of hread]
  cases closed <;> rfl

/-- Messages within the cap come out as they were sent, and the loop goes on behind them. -/
theorem readMsgs_append {closed : Bool} {msgs : List ClientMsg} {r : List UInt8}
    (hmsgs : ∀ m ∈ msgs, m.Encodable ∧ (toVec m).length ≤ maxPayload)
    {es : List (Arrival UInt8)} (harr : arrived es = msgs.flatMap writeClientMsg ++ r) :
    ∃ es', arrived es' = r ∧
      readMsgs closed es = (msgs ++ (readMsgs closed es').1, (readMsgs closed es').2) := by
  induction msgs generalizing es with
  | nil => exact ⟨es, by simpa using harr, by simp⟩
  | cons m ms ih =>
      rcases hmsgs m (List.mem_cons_self ..) with ⟨henc, hcap⟩
      rw [List.flatMap_cons, List.append_assoc] at harr
      rcases readMsg_writeClientMsg closed henc hcap harr with ⟨es₁, hread, harr₁⟩
      rcases ih (fun m' hm' => hmsgs m' (List.mem_cons_of_mem _ hm')) harr₁ with
        ⟨es', harr', hloop⟩
      refine ⟨es', harr', ?_⟩
      rw [readMsgs_of hread, hloop]
      rfl

/-- A message over the cap ends the loop with an error as soon as its header is read. -/
theorem readMsgs_tooLarge (closed : Bool) {m : ClientMsg} {r : List UInt8}
    (hcap : maxPayload < (toVec m).length) (hwidth : (toVec m).length < 4294967296)
    {es : List (Arrival UInt8)} (harr : arrived es = writeClientMsg m ++ r) :
    readMsgs closed es = ([], .error (.invalidData "message too large")) := by
  have hlen : 4 ≤ (available .blocking es).length := by
    simp [available, harr, writeClientMsg]
    omega
  have hheader : ofLe ((available .blocking es).take 4) = (toVec m).length := by
    rw [available, harr, writeClientMsg, take_four_frame, ofLe_header hwidth]
  have hread := read_tooLarge serverReader .blocking closed hlen (by rw [hheader]; exact hcap)
  exact readMsgs_of (Prod.ext hread rfl)

/-! ## What the server accepts -/

theorem flatMap_written (calls : List ClientCall) :
    calls.flatMap ClientCall.written = (calls.filterMap ClientCall.msg?).flatMap writeClientMsg := by
  induction calls with
  | nil => rfl
  | cons c cs ih =>
      cases hm : c.msg? with
      | none => simp [ClientCall.written, hm, ih]
      | some m => simp [ClientCall.written, hm, ih]

theorem readMsgs_of_fits (closed : Bool) {calls : List ClientCall} (hrange : ∀ c ∈ calls, c.InRange)
    (hfits : ∀ c ∈ calls, c.FitsReadCap) {es : List (Arrival UInt8)}
    {r : List UInt8} (harr : arrived es = calls.flatMap ClientCall.written ++ r) :
    ∃ es', arrived es' = r ∧ readMsgs closed es =
      (calls.filterMap ClientCall.msg? ++ (readMsgs closed es').1, (readMsgs closed es').2) := by
  rw [flatMap_written] at harr
  apply readMsgs_append ?_ harr
  intro m hm
  rcases List.mem_filterMap.1 hm with ⟨c, hc, hmsg⟩
  exact ⟨(hrange c hc).encodable hmsg, (ClientCall.length_le_iff hmsg).2 (hfits c hc)⟩

/-- The first call of a list that fails a decidable test. -/
theorem exists_first_failure {α : Type} {P : α → Prop} {l : List α} (h : ¬ ∀ c ∈ l, P c) :
    ∃ pre c post, l = pre ++ c :: post ∧ (∀ b ∈ pre, P b) ∧ ¬ P c := by
  induction l with
  | nil => simp at h
  | cons a l ih =>
      by_cases ha : P a
      · have htail : ¬ ∀ c ∈ l, P c := by
          intro hall
          exact h (by simpa [ha] using hall)
        rcases ih htail with ⟨pre, c, post, rfl, hpre, hc⟩
        exact ⟨a :: pre, c, post, rfl, by simpa [ha] using hpre, hc⟩
      · exact ⟨[], a, l, rfl, by simp, ha⟩

/-- Whatever way the written bytes are cut into reads, the server gets exactly the messages sent,
and no error, if and only if every `write_audio` call carries at most 341 frames. -/
theorem server_accepts_iff {calls : List ClientCall} (hrange : ∀ c ∈ calls, c.InRange)
    {closed : Bool} {es : List (Arrival UInt8)}
    (harr : arrived es = calls.flatMap ClientCall.written) :
    readMsgs closed es = (calls.filterMap ClientCall.msg?, streamEnd closed) ↔
      ∀ c ∈ calls, c.FitsReadCap := by
  constructor
  · -- the first call that does not fit ends the loop with an error
    intro haccept
    by_contra hfails
    rcases exists_first_failure hfails with ⟨pre, c, post, rfl, hpre, hc⟩
    have hsplit : arrived es = pre.flatMap ClientCall.written ++
        (c.written ++ post.flatMap ClientCall.written) := by
      simpa using harr
    rcases readMsgs_of_fits closed (fun b hb => hrange b (by simp [hb])) hpre hsplit with
      ⟨es', harr', hloop⟩
    cases c with
    | writeAudio frames =>
        have hlong : ¬ frames.length ≤ 341 := hc
        have hrangec : (ClientCall.writeAudio frames).InRange := hrange _ (by simp)
        have hbound : frames.length ≤ 65536 := hrangec
        rw [ClientCall.written_writeAudio (by omega)] at harr'
        have htoo := readMsgs_tooLarge closed
          (by simp only [length_encode_audioWrite, maxPayload, frameBytes]; omega)
          (by simp only [length_encode_audioWrite, frameBytes]; omega) harr'
        rw [hloop, htoo] at haccept
        cases closed <;> cases (Prod.mk.inj haccept).2
    | _ => exact hc trivial
  · intro hfits
    rcases readMsgs_of_fits closed hrange hfits (r := []) (by simpa using harr) with
      ⟨es', harr', hloop⟩
    rw [hloop, readMsgs_end harr']
    simp

/-- A slice of 341 silent frames. -/
def wholeSlice : List AudioFrame := List.replicate 341 AudioFrame.default

/-- A slice of 342 silent frames, 342 ms of audio. -/
def longSlice : List AudioFrame := List.replicate 342 AudioFrame.default

theorem length_wholeSlice : wholeSlice.length = 341 := List.length_replicate

theorem length_longSlice : longSlice.length = 342 := List.length_replicate

/-- The bytes of a call, read in two portions. -/
def inPortions (call : ClientCall) : List (Arrival UInt8) :=
  [.data (call.written.take 5), .gap, .data (call.written.drop 5)]

theorem arrived_inPortions (call : ClientCall) :
    arrived (inPortions call) = [call].flatMap ClientCall.written := by
  simp [inPortions, arrived]

/-- The equivalence at the last length that fits and the first that does not. -/
theorem server_accepts_iff_boundary :
    readMsgs true (inPortions (.writeAudio wholeSlice)) = ([.audioWrite wholeSlice], .eof) ∧
      readMsgs true (inPortions (.writeAudio longSlice)) ≠ ([.audioWrite longSlice], .eof) := by
  have hwhole : ∀ c ∈ [ClientCall.writeAudio wholeSlice], c.InRange := by
    simp [ClientCall.InRange, length_wholeSlice, maxFrames]
  have hlong : ∀ c ∈ [ClientCall.writeAudio longSlice], c.InRange := by
    simp [ClientCall.InRange, length_longSlice, maxFrames]
  constructor
  · refine (server_accepts_iff hwhole (arrived_inPortions _)).mpr ?_
    simp [ClientCall.FitsReadCap, length_wholeSlice]
  · intro haccept
    have hfits := (server_accepts_iff hlong (arrived_inPortions _)).mp haccept
    simp [ClientCall.FitsReadCap, length_longSlice] at hfits

theorem readMsgs_longSlice {closed : Bool} {es : List (Arrival UInt8)}
    (harr : arrived es = (ClientCall.writeAudio longSlice).written) :
    readMsgs closed es = ([], .error (.invalidData "message too large")) := by
  have hlen : (toVec (ClientMsg.audioWrite longSlice)).length = 65669 := by
    rw [length_encode_audioWrite, length_longSlice, frameBytes]
  rw [ClientCall.written_writeAudio (by simp [length_longSlice])] at harr
  apply readMsgs_tooLarge closed (m := .audioWrite longSlice) (r := [])
  · rw [hlen]
    decide
  · rw [hlen]
    decide
  · simpa using harr

/-- `write_audio` of 342 frames is within every bound that the client and the decoder state, and
the server drops the session over it. -/
theorem server_accepts_fails :
    ∃ es, arrived es = [ClientCall.writeAudio longSlice].flatMap ClientCall.written ∧
      (ClientCall.writeAudio longSlice).InRange ∧
      readMsgs true es = ([], .error (.invalidData "message too large")) ∧
      readMsgs true es ≠ ([.audioWrite longSlice], streamEnd true) := by
  refine ⟨[.data (ClientCall.writeAudio longSlice).written], by simp [arrived], ?_, ?_, ?_⟩
  · simp [ClientCall.InRange, length_longSlice, maxFrames]
  · exact readMsgs_longSlice (by simp [arrived])
  · rw [readMsgs_longSlice (by simp [arrived])]
    simp

end Cm108Driver
