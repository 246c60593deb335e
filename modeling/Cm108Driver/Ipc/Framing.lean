import Cm108Driver.Lib.Framing
import Cm108Driver.Types.RoundTrip

/-!
# Ipc.Framing — the framed readers and writers at both ends of the socket

`write_client_msg` and `read_server_msg` are the client's half, `write_msg` and `read_msg` the
server's.  The two readers are one framed reader with different decoders, except that the client's
treats `WouldBlock` in the header like an end of file.
-/

namespace Cm108Driver

open Lib

/-- The cap on a payload's length in both readers. -/
def maxPayload : Nat := 65536

/-! ## Writers -/

/-- The bytes of `write_client_msg`. -/
def writeClientMsg (msg : ClientMsg) : List UInt8 := frame (toVec msg)

/-- The bytes of `write_msg` (length prefix and payload are two writes). -/
def writeMsg (msg : ServerMsg) : List UInt8 := frame (toVec msg)

/-! ## Readers -/

def clientReader : FrameReader ServerMsg where
  cap := maxPayload
  noneOn e := e == .unexpectedEof || e == .wouldBlock
  decode := fromBytes ServerMsg

def serverReader : FrameReader ClientMsg where
  cap := maxPayload
  noneOn e := e == .unexpectedEof
  decode := fromBytes ClientMsg

def readServerMsg (mode : Mode) (ending : Ending) (es : List (Arrival UInt8)) :
    Outcome (Option ServerMsg) × List (Arrival UInt8) :=
  clientReader.read mode ending es

/-- The server reads in blocking mode throughout. -/
def readMsg (ending : Ending) (es : List (Arrival UInt8)) :
    Outcome (Option ClientMsg) × List (Arrival UInt8) :=
  serverReader.read .blocking ending es

/-! ## Payload sizes -/

theorem length_encode_audioWrite (frames : List AudioFrame) :
    (toVec (ClientMsg.audioWrite frames)).length = 5 + frameBytes * frames.length := by
  have hframes := length_flatMap_encode frames
  simp only [toVec, encode, List.length_append, pushU8, pushU32, length_toLe, List.length_cons,
    List.length_nil] at hframes ⊢
  omega

/-- Every client message but `AudioWrite` is at most three bytes long. -/
theorem length_encode_clientMsg_le {m : ClientMsg} (h : ∀ frames, m ≠ .audioWrite frames) :
    (toVec m).length ≤ 3 := by
  cases m with
  | subscribe streams => simp [toVec, encode, pushU8]
  | setGpio pin high => simp [toVec, encode, pushU8]
  | audioWrite frames => exact absurd rfl (h frames)
  | ping => simp [toVec, encode, pushU8]
  | getStats => simp [toVec, encode, pushU8]

/-- A server message whose error text is at most 65533 bytes long. -/
def ServerMsg.Sendable : ServerMsg → Prop
  | .error s => (asBytes s).length ≤ 65533
  | _ => True

theorem ServerMsg.Sendable.encodable {m : ServerMsg} (h : m.Sendable) : m.Encodable := by
  cases m with
  | error s => exact Nat.lt_of_le_of_lt h (by decide)
  | _ => trivial

theorem ServerMsg.Sendable.length_le {m : ServerMsg} (h : m.Sendable) :
    (toVec m).length ≤ maxPayload := by
  cases m with
  | audioReady seq => simp [toVec, encode, pushU8, pushU64, maxPayload]
  | radioEvent ev => cases ev <;> simp [toVec, encode, pushU8, maxPayload]
  | stats rx tx lat => simp [toVec, encode, pushU8, pushU32, pushU64, maxPayload]
  | pong => simp [toVec, encode, pushU8, maxPayload]
  | error s =>
      have hlen : (asBytes s).length ≤ 65533 := h
      simp [toVec, encode, pushU8, pushStr, pushU16, maxPayload]
      omega

/-! ## Reading back one frame -/

/-- A frame of a sendable message that is available is returned by one call of the client's
reader. -/
theorem readServerMsg_writeMsg {mode : Mode} (ending : Ending) {es : List (Arrival UInt8)}
    {m : ServerMsg} {r : List UInt8} (hm : m.Sendable)
    (havail : available mode es = writeMsg m ++ r) :
    ∃ es', readServerMsg mode ending es = (.ok (some m), es') ∧
      arrived es' = (arrived es).drop (writeMsg m).length ∧ available mode es' = r ∧
      (GapFree es → GapFree es') := by
  have hcap := hm.length_le
  have hwidth : (toVec m).length < 4294967296 := Nat.lt_of_le_of_lt hcap (by decide)
  rcases read_frame clientReader mode ending havail hcap hwidth
    (fromBytes_encode_serverMsg hm.encodable) with ⟨es', hread, harr, hrest, hfree⟩
  refine ⟨es', hread, ?_, hrest, hfree⟩
  simpa [writeMsg] using harr

/-- The same when the frame arrives as one portion: the rest of the script is left as it is. -/
theorem readServerMsg_portion (mode : Mode) (ending : Ending) {es : List (Arrival UInt8)}
    {m : ServerMsg} (hm : m.Sendable) :
    readServerMsg mode ending (.data (writeMsg m) :: es) = (.ok (some m), es) := by
  have hcap := hm.length_le
  have hwidth : (toVec m).length < 4294967296 := Nat.lt_of_le_of_lt hcap (by decide)
  have hpos : toVec m ≠ [] := by
    cases m <;> simp [toVec, encode, pushU8]
  exact read_portion clientReader mode ending hpos hcap hwidth
    (fromBytes_encode_serverMsg hm.encodable)

/-- A frame of an encodable message within the cap is returned by one call of `read_msg`. -/
theorem readMsg_writeClientMsg (ending : Ending) {es : List (Arrival UInt8)} {m : ClientMsg}
    {r : List UInt8} (hm : m.Encodable) (hcap : (toVec m).length ≤ maxPayload)
    (harr : arrived es = writeClientMsg m ++ r) :
    ∃ es', readMsg ending es = (.ok (some m), es') ∧ arrived es' = r := by
  have hwidth : (toVec m).length < 4294967296 := Nat.lt_of_le_of_lt hcap (by decide)
  rcases read_frame serverReader .blocking ending harr hcap hwidth
    (fromBytes_encode_clientMsg hm) with ⟨es', hread, _, hrest, _⟩
  exact ⟨es', hread, hrest⟩

end Cm108Driver
