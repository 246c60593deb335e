import Mathlib.Tactic.Common

/-!
# Types — the data shared by the daemon and its clients

The types of the `cm108-types` crate: audio frames, the GPIO byte, radio events, latency
summaries, subscription flags and the two message types of the IPC protocol.  Fixed-width integers
keep their width (`u8` is `UInt8`, `i16` is `Int16`, and so on).
-/

namespace Cm108Driver

/-- Bytes per USB frame: 48 samples × stereo × i16. -/
def frameBytes : Nat := 192

def samplesPerFrame : Nat := 48

/-! ## Audio frames -/

/-- One millisecond of stereo audio, interleaved `L0, R0, L1, R1, …`. -/
structure AudioFrame where
  samples : Vector Int16 (samplesPerFrame * 2)
  deriving DecidableEq, Repr

/-- `AudioFrame::default`: silence. -/
def AudioFrame.default : AudioFrame :=
  { samples := Vector.replicate (samplesPerFrame * 2) 0 }

/-! ## GPIO -/

/-- Bitmask of the pin states (bit 0 = GPIO1 / PTT, bit 1 = GPIO2 / COS). -/
structure GpioState where
  bits : UInt8
  deriving DecidableEq, Repr

namespace GpioState

/-- `GpioState::pin`; the `debug_assert` on `n` is compiled out in a release build, where the shift
amount is taken modulo 8. -/
def pin (g : GpioState) (n : UInt8) : Bool :=
  g.bits &&& ((1 : UInt8) <<< n) != 0

end GpioState

inductive RadioEvent
  | pttAssert
  | pttDeassert
  | cosActive
  | cosInactive
  | gpioChange (state : GpioState)
  deriving DecidableEq, Repr

/-! ## Dispatch latency summary -/

structure LatencyStats where
  minUs : UInt32
  maxUs : UInt32
  p99Us : UInt32
  deriving DecidableEq, Repr

def LatencyStats.default : LatencyStats :=
  { minUs := 0
    maxUs := 0
    p99Us := 0 }

/-! ## Stream subscription flags -/

/-- Bitmask of the streams a client subscribes to. -/
structure StreamFlags where
  bits : UInt8
  deriving DecidableEq, Repr

namespace StreamFlags

def audioIn : StreamFlags := ⟨0b0001⟩
def audioOut : StreamFlags := ⟨0b0010⟩
def gpioEvents : StreamFlags := ⟨0b0100⟩
def empty : StreamFlags := ⟨0⟩

def contains (s other : StreamFlags) : Bool :=
  s.bits &&& other.bits == other.bits

def fromBitsTruncate (v : UInt8) : StreamFlags :=
  ⟨v &&& 0b0111⟩

def bitor (s rhs : StreamFlags) : StreamFlags :=
  ⟨s.bits ||| rhs.bits⟩

end StreamFlags

/-! ## IPC protocol -/

inductive ClientMsg
  | subscribe (streams : StreamFlags)
  | setGpio (pin : UInt8) (high : Bool)
  | audioWrite (frames : List AudioFrame)
  | ping
  | getStats
  deriving DecidableEq, Repr

inductive ServerMsg
  | audioReady (seq : UInt64)
  | radioEvent (event : RadioEvent)
  | stats (rxXruns txXruns : UInt64) (dispatchLat : LatencyStats)
  | pong
  | error (text : String)
  deriving DecidableEq, Repr

end Cm108Driver
