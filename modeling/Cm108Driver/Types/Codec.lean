import Cm108Driver.Lib.LittleEndian
import Cm108Driver.Types.Basic

/-!
# Codec — the hand-rolled binary codec for `ClientMsg` and `ServerMsg`

Wire format: a one-byte discriminant tag, then the fields in declaration order.  Integers are
little-endian; strings are a two-byte length followed by the UTF-8 bytes.

`encode` returns the bytes that the source pushes onto its buffer; `decode` returns the value and
the unconsumed rest, or `none`.
-/

namespace Cm108Driver

open Lib

/-! ## Helper readers and writers -/

def pushU8 (v : UInt8) : List UInt8 := [v]
def pushU16 (v : UInt16) : List UInt8 := toLe 2 v.toNat
def pushU32 (v : UInt32) : List UInt8 := toLe 4 v.toNat
def pushU64 (v : UInt64) : List UInt8 := toLe 8 v.toNat

/-- The UTF-8 bytes of a string (`as_bytes`). -/
def asBytes (s : String) : List UInt8 := s.toUTF8.data.toList

/-- `str::from_utf8`. -/
def fromUtf8 (bs : List UInt8) : Option String := String.fromUTF8? ⟨bs.toArray⟩

/-- The length is narrowed by `as u16`, so it wraps for strings of 65536 bytes and more. -/
def pushStr (s : String) : List UInt8 :=
  pushU16 (UInt16.ofNat (asBytes s).length) ++ asBytes s

def readU8 : List UInt8 → Option (UInt8 × List UInt8)
  | [] => none
  | b :: rest => some (b, rest)

def readU16 (buf : List UInt8) : Option (UInt16 × List UInt8) :=
  if buf.length < 2 then none else some (UInt16.ofNat (ofLe (buf.take 2)), buf.drop 2)

def readU32 (buf : List UInt8) : Option (UInt32 × List UInt8) :=
  if buf.length < 4 then none else some (UInt32.ofNat (ofLe (buf.take 4)), buf.drop 4)

def readU64 (buf : List UInt8) : Option (UInt64 × List UInt8) :=
  if buf.length < 8 then none else some (UInt64.ofNat (ofLe (buf.take 8)), buf.drop 8)

def readStr (buf : List UInt8) : Option (String × List UInt8) := do
  let (len, rest) ← readU16 buf
  if rest.length < len.toNat then
    none
  else do
    let s ← fromUtf8 (rest.take len.toNat)
    return (s, rest.drop len.toNat)

/-! ## The two traits -/

class Encode (α : Type) where
  /-- The bytes pushed onto the buffer. -/
  encode : α → List UInt8

class Decode (α : Type) where
  /-- The value and the remaining unconsumed bytes. -/
  decode : List UInt8 → Option (α × List UInt8)

export Encode (encode)
export Decode (decode)

/-- `Encode::to_vec`. -/
def toVec {α : Type} [Encode α] (msg : α) : List UInt8 :=
  encode msg

/-- `Decode::from_bytes`; the unconsumed rest is dropped. -/
def fromBytes (α : Type) [Decode α] (buf : List UInt8) : Option α := do
  let (val, _) ← decode (α := α) buf
  return val

/-! ## Fields -/

instance : Encode StreamFlags where
  encode s := pushU8 s.bits

instance : Decode StreamFlags where
  decode buf := do
    let (b, rest) ← readU8 buf
    return (StreamFlags.fromBitsTruncate b, rest)

instance : Encode GpioState where
  encode g := pushU8 g.bits

instance : Decode GpioState where
  decode buf := do
    let (b, rest) ← readU8 buf
    return (⟨b⟩, rest)

instance : Encode LatencyStats where
  encode l := pushU32 l.minUs ++ pushU32 l.maxUs ++ pushU32 l.p99Us

instance : Decode LatencyStats where
  decode buf := do
    let (minUs, buf) ← readU32 buf
    let (maxUs, buf) ← readU32 buf
    let (p99Us, buf) ← readU32 buf
    return ({ minUs := minUs, maxUs := maxUs, p99Us := p99Us }, buf)

instance : Encode RadioEvent where
  encode
    | .pttAssert => pushU8 0
    | .pttDeassert => pushU8 1
    | .cosActive => pushU8 2
    | .cosInactive => pushU8 3
    | .gpioChange g => pushU8 4 ++ encode g

instance : Decode RadioEvent where
  decode buf := do
    let (tag, rest) ← readU8 buf
    match tag.toNat with
    | 0 => return (.pttAssert, rest)
    | 1 => return (.pttDeassert, rest)
    | 2 => return (.cosActive, rest)
    | 3 => return (.cosInactive, rest)
    | 4 => do
        let (g, rest) ← decode (α := GpioState) rest
        return (.gpioChange g, rest)
    | _ => none

/-! ## Audio frames -/

/-- `(s & 0xff) as u8`. -/
def lowByte (s : Int16) : UInt8 := (s &&& 0xff).toUInt16.toUInt8

/-- `((s >> 8) & 0xff) as u8`, an arithmetic shift on `i16`. -/
def highByte (s : Int16) : UInt8 := ((s >>> 8) &&& 0xff).toUInt16.toUInt8

/-- `b0 as i16 | ((b1 as i16) << 8)`. -/
def sampleOfBytes (b0 b1 : UInt8) : Int16 :=
  b0.toUInt16.toInt16 ||| (b1.toUInt16.toInt16 <<< 8)

instance : Encode AudioFrame where
  encode f := f.samples.toList.flatMap fun s => [lowByte s, highByte s]

instance : Decode AudioFrame where
  decode buf :=
    if buf.length < frameBytes then
      none
    else
      some
        ({ samples := Vector.ofFn fun i =>
             sampleOfBytes (buf.getD (i.val * 2) 0) (buf.getD (i.val * 2 + 1) 0) },
          buf.drop frameBytes)

/-! ## Client messages -/

instance : Encode ClientMsg where
  encode
    | .subscribe streams => pushU8 0 ++ encode streams
    | .setGpio pin high => pushU8 1 ++ pushU8 pin ++ pushU8 high.toUInt8
    | .audioWrite frames =>
        pushU8 2 ++ pushU32 (UInt32.ofNat frames.length) ++ frames.flatMap encode
    | .ping => pushU8 3
    | .getStats => pushU8 4

/-- The decode loop of `AudioWrite`: `frame_count` frames in a row. -/
def decodeFrames : Nat → List UInt8 → Option (List AudioFrame × List UInt8)
  | 0, rest => some ([], rest)
  | n + 1, rest => do
      let (frame, r) ← decode (α := AudioFrame) rest
      let (frames, r) ← decodeFrames n r
      return (frame :: frames, r)

/-- The sanity cap of `ClientMsg::decode` on the frame count. -/
def maxFrames : Nat := 65536

instance : Decode ClientMsg where
  decode buf := do
    let (tag, rest) ← readU8 buf
    match tag.toNat with
    | 0 => do
        let (streams, rest) ← decode (α := StreamFlags) rest
        return (.subscribe streams, rest)
    | 1 => do
        let (pin, rest) ← readU8 rest
        let (high, rest) ← readU8 rest
        return (.setGpio pin (high != 0), rest)
    | 2 => do
        let (frameCount, rest) ← readU32 rest
        if frameCount.toNat > maxFrames then
          none
        else do
          let (frames, rest) ← decodeFrames frameCount.toNat rest
          return (.audioWrite frames, rest)
    | 3 => return (.ping, rest)
    | 4 => return (.getStats, rest)
    | _ => none

/-! ## Server messages -/

instance : Encode ServerMsg where
  encode
    | .audioReady seq => pushU8 0 ++ pushU64 seq
    | .radioEvent ev => pushU8 1 ++ encode ev
    | .stats rxXruns txXruns dispatchLat =>
        pushU8 2 ++ pushU64 rxXruns ++ pushU64 txXruns ++ encode dispatchLat
    | .pong => pushU8 3
    | .error s => pushU8 4 ++ pushStr s

instance : Decode ServerMsg where
  decode buf := do
    let (tag, rest) ← readU8 buf
    match tag.toNat with
    | 0 => do
        let (seq, rest) ← readU64 rest
        return (.audioReady seq, rest)
    | 1 => do
        let (ev, rest) ← decode (α := RadioEvent) rest
        return (.radioEvent ev, rest)
    | 2 => do
        let (rxXruns, rest) ← readU64 rest
        let (txXruns, rest) ← readU64 rest
        let (dispatchLat, rest) ← decode (α := LatencyStats) rest
        return (.stats rxXruns txXruns dispatchLat, rest)
    | 3 => return (.pong, rest)
    | 4 => do
        let (s, rest) ← readStr rest
        return (.error s, rest)
    | _ => none

end Cm108Driver
