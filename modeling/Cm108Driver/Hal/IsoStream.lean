import Cm108Driver.Hal.Usbfs
import Cm108Driver.Lib.Fifo

/-!
# IsoStream — the RX and TX reap loops

Both loops reap a completed URB, serve its slot and submit it again.  They differ in what serving a
slot means: RX converts the packet and pushes it into its ring, TX refills the buffer from its ring
or with silence.  `ReapLoop` is the common loop; `rxLoop` and `txLoop` are its two instances.

A run interleaves the iterations of one loop with the thread at the other end of its ring, and the
kernel completes URBs in any order.
-/

namespace Cm108Driver

open Lib

/-! ## The frame ring -/

def ringCapacity : Nat := 64

/-- The `rtrb` ring. -/
abbrev Ring := Fifo AudioFrame ringCapacity

/-- A ring with the counter of its overruns or underruns. -/
structure CountedRing where
  ring : Ring
  xruns : UInt64

namespace CountedRing

def empty : CountedRing :=
  { ring := Fifo.empty
    xruns := 0 }

/-- Push, or count an overrun. -/
def push (r : CountedRing) (f : AudioFrame) : CountedRing :=
  match r.ring.push f with
  | some ring => { r with ring := ring }
  | none => { r with xruns := r.xruns + 1 }

/-- Pop, or count an underrun. -/
def pop (r : CountedRing) : Option AudioFrame × CountedRing :=
  match r.ring.pop with
  | some (f, ring) => (some f, { r with ring := ring })
  | none => (none, { r with xruns := r.xruns + 1 })

def hasRoom (r : CountedRing) : Bool := decide (r.ring.items.length < ringCapacity)

theorem hasRoom_eq_false (r : CountedRing) :
    r.hasRoom = false ↔ r.ring.items.length = 64 := by
  have hfits : r.ring.items.length ≤ 64 := r.ring.fits
  rw [hasRoom, decide_eq_false_iff_not]
  change ¬ r.ring.items.length < 64 ↔ _
  omega

theorem items_push (r : CountedRing) (f : AudioFrame) :
    (r.push f).ring.items = if r.hasRoom then r.ring.items ++ [f] else r.ring.items := by
  by_cases h : r.ring.items.length < ringCapacity
  · simp [push, Fifo.push, hasRoom, h]
  · simp [push, Fifo.push, hasRoom, h]

theorem xruns_push (r : CountedRing) (f : AudioFrame) :
    (r.push f).xruns = if r.hasRoom then r.xruns else r.xruns + 1 := by
  by_cases h : r.ring.items.length < ringCapacity
  · simp [push, Fifo.push, hasRoom, h]
  · simp [push, Fifo.push, hasRoom, h]

theorem pop_of_nil {r : CountedRing} (h : r.ring.items = []) :
    r.pop = (none, { r with xruns := r.xruns + 1 }) := by
  simp [pop, Fifo.pop_of_nil h]

theorem pop_of_cons {r : CountedRing} {f : AudioFrame} {fs : List AudioFrame}
    (h : r.ring.items = f :: fs) :
    (r.pop).1 = some f ∧ (r.pop).2.ring.items = fs ∧ (r.pop).2.xruns = r.xruns := by
  rcases Fifo.pop_of_items h with ⟨ring, hpop, hrest⟩
  simp [pop, hpop, hrest]

end CountedRing

/-! ## Audio format helpers -/

def isoInPacket : Nat := 100
def isoOutPacket : Nat := 96

/-- `bytes_to_frame`: mono samples, each written to both channels. -/
def bytesToFrame (buf : List UInt8) : AudioFrame :=
  let count := min (buf.length / 2) samplesPerFrame
  { samples :=
      (List.range count).foldl
        (fun v i =>
          let s := sampleOfBytes (buf.getD (i * 2) 0) (buf.getD (i * 2 + 1) 0)
          (v.setIfInBounds (i * 2) s).setIfInBounds (i * 2 + 1) s)
        AudioFrame.default.samples }

/-- `frame_to_mono`: the left channel, written over the buffer. -/
def frameToMono (frame : AudioFrame) (buf : Vector UInt8 isoOutPacket) :
    Vector UInt8 isoOutPacket :=
  (List.range samplesPerFrame).foldl
    (fun buf i =>
      let s := frame.samples.toList.getD (i * 2) 0
      (buf.setIfInBounds (i * 2) (lowByte s)).setIfInBounds (i * 2 + 1) (highByte s))
    buf

/-! ## The loop -/

/-- What distinguishes the two loops: how a URB is set up and how a completed slot is served. -/
structure ReapLoop (packet : Nat) where
  initUrb : Nat → SingleIsoUrb
  /-- `usercontext` carries the slot index. -/
  tagged : ∀ i, (initUrb i).hdr.usercontext = UInt64.ofNat i
  serve : Slot packet → CountedRing → Vector UInt8 packet × CountedRing

def rxLoop : ReapLoop isoInPacket where
  initUrb := initUrb epIsoIn isoInPacket
  tagged _ := rfl
  serve slot ring :=
    let n := slot.urb.pkt.actualLength.toNat
    -- the status of the transfer, not of its packet
    if slot.urb.hdr.status = 0 ∧ 0 < n then
      (slot.buf, ring.push (bytesToFrame (slot.buf.toList.take n)))
    else
      (slot.buf, ring)

def txLoop : ReapLoop isoOutPacket where
  initUrb := initUrb epIsoOut isoOutPacket
  tagged _ := rfl
  serve slot ring :=
    match ring.pop with
    | (some frame, ring) => (frameToMono frame slot.buf, ring)
    -- an underrun is sent as silence
    | (none, ring) => (Vector.replicate isoOutPacket 0, ring)

/-- The state of one loop: its slots, its ring and its counter. -/
structure LoopWorld (packet : Nat) where
  slots : Fin nUrbs → Slot packet
  ring : CountedRing

/-- The other end of the ring. -/
inductive PeerOp
  | push (f : AudioFrame)
  | pop

inductive LoopAct (packet : Nat)
  /-- The URB at slot `i` has completed as `c` says, and the loop reaps it. -/
  | reaped (i : Fin nUrbs) (c : Completion packet)
  /-- Nothing to reap, or the ioctl fails: the loop sleeps. -/
  | idle
  | peer (op : PeerOp)

namespace ReapLoop

variable {packet : Nat} (L : ReapLoop packet)

/-- The slot set up for the transfer to come and submitted. -/
def resubmit (i : Nat) (buf : Vector UInt8 packet) (succeeds : Bool) : Slot packet :=
  { urb := L.initUrb i
    buf := buf
    inFlight := false : Slot packet }.submit succeeds

/-- The state after the initial submits, all of which succeed. -/
def start : LoopWorld packet :=
  { slots := fun i => L.resubmit i (Vector.replicate packet 0) true
    ring := CountedRing.empty }

/-- Serve slot `i` and submit it again. -/
def serveSlot (w : LoopWorld packet) (i : Fin nUrbs) (succeeds : Bool) : LoopWorld packet :=
  let (buf, ring) := L.serve (w.slots i) w.ring
  { slots := Function.update w.slots i (L.resubmit i buf succeeds)
    ring := ring }

/-- The loop body behind a successful `reap_urb`; a word that is no slot index is ignored. -/
def onReaped (w : LoopWorld packet) (ctx : UInt64) (succeeds : Bool) : LoopWorld packet :=
  -- `if i < N_URBS`
  if h : ctx.toNat < nUrbs then
    L.serveSlot w ⟨ctx.toNat, h⟩ succeeds
  else
    w

end ReapLoop

/-- The kernel's half of a reap: slot `i` is handed back. -/
def LoopWorld.complete {packet : Nat} (w : LoopWorld packet) (i : Fin nUrbs)
    (c : Completion packet) : LoopWorld packet :=
  { w with slots := Function.update w.slots i ((w.slots i).complete c) }

/-- The thread at the other end: a client's push counts overruns in the same counter, the dispatch
thread's pop counts nothing. -/
def LoopWorld.peer {packet : Nat} (w : LoopWorld packet) : PeerOp → LoopWorld packet
  | .push f => { w with ring := w.ring.push f }
  | .pop =>
      match w.ring.ring.pop with
      | some (_, ring) => { w with ring := { w.ring with ring := ring } }
      | none => w

namespace ReapLoop

variable {packet : Nat} (L : ReapLoop packet) (word : ReapWord)

/-- One move of a run in which every submit succeeds. -/
def next (w : LoopWorld packet) : LoopAct packet → LoopWorld packet
  | .reaped i c => L.onReaped (w.complete i c) (word i (w.slots i).urb) true
  | .idle => w
  | .peer op => w.peer op

/-- Only a URB in flight completes. -/
def system : System (LoopWorld packet) (LoopAct packet) where
  init := L.start
  step w a :=
    match a with
    | .reaped i _ => if (w.slots i).inFlight then some (L.next word w a) else none
    | _ => some (L.next word w a)

end ReapLoop

end Cm108Driver
