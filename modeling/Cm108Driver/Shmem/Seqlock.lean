import Cm108Driver.Client.Calls
import Cm108Driver.Lib.Runs
import Cm108Driver.Lib.Versioned

/-!
# Seqlock — the shared audio page, its writer and its readers

The page holds a `u64` counter and the 192 bytes of one frame.  The dispatch thread runs
`AudioShmem::write` and then `notify_audio_ready`, over and over; any number of clients run
`RxShmem::read_frame`, directly or inside `read_audio_blocking`.

Every counter access and every byte copied is a step of its own, and the steps of all threads
interleave in any way.  Notifications reach a client in order; which of them reach it is left open.
-/

namespace Cm108Driver

open Lib

/-! ## The page -/

/-- The bytes of a frame in memory. -/
abbrev FrameImage := Fin frameBytes → UInt8

def zeroImage : FrameImage := fun _ => 0

structure Page where
  seq : UInt64
  data : FrameImage

/-- The reader's test for a write under way. -/
theorem toNat_mod_two_ne {v : UInt64} : v % 2 ≠ 0 ↔ v.toNat % 2 ≠ 0 := by
  rw [Ne, Ne, ← UInt64.toNat_inj, UInt64.toNat_mod]
  rfl

/-! ## The writer -/

/-- Where the dispatch thread stands: between two frames, in `AudioShmem::write` behind the load of
the counter, in its byte copy, or in `notify_audio_ready`. -/
inductive WriterPc
  | idle
  | loaded (frame : FrameImage) (cur : UInt64)
  | copying (frame : FrameImage) (cur : UInt64) (i : Nat)
  | notifying (new : UInt64)

/-- A completed write: the value `write` returned, and its frame. -/
structure WriteRecord where
  seq : UInt64
  frame : FrameImage

/-! ## The readers -/

/-- Where a client stands: between calls, in `read_audio_blocking` before it has accepted a
notification, in `read_frame` before the first load of the counter, or in its byte copy. -/
inductive ReaderPc
  | idle
  | awaiting
  | loading
  | copying (s1 : UInt64) (i : Nat) (frame : FrameImage)

/-- A `read_frame` that has returned: the notification accepted for it, if any, the number of
writes completed before it began, the counter value accepted, and the frame. -/
structure FrameReturn where
  notified : Option UInt64
  before : Nat
  seq : UInt64
  frame : FrameImage

/-- A client.  The last three fields only record what happens: the notification accepted for the
current call, the number of writes completed before it began, and the returns so far. -/
structure Reader where
  pc : ReaderPc
  client : Cm108Client
  inbox : List ServerMsg
  notified : Option UInt64
  before : Nat
  returns : List FrameReturn

def Reader.connected : Reader :=
  { pc := .idle
    client := Cm108Client.connected
    inbox := []
    notified := none
    before := 0
    returns := [] }

/-! ## Steps -/

/-- The page, all threads, and the record of the completed writes. -/
structure ShmemWorld where
  page : Page
  writer : WriterPc
  readers : Nat → Reader
  written : List WriteRecord

inductive WriterAct
  /-- Pop a frame and load the counter. -/
  | write (frame : FrameImage)
  /-- The next store of `AudioShmem::write`. -/
  | store
  | endNotify

inductive ReaderAct
  /-- The writer's `AudioReady` goes to the inbox. -/
  | notify
  /-- Any other message goes to the inbox. -/
  | message (m : ServerMsg)
  /-- Call `read_frame` directly. -/
  | readLatest
  /-- Call `read_audio_blocking`. -/
  | readAudio
  /-- `read_audio_blocking` reads the next message. -/
  | receive
  /-- Take the next message with `poll_msg` or `wait_msg`. -/
  | takeMsg
  /-- The next access of `read_frame` to the page. -/
  | access

inductive ShmemAct
  | writer (a : WriterAct)
  | client (r : Nat) (a : ReaderAct)

def ShmemWorld.start : ShmemWorld :=
  { page :=
      { seq := 0
        data := zeroImage }
    writer := .idle
    readers := fun _ => Reader.connected
    written := [] }

/-- Whether the message is an `AudioReady`. -/
def ServerMsg.isAudioReady : ServerMsg → Bool
  | .audioReady _ => true
  | _ => false

namespace ShmemWorld

/-- The next store of `AudioShmem::write`: the odd counter, a byte, or the even counter. -/
def store (w : ShmemWorld) : Option ShmemWorld :=
  match w.writer with
  -- odd: write in progress
  | .loaded frame cur =>
      some
        { w with
          page := { w.page with seq := cur + 1 }
          writer := .copying frame cur 0 }
  | .copying frame cur i =>
      if h : i < frameBytes then
        some
          { w with
            page := { w.page with data := Function.update w.page.data ⟨i, h⟩ (frame ⟨i, h⟩) }
            writer := .copying frame cur (i + 1) }
      else
        -- even: stable
        some
          { w with
            page := { w.page with seq := cur + 2 }
            writer := .notifying (cur + 2)
            written := w.written ++ [{ seq := cur + 2, frame := frame }] }
  | _ => none

/-- Replace the client `r`. -/
def setReader (w : ShmemWorld) (r : Nat) (reader : Reader) : ShmemWorld :=
  { w with readers := Function.update w.readers r reader }

end ShmemWorld

namespace Reader

/-- Enter `read_frame` when `before` writes are complete. -/
def enter (reader : Reader) (notified : Option UInt64) (before : Nat) : Reader :=
  { reader with
    pc := .loading
    notified := notified
    before := before }

/-- `read_audio_blocking` reads the next message and either accepts it or drops it. -/
def receive (reader : Reader) (before : Nat) : Option Reader :=
  match reader.pc, reader.inbox with
  | .awaiting, m :: inbox =>
      match wantAudio reader.client.lastSeq m with
      | some seq =>
          some ({ reader with
            client := { lastSeq := seq }
            inbox := inbox }.enter (some seq) before)
      | none => some { reader with inbox := inbox }
  | _, _ => none

/-- `poll_msg` or `wait_msg` takes the next message. -/
def takeMsg (reader : Reader) : Option Reader :=
  match reader.pc, reader.inbox with
  | .idle, _ :: inbox => some { reader with inbox := inbox }
  | _, _ => none

/-- The next access of `read_frame` to the page; an odd counter makes it spin. -/
def access (reader : Reader) (page : Page) : Option Reader :=
  match reader.pc with
  | .loading =>
      if page.seq % 2 ≠ 0 then
        -- `spin_loop(); continue`
        some reader
      else
        some { reader with pc := .copying page.seq 0 zeroImage }
  | .copying s1 i frame =>
      if h : i < frameBytes then
        some { reader with pc := .copying s1 (i + 1) (Function.update frame ⟨i, h⟩ (page.data ⟨i, h⟩)) }
      else if page.seq = s1 then
        -- the second load: `return frame`
        some
          { reader with
            pc := .idle
            returns := reader.returns ++
              [{ notified := reader.notified
                 before := reader.before
                 seq := s1
                 frame := frame }] }
      else
        -- the copy is thrown away
        some { reader with pc := .loading }
  | _ => none

end Reader

namespace Reader

/-- A step of one client, or a message to it. -/
def step (w : ShmemWorld) (reader : Reader) : ReaderAct → Option Reader
  | .notify =>
      match w.writer with
      | .notifying new => some { reader with inbox := reader.inbox ++ [.audioReady new] }
      | _ => none
  | .message m =>
      if m.isAudioReady then none else some { reader with inbox := reader.inbox ++ [m] }
  | .readLatest =>
      match reader.pc with
      | .idle => some (reader.enter none w.written.length)
      | _ => none
  | .readAudio =>
      match reader.pc with
      | .idle => some { reader with pc := .awaiting }
      | _ => none
  | .receive => reader.receive w.written.length
  | .takeMsg => reader.takeMsg
  | .access => reader.access w.page

end Reader

namespace ShmemWorld

/-- A step of the dispatch thread. -/
def writerStep (w : ShmemWorld) : WriterAct → Option ShmemWorld
  | .write frame =>
      match w.writer with
      | .idle => some { w with writer := .loaded frame w.page.seq }
      | _ => none
  | .store => w.store
  | .endNotify =>
      match w.writer with
      | .notifying _ => some { w with writer := .idle }
      | _ => none

def step (w : ShmemWorld) : ShmemAct → Option ShmemWorld
  | .writer a => w.writerStep a
  | .client r a => ((w.readers r).step w a).map (w.setReader r)

/-- The number of writes begun. -/
def begun (w : ShmemWorld) : Nat :=
  match w.writer with
  | .loaded _ _ => w.written.length + 1
  | .copying _ _ _ => w.written.length + 1
  | _ => w.written.length

end ShmemWorld

def shmemSystem : System ShmemWorld ShmemAct where
  init := ShmemWorld.start
  step := ShmemWorld.step

end Cm108Driver
