import Cm108Driver.Lib.Runs
import Cm108Driver.Shmem.Seqlock
import Mathlib.Data.List.FinRange

/-!
# WeakOrder — the seqlock with the orderings its code asks for

The stores of the writer wait in program order until they become visible.  A `Release` store of the
counter becomes visible only after everything before it, and nothing behind it has to wait for it;
the bytes are plain stores, kept back only by an earlier store to the same byte.  The reader's byte
loads take effect after its first load of the counter, and possibly after its second one.

Two things are missing for a seqlock: the odd counter does not hold back the bytes behind it, and
the second load does not wait for the byte loads before it.  `InOrder` asks for both.
-/

namespace Cm108Driver

open Lib

/-! ## Stores -/

inductive StoreOp
  | counter (v : UInt64)
  | byte (j : Fin frameBytes) (v : UInt8)

namespace StoreOp

def isCounter : StoreOp → Bool
  | counter _ => true
  | byte _ _ => false

/-- Whether the store goes to byte `j`. -/
def isTo (j : Fin frameBytes) : StoreOp → Bool
  | counter _ => false
  | byte i _ => i == j

end StoreOp

/-- The byte copy of `AudioShmem::write`. -/
def byteStores (frame : FrameImage) : List StoreOp :=
  (List.finRange frameBytes).map fun j => .byte j (frame j)

/-- The stores of one `AudioShmem::write` that has loaded `cur`. -/
def storesOf (frame : FrameImage) (cur : UInt64) : List StoreOp :=
  .counter (cur + 1) :: (byteStores frame ++ [.counter (cur + 2)])

/-! ## The reader -/

/-- Between calls; before the first load; or behind it, with what the second load and the byte loads
have given so far. -/
inductive WeakPc
  | idle
  | loading
  | reading (s1 : UInt64) (s2 : Option UInt64) (bytes : Fin frameBytes → Option UInt8)

/-- A reader and the frames that its `read_frame` calls have returned. -/
structure WeakReader where
  pc : WeakPc
  returned : List FrameImage

/-- The frame assembled from the byte loads. -/
def assembled (bytes : Fin frameBytes → Option UInt8) : FrameImage :=
  fun j => (bytes j).getD 0

/-! ## Steps -/

/-- The visible page, the stores not yet visible, the counter as the writer itself sees it, and the
frames written so far. -/
structure WeakWorld where
  page : Page
  pending : List StoreOp
  latest : UInt64
  written : List FrameImage
  readers : Nat → WeakReader

inductive WeakAct
  /-- `AudioShmem::write` runs in program order. -/
  | write (frame : FrameImage)
  /-- The `k`-th of the waiting stores becomes visible. -/
  | visible (k : Nat)
  | call (r : Nat)
  | firstLoad (r : Nat)
  | loadByte (r : Nat) (j : Fin frameBytes)
  | secondLoad (r : Nat)
  /-- Compare the two loads, and return or start again. -/
  | finish (r : Nat)

def WeakWorld.start : WeakWorld :=
  { page :=
      { seq := 0
        data := zeroImage }
    pending := []
    latest := 0
    written := []
    readers := fun _ =>
      { pc := .idle
        returned := [] } }

namespace WeakWorld

/-- A store leaves the queue and takes effect, if the orderings allow it. -/
def makeVisible (w : WeakWorld) (k : Nat) : Option WeakWorld :=
  match w.pending[k]? with
  | some (.counter v) =>
      -- `Release`: behind every store before it
      if k = 0 then
        some
          { w with
            page := { w.page with seq := v }
            pending := w.pending.eraseIdx k }
      else
        none
  | some (.byte j v) =>
      -- two stores to one byte keep their order
      if (w.pending.take k).any (StoreOp.isTo j) then
        none
      else
        some
          { w with
            page := { w.page with data := Function.update w.page.data j v }
            pending := w.pending.eraseIdx k }
  | none => none

def setReader (w : WeakWorld) (r : Nat) (reader : WeakReader) : WeakWorld :=
  { w with readers := Function.update w.readers r reader }

end WeakWorld

namespace WeakReader

def firstLoad (reader : WeakReader) (page : Page) : Option WeakReader :=
  match reader.pc with
  | .loading =>
      if page.seq % 2 ≠ 0 then
        some reader
      else
        some { reader with pc := .reading page.seq none fun _ => none }
  | _ => none

def loadByte (reader : WeakReader) (page : Page) (j : Fin frameBytes) : Option WeakReader :=
  match reader.pc with
  | .reading s1 s2 bytes =>
      if (bytes j).isSome then
        none
      else
        some { reader with pc := .reading s1 s2 (Function.update bytes j (some (page.data j))) }
  | _ => none

def secondLoad (reader : WeakReader) (page : Page) : Option WeakReader :=
  match reader.pc with
  | .reading s1 none bytes => some { reader with pc := .reading s1 (some page.seq) bytes }
  | _ => none

def finish (reader : WeakReader) : Option WeakReader :=
  match reader.pc with
  | .reading s1 (some s2) bytes =>
      -- the plain loads may come behind the second load of the counter
      if ∀ j, (bytes j).isSome then
        if s2 = s1 then
          some
            { pc := .idle
              returned := reader.returned ++ [assembled bytes] }
        else
          some { reader with pc := .loading }
      else
        none
  | _ => none

end WeakReader

def WeakWorld.step (w : WeakWorld) : WeakAct → Option WeakWorld
  | .write frame =>
      some
        { w with
          pending := w.pending ++ storesOf frame w.latest
          latest := w.latest + 2
          written := w.written ++ [frame] }
  | .visible k => w.makeVisible k
  | .call r =>
      match (w.readers r).pc with
      | .idle => some (w.setReader r { w.readers r with pc := .loading })
      | _ => none
  | .firstLoad r => ((w.readers r).firstLoad w.page).map (w.setReader r)
  | .loadByte r j => ((w.readers r).loadByte w.page j).map (w.setReader r)
  | .secondLoad r => ((w.readers r).secondLoad w.page).map (w.setReader r)
  | .finish r => ((w.readers r).finish).map (w.setReader r)

def weakSystem : System WeakWorld WeakAct where
  init := WeakWorld.start
  step := WeakWorld.step

/-! ## The property and the condition -/

/-- Every frame returned is the frame of one write, or the zero frame of the fresh page. -/
def NotTorn (w : WeakWorld) : Prop :=
  ∀ r, ∀ frame ∈ (w.readers r).returned, frame = zeroImage ∨ frame ∈ w.written

/-- A byte becomes visible only when no counter store before it is waiting, and the second load of
the counter takes effect only when all bytes are loaded. -/
def InOrder (w : WeakWorld) : WeakAct → Prop
  | .visible k =>
      ∀ j v, w.pending[k]? = some (.byte j v) → ∀ st ∈ w.pending.take k, st.isCounter = false
  | .secondLoad r =>
      ∀ s1 s2 bytes, (w.readers r).pc = .reading s1 s2 bytes → ∀ j, (bytes j).isSome
  | _ => True

end Cm108Driver
