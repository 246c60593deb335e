import Cm108Driver.Hal.RxRuns
import Cm108Driver.Server.Outbound
import Cm108Driver.Shmem.Linearizable
import Cm108Driver.Types.RoundTrip

/-!
# RxPipeline — from the IN packets to the notifications

The RX loop pushes frames into its ring; the dispatch thread pops them, writes each one to the
shared page and notifies the subscribers with the number that the write returned.  The server's
threads go on meanwhile, and the statistics that the dispatch thread broadcasts between two frames
count among their steps.

The three parts are the systems of `Hal`, `Shmem` and `Server`; a run of the pipeline is a run of
each of them.
-/

namespace Cm108Driver

open Lib

/-- The bytes of a frame in memory. -/
def AudioFrame.image (f : AudioFrame) : FrameImage := fun i => (encode f).getD i 0

/-- The bytes in memory are those of one frame only. -/
theorem AudioFrame.image_injective : Function.Injective AudioFrame.image := by
  intro f g himage
  have hbytes : encode f = encode g := by
    apply List.ext_getElem (by simp)
    intro i hf hg
    have hi : (encode f).getD i 0 = (encode g).getD i 0 :=
      congrFun himage ⟨i, by simpa using hf⟩
    rwa [List.getD_eq_getElem _ _ hf, List.getD_eq_getElem _ _ hg] at hi
  have hdecoded := decode_encode_frame f []
  rw [hbytes, decode_encode_frame g []] at hdecoded
  simpa using hdecoded.symm

/-! ## The system -/

/-- Where the dispatch thread stands: at `rx_consumer.pop`, with a frame in hand before and inside
`AudioShmem::write`, behind it with the number it returned, or in `notify_audio_ready`. -/
inductive DispatchPc
  | polling
  | popped (f : AudioFrame)
  | writing (f : AudioFrame)
  | returned (seq : UInt64)
  | notifying

structure RxWorld where
  loop : LoopWorld isoInPacket
  dispatch : DispatchPc
  shmem : ShmemWorld
  server : ServerWorld

inductive RxAct
  /-- The RX loop reaps a URB, offers its frame to the ring and submits the URB again. -/
  | reaped (i : Fin nUrbs) (c : Completion isoInPacket)
  | pop
  /-- The dispatch thread enters `AudioShmem::write`. -/
  | write
  /-- The next store of `AudioShmem::write`. -/
  | store
  /-- It enters `notify_audio_ready`. -/
  | notify
  | endNotify
  /-- Any other step of the server's threads. -/
  | server (a : ServerAct)

/-- A step that starts a notification, which is the dispatch thread's business. -/
def ServerAct.startsAudioReady : ServerAct → Bool
  | .broadcast (.audioReady _) => true
  | _ => false

/-- A notification is under way. -/
def ServerWorld.inAudioReady (w : ServerWorld) : Bool :=
  w.broadcast.any fun b => b.call.message.isAudioReady

namespace RxWorld

def start : RxWorld :=
  { loop := rxLoop.start
    dispatch := .polling
    shmem := ShmemWorld.start
    server := ServerWorld.start }

/-- Behind a store: `AudioShmem::write` returns with the second counter store. -/
def stored (w : RxWorld) (f : AudioFrame) (shmem : ShmemWorld) : RxWorld :=
  { w with
    shmem := shmem
    dispatch :=
      match shmem.writer with
      | .notifying seq => .returned seq
      | _ => .writing f }

def step (fd : RawFd) (w : RxWorld) : RxAct → Option RxWorld
  | .reaped i c =>
      -- the kernel completes only what was submitted
      if (w.loop.slots i).inFlight then
        some { w with loop := rxLoop.next documentedReap w.loop (.reaped i c) }
      else
        none
  | .pop =>
      match w.dispatch with
      | .polling =>
          match w.loop.ring.ring.items with
          -- the thread sleeps and polls again
          | [] => some w
          | f :: _ =>
              some
                { w with
                  loop := w.loop.peer .pop
                  dispatch := .popped f }
      | _ => none
  | .write =>
      match w.dispatch with
      | .popped f =>
          (w.shmem.writerStep (.write f.image)).map fun shmem =>
            { w with
              shmem := shmem
              dispatch := .writing f }
      | _ => none
  | .store =>
      match w.dispatch with
      | .writing f => w.shmem.store.map (w.stored f)
      | _ => none
  | .notify =>
      match w.dispatch with
      | .returned seq =>
          (w.server.step fd (.broadcast (.audioReady seq))).map fun server =>
            { w with
              server := server
              dispatch := .notifying }
      | _ => none
  | .endNotify =>
      match w.dispatch with
      | .notifying =>
          -- the registry's loop over the clients has yet to end
          if w.server.inAudioReady then
            none
          else
            (w.shmem.writerStep .endNotify).map fun shmem =>
              { w with
                shmem := shmem
                dispatch := .polling }
      | _ => none
  | .server a =>
      if a.startsAudioReady then
        none
      else
        (w.server.step fd a).map fun server => { w with server := server }

end RxWorld

/-- The RX thread, the dispatch thread and the server, with the reap as documented. -/
def rxSystem (fd : RawFd) : System RxWorld RxAct where
  init := RxWorld.start
  step := RxWorld.step fd

abbrev PipeTrace := List (RxWorld × RxAct)

/-- What a step can do. -/
inductive RxMove (fd : RawFd) (w : RxWorld) : RxAct → RxWorld → Prop where
  | reaped {i : Fin nUrbs} {c : Completion isoInPacket}
      (hflight : (w.loop.slots i).inFlight = true) :
      RxMove fd w (.reaped i c)
        { w with loop := rxLoop.next documentedReap w.loop (.reaped i c) }
  | dry (hpc : w.dispatch = .polling) (hempty : w.loop.ring.ring.items = []) : RxMove fd w .pop w
  | pop {f : AudioFrame} {fs : List AudioFrame} (hpc : w.dispatch = .polling)
      (hitems : w.loop.ring.ring.items = f :: fs) :
      RxMove fd w .pop
        { w with
          loop := w.loop.peer .pop
          dispatch := .popped f }
  | write {f : AudioFrame} {shmem : ShmemWorld} (hpc : w.dispatch = .popped f)
      (hstep : w.shmem.writerStep (.write f.image) = some shmem) :
      RxMove fd w .write
        { w with
          shmem := shmem
          dispatch := .writing f }
  | store {f : AudioFrame} {shmem : ShmemWorld} (hpc : w.dispatch = .writing f)
      (hstep : w.shmem.store = some shmem) : RxMove fd w .store (w.stored f shmem)
  | notify {seq : UInt64} {server : ServerWorld} (hpc : w.dispatch = .returned seq)
      (hstep : w.server.step fd (.broadcast (.audioReady seq)) = some server) :
      RxMove fd w .notify
        { w with
          server := server
          dispatch := .notifying }
  | endNotify {shmem : ShmemWorld} (hpc : w.dispatch = .notifying)
      (hdone : w.server.inAudioReady = false)
      (hstep : w.shmem.writerStep .endNotify = some shmem) :
      RxMove fd w .endNotify
        { w with
          shmem := shmem
          dispatch := .polling }
  | server {a : ServerAct} {server : ServerWorld} (hother : a.startsAudioReady = false)
      (hstep : w.server.step fd a = some server) :
      RxMove fd w (.server a) { w with server := server }

theorem rxMove_of_step {fd : RawFd} {w t : RxWorld} {a : RxAct} (h : w.step fd a = some t) :
    RxMove fd w a t := by
  cases a with
  | reaped i c =>
      simp only [RxWorld.step] at h
      split at h
      · rename_i hflight
        cases h
        exact .reaped hflight
      · cases h
  | pop =>
      simp only [RxWorld.step] at h
      split at h
      · rename_i hpc
        split at h
        · rename_i hempty
          cases h
          exact .dry hpc hempty
        · rename_i hitems
          cases h
          exact .pop hpc hitems
      · cases h
  | write =>
      simp only [RxWorld.step] at h
      split at h
      · rename_i hpc
        rcases Option.map_eq_some_iff.1 h with ⟨shmem, hstep, rfl⟩
        exact .write hpc hstep
      · cases h
  | store =>
      simp only [RxWorld.step] at h
      split at h
      · rename_i hpc
        rcases Option.map_eq_some_iff.1 h with ⟨shmem, hstep, rfl⟩
        exact .store hpc hstep
      · cases h
  | notify =>
      simp only [RxWorld.step] at h
      split at h
      · rename_i hpc
        rcases Option.map_eq_some_iff.1 h with ⟨server, hstep, rfl⟩
        exact .notify hpc hstep
      · cases h
  | endNotify =>
      simp only [RxWorld.step] at h
      split at h
      · rename_i hpc
        split at h
        · cases h
        · rename_i hdone
          rcases Option.map_eq_some_iff.1 h with ⟨shmem, hstep, rfl⟩
          exact .endNotify hpc (by simpa using hdone) hstep
      · cases h
  | server a =>
      simp only [RxWorld.step] at h
      split at h
      · cases h
      · rename_i hother
        rcases Option.map_eq_some_iff.1 h with ⟨server, hstep, rfl⟩
        exact .server (by simpa using hother) hstep

/-! ## The three parts of a run -/

/-- The part of the ring. -/
def loopSimulation (fd : RawFd) : Simulation (rxSystem fd) (rxLoop.system documentedReap) where
  proj := RxWorld.loop
  label _ a :=
    match a with
    | .reaped i c => some (.reaped i c)
    | .pop => some (.peer .pop)
    | _ => none
  init := rfl
  hidden := by
    intro w a t hstep hlabel
    cases rxMove_of_step hstep with
    | reaped hflight => cases hlabel
    | dry hpc hempty => rfl
    | pop hpc hitems => cases hlabel
    | _ => rfl
  shown := by
    intro w a t b hstep hlabel
    cases rxMove_of_step hstep with
    | reaped hflight =>
        cases hlabel
        simp [ReapLoop.system, hflight]
    | dry hpc hempty =>
        cases hlabel
        have hsame : w.loop.peer .pop = w.loop := by
          simp [LoopWorld.peer, Fifo.pop_of_nil hempty]
        simp [ReapLoop.system, ReapLoop.next, hsame]
    | pop hpc hitems =>
        cases hlabel
        simp [ReapLoop.system, ReapLoop.next]
    | _ => cases hlabel

/-- The part of the shared page. -/
def shmemSimulation (fd : RawFd) : Simulation (rxSystem fd) shmemSystem where
  proj := RxWorld.shmem
  label w a :=
    match a, w.dispatch with
    | .write, .popped f => some (.writer (.write f.image))
    | .store, _ => some (.writer .store)
    | .endNotify, _ => some (.writer .endNotify)
    | _, _ => none
  init := rfl
  hidden := by
    intro w a t hstep hlabel
    cases rxMove_of_step hstep with
    | write hpc hwrite => simp [hpc] at hlabel
    | store hpc hstore => simp at hlabel
    | endNotify hpc hdone hend => simp at hlabel
    | _ => rfl
  shown := by
    intro w a t b hstep hlabel
    cases rxMove_of_step hstep with
    | write hpc hwrite =>
        simp only [hpc, Option.some.injEq] at hlabel
        subst hlabel
        exact hwrite
    | store hpc hstore =>
        simp only [Option.some.injEq] at hlabel
        subst hlabel
        exact hstore
    | endNotify hpc hdone hend =>
        simp only [Option.some.injEq] at hlabel
        subst hlabel
        exact hend
    | _ => simp at hlabel

/-- The part of the server. -/
def serverSimulation (fd : RawFd) : Simulation (rxSystem fd) (serverSystem fd) where
  proj := RxWorld.server
  label w a :=
    match a, w.dispatch with
    | .notify, .returned seq => some (.broadcast (.audioReady seq))
    | .server b, _ => some b
    | _, _ => none
  init := rfl
  hidden := by
    intro w a t hstep hlabel
    cases rxMove_of_step hstep with
    | notify hpc hnotify => simp [hpc] at hlabel
    | server hother hserver => simp at hlabel
    | _ => rfl
  shown := by
    intro w a t b hstep hlabel
    cases rxMove_of_step hstep with
    | notify hpc hnotify =>
        simp only [hpc, Option.some.injEq] at hlabel
        subst hlabel
        exact hnotify
    | server hother hserver =>
        simp only [Option.some.injEq] at hlabel
        subst hlabel
        exact hserver
    | _ => simp at hlabel

namespace Pipe

/-! ## Histories -/

/-- What the RX loop and its ring have seen. -/
abbrev loopTrace (fd : RawFd) (tr : PipeTrace) : RxTrace := (loopSimulation fd).trace tr

/-- What the server has seen. -/
abbrev serverTrace (fd : RawFd) (tr : PipeTrace) : ServerTrace := (serverSimulation fd).trace tr

def announced? : ServerAct → Option UInt64
  | .broadcast (.audioReady seq) => some seq
  | _ => none

/-- The numbers that subscribers were notified of. -/
def announced (tr : ServerTrace) : List UInt64 := tr.filterMap fun p => announced? p.2

/-- The frame that the dispatch thread has taken and not yet written. -/
def inHand (w : RxWorld) : List AudioFrame :=
  match w.dispatch with
  | .popped f => [f]
  | .writing f => [f]
  | _ => []

/-- The number that the dispatch thread has yet to announce. -/
def unannounced (w : RxWorld) : List UInt64 :=
  match w.dispatch with
  | .returned seq => [seq]
  | _ => []

/-- The writer of the page is where the dispatch thread is. -/
def WriterAt (w : RxWorld) : Prop :=
  match w.dispatch with
  | .polling => w.shmem.writer = .idle
  | .popped _ => w.shmem.writer = .idle
  | .writing f => (∃ cur, w.shmem.writer = .loaded f.image cur) ∨
      ∃ cur i, w.shmem.writer = .copying f.image cur i
  | .returned seq => w.shmem.writer = .notifying seq
  | .notifying => ∃ seq, w.shmem.writer = .notifying seq

/-- Every frame popped is written or in hand, and every number returned is announced or about to
be. -/
structure PipeInv (fd : RawFd) (tr : PipeTrace) (w : RxWorld) : Prop where
  writer : WriterAt w
  frames : (Rx.popped (loopTrace fd tr)).map AudioFrame.image =
    w.shmem.written.map WriteRecord.frame ++ (inHand w).map AudioFrame.image
  numbers : announced (serverTrace fd tr) ++ unannounced w = w.shmem.written.map WriteRecord.seq

/-! ## One step -/

section Step

variable {fd : RawFd} {tr : PipeTrace} {w t : RxWorld} {a : RxAct}

theorem loopTrace_hidden (h : (loopSimulation fd).label w a = none) :
    loopTrace fd (tr ++ [(w, a)]) = loopTrace fd tr :=
  (loopSimulation fd).trace_snoc_hidden tr h

theorem loopTrace_shown {b : LoopAct isoInPacket} (h : (loopSimulation fd).label w a = some b) :
    loopTrace fd (tr ++ [(w, a)]) = loopTrace fd tr ++ [(w.loop, b)] :=
  (loopSimulation fd).trace_snoc_shown tr h

theorem serverTrace_hidden (h : (serverSimulation fd).label w a = none) :
    serverTrace fd (tr ++ [(w, a)]) = serverTrace fd tr :=
  (serverSimulation fd).trace_snoc_hidden tr h

theorem serverTrace_shown {b : ServerAct} (h : (serverSimulation fd).label w a = some b) :
    serverTrace fd (tr ++ [(w, a)]) = serverTrace fd tr ++ [(w.server, b)] :=
  (serverSimulation fd).trace_snoc_shown tr h

theorem announced_snoc (tr : ServerTrace) (w : ServerWorld) (b : ServerAct) :
    announced (tr ++ [(w, b)]) = announced tr ++ (announced? b).toList :=
  filterMap_snoc _ tr (w, b)

theorem announced_none {b : ServerAct} (h : b.startsAudioReady = false) : announced? b = none := by
  unfold ServerAct.startsAudioReady at h
  split at h
  · cases h
  · rename_i hother
    unfold announced?
    split
    · exact absurd rfl (hother _)
    · rfl

/-- The stores of one write: the counter, the bytes, the counter again. -/
theorem PipeInv.store (h : PipeInv fd tr w) {f : AudioFrame} {shmem : ShmemWorld}
    (hpc : w.dispatch = .writing f) (hstep : w.shmem.store = some shmem) :
    PipeInv fd (tr ++ [(w, .store)]) (w.stored f shmem) := by
  have hloop : loopTrace fd (tr ++ [(w, .store)]) = loopTrace fd tr := loopTrace_hidden rfl
  have hserver : serverTrace fd (tr ++ [(w, .store)]) = serverTrace fd tr :=
    serverTrace_hidden (by simp [serverSimulation])
  have hframes := h.frames
  have hnumbers := h.numbers
  have hwriter := h.writer
  simp only [inHand, hpc, unannounced, List.append_nil] at hframes hnumbers
  simp only [WriterAt, hpc] at hwriter
  rcases hwriter with ⟨cur, hwriter⟩ | ⟨cur, i, hwriter⟩
  · simp only [ShmemWorld.store, hwriter, Option.some.injEq] at hstep
    subst hstep
    exact
      { writer := Or.inr ⟨cur, 0, rfl⟩
        frames := by rw [hloop]; exact hframes
        numbers := by rw [hserver]; simpa [RxWorld.stored, unannounced] using hnumbers }
  · by_cases hi : i < frameBytes
    · simp only [ShmemWorld.store, hwriter, dif_pos hi, Option.some.injEq] at hstep
      subst hstep
      exact
        { writer := Or.inr ⟨cur, i + 1, rfl⟩
          frames := by rw [hloop]; exact hframes
          numbers := by rw [hserver]; simpa [RxWorld.stored, unannounced] using hnumbers }
    · -- the last store completes the write, and its frame leaves the hand
      simp only [ShmemWorld.store, hwriter, dif_neg hi, Option.some.injEq] at hstep
      subst hstep
      exact
        { writer := rfl
          frames := by rw [hloop, hframes]; simp [RxWorld.stored, inHand]
          numbers := by rw [hserver]; simp [RxWorld.stored, unannounced, hnumbers] }

theorem PipeInv.step (h : PipeInv fd tr w) (hmove : RxMove fd w a t) :
    PipeInv fd (tr ++ [(w, a)]) t := by
  have hframes := h.frames
  have hnumbers := h.numbers
  have hwriter := h.writer
  cases hmove with
  | reaped hflight =>
      -- the ring and the counter move, the page and the server do not
      exact
        { writer := hwriter
          frames := by
            rw [loopTrace_shown rfl, Rx.popped_snoc]
            simpa [Rx.popped?, inHand] using hframes
          numbers := by
            rw [serverTrace_hidden rfl]
            exact hnumbers }
  | dry hpc hempty =>
      -- the pop finds the ring empty and takes nothing
      exact
        { writer := hwriter
          frames := by
            rw [loopTrace_shown rfl, Rx.popped_snoc]
            simpa [Rx.popped?, hempty] using hframes
          numbers := by
            rw [serverTrace_hidden rfl]
            exact hnumbers }
  | pop hpc hitems =>
      -- the frame goes from the ring into the hand
      simp only [inHand, hpc, unannounced, WriterAt] at hframes hnumbers hwriter
      exact
        { writer := hwriter
          frames := by
            rw [loopTrace_shown rfl, Rx.popped_snoc]
            simpa [Rx.popped?, hitems, inHand] using hframes
          numbers := by
            rw [serverTrace_hidden rfl]
            simpa [unannounced] using hnumbers }
  | write hpc hstep =>
      -- the write begins: its frame stays in hand until its last store
      simp only [inHand, hpc, unannounced, WriterAt] at hframes hnumbers hwriter
      simp only [ShmemWorld.writerStep, hwriter, Option.some.injEq] at hstep
      subst hstep
      exact
        { writer := Or.inl ⟨_, rfl⟩
          frames := by
            rw [loopTrace_hidden rfl]
            exact hframes
          numbers := by
            rw [serverTrace_hidden rfl]
            exact hnumbers }
  | store hpc hstep => exact h.store hpc hstep
  | notify hpc hstep =>
      -- the number returned by the write is announced now
      simp only [inHand, hpc, unannounced, WriterAt] at hframes hnumbers hwriter
      rename_i seq server
      have hshown : (serverSimulation fd).label w .notify = some (.broadcast (.audioReady seq)) := by
        simp [serverSimulation, hpc]
      exact
        { writer := ⟨_, hwriter⟩
          frames := by
            rw [loopTrace_hidden rfl]
            exact hframes
          numbers := by
            rw [serverTrace_shown hshown, announced_snoc]
            simpa [announced?, unannounced] using hnumbers }
  | endNotify hpc hdone hstep =>
      -- the broadcast is over: the thread polls the ring again
      simp only [inHand, hpc, unannounced, WriterAt] at hframes hnumbers hwriter
      rcases hwriter with ⟨seq, hwriter⟩
      simp only [ShmemWorld.writerStep, hwriter, Option.some.injEq] at hstep
      subst hstep
      exact
        { writer := rfl
          frames := by
            rw [loopTrace_hidden rfl]
            exact hframes
          numbers := by
            rw [serverTrace_hidden rfl]
            exact hnumbers }
  | server hother hstep =>
      -- the other threads announce no frame
      exact
        { writer := hwriter
          frames := by
            rw [loopTrace_hidden rfl]
            exact hframes
          numbers := by
            rw [serverTrace_shown rfl, announced_snoc]
            simpa [announced_none hother, unannounced] using hnumbers }

end Step

/-! ## Whole runs -/

section Runs

variable {fd : RawFd} {tr : PipeTrace} {w : RxWorld}

theorem pipeInv_of_trace (h : Trace (rxSystem fd) tr w) : PipeInv fd tr w := by
  induction h with
  | start => exact ⟨rfl, rfl, rfl⟩
  | snoc htr hstep ih => exact ih.step (rxMove_of_step hstep)

/-- The dispatch thread only takes frames out of the ring. -/
theorem peerPops_loopTrace (fd : RawFd) (tr : PipeTrace) :
    Guarded Rx.PeerPops (loopTrace fd tr) := by
  intro p hp
  rcases List.mem_filterMap.1 hp with ⟨⟨w, a⟩, _, hlabel⟩
  cases a with
  | reaped i c =>
      cases hlabel
      trivial
  | pop =>
      cases hlabel
      trivial
  | _ => cases hlabel

/-- The ring, its counter and what has been popped. -/
theorem rxInv_loop (h : Trace (rxSystem fd) tr w) : Rx.RxInv (loopTrace fd tr) w.loop :=
  Rx.rxInv_of_trace ((loopSimulation fd).run h) (peerPops_loopTrace fd tr)

/-- What has been written, what is in hand and what is in the ring is what went into the ring. -/
theorem frames_enqueued (h : Trace (rxSystem fd) tr w) :
    ∃ fs, w.shmem.written.map WriteRecord.frame = fs.map AudioFrame.image ∧
      fs ++ inHand w ++ w.loop.ring.ring.items = Rx.enqueued (loopTrace fd tr) := by
  rcases List.map_eq_append_iff.1 (pipeInv_of_trace h).frames with
    ⟨fs, hand, hpopped, hwritten, hhand⟩
  have hsame : hand = inHand w := List.map_injective_iff.2 AudioFrame.image_injective hhand
  refine ⟨fs, hwritten.symm, ?_⟩
  rw [← hsame, ← hpopped]
  exact (rxInv_loop h).items

theorem length_enqueued (h : Trace (rxSystem fd) tr w) :
    (Rx.enqueued (loopTrace fd tr)).length =
      w.shmem.written.length + w.loop.ring.ring.items.length + (inHand w).length := by
  rcases frames_enqueued h with ⟨fs, hwritten, henqueued⟩
  have hlen := congrArg List.length hwritten
  rw [List.length_map, List.length_map] at hlen
  rw [← henqueued, List.length_append, List.length_append, hlen]
  omega

/-- The write under way is that of the frame in hand. -/
theorem begun_le_hand (h : WriterAt w) :
    w.shmem.begun ≤ w.shmem.written.length + (inHand w).length := by
  cases hpc : w.dispatch with
  | polling =>
      simp only [WriterAt, hpc] at h
      simp [ShmemWorld.begun, h]
  | popped f =>
      simp only [WriterAt, hpc] at h
      simp [ShmemWorld.begun, h]
  | writing f =>
      simp only [WriterAt, hpc] at h
      -- the write under way has begun and is not complete
      rcases h with ⟨cur, h⟩ | ⟨cur, i, h⟩
      · simp [ShmemWorld.begun, h, inHand, hpc]
      · simp [ShmemWorld.begun, h, inHand, hpc]
  | returned seq =>
      simp only [WriterAt, hpc] at h
      simp [ShmemWorld.begun, h]
  | notifying =>
      simp only [WriterAt, hpc] at h
      rcases h with ⟨seq, h⟩
      simp [ShmemWorld.begun, h]

/-- Fewer than `2 ^ 63` frames make fewer than `2 ^ 63` writes. -/
theorem numbered_of_trace (h : Trace (rxSystem fd) tr w)
    (hsmall : (Rx.converted (loopTrace fd tr)).length < 2 ^ 63) : Numbered w.shmem.written := by
  -- writes begun, frames put into the ring, frames converted: each at most the next
  have hbegun := begun_le_hand (pipeInv_of_trace h).writer
  have henqueued := length_enqueued h
  have hconverted := Rx.length_converted (loopTrace fd tr)
  exact (shmemInv_of_trace ((shmemSimulation fd).run h) (by
    show w.shmem.begun < 2 ^ 63
    omega)).numbered

/-! ## What a subscriber receives -/

def readySeq? : ServerMsg → Option UInt64
  | .audioReady seq => some seq
  | _ => none

/-- The numbers of the `AudioReady` messages. -/
def readySeqs (ms : List ServerMsg) : List UInt64 := ms.filterMap readySeq?

/-- An `AudioReady` is addressed to a client by its notification only. -/
theorem announced_of_addressed {c : ClientId} {w : ServerWorld} (hinv : ServerInv w)
    {a : ServerAct} {m : ServerMsg} (h : addressed? c w a = some m) :
    (readySeq? m).toList.Sublist (announced? a).toList := by
  rcases addressed_cases hinv h with ⟨call, rfl, rfl⟩ | hreply
  · cases call with
    | audioReady seq => exact List.Sublist.refl _
    | _ => exact List.nil_sublist _
  · cases m with
    | audioReady seq => cases hreply
    | _ => exact List.nil_sublist _

theorem readySeqs_addressedTo {tr : ServerTrace} {w : ServerWorld}
    (h : Trace (serverSystem fd) tr w) (c : ClientId) :
    (readySeqs (addressedTo c tr)).Sublist (announced tr) := by
  induction h with
  | start => exact List.Sublist.slnil
  | snoc htr hstep ih =>
      rw [addressedTo_snoc, announced_snoc, readySeqs, List.filterMap_append]
      refine ih.append ?_
      cases haddr : addressed? c _ _ with
      | none => exact List.nil_sublist _
      | some m =>
          have hlast := announced_of_addressed (serverInv_of_trace htr) haddr
          cases hready : readySeq? m with
          | none => simp [hready]
          | some seq => simpa [hready] using hlast

/-- The number of every message accepted for a client was announced, in this order. -/
theorem readySeqs_accepted {tr : ServerTrace} {w : ServerWorld}
    (h : Trace (serverSystem fd) tr w) (c : ClientId) :
    (readySeqs (accepted c tr)).Sublist (announced tr) :=
  ((accepted_sublist_addressed h c).filterMap readySeq?).trans (readySeqs_addressedTo h c)

/-- In particular that of every message taken out for it. -/
theorem readySeqs_dequeued {tr : ServerTrace} {w : ServerWorld}
    (h : Trace (serverSystem fd) tr w) (c : ClientId) :
    (readySeqs (dequeued c tr)).Sublist (announced tr) :=
  ((dequeued_within_accepted h c).sublist.filterMap readySeq?).trans (readySeqs_accepted h c)

/-! ## Conservation -/

/-- The RX pipeline at a point of a run. -/
structure Conserved (fd : RawFd) (tr : PipeTrace) (w : RxWorld) : Prop where
  /-- Every frame converted is written, in the ring, in hand or counted as an overrun. -/
  count : (Rx.converted (loopTrace fd tr)).length =
    w.shmem.written.length + w.loop.ring.ring.items.length + (inHand w).length +
      w.loop.ring.xruns.toNat
  /-- What is written, in hand and in the ring is what went into the ring, in this order. -/
  order : ∃ fs, w.shmem.written.map WriteRecord.frame = fs.map AudioFrame.image ∧
    fs ++ inHand w ++ w.loop.ring.ring.items = Rx.enqueued (loopTrace fd tr)
  /-- A frame goes into the ring unless the ring holds 64. -/
  full : ∀ p ∈ loopTrace fd tr, p.1.ring.hasRoom = false ↔ p.1.ring.ring.items.length = 64
  numbered : ∀ k rec, w.shmem.written[k]? = some rec → rec.seq.toNat = 2 * (k + 1)
  notified : announced (serverTrace fd tr) ++ unannounced w = w.shmem.written.map WriteRecord.seq
  received : ∀ c, (readySeqs (dequeued c (serverTrace fd tr))).Pairwise (· < ·) ∧
    ∀ seq ∈ readySeqs (dequeued c (serverTrace fd tr)), seq.toNat % 2 = 0

/-- At every point of a run with fewer than `2 ^ 63` frames, nothing is lost uncounted, the frames
written are those that the ring had room for, the `k`-th write returns `2 * k` and is notified with
this number, and every client gets growing even numbers. -/
theorem rx_conserved (h : Trace (rxSystem fd) tr w)
    (hsmall : (Rx.converted (loopTrace fd tr)).length < 2 ^ 63) : Conserved fd tr w := by
  have hnumbered := numbered_of_trace h hsmall
  have hnotified := (pipeInv_of_trace h).numbers
  -- the counter has not wrapped: there are not that many frames
  have hxruns : w.loop.ring.xruns.toNat = Rx.overruns (loopTrace fd tr) := by
    have hlt : Rx.overruns (loopTrace fd tr) < 2 ^ 64 := by
      have hconverted := Rx.length_converted (loopTrace fd tr)
      omega
    rw [(rxInv_loop h).xruns, UInt64.toNat_ofNat_of_lt' hlt]
  -- what a client gets is part of what was announced, hence of the writes
  have hsub : ∀ c, (readySeqs (dequeued c (serverTrace fd tr))).Sublist
      (w.shmem.written.map WriteRecord.seq) := fun c =>
    (readySeqs_dequeued ((serverSimulation fd).run h) c).trans
      (hnotified ▸ List.sublist_append_left _ _)
  exact
    { count := calc
        (Rx.converted (loopTrace fd tr)).length
            = (Rx.enqueued (loopTrace fd tr)).length + Rx.overruns (loopTrace fd tr) :=
            Rx.length_converted _
        _ = w.shmem.written.length + w.loop.ring.ring.items.length + (inHand w).length +
              w.loop.ring.xruns.toNat := by
            rw [length_enqueued h, hxruns]
      order := frames_enqueued h
      full := fun p _ => CountedRing.hasRoom_eq_false p.1.ring
      numbered := hnumbered
      notified := hnotified
      received := fun c => ⟨hnumbered.increasing.sublist (hsub c), fun seq hseq => by
        rcases List.mem_map.1 ((hsub c).subset hseq) with ⟨rec, hrec, rfl⟩
        exact hnumbered.even hrec⟩ }

end Runs

/-- Client 1 subscribes and gets the number of a frame; then the dispatch thread stands still, and
65 packets come in. -/
def overrunRun : List RxAct :=
  subscribing.map .server ++ [.reaped 0 (Rx.packetOf 96 (by decide)), .pop, .write] ++
    List.replicate (frameBytes + 2) .store ++
    [.notify, .server (.visit 1), .server .endBroadcast, .endNotify, .server (.writer 1 .dequeue)] ++
    List.replicate 65 (.reaped 1 (Rx.packetOf 96 (by decide)))

theorem rx_conserved_overrun :
    ∃ tr w, Trace (rxSystem 7) tr w ∧
      (w.shmem.written.map WriteRecord.seq, w.loop.ring.xruns) = ([2], 1) ∧
      readySeqs (dequeued 1 (serverTrace 7 tr)) = [2] ∧ Conserved 7 tr w := by
  have hends : ((rxSystem 7).exec (rxSystem 7).init overrunRun).map
      (fun w => (w.shmem.written.map WriteRecord.seq, w.loop.ring.xruns)) = some ([2], 1) := by
    decide +kernel
  rcases Option.map_eq_some_iff.1 hends with ⟨w, hexec, hw⟩
  have hrun := Trace.start.exec hexec
  have hnumbers : readySeqs (dequeued 1 (serverTrace 7
      ([] ++ (rxSystem 7).steps (rxSystem 7).init overrunRun))) = [2] := by
    decide +kernel
  exact ⟨_, w, hrun, hw, hnumbers, rx_conserved hrun (by decide +kernel)⟩

end Pipe

end Cm108Driver
