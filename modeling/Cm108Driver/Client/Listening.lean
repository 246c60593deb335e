import Cm108Driver.Server.RxPipeline

/-!
# Listening — from the IN packets to the frames that clients read

The pipeline of `RxPipeline` with any number of clients at the shared page, which wait for
notifications (`read_audio_blocking`) or poll the page (`read_audio_latest`, `current_rx_seq`).  As
in `Seqlock`, any of the notifications may reach a client, at any time behind their write.

Without the clients a run is one of the pipeline, and without the rest it is one of the page: what a
client reads as version `k` is the `k`-th frame that went into the ring.
-/

namespace Cm108Driver

open Lib

/-! ## The system -/

inductive ListenAct
  | rx (a : RxAct)
  | client (r : Nat) (a : ReaderAct)

namespace RxWorld

def listen (fd : RawFd) (w : RxWorld) : ListenAct → Option RxWorld
  | .rx a => w.step fd a
  | .client r a => (w.shmem.step (.client r a)).map fun shmem => { w with shmem := shmem }

/-- `current_rx_seq`, at any time. -/
def currentRxSeq (w : RxWorld) : UInt64 := w.shmem.page.seq

/-- Without the clients at the page. -/
def unheard (w : RxWorld) : RxWorld :=
  { w with shmem := { w.shmem with readers := fun _ => Reader.connected } }

end RxWorld

def listenSystem (fd : RawFd) : System RxWorld ListenAct where
  init := RxWorld.start
  step := RxWorld.listen fd

abbrev ListenTrace := List (RxWorld × ListenAct)

namespace Listen

section Simulations

variable {fd : RawFd} {w t : RxWorld}

/-- The writer does not see who reads. -/
theorem writerStep_unheard {s s' : ShmemWorld} {a : WriterAct} (hstep : s.writerStep a = some s')
    (readers : Nat → Reader) :
    { s with readers := readers }.writerStep a = some { s' with readers := readers } := by
  cases dispatchMove_of_step hstep with
  | write frame hpc => simp [ShmemWorld.writerStep, hpc]
  | oddCounter hpc => simp [ShmemWorld.writerStep, ShmemWorld.store, hpc]
  | byte hpc hi => simp [ShmemWorld.writerStep, ShmemWorld.store, hpc, hi]
  | evenCounter hpc hi => simp [ShmemWorld.writerStep, ShmemWorld.store, hpc, hi]
  | endNotify hpc => simp [ShmemWorld.writerStep, hpc]

theorem step_unheard {a : RxAct} (hstep : w.step fd a = some t) :
    w.unheard.step fd a = some t.unheard := by
  cases rxMove_of_step hstep with
  | reaped hflight => simp [RxWorld.step, RxWorld.unheard, hflight]
  | dry hpc hempty => simp [RxWorld.step, RxWorld.unheard, hpc, hempty]
  | pop hpc hitems => simp [RxWorld.step, RxWorld.unheard, hpc, hitems]
  | write hpc hwrite =>
      have hwrite' := writerStep_unheard hwrite fun _ => Reader.connected
      simp [RxWorld.step, RxWorld.unheard, hpc, hwrite']
  | store hpc hstore =>
      have hstore' := writerStep_unheard (a := .store) hstore fun _ => Reader.connected
      simp only [ShmemWorld.writerStep] at hstore'
      simp [RxWorld.step, RxWorld.unheard, hpc, hstore', RxWorld.stored]
  | notify hpc hserver => simp [RxWorld.step, RxWorld.unheard, hpc, hserver]
  | endNotify hpc hdone hend =>
      have hend' := writerStep_unheard hend fun _ => Reader.connected
      simp [RxWorld.step, RxWorld.unheard, hpc, hdone, hend']
  | server hother hserver => simp [RxWorld.step, RxWorld.unheard, hother, hserver]

/-- Without the clients. -/
def pipeSimulation (fd : RawFd) : Simulation (listenSystem fd) (rxSystem fd) where
  proj := RxWorld.unheard
  label := fun _ a =>
    match a with
    | .rx a => some a
    | .client _ _ => none
  init := rfl
  hidden := by
    intro w a t hstep hlabel
    cases a with
    | rx a => cases hlabel
    | client r a =>
        rcases Option.map_eq_some_iff.1 hstep with ⟨shmem, hshmem, rfl⟩
        rcases Option.map_eq_some_iff.1 hshmem with ⟨reader, _, rfl⟩
        rfl
  shown := by
    intro w a t b hstep hlabel
    cases a with
    | rx a =>
        cases hlabel
        exact step_unheard hstep
    | client r a => cases hlabel

/-- The page with the clients at it. -/
def pageSimulation (fd : RawFd) : Simulation (listenSystem fd) shmemSystem where
  proj := RxWorld.shmem
  label := fun w a =>
    match a with
    | .rx a => (shmemSimulation fd).label w a
    | .client r a => some (.client r a)
  init := rfl
  hidden := by
    intro w a t hstep hlabel
    cases a with
    | rx a => exact (shmemSimulation fd).hidden hstep hlabel
    | client r a => cases hlabel
  shown := by
    intro w a t b hstep hlabel
    cases a with
    | rx a => exact (shmemSimulation fd).shown hstep hlabel
    | client r a =>
        cases hlabel
        rcases Option.map_eq_some_iff.1 hstep with ⟨shmem, hshmem, rfl⟩
        exact hshmem

end Simulations

/-! ## What is heard -/

/-- The `k`-th of some frames, silence before the first. -/
def frameNo (frames : List AudioFrame) (k : Nat) : AudioFrame :=
  (AudioFrame.default :: frames).getD k AudioFrame.default

theorem image_default : AudioFrame.default.image = zeroImage := by
  have hzero : ∀ b ∈ encode AudioFrame.default, b = 0 := by
    intro b hb
    have hsample : [lowByte 0, highByte 0] = [0, 0] := rfl
    simp only [encode, AudioFrame.default, Vector.toList_replicate, List.mem_flatMap,
      List.mem_replicate] at hb
    rcases hb with ⟨s, ⟨_, rfl⟩, hb⟩
    simp only [hsample, List.mem_cons, List.not_mem_nil, or_false, or_self] at hb
    exact hb
  funext i
  rw [AudioFrame.image, zeroImage, List.getD_eq_getElem?_getD]
  cases hget : (encode AudioFrame.default)[(i : Nat)]? with
  | none => rfl
  | some b => exact hzero b (List.mem_of_getElem? hget)

/-- The versions of the page are the frames written. -/
theorem version_image (frames : List AudioFrame) (k : Nat) :
    version zeroImage (frames.map AudioFrame.image) k = (frameNo frames k).image := by
  rw [version, frameNo, ← image_default, ← List.map_cons, List.getD_map]

section Runs

variable {fd : RawFd} {tr : ListenTrace} {w : RxWorld}

/-- The run of the RX loop in a run. -/
abbrev rxLoopTrace (fd : RawFd) (tr : ListenTrace) : RxTrace :=
  Pipe.loopTrace fd ((pipeSimulation fd).trace tr)

/-- The frames that went into the ring: of the packets that brought data, those that found room. -/
def recorded (fd : RawFd) (tr : ListenTrace) : List AudioFrame := Rx.enqueued (rxLoopTrace fd tr)

/-- A frame recorded is that of a packet. -/
theorem packet_of_recorded {f : AudioFrame} (hf : f ∈ recorded fd tr) :
    ∃ w i c, (w, ListenAct.rx (.reaped i c)) ∈ tr ∧ c.status = 0 ∧ 0 < c.actualLength.toNat ∧
      f = bytesToFrame c.bytes := by
  rcases Rx.packet_of_converted ((Rx.enqueued_sublist _).subset hf) with ⟨l, i, c, hl, hgood⟩
  rcases List.mem_filterMap.1 hl with ⟨⟨w', a⟩, hp, hb⟩
  rcases List.mem_filterMap.1 hp with ⟨⟨w, act⟩, hmem, hact⟩
  cases act with
  | client r a => cases hact
  | rx a =>
      cases hact
      cases a with
      | reaped i' c' =>
          cases hb
          exact ⟨w, i, c, hmem, hgood⟩
      | _ => cases hb

theorem begun_lt (h : Trace (listenSystem fd) tr w)
    (hsmall : (Rx.converted (rxLoopTrace fd tr)).length < 2 ^ 63) : w.shmem.begun < 2 ^ 63 := by
  have hpipe := (pipeSimulation fd).run h
  have hbegun := Pipe.begun_le_hand (Pipe.pipeInv_of_trace hpipe).writer
  have henqueued := Pipe.length_enqueued hpipe
  have hconverted := Rx.length_converted (rxLoopTrace fd tr)
  change w.shmem.begun ≤ _ at hbegun
  rw [rxLoopTrace] at hsmall hconverted
  omega

/-- The page has had the first of the frames recorded. -/
theorem frameAt_recorded (h : Trace (listenSystem fd) tr w) {k : Nat}
    (hk : k ≤ w.shmem.written.length) :
    frameAt w.shmem.written k = (frameNo (recorded fd tr) k).image := by
  rcases Pipe.frames_enqueued ((pipeSimulation fd).run h) with ⟨fs, hwritten, henqueued⟩
  change w.shmem.written.map WriteRecord.frame = fs.map AudioFrame.image at hwritten
  have hlen : k ≤ (fs.map AudioFrame.image).length := by
    rw [← hwritten, List.length_map]
    exact hk
  rw [← version_image, recorded, ← henqueued, List.append_assoc, List.map_append,
    version_append hlen, ← hwritten, frameAt]

/-- A frame that a client has read is one recorded, no older than the writes complete before the call
and than the write notified. -/
theorem heard_of_return (h : Trace (listenSystem fd) tr w)
    (hsmall : (Rx.converted (rxLoopTrace fd tr)).length < 2 ^ 63) {r : Nat} {ret : FrameReturn}
    (hret : ret ∈ (w.shmem.readers r).returns) :
    ∃ k, ret.seq.toNat = 2 * k ∧ ret.frame = (frameNo (recorded fd tr) k).image ∧
      ret.before ≤ k ∧ k ≤ w.shmem.written.length ∧
      ∀ seq, ret.notified = some seq → seq.toNat ≤ 2 * k := by
  have hinv := shmemInv_of_trace ((pageSimulation fd).run h) (begun_lt h hsmall)
  have hsound := (hinv.readers r).sound ret hret
  have heven := hsound.even
  have hknown := hsound.known
  change ret.seq.toNat ≤ 2 * w.shmem.written.length at hknown
  have hk : ret.seq.toNat / 2 ≤ w.shmem.written.length := by omega
  have hfresh := hsound.fresh
  refine ⟨ret.seq.toNat / 2, by omega, ?_, by omega, hk, ?_⟩
  · rw [← frameAt_recorded h hk]
    exact hsound.frame
  · intro seq hseq
    have hle := hsound.notified seq hseq
    omega

/-- What a client has heard at a point of a run. -/
structure Heard (fd : RawFd) (tr : ListenTrace) (w : RxWorld) (r : Nat) : Prop where
  packets : ∀ f ∈ recorded fd tr, ∃ w i c, (w, ListenAct.rx (.reaped i c)) ∈ tr ∧ c.status = 0 ∧
    0 < c.actualLength.toNat ∧ f = bytesToFrame c.bytes
  /-- Each frame is one recorded, no older than the writes complete before the call and than the
  write notified. -/
  frames : ∀ ret ∈ (w.shmem.readers r).returns, ∃ k, ret.seq.toNat = 2 * k ∧
    ret.frame = (frameNo (recorded fd tr) k).image ∧ ret.before ≤ k ∧
    k ≤ w.shmem.written.length ∧ ∀ seq, ret.notified = some seq → seq.toNat ≤ 2 * k
  inOrder : (w.shmem.readers r).returns.Pairwise fun a b => a.seq ≤ b.seq
  /-- Of the number that `current_rx_seq` returns. -/
  current : w.currentRxSeq.toNat / 2 = w.shmem.written.length

theorem current_eq (h : PageInv w.shmem.page w.shmem.written w.shmem.writer) :
    w.currentRxSeq.toNat / 2 = w.shmem.written.length := by
  unfold RxWorld.currentRxSeq
  cases hpc : w.shmem.writer with
  | idle =>
      rw [hpc] at h
      have hseq := h.seq
      omega
  | loaded frame cur =>
      rw [hpc] at h
      have hseq := h.1.seq
      omega
  | copying frame cur i =>
      rw [hpc] at h
      have hseq := h.2.1
      omega
  | notifying new =>
      rw [hpc] at h
      have hseq := h.1.seq
      omega

/-- In every run of the RX loop, the dispatch thread, the server and any number of clients at the
page, with fewer than `2 ^ 63` frames: what a client reads with the number `2 * k` is, byte for
byte, the `k`-th frame recorded (silence before the first); its frames never go back; and
`current_rx_seq` counts the frames written. -/
theorem frames_heard (h : Trace (listenSystem fd) tr w)
    (hsmall : (Rx.converted (rxLoopTrace fd tr)).length < 2 ^ 63) (r : Nat) : Heard fd tr w r := by
  have hinv := shmemInv_of_trace ((pageSimulation fd).run h) (begun_lt h hsmall)
  have hreader := hinv.readers r
  exact
    { packets := fun f hf => packet_of_recorded hf
      frames := fun ret hret => heard_of_return h hsmall hret
      inOrder := hreader.sorted.imp fun hle => UInt64.le_iff_toNat_le.2 hle
      current := current_eq hinv.page }

end Runs

/-- A short packet of 64 bytes is written to the page, and client 0 reads it. -/
def listenOnce : List ListenAct :=
  [.rx (.reaped 0 (Rx.packetOf 64 (by decide))), .rx .pop, .rx .write] ++
    List.replicate (frameBytes + 2) (.rx .store) ++ [.client 0 .readLatest] ++
    List.replicate (frameBytes + 2) (.client 0 .access)

theorem frames_heard_once :
    ∃ tr w, Trace (listenSystem 7) tr w ∧ (w.shmem.readers 0).returns.map FrameReturn.seq = [2] ∧
      recorded 7 tr = [bytesToFrame (List.replicate 64 1)] ∧ Heard 7 tr w 0 := by
  have hread : ((listenSystem 7).exec (listenSystem 7).init listenOnce).map
      (fun w => (w.shmem.readers 0).returns.map FrameReturn.seq) = some [2] := by
    decide +kernel
  rcases Option.map_eq_some_iff.1 hread with ⟨w, hexec, hseq⟩
  have hrun := Trace.start.exec hexec
  have hrecorded : recorded 7 ([] ++ (listenSystem 7).steps (listenSystem 7).init listenOnce) =
      [bytesToFrame (List.replicate 64 1)] := by
    decide +kernel
  exact ⟨_, w, hrun, hseq, hrecorded, frames_heard hrun (by decide +kernel) 0⟩

end Listen

end Cm108Driver
