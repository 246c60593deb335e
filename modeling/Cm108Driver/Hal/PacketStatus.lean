import Cm108Driver.Hal.RxRuns

/-!
# PacketStatus — transfers that fail in their packet

An isochronous URB reports success twice: once for the URB and once for its packet.  The RX loop
looks at the status of the URB and at the length of the packet, never at the packet's own status,
so that the bytes of a corrupt packet of non-zero length are converted and pushed like any others.
-/

namespace Cm108Driver

open Lib

/-- The URB and its single packet both report success. -/
def Completion.Sound {packet : Nat} (c : Completion packet) : Prop :=
  c.status = 0 ∧ c.packetStatus = 0

instance {packet : Nat} (c : Completion packet) : Decidable c.Sound := by
  unfold Completion.Sound
  infer_instance

namespace Rx

/-- The frame of a sound transfer that has brought data. -/
def soundFrame? : LoopAct isoInPacket → Option AudioFrame
  | .reaped _ c =>
      if c.Sound ∧ 0 < c.actualLength.toNat then some (bytesToFrame c.bytes) else none
  | _ => none

def soundFrames (tr : RxTrace) : List AudioFrame := tr.filterMap fun p => soundFrame? p.2

/-- What the loop should do with its completions: an iteration that touches the ring or its counter
serves a sound transfer, and the frames pushed are those of the sound transfers, in order. -/
structure CleanAudio (tr : RxTrace) : Prop where
  pushes : ∀ {w i c}, (w, .reaped i c) ∈ tr →
    (rxLoop.next documentedReap w (.reaped i c)).ring ≠ w.ring → c.Sound
  frames : converted tr = soundFrames tr

/-- A transfer that the loop takes for good has a good packet. -/
def PacketSound (_ : LoopWorld isoInPacket) : LoopAct isoInPacket → Prop
  | .reaped _ c => c.status = 0 → 0 < c.actualLength.toNat → c.packetStatus = 0
  | _ => True

/-- A push shows: the frame is in the ring, or the overrun is counted. -/
theorem push_ne (r : CountedRing) (f : AudioFrame) : r.push f ≠ r := by
  intro heq
  cases hroom : r.hasRoom with
  | true =>
      have hitems := CountedRing.items_push r f
      rw [hroom, if_pos rfl, heq] at hitems
      have hlen := congrArg List.length hitems
      rw [List.length_append] at hlen
      exact absurd hlen (Nat.ne_of_lt (Nat.lt_succ_self _))
  | false =>
      have hxruns := CountedRing.xruns_push r f
      -- a counter is never its own successor, also where it wraps
      rw [hroom, heq] at hxruns
      simp at hxruns

section Runs

variable {tr : RxTrace} {w : LoopWorld isoInPacket}

theorem converted_eq (tr : RxTrace) : converted tr = tr.filterMap fun p => converted? p.2 := by
  rw [converted, offers, List.map_filterMap]
  refine List.filterMap_congr fun p _ => ?_
  cases converted? p.2 <;> rfl

/-- An iteration pushes exactly when it converts a frame. -/
theorem ring_ne_iff (hw : ReapLoop.Full w) (i : Fin nUrbs) (c : Completion isoInPacket) :
    (rxLoop.next documentedReap w (.reaped i c)).ring ≠ w.ring ↔
      c.status = 0 ∧ 0 < c.actualLength.toNat := by
  rw [ring_reaped hw i c]
  by_cases hgood : c.status = 0 ∧ 0 < c.actualLength.toNat
  · simp only [converted?, if_pos hgood]
    exact ⟨fun _ => hgood, fun _ => push_ne _ _⟩
  · simp [converted?, hgood]

/-- A good packet is converted exactly when it is sound. -/
theorem converted?_of_sound {a : LoopAct isoInPacket} (h : PacketSound w a) :
    converted? a = soundFrame? a := by
  cases a with
  | reaped i c =>
      have hiff : (c.status = 0 ∧ 0 < c.actualLength.toNat) ↔
          (c.Sound ∧ 0 < c.actualLength.toNat) := by
        constructor
        · rintro ⟨hstatus, hpos⟩
          exact ⟨⟨hstatus, h hstatus hpos⟩, hpos⟩
        · rintro ⟨⟨hstatus, _⟩, hpos⟩
          exact ⟨hstatus, hpos⟩
      simp only [converted?, soundFrame?, hiff]
  | idle => rfl
  | peer op => rfl

theorem converted_of_sound (h : Guarded PacketSound tr) : converted tr = soundFrames tr := by
  rw [converted_eq]
  exact List.filterMap_congr fun p hp => converted?_of_sound (h p hp)

/-- The loop pushes the data of the sound transfers and nothing else exactly in the runs in which
no packet fails inside a URB that reports success and a length. -/
theorem cleanAudio_iff (h : Trace (rxLoop.system documentedReap) tr w) :
    CleanAudio tr ↔ Guarded PacketSound tr := by
  -- every slot is in flight before every step, so that no completion is ignored
  have hfull : ∀ p ∈ tr, ReapLoop.Full p.1 := by
    intro p hp
    rcases exists_prefix_of_mem hp with ⟨pre, hpre⟩
    exact rxLoop.full_documented (h.of_prefix hpre).1
  constructor
  · -- a bad packet that is pushed breaks the first part already
    rintro hclean ⟨w, a⟩ hp
    cases a with
    | reaped i c =>
        intro hstatus hpos
        have hring := (ring_ne_iff (hfull _ hp) i c).mpr ⟨hstatus, hpos⟩
        exact (hclean.pushes hp hring).2
    | idle => trivial
    | peer op => trivial
  · intro hsound
    constructor
    · intro w i c hp hring
      rcases (ring_ne_iff (hfull _ hp) i c).mp hring with ⟨hstatus, hpos⟩
      exact ⟨hstatus, hsound _ hp hstatus hpos⟩
    · exact converted_of_sound hsound

/-- What the dispatch thread has taken and will find are then sound frames, in order. -/
theorem heard_sublist (h : Trace (rxLoop.system documentedReap) tr w) (hpeer : Guarded PeerPops tr)
    (hsound : Guarded PacketSound tr) :
    (popped tr ++ w.ring.ring.items).Sublist (soundFrames tr) := by
  rw [(rxInv_of_trace h hpeer).items, ← converted_of_sound hsound]
  exact List.filter_sublist.map _

end Runs

/-- A completed transfer of 96 bytes, all of them 1, whose packet has the status `packetStatus`. -/
def packetWith (packetStatus : UInt32) : Completion isoInPacket :=
  { status := 0
    errorCount := if packetStatus = 0 then 0 else 1
    urbActualLength := 96
    actualLength := 96
    packetStatus := packetStatus
    buf := Vector.replicate isoInPacket 1
    fits := goodPacket.fits }

/-- The equivalence at a corrupt packet, status -84 (`EILSEQ`), between two sound ones. -/
theorem cleanAudio_iff_oneBad :
    ∃ tr w, Trace (rxLoop.system documentedReap) tr w ∧
      tr.map Prod.snd =
        [.reaped 0 (packetWith 0), .reaped 1 (packetWith 0xFFFFFFAC), .reaped 2 (packetWith 0)] ∧
      (CleanAudio tr ↔ Guarded PacketSound tr) ∧ ¬ Guarded PacketSound tr := by
  have hrun := (((Trace.start (S := rxLoop.system documentedReap)).snoc
    (a := .reaped 0 (packetWith 0)) rfl).snoc (a := .reaped 1 (packetWith 0xFFFFFFAC)) rfl).snoc
    (a := .reaped 2 (packetWith 0)) rfl
  refine ⟨_, _, hrun, rfl, cleanAudio_iff hrun, fun hsound => ?_⟩
  rcases (guarded_snoc _ _ _ _).1 hsound with ⟨hfront, _⟩
  have hbad := ((guarded_snoc _ _ _ _).1 hfront).2 rfl (by decide)
  exact absurd hbad (by decide)

/-- A packet with this status in a URB with the status 0: a frame is pushed. -/
theorem cleanAudio_fails :
    ∃ w, Trace (rxLoop.system documentedReap)
        [(rxLoop.start, .reaped 0 (packetWith 0xFFFFFFAC))] w ∧
      w.ring.ring.items = [bytesToFrame (packetWith 0xFFFFFFAC).bytes] ∧
      ¬ CleanAudio [(rxLoop.start, .reaped 0 (packetWith 0xFFFFFFAC))] := by
  have htrace : Trace (rxLoop.system documentedReap)
      [(rxLoop.start, .reaped 0 (packetWith 0xFFFFFFAC))]
      (rxLoop.next documentedReap rxLoop.start (.reaped 0 (packetWith 0xFFFFFFAC))) :=
    Trace.start.snoc rfl
  have hfull : ReapLoop.Full rxLoop.start := rxLoop.full_documented .start
  refine ⟨_, htrace, ?_, fun hclean => ?_⟩
  · rw [ring_reaped hfull]
    rfl
  · have hring := (ring_ne_iff hfull 0 (packetWith 0xFFFFFFAC)).mpr ⟨rfl, by decide⟩
    exact absurd (hclean.pushes (List.mem_singleton_self _) hring).2 (by decide)

end Rx

end Cm108Driver
