import Cm108Driver.Hal.Pcm

/-!
# RxRuns — what the RX loop puts into its ring

The history of a run lists the frames that the RX loop offers to its ring, each with the answer to
whether the ring had room.  With the dispatch thread at the other end, what has been popped and
what is in the ring make up the frames that had room, and the counter has counted the others.
-/

namespace Cm108Driver

open Lib

abbrev RxTrace := List (LoopWorld isoInPacket × LoopAct isoInPacket)

/-- The bytes that a completed transfer has brought. -/
def Completion.bytes {packet : Nat} (c : Completion packet) : List UInt8 :=
  c.buf.toList.take c.actualLength.toNat

theorem Completion.length_bytes {packet : Nat} (c : Completion packet) :
    c.bytes.length = c.actualLength.toNat := by
  rw [bytes, List.length_take, Vector.length_toList]
  exact Nat.min_eq_left c.fits

namespace Rx

/-! ## Histories -/

/-- The packet of a completed transfer. -/
def packet? : LoopAct isoInPacket → Option (List UInt8)
  | .reaped _ c => some c.bytes
  | _ => none

def packets (tr : RxTrace) : List (List UInt8) := tr.filterMap fun p => packet? p.2

/-- The frame that an iteration converts. -/
def converted? : LoopAct isoInPacket → Option AudioFrame
  | .reaped _ c =>
      if c.status = 0 ∧ 0 < c.actualLength.toNat then some (bytesToFrame c.bytes) else none
  | _ => none

/-- The frames converted, each with whether the ring had room for it. -/
def offers (tr : RxTrace) : List (AudioFrame × Bool) :=
  tr.filterMap fun p => (converted? p.2).map fun f => (f, p.1.ring.hasRoom)

def converted (tr : RxTrace) : List AudioFrame := (offers tr).map Prod.fst

/-- The frames that went into the ring. -/
def enqueued (tr : RxTrace) : List AudioFrame := ((offers tr).filter Prod.snd).map Prod.fst

/-- The number of frames that the ring had no room for. -/
def overruns (tr : RxTrace) : Nat := (offers tr).countP fun offer => !offer.2

/-- The frame that a step of the other end takes. -/
def popped? (w : LoopWorld isoInPacket) : LoopAct isoInPacket → Option AudioFrame
  | .peer .pop => w.ring.ring.items.head?
  | _ => none

def popped (tr : RxTrace) : List AudioFrame := tr.filterMap fun p => popped? p.1 p.2

/-- The other end only takes frames out, as the dispatch thread does. -/
def PeerPops (_ : LoopWorld isoInPacket) : LoopAct isoInPacket → Prop
  | .peer (.push _) => False
  | _ => True

section Runs

variable {tr : RxTrace} {w t : LoopWorld isoInPacket} {a : LoopAct isoInPacket}

theorem offers_snoc (tr : RxTrace) (w : LoopWorld isoInPacket) (a : LoopAct isoInPacket) :
    offers (tr ++ [(w, a)]) =
      offers tr ++ ((converted? a).map fun f => (f, w.ring.hasRoom)).toList :=
  filterMap_snoc _ tr (w, a)

theorem popped_snoc (tr : RxTrace) (w : LoopWorld isoInPacket) (a : LoopAct isoInPacket) :
    popped (tr ++ [(w, a)]) = popped tr ++ (popped? w a).toList :=
  filterMap_snoc _ tr (w, a)

/-! ## One step -/

/-- Serving a completed slot offers the converted frame, if there is one. -/
theorem serve_rx (slot : Slot isoInPacket) (c : Completion isoInPacket) (i : Fin nUrbs)
    (r : CountedRing) :
    (rxLoop.serve (slot.complete c) r).2 =
      match converted? (.reaped i c) with
      | some f => r.push f
      | none => r := by
  by_cases hgood : c.status = 0 ∧ 0 < c.actualLength.toNat
  · simp only [rxLoop, Slot.complete, converted?, if_pos hgood]
    rfl
  · simp only [rxLoop, Slot.complete, converted?, if_neg hgood]

theorem ring_reaped (hw : ReapLoop.Full w) (i : Fin nUrbs) (c : Completion isoInPacket) :
    (rxLoop.next documentedReap w (.reaped i c)).ring =
      match converted? (.reaped i c) with
      | some f => w.ring.push f
      | none => w.ring := by
  rw [(rxLoop.next_serves (c := c) (hw.documented i)).ring]
  exact serve_rx _ c i w.ring

/-- What is taken out and what is in the ring, after a step that only takes frames out. -/
theorem items_pop_peer (w : LoopWorld isoInPacket) :
    (popped? w (.peer .pop)).toList ++ (w.peer .pop).ring.ring.items = w.ring.ring.items ∧
      (w.peer .pop).ring.xruns = w.ring.xruns := by
  cases hitems : w.ring.ring.items with
  | nil =>
      simp [popped?, LoopWorld.peer, Fifo.pop_of_nil hitems, hitems]
  | cons f fs =>
      rcases Fifo.pop_of_items hitems with ⟨rest, hpop, hrest⟩
      simp [popped?, LoopWorld.peer, hpop, hitems, hrest]

/-! ## Whole runs -/

/-- What has been popped, then what is in the ring, is what went in; the counter has counted the
rest. -/
structure RxInv (tr : RxTrace) (w : LoopWorld isoInPacket) : Prop where
  items : popped tr ++ w.ring.ring.items = enqueued tr
  xruns : w.ring.xruns = UInt64.ofNat (overruns tr)

theorem RxInv.offer (h : RxInv tr w) (i : Fin nUrbs) (c : Completion isoInPacket)
    (hw : ReapLoop.Full w) :
    RxInv (tr ++ [(w, .reaped i c)]) (rxLoop.next documentedReap w (.reaped i c)) := by
  have hring := ring_reaped hw i c
  have hoffers := offers_snoc tr w (.reaped i c)
  have hpopped : popped (tr ++ [(w, .reaped i c)]) = popped tr := by
    simp [popped_snoc, popped?]
  cases hconv : converted? (.reaped i c) with
  | none =>
      -- a failed or empty transfer leaves the ring alone
      rw [hconv] at hring hoffers
      constructor
      · simpa [hpopped, hring, enqueued, hoffers] using h.items
      · simpa [hring, overruns, hoffers] using h.xruns
  | some f =>
      rw [hconv] at hring hoffers
      cases hroom : w.ring.hasRoom with
      | true =>
          -- the frame goes in, behind those that are there
          constructor
          · have hitems := h.items
            simp only [enqueued] at hitems
            simp [hpopped, hring, CountedRing.items_push, enqueued, hoffers, hroom, ← hitems]
          · simpa [hring, CountedRing.xruns_push, overruns, hoffers, hroom] using h.xruns
      | false =>
          -- the frame is dropped and counted
          constructor
          · simpa [hpopped, hring, CountedRing.items_push, enqueued, hoffers, hroom] using h.items
          · have hxruns := h.xruns
            simp only [overruns] at hxruns
            simp [hring, CountedRing.xruns_push, overruns, hoffers, hroom, hxruns]

theorem rxInv_of_trace (h : Trace (rxLoop.system documentedReap) tr w)
    (hpeer : Guarded PeerPops tr) : RxInv tr w := by
  induction h with
  | start => exact ⟨rfl, rfl⟩
  | snoc htr hstep ih =>
      rename_i tr w t a
      rcases (guarded_snoc PeerPops tr w a).1 hpeer with ⟨hbefore, ha⟩
      have hinv := ih hbefore
      rw [(rxLoop.step_cases hstep).1]
      cases a with
      | reaped i c => exact hinv.offer i c (rxLoop.full_documented htr)
      | idle =>
          constructor
          · simpa [ReapLoop.next, popped_snoc, popped?, enqueued, offers_snoc, converted?] using
              hinv.items
          · simpa [ReapLoop.next, overruns, offers_snoc, converted?] using hinv.xruns
      | peer op =>
          cases op with
          -- the other end of the RX ring only takes frames, by `hpeer`
          | push f => exact absurd ha id
          | pop =>
              rcases items_pop_peer w with ⟨hitems, hxruns⟩
              constructor
              · rw [popped_snoc, List.append_assoc]
                show popped tr ++ ((popped? w (.peer .pop)).toList ++ _) = _
                rw [ReapLoop.next, hitems, hinv.items]
                simp [enqueued, offers_snoc, converted?]
              · rw [ReapLoop.next, hxruns, hinv.xruns]
                simp [overruns, offers_snoc, converted?]

/-- A converted frame went into the ring or was counted as an overrun. -/
theorem length_converted (tr : RxTrace) :
    (converted tr).length = (enqueued tr).length + overruns tr := by
  calc
    (converted tr).length = (offers tr).length := List.length_map ..
    _ = (offers tr).countP Prod.snd + overruns tr := by
        simpa [overruns] using List.length_eq_countP_add_countP (l := offers tr) Prod.snd
    _ = (enqueued tr).length + overruns tr := by
        rw [enqueued, List.length_map, List.countP_eq_length_filter]

/-- A frame converted is that of a packet. -/
theorem packet_of_converted {f : AudioFrame} (hf : f ∈ converted tr) :
    ∃ w i c, (w, LoopAct.reaped i c) ∈ tr ∧ c.status = 0 ∧ 0 < c.actualLength.toNat ∧
      f = bytesToFrame c.bytes := by
  rcases List.mem_map.1 hf with ⟨⟨f', room⟩, hoffer, rfl⟩
  rcases List.mem_filterMap.1 hoffer with ⟨⟨w, a⟩, hmem, hconv⟩
  rcases Option.map_eq_some_iff.1 hconv with ⟨f'', hconverted, heq⟩
  cases heq
  -- only a reap converts a frame
  cases a with
  | reaped i c =>
      simp only [converted?] at hconverted
      split at hconverted
      · rename_i hgood
        cases hconverted
        exact ⟨w, i, c, hmem, hgood.1, hgood.2, rfl⟩
      · cases hconverted
  | _ => cases hconverted

theorem enqueued_sublist (tr : RxTrace) : (enqueued tr).Sublist (converted tr) :=
  List.filter_sublist.map Prod.fst

end Runs

/-! ## Samples in and out -/

/-- A successfully completed packet of whole samples, for which the ring has room; and the other
end only takes frames out. -/
def WholePackets (w : LoopWorld isoInPacket) : LoopAct isoInPacket → Prop
  | .reaped _ c =>
      c.status = 0 ∧ 2 ≤ c.actualLength.toNat ∧ c.actualLength.toNat % 2 = 0 ∧
        w.ring.hasRoom = true
  | .peer (.push _) => False
  | _ => True

section Samples

variable {tr : RxTrace} {w t : LoopWorld isoInPacket} {a : LoopAct isoInPacket}

theorem WholePackets.peerPops (h : WholePackets w a) : PeerPops w a := by
  cases a with
  | peer op =>
      cases op with
      | push f => exact h
      | pop => trivial
  | reaped i c => trivial
  | idle => trivial

/-- Every packet becomes a frame in the ring. -/
theorem offer_of_whole (h : WholePackets w a) :
    ((converted? a).map fun f => (f, w.ring.hasRoom)) =
      (packet? a).map fun p => (bytesToFrame p, true) := by
  cases a with
  | reaped i c =>
      rcases h with ⟨hstatus, hlen, _, hroom⟩
      have hpos : 0 < c.actualLength.toNat := by omega
      simp [packet?, converted?, hstatus, hpos, hroom]
  | idle => rfl
  | peer op => rfl

theorem offers_of_whole (h : Guarded WholePackets tr) :
    offers tr = (packets tr).map fun p => (bytesToFrame p, true) := by
  rw [packets, List.map_filterMap]
  apply List.filterMap_congr
  intro p hp
  exact offer_of_whole (h p hp)

theorem even_of_whole (h : Guarded WholePackets tr) {p : List UInt8} (hp : p ∈ packets tr) :
    p.length % 2 = 0 := by
  rcases List.mem_filterMap.1 hp with ⟨⟨w, a⟩, hmem, hpacket⟩
  have ha := h (w, a) hmem
  cases a with
  | reaped i c =>
      cases hpacket
      rw [c.length_bytes]
      exact ha.2.2.1
  | idle => cases hpacket
  | peer op => cases hpacket

theorem frames_of_whole (h : Trace (rxLoop.system documentedReap) tr w)
    (hwhole : Guarded WholePackets tr) :
    popped tr ++ w.ring.ring.items = (packets tr).map bytesToFrame := by
  have hitems := (rxInv_of_trace h fun p hp => (hwhole p hp).peerPops).items
  rw [hitems, enqueued, offers_of_whole hwhole]
  simp [List.filter_map, Function.comp_def]

/-- Two concatenations agree at every prefix only if they agree piece by piece. -/
theorem flatMap_take_eq_iff {α β : Type} (f g : α → List β) (l : List α) :
    (∀ j, (l.take j).flatMap f = (l.take j).flatMap g) ↔ ∀ a ∈ l, f a = g a := by
  induction l with
  | nil => simp
  | cons a l ih =>
      constructor
      · intro hall
        have ha : f a = g a := by simpa using hall 1
        have htail : ∀ b ∈ l, f b = g b := by
          apply ih.1
          intro j
          have hj := hall (j + 1)
          simpa [ha] using hj
        simpa [ha] using htail
      · intro hall j
        cases j with
        | zero => rfl
        | succ j =>
            have htail := ih.2 (fun b hb => hall b (List.mem_cons_of_mem _ hb)) j
            simp [hall a (List.mem_cons_self ..), htail]

/-- A packet keeps all its samples, and gets no others, exactly when it has 48 of them. -/
theorem takeD_samplesOf_eq_iff {p : List UInt8} (heven : p.length % 2 = 0) :
    (samplesOf p).takeD samplesPerFrame 0 = samplesOf p ↔ p.length = 96 := by
  have hlen := length_samplesOf p
  constructor
  · intro heq
    have h48 := congrArg List.length heq
    rw [List.takeD_length, hlen, samplesPerFrame] at h48
    omega
  · intro h96
    have h48 : (samplesOf p).length = samplesPerFrame := by
      rw [hlen, h96]
      rfl
    exact takeD_of_length h48 0

/-- Each frame carries its packet cut or filled up to 48 samples, in both channels.  Hence what
comes out is what came in, after every packet of the run, exactly if all packets have 96 bytes. -/
theorem frames_carry_packets (h : Trace (rxLoop.system documentedReap) tr w)
    (hwhole : Guarded WholePackets tr) :
    (popped tr ++ w.ring.ring.items).map AudioFrame.left =
        (packets tr).map (fun p => (samplesOf p).takeD samplesPerFrame 0) ∧
      (popped tr ++ w.ring.ring.items).map AudioFrame.right =
        (packets tr).map (fun p => (samplesOf p).takeD samplesPerFrame 0) ∧
      ((∀ j, ((popped tr ++ w.ring.ring.items).take j).flatMap AudioFrame.left =
          ((packets tr).take j).flatMap samplesOf) ↔ ∀ p ∈ packets tr, p.length = 96) ∧
      ((∀ j, ((popped tr ++ w.ring.ring.items).take j).flatMap AudioFrame.right =
          ((packets tr).take j).flatMap samplesOf) ↔ ∀ p ∈ packets tr, p.length = 96) := by
  have hiff : (∀ p ∈ packets tr, (samplesOf p).takeD samplesPerFrame 0 = samplesOf p) ↔
      ∀ p ∈ packets tr, p.length = 96 :=
    forall₂_congr fun p hp => takeD_samplesOf_eq_iff (even_of_whole hwhole hp)
  rw [frames_of_whole h hwhole]
  refine ⟨?_, ?_, ?_, ?_⟩
  · simp [left_bytesToFrame, Function.comp_def]
  · simp [right_bytesToFrame, Function.comp_def]
  · rw [← hiff, ← flatMap_take_eq_iff]
    simp only [← List.map_take, List.flatMap_map, left_bytesToFrame]
  · rw [← hiff, ← flatMap_take_eq_iff]
    simp only [← List.map_take, List.flatMap_map, right_bytesToFrame]

end Samples

/-- A completed transfer of `n` bytes, all of them 1. -/
def packetOf (n : Nat) (fits : (UInt32.ofNat n).toNat ≤ isoInPacket) : Completion isoInPacket :=
  { status := 0
    errorCount := 0
    urbActualLength := Int32.ofNat n
    actualLength := UInt32.ofNat n
    packetStatus := 0
    buf := Vector.replicate isoInPacket 1
    fits := fits }

/-- One completion of slot 0 with 98 bytes, two of them slack. -/
def slackRun : RxTrace := [(rxLoop.start, .reaped 0 (packetOf 98 (by decide)))]

theorem slackRun_trace : Trace (rxLoop.system documentedReap) slackRun
    (rxLoop.next documentedReap rxLoop.start (.reaped 0 (packetOf 98 (by decide)))) :=
  Trace.start.snoc rfl

theorem slackRun_whole : Guarded WholePackets slackRun := by
  intro p hp
  rcases List.mem_singleton.1 hp with rfl
  exact ⟨rfl, by decide, by decide, rfl⟩

theorem frames_carry_packets_slack :
    (∀ j, ((popped slackRun ++ (rxLoop.next documentedReap rxLoop.start
        (.reaped 0 (packetOf 98 (by decide)))).ring.ring.items).take j).flatMap AudioFrame.left =
      ((packets slackRun).take j).flatMap samplesOf) ↔ ∀ p ∈ packets slackRun, p.length = 96 :=
  (frames_carry_packets slackRun_trace slackRun_whole).2.2.1

/-- Of the 49 samples of a 98-byte packet the last one is lost. -/
theorem slack_sample_lost :
    ∃ w, Trace (rxLoop.system documentedReap) slackRun w ∧ Guarded WholePackets slackRun ∧
      (popped slackRun ++ w.ring.ring.items).flatMap AudioFrame.left ≠
        (packets slackRun).flatMap samplesOf := by
  refine ⟨_, slackRun_trace, slackRun_whole, ?_⟩
  rw [frames_of_whole slackRun_trace slackRun_whole]
  intro heq
  have hlen := congrArg List.length heq
  have hpackets : packets slackRun = [(packetOf 98 (by decide)).bytes] := rfl
  simp [hpackets, AudioFrame.left, length_samplesOf, Completion.length_bytes] at hlen
  revert hlen
  decide

end Rx

end Cm108Driver
