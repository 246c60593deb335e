import Cm108Driver.Hal.MonoRoundTrip
import Cm108Driver.Hal.RxRuns
import Cm108Driver.Server.TxPipeline

/-!
# Loopback — from the IN packets to the OUT packets

The loopback program has both rings in its hands: it pops a frame from the RX ring and pushes it
into the TX ring, and ignores it when the push fails.  The RX and the TX thread go on meanwhile.

What it plays is what it records: a packet of 96 bytes goes out as it came in.
-/

namespace Cm108Driver

open Lib

/-! ## A packet through both conversions -/

theorem bytesOf_takeD (xs : List Int16) (n : Nat) :
    bytesOf (xs.takeD n 0) = (bytesOf xs).takeD (2 * n) 0 := by
  induction n generalizing xs with
  | zero => rfl
  | succ n ih =>
      rw [Nat.mul_succ]
      cases xs with
      | nil =>
          have hrest := ih []
          simp only [bytesOf, List.flatMap_nil] at hrest
          simp only [List.takeD, List.tail_nil, bytesOf, List.flatMap_cons, List.flatMap_nil, hrest]
          rfl
      | cons x xs =>
          have hrest := ih xs
          simp only [bytesOf] at hrest
          simp only [List.takeD, List.tail_cons, bytesOf, List.flatMap_cons, hrest]
          rfl

/-- A last odd byte is no sample. -/
theorem bytesOf_samplesOf_take (bs : List UInt8) :
    bytesOf (samplesOf bs) = bs.take (bs.length / 2 * 2) := by
  induction bs using List.twoStepInduction with
  | nil => rfl
  | singleton b => simp [samplesOf, bytesOf]
  | cons_cons b0 b1 bs ih _ =>
      have hlen : (b0 :: b1 :: bs).length / 2 * 2 = bs.length / 2 * 2 + 1 + 1 := by
        simp only [List.length_cons]
        omega
      have hpair : [lowByte (sampleOfBytes b0 b1), highByte (sampleOfBytes b0 b1)] = [b0, b1] :=
        bytesOf_samplesOf (by simp : [b0, b1].length % 2 = 0)
      rw [hlen, List.take_succ_cons, List.take_succ_cons, ← ih]
      simp only [samplesOf, bytesOf, List.flatMap_cons, hpair]
      rfl

/-- The whole samples of an IN packet, as many as an OUT packet has room for, and silence behind
them. -/
def throughFrame (p : List UInt8) : List UInt8 := (p.take (p.length / 2 * 2)).takeD isoOutPacket 0

theorem packetFor_bytesToFrame (p : List UInt8) :
    Tx.packetFor (some (bytesToFrame p)) = throughFrame p := by
  rw [Tx.packetFor, left_bytesToFrame, bytesOf_takeD, bytesOf_samplesOf_take]
  rfl

theorem throughFrame_of_length {p : List UInt8} (h : p.length = isoOutPacket) :
    throughFrame p = p := by
  have hall : p.length / 2 * 2 = p.length := by
    rw [h]
    rfl
  rw [throughFrame, hall, List.take_length, takeD_of_length h]

/-! ## The system -/

structure LoopbackWorld where
  rx : LoopWorld isoInPacket
  tx : LoopWorld isoOutPacket
  /-- The frame popped and not yet pushed. -/
  hand : Option AudioFrame
  frames : UInt64

inductive LoopbackAct
  | reapedRx (i : Fin nUrbs) (c : Completion isoInPacket)
  | reapedTx (i : Fin nUrbs) (c : Completion isoOutPacket)
  | pop
  | push

/-- `let _ = tx_producer.push(frame)`. -/
def LoopWorld.offer {packet : Nat} (w : LoopWorld packet) (f : AudioFrame) : LoopWorld packet :=
  match w.ring.ring.push f with
  | some ring => { w with ring := { w.ring with ring := ring } }
  | none => w

namespace LoopbackWorld

def start : LoopbackWorld :=
  { rx := rxLoop.start
    tx := txLoop.start
    hand := none
    frames := 0 }

def step (w : LoopbackWorld) : LoopbackAct → Option LoopbackWorld
  | .reapedRx i c =>
      if (w.rx.slots i).inFlight then
        some { w with rx := rxLoop.next documentedReap w.rx (.reaped i c) }
      else
        none
  | .reapedTx i c =>
      if (w.tx.slots i).inFlight then
        some { w with tx := txLoop.next documentedReap w.tx (.reaped i c) }
      else
        none
  | .pop =>
      match w.hand, w.rx.ring.ring.items with
      | none, f :: _ =>
          some
            { w with
              rx := w.rx.peer .pop
              hand := some f }
      -- `while start.elapsed() < ..`
      | none, [] => some w
      | some _, _ => none
  | .push =>
      match w.hand with
      | some f =>
          some
            { w with
              tx := w.tx.offer f
              hand := none
              frames := w.frames + 1 }
      | none => none

end LoopbackWorld

/-- Both threads in their loops and the loopback program, with the reap as documented. -/
def loopbackSystem : System LoopbackWorld LoopbackAct where
  init := LoopbackWorld.start
  step := LoopbackWorld.step

abbrev LoopbackTrace := List (LoopbackWorld × LoopbackAct)

/-- What a step can do. -/
inductive LoopbackMove (w : LoopbackWorld) : LoopbackAct → LoopbackWorld → Prop where
  | reapedRx {i : Fin nUrbs} {c : Completion isoInPacket}
      (hflight : (w.rx.slots i).inFlight = true) :
      LoopbackMove w (.reapedRx i c)
        { w with rx := rxLoop.next documentedReap w.rx (.reaped i c) }
  | reapedTx {i : Fin nUrbs} {c : Completion isoOutPacket}
      (hflight : (w.tx.slots i).inFlight = true) :
      LoopbackMove w (.reapedTx i c)
        { w with tx := txLoop.next documentedReap w.tx (.reaped i c) }
  | pop {f : AudioFrame} {fs : List AudioFrame} (hhand : w.hand = none)
      (hitems : w.rx.ring.ring.items = f :: fs) :
      LoopbackMove w .pop
        { w with
          rx := w.rx.peer .pop
          hand := some f }
  | dry (hhand : w.hand = none) (hitems : w.rx.ring.ring.items = []) : LoopbackMove w .pop w
  | push {f : AudioFrame} (hhand : w.hand = some f) :
      LoopbackMove w .push
        { w with
          tx := w.tx.offer f
          hand := none
          frames := w.frames + 1 }

theorem loopbackMove_of_step {w t : LoopbackWorld} {a : LoopbackAct} (h : w.step a = some t) :
    LoopbackMove w a t := by
  cases a with
  | reapedRx i c =>
      simp only [LoopbackWorld.step] at h
      split at h
      · rename_i hflight
        cases h
        exact .reapedRx hflight
      · cases h
  | reapedTx i c =>
      simp only [LoopbackWorld.step] at h
      split at h
      · rename_i hflight
        cases h
        exact .reapedTx hflight
      · cases h
  | pop =>
      simp only [LoopbackWorld.step] at h
      split at h
      · rename_i hhand hitems
        cases h
        exact .pop hhand hitems
      · rename_i hhand hitems
        cases h
        exact .dry hhand hitems
      · cases h
  | push =>
      simp only [LoopbackWorld.step] at h
      split at h
      · rename_i hhand
        cases h
        exact .push hhand
      · cases h

namespace Loopback

/-! ## Histories -/

/-- The RX thread's part of a run. -/
def rxSimulation : Simulation loopbackSystem (rxLoop.system documentedReap) where
  proj := LoopbackWorld.rx
  label _ a :=
    match a with
    | .reapedRx i c => some (.reaped i c)
    | .pop => some (.peer .pop)
    | _ => none
  init := rfl
  hidden := by
    intro w a t hstep hlabel
    cases loopbackMove_of_step hstep with
    | reapedTx hflight => rfl
    | push hhand => rfl
    | _ => cases hlabel
  shown := by
    intro w a t b hstep hlabel
    cases loopbackMove_of_step hstep with
    | reapedRx hflight =>
        cases hlabel
        simp [ReapLoop.system, hflight]
    | pop hhand hitems =>
        cases hlabel
        simp [ReapLoop.system, ReapLoop.next]
    | dry hhand hitems =>
        cases hlabel
        have hsame : w.rx.peer .pop = w.rx := by
          simp [LoopWorld.peer, Fifo.pop_of_nil hitems]
        simp [ReapLoop.system, ReapLoop.next, hsame]
    | _ => cases hlabel

/-- The run of the RX loop in a run. -/
abbrev rxTrace (tr : LoopbackTrace) : RxTrace := rxSimulation.trace tr

def push? (w : LoopbackWorld) : LoopbackAct → Option (AudioFrame × Bool)
  | .push => w.hand.map fun f => (f, w.tx.ring.hasRoom)
  | _ => none

/-- The frames that were pushed, each with whether the TX ring had room for it. -/
def pushes (tr : LoopbackTrace) : List (AudioFrame × Bool) := tr.filterMap fun p => push? p.1 p.2

/-- The frames that went into the TX ring. -/
def kept (tr : LoopbackTrace) : List AudioFrame := ((pushes tr).filter Prod.snd).map Prod.fst

/-- The number of frames that it had no room for. -/
def dropped (tr : LoopbackTrace) : Nat := (pushes tr).countP fun p => !p.2

def reap? (w : LoopbackWorld) : LoopbackAct → Option (Option AudioFrame)
  | .reapedTx _ _ => some w.tx.ring.ring.items.head?
  | _ => none

/-- What each reap of the TX loop found at the head of its ring. -/
def reaps (tr : LoopbackTrace) : List (Option AudioFrame) := tr.filterMap fun p => reap? p.1 p.2

def submitted? (w : LoopbackWorld) : LoopbackAct → Option (List UInt8)
  | .reapedTx i c => some ((txLoop.next documentedReap w.tx (.reaped i c)).slots i).buf.toList
  | _ => none

/-- The OUT packets, in the order of their submission. -/
def submitted (tr : LoopbackTrace) : List (List UInt8) := tr.filterMap fun p => submitted? p.1 p.2

section Histories

variable (tr : LoopbackTrace) (w : LoopbackWorld) (a : LoopbackAct)

theorem pushes_snoc : pushes (tr ++ [(w, a)]) = pushes tr ++ (push? w a).toList :=
  filterMap_snoc _ tr (w, a)

theorem reaps_snoc : reaps (tr ++ [(w, a)]) = reaps tr ++ (reap? w a).toList :=
  filterMap_snoc _ tr (w, a)

theorem submitted_snoc : submitted (tr ++ [(w, a)]) = submitted tr ++ (submitted? w a).toList :=
  filterMap_snoc _ tr (w, a)

end Histories

/-! ## The TX ring -/

section Offer

variable {packet : Nat} {w : LoopWorld packet} {f : AudioFrame}

theorem offer_items : (w.offer f).ring.ring.items =
    if w.ring.hasRoom then w.ring.ring.items ++ [f] else w.ring.ring.items := by
  by_cases h : w.ring.ring.items.length < ringCapacity
  · simp [LoopWorld.offer, Fifo.push, CountedRing.hasRoom, h]
  · simp [LoopWorld.offer, Fifo.push, CountedRing.hasRoom, h]

/-- A push that fails is not counted. -/
theorem offer_xruns : (w.offer f).ring.xruns = w.ring.xruns := by
  unfold LoopWorld.offer
  split
  · rfl
  · rfl

theorem offer_slots : (w.offer f).slots = w.slots := by
  unfold LoopWorld.offer
  split
  · rfl
  · rfl

end Offer

structure LoopbackInv (tr : LoopbackTrace) (w : LoopbackWorld) : Prop where
  full : ReapLoop.Full w.tx
  sent : submitted tr = (reaps tr).map Tx.packetFor
  items : (reaps tr).filterMap id ++ w.tx.ring.ring.items = kept tr
  xruns : w.tx.ring.xruns = UInt64.ofNat ((reaps tr).countP Option.isNone)
  frames : w.frames = UInt64.ofNat (pushes tr).length
  pushed : (pushes tr).map Prod.fst ++ w.hand.toList = Rx.popped (rxTrace tr)

section Runs

variable {tr : LoopbackTrace} {w t : LoopbackWorld} {a : LoopbackAct}

theorem popped_snoc_hidden (h : rxSimulation.label w a = none) :
    Rx.popped (rxTrace (tr ++ [(w, a)])) = Rx.popped (rxTrace tr) := by
  rw [rxTrace, rxSimulation.trace_snoc_hidden tr h]

theorem popped_snoc_shown {b : LoopAct isoInPacket} (h : rxSimulation.label w a = some b) :
    Rx.popped (rxTrace (tr ++ [(w, a)])) =
      Rx.popped (rxTrace tr) ++ (Rx.popped? w.rx b).toList := by
  rw [rxTrace, rxSimulation.trace_snoc_shown tr h, Rx.popped_snoc]
  rfl

/-- A step that leaves the TX side alone. -/
theorem LoopbackInv.keep (h : LoopbackInv tr w) (htx : t.tx = w.tx) (hframes : t.frames = w.frames)
    (hpush : push? w a = none) (hreap : reap? w a = none) (hsubmitted : submitted? w a = none)
    (hpushed : (pushes tr).map Prod.fst ++ t.hand.toList = Rx.popped (rxTrace (tr ++ [(w, a)]))) :
    LoopbackInv (tr ++ [(w, a)]) t where
  full := by
    rw [htx]
    exact h.full
  sent := by simpa [submitted_snoc, reaps_snoc, hsubmitted, hreap] using h.sent
  items := by simpa [kept, reaps_snoc, pushes_snoc, hreap, hpush, htx] using h.items
  xruns := by simpa [reaps_snoc, hreap, htx] using h.xruns
  frames := by simpa [pushes_snoc, hpush, hframes] using h.frames
  pushed := by simpa [pushes_snoc, hpush] using hpushed

theorem LoopbackInv.push (h : LoopbackInv tr w) {f : AudioFrame} (hhand : w.hand = some f) :
    LoopbackInv (tr ++ [(w, .push)])
      { w with
        tx := w.tx.offer f
        hand := none
        frames := w.frames + 1 } where
  full := fun i => by
    rw [offer_slots]
    exact h.full i
  sent := by simpa [submitted_snoc, reaps_snoc, submitted?, reap?] using h.sent
  items := by
    have hitems := h.items
    simp only [kept] at hitems
    -- the frame in hand is kept or dropped, and `push?` notes which
    cases hroom : w.tx.ring.hasRoom with
    | true =>
        simp [kept, reaps_snoc, pushes_snoc, reap?, push?, hhand, offer_items, hroom, ← hitems]
    | false =>
        simpa [kept, reaps_snoc, pushes_snoc, reap?, push?, hhand, offer_items, hroom] using hitems
  xruns := by
    rw [offer_xruns]
    simpa [reaps_snoc, reap?] using h.xruns
  frames := by simp [pushes_snoc, push?, hhand, h.frames]
  pushed := by
    rw [popped_snoc_hidden rfl, ← h.pushed]
    simp [pushes_snoc, push?, hhand]

theorem LoopbackInv.reapedTx (h : LoopbackInv tr w) (i : Fin nUrbs) (c : Completion isoOutPacket) :
    LoopbackInv (tr ++ [(w, .reapedTx i c)])
      { w with tx := txLoop.next documentedReap w.tx (.reaped i c) } where
  full := h.full.next_documented txLoop (.reaped i c)
  sent := by
    rw [submitted_snoc, reaps_snoc, h.sent]
    simp [submitted?, reap?, Tx.buf_reaped h.full]
  items := by
    have hitems := h.items
    rw [Tx.ring_reaped h.full]
    cases hhead : w.tx.ring.ring.items with
    | nil =>
        -- the front of the ring, if there is one, has gone out with this packet
        rw [hhead] at hitems
        simpa [kept, reaps_snoc, pushes_snoc, reap?, push?, CountedRing.pop_of_nil hhead, hhead]
          using hitems
    | cons f fs =>
        rcases CountedRing.pop_of_cons hhead with ⟨_, hrest, _⟩
        rw [hhead] at hitems
        simpa [kept, reaps_snoc, pushes_snoc, reap?, push?, hrest, hhead] using hitems
  xruns := by
    rw [Tx.ring_reaped h.full]
    cases hhead : w.tx.ring.ring.items with
    | nil => simp [reaps_snoc, reap?, CountedRing.pop_of_nil hhead, hhead, h.xruns]
    | cons f fs =>
        rcases CountedRing.pop_of_cons hhead with ⟨_, _, hcount⟩
        simpa [reaps_snoc, reap?, hcount, hhead] using h.xruns
  frames := by simpa [pushes_snoc, push?] using h.frames
  pushed := by
    rw [popped_snoc_hidden rfl, ← h.pushed]
    simp [pushes_snoc, push?]

theorem loopbackInv_of_trace (h : Trace loopbackSystem tr w) : LoopbackInv tr w := by
  induction h with
  | start =>
      exact
        { full := txLoop.full_start
          sent := rfl
          items := rfl
          xruns := rfl
          frames := rfl
          pushed := rfl }
  | snoc htr hstep ih =>
      rename_i tr w t a
      have hpushed := ih.pushed
      -- what was taken from the RX ring has been pushed, or is in hand
      cases loopbackMove_of_step hstep with
      | reapedRx hflight =>
          refine ih.keep rfl rfl rfl rfl rfl ?_
          rw [popped_snoc_shown rfl, ← hpushed]
          simp [Rx.popped?]
      | reapedTx hflight => exact ih.reapedTx _ _
      | pop hhand hitems =>
          refine ih.keep rfl rfl rfl rfl rfl ?_
          rw [popped_snoc_shown rfl, ← hpushed]
          simp [Rx.popped?, hhand, hitems]
      | dry hhand hitems =>
          refine ih.keep rfl rfl rfl rfl rfl ?_
          rw [popped_snoc_shown rfl, ← hpushed]
          simp [Rx.popped?, hitems]
      | push hhand => exact ih.push hhand

/-! ## What is played -/

/-- The ring and the counter of the RX side. -/
theorem rxInv_of_loopback (h : Trace loopbackSystem tr w) : Rx.RxInv (rxTrace tr) w.rx := by
  refine Rx.rxInv_of_trace (rxSimulation.run h) ?_
  rintro ⟨l, b⟩ hp
  rcases List.mem_filterMap.1 hp with ⟨⟨w', a⟩, _, hb⟩
  -- the program only pops
  cases a with
  | reapedRx i c =>
      cases hb
      trivial
  | pop =>
      cases hb
      trivial
  | _ => cases hb

/-- What was played is part of what was recorded, in order. -/
theorem played_sublist (h : Trace loopbackSystem tr w) :
    ((reaps tr).filterMap id).Sublist (Rx.converted (rxTrace tr)) := by
  have hinv := loopbackInv_of_trace h
  have hplayed : (reaps tr).filterMap id <+: kept tr := ⟨_, hinv.items⟩
  have hkept : (kept tr).Sublist ((pushes tr).map Prod.fst) := List.filter_sublist.map Prod.fst
  have hpushed : (pushes tr).map Prod.fst <+: Rx.popped (rxTrace tr) := ⟨_, hinv.pushed⟩
  have hpopped : Rx.popped (rxTrace tr) <+: Rx.enqueued (rxTrace tr) :=
    ⟨_, (rxInv_of_loopback h).items⟩
  exact (hplayed.sublist.trans hkept).trans
    ((hpushed.sublist.trans hpopped.sublist).trans (Rx.enqueued_sublist _))

/-- A reap of the RX loop in the run of the loop is one in the run. -/
theorem mem_of_mem_rxTrace {l : LoopWorld isoInPacket} {i : Fin nUrbs}
    {c : Completion isoInPacket} (h : (l, LoopAct.reaped i c) ∈ rxTrace tr) :
    ∃ w, (w, LoopbackAct.reapedRx i c) ∈ tr := by
  rcases List.mem_filterMap.1 h with ⟨⟨w, a⟩, hmem, ha⟩
  cases a with
  | reapedRx i' c' =>
      cases ha
      exact ⟨w, hmem⟩
  | _ => cases ha

/-- What a run of the loopback has played. -/
structure Played (tr : LoopbackTrace) (w : LoopbackWorld) : Prop where
  packets : submitted tr = (reaps tr).map Tx.packetFor
  order : ((reaps tr).filterMap id).Sublist (Rx.converted (rxTrace tr))
  /-- Every OUT packet is silence or an IN packet that completed with data. -/
  sources : ∀ p ∈ submitted tr, p = Tx.packetFor none ∨
    ∃ w i c, (w, LoopbackAct.reapedRx i c) ∈ tr ∧ c.status = 0 ∧ 0 < c.actualLength.toNat ∧
      p = throughFrame c.bytes ∧ (c.bytes.length = isoOutPacket → p = c.bytes)
  /-- Played, in the TX ring, dropped in front of it, in hand, in the RX ring, or an overrun. -/
  account : (Rx.converted (rxTrace tr)).length =
    ((reaps tr).filterMap id).length + w.tx.ring.ring.items.length + dropped tr +
      w.hand.toList.length + w.rx.ring.ring.items.length + Rx.overruns (rxTrace tr)
  rxXruns : w.rx.ring.xruns = UInt64.ofNat (Rx.overruns (rxTrace tr))
  /-- The frames that the program drops are in neither counter. -/
  txXruns : w.tx.ring.xruns = UInt64.ofNat ((reaps tr).countP Option.isNone)
  frames : w.frames = UInt64.ofNat (((reaps tr).filterMap id).length +
    w.tx.ring.ring.items.length + dropped tr)

theorem length_pushes (tr : LoopbackTrace) :
    (pushes tr).length = (kept tr).length + dropped tr := by
  calc
    (pushes tr).length = (pushes tr).countP Prod.snd + dropped tr := by
        simpa [dropped] using List.length_eq_countP_add_countP (l := pushes tr) Prod.snd
    _ = (kept tr).length + dropped tr := by
        rw [kept, List.length_map, List.countP_eq_length_filter]

/-- In every run of the loopback with both threads: the OUT packets are the frames of IN packets
that completed with data, in their order and each once at most, and silence; a packet of 96 bytes
goes out as it came in; and every frame is accounted for. -/
theorem loopback_played (h : Trace loopbackSystem tr w) : Played tr w := by
  have hinv := loopbackInv_of_trace h
  have hrx := rxInv_of_loopback h
  have hkept := congrArg List.length hinv.items
  rw [List.length_append] at hkept
  have hpushes := length_pushes tr
  refine
    { packets := hinv.sent
      order := played_sublist h
      sources := ?_
      account := ?_
      rxXruns := hrx.xruns
      txXruns := hinv.xruns
      frames := by rw [hinv.frames, hpushes, ← hkept] }
  · intro p hp
    rw [hinv.sent] at hp
    rcases List.mem_map.1 hp with ⟨head, hhead, rfl⟩
    cases head with
    | none => exact Or.inl rfl
    | some f =>
        have hplayed : f ∈ (reaps tr).filterMap id := List.mem_filterMap.2 ⟨some f, hhead, rfl⟩
        rcases Rx.packet_of_converted ((played_sublist h).subset hplayed) with
          ⟨l, i, c, hl, hstatus, hlen, rfl⟩
        rcases mem_of_mem_rxTrace hl with ⟨w', hmem⟩
        refine Or.inr ⟨w', i, c, hmem, hstatus, hlen, packetFor_bytesToFrame _, fun hfull => ?_⟩
        rw [packetFor_bytesToFrame, throughFrame_of_length hfull]
  · have hpushed := congrArg List.length hinv.pushed
    have hitems := congrArg List.length hrx.items
    have hconverted := Rx.length_converted (rxTrace tr)
    rw [List.length_append, List.length_map] at hpushed
    rw [List.length_append] at hitems
    omega

end Runs

/-- A packet of 97 bytes is looped back without its last byte, and silence goes out behind it. -/
def loopOnce : List LoopbackAct :=
  [.reapedRx 0 (Rx.packetOf 97 (by decide)), .pop, .push, .reapedTx 0 (ReapLoop.quiet _),
    .reapedTx 1 (ReapLoop.quiet _)]

theorem loopback_played_once :
    ∃ tr w, Trace loopbackSystem tr w ∧
      submitted tr = [List.replicate 96 1, List.replicate 96 0] ∧ w.tx.ring.xruns = 1 ∧
      Played tr w := by
  have hrun := Trace.start.exec
    (show loopbackSystem.exec LoopbackWorld.start loopOnce = some _ from rfl)
  have hplayed := loopback_played hrun
  exact ⟨_, _, hrun, hplayed.packets.trans (by decide +kernel), rfl, hplayed⟩

end Loopback

end Cm108Driver
