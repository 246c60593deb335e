import Cm108Driver.Hal.Pcm
import Cm108Driver.Hal.Pool
import Cm108Driver.Server.Registry

/-!
# TxPipeline — from `AudioWrite` to the OUT packets

Every client's handler pushes the frames of an `AudioWrite` message one by one, holding the
`tx_producer` mutex from the first to the last; a frame that finds the ring full is dropped and
counted.  The TX thread pops one frame for every URB that it reaps, and sends silence, which it
counts in the same counter, when there is none.
-/

namespace Cm108Driver

open Lib

/-! ## The system -/

structure TxWorld where
  loop : LoopWorld isoOutPacket
  /-- Who has the mutex, and the frames of its message that are still to be pushed. -/
  holder : Option (ClientId × List AudioFrame)

inductive TxAct
  /-- The handler of a client gets the mutex for a message with these frames. -/
  | lock (id : ClientId) (frames : List AudioFrame)
  /-- The holder pushes its next frame. -/
  | push
  /-- Behind the last frame. -/
  | unlock
  /-- The TX loop reaps a URB, refills its buffer and submits it again. -/
  | reaped (i : Fin nUrbs) (c : Completion isoOutPacket)
  | idle

namespace TxWorld

def start : TxWorld :=
  { loop := txLoop.start
    holder := none }

def step (w : TxWorld) : TxAct → Option TxWorld
  | .lock id frames =>
      match w.holder with
      | none => some { w with holder := some (id, frames) }
      -- the handler waits in `tx_producer.lock()`
      | some _ => none
  | .push =>
      match w.holder with
      | some (id, f :: fs) =>
          some
            { loop := w.loop.peer (.push f)
              holder := some (id, fs) }
      | _ => none
  | .unlock =>
      match w.holder with
      | some (_, []) => some { w with holder := none }
      | _ => none
  | .reaped i c =>
      if (w.loop.slots i).inFlight then
        some { w with loop := txLoop.next documentedReap w.loop (.reaped i c) }
      else
        none
  | .idle => some w

end TxWorld

/-- The handlers that push and the TX loop, with the reap as documented. -/
def txSystem : System TxWorld TxAct where
  init := TxWorld.start
  step := TxWorld.step

abbrev TxTrace := List (TxWorld × TxAct)

/-- What a step can do. -/
inductive TxMove (w : TxWorld) : TxAct → TxWorld → Prop where
  | lock {id : ClientId} {frames : List AudioFrame} (hfree : w.holder = none) :
      TxMove w (.lock id frames) { w with holder := some (id, frames) }
  | push {id : ClientId} {f : AudioFrame} {fs : List AudioFrame}
      (hholder : w.holder = some (id, f :: fs)) :
      TxMove w .push
        { loop := w.loop.peer (.push f)
          holder := some (id, fs) }
  | unlock {id : ClientId} (hholder : w.holder = some (id, [])) :
      TxMove w .unlock { w with holder := none }
  | reaped {i : Fin nUrbs} {c : Completion isoOutPacket}
      (hflight : (w.loop.slots i).inFlight = true) :
      TxMove w (.reaped i c) { w with loop := txLoop.next documentedReap w.loop (.reaped i c) }
  | idle : TxMove w .idle w

theorem txMove_of_step {w t : TxWorld} {a : TxAct} (h : w.step a = some t) : TxMove w a t := by
  cases a with
  | lock id frames =>
      simp only [TxWorld.step] at h
      split at h
      · rename_i hfree
        cases h
        exact .lock hfree
      · cases h
  | push =>
      simp only [TxWorld.step] at h
      split at h
      · rename_i hholder
        cases h
        exact .push hholder
      · cases h
  | unlock =>
      simp only [TxWorld.step] at h
      split at h
      · rename_i hholder
        cases h
        exact .unlock hholder
      · cases h
  | reaped i c =>
      simp only [TxWorld.step] at h
      split at h
      · rename_i hflight
        cases h
        exact .reaped hflight
      · cases h
  | idle =>
      cases h
      exact .idle

namespace Tx

/-! ## Histories -/

def message? : TxAct → Option (ClientId × List AudioFrame)
  | .lock id frames => some (id, frames)
  | _ => none

/-- The messages, in the order in which their handlers got the mutex. -/
def messages (tr : TxTrace) : List (ClientId × List AudioFrame) :=
  tr.filterMap fun p => message? p.2

def push? (w : TxWorld) : TxAct → Option (AudioFrame × Bool)
  | .push =>
      match w.holder with
      | some (_, f :: _) => some (f, w.loop.ring.hasRoom)
      | _ => none
  | _ => none

/-- The frames that were pushed, each with whether the ring had room for it. -/
def pushes (tr : TxTrace) : List (AudioFrame × Bool) := tr.filterMap fun p => push? p.1 p.2

/-- The frames that went into the ring. -/
def enqueued (tr : TxTrace) : List AudioFrame := ((pushes tr).filter Prod.snd).map Prod.fst

/-- The number of frames dropped because the ring was full. -/
def dropped (tr : TxTrace) : Nat := (pushes tr).countP fun p => !p.2

def reap? (w : TxWorld) : TxAct → Option (Option AudioFrame)
  | .reaped _ _ => some w.loop.ring.ring.items.head?
  | _ => none

/-- What each reap found at the head of the ring. -/
def reaps (tr : TxTrace) : List (Option AudioFrame) := tr.filterMap fun p => reap? p.1 p.2

/-- The frames that the TX thread has popped. -/
def popped (tr : TxTrace) : List AudioFrame := (reaps tr).filterMap id

/-- The number of reaps that found the ring empty. -/
def silent (tr : TxTrace) : Nat := (reaps tr).countP Option.isNone

def submitted? (w : TxWorld) : TxAct → Option (List UInt8)
  | .reaped i c => some ((txLoop.next documentedReap w.loop (.reaped i c)).slots i).buf.toList
  | _ => none

/-- The buffers of the URBs, in the order in which they were submitted again. -/
def submitted (tr : TxTrace) : List (List UInt8) := tr.filterMap fun p => submitted? p.1 p.2

/-- The frames that the holder of the mutex has yet to push. -/
def unpushed (w : TxWorld) : List AudioFrame := (w.holder.map Prod.snd).getD []

/-- The bytes of a frame on the wire, silence if there is none. -/
def packetFor : Option AudioFrame → List UInt8
  | some f => bytesOf f.left
  | none => List.replicate isoOutPacket 0

section Histories

variable (tr : TxTrace) (w : TxWorld) (a : TxAct)

theorem messages_snoc : messages (tr ++ [(w, a)]) = messages tr ++ (message? a).toList :=
  filterMap_snoc _ tr (w, a)

theorem pushes_snoc : pushes (tr ++ [(w, a)]) = pushes tr ++ (push? w a).toList :=
  filterMap_snoc _ tr (w, a)

theorem reaps_snoc : reaps (tr ++ [(w, a)]) = reaps tr ++ (reap? w a).toList :=
  filterMap_snoc _ tr (w, a)

theorem submitted_snoc : submitted (tr ++ [(w, a)]) = submitted tr ++ (submitted? w a).toList :=
  filterMap_snoc _ tr (w, a)

end Histories

/-! ## One reap -/

section Reap

variable {w : LoopWorld isoOutPacket}

/-- The buffer that is submitted again depends on the ring alone, not on what was in it. -/
theorem buf_reaped (hw : ReapLoop.Full w) (i : Fin nUrbs) (c : Completion isoOutPacket) :
    ((txLoop.next documentedReap w (.reaped i c)).slots i).buf.toList =
      packetFor w.ring.ring.items.head? := by
  rw [(txLoop.next_serves (c := c) (hw.documented i)).slot]
  show (txLoop.serve ((w.slots i).complete c) w.ring).1.toList = _
  cases hitems : w.ring.ring.items with
  | nil =>
      simp [txLoop, CountedRing.pop_of_nil hitems, packetFor]
  | cons f fs =>
      rcases CountedRing.pop_of_cons hitems with ⟨hpop, _, _⟩
      simp only [txLoop]
      split
      · rename_i f' ring heq
        rw [heq] at hpop
        cases hpop
        exact toList_frameToMono f _
      · rename_i ring heq
        rw [heq] at hpop
        cases hpop

theorem ring_reaped (hw : ReapLoop.Full w) (i : Fin nUrbs) (c : Completion isoOutPacket) :
    (txLoop.next documentedReap w (.reaped i c)).ring = w.ring.pop.2 := by
  rw [(txLoop.next_serves (c := c) (hw.documented i)).ring]
  simp only [txLoop]
  split
  · rename_i heq
    rw [heq]
  · rename_i heq
    rw [heq]

end Reap

/-! ## Whole runs -/

structure TxInv (tr : TxTrace) (w : TxWorld) : Prop where
  full : ReapLoop.Full w.loop
  sent : submitted tr = (reaps tr).map packetFor
  items : popped tr ++ w.loop.ring.ring.items = enqueued tr
  xruns : w.loop.ring.xruns = UInt64.ofNat (silent tr + dropped tr)
  pushed : (pushes tr).map Prod.fst ++ unpushed w = (messages tr).flatMap Prod.snd

section Runs

variable {tr : TxTrace} {w t : TxWorld} {a : TxAct}

theorem txInv_start : TxInv [] TxWorld.start :=
  { full := txLoop.full_start
    sent := rfl
    items := rfl
    xruns := rfl
    pushed := rfl }

/-- A step that neither pushes nor reaps. -/
theorem TxInv.quiet (h : TxInv tr w) (hloop : t.loop = w.loop) (hpush : push? w a = none)
    (hreap : reap? w a = none) (hsubmitted : submitted? w a = none)
    (hpushed : (pushes tr).map Prod.fst ++ unpushed t =
      (messages (tr ++ [(w, a)])).flatMap Prod.snd) : TxInv (tr ++ [(w, a)]) t := by
  refine ⟨by rw [hloop]; exact h.full, ?_, ?_, ?_, ?_⟩
  · simpa [submitted_snoc, reaps_snoc, hsubmitted, hreap] using h.sent
  · simpa [popped, enqueued, reaps_snoc, pushes_snoc, hreap, hpush, hloop] using h.items
  · simpa [silent, dropped, reaps_snoc, pushes_snoc, hreap, hpush, hloop] using h.xruns
  · simpa [pushes_snoc, hpush] using hpushed

theorem TxInv.push (h : TxInv tr w) {id : ClientId} {f : AudioFrame} {fs : List AudioFrame}
    (hholder : w.holder = some (id, f :: fs)) :
    TxInv (tr ++ [(w, .push)])
      { loop := w.loop.peer (.push f)
        holder := some (id, fs) } := by
  have hpush : push? w .push = some (f, w.loop.ring.hasRoom) := by simp [push?, hholder]
  have hring : (w.loop.peer (.push f)).ring = w.loop.ring.push f := rfl
  have hpushed := h.pushed
  simp only [unpushed, hholder, Option.map_some, Option.getD_some] at hpushed
  refine ⟨h.full, ?_, ?_, ?_, ?_⟩
  · simpa [submitted_snoc, reaps_snoc, submitted?, reap?] using h.sent
  · -- the frame goes behind the others, or nowhere
    have hitems := h.items
    simp only [enqueued] at hitems
    cases hroom : w.loop.ring.hasRoom with
    | true =>
        simp [popped, enqueued, reaps_snoc, pushes_snoc, reap?, hpush, hring,
          CountedRing.items_push, hroom, ← hitems]
    | false =>
        simpa [popped, enqueued, reaps_snoc, pushes_snoc, reap?, hpush, hring,
          CountedRing.items_push, hroom] using hitems
  · -- the counter goes up by one exactly when the frame is dropped
    have hxruns := h.xruns
    simp only [silent, dropped] at hxruns
    cases hroom : w.loop.ring.hasRoom with
    | true =>
        simpa [silent, dropped, reaps_snoc, pushes_snoc, reap?, hpush, hring,
          CountedRing.xruns_push, hroom] using hxruns
    | false =>
        simp [silent, dropped, reaps_snoc, pushes_snoc, reap?, hpush, hring,
          CountedRing.xruns_push, hroom, hxruns, UInt64.add_assoc]
  · simp [pushes_snoc, messages_snoc, hpush, message?, unpushed, hpushed]

theorem TxInv.reaped (h : TxInv tr w) (i : Fin nUrbs) (c : Completion isoOutPacket) :
    TxInv (tr ++ [(w, .reaped i c)])
      { w with loop := txLoop.next documentedReap w.loop (.reaped i c) } := by
  have hring := ring_reaped h.full i c
  have hitems := h.items
  have hxruns := h.xruns
  simp only [popped] at hitems
  simp only [silent, dropped] at hxruns
  refine ⟨h.full.next_documented txLoop (.reaped i c), ?_, ?_, ?_, ?_⟩
  · -- the buffer is filled before it is submitted again
    rw [submitted_snoc, reaps_snoc, h.sent]
    simp [submitted?, reap?, buf_reaped h.full]
  · cases hhead : w.loop.ring.ring.items with
    | nil =>
        rw [hhead] at hitems
        simpa [popped, enqueued, reaps_snoc, pushes_snoc, reap?, push?, hring,
          CountedRing.pop_of_nil hhead, hhead] using hitems
    | cons f fs =>
        rcases CountedRing.pop_of_cons hhead with ⟨_, hrest, _⟩
        rw [hhead] at hitems
        simpa [popped, enqueued, reaps_snoc, pushes_snoc, reap?, push?, hring, hrest, hhead]
          using hitems
  · cases hhead : w.loop.ring.ring.items with
    | nil =>
        -- silence is sent, and counted with the drops
        simp [silent, dropped, reaps_snoc, pushes_snoc, reap?, push?, hring,
          CountedRing.pop_of_nil hhead, hhead, hxruns]
        rw [UInt64.add_assoc, UInt64.add_comm _ 1, UInt64.add_assoc]
    | cons f fs =>
        rcases CountedRing.pop_of_cons hhead with ⟨_, _, hcount⟩
        simpa [silent, dropped, reaps_snoc, pushes_snoc, reap?, push?, hring, hcount, hhead]
          using hxruns
  · simpa [pushes_snoc, messages_snoc, push?, message?, unpushed] using h.pushed

theorem txInv_of_trace (h : Trace txSystem tr w) : TxInv tr w := by
  induction h with
  | start => exact txInv_start
  | snoc htr hstep ih =>
      rename_i tr w t a
      have hpushed := ih.pushed
      cases txMove_of_step hstep with
      | lock hfree =>
          refine ih.quiet rfl rfl rfl rfl ?_
          simp only [unpushed, hfree, Option.map_none, Option.getD_none, List.append_nil] at hpushed
          simp [unpushed, messages_snoc, message?, hpushed]
      | push hholder => exact ih.push hholder
      | unlock hholder =>
          refine ih.quiet rfl rfl rfl rfl ?_
          simp only [unpushed, hholder, Option.map_some, Option.getD_some] at hpushed
          simpa [unpushed, messages_snoc, message?] using hpushed
      | reaped hflight => exact ih.reaped _ _
      | idle =>
          refine ih.quiet rfl rfl rfl rfl ?_
          simpa [messages_snoc, message?] using hpushed

/-! ## Blocks -/

/-- Of pieces pushed one after the other, those that had room are again pieces one after the other,
each a part of its own. -/
theorem exists_blocks {α : Type} {ps : List (α × Bool)} {rest : List α} {ms : List (List α)}
    (h : ps.map Prod.fst ++ rest = ms.flatten) :
    ∃ blocks : List (List α), (ps.filter Prod.snd).map Prod.fst = blocks.flatten ∧
      List.Forall₂ List.Sublist blocks ms := by
  induction ms generalizing ps rest with
  | nil =>
      have hps : ps = [] := by
        have hnil := (List.append_eq_nil_iff.1 h).1
        simpa using hnil
      subst hps
      exact ⟨[], rfl, .nil⟩
  | cons m ms ih =>
      -- the pushes of the first piece, and those of the pieces behind it
      have hsplit : (ps.take m.length).map Prod.fst <+: m ∧
          ∃ rest', (ps.drop m.length).map Prod.fst ++ rest' = ms.flatten := by
        rw [List.flatten_cons] at h
        rw [List.map_take, List.map_drop]
        rcases List.append_eq_append_iff.1 h with ⟨d, hm, hrest⟩ | ⟨d, hps, hms⟩
        · have hle : (ps.map Prod.fst).length ≤ m.length := by simp [hm]
          rw [List.take_of_length_le hle, List.drop_eq_nil_of_le hle]
          exact ⟨⟨d, hm.symm⟩, ms.flatten, rfl⟩
        · rw [hps, List.take_left' rfl, List.drop_left' rfl]
          exact ⟨List.prefix_rfl, rest, hms.symm⟩
      rcases hsplit with ⟨hfirst, rest', hothers⟩
      rcases ih hothers with ⟨blocks, hblocks, hsub⟩
      refine ⟨((ps.take m.length).filter Prod.snd).map Prod.fst :: blocks, ?_, .cons ?_ hsub⟩
      · rw [List.flatten_cons, ← hblocks, ← List.map_append, ← List.filter_append,
          List.take_append_drop]
      · exact (List.Sublist.map Prod.fst List.filter_sublist).trans hfirst.sublist

/-- What the ring is offered, and what it takes. -/
structure Offered (tr : TxTrace) (w : TxWorld) : Prop where
  /-- The frames of one message are pushed behind those of the other. -/
  inTurn : (pushes tr).map Prod.fst ++ unpushed w = (messages tr).flatMap Prod.snd
  /-- The ring has no room for a frame, which is dropped, exactly when it holds 64. -/
  full : ∀ p ∈ tr, p.1.loop.ring.hasRoom = false ↔ p.1.loop.ring.ring.items.length = 64
  blocks : ∃ blocks : List (List AudioFrame), enqueued tr = blocks.flatten ∧
    List.Forall₂ List.Sublist blocks ((messages tr).map Prod.snd)

theorem offered_of_trace (h : Trace txSystem tr w) : Offered tr w where
  inTurn := (txInv_of_trace h).pushed
  full := fun p _ => CountedRing.hasRoom_eq_false p.1.loop.ring
  blocks := exists_blocks (by rw [(txInv_of_trace h).pushed, List.flatMap_def])

/-- Frames that were pushed either went into the ring or were dropped. -/
theorem length_pushes (tr : TxTrace) :
    (pushes tr).length = (enqueued tr).length + dropped tr := by
  calc
    (pushes tr).length = (pushes tr).countP Prod.snd + dropped tr := by
        simpa [dropped] using List.length_eq_countP_add_countP (l := pushes tr) Prod.snd
    _ = (enqueued tr).length + dropped tr := by
        rw [enqueued, List.length_map, List.countP_eq_length_filter]

/-! ## Conservation -/

/-- Behind the silent packets of the start, the OUT packets are the frames that went into the ring,
in this order, with silence exactly where a reap found the ring empty; the frames of one message
stay together and in order; and between messages the counter and the frames add up. -/
theorem tx_conserved (h : Trace txSystem tr w) :
    (∀ i, (TxWorld.start.loop.slots i).buf.toList = List.replicate isoOutPacket 0) ∧
      submitted tr = (reaps tr).map packetFor ∧
      popped tr ++ w.loop.ring.ring.items = enqueued tr ∧
      (∃ blocks : List (List AudioFrame), enqueued tr = blocks.flatten ∧
        List.Forall₂ List.Sublist blocks ((messages tr).map Prod.snd)) ∧
      (w.holder = none →
        w.loop.ring.xruns = UInt64.ofNat (silent tr + dropped tr) ∧
        ((messages tr).map fun m => m.2.length).sum =
          (popped tr).length + w.loop.ring.ring.items.length + dropped tr) := by
  have hinv := txInv_of_trace h
  have hpushed : (pushes tr).map Prod.fst ++ unpushed w = ((messages tr).map Prod.snd).flatten := by
    rw [hinv.pushed, List.flatMap_def]
  refine ⟨fun i => Vector.toList_replicate, hinv.sent, hinv.items, exists_blocks hpushed, ?_⟩
  intro hfree
  refine ⟨hinv.xruns, ?_⟩
  have hall : (pushes tr).length = ((messages tr).map fun m => m.2.length).sum := by
    have hlen := congrArg List.length hpushed
    simpa [unpushed, hfree, List.length_flatten, Function.comp_def] using hlen
  have hitems := congrArg List.length hinv.items
  rw [List.length_append] at hitems
  calc
    ((messages tr).map fun m => m.2.length).sum = (pushes tr).length := hall.symm
    _ = (enqueued tr).length + dropped tr := length_pushes tr
    _ = (popped tr).length + w.loop.ring.ring.items.length + dropped tr := by
        rw [hitems]

end Runs

/-- A frame all of whose samples are 258. -/
def tone : AudioFrame :=
  { samples := Vector.replicate (samplesPerFrame * 2) 258 }

theorem packetFor_tone : packetFor (some tone) = (List.replicate 48 [2, 1]).flatten := by
  decide

/-- A client sends one frame, and the TX loop reaps two URBs. -/
def oneFrame : List TxAct :=
  [.lock 1 [tone], .push, .unlock, .reaped 0 (ReapLoop.quiet _), .reaped 1 (ReapLoop.quiet _)]

theorem tx_conserved_oneFrame :
    ∃ w, txSystem.exec TxWorld.start oneFrame = some w ∧
      submitted (txSystem.steps TxWorld.start oneFrame) =
        [(List.replicate 48 [2, 1]).flatten, List.replicate 96 0] ∧
      w.loop.ring.xruns = 1 := by
  have hexec : txSystem.exec TxWorld.start oneFrame = some _ := rfl
  have hconserved := tx_conserved (Trace.start.exec hexec)
  refine ⟨_, hexec, hconserved.2.1.trans ?_, (hconserved.2.2.2.2 rfl).1⟩
  show [packetFor (some tone), packetFor none] = _
  rw [packetFor_tone]
  rfl

end Tx

end Cm108Driver
