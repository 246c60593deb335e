import Cm108Driver.Hal.IsoStream

/-!
# Attribution — which slot a reaped completion is taken for

`onReaped` takes the reaped word for a slot index.  With the `usercontext` in that word the loop
serves exactly the slot whose URB completed; with the address of the URB, which is what Linux
stores, the index test fails and the completion is dropped.
-/

namespace Cm108Driver

open Lib

namespace ReapLoop

variable {packet : Nat} (L : ReapLoop packet) (word : ReapWord)

/-! ## What a run should show -/

/-- The completion `c` of slot `i` is served: the slot is resubmitted as `serve` says, and the other
slots are left alone. -/
structure Serves (w w' : LoopWorld packet) (i : Fin nUrbs) (c : Completion packet) : Prop where
  slot : w'.slots i = L.resubmit i (L.serve ((w.slots i).complete c) w.ring).1 true
  ring : w'.ring = (L.serve ((w.slots i).complete c) w.ring).2
  others : ∀ j, j ≠ i → w'.slots j = w.slots j

/-- Every reaped completion is served, and all slots are in flight after every iteration. -/
structure Attributed (tr : List (LoopWorld packet × LoopAct packet)) : Prop where
  served : ∀ w i c, (w, LoopAct.reaped i c) ∈ tr → L.Serves w (L.next word w (.reaped i c)) i c
  inFlight : ∀ p ∈ tr, ∀ j, ((L.next word p.1 p.2).slots j).inFlight = true

end ReapLoop

/-- The run reaps no completion at all. -/
def NoneReaped {packet : Nat} (tr : List (LoopWorld packet × LoopAct packet)) : Prop :=
  ∀ w i c, (w, LoopAct.reaped i c) ∉ tr

namespace ReapLoop

variable {packet : Nat} (L : ReapLoop packet)

/-! ## One iteration -/

@[simp] theorem resubmit_inFlight (i : Nat) (buf : Vector UInt8 packet) (succeeds : Bool) :
    (L.resubmit i buf succeeds).inFlight = succeeds := rfl

@[simp] theorem resubmit_usercontext (i : Nat) (buf : Vector UInt8 packet) (succeeds : Bool) :
    (L.resubmit i buf succeeds).urb.hdr.usercontext = UInt64.ofNat i :=
  L.tagged i

@[simp] theorem peer_slots (w : LoopWorld packet) (op : PeerOp) : (w.peer op).slots = w.slots := by
  cases op with
  | push f => rfl
  | pop =>
      unfold LoopWorld.peer
      cases w.ring.ring.pop with
      | none => rfl
      | some r => rfl

/-- A step is a move of the loop, and what it reaps was in flight. -/
theorem step_cases {word : ReapWord} {w t : LoopWorld packet} {a : LoopAct packet}
    (h : (L.system word).step w a = some t) :
    t = L.next word w a ∧ ∀ i c, a = .reaped i c → (w.slots i).inFlight = true := by
  cases a with
  | idle =>
      cases h
      exact ⟨rfl, fun i c ha => by cases ha⟩
  | peer op =>
      cases h
      exact ⟨rfl, fun i c ha => by cases ha⟩
  | reaped i c =>
      by_cases hflight : (w.slots i).inFlight = true
      · simp only [system, if_pos hflight, Option.some.injEq] at h
        refine ⟨h.symm, fun j c' ha => ?_⟩
        cases ha
        exact hflight
      · simp [system, hflight] at h

/-- A word beyond the slot indices: the completion is dropped and the slot stays with the loop. -/
theorem next_ignored {word : ReapWord} {w : LoopWorld packet} {i : Fin nUrbs}
    {c : Completion packet} (hword : nUrbs ≤ (word i (w.slots i).urb).toNat) :
    L.next word w (.reaped i c) = w.complete i c := by
  have hnot : ¬ (word i (w.slots i).urb).toNat < nUrbs := Nat.not_lt.2 hword
  rw [next, onReaped, dif_neg hnot]

/-- A dropped completion leaves its slot out of flight. -/
theorem next_ignored_inFlight {word : ReapWord} {w : LoopWorld packet} {i : Fin nUrbs}
    {c : Completion packet} (hword : nUrbs ≤ (word i (w.slots i).urb).toNat) :
    ((L.next word w (.reaped i c)).slots i).inFlight = false := by
  rw [L.next_ignored hword]
  simp [LoopWorld.complete, Slot.complete]

/-- A word that is the slot's own index: the slot is served. -/
theorem next_serves {word : ReapWord} {w : LoopWorld packet} {i : Fin nUrbs}
    {c : Completion packet} (hword : (word i (w.slots i).urb).toNat = i) :
    L.Serves w (L.next word w (.reaped i c)) i c := by
  have hlt : (word i (w.slots i).urb).toNat < nUrbs := by
    rw [hword]
    exact i.isLt
  have hslot : (⟨(word i (w.slots i).urb).toNat, hlt⟩ : Fin nUrbs) = i := Fin.ext hword
  have hnext : L.next word w (.reaped i c) = L.serveSlot (w.complete i c) i true := by
    rw [next, onReaped, dif_pos hlt, hslot]
  rw [hnext]
  constructor
  · simp [serveSlot, LoopWorld.complete]
  · simp [serveSlot, LoopWorld.complete]
  · intro j hj
    simp [serveSlot, LoopWorld.complete, hj]

/-! ## Whole runs -/

/-- All slots are in flight and carry their index. -/
def Full (w : LoopWorld packet) : Prop :=
  ∀ i, (w.slots i).inFlight = true ∧ (w.slots i).urb.hdr.usercontext = UInt64.ofNat i

theorem full_start : Full L.start := by
  intro i
  exact ⟨rfl, L.tagged i⟩

theorem Full.serves {w w' : LoopWorld packet} (h : Full w) {i : Fin nUrbs} {c : Completion packet}
    (hserves : L.Serves w w' i c) : Full w' := by
  intro j
  by_cases hj : j = i
  · subst hj
    rw [hserves.slot]
    exact ⟨rfl, L.tagged j⟩
  · rw [hserves.others j hj]
    exact h j

theorem Full.documented {w : LoopWorld packet} (h : Full w) (i : Fin nUrbs) :
    (documentedReap i (w.slots i).urb).toNat = i := by
  have hlt : (i : Nat) < 18446744073709551616 := Nat.lt_trans i.isLt (by decide)
  rw [documentedReap, (h i).2, UInt64.toNat_ofNat_of_lt' hlt]

/-- A move that reaps nothing keeps every slot. -/
theorem next_slots_of_not_reaped {word : ReapWord} {w : LoopWorld packet} {a : LoopAct packet}
    (h : ∀ i c, a ≠ .reaped i c) : (L.next word w a).slots = w.slots := by
  cases a with
  | reaped i c => exact absurd rfl (h i c)
  | idle => rfl
  | peer op => exact peer_slots w op

theorem Full.next_of_not_reaped {word : ReapWord} {w : LoopWorld packet} {a : LoopAct packet}
    (hw : Full w) (h : ∀ i c, a ≠ .reaped i c) : Full (L.next word w a) := by
  intro i
  rw [L.next_slots_of_not_reaped h]
  exact hw i

theorem Full.next_documented {w : LoopWorld packet} (hw : Full w) (a : LoopAct packet) :
    Full (L.next documentedReap w a) := by
  cases a with
  | reaped i c => exact hw.serves L (L.next_serves (hw.documented i))
  | idle => exact hw
  | peer op => exact hw.next_of_not_reaped L (by intro i c ha; cases ha)

theorem full_documented {tr : List (LoopWorld packet × LoopAct packet)} {w : LoopWorld packet}
    (h : Trace (L.system documentedReap) tr w) : Full w := by
  refine Trace.induct (P := fun _ w => Full w) L.full_start ?_ h
  intro tr s a t _ hs hstep
  rw [(L.step_cases hstep).1]
  exact hs.next_documented L a

/-- With the `usercontext` in the reaped word, every completion is attributed to its slot. -/
theorem attributed_documented {tr : List (LoopWorld packet × LoopAct packet)}
    {w : LoopWorld packet} (h : Trace (L.system documentedReap) tr w) :
    L.Attributed documentedReap tr := by
  have hfull : ∀ p ∈ tr, Full p.1 := by
    intro p hp
    rcases exists_prefix_of_mem hp with ⟨pre, hpre⟩
    exact L.full_documented (h.of_prefix hpre).1
  constructor
  · intro w i c hp
    exact L.next_serves ((hfull _ hp).documented i)
  · intro p hp j
    exact ((hfull p hp).next_documented L p.2 j).1

theorem full_of_noneReaped {word : ReapWord} {tr : List (LoopWorld packet × LoopAct packet)}
    {w : LoopWorld packet} (h : Trace (L.system word) tr w) (hnone : NoneReaped tr) : Full w := by
  refine h.guarded (C := fun _ a => ∀ i c, a ≠ .reaped i c) (P := fun _ w => Full w)
    L.full_start ?_ ?_
  · intro tr s a t _ hs ha hstep
    rw [(L.step_cases hstep).1]
    exact hs.next_of_not_reaped L ha
  · intro p hp i c ha
    apply hnone p.1 i c
    rwa [← ha]

/-- With words beyond the slot indices, only the runs that reap nothing are attributed. -/
theorem attributed_iff_noneReaped {word : ReapWord} (hword : ∀ i urb, nUrbs ≤ (word i urb).toNat)
    {tr : List (LoopWorld packet × LoopAct packet)} {w : LoopWorld packet}
    (h : Trace (L.system word) tr w) : L.Attributed word tr ↔ NoneReaped tr := by
  constructor
  · intro hattr w i c hp
    have hflight := hattr.inFlight _ hp i
    rw [L.next_ignored_inFlight (hword i _)] at hflight
    cases hflight
  · intro hnone
    constructor
    · intro w i c hp
      exact absurd hp (hnone w i c)
    · intro p hp j
      rcases exists_prefix_of_mem hp with ⟨pre, hpre⟩
      rcases h.of_prefix hpre with ⟨_, t, hstep, hafter⟩
      have hfull := L.full_of_noneReaped hafter fun w i c hmem => hnone w i c (hpre.subset hmem)
      rw [← (L.step_cases hstep).1]
      exact (hfull j).1

end ReapLoop

/-! ## The Linux interface -/

/-- An address is never a slot index. -/
theorem linuxReap_ge {addr : Fin nUrbs → UInt64} (haddr : ∀ i, 4096 ≤ (addr i).toNat)
    (i : Fin nUrbs) (urb : SingleIsoUrb) : nUrbs ≤ (linuxReap addr i urb).toNat :=
  Nat.le_trans (by decide) (haddr i)

/-- Under the Linux interface the RX loop and the TX loop attribute the completions of exactly
those runs that reap none. -/
theorem attributed_iff {addr : Fin nUrbs → UInt64} (haddr : ∀ i, 4096 ≤ (addr i).toNat) :
    (∀ {tr w}, Trace (rxLoop.system (linuxReap addr)) tr w →
      (rxLoop.Attributed (linuxReap addr) tr ↔ NoneReaped tr)) ∧
    (∀ {tr w}, Trace (txLoop.system (linuxReap addr)) tr w →
      (txLoop.Attributed (linuxReap addr) tr ↔ NoneReaped tr)) :=
  ⟨fun h => rxLoop.attributed_iff_noneReaped (linuxReap_ge haddr) h,
    fun h => txLoop.attributed_iff_noneReaped (linuxReap_ge haddr) h⟩

/-! ## The first completion is ignored -/

/-- Eight addresses of boxed URBs. -/
def boxAddr (i : Fin nUrbs) : UInt64 := 0x7f0000000000 + 128 * UInt64.ofNat i

theorem boxAddr_ge (i : Fin nUrbs) : 4096 ≤ (boxAddr i).toNat := by
  revert i
  decide

theorem boxAddr_injective : Function.Injective boxAddr := by
  intro i j
  revert i j
  decide

/-- A whole packet, received without error. -/
def goodPacket : Completion isoInPacket :=
  { status := 0
    errorCount := 0
    urbActualLength := 96
    actualLength := 96
    packetStatus := 0
    buf := Vector.replicate isoInPacket 1
    fits := by decide }

/-- One completion of slot 0. -/
def oneReap : List (LoopWorld isoInPacket × LoopAct isoInPacket) :=
  [(rxLoop.start, .reaped 0 goodPacket)]

theorem oneReap_trace :
    Trace (rxLoop.system (linuxReap boxAddr)) oneReap
      (rxLoop.next (linuxReap boxAddr) rxLoop.start (.reaped 0 goodPacket)) :=
  Trace.start.snoc rfl

/-- The exact condition, at that run. -/
theorem attributed_iff_oneReap :
    rxLoop.Attributed (linuxReap boxAddr) oneReap ↔ NoneReaped oneReap :=
  (attributed_iff boxAddr_ge).1 oneReap_trace

/-- The packet is dropped without a trace: nothing is pushed, no overrun is counted, and slot 0 is
never submitted again. -/
theorem attributed_fails :
    Function.Injective boxAddr ∧ (∀ i, 4096 ≤ (boxAddr i).toNat) ∧
      ∃ w, Trace (rxLoop.system (linuxReap boxAddr)) oneReap w ∧
        w.ring = CountedRing.empty ∧ (w.slots 0).inFlight = false ∧
        ¬ rxLoop.Attributed (linuxReap boxAddr) oneReap := by
  have hword := linuxReap_ge boxAddr_ge 0 (rxLoop.start.slots 0).urb
  refine ⟨boxAddr_injective, boxAddr_ge, _, oneReap_trace, ?_, ?_, ?_⟩
  · rw [rxLoop.next_ignored hword]
    rfl
  · exact rxLoop.next_ignored_inFlight hword
  · intro hattr
    have hflight := hattr.inFlight _ (List.mem_singleton_self _) 0
    rw [rxLoop.next_ignored_inFlight hword] at hflight
    cases hflight

end Cm108Driver
