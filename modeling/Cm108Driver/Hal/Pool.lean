import Cm108Driver.Hal.Attribution

/-!
# Pool — the URBs in flight when ioctls fail

Either ioctl of a reap loop can fail.  A failed reap leaves everything as it is.  A failed resubmit
is logged, and the loop goes on; the slot is then with the program, and since a slot is visited only
when the kernel hands its URB back, it is never submitted again.
-/

namespace Cm108Driver

open Lib

/-! ## The loop with failing ioctls -/

inductive IoctlAct (packet : Nat)
  /-- The URB at slot `i` is reaped and served, and its resubmit succeeds or fails. -/
  | reaped (i : Fin nUrbs) (c : Completion packet) (submitted : Bool)
  /-- `WouldBlock`: nothing to reap. -/
  | wouldBlock
  /-- `REAPURBNDELAY` fails otherwise. -/
  | reapFails
  | peer (op : PeerOp)

namespace ReapLoop

variable {packet : Nat} (L : ReapLoop packet)

/-- The loop behind its initial submits, with the reap as documented. -/
def ioctlSystem : System (LoopWorld packet) (IoctlAct packet) where
  init := L.start
  step w a :=
    match a with
    | .reaped i c submitted =>
        if (w.slots i).inFlight then
          some (L.onReaped (w.complete i c) (documentedReap i (w.slots i).urb) submitted)
        else
          none
    -- both only put the thread to sleep
    | .wouldBlock => some w
    | .reapFails => some w
    | .peer op => some (w.peer op)

end ReapLoop

abbrev IoctlTrace (packet : Nat) := List (LoopWorld packet × IoctlAct packet)

/-- No ioctl fails, other than with `WouldBlock`. -/
def NoIoctlFails {packet : Nat} (_ : LoopWorld packet) : IoctlAct packet → Prop
  | .reaped _ _ submitted => submitted = true
  | .reapFails => False
  | _ => True

/-- The step is not a resubmit that fails. -/
def ResubmitSucceeds {packet : Nat} (_ : LoopWorld packet) : IoctlAct packet → Prop
  | .reaped _ _ submitted => submitted = true
  | _ => True

theorem ResubmitSucceeds.of_noIoctlFails {packet : Nat} {w : LoopWorld packet}
    {a : IoctlAct packet} (h : NoIoctlFails w a) : ResubmitSucceeds w a := by
  cases a with
  | reaped i c submitted => exact h
  | wouldBlock => trivial
  | reapFails => trivial
  | peer op => trivial

/-- Every URB that is in flight in `w` is reaped at least once. -/
def AllReaped {packet : Nat} (w : LoopWorld packet) (tr : IoctlTrace packet) : Prop :=
  ∀ i, (w.slots i).inFlight = true → ∃ w' c submitted, (w', IoctlAct.reaped i c submitted) ∈ tr

/-- All slots are with the kernel. -/
def AllInFlight {packet : Nat} (w : LoopWorld packet) : Prop :=
  ∀ i, (w.slots i).inFlight = true

namespace ReapLoop

section Pool

variable {packet : Nat} (L : ReapLoop packet) {tr : IoctlTrace packet} {w t : LoopWorld packet}
  {a : IoctlAct packet}

/-! ## One slot -/

/-- A failed resubmit of the slot `i`. -/
def failsAt (i : Fin nUrbs) (p : LoopWorld packet × IoctlAct packet) : Prop :=
  ∃ c, p.2 = .reaped i c false

/-- Every slot carries its index, and a slot is in flight unless a resubmit of it has failed. -/
structure PoolInv (tr : IoctlTrace packet) (w : LoopWorld packet) : Prop where
  tagged : ∀ i, (w.slots i).urb.hdr.usercontext = UInt64.ofNat i
  inFlight : ∀ i, (w.slots i).inFlight = true ↔ ∀ p ∈ tr, ¬ failsAt i p

/-- With the slot's own index reaped, exactly this slot is served. -/
theorem onReaped_tagged {i : Fin nUrbs} {c : Completion packet} {submitted : Bool}
    (htag : (w.slots i).urb.hdr.usercontext = UInt64.ofNat i) :
    L.onReaped (w.complete i c) (documentedReap i (w.slots i).urb) submitted =
      L.serveSlot (w.complete i c) i submitted := by
  have hlt : (i : Nat) < 18446744073709551616 := Nat.lt_trans i.isLt (by decide)
  have hword : (documentedReap i (w.slots i).urb).toNat = i := by
    rw [documentedReap, htag, UInt64.toNat_ofNat_of_lt' hlt]
  have hslot : (documentedReap i (w.slots i).urb).toNat < nUrbs := by
    rw [hword]
    exact i.isLt
  have hfin : (⟨(documentedReap i (w.slots i).urb).toNat, hslot⟩ : Fin nUrbs) = i := Fin.ext hword
  rw [onReaped, dif_pos hslot, hfin]

theorem serveSlot_self (i : Fin nUrbs) (c : Completion packet) (submitted : Bool) :
    ((L.serveSlot (w.complete i c) i submitted).slots i).inFlight = submitted ∧
      ((L.serveSlot (w.complete i c) i submitted).slots i).urb.hdr.usercontext =
        UInt64.ofNat i := by
  simp [serveSlot]

theorem serveSlot_other {i j : Fin nUrbs} (hj : j ≠ i) (c : Completion packet)
    (submitted : Bool) :
    (L.serveSlot (w.complete i c) i submitted).slots j = w.slots j := by
  simp [serveSlot, LoopWorld.complete, hj]

/-- A step that reaps nothing adds no failure and leaves the slots alone. -/
theorem PoolInv.quiet (h : PoolInv tr w) (hslots : t.slots = w.slots)
    (hnot : ∀ i c, a ≠ .reaped i c false) : PoolInv (tr ++ [(w, a)]) t := by
  refine ⟨fun i => by rw [hslots]; exact h.tagged i, fun i => ?_⟩
  have hlast : ¬ failsAt i (w, a) := fun ⟨c, hc⟩ => hnot i c hc
  rw [hslots, h.inFlight i]
  simp [or_imp, forall_and, hlast]

/-- The slot reaped is in flight again exactly if its resubmit succeeds, and no other is touched. -/
theorem PoolInv.reaped (h : PoolInv tr w) {i : Fin nUrbs} (c : Completion packet)
    (submitted : Bool) (hflight : (w.slots i).inFlight = true) :
    PoolInv (tr ++ [(w, .reaped i c submitted)]) (L.serveSlot (w.complete i c) i submitted) := by
  have hself := L.serveSlot_self (w := w) i c submitted
  constructor
  · intro j
    by_cases hj : j = i
    · rw [hj]
      exact hself.2
    · rw [L.serveSlot_other hj]
      exact h.tagged j
  · intro j
    by_cases hj : j = i
    · subst hj
      -- the slot reaped is in flight again unless this resubmit fails
      have hsofar := (h.inFlight j).1 hflight
      rw [hself.1]
      cases submitted with
      | true =>
          have hlast : ¬ failsAt j (w, .reaped j c true) := by simp [failsAt]
          simpa [or_imp, forall_and, hlast] using hsofar
      | false =>
          have hlast : failsAt j (w, .reaped j c false) := ⟨c, rfl⟩
          simp only [Bool.false_eq_true, false_iff]
          intro hall
          exact hall _ (by simp) hlast
    · have hlast : ¬ failsAt j (w, .reaped i c submitted) := by
        -- and the step says nothing about the others
        rintro ⟨c', hc'⟩
        cases hc'
        exact hj rfl
      rw [L.serveSlot_other hj, h.inFlight j]
      simp [or_imp, forall_and, hlast]

theorem PoolInv.step (h : PoolInv tr w) (hstep : L.ioctlSystem.step w a = some t) :
    PoolInv (tr ++ [(w, a)]) t := by
  cases a with
  | wouldBlock =>
      cases hstep
      exact h.quiet rfl (by intro i c ha; cases ha)
  | reapFails =>
      cases hstep
      exact h.quiet rfl (by intro i c ha; cases ha)
  | peer op =>
      cases hstep
      exact h.quiet (peer_slots w op) (by intro i c ha; cases ha)
  | reaped i c submitted =>
      by_cases hflight : (w.slots i).inFlight = true
      · simp only [ioctlSystem, if_pos hflight, Option.some.injEq] at hstep
        -- the usercontext names slot `i`
        rw [L.onReaped_tagged (h.tagged i)] at hstep
        subst hstep
        exact h.reaped L c submitted hflight
      · simp [ioctlSystem, hflight] at hstep

theorem poolInv_of_trace (h : Trace L.ioctlSystem tr w) : PoolInv tr w := by
  induction h with
  | start => exact ⟨fun i => L.tagged i, fun i => ⟨fun _ p hp => (by cases hp), fun _ => rfl⟩⟩
  | snoc htr hstep ih => exact ih.step L hstep

/-! ## A quiet stretch -/

theorem allInFlight_iff (h : Trace L.ioctlSystem tr w) :
    AllInFlight w ↔ Guarded ResubmitSucceeds tr := by
  have hinv := L.poolInv_of_trace h
  constructor
  · rintro hall ⟨w', a⟩ hp
    cases a with
    | reaped i c submitted =>
        cases submitted with
        | true => rfl
        | false => exact absurd ⟨c, rfl⟩ ((hinv.inFlight i).1 (hall i) _ hp)
    | wouldBlock => trivial
    | reapFails => trivial
    | peer op => trivial
  · intro hguard i
    refine (hinv.inFlight i).2 ?_
    rintro ⟨w', a⟩ hp ⟨c, ha⟩
    simp only at ha
    subst ha
    exact absurd (hguard _ hp) (by simp [ResubmitSucceeds])

/-- A slot in flight stays so as long as nothing fails. -/
theorem inFlight_of_quiet (h : Trace L.ioctlSystem tr w) {tr' : IoctlTrace packet}
    (h' : Trace L.ioctlSystem (tr ++ tr') t) (hquiet : Guarded NoIoctlFails tr') {i : Fin nUrbs}
    (hflight : (w.slots i).inFlight = true) : (t.slots i).inFlight = true := by
  refine ((L.poolInv_of_trace h').inFlight i).2 ?_
  intro p hp
  rcases List.mem_append.1 hp with hold | hnew
  · exact ((L.poolInv_of_trace h).inFlight i).1 hflight p hold
  · rintro ⟨c, hc⟩
    have hsucc := hquiet p hnew
    rw [hc] at hsucc
    exact absurd hsucc (by simp [NoIoctlFails])

/-- A transfer that brings nothing. -/
def quiet (packet : Nat) : Completion packet :=
  { status := 0
    errorCount := 0
    urbActualLength := 0
    actualLength := 0
    packetStatus := 0
    buf := Vector.replicate packet 0
    fits := by simp }

/-- From every state reached, the URBs in flight can all complete and be reaped without a
failure. -/
theorem exists_allReaped (h : Trace L.ioctlSystem tr w) :
    ∃ tr' w', Trace L.ioctlSystem (tr ++ tr') w' ∧ Guarded NoIoctlFails tr' ∧ AllReaped w tr' := by
  -- one slot after the other; a reap with a successful resubmit leaves the others in flight
  have hslots : ∀ l : List (Fin nUrbs), ∃ tr' w', Trace L.ioctlSystem (tr ++ tr') w' ∧
      Guarded NoIoctlFails tr' ∧ ∀ i ∈ l, (w.slots i).inFlight = true →
        ∃ w'' c submitted, (w'', IoctlAct.reaped i c submitted) ∈ tr' := by
    intro l
    induction l with
    | nil => exact ⟨[], w, by simpa using h, guarded_nil _, by simp⟩
    | cons i l ih =>
        rcases ih with ⟨tr', w', htr', hquiet, hreaped⟩
        by_cases hflight : (w.slots i).inFlight = true
        · have hstill := L.inFlight_of_quiet h htr' hquiet hflight
          have hstep : L.ioctlSystem.step w' (.reaped i (quiet packet) true) =
              some (L.onReaped (w'.complete i (quiet packet))
                (documentedReap i (w'.slots i).urb) true) := by
            simp [ioctlSystem, hstill]
          have hnext := htr'.snoc hstep
          rw [List.append_assoc] at hnext
          refine ⟨_, _, hnext, ?_, ?_⟩
          · exact (guarded_snoc _ _ _ _).2 ⟨hquiet, rfl⟩
          · intro j hj hfl
            by_cases hji : j = i
            · subst hji
              exact ⟨w', quiet packet, true, by simp⟩
            · rcases hreaped j (by simpa [hji] using hj) hfl with ⟨w'', c, submitted, hmem⟩
              exact ⟨w'', c, submitted, by simp [hmem]⟩
        · refine ⟨tr', w', htr', hquiet, ?_⟩
          intro j hj hfl
          rcases List.mem_cons.1 hj with rfl | hj
          · exact absurd hfl hflight
          · exact hreaped j hj hfl
  rcases hslots (List.finRange nUrbs) with ⟨tr', w', htr', hquiet, hreaped⟩
  exact ⟨tr', w', htr', hquiet, fun i => hreaped i (List.mem_finRange i)⟩

/-- What the pool promises from a point of a run on: as long as no ioctl fails any more, all slots
are in flight once every URB that was in flight has been reaped. -/
def Recovers (tr : IoctlTrace packet) (w : LoopWorld packet) : Prop :=
  ∀ tr' w', Trace L.ioctlSystem (tr ++ tr') w' → Guarded NoIoctlFails tr' → AllReaped w tr' →
    AllInFlight w'

end Pool

end ReapLoop

/-- From a point of a run on the pool of a loop, RX or TX, is full again after a quiet stretch,
exactly if no resubmit has failed before. -/
theorem pool_recovers_iff {packet : Nat} (L : ReapLoop packet) {tr : IoctlTrace packet}
    {w : LoopWorld packet} (h : Trace L.ioctlSystem tr w) :
    L.Recovers tr w ↔ Guarded ResubmitSucceeds tr := by
  constructor
  · -- the promise, kept in one quiet stretch, says that all resubmits so far succeeded
    intro hrec
    rcases L.exists_allReaped h with ⟨tr', w', htr', hquiet, hreaped⟩
    have hall := hrec tr' w' htr' hquiet hreaped
    exact ((guarded_append _ _ _).1 ((L.allInFlight_iff htr').1 hall)).1
  · intro hguard tr' w' htr' hquiet _
    refine (L.allInFlight_iff htr').2 ((guarded_append _ _ _).2 ⟨hguard, ?_⟩)
    exact fun p hp => ResubmitSucceeds.of_noIoctlFails (hquiet p hp)

/-! ## One failed resubmit -/

/-- Slot 0 completes, and its resubmit fails. -/
def oneFailure : IoctlTrace isoInPacket :=
  [(rxLoop.start, .reaped 0 goodPacket false)]

theorem oneFailure_trace : Trace rxLoop.ioctlSystem oneFailure
    (rxLoop.onReaped (rxLoop.start.complete 0 goodPacket)
      (documentedReap 0 (rxLoop.start.slots 0).urb) false) :=
  Trace.start.snoc rfl

theorem pool_recovers_iff_oneFailure :
    rxLoop.Recovers oneFailure (rxLoop.onReaped (rxLoop.start.complete 0 goodPacket)
      (documentedReap 0 (rxLoop.start.slots 0).urb) false) ↔
      Guarded ResubmitSucceeds oneFailure :=
  pool_recovers_iff rxLoop oneFailure_trace

/-- After one failed resubmit, seven URBs complete and are resubmitted; the eighth slot stays
away. -/
theorem slot_lost :
    ∃ tr w tr' w', Trace rxLoop.ioctlSystem tr w ∧ Trace rxLoop.ioctlSystem (tr ++ tr') w' ∧
      Guarded NoIoctlFails tr' ∧ AllReaped w tr' ∧ ¬ AllInFlight w' := by
  rcases rxLoop.exists_allReaped oneFailure_trace with ⟨tr', w', htr', hquiet, hreaped⟩
  refine ⟨oneFailure, _, tr', w', oneFailure_trace, htr', hquiet, hreaped, ?_⟩
  intro hall
  have hguard := (rxLoop.allInFlight_iff htr').1 hall
  have hfirst := hguard (rxLoop.start, .reaped 0 goodPacket false) (by simp [oneFailure])
  exact absurd hfirst (by simp [ResubmitSucceeds])

end Cm108Driver
