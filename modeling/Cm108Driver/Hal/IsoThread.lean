import Cm108Driver.Hal.Pool

/-!
# IsoThread — the RX and TX threads from their spawn on

`IsoStream::start` spawns both threads and returns.  Each thread opens the device node, claims its
interface, selects the alternate setting and submits its URBs one by one; the first of these calls
that fails ends the thread, with a warning in the log and nothing else.  Closing the device node
takes back the URBs that were submitted.

A thread that gets through is in a run of `ioctlSystem` from then on.  For the thread at the other
end of the ring one that does not get through looks like one that is late.
-/

namespace Cm108Driver

open Lib

/-! ## The system -/

inductive IsoPc
  | opening
  | claiming
  | settingInterface
  /-- At the initial submit of a slot. -/
  | submitting (i : Fin nUrbs)
  | looping
  /-- The closure has returned. -/
  | over

structure IsoThread (packet : Nat) where
  pc : IsoPc
  loop : LoopWorld packet

inductive IsoAct (packet : Nat)
  | openUsbfs (ok : Bool)
  | claimInterface (ok : Bool)
  | setInterface (ok : Bool)
  | submitUrb (ok : Bool)
  /-- A step of the loop, or of the thread at the other end of the ring. -/
  | ioctl (a : IoctlAct packet)

/-- `std::mem::zeroed`, with a zeroed buffer. -/
def Slot.zeroed (packet : Nat) : Slot packet :=
  { urb :=
      { hdr :=
          { typ := 0
            endpoint := 0
            status := 0
            flags := 0
            bufferLength := 0
            actualLength := 0
            startFrame := 0
            numberOfPackets := 0
            errorCount := 0
            signr := 0
            usercontext := 0 }
        pkt :=
          { length := 0
            actualLength := 0
            status := 0 } }
    buf := Vector.replicate packet 0
    inFlight := false }

namespace IsoThread

variable {packet : Nat}

def start (packet : Nat) : IsoThread packet :=
  { pc := .opening
    loop :=
      { slots := fun _ => Slot.zeroed packet
        ring := CountedRing.empty } }

/-- The closure returns: the device node is closed, and the kernel gives up its URBs. -/
def quit (w : IsoThread packet) : IsoThread packet :=
  { pc := .over
    loop :=
      { w.loop with slots := fun i => { w.loop.slots i with inFlight := false } } }

/-- Go on behind a call of the setup that succeeds. -/
def orQuit (w : IsoThread packet) (ok : Bool) (pc : IsoPc) : IsoThread packet :=
  if ok then { w with pc := pc } else w.quit

def behindSubmit (i : Fin nUrbs) : IsoPc :=
  if h : i.val + 1 < nUrbs then .submitting ⟨i.val + 1, h⟩ else .looping

def step (L : ReapLoop packet) (w : IsoThread packet) : IsoAct packet → Option (IsoThread packet)
  | .openUsbfs ok =>
      match w.pc with
      | .opening => some (w.orQuit ok .claiming)
      | _ => none
  | .claimInterface ok =>
      match w.pc with
      | .claiming => some (w.orQuit ok .settingInterface)
      | _ => none
  | .setInterface ok =>
      match w.pc with
      | .settingInterface => some (w.orQuit ok (.submitting 0))
      | _ => none
  | .submitUrb ok =>
      match w.pc with
      | .submitting i =>
          let submitted : IsoThread packet :=
            { w with
              loop :=
                { w.loop with
                  slots := Function.update w.loop.slots i (L.resubmit i (w.loop.slots i).buf ok) } }
          some (submitted.orQuit ok (behindSubmit i))
      | _ => none
  | .ioctl (.peer op) => some { w with loop := w.loop.peer op }
  | .ioctl a =>
      match w.pc with
      | .looping => (L.ioctlSystem.step w.loop a).map fun loop => { w with loop := loop }
      | _ => none

end IsoThread

/-- A thread with the given loop, from its spawn on. -/
def isoThreadSystem {packet : Nat} (L : ReapLoop packet) :
    System (IsoThread packet) (IsoAct packet) where
  init := IsoThread.start packet
  step := IsoThread.step L

abbrev IsoThreadTrace (packet : Nat) := List (IsoThread packet × IsoAct packet)

/-! ## One step -/

/-- The number of URBs submitted, in a thread that is setting itself up. -/
def IsoPc.submitted? : IsoPc → Option Nat
  | .opening => some 0
  | .claiming => some 0
  | .settingInterface => some 0
  | .submitting i => some i
  | .looping => none
  | .over => none

/-- A call of the setup that fails. -/
def IsoAct.fails {packet : Nat} : IsoAct packet → Bool
  | .openUsbfs ok => !ok
  | .claimInterface ok => !ok
  | .setInterface ok => !ok
  | .submitUrb ok => !ok
  | .ioctl _ => false

/-- A step of the thread's loop. -/
def IsoAct.inLoop {packet : Nat} : IsoAct packet → Bool
  | .ioctl (.peer _) => false
  | .ioctl _ => true
  | _ => false

/-- What a step can do. -/
inductive IsoMove {packet : Nat} (L : ReapLoop packet) (w : IsoThread packet) :
    IsoAct packet → IsoThread packet → Prop where
  /-- At any time. -/
  | peer (op : PeerOp) : IsoMove L w (.ioctl (.peer op)) { w with loop := w.loop.peer op }
  | prepare {a : IsoAct packet} {pc : IsoPc} (hpc : w.pc.submitted? = some 0)
      (hnext : pc.submitted? = some 0) (hgood : a.fails = false) (hsetup : ∀ b, a ≠ .ioctl b) :
      IsoMove L w a { w with pc := pc }
  | submit {i : Fin nUrbs} (hpc : w.pc = .submitting i) :
      IsoMove L w (.submitUrb true)
        { pc := IsoThread.behindSubmit i
          loop :=
            { w.loop with
              slots := Function.update w.loop.slots i (L.resubmit i (w.loop.slots i).buf true) } }
  | fail {a : IsoAct packet} {v : IsoThread packet} (hpc : w.pc.submitted?.isSome)
      (hfails : a.fails = true) (hring : v.loop.ring = w.loop.ring) : IsoMove L w a v.quit
  | loop {a : IoctlAct packet} {loop : LoopWorld packet} (hpc : w.pc = .looping)
      (ha : (IsoAct.ioctl a).inLoop = true) (hstep : L.ioctlSystem.step w.loop a = some loop) :
      IsoMove L w (.ioctl a) { w with loop := loop }

section Step

variable {packet : Nat} {L : ReapLoop packet} {w t : IsoThread packet} {a : IsoAct packet}

theorem isoMove_of_step (h : w.step L a = some t) : IsoMove L w a t := by
  -- the calls of the setup come one behind the other, and each ends the thread if it fails
  cases a with
  | openUsbfs ok =>
      cases hpc : w.pc with
      | opening =>
          simp only [IsoThread.step, hpc, Option.some.injEq] at h
          subst h
          cases ok with
          | true => exact .prepare (by simp [hpc, IsoPc.submitted?]) rfl rfl (by simp)
          | false => exact .fail (by simp [hpc, IsoPc.submitted?]) rfl rfl
      | _ => simp [IsoThread.step, hpc] at h
  | claimInterface ok =>
      cases hpc : w.pc with
      | claiming =>
          simp only [IsoThread.step, hpc, Option.some.injEq] at h
          subst h
          cases ok with
          | true => exact .prepare (by simp [hpc, IsoPc.submitted?]) rfl rfl (by simp)
          | false => exact .fail (by simp [hpc, IsoPc.submitted?]) rfl rfl
      | _ => simp [IsoThread.step, hpc] at h
  | setInterface ok =>
      cases hpc : w.pc with
      | settingInterface =>
          simp only [IsoThread.step, hpc, Option.some.injEq] at h
          subst h
          cases ok with
          | true => exact .prepare (by simp [hpc, IsoPc.submitted?]) rfl rfl (by simp)
          | false => exact .fail (by simp [hpc, IsoPc.submitted?]) rfl rfl
      | _ => simp [IsoThread.step, hpc] at h
  | submitUrb ok =>
      cases hpc : w.pc with
      | submitting i =>
          simp only [IsoThread.step, hpc, Option.some.injEq] at h
          subst h
          cases ok with
          | true => exact .submit hpc
          | false => exact .fail (by simp [hpc, IsoPc.submitted?]) rfl rfl
      | _ => simp [IsoThread.step, hpc] at h
  | ioctl b =>
      cases b with
      | peer op =>
          cases h
          exact .peer op
      | _ =>
          cases hpc : w.pc with
          | looping =>
              simp only [IsoThread.step, hpc] at h
              rcases Option.map_eq_some_iff.1 h with ⟨loop, hstep, rfl⟩
              exact hpc ▸ .loop hpc rfl hstep
          | _ => simp [IsoThread.step, hpc] at h

/-! ## The slots during the setup -/

/-- The slots when `k` URBs are submitted. -/
def submittedSlots (L : ReapLoop packet) (k : Nat) (i : Fin nUrbs) : Slot packet :=
  if i.val < k then L.resubmit i (Vector.replicate packet 0) true else Slot.zeroed packet

theorem submittedSlots_zero : submittedSlots L 0 = fun _ => Slot.zeroed packet := by
  funext i
  simp [submittedSlots]

theorem submittedSlots_all : submittedSlots L nUrbs = L.start.slots := by
  funext i
  simp [submittedSlots, ReapLoop.start]

theorem submittedSlots_succ (i : Fin nUrbs) :
    Function.update (submittedSlots L i) i (L.resubmit i (submittedSlots L i i).buf true) =
      submittedSlots L (i + 1) := by
  funext j
  by_cases hj : j = i
  · subst hj
    simp [submittedSlots, Slot.zeroed]
  · have hne : j.val ≠ i.val := fun heq => hj (Fin.ext heq)
    have hlt : j.val < i.val + 1 ↔ j.val < i.val := by omega
    simp [submittedSlots, hj, hlt]

theorem behindSubmit_submitted {i : Fin nUrbs} {k : Nat}
    (h : (IsoThread.behindSubmit i).submitted? = some k) : k = i + 1 := by
  unfold IsoThread.behindSubmit at h
  split at h
  · cases h
    rfl
  · cases h

theorem behindSubmit_looping {i : Fin nUrbs} (h : IsoThread.behindSubmit i = .looping) :
    i.val + 1 = nUrbs := by
  unfold IsoThread.behindSubmit at h
  split at h
  · cases h
  · rename_i hlast
    have hlt := i.isLt
    omega

end Step

/-! ## Whole runs -/

namespace IsoThread

/-- The loop as its initial submits leave it, as long as the thread has not got there. -/
def asLoop {packet : Nat} (L : ReapLoop packet) (w : IsoThread packet) : LoopWorld packet :=
  match w.pc with
  | .looping => w.loop
  | _ => { w.loop with slots := L.start.slots }

end IsoThread

section Runs

variable {packet : Nat} {L : ReapLoop packet} {tr : IsoThreadTrace packet} {w t : IsoThread packet}
  {a : IsoAct packet}

def ioctl? (L : ReapLoop packet) (p : IsoThread packet × IsoAct packet) :
    Option (LoopWorld packet × IoctlAct packet) :=
  match p.2 with
  | .ioctl a => some (p.1.asLoop L, a)
  | _ => none

/-- The run of the loop and its peer in a run. -/
def ioctls (L : ReapLoop packet) (tr : IsoThreadTrace packet) : IoctlTrace packet :=
  tr.filterMap (ioctl? L)

theorem ioctls_snoc (tr : IsoThreadTrace packet) (w : IsoThread packet) (a : IsoAct packet) :
    ioctls L (tr ++ [(w, a)]) = ioctls L tr ++ (ioctl? L (w, a)).toList :=
  filterMap_snoc _ tr (w, a)

theorem ioctl?_other (h : ∀ b, a ≠ .ioctl b) : ioctl? L (w, a) = none := by
  cases a with
  | ioctl b => exact absurd rfl (h b)
  | _ => rfl

theorem inLoop_other (h : ∀ b, a ≠ .ioctl b) : a.inLoop = false := by
  cases a with
  | ioctl b => exact absurd rfl (h b)
  | _ => rfl

theorem asLoop_looping (h : w.pc = .looping) : w.asLoop L = w.loop := by
  simp [IsoThread.asLoop, h]

theorem asLoop_other (h : w.pc ≠ .looping) :
    w.asLoop L = { w.loop with slots := L.start.slots } := by
  unfold IsoThread.asLoop
  split
  · rename_i hpc
    exact absurd hpc h
  · rfl

/-- What the peer does does not depend on the slots. -/
theorem peer_withSlots (l : LoopWorld packet) (slots : Fin nUrbs → Slot packet) (op : PeerOp) :
    { l with slots := slots }.peer op = { l.peer op with slots := slots } := by
  cases op with
  | push f => rfl
  | pop =>
      unfold LoopWorld.peer
      cases l.ring.ring.pop <;> rfl

theorem asLoop_peer (op : PeerOp) :
    ({ w with loop := w.loop.peer op } : IsoThread packet).asLoop L = (w.asLoop L).peer op := by
  by_cases hpc : w.pc = .looping
  · rw [asLoop_looping hpc, asLoop_looping (w := { w with loop := w.loop.peer op }) hpc]
  · rw [asLoop_other hpc, asLoop_other (w := { w with loop := w.loop.peer op }) hpc]
    exact (peer_withSlots w.loop L.start.slots op).symm

/-- A thread that sets itself up is neither in its loop nor over. -/
theorem IsoPc.of_submitted {pc : IsoPc} (h : pc.submitted?.isSome) :
    pc ≠ .looping ∧ pc ≠ .over := by
  cases pc <;> simp [IsoPc.submitted?] at h ⊢

structure IsoInv (L : ReapLoop packet) (tr : IsoThreadTrace packet) (w : IsoThread packet) :
    Prop where
  setup : ∀ k, w.pc.submitted? = some k → w.loop.slots = submittedSlots L k
  refines : Trace L.ioctlSystem (ioctls L tr) (w.asLoop L)
  /-- The thread is not in its loop yet, or never comes there. -/
  quiet : w.pc ≠ .looping → ∀ p ∈ tr, p.2.inLoop = false
  failed : (∃ p ∈ tr, p.2.fails = true) ↔ w.pc = .over
  given : w.pc = .over → ∀ i, (w.loop.slots i).inFlight = false

namespace IsoInv

/-- A step of the setup that succeeds. -/
theorem advance (h : IsoInv L tr w) (hsetup : w.pc.submitted?.isSome) (hgood : a.fails = false)
    (hother : ∀ b, a ≠ .ioctl b) (hover : t.pc ≠ .over)
    (hslots : ∀ k, t.pc.submitted? = some k → t.loop.slots = submittedSlots L k)
    (hloop : t.asLoop L = w.asLoop L) : IsoInv L (tr ++ [(w, a)]) t where
  setup := hslots
  refines := by
    rw [ioctls_snoc, ioctl?_other hother, hloop]
    simpa using h.refines
  quiet := by
    intro _ p hp
    rcases List.mem_append.1 hp with hp | hp
    · exact h.quiet (IsoPc.of_submitted hsetup).1 p hp
    · rw [List.mem_singleton.1 hp]
      exact inLoop_other hother
  failed := by
    have hnone : ¬ ∃ p ∈ tr, p.2.fails = true :=
      fun hfails => (IsoPc.of_submitted hsetup).2 (h.failed.1 hfails)
    simp only [List.mem_append, List.mem_singleton, or_and_right, exists_or, exists_eq_left, hgood,
      hnone, hover, false_or, Bool.false_eq_true]
  given := fun hpc => absurd hpc hover

theorem step (h : IsoInv L tr w) (hmove : IsoMove L w a t) : IsoInv L (tr ++ [(w, a)]) t := by
  cases hmove with
  | peer op =>
      refine
        { setup := fun k hk => by simpa using h.setup k hk
          refines := ?_
          quiet := ?_
          failed := ?_
          given := fun hpc => by simpa using h.given hpc }
      · rw [ioctls_snoc, asLoop_peer]
        exact h.refines.snoc rfl
      · intro hpc p hp
        rcases List.mem_append.1 hp with hp | hp
        · exact h.quiet hpc p hp
        · rw [List.mem_singleton.1 hp]
          rfl
      · rw [← h.failed]
        simp [or_and_right, exists_or, IsoAct.fails]
  | prepare hpc hnext hgood hsetup =>
      rename_i pc
      have hsome : w.pc.submitted?.isSome := by
        rw [hpc]
        rfl
      have hthere : pc ≠ .looping ∧ pc ≠ .over := IsoPc.of_submitted (by rw [hnext]; rfl)
      refine h.advance hsome hgood hsetup hthere.2 ?_ ?_
      · intro k hk
        rw [hnext] at hk
        cases hk
        exact h.setup 0 hpc
      · rw [asLoop_other (IsoPc.of_submitted hsome).1, asLoop_other hthere.1]
  | submit hpc =>
      rename_i i
      have hcount : w.pc.submitted? = some i.val := by
        rw [hpc]
        rfl
      have hsome : w.pc.submitted?.isSome := by
        rw [hcount]
        rfl
      have hslots : Function.update w.loop.slots i (L.resubmit i (w.loop.slots i).buf true) =
          submittedSlots L (i + 1) := by
        rw [h.setup i hcount, submittedSlots_succ]
      refine h.advance hsome rfl (by simp) ?_ ?_ ?_
      · unfold IsoThread.behindSubmit
        split
        · simp
        · simp
      · intro k hk
        rw [behindSubmit_submitted hk]
        exact hslots
      · rw [asLoop_other (IsoPc.of_submitted hsome).1]
        by_cases hlast : IsoThread.behindSubmit i = .looping
        · -- behind the last submit the loop starts
          rw [asLoop_looping hlast, hslots, behindSubmit_looping hlast, submittedSlots_all]
        · rw [asLoop_other hlast]
  | fail hpc hfails hring =>
      rename_i v
      have hsetup := IsoPc.of_submitted hpc
      have hother : ∀ b, a ≠ .ioctl b := by
        rintro b rfl
        cases hfails
      refine
        { setup := fun k hk => by cases hk
          refines := ?_
          quiet := ?_
          failed := ⟨fun _ => rfl, fun _ => ⟨(w, a), by simp, hfails⟩⟩
          given := fun _ _ => rfl }
      · have hloop : v.quit.asLoop L = w.asLoop L := by
          rw [asLoop_other hsetup.1, asLoop_other (w := v.quit) (by simp [IsoThread.quit])]
          simp [IsoThread.quit, hring]
        rw [ioctls_snoc, ioctl?_other hother, hloop]
        simpa using h.refines
      · intro _ p hp
        rcases List.mem_append.1 hp with hp | hp
        · exact h.quiet hsetup.1 p hp
        · rw [List.mem_singleton.1 hp]
          exact inLoop_other hother
  | loop hpc ha hstep =>
      rename_i b loop
      refine
        { setup := fun k hk => absurd hpc (IsoPc.of_submitted (by rw [hk]; rfl)).1
          refines := ?_
          quiet := fun hnot => absurd hpc hnot
          failed := ?_
          given := fun hover => by rw [hpc] at hover; cases hover }
      · have hrefines := h.refines
        rw [asLoop_looping hpc] at hrefines
        rw [ioctls_snoc, asLoop_looping (w := { w with loop := loop }) hpc]
        simpa [ioctl?, asLoop_looping hpc] using hrefines.snoc hstep
      · rw [← h.failed]
        simp [or_and_right, exists_or, IsoAct.fails]

end IsoInv

theorem isoInv_of_trace (h : Trace (isoThreadSystem L) tr w) : IsoInv L tr w := by
  induction h with
  | start =>
      refine
        { setup := fun k hk => ?_
          refines := Trace.start
          quiet := by simp
          failed := by simp [isoThreadSystem, IsoThread.start]
          given := fun hover => by cases hover }
      cases hk
      exact submittedSlots_zero.symm
  | snoc htr hstep ih => exact ih.step (isoMove_of_step hstep)

/-! ### The ring of a thread that is not in its loop -/

def offered? : IsoAct packet → Option AudioFrame
  | .ioctl (.peer (.push f)) => some f
  | _ => none

/-- The frames that the thread at the other end has pushed. -/
def offered (tr : IsoThreadTrace packet) : List AudioFrame := tr.filterMap fun p => offered? p.2

/-- The other end only pushes, as the clients' handlers do. -/
def PeerOffers (_ : IsoThread packet) : IsoAct packet → Prop
  | .ioctl (.peer .pop) => False
  | _ => True

/-- The other end only pops, as the dispatch thread does. -/
def PeerTakes (_ : IsoThread packet) : IsoAct packet → Prop
  | .ioctl (.peer (.push _)) => False
  | _ => True

theorem offered_snoc (tr : IsoThreadTrace packet) (w : IsoThread packet) (a : IsoAct packet) :
    offered (tr ++ [(w, a)]) = offered tr ++ (offered? a).toList :=
  filterMap_snoc _ tr (w, a)

/-- Nobody but the peer touches the ring. -/
inductive LateMove (w : IsoThread packet) : IsoAct packet → IsoThread packet → Prop where
  | peer {t : IsoThread packet} (op : PeerOp) (hring : t.loop.ring = (w.loop.peer op).ring) :
      LateMove w (.ioctl (.peer op)) t
  | other {a : IsoAct packet} {t : IsoThread packet} (hother : ∀ b, a ≠ .ioctl b)
      (hring : t.loop.ring = w.loop.ring) : LateMove w a t

theorem lateMove_of_move (hmove : IsoMove L w a t) (hlate : t.pc ≠ .looping) :
    w.pc ≠ .looping ∧ LateMove w a t := by
  cases hmove with
  | peer op => exact ⟨hlate, .peer op rfl⟩
  | prepare hpc hnext hgood hsetup =>
      exact ⟨(IsoPc.of_submitted (by rw [hpc]; rfl)).1, .other hsetup rfl⟩
  | submit hpc => exact ⟨by simp [hpc], .other (by simp) rfl⟩
  | fail hpc hfails hring =>
      refine ⟨(IsoPc.of_submitted hpc).1, .other ?_ hring⟩
      rintro b rfl
      cases hfails
  | loop hpc ha hstep => exact absurd hpc hlate

/-- A ring into which `fs` were pushed and out of which nothing was taken. -/
structure Filled (fs : List AudioFrame) (r : CountedRing) : Prop where
  items : r.ring.items = fs.take ringCapacity
  xruns : r.xruns = UInt64.ofNat (fs.length - ringCapacity)

theorem Filled.push {fs : List AudioFrame} {r : CountedRing} (h : Filled fs r) (f : AudioFrame) :
    Filled (fs ++ [f]) (r.push f) := by
  have hlen : r.ring.items.length = min ringCapacity fs.length := by
    rw [h.items, List.length_take]
  by_cases hroom : fs.length < ringCapacity
  · have hhas : r.hasRoom = true := by
      simp only [CountedRing.hasRoom, decide_eq_true_eq]
      omega
    have hnone : (fs ++ [f]).length - ringCapacity = fs.length - ringCapacity := by
      rw [List.length_append, List.length_singleton]
      omega
    constructor
    · rw [CountedRing.items_push, hhas, if_pos rfl, h.items, List.take_of_length_le (by omega),
        List.take_of_length_le (by rw [List.length_append, List.length_singleton]; omega)]
    · rw [CountedRing.xruns_push, hhas, if_pos rfl, h.xruns, hnone]
  · -- the ring is full, and the frame is counted
    have hhas : r.hasRoom = false := by
      simp only [CountedRing.hasRoom, decide_eq_false_iff_not]
      omega
    have hone : (fs ++ [f]).length - ringCapacity = fs.length - ringCapacity + 1 := by
      rw [List.length_append, List.length_singleton]
      omega
    constructor
    · rw [CountedRing.items_push, hhas, h.items, List.take_append_of_le_length (by omega)]
      rfl
    · rw [CountedRing.xruns_push, hhas, h.xruns, hone]
      simp

theorem filled_of_late (h : Trace (isoThreadSystem L) tr w) (hlate : w.pc ≠ .looping)
    (hpeer : Guarded PeerOffers tr) : Filled (offered tr) w.loop.ring := by
  induction h with
  | start => exact ⟨rfl, rfl⟩
  | snoc htr hstep ih =>
      rename_i tr w t a
      rcases lateMove_of_move (isoMove_of_step hstep) hlate with ⟨hbefore, hmove⟩
      rcases (guarded_snoc _ _ _ _).1 hpeer with ⟨hprev, hlast⟩
      have hfilled := ih hbefore hprev
      rw [offered_snoc]
      cases hmove with
      | peer op hring =>
          cases op with
          | push f =>
              rw [hring]
              exact hfilled.push f
          | pop => exact absurd hlast id
      | other hother hring =>
          have hnone : offered? a = none := by
            cases a with
            | ioctl b => exact absurd rfl (hother b)
            | _ => rfl
          rw [hring, hnone]
          simpa using hfilled

theorem empty_of_late (h : Trace (isoThreadSystem L) tr w) (hlate : w.pc ≠ .looping)
    (hpeer : Guarded PeerTakes tr) : w.loop.ring = CountedRing.empty := by
  induction h with
  | start => rfl
  | snoc htr hstep ih =>
      rename_i tr w t a
      rcases lateMove_of_move (isoMove_of_step hstep) hlate with ⟨hbefore, hmove⟩
      rcases (guarded_snoc _ _ _ _).1 hpeer with ⟨hprev, hlast⟩
      have hempty := ih hbefore hprev
      cases hmove with
      | peer op hring =>
          cases op with
          | push f => exact absurd hlast id
          | pop =>
              rw [hring, LoopWorld.peer, hempty]
              exact hempty
      | other hother hring => rw [hring, hempty]

/-! ### The end of a thread -/

theorem over_stays (hmove : IsoMove L w a t) (hover : w.pc = .over) : t.pc = .over := by
  cases hmove with
  | peer op => exact hover
  | prepare hpc hnext hgood hsetup =>
      rw [hover] at hpc
      cases hpc
  | submit hpc =>
      rw [hover] at hpc
      cases hpc
  | fail hpc hfails hring => rfl
  | loop hpc ha hstep => exact hover

/-- The life of an RX or TX thread up to a point of a run. -/
structure IsoLife (L : ReapLoop packet) (tr : IsoThreadTrace packet) (w : IsoThread packet) :
    Prop where
  looping : w.pc = .looping → Trace L.ioctlSystem (ioctls L tr) w.loop
  failed : w.pc = .over ↔ ∃ p ∈ tr, p.2.fails = true
  ended : w.pc = .over → (∀ i, (w.loop.slots i).inFlight = false) ∧
    ∀ as t, (isoThreadSystem L).exec w as = some t → t.pc = .over
  /-- Before its loop and without it. -/
  unserved : w.pc ≠ .looping → ∀ p ∈ tr, p.2.inLoop = false
  filled : w.pc ≠ .looping → Guarded PeerOffers tr → Filled (offered tr) w.loop.ring
  empty : w.pc ≠ .looping → Guarded PeerTakes tr → w.loop.ring = CountedRing.empty

/-- In every run of an RX or TX thread from its spawn on, whatever calls fail: a thread in its loop
is in a run of the loop behind eight submits; it is over exactly if a call of its setup failed, for
good and with no URB in flight; and as long as it is not in its loop no packet is served, a ring
that the other end fills holds the first 64 frames and counts the others, and one that it empties
stays empty without a count. -/
theorem isoThread_life (h : Trace (isoThreadSystem L) tr w) : IsoLife L tr w := by
  have hinv := isoInv_of_trace h
  refine
    { looping := fun hpc => asLoop_looping (L := L) hpc ▸ hinv.refines
      failed := hinv.failed.symm
      ended := fun hover => ⟨hinv.given hover, ?_⟩
      unserved := hinv.quiet
      filled := filled_of_late h
      empty := empty_of_late h }
  intro as t hexec
  induction as generalizing w tr with
  | nil =>
      cases hexec
      exact hover
  | cons a as ih =>
      rcases Option.bind_eq_some_iff.1 hexec with ⟨u, hstep, hrest⟩
      have hnext := h.snoc hstep
      exact ih hnext (isoInv_of_trace hnext) (over_stays (isoMove_of_step hstep) hover) hrest

/-- The third initial submit of a TX thread fails; a client pushes before that and behind it. -/
theorem isoThread_life_noSubmit :
    ∃ tr w, Trace (isoThreadSystem txLoop) tr w ∧ w.pc = .over ∧
      (offered tr).length = 2 ∧ Guarded PeerOffers tr ∧ IsoLife txLoop tr w := by
  let acts : List (IsoAct isoOutPacket) :=
    [.openUsbfs true, .claimInterface true, .ioctl (.peer (.push AudioFrame.default)),
      .setInterface true, .submitUrb true, .submitUrb true, .submitUrb false,
      .ioctl (.peer (.push AudioFrame.default))]
  have hrun : Trace (isoThreadSystem txLoop)
      ((isoThreadSystem txLoop).steps (isoThreadSystem txLoop).init acts) _ :=
    Trace.start.exec (show (isoThreadSystem txLoop).exec _ acts = some _ from rfl)
  refine ⟨_, _, hrun, rfl, rfl, ?_, isoThread_life hrun⟩
  refine System.guarded_steps (fun a ha s => ?_) _
  simp only [acts, List.mem_cons, List.not_mem_nil, or_false] at ha
  rcases ha with rfl | rfl | rfl | rfl | rfl | rfl | rfl | rfl <;> trivial

end Runs

end Cm108Driver
