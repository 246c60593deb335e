import Cm108Driver.Shmem.Linearizable

/-!
# Delivery — how often one frame reaches a client

The page holds the latest frame only, while the notifications wait in the client's queue.
`read_audio_blocking` accepts a notification newer than `last_seq`, sets `last_seq` to *its* number
and returns whatever the page holds by then.  When the writer is ahead of the queue, the next
notification in the queue is for a frame that has been returned, and it is accepted all the same.
-/

namespace Cm108Driver

open Lib

/-! ## The condition -/

/-- The returns of `read_audio_blocking` calls. -/
def Reader.audioReturns (reader : Reader) : List FrameReturn :=
  reader.returns.filter fun ret => ret.notified.isSome

/-- When a client accepts a notification, a write newer than every frame it has got from
`read_audio_blocking` is complete. -/
def NewWriteSince (w : ShmemWorld) : ShmemAct → Prop
  | .client r .receive =>
      ∀ m inbox, (w.readers r).inbox = m :: inbox →
        (wantAudio (w.readers r).client.lastSeq m).isSome →
        ∀ ret ∈ (w.readers r).audioReturns, ∃ rec ∈ w.written, ret.seq < rec.seq
  | _ => True

/-! ## The invariant -/

/-- Inside `read_frame`. -/
def Reader.Active (reader : Reader) : Prop :=
  match reader.pc with
  | .loading => True
  | .copying _ _ _ => True
  | _ => False

/-- The frames got from `read_audio_blocking` are of later and later writes, and those got before
the current call are older than the writes complete at its start. -/
structure DeliveryInv (reader : Reader) : Prop where
  increasing : reader.audioReturns.Pairwise fun a b => a.seq < b.seq
  current : reader.Active → reader.notified.isSome →
    ∀ ret ∈ reader.audioReturns, ret.seq.toNat < 2 * reader.before

/-- Steps outside `read_frame` that return nothing. -/
theorem DeliveryInv.inactive {reader reader' : Reader} (h : DeliveryInv reader)
    (hreturns : reader'.returns = reader.returns) (hpc : ¬ reader'.Active) :
    DeliveryInv reader' := by
  refine ⟨?_, fun hactive => absurd hactive hpc⟩
  rw [Reader.audioReturns, hreturns]
  exact h.increasing

/-- Steps that change neither the call nor the returns. -/
theorem DeliveryInv.sameCall {reader reader' : Reader} (h : DeliveryInv reader)
    (hreturns : reader'.returns = reader.returns) (hpc : reader'.Active → reader.Active)
    (hnotified : reader'.notified = reader.notified) (hbefore : reader'.before = reader.before) :
    DeliveryInv reader' := by
  have haudio : reader'.audioReturns = reader.audioReturns := by
    rw [Reader.audioReturns, hreturns]
    rfl
  constructor
  · rw [haudio]
    exact h.increasing
  · intro hactive hsome
    rw [haudio, hbefore]
    rw [hnotified] at hsome
    exact h.current (hpc hactive) hsome

/-- Accepting a notification under the condition. -/
theorem DeliveryInv.receive {w : ShmemWorld} {r : Nat} {reader : Reader}
    (hnum : Numbered w.written) (h : DeliveryInv (w.readers r))
    (hnew : NewWriteSince w (.client r .receive))
    (hstep : (w.readers r).receive w.written.length = some reader) : DeliveryInv reader := by
  unfold Reader.receive at hstep
  split at hstep
  · rename_i m inbox hpc hbox
    cases hwant : wantAudio (w.readers r).client.lastSeq m with
    | none =>
        simp only [hwant, Option.some.injEq] at hstep
        subst hstep
        exact h.sameCall rfl id rfl rfl
    | some seq =>
        simp only [hwant, Option.some.injEq] at hstep
        subst hstep
        refine ⟨h.increasing, fun _ _ ret hret => ?_⟩
        rcases hnew m inbox hbox (by simp [hwant]) ret hret with ⟨rec, hrec, hlt⟩
        exact Nat.lt_of_lt_of_le (UInt64.lt_iff_toNat_lt.1 hlt) (hnum.le hrec)
  · cases hstep

/-- A `read_frame` that returns gives a frame newer than those returned before. -/
theorem DeliveryInv.accept {written : List WriteRecord} {counter : Nat} {reader : Reader}
    {s1 : UInt64} {i : Nat} {frame : FrameImage} (hreader : ReaderInv written counter reader)
    (h : DeliveryInv reader) (hpc : reader.pc = .copying s1 i frame) :
    DeliveryInv
      { reader with
        pc := .idle
        returns := reader.returns ++
          [{ notified := reader.notified
             before := reader.before
             seq := s1
             frame := frame }] } := by
  refine ⟨?_, fun hactive => absurd hactive (by simp [Reader.Active])⟩
  simp only [Reader.audioReturns, List.filter_append]
  refine List.pairwise_append.2 ⟨h.increasing, (List.pairwise_singleton _ _).filter _, ?_⟩
  intro a ha b hb
  rcases List.mem_filter.1 hb with ⟨hb, hsome⟩
  have hsame := List.mem_singleton.1 hb
  subst hsame
  have hactive := hreader.active
  rw [hpc] at hactive
  have hlt := h.current (by simp [Reader.Active, hpc]) hsome a ha
  exact UInt64.lt_iff_toNat_lt.2 (Nat.lt_of_lt_of_le hlt hactive.1.before)

theorem DeliveryInv.access {written : List WriteRecord} {counter : Nat} {page : Page}
    {reader reader' : Reader} (hreader : ReaderInv written counter reader) (h : DeliveryInv reader)
    (hstep : reader.access page = some reader') : DeliveryInv reader' := by
  unfold Reader.access at hstep
  split at hstep
  · rename_i hpc
    have hactive : reader.Active := by simp [Reader.Active, hpc]
    split at hstep
    · cases hstep
      exact h
    · cases hstep
      exact h.sameCall rfl (fun _ => hactive) rfl rfl
  · rename_i s1 i frame hpc
    have hactive : reader.Active := by simp [Reader.Active, hpc]
    split at hstep
    · cases hstep
      exact h.sameCall rfl (fun _ => hactive) rfl rfl
    · split at hstep
      · cases hstep
        exact h.accept hreader hpc
      · cases hstep
        exact h.sameCall rfl (fun _ => hactive) rfl rfl
  · cases hstep

/-- Every step of a client that meets the condition keeps the invariant. -/
theorem DeliveryInv.step {w : ShmemWorld} {r : Nat} {reader : Reader} {a : ReaderAct}
    (hinv : ShmemInv w) (h : DeliveryInv (w.readers r)) (hnew : NewWriteSince w (.client r a))
    (hstep : (w.readers r).step w a = some reader) : DeliveryInv reader := by
  cases a with
  -- the only step that needs the condition: here a number is accepted
  | receive => exact h.receive hinv.numbered hnew hstep
  | access => exact h.access (hinv.readers r) hstep
  | takeMsg =>
      simp only [Reader.step, Reader.takeMsg] at hstep
      split at hstep
      · cases hstep
        exact h.sameCall rfl id rfl rfl
      · cases hstep
  | notify =>
      simp only [Reader.step] at hstep
      split at hstep
      · cases hstep
        exact h.sameCall rfl id rfl rfl
      · cases hstep
  | message m =>
      simp only [Reader.step] at hstep
      split at hstep
      · cases hstep
      · cases hstep
        exact h.sameCall rfl id rfl rfl
  | readLatest =>
      simp only [Reader.step] at hstep
      split at hstep
      · cases hstep
        exact ⟨h.increasing, fun _ hsome => by cases hsome⟩
      · cases hstep
  | readAudio =>
      simp only [Reader.step] at hstep
      split at hstep
      · cases hstep
        exact h.inactive rfl (by simp [Reader.Active])
      · cases hstep

/-! ## Whole runs -/

theorem deliveryInv_step {w t : ShmemWorld} {a : ShmemAct} (hinv : ShmemInv w)
    (h : ∀ r, DeliveryInv (w.readers r)) (hnew : NewWriteSince w a) (hstep : w.step a = some t) :
    ∀ r, DeliveryInv (t.readers r) := by
  intro r
  cases a with
  | writer a =>
      rw [(dispatchMove_of_step hstep).readers]
      exact h r
  | client r' a =>
      rcases Option.map_eq_some_iff.1 hstep with ⟨reader, hreader, rfl⟩
      by_cases hr : r = r'
      · subst hr
        simpa using (h r).step hinv hnew hreader
      · simpa [ShmemWorld.setReader, hr] using h r

/-- As long as each notification is accepted only when a write newer than the frames already
delivered is complete, the frames that `read_audio_blocking` delivers to one client are of
strictly later and later writes. -/
theorem delivery_increasing {tr : List (ShmemWorld × ShmemAct)} {w : ShmemWorld}
    (h : Trace shmemSystem tr w) (hnew : Guarded NewWriteSince tr) (hbound : w.begun < 2 ^ 63)
    (r : Nat) : (w.readers r).audioReturns.Pairwise fun a b => a.seq < b.seq := by
  have hinv : ∀ r, DeliveryInv (w.readers r) := by
    induction h with
    | start =>
        intro r
        refine ⟨List.Pairwise.nil, fun hactive => absurd hactive ?_⟩
        simp [shmemSystem, ShmemWorld.start, Reader.connected, Reader.Active]
    | snoc htr hstep ih =>
        have hprev := Nat.lt_of_le_of_lt (ShmemWorld.begun_le hstep) hbound
        rcases (guarded_snoc _ _ _ _).1 hnew with ⟨hbefore, hlast⟩
        exact deliveryInv_step (shmemInv_of_trace htr hprev) (ih hbefore hprev) hlast hstep
  exact (hinv r).increasing

/-- Writes, notifications and accesses meet the condition in every state. -/
theorem newWriteSince_publish (frame : FrameImage) (r : Nat) :
    ∀ a ∈ publish frame r, ∀ w, NewWriteSince w a := by
  intro a ha w
  simp only [publish, storesOfWrite, List.cons_append, List.append_assoc, List.nil_append,
    List.mem_cons, List.mem_append, List.mem_replicate, List.not_mem_nil, or_false] at ha
  rcases ha with rfl | rfl | ⟨_, rfl⟩ | rfl | rfl | rfl <;> trivial

theorem newWriteSince_accesses (r : Nat) : ∀ a ∈ accessesOfRead r, ∀ w, NewWriteSince w a := by
  intro a ha w
  simp only [accessesOfRead, List.mem_cons, List.mem_append, List.mem_replicate,
    List.not_mem_nil, or_false] at ha
  rcases ha with rfl | ⟨_, rfl⟩ | rfl <;> trivial

/-- Two frames, each published and delivered to client 0. -/
theorem delivery_increasing_twoFrames :
    ∃ tr w, Trace shmemSystem tr w ∧ (w.readers 0).audioReturns.map FrameReturn.seq = [2, 4] ∧
      (w.readers 0).audioReturns.Pairwise fun a b => a.seq < b.seq := by
  have hpublish := Trace.start.exec (exec_publish (w := ShmemWorld.start) rfl (solid 1) 0)
  have hcall := hpublish.snoc (a := .client 0 .readAudio) rfl
  have haccept := hcall.snoc (a := .client 0 .receive) rfl
  have hread := haccept.exec (exec_read (r := 0) rfl rfl)
  have hpublish' := hread.exec (exec_publish rfl (solid 2) 0)
  have hcall' := hpublish'.snoc (a := .client 0 .readAudio) rfl
  have haccept' := hcall'.snoc (a := .client 0 .receive) rfl
  have hread' := haccept'.exec (exec_read (r := 0) rfl rfl)
  refine ⟨_, _, hread', rfl, delivery_increasing hread' ?_ (by decide) 0⟩
  rw [guarded_append, guarded_snoc, guarded_snoc, guarded_append, guarded_append, guarded_snoc,
    guarded_snoc, List.nil_append]
  refine ⟨⟨⟨⟨⟨⟨⟨System.guarded_steps (newWriteSince_publish (solid 1) 0) _, trivial⟩, ?_⟩,
    System.guarded_steps (newWriteSince_accesses 0) _⟩,
    System.guarded_steps (newWriteSince_publish (solid 2) 0) _⟩, trivial⟩, ?_⟩,
    System.guarded_steps (newWriteSince_accesses 0) _⟩
  · intro m inbox _ _ ret hret
    exact absurd hret List.not_mem_nil
  · -- the first frame has been returned, and the second is on the page
    intro m inbox _ _ ret hret
    refine ⟨{ seq := 4, frame := solid 2 }, List.mem_cons_of_mem _ List.mem_cons_self, ?_⟩
    rw [List.mem_singleton.1 hret]
    decide

/-! ## A frame delivered twice -/

/-- Two frames are published before the client calls. -/
def backlog : ShmemWorld :=
  (ShmemWorld.start.published (solid 1) 0).published (solid 2) 0

/-- Both notifications are accepted, and both calls return the second frame. -/
theorem delivery_repeats :
    ∃ tr w, Trace shmemSystem tr w ∧
      (w.readers 0).audioReturns.map (fun ret => (ret.notified, ret.seq)) =
        [(some 2, 4), (some 4, 4)] ∧
      ¬ (w.readers 0).audioReturns.Pairwise fun a b => a.seq < b.seq := by
  have hfirst := Trace.start.exec (exec_publish (w := ShmemWorld.start) rfl (solid 1) 0)
  have hbacklog : Trace shmemSystem _ backlog := hfirst.exec (exec_publish rfl (solid 2) 0)
  -- the first call finds both notifications waiting, the second call the other one
  have hcall := hbacklog.exec (exec_fetch 2 (r := 0) rfl rfl rfl rfl)
  have hagain := hcall.exec (exec_fetch 4 (r := 0) rfl rfl rfl rfl)
  refine ⟨_, _, hagain, rfl, ?_⟩
  intro hincreasing
  have hlt := List.rel_of_pairwise_cons hincreasing (List.mem_singleton_self _)
  exact absurd hlt (by decide)

end Cm108Driver
