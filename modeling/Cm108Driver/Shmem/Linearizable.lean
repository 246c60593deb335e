import Cm108Driver.Shmem.Progress

/-!
# Linearizable — every frame read is the frame of one write

The counter says which version the page holds: `2 * k` when `k` writes are complete and none is
under way, `2 * k + 1` during the next one.  With fewer than `2 ^ 63` writes it never wraps, so a
counter value never comes back, and a copy taken while it did not move is a copy of one version.

`PageInv` is the writer's half of the invariant and `ReaderInv` the half of each reader.
-/

namespace Cm108Driver

open Lib

/-- The frame that the page holds when `k` writes are complete. -/
def frameAt (written : List WriteRecord) (k : Nat) : FrameImage :=
  version zeroImage (written.map WriteRecord.frame) k

theorem frameAt_append {written : List WriteRecord} {k : Nat} (h : k ≤ written.length)
    (more : List WriteRecord) : frameAt (written ++ more) k = frameAt written k := by
  rw [frameAt, List.map_append]
  exact version_append (by simpa using h) _

theorem frameAt_last (written : List WriteRecord) (rec : WriteRecord) :
    frameAt (written ++ [rec]) (written.length + 1) = rec.frame := by
  have h := version_last zeroImage (written.map WriteRecord.frame) rec.frame
  simpa [frameAt] using h

/-! ## The moves of the dispatch thread -/

/-- One constructor for each kind of move; the four in the middle are the stores of
`AudioShmem::write`. -/
inductive DispatchMove (w : ShmemWorld) : WriterAct → ShmemWorld → Prop where
  | write (frame : FrameImage) (hpc : w.writer = .idle) :
      DispatchMove w (.write frame) { w with writer := .loaded frame w.page.seq }
  | oddCounter {frame : FrameImage} {cur : UInt64} (hpc : w.writer = .loaded frame cur) :
      DispatchMove w .store
        { w with
          page := { w.page with seq := cur + 1 }
          writer := .copying frame cur 0 }
  | byte {frame : FrameImage} {cur : UInt64} {i : Nat} (hpc : w.writer = .copying frame cur i)
      (hi : i < frameBytes) :
      DispatchMove w .store
        { w with
          page := { w.page with data := Function.update w.page.data ⟨i, hi⟩ (frame ⟨i, hi⟩) }
          writer := .copying frame cur (i + 1) }
  | evenCounter {frame : FrameImage} {cur : UInt64} {i : Nat}
      (hpc : w.writer = .copying frame cur i) (hi : ¬ i < frameBytes) :
      DispatchMove w .store
        { w with
          page := { w.page with seq := cur + 2 }
          writer := .notifying (cur + 2)
          written := w.written ++ [{ seq := cur + 2, frame := frame }] }
  | endNotify {new : UInt64} (hpc : w.writer = .notifying new) :
      DispatchMove w .endNotify { w with writer := .idle }

theorem dispatchMove_of_step {w t : ShmemWorld} {a : WriterAct} (h : w.writerStep a = some t) :
    DispatchMove w a t := by
  cases a with
  | write frame =>
      simp only [ShmemWorld.writerStep] at h
      split at h
      · rename_i hpc
        cases h
        exact .write frame hpc
      · cases h
  | store =>
      simp only [ShmemWorld.writerStep, ShmemWorld.store] at h
      split at h
      · rename_i hpc
        cases h
        exact .oddCounter hpc
      · rename_i hpc
        split at h
        · rename_i hi
          cases h
          exact .byte hpc hi
        · rename_i hi
          cases h
          exact .evenCounter hpc hi
      · cases h
  | endNotify =>
      simp only [ShmemWorld.writerStep] at h
      split at h
      · rename_i hpc
        cases h
        exact .endNotify hpc
      · cases h

/-- The dispatch thread leaves the clients alone. -/
theorem DispatchMove.readers {w t : ShmemWorld} {a : WriterAct} (h : DispatchMove w a t) :
    t.readers = w.readers := by
  cases h with
  | _ => rfl

/-! ## What the returns should show -/

/-- The returned frame is the one of the write that left the counter at the accepted value (the zero
frame for 0), no write complete before the call is newer, nor is the write notified. -/
structure FrameReturn.Linearized (written : List WriteRecord) (ret : FrameReturn) : Prop where
  oneWrite : (ret.seq = 0 ∧ ret.frame = zeroImage) ∨
    ∃ rec ∈ written, rec.seq = ret.seq ∧ rec.frame = ret.frame
  fresh : ret.before ≤ written.length ∧ ∀ rec ∈ written.take ret.before, rec.seq ≤ ret.seq
  notified : ∀ seq, ret.notified = some seq → seq ≤ ret.seq

/-- Every return of every client is linearized, and no client gets an older frame than before. -/
structure Linearized (w : ShmemWorld) : Prop where
  returns : ∀ r, ∀ ret ∈ (w.readers r).returns, ret.Linearized w.written
  monotone : ∀ r, (w.readers r).returns.Pairwise fun a b => a.seq ≤ b.seq

/-! ## The writer's half of the invariant -/

/-- The page holds the last complete version. -/
structure Page.Holds (page : Page) (written : List WriteRecord) : Prop where
  seq : page.seq.toNat = 2 * written.length
  data : page.data = frameAt written written.length

def PageInv (page : Page) (written : List WriteRecord) : WriterPc → Prop
  | .idle => page.Holds written
  | .loaded _ cur => page.Holds written ∧ cur = page.seq
  | .copying frame cur i =>
      cur.toNat = 2 * written.length ∧ page.seq.toNat = 2 * written.length + 1 ∧
        page.data = replaced i frame (frameAt written written.length)
  | .notifying new => page.Holds written ∧ new = page.seq

/-- The `k`-th write returned `2 * k`. -/
def Numbered (written : List WriteRecord) : Prop :=
  ∀ k rec, written[k]? = some rec → rec.seq.toNat = 2 * (k + 1)

theorem Numbered.snoc {written : List WriteRecord} (h : Numbered written) {rec : WriteRecord}
    (hrec : rec.seq.toNat = 2 * (written.length + 1)) : Numbered (written ++ [rec]) := by
  intro k rec' hk
  rcases Nat.lt_trichotomy k written.length with hlt | heq | hgt
  · exact h k rec' (by simpa [List.getElem?_append_left hlt] using hk)
  · subst heq
    have hsame : rec = rec' := by simpa using hk
    rw [← hsame, hrec]
  · have hnone : (written ++ [rec])[k]? = none := List.getElem?_eq_none (by
      rw [List.length_append]
      exact hgt)
    rw [hnone] at hk
    cases hk

theorem Numbered.le {written : List WriteRecord} (h : Numbered written) {rec : WriteRecord}
    (hrec : rec ∈ written) : rec.seq.toNat ≤ 2 * written.length := by
  rcases List.getElem?_of_mem hrec with ⟨k, hk⟩
  rcases List.getElem?_eq_some_iff.1 hk with ⟨hlt, _⟩
  rw [h k rec hk]
  exact Nat.mul_le_mul_left 2 hlt

theorem Numbered.even {written : List WriteRecord} (h : Numbered written) {rec : WriteRecord}
    (hrec : rec ∈ written) : rec.seq.toNat % 2 = 0 := by
  rcases List.getElem?_of_mem hrec with ⟨k, hk⟩
  rw [h k rec hk]
  exact Nat.mul_mod_right 2 _

theorem Numbered.increasing {written : List WriteRecord} (h : Numbered written) :
    (written.map WriteRecord.seq).Pairwise (· < ·) := by
  rw [List.pairwise_map, List.pairwise_iff_getElem]
  intro i j hi hj hlt
  rw [UInt64.lt_iff_toNat_lt, h i _ (List.getElem?_eq_getElem hi),
    h j _ (List.getElem?_eq_getElem hj)]
  omega

/-- With an even counter the page holds the last complete version. -/
theorem PageInv.holds {page : Page} {written : List WriteRecord} {pc : WriterPc}
    (h : PageInv page written pc) (heven : page.seq.toNat % 2 = 0) : page.Holds written := by
  cases pc with
  | idle => exact h
  | loaded frame cur => exact h.1
  | notifying new => exact h.1
  | copying frame cur i =>
      have hodd := h.2.1
      omega

/-! ## The readers' half -/

/-- What the current call of a reader must not fall behind. -/
structure Reader.Floor (reader : Reader) (v : Nat) : Prop where
  before : 2 * reader.before ≤ v
  notified : ∀ seq, reader.notified = some seq → seq.toNat ≤ v
  past : ∀ ret ∈ reader.returns, ret.seq.toNat ≤ v

theorem Reader.Floor.mono {reader : Reader} {v v' : Nat} (h : reader.Floor v) (hle : v ≤ v') :
    reader.Floor v' :=
  { before := Nat.le_trans h.before hle
    notified := fun seq hseq => Nat.le_trans (h.notified seq hseq) hle
    past := fun ret hret => Nat.le_trans (h.past ret hret) hle }

/-- A return, in terms of numbers of writes. -/
structure FrameReturn.Sound (written : List WriteRecord) (ret : FrameReturn) : Prop where
  even : ret.seq.toNat % 2 = 0
  known : ret.seq.toNat ≤ 2 * written.length
  frame : ret.frame = frameAt written (ret.seq.toNat / 2)
  fresh : 2 * ret.before ≤ ret.seq.toNat
  notified : ∀ seq, ret.notified = some seq → seq.toNat ≤ ret.seq.toNat

theorem FrameReturn.Sound.append {written : List WriteRecord} {ret : FrameReturn}
    (h : ret.Sound written) (more : List WriteRecord) : ret.Sound (written ++ more) := by
  refine ⟨h.even, ?_, ?_, h.fresh, h.notified⟩
  · rw [List.length_append]
    exact Nat.le_trans h.known (Nat.mul_le_mul_left 2 (Nat.le_add_right _ _))
  · have hknown := h.known
    rw [frameAt_append (by omega) more]
    exact h.frame

/-- A reader inside `read_frame`. -/
def ActiveInv (written : List WriteRecord) (counter : Nat) (reader : Reader) : ReaderPc → Prop
  | .idle => True
  | .awaiting => True
  | .loading => reader.Floor (2 * written.length)
  | .copying s1 i frame =>
      reader.Floor s1.toNat ∧ s1.toNat ≤ 2 * written.length ∧
        Snapshot (frameAt written) counter s1.toNat (fun j => j.val < i) frame

structure ReaderInv (written : List WriteRecord) (counter : Nat) (reader : Reader) : Prop where
  inbox : ∀ seq, ServerMsg.audioReady seq ∈ reader.inbox → seq.toNat ≤ 2 * written.length
  sound : ∀ ret ∈ reader.returns, ret.Sound written
  sorted : reader.returns.Pairwise fun a b => a.seq.toNat ≤ b.seq.toNat
  active : ActiveInv written counter reader reader.pc

/-- The invariant of a reader survives whatever the writer does. -/
theorem ReaderInv.advance {written : List WriteRecord} {counter counter' : Nat} {reader : Reader}
    (h : ReaderInv written counter reader) (hle : counter ≤ counter') (more : List WriteRecord) :
    ReaderInv (written ++ more) counter' reader := by
  have hgrow : 2 * written.length ≤ 2 * (written ++ more).length := by
    rw [List.length_append]
    exact Nat.mul_le_mul_left 2 (Nat.le_add_right _ _)
  refine ⟨?_, ?_, h.sorted, ?_⟩
  · intro seq hseq
    exact Nat.le_trans (h.inbox seq hseq) hgrow
  · intro ret hret
    exact (h.sound ret hret).append more
  · have hactive := h.active
    cases hpc : reader.pc with
    | idle => trivial
    | awaiting => trivial
    | loading =>
        rw [hpc] at hactive
        exact hactive.mono hgrow
    | copying s1 i frame =>
        rw [hpc] at hactive
        rcases hactive with ⟨hfloor, hknown, hsnap⟩
        refine ⟨hfloor, Nat.le_trans hknown hgrow, hsnap.advance hle fun _ => ?_⟩
        exact frameAt_append (by omega) more

/-- The part of the invariant that does not speak about the current call. -/
theorem ReaderInv.past_le {written : List WriteRecord} {counter : Nat} {reader : Reader}
    (h : ReaderInv written counter reader) :
    ∀ ret ∈ reader.returns, ret.seq.toNat ≤ 2 * written.length :=
  fun ret hret => (h.sound ret hret).known

/-- Entering `read_frame`. -/
theorem ReaderInv.enter {written : List WriteRecord} {counter : Nat} {reader : Reader}
    (h : ReaderInv written counter reader) {notified : Option UInt64}
    (hnotified : ∀ seq, notified = some seq → seq.toNat ≤ 2 * written.length) :
    ReaderInv written counter (reader.enter notified written.length) :=
  { inbox := h.inbox
    sound := h.sound
    sorted := h.sorted
    active :=
      { before := Nat.le_refl _
        notified := hnotified
        past := h.past_le } }

/-- Messages come and go; the notifications among them are for complete writes. -/
theorem ReaderInv.setInbox {written : List WriteRecord} {counter : Nat} {reader : Reader}
    (h : ReaderInv written counter reader) (client : Cm108Client) {inbox : List ServerMsg}
    (hinbox : ∀ seq, ServerMsg.audioReady seq ∈ inbox → seq.toNat ≤ 2 * written.length) :
    ReaderInv written counter { reader with client := client, inbox := inbox } :=
  { inbox := hinbox
    sound := h.sound
    sorted := h.sorted
    active := by
      have hactive := h.active
      cases hpc : reader.pc with
      | idle => trivial
      | awaiting => trivial
      | loading =>
          rw [hpc] at hactive
          exact ⟨hactive.before, hactive.notified, hactive.past⟩
      | copying s1 i frame =>
          rw [hpc] at hactive
          exact ⟨⟨hactive.1.before, hactive.1.notified, hactive.1.past⟩, hactive.2⟩ }

/-- A notification that `read_audio_blocking` accepts is the message it read. -/
theorem wantAudio_some {lastSeq seq : UInt64} {m : ServerMsg} (h : wantAudio lastSeq m = some seq) :
    m = .audioReady seq ∧ lastSeq < seq := by
  cases m with
  | audioReady q =>
      by_cases hlt : q > lastSeq
      · simp only [wantAudio, if_pos hlt, Option.some.injEq] at h
        subst h
        exact ⟨rfl, hlt⟩
      · simp [wantAudio, hlt] at h
  | _ => cases h

theorem ReaderInv.receive {written : List WriteRecord} {counter : Nat} {reader reader' : Reader}
    (h : ReaderInv written counter reader)
    (hstep : reader.receive written.length = some reader') : ReaderInv written counter reader' := by
  unfold Reader.receive at hstep
  split at hstep
  · rename_i m inbox _ hbox
    have hrest : ∀ seq, ServerMsg.audioReady seq ∈ inbox → seq.toNat ≤ 2 * written.length := by
      intro seq hseq
      apply h.inbox
      rw [hbox]
      exact List.mem_cons_of_mem _ hseq
    cases hwant : wantAudio reader.client.lastSeq m with
    | none =>
        -- the message is passed over
        simp only [hwant, Option.some.injEq] at hstep
        subst hstep
        exact h.setInbox reader.client hrest
    | some seq =>
        simp only [hwant, Option.some.injEq] at hstep
        subst hstep
        -- the call goes on to `read_frame`, which must not fall behind the notification
        refine (h.setInbox { lastSeq := seq } hrest).enter ?_
        intro seq' hseq'
        cases hseq'
        apply h.inbox
        rw [hbox, (wantAudio_some hwant).1]
        exact List.mem_cons_self ..
  · cases hstep

theorem ReaderInv.takeMsg {written : List WriteRecord} {counter : Nat} {reader reader' : Reader}
    (h : ReaderInv written counter reader) (hstep : reader.takeMsg = some reader') :
    ReaderInv written counter reader' := by
  unfold Reader.takeMsg at hstep
  split at hstep
  · rename_i m inbox _ hbox
    simp only [Option.some.injEq] at hstep
    subst hstep
    refine h.setInbox reader.client ?_
    intro seq hseq
    apply h.inbox
    rw [hbox]
    exact List.mem_cons_of_mem _ hseq
  · cases hstep

/-! ## One access of `read_frame` -/

/-- A copy that is accepted is the frame of one write. -/
theorem ReaderInv.accept {written : List WriteRecord} {counter : Nat} {reader : Reader}
    {s1 : UInt64} {i : Nat} {frame : FrameImage} (h : ReaderInv written counter reader)
    (hpc : reader.pc = .copying s1 i frame) (hi : frameBytes ≤ i) (hsame : counter = s1.toNat) :
    ReaderInv written counter
      { reader with
        pc := .idle
        returns := reader.returns ++
          [{ notified := reader.notified
             before := reader.before
             seq := s1
             frame := frame }] } := by
  have hactive := h.active
  rw [hpc] at hactive
  rcases hactive with ⟨hfloor, hknown, hsnap⟩
  -- the counter has not moved since the first load, so that all bytes are of one write
  refine ⟨h.inbox, ?_, ?_, trivial⟩
  · intro ret hret
    rcases List.mem_append.1 hret with hret | hret
    · exact h.sound ret hret
    · rw [List.mem_singleton.1 hret]
      exact
        { even := hsnap.even
          known := hknown
          frame := hsnap.accept (fun j => Nat.lt_of_lt_of_le j.isLt hi) hsame
          fresh := hfloor.before
          notified := hfloor.notified }
  · refine List.pairwise_append.2 ⟨h.sorted, List.pairwise_singleton _ _, ?_⟩
    intro a ha b hb
    rw [List.mem_singleton.1 hb]
    exact hfloor.past a ha

theorem ReaderInv.access {page : Page} {written : List WriteRecord} {pc : WriterPc}
    {reader reader' : Reader} (hpage : PageInv page written pc)
    (h : ReaderInv written page.seq.toNat reader) (hstep : reader.access page = some reader') :
    ReaderInv written page.seq.toNat reader' := by
  have hactive := h.active
  unfold Reader.access at hstep
  split at hstep
  · rename_i hpc
    rw [hpc] at hactive
    by_cases hodd : page.seq % 2 ≠ 0
    · -- A write is under way: the reader spins.
      simp only [if_pos hodd, Option.some.injEq] at hstep
      subst hstep
      exact h
    · simp only [if_neg hodd, Option.some.injEq] at hstep
      subst hstep
      have heven : page.seq.toNat % 2 = 0 := by
        have hnot := mt toNat_mod_two_ne.2 hodd
        exact Decidable.not_not.1 hnot
      -- an even counter is that of the last complete write, so that the call falls behind nothing
      have hseq := (hpage.holds heven).seq
      exact
        { inbox := h.inbox
          sound := h.sound
          sorted := h.sorted
          active := by
            have hfloor : reader.Floor page.seq.toNat := by
              rw [hseq]
              exact hactive
            exact ⟨⟨hfloor.before, hfloor.notified, hfloor.past⟩, Nat.le_of_eq hseq,
              Snapshot.start heven (fun j => Nat.not_lt_zero j.val) zeroImage⟩ }
  · rename_i s1 i frame hpc
    rw [hpc] at hactive
    rcases hactive with ⟨hfloor, hknown, hsnap⟩
    by_cases hi : i < frameBytes
    · -- a byte is the one of the version that the counter names, or the counter has moved on
      simp only [dif_pos hi, Option.some.injEq] at hstep
      subst hstep
      have hcells : page.seq.toNat % 2 = 0 → page.data = frameAt written (page.seq.toNat / 2) := by
        intro heven
        have hholds := hpage.holds heven
        rw [hholds.data, hholds.seq, Nat.mul_div_cancel_left _ (by decide)]
      exact
        { inbox := h.inbox
          sound := h.sound
          sorted := h.sorted
          active := ⟨⟨hfloor.before, hfloor.notified, hfloor.past⟩, hknown,
            hsnap.copy ⟨i, hi⟩ hcells fun j hj =>
              (Nat.lt_succ_iff_lt_or_eq.1 hj).symm.imp_left Fin.ext⟩ }
    · by_cases hsame : page.seq = s1
      · simp only [dif_neg hi, if_pos hsame, Option.some.injEq] at hstep
        subst hstep
        exact h.accept hpc (Nat.le_of_not_lt hi) (by rw [hsame])
      · -- the counter has moved on: the copy is thrown away
        simp only [dif_neg hi, if_neg hsame, Option.some.injEq] at hstep
        subst hstep
        have hretry := hfloor.mono hknown
        exact
          { inbox := h.inbox
            sound := h.sound
            sorted := h.sorted
            active := ⟨hretry.before, hretry.notified, hretry.past⟩ }
  · cases hstep

/-! ## Whole runs -/

structure ShmemInv (w : ShmemWorld) : Prop where
  page : PageInv w.page w.written w.writer
  numbered : Numbered w.written
  readers : ∀ r, ReaderInv w.written w.page.seq.toNat (w.readers r)

theorem shmemInv_start : ShmemInv ShmemWorld.start := by
  refine ⟨⟨rfl, rfl⟩, ?_, ?_⟩
  · intro k rec hk
    simp [ShmemWorld.start] at hk
  · intro r
    refine ⟨?_, ?_, List.Pairwise.nil, trivial⟩
    · intro seq hseq
      simp [ShmemWorld.start, Reader.connected] at hseq
    · intro ret hret
      simp [ShmemWorld.start, Reader.connected] at hret

/-- A step of one client keeps the invariant if it keeps that of the client. -/
theorem ShmemInv.setReader {w : ShmemWorld} (h : ShmemInv w) {r : Nat} {reader : Reader}
    (hreader : ReaderInv w.written w.page.seq.toNat reader) : ShmemInv (w.setReader r reader) := by
  refine ⟨h.page, h.numbered, ?_⟩
  intro r'
  by_cases hr : r' = r
  · subst hr
    simpa [ShmemWorld.setReader] using hreader
  · simpa [ShmemWorld.setReader, hr] using h.readers r'

/-- The counter does not wrap. -/
theorem toNat_add_small {v k : UInt64} {n : Nat} (hv : v.toNat = 2 * n) (hk : k.toNat ≤ 2)
    (hn : n + 1 < 2 ^ 63) : (v + k).toNat = 2 * n + k.toNat := by
  rw [UInt64.toNat_add, hv]
  exact Nat.mod_eq_of_lt (by omega)

/-- Every step of the dispatch thread keeps the invariant. -/
theorem ShmemInv.dispatchMove {w t : ShmemWorld} {a : WriterAct} (h : ShmemInv w)
    (hmove : DispatchMove w a t) (hbound : t.begun < 2 ^ 63) : ShmemInv t := by
  have hpage := h.page
  cases hmove with
  | write frame hpc =>
      rw [hpc] at hpage
      exact ⟨⟨hpage, rfl⟩, h.numbered, h.readers⟩
  | oddCounter hpc =>
      -- A write is under way, and the array is still the last version.
      rw [hpc] at hpage
      rcases hpage with ⟨hholds, rfl⟩
      have hodd : (w.page.seq + 1).toNat = 2 * w.written.length + 1 :=
        toNat_add_small hholds.seq (by decide) hbound
      refine ⟨⟨hholds.seq, hodd, by simpa using hholds.data⟩, h.numbered, ?_⟩
      intro r
      have hle : w.page.seq.toNat ≤ (w.page.seq + 1).toNat := by
        rw [hodd, hholds.seq]
        exact Nat.le_succ _
      simpa using (h.readers r).advance hle []
  | byte hpc hi =>
      -- The counter stays odd.
      rw [hpc] at hpage
      rcases hpage with ⟨hcur, hodd, hdata⟩
      refine ⟨⟨hcur, hodd, ?_⟩, h.numbered, h.readers⟩
      rw [hdata]
      exact update_replaced hi _ _
  | evenCounter hpc hi =>
      -- The new version is complete.
      rename_i frame cur i
      rw [hpc] at hpage
      rcases hpage with ⟨hcur, hodd, hdata⟩
      have hlen : (w.written ++ [{ seq := cur + 2, frame := frame : WriteRecord }]).length =
          w.written.length + 1 := by
        simp
      have hnew : (cur + 2).toNat = 2 * w.written.length + 2 := by
        apply toNat_add_small hcur (by decide)
        simpa [ShmemWorld.begun] using hbound
      refine ⟨⟨⟨?_, ?_⟩, rfl⟩, h.numbered.snoc hnew, ?_⟩
      · rw [hlen]
        exact hnew
      · rw [hlen]
        change w.page.data = _
        rw [hdata, replaced_all (Nat.le_of_not_lt hi), frameAt_last]
      · intro r
        apply (h.readers r).advance
        change w.page.seq.toNat ≤ (cur + 2).toNat
        rw [hodd, hnew]
        exact Nat.le_succ _
  | endNotify hpc =>
      rw [hpc] at hpage
      exact ⟨hpage.1, h.numbered, h.readers⟩

/-- A message that is no newer notification than the writes complete may join the inbox. -/
theorem ReaderInv.push {written : List WriteRecord} {counter : Nat} {reader : Reader}
    (h : ReaderInv written counter reader) {m : ServerMsg}
    (hm : ∀ seq, m = .audioReady seq → seq.toNat ≤ 2 * written.length) :
    ReaderInv written counter { reader with inbox := reader.inbox ++ [m] } := by
  refine h.setInbox reader.client ?_
  intro seq hseq
  rcases List.mem_append.1 hseq with hseq | hseq
  · exact h.inbox seq hseq
  · exact hm seq (List.mem_singleton.1 hseq).symm

/-- Every step of a client keeps its half of the invariant. -/
theorem ReaderInv.step {w : ShmemWorld} (hpage : PageInv w.page w.written w.writer)
    {reader reader' : Reader} (h : ReaderInv w.written w.page.seq.toNat reader) {a : ReaderAct}
    (hstep : reader.step w a = some reader') :
    ReaderInv w.written w.page.seq.toNat reader' := by
  cases a with
  | receive => exact h.receive hstep
  | takeMsg => exact h.takeMsg hstep
  | access => exact h.access hpage hstep
  | notify =>
      cases hpc : w.writer with
      | notifying new =>
          -- the number on its way is that of the last complete write
          simp only [Reader.step, hpc, Option.some.injEq] at hstep
          subst hstep
          rw [hpc] at hpage
          rcases hpage with ⟨hholds, rfl⟩
          refine h.push fun seq hseq => ?_
          cases hseq
          exact Nat.le_of_eq hholds.seq
      | _ => simp [Reader.step, hpc] at hstep
  | message m =>
      cases hready : m.isAudioReady with
      | true => simp [Reader.step, hready] at hstep
      | false =>
          simp only [Reader.step, hready, Bool.false_eq_true, if_false, Option.some.injEq] at hstep
          subst hstep
          refine h.push fun seq hseq => ?_
          rw [hseq] at hready
          cases hready
  | readLatest =>
      cases hpc : reader.pc with
      | idle =>
          simp only [Reader.step, hpc, Option.some.injEq] at hstep
          subst hstep
          exact h.enter fun seq hseq => by cases hseq
      | _ => simp [Reader.step, hpc] at hstep
  | readAudio =>
      cases hpc : reader.pc with
      | idle =>
          simp only [Reader.step, hpc, Option.some.injEq] at hstep
          subst hstep
          exact ⟨h.inbox, h.sound, h.sorted, trivial⟩
      | _ => simp [Reader.step, hpc] at hstep

/-- Every step keeps the invariant. -/
theorem ShmemInv.step {w t : ShmemWorld} (h : ShmemInv w) {a : ShmemAct}
    (hstep : w.step a = some t) (hbound : t.begun < 2 ^ 63) : ShmemInv t := by
  cases a with
  | writer a => exact h.dispatchMove (dispatchMove_of_step hstep) hbound
  | client r a =>
      rcases Option.map_eq_some_iff.1 hstep with ⟨reader, hreader, rfl⟩
      exact h.setReader ((h.readers r).step h.page hreader)

/-- No step takes back a write. -/
theorem ShmemWorld.begun_le {w t : ShmemWorld} {a : ShmemAct} (hstep : w.step a = some t) :
    w.begun ≤ t.begun := by
  cases a with
  | client r a =>
      rcases Option.map_eq_some_iff.1 hstep with ⟨reader, _, rfl⟩
      exact Nat.le_refl _
  | writer a =>
      -- A store belongs to a write that has begun already.
      cases dispatchMove_of_step hstep with
      | write frame hpc => simp [begun, hpc]
      | oddCounter hpc => simp [begun, hpc]
      | byte hpc hi => simp [begun, hpc]
      | evenCounter hpc hi => simp [begun, hpc]
      | endNotify hpc => simp [begun, hpc]

theorem shmemInv_of_trace {tr : List (ShmemWorld × ShmemAct)} {w : ShmemWorld}
    (h : Trace shmemSystem tr w) (hbound : w.begun < 2 ^ 63) : ShmemInv w := by
  induction h with
  | start => exact shmemInv_start
  | snoc htr hstep ih =>
      have hle := ShmemWorld.begun_le hstep
      exact (ih (Nat.lt_of_le_of_lt hle hbound)).step hstep hbound

/-- The return in terms of the writes themselves. -/
theorem FrameReturn.Sound.linearized {written : List WriteRecord} (hnum : Numbered written)
    {ret : FrameReturn} (h : ret.Sound written) : ret.Linearized written := by
  have hknown := h.known
  have heven := h.even
  have hfresh := h.fresh
  refine ⟨?_, ⟨by omega, ?_⟩, fun seq hseq => UInt64.le_iff_toNat_le.2 (h.notified seq hseq)⟩
  · cases hk : ret.seq.toNat / 2 with
    | zero =>
        -- number 0 is the page before the first write
        have hzero : ret.seq = 0 := by
          apply UInt64.toNat_inj.1
          rw [UInt64.toNat_zero]
          omega
        refine Or.inl ⟨hzero, ?_⟩
        rw [h.frame, hk]
        rfl
    | succ k =>
        have hlt : k < written.length := by omega
        refine Or.inr ⟨written[k], List.getElem_mem hlt, ?_, ?_⟩
        · apply UInt64.toNat_inj.1
          rw [hnum k written[k] (List.getElem?_eq_getElem hlt)]
          omega
        · rw [h.frame, hk, frameAt, version_mem (by simpa using hlt)]
          simp
  · intro rec hrec
    rcases List.getElem?_of_mem hrec with ⟨k, hk⟩
    -- a write complete before the call is among the first `ret.before`
    have hkb : k < ret.before := by
      by_contra hge
      have hnone : (written.take ret.before)[k]? = none :=
        List.getElem?_eq_none (by rw [List.length_take]; omega)
      rw [hnone] at hk
      cases hk
    rw [List.getElem?_take_of_lt hkb] at hk
    rw [UInt64.le_iff_toNat_le, hnum k rec hk]
    omega

/-- In every interleaving of one writer and any number of readers with fewer than `2 ^ 63` writes,
every frame read is the frame of one write, no older than the writes complete before the call, than
the write notified, and than the frames the same client got before. -/
theorem seqlock_linearized {tr : List (ShmemWorld × ShmemAct)} {w : ShmemWorld}
    (h : Trace shmemSystem tr w) (hbound : w.begun < 2 ^ 63) : Linearized w := by
  have hinv := shmemInv_of_trace h hbound
  constructor
  · intro r ret hret
    exact ((hinv.readers r).sound ret hret).linearized hinv.numbered
  · intro r
    exact (hinv.readers r).sorted.imp fun hle => UInt64.le_iff_toNat_le.2 hle

/-- A page full of one byte. -/
def solid (b : UInt8) : FrameImage := fun _ => b

/-- A second write overtakes client 0 behind the first byte of its copy; the client copies again,
and then calls `read_audio_blocking`. -/
theorem seqlock_linearized_overtaken :
    ∃ tr w, Trace shmemSystem tr w ∧
      (w.readers 0).returns.map (fun ret => (ret.notified, ret.seq, ret.frame)) =
        [(none, 4, solid 2), (some 2, 4, solid 2)] ∧
      Linearized w := by
  have hfirst := Trace.start.exec (exec_publish (w := ShmemWorld.start) rfl (solid 1) 0)
  have hcall := hfirst.snoc (a := .client 0 .readLatest) rfl
  have hload := hcall.snoc (a := .client 0 .access) rfl
  have hbyte := hload.snoc (a := .client 0 .access) rfl
  have hsecond := hbyte.exec (exec_publish rfl (solid 2) 0)
  have hagain := hsecond.exec (exec_throwAway (r := 0) 191 rfl rfl (by decide))
  have hread := hagain.exec (exec_read (r := 0) rfl rfl)
  have hfetch := hread.exec (exec_fetch 2 (r := 0) rfl rfl rfl rfl)
  exact ⟨_, _, hfetch, rfl, seqlock_linearized hfetch (by decide)⟩

end Cm108Driver
