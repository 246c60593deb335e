import Cm108Driver.Shmem.WeakOrder

/-!
# NotTorn — no torn frame when the stores and loads take effect in order

Under `InOrder` the waiting stores are, at any time, either whole writes, or what is left of one
byte copy followed by its even counter and whole writes.  The visible page therefore goes through
the same states as under sequential consistency, and the copy of a reader is a snapshot of it.
-/

namespace Cm108Driver

open Lib

/-! ## The shape of the queue -/

/-- The stores of the given frames, the first of which is write number `m + 1`. -/
def storesFrom : Nat → List FrameImage → List StoreOp
  | _, [] => []
  | m, frame :: frames => storesOf frame (UInt64.ofNat (2 * m)) ++ storesFrom (m + 1) frames

theorem storesFrom_snoc (m : Nat) (frames : List FrameImage) (frame : FrameImage) :
    storesFrom m (frames ++ [frame]) =
      storesFrom m frames ++ storesOf frame (UInt64.ofNat (2 * (m + frames.length))) := by
  induction frames generalizing m with
  | nil => simp [storesFrom]
  | cons f fs ih =>
      have hnum : m + 1 + fs.length = m + (f :: fs).length := by
        rw [List.length_cons]
        omega
      rw [List.cons_append, storesFrom, storesFrom, ih, List.append_assoc, hnum]

/-- Between two writes: `m` writes are visible, and none of the stores behind them. -/
structure Settled (w : WeakWorld) (m : Nat) : Prop where
  le : m ≤ w.written.length
  seq : w.page.seq = UInt64.ofNat (2 * m)
  data : w.page.data = version zeroImage w.written m
  pending : w.pending = storesFrom m (w.written.drop m)

/-- In the byte copy of write number `m + 1`: the stores `bytes` of it are still waiting. -/
structure Copying (w : WeakWorld) (m : Nat) (frame : FrameImage) (bytes : List StoreOp) : Prop where
  writing : w.written[m]? = some frame
  seq : w.page.seq = UInt64.ofNat (2 * m + 1)
  pending : w.pending =
    bytes ++ .counter (UInt64.ofNat (2 * (m + 1))) :: storesFrom (m + 1) (w.written.drop (m + 1))
  only : ∀ st ∈ bytes, ∃ j, st = .byte j (frame j)
  covers : ∀ j, w.page.data j = frame j ∨ .byte j (frame j) ∈ bytes

/-- The counter that is visible, as a number. -/
def VisibleCounter (w : WeakWorld) (c : Nat) : Prop :=
  (∃ m, c = 2 * m ∧ Settled w m) ∨ ∃ m frame bytes, c = 2 * m + 1 ∧ Copying w m frame bytes

theorem VisibleCounter.seq {w : WeakWorld} {c : Nat} (h : VisibleCounter w c) :
    w.page.seq = UInt64.ofNat c := by
  rcases h with ⟨m, rfl, hm⟩ | ⟨m, frame, bytes, rfl, hm⟩
  · exact hm.seq
  · exact hm.seq

theorem VisibleCounter.le {w : WeakWorld} {c : Nat} (h : VisibleCounter w c) :
    c ≤ 2 * w.written.length := by
  rcases h with ⟨m, rfl, hm⟩ | ⟨m, frame, bytes, rfl, hm⟩
  · exact Nat.mul_le_mul_left 2 hm.le
  · have hlt := (List.getElem?_eq_some_iff.1 hm.writing).1
    omega

/-- With an even counter the page holds a version. -/
theorem VisibleCounter.data {w : WeakWorld} {c : Nat} (h : VisibleCounter w c)
    (heven : c % 2 = 0) : w.page.data = version zeroImage w.written (c / 2) := by
  rcases h with ⟨m, rfl, hm⟩ | ⟨m, frame, bytes, rfl, hm⟩
  · rw [Nat.mul_div_cancel_left _ (by decide)]
    exact hm.data
  · omega

/-! ## A store becomes visible -/

theorem makeVisible_cases {w t : WeakWorld} {k : Nat} (h : w.makeVisible k = some t) :
    (∃ v, w.pending[k]? = some (.counter v) ∧ k = 0 ∧
      t = { w with page := { w.page with seq := v }, pending := w.pending.eraseIdx k }) ∨
    ∃ j v, w.pending[k]? = some (.byte j v) ∧
      t = { w with
        page := { w.page with data := Function.update w.page.data j v }
        pending := w.pending.eraseIdx k } := by
  unfold WeakWorld.makeVisible at h
  split at h
  · rename_i v hk
    by_cases hzero : k = 0
    · simp only [if_pos hzero, Option.some.injEq] at h
      exact Or.inl ⟨v, hk, hzero, h.symm⟩
    · simp [hzero] at h
  · rename_i j v hk
    split at h
    · cases h
    · exact Or.inr ⟨j, v, hk, (Option.some.inj h).symm⟩
  · cases h

theorem ofNat_two_mul_add (m : Nat) (k : Nat) :
    UInt64.ofNat (2 * m) + UInt64.ofNat k = UInt64.ofNat (2 * m + k) :=
  (UInt64.ofNat_add (2 * m) k).symm

/-- Between two writes only the odd counter of the next one can become visible. -/
theorem Settled.makeVisible {w t : WeakWorld} {m k : Nat} (h : Settled w m)
    (hord : InOrder w (.visible k)) (hstep : w.makeVisible k = some t) :
    ∃ frame bytes, Copying t m frame bytes := by
  have hpending := h.pending
  cases hdrop : w.written.drop m with
  | nil =>
      -- every write is visible, and no store waits
      rw [hdrop, storesFrom] at hpending
      rcases makeVisible_cases hstep with ⟨v, hk, _⟩ | ⟨j, v, hk, _⟩
      · simp [hpending] at hk
      · simp [hpending] at hk
  | cons frame frames =>
      rw [hdrop, storesFrom, storesOf, List.cons_append, List.append_assoc] at hpending
      have hwriting : w.written[m]? = some frame := by
        have hhead := congrArg List.head? hdrop
        simpa using hhead
      have hrest : w.written.drop (m + 1) = frames := by
        have htail := congrArg List.tail hdrop
        simpa using htail
      rcases makeVisible_cases hstep with ⟨v, hk, rfl, rfl⟩ | ⟨j, v, hk, _⟩
      · rw [hpending] at hk
        have hv : UInt64.ofNat (2 * m) + 1 = v := by simpa using hk
        subst hv
        refine ⟨frame, byteStores frame, hwriting, ofNat_two_mul_add m 1, ?_, ?_, ?_⟩
        · change w.pending.eraseIdx 0 = _
          rw [hpending, hrest]
          simp [Nat.mul_add]
        · intro st hst
          rcases List.mem_map.1 hst with ⟨j, _, rfl⟩
          exact ⟨j, rfl⟩
        · intro j
          exact Or.inr (List.mem_map.2 ⟨j, List.mem_finRange j, rfl⟩)
      · -- A byte would overtake the odd counter in front of it.
        cases k with
        | zero => simp [hpending] at hk
        | succ k =>
            have hcounter := hord j v hk (.counter (UInt64.ofNat (2 * m) + 1)) (by simp [hpending])
            cases hcounter

/-- The even counter becomes visible when no byte of the copy is left. -/
theorem Copying.settle {w t : WeakWorld} {m : Nat} {v : UInt64} {frame : FrameImage}
    {bytes : List StoreOp} (h : Copying w m frame bytes) (hfirst : w.pending[0]? = some (.counter v))
    (ht : t = { w with page := { w.page with seq := v }, pending := w.pending.eraseIdx 0 }) :
    Settled t (m + 1) := by
  have hpending := h.pending
  subst ht
  cases bytes with
  | cons b bs =>
      rcases h.only b (List.mem_cons_self ..) with ⟨j, rfl⟩
      simp [hpending] at hfirst
  | nil =>
      have hlt := (List.getElem?_eq_some_iff.1 h.writing).1
      rw [List.nil_append] at hpending
      have hv : UInt64.ofNat (2 * (m + 1)) = v := by simpa [hpending] using hfirst
      subst hv
      refine ⟨hlt, rfl, ?_, ?_⟩
      · funext j
        rcases h.covers j with hj | hj
        · calc
            w.page.data j = frame j := hj
            _ = w.written[m] j := by rw [(List.getElem?_eq_some_iff.1 h.writing).2]
            _ = version zeroImage w.written (m + 1) j := by rw [version_mem hlt]
        · cases hj
      · change w.pending.eraseIdx 0 = _
        rw [hpending]
        rfl

/-- A byte that becomes visible belongs to the copy: nothing overtakes the even counter. -/
theorem Copying.isByte {w : WeakWorld} {m k : Nat} {frame : FrameImage} {bytes : List StoreOp}
    {j : Fin frameBytes} {v : UInt8} (h : Copying w m frame bytes) (hord : InOrder w (.visible k))
    (hk : w.pending[k]? = some (.byte j v)) : bytes[k]? = some (.byte j (frame j)) := by
  have hpending := h.pending
  rcases Nat.lt_trichotomy k bytes.length with hlt | heq | hgt
  · rw [hpending, List.getElem?_append_left hlt] at hk
    -- it is a byte of this frame, whichever one
    rcases h.only _ (List.mem_of_getElem? hk) with ⟨i, hi⟩
    cases hi
    exact hk
  · simp [hpending, heq] at hk
  · have hcounter := hord j v hk (.counter (UInt64.ofNat (2 * (m + 1)))) (by
      rw [hpending, List.take_append, List.mem_append]
      right
      rcases Nat.exists_eq_succ_of_ne_zero (Nat.sub_ne_zero_of_lt hgt) with ⟨d, hd⟩
      rw [hd, List.take_succ_cons]
      exact List.mem_cons_self ..)
    cases hcounter

theorem mem_eraseIdx_of_ne {α : Type} {l : List α} {k : Nat} {a b : α} (hk : l[k]? = some b)
    (hne : a ≠ b) (ha : a ∈ l) : a ∈ l.eraseIdx k := by
  rcases List.mem_iff_getElem?.1 ha with ⟨p, hp⟩
  refine List.mem_eraseIdx_iff_getElem?.2 ⟨p, ?_, hp⟩
  rintro rfl
  exact hne (Option.some.inj (hp.symm.trans hk))

/-- In a byte copy the remaining bytes become visible in any order, and then the even counter. -/
theorem Copying.makeVisible {w t : WeakWorld} {m k : Nat} {frame : FrameImage}
    {bytes : List StoreOp} (h : Copying w m frame bytes) (hord : InOrder w (.visible k))
    (hstep : w.makeVisible k = some t) :
    (∃ bytes', Copying t m frame bytes') ∨ Settled t (m + 1) := by
  rcases makeVisible_cases hstep with ⟨v, hk, rfl, ht⟩ | ⟨j, v, hk, rfl⟩
  · exact Or.inr (h.settle hk ht)
  · have hbyte := h.isByte hord hk
    have hlt : k < bytes.length := (List.getElem?_eq_some_iff.1 hbyte).1
    have hv : v = frame j := by
      rw [h.pending, List.getElem?_append_left hlt, hbyte] at hk
      cases hk
      rfl
    subst hv
    refine Or.inl ⟨bytes.eraseIdx k, h.writing, h.seq, ?_, ?_, ?_⟩
    · change w.pending.eraseIdx k = _
      rw [h.pending, List.eraseIdx_append_of_lt_length hlt]
    · intro st hst
      exact h.only st (List.mem_of_mem_eraseIdx hst)
    · intro i
      change Function.update w.page.data j (frame j) i = frame i ∨ _
      -- place `j` shows the frame now; the others show it or have their byte waiting as before
      by_cases hij : i = j
      · subst hij
        exact Or.inl (Function.update_self ..)
      · rw [Function.update_of_ne hij]
        have hother : StoreOp.byte i (frame i) ≠ .byte j (frame j) := by
          intro heq
          cases heq
          exact hij rfl
        exact (h.covers i).imp_right (mem_eraseIdx_of_ne hbyte hother)

/-! ## Readers -/

/-- A frame of the run. -/
def IsWritten (written : List FrameImage) (frame : FrameImage) : Prop :=
  frame = zeroImage ∨ frame ∈ written

theorem isWritten_version {written : List FrameImage} {k : Nat} (h : k ≤ written.length) :
    IsWritten written (version zeroImage written k) := by
  cases k with
  | zero => exact Or.inl rfl
  | succ k =>
      rw [version_mem h]
      exact Or.inr (List.getElem_mem h)

/-- A reader behind its first load: the bytes loaded are a snapshot, and a second load that gives
the first value has found it complete. -/
def ReadingInv (written : List FrameImage) (counter : Nat) (s1 : UInt64) (s2 : Option UInt64)
    (bytes : Fin frameBytes → Option UInt8) : Prop :=
  ∃ seen, s1 = UInt64.ofNat seen ∧ seen ≤ 2 * written.length ∧
    Snapshot (version zeroImage written) counter seen (fun j => (bytes j).isSome)
      (assembled bytes) ∧
    (s2 = some s1 → (∀ j, (bytes j).isSome) ∧
      assembled bytes = version zeroImage written (seen / 2))

def WeakPcInv (written : List FrameImage) (counter : Nat) : WeakPc → Prop
  | .idle => True
  | .loading => True
  | .reading s1 s2 bytes => ReadingInv written counter s1 s2 bytes

structure WeakReaderInv (written : List FrameImage) (counter : Nat) (reader : WeakReader) :
    Prop where
  returned : ∀ frame ∈ reader.returned, IsWritten written frame
  pc : WeakPcInv written counter reader.pc

/-- The invariant of a reader survives what the writer does. -/
theorem WeakReaderInv.advance {written : List FrameImage} {counter counter' : Nat}
    {reader : WeakReader} (h : WeakReaderInv written counter reader) (hle : counter ≤ counter')
    (more : List FrameImage) : WeakReaderInv (written ++ more) counter' reader := by
  constructor
  · intro frame hframe
    rcases h.returned frame hframe with hzero | hmem
    · exact Or.inl hzero
    · exact Or.inr (List.mem_append_left _ hmem)
  · have hinv := h.pc
    cases hpc : reader.pc with
    | idle => trivial
    | loading => trivial
    | reading s1 s2 bytes =>
        rw [hpc] at hinv
        rcases hinv with ⟨seen, hseen, hknown, hsnap, hdone⟩
        have hver : version zeroImage (written ++ more) (seen / 2) =
            version zeroImage written (seen / 2) := version_append (by omega) more
        refine ⟨seen, hseen, ?_, hsnap.advance hle fun _ => hver, ?_⟩
        · rw [List.length_append]
          omega
        · rw [hver]
          exact hdone

/-- Numbers below `2 ^ 64` are told apart by their counter value. -/
theorem ofNat_inj {a b : Nat} (ha : a < 2 ^ 64) (hb : b < 2 ^ 64)
    (h : UInt64.ofNat a = UInt64.ofNat b) : a = b := by
  have hnat := congrArg UInt64.toNat h
  rwa [UInt64.toNat_ofNat_of_lt' ha, UInt64.toNat_ofNat_of_lt' hb] at hnat

section Access

variable {w : WeakWorld} {c : Nat} {reader reader' : WeakReader}

theorem WeakReaderInv.firstLoad (hcounter : VisibleCounter w c) (hbound : w.written.length < 2 ^ 63)
    (h : WeakReaderInv w.written c reader) (hstep : reader.firstLoad w.page = some reader') :
    WeakReaderInv w.written c reader' := by
  have hle := hcounter.le
  unfold WeakReader.firstLoad at hstep
  split at hstep
  · by_cases hodd : w.page.seq % 2 ≠ 0
    · simp only [if_pos hodd, Option.some.injEq] at hstep
      subst hstep
      exact h
    · simp only [if_neg hodd, Option.some.injEq] at hstep
      subst hstep
      have heven : c % 2 = 0 := by
        have hnot := Decidable.not_not.1 (mt toNat_mod_two_ne.2 hodd)
        rwa [hcounter.seq, UInt64.toNat_ofNat_of_lt' (show c < 2 ^ 64 by omega)] at hnot
      refine ⟨h.returned, c, hcounter.seq, hle, Snapshot.start heven (fun j => ?_) _, ?_⟩
      · simp
      · intro hnone
        cases hnone
  · cases hstep

/-- A byte load takes one more cell of the snapshot. -/
theorem WeakReaderInv.loadByte (hcounter : VisibleCounter w c)
    (h : WeakReaderInv w.written c reader) {j : Fin frameBytes}
    (hstep : reader.loadByte w.page j = some reader') : WeakReaderInv w.written c reader' := by
  have hinv := h.pc
  unfold WeakReader.loadByte at hstep
  split at hstep
  · rename_i s1 s2 bytes hpc
    rw [hpc] at hinv
    rcases hinv with ⟨seen, hseen, hknown, hsnap, hdone⟩
    by_cases hloaded : (bytes j).isSome
    · simp [hloaded] at hstep
    · simp only [if_neg hloaded, Option.some.injEq] at hstep
      subst hstep
      have hupdate : assembled (Function.update bytes j (some (w.page.data j))) =
          Function.update (assembled bytes) j (w.page.data j) := by
        funext i
        by_cases hij : i = j
        · subst hij
          simp [assembled]
        · simp [assembled, hij]
      refine ⟨h.returned, seen, hseen, hknown, ?_, ?_⟩
      · rw [hupdate]
        refine hsnap.copy j hcounter.data fun i hi => ?_
        by_cases hij : i = j
        · exact Or.inl hij
        · right
          rwa [Function.update_of_ne hij] at hi
      · -- After a second load that found everything loaded there is no byte left to load.
        intro hs2
        exact absurd ((hdone hs2).1 j) hloaded
  · cases hstep

/-- A second load behind all byte loads that gives the first value completes the snapshot. -/
theorem WeakReaderInv.secondLoad (hcounter : VisibleCounter w c)
    (hbound : w.written.length < 2 ^ 63) (h : WeakReaderInv w.written c reader)
    (hall : ∀ s1 s2 bytes, reader.pc = .reading s1 s2 bytes → ∀ j, (bytes j).isSome)
    (hstep : reader.secondLoad w.page = some reader') : WeakReaderInv w.written c reader' := by
  have hinv := h.pc
  have hle := hcounter.le
  unfold WeakReader.secondLoad at hstep
  split at hstep
  · rename_i s1 bytes hpc
    cases hstep
    rw [hpc] at hinv
    rcases hinv with ⟨seen, hseen, hknown, hsnap, _⟩
    refine ⟨h.returned, seen, hseen, hknown, hsnap, ?_⟩
    intro hsame
    have hloaded := hall s1 none bytes hpc
    have hc : c = seen := by
      apply ofNat_inj (by omega) (by omega)
      rw [← hcounter.seq, ← hseen]
      exact Option.some.inj hsame
    exact ⟨hloaded, hsnap.accept hloaded hc⟩
  · cases hstep

theorem WeakReaderInv.finish (h : WeakReaderInv w.written c reader)
    (hstep : reader.finish = some reader') : WeakReaderInv w.written c reader' := by
  have hinv := h.pc
  unfold WeakReader.finish at hstep
  split at hstep
  · rename_i s1 s2 bytes hpc
    rw [hpc] at hinv
    rcases hinv with ⟨seen, _, hknown, _, hdone⟩
    split at hstep
    · split at hstep
      · rename_i hsame
        cases hstep
        refine ⟨?_, trivial⟩
        intro frame hframe
        rcases List.mem_append.1 hframe with hframe | hframe
        · exact h.returned frame hframe
        · rw [List.mem_singleton.1 hframe, (hdone (by rw [hsame])).2]
          exact isWritten_version (by omega)
      · cases hstep
        exact ⟨h.returned, trivial⟩
    · cases hstep
  · cases hstep

end Access

/-! ## Whole runs -/

structure WeakInv (w : WeakWorld) (c : Nat) : Prop where
  latest : w.latest = UInt64.ofNat (2 * w.written.length)
  counter : VisibleCounter w c
  readers : ∀ r, WeakReaderInv w.written c (w.readers r)

theorem weakInv_start : WeakInv WeakWorld.start 0 :=
  { latest := rfl
    counter := Or.inl ⟨0, rfl,
      { le := Nat.le_refl _
        seq := rfl
        data := rfl
        pending := rfl }⟩
    readers := fun r =>
      { returned := fun frame hframe => by cases hframe
        pc := trivial } }

/-- The stores of a new write go behind those of the writes that are waiting. -/
theorem storesFrom_drop {written : List FrameImage} {m : Nat} (h : m ≤ written.length)
    (frame : FrameImage) :
    storesFrom m ((written ++ [frame]).drop m) =
      storesFrom m (written.drop m) ++ storesOf frame (UInt64.ofNat (2 * written.length)) := by
  have hlen : m + (written.drop m).length = written.length := by
    rw [List.length_drop]
    omega
  rw [List.drop_append_of_le_length h, storesFrom_snoc, hlen]

theorem VisibleCounter.write {w : WeakWorld} {c : Nat} (h : VisibleCounter w c)
    (hlatest : w.latest = UInt64.ofNat (2 * w.written.length)) (frame : FrameImage) :
    VisibleCounter
      { w with
        pending := w.pending ++ storesOf frame w.latest
        latest := w.latest + 2
        written := w.written ++ [frame] } c := by
  rcases h with ⟨m, rfl, hm⟩ | ⟨m, cur, bytes, rfl, hm⟩
  · refine Or.inl ⟨m, rfl, ?_, hm.seq, ?_, ?_⟩
    · simp only [List.length_append]
      exact Nat.le_add_right_of_le hm.le
    · change w.page.data = _
      rw [hm.data, version_append hm.le]
    · simp only [hm.pending, hlatest]
      exact (storesFrom_drop hm.le frame).symm
  · have hlt := (List.getElem?_eq_some_iff.1 hm.writing).1
    refine Or.inr ⟨m, cur, bytes, rfl, ?_, hm.seq, ?_, hm.only, hm.covers⟩
    · simp only [List.getElem?_append_left hlt]
      exact hm.writing
    · simp only [hm.pending, hlatest, List.append_assoc, List.cons_append]
      rw [storesFrom_drop hlt frame]

/-- A store that becomes visible in order moves the counter on by one or leaves it. -/
theorem VisibleCounter.makeVisible {w t : WeakWorld} {c k : Nat} (h : VisibleCounter w c)
    (hord : InOrder w (.visible k)) (hstep : w.makeVisible k = some t) :
    ∃ c', c ≤ c' ∧ VisibleCounter t c' := by
  rcases h with ⟨m, rfl, hm⟩ | ⟨m, cur, bytes, rfl, hm⟩
  · rcases hm.makeVisible hord hstep with ⟨frame, bytes, ht⟩
    exact ⟨2 * m + 1, Nat.le_succ _, Or.inr ⟨m, frame, bytes, rfl, ht⟩⟩
  · rcases hm.makeVisible hord hstep with ⟨bytes', ht⟩ | ht
    · exact ⟨2 * m + 1, Nat.le_refl _, Or.inr ⟨m, cur, bytes', rfl, ht⟩⟩
    · exact ⟨2 * (m + 1), by omega, Or.inl ⟨m + 1, rfl, ht⟩⟩

theorem makeVisible_frame {w t : WeakWorld} {k : Nat} (h : w.makeVisible k = some t) :
    t.latest = w.latest ∧ t.written = w.written ∧ t.readers = w.readers := by
  rcases makeVisible_cases h with ⟨v, _, _, rfl⟩ | ⟨j, v, _, rfl⟩
  · exact ⟨rfl, rfl, rfl⟩
  · exact ⟨rfl, rfl, rfl⟩

/-- Readers do not touch the page. -/
theorem VisibleCounter.setReader {w : WeakWorld} {c : Nat} (h : VisibleCounter w c) (r : Nat)
    (reader : WeakReader) : VisibleCounter (w.setReader r reader) c := by
  rcases h with ⟨m, rfl, hm⟩ | ⟨m, cur, bytes, rfl, hm⟩
  · exact Or.inl ⟨m, rfl, hm.le, hm.seq, hm.data, hm.pending⟩
  · exact Or.inr ⟨m, cur, bytes, rfl, hm.writing, hm.seq, hm.pending, hm.only, hm.covers⟩

/-- A step of one reader. -/
theorem WeakInv.setReader {w : WeakWorld} {c : Nat} (h : WeakInv w c) {r : Nat}
    {reader : WeakReader} (hreader : WeakReaderInv w.written c reader) :
    WeakInv (w.setReader r reader) c := by
  refine ⟨h.latest, h.counter.setReader r reader, ?_⟩
  intro r'
  by_cases hr : r' = r
  · subst hr
    simpa [WeakWorld.setReader] using hreader
  · simpa [WeakWorld.setReader, hr] using h.readers r'

theorem WeakInv.step {w t : WeakWorld} {c : Nat} (h : WeakInv w c) {a : WeakAct}
    (hord : InOrder w a) (hstep : w.step a = some t) (hbound : w.written.length < 2 ^ 63) :
    ∃ c', WeakInv t c' := by
  cases a with
  | write frame =>
      cases hstep
      refine ⟨c, ?_, h.counter.write h.latest frame, ?_⟩
      · change w.latest + 2 = _
        rw [h.latest, List.length_append, List.length_singleton, Nat.mul_add]
        exact ofNat_two_mul_add _ 2
      · intro r
        exact (h.readers r).advance (Nat.le_refl c) [frame]
  | visible k =>
      -- the only step that moves what the readers see
      rcases h.counter.makeVisible hord hstep with ⟨c', hle, hcounter⟩
      rcases makeVisible_frame hstep with ⟨hlatest, hwritten, hreaders⟩
      refine ⟨c', by rw [hlatest, hwritten, h.latest], hcounter, ?_⟩
      intro r
      rw [hwritten, hreaders]
      simpa using (h.readers r).advance hle []
  | call r =>
      simp only [WeakWorld.step] at hstep
      split at hstep
      · cases hstep
        exact ⟨c, h.setReader ⟨(h.readers r).returned, trivial⟩⟩
      · cases hstep
  | firstLoad r =>
      rcases Option.map_eq_some_iff.1 hstep with ⟨reader, hload, rfl⟩
      exact ⟨c, h.setReader ((h.readers r).firstLoad h.counter hbound hload)⟩
  | loadByte r j =>
      rcases Option.map_eq_some_iff.1 hstep with ⟨reader, hload, rfl⟩
      exact ⟨c, h.setReader ((h.readers r).loadByte h.counter hload)⟩
  | secondLoad r =>
      rcases Option.map_eq_some_iff.1 hstep with ⟨reader, hload, rfl⟩
      exact ⟨c, h.setReader ((h.readers r).secondLoad h.counter hbound hord hload)⟩
  | finish r =>
      rcases Option.map_eq_some_iff.1 hstep with ⟨reader, hfinish, rfl⟩
      exact ⟨c, h.setReader ((h.readers r).finish hfinish)⟩

/-- No step takes back a write. -/
theorem WeakWorld.written_le {w t : WeakWorld} {a : WeakAct} (hstep : w.step a = some t) :
    w.written.length ≤ t.written.length := by
  cases a with
  | write frame =>
      cases hstep
      simp
  | visible k => exact Nat.le_of_eq (by rw [(makeVisible_frame hstep).2.1])
  | call r =>
      simp only [step] at hstep
      split at hstep
      · cases hstep
        exact Nat.le_refl _
      · cases hstep
  | _ =>
      rcases Option.map_eq_some_iff.1 hstep with ⟨reader, _, rfl⟩
      exact Nat.le_refl _

/-- When every byte becomes visible behind the counter stores in front of it and every second load
takes effect behind the byte loads, with fewer than `2 ^ 63` writes, no frame returned is a mixture
of two writes. -/
theorem notTorn_of_inOrder {tr : List (WeakWorld × WeakAct)} {w : WeakWorld}
    (h : Trace weakSystem tr w) (hord : Guarded InOrder tr) (hbound : w.written.length < 2 ^ 63) :
    NotTorn w := by
  have hinv : ∃ c, WeakInv w c := by
    induction h with
    | start => exact ⟨0, weakInv_start⟩
    | snoc htr hstep ih =>
        have hprev := Nat.lt_of_le_of_lt (WeakWorld.written_le hstep) hbound
        rcases (guarded_snoc _ _ _ _).1 hord with ⟨hbefore, hlast⟩
        rcases ih hbefore hprev with ⟨c, hc⟩
        exact hc.step hlast hstep hprev
  rcases hinv with ⟨c, hc⟩
  exact fun r => (hc.readers r).returned

/-! ## Undisturbed runs -/

def StoreOp.apply (page : Page) : StoreOp → Page
  | .counter v => { page with seq := v }
  | .byte j v => { page with data := Function.update page.data j v }

/-- All waiting stores become visible in program order. -/
theorem exec_visible (stores : List StoreOp) {w : WeakWorld} (h : w.pending = stores) :
    weakSystem.exec w (List.replicate stores.length (.visible 0)) =
      some { w with page := stores.foldl StoreOp.apply w.page, pending := [] } := by
  induction stores generalizing w with
  | nil =>
      cases w
      cases h
      rfl
  | cons st stores ih =>
      have hstep : weakSystem.step w (.visible 0) =
          some { w with page := st.apply w.page, pending := stores } := by
        cases st <;> simp [weakSystem, WeakWorld.step, WeakWorld.makeVisible, h, StoreOp.apply]
      rw [List.length_cons, List.replicate_succ, System.exec_cons hstep, ih rfl]
      rfl

theorem apply_byteStores (frame : FrameImage) (js : List (Fin frameBytes)) (page : Page) :
    (js.map fun j => StoreOp.byte j (frame j)).foldl StoreOp.apply page =
      { page with data := js.foldl (fun cells j => Function.update cells j (frame j)) page.data } := by
  induction js generalizing page with
  | nil => rfl
  | cons j js ih =>
      rw [List.map_cons, List.foldl_cons, ih]
      rfl

theorem apply_storesOf (frame : FrameImage) (cur : UInt64) (page : Page) :
    (storesOf frame cur).foldl StoreOp.apply page = { seq := cur + 2, data := frame } := by
  rw [storesOf, List.foldl_cons, List.foldl_append, byteStores, apply_byteStores,
    foldl_update_finRange]
  rfl

/-- The byte loads of one `read_frame`, undisturbed. -/
theorem exec_loads (w : WeakWorld) (r : Nat) (returned : List FrameImage) (s1 : UInt64)
    (js : List (Fin frameBytes)) (hnodup : js.Nodup) (bytes : Fin frameBytes → Option UInt8)
    (hnone : ∀ j ∈ js, bytes j = none) :
    weakSystem.exec (w.setReader r { pc := .reading s1 none bytes, returned := returned })
        (js.map (.loadByte r)) =
      some (w.setReader r
        { pc := .reading s1 none
            (js.foldl (fun b j => Function.update b j (some (w.page.data j))) bytes)
          returned := returned }) := by
  induction js generalizing bytes with
  | nil => rfl
  | cons j js ih =>
      rcases List.nodup_cons.1 hnodup with ⟨hj, hrest⟩
      have hstep : weakSystem.step (w.setReader r { pc := .reading s1 none bytes, returned := returned })
          (.loadByte r j) =
          some (w.setReader r
            { pc := .reading s1 none (Function.update bytes j (some (w.page.data j)))
              returned := returned }) := by
        simp [weakSystem, WeakWorld.step, WeakWorld.setReader, WeakReader.loadByte,
          hnone j (List.mem_cons_self ..)]
      rw [List.map_cons, System.exec_cons hstep, List.foldl_cons]
      refine ih hrest _ fun i hi => ?_
      have hij : i ≠ j := fun he => hj (he ▸ hi)
      rw [Function.update_of_ne hij]
      exact hnone i (List.mem_cons_of_mem _ hi)

/-- One `read_frame` in program order, up to its last byte. -/
def readLoads (r : Nat) : List WeakAct :=
  [.call r, .firstLoad r] ++ (List.finRange frameBytes).map (.loadByte r)

/-- The reader when it has loaded the whole page. -/
def WeakWorld.loaded (w : WeakWorld) (r : Nat) : WeakWorld :=
  w.setReader r
    { pc := .reading w.page.seq none fun j => some (w.page.data j)
      returned := (w.readers r).returned }

theorem exec_readLoads {w : WeakWorld} {r : Nat} (hpc : (w.readers r).pc = .idle)
    (heven : w.page.seq % 2 = 0) : weakSystem.exec w (readLoads r) = some (w.loaded r) := by
  have hcall : weakSystem.step w (.call r) =
      some (w.setReader r { pc := .loading, returned := (w.readers r).returned }) := by
    simp [weakSystem, WeakWorld.step, hpc]
  have hfirst : weakSystem.step
      (w.setReader r { pc := .loading, returned := (w.readers r).returned }) (.firstLoad r) =
      some (w.setReader r
        { pc := .reading w.page.seq none fun _ => none
          returned := (w.readers r).returned }) := by
    simp [weakSystem, WeakWorld.step, WeakWorld.setReader, WeakReader.firstLoad, heven]
  have hloads := exec_loads w r (w.readers r).returned w.page.seq (List.finRange frameBytes)
    (List.nodup_finRange _) (fun _ => none) (fun _ _ => rfl)
  rw [foldl_update_finRange fun j => some (w.page.data j)] at hloads
  rw [readLoads, List.cons_append, List.cons_append, List.nil_append, System.exec_cons hcall,
    System.exec_cons hfirst]
  exact hloads

/-- The second load and the return. -/
theorem exec_readEnd (w : WeakWorld) (r : Nat) :
    weakSystem.exec (w.loaded r) [.secondLoad r, .finish r] =
      some (w.setReader r
        { pc := .idle
          returned := (w.readers r).returned ++ [w.page.data] }) := by
  simp [System.exec, weakSystem, WeakWorld.step, WeakWorld.loaded, WeakWorld.setReader,
    WeakReader.secondLoad, WeakReader.finish]
  rfl

/-- A write all of whose stores become visible in program order. -/
def writeInOrder (frame : FrameImage) (cur : UInt64) : List WeakAct :=
  .write frame :: List.replicate (storesOf frame cur).length (.visible 0)

theorem exec_writeInOrder {w : WeakWorld} (hpending : w.pending = []) (frame : FrameImage) :
    weakSystem.exec w (writeInOrder frame w.latest) =
      some
        { w with
          page := { seq := w.latest + 2, data := frame }
          latest := w.latest + 2
          written := w.written ++ [frame] } := by
  have hwrite : weakSystem.step w (.write frame) =
      some
        { w with
          pending := storesOf frame w.latest
          latest := w.latest + 2
          written := w.written ++ [frame] } := by
    simp [weakSystem, WeakWorld.step, hpending]
  rw [writeInOrder, System.exec_cons hwrite, exec_visible (storesOf frame w.latest) rfl,
    apply_storesOf]
  simp [hpending]

theorem inOrder_write (frame : FrameImage) (cur : UInt64) :
    ∀ a ∈ writeInOrder frame cur, ∀ w, InOrder w a := by
  intro a ha w
  rcases List.mem_cons.1 ha with rfl | ha
  · trivial
  · rw [(List.mem_replicate.1 ha).2]
    intro j v _ st hst
    cases hst

theorem inOrder_loads (r : Nat) : ∀ a ∈ readLoads r, ∀ w, InOrder w a := by
  intro a ha w
  simp only [readLoads, List.cons_append, List.nil_append, List.mem_cons, List.mem_map] at ha
  rcases ha with rfl | rfl | ⟨j, _, rfl⟩ <;> trivial

theorem inOrder_readEnd (w : WeakWorld) (r : Nat) :
    Guarded InOrder (weakSystem.steps (w.loaded r) [.secondLoad r, .finish r]) := by
  apply System.guarded_steps_cons
  · intro s1 s2 bytes hpc j
    simp only [WeakWorld.loaded, WeakWorld.setReader, Function.update_self,
      WeakPc.reading.injEq] at hpc
    rw [← hpc.2.2]
    rfl
  · exact System.guarded_steps fun a ha _ => by
      rw [List.mem_singleton.1 ha]
      trivial

/-- A frame written and read in order. -/
theorem notTorn_of_inOrder_read :
    ∃ tr w, Trace weakSystem tr w ∧ (w.readers 0).returned = [fun _ => 1] ∧ NotTorn w := by
  have hwrite := Trace.start.exec (exec_writeInOrder (w := WeakWorld.start) rfl fun _ => 1)
  have hread := (hwrite.exec (exec_readLoads (r := 0) rfl rfl)).exec (exec_readEnd _ 0)
  refine ⟨_, _, hread, rfl, notTorn_of_inOrder hread ?_ (by decide)⟩
  rw [guarded_append, guarded_append, List.nil_append]
  exact ⟨⟨System.guarded_steps (inOrder_write _ _) _, System.guarded_steps (inOrder_loads 0) _⟩,
    inOrder_readEnd _ 0⟩

/-! ## A byte overtakes the odd counter -/

def allOnes : FrameImage := fun _ => 1
def allTwos : FrameImage := fun _ => 2

/-- The first frame is written and visible, the second one written. -/
def secondWritten : WeakWorld :=
  { page :=
      { seq := 2
        data := allOnes }
    pending := storesOf allTwos 2
    latest := 4
    written := [allOnes, allTwos]
    readers := WeakWorld.start.readers }

def byteZero : Fin frameBytes := ⟨0, by decide⟩

/-- Byte 0 of the second frame is visible before its odd counter. -/
def overtaken : WeakWorld :=
  { secondWritten with
    page :=
      { seq := 2
        data := Function.update allOnes byteZero 2 }
    pending := (storesOf allTwos 2).eraseIdx 1 }

theorem overtaken_trace : ∃ tr, Trace weakSystem tr overtaken := by
  have hfirst := Trace.start.exec (exec_writeInOrder (w := WeakWorld.start) rfl allOnes)
  have hsecond : Trace weakSystem _ secondWritten := hfirst.snoc (a := .write allTwos) rfl
  have hstep : weakSystem.step secondWritten (.visible 1) = some overtaken := by
    have hbyte : (storesOf allTwos 2)[1]? = some (.byte byteZero 2) := by
      have hrange : List.finRange frameBytes = byteZero :: (List.finRange 191).map Fin.succ :=
        List.finRange_succ
      rw [storesOf, byteStores, hrange]
      rfl
    have hfront : (storesOf allTwos 2).take 1 = [.counter 3] := rfl
    simp [weakSystem, WeakWorld.step, WeakWorld.makeVisible, secondWritten, overtaken, hbyte,
      hfront, StoreOp.isTo]
  exact ⟨_, hsecond.snoc hstep⟩

/-- The reader returns the first frame with byte 0 of the second. -/
theorem notTorn_fails :
    ∃ tr w, Trace weakSystem tr w ∧ w.written = [allOnes, allTwos] ∧
      (w.readers 0).returned = [Function.update allOnes byteZero 2] ∧ ¬ NotTorn w := by
  rcases overtaken_trace with ⟨tr, htrace⟩
  have hread := (htrace.exec (exec_readLoads (r := 0) rfl rfl)).exec (exec_readEnd _ 0)
  refine ⟨_, _, hread, rfl, rfl, ?_⟩
  intro hclean
  have hmem := hclean 0 (Function.update allOnes byteZero 2) (List.mem_singleton_self _)
  have hone : byteZero ≠ ⟨1, by decide⟩ := by decide
  -- Byte 1 is not that of the zero frame or the second frame, byte 0 not that of the first.
  rcases hmem with hzero | hmem
  · have hbyte := congrFun hzero ⟨1, by decide⟩
    rw [Function.update_of_ne hone.symm] at hbyte
    exact absurd hbyte (by decide)
  · rcases List.mem_cons.1 hmem with hfirst | hmem
    · have hbyte := congrFun hfirst byteZero
      rw [Function.update_self] at hbyte
      exact absurd hbyte (by decide)
    · have hbyte := congrFun (List.mem_singleton.1 hmem) ⟨1, by decide⟩
      rw [Function.update_of_ne hone.symm] at hbyte
      exact absurd hbyte (by decide)

end Cm108Driver
