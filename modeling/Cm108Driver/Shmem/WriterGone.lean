import Cm108Driver.Shmem.Linearizable

/-!
# WriterGone — reading the page of a daemon that is no longer there

The writer's process may end between any two of its steps and leaves the page as it is.  From then
on only the clients move.  A `read_frame` in progress, or begun later, still returns if the counter
is even, after at most one more copy; behind the odd counter of a write that was cut off it spins
for ever.  The counter is odd exactly between the two counter stores of `AudioShmem::write`.
-/

namespace Cm108Driver

open Lib

/-! ## Calls after the writer's last step -/

/-- The client is in `read_frame`. -/
def Reader.InReadFrame (reader : Reader) : Prop :=
  match reader.pc with
  | .loading => True
  | .copying _ _ _ => True
  | _ => False

/-- The writer stands between its two counter stores. -/
def ShmemWorld.MidWrite (w : ShmemWorld) : Prop :=
  ∃ frame cur i, w.writer = .copying frame cur i

/-- The writer takes no step. -/
def ClientsOnly (acts : List ShmemAct) : Prop := ∀ a ∈ acts, ∃ r b, a = .client r b

def ShmemAct.isAccessOf (r : Nat) : ShmemAct → Bool
  | .client r' .access => r' == r
  | _ => false

/-- The number of accesses to the page by client `r`. -/
def accessCount (r : Nat) (acts : List ShmemAct) : Nat := acts.countP (ShmemAct.isAccessOf r)

def ShmemWorld.returnCount (w : ShmemWorld) (r : Nat) : Nat := (w.readers r).returns.length

/-- Without the writer, the call of client `r` returns: within a bounded number of its own accesses,
whatever the other clients do, and until then it can always go on. -/
structure ReadEnds (w : ShmemWorld) (r : Nat) : Prop where
  bound : ∃ n, ∀ acts w', ClientsOnly acts → shmemSystem.exec w acts = some w' →
    n ≤ accessCount r acts → w.returnCount r < w'.returnCount r
  enabled : ∀ acts w', ClientsOnly acts → shmemSystem.exec w acts = some w' →
    w'.returnCount r = w.returnCount r → ∃ t, shmemSystem.step w' (.client r .access) = some t

/-! ## Parity of the counter -/

/-- The counter is even outside of the byte copy, and odd in it. -/
def WriterParity (seq : UInt64) : WriterPc → Prop
  | .loaded _ cur => seq % 2 = 0 ∧ cur = seq
  | .copying _ cur _ => cur % 2 = 0 ∧ seq = cur + 1
  | _ => seq % 2 = 0

/-- A copy is made under an even counter. -/
def Reader.EvenCopy (reader : Reader) : Prop :=
  ∀ s1 i frame, reader.pc = .copying s1 i frame → s1 % 2 = 0

structure ParityInv (w : ShmemWorld) : Prop where
  writer : WriterParity w.page.seq w.writer
  readers : ∀ r, (w.readers r).EvenCopy

theorem odd_of_even {cur : UInt64} (h : cur % 2 = 0) : (cur + 1) % 2 ≠ 0 := by
  rw [toNat_mod_two_ne, UInt64.toNat_add]
  have hnat : cur.toNat % 2 = 0 := by
    by_contra hne
    exact toNat_mod_two_ne.2 hne h
  simp only [UInt64.reduceToNat]
  omega

theorem even_add_two {cur : UInt64} (h : cur % 2 = 0) : (cur + 2) % 2 = 0 := by
  by_contra hne
  have hodd := toNat_mod_two_ne.1 hne
  have hnat : cur.toNat % 2 = 0 := by
    by_contra hcur
    exact toNat_mod_two_ne.2 hcur h
  rw [UInt64.toNat_add] at hodd
  simp only [UInt64.reduceToNat] at hodd
  omega

theorem WriterParity.move {w t : ShmemWorld} {a : WriterAct} (h : WriterParity w.page.seq w.writer)
    (hmove : DispatchMove w a t) : WriterParity t.page.seq t.writer := by
  cases hmove with
  | write frame hpc =>
      rw [hpc] at h
      exact ⟨h, rfl⟩
  | oddCounter hpc =>
      rw [hpc] at h
      exact ⟨h.2 ▸ h.1, rfl⟩
  | byte hpc hi =>
      rw [hpc] at h
      exact h
  | evenCounter hpc hi =>
      rw [hpc] at h
      exact even_add_two h.1
  | endNotify hpc =>
      rw [hpc] at h
      exact h

/-! ## Steps of a client -/

section Clients

variable {w t : ShmemWorld} {r : Nat} {reader reader' : Reader} {a : ReaderAct}

theorem client_step (h : shmemSystem.step w (.client r a) = some t) :
    ∃ reader', (w.readers r).step w a = some reader' ∧ t = w.setReader r reader' := by
  rcases Option.map_eq_some_iff.mp h with ⟨reader', hstep, rfl⟩
  exact ⟨reader', hstep, rfl⟩

/-- In `read_frame` a client accesses the page, or a message comes in. -/
theorem Reader.step_inReadFrame (hcall : reader.InReadFrame) (h : reader.step w a = some reader') :
    (a = .access ∧ reader.access w.page = some reader') ∨
      (a ≠ .access ∧ reader'.pc = reader.pc ∧ reader'.returns = reader.returns) := by
  cases a with
  | access => exact Or.inl ⟨rfl, h⟩
  | notify =>
      right
      simp only [Reader.step] at h
      split at h
      · cases h
        exact ⟨by simp, rfl, rfl⟩
      · cases h
  | message m =>
      right
      simp only [Reader.step] at h
      split at h
      · cases h
      · cases h
        exact ⟨by simp, rfl, rfl⟩
  | readLatest =>
      cases hpc : reader.pc <;> simp [Reader.step, Reader.InReadFrame, hpc] at h hcall
  | readAudio =>
      cases hpc : reader.pc <;> simp [Reader.step, Reader.InReadFrame, hpc] at h hcall
  | receive =>
      cases hpc : reader.pc <;> simp [Reader.step, Reader.receive, Reader.InReadFrame, hpc] at h hcall
  | takeMsg =>
      cases hpc : reader.pc <;> simp [Reader.step, Reader.takeMsg, Reader.InReadFrame, hpc] at h hcall

/-- An access outside the copy's end leaves the returns; the last one may add one. -/
theorem Reader.access_cases {page : Page} (h : reader.access page = some reader') :
    (reader.pc = .loading ∧ page.seq % 2 ≠ 0 ∧ reader' = reader) ∨
      (reader.pc = .loading ∧ page.seq % 2 = 0 ∧
        reader' = { reader with pc := .copying page.seq 0 zeroImage }) ∨
      (∃ s1 i frame, reader.pc = .copying s1 i frame ∧ i < frameBytes ∧
        ∃ frame', reader' = { reader with pc := .copying s1 (i + 1) frame' }) ∨
      (∃ s1 i frame, reader.pc = .copying s1 i frame ∧ ¬ i < frameBytes ∧ page.seq = s1 ∧
        reader'.returns.length = reader.returns.length + 1 ∧ reader'.pc = .idle) ∨
      (∃ s1 i frame, reader.pc = .copying s1 i frame ∧ ¬ i < frameBytes ∧ page.seq ≠ s1 ∧
        reader' = { reader with pc := .loading }) := by
  unfold Reader.access at h
  split at h
  · rename_i hpc
    split at h
    · rename_i hodd
      cases h
      exact Or.inl ⟨hpc, hodd, rfl⟩
    · rename_i heven
      cases h
      exact Or.inr (Or.inl ⟨hpc, by simpa using heven, rfl⟩)
  · rename_i s1 i frame hpc
    right; right
    split at h
    · rename_i hi
      cases h
      exact Or.inl ⟨s1, i, frame, hpc, hi, _, rfl⟩
    · rename_i hi
      split at h
      · rename_i hsame
        cases h
        exact Or.inr (Or.inl ⟨s1, i, frame, hpc, hi, hsame, by simp, rfl⟩)
      · rename_i hmoved
        cases h
        exact Or.inr (Or.inr ⟨s1, i, frame, hpc, hi, hmoved, rfl⟩)
  · cases h

/-- A call in progress can always make its next access. -/
theorem Reader.access_enabled (hcall : reader.InReadFrame) (page : Page) :
    ∃ reader', reader.access page = some reader' := by
  unfold Reader.access
  cases hpc : reader.pc with
  | idle => simp [Reader.InReadFrame, hpc] at hcall
  | awaiting => simp [Reader.InReadFrame, hpc] at hcall
  | loading =>
      simp only
      split
      · exact ⟨_, rfl⟩
      · exact ⟨_, rfl⟩
  | copying s1 i frame =>
      simp only
      split
      · exact ⟨_, rfl⟩
      · split
        · exact ⟨_, rfl⟩
        · exact ⟨_, rfl⟩

/-- Outside of `read_frame` a client returns no frame and does not get into the copy. -/
theorem Reader.step_outside (hout : ¬ reader.InReadFrame) (h : reader.step w a = some reader') :
    reader'.returns = reader.returns ∧ ∀ s1 i frame, reader'.pc ≠ .copying s1 i frame := by
  have hpc : ∀ s1 i frame, reader.pc ≠ .copying s1 i frame := by
    intro s1 i frame hcopy
    simp [Reader.InReadFrame, hcopy] at hout
  cases a with
  | access =>
      cases hidle : reader.pc <;>
        simp [Reader.step, Reader.access, Reader.InReadFrame, hidle] at h hout
  | notify =>
      simp only [Reader.step] at h
      split at h
      · cases h
        exact ⟨rfl, hpc⟩
      · cases h
  | message m =>
      simp only [Reader.step] at h
      split at h
      · cases h
      · cases h
        exact ⟨rfl, hpc⟩
  | readLatest =>
      simp only [Reader.step] at h
      split at h
      · cases h
        exact ⟨rfl, by simp [Reader.enter]⟩
      · cases h
  | readAudio =>
      simp only [Reader.step] at h
      split at h
      · cases h
        exact ⟨rfl, by simp⟩
      · cases h
  | receive =>
      simp only [Reader.step, Reader.receive] at h
      split at h
      · split at h
        · cases h
          exact ⟨rfl, by simp [Reader.enter]⟩
        · cases h
          exact ⟨rfl, hpc⟩
      · cases h
  | takeMsg =>
      simp only [Reader.step, Reader.takeMsg] at h
      split at h
      · cases h
        exact ⟨rfl, hpc⟩
      · cases h

theorem Reader.EvenCopy.step (h : reader.EvenCopy) (hstep : reader.step w a = some reader') :
    reader'.EvenCopy := by
  intro s1 i frame hcopy
  by_cases hcall : reader.InReadFrame
  · rcases Reader.step_inReadFrame hcall hstep with ⟨rfl, haccess⟩ | ⟨_, hpc, _⟩
    · rcases Reader.access_cases haccess with ⟨_, _, rfl⟩ | ⟨_, heven, rfl⟩ |
        ⟨_, _, _, hpc, _, _, rfl⟩ | ⟨_, _, _, _, _, _, _, hidle⟩ | ⟨_, _, _, _, _, _, rfl⟩
      · exact h s1 i frame hcopy
      · cases hcopy
        exact heven
      · cases hcopy
        exact h s1 _ _ hpc
      · exact absurd (hidle.symm.trans hcopy) (by simp)
      · cases hcopy
    · exact h s1 i frame (hpc ▸ hcopy)
  · exact absurd hcopy ((Reader.step_outside hcall hstep).2 s1 i frame)

end Clients

theorem parityInv_of_trace {tr : List (ShmemWorld × ShmemAct)} {w : ShmemWorld}
    (h : Trace shmemSystem tr w) : ParityInv w := by
  induction h with
  | start =>
      refine ⟨by simp [WriterParity, shmemSystem, ShmemWorld.start], fun r s1 i frame hcopy => ?_⟩
      cases hcopy
  | snoc htr hstep ih =>
      rename_i tr w t a
      cases a with
      | writer a =>
          have hmove := dispatchMove_of_step hstep
          exact ⟨ih.writer.move hmove, fun r => by rw [hmove.readers]; exact ih.readers r⟩
      | client r a =>
          rcases client_step hstep with ⟨reader', hreader, rfl⟩
          refine ⟨ih.writer, fun r' => ?_⟩
          by_cases hr : r' = r
          · subst hr
            rw [ShmemWorld.setReader_readers]
            exact (ih.readers r').step hreader
          · simpa [ShmemWorld.setReader, hr] using ih.readers r'

/-- The counter is odd exactly between the two counter stores. -/
theorem ParityInv.midWrite_iff {w : ShmemWorld} (h : ParityInv w) :
    w.MidWrite ↔ w.page.seq % 2 ≠ 0 := by
  have hwriter := h.writer
  constructor
  · rintro ⟨frame, cur, i, hpc⟩
    rw [hpc] at hwriter
    rw [hwriter.2]
    exact odd_of_even hwriter.1
  · intro hodd
    cases hpc : w.writer with
    | copying frame cur i => exact ⟨frame, cur, i, hpc⟩
    | idle =>
        rw [hpc] at hwriter
        exact absurd hwriter hodd
    | loaded frame cur =>
        rw [hpc] at hwriter
        exact absurd hwriter.1 hodd
    | notifying new =>
        rw [hpc] at hwriter
        exact absurd hwriter hodd

/-! ## Behind an even counter -/

/-- The accesses that a call still needs while the counter stands at the even `seq`: the copy it is
in, and a whole one more if the end of this copy is refused. -/
def Reader.accessesLeft (reader : Reader) (seq : UInt64) : Nat :=
  match reader.pc with
  | .loading => frameBytes + 2
  | .copying s1 i _ => (frameBytes - i) + 1 + (if s1 = seq then 0 else frameBytes + 2)
  | _ => 0

theorem Reader.accessesLeft_pos {reader : Reader} (hcall : reader.InReadFrame) (seq : UInt64) :
    0 < reader.accessesLeft seq := by
  cases hpc : reader.pc with
  | idle => simp [Reader.InReadFrame, hpc] at hcall
  | awaiting => simp [Reader.InReadFrame, hpc] at hcall
  | loading => simp [Reader.accessesLeft, hpc]
  | copying s1 i frame =>
      simp only [Reader.accessesLeft, hpc]
      omega

/-- An access either ends the call or brings its end nearer. -/
theorem Reader.access_nearer {reader reader' : Reader} {page : Page} (heven : page.seq % 2 = 0)
    (h : reader.access page = some reader') :
    reader'.returns.length = reader.returns.length + 1 ∨
      (reader'.InReadFrame ∧ reader'.returns = reader.returns ∧
        reader'.accessesLeft page.seq < reader.accessesLeft page.seq) := by
  rcases Reader.access_cases h with ⟨_, hodd, _⟩ | ⟨hpc, _, rfl⟩ |
    ⟨s1, i, frame, hpc, hi, frame', rfl⟩ | ⟨_, _, _, _, _, _, hret, _⟩ |
    ⟨s1, i, frame, hpc, hi, hmoved, rfl⟩
  · exact absurd heven hodd
  · -- the copy begins under the counter that will be found at its end
    refine Or.inr ⟨trivial, rfl, ?_⟩
    simp only [Reader.accessesLeft, hpc, if_true]
    omega
  · refine Or.inr ⟨trivial, rfl, ?_⟩
    simp only [Reader.accessesLeft, hpc]
    omega
  · exact Or.inl hret
  · -- a copy begun under an older counter is thrown away, which happens only once
    refine Or.inr ⟨trivial, rfl, ?_⟩
    have hne : s1 ≠ page.seq := fun hsame => hmoved hsame.symm
    simp only [Reader.accessesLeft, hpc, if_neg hne]
    omega

/-! ## Runs of the clients -/

section ClientRuns

variable {w t : ShmemWorld} {r : Nat}

/-- What a client's step means for the call of client `r`: its own access, or nothing. -/
theorem clientStep_cases {r' : Nat} {a : ReaderAct} (hcall : (w.readers r).InReadFrame)
    (hstep : shmemSystem.step w (.client r' a) = some t) :
    (r' = r ∧ a = .access ∧ (w.readers r).access w.page = some (t.readers r)) ∨
      (ShmemAct.isAccessOf r (.client r' a) = false ∧ (t.readers r).pc = (w.readers r).pc ∧
        (t.readers r).returns = (w.readers r).returns) := by
  rcases client_step hstep with ⟨reader', hreader, rfl⟩
  by_cases hr : r' = r
  · subst hr
    rw [ShmemWorld.setReader_readers]
    rcases Reader.step_inReadFrame hcall hreader with ⟨rfl, haccess⟩ | ⟨hne, hpc, hret⟩
    · exact Or.inl ⟨rfl, rfl, haccess⟩
    · refine Or.inr ⟨?_, hpc, hret⟩
      cases a with
      | access => exact absurd rfl hne
      | _ => rfl
  · right
    have hother : ((w.setReader r' reader').readers r) = w.readers r := by
      have hne : r ≠ r' := fun h => hr h.symm
      simp [ShmemWorld.setReader, hne]
    refine ⟨?_, by rw [hother], by rw [hother]⟩
    cases a with
    | access => simpa [ShmemAct.isAccessOf] using hr
    | _ => rfl

theorem clientStep_page {r' : Nat} {a : ReaderAct}
    (hstep : shmemSystem.step w (.client r' a) = some t) : t.page = w.page := by
  rcases client_step hstep with ⟨_, _, rfl⟩
  rfl

/-- A return is never taken back. -/
theorem Reader.step_returns_le {reader reader' : Reader} {a : ReaderAct}
    (h : reader.step w a = some reader') : reader.returns.length ≤ reader'.returns.length := by
  by_cases hcall : reader.InReadFrame
  · rcases Reader.step_inReadFrame hcall h with ⟨_, haccess⟩ | ⟨_, _, hret⟩
    · rcases Reader.access_cases haccess with ⟨_, _, rfl⟩ | ⟨_, _, rfl⟩ | ⟨_, _, _, _, _, _, rfl⟩ |
        ⟨_, _, _, _, _, _, hret, _⟩ | ⟨_, _, _, _, _, _, rfl⟩
      · exact Nat.le_refl _
      · exact Nat.le_refl _
      · exact Nat.le_refl _
      · exact hret ▸ Nat.le_succ _
      · exact Nat.le_refl _
    · rw [hret]
  · exact Reader.step_outside hcall h |>.1 ▸ Nat.le_refl _

theorem clientStep_returnCount {r' : Nat} {a : ReaderAct}
    (hstep : shmemSystem.step w (.client r' a) = some t) : w.returnCount r ≤ t.returnCount r := by
  rcases client_step hstep with ⟨reader', hreader, rfl⟩
  by_cases hr : r = r'
  · subst hr
    simpa [ShmemWorld.returnCount] using Reader.step_returns_le hreader
  · simp [ShmemWorld.returnCount, ShmemWorld.setReader, hr]

/-- What every step of a client keeps holds after any number of them. -/
theorem ClientsOnly.keeps {P : ShmemWorld → Prop} {acts : List ShmemAct} (hacts : ClientsOnly acts)
    (hkeep : ∀ {u v r a}, shmemSystem.step u (.client r a) = some v → P u → P v)
    (hexec : shmemSystem.exec w acts = some t) (hw : P w) : P t := by
  induction acts generalizing w with
  | nil =>
      cases hexec
      exact hw
  | cons a acts ih =>
      rcases hacts a List.mem_cons_self with ⟨r, b, rfl⟩
      rcases Option.bind_eq_some_iff.mp hexec with ⟨u, hstep, hrest⟩
      exact ih (fun b hb => hacts b (List.mem_cons_of_mem _ hb)) hrest (hkeep hstep hw)

theorem clients_returnCount {acts : List ShmemAct} (hacts : ClientsOnly acts)
    (hexec : shmemSystem.exec w acts = some t) : w.returnCount r ≤ t.returnCount r := by
  refine hacts.keeps (P := fun u => w.returnCount r ≤ u.returnCount r) ?_ hexec (Nat.le_refl _)
  intro u v r' a hstep hle
  calc w.returnCount r
      ≤ u.returnCount r := hle
    _ ≤ v.returnCount r := clientStep_returnCount hstep

theorem clients_writer {acts : List ShmemAct} (hacts : ClientsOnly acts)
    (hexec : shmemSystem.exec w acts = some t) : t.writer = w.writer := by
  refine hacts.keeps (P := fun u => u.writer = w.writer) ?_ hexec rfl
  intro u v r' a hstep hsame
  rcases client_step hstep with ⟨reader', _, rfl⟩
  exact (ShmemWorld.setReader_writer u r' reader').trans hsame

theorem accessCount_cons (r : Nat) (a : ShmemAct) (acts : List ShmemAct) :
    accessCount r (a :: acts) = accessCount r acts + if a.isAccessOf r then 1 else 0 := by
  simp [accessCount, List.countP_cons]

/-- After `accessesLeft` accesses of its own the call has returned, whatever the others do. -/
theorem clients_return {acts : List ShmemAct} (hacts : ClientsOnly acts)
    (heven : w.page.seq % 2 = 0) (hcall : (w.readers r).InReadFrame)
    (hexec : shmemSystem.exec w acts = some t)
    (hlong : (w.readers r).accessesLeft w.page.seq ≤ accessCount r acts) :
    w.returnCount r < t.returnCount r := by
  -- the accesses left drop with every access, and nothing else moves them
  induction acts generalizing w with
  | nil =>
      have hpos := Reader.accessesLeft_pos hcall w.page.seq
      simp only [accessCount, List.countP_nil] at hlong
      omega
  | cons a acts ih =>
      rcases hacts a List.mem_cons_self with ⟨r', b, rfl⟩
      rcases Option.bind_eq_some_iff.mp hexec with ⟨u, hstep, hrest⟩
      have hothers : ClientsOnly acts := fun c hc => hacts c (List.mem_cons_of_mem _ hc)
      have hpage : u.page = w.page := clientStep_page hstep
      rw [accessCount_cons] at hlong
      rcases clientStep_cases hcall hstep with ⟨rfl, rfl, haccess⟩ | ⟨hnot, hpc, hret⟩
      · rcases Reader.access_nearer heven haccess with hreturned | ⟨hcall', hret, hnearer⟩
        · have hmono := clients_returnCount (r := r') hothers hrest
          simp only [ShmemWorld.returnCount] at hmono ⊢
          omega
        · have hone : ShmemAct.isAccessOf r' (.client r' .access) = true := by
            simp [ShmemAct.isAccessOf]
          rw [if_pos hone] at hlong
          have hfew : (u.readers r').accessesLeft u.page.seq ≤ accessCount r' acts := by
            rw [hpage]
            omega
          have hgrow := ih hothers (hpage ▸ heven) hcall' hrest hfew
          simpa [ShmemWorld.returnCount, hret] using hgrow
      · have hcall' : (u.readers r).InReadFrame := by
          simpa [Reader.InReadFrame, hpc] using hcall
        have hfew : (u.readers r).accessesLeft u.page.seq ≤ accessCount r acts := by
          simpa [Reader.accessesLeft, hpc, hpage, hnot] using hlong
        have hgrow := ih hothers (hpage ▸ heven) hcall' hrest hfew
        simpa [ShmemWorld.returnCount, hret] using hgrow

/-- A call that has not returned is still in `read_frame`. -/
theorem clients_inReadFrame {acts : List ShmemAct} (hacts : ClientsOnly acts)
    (hcall : (w.readers r).InReadFrame) (hexec : shmemSystem.exec w acts = some t)
    (hsame : t.returnCount r = w.returnCount r) : (t.readers r).InReadFrame := by
  have hkept : w.returnCount r < t.returnCount r ∨ (t.readers r).InReadFrame := by
    refine hacts.keeps (P := fun u => w.returnCount r ≤ u.returnCount r ∧
      (w.returnCount r < u.returnCount r ∨ (u.readers r).InReadFrame)) ?_ hexec
      ⟨Nat.le_refl _, Or.inr hcall⟩ |>.2
    rintro u v r' a hstep ⟨hle, hin⟩
    have hmono := clientStep_returnCount (r := r) hstep
    refine ⟨hle.trans hmono, ?_⟩
    rcases hin with hreturned | hin
    · exact Or.inl (Nat.lt_of_lt_of_le hreturned hmono)
    · rcases clientStep_cases hin hstep with ⟨rfl, rfl, haccess⟩ | ⟨_, hpc, _⟩
      · rcases Reader.access_cases haccess with ⟨_, _, hsamepc⟩ | ⟨_, _, hnew⟩ |
          ⟨_, _, _, _, _, _, hnew⟩ | ⟨_, _, _, _, _, _, hreturned, _⟩ | ⟨_, _, _, _, _, _, hnew⟩
        · exact Or.inr (hsamepc ▸ hin)
        · exact Or.inr (hnew ▸ trivial)
        · exact Or.inr (hnew ▸ trivial)
        · -- this access returns
          exact Or.inl (Nat.lt_of_le_of_lt hle (Nat.lt_of_succ_le (Nat.le_of_eq hreturned.symm)))
        · exact Or.inr (hnew ▸ trivial)
      · exact Or.inr (by simpa [Reader.InReadFrame, hpc] using hin)
  rcases hkept with hreturned | hin
  · exact absurd hsame (Nat.ne_of_gt hreturned)
  · exact hin

/-! ## Behind an odd counter -/

/-- An access to a page whose counter is odd, in a call whose copy was begun under an even one: the
call goes on, and has returned nothing. -/
theorem Reader.access_odd {reader reader' : Reader} {page : Page} (hodd : page.seq % 2 ≠ 0)
    (heven : reader.EvenCopy) (hcall : reader.InReadFrame)
    (h : reader.access page = some reader') :
    reader'.InReadFrame ∧ reader'.returns = reader.returns := by
  rcases Reader.access_cases h with ⟨_, _, rfl⟩ | ⟨_, hzero, _⟩ | ⟨_, _, _, _, _, _, rfl⟩ |
    ⟨s1, i, frame, hpc, _, hsame, _, _⟩ | ⟨_, _, _, _, _, _, rfl⟩
  · exact ⟨hcall, rfl⟩
  · exact absurd hzero hodd
  · exact ⟨trivial, rfl⟩
  · -- the counter cannot be the one found before the copy
    exact absurd (hsame ▸ heven s1 i frame hpc) hodd
  · exact ⟨trivial, rfl⟩

/-- Any number of accesses is possible, and none of them returns. -/
theorem accesses_spin (hodd : w.page.seq % 2 ≠ 0) (heven : (w.readers r).EvenCopy)
    (hcall : (w.readers r).InReadFrame) (n : Nat) :
    ∃ u, shmemSystem.exec w (List.replicate n (.client r .access)) = some u ∧
      u.returnCount r = w.returnCount r := by
  induction n generalizing w with
  | zero => exact ⟨w, rfl, rfl⟩
  | succ n ih =>
      rcases Reader.access_enabled hcall w.page with ⟨reader', haccess⟩
      have hstep : shmemSystem.step w (.client r .access) = some (w.setReader r reader') := by
        simp [shmemSystem, ShmemWorld.step, Reader.step, haccess]
      rcases Reader.access_odd hodd heven hcall haccess with ⟨hcall', hret⟩
      have heven' : reader'.EvenCopy := heven.step (w := w) (a := .access) haccess
      rcases ih (w := w.setReader r reader') hodd (by simpa using heven') (by simpa using hcall') with
        ⟨u, hrest, hcount⟩
      refine ⟨u, ?_, ?_⟩
      · rw [List.replicate_succ, System.exec_cons hstep]
        exact hrest
      · rw [hcount]
        simp [ShmemWorld.returnCount, hret]

/-! ## The two sides together -/

theorem readEnds_of_even (heven : w.page.seq % 2 = 0) (hcall : (w.readers r).InReadFrame) :
    ReadEnds w r where
  bound := by
    refine ⟨(w.readers r).accessesLeft w.page.seq, ?_⟩
    intro acts t hacts hexec hlong
    exact clients_return hacts heven hcall hexec hlong
  enabled := by
    intro acts t hacts hexec hsame
    have hcall' := clients_inReadFrame hacts hcall hexec hsame
    rcases Reader.access_enabled hcall' t.page with ⟨reader', haccess⟩
    exact ⟨t.setReader r reader', by simp [shmemSystem, ShmemWorld.step, Reader.step, haccess]⟩

theorem not_readEnds_of_odd (hodd : w.page.seq % 2 ≠ 0) (heven : (w.readers r).EvenCopy)
    (hcall : (w.readers r).InReadFrame) : ¬ ReadEnds w r := by
  intro hends
  rcases hends.bound with ⟨n, hbound⟩
  rcases accesses_spin hodd heven hcall n with ⟨u, hexec, hcount⟩
  have hacts : ClientsOnly (List.replicate n (.client r .access)) := by
    intro a ha
    exact ⟨r, .access, List.eq_of_mem_replicate ha⟩
  have hmany : n ≤ accessCount r (List.replicate n (.client r .access)) := by
    simp [accessCount, List.countP_replicate, ShmemAct.isAccessOf]
  have hgrow := hbound _ u hacts hexec hmany
  exact absurd hcount (Nat.ne_of_gt hgrow)

end ClientRuns

/-- The writer is gone after any of its steps, in the state `w`.  A `read_frame` that was in
progress then, or was called later, ends exactly if it was not gone between its counter stores. -/
theorem readFrame_ends_iff {tr : List (ShmemWorld × ShmemAct)} {w w' : ShmemWorld}
    (h : Trace shmemSystem tr w) {acts : List ShmemAct} (hgone : ClientsOnly acts)
    (hexec : shmemSystem.exec w acts = some w') {r : Nat} (hcall : (w'.readers r).InReadFrame) :
    ReadEnds w' r ↔ ¬ w.MidWrite := by
  have hparity := parityInv_of_trace (h.exec hexec)
  have hsame : w'.MidWrite ↔ w.MidWrite := by
    simp only [ShmemWorld.MidWrite, clients_writer hgone hexec]
  rw [← hsame, hparity.midWrite_iff, not_not]
  constructor
  · intro hends
    by_contra hodd
    exact not_readEnds_of_odd hodd (hparity.readers r) hcall hends
  · intro heven
    exact readEnds_of_even heven hcall

/-- The writer is gone after one frame, and client 0 calls `read_frame`. -/
theorem readFrame_ends_afterWrite :
    ∃ w w', shmemSystem.exec ShmemWorld.start (.writer (.write zeroImage) :: storesOfWrite) = some w ∧
      shmemSystem.exec w [.client 0 .readLatest] = some w' ∧ ReadEnds w' 0 := by
  have hwrite := exec_write (w := ShmemWorld.start) rfl zeroImage
  have hgone : ClientsOnly [.client 0 .readLatest] := by
    intro a ha
    exact ⟨0, .readLatest, List.mem_singleton.mp ha⟩
  refine ⟨_, _, hwrite, rfl, ?_⟩
  refine (readFrame_ends_iff (Trace.start.exec hwrite) hgone rfl ?_).mpr ?_
  · simp [Reader.InReadFrame, Reader.enter]
  · rintro ⟨frame, cur, i, hpc⟩
    cases hpc

/-- The writer is gone after the odd counter: client 0 makes any number of accesses and does not
return. -/
theorem readFrame_spins :
    ∃ w w', shmemSystem.exec ShmemWorld.start [.writer (.write zeroImage), .writer .store] = some w ∧
      shmemSystem.exec w [.client 0 .readLatest] = some w' ∧ (w'.readers 0).InReadFrame ∧
      (∀ n, ∃ t, shmemSystem.exec w' (List.replicate n (.client 0 .access)) = some t ∧
        t.returnCount 0 = w'.returnCount 0) ∧
      ¬ ReadEnds w' 0 := by
  have hcopy : ∀ {w : ShmemWorld}, (w.readers 0).pc = .loading → (w.readers 0).EvenCopy := by
    intro w hpc s1 i frame hcopying
    exact absurd (hpc.symm.trans hcopying) (by simp)
  have hodd : (0 + 1 : UInt64) % 2 ≠ 0 := by decide
  refine ⟨_, _, rfl, rfl, ?_, ?_, ?_⟩
  · simp [Reader.InReadFrame, Reader.enter]
  · intro n
    refine accesses_spin hodd (hcopy ?_) ?_ n
    · simp [Reader.enter]
    · simp [Reader.InReadFrame, Reader.enter]
  · refine not_readEnds_of_odd hodd (hcopy ?_) ?_
    · simp [Reader.enter]
    · simp [Reader.InReadFrame, Reader.enter]

end Cm108Driver
