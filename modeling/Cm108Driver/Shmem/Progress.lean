import Cm108Driver.Shmem.Seqlock

/-!
# Progress — undisturbed writes and reads run to their end

A write that is not interrupted leaves its frame in the page after `storesOfWrite` stores, and a
`read_frame` that no write disturbs returns the frame of the page after `accessesOfRead` accesses.
-/

namespace Cm108Driver

open Lib

/-- The odd counter, the bytes, the even counter. -/
def storesOfWrite : List ShmemAct :=
  .writer .store :: (List.replicate frameBytes (.writer .store) ++ [.writer .store])

/-- The counter, the bytes, the counter again. -/
def accessesOfRead (r : Nat) : List ShmemAct :=
  .client r .access :: (List.replicate frameBytes (.client r .access) ++ [.client r .access])

/-! ## Writes -/

/-- The byte copy, from byte `i` on. -/
theorem exec_storeBytes (frame old : FrameImage) (cur : UInt64) (k : Nat) {w : ShmemWorld}
    {i : Nat} (hi : i + k = frameBytes) (hpc : w.writer = .copying frame cur i)
    (hdata : w.page.data = replaced i frame old) :
    shmemSystem.exec w (List.replicate k (.writer .store)) =
      some
        { w with
          page := { w.page with data := frame }
          writer := .copying frame cur frameBytes } := by
  -- `k` bytes are left, and the `i` bytes in front of them are those of the new frame
  induction k generalizing w i with
  | zero =>
      have hall : w.page.data = frame := by
        rw [hdata]
        exact replaced_all (by omega) _ _
      have hlast : i = frameBytes := by omega
      cases w with
      | mk page writer readers written =>
          cases page with
          | mk seq data =>
              simp only at hall hpc
              simp [System.exec, hall, hpc, hlast]
  | succ k ih =>
      have hlt : i < frameBytes := by omega
      have hstep : shmemSystem.step w (.writer .store) =
          some
            { w with
              page := { w.page with data := Function.update w.page.data ⟨i, hlt⟩ (frame ⟨i, hlt⟩) }
              writer := .copying frame cur (i + 1) } := by
        simp [shmemSystem, ShmemWorld.step, ShmemWorld.writerStep, ShmemWorld.store, hpc, hlt]
      rw [List.replicate_succ, System.exec, hstep, Option.bind_some]
      rw [ih (by omega) rfl (by rw [hdata]; exact update_replaced hlt _ _)]

/-- A write from the load of the counter to its last store. -/
theorem exec_write {w : ShmemWorld} (hpc : w.writer = .idle) (frame : FrameImage) :
    shmemSystem.exec w (.writer (.write frame) :: storesOfWrite) =
      some
        { w with
          page := { seq := w.page.seq + 2, data := frame }
          writer := .notifying (w.page.seq + 2)
          written := w.written ++ [{ seq := w.page.seq + 2, frame := frame }] } := by
  have hload : shmemSystem.step w (.writer (.write frame)) =
      some { w with writer := .loaded frame w.page.seq } := by
    simp [shmemSystem, ShmemWorld.step, ShmemWorld.writerStep, hpc]
  have hodd : shmemSystem.step { w with writer := .loaded frame w.page.seq } (.writer .store) =
      some
        { w with
          page := { w.page with seq := w.page.seq + 1 }
          writer := .copying frame w.page.seq 0 } := rfl
  have hbytes := exec_storeBytes frame w.page.data w.page.seq frameBytes
    (w := { w with
      page := { w.page with seq := w.page.seq + 1 }
      writer := .copying frame w.page.seq 0 })
    (Nat.zero_add _) rfl (replaced_zero frame w.page.data).symm
  rw [System.exec_cons hload, storesOfWrite, System.exec_cons hodd, System.exec_trans hbytes]
  rw [System.exec_cons (t := { w with
    page := { seq := w.page.seq + 2, data := frame }
    writer := .notifying (w.page.seq + 2)
    written := w.written ++ [{ seq := w.page.seq + 2, frame := frame }] })]
  · rfl
  · simp [shmemSystem, ShmemWorld.step, ShmemWorld.writerStep, ShmemWorld.store]

/-! ## Reads -/

@[simp] theorem ShmemWorld.setReader_readers (w : ShmemWorld) (r : Nat) (reader : Reader) :
    (w.setReader r reader).readers r = reader := by
  simp [ShmemWorld.setReader]

@[simp] theorem ShmemWorld.setReader_setReader (w : ShmemWorld) (r : Nat) (a b : Reader) :
    (w.setReader r a).setReader r b = w.setReader r b := by
  simp [ShmemWorld.setReader]

@[simp] theorem ShmemWorld.setReader_page (w : ShmemWorld) (r : Nat) (reader : Reader) :
    (w.setReader r reader).page = w.page := rfl

@[simp] theorem ShmemWorld.setReader_written (w : ShmemWorld) (r : Nat) (reader : Reader) :
    (w.setReader r reader).written = w.written := rfl

@[simp] theorem ShmemWorld.setReader_writer (w : ShmemWorld) (r : Nat) (reader : Reader) :
    (w.setReader r reader).writer = w.writer := rfl

/-- An access of client `r`, as a step of the system. -/
theorem step_access {w : ShmemWorld} {r : Nat} {reader reader' : Reader}
    (h : reader.access w.page = some reader') :
    shmemSystem.step (w.setReader r reader) (.client r .access) = some (w.setReader r reader') := by
  simp [shmemSystem, ShmemWorld.step, Reader.step, h]

/-- The byte copy, from byte `i` on. -/
theorem exec_loadBytes (w : ShmemWorld) (r : Nat) (reader : Reader) (s1 : UInt64)
    (old : FrameImage) (k : Nat) {i : Nat} (hi : i + k = frameBytes) :
    shmemSystem.exec
        (w.setReader r { reader with pc := .copying s1 i (replaced i w.page.data old) })
        (List.replicate k (.client r .access)) =
      some (w.setReader r { reader with pc := .copying s1 frameBytes w.page.data }) := by
  induction k generalizing i with
  | zero =>
      have hlast : i = frameBytes := by omega
      subst hlast
      rw [replaced_all (Nat.le_refl _)]
      rfl
  | succ k ih =>
      have hlt : i < frameBytes := by omega
      have hcopy : { reader with pc := .copying s1 i (replaced i w.page.data old) : Reader }.access
          w.page = some { reader with pc := .copying s1 (i + 1) (replaced (i + 1) w.page.data old) } := by
        simp [Reader.access, hlt, update_replaced hlt]
      rw [List.replicate_succ, System.exec_cons (step_access hcopy)]
      exact ih (by omega)

/-- A `read_frame` from its first access to its return. -/
theorem exec_read {w : ShmemWorld} {r : Nat} (hpc : (w.readers r).pc = .loading)
    (heven : w.page.seq % 2 = 0) :
    shmemSystem.exec w (accessesOfRead r) =
      some (w.setReader r
        { w.readers r with
          pc := .idle
          returns := (w.readers r).returns ++
            [{ notified := (w.readers r).notified
               before := (w.readers r).before
               seq := w.page.seq
               frame := w.page.data }] }) := by
  have hload : (w.readers r).access w.page = some
      { w.readers r with pc := .copying w.page.seq 0 (replaced 0 w.page.data zeroImage) } := by
    simp [Reader.access, hpc, heven]
  have hbytes := exec_loadBytes w r (w.readers r) w.page.seq zeroImage frameBytes (Nat.zero_add _)
  have hcheck : { w.readers r with pc := .copying w.page.seq frameBytes w.page.data : Reader }.access
      w.page = some
        { w.readers r with
          pc := .idle
          returns := (w.readers r).returns ++
            [{ notified := (w.readers r).notified
               before := (w.readers r).before
               seq := w.page.seq
               frame := w.page.data }] } := by
    simp [Reader.access]
  have hself : w.setReader r (w.readers r) = w := by
    simp [ShmemWorld.setReader]
  have hfirst := step_access (w := w) (r := r) hload
  rw [hself] at hfirst
  rw [accessesOfRead, System.exec_cons hfirst, System.exec_trans hbytes,
    System.exec_cons (step_access hcheck)]
  rfl

/-- The rest of a copy, whatever the page holds by now. -/
theorem exec_copyOn (w : ShmemWorld) (r : Nat) (reader : Reader) (s1 : UInt64) (k : Nat) {i : Nat}
    (frame : FrameImage) (hi : i + k = frameBytes) :
    ∃ frame', shmemSystem.exec (w.setReader r { reader with pc := .copying s1 i frame })
        (List.replicate k (.client r .access)) =
      some (w.setReader r { reader with pc := .copying s1 frameBytes frame' }) := by
  induction k generalizing i frame with
  | zero =>
      have hlast : i = frameBytes := by omega
      subst hlast
      exact ⟨frame, rfl⟩
  | succ k ih =>
      have hlt : i < frameBytes := by omega
      have hcopy : { reader with pc := .copying s1 i frame : Reader }.access w.page = some
          { reader with
            pc := .copying s1 (i + 1) (Function.update frame ⟨i, hlt⟩ (w.page.data ⟨i, hlt⟩)) } := by
        simp [Reader.access, hlt]
      rw [List.replicate_succ, System.exec_cons (step_access hcopy)]
      exact ih _ (by omega)

/-- A copy that a write has overtaken is thrown away. -/
theorem exec_throwAway {w : ShmemWorld} {r : Nat} {s1 : UInt64} {i : Nat} {frame : FrameImage}
    (k : Nat) (hpc : (w.readers r).pc = .copying s1 i frame) (hi : i + k = frameBytes)
    (hseq : w.page.seq ≠ s1) :
    shmemSystem.exec w (List.replicate k (.client r .access) ++ [.client r .access]) =
      some (w.setReader r { w.readers r with pc := .loading }) := by
  have hself : w.setReader r { w.readers r with pc := .copying s1 i frame } = w := by
    simp [ShmemWorld.setReader, ← hpc]
  rcases exec_copyOn w r (w.readers r) s1 k frame hi with ⟨frame', hexec⟩
  rw [hself] at hexec
  have hcheck : { w.readers r with pc := .copying s1 frameBytes frame' : Reader }.access w.page =
      some { w.readers r with pc := .loading } := by
    simp [Reader.access, hseq]
  rw [System.exec_trans hexec, System.exec_cons (step_access hcheck)]
  rfl

/-! ## A frame on its way to a client -/

/-- Write a frame and notify client `r`. -/
def publish (frame : FrameImage) (r : Nat) : List ShmemAct :=
  (.writer (.write frame) :: storesOfWrite) ++ [.client r .notify, .writer .endNotify]

/-- An undisturbed `read_audio_blocking` that accepts the first message of its queue. -/
def fetch (r : Nat) : List ShmemAct :=
  [.client r .readAudio, .client r .receive] ++ accessesOfRead r

/-- The world after `publish`. -/
def ShmemWorld.published (w : ShmemWorld) (frame : FrameImage) (r : Nat) : ShmemWorld :=
  { w with
    page := { seq := w.page.seq + 2, data := frame }
    readers := Function.update w.readers r
      { w.readers r with inbox := (w.readers r).inbox ++ [.audioReady (w.page.seq + 2)] }
    written := w.written ++ [{ seq := w.page.seq + 2, frame := frame }] }

theorem exec_publish {w : ShmemWorld} (hpc : w.writer = .idle) (frame : FrameImage) (r : Nat) :
    shmemSystem.exec w (publish frame r) = some (w.published frame r) := by
  rw [publish, System.exec_trans (exec_write hpc frame)]
  cases w with
  | mk page writer readers written =>
      simp only at hpc
      simp [System.exec, shmemSystem, ShmemWorld.step, ShmemWorld.writerStep, Reader.step,
        ShmemWorld.setReader, ShmemWorld.published, hpc]

/-- The world after `fetch`, when the message is `AudioReady` with number `seq`. -/
def ShmemWorld.fetched (w : ShmemWorld) (r : Nat) (seq : UInt64) : ShmemWorld :=
  w.setReader r
    { pc := .idle
      client := { lastSeq := seq }
      inbox := (w.readers r).inbox.tail
      notified := some seq
      before := w.written.length
      returns := (w.readers r).returns ++
        [{ notified := some seq
           before := w.written.length
           seq := w.page.seq
           frame := w.page.data }] }

theorem exec_fetch (seq : UInt64) {w : ShmemWorld} {r : Nat} {m : ServerMsg}
    {inbox : List ServerMsg} (hpc : (w.readers r).pc = .idle) (hbox : (w.readers r).inbox = m :: inbox)
    (hwant : wantAudio (w.readers r).client.lastSeq m = some seq) (heven : w.page.seq % 2 = 0) :
    shmemSystem.exec w (fetch r) = some (w.fetched r seq) := by
  have hcall : shmemSystem.step w (.client r .readAudio) =
      some (w.setReader r { w.readers r with pc := .awaiting }) := by
    simp [shmemSystem, ShmemWorld.step, Reader.step, hpc]
  have haccept : shmemSystem.step (w.setReader r { w.readers r with pc := .awaiting })
      (.client r .receive) =
      some (w.setReader r
        ({ w.readers r with
          pc := .awaiting
          client := { lastSeq := seq }
          inbox := inbox }.enter (some seq) w.written.length)) := by
    simp [shmemSystem, ShmemWorld.step, Reader.step, Reader.receive, hbox, hwant]
  have hread := exec_read (r := r)
    (w := w.setReader r
      ({ w.readers r with
        pc := .awaiting
        client := { lastSeq := seq }
        inbox := inbox }.enter (some seq) w.written.length))
    (by simp [Reader.enter]) (by simpa using heven)
  rw [fetch, List.cons_append, List.cons_append, List.nil_append, System.exec_cons hcall,
    System.exec_cons haccept, hread]
  simp [ShmemWorld.fetched, Reader.enter, hbox]

end Cm108Driver
