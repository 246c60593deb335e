import Cm108Driver.Programs.Arrival
import Cm108Driver.Server.Changes
import Cm108Driver.Shmem.WriterGone

/-!
# Notified — the numbers that a client reads at its socket, and the page

A notification takes the way of every message: a broadcast puts it into the queues of the
subscribers, a writer thread puts it on the socket, and the client reads it there, at any time later.
The frame of its number has been on the page since before the broadcast, so that a client which goes
to the page behind the notification finds this frame or a later one.
-/

namespace Cm108Driver

open Lib

/-! ## Calls from some point on -/

/-- What a client has returned beyond `old`, and what it is about to return, are frames of calls
that began when `n` writes were complete. -/
structure Reader.Later (n : Nat) (old : List FrameReturn) (reader : Reader) : Prop where
  call : reader.InReadFrame → n ≤ reader.before
  returns : ∃ new, reader.returns = old ++ new ∧ ∀ ret ∈ new, n ≤ ret.before

section Later

variable {n : Nat} {old : List FrameReturn} {reader reader' : Reader}

theorem Reader.Later.enter (h : reader.Later n old) {before : Nat} (hn : n ≤ before)
    (notified : Option UInt64) : (reader.enter notified before).Later n old :=
  { call := fun _ => hn
    returns := h.returns }

/-- A client that stays where it is or leaves `read_frame` without a frame. -/
theorem Reader.Later.move (h : reader.Later n old)
    (hcall : reader'.InReadFrame → reader.InReadFrame) (hbefore : reader'.before = reader.before)
    (hreturns : reader'.returns = reader.returns) : reader'.Later n old :=
  { call := fun hin => hbefore ▸ h.call (hcall hin)
    returns := hreturns ▸ h.returns }

/-- The copy is accepted, and the call returns. -/
theorem Reader.Later.accept (h : reader.Later n old) (hcall : reader.InReadFrame)
    (hout : ¬ reader'.InReadFrame) {ret : FrameReturn} (hbefore : ret.before = reader.before)
    (hreturns : reader'.returns = reader.returns ++ [ret]) : reader'.Later n old := by
  rcases h.returns with ⟨new, hnew, hall⟩
  refine
    { call := fun hin => absurd hin hout
      returns := ⟨new ++ [ret], ?_, ?_⟩ }
  · rw [hreturns, hnew, List.append_assoc]
  · intro ret' hret
    rcases List.mem_append.1 hret with hret | hret
    · exact hall ret' hret
    · rw [List.mem_singleton.1 hret, hbefore]
      exact h.call hcall

theorem Reader.Later.access {page : Page} (h : reader.Later n old)
    (hstep : reader.access page = some reader') : reader'.Later n old := by
  have hin : ∀ {s1 i frame}, reader.pc = .copying s1 i frame → reader.InReadFrame := by
    intro s1 i frame hpc
    simp [Reader.InReadFrame, hpc]
  -- a call stays in `read_frame` until it accepts, and then it is the one that began late enough
  unfold Reader.access at hstep
  split at hstep
  · rename_i hpc
    have hloading : reader.InReadFrame := by simp [Reader.InReadFrame, hpc]
    split at hstep
    · cases hstep
      exact h
    · cases hstep
      exact h.move (fun _ => hloading) rfl rfl
  · rename_i s1 i frame hpc
    split at hstep
    · cases hstep
      exact h.move (fun _ => hin hpc) rfl rfl
    · split at hstep
      · cases hstep
        exact h.accept (hin hpc) id rfl rfl
      · cases hstep
        exact h.move (fun _ => hin hpc) rfl rfl
  · cases hstep

theorem Reader.Later.step {w : ShmemWorld} (h : reader.Later n old) (hn : n ≤ w.written.length)
    {a : ReaderAct} (hstep : reader.step w a = some reader') : reader'.Later n old := by
  cases a with
  | access => exact h.access hstep
  | notify =>
      simp only [Reader.step] at hstep
      split at hstep
      · cases hstep
        exact h.move id rfl rfl
      · cases hstep
  | message m =>
      simp only [Reader.step] at hstep
      split at hstep
      · cases hstep
      · cases hstep
        exact h.move id rfl rfl
  | readLatest =>
      simp only [Reader.step] at hstep
      split at hstep
      · cases hstep
        exact h.enter hn none
      · cases hstep
  | readAudio =>
      simp only [Reader.step] at hstep
      split at hstep
      · cases hstep
        exact h.move False.elim rfl rfl
      · cases hstep
  | receive =>
      -- `read_audio_blocking` goes to the page when it takes a number, not when it is called
      simp only [Reader.step, Reader.receive] at hstep
      split at hstep
      · split at hstep
        · cases hstep
          refine Reader.Later.enter ?_ hn _
          exact h.move id rfl rfl
        · cases hstep
          exact h.move id rfl rfl
      · cases hstep
  | takeMsg =>
      simp only [Reader.step, Reader.takeMsg] at hstep
      split at hstep
      · cases hstep
        exact h.move id rfl rfl
      · cases hstep

/-- The client `r` since `n` writes were complete, of which more are complete now. -/
structure ShmemWorld.Later (r n : Nat) (old : List FrameReturn) (w : ShmemWorld) : Prop where
  written : n ≤ w.written.length
  reader : (w.readers r).Later n old

theorem ShmemWorld.Later.step {r : Nat} {w t : ShmemWorld} {a : ShmemAct} (h : w.Later r n old)
    (hstep : w.step a = some t) : t.Later r n old := by
  cases a with
  | writer a =>
      have hmove := dispatchMove_of_step hstep
      have hreaders := hmove.readers
      refine
        { written := ?_
          reader := hreaders ▸ h.reader }
      cases hmove with
      -- the count grows with the store that makes the counter even again
      | evenCounter hpc hi => exact Nat.le_trans h.written (by simp)
      | _ => exact h.written
  | client r' a =>
      rcases client_step hstep with ⟨reader', hreader, rfl⟩
      refine
        { written := h.written
          reader := ?_ }
      by_cases hr : r = r'
      · subst hr
        simpa using h.reader.step h.written hreader
      · simpa [ShmemWorld.setReader, hr] using h.reader

end Later

/-! ## One run of the registry -/

section Registry

variable {fd : RawFd} {inbound : ClientId → Inbound} {tr : DaemonTrace} {w t : DaemonWorld}
  {a : DaemonAct}

end Registry

/-! ## Whole runs -/

section Runs

variable {fd : RawFd} {inbound : ClientId → Inbound} {tr : DaemonTrace} {w t : DaemonWorld}
  {a : DaemonAct}

end Runs

end Cm108Driver
