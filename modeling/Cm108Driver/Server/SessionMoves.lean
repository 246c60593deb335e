import Cm108Driver.Server.Session

/-!
# SessionMoves — what one step of the daemon can do

`SessionStep` lists the moves of `sessionSystem` with the state that each of them leads to.  The
invariant `SessionInv` ties the locks and the program counters together: a handler works outside the
registry only while it is not in the middle of anything there, and the holder of `tx_producer` is
the handler that is pushing.
-/

namespace Cm108Driver

open Lib

/-! ## Moves -/

inductive SessionStep (fd : RawFd) (w : SessionWorld) : SessionAct → SessionWorld → Prop where
  | dispatch {id : ClientId} {nowMs : UInt64} {m : ClientMsg} {script : List (Arrival UInt8)}
      (hwork : w.work id = .idle) (hpc : (w.server.conns id).handler = .serving .reading)
      (hread : w.nextMsg id = (.ok (some m), script)) :
      SessionStep fd w (.read id nowMs)
        { w.afterRead id script with
          server := w.server.setHandler id (.serving (ServerWorld.dispatch m))
          lastActivityMs := nowMs
          work := Function.update w.work id (deviceWork m) }
  | hangUp {id : ClientId} {nowMs : UInt64} (hwork : w.work id = .idle)
      (hpc : (w.server.conns id).handler = .serving .reading)
      (hnone : ∀ m, (w.nextMsg id).1 ≠ .ok (some m)) (hends : (w.nextMsg id).1 ≠ .pending) :
      SessionStep fd w (.read id nowMs)
        { w.afterRead id (w.nextMsg id).2 with server := w.server.setHandler id .leaving }
  | setGpio {id : ClientId} {handle : WriteControl} {pin : UInt8} {high : Bool}
      (hwork : w.work id = .setGpio pin high) :
      SessionStep fd w (.setGpio id handle)
        { w with
          gpio := { w.gpio with gpio := (w.gpio.gpio.setPin handle pin high).1 }
          work := Function.update w.work id .idle }
  | lockTx {id : ClientId} {frames : List AudioFrame} (hwork : w.work id = .audioWrite frames)
      (hfree : w.tx.holder = none) :
      SessionStep fd w (.lockTx id)
        { w.setTx { w.tx with holder := some (id, frames) } with
          work := Function.update w.work id .pushing }
  | pushTx {id : ClientId} {f : AudioFrame} {fs : List AudioFrame}
      (hholder : w.tx.holder = some (id, f :: fs)) :
      SessionStep fd w .pushTx
        (w.setTx
          { loop := w.tx.loop.peer (.push f)
            holder := some (id, fs) })
  | unlockTx {id : ClientId} (hholder : w.tx.holder = some (id, [])) :
      SessionStep fd w .unlockTx
        { w.setTx { w.tx with holder := none } with work := Function.update w.work id .idle }
  | reapedTx {i : Fin nUrbs} {c : Completion isoOutPacket}
      (hflight : (w.tx.loop.slots i).inFlight = true) :
      SessionStep fd w (.reapedTx i c)
        (w.setTx { w.tx with loop := txLoop.next documentedReap w.tx.loop (.reaped i c) })
  | heartbeat {handle : WriteControl} :
      SessionStep fd w (.heartbeat handle) { w with gpio := w.gpio.next (.heartbeat handle) }
  | counters {rxXruns : UInt64} {lastLatency : LatencyStats} :
      SessionStep fd w (.counters rxXruns lastLatency)
        { w with
          server :=
            { w.server with
              rxXruns := rxXruns
              lastLatency := lastLatency } }
  | server {a : ServerAct} {server : ServerWorld} (hother : a.ofSession = false)
      (hstep : w.server.step fd a = some server) :
      SessionStep fd w (.server a) { w with server := server }

/-- The stream is read between two messages. -/
theorem reading_of_request {fd : RawFd} {w t : ServerWorld} {id : ClientId} {m : ClientMsg}
    (h : w.step fd (.handler id (.request m)) = some t) :
    (w.conns id).handler = .serving .reading ∧
      t = w.setHandler id (.serving (ServerWorld.dispatch m)) := by
  cases hpc : (w.conns id).handler with
  | serving s =>
      cases s with
      | reading =>
          simp only [ServerWorld.step, ServerWorld.handlerStep, hpc, Option.some.injEq] at h
          exact ⟨rfl, h.symm⟩
      | _ => simp [ServerWorld.step, ServerWorld.handlerStep, hpc] at h
  | _ => simp [ServerWorld.step, ServerWorld.handlerStep, hpc] at h

theorem reading_of_hangUp {fd : RawFd} {w t : ServerWorld} {id : ClientId}
    (h : w.step fd (.handler id .hangUp) = some t) :
    (w.conns id).handler = .serving .reading ∧ t = w.setHandler id .leaving := by
  cases hpc : (w.conns id).handler with
  | serving s =>
      cases s with
      | reading =>
          simp only [ServerWorld.step, ServerWorld.handlerStep, hpc, Option.some.injEq] at h
          exact ⟨rfl, h.symm⟩
      | _ => simp [ServerWorld.step, ServerWorld.handlerStep, hpc] at h
  | _ => simp [ServerWorld.step, ServerWorld.handlerStep, hpc] at h

theorem sessionStep_of_step {fd : RawFd} {w t : SessionWorld} {a : SessionAct}
    (h : w.step fd a = some t) : SessionStep fd w a t := by
  cases a with
  | read id nowMs =>
      simp only [SessionWorld.step] at h
      split at h
      · rename_i hidle
        cases sessionMove_of_read hidle h with
        | dispatch hwork hread hstep =>
            rcases reading_of_request hstep with ⟨hpc, rfl⟩
            exact .dispatch hwork hpc hread
        | hangUp hwork hnone hends hstep =>
            rcases reading_of_hangUp hstep with ⟨hpc, rfl⟩
            exact .hangUp hwork hpc hnone hends
        | device hread _ _ _ => exact absurd rfl (hread id nowMs)
      · cases h
  | setGpio id handle =>
      simp only [SessionWorld.step] at h
      split at h
      · rename_i hwork
        cases h
        exact .setGpio hwork
      · cases h
  | lockTx id =>
      simp only [SessionWorld.step] at h
      split at h
      · rename_i hwork
        rcases Option.map_eq_some_iff.1 h with ⟨tx, htx, rfl⟩
        cases txMove_of_step htx with
        | lock hfree => exact .lockTx hwork hfree
      · cases h
  | pushTx =>
      rcases Option.map_eq_some_iff.1 h with ⟨tx, htx, rfl⟩
      cases txMove_of_step htx with
      | push hholder => exact .pushTx hholder
  | unlockTx =>
      simp only [SessionWorld.step] at h
      split at h
      · rename_i hsome
        rcases Option.map_eq_some_iff.1 h with ⟨tx, htx, rfl⟩
        cases txMove_of_step htx with
        | unlock hholder =>
            rw [hholder] at hsome
            cases hsome
            exact .unlockTx hholder
      · cases h
  | reapedTx i c =>
      rcases Option.map_eq_some_iff.1 h with ⟨tx, htx, rfl⟩
      cases txMove_of_step htx with
      | reaped hflight => exact .reapedTx hflight
  | heartbeat handle =>
      cases h
      exact .heartbeat
  | counters rxXruns lastLatency =>
      cases h
      exact .counters
  | server a =>
      simp only [SessionWorld.step] at h
      split at h
      · cases h
      · rename_i hother
        rcases Option.map_eq_some_iff.1 h with ⟨server, hstep, rfl⟩
        exact .server (by simpa using hother) hstep

/-! ## Locks and program counters -/

structure SessionInv (w : SessionWorld) : Prop where
  server : ServerInv w.server
  /-- A handler that has something to do outside the registry is in the middle of nothing there. -/
  working : ∀ id, w.work id ≠ .idle → (w.server.conns id).handler = .serving .reading
  pushing : ∀ id, w.work id = .pushing ↔ ∃ fs, w.tx.holder = some (id, fs)
  /-- `tx_xruns` is one counter, shared by the handlers and the TX loop. -/
  xruns : w.server.txXruns = w.tx.loop.ring.xruns

theorem dispatch_of_deviceWork {m : ClientMsg} (h : deviceWork m ≠ .idle) :
    ServerWorld.dispatch m = .reading := by
  cases m with
  | setGpio pin high => rfl
  | audioWrite frames => rfl
  | _ => exact absurd rfl h

theorem deviceWork_ne_pushing (m : ClientMsg) : deviceWork m ≠ .pushing := by
  cases m <;> simp [deviceWork]

/-- A handler that waits in `read_msg` stays there unless a read returns. -/
theorem handler_of_reading {fd : RawFd} {w t : ServerWorld} {a : ServerAct} {c : ClientId}
    (hinv : ServerInv w) (hstep : w.step fd a = some t) (hother : a.ofSession = false)
    (hpc : (w.conns c).handler = .serving .reading) : (t.conns c).handler = .serving .reading := by
  have hown : ∀ b, a ≠ .handler c b := by
    rintro b rfl
    cases b with
    | request m => cases hother
    | hangUp => cases hother
    | _ => simp [ServerWorld.step, ServerWorld.handlerStep, ServerWorld.serve, hpc] at hstep
  rcases handler_of_step hinv hstep hown with hsame | ⟨_, rfl⟩
  · rw [hsame, hpc]
  · -- the client has been there before
    rw [hinv.fresh w.nextId (Nat.le_refl _)] at hpc
    cases hpc

/-- Only its own action changes this counter. -/
theorem txXruns_of_step {fd : RawFd} {w t : ServerWorld} {a : ServerAct}
    (hstep : w.step fd a = some t) (hother : a.ofSession = false) : t.txXruns = w.txXruns := by
  cases serverMove_of_step hstep with
  | visit hb hid =>
      simp only [ServerWorld.offer_eq]
      split
      · rfl
      · rfl
  | handler hmove =>
      cases hmove with
      | subscribe hpc hlock =>
          simp only [ServerWorld.setHandler, ServerWorld.setConn, ServerWorld.updateStreams]
          split
          · rfl
          · rfl
      | reply hpc hlock =>
          simp only [ServerWorld.setHandler, ServerWorld.setConn, ServerWorld.sendTo]
          split
          · rfl
          · rfl
      | _ => rfl
  | counters rxXruns txXruns lastLatency => cases hother
  | _ => rfl

namespace SessionInv

variable {fd : RawFd} {w t : SessionWorld} {a : SessionAct}

theorem start (inbound : ClientId → Inbound) : SessionInv (SessionWorld.start inbound) where
  server := serverInv_start
  working := fun _ hwork => absurd rfl hwork
  pushing := fun _ => by simp [SessionWorld.start, TxWorld.start]
  xruns := rfl

/-- Nobody but the handler that is pushing has the mutex. -/
theorem not_holder (h : SessionInv w) {id : ClientId} (hwork : w.work id ≠ .pushing)
    (fs : List AudioFrame) : w.tx.holder ≠ some (id, fs) :=
  fun hholder => hwork ((h.pushing id).2 ⟨fs, hholder⟩)

/-- The handler of `id` goes on to `work` outside the registry, or is done there. -/
theorem update_working (h : SessionInv w) {id : ClientId} {work : DeviceWork}
    (hpc : work ≠ .idle → (w.server.conns id).handler = .serving .reading) (c : ClientId)
    (hwork : Function.update w.work id work c ≠ .idle) :
    (w.server.conns c).handler = .serving .reading := by
  by_cases hc : c = id
  · subst hc
    exact hpc (by simpa using hwork)
  · exact h.working c (by simpa [hc] using hwork)

/-- The mutex stays where it is. -/
theorem update_pushing (h : SessionInv w) {id : ClientId} {work : DeviceWork}
    (hold : w.work id ≠ .pushing) (hnew : work ≠ .pushing) (c : ClientId) :
    Function.update w.work id work c = .pushing ↔ ∃ fs, w.tx.holder = some (c, fs) := by
  by_cases hc : c = id
  · subst hc
    simp [hnew, h.not_holder hold]
  · simpa [hc] using h.pushing c

theorem step (h : SessionInv w) (hstep : w.step fd a = some t) : SessionInv t := by
  have hserver : ServerInv t.server := by
    rcases (sessionMove_of_step hstep).server_step with ⟨b, hb⟩
    exact h.server.step hb
  cases sessionStep_of_step hstep with
  | dispatch hwork hpc hread =>
      rename_i id nowMs m script
      -- a message for a device leaves the handler at `read_msg`, as far as the registry can tell
      refine ⟨hserver, ?_, h.update_pushing (by simp [hwork]) (deviceWork_ne_pushing m), h.xruns⟩
      intro c hc
      by_cases hid : c = id
      · subst hid
        simp [dispatch_of_deviceWork (m := m) (by simpa using hc)]
      · simpa [hid] using h.working c (by simpa [hid] using hc)
  | hangUp hwork hpc hnone hends =>
      rename_i id nowMs
      refine ⟨hserver, ?_, h.pushing, h.xruns⟩
      intro c hc
      have hid : c ≠ id := by
        rintro rfl
        exact hc hwork
      simpa [hid] using h.working c hc
  | setGpio hwork =>
      exact ⟨hserver, h.update_working (by simp),
        h.update_pushing (by simp [hwork]) (by simp), h.xruns⟩
  | lockTx hwork hfree =>
      rename_i id frames
      -- nobody had the mutex before, and `id` alone has it now
      refine ⟨hserver, h.update_working fun _ => h.working id (by simp [hwork]), ?_, rfl⟩
      intro c
      by_cases hc : c = id
      · simp [SessionWorld.setTx, hc]
      · have hnot := h.pushing c
        simp only [hfree] at hnot
        simpa [SessionWorld.setTx, hc, Ne.symm hc] using hnot
  | pushTx hholder =>
      rename_i id f fs
      refine ⟨hserver, h.working, ?_, rfl⟩
      intro c
      have hsame := h.pushing c
      simp only [hholder] at hsame
      simpa [SessionWorld.setTx] using hsame
  | unlockTx hholder =>
      rename_i id
      refine ⟨hserver, h.update_working (by simp), ?_, rfl⟩
      intro c
      by_cases hc : c = id
      · simp [SessionWorld.setTx, hc]
      · have hsame := h.pushing c
        simp only [hholder] at hsame
        simpa [SessionWorld.setTx, hc, Ne.symm hc] using hsame
  | reapedTx hflight => exact ⟨hserver, h.working, h.pushing, rfl⟩
  | heartbeat => exact ⟨hserver, h.working, h.pushing, h.xruns⟩
  | counters => exact ⟨hserver, h.working, h.pushing, h.xruns⟩
  | server hother hserverStep =>
      refine ⟨hserver, ?_, h.pushing, (txXruns_of_step hserverStep hother).trans h.xruns⟩
      intro c hc
      exact handler_of_reading h.server hserverStep hother (h.working c hc)

end SessionInv

theorem sessionInv_of_trace {fd : RawFd} {inbound : ClientId → Inbound} {tr : SessionTrace}
    {w : SessionWorld} (h : Trace (sessionSystem fd inbound) tr w) : SessionInv w := by
  induction h with
  | start => exact SessionInv.start inbound
  | snoc htr hstep ih => exact ih.step hstep

/-- No client is in front of its loop again. -/
theorem setup_of_setup {fd : RawFd} {w t : SessionWorld} {a : SessionAct} {c : ClientId}
    (h : SessionInv w) (hstep : w.step fd a = some t) (hsetup : Session.phaseOf c t = .setup) :
    Session.phaseOf c w = .setup := by
  rcases (sessionMove_of_step hstep).server_step with ⟨b, hb⟩
  have hmove := phaseMove_of_step h.server hb c
  rw [show (t.server.conns c).handler.phase = .setup from hsetup] at hmove
  generalize hphase : (w.server.conns c).handler.phase = p at hmove
  cases hmove with
  | stay _ _ => exact hphase

/-! ## The daemon at its registry -/

/-- What a step of the daemon does at the registry, or with the counters. -/
def SessionWorld.atRegistry (fd : RawFd) (w : SessionWorld) : SessionAct → Option ServerAct
  | .read id _ =>
      match (w.nextMsg id).1 with
      | .ok (some m) => some (.handler id (.request m))
      | _ => some (.handler id .hangUp)
  | .server a => some a
  | a =>
      (w.step fd a).map fun t =>
        .counters t.server.rxXruns t.server.txXruns t.server.lastLatency

section Registry

variable {fd : RawFd} {w t : SessionWorld} {a : SessionAct}

theorem atRegistry_dispatch {id : ClientId} {nowMs : UInt64} {m : ClientMsg}
    {script : List (Arrival UInt8)} (hread : w.nextMsg id = (.ok (some m), script)) :
    w.atRegistry fd (.read id nowMs) = some (.handler id (.request m)) := by
  simp [SessionWorld.atRegistry, hread]

theorem atRegistry_hangUp {id : ClientId} {nowMs : UInt64}
    (hnone : ∀ m, (w.nextMsg id).1 ≠ .ok (some m)) :
    w.atRegistry fd (.read id nowMs) = some (.handler id .hangUp) := by
  simp only [SessionWorld.atRegistry]

theorem atRegistry_device (hread : ∀ id nowMs, a ≠ .read id nowMs) (hother : ∀ b, a ≠ .server b)
    (hstep : w.step fd a = some t) :
    w.atRegistry fd a =
      some (.counters t.server.rxXruns t.server.txXruns t.server.lastLatency) := by
  cases a with
  | read id nowMs => exact absurd rfl (hread id nowMs)
  | server b => exact absurd rfl (hother b)
  | _ => rw [SessionWorld.atRegistry, hstep, Option.map_some] <;> simp

theorem step_atRegistry (hstep : w.step fd a = some t) :
    ∃ b, w.atRegistry fd a = some b ∧ w.server.step fd b = some t.server := by
  cases sessionMove_of_step hstep with
  | dispatch hwork hread hserver => exact ⟨_, atRegistry_dispatch hread, hserver⟩
  | hangUp hwork hnone hends hserver => exact ⟨_, atRegistry_hangUp hnone, hserver⟩
  | device hread hinbound hserver hother =>
      rcases hserver with ⟨rx, tx, lat, hserver⟩
      refine ⟨_, atRegistry_device hread hother hstep, ?_⟩
      rw [← Option.some.inj hserver]
      rfl
  | server hother hserver => exact ⟨_, rfl, hserver⟩

variable {inbound : ClientId → Inbound} {tr : SessionTrace}

end Registry

end Cm108Driver
