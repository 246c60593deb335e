import Cm108Driver.Lib.LeadingRun
import Cm108Driver.Server.GpioOutput
import Cm108Driver.Server.Outbound
import Cm108Driver.Server.TxPipeline

/-!
# Session — from a client's bytes to what they change

Every handler reads its own socket and works on one message at a time, with the registry and the
counters (`Registry`), the output register (`GpioOutput`) or the TX ring (`TxPipeline`).  A run
interleaves all handlers, the loops at the devices and the threads that broadcast; every client may
send any bytes, cut into reads in any way.

A handler that has left its loop stays out of it, and what it has dispatched are the messages of
the longest leading run of frames that `read_msg` accepts.  The bytes behind this run might as well
not have been sent.
-/

namespace Cm108Driver

open Lib

/-! ## The system -/

/-- What the reads of a client's socket find, and whether the client then closes it. -/
structure Inbound where
  script : List (Arrival UInt8)
  closed : Bool

/-- What a handler has yet to do for its message outside the registry. -/
inductive DeviceWork
  | idle
  | setGpio (pin : UInt8) (high : Bool)
  | audioWrite (frames : List AudioFrame)
  /-- It holds `tx_producer`. -/
  | pushing

/-- The other half of `dispatch_client_msg`, beside `ServerWorld.dispatch`. -/
def deviceWork : ClientMsg → DeviceWork
  | .setGpio pin high => .setGpio pin high
  | .audioWrite frames => .audioWrite frames
  | _ => .idle

structure SessionWorld where
  server : ServerWorld
  tx : TxWorld
  gpio : GpioWorld
  lastActivityMs : UInt64
  inbound : ClientId → Inbound
  work : ClientId → DeviceWork

inductive SessionAct
  /-- `read_msg` returns to a handler, which enters `dispatch_client_msg` at the time `nowMs` or
  leaves its loop. -/
  | read (id : ClientId) (nowMs : UInt64)
  /-- A handler calls `set_pin` under the `gpio` mutex. -/
  | setGpio (id : ClientId) (handle : WriteControl)
  /-- A handler gets the `tx_producer` mutex. -/
  | lockTx (id : ClientId)
  /-- The handler that holds it pushes its next frame, or is done. -/
  | pushTx
  | unlockTx
  /-- The TX loop reaps a URB. -/
  | reapedTx (i : Fin nUrbs) (c : Completion isoOutPacket)
  | heartbeat (handle : WriteControl)
  /-- The RX loop and the dispatch thread change their counters. -/
  | counters (rxXruns : UInt64) (lastLatency : LatencyStats)
  /-- Any other step around the registry. -/
  | server (a : ServerAct)

/-- The steps that the reads and the counters of a session stand for. -/
def ServerAct.ofSession : ServerAct → Bool
  | .handler _ (.request _) => true
  | .handler _ .hangUp => true
  | .counters _ _ _ => true
  | _ => false

namespace SessionWorld

def start (inbound : ClientId → Inbound) : SessionWorld :=
  { server := ServerWorld.start
    tx := TxWorld.start
    gpio := GpioWorld.start
    lastActivityMs := 0
    inbound := inbound
    work := fun _ => .idle }

/-- The result of a client's next `read_msg`. -/
def nextMsg (w : SessionWorld) (id : ClientId) :
    Outcome (Option ClientMsg) × List (Arrival UInt8) :=
  readMsg (w.inbound id).closed (w.inbound id).script

/-- Behind a read of a client, with what it has left. -/
def afterRead (w : SessionWorld) (id : ClientId) (script : List (Arrival UInt8)) : SessionWorld :=
  { w with inbound := Function.update w.inbound id { w.inbound id with script := script } }

/-- The handler's loop: dispatch a message, break on the end of the stream and on an error. -/
def read (fd : RawFd) (w : SessionWorld) (id : ClientId) (nowMs : UInt64) :
    Option SessionWorld :=
  match w.nextMsg id with
  | (.ok (some m), script) =>
      (w.server.step fd (.handler id (.request m))).map fun server =>
        { w.afterRead id script with
          server := server
          lastActivityMs := nowMs
          work := Function.update w.work id (deviceWork m) }
  -- `read_msg` does not return
  | (.pending, _) => none
  -- the end of the stream and an error are not told apart from here on
  | (_, script) =>
      (w.server.step fd (.handler id .hangUp)).map fun server =>
        { w.afterRead id script with server := server }

/-- The TX ring's counter is one of the server's. -/
def setTx (w : SessionWorld) (tx : TxWorld) : SessionWorld :=
  { w with
    tx := tx
    server := { w.server with txXruns := tx.loop.ring.xruns } }

def step (fd : RawFd) (w : SessionWorld) : SessionAct → Option SessionWorld
  | .read id nowMs =>
      -- `dispatch_client_msg` has returned
      match w.work id with
      | .idle => w.read fd id nowMs
      | _ => none
  | .setGpio id handle =>
      match w.work id with
      | .setGpio pin high =>
          -- a transfer that fails is only logged
          some
            { w with
              gpio := { w.gpio with gpio := (w.gpio.gpio.setPin handle pin high).1 }
              work := Function.update w.work id .idle }
      | _ => none
  | .lockTx id =>
      match w.work id with
      | .audioWrite frames =>
          (w.tx.step (.lock id frames)).map fun tx =>
            { w.setTx tx with work := Function.update w.work id .pushing }
      | _ => none
  | .pushTx => (w.tx.step .push).map w.setTx
  | .unlockTx =>
      match w.tx.holder with
      | some (id, _) =>
          (w.tx.step .unlock).map fun tx =>
            { w.setTx tx with work := Function.update w.work id .idle }
      | none => none
  | .reapedTx i c => (w.tx.step (.reaped i c)).map w.setTx
  | .heartbeat handle => some { w with gpio := w.gpio.next (.heartbeat handle) }
  | .counters rxXruns lastLatency =>
      some
        { w with
          server :=
            { w.server with
              rxXruns := rxXruns
              lastLatency := lastLatency } }
  | .server a =>
      -- these have actions of their own above
      if a.ofSession then
        none
      else
        (w.server.step fd a).map fun server => { w with server := server }

end SessionWorld

/-- The daemon, with what every client sends. -/
def sessionSystem (fd : RawFd) (inbound : ClientId → Inbound) : System SessionWorld SessionAct where
  init := SessionWorld.start inbound
  step := SessionWorld.step fd

abbrev SessionTrace := List (SessionWorld × SessionAct)

/-- What a step can do. -/
inductive SessionMove (fd : RawFd) (w : SessionWorld) : SessionAct → SessionWorld → Prop where
  | dispatch {id : ClientId} {nowMs : UInt64} {m : ClientMsg} {script : List (Arrival UInt8)}
      {server : ServerWorld} (hwork : w.work id = .idle)
      (hread : w.nextMsg id = (.ok (some m), script))
      (hstep : w.server.step fd (.handler id (.request m)) = some server) :
      SessionMove fd w (.read id nowMs)
        { w.afterRead id script with
          server := server
          lastActivityMs := nowMs
          work := Function.update w.work id (deviceWork m) }
  | hangUp {id : ClientId} {nowMs : UInt64} {server : ServerWorld} (hwork : w.work id = .idle)
      (hnone : ∀ m, (w.nextMsg id).1 ≠ .ok (some m)) (hends : (w.nextMsg id).1 ≠ .pending)
      (hstep : w.server.step fd (.handler id .hangUp) = some server) :
      SessionMove fd w (.read id nowMs)
        { w.afterRead id (w.nextMsg id).2 with server := server }
  | device {a : SessionAct} {t : SessionWorld} (hread : ∀ id nowMs, a ≠ .read id nowMs)
      (hinbound : t.inbound = w.inbound)
      (hserver : ∃ rx tx lat, w.server.step fd (.counters rx tx lat) = some t.server)
      (hother : ∀ b, a ≠ .server b) : SessionMove fd w a t
  | server {a : ServerAct} {server : ServerWorld} (hother : a.ofSession = false)
      (hstep : w.server.step fd a = some server) :
      SessionMove fd w (.server a) { w with server := server }

theorem SessionWorld.counters_setTx (fd : RawFd) (w : SessionWorld) (tx : TxWorld) :
    ∃ rx xruns lat, w.server.step fd (.counters rx xruns lat) = some (w.setTx tx).server :=
  ⟨w.server.rxXruns, tx.loop.ring.xruns, w.server.lastLatency, rfl⟩

theorem SessionWorld.read_of_some (fd : RawFd) {w : SessionWorld} {id : ClientId} (nowMs : UInt64)
    {m : ClientMsg} {script : List (Arrival UInt8)} (h : w.nextMsg id = (.ok (some m), script)) :
    w.read fd id nowMs =
      (w.server.step fd (.handler id (.request m))).map fun server =>
        { w.afterRead id script with
          server := server
          lastActivityMs := nowMs
          work := Function.update w.work id (deviceWork m) } := by
  simp [read, h]

theorem SessionWorld.read_of_none (fd : RawFd) {w : SessionWorld} {id : ClientId} (nowMs : UInt64)
    (hnone : ∀ m, (w.nextMsg id).1 ≠ .ok (some m)) (hends : (w.nextMsg id).1 ≠ .pending) :
    w.read fd id nowMs =
      (w.server.step fd (.handler id .hangUp)).map fun server =>
        { w.afterRead id (w.nextMsg id).2 with server := server } := by
  unfold read
  split
  · rename_i m script hread
    exact absurd (congrArg Prod.fst hread) (hnone m)
  · rename_i hread
    exact absurd (congrArg Prod.fst hread) hends
  · rename_i out script hmsg hpending hread
    rw [hread]

theorem sessionMove_of_read {fd : RawFd} {w t : SessionWorld} {id : ClientId} {nowMs : UInt64}
    (hwork : w.work id = .idle) (h : w.read fd id nowMs = some t) :
    SessionMove fd w (.read id nowMs) t := by
  cases hread : w.nextMsg id with
  | mk out script =>
      by_cases hmsg : ∃ m, out = .ok (some m)
      · rcases hmsg with ⟨m, rfl⟩
        rw [SessionWorld.read_of_some fd nowMs hread] at h
        rcases Option.map_eq_some_iff.1 h with ⟨server, hstep, rfl⟩
        exact .dispatch hwork hread hstep
      · have hnone : ∀ m, (w.nextMsg id).1 ≠ .ok (some m) := by
          rw [hread]
          exact fun m hm => hmsg ⟨m, hm⟩
        have hends : (w.nextMsg id).1 ≠ .pending := by
          intro hpending
          rw [hread] at hpending
          simp only at hpending
          subst hpending
          simp [SessionWorld.read, hread] at h
        rw [SessionWorld.read_of_none fd nowMs hnone hends] at h
        rcases Option.map_eq_some_iff.1 h with ⟨server, hstep, rfl⟩
        exact .hangUp hwork hnone hends hstep

theorem sessionMove_of_step {fd : RawFd} {w t : SessionWorld} {a : SessionAct}
    (h : w.step fd a = some t) : SessionMove fd w a t := by
  cases a with
  | read id nowMs =>
      simp only [SessionWorld.step] at h
      split at h
      · rename_i hwork
        exact sessionMove_of_read hwork h
      · cases h
  | setGpio id handle =>
      simp only [SessionWorld.step] at h
      split at h
      · cases h
        exact .device (by simp) rfl ⟨_, _, _, rfl⟩ (by simp)
      · cases h
  | lockTx id =>
      simp only [SessionWorld.step] at h
      split at h
      · rcases Option.map_eq_some_iff.1 h with ⟨tx, _, rfl⟩
        exact .device (by simp) rfl (w.counters_setTx fd tx) (by simp)
      · cases h
  | pushTx =>
      rcases Option.map_eq_some_iff.1 h with ⟨tx, _, rfl⟩
      exact .device (by simp) rfl (w.counters_setTx fd tx) (by simp)
  | unlockTx =>
      simp only [SessionWorld.step] at h
      split at h
      · rcases Option.map_eq_some_iff.1 h with ⟨tx, _, rfl⟩
        exact .device (by simp) rfl (w.counters_setTx fd tx) (by simp)
      · cases h
  | reapedTx i c =>
      rcases Option.map_eq_some_iff.1 h with ⟨tx, _, rfl⟩
      exact .device (by simp) rfl (w.counters_setTx fd tx) (by simp)
  | heartbeat handle =>
      cases h
      exact .device (by simp) rfl ⟨_, _, _, rfl⟩ (by simp)
  | counters rxXruns lastLatency =>
      cases h
      exact .device (by simp) rfl ⟨rxXruns, w.server.txXruns, lastLatency, rfl⟩ (by simp)
  | server a =>
      simp only [SessionWorld.step] at h
      split at h
      · cases h
      · rename_i hother
        rcases Option.map_eq_some_iff.1 h with ⟨server, hstep, rfl⟩
        exact .server (by simpa using hother) hstep

/-- Every step is a step of the server, as far as it shows there. -/
theorem SessionMove.server_step {fd : RawFd} {w t : SessionWorld} {a : SessionAct}
    (h : SessionMove fd w a t) : ∃ b, w.server.step fd b = some t.server := by
  cases h with
  | dispatch hwork hread hstep => exact ⟨_, hstep⟩
  | hangUp hwork hnone hends hstep => exact ⟨_, hstep⟩
  | device hread hinbound hserver hother =>
      rcases hserver with ⟨rx, tx, lat, hstep⟩
      exact ⟨_, hstep⟩
  | server hother hstep => exact ⟨_, hstep⟩

/-! ## Phases of a handler -/

/-- In front of the loop of `handle_client`, inside, and behind it. -/
inductive Phase
  | setup
  | looping
  | over
  deriving DecidableEq

def HandlerPc.phase : HandlerPc → Phase
  | .unborn => .setup
  | .allocated => .setup
  | .registered => .setup
  | .handshaken => .setup
  | .serving _ => .looping
  | .leaving => .over
  | .gone => .over

/-- What a step means for the phase of the handler of `c`. -/
inductive PhaseMove (c : ClientId) (p : Phase) (a : ServerAct) : Phase → Prop where
  | stay (hspawn : a ≠ .handler c (.spawnWriter true)) (hhangUp : a ≠ .handler c .hangUp) :
      PhaseMove c p a p
  | enter (hp : p = .setup) (ha : a = .handler c (.spawnWriter true)) : PhaseMove c p a .looping
  | refuse (hp : p = .setup)
      (ha : a = .handler c (.sendFd false) ∨ a = .handler c (.spawnWriter false)) :
      PhaseMove c p a .over
  | leave (hp : p = .looping) (ha : a = .handler c .hangUp) : PhaseMove c p a .over

/-- Only four steps of its own handler change a client's phase. -/
theorem PhaseMove.eq {c : ClientId} {p q : Phase} {a : ServerAct} (h : PhaseMove c p a q)
    (hspawn : ∀ ok, a ≠ .handler c (.spawnWriter ok)) (hfd : a ≠ .handler c (.sendFd false))
    (hhangUp : a ≠ .handler c .hangUp) : q = p := by
  cases h with
  | stay _ _ => rfl
  | enter _ ha => exact absurd ha (hspawn true)
  | refuse _ ha =>
      rcases ha with ha | ha
      · exact absurd ha hfd
      · exact absurd ha (hspawn false)
  | leave _ ha => exact absurd ha hhangUp

theorem PhaseMove.eq_over {c : ClientId} {p q : Phase} (h : PhaseMove c p (.handler c .hangUp) q) :
    q = .over := by
  cases h with
  | stay _ hhangUp => exact absurd rfl hhangUp
  | enter _ ha => simp at ha
  | refuse _ ha => rfl
  | leave _ ha => rfl

/-- The pc at which a handler gives up before its loop. -/
theorem setup_of_refuse {fd : RawFd} {w t : ServerWorld} {c : ClientId} {b : HandlerAct}
    (h : w.handlerStep fd c b = some t) (hb : b = .sendFd false ∨ b = .spawnWriter false) :
    (w.conns c).handler.phase = .setup := by
  rcases hb with rfl | rfl
  · cases hpc : (w.conns c).handler with
    | serving s => simp [ServerWorld.handlerStep, hpc] at h
    | leaving => simp [ServerWorld.handlerStep, hpc] at h
    | gone => simp [ServerWorld.handlerStep, hpc] at h
    | _ => rfl
  · cases hpc : (w.conns c).handler with
    | serving s => simp [ServerWorld.handlerStep, hpc] at h
    | leaving => simp [ServerWorld.handlerStep, hpc] at h
    | gone => simp [ServerWorld.handlerStep, hpc] at h
    | _ => rfl

/-- The stream is read inside the loop. -/
theorem looping_of_read {fd : RawFd} {w t : ServerWorld} {c : ClientId} {b : HandlerAct}
    (h : w.handlerStep fd c b = some t) (hb : b = .hangUp ∨ ∃ m, b = .request m) :
    (w.conns c).handler.phase = .looping := by
  rcases hb with rfl | ⟨m, rfl⟩
  · cases hpc : (w.conns c).handler with
    | serving s => rfl
    | _ => simp [ServerWorld.handlerStep, hpc] at h
  · cases hpc : (w.conns c).handler with
    | serving s => rfl
    | _ => simp [ServerWorld.handlerStep, hpc] at h

theorem Connection.finish_phase (conn : Connection) : conn.finish.handler.phase = .over := by
  unfold finish
  split
  · rfl
  · rfl

theorem phaseMove_of_handlerStep {fd : RawFd} {w t : ServerWorld} {c : ClientId} {b : HandlerAct}
    (h : w.handlerStep fd c b = some t) :
    PhaseMove c (w.conns c).handler.phase (.handler c b) (t.conns c).handler.phase := by
  cases handlerMove_of_step h with
  | register hpc hlock =>
      simp only [ServerWorld.setHandler_conns, Function.update_self, hpc]
      exact .stay (by simp) (by simp)
  | sendFd hpc =>
      simp only [ServerWorld.setConn_conns, Function.update_self, hpc]
      exact .stay (by simp) (by simp)
  | spawn hpc =>
      simp only [ServerWorld.setConn_conns, Function.update_self, hpc]
      exact .enter rfl rfl
  | leave hpc hact =>
      simp only [ServerWorld.setHandler_conns, Function.update_self]
      rcases hact with rfl | rfl | rfl
      · exact .refuse (setup_of_refuse h (Or.inl rfl)) (Or.inl rfl)
      · exact .refuse (setup_of_refuse h (Or.inr rfl)) (Or.inr rfl)
      · exact .leave (looping_of_read h (Or.inl rfl)) rfl
  | serve next hpc hquiet hact hnext =>
      simp only [ServerWorld.setHandler_conns, Function.update_self, hpc]
      rcases hact with rfl | ⟨m, rfl⟩
      · exact .stay (by simp) (by simp)
      · exact .stay (by simp) (by simp)
  | subscribe hpc hlock =>
      simp only [ServerWorld.setHandler_conns, Function.update_self, hpc]
      exact .stay (by simp) (by simp)
  | reply hpc hlock =>
      simp only [ServerWorld.setHandler_conns, Function.update_self, hpc]
      exact .stay (by simp) (by simp)
  | unregister hpc hlock =>
      simp only [ServerWorld.setConn_conns, Function.update_self, hpc, Connection.finish_phase]
      exact .stay (by simp) (by simp)

theorem phaseMove_of_step {fd : RawFd} {w t : ServerWorld} {a : ServerAct} (hinv : ServerInv w)
    (h : w.step fd a = some t) (c : ClientId) :
    PhaseMove c (w.conns c).handler.phase a (t.conns c).handler.phase := by
  by_cases hown : ∃ b, a = .handler c b
  · rcases hown with ⟨b, rfl⟩
    exact phaseMove_of_handlerStep h
  · have hother : ∀ b, a ≠ .handler c b := fun b hb => hown ⟨b, hb⟩
    have hphase : (t.conns c).handler.phase = (w.conns c).handler.phase := by
      rcases handler_of_step hinv h hother with hsame | ⟨rfl, rfl⟩
      · rw [hsame]
      · cases h
        rw [hinv.fresh w.nextId (Nat.le_refl _)]
        simp [Connection.unborn, HandlerPc.phase]
    rw [hphase]
    exact .stay (hother _) (hother _)

theorem PhaseMove.over {c : ClientId} {q : Phase} {a : ServerAct} (h : PhaseMove c .over a q) :
    q = .over := by
  cases h with
  | stay _ _ => rfl
  | enter hp _ => cases hp
  | refuse hp _ => cases hp
  | leave hp _ => cases hp

/-! ## Histories -/

namespace Session

/-- The message that a step passes to `dispatch_client_msg` for the client `c`. -/
def dispatched? (c : ClientId) (w : SessionWorld) : SessionAct → Option ClientMsg
  | .read id _ =>
      if id = c then
        match (w.nextMsg c).1 with
        | .ok m? => m?
        | _ => none
      else
        none
  | _ => none

def dispatched (c : ClientId) (tr : SessionTrace) : List ClientMsg :=
  tr.filterMap fun p => dispatched? c p.1 p.2

/-- The descriptor has been sent and the writer thread spawned: the handler has entered its loop. -/
def LoopEntered (c : ClientId) (tr : SessionTrace) : Prop :=
  ∃ p ∈ tr, p.2 = .server (.handler c (.spawnWriter true))

abbrev phaseOf (c : ClientId) (w : SessionWorld) : Phase := (w.server.conns c).handler.phase

/-- The messages that the reads of `c` are still to return are `ms`, and then it has closed. -/
def Remaining (inb : Inbound) (ms : List ClientMsg) : Prop :=
  inb.closed = true ∧ ∃ good rest, serverReader.LeadingRun (arrived inb.script) good rest ms

/-- Of the messages `ms`, those dispatched and those to come. -/
structure FoldInv (c : ClientId) (ms : List ClientMsg) (tr : SessionTrace) (w : SessionWorld) :
    Prop where
  entered : phaseOf c w ≠ .over → (LoopEntered c tr ↔ phaseOf c w = .looping)
  outside : ¬ LoopEntered c tr → dispatched c tr = []
  todo : phaseOf c w ≠ .over → ∃ ms', Remaining (w.inbound c) ms' ∧ dispatched c tr ++ ms' = ms
  done : phaseOf c w = .over → LoopEntered c tr → dispatched c tr = ms

/-! ## One step -/

section Step

variable {fd : RawFd} {c : ClientId} {ms : List ClientMsg} {tr : SessionTrace}
  {w t : SessionWorld} {a : SessionAct}

theorem dispatched_snoc (c : ClientId) (tr : SessionTrace) (w : SessionWorld) (a : SessionAct) :
    dispatched c (tr ++ [(w, a)]) = dispatched c tr ++ (dispatched? c w a).toList :=
  filterMap_snoc _ tr (w, a)

theorem loopEntered_snoc (c : ClientId) (tr : SessionTrace) (w : SessionWorld) (a : SessionAct) :
    LoopEntered c (tr ++ [(w, a)]) ↔
      LoopEntered c tr ∨ a = .server (.handler c (.spawnWriter true)) := by
  simp [LoopEntered, or_and_right, exists_or]

theorem LoopEntered.mono {tr' : SessionTrace} (h : LoopEntered c tr) (hpre : tr <+: tr') :
    LoopEntered c tr' := by
  rcases h with ⟨p, hp, hact⟩
  exact ⟨p, hpre.subset hp, hact⟩

/-- The next call returns the first of the remaining messages. -/
theorem Remaining.cons {m : ClientMsg} (h : Remaining (w.inbound c) (m :: ms)) :
    ∃ script, w.nextMsg c = (.ok (some m), script) ∧
      Remaining { w.inbound c with script := script } ms := by
  rcases h with ⟨hclosed, good, rest, hrun⟩
  rcases read_leadingRun_cons hrun (w.inbound c).closed with ⟨script, good', hread, hrun'⟩
  exact ⟨script, hread, hclosed, good', rest, hrun'⟩

theorem Remaining.nil (h : Remaining (w.inbound c) []) :
    (∀ m, (w.nextMsg c).1 ≠ .ok (some m)) ∧ (w.nextMsg c).1 ≠ .pending := by
  rcases h with ⟨hclosed, good, rest, hrun⟩
  have hnone := read_leadingRun_nil hrun
  rw [← Ending.ofClosed_true, ← hclosed] at hnone
  exact hnone

/-- A call that returns a message returns the first of those that remain. -/
theorem Remaining.of_some {m : ClientMsg} {script : List (Arrival UInt8)}
    (h : Remaining (w.inbound c) ms) (hread : w.nextMsg c = (.ok (some m), script)) :
    ∃ ms', ms = m :: ms' ∧ Remaining { w.inbound c with script := script } ms' := by
  cases ms with
  | nil => exact absurd (congrArg Prod.fst hread) (h.nil.1 m)
  | cons m' ms' =>
      rcases h.cons with ⟨script', hread', hrest⟩
      rw [hread] at hread'
      cases hread'
      exact ⟨ms', rfl, hrest⟩

/-- A call that returns none or fails has no message left. -/
theorem Remaining.of_none (h : Remaining (w.inbound c) ms)
    (hnone : ∀ m, (w.nextMsg c).1 ≠ .ok (some m)) : ms = [] := by
  cases ms with
  | nil => rfl
  | cons m ms' =>
      rcases h.cons with ⟨script, hread, _⟩
      exact absurd (congrArg Prod.fst hread) (hnone m)

/-- A step that dispatches nothing for `c` and leaves its bytes and its phase alone. -/
theorem FoldInv.quiet (h : FoldInv c ms tr w) (hdispatched : dispatched? c w a = none)
    (hspawn : a ≠ .server (.handler c (.spawnWriter true))) (hphase : phaseOf c t = phaseOf c w)
    (hinbound : t.inbound c = w.inbound c) : FoldInv c ms (tr ++ [(w, a)]) t := by
  have hsame : dispatched c (tr ++ [(w, a)]) = dispatched c tr := by
    simp [dispatched_snoc, hdispatched]
  have hentered : LoopEntered c (tr ++ [(w, a)]) ↔ LoopEntered c tr := by
    simp [loopEntered_snoc, hspawn]
  constructor
  · rw [hentered, hphase]
    exact h.entered
  · rw [hentered, hsame]
    exact h.outside
  · rw [hsame, hphase, hinbound]
    exact h.todo
  · rw [hentered, hsame, hphase]
    exact h.done

/-- A message is dispatched: it was the first of those to come. -/
theorem FoldInv.dispatch (h : FoldInv c ms tr w) {nowMs : UInt64} {m : ClientMsg}
    {script : List (Arrival UInt8)} (hread : w.nextMsg c = (.ok (some m), script))
    (hloop : phaseOf c w = .looping) (hphase : phaseOf c t = .looping)
    (hinbound : t.inbound c = { w.inbound c with script := script }) :
    FoldInv c ms (tr ++ [(w, .read c nowMs)]) t := by
  have hentered : LoopEntered c (tr ++ [(w, .read c nowMs)]) ↔ LoopEntered c tr := by
    simp [loopEntered_snoc]
  have hmore : dispatched c (tr ++ [(w, .read c nowMs)]) = dispatched c tr ++ [m] := by
    simp [dispatched_snoc, dispatched?, hread]
  have hin : LoopEntered c tr := (h.entered (by simp [hloop])).2 hloop
  constructor
  · intro _
    simp [hentered, hin, hphase]
  · intro hout
    exact absurd (hentered.2 hin) hout
  · intro _
    -- the read takes the first of the messages to come, and no other
    rcases h.todo (by simp [hloop]) with ⟨ms', hremaining, hsplit⟩
    rcases hremaining.of_some hread with ⟨ms'', rfl, hrest⟩
    refine ⟨ms'', by rw [hinbound]; exact hrest, ?_⟩
    rw [hmore, ← hsplit, List.append_assoc]
    rfl
  · intro hover
    rw [hphase] at hover
    cases hover

/-- The loop is left: there is no message to come. -/
theorem FoldInv.hangUp (h : FoldInv c ms tr w) {nowMs : UInt64}
    (hnone : ∀ m, (w.nextMsg c).1 ≠ .ok (some m)) (hloop : phaseOf c w = .looping)
    (hphase : phaseOf c t = .over) : FoldInv c ms (tr ++ [(w, .read c nowMs)]) t := by
  have hentered : LoopEntered c (tr ++ [(w, .read c nowMs)]) ↔ LoopEntered c tr := by
    simp [loopEntered_snoc]
  have hnothing : dispatched? c w (.read c nowMs) = none := by
    simp only [dispatched?, if_true]
    split
    · rename_i m? hm
      cases m? with
      | none => rfl
      | some m => exact absurd hm (hnone m)
    · rfl
  have hsame : dispatched c (tr ++ [(w, .read c nowMs)]) = dispatched c tr := by
    simp [dispatched_snoc, hnothing]
  have hin : LoopEntered c tr := (h.entered (by simp [hloop])).2 hloop
  constructor
  · intro hne
    exact absurd hphase hne
  · intro hout
    exact absurd (hentered.2 hin) hout
  · intro hne
    exact absurd hphase hne
  · intro _ _
    -- a read that returns no message has none to come
    rcases h.todo (by simp [hloop]) with ⟨ms', hremaining, hsplit⟩
    rw [hremaining.of_none hnone, List.append_nil] at hsplit
    rw [hsame, hsplit]

/-- A step around the registry. -/
theorem FoldInv.server (h : FoldInv c ms tr w) {b : ServerAct} {server : ServerWorld}
    (hother : b.ofSession = false)
    (hmove : PhaseMove c (phaseOf c w) b (server.conns c).handler.phase) :
    FoldInv c ms (tr ++ [(w, .server b)]) { w with server := server } := by
  have hsame : dispatched c (tr ++ [(w, .server b)]) = dispatched c tr := by
    simp [dispatched_snoc, dispatched?]
  -- the phase behind the step is a variable, so that the cases of the move fix it
  generalize hnext : (server.conns c).handler.phase = p at hmove
  have hphase : phaseOf c { w with server := server } = p := hnext
  cases hmove with
  | stay hspawn hhangUp => exact h.quiet rfl (by simpa using hspawn) hphase rfl
  | enter hsetup hb =>
      -- the writer thread is spawned: the messages are still all to come
      have hin : LoopEntered c (tr ++ [(w, .server b)]) := by
        simp [loopEntered_snoc, hb]
      constructor
      · intro _
        simp [hin, hphase]
      · intro hout
        exact absurd hin hout
      · intro _
        rw [hsame]
        exact h.todo (by simp [hsetup])
      · intro hover
        rw [hphase] at hover
        cases hover
  | refuse hsetup hb =>
      -- `send_fd` or `try_clone` failed: the loop is over without having begun
      have hnotSpawn : b ≠ .handler c (.spawnWriter true) := by
        rcases hb with rfl | rfl
        · simp
        · simp
      have hout : ¬ LoopEntered c tr := by
        intro hin
        have hloop := (h.entered (by simp [hsetup])).1 hin
        rw [hsetup] at hloop
        cases hloop
      constructor
      · intro hne
        exact absurd hphase hne
      · intro _
        rw [hsame]
        exact h.outside hout
      · intro hne
        exact absurd hphase hne
      · intro _ hin
        have hbefore : LoopEntered c tr := by
          simpa [loopEntered_snoc, hnotSpawn] using hin
        exact absurd hbefore hout
  | leave hloop hb =>
      -- the loop is left by a read only, which is no step of the server alone
      rw [hb] at hother
      cases hother

theorem FoldInv.step (h : FoldInv c ms tr w) (hinv : ServerInv w.server)
    (hmove : SessionMove fd w a t) : FoldInv c ms (tr ++ [(w, a)]) t := by
  cases hmove with
  | dispatch hwork hread hstep =>
      rename_i id nowMs m script server
      have hphase := (phaseMove_of_step hinv hstep c).eq (by simp) (by simp) (by simp)
      by_cases hid : id = c
      · subst hid
        -- its own read takes the next message
        have hloop : phaseOf id w = .looping := looping_of_read hstep (Or.inr ⟨m, rfl⟩)
        exact h.dispatch hread hloop (hphase.trans hloop) (by simp [SessionWorld.afterRead])
      · -- the read of another client takes nothing of `c`
        exact h.quiet (by simp [dispatched?, hid]) (by simp) hphase
          (by simp [SessionWorld.afterRead, Ne.symm hid])
  | hangUp hwork hnone hends hstep =>
      rename_i id nowMs server
      have hphase := phaseMove_of_step hinv hstep c
      by_cases hid : id = c
      · subst hid
        exact h.hangUp hnone (looping_of_read hstep (Or.inl rfl)) hphase.eq_over
      · exact h.quiet (by simp [dispatched?, hid]) (by simp)
          (hphase.eq (by simp) (by simp) (by simp [hid]))
          (by simp [SessionWorld.afterRead, Ne.symm hid])
  | device hread hinbound hserver hother =>
      rcases hserver with ⟨rx, tx, lat, hstep⟩
      have hphase := (phaseMove_of_step hinv hstep c).eq (by simp) (by simp) (by simp)
      refine h.quiet ?_ (hother _) hphase (by rw [hinbound])
      cases a with
      | read id nowMs => exact absurd rfl (hread id nowMs)
      | _ => rfl
  | server hother hstep => exact h.server hother (phaseMove_of_step hinv hstep c)

end Step

/-! ## Other bytes with the same messages -/

end Session

/-- The same state with other bytes to come. -/
def SessionWorld.withInbound (w : SessionWorld) (i : ClientId → Inbound) : SessionWorld :=
  { w with inbound := i }

/-- Only the reads look at the bytes. -/
theorem SessionWorld.step_withInbound (fd : RawFd) (w : SessionWorld) (i : ClientId → Inbound)
    {a : SessionAct} (hread : ∀ id nowMs, a ≠ .read id nowMs) :
    (w.withInbound i).step fd a = (w.step fd a).map fun t => t.withInbound i := by
  cases a with
  | read id nowMs => exact absurd rfl (hread id nowMs)
  | setGpio id handle =>
      cases hwork : w.work id with
      | setGpio pin high => simp [step, withInbound, hwork]
      | _ => simp [step, withInbound, hwork]
  | lockTx id =>
      cases hwork : w.work id with
      | audioWrite frames => simp [step, withInbound, hwork, setTx, Function.comp_def]
      | _ => simp [step, withInbound, hwork]
  | pushTx =>
      rw [step, step, Option.map_map]
      rfl
  | unlockTx =>
      cases hholder : w.tx.holder with
      | none => simp [step, withInbound, hholder]
      | some holder => simp [step, withInbound, hholder, setTx, Function.comp_def]
  | reapedTx j c =>
      rw [step, step, Option.map_map]
      rfl
  | heartbeat handle => rfl
  | counters rxXruns lastLatency => rfl
  | server b =>
      cases hother : b.ofSession with
      | true => simp [step, hother]
      | false => simp [step, withInbound, hother, Function.comp_def]

namespace Session

/-- The same bytes for all clients but `c`, and the same messages to come from `c` unless its loop
is over. -/
structure SameMessages (c : ClientId) (w : SessionWorld) (i : ClientId → Inbound) : Prop where
  others : ∀ id, id ≠ c → i id = w.inbound id
  messages : phaseOf c w ≠ .over → ∃ ms, Remaining (w.inbound c) ms ∧ Remaining (i c) ms

section Replay

variable {fd : RawFd} {c : ClientId} {w t : SessionWorld} {a : SessionAct}
  {i : ClientId → Inbound}

/-- A step that leaves the bytes alone. -/
theorem SameMessages.keep (h : SameMessages c w i) (hinbound : t.inbound = w.inbound)
    (hover : phaseOf c w = .over → phaseOf c t = .over) : SameMessages c t i := by
  constructor
  · rw [hinbound]
    exact h.others
  · intro hne
    rw [hinbound]
    exact h.messages fun hw => hne (hover hw)

/-- A read of another client finds the same. -/
theorem SameMessages.read_other (h : SameMessages c w i) {id : ClientId} (hid : id ≠ c)
    {script : List (Arrival UInt8)} (hinbound : t.inbound = (w.afterRead id script).inbound)
    (hover : phaseOf c w = .over → phaseOf c t = .over) :
    SameMessages c t (((w.withInbound i).afterRead id script).inbound) := by
  constructor
  · intro id' hid'
    rw [hinbound]
    by_cases heq : id' = id
    · subst heq
      simp [SessionWorld.afterRead, SessionWorld.withInbound, h.others id' hid]
    · simp [SessionWorld.afterRead, SessionWorld.withInbound, heq, h.others id' hid']
  · intro hne
    rcases h.messages fun hw => hne (hover hw) with ⟨ms, hms, hms'⟩
    refine ⟨ms, ?_, ?_⟩
    · rw [hinbound]
      simpa [SessionWorld.afterRead, Ne.symm hid] using hms
    · simpa [SessionWorld.afterRead, SessionWorld.withInbound, Ne.symm hid] using hms'

/-- The read of client `id` that dispatches `m`, with other bytes. -/
theorem replay_dispatch {id : ClientId} {nowMs : UInt64} {m : ClientMsg}
    {script : List (Arrival UInt8)} {server : ServerWorld} (hwork : w.work id = .idle)
    (hread : (w.withInbound i).nextMsg id = (.ok (some m), script))
    (hserver : w.server.step fd (.handler id (.request m)) = some server) :
    (w.withInbound i).step fd (.read id nowMs) = some
      { (w.withInbound i).afterRead id script with
        server := server
        lastActivityMs := nowMs
        work := Function.update w.work id (deviceWork m) } := by
  have hstep : (w.withInbound i).step fd (.read id nowMs) = (w.withInbound i).read fd id nowMs := by
    simp only [SessionWorld.step, SessionWorld.withInbound, hwork]
  rw [hstep, SessionWorld.read_of_some fd nowMs hread]
  simp [SessionWorld.withInbound, hserver]

/-- The read that leaves the loop, with other bytes. -/
theorem replay_hangUp {id : ClientId} {nowMs : UInt64} {server : ServerWorld}
    (hwork : w.work id = .idle) (hnone : ∀ m, ((w.withInbound i).nextMsg id).1 ≠ .ok (some m))
    (hends : ((w.withInbound i).nextMsg id).1 ≠ .pending)
    (hserver : w.server.step fd (.handler id .hangUp) = some server) :
    (w.withInbound i).step fd (.read id nowMs) = some
      { (w.withInbound i).afterRead id ((w.withInbound i).nextMsg id).2 with server := server } := by
  have hstep : (w.withInbound i).step fd (.read id nowMs) = (w.withInbound i).read fd id nowMs := by
    simp only [SessionWorld.step, SessionWorld.withInbound, hwork]
  rw [hstep, SessionWorld.read_of_none fd nowMs hnone hends]
  simp [SessionWorld.withInbound, hserver]

/-- A step with some bytes is a step with other bytes that hold the same messages. -/
theorem SameMessages.step (h : SameMessages c w i) (hinv : ServerInv w.server)
    (hstep : w.step fd a = some t) :
    ∃ i', (w.withInbound i).step fd a = some (t.withInbound i') ∧ SameMessages c t i' := by
  cases sessionMove_of_step hstep with
  | dispatch hwork hread hserver =>
      rename_i id nowMs m script server
      have hphase := (phaseMove_of_step hinv hserver c).eq (by simp) (by simp) (by simp)
      by_cases hid : id = c
      · subst hid
        have hloop : phaseOf id w = .looping := looping_of_read hserver (Or.inr ⟨m, rfl⟩)
        -- the same message is the first with the other bytes
        rcases h.messages (by simp [hloop]) with ⟨ms, hms, hms'⟩
        rcases hms.of_some hread with ⟨ms', rfl, hrest⟩
        rcases Remaining.cons (w := w.withInbound i) hms' with ⟨script', hread', hrest'⟩
        refine ⟨_, replay_dispatch hwork hread' hserver, ?_, ?_⟩
        · intro id' hid'
          simp [SessionWorld.afterRead, SessionWorld.withInbound, hid', h.others id' hid']
        · intro _
          exact ⟨ms', by simpa [SessionWorld.afterRead] using hrest,
            by simpa [SessionWorld.afterRead] using hrest'⟩
      -- the bytes of the other clients are the same
      · have hread' : (w.withInbound i).nextMsg id = (.ok (some m), script) := by
          rw [← hread]
          simp [SessionWorld.nextMsg, SessionWorld.withInbound, h.others id hid]
        exact ⟨_, replay_dispatch hwork hread' hserver,
          h.read_other hid rfl fun hover => hphase.trans hover⟩
  | hangUp hwork hnone hends hserver =>
      rename_i id nowMs server
      have hphase := phaseMove_of_step hinv hserver c
      by_cases hid : id = c
      · subst hid
        have hloop : phaseOf id w = .looping := looping_of_read hserver (Or.inl rfl)
        rcases h.messages (by simp [hloop]) with ⟨ms, hms, hms'⟩
        -- no message is left, so that the other bytes end the loop as well
        rw [hms.of_none hnone] at hms'
        rcases Remaining.nil (w := w.withInbound i) hms' with ⟨hnone', hends'⟩
        refine ⟨_, replay_hangUp hwork hnone' hends' hserver, ?_, ?_⟩
        · intro id' hid'
          simp [SessionWorld.afterRead, SessionWorld.withInbound, hid', h.others id' hid']
        · intro hne
          exact absurd hphase.eq_over hne
      · have hsame : (w.withInbound i).nextMsg id = w.nextMsg id := by
          simp [SessionWorld.nextMsg, SessionWorld.withInbound, h.others id hid]
        have hstay := hphase.eq (by simp) (by simp) (by simp [hid])
        refine ⟨_, replay_hangUp hwork (by rwa [hsame]) (by rwa [hsame]) hserver, ?_⟩
        rw [hsame]
        exact h.read_other hid rfl fun hover => hstay.trans hover
  | device hread hinbound hserver hother =>
      rcases hserver with ⟨rx, tx, lat, hserver⟩
      have hphase := (phaseMove_of_step hinv hserver c).eq (by simp) (by simp) (by simp)
      -- no read: the bytes do not matter
      refine ⟨i, ?_, h.keep hinbound fun hover => hphase.trans hover⟩
      rw [SessionWorld.step_withInbound fd w i hread, hstep]
      rfl
  | server hother hserver =>
      have hphase := phaseMove_of_step hinv hserver c
      refine ⟨i, ?_, h.keep rfl fun hover => ?_⟩
      · rw [SessionWorld.step_withInbound fd w i (by simp), hstep]
        rfl
      · change PhaseMove c (phaseOf c w) _ _ at hphase
        rw [hover] at hphase
        exact hphase.over

end Replay

/-! ## Whole runs -/

section Runs

variable {fd : RawFd} {inbound : ClientId → Inbound} {tr : SessionTrace} {w : SessionWorld}

theorem serverInv_of_session (h : Trace (sessionSystem fd inbound) tr w) : ServerInv w.server := by
  induction h with
  | start => exact serverInv_start
  | snoc htr hstep ih =>
      rcases (sessionMove_of_step hstep).server_step with ⟨b, hb⟩
      exact ih.step hb

theorem foldInv_of_trace {c : ClientId} {ms : List ClientMsg}
    (h : Trace (sessionSystem fd inbound) tr w) (hms : Remaining (inbound c) ms) :
    FoldInv c ms tr w := by
  induction h with
  | start =>
      constructor
      · intro _
        constructor
        · rintro ⟨p, hp, _⟩
          cases hp
        · intro hloop
          cases hloop
      · intro _
        rfl
      · intro _
        exact ⟨ms, hms, rfl⟩
      · intro hover
        cases hover
  | snoc htr hstep ih => exact ih.step (serverInv_of_session htr) (sessionMove_of_step hstep)

/-- A run with some bytes is a run with other bytes that hold the same messages. -/
theorem replay {c : ClientId} {ms : List ClientMsg} {other : Inbound}
    (h : Trace (sessionSystem fd inbound) tr w) (hms : Remaining (inbound c) ms)
    (hother : Remaining other ms) :
    ∃ tr' i, Trace (sessionSystem fd (Function.update inbound c other)) tr' (w.withInbound i) ∧
      tr'.map Prod.snd = tr.map Prod.snd ∧ SameMessages c w i := by
  induction h with
  | start =>
      refine ⟨[], Function.update inbound c other, Trace.start, rfl, ?_, ?_⟩
      · intro id hid
        simp [sessionSystem, SessionWorld.start, hid]
      · intro _
        exact ⟨ms, hms, by simpa using hother⟩
  | snoc htr hstep ih =>
      rename_i tr w t a
      rcases ih with ⟨tr', i, htr', hlabels, hsame⟩
      rcases hsame.step (serverInv_of_session htr) hstep with ⟨i', hstep', hsame'⟩
      exact ⟨tr' ++ [(w.withInbound i, a)], i', htr'.snoc hstep', by simp [hlabels], hsame'⟩

/-! ## The session of a client -/

/-- What the handler of `c` makes of a stream that begins with the frames `good` of the messages
`ms`, at a point of a run. -/
structure Folded (fd : RawFd) (inbound : ClientId → Inbound) (c : ClientId) (good : List UInt8)
    (ms : List ClientMsg) (tr : SessionTrace) (w : SessionWorld) : Prop where
  inOrder : dispatched c tr <+: ms
  /-- Without descriptor or writer thread nothing is dispatched. -/
  refused : ¬ LoopEntered c tr → dispatched c tr = []
  complete : LoopEntered c tr → phaseOf c w = .over → dispatched c tr = ms
  /-- The next read dispatches the next message, or leaves the loop behind the last one. -/
  next : ∀ nowMs, (w.server.conns c).handler = .serving .reading → w.work c = .idle →
    ∃ t, w.step fd (.read c nowMs) = some t ∧
      ((∃ m, dispatched? c w (.read c nowMs) = some m ∧ dispatched c tr ++ [m] <+: ms) ∨
        (dispatched c tr = ms ∧ (t.server.conns c).handler = .leaving))
  unregistered : (w.server.conns c).handler = .gone → c ∉ w.server.clients
  /-- The same steps lead to the same state, but for the bytes to come, when `c` sends `good` alone. -/
  unaffected : ∀ script, arrived script = good →
    ∃ tr' i, Trace (sessionSystem fd
        (Function.update inbound c { script := script, closed := true })) tr' (w.withInbound i) ∧
      tr'.map Prod.snd = tr.map Prod.snd

theorem FoldInv.inOrder {c : ClientId} {ms : List ClientMsg} (h : FoldInv c ms tr w) :
    dispatched c tr <+: ms := by
  by_cases hover : phaseOf c w = .over
  · by_cases hin : LoopEntered c tr
    · exact (h.done hover hin).symm ▸ List.prefix_rfl
    · exact (h.outside hin).symm ▸ List.nil_prefix
  · -- before the loop is over, the messages dispatched and those to come make `ms`
    rcases h.todo hover with ⟨ms', _, hsplit⟩
    exact ⟨ms', hsplit⟩

/-- A handler that waits in `read_msg` goes on. -/
theorem FoldInv.next {c : ClientId} {ms : List ClientMsg} (h : FoldInv c ms tr w) (nowMs : UInt64)
    (hpc : (w.server.conns c).handler = .serving .reading) (hwork : w.work c = .idle) :
    ∃ t, w.step fd (.read c nowMs) = some t ∧
      ((∃ m, dispatched? c w (.read c nowMs) = some m ∧ dispatched c tr ++ [m] <+: ms) ∨
        (dispatched c tr = ms ∧ (t.server.conns c).handler = .leaving)) := by
  have hread : w.step fd (.read c nowMs) = w.read fd c nowMs := by
    simp only [SessionWorld.step, hwork]
  have hloop : phaseOf c w = .looping := by
    rw [phaseOf, hpc]
    rfl
  rcases h.todo (by simp [hloop]) with ⟨ms', hremaining, hsplit⟩
  cases ms' with
  | cons m ms' =>
      rcases hremaining.cons with ⟨script, hnext, _⟩
      rw [hread, SessionWorld.read_of_some fd nowMs hnext]
      simp only [ServerWorld.step, ServerWorld.handlerStep, hpc, Option.map_some]
      refine ⟨_, rfl, Or.inl ⟨m, by simp [dispatched?, hnext], ms', ?_⟩⟩
      rw [← hsplit, List.append_assoc]
      rfl
  | nil =>
      rcases hremaining.nil with ⟨hnone, hends⟩
      rw [hread, SessionWorld.read_of_none fd nowMs hnone hends]
      simp only [ServerWorld.step, ServerWorld.handlerStep, hpc, Option.map_some]
      refine ⟨_, rfl, Or.inr ⟨by simpa using hsplit, ?_⟩⟩
      simp

/-- Every stream begins with a longest run of frames that `read_msg` accepts.  In every run, a
client that sends the stream and closes has the messages of this run dispatched, in order, if its
handler enters its loop, and none otherwise; behind them the loop ends; a handler that is gone has
unregistered its client; and nothing else depends on the bytes behind the run. -/
theorem session_folded (h : Trace (sessionSystem fd inbound) tr w) (c : ClientId)
    (hclosed : (inbound c).closed = true) :
    (∃ good rest ms, serverReader.LeadingRun (arrived (inbound c).script) good rest ms) ∧
      ∀ good rest ms, serverReader.LeadingRun (arrived (inbound c).script) good rest ms →
        Folded fd inbound c good ms tr w := by
  refine ⟨exists_leadingRun serverReader _, ?_⟩
  intro good rest ms hrun
  have hms : Remaining (inbound c) ms := ⟨hclosed, good, rest, hrun⟩
  have hfold := foldInv_of_trace h hms
  exact
    { inOrder := hfold.inOrder
      refused := hfold.outside
      complete := fun hin hover => hfold.done hover hin
      next := hfold.next
      unregistered := by
        intro hgone hmem
        have hreg := ((serverInv_of_session h).registered c).1 hmem
        rw [hgone] at hreg
        cases hreg
      unaffected := by
        intro script hscript
        -- the leading run is all of what is sent now
        have hother : Remaining { script := script, closed := true } ms :=
          ⟨rfl, good, [], by rw [hscript]; exact hrun.alone⟩
        rcases replay h hms hother with ⟨tr', i, htr', hlabels, _⟩
        exact ⟨tr', i, htr', hlabels⟩ }

end Runs

/-! ## One ping -/

/-- Every client sends a ping and two bytes more, and closes. -/
def pingAndMore : ClientId → Inbound := fun _ =>
  { script := [.data (writeClientMsg .ping ++ [1, 2])]
    closed := true }

theorem pingAndMore_run :
    serverReader.LeadingRun (writeClientMsg .ping ++ [1, 2]) (writeClientMsg .ping) [1, 2] [.ping] where
  split := rfl
  frames := show serverReader.Frames (writeClientMsg .ping ++ []) [.ping] from
    .cons ⟨[1, 0, 0, 0], [3], rfl, rfl, rfl, by decide, rfl⟩ .nil
  longest := by
    intro f m hacc hpre
    have hfour := hacc.four_le
    have hle := hpre.length_le
    simp only [List.length_cons, List.length_nil] at hle
    omega

/-- Client 1 gets the descriptor and its pong, and its handler leaves the loop. -/
def pingRun : List SessionAct :=
  [.server .connect, .server (.handler 1 .proceed), .server (.handler 1 (.sendFd true)),
    .server (.handler 1 (.spawnWriter true)), .read 1 1000, .server (.handler 1 .proceed),
    .read 1 2000, .server (.handler 1 .proceed)]

theorem session_folded_ping :
    ∃ tr w, Trace (sessionSystem 7 pingAndMore) tr w ∧ (w.server.conns 1).handler = .gone ∧
      dispatched 1 tr = [.ping] ∧
      Folded 7 pingAndMore 1 (writeClientMsg .ping) [.ping] tr w := by
  have hrun := Trace.start.exec
    (show (sessionSystem 7 pingAndMore).exec (SessionWorld.start pingAndMore) pingRun = some _ from rfl)
  exact ⟨_, _, hrun, rfl, rfl, (session_folded hrun 1 rfl).2 _ _ _ pingAndMore_run⟩

/-- The descriptor cannot be sent: the ping is there and is not dispatched. -/
def refusedRun : List SessionAct :=
  [.server .connect, .server (.handler 1 .proceed), .server (.handler 1 (.sendFd false)),
    .server (.handler 1 .proceed)]

theorem refused_ping :
    ∃ tr w, Trace (sessionSystem 7 pingAndMore) tr w ∧ (w.server.conns 1).handler = .gone ∧
      serverReader.LeadingRun (arrived (pingAndMore 1).script) (writeClientMsg .ping) [1, 2] [.ping] ∧
      dispatched 1 tr = [] := by
  have hrun := Trace.start.exec
    (show (sessionSystem 7 pingAndMore).exec (SessionWorld.start pingAndMore) refusedRun = some _ from
      rfl)
  exact ⟨_, _, hrun, rfl, pingAndMore_run, rfl⟩

end Session

end Cm108Driver
