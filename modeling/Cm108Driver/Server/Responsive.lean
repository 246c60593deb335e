import Cm108Driver.Lib.Progress
import Cm108Driver.Server.SessionMoves

/-!
# Responsive — no client keeps a handler waiting

The registry's mutex is held over a whole broadcast and `tx_producer` over a whole `AudioWrite`, so
that a handler may have to wait for other threads.  None of these waits for a client: a broadcast
sends with `try_send`, and the holder of `tx_producer` drops what finds the ring full.  From every
state of every run a handler comes to rest by steps of its own, of the thread that broadcasts and of
the holder of `tx_producer`, as many at most as can be read off the state; none of these steps reads
from a client or writes to one.
-/

namespace Cm108Driver

open Lib

/-! ## The steps -/

/-- The steps of the handler of `c` inside a message, of the broadcast under way and of the holder of
`tx_producer`. -/
def SessionAct.unaided (c : ClientId) : SessionAct → Prop
  | .server (.handler id .proceed) => id = c
  | .server (.visit _) => True
  | .server .endBroadcast => True
  | .setGpio id _ => id = c
  | .lockTx id => id = c
  | .pushTx => True
  | .unlockTx => True
  | _ => False

/-- In front of `register` or `unregister`, or inside `dispatch_client_msg`. -/
def HandlerPc.stepsLeft : HandlerPc → Nat
  | .allocated => 1
  | .serving .reading => 0
  | .serving .statsCall => 4
  | .serving (.latencyLoaded _) => 3
  | .serving (.rxLoaded _ _) => 2
  | .serving _ => 1
  | .leaving => 1
  | _ => 0

def DeviceWork.stepsLeft : DeviceWork → Nat
  | .idle => 0
  | .setGpio _ _ => 1
  | .audioWrite frames => frames.length + 3
  | .pushing => 1

/-- What the holder of `tx_producer` has yet to do. -/
def TxWorld.stepsLeft (w : TxWorld) : Nat :=
  match w.holder with
  | some (_, frames) => frames.length + 1
  | none => 0

/-- What the broadcast under way has yet to do. -/
def ServerWorld.stepsLeft (w : ServerWorld) : Nat :=
  match w.broadcast with
  | some b => b.todo.length + 1
  | none => 0

def stepsLeft (c : ClientId) (w : SessionWorld) : Nat :=
  (w.server.conns c).handler.stepsLeft + (w.work c).stepsLeft + w.tx.stepsLeft + w.server.stepsLeft

/-- The handler of `c` waits for its client in `read_msg`, stands in front of `send_fd` or
`try_clone`, or does not run. -/
structure AtRest (c : ClientId) (w : SessionWorld) : Prop where
  handler : (w.server.conns c).handler.stepsLeft = 0
  work : w.work c = .idle

/-! ## The handler's own steps -/

section Handler

variable {fd : RawFd} {w t : ServerWorld} {c : ClientId}

/-- Without a broadcast under way, a handler that is not at rest goes on. -/
theorem handler_enabled (hlock : w.broadcast = none)
    (hbusy : (w.conns c).handler.stepsLeft ≠ 0) :
    ∃ t, w.step fd (.handler c .proceed) = some t := by
  cases hpc : (w.conns c).handler with
  | allocated =>
      simp [ServerWorld.step, ServerWorld.handlerStep, ServerWorld.whenUnlocked, hpc, hlock]
  | leaving =>
      simp [ServerWorld.step, ServerWorld.handlerStep, ServerWorld.whenUnlocked, hpc, hlock]
  | serving s =>
      cases s with
      | reading => simp [hpc, HandlerPc.stepsLeft] at hbusy
      | _ =>
          simp [ServerWorld.step, ServerWorld.handlerStep, ServerWorld.serve,
            ServerWorld.whenUnlocked, hpc, hlock]
  | _ => simp [hpc, HandlerPc.stepsLeft] at hbusy

/-- A step of a handler inside a message brings it closer to its end. -/
theorem handler_lowers (hstep : w.step fd (.handler c .proceed) = some t) :
    (t.conns c).handler.stepsLeft < (w.conns c).handler.stepsLeft := by
  simp only [ServerWorld.step] at hstep
  cases hpc : (w.conns c).handler with
  | serving s =>
      simp only [ServerWorld.handlerStep, hpc] at hstep
      cases s with
      | reading => cases hstep
      | subscribing streams =>
          rcases ServerWorld.whenUnlocked_eq_some hstep with ⟨_, rfl⟩
          simp [HandlerPc.stepsLeft]
      | replying m =>
          rcases ServerWorld.whenUnlocked_eq_some hstep with ⟨_, rfl⟩
          simp [HandlerPc.stepsLeft]
      | _ =>
          cases hstep
          simp [HandlerPc.stepsLeft]
  | allocated =>
      simp only [ServerWorld.handlerStep, hpc] at hstep
      rcases ServerWorld.whenUnlocked_eq_some hstep with ⟨_, rfl⟩
      simp [HandlerPc.stepsLeft]
  | leaving =>
      simp only [ServerWorld.handlerStep, hpc] at hstep
      rcases ServerWorld.whenUnlocked_eq_some hstep with ⟨_, rfl⟩
      simp [HandlerPc.stepsLeft]
  | _ => simp [ServerWorld.handlerStep, hpc] at hstep

/-- These steps of the server touch no socket. -/
theorem sockets_of_unaided {a : ServerAct} (ha : (SessionAct.server a).unaided c)
    (hstep : w.step fd a = some t) (id : ClientId) :
    (t.conns id).sock = (w.conns id).sock ∧ (t.conns id).writer = (w.conns id).writer := by
  have hsend : ∀ (conn : Connection) (m : ServerMsg),
      (conn.trySend m).sock = conn.sock ∧ (conn.trySend m).writer = conn.writer := by
    intro conn m
    unfold Connection.trySend
    split
    · exact ⟨rfl, rfl⟩
    · exact ⟨rfl, rfl⟩
  -- a connection is replaced by one with the same socket
  have hupdate : ∀ {id' : ClientId} {conn : Connection}, conn.sock = (w.conns id').sock →
      conn.writer = (w.conns id').writer →
      (Function.update w.conns id' conn id).sock = (w.conns id).sock ∧
        (Function.update w.conns id' conn id).writer = (w.conns id).writer := by
    intro id' conn hsock hwriter
    by_cases hid : id = id'
    · subst hid
      simp [hsock, hwriter]
    · simp [hid]
  cases serverMove_of_step hstep with
  | visit hb hid =>
      simp only [ServerWorld.offer_eq]
      split
      · exact hupdate (hsend _ _).1 (hsend _ _).2
      · exact ⟨rfl, rfl⟩
  | endBroadcast hb => exact ⟨rfl, rfl⟩
  | handler hmove =>
      cases hmove with
      | register hpc hlock => exact hupdate rfl rfl
      | subscribe hpc hlock =>
          rw [ServerWorld.setHandler_conns, ServerWorld.updateStreams_conns]
          exact hupdate rfl rfl
      | serve next hpc hquiet hact hnext => exact hupdate rfl rfl
      | reply hpc hlock =>
          rename_i id' m
          -- `send_to` and the return to `read_msg` are one update
          have htwice : ((w.sendTo id' m).setHandler id' (.serving .reading)).conns =
              Function.update w.conns id'
                { (w.sendTo id' m).conns id' with handler := .serving .reading } := by
            unfold ServerWorld.sendTo
            split
            · simp
            · simp
          have hkeep : ((w.sendTo id' m).conns id').sock = (w.conns id').sock ∧
              ((w.sendTo id' m).conns id').writer = (w.conns id').writer := by
            unfold ServerWorld.sendTo
            split
            · simpa using hsend (w.conns id') m
            · exact ⟨rfl, rfl⟩
          rw [htwice]
          exact hupdate hkeep.1 hkeep.2
      | unregister hpc hlock =>
          refine hupdate ?_ ?_
          · unfold Connection.finish
            split
            · rfl
            · rfl
          · unfold Connection.finish
            split
            · rfl
            · rfl
      | sendFd hpc => cases ha
      | spawn hpc => cases ha
      | leave hpc hact =>
          rcases hact with rfl | rfl | rfl
          · cases ha
          · cases ha
          · cases ha
  | connect => cases ha
  | broadcast call hlock => cases ha
  | writer hmove => cases ha
  | counters rxXruns txXruns lastLatency => cases ha

end Handler

/-! ## The handler of a client -/

section Session

variable {fd : RawFd} {inbound : ClientId → Inbound} {tr : SessionTrace} {w t : SessionWorld}
  {c : ClientId} {a : SessionAct}

/-- Whoever has `tx_producer` can go on. -/
theorem holder_enabled {id : ClientId} {fs : List AudioFrame} (h : w.tx.holder = some (id, fs)) :
    ∃ a t, a.unaided c ∧ w.step fd a = some t := by
  cases fs with
  | nil => exact ⟨.unlockTx, _, trivial, by simp [SessionWorld.step, TxWorld.step, h]; rfl⟩
  | cons f fs => exact ⟨.pushTx, _, trivial, by simp [SessionWorld.step, TxWorld.step, h]; rfl⟩

theorem broadcast_enabled {b : Broadcast} (h : w.server.broadcast = some b) :
    ∃ a t, a.unaided c ∧ w.step fd a = some t := by
  cases b with
  | mk call todo =>
      cases todo with
      | nil =>
          exact ⟨.server .endBroadcast, _, trivial,
            by simp [SessionWorld.step, ServerAct.ofSession, ServerWorld.step, h]; rfl⟩
      | cons id todo =>
          exact ⟨.server (.visit id), _, trivial,
            by simp [SessionWorld.step, ServerAct.ofSession, ServerWorld.step, h]; rfl⟩

/-- A handler that is not at rest can go on, or what it waits for can. -/
theorem unaided_enabled (h : SessionInv w) (hbusy : ¬ AtRest c w) :
    ∃ a t, a.unaided c ∧ w.step fd a = some t := by
  cases hlock : w.server.broadcast with
  | some b => exact broadcast_enabled hlock
  | none =>
      -- a broadcast under way goes on, whatever the handler is about to do
      cases hwork : w.work c with
      | setGpio pin high =>
          exact ⟨.setGpio c fun _ => .ok 0, _, rfl, by simp [SessionWorld.step, hwork]; rfl⟩
      | audioWrite frames =>
          cases hholder : w.tx.holder with
          | some holder => exact holder_enabled hholder
          | none =>
              exact ⟨.lockTx c, _, rfl,
                by simp [SessionWorld.step, TxWorld.step, hwork, hholder]; rfl⟩
      | pushing =>
          rcases (h.pushing c).1 hwork with ⟨fs, hholder⟩
          exact holder_enabled hholder
      | idle =>
          have hpc : (w.server.conns c).handler.stepsLeft ≠ 0 := fun hrest =>
            hbusy ⟨hrest, hwork⟩
          have hnext : ∃ server, w.server.step fd (.handler c .proceed) = some server :=
            handler_enabled hlock hpc
          rcases hnext with ⟨server, hstep⟩
          exact ⟨.server (.handler c .proceed), _, rfl,
            by simp [SessionWorld.step, ServerAct.ofSession, hstep]; rfl⟩

/-- A step of the server that is not the handler's leaves the handler where it is. -/
theorem handler_of_unaided (h : SessionInv w) {b : ServerAct} {server : ServerWorld}
    (hb : (SessionAct.server b).unaided c) (hown : b ≠ .handler c .proceed)
    (hstep : w.server.step fd b = some server) :
    (server.conns c).handler = (w.server.conns c).handler := by
  have hother : ∀ b', b ≠ .handler c b' := by
    rintro b' rfl
    cases b' with
    | proceed => exact hown rfl
    | _ => cases hb
  rcases handler_of_step h.server hstep hother with hsame | ⟨rfl, _⟩
  · exact hsame
  · cases hb

theorem unaided_lowers (h : SessionInv w) (ha : a.unaided c) (hstep : w.step fd a = some t) :
    stepsLeft c t < stepsLeft c w := by
  cases sessionStep_of_step hstep with
  | setGpio hwork =>
      cases ha
      simp [stepsLeft, hwork, DeviceWork.stepsLeft]
  | lockTx hwork hfree =>
      cases ha
      -- what is left of the message is now with the holder of the mutex
      simp only [stepsLeft, SessionWorld.setTx, hwork, TxWorld.stepsLeft, hfree,
        Function.update_self, DeviceWork.stepsLeft, ServerWorld.stepsLeft]
      omega
  | pushTx hholder =>
      simp only [stepsLeft, SessionWorld.setTx, hholder, TxWorld.stepsLeft, List.length_cons,
        ServerWorld.stepsLeft]
      omega
  | unlockTx hholder =>
      rename_i id
      have hwork : (Function.update w.work id .idle c).stepsLeft ≤ (w.work c).stepsLeft := by
        by_cases hc : c = id
        · simp [hc, DeviceWork.stepsLeft]
        · simp [hc]
      simp only [stepsLeft, SessionWorld.setTx, hholder, TxWorld.stepsLeft, List.length_nil,
        ServerWorld.stepsLeft]
      omega
  | server hother hserver =>
      rename_i b server
      by_cases hown : b = .handler c .proceed
      · subst hown
        have hlower := handler_lowers hserver
        have hkeep : server.broadcast = w.server.broadcast := (handlerMove_of_step hserver).broadcast
        -- no step of a handler begins a broadcast or ends one
        simp only [stepsLeft, ServerWorld.stepsLeft, hkeep]
        omega
      · have hpc := handler_of_unaided h ha hown hserver
        simp only [stepsLeft, hpc]
        cases serverMove_of_step hserver with
        | visit hb hid =>
            simp only [ServerWorld.stepsLeft, hb, List.length_erase_of_mem hid]
            have hpos := List.length_pos_of_mem hid
            omega
        | endBroadcast hb => simp [ServerWorld.stepsLeft, hb]
        | handler hmove =>
            rename_i id b'
            cases b' with
            | proceed =>
                cases ha
                exact absurd rfl hown
            | _ => cases ha
        | connect => cases ha
        | broadcast call hlock => cases ha
        | writer hmove => cases ha
        | counters rxXruns txXruns lastLatency => cases ha
  | dispatch hwork hpc hread => cases ha
  | hangUp hwork hpc hnone hends => cases ha
  | reapedTx hflight => cases ha
  | heartbeat => cases ha
  | counters => cases ha

/-- The bytes to come from the clients are those of `w`, and those on the sockets too. -/
structure SameTraffic (w t : SessionWorld) : Prop where
  inbound : t.inbound = w.inbound
  socket : ∀ id, (t.server.conns id).sock = (w.server.conns id).sock
  writer : ∀ id, (t.server.conns id).writer = (w.server.conns id).writer

theorem SameTraffic.step {u : SessionWorld} (h : SameTraffic w t) (ha : a.unaided c)
    (hstep : t.step fd a = some u) : SameTraffic w u := by
  cases sessionStep_of_step hstep with
  | setGpio hwork => exact ⟨h.inbound, h.socket, h.writer⟩
  | lockTx hwork hfree => exact ⟨h.inbound, h.socket, h.writer⟩
  | pushTx hholder => exact ⟨h.inbound, h.socket, h.writer⟩
  | unlockTx hholder => exact ⟨h.inbound, h.socket, h.writer⟩
  | server hother hserver =>
      have hsockets := sockets_of_unaided ha hserver
      exact ⟨h.inbound, fun id => (hsockets id).1.trans (h.socket id),
        fun id => (hsockets id).2.trans (h.writer id)⟩
  | dispatch hwork hpc hread => cases ha
  | hangUp hwork hpc hnone hends => cases ha
  | reapedTx hflight => cases ha
  | heartbeat => cases ha
  | counters => cases ha

end Session

/-! ## A pong behind a broadcast -/

end Cm108Driver
