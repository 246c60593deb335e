import Cm108Driver.Lib.Erasure
import Cm108Driver.Server.Session

/-!
# Isolation — what a client does not read harms nobody else

A client that reads slowly, or not at all, keeps its writer thread in `write`; one that closes its
socket ends it.  Then its queue fills up and is dropped from, but no other thread notices: take all
steps of its writer thread out of a run, and what is left is a run with the same messages to every
other client, the same registry, counters and devices.
-/

namespace Cm108Driver

open Lib

/-! ## Connections that differ in one client's outbound half -/

/-- The same connections, but for the queue, the writer thread and the socket of the client `d`. -/
structure SameConns (d : ClientId) (conns conns' : ClientId → Connection) : Prop where
  others : ∀ c, c ≠ d → conns' c = conns c
  handler : ∀ c, (conns' c).handler = (conns c).handler

namespace SameConns

variable {d : ClientId} {conns conns' : ClientId → Connection} {conn conn' : Connection}

theorem refl (d : ClientId) (conns : ClientId → Connection) : SameConns d conns conns :=
  ⟨fun _ _ => rfl, fun _ => rfl⟩

theorem update {id : ClientId} (h : SameConns d conns conns') (hother : id ≠ d → conn' = conn)
    (hhandler : conn'.handler = conn.handler) :
    SameConns d (Function.update conns id conn) (Function.update conns' id conn') := by
  constructor
  · intro c hc
    by_cases hid : c = id
    · subst hid
      simpa using hother hc
    · simpa [hid] using h.others c hc
  · intro c
    by_cases hid : c = id
    · subst hid
      simpa using hhandler
    · simpa [hid] using h.handler c

/-- The same is done to the connection of `id` on both sides. -/
theorem map (h : SameConns d conns conns') (id : ClientId) (f : Connection → Connection)
    (hf : (f (conns' id)).handler = (f (conns id)).handler) :
    SameConns d (Function.update conns id (f (conns id)))
      (Function.update conns' id (f (conns' id))) :=
  h.update (fun hid => by rw [h.others id hid]) hf

end SameConns

/-- The same state with other connections. -/
def ServerWorld.withConns (w : ServerWorld) (conns : ClientId → Connection) : ServerWorld :=
  { w with conns := conns }

/-- The step `b` is possible with either connections, and keeps them the same up to `d`. -/
def Follows (fd : RawFd) (d : ClientId) (b : ServerAct) (w t : ServerWorld)
    (conns : ClientId → Connection) : Prop :=
  ∃ conns', (w.withConns conns).step fd b = some (t.withConns conns') ∧
    SameConns d t.conns conns'

section Step

variable {fd : RawFd} {d id : ClientId} {w t : ServerWorld} {conns : ClientId → Connection}

/-- A critical section waits for the same broadcast. -/
theorem whenUnlocked_withConns (w t t' : ServerWorld) (conns : ClientId → Connection) :
    (w.withConns conns).whenUnlocked t' = (w.whenUnlocked t).map fun _ => t' := by
  cases hlock : w.broadcast with
  | none => simp [ServerWorld.whenUnlocked, ServerWorld.withConns, hlock]
  | some b => simp [ServerWorld.whenUnlocked, ServerWorld.withConns, hlock]

theorem follows_unlocked {b : ServerAct} {u : ServerWorld} (conns' : ClientId → Connection)
    (hu : w.whenUnlocked u = some t)
    (hstep : (w.withConns conns).step fd b = (w.withConns conns).whenUnlocked (u.withConns conns'))
    (hconns : SameConns d u.conns conns') : Follows fd d b w t conns := by
  have ht := (ServerWorld.whenUnlocked_eq_some hu).2
  subst ht
  exact ⟨conns', by rw [hstep, whenUnlocked_withConns w t, hu]; rfl, hconns⟩

/-- A handler looks at no queue and at no socket. -/
theorem follows_serve {s : Serving} (h : SameConns d w.conns conns)
    (hpc : (w.conns id).handler = .serving s) (hstep : w.serve id s = some t) :
    Follows fd d (.handler id .proceed) w t conns := by
  have hpc' : (conns id).handler = .serving s := by rw [h.handler id, hpc]
  have hserve : (w.withConns conns).step fd (.handler id .proceed) =
      (w.withConns conns).serve id s := by
    simp only [ServerWorld.step, ServerWorld.handlerStep, ServerWorld.withConns, hpc']
  cases s with
  | reading => cases hstep
  | subscribing streams =>
      refine follows_unlocked
        (Function.update conns id { conns id with handler := .serving .reading }) hstep ?_ ?_
      · rw [hserve]
        simp only [ServerWorld.serve, ServerWorld.updateStreams, ServerWorld.withConns]
        split
        · rfl
        · rfl
      · have hmap := h.map id (fun conn => { conn with handler := .serving .reading }) rfl
        simpa using hmap
  | replying m =>
      cases hlookup : w.clients.lookup id with
      | none =>
          refine follows_unlocked
            (Function.update conns id { conns id with handler := .serving .reading }) hstep ?_ ?_
          · rw [hserve]
            simp only [ServerWorld.serve, ServerWorld.sendTo, ServerWorld.withConns, hlookup]
            rfl
          · have hmap := h.map id (fun conn => { conn with handler := .serving .reading }) rfl
            simpa [ServerWorld.sendTo, hlookup] using hmap
      | some handle =>
          -- the message goes into the queue, or is dropped there
          refine follows_unlocked
            (Function.update conns id { (conns id).trySend m with handler := .serving .reading })
            hstep ?_ ?_
          · rw [hserve]
            simp only [ServerWorld.serve, ServerWorld.sendTo, ServerWorld.withConns, hlookup]
            simp [ServerWorld.trySend, ServerWorld.setHandler, ServerWorld.setConn]
          · have hmap := h.map id
              (fun conn => { conn.trySend m with handler := .serving .reading }) rfl
            simpa [ServerWorld.sendTo, hlookup] using hmap
  | statsCall =>
      cases hstep
      exact ⟨_, by rw [hserve]; rfl, h.map id (fun conn => { conn with handler := _ }) rfl⟩
  | latencyLoaded lat =>
      cases hstep
      exact ⟨_, by rw [hserve]; rfl, h.map id (fun conn => { conn with handler := _ }) rfl⟩
  | rxLoaded lat rxXruns =>
      cases hstep
      exact ⟨_, by rw [hserve]; rfl, h.map id (fun conn => { conn with handler := _ }) rfl⟩

/-- Nor does it on its way into the loop and out of it. -/
theorem follows_handler {b : HandlerAct} (h : SameConns d w.conns conns)
    (hstep : w.handlerStep fd id b = some t) : Follows fd d (.handler id b) w t conns := by
  have hpc' := h.handler id
  -- a handler looks at nothing of the connections but its own place, which is the same in `conns`
  unfold ServerWorld.handlerStep at hstep
  split at hstep
  · rename_i hpc
    rw [hpc] at hpc'
    refine follows_unlocked (Function.update conns id { conns id with handler := .registered })
      hstep ?_ (h.map id (fun conn => { conn with handler := .registered }) rfl)
    simp only [ServerWorld.step, ServerWorld.handlerStep, ServerWorld.withConns, hpc']
    rfl
  · rename_i hpc
    cases hstep
    rw [hpc] at hpc'
    refine ⟨_, ?_, h.map id (fun conn =>
      { conn with
        handler := .handshaken
        sock := conn.sock ++ [handshake fd] }) rfl⟩
    simp only [ServerWorld.step, ServerWorld.handlerStep, ServerWorld.withConns, hpc']
    rfl
  · rename_i hpc
    cases hstep
    rw [hpc] at hpc'
    refine ⟨_, ?_, h.map id (fun conn => { conn with handler := .leaving }) rfl⟩
    simp only [ServerWorld.step, ServerWorld.handlerStep, ServerWorld.withConns, hpc']
    rfl
  · rename_i hpc
    cases hstep
    rw [hpc] at hpc'
    refine ⟨_, ?_, h.map id (fun conn =>
      { conn with
        handler := .serving .reading
        writer := .idle }) rfl⟩
    simp only [ServerWorld.step, ServerWorld.handlerStep, ServerWorld.withConns, hpc']
    rfl
  · rename_i hpc
    cases hstep
    rw [hpc] at hpc'
    refine ⟨_, ?_, h.map id (fun conn => { conn with handler := .leaving }) rfl⟩
    simp only [ServerWorld.step, ServerWorld.handlerStep, ServerWorld.withConns, hpc']
    rfl
  · rename_i m hpc
    cases hstep
    rw [hpc] at hpc'
    refine ⟨_, ?_, h.map id (fun conn =>
      { conn with handler := .serving (ServerWorld.dispatch m) }) rfl⟩
    simp only [ServerWorld.step, ServerWorld.handlerStep, ServerWorld.withConns, hpc']
    rfl
  · rename_i hpc
    cases hstep
    rw [hpc] at hpc'
    refine ⟨_, ?_, h.map id (fun conn => { conn with handler := .leaving }) rfl⟩
    simp only [ServerWorld.step, ServerWorld.handlerStep, ServerWorld.withConns, hpc']
    rfl
  · rename_i s hpc
    exact follows_serve h hpc hstep
  · rename_i hpc
    rw [hpc] at hpc'
    refine follows_unlocked (Function.update conns id (conns id).finish) hstep ?_
      (h.map id Connection.finish (by simp))
    simp only [ServerWorld.step, ServerWorld.handlerStep, ServerWorld.withConns, hpc']
    rfl
  · cases hstep

/-- What a broadcast offers to `d` may now find a full queue, which the loop does not see. -/
theorem follows_offer (h : SameConns d w.conns conns) (call : BroadcastCall) (id : ClientId) :
    ∃ conns', (w.withConns conns).offer call id = (w.offer call id).withConns conns' ∧
      SameConns d (w.offer call id).conns conns' := by
  have hwanted : (w.withConns conns).wantedBy call id = w.wantedBy call id := rfl
  rw [ServerWorld.offer_eq, ServerWorld.offer_eq, hwanted]
  cases w.wantedBy call id with
  | false => exact ⟨conns, rfl, h⟩
  | true => exact ⟨_, rfl, h.map id (fun conn => conn.trySend call.message)
      (by simpa using h.handler id)⟩

/-- Every step but one of the writer thread of `d`. -/
theorem follows_step {b : ServerAct} (h : SameConns d w.conns conns)
    (hother : ∀ wa, b ≠ .writer d wa) (hstep : w.step fd b = some t) :
    Follows fd d b w t conns := by
  cases serverMove_of_step hstep with
  | connect =>
      exact ⟨_, rfl, h.map w.nextId (fun conn => { conn with handler := .allocated }) rfl⟩
  | broadcast call hlock => exact follows_unlocked conns hstep rfl h
  | visit hb hid =>
      rename_i id b
      rcases follows_offer h b.call id with ⟨conns', hoffer, hsame⟩
      refine ⟨conns', ?_, hsame⟩
      have hb' : (w.withConns conns).broadcast = some b := hb
      simp only [ServerWorld.step, hb', if_pos hid, hoffer]
      rfl
  | endBroadcast hb =>
      have hb' : (w.withConns conns).broadcast = some _ := hb
      exact ⟨conns, by simp only [ServerWorld.step, hb']; rfl, h⟩
  | handler hmove => exact follows_handler h hstep
  | writer hmove =>
      rename_i c wa conn
      have hc : c ≠ d := fun hc => hother wa (by rw [hc])
      rcases Option.map_eq_some_iff.1 hstep with ⟨conn', hconn, hset⟩
      have hwrite : (w.withConns conns).step fd (.writer c wa) =
          some ((w.withConns conns).setConn c conn') := by
        simp only [ServerWorld.step, ServerWorld.withConns, h.others c hc, hconn, Option.map_some]
      rw [← hset]
      exact ⟨_, hwrite, h.update (fun _ => rfl) rfl⟩
  | counters rxXruns txXruns lastLatency => exact ⟨conns, rfl, h⟩

/-- The writer thread of `d` does nothing to the others. -/
theorem SameConns.writer {wa : ClientWriterAct} (h : SameConns d w.conns conns)
    (hstep : w.step fd (.writer d wa) = some t) :
    t = w.withConns t.conns ∧ SameConns d t.conns conns := by
  cases serverMove_of_step hstep with
  | writer hmove =>
      rename_i conn
      refine ⟨rfl, ?_, ?_⟩
      · intro c hc
        simpa [hc] using h.others c hc
      · intro c
        by_cases hc : c = d
        · subst hc
          simpa [hmove.handler] using h.handler c
        · simpa [hc] using h.handler c

end Step

/-! ## The daemon -/

/-- The same state with other connections. -/
def SessionWorld.withConns (w : SessionWorld) (conns : ClientId → Connection) : SessionWorld :=
  { w with server := w.server.withConns conns }

/-- The steps of the writer thread of `d`. -/
def SessionAct.writes (d : ClientId) : SessionAct → Bool
  | .server (.writer c _) => c == d
  | _ => false

/-- The same state, but for the queue, the writer thread and the socket of `d`. -/
def SameButFor (d : ClientId) (w w' : SessionWorld) : Prop :=
  ∃ conns, w' = w.withConns conns ∧ SameConns d w.server.conns conns

section Session

variable {fd : RawFd} {d : ClientId} {w w' t : SessionWorld} {a : SessionAct}
  {conns : ClientId → Connection}

/-- Nothing outside the registry looks at a connection. -/
theorem SessionWorld.step_withConns (fd : RawFd) (w : SessionWorld) (conns : ClientId → Connection)
    (hread : ∀ id nowMs, a ≠ .read id nowMs) (hserver : ∀ b, a ≠ .server b) :
    (w.withConns conns).step fd a = (w.step fd a).map fun t => t.withConns conns := by
  cases a with
  | read id nowMs => exact absurd rfl (hread id nowMs)
  | setGpio id handle =>
      cases hwork : w.work id with
      | setGpio pin high => simp [step, withConns, hwork]
      | _ => simp [step, withConns, hwork]
  | lockTx id =>
      cases hwork : w.work id with
      | audioWrite frames =>
          simp [step, withConns, hwork, setTx, ServerWorld.withConns, Function.comp_def]
      | _ => simp [step, withConns, hwork]
  | pushTx =>
      rw [step, step, Option.map_map]
      rfl
  | unlockTx =>
      cases hholder : w.tx.holder with
      | none => simp [step, withConns, hholder]
      | some holder =>
          simp [step, withConns, hholder, setTx, ServerWorld.withConns, Function.comp_def]
  | reapedTx j c =>
      rw [step, step, Option.map_map]
      rfl
  | heartbeat handle => rfl
  | counters rxXruns lastLatency => rfl
  | server b => exact absurd rfl (hserver b)

/-- A read finds the same bytes, so that the handler does the same. -/
theorem follows_read {id : ClientId} {nowMs : UInt64} (h : SameConns d w.server.conns conns)
    (hstep : w.step fd (.read id nowMs) = some t) :
    ∃ t', (w.withConns conns).step fd (.read id nowMs) = some t' ∧ SameButFor d t t' := by
  have hsame : (w.withConns conns).nextMsg id = w.nextMsg id := rfl
  cases sessionMove_of_step hstep with
  | dispatch hwork hread hserver =>
      rename_i m script server
      rcases follows_step h (by simp) hserver with ⟨conns', hserver', hconns⟩
      have hstep' : (w.withConns conns).step fd (.read id nowMs) =
          (w.withConns conns).read fd id nowMs := by
        simp only [SessionWorld.step, SessionWorld.withConns, hwork]
      refine ⟨_, ?_, conns', rfl, hconns⟩
      rw [hstep', SessionWorld.read_of_some fd nowMs (hsame.trans hread)]
      change Option.map _ ((w.server.withConns conns).step fd _) = _
      rw [hserver']
      rfl
  | hangUp hwork hnone hends hserver =>
      rename_i server
      rcases follows_step h (by simp) hserver with ⟨conns', hserver', hconns⟩
      have hstep' : (w.withConns conns).step fd (.read id nowMs) =
          (w.withConns conns).read fd id nowMs := by
        simp only [SessionWorld.step, SessionWorld.withConns, hwork]
      refine ⟨_, ?_, conns', rfl, hconns⟩
      rw [hstep', SessionWorld.read_of_none (w := w.withConns conns) fd nowMs hnone hends]
      change Option.map _ ((w.server.withConns conns).step fd _) = _
      rw [hserver']
      rfl
  | device hread hinbound hserver hother => exact absurd rfl (hread id nowMs)

/-- Every step that is not its own is taken with or without the writer thread of `d`. -/
theorem SameButFor.follow (h : SameButFor d w w') (hother : a.writes d = false)
    (hstep : w.step fd a = some t) : ∃ t', w'.step fd a = some t' ∧ SameButFor d t t' := by
  rcases h with ⟨conns, rfl, hconns⟩
  cases sessionMove_of_step hstep with
  | dispatch hwork hread hserver => exact follows_read hconns hstep
  | hangUp hwork hnone hends hserver => exact follows_read hconns hstep
  | device hread hinbound hserver hnotServer =>
      rcases hserver with ⟨rx, tx, lat, hserver⟩
      have hkeep : t.server.conns = w.server.conns := by
        simp only [ServerWorld.step, Option.some.injEq] at hserver
        rw [← hserver]
      refine ⟨t.withConns conns, ?_, conns, rfl, by rw [hkeep]; exact hconns⟩
      rw [SessionWorld.step_withConns fd w conns hread hnotServer, hstep]
      rfl
  | server hnot hserver =>
      rename_i b server
      have hthread : ∀ wa, b ≠ .writer d wa := by
        rintro wa rfl
        simp [SessionAct.writes] at hother
      rcases follows_step hconns hthread hserver with ⟨conns', hserver', hconns'⟩
      refine ⟨_, ?_, conns', rfl, hconns'⟩
      change (if b.ofSession then none else Option.map _ ((w.server.withConns conns).step fd b)) = _
      rw [hserver', hnot]
      rfl

/-- The writer thread of `d` changes nothing that the others see. -/
theorem SameButFor.skip (h : SameButFor d w w') (hown : a.writes d = true)
    (hstep : w.step fd a = some t) : SameButFor d t w' := by
  rcases h with ⟨conns, rfl, hconns⟩
  cases sessionMove_of_step hstep with
  | dispatch hwork hread hserver => cases hown
  | hangUp hwork hnone hends hserver => cases hown
  | device hread hinbound hserver hnotServer =>
      cases a with
      | server b => exact absurd rfl (hnotServer b)
      | _ => cases hown
  | server hnot hserver =>
      rename_i b server
      cases b with
      | writer c wa =>
          have hc : c = d := by simpa [SessionAct.writes] using hown
          subst hc
          rcases hconns.writer hserver with ⟨hserver', hsame⟩
          refine ⟨conns, ?_, hsame⟩
          rw [hserver']
          rfl
      | _ => cases hown

theorem erasable_writes (fd : RawFd) (inbound : ClientId → Inbound) (d : ClientId) :
    Erasable (sessionSystem fd inbound) (SessionAct.writes d) (SameButFor d) where
  start := ⟨_, rfl, SameConns.refl d _⟩
  skip := SameButFor.skip
  follow := SameButFor.follow

/-- In every run, leave out all steps of the writer thread of one client, as when its socket takes
nothing more: what is left is a run, with the same steps of everybody else, and it ends in the same
state but for the queue, the writer thread and the socket of this client.  So its silence costs no
other client a byte, nor the devices anything. -/
theorem stalled_client_isolated {inbound : ClientId → Inbound} {tr : SessionTrace}
    (h : Trace (sessionSystem fd inbound) tr w) (d : ClientId) :
    ∃ tr' w', Trace (sessionSystem fd inbound) tr' w' ∧
      tr'.map Prod.snd = (tr.map Prod.snd).filter (fun a => !a.writes d) ∧
      SameButFor d w w' :=
  (erasable_writes fd inbound d).erase h

end Session

/-! ## Two pings -/

/-- Clients 1 and 2 get the descriptor, and both are sent a pong. -/
def twoPings : List SessionAct :=
  [.server .connect, .server (.handler 1 .proceed), .server (.handler 1 (.sendFd true)),
    .server (.handler 1 (.spawnWriter true)), .server .connect, .server (.handler 2 .proceed),
    .server (.handler 2 (.sendFd true)), .server (.handler 2 (.spawnWriter true)), .read 1 1000,
    .server (.handler 1 .proceed), .server (.writer 1 .dequeue), .read 2 2000,
    .server (.writer 1 (.write 3)), .server (.handler 2 .proceed), .server (.writer 2 .dequeue),
    .server (.writer 1 .fail), .server (.writer 2 (.write 5))]

/-- The socket of client 1 fails, or takes nothing at all: client 2 has its pong. -/
theorem stalled_client_isolated_pings :
    ∃ tr w, Trace (sessionSystem 7 Session.pingAndMore) tr w ∧
      tr.map Prod.snd = twoPings.filter (fun a => !a.writes 1) ∧
      (w.server.conns 2).sock = handshake 7 :: plain (writeMsg .pong) := by
  have hrun := Trace.start.exec
    (show (sessionSystem 7 Session.pingAndMore).exec (SessionWorld.start Session.pingAndMore) twoPings
      = some _ from rfl)
  rcases stalled_client_isolated hrun 1 with ⟨tr, w, htr, hlabels, conns, rfl, hconns⟩
  refine ⟨tr, _, htr, hlabels, ?_⟩
  exact (congrArg Connection.sock (hconns.others 2 (by decide))).trans rfl

end Cm108Driver
