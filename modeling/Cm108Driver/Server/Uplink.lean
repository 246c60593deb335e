import Cm108Driver.Server.Changes

/-!
# Uplink — what becomes of the bytes that a client sends

Whatever bytes a client sends, however they are cut, and whether it stays connected or not: the
messages of the longest leading run of frames have their effects, in order and each once, and
nothing else does.  From every point inside its loop the handler gets there by its own reads, with
the help of the threads it has to wait for, and no other client can keep it from it.
-/

namespace Cm108Driver

open Lib

/-! ## A message on the wire -/

/-- A message that fits in a frame. -/
theorem accepts_writeClientMsg {m : ClientMsg} (hm : m.Encodable)
    (hcap : (toVec m).length ≤ maxPayload) : serverReader.Accepts (writeClientMsg m) m := by
  have hwidth : (toVec m).length < 4294967296 := Nat.lt_of_le_of_lt hcap (by decide)
  exact ⟨toLe 4 (toVec m).length, toVec m, rfl, length_toLe _ _, (ofLe_header hwidth).symm, hcap,
    fromBytes_encode_clientMsg hm⟩

/-! ## A client that stays connected -/

/-- The same bytes, behind which the client closes. -/
def Inbound.thenClose (inb : Inbound) : Inbound := { inb with closed := true }

/-- The client `c` closes behind its bytes. -/
def closing (c : ClientId) (inbound : ClientId → Inbound) : ClientId → Inbound :=
  Function.update inbound c (inbound c).thenClose

def SessionWorld.closing (c : ClientId) (w : SessionWorld) : SessionWorld :=
  w.withInbound (Cm108Driver.closing c w.inbound)

section Closing

variable {fd : RawFd} {c id : ClientId} {w t : SessionWorld}

/-- A read that returns does not notice whether the client will close. -/
theorem nextMsg_closing (h : (w.nextMsg id).1 ≠ .pending) :
    (w.closing c).nextMsg id = w.nextMsg id := by
  by_cases hc : id = c
  · subst hc
    simp only [SessionWorld.nextMsg, SessionWorld.closing, SessionWorld.withInbound, closing,
      Function.update_self, Inbound.thenClose]
    cases hclosed : (w.inbound id).closed with
    | true => rfl
    | false =>
        simp only [SessionWorld.nextMsg, hclosed] at h
        exact read_open h
  · simp [SessionWorld.nextMsg, SessionWorld.closing, SessionWorld.withInbound, closing, hc]

theorem closing_read (inbound : ClientId → Inbound) (script : List (Arrival UInt8)) :
    Function.update (closing c inbound) id { closing c inbound id with script := script } =
      closing c (Function.update inbound id { inbound id with script := script }) := by
  funext id'
  by_cases hid : id' = id
  · subst hid
    by_cases hc : id' = c
    · subst hc
      simp [closing, Inbound.thenClose]
    · simp [closing, hc]
  · by_cases hc : id' = c
    · subst hc
      simp [closing, hid]
    · simp [closing, hid, hc]

/-- A step is a step when the client closes behind its bytes. -/
theorem step_closing {a : SessionAct} (hstep : w.step fd a = some t) :
    (w.closing c).step fd a = some (t.closing c) := by
  cases sessionMove_of_step hstep with
  | dispatch hwork hread hserver =>
      rename_i id nowMs m script server
      have hread' : (w.closing c).nextMsg id = (.ok (some m), script) := by
        rw [nextMsg_closing (by rw [hread]; simp), hread]
      rw [SessionWorld.closing, Session.replay_dispatch hwork hread' hserver]
      simp [SessionWorld.closing, SessionWorld.withInbound, SessionWorld.afterRead, closing_read]
  | hangUp hwork hnone hends hserver =>
      rename_i id nowMs server
      have hread' : (w.closing c).nextMsg id = w.nextMsg id := nextMsg_closing hends
      rw [← hread'] at hnone hends
      have hstep' : (w.closing c).step fd (.read id nowMs) = some
          { (w.closing c).afterRead id ((w.closing c).nextMsg id).2 with server := server } :=
        Session.replay_hangUp hwork hnone hends hserver
      rw [hstep', hread']
      simp [SessionWorld.closing, SessionWorld.withInbound, SessionWorld.afterRead, closing_read]
  | device hread hinbound hserver hother =>
      rw [SessionWorld.closing, SessionWorld.step_withInbound fd w _ hread, hstep]
      simp [SessionWorld.closing, hinbound]
  | server hother hserver =>
      rw [SessionWorld.closing, SessionWorld.step_withInbound fd w _ (by simp), hstep]
      rfl

/-- A run is a run when the client closes behind its bytes. -/
def closeSimulation (fd : RawFd) (inbound : ClientId → Inbound) (c : ClientId) :
    Simulation (sessionSystem fd inbound) (sessionSystem fd (closing c inbound)) where
  proj := SessionWorld.closing c
  label := fun _ a => some a
  init := rfl
  hidden := by
    intro w a t _ hlabel
    cases hlabel
  shown := by
    intro w a t b hstep hlabel
    cases hlabel
    exact step_closing hstep

variable {inbound : ClientId → Inbound} {tr : SessionTrace}

/-- Its handler dispatches the same messages. -/
theorem dispatched_closing (h : Trace (sessionSystem fd inbound) tr w) :
    Session.dispatched c ((closeSimulation fd inbound c).trace tr) = Session.dispatched c tr := by
  induction h with
  | start => rfl
  | snoc htr hstep ih =>
      rename_i tr w t a
      rw [(closeSimulation fd inbound c).trace_snoc_shown tr rfl, Session.dispatched_snoc,
        Session.dispatched_snoc, ih]
      have hsame : Session.dispatched? c (w.closing c) a = Session.dispatched? c w a := by
        cases sessionMove_of_step hstep with
        | dispatch hwork hread hserver =>
            rename_i id nowMs m script server
            by_cases hid : id = c
            · subst hid
              simp only [Session.dispatched?, nextMsg_closing (by rw [hread]; simp)]
            · simp [Session.dispatched?, hid]
        | hangUp hwork hnone hends hserver =>
            rename_i id nowMs server
            by_cases hid : id = c
            · subst hid
              simp only [Session.dispatched?, nextMsg_closing hends]
            · simp [Session.dispatched?, hid]
        | device hread hinbound hserver hother =>
            cases a with
            | read id nowMs => exact absurd rfl (hread id nowMs)
            | _ => rfl
        | server hother hserver => rfl
      exact congrArg (fun m? => Session.dispatched c tr ++ m?.toList) hsame

theorem loopEntered_closing :
    Session.LoopEntered c ((closeSimulation fd inbound c).trace tr) ↔ Session.LoopEntered c tr := by
  simp [Session.LoopEntered, Simulation.trace, closeSimulation]

end Closing

/-! ## What is left to do -/

/-- The steps that a handler takes for a message, with the one that reads it. -/
def ClientMsg.cost (m : ClientMsg) : Nat :=
  (HandlerPc.serving (ServerWorld.dispatch m)).stepsLeft + (deviceWork m).stepsLeft + 1

/-- The messages that a handler in its loop has yet to read. -/
def messagesLeft (c : ClientId) (w : SessionWorld) : List ClientMsg :=
  serverReader.readAll .eof (w.inbound c).script

/-- In steps of its own and of those it waits for, with two for the end of its loop. -/
def workLeft (c : ClientId) (w : SessionWorld) : Nat :=
  (match Session.phaseOf c w with
    | .looping => ((messagesLeft c w).map ClientMsg.cost).sum + 2
    | _ => 0) + stepsLeft c w

/-- The steps of the handler of `c`, its reads included, and of those it waits for. -/
def SessionAct.serves (c : ClientId) (a : SessionAct) : Prop :=
  a.unaided c ∨ ∃ nowMs, a = .read c nowMs

/-- The handler is in its loop and has done all that its client has asked for so far, or has left
it. -/
structure Served (c : ClientId) (w : SessionWorld) : Prop where
  entered : Session.phaseOf c w ≠ .setup
  rest : AtRest c w
  noMore : Session.phaseOf c w = .looping → ∀ m, (w.nextMsg c).1 ≠ .ok (some m)

section Progress

variable {fd : RawFd} {c : ClientId} {w t : SessionWorld} {a : SessionAct}

/-- A step that is no read keeps the phase of the handler and the bytes to come. -/
theorem same_of_unaided (h : SessionInv w) (ha : a.unaided c) (hstep : w.step fd a = some t) :
    Session.phaseOf c t = Session.phaseOf c w ∧ t.inbound = w.inbound := by
  cases sessionMove_of_step hstep with
  | dispatch hwork hread hserver => cases ha
  | hangUp hwork hnone hends hserver => cases ha
  | device hread hinbound hserver hother =>
      rcases hserver with ⟨rx, tx, lat, hserver⟩
      exact ⟨(phaseMove_of_step h.server hserver c).eq (by simp) (by simp) (by simp), hinbound⟩
  | server hother hserver =>
      rename_i b server
      refine ⟨(phaseMove_of_step h.server hserver c).eq ?_ ?_ ?_, rfl⟩
      · rintro ok rfl
        cases ha
      · rintro rfl
        cases ha
      · rintro rfl
        cases ha

theorem served_enabled (h : SessionInv w) (hentered : Session.phaseOf c w ≠ .setup)
    (hmore : ¬ Served c w) : ∃ a t, a.serves c ∧ w.step fd a = some t := by
  by_cases hrest : AtRest c w
  · -- at rest in its loop, with a message to read
    have hread : Session.phaseOf c w = .looping ∧ ∃ m, (w.nextMsg c).1 = .ok (some m) := by
      by_contra hnone
      refine hmore ⟨hentered, hrest, fun hloop m hm => hnone ⟨hloop, m, hm⟩⟩
    rcases hread with ⟨hloop, m, hm⟩
    have hpc : (w.server.conns c).handler = .serving .reading := by
      have hhandler := hrest.handler
      unfold Session.phaseOf at hloop
      cases hpc : (w.server.conns c).handler with
      | serving s =>
          rw [hpc] at hhandler
          cases s <;> simp [HandlerPc.stepsLeft] at hhandler
          rfl
      | _ =>
          rw [hpc] at hloop
          cases hloop
    cases hread : w.nextMsg c with
    | mk out script =>
        rw [hread] at hm
        cases hm
        have hserver : w.server.step fd (.handler c (.request m)) =
            some (w.server.setHandler c (.serving (ServerWorld.dispatch m))) := by
          simp [ServerWorld.step, ServerWorld.handlerStep, hpc]
        have hstep : ∃ t, w.step fd (.read c 0) = some t := by
          rw [SessionWorld.step, hrest.work]
          simp only [SessionWorld.read_of_some fd 0 hread, hserver, Option.map_some]
          exact ⟨_, rfl⟩
        rcases hstep with ⟨t, hstep⟩
        exact ⟨_, t, Or.inr ⟨0, rfl⟩, hstep⟩
  · have henabled : ∃ a t, a.unaided c ∧ w.step fd a = some t := unaided_enabled h hrest
    rcases henabled with ⟨a, t, ha, hstep⟩
    exact ⟨a, t, Or.inl ha, hstep⟩

theorem workLeft_looping (hloop : Session.phaseOf c w = .looping) :
    workLeft c w = ((messagesLeft c w).map ClientMsg.cost).sum + 2 + stepsLeft c w := by
  rw [workLeft, hloop]

theorem workLeft_over (hover : Session.phaseOf c w = .over) : workLeft c w = stepsLeft c w := by
  rw [workLeft, hover, Nat.zero_add]

/-- The messages left behind a read. -/
theorem messagesLeft_read {m : ClientMsg} {script : List (Arrival UInt8)}
    (hread : w.nextMsg c = (.ok (some m), script)) :
    messagesLeft c w = m :: serverReader.readAll .eof script := by
  refine readAll_some ?_
  cases hclosed : (w.inbound c).closed with
  | true =>
      rw [SessionWorld.nextMsg, hclosed] at hread
      exact hread
  | false =>
      rw [SessionWorld.nextMsg, hclosed] at hread
      have hreturns : (serverReader.read .blocking .alive (w.inbound c).script).1 ≠ .pending := by
        intro hpending
        have hfst := congrArg Prod.fst hread
        exact absurd (hpending.symm.trans hfst) (by simp)
      exact (read_open hreturns).trans hread

theorem serves_lowers (h : SessionInv w) (ha : a.serves c) (hstep : w.step fd a = some t) :
    workLeft c t < workLeft c w := by
  rcases ha with ha | ⟨nowMs, rfl⟩
  · have hlower := unaided_lowers h ha hstep
    rcases same_of_unaided h ha hstep with ⟨hphase, hinbound⟩
    simp only [workLeft, messagesLeft, hphase, hinbound]
    omega
  · cases sessionStep_of_step hstep with
    | dispatch hwork hpc hread =>
        rename_i m script
        -- the message that is read pays for the steps that it makes necessary
        have hloop : Session.phaseOf c w = .looping := by
          rw [Session.phaseOf, hpc]
          rfl
        rw [workLeft_looping hloop, workLeft_looping (by simp [Session.phaseOf]; rfl),
          messagesLeft_read hread]
        simp [messagesLeft, SessionWorld.afterRead, stepsLeft, hwork, hpc, ClientMsg.cost,
          DeviceWork.stepsLeft, HandlerPc.stepsLeft, ServerWorld.stepsLeft]
        omega
    | hangUp hwork hpc hnone hends =>
        have hloop : Session.phaseOf c w = .looping := by
          rw [Session.phaseOf, hpc]
          rfl
        rw [workLeft_looping hloop, workLeft_over (by simp [Session.phaseOf]; rfl)]
        simp [stepsLeft, SessionWorld.afterRead, hwork, hpc, DeviceWork.stepsLeft,
          HandlerPc.stepsLeft, ServerWorld.stepsLeft]
        omega

/-- The handler of `c` has come past `send_fd` and `try_clone`, one way or the other. -/
structure PastSetup (c : ClientId) (w : SessionWorld) : Prop where
  inv : SessionInv w
  entered : Session.phaseOf c w ≠ .setup

theorem serves_ranked (fd : RawFd) (inbound : ClientId → Inbound) (c : ClientId) :
    Ranked (sessionSystem fd inbound) (PastSetup c) (SessionAct.serves c) (Served c)
      (workLeft c) where
  keeps := fun h _ hstep => ⟨h.inv.step hstep, fun hsetup =>
    h.entered (setup_of_setup h.inv hstep hsetup)⟩
  enabled := fun h hmore => served_enabled h.inv h.entered hmore
  lowers := fun h ha hstep => serves_lowers h.inv ha hstep

end Progress

/-! ## Whole runs -/

section Runs

variable {fd : RawFd} {inbound : ClientId → Inbound} {tr : SessionTrace} {w : SessionWorld}
  {c : ClientId} {good rest : List UInt8} {ms : List ClientMsg}

/-- What is dispatched of the messages `ms` of a stream, and what of them is to come, whether its
client closes or not. -/
theorem foldInv_closing (h : Trace (sessionSystem fd inbound) tr w)
    (hrun : serverReader.LeadingRun (arrived (inbound c).script) good rest ms) :
    Session.FoldInv c ms ((closeSimulation fd inbound c).trace tr) (w.closing c) := by
  refine Session.foldInv_of_trace ((closeSimulation fd inbound c).run h) ⟨?_, good, rest, ?_⟩
  · simp [closing, Inbound.thenClose]
  · simpa [closing, Inbound.thenClose] using hrun

theorem dispatched_inOrder (h : Trace (sessionSystem fd inbound) tr w)
    (hrun : serverReader.LeadingRun (arrived (inbound c).script) good rest ms) :
    Session.dispatched c tr <+: ms := by
  rw [← dispatched_closing h]
  exact (foldInv_closing h hrun).inOrder

theorem pastSetup_of_loopEntered (h : Trace (sessionSystem fd inbound) tr w)
    (hrun : serverReader.LeadingRun (arrived (inbound c).script) good rest ms)
    (hentered : Session.LoopEntered c tr) : PastSetup c w := by
  refine ⟨sessionInv_of_trace h, ?_⟩
  intro hsetup
  have hover : Session.phaseOf c (w.closing c) ≠ .over := by
    rw [show Session.phaseOf c (w.closing c) = .setup from hsetup]
    simp
  have hloop : Session.phaseOf c w = .looping :=
    ((foldInv_closing h hrun).entered hover).mp (loopEntered_closing.mpr hentered)
  rw [hsetup] at hloop
  cases hloop

/-- A handler that has entered its loop and is served has dispatched them all. -/
theorem dispatched_of_served (h : Trace (sessionSystem fd inbound) tr w)
    (hrun : serverReader.LeadingRun (arrived (inbound c).script) good rest ms)
    (hentered : Session.LoopEntered c tr) (hserved : Served c w) : Session.dispatched c tr = ms := by
  have hfold := foldInv_closing h hrun
  have hentered' : Session.LoopEntered c ((closeSimulation fd inbound c).trace tr) :=
    loopEntered_closing.mpr hentered
  rw [← dispatched_closing h]
  by_cases hover : Session.phaseOf c (w.closing c) = .over
  · exact hfold.done hover hentered'
  · have hloop : Session.phaseOf c w = .looping := (hfold.entered hover).mp hentered'
    rcases hfold.todo hover with ⟨ms', ⟨_, good', rest', hleft⟩, hsplit⟩
    cases ms' with
    | nil => rw [← hsplit, List.append_nil]
    | cons m ms' =>
        -- a message to come would be returned by the next read
        have hscript : ((w.closing c).inbound c).script = (w.inbound c).script := by
          simp [SessionWorld.closing, SessionWorld.withInbound, closing, Inbound.thenClose]
        rw [hscript] at hleft
        rcases read_leadingRun_cons hleft (w.inbound c).closed with ⟨script, _, hread, _⟩
        exact absurd (congrArg Prod.fst hread) (hserved.noMore hloop m)

theorem effects_inOrder (h : Trace (sessionSystem fd inbound) tr w)
    (hrun : serverReader.LeadingRun (arrived (inbound c).script) good rest ms) :
    effects c tr <+: ms.flatMap ClientMsg.effects := by
  have hall := effects_append_outstanding h c
  rcases dispatched_inOrder h hrun with ⟨more, rfl⟩
  rw [List.flatMap_append, ← hall, List.append_assoc]
  exact List.prefix_append _ _

theorem effects_of_served (h : Trace (sessionSystem fd inbound) tr w)
    (hrun : serverReader.LeadingRun (arrived (inbound c).script) good rest ms)
    (hentered : Session.LoopEntered c tr) (hserved : Served c w) :
    effects c tr = ms.flatMap ClientMsg.effects := by
  have hall := effects_append_outstanding h c
  rw [outstanding_of_atRest (sessionInv_of_trace h) hserved.rest, List.append_nil] at hall
  rw [hall, dispatched_of_served h hrun hentered hserved]

/-- How the messages `ms` of a client's stream take effect, at a point of a run. -/
structure Carried (fd : RawFd) (inbound : ClientId → Inbound) (c : ClientId) (ms : List ClientMsg)
    (tr : SessionTrace) (w : SessionWorld) : Prop where
  inOrder : effects c tr <+: ms.flatMap ClientMsg.effects
  /-- The effects are what the steps change, in whatever order they come. -/
  changes : ∀ u a u', (u, a) ∈ tr → u.step fd a = some u' → Changes u a u'
  /-- As long as its handler and those it waits for go on. -/
  settles : Session.LoopEntered c tr →
    Settles (sessionSystem fd inbound) (SessionAct.serves c) (Served c) (workLeft c w) w
  /-- However the run goes on. -/
  complete : Session.LoopEntered c tr → ∀ tr' t, tr <+: tr' →
    Trace (sessionSystem fd inbound) tr' t → Served c t →
      effects c tr' = ms.flatMap ClientMsg.effects

/-- Every stream begins with a longest run of frames that `read_msg` accepts.  In every run, a
client that sends the stream, whether it stays connected or not, has the effects of the messages of
this run and no others, in order and each once.  Once its handler has entered its loop, it gets
through them by its own steps and those of the threads it waits for, which are as many as `workLeft`
says at most and possible until it has. -/
theorem stream_takes_effect (h : Trace (sessionSystem fd inbound) tr w)
    (hrun : serverReader.LeadingRun (arrived (inbound c).script) good rest ms) :
    Carried fd inbound c ms tr w where
  inOrder := effects_inOrder h hrun
  changes := fun _ _ _ hmem hstep => changes_of_trace h hmem hstep
  settles := fun hentered =>
    (serves_ranked fd inbound c).settles (pastSetup_of_loopEntered h hrun hentered)
  complete := fun hentered _ _ hpre ht hserved =>
    effects_of_served ht hrun (hentered.mono hpre) hserved

end Runs

theorem stream_takes_effect_ping :
    ∃ tr w, Trace (sessionSystem 7 Session.pingAndMore) tr w ∧ effects 1 tr = [.pong] ∧
      Carried 7 Session.pingAndMore 1 [.ping] tr w := by
  have hrun := Trace.start.exec
    (show (sessionSystem 7 Session.pingAndMore).exec (SessionWorld.start Session.pingAndMore)
      Session.pingRun = some _ from rfl)
  exact ⟨_, _, hrun, rfl, stream_takes_effect hrun Session.pingAndMore_run⟩

end Cm108Driver
