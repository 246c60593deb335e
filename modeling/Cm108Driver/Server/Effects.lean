import Cm108Driver.Server.Responsive

/-!
# Effects — what becomes of a client's messages

`dispatch_client_msg` turns a message into changes of what the threads share: the client's flags in
the registry, one call of `set_pin`, one push into the TX ring for every frame, or one reply.  These
changes are steps of their own, and between them any other thread may run.

In every run each client's messages have their effects exactly once and in order, up to those of the
message its handler is working on, and all of them before the next message is read.  The effects are
read off the steps here; what each of them changes is in `Changes`.
-/

namespace Cm108Driver

open Lib

/-! ## Effects -/

inductive Effect
  | setStreams (streams : StreamFlags)
  | setPin (pin : UInt8) (high : Bool)
  | push (frame : AudioFrame)
  | pong
  | stats
  deriving DecidableEq

/-- What `dispatch_client_msg` is to do for a message. -/
def ClientMsg.effects : ClientMsg → List Effect
  | .subscribe streams => [.setStreams streams]
  | .setGpio pin high => [.setPin pin high]
  | .audioWrite frames => frames.map .push
  | .ping => [.pong]
  | .getStats => [.stats]

/-- A reply as an effect, whatever counters it carries. -/
def Effect.ofReply : ServerMsg → Effect
  | .stats _ _ _ => .stats
  | _ => .pong

/-- What the handler has yet to do at the registry. -/
def HandlerPc.outstanding : HandlerPc → List Effect
  | .serving (.subscribing streams) => [.setStreams streams]
  | .serving .statsCall => [.stats]
  | .serving (.latencyLoaded _) => [.stats]
  | .serving (.rxLoaded _ _) => [.stats]
  | .serving (.replying m) => [.ofReply m]
  | _ => []

def DeviceWork.outstanding : DeviceWork → List Effect
  | .setGpio pin high => [.setPin pin high]
  | .audioWrite frames => frames.map .push
  | _ => []

/-- The frames that the holder of `tx_producer` has yet to push, if it is the handler of `c`. -/
def TxWorld.heldBy (w : TxWorld) (c : ClientId) : List AudioFrame :=
  match w.holder with
  | some (id, frames) => if id = c then frames else []
  | none => []

/-- What is yet to be done for the message that the handler of `c` works on. -/
def outstanding (c : ClientId) (w : SessionWorld) : List Effect :=
  (w.server.conns c).handler.outstanding ++ (w.work c).outstanding ++ (w.tx.heldBy c).map .push

/-! ## Histories -/

/-- The effect of the handler's next step. -/
def HandlerPc.effect? : HandlerPc → Option Effect
  | .serving (.subscribing streams) => some (.setStreams streams)
  | .serving (.replying m) => some (.ofReply m)
  | _ => none

/-- The effect that a step has, and the client whose message asked for it. -/
def performed? (w : SessionWorld) : SessionAct → Option (ClientId × Effect)
  | .setGpio id _ =>
      match w.work id with
      | .setGpio pin high => some (id, .setPin pin high)
      | _ => none
  | .pushTx =>
      match w.tx.holder with
      | some (id, f :: _) => some (id, .push f)
      | _ => none
  | .server (.handler id .proceed) =>
      (w.server.conns id).handler.effect?.map fun e => (id, e)
  | _ => none

/-- The effects of a run, in the order in which they happened. -/
def performed (tr : SessionTrace) : List (ClientId × Effect) :=
  tr.filterMap fun p => performed? p.1 p.2

/-- The effect is one of the client `c`. -/
def effectFor? (c : ClientId) (p : ClientId × Effect) : Option Effect :=
  if p.1 = c then some p.2 else none

def effects (c : ClientId) (tr : SessionTrace) : List Effect :=
  (performed tr).filterMap (effectFor? c)

def effect? (c : ClientId) (w : SessionWorld) (a : SessionAct) : Option Effect :=
  (performed? w a).bind (effectFor? c)

theorem performed_snoc (tr : SessionTrace) (w : SessionWorld) (a : SessionAct) :
    performed (tr ++ [(w, a)]) = performed tr ++ (performed? w a).toList :=
  filterMap_snoc _ tr (w, a)

theorem effects_snoc (c : ClientId) (tr : SessionTrace) (w : SessionWorld) (a : SessionAct) :
    effects c (tr ++ [(w, a)]) = effects c tr ++ (effect? c w a).toList := by
  rw [effects, performed_snoc, List.filterMap_append]
  cases h : performed? w a with
  | none => simp [effects, effect?, h]
  | some e =>
      cases he : effectFor? c e with
      | none => simp [effects, effect?, h, he]
      | some x => simp [effects, effect?, h, he]

theorem effects_cons (c : ClientId) (tr : SessionTrace) (w : SessionWorld) (a : SessionAct) :
    effects c ((w, a) :: tr) = (effect? c w a).toList ++ effects c tr := by
  unfold effects performed effect?
  cases h : performed? w a with
  | none => simp [h]
  | some e =>
      cases he : effectFor? c e with
      | none => simp [h, he]
      | some x => simp [h, he]

/-! ## One step -/

theorem outstanding_dispatch (m : ClientMsg) :
    (HandlerPc.serving (ServerWorld.dispatch m)).outstanding ++ (deviceWork m).outstanding =
      m.effects := by
  cases m <;> rfl

section Step

variable {fd : RawFd} {c : ClientId} {w t : SessionWorld} {a : SessionAct}

/-- The handler's own step around the registry: what it does was to be done. -/
theorem outstanding_handler {s u : ServerWorld} (h : s.step fd (.handler c .proceed) = some u) :
    (s.conns c).handler.outstanding =
      (s.conns c).handler.effect?.toList ++ (u.conns c).handler.outstanding := by
  simp only [ServerWorld.step] at h
  cases hpc : (s.conns c).handler with
  | serving p =>
      simp only [ServerWorld.handlerStep, hpc] at h
      cases p with
      | reading => cases h
      | subscribing streams =>
          rcases ServerWorld.whenUnlocked_eq_some h with ⟨_, rfl⟩
          simp [HandlerPc.outstanding, HandlerPc.effect?]
      | replying m =>
          rcases ServerWorld.whenUnlocked_eq_some h with ⟨_, rfl⟩
          simp [HandlerPc.outstanding, HandlerPc.effect?]
      | _ =>
          cases h
          simp [HandlerPc.outstanding, HandlerPc.effect?, Effect.ofReply]
  | allocated =>
      simp only [ServerWorld.handlerStep, hpc] at h
      rcases ServerWorld.whenUnlocked_eq_some h with ⟨_, rfl⟩
      simp [HandlerPc.outstanding, HandlerPc.effect?]
  | leaving =>
      simp only [ServerWorld.handlerStep, hpc] at h
      rcases ServerWorld.whenUnlocked_eq_some h with ⟨_, rfl⟩
      simp [HandlerPc.outstanding, HandlerPc.effect?]
  | _ => simp [ServerWorld.handlerStep, hpc] at h

/-- In front of its loop a handler has nothing to do for a message. -/
theorem outstanding_setup {s u : ServerWorld} {b : HandlerAct} (hb : b ≠ .proceed)
    (hother : (ServerAct.handler c b).ofSession = false)
    (h : s.step fd (.handler c b) = some u) :
    (s.conns c).handler.outstanding = [] ∧ (u.conns c).handler.outstanding = [] := by
  cases handlerMove_of_step h with
  | sendFd hpc => simp [hpc, HandlerPc.outstanding]
  | spawn hpc => simp [hpc, HandlerPc.outstanding]
  | leave hpc hact =>
      -- a refused handler has read nothing yet
      refine ⟨?_, by simp [HandlerPc.outstanding]⟩
      have hsetup : (s.conns c).handler.phase = .setup := by
        rcases hact with rfl | rfl | rfl
        · exact setup_of_refuse h (Or.inl rfl)
        · exact setup_of_refuse h (Or.inr rfl)
        · cases hother
      cases hserving : (s.conns c).handler with
      | serving p =>
          rw [hserving] at hsetup
          cases hsetup
      | _ => rfl
  | serve next hpc hquiet hact hnext =>
      rcases hact with rfl | ⟨m, rfl⟩
      · exact absurd rfl hb
      · cases hother
  | _ => exact absurd rfl hb

/-- The other steps around the registry leave it alone. -/
theorem outstanding_server {s u : ServerWorld} {b : ServerAct} (hinv : ServerInv s)
    (hown : b ≠ .handler c .proceed) (hother : b.ofSession = false) (h : s.step fd b = some u) :
    (u.conns c).handler.outstanding = (s.conns c).handler.outstanding := by
  by_cases hsetup : ∃ b', b = .handler c b'
  · rcases hsetup with ⟨b', rfl⟩
    have hb : b' ≠ .proceed := by
      rintro rfl
      exact hown rfl
    rcases outstanding_setup hb hother h with ⟨hbefore, hbehind⟩
    rw [hbefore, hbehind]
  · rcases handler_of_step hinv h (fun b' hb => hsetup ⟨b', hb⟩) with hsame | ⟨rfl, rfl⟩
    · rw [hsame]
    · -- a connection that is accepted only now
      cases h
      simp [hinv.fresh s.nextId (Nat.le_refl _), Connection.unborn, HandlerPc.outstanding]

theorem effect_proceed (c : ClientId) (w : SessionWorld) :
    effect? c w (.server (.handler c .proceed)) = (w.server.conns c).handler.effect? := by
  simp only [effect?, performed?]
  cases (w.server.conns c).handler.effect? with
  | none => rfl
  | some e => simp [effectFor?]

/-- The other steps around the registry have no effect for `c`. -/
theorem effect_server_other {b : ServerAct} (hown : b ≠ .handler c .proceed) :
    effect? c w (.server b) = none := by
  simp only [effect?, performed?]
  split
  · rename_i hact
    cases hact
  · rename_i hact
    cases hact
  · rename_i id hact
    cases hact
    have hid : id ≠ c := by
      rintro rfl
      exact hown rfl
    cases (w.server.conns id).handler.effect? with
    | none => rfl
    | some e => simp [effectFor?, hid]
  · rfl

/-- A read that returns no message dispatches none. -/
theorem dispatched_hangUp {id : ClientId} {nowMs : UInt64}
    (hnone : ∀ m, (w.nextMsg id).1 ≠ .ok (some m)) :
    Session.dispatched? c w (.read id nowMs) = none := by
  simp only [Session.dispatched?]
  split
  · rename_i hid
    subst hid
    split
    · rename_i m? hm
      cases m? with
      | none => rfl
      | some m => exact absurd hm (hnone m)
    · rfl
  · rfl

/-- A step that has no effect and dispatches nothing for `c`. -/
theorem outstanding_quiet (hdispatched : Session.dispatched? c w a = none)
    (heffect : effect? c w a = none)
    (hpc : (t.server.conns c).handler.outstanding = (w.server.conns c).handler.outstanding)
    (hwork : (t.work c).outstanding = (w.work c).outstanding)
    (hheld : t.tx.heldBy c = w.tx.heldBy c) :
    outstanding c w ++ (Session.dispatched? c w a).toList.flatMap ClientMsg.effects =
      (effect? c w a).toList ++ outstanding c t := by
  simp [outstanding, hpc, hwork, hheld, hdispatched, heffect]

theorem heldBy_of_not_holder (h : SessionInv w) (hwork : w.work c ≠ .pushing) :
    w.tx.heldBy c = [] := by
  unfold TxWorld.heldBy
  split
  · rename_i id fs hholder
    by_cases hid : id = c
    · subst hid
      exact absurd hholder (h.not_holder hwork fs)
    · rw [if_neg hid]
  · rfl

/-- What was to be done and what the step dispatches is what the step does and what is to be done
behind it. -/
theorem outstanding_step (h : SessionInv w) (hstep : w.step fd a = some t) :
    outstanding c w ++ (Session.dispatched? c w a).toList.flatMap ClientMsg.effects =
      (effect? c w a).toList ++ outstanding c t := by
  cases sessionStep_of_step hstep with
  | dispatch hwork hpc hread =>
      rename_i id nowMs m script
      by_cases hid : id = c
      · subst hid
        -- there was nothing to be done, and now there is the message
        have hheld := heldBy_of_not_holder h (c := id) (by simp [hwork])
        have hbefore : outstanding id w = [] := by
          simp [outstanding, hpc, hwork, HandlerPc.outstanding, DeviceWork.outstanding, hheld]
        have hbehind : outstanding id
            { w.afterRead id script with
              server := w.server.setHandler id (.serving (ServerWorld.dispatch m))
              lastActivityMs := nowMs
              work := Function.update w.work id (deviceWork m) } = m.effects := by
          simpa [outstanding, SessionWorld.afterRead, hheld] using outstanding_dispatch m
        rw [hbefore, hbehind]
        simp [Session.dispatched?, hread, effect?, performed?]
      · exact outstanding_quiet (by simp [Session.dispatched?, hid]) rfl (by simp [Ne.symm hid])
          (by simp [Ne.symm hid]) rfl
  | hangUp hwork hpc hnone hends =>
      rename_i id nowMs
      have hpcs : ((w.server.setHandler id .leaving).conns c).handler.outstanding =
          (w.server.conns c).handler.outstanding := by
        by_cases hid : c = id
        · subst hid
          simp [hpc, HandlerPc.outstanding]
        · simp [hid]
      exact outstanding_quiet (dispatched_hangUp hnone) rfl hpcs rfl rfl
  | setGpio hwork =>
      rename_i id handle pin high
      by_cases hid : id = c
      · subst hid
        have hpc := h.working id (by simp [hwork])
        have hheld := heldBy_of_not_holder h (c := id) (by simp [hwork])
        simp [outstanding, hpc, hwork, HandlerPc.outstanding, DeviceWork.outstanding, hheld,
          -- `set_pin` is all that there was to be done
          Session.dispatched?, effect?, performed?, effectFor?]
      · exact outstanding_quiet rfl (by simp [effect?, performed?, effectFor?, hwork, hid]) rfl
          (by simp [Ne.symm hid]) rfl
  | lockTx hwork hfree =>
      rename_i id frames
      by_cases hid : id = c
      · subst hid
        -- the frames are with the holder of the mutex now
        simp [outstanding, hwork, SessionWorld.setTx, TxWorld.heldBy, hfree,
          DeviceWork.outstanding, Session.dispatched?, effect?, performed?]
      · exact outstanding_quiet rfl rfl rfl (by simp [Ne.symm hid])
          (by simp [SessionWorld.setTx, TxWorld.heldBy, hfree, hid])
  | pushTx hholder =>
      rename_i id f fs
      by_cases hid : id = c
      · subst hid
        have hwork := (h.pushing id).2 ⟨_, hholder⟩
        -- the holder of the mutex is in the middle of its message
        have hpc := h.working id (by simp [hwork])
        simp [outstanding, hpc, hwork, HandlerPc.outstanding, DeviceWork.outstanding,
          SessionWorld.setTx, TxWorld.heldBy, hholder, Session.dispatched?, effect?, performed?,
          effectFor?]
      · exact outstanding_quiet rfl (by simp [effect?, performed?, hholder, effectFor?, hid]) rfl
          rfl (by simp [SessionWorld.setTx, TxWorld.heldBy, hholder, hid])
  | unlockTx hholder =>
      rename_i id
      have hheld : (w.setTx { w.tx with holder := none }).tx.heldBy c = w.tx.heldBy c := by
        simp [SessionWorld.setTx, TxWorld.heldBy, hholder]
      have hworks : (Function.update w.work id .idle c).outstanding = (w.work c).outstanding := by
        by_cases hid : c = id
        · subst hid
          simp [(h.pushing c).2 ⟨_, hholder⟩, DeviceWork.outstanding]
        · simp [hid]
      exact outstanding_quiet rfl rfl rfl hworks hheld
  | reapedTx hflight => exact outstanding_quiet rfl rfl rfl rfl rfl
  | heartbeat => exact outstanding_quiet rfl rfl rfl rfl rfl
  | counters => exact outstanding_quiet rfl rfl rfl rfl rfl
  | server hother hserver =>
      rename_i b server
      by_cases hown : b = .handler c .proceed
      · subst hown
        rw [effect_proceed, outstanding, outstanding, outstanding_handler hserver]
        simp [Session.dispatched?]
      · exact outstanding_quiet rfl (effect_server_other hown)
          (outstanding_server h.server hown hother hserver) rfl rfl

/-- A message has its effects inside the loop. -/
theorem looping_of_effect (h : SessionInv w) {e : Effect} (heffect : effect? c w a = some e) :
    Session.phaseOf c w = .looping := by
  have hworks : w.work c ≠ .idle → Session.phaseOf c w = .looping := by
    intro hwork
    rw [Session.phaseOf, h.working c hwork]
    rfl
  rcases Option.bind_eq_some_iff.1 heffect with ⟨⟨id, e'⟩, hperformed, hfor⟩
  have hid : id = c := by
    by_contra hid
    simp [effectFor?, hid] at hfor
  subst hid
  unfold performed? at hperformed
  -- a device step is one of a handler at work, the others are told by its place in the code
  split at hperformed
  · split at hperformed
    · rename_i hwork
      cases hperformed
      exact hworks (by simp [hwork])
    · cases hperformed
  · split at hperformed
    · rename_i hholder
      cases hperformed
      have hpushing := (h.pushing id).2 ⟨_, hholder⟩
      exact hworks (by simp [hpushing])
    · cases hperformed
  · rename_i id' hact
    rcases Option.map_eq_some_iff.1 hperformed with ⟨x, hx, heq⟩
    cases heq
    cases hpc : (w.server.conns id).handler with
    | serving s =>
        rw [Session.phaseOf, hpc]
        rfl
    | _ => simp [hpc, HandlerPc.effect?] at hx
  · cases hperformed

/-- A handler at rest has done everything. -/
theorem outstanding_of_atRest (h : SessionInv w) (hrest : AtRest c w) : outstanding c w = [] := by
  have hpc : (w.server.conns c).handler.outstanding = [] := by
    have hzero := hrest.handler
    cases hhandler : (w.server.conns c).handler with
    | serving s =>
        rw [hhandler] at hzero
        cases s with
        | reading => rfl
        | _ => cases hzero
    | _ => rfl
  have hheld := heldBy_of_not_holder h (c := c) (by simp [hrest.work])
  simp [outstanding, hpc, hrest.work, DeviceWork.outstanding, hheld]

end Step

/-- Behind its loop a client has no effects any more. -/
theorem effects_of_over {inbound : ClientId → Inbound} {as : List SessionAct} (h : SessionInv w)
    (hover : Session.phaseOf c w = .over)
    (hexec : (sessionSystem fd inbound).exec w as = some t) :
    effects c ((sessionSystem fd inbound).steps w as) = [] := by
  induction as generalizing w with
  | nil => rfl
  | cons a as ih =>
      rcases Option.bind_eq_some_iff.1 hexec with ⟨u, hstep, hrest⟩
      have hover' : Session.phaseOf c u = .over := by
        rcases (sessionMove_of_step hstep).server_step with ⟨b, hb⟩
        have hmove := phaseMove_of_step h.server hb c
        rw [show (w.server.conns c).handler.phase = .over from hover] at hmove
        exact hmove.over
      have hnone : effect? c w a = none := by
        cases heffect : effect? c w a with
        | none => rfl
        | some e =>
            have hloop := looping_of_effect h heffect
            rw [hover] at hloop
            cases hloop
      have hlater := ih (h.step hstep) hover' hrest
      rw [System.steps, hstep, Option.elim_some, effects_cons, hnone, hlater]
      rfl

/-! ## Whole runs -/

section Runs

variable {fd : RawFd} {inbound : ClientId → Inbound} {tr : SessionTrace} {w : SessionWorld}

theorem effects_append_outstanding (h : Trace (sessionSystem fd inbound) tr w) (c : ClientId) :
    effects c tr ++ outstanding c w = (Session.dispatched c tr).flatMap ClientMsg.effects := by
  induction h with
  | start => rfl
  | snoc htr hstep ih =>
      rename_i tr w t a
      have hlast := outstanding_step (c := c) (sessionInv_of_trace htr) hstep
      calc
        effects c (tr ++ [(w, a)]) ++ outstanding c t
            = effects c tr ++ ((effect? c w a).toList ++ outstanding c t) := by
            rw [effects_snoc, List.append_assoc]
        _ = effects c tr ++ (outstanding c w ++
              (Session.dispatched? c w a).toList.flatMap ClientMsg.effects) := by
            rw [hlast]
        _ = (Session.dispatched c (tr ++ [(w, a)])).flatMap ClientMsg.effects := by
            rw [Session.dispatched_snoc, List.flatMap_append, ← ih, List.append_assoc]

/-- Only the last message dispatched can have effects to come. -/
theorem outstanding_suffix (h : Trace (sessionSystem fd inbound) tr w) (c : ClientId) :
    outstanding c w = [] ∨
      ∃ ms m, Session.dispatched c tr = ms ++ [m] ∧ outstanding c w <:+ m.effects := by
  induction h with
  | start => exact Or.inl rfl
  | snoc htr hstep ih =>
      rename_i tr w t a
      have hinv := sessionInv_of_trace htr
      have hlast := outstanding_step (c := c) hinv hstep
      cases hdispatched : Session.dispatched? c w a with
      | none =>
          -- what is to be done only gets less
          have hless : outstanding c t <:+ outstanding c w := by
            rw [hdispatched] at hlast
            exact ⟨_, by simpa using hlast.symm⟩
          have hsame : Session.dispatched c (tr ++ [(w, a)]) = Session.dispatched c tr := by
            simp [Session.dispatched_snoc, hdispatched]
          rw [hsame]
          rcases ih with hnil | ⟨ms, m, hms, hsuffix⟩
          · rw [hnil] at hless
            exact Or.inl (List.suffix_nil.1 hless)
          · exact Or.inr ⟨ms, m, hms, hless.trans hsuffix⟩
      | some m =>
          refine Or.inr ⟨Session.dispatched c tr, m, by simp [Session.dispatched_snoc, hdispatched], ?_⟩
          -- a message is read when nothing is to be done
          cases sessionStep_of_step hstep with
          | dispatch hwork hpc hread =>
              rename_i id nowMs m' script
              have hid : id = c := by
                by_contra hid
                simp [Session.dispatched?, hid] at hdispatched
              subst hid
              have hrest : AtRest id w := ⟨by rw [hpc]; rfl, hwork⟩
              rw [hdispatched, outstanding_of_atRest hinv hrest] at hlast
              have heffect : effect? id w (.read id nowMs) = none := rfl
              rw [heffect] at hlast
              exact ⟨[], by simpa using hlast.symm⟩
          | hangUp hwork hpc hnone hends =>
              rw [dispatched_hangUp hnone] at hdispatched
              cases hdispatched
          | _ => cases hdispatched

end Runs

end Cm108Driver
