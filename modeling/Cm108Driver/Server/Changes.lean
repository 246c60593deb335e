import Cm108Driver.Server.Effects

/-!
# Changes — what an effect changes, and what nothing else does

The flags of a client in the registry, the output register, the TX ring and the queue of a client are
what the messages of the clients are about.  A step that has an effect changes one of them in the way
that the effect names, bit by bit and item by item; a step without an effect of the kind leaves
them as they are, but for what the other threads do: the heartbeat to its own pin, the TX loop to the
front of the ring, the writer threads to the front of the queues, and the broadcasts.

So the history of the effects is one of these changes.
-/

namespace Cm108Driver

open Lib

/-! ## Changes -/

/-- The flags under which the registry knows a client. -/
def SessionWorld.flags? (w : SessionWorld) (c : ClientId) : Option StreamFlags :=
  (w.server.clients.lookup c).map ClientHandle.streams

abbrev SessionWorld.queued (w : SessionWorld) (c : ClientId) : List ServerMsg :=
  (w.server.conns c).queue.items

abbrev SessionWorld.txFrames (w : SessionWorld) : List AudioFrame := w.tx.loop.ring.ring.items

/-- A message is put behind what is queued, unless its receiver is gone or there is no room. -/
def Tried (m : ServerMsg) (before behind : Connection) : Prop :=
  behind.queue.items =
    if before.receiving = true ∧ before.queue.items.length < 128 then
      before.queue.items ++ [m]
    else
      before.queue.items

/-- From `w` to `t` the effect `e` of the client `c` happens. -/
def Effect.Happens (e : Effect) (c : ClientId) (w t : SessionWorld) : Prop :=
  match e with
  | .setStreams streams => t.flags? c = some streams
  | .setPin pin high =>
      ∀ p, p < 8 → t.gpio.gpio.bit p = if p = pin.toNat % 8 then high else w.gpio.gpio.bit p
  | .push f =>
      if w.txFrames.length < 64 then
        t.txFrames = w.txFrames ++ [f] ∧ t.server.txXruns = w.server.txXruns
      else
        t.txFrames = w.txFrames ∧ t.server.txXruns = w.server.txXruns + 1
  | .pong => Tried .pong (w.server.conns c) (t.server.conns c)
  | .stats => ∃ rx tx lat, Tried (.stats rx tx lat) (w.server.conns c) (t.server.conns c)

/-- The effect is a reply. -/
def Effect.isReply : Effect → Bool
  | .pong => true
  | .stats => true
  | _ => false

/-- What a step changes is the effect that it has, if any. -/
structure Changes (w : SessionWorld) (a : SessionAct) (t : SessionWorld) : Prop where
  happens : ∀ c e, performed? w a = some (c, e) → e.Happens c w t
  /-- A client that is registered now has no flags. -/
  flags : ∀ c, (∀ streams, performed? w a ≠ some (c, .setStreams streams)) →
    ∀ streams, t.flags? c = some streams →
      w.flags? c = some streams ∨ (w.flags? c = none ∧ streams = StreamFlags.empty)
  pins : (∀ c pin high, performed? w a ≠ some (c, .setPin pin high)) →
    ∀ p, p < 8 → p ≠ heartbeatPin.toNat → t.gpio.gpio.bit p = w.gpio.gpio.bit p
  ring : (∀ c f, performed? w a ≠ some (c, .push f)) → t.txFrames <:+ w.txFrames
  queue : ∀ c, (∀ e, performed? w a = some (c, e) → e.isReply = false) →
    t.queued c <:+ w.queued c ∨
      ∃ b, a = .server (.visit c) ∧ w.server.broadcast = some b ∧
        Tried b.call.message (w.server.conns c) (t.server.conns c)

theorem tried_trySend (m : ServerMsg) (conn : Connection) : Tried m conn (conn.trySend m) := by
  unfold Tried Connection.trySend
  cases hrecv : conn.receiving with
  | false => simp
  | true =>
      have hoffer : (conn.queue.offer m).items =
          if conn.queue.items.length < 128 then conn.queue.items ++ [m] else conn.queue.items :=
        Fifo.items_offer conn.queue m
      simpa using hoffer

section Step

variable {fd : RawFd} {inbound : ClientId → Inbound} {w t : SessionWorld} {a : SessionAct}

theorem flags_of_lookup {c : ClientId}
    (h : t.server.clients.lookup c = w.server.clients.lookup c) : t.flags? c = w.flags? c := by
  rw [SessionWorld.flags?, SessionWorld.flags?, h]

/-- A step without an effect that leaves the registry, the register, the ring and the queues. -/
theorem Changes.quiet (hnone : performed? w a = none)
    (hclients : t.server.clients = w.server.clients) (hgpio : t.gpio.gpio = w.gpio.gpio)
    (hring : t.txFrames = w.txFrames) (hqueue : ∀ c, t.queued c <:+ w.queued c) : Changes w a t where
  happens := by simp [hnone]
  flags := fun c _ streams hstreams => Or.inl (by rwa [← flags_of_lookup (by rw [hclients])])
  pins := fun _ p _ _ => by rw [hgpio]
  ring := fun _ => hring ▸ List.suffix_rfl
  queue := fun c _ => Or.inl (hqueue c)

theorem queue_finish (conn : Connection) : conn.finish.queue.items <:+ conn.queue.items := by
  unfold Connection.finish
  split
  · exact List.nil_suffix
  · exact List.suffix_rfl

theorem queue_of_writer {conn conn' : Connection} {b : ClientWriterAct}
    (hmove : WriterMove conn b conn') : conn'.queue.items <:+ conn.queue.items := by
  cases hmove with
  | dequeue hpc hpop =>
      rw [Fifo.items_pop hpop]
      exact List.suffix_cons _ _
  | fail hpc => exact List.nil_suffix
  | _ => exact List.suffix_rfl

/-- A connection is changed, and its queue at most taken from. -/
theorem queued_setConn (w : SessionWorld) {id : ClientId} {conn : Connection}
    (h : conn.queue.items <:+ w.queued id) (c : ClientId) :
    (Function.update w.server.conns id conn c).queue.items <:+ w.queued c := by
  by_cases hc : c = id
  · subst hc
    rwa [Function.update_self]
  · rewrite [Function.update_of_ne hc]
    exact List.suffix_rfl

theorem queued_setHandler (w : SessionWorld) (id : ClientId) (pc : HandlerPc) (c : ClientId) :
    ((w.server.setHandler id pc).conns c).queue.items <:+ w.queued c := by
  have hsame : { w.server.conns id with handler := pc }.queue.items <:+ w.queued id :=
    List.suffix_rfl
  exact queued_setConn w hsame c

theorem lookup_of_registered (h : SessionInv w) {id : ClientId}
    (hreg : (w.server.conns id).handler.isRegistered = true) :
    ∃ handle, w.server.clients.lookup id = some handle :=
  Option.isSome_iff_exists.1 (AList.lookup_isSome.2 ((h.server.registered id).2 hreg))

/-- A handler's steps in front of its loop. -/
theorem changes_of_setup {id : ClientId} {b : HandlerAct} {server : ServerWorld}
    (hb : b ≠ .proceed) (hother : (ServerAct.handler id b).ofSession = false)
    (hserver : w.server.step fd (.handler id b) = some server) :
    Changes w (.server (.handler id b)) { w with server := server } := by
  cases handlerMove_of_step hserver with
  | sendFd hpc => exact .quiet rfl rfl rfl rfl (queued_setConn w List.suffix_rfl)
  | spawn hpc => exact .quiet rfl rfl rfl rfl (queued_setConn w List.suffix_rfl)
  | leave hpc hact =>
      refine .quiet ?_ rfl rfl rfl (queued_setHandler w id .leaving)
      rcases hact with rfl | rfl | rfl <;> rfl
  | serve next hpc hquiet hact hnext =>
      rcases hact with rfl | ⟨m, rfl⟩
      -- inside the loop a handler proceeds, or reads (an action of its own)
      · exact absurd rfl hb
      · cases hother
  | _ => exact absurd rfl hb

/-- `register`: a client that was not registered has no flags. -/
theorem changes_of_register (h : SessionInv w) {id : ClientId}
    (hpc : (w.server.conns id).handler = .allocated) :
    Changes w (.server (.handler id .proceed))
      { w with
        server := (w.server.register
          { id := id
            streams := StreamFlags.empty }).setHandler id .registered } := by
  have hnone : performed? w (.server (.handler id .proceed)) = none := by
    simp [performed?, hpc, HandlerPc.effect?]
  have hfresh : w.flags? id = none := by
    -- only those that have registered are in the registry
    have hnot : id ∉ w.server.clients := by
      rw [h.server.registered, hpc]
      simp [HandlerPc.isRegistered]
    rw [SessionWorld.flags?, AList.lookup_eq_none.2 hnot]
    rfl
  refine
    { happens := by simp [hnone]
      flags := ?_
      pins := fun _ p _ _ => rfl
      ring := fun _ => List.suffix_rfl
      queue := fun c _ => Or.inl (queued_setHandler w id .registered c) }
  intro c _ streams hstreams
  by_cases hc : c = id
  · subst hc
    refine Or.inr ⟨hfresh, ?_⟩
    simpa [SessionWorld.flags?, ServerWorld.register, eq_comm] using hstreams
  · left
    simpa [SessionWorld.flags?, ServerWorld.register, AList.lookup_insert_ne hc] using hstreams

/-- `update_streams`: the flags of this client, and of no other. -/
theorem changes_of_subscribe (h : SessionInv w) {id : ClientId} {streams : StreamFlags}
    (hpc : (w.server.conns id).handler = .serving (.subscribing streams)) :
    Changes w (.server (.handler id .proceed))
      { w with server := (w.server.updateStreams id streams).setHandler id (.serving .reading) } := by
  have hone : performed? w (.server (.handler id .proceed)) = some (id, .setStreams streams) := by
    simp [performed?, hpc, HandlerPc.effect?]
  have hreg : (w.server.conns id).handler.isRegistered = true := by
    rw [hpc]
    rfl
  rcases lookup_of_registered h hreg with ⟨handle, hlookup⟩
  refine
    { happens := ?_
      flags := ?_
      pins := fun _ p _ _ => rfl
      ring := fun _ => List.suffix_rfl
      queue := fun c _ => Or.inl ?_ }
  · intro c e he
    rw [hone] at he
    cases he
    simp [Effect.Happens, SessionWorld.flags?, ServerWorld.updateStreams, hlookup]
  · intro c hother streams' hstreams
    have hc : c ≠ id := by
      rintro rfl
      exact hother streams hone
    left
    simpa [SessionWorld.flags?, ServerWorld.updateStreams, hlookup, AList.lookup_insert_ne hc]
      using hstreams
  · simpa [SessionWorld.queued] using queued_setHandler w id (.serving .reading) c

/-- `send_to`: the message of this client, and of no other. -/
theorem changes_of_reply (h : SessionInv w) {id : ClientId} {m : ServerMsg}
    (hpc : (w.server.conns id).handler = .serving (.replying m)) :
    Changes w (.server (.handler id .proceed))
      { w with server := (w.server.sendTo id m).setHandler id (.serving .reading) } := by
  have hone : performed? w (.server (.handler id .proceed)) = some (id, .ofReply m) := by
    simp [performed?, hpc, HandlerPc.effect?]
  have hmem : id ∈ w.server.clients := (h.server.registered id).2 (by rw [hpc]; rfl)
  have htried : Tried m (w.server.conns id)
      (((w.server.sendTo id m).setHandler id (.serving .reading)).conns id) := by
    rw [ServerWorld.sendTo_of_mem hmem]
    simpa [Tried] using tried_trySend m (w.server.conns id)
  refine
    { happens := ?_
      flags := fun c _ streams hstreams => Or.inl ?_
      pins := fun _ p _ _ => rfl
      ring := fun _ => List.suffix_rfl
      queue := ?_ }
  · intro c e he
    rw [hone] at he
    cases he
    -- no handler replies with anything but these two
    have hreply := h.server.replies id m hpc
    cases m with
    | pong => exact htried
    | stats rx tx lat => exact ⟨rx, tx, lat, htried⟩
    | _ => cases hreply
  · simpa [SessionWorld.flags?, ServerWorld.sendTo_of_mem hmem] using hstreams
  · intro c hother
    have hc : c ≠ id := by
      rintro rfl
      have hnot := hother _ hone
      cases m <;> cases hnot
    left
    simp [SessionWorld.queued, ServerWorld.sendTo_of_mem hmem, hc]

/-- The steps of the handlers around the registry. -/
theorem changes_of_proceed (h : SessionInv w) {id : ClientId} {server : ServerWorld}
    (hserver : w.server.step fd (.handler id .proceed) = some server) :
    Changes w (.server (.handler id .proceed)) { w with server := server } := by
  simp only [ServerWorld.step] at hserver
  cases hpc : (w.server.conns id).handler with
  | serving s =>
      simp only [ServerWorld.handlerStep, hpc] at hserver
      cases s with
      | reading => cases hserver
      | subscribing streams =>
          rcases ServerWorld.whenUnlocked_eq_some hserver with ⟨_, rfl⟩
          exact changes_of_subscribe h hpc
      | replying m =>
          rcases ServerWorld.whenUnlocked_eq_some hserver with ⟨_, rfl⟩
          exact changes_of_reply h hpc
      | _ =>
          cases hserver
          exact .quiet (by simp [performed?, hpc, HandlerPc.effect?]) rfl rfl rfl
            (queued_setHandler w id _)
  | allocated =>
      simp only [ServerWorld.handlerStep, hpc] at hserver
      rcases ServerWorld.whenUnlocked_eq_some hserver with ⟨_, rfl⟩
      exact changes_of_register h hpc
  | leaving =>
      simp only [ServerWorld.handlerStep, hpc] at hserver
      rcases ServerWorld.whenUnlocked_eq_some hserver with ⟨_, rfl⟩
      have hnone : performed? w (.server (.handler id .proceed)) = none := by
        simp [performed?, hpc, HandlerPc.effect?]
      refine
        { happens := by simp [hnone]
          flags := fun c _ streams hstreams => Or.inl ?_
          pins := fun _ p _ _ => rfl
          ring := fun _ => List.suffix_rfl
          queue := fun c _ => Or.inl (queued_setConn w (queue_finish _) c) }
      by_cases hc : c = id
      · subst hc
        -- the one that leaves has no flags behind the step
        simp [SessionWorld.flags?, ServerWorld.unregister] at hstreams
      · simpa [SessionWorld.flags?, ServerWorld.unregister, AList.lookup_erase_ne hc] using hstreams
  | _ => simp [ServerWorld.handlerStep, hpc] at hserver

/-- A broadcast visits a client: the message is passed to it if its flags ask for it. -/
theorem visited {b : Broadcast} {server : ServerWorld} {id : ClientId}
    (hb : w.server.broadcast = some b) (hstep : w.server.step fd (.visit id) = some server) :
    (if w.server.wantedBy b.call id = true then
        Tried b.call.message (w.server.conns id) (server.conns id)
      else
        (server.conns id).queue.items = w.queued id) ∧
      ∀ c, c ≠ id → server.conns c = w.server.conns c := by
  cases serverMove_of_step hstep with
  | visit hb' hid =>
      rw [hb] at hb'
      cases hb'
      rw [ServerWorld.offer_eq]
      by_cases hwanted : w.server.wantedBy b.call id = true
      · rw [if_pos hwanted, if_pos hwanted]
        refine ⟨?_, fun c hc => by simp [hc]⟩
        simpa using tried_trySend b.call.message (w.server.conns id)
      · rw [if_neg hwanted, if_neg hwanted]
        exact ⟨rfl, fun c _ => rfl⟩

/-- All other steps around the registry. -/
theorem changes_of_server (h : SessionInv w) {b : ServerAct} {server : ServerWorld}
    (hother : b.ofSession = false) (hserver : w.server.step fd b = some server) :
    Changes w (.server b) { w with server := server } := by
  cases b with
  | handler id b =>
      by_cases hb : b = .proceed
      · subst hb
        exact changes_of_proceed h hserver
      · exact changes_of_setup hb hother hserver
  | visit id =>
      have hmove := serverMove_of_step hserver
      cases hmove with
      | visit hb hid =>
          rename_i b
          have hvisited := visited hb hserver
          refine
            { happens := by simp [performed?]
              flags := fun c _ streams hstreams => Or.inl ?_
              pins := fun _ p _ _ => rfl
              ring := fun _ => List.suffix_rfl
              queue := fun c _ => ?_ }
          · simpa [SessionWorld.flags?] using hstreams
          · by_cases hc : c = id
            · subst hc
              -- only the client visited can get the message, and only if its flags ask for it
              by_cases hwanted : w.server.wantedBy b.call c = true
              · rw [if_pos hwanted] at hvisited
                exact Or.inr ⟨b, rfl, hb, hvisited.1⟩
              · rw [if_neg hwanted] at hvisited
                exact Or.inl (hvisited.1 ▸ List.suffix_rfl)
            · have hsame := hvisited.2 c hc
              left
              rewrite [SessionWorld.queued, hsame]
              exact List.suffix_rfl
  | writer id b =>
      cases serverMove_of_step hserver with
      | writer hmove => exact .quiet rfl rfl rfl rfl (queued_setConn w (queue_of_writer hmove))
  | connect =>
      cases hserver
      exact .quiet rfl rfl rfl rfl (queued_setHandler w w.server.nextId .allocated)
  | broadcast call =>
      rcases ServerWorld.whenUnlocked_eq_some hserver with ⟨_, rfl⟩
      exact .quiet rfl rfl rfl rfl fun _ => List.suffix_rfl
  | endBroadcast =>
      cases serverMove_of_step hserver with
      | endBroadcast hb => exact .quiet rfl rfl rfl rfl fun _ => List.suffix_rfl
  | counters rx tx lat => cases hother

/-- The TX loop takes the front of the ring, or finds nothing. -/
theorem ring_serve_tx (slot : Slot isoOutPacket) (r : CountedRing) :
    (txLoop.serve slot r).2.ring.items <:+ r.ring.items := by
  cases hitems : r.ring.items with
  | nil => simp [txLoop, CountedRing.pop_of_nil hitems, hitems]
  | cons f fs =>
      rcases CountedRing.pop_of_cons hitems with ⟨hf, hrest, _⟩
      simp only [txLoop]
      split
      · rename_i ring hpop
        rw [hpop] at hrest
        exact hrest ▸ List.suffix_cons f fs
      · rename_i ring hpop
        rw [hpop] at hf
        cases hf

theorem changes_of_step (h : SessionInv w) (hstep : w.step fd a = some t) : Changes w a t := by
  cases sessionStep_of_step hstep with
  | dispatch hwork hpc hread => exact .quiet rfl rfl rfl rfl (queued_setHandler w _ _)
  | hangUp hwork hpc hnone hends => exact .quiet rfl rfl rfl rfl (queued_setHandler w _ _)
  | setGpio hwork =>
      rename_i id handle pin high
      have hone : performed? w (.setGpio id handle) = some (id, .setPin pin high) := by
        simp [performed?, hwork]
      refine
        { happens := ?_
          flags := fun c _ streams hstreams => Or.inl hstreams
          pins := fun hnot => absurd hone (hnot id pin high)
          ring := fun _ => List.suffix_rfl
          queue := fun c _ => Or.inl List.suffix_rfl }
      intro c e he
      rw [hone] at he
      cases he
      exact fun p hp => HidGpio.bit_setPin _ handle pin high hp
  | lockTx hwork hfree => exact .quiet rfl rfl rfl rfl fun _ => List.suffix_rfl
  | pushTx hholder =>
      rename_i id f fs
      have hone : performed? w .pushTx = some (id, .push f) := by
        simp [performed?, hholder]
      refine
        { happens := ?_
          flags := fun c _ streams hstreams => Or.inl hstreams
          pins := fun _ p _ _ => rfl
          ring := fun hnot => absurd hone (hnot id f)
          queue := fun c _ => Or.inl List.suffix_rfl }
      intro c e he
      rw [hone] at he
      cases he
      -- `h.xruns`: what the server reports is the count of this ring
      have hitems := CountedRing.items_push w.tx.loop.ring f
      have hxruns := CountedRing.xruns_push w.tx.loop.ring f
      simp only [Effect.Happens, SessionWorld.txFrames, SessionWorld.setTx, LoopWorld.peer]
      rw [hitems, hxruns, h.xruns]
      by_cases hroom : w.tx.loop.ring.ring.items.length < 64
      · simp [CountedRing.hasRoom, ringCapacity, hroom]
      · simp [CountedRing.hasRoom, ringCapacity, hroom]
  | unlockTx hholder => exact .quiet rfl rfl rfl rfl fun _ => List.suffix_rfl
  | reapedTx hflight =>
      rename_i i c
      refine
        { happens := by simp [performed?]
          flags := fun c _ streams hstreams => Or.inl hstreams
          pins := fun _ p _ _ => rfl
          ring := fun _ => ?_
          queue := fun c _ => Or.inl List.suffix_rfl }
      simp only [SessionWorld.txFrames, SessionWorld.setTx, ReapLoop.next, ReapLoop.onReaped]
      split
      · exact ring_serve_tx _ _
      · exact List.suffix_rfl
  | heartbeat =>
      rename_i handle
      refine
        { happens := by simp [performed?]
          flags := fun c _ streams hstreams => Or.inl hstreams
          pins := fun _ p hp hne => ?_
          ring := fun _ => List.suffix_rfl
          queue := fun c _ => Or.inl List.suffix_rfl }
      have hbit := HidGpio.bit_setPin w.gpio.gpio handle heartbeatPin (!w.gpio.pinState) hp
      -- the pin is below 8, so that the masked shift reaches this pin alone
      have hmod : heartbeatPin.toNat % 8 = heartbeatPin.toNat := rfl
      rwa [hmod, if_neg hne] at hbit
  | counters => exact .quiet rfl rfl rfl rfl fun _ => List.suffix_rfl
  | server hother hserver => exact changes_of_server h hother hserver

/-- Every step of a run. -/
theorem changes_of_trace {tr : SessionTrace} (h : Trace (sessionSystem fd inbound) tr w)
    {u u' : SessionWorld} (hmem : (u, a) ∈ tr) (hstep : u.step fd a = some u') :
    Changes u a u' := by
  rcases exists_prefix_of_mem hmem with ⟨pre, hpre⟩
  exact changes_of_step (sessionInv_of_trace (h.of_prefix hpre).1) hstep

end Step

/-! ## The effects of a client's messages -/

section Runs

variable {fd : RawFd} {inbound : ClientId → Inbound} {tr : SessionTrace} {w : SessionWorld}

/-- How far the messages of the client `c` have got. -/
structure TakeEffect (fd : RawFd) (c : ClientId) (tr : SessionTrace) (w : SessionWorld) : Prop where
  inOrder : effects c tr ++ outstanding c w = (Session.dispatched c tr).flatMap ClientMsg.effects
  /-- What is to come belongs to one message, the last. -/
  oneMessage : outstanding c w = [] ∨
    ∃ ms m, Session.dispatched c tr = ms ++ [m] ∧ outstanding c w <:+ m.effects
  /-- So nothing is left out when the handler reads on, or ends. -/
  atRest : AtRest c w → effects c tr = (Session.dispatched c tr).flatMap ClientMsg.effects
  /-- The effects are what the steps change, in whatever order they come. -/
  changes : ∀ u a u', (u, a) ∈ tr → u.step fd a = some u' → Changes u a u'

/-- In every run, for every client: the effects that its messages have had and those to come for the
last of them are, in order and each once, those of the messages dispatched, and at rest there are
none to come.  Each of them is a change of the client's flags, of a pin, of the ring or of a queue,
which no step without this effect makes. -/
theorem messages_take_effect (h : Trace (sessionSystem fd inbound) tr w) (c : ClientId) :
    TakeEffect fd c tr w where
  inOrder := effects_append_outstanding h c
  oneMessage := outstanding_suffix h c
  atRest := by
    intro hrest
    have hall := effects_append_outstanding h c
    rwa [outstanding_of_atRest (sessionInv_of_trace h) hrest, List.append_nil] at hall
  changes := fun _ _ _ hmem hstep => changes_of_trace h hmem hstep

end Runs

/-! ### One subscription -/

/-- Every client subscribes to `AUDIO_IN` and closes. -/
def subscriber : ClientId → Inbound := fun _ =>
  { script := [.data (writeClientMsg (.subscribe StreamFlags.audioIn))]
    closed := true }

/-- Client 1 connects and subscribes. -/
def subscribeRun : List SessionAct :=
  [.server .connect, .server (.handler 1 .proceed), .server (.handler 1 (.sendFd true)),
    .server (.handler 1 (.spawnWriter true)), .read 1 1000, .server (.handler 1 .proceed)]

theorem messages_take_effect_subscribe :
    ∃ tr w, Trace (sessionSystem 7 subscriber) tr w ∧
      effects 1 tr = [.setStreams StreamFlags.audioIn] ∧ TakeEffect 7 1 tr w := by
  have hrun := Trace.start.exec
    (show (sessionSystem 7 subscriber).exec (SessionWorld.start subscriber) subscribeRun = some _
      from rfl)
  exact ⟨_, _, hrun, rfl, messages_take_effect hrun 1⟩

end Cm108Driver
