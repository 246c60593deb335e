import Cm108Driver.Server.Changes

/-!
# Subscriptions — who a broadcast is passed to

The registry knows a client by the flags of its last `Subscribe`.  A broadcast keeps the mutex from
its first client to its last, so that nobody registers, leaves, subscribes or is replied to in
between: it visits each client registered when it takes the mutex once, and passes its message to
those whose flags ask for it.
-/

namespace Cm108Driver

open Lib

/-! ## The registry -/

/-- The flags of the last `update_streams`, none at first. -/
def lastStreams (es : List Effect) : StreamFlags :=
  es.foldl
    (fun streams e =>
      match e with
      | .setStreams streams' => streams'
      | _ => streams)
    StreamFlags.empty

@[simp] theorem lastStreams_snoc_set (es : List Effect) (streams : StreamFlags) :
    lastStreams (es ++ [.setStreams streams]) = streams := by
  simp [lastStreams]

theorem lastStreams_snoc {es : List Effect} {e : Effect} (h : ∀ streams, e ≠ .setStreams streams) :
    lastStreams (es ++ [e]) = lastStreams es := by
  cases e with
  | setStreams streams => exact absurd rfl (h streams)
  | _ => simp [lastStreams]

/-- The entry of a client whose messages have had these effects. -/
def entryOf (c : ClientId) (es : List Effect) : ClientHandle :=
  { id := c
    streams := lastStreams es }

structure RegistryInv (c : ClientId) (tr : SessionTrace) (w : SessionWorld) : Prop where
  fresh : Session.phaseOf c w = .setup → effects c tr = []
  entry : c ∈ w.server.clients → w.server.clients.lookup c = some (entryOf c (effects c tr))

section Registry

variable {fd : RawFd} {inbound : ClientId → Inbound} {c : ClientId} {tr : SessionTrace}
  {w t : SessionWorld} {a : SessionAct}

/-- A step that leaves the client's entry and its flags alone. -/
theorem RegistryInv.keep (h : RegistryInv c tr w) (hinv : SessionInv w)
    (hstep : w.step fd a = some t)
    (hclients : t.server.clients.lookup c = w.server.clients.lookup c)
    (heffect : ∀ streams, effect? c w a ≠ some (.setStreams streams)) :
    RegistryInv c (tr ++ [(w, a)]) t := by
  constructor
  · intro hsetup
    -- in front of the loop there are no effects at all
    have hbefore := setup_of_setup hinv hstep hsetup
    have hnone : effect? c w a = none := by
      cases he : effect? c w a with
      | none => rfl
      | some e =>
          have hloop := looping_of_effect hinv he
          rw [hbefore] at hloop
          cases hloop
    rw [effects_snoc, h.fresh hbefore, hnone]
    rfl
  · intro hmem
    -- and later ones are not about the flags
    have hsame : lastStreams (effects c (tr ++ [(w, a)])) = lastStreams (effects c tr) := by
      rw [effects_snoc]
      cases he : effect? c w a with
      | none => simp
      | some e =>
          refine lastStreams_snoc fun streams heq => heffect streams ?_
          rw [he, heq]
    have hmem' : c ∈ w.server.clients := by
      rw [← AList.lookup_isSome, hclients, AList.lookup_isSome] at hmem
      exact hmem
    rw [hclients, h.entry hmem', entryOf, entryOf, hsame]

/-- Only a client's own handler changes its entry. -/
theorem lookup_of_step {s u : ServerWorld} {b : ServerAct} (hstep : s.step fd b = some u)
    (hown : b ≠ .handler c .proceed) : u.clients.lookup c = s.clients.lookup c := by
  cases serverMove_of_step hstep with
  | visit hb hid => simp
  | handler hmove =>
      rename_i id b'
      cases hmove with
      | register hpc hlock =>
          have hid : c ≠ id := by
            rintro rfl
            exact hown rfl
          simp [AList.lookup_insert_ne hid]
      | subscribe hpc hlock =>
          have hid : c ≠ id := by
            rintro rfl
            exact hown rfl
          simp only [ServerWorld.setHandler_clients, ServerWorld.updateStreams]
          split
          · simp [AList.lookup_insert_ne hid]
          · rfl
      | reply hpc hlock =>
          simp only [ServerWorld.setHandler_clients, ServerWorld.sendTo]
          split
          · rfl
          · rfl
      | unregister hpc hlock =>
          have hid : c ≠ id := by
            rintro rfl
            exact hown rfl
          simp [ServerWorld.unregister, AList.lookup_erase_ne hid]
      | _ => rfl
  | _ => rfl

/-- The step of the handler of `c` around the registry. -/
theorem RegistryInv.proceed (h : RegistryInv c tr w) (hinv : SessionInv w) {server : ServerWorld}
    (hserver : w.server.step fd (.handler c .proceed) = some server)
    (hstep : w.step fd (.server (.handler c .proceed)) = some { w with server := server }) :
    RegistryInv c (tr ++ [(w, .server (.handler c .proceed))]) { w with server := server } := by
  have heffect := effect_proceed c w
  -- inside and behind the loop the client is not set up again
  have hfresh : Session.phaseOf c w ≠ .setup → Session.phaseOf c { w with server := server } = .setup →
      effects c (tr ++ [(w, .server (.handler c .proceed))]) = [] := fun hpast hsetup =>
    absurd (setup_of_setup hinv hstep hsetup) hpast
  simp only [ServerWorld.step] at hserver
  cases hpc : (w.server.conns c).handler with
  | serving s =>
      have hpast : Session.phaseOf c w ≠ .setup := by simp [Session.phaseOf, hpc, HandlerPc.phase]
      rw [hpc] at heffect
      simp only [ServerWorld.handlerStep, hpc] at hserver
      cases s with
      | reading => cases hserver
      | subscribing streams =>
          rcases ServerWorld.whenUnlocked_eq_some hserver with ⟨_, rfl⟩
          have hmem : c ∈ w.server.clients := (hinv.server.registered c).2 (by rw [hpc]; rfl)
          refine ⟨hfresh hpast, fun _ => ?_⟩
          rw [effects_snoc, heffect]
          simp [HandlerPc.effect?, ServerWorld.updateStreams, h.entry hmem, entryOf]
      | replying m =>
          rcases ServerWorld.whenUnlocked_eq_some hserver with ⟨_, rfl⟩
          refine h.keep hinv hstep ?_ ?_
          · simp only [ServerWorld.setHandler_clients, ServerWorld.sendTo]
            split
            · rfl
            · rfl
          · intro streams
            rw [heffect]
            cases m <;> simp [HandlerPc.effect?, Effect.ofReply]
      | _ =>
          cases hserver
          exact h.keep hinv hstep rfl (by simp [heffect, HandlerPc.effect?])
  | allocated =>
      simp only [ServerWorld.handlerStep, hpc] at hserver
      rcases ServerWorld.whenUnlocked_eq_some hserver with ⟨_, rfl⟩
      have hnone : effects c (tr ++ [(w, .server (.handler c .proceed))]) = [] := by
        -- `register` writes the empty flags, those of a client without effects
        rw [effects_snoc, heffect, hpc, h.fresh (by rw [Session.phaseOf, hpc]; rfl)]
        rfl
      refine ⟨fun _ => hnone, fun _ => ?_⟩
      rw [hnone]
      simp [entryOf, lastStreams]
  | leaving =>
      have hpast : Session.phaseOf c w ≠ .setup := by simp [Session.phaseOf, hpc, HandlerPc.phase]
      simp only [ServerWorld.handlerStep, hpc] at hserver
      rcases ServerWorld.whenUnlocked_eq_some hserver with ⟨_, rfl⟩
      exact ⟨hfresh hpast, fun hmem => absurd hmem (by simp [ServerWorld.unregister])⟩
  | _ => simp [ServerWorld.handlerStep, hpc] at hserver

theorem RegistryInv.step (h : RegistryInv c tr w) (hinv : SessionInv w)
    (hstep : w.step fd a = some t) : RegistryInv c (tr ++ [(w, a)]) t := by
  cases sessionStep_of_step hstep with
  | setGpio hwork =>
      rename_i id handle pin high
      refine h.keep hinv hstep rfl ?_
      intro streams
      by_cases hid : id = c
      · subst hid
        simp [effect?, performed?, effectFor?, hwork]
      · simp [effect?, performed?, effectFor?, hwork, hid]
  | pushTx hholder =>
      rename_i id f fs
      refine h.keep hinv hstep rfl ?_
      intro streams
      by_cases hid : id = c
      · simp [effect?, performed?, effectFor?, hholder, hid]
      · simp [effect?, performed?, effectFor?, hholder, hid]
  | server hother hserver =>
      rename_i b server
      by_cases hown : b = .handler c .proceed
      · subst hown
        exact h.proceed hinv hserver hstep
      · refine h.keep hinv hstep (lookup_of_step hserver hown) ?_
        intro streams
        rw [effect_server_other hown]
        simp
  | dispatch hwork hpc hread => exact h.keep hinv hstep rfl (by simp [effect?, performed?])
  | hangUp hwork hpc hnone hends => exact h.keep hinv hstep rfl (by simp [effect?, performed?])
  | lockTx hwork hfree => exact h.keep hinv hstep rfl (by simp [effect?, performed?])
  | unlockTx hholder => exact h.keep hinv hstep rfl (by simp [effect?, performed?])
  | reapedTx hflight => exact h.keep hinv hstep rfl (by simp [effect?, performed?])
  | heartbeat => exact h.keep hinv hstep rfl (by simp [effect?, performed?])
  | counters => exact h.keep hinv hstep rfl (by simp [effect?, performed?])

theorem registryInv_of_trace (h : Trace (sessionSystem fd inbound) tr w) (c : ClientId) :
    RegistryInv c tr w := by
  induction h with
  | start =>
      refine ⟨fun _ => rfl, fun hmem => ?_⟩
      exact absurd hmem (by simp [sessionSystem, SessionWorld.start, ServerWorld.start])
  | snoc htr hstep ih => exact ih.step (sessionInv_of_trace htr) hstep

/-- In every run the registry has an entry for a client exactly while its handler is between
`register` and `unregister`, with its id and the flags of the last `Subscribe` that has taken
effect. -/
theorem lookup_of_trace (h : Trace (sessionSystem fd inbound) tr w) (c : ClientId) :
    w.server.clients.lookup c =
      if (w.server.conns c).handler.isRegistered then some (entryOf c (effects c tr)) else none := by
  have hreg := (sessionInv_of_trace h).server.registered c
  cases hpc : (w.server.conns c).handler.isRegistered with
  | true => simpa using (registryInv_of_trace h c).entry (hreg.2 hpc)
  | false =>
      have hnone : w.server.clients.lookup c = none := by
        rw [AList.lookup_eq_none, hreg, hpc]
        simp
      simpa using hnone

/-- Whether a broadcast is for the client. -/
def asks (call : BroadcastCall) (c : ClientId) (tr : SessionTrace) (w : SessionWorld) : Bool :=
  (w.server.conns c).handler.isRegistered && call.wants (entryOf c (effects c tr))

theorem wantedBy_of_trace (h : Trace (sessionSystem fd inbound) tr w) (call : BroadcastCall)
    (c : ClientId) : w.server.wantedBy call c = asks call c tr w := by
  rw [ServerWorld.wantedBy, lookup_of_trace h c, asks]
  cases (w.server.conns c).handler.isRegistered with
  | true => simp
  | false => simp

end Registry

/-! ## A broadcast -/

/-- The step visits the client `c`. -/
def visits (c : ClientId) : SessionAct → Bool
  | .server (.visit id) => id = c
  | _ => false

/-- What the steps of a broadcast mean for the client `c`: one visit if it is registered, with which
the message is passed to it if it asks for it; and nothing else gets into its queue. -/
structure PassedOn (fd : RawFd) (call : BroadcastCall) (c : ClientId) (registered wanted : Bool)
    (steps : SessionTrace) : Prop where
  once : (steps.filter fun p => visits c p.2).length = if registered then 1 else 0
  passed : ∀ u a u', (u, a) ∈ steps → u.step fd a = some u' → visits c a = true →
    if wanted then
      Tried call.message (u.server.conns c) (u'.server.conns c)
    else
      u'.queued c = u.queued c
  nothingElse : ∀ u a u', (u, a) ∈ steps → u.step fd a = some u' → visits c a = false →
    u'.queued c <:+ u.queued c

section Broadcast

variable {fd : RawFd} {inbound : ClientId → Inbound} {c : ClientId} {call : BroadcastCall}
  {w t u : SessionWorld} {a : SessionAct}

/-- With the mutex taken a handler neither registers, leaves, subscribes nor replies. -/
theorem handler_locked {s s' : ServerWorld} {id : ClientId} {b : HandlerAct}
    (hlock : s.broadcast ≠ none) (hmove : HandlerMove fd s id b s') :
    s'.clients = s.clients ∧ s'.broadcast = s.broadcast ∧
      (b = .proceed → ∀ m, (s.conns id).handler ≠ .serving (.replying m)) := by
  cases hmove with
  | register hpc hfree => exact absurd hfree hlock
  | subscribe hpc hfree => exact absurd hfree hlock
  | reply hpc hfree => exact absurd hfree hlock
  | unregister hpc hfree => exact absurd hfree hlock
  | sendFd hpc => exact ⟨rfl, rfl, by simp⟩
  | spawn hpc => exact ⟨rfl, rfl, by simp⟩
  | leave hpc hact =>
      refine ⟨rfl, rfl, ?_⟩
      rcases hact with rfl | rfl | rfl <;> simp
  | serve next hpc hquiet hact hnext =>
      refine ⟨rfl, rfl, fun _ m hm => ?_⟩
      rw [hpc] at hm
      cases hm
      exact hquiet m rfl

/-- A step while a broadcast is under way: a visit, or one that leaves the registry alone. -/
inductive Locked (w : SessionWorld) (b : Broadcast) : SessionAct → SessionWorld → Prop where
  | visit {id : ClientId} {t : SessionWorld} (hid : id ∈ b.todo)
      (hclients : t.server.clients = w.server.clients)
      (hmore : t.server.broadcast = some { b with todo := b.todo.erase id }) :
      Locked w b (.server (.visit id)) t
  | other {a : SessionAct} {t : SessionWorld} (hvisit : ∀ id, a ≠ .server (.visit id))
      (hclients : t.server.clients = w.server.clients) (hmore : t.server.broadcast = some b)
      (hreply : ∀ id e, performed? w a = some (id, e) → e.isReply = false) : Locked w b a t

theorem locked_of_step {b : Broadcast} (hb : w.server.broadcast = some b)
    (hstep : w.step fd a = some t) (hend : a ≠ .server .endBroadcast) : Locked w b a t := by
  have hlock : w.server.broadcast ≠ none := by simp [hb]
  cases sessionStep_of_step hstep with
  | setGpio hwork =>
      refine .other (by simp) rfl hb ?_
      intro id e he
      simp only [performed?, hwork, Option.some.injEq, Prod.mk.injEq] at he
      rw [← he.2]
      rfl
  | pushTx hholder =>
      refine .other (by simp) rfl hb ?_
      intro id e he
      simp only [performed?, hholder, Option.some.injEq, Prod.mk.injEq] at he
      rw [← he.2]
      rfl
  | server hother hserver =>
      cases serverMove_of_step hserver with
      -- the mutex is taken: whoever wants it has to wait
      | connect => exact .other (by simp) rfl hb (by simp [performed?])
      | broadcast call hfree => exact absurd hfree hlock
      | visit hb' hid =>
          rw [hb] at hb'
          cases hb'
          exact .visit hid (by simp) rfl
      | endBroadcast hb' => exact absurd rfl hend
      | handler hmove =>
          rename_i id b'
          -- the handlers go on where they do not need it, and these steps are no replies
          rcases handler_locked hlock hmove with ⟨hclients, hsame, hreply⟩
          refine .other (by simp) hclients (hsame.trans hb) ?_
          intro id' e he
          cases b' with
          | proceed =>
              rcases Option.map_eq_some_iff.1 he with ⟨e', he', heq⟩
              cases heq
              cases hpc : (w.server.conns id).handler with
              | serving s =>
                  rw [hpc] at he'
                  cases s with
                  | subscribing streams =>
                      cases he'
                      rfl
                  | replying m => exact absurd hpc (hreply rfl m)
                  | _ => cases he'
              | _ =>
                  rw [hpc] at he'
                  cases he'
          | _ => cases he
      | writer hmove => exact .other (by simp) rfl hb (by simp [performed?])
      | counters rx tx lat => cases hother
  | _ => exact .other (by simp) rfl hb (by simp [performed?])

/-- A step that visits another client, or none. -/
theorem PassedOn.cons_other {registered wanted : Bool} {steps : SessionTrace}
    (h : PassedOn fd call c registered wanted steps) (hquiet : visits c a = false)
    (hqueue : ∀ t, w.step fd a = some t → t.queued c <:+ w.queued c) :
    PassedOn fd call c registered wanted ((w, a) :: steps) where
  once := by simpa [hquiet] using h.once
  passed := by
    intro u b u' hmem hstep hvisits
    rcases List.mem_cons.1 hmem with heq | hmem
    · cases heq
      rw [hquiet] at hvisits
      cases hvisits
    · exact h.passed u b u' hmem hstep hvisits
  nothingElse := by
    intro u b u' hmem hstep hvisits
    rcases List.mem_cons.1 hmem with heq | hmem
    · cases heq
      exact hqueue u' hstep
    · exact h.nothingElse u b u' hmem hstep hvisits

/-- The visit. -/
theorem PassedOn.cons_visit {wanted : Bool} {steps : SessionTrace}
    (h : PassedOn fd call c false wanted steps) (hvisits : visits c a = true)
    (hpass : ∀ t, w.step fd a = some t →
      if wanted then
        Tried call.message (w.server.conns c) (t.server.conns c)
      else
        t.queued c = w.queued c) : PassedOn fd call c true wanted ((w, a) :: steps) where
  once := by
    have hrest := h.once
    simp only [List.filter_cons, hvisits, if_true, List.length_cons, hrest]
    rfl
  passed := by
    intro u b u' hmem hstep hvisits'
    rcases List.mem_cons.1 hmem with heq | hmem
    · cases heq
      exact hpass u' hstep
    · exact h.passed u b u' hmem hstep hvisits'
  nothingElse := by
    intro u b u' hmem hstep hvisits'
    rcases List.mem_cons.1 hmem with heq | hmem
    · cases heq
      rw [hvisits] at hvisits'
      cases hvisits'
    · exact h.nothingElse u b u' hmem hstep hvisits'

theorem queue_of_quiet (h : SessionInv w) (hstep : w.step fd a = some t)
    (hvisits : visits c a = false)
    (hreply : ∀ id e, performed? w a = some (id, e) → e.isReply = false) :
    t.queued c <:+ w.queued c := by
  rcases (changes_of_step h hstep).queue c fun e he => hreply c e he with hsuffix | ⟨b, rfl, _⟩
  · exact hsuffix
  · simp [visits] at hvisits

/-- From a state with the broadcast under way to its end. -/
theorem passedOn_of_exec (c : ClientId) {as : List SessionAct} {todo : List ClientId}
    (h : SessionInv w) (hb : w.server.broadcast = some { call := call, todo := todo })
    (hnodup : todo.Nodup) (hend : ∀ a ∈ as, a ≠ .server .endBroadcast)
    (hexec : (sessionSystem fd inbound).exec w (as ++ [.server .endBroadcast]) = some u) :
    PassedOn fd call c (decide (c ∈ todo)) (w.server.wantedBy call c)
      ((sessionSystem fd inbound).steps w (as ++ [.server .endBroadcast])) := by
  -- along the steps; `todo` are the clients still to be visited, each of them once
  induction as generalizing w todo with
  | nil =>
      rcases Option.bind_eq_some_iff.1 hexec with ⟨t, hstep, _⟩
      have hstep' : w.step fd (.server .endBroadcast) = some t := hstep
      -- the broadcast ends with nobody left to visit
      have hdone : todo = [] := by
        cases sessionStep_of_step hstep' with
        | server hother hserver =>
            cases serverMove_of_step hserver with
            | endBroadcast hb' =>
                rw [hb] at hb'
                cases hb'
                rfl
      subst hdone
      have hnone : (sessionSystem fd inbound).steps w ([] ++ [.server .endBroadcast]) =
          [(w, .server .endBroadcast)] := by
        simp [System.steps, hstep]
      rw [hnone]
      refine PassedOn.cons_other ⟨rfl, by simp, by simp⟩ rfl fun t' hstep'' => ?_
      exact queue_of_quiet h hstep'' rfl (by simp [performed?])
  | cons a as ih =>
      rcases Option.bind_eq_some_iff.1 hexec with ⟨t, hstep, hrest⟩
      have hstep' : w.step fd a = some t := hstep
      have hsteps : (sessionSystem fd inbound).steps w (a :: as ++ [.server .endBroadcast]) =
          (w, a) :: (sessionSystem fd inbound).steps t (as ++ [.server .endBroadcast]) := by
        simp [System.steps, hstep]
      have hmore : ∀ a' ∈ as, a' ≠ .server .endBroadcast := fun a' ha' =>
        hend a' (List.mem_cons_of_mem _ ha')
      rw [hsteps]
      cases locked_of_step hb hstep' (hend a List.mem_cons_self) with
      | visit hid hclients hb' =>
          rename_i id
          have hrec := ih (h.step hstep') hb' (hnodup.erase id) hmore hrest
          have hwanted : t.server.wantedBy call c = w.server.wantedBy call c := by
            rw [ServerWorld.wantedBy, ServerWorld.wantedBy, hclients]
          rw [hwanted] at hrec
          by_cases hc : c = id
          · subst hc
            -- this is the visit, and there is no other
            have hnot : c ∉ todo.erase c := fun hmem => (hnodup.mem_erase_iff.1 hmem).1 rfl
            simp only [decide_eq_false hnot] at hrec
            rw [decide_eq_true hid]
            refine hrec.cons_visit (by simp [visits]) fun u' hstep'' => ?_
            cases sessionStep_of_step hstep'' with
            | server hother hserver => exact (visited hb hserver).1
          · have hsame : decide (c ∈ todo.erase id) = decide (c ∈ todo) := by
              simp [hnodup.mem_erase_iff, hc]
            rw [hsame] at hrec
            have hquiet : visits c (.server (.visit id)) = false := by
              simpa [visits] using Ne.symm hc
            refine hrec.cons_other hquiet fun u' hstep'' => ?_
            exact queue_of_quiet h hstep'' hquiet (by simp [performed?])
      | other hvisit hclients hb' hreply =>
          have hrec := ih (h.step hstep') hb' hnodup hmore hrest
          have hwanted : t.server.wantedBy call c = w.server.wantedBy call c := by
            rw [ServerWorld.wantedBy, ServerWorld.wantedBy, hclients]
          rw [hwanted] at hrec
          have hquiet : visits c a = false := by
            unfold visits
            split
            · exact absurd rfl (hvisit _)
            · rfl
          exact hrec.cons_other hquiet fun u' hstep'' => queue_of_quiet h hstep'' hquiet hreply

end Broadcast

/-! ## Whole runs -/

/-- Who the registry knows, and what becomes of a broadcast, at a point of a run. -/
structure FollowsSubscriptions (fd : RawFd) (inbound : ClientId → Inbound) (c : ClientId)
    (tr : SessionTrace) (w : SessionWorld) : Prop where
  entry : w.server.clients.lookup c =
    if (w.server.conns c).handler.isRegistered then some (entryOf c (effects c tr)) else none
  /-- Of every broadcast that takes the mutex here, up to its end. -/
  broadcast : ∀ call as u, (∀ a ∈ as, a ≠ .server .endBroadcast) →
    (sessionSystem fd inbound).exec w
      (.server (.broadcast call) :: (as ++ [.server .endBroadcast])) = some u →
    PassedOn fd call c (w.server.conns c).handler.isRegistered (asks call c tr w)
      ((sessionSystem fd inbound).steps w
        (.server (.broadcast call) :: (as ++ [.server .endBroadcast])))

/-- In every run the registry has an entry for a client exactly while its handler is between
`register` and `unregister`, with its id and the flags of the last `Subscribe` that has taken
effect; and a broadcast that takes the mutex visits every such client once, passes its message to
those whose entry asks for it, and to nobody else. -/
theorem registry_follows_subscriptions {fd : RawFd} {inbound : ClientId → Inbound}
    {tr : SessionTrace} {w : SessionWorld} (h : Trace (sessionSystem fd inbound) tr w)
    (c : ClientId) : FollowsSubscriptions fd inbound c tr w where
  entry := lookup_of_trace h c
  broadcast := by
    intro call as u hend hexec
    have hinv := sessionInv_of_trace h
    rcases Option.bind_eq_some_iff.1 hexec with ⟨t, hstep, hrest⟩
    have hstep' : w.step fd (.server (.broadcast call)) = some t := hstep
    have hsteps : (sessionSystem fd inbound).steps w
        (.server (.broadcast call) :: (as ++ [.server .endBroadcast])) =
        (w, .server (.broadcast call)) ::
          (sessionSystem fd inbound).steps t (as ++ [.server .endBroadcast]) := by
      simp [System.steps, hstep]
    -- the clients to visit are those registered when the mutex is taken
    have htaken : t.server.broadcast = some { call := call, todo := w.server.clients.keys } ∧
        t.server.clients = w.server.clients := by
      cases sessionStep_of_step hstep' with
      | server hother hserver =>
          rcases ServerWorld.whenUnlocked_eq_some hserver with ⟨_, rfl⟩
          exact ⟨rfl, rfl⟩
    have hwanted : t.server.wantedBy call c = asks call c tr w := by
      rw [← wantedBy_of_trace h call c, ServerWorld.wantedBy, ServerWorld.wantedBy, htaken.2]
    have hregistered : decide (c ∈ w.server.clients.keys) =
        (w.server.conns c).handler.isRegistered := by
      rw [Bool.eq_iff_iff, decide_eq_true_iff]
      exact hinv.server.registered c
    have hpassed := passedOn_of_exec c (hinv.step hstep') htaken.1 w.server.clients.keys_nodup
      hend hrest
    rw [hwanted, hregistered] at hpassed
    rw [hsteps]
    exact hpassed.cons_other rfl fun t' hstep'' =>
      queue_of_quiet hinv hstep'' rfl (by simp [performed?])

/-! ### One subscription -/

/-- The dispatch thread announces a frame. -/
def announcement : List SessionAct :=
  [.server (.broadcast (.audioReady 2)), .server (.visit 1), .server .endBroadcast]

theorem registry_follows_subscriptions_subscribe :
    ∃ tr w u, Trace (sessionSystem 7 subscriber) tr w ∧
      w.server.clients.lookup 1 = some { id := 1, streams := StreamFlags.audioIn } ∧
      (sessionSystem 7 subscriber).exec w announcement = some u ∧ u.queued 1 = [.audioReady 2] ∧
      PassedOn 7 (.audioReady 2) 1 true true ((sessionSystem 7 subscriber).steps w announcement) := by
  have hrun := Trace.start.exec
    (show (sessionSystem 7 subscriber).exec (SessionWorld.start subscriber) subscribeRun = some _
      from rfl)
  have hfollows := registry_follows_subscriptions hrun 1
  exact ⟨_, _, _, hrun, hfollows.entry, rfl, rfl,
    hfollows.broadcast (.audioReady 2) [.server (.visit 1)] _ (by simp) rfl⟩

end Cm108Driver
