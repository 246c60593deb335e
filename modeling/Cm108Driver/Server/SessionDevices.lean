import Cm108Driver.Server.Effects

/-!
# SessionDevices — what the sessions do to the devices

A run of the daemon, seen at the TX ring, is a run of the TX pipeline, and seen at the output
register a run of the register.  So what is known about these two holds in every run of the daemon,
and the messages and requests in it are those that the clients' handlers have dispatched: each
`AudioWrite` is pushed once, in its client's order, and the pins show the last request that has
taken effect, whoever sent it.
-/

namespace Cm108Driver

open Lib

/-! ## The TX ring -/

/-- The step at the TX ring. -/
def txLabel (w : SessionWorld) : SessionAct → Option TxAct
  | .lockTx id =>
      match w.work id with
      | .audioWrite frames => some (.lock id frames)
      | _ => none
  | .pushTx => some .push
  | .unlockTx => some .unlock
  | .reapedTx i c => some (.reaped i c)
  | _ => none

def txSimulation (fd : RawFd) (inbound : ClientId → Inbound) :
    Simulation (sessionSystem fd inbound) txSystem where
  proj w := w.tx
  label := txLabel
  init := rfl
  hidden := by
    intro w a t hstep hlabel
    cases sessionStep_of_step hstep with
    | lockTx hwork hfree => simp [txLabel, hwork] at hlabel
    | pushTx hholder => cases hlabel
    | unlockTx hholder => cases hlabel
    | reapedTx hflight => cases hlabel
    | _ => rfl
  shown := by
    intro w a t b hstep hlabel
    cases sessionStep_of_step hstep with
    | lockTx hwork hfree =>
        simp only [txLabel, hwork, Option.some.injEq] at hlabel
        subst hlabel
        simp [txSystem, TxWorld.step, hfree, SessionWorld.setTx]
    | pushTx hholder =>
        cases hlabel
        simp [txSystem, TxWorld.step, hholder, SessionWorld.setTx]
    | unlockTx hholder =>
        cases hlabel
        simp [txSystem, TxWorld.step, hholder, SessionWorld.setTx]
    | reapedTx hflight =>
        cases hlabel
        simp [txSystem, TxWorld.step, hflight, SessionWorld.setTx]
    | _ => cases hlabel

/-- The frames of an `AudioWrite`. -/
def ClientMsg.audio? : ClientMsg → Option (List AudioFrame)
  | .audioWrite frames => some frames
  | _ => none

/-- The message that waits for the mutex. -/
def DeviceWork.waiting : DeviceWork → List (List AudioFrame)
  | .audioWrite frames => [frames]
  | _ => []

/-- The messages of one client, of those whose handlers got the mutex. -/
def messagesOf (c : ClientId) (ms : List (ClientId × List AudioFrame)) : List (List AudioFrame) :=
  (ms.filter fun m => m.1 = c).map Prod.snd

theorem messagesOf_append (c : ClientId) (ms ms' : List (ClientId × List AudioFrame)) :
    messagesOf c (ms ++ ms') = messagesOf c ms ++ messagesOf c ms' := by
  simp [messagesOf]

/-- The message of `c` for which a step gets the mutex. -/
def locked? (c : ClientId) (w : SessionWorld) (a : SessionAct) : List (List AudioFrame) :=
  messagesOf c ((txLabel w a).bind Tx.message?).toList

section Audio

variable {fd : RawFd} {inbound : ClientId → Inbound} {c : ClientId} {tr : SessionTrace}
  {w t : SessionWorld} {a : SessionAct}

theorem messages_txTrace_snoc (c : ClientId) (tr : SessionTrace) (w : SessionWorld)
    (a : SessionAct) :
    messagesOf c (Tx.messages ((txSimulation fd inbound).trace (tr ++ [(w, a)]))) =
      messagesOf c (Tx.messages ((txSimulation fd inbound).trace tr)) ++ locked? c w a := by
  cases hlabel : txLabel w a with
  | none =>
      rw [(txSimulation fd inbound).trace_snoc_hidden tr hlabel]
      simp [locked?, hlabel, messagesOf]
  | some b =>
      rw [(txSimulation fd inbound).trace_snoc_shown tr hlabel, Tx.messages_snoc, messagesOf_append]
      simp [locked?, hlabel]

/-- A message waits, or is dispatched now, until its handler gets the mutex. -/
theorem waiting_step (h : SessionInv w) (hstep : w.step fd a = some t) :
    (w.work c).waiting ++ (Session.dispatched? c w a).toList.filterMap ClientMsg.audio? =
      locked? c w a ++ (t.work c).waiting := by
  cases sessionStep_of_step hstep with
  | dispatch hwork hpc hread =>
      rename_i id nowMs m script
      by_cases hid : id = c
      · subst hid
        cases m <;>
          -- an `AudioWrite` waits for the mutex, the others have nothing to do with it
          simp [Session.dispatched?, hread, hwork, locked?, txLabel, messagesOf, deviceWork,
            DeviceWork.waiting, ClientMsg.audio?]
      · simp [Session.dispatched?, hid, locked?, txLabel, messagesOf, Ne.symm hid]
  | hangUp hwork hpc hnone hends =>
      rename_i id nowMs
      have hnothing : Session.dispatched? c w (.read id nowMs) = none :=
        dispatched_hangUp hnone
      simp [hnothing, locked?, txLabel, messagesOf, SessionWorld.afterRead]
  | setGpio hwork =>
      rename_i id handle pin high
      by_cases hid : c = id
      · subst hid
        simp [Session.dispatched?, locked?, txLabel, messagesOf, hwork, DeviceWork.waiting]
      · simp [Session.dispatched?, locked?, txLabel, messagesOf, hid]
  | lockTx hwork hfree =>
      rename_i id frames
      by_cases hid : c = id
      · subst hid
        simp [Session.dispatched?, locked?, txLabel, Tx.message?, messagesOf, hwork,
          DeviceWork.waiting]
      · simp [Session.dispatched?, locked?, txLabel, Tx.message?, messagesOf, hwork, hid,
          Ne.symm hid]
  | unlockTx hholder =>
      rename_i id
      by_cases hid : c = id
      · subst hid
        have hwork := (h.pushing c).2 ⟨_, hholder⟩
        simp [Session.dispatched?, locked?, txLabel, Tx.message?, messagesOf, hwork,
          DeviceWork.waiting]
      · simp [Session.dispatched?, locked?, txLabel, Tx.message?, messagesOf, hid]
  | pushTx hholder =>
      simp [Session.dispatched?, locked?, txLabel, Tx.message?, messagesOf, SessionWorld.setTx]
  | reapedTx hflight =>
      simp [Session.dispatched?, locked?, txLabel, Tx.message?, messagesOf, SessionWorld.setTx]
  | heartbeat => simp [Session.dispatched?, locked?, txLabel, messagesOf]
  | counters => simp [Session.dispatched?, locked?, txLabel, messagesOf]
  | server hother hserver => simp [Session.dispatched?, locked?, txLabel, messagesOf]

theorem messages_of_trace (h : Trace (sessionSystem fd inbound) tr w) (c : ClientId) :
    messagesOf c (Tx.messages ((txSimulation fd inbound).trace tr)) ++ (w.work c).waiting =
      (Session.dispatched c tr).filterMap ClientMsg.audio? := by
  induction h with
  | start => rfl
  | snoc htr hstep ih =>
      rename_i tr w t a
      have hlast := waiting_step (c := c) (sessionInv_of_trace htr) hstep
      calc
        messagesOf c (Tx.messages ((txSimulation fd inbound).trace (tr ++ [(w, a)]))) ++
              (t.work c).waiting
            = messagesOf c (Tx.messages ((txSimulation fd inbound).trace tr)) ++
                (locked? c w a ++ (t.work c).waiting) := by
            rw [messages_txTrace_snoc, List.append_assoc]
        _ = (Session.dispatched c tr).filterMap ClientMsg.audio? ++
              (Session.dispatched? c w a).toList.filterMap ClientMsg.audio? := by
            rw [← hlast, ← List.append_assoc, ih]
        _ = (Session.dispatched c (tr ++ [(w, a)])).filterMap ClientMsg.audio? := by
            rw [Session.dispatched_snoc, List.filterMap_append]

/-- What the daemon makes of the clients' audio; `ring` is the run as it shows at the TX ring. -/
structure AudioOut (ring : TxTrace) (tr : SessionTrace) (w : SessionWorld) : Prop where
  /-- Every `AudioWrite` gets the mutex once, in the order of its client. -/
  messages : ∀ c, messagesOf c (Tx.messages ring) ++ (w.work c).waiting =
    (Session.dispatched c tr).filterMap ClientMsg.audio?
  offered : Tx.Offered ring w.tx
  /-- The OUT packets are these frames, and silence where there is none. -/
  packets : Tx.submitted ring = (Tx.reaps ring).map Tx.packetFor
  items : Tx.popped ring ++ w.tx.loop.ring.ring.items = Tx.enqueued ring
  /-- What `GetStats` reports as `tx_xruns`. -/
  counter : w.server.txXruns = UInt64.ofNat (Tx.silent ring + Tx.dropped ring)

/-- In every run of the daemon: the audio of all clients goes out message by message, each client's
messages in the order in which they were dispatched and each once, every frame as its OUT packet
unless it found 64 frames in the ring, and the counter that the server reports is the number of
frames dropped and of packets of silence. -/
theorem session_audio (h : Trace (sessionSystem fd inbound) tr w) :
    AudioOut ((txSimulation fd inbound).trace tr) tr w := by
  have hring := (txSimulation fd inbound).run h
  have hinv := Tx.txInv_of_trace hring
  exact
    { messages := messages_of_trace h
      offered := Tx.offered_of_trace hring
      packets := hinv.sent
      items := hinv.items
      counter := (sessionInv_of_trace h).xruns.trans hinv.xruns }

end Audio

/-! ## The output register -/

/-- The step at the output register; a handler's call is that for the message it has decoded. -/
def gpioLabel (w : SessionWorld) : SessionAct → Option GpioAct
  | .setGpio id handle =>
      match w.work id with
      | .setGpio pin high => some (.client id (toVec (ClientMsg.setGpio pin high)) handle)
      | _ => none
  | .heartbeat handle => some (.heartbeat handle)
  | _ => none

theorem fromBytes_setGpio (pin : UInt8) (high : Bool) :
    fromBytes ClientMsg (toVec (ClientMsg.setGpio pin high)) = some (.setGpio pin high) :=
  fromBytes_encode_clientMsg trivial

def gpioSimulation (fd : RawFd) (inbound : ClientId → Inbound) :
    Simulation (sessionSystem fd inbound) gpioSystem where
  proj w := w.gpio
  label := gpioLabel
  init := rfl
  hidden := by
    intro w a t hstep hlabel
    cases sessionStep_of_step hstep with
    | setGpio hwork => simp [gpioLabel, hwork] at hlabel
    | heartbeat => cases hlabel
    | _ => rfl
  shown := by
    intro w a t b hstep hlabel
    cases sessionStep_of_step hstep with
    | setGpio hwork =>
        simp only [gpioLabel, hwork, Option.some.injEq] at hlabel
        subst hlabel
        simp [gpioSystem, GpioWorld.next, fromBytes_setGpio]
    | heartbeat =>
        cases hlabel
        rfl
    | _ => cases hlabel

/-- The level of the pin `p` behind these effects. -/
def pinLevel (p : Nat) (es : List (ClientId × Effect)) : Bool :=
  es.foldl
    (fun level e =>
      match e.2 with
      | .setPin pin high => if pin.toNat = p then high else level
      | _ => level)
    false

section Gpio

variable {fd : RawFd} {inbound : ClientId → Inbound} {tr : SessionTrace} {w t : SessionWorld}
  {a : SessionAct}

/-- What a step means for the level asked for at a pin. -/
def PinStep (p : Nat) (level : Bool) : Option (ClientId × Effect) → Bool
  | some (_, .setPin pin high) => if pin.toNat = p then high else level
  | _ => level

theorem pinLevel_snoc (p : Nat) (tr : SessionTrace) (w : SessionWorld) (a : SessionAct) :
    pinLevel p (performed (tr ++ [(w, a)])) =
      PinStep p (pinLevel p (performed tr)) (performed? w a) := by
  rw [performed_snoc]
  cases h : performed? w a with
  | none => simp [PinStep]
  | some e =>
      rcases e with ⟨id, e⟩
      cases e with
      | setPin pin high => simp [pinLevel, PinStep]
      | _ => simp [pinLevel, PinStep]

/-- The call of `set_pin` that a step makes. -/
def sessionRequest? (w : SessionWorld) (a : SessionAct) : Option PinRequest :=
  (gpioLabel w a).bind w.gpio.request?

/-- A handler's call is an effect, and the heartbeat's is for another pin. -/
theorem pinStep_performed {p : Nat} (hp : p ≠ 3) (level : Bool) (w : SessionWorld)
    (a : SessionAct) :
    PinStep p level (performed? w a) =
      match sessionRequest? w a with
      | some r => if r.pin.toNat = p then r.high else level
      | none => level := by
  cases a with
  | setGpio id handle =>
      cases hwork : w.work id with
      | setGpio pin high =>
          simp [performed?, sessionRequest?, gpioLabel, hwork, GpioWorld.request?,
            fromBytes_setGpio, PinStep]
      | _ => simp [performed?, sessionRequest?, gpioLabel, hwork, PinStep]
  | heartbeat handle =>
      have hbeat : heartbeatPin.toNat ≠ p := Ne.symm hp
      simp [performed?, sessionRequest?, gpioLabel, GpioWorld.request?, hbeat, PinStep]
  | pushTx =>
      simp only [performed?, sessionRequest?, gpioLabel, Option.bind_none]
      split
      · rfl
      · rfl
  | server b =>
      simp only [performed?, sessionRequest?, gpioLabel, Option.bind_none]
      split
      · rename_i hact
        cases hact
      · rename_i hact
        cases hact
      · -- the steps around the registry set no pin
        rename_i id hact
        cases hact
        cases hpc : (w.server.conns id).handler with
        | serving s =>
            cases s with
            | replying m => cases m <;> rfl
            | _ => rfl
        | _ => rfl
      · rfl
  | _ => rfl

theorem lastRequest_gpioTrace {p : Nat} (hp : p ≠ 3)
    (h : Trace (sessionSystem fd inbound) tr w) :
    lastRequest (pinRequests ((gpioSimulation fd inbound).trace tr)) p =
      pinLevel p (performed tr) := by
  induction h with
  | start => rfl
  | snoc htr hstep ih =>
      rename_i tr w t a
      rw [pinLevel_snoc, pinStep_performed hp, ← ih]
      cases hlabel : gpioLabel w a with
      | none =>
          rw [(gpioSimulation fd inbound).trace_snoc_hidden tr hlabel]
          simp [sessionRequest?, hlabel]
      | some b =>
          rw [(gpioSimulation fd inbound).trace_snoc_shown tr hlabel, pinRequests_snoc]
          simp only [sessionRequest?, hlabel, Option.bind_some]
          show lastRequest (_ ++ (w.gpio.request? b).toList) p = _
          cases w.gpio.request? b with
          | none => simp
          | some r => simp

/-- The clients name the pins that the device has. -/
def PinsInRange (tr : SessionTrace) : Prop :=
  ∀ c pin high, .setGpio pin high ∈ Session.dispatched c tr → pin.toNat < 4

/-- A pin is set for a message that was dispatched. -/
theorem dispatched_of_performed {c : ClientId} {pin : UInt8} {high : Bool}
    (h : Trace (sessionSystem fd inbound) tr w) (hmem : (c, .setPin pin high) ∈ performed tr) :
    .setGpio pin high ∈ Session.dispatched c tr := by
  have heffect : Effect.setPin pin high ∈ effects c tr :=
    List.mem_filterMap.2 ⟨_, hmem, by simp [effectFor?]⟩
  have hall : Effect.setPin pin high ∈ (Session.dispatched c tr).flatMap ClientMsg.effects := by
    rw [← effects_append_outstanding h c]
    exact List.mem_append_left _ heffect
  rcases List.mem_flatMap.1 hall with ⟨m, hm, hin⟩
  cases m with
  | setGpio pin' high' =>
      rcases List.mem_singleton.1 hin with heq
      cases heq
      exact hm
  | audioWrite frames => simp [ClientMsg.effects] at hin
  | _ => cases List.mem_singleton.1 hin

/-- So every call of `set_pin` is for one of them. -/
theorem requests_inRange (h : Trace (sessionSystem fd inbound) tr w) (hpins : PinsInRange tr) :
    ∀ q ∈ (gpioSimulation fd inbound).trace tr, ∀ r, q.1.request? q.2 = some r →
      r.pin.toNat < 4 := by
  intro q hq r hr
  rcases List.mem_filterMap.1 hq with ⟨⟨w', a⟩, hmem, hlabel⟩
  rcases Option.map_eq_some_iff.1 hlabel with ⟨b, hb, rfl⟩
  cases a with
  | setGpio id handle =>
      -- only the handlers and the heartbeat call `set_pin`
      change gpioLabel w' (.setGpio id handle) = some b at hb
      cases hwork : w'.work id with
      | setGpio pin high =>
          simp only [gpioLabel, hwork, Option.some.injEq] at hb
          subst hb
          have hreq : r = { pin := pin, high := high } := by
            simpa [gpioSimulation, GpioWorld.request?, fromBytes_setGpio] using hr.symm
          subst hreq
          refine hpins id pin high (dispatched_of_performed h ?_)
          exact List.mem_filterMap.2 ⟨_, hmem, by simp [performed?, hwork]⟩
      | _ => simp [gpioLabel, hwork] at hb
  | heartbeat handle =>
      cases hb
      cases hr
      show heartbeatPin.toNat < 4
      decide
  | _ => cases hb

theorem registerShows_of_trace (h : Trace (sessionSystem fd inbound) tr w) (hpins : PinsInRange tr) :
    RegisterShows w.gpio.gpio (pinRequests ((gpioSimulation fd inbound).trace tr)) :=
  registerShows_of_aliasesHarmless ((gpioSimulation fd inbound).run h)
    (aliasesHarmless_of_inRange (requests_inRange h hpins))

theorem bit_of_trace (h : Trace (sessionSystem fd inbound) tr w) (hpins : PinsInRange tr) {p : Nat}
    (hp : p < 3) : w.gpio.gpio.bit p = pinLevel p (performed tr) :=
  calc
    w.gpio.gpio.bit p = lastRequest (pinRequests ((gpioSimulation fd inbound).trace tr)) p :=
        (registerShows_of_trace h hpins).pins p (Nat.lt_of_lt_of_le hp (by decide))
    _ = pinLevel p (performed tr) := lastRequest_gpioTrace (Nat.ne_of_lt hp) h

/-- In every run in which the clients name the pins `0..3` only: GPIO1 to GPIO3 are at the level of
the last request that has taken effect, whoever sent it and whatever became of the transfers, and
the upper four bits of the register are low. -/
theorem session_gpio (h : Trace (sessionSystem fd inbound) tr w) (hpins : PinsInRange tr) :
    (∀ p, p < 3 → w.gpio.gpio.bit p = pinLevel p (performed tr)) ∧
      ∀ p, 4 ≤ p → p < 8 → w.gpio.gpio.bit p = false := by
  exact ⟨fun p hp => bit_of_trace h hpins hp, (registerShows_of_trace h hpins).upper⟩

theorem pinLevel_quiet {p : Nat} {es : List (ClientId × Effect)}
    (h : ∀ c pin high, (c, .setPin pin high) ∈ es → pin.toNat ≠ p) (es₀ : List (ClientId × Effect)) :
    pinLevel p (es₀ ++ es) = pinLevel p es₀ := by
  rw [pinLevel, List.foldl_append]
  change _ = es₀.foldl _ false
  generalize es₀.foldl _ false = level
  induction es with
  | nil => rfl
  | cons e es ih =>
      rcases e with ⟨c, e⟩
      -- for any level, since the effects before may have set it
      have hrest := ih fun c' pin high hmem => h c' pin high (List.mem_cons_of_mem _ hmem)
      cases e with
      | setPin pin high =>
          have hpin := h c pin high List.mem_cons_self
          simpa [hpin] using hrest
      | _ => exact hrest

/-- A client leaves the pins as they are.  Whatever happens behind the end of its loop, `unregister`
and what is still queued for it included: as long as no other client asks for the pin, its level
stays what it was. -/
theorem pins_outlive_client {c : ClientId} {as : List SessionAct}
    (h : Trace (sessionSystem fd inbound) tr w) (hover : Session.phaseOf c w = .over)
    (hexec : (sessionSystem fd inbound).exec w as = some t)
    (hpins : PinsInRange (tr ++ (sessionSystem fd inbound).steps w as)) {p : Nat} (hp : p < 3)
    (hothers : ∀ id pin high,
      (id, .setPin pin high) ∈ performed ((sessionSystem fd inbound).steps w as) →
        id = c ∨ pin.toNat ≠ p) :
    t.gpio.gpio.bit p = w.gpio.gpio.bit p := by
  have hnothing := effects_of_over (sessionInv_of_trace h) hover hexec
  have hquiet : ∀ id pin high,
      (id, .setPin pin high) ∈ performed ((sessionSystem fd inbound).steps w as) →
        pin.toNat ≠ p := by
    intro id pin high hmem
    rcases hothers id pin high hmem with rfl | hne
    · -- it has no effects any more
      have heffect : Effect.setPin pin high ∈
          effects id ((sessionSystem fd inbound).steps w as) :=
        List.mem_filterMap.2 ⟨_, hmem, by simp [effectFor?]⟩
      rw [hnothing] at heffect
      cases heffect
    · exact hne
  have hbefore : PinsInRange tr := fun id pin high hmem =>
    hpins id pin high (by
      rw [Session.dispatched, List.filterMap_append]
      exact List.mem_append_left _ hmem)
  calc
    t.gpio.gpio.bit p = pinLevel p (performed (tr ++ (sessionSystem fd inbound).steps w as)) :=
        bit_of_trace (h.exec hexec) hpins hp
    _ = pinLevel p (performed tr) := by
        rw [performed, List.filterMap_append]
        exact pinLevel_quiet hquiet (performed tr)
    _ = w.gpio.gpio.bit p := (bit_of_trace h hbefore hp).symm

end Gpio

/-! ### PTT outlives its client -/

/-- Every client asserts PTT and closes. -/
def keyer : ClientId → Inbound := fun _ =>
  { script := [.data (writeClientMsg (.setGpio 0 true))]
    closed := true }

/-- Client 1 asserts PTT, is gone, and the heartbeat goes on. -/
def keyRun : List SessionAct :=
  [.server .connect, .server (.handler 1 .proceed), .server (.handler 1 (.sendFd true)),
    .server (.handler 1 (.spawnWriter true)), .read 1 1000, .setGpio 1 (fun _ => .ok 4),
    .read 1 2000, .server (.handler 1 .proceed), .heartbeat fun _ => .ok 4]

/-- A client none of whose reads is in the run. -/
theorem dispatched_eq_nil {c : ClientId} {tr : SessionTrace}
    (h : ∀ a ∈ tr.map Prod.snd, ∀ nowMs, a ≠ .read c nowMs) : Session.dispatched c tr = [] := by
  refine List.filterMap_eq_nil_iff.2 fun q hq => ?_
  have hact := h q.2 (List.mem_map_of_mem hq)
  cases ha : q.2 with
  | read id nowMs =>
      have hid : id ≠ c := by
        rintro rfl
        exact hact nowMs ha
      simp [Session.dispatched?, hid]
  | _ => rfl

theorem session_gpio_keyed :
    ∃ tr w, Trace (sessionSystem 7 keyer) tr w ∧ (w.server.conns 1).handler = .gone ∧
      w.gpio.gpio.bit 0 = true := by
  have hexec : (sessionSystem 7 keyer).exec (SessionWorld.start keyer) keyRun = some _ := rfl
  have hrun := Trace.start.exec hexec
  refine ⟨_, _, hrun, rfl, ?_⟩
  refine ((session_gpio hrun ?_).1 0 (by decide)).trans rfl
  intro c pin high hmem
  by_cases hc : c = 1
  · subst hc
    cases List.mem_singleton.1 hmem
    decide
  · rw [dispatched_eq_nil] at hmem
    · cases hmem
    · intro a ha nowMs hread
      have hlabel : a ∈ keyRun := by
        rw [← System.labels_steps hexec]
        exact ha
      subst hread
      simp [keyRun, hc] at hlabel

/-- Every client sends one frame and closes. -/
def player : ClientId → Inbound := fun _ =>
  { script := [.data (writeClientMsg (.audioWrite [Tx.tone]))]
    closed := true }

/-- Client 1 sends its frame, and the TX loop reaps two URBs. -/
def playRun : List SessionAct :=
  [.server .connect, .server (.handler 1 .proceed), .server (.handler 1 (.sendFd true)),
    .server (.handler 1 (.spawnWriter true)), .read 1 1000, .lockTx 1, .pushTx, .unlockTx,
    .reapedTx 0 (ReapLoop.quiet _), .reapedTx 1 (ReapLoop.quiet _)]

set_option maxRecDepth 4000 in
theorem session_audio_play :
    ∃ tr w, Trace (sessionSystem 7 player) tr w ∧ w.server.txXruns = 1 ∧
      Tx.reaps ((txSimulation 7 player).trace tr) = [some Tx.tone, none] ∧
      AudioOut ((txSimulation 7 player).trace tr) tr w := by
  have hrun := Trace.start.exec
    (show (sessionSystem 7 player).exec (SessionWorld.start player) playRun = some _ from rfl)
  exact ⟨_, _, hrun, rfl, rfl, session_audio hrun⟩

end Cm108Driver
