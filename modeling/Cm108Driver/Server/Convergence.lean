import Cm108Driver.Server.Monitor
import Mathlib.Data.List.Induction

/-!
# Convergence — the GPIO state and what a client makes of its events

A client that is subscribed at every event, and whose queue is not full when an event is sent to
it, ends up with the state of the poller.  An event sent to a full queue is dropped, and since
events are edges, nothing repairs the view until the pin changes again.
-/

namespace Cm108Driver

open Lib

/-! ## Conditions on a run -/

/-- The client is registered with `GPIO_EVENTS` whenever the poller broadcasts. -/
def StaysSubscribed (c : ClientId) (w : MonitorWorld) : MonitorAct → Prop
  | .emit => ∀ event, w.server.wantedBy (.radioEvent event) c = true
  | _ => True

/-- The client's queue is not full when a radio event is sent to it. -/
def RoomForEvents (c : ClientId) (w : MonitorWorld) : MonitorAct → Prop
  | .server (.visit id) => id = c → w.server.inRadioEvent = true →
      (w.server.conns c).queue.items.length < queueCapacity
  | _ => True

/-! ## The events that the poller emits -/

section Events

variable {fd : RawFd} {c : ClientId} {tr : MonitorTrace} {w t : MonitorWorld} {a : MonitorAct}

def emitted? (w : MonitorWorld) : MonitorAct → Option RadioEvent
  | .emit => w.poller.event?
  | _ => none

def emitted (tr : MonitorTrace) : List RadioEvent :=
  tr.filterMap fun p => emitted? p.1 p.2

theorem emitted_snoc (tr : MonitorTrace) (w : MonitorWorld) (a : MonitorAct) :
    emitted (tr ++ [(w, a)]) = emitted tr ++ (emitted? w a).toList :=
  filterMap_snoc _ tr (w, a)

/-- The events so far, with those to go, make the state that the poller is busy with. -/
structure PollerInv (events : List RadioEvent) (w : MonitorWorld) : Prop where
  polling : w.poller.pc = .polling →
    events.foldl GpioView.apply GpioView.initial = GpioView.ofState w.poller.prev ∧
      w.server.inRadioEvent = false
  emitting : ∀ state rest, w.poller.pc = .emitting state rest →
    (events ++ rest).foldl GpioView.apply GpioView.initial = GpioView.ofState state

/-- Only the poller starts the broadcast of a radio event. -/
theorem inRadioEvent_step {s s' : ServerWorld} {b : ServerAct} (hstep : s.step fd b = some s')
    (hother : b.startsRadioEvent = false) (hnone : s.inRadioEvent = false) :
    s'.inRadioEvent = false := by
  cases serverMove_of_step hstep with
  | connect => exact hnone
  | broadcast call hlock =>
      simpa [ServerWorld.inRadioEvent, ServerAct.startsRadioEvent] using hother
  | visit hb hid => simpa [ServerWorld.inRadioEvent, hb] using hnone
  | endBroadcast hb => rfl
  | handler hmove =>
      rw [ServerWorld.inRadioEvent, hmove.broadcast]
      exact hnone
  | writer hmove => exact hnone
  | counters rxXruns txXruns lastLatency => exact hnone

theorem PollerInv.step (h : PollerInv (emitted tr) w) (hmove : MonitorMove fd w a t) :
    PollerInv (emitted (tr ++ [(w, a)])) t := by
  rw [emitted_snoc]
  cases hmove with
  | poll r hpc =>
      rcases h.polling hpc with ⟨hview, hnone⟩
      simp only [emitted?, Option.toList_none, List.append_nil]
      cases r with
      | report state =>
          by_cases hsame : state = w.poller.prev
          · simpa [MonitorWorld.poll, hsame] using h
          · -- the events of the change take a client from the old state to the new one
            rw [MonitorWorld.poll, if_pos hsame]
            refine ⟨fun hpolling => (by cases hpolling), ?_⟩
            intro state' rest hemit
            cases hemit
            rw [List.foldl_append, hview, GpioView.foldl_emitGpioEvents]
      | timeout => exact h
      | error => exact h
  | emit hpc hserver =>
      refine ⟨fun hpolling => (by cases hpolling), ?_⟩
      intro state' rest hemit
      cases hemit
      simpa [emitted?, Poller.event?, hpc] using h.emitting _ _ hpc
  | settle hpc hdone =>
      simp only [emitted?, Option.toList_none, List.append_nil]
      refine ⟨fun _ => ⟨by simpa using h.emitting _ _ hpc, hdone⟩, ?_⟩
      intro state' rest hemit
      cases hemit
  | server hother hserver =>
      simp only [emitted?, Option.toList_none, List.append_nil]
      refine ⟨fun hpolling => ?_, h.emitting⟩
      rcases h.polling hpolling with ⟨hview, hnone⟩
      exact ⟨hview, inRadioEvent_step hserver hother hnone⟩

theorem pollerInv_of_trace (h : Trace (monitorSystem fd) tr w) : PollerInv (emitted tr) w := by
  induction h with
  | start =>
      refine ⟨fun _ => ⟨GpioView.ofState_zero.symm, rfl⟩, ?_⟩
      intro state rest hemit
      cases hemit
  | snoc htr hstep ih => exact ih.step (monitorMove_of_step hstep)

/-! ## The events that are sent to a client -/

theorem radioEvent?_of_isReply {m : ServerMsg} (h : m.isReply) : m.radioEvent? = none := by
  cases m with
  | radioEvent event => cases h
  | _ => rfl

/-- The other threads address no event to anybody. -/
theorem addressed_other {s : ServerWorld} (hinv : ServerInv s) {b : ServerAct}
    (hother : b.startsRadioEvent = false) :
    (addressed? c s b).toList.filterMap ServerMsg.radioEvent? = [] := by
  cases haddr : addressed? c s b with
  | none => rfl
  | some m =>
      have hm : m.radioEvent? = none := by
        rcases addressed_cases hinv haddr with ⟨call, rfl, rfl⟩ | hreply
        · cases call with
          | radioEvent event => cases hother
          | _ => rfl
        · exact radioEvent?_of_isReply hreply
      simp [hm]

/-- A client that stays subscribed is addressed every event. -/
theorem events_addressed (h : Trace (monitorSystem fd) tr w)
    (hsub : Guarded (StaysSubscribed c) tr) :
    (addressedTo c (serverTrace fd tr)).filterMap ServerMsg.radioEvent? = emitted tr := by
  induction h with
  | start => rfl
  | snoc htr hstep ih =>
      rename_i tr w t a
      rcases (guarded_snoc _ _ _ _).1 hsub with ⟨hprev, hlast⟩
      have hinv := serverInv_of_trace (serverTrace_run htr)
      rw [emitted_snoc, ← ih hprev]
      cases monitorMove_of_step hstep with
      | poll r hpc =>
          rw [serverTrace_hidden fd tr rfl]
          simp [emitted?]
      | emit hpc hserver =>
          rename_i state event events server
          have hlabel : serverAct? w .emit = some (.broadcast (.radioEvent event)) := by
            simp [serverAct?, Poller.event?, hpc]
          have haddr : addressed? c w.server (.broadcast (.radioEvent event)) =
              some (.radioEvent event) := by
            simp [addressed?, hlast event, BroadcastCall.message]
          -- the broadcast addresses every subscriber, hence `c`
          rw [serverTrace_shown fd tr hlabel, addressedTo_snoc]
          simp [haddr, emitted?, Poller.event?, hpc, ServerMsg.radioEvent?]
      | settle hpc hdone =>
          rw [serverTrace_hidden fd tr rfl]
          simp [emitted?]
      | server hother hserver =>
          rename_i b server
          rw [serverTrace_shown fd tr (b := b) rfl, addressedTo_snoc, List.filterMap_append,
            addressed_other hinv hother]
          simp [emitted?]

/-- A step that sends an event to the client is its visit by the poller's broadcast. -/
theorem visit_of_sent {s : ServerWorld} (hinv : ServerInv s) {b : ServerAct} {m : ServerMsg}
    (hsent : sent? c s b = some m) (hm : m.radioEvent? ≠ none) :
    b = .visit c ∧ s.inRadioEvent = true := by
  unfold sent? at hsent
  split at hsent
  · split at hsent
    · rename_i id bc hbc
      split at hsent
      · rename_i hvisit
        rcases hvisit with ⟨rfl, _⟩
        refine ⟨rfl, ?_⟩
        cases hsent
        cases hcall : bc.call with
        | radioEvent event => simp [ServerWorld.inRadioEvent, hbc, hcall, BroadcastCall.isRadioEvent]
        | audioReady seq => simp [hcall, BroadcastCall.message, ServerMsg.radioEvent?] at hm
        | stats rx tx lat => simp [hcall, BroadcastCall.message, ServerMsg.radioEvent?] at hm
      · cases hsent
    · cases hsent
  · split at hsent
    · have hreply := hinv.replies c _ (Connection.reply?_eq_some.1 hsent)
      exact absurd (radioEvent?_of_isReply hreply) hm
    · cases hsent
  · cases hsent

/-- A client with room for them accepts every event that is sent to it. -/
theorem events_accepted (h : Trace (monitorSystem fd) tr w)
    (hroom : Guarded (RoomForEvents c) tr) :
    (accepted c (serverTrace fd tr)).filterMap ServerMsg.radioEvent? =
      ((sends c (serverTrace fd tr)).map Send.message).filterMap ServerMsg.radioEvent? := by
  induction h with
  | start => rfl
  | snoc htr hstep ih =>
      rename_i tr w t a
      rcases (guarded_snoc _ _ _ _).1 hroom with ⟨hprev, hlast⟩
      have hinv := serverInv_of_trace (serverTrace_run htr)
      cases hlabel : serverAct? w a with
      | none =>
          rw [serverTrace_hidden fd tr hlabel]
          exact ih hprev
      | some b =>
          rw [serverTrace_shown fd tr hlabel, messages_snoc, List.filterMap_append, ← ih hprev]
          cases hsent : sent? c w.server b with
          | none => simp [accepted_snoc_none hsent]
          | some m =>
              rw [accepted_snoc_some hsent, List.filterMap_append]
              congr 1
              -- only events count, and an event is sent by a visit, for which there is room
              by_cases hm : m.radioEvent? = none
              · split
                · rfl
                · simp [hm]
              · rcases visit_of_sent hinv hsent hm with ⟨rfl, hevent⟩
                have ha : a = .server (.visit c) := by
                  cases a with
                  | server b' =>
                      cases hlabel
                      rfl
                  | emit =>
                      simp [serverAct?] at hlabel
                  | poll r => cases hlabel
                  | settle => cases hlabel
                subst ha
                rw [if_pos (hlast rfl hevent)]
                rfl

/-- Outside the poller's broadcasts no event is pending. -/
theorem pending_other {s : ServerWorld} (hnone : s.inRadioEvent = false) :
    (pending c s).filterMap ServerMsg.radioEvent? = [] := by
  unfold pending
  split
  · rename_i b hb
    have hm : b.call.message.radioEvent? = none := by
      cases hcall : b.call with
      | radioEvent event =>
          simp [ServerWorld.inRadioEvent, hb, hcall, BroadcastCall.isRadioEvent] at hnone
      | _ => rfl
    split
    · simp [hm]
    · rfl
  · rfl

end Events

/-! ## The client's view -/

/-- The stream of a client whose writer thread is between two messages. -/
theorem received_of_idle {fd : RawFd} {tr : MonitorTrace} {w : MonitorWorld} {c : ClientId}
    (h : Trace (monitorSystem fd) tr w) (hidle : (w.server.conns c).writer = .idle) :
    (w.server.conns c).sock = handshake fd :: plain ((received fd c tr).flatMap writeMsg) ∧
      received fd c tr ++ (w.server.conns c).queue.items = accepted c (serverTrace fd tr) := by
  have hstream := streamAt_of_trace (serverTrace_run h) c
  rcases hstream.running [] (by rw [hidle]; rfl) with ⟨_, hsock, hqueue⟩
  exact ⟨by simpa [plain, received] using hsock, hqueue⟩

/-- A client that stays subscribed, and whose queue is not full when an event is sent to it, has
the poller's state whenever it has received what was queued for it and the poller is between two
changes. -/
theorem gpioView_converges {fd : RawFd} {tr : MonitorTrace} {w : MonitorWorld} {c : ClientId}
    (h : Trace (monitorSystem fd) tr w) (hsub : Guarded (StaysSubscribed c) tr)
    (hroom : Guarded (RoomForEvents c) tr) (hpolling : w.poller.pc = .polling)
    (hidle : (w.server.conns c).writer = .idle) (hdrained : (w.server.conns c).queue.items = []) :
    (w.server.conns c).sock = handshake fd :: plain ((received fd c tr).flatMap writeMsg) ∧
      gpioViewOf (received fd c tr) = GpioView.ofState w.poller.prev := by
  rcases received_of_idle h hidle with ⟨hsock, hreceived⟩
  rw [hdrained, List.append_nil] at hreceived
  rcases (pollerInv_of_trace h).polling hpolling with ⟨hview, hnone⟩
  refine ⟨hsock, ?_⟩
  have hevents : (received fd c tr).filterMap ServerMsg.radioEvent? = emitted tr := by
    calc (received fd c tr).filterMap ServerMsg.radioEvent?
        = ((sends c (serverTrace fd tr)).map Send.message).filterMap ServerMsg.radioEvent? := by
          rw [hreceived, events_accepted h hroom]
      _ = (addressedTo c (serverTrace fd tr)).filterMap ServerMsg.radioEvent? := by
          rw [nothingMissed_of_trace (serverTrace_run h) c, List.filterMap_append,
            pending_other hnone, List.append_nil]
      _ = emitted tr := events_addressed h hsub
  rw [gpioViewOf, hevents, hview]

/-! ### One change, seen by a client that keeps up -/

/-- A client connects and subscribes to GPIO events and audio notifications. -/
def subscribe : List MonitorAct :=
  [.server .connect, .server (.handler 1 .proceed), .server (.handler 1 (.sendFd true)),
    .server (.handler 1 (.spawnWriter true)), .server (.handler 1 (.request (.subscribe ⟨5⟩))),
    .server (.handler 1 .proceed)]

theorem gpioView_converges_ptt :
    ∃ tr w, Trace (monitorSystem 7) tr w ∧ w.poller.prev = ⟨1⟩ ∧
      gpioViewOf (received 7 1 tr) = GpioView.ofState ⟨1⟩ := by
  have hsubscribed := Trace.start.exec
    (show (monitorSystem 7).exec MonitorWorld.start subscribe = some _ from rfl)
  have hpoll := hsubscribed.snoc (a := .poll (.report ⟨1⟩)) (t := _) rfl
  have hptt := hpoll.snoc (a := .emit) (t := _) rfl
  have hpttSent := hptt.snoc (a := .server (.visit 1)) (t := _) rfl
  have hpttEnd := hpttSent.snoc (a := .server .endBroadcast) (t := _) rfl
  have hchange := hpttEnd.snoc (a := .emit) (t := _) rfl
  have hchangeSent := hchange.snoc (a := .server (.visit 1)) (t := _) rfl
  have hchangeEnd := hchangeSent.snoc (a := .server .endBroadcast) (t := _) rfl
  have hsettle := hchangeEnd.snoc (a := .settle) (t := _) rfl
  have htake := hsettle.snoc (a := .server (.writer 1 .dequeue)) (t := _) rfl
  have hwrite := htake.snoc (a := .server (.writer 1 (.write 9))) (t := _) rfl
  have htakeLast := hwrite.snoc (a := .server (.writer 1 .dequeue)) (t := _) rfl
  have hrun := htakeLast.snoc (a := .server (.writer 1 (.write 9))) (t := _) rfl
  refine ⟨_, _, hrun, rfl, (gpioView_converges (c := 1) hrun ?_ ?_ rfl rfl rfl).2⟩
  · have hsetup : ∀ a ∈ subscribe, ∀ w, StaysSubscribed 1 w a := by
      simp [subscribe, StaysSubscribed]
    simp only [guarded_snoc, List.nil_append, and_assoc]
    exact ⟨System.guarded_steps hsetup _, trivial, fun _ => rfl, trivial, trivial, fun _ => rfl,
      trivial, trivial, trivial, trivial, trivial, trivial, trivial⟩
  · have hsetup : ∀ a ∈ subscribe, ∀ w, RoomForEvents 1 w a := by
      simp [subscribe, RoomForEvents]
    simp only [guarded_snoc, List.nil_append, and_assoc]
    exact ⟨System.guarded_steps hsetup _, trivial, trivial, fun _ _ => by decide, trivial, trivial,
      fun _ _ => by decide, trivial, trivial, trivial, trivial, trivial, trivial⟩

/-! ## An event lost for good -/

section Overflow

variable {fd : RawFd} {c : ClientId}

/-- The writer thread takes a message and writes it. -/
def takeAndWrite (c : ClientId) (n : Nat) : List ServerAct :=
  [.writer c .dequeue, .writer c (.write n)]

/-- The writer thread empties the queue. -/
theorem Alone.exec_drain (fd : RawFd) {m : ServerMsg} {k : Nat} (hk : (writeMsg m).length ≤ k)
    (n : Nat) {w : ServerWorld} (h : Alone c (List.replicate n m) w) :
    ∃ t, (serverSystem fd).exec w (List.replicate n (takeAndWrite c k)).flatten = some t ∧
      Alone c [] t := by
  induction n generalizing w with
  | zero => exact ⟨w, rfl, h⟩
  | succ n ih =>
      rcases Fifo.pop_of_items h.queued with ⟨queue, hpop, hqueue⟩
      have htake : (serverSystem fd).step w (.writer c .dequeue) =
          some (w.setConn c
            { w.conns c with
              queue := queue
              writer := .sending (writeMsg m) }) := by
        simp [serverSystem, ServerWorld.step, Connection.writerStep, h.idle, hpop]
      have hwrite : (serverSystem fd).step
          (w.setConn c { w.conns c with queue := queue, writer := .sending (writeMsg m) })
          (.writer c (.write k)) =
          some (w.setConn c
            { w.conns c with
              queue := queue
              sock := (w.conns c).sock ++ plain (writeMsg m)
              writer := .idle }) := by
        simp [serverSystem, ServerWorld.step, Connection.writerStep, ServerWorld.setConn,
          Nat.not_lt.2 hk]
      have hnext : Alone c (List.replicate n m) (w.setConn c
          { w.conns c with
            queue := queue
            sock := (w.conns c).sock ++ plain (writeMsg m)
            writer := .idle }) :=
        { unlocked := h.unlocked
          keys := h.keys
          wanted := h.wanted
          receiving := by simpa using h.receiving
          idle := by simp
          queued := by simpa using hqueue }
      rcases ih hnext with ⟨t, hexec, halone⟩
      refine ⟨t, ?_, halone⟩
      rw [List.replicate_succ, List.flatten_cons, takeAndWrite, List.cons_append, List.cons_append,
        List.nil_append, System.exec_cons htake, System.exec_cons hwrite]
      exact hexec

/-! ### The same steps next to the poller -/

theorem exec_server (as : List ServerAct) {w : MonitorWorld} {s : ServerWorld}
    (h : (serverSystem fd).exec w.server as = some s)
    (hother : ∀ a ∈ as, a.startsRadioEvent = false) :
    (monitorSystem fd).exec w (as.map .server) = some { w with server := s } := by
  induction as generalizing w with
  | nil =>
      cases h
      rfl
  | cons a as ih =>
      rcases Option.bind_eq_some_iff.1 h with ⟨s₁, hstep, hrest⟩
      have hfirst : (monitorSystem fd).step w (.server a) = some { w with server := s₁ } := by
        have hserver : w.server.step fd a = some s₁ := hstep
        simp [monitorSystem, MonitorWorld.step, hother a (List.mem_cons_self ..), hserver]
      rw [List.map_cons, System.exec_cons hfirst]
      exact ih hrest fun b hb => hother b (List.mem_cons_of_mem _ hb)

/-- The poller broadcasts its next event to the end. -/
def emitTo (c : ClientId) : List MonitorAct :=
  [.emit, .server (.visit c), .server .endBroadcast]

theorem exec_emit {w : MonitorWorld} {s : ServerWorld} {state : GpioState} {event : RadioEvent}
    {events : List RadioEvent} (hpc : w.poller.pc = .emitting state (event :: events))
    (h : (serverSystem fd).exec w.server (broadcastTo c (.radioEvent event)) = some s) :
    (monitorSystem fd).exec w (emitTo c) =
      some
        { server := s
          poller := { w.poller with pc := .emitting state events } } := by
  rcases Option.bind_eq_some_iff.1 h with ⟨s₁, hstep, hrest⟩
  have hserver : w.server.step fd (.broadcast (.radioEvent event)) = some s₁ := hstep
  have hfirst : (monitorSystem fd).step w .emit =
      some
        { server := s₁
          poller := { w.poller with pc := .emitting state events } } := by
    simp [monitorSystem, MonitorWorld.step, hpc, hserver]
  rw [emitTo, System.exec_cons hfirst]
  exact exec_server [.visit c, .endBroadcast] hrest (by simp [ServerAct.startsRadioEvent])

/-! ### What the writer thread has to do with it -/

def WriterMoves (_ : MonitorWorld) (a : MonitorAct) : Prop :=
  ∃ id b, a = .server (.writer id b)

def WritersWait (_ : MonitorWorld) (a : MonitorAct) : Prop :=
  ∀ id b, a ≠ .server (.writer id b)

/-- Steps of writer threads accept nothing. -/
theorem accepted_append_writers {tr str : MonitorTrace}
    (h : Guarded WriterMoves str) :
    accepted c (serverTrace fd (tr ++ str)) = accepted c (serverTrace fd tr) := by
  induction str using List.reverseRecOn with
  | nil => rw [List.append_nil]
  | append_singleton str p ih =>
      rcases p with ⟨w, a⟩
      rcases (guarded_snoc _ _ _ _).1 h with ⟨hprev, id, b, rfl⟩
      rw [← List.append_assoc, serverTrace_shown fd _ rfl, accepted_snoc_none rfl]
      exact ih hprev

/-- As long as no writer thread moves, nothing is received. -/
theorem received_eq_nil {tr : MonitorTrace}
    (h : Guarded WritersWait tr) : received fd c tr = [] := by
  induction tr using List.reverseRecOn with
  | nil => rfl
  | append_singleton tr p ih =>
      rcases p with ⟨w, a⟩
      rcases (guarded_snoc _ _ _ _).1 h with ⟨hprev, hlast⟩
      cases hlabel : serverAct? w a with
      | none =>
          rw [received, serverTrace_hidden fd tr hlabel]
          exact ih hprev
      | some b =>
          have hnone : dequeued? c w.server b = none := by
            cases b with
            | writer id b =>
                cases a with
                | server b' =>
                    cases hlabel
                    exact absurd rfl (hlast id b)
                | emit => simp [serverAct?] at hlabel
                | poll r => cases hlabel
                | settle => cases hlabel
            | _ => rfl
          rw [received, serverTrace_shown fd tr hlabel, dequeued_snoc, hnone]
          simpa [received] using ih hprev

/-! ### The run -/

/-- A run to a point where client 1 has 128 messages queued and its writer thread has done nothing
yet. -/
structure Stalled (fd : RawFd) (poller : Poller) (tr : MonitorTrace) (w : MonitorWorld) : Prop where
  run : Trace (monitorSystem fd) tr w
  subscribed : Guarded (StaysSubscribed 1) tr
  waiting : Guarded WritersWait tr
  alone : Alone 1 fullQueue w.server
  poller_eq : w.poller = poller

/-- The client subscribes, and 128 notifications go to its queue. -/
theorem exists_stalled (fd : RawFd) :
    ∃ tr w, Stalled fd { prev := ⟨0⟩, pc := .polling } tr w := by
  have hsubscribe : ∃ w, (monitorSystem fd).exec MonitorWorld.start subscribe = some w ∧
      Alone 1 [] w.server ∧ w.poller = { prev := ⟨0⟩, pc := .polling } := by
    refine ⟨_, rfl, ⟨rfl, rfl, ?_, rfl, rfl, rfl⟩, rfl⟩
    intro call
    cases call <;> rfl
  rcases hsubscribe with ⟨w, hexec, halone, hpoller⟩
  rcases halone.exec_fill fd (.audioReady 2) queueCapacity (Nat.le_of_eq (Nat.zero_add _)) with
    ⟨s, hfill, hfull⟩
  have hacts : ∀ a ∈ (List.replicate queueCapacity (broadcastTo 1 (.audioReady 2))).flatten,
      a ∈ broadcastTo 1 (.audioReady 2) := by
    intro a ha
    rcases List.mem_flatten.1 ha with ⟨as, has, ha⟩
    rwa [List.eq_of_mem_replicate has] at ha
  -- the notifications come from the dispatch thread: the poller has no part in them
  have hmonitor := exec_server _ hfill fun a ha => by
    have hmem := hacts a ha
    simp only [broadcastTo, List.mem_cons, List.not_mem_nil, or_false] at hmem
    rcases hmem with rfl | rfl | rfl <;> rfl
  refine ⟨_, _, (Trace.start.exec hexec).exec hmonitor, (guarded_append _ _ _).2 ⟨?_, ?_⟩,
    (guarded_append _ _ _).2 ⟨?_, ?_⟩, hfull, hpoller⟩
  · exact System.guarded_steps (by simp [subscribe, StaysSubscribed]) _
  · refine System.guarded_steps (fun a ha v => ?_) w
    rcases List.mem_map.1 ha with ⟨b, _, rfl⟩
    trivial
  · exact System.guarded_steps (by simp [subscribe, WritersWait]) _
  · refine System.guarded_steps (fun a ha v => ?_) w
    rcases List.mem_map.1 ha with ⟨b, hb, rfl⟩
    have hmem := hacts b hb
    simp only [broadcastTo, List.mem_cons, List.not_mem_nil, or_false] at hmem
    rcases hmem with rfl | rfl | rfl <;> simp [WritersWait]

/-- An event broadcast to the full queue is dropped. -/
theorem Stalled.emit {prev state : GpioState} {event : RadioEvent} {events : List RadioEvent}
    {tr : MonitorTrace} {w : MonitorWorld}
    (h : Stalled fd { prev := prev, pc := .emitting state (event :: events) } tr w) :
    ∃ tr' w', Stalled fd { prev := prev, pc := .emitting state events } tr' w' := by
  have hpc : w.poller.pc = .emitting state (event :: events) := by rw [h.poller_eq]
  have hexec := exec_emit hpc (h.alone.exec_broadcast fd (.radioEvent event))
  have hfull : ¬ fullQueue.length < queueCapacity := by simp [fullQueue]
  have halone := h.alone.trySend (BroadcastCall.radioEvent event).message
  rw [if_neg hfull] at halone
  refine ⟨_, _, h.run.exec hexec, (guarded_append _ _ _).2 ⟨h.subscribed, ?_⟩,
    (guarded_append _ _ _).2 ⟨h.waiting, ?_⟩, halone, by rw [h.poller_eq]⟩
  · refine System.guarded_steps_cons (fun event => h.alone.wanted _) fun t => ?_
    exact System.guarded_steps (by simp [StaysSubscribed]) t
  · exact System.guarded_steps (by simp [emitTo, WritersWait]) w

/-- The poller reads a new state. -/
theorem Stalled.poll {prev : GpioState} {tr : MonitorTrace} {w : MonitorWorld}
    (h : Stalled fd { prev := prev, pc := .polling } tr w) (state : GpioState)
    (hne : state ≠ prev) :
    ∃ tr' w', Stalled fd
      { prev := prev, pc := .emitting state (emitGpioEvents state prev) } tr' w' := by
  have hstep : (monitorSystem fd).step w (.poll (.report state)) =
      some
        { w with
          poller := { prev := prev, pc := .emitting state (emitGpioEvents state prev) } } := by
    simp [monitorSystem, MonitorWorld.step, MonitorWorld.poll, h.poller_eq, hne]
  exact ⟨_, _, h.run.snoc hstep, (guarded_snoc _ _ _ _).2 ⟨h.subscribed, trivial⟩,
    (guarded_snoc _ _ _ _).2 ⟨h.waiting, by simp [WritersWait]⟩, h.alone, rfl⟩

/-- The poller takes the state over. -/
theorem Stalled.settle {prev state : GpioState} {tr : MonitorTrace} {w : MonitorWorld}
    (h : Stalled fd { prev := prev, pc := .emitting state [] } tr w) :
    ∃ tr' w', Stalled fd { prev := state, pc := .polling } tr' w' := by
  have hstep : (monitorSystem fd).step w .settle =
      some { w with poller := { prev := state, pc := .polling } } := by
    simp [monitorSystem, MonitorWorld.step, h.poller_eq, ServerWorld.inRadioEvent,
      h.alone.unlocked]
  exact ⟨_, _, h.run.snoc hstep, (guarded_snoc _ _ _ _).2 ⟨h.subscribed, trivial⟩,
    (guarded_snoc _ _ _ _).2 ⟨h.waiting, by simp [WritersWait]⟩, h.alone, rfl⟩

/-- In the end the writer thread sends what is queued. -/
theorem Stalled.drain {poller : Poller} {tr : MonitorTrace} {w : MonitorWorld}
    (h : Stalled fd poller tr w) :
    ∃ tr' w', Trace (monitorSystem fd) tr' w' ∧ Guarded (StaysSubscribed 1) tr' ∧
      Alone 1 [] w'.server ∧ w'.poller = poller ∧ received fd 1 tr' = fullQueue := by
  rcases h.alone.exec_drain fd (k := 13) (by decide) queueCapacity with ⟨s, hdrain, halone⟩
  have hacts : ∀ a ∈ (List.replicate queueCapacity (takeAndWrite 1 13)).flatten,
      ∃ b, a = .writer 1 b := by
    intro a ha
    rcases List.mem_flatten.1 ha with ⟨as, has, ha⟩
    rw [List.eq_of_mem_replicate has] at ha
    simp only [takeAndWrite, List.mem_cons, List.not_mem_nil, or_false] at ha
    rcases ha with rfl | rfl
    · exact ⟨_, rfl⟩
    · exact ⟨_, rfl⟩
  have hmonitor := exec_server _ hdrain fun a ha => by
    rcases hacts a ha with ⟨b, rfl⟩
    rfl
  have hrun := h.run.exec hmonitor
  have hwriters : Guarded WriterMoves ((monitorSystem fd).steps w
      ((List.replicate queueCapacity (takeAndWrite 1 13)).flatten.map .server)) := by
    refine System.guarded_steps (fun a ha v => ?_) w
    rcases List.mem_map.1 ha with ⟨b, hb, rfl⟩
    rcases hacts b hb with ⟨b', rfl⟩
    exact ⟨1, b', rfl⟩
  refine ⟨_, _, hrun, (guarded_append _ _ _).2 ⟨h.subscribed, ?_⟩, halone, h.poller_eq, ?_⟩
  · refine System.guarded_steps (fun a ha v => ?_) w
    rcases List.mem_map.1 ha with ⟨b, _, rfl⟩
    trivial
  -- Before the writer thread starts, what is queued is all that was accepted, and its steps accept
  -- nothing.
  · have hbefore := (received_of_idle h.run h.alone.idle).2
    have hafter := (received_of_idle hrun halone.idle).2
    rw [received_eq_nil h.waiting, h.alone.queued, List.nil_append] at hbefore
    rw [accepted_append_writers hwriters, ← hbefore, halone.queued, List.append_nil] at hafter
    exact hafter

/-- The client stays subscribed and in the end has received everything that was queued for it, but
its queue was full of `AudioReady` messages when PTT was asserted, and it knows nothing of that. -/
theorem gpioView_diverges :
    ∃ tr w, Trace (monitorSystem 7) tr w ∧ Guarded (StaysSubscribed 1) tr ∧
      w.poller.pc = .polling ∧ w.server.broadcast = none ∧ (w.server.conns 1).writer = .idle ∧
      (w.server.conns 1).queue.items = [] ∧ w.poller.prev = ⟨1⟩ ∧
      gpioViewOf (received 7 1 tr) ≠ GpioView.ofState w.poller.prev := by
  rcases exists_stalled 7 with ⟨tr₀, w₀, h₀⟩
  rcases h₀.poll ⟨1⟩ (by decide) with ⟨tr₁, w₁, h₁⟩
  rcases h₁.emit with ⟨tr₂, w₂, h₂⟩
  rcases h₂.emit with ⟨tr₃, w₃, h₃⟩
  rcases h₃.settle with ⟨tr₄, w₄, h₄⟩
  rcases h₄.drain with ⟨tr, w, hrun, hsub, halone, hpoller, hreceived⟩
  refine ⟨tr, w, hrun, hsub, by rw [hpoller], halone.unlocked, halone.idle, halone.queued,
    by rw [hpoller], ?_⟩
  rw [hreceived, hpoller]
  decide

end Overflow

end Cm108Driver
