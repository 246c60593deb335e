import Cm108Driver.Server.Latency
import Cm108Driver.Server.Outbound

/-!
# DispatchStats — the dispatch thread and its statistics

For every frame the dispatch thread writes the page, notifies the subscribers, records how long that
took and counts the frame.  Behind every 5000th frame it stores a snapshot of the histogram in
`last_latency`, loads the two counters one after the other, broadcasts all three and resets the
histogram.

It shares the registry, the counters and `last_latency` with the threads of the server, and is the
only one that broadcasts `AudioReady` and `Stats` or stores to `last_latency`.  A step of it is one
access to something shared, with what it does on its own before.  Without these steps, a run is a
run of the server (`statsSimulation`).
-/

namespace Cm108Driver

open Lib

/-! ## The system -/

/-- Where the dispatch thread stands: at `rx_consumer.pop`, behind `AudioShmem::write` with the
number that it returned, in `notify_audio_ready`, behind the store to `last_latency`, behind each
of the two loads, or in `broadcast_stats`. -/
inductive StatsPc
  | polling
  | written (seq : UInt64)
  | notifying
  | stored (snap : LatencyStats)
  | rxLoaded (snap : LatencyStats) (rxXruns : UInt64)
  | txLoaded (snap : LatencyStats) (rxXruns txXruns : UInt64)
  | publishing

structure Dispatcher where
  pc : StatsPc
  histogram : LatencyHistogram
  ticker : UInt64

structure StatsWorld where
  server : ServerWorld
  dispatcher : Dispatcher

inductive StatsAct
  /-- `rx_consumer.pop` finds the ring empty. -/
  | empty
  /-- A frame is popped and written to the page, and the write returns `seq`. -/
  | frame (seq : UInt64)
  /-- Behind `notify_audio_ready`, which took `us` microseconds together with the write. -/
  | record (us : UInt32)
  /-- The next step of the dispatch thread, where there is only one. -/
  | proceed
  /-- Another thread counts an overrun or an underrun. -/
  | rxXrun
  | txXrun
  /-- Any other step of the server. -/
  | server (a : ServerAct)

/-- The broadcasts of the dispatch thread. -/
def BroadcastCall.ofDispatcher : BroadcastCall → Bool
  | .radioEvent _ => false
  | .audioReady _ => true
  | .stats _ _ _ => true

/-- What is left to the other threads. -/
def ServerAct.ofOthers : ServerAct → Bool
  | .broadcast call => !call.ofDispatcher
  | .counters _ _ _ => false
  | _ => true

/-- A broadcast of the dispatch thread is under way. -/
def ServerWorld.inDispatcherCall (w : ServerWorld) : Bool :=
  w.broadcast.any fun b => b.call.ofDispatcher

def Dispatcher.start : Dispatcher :=
  { pc := .polling
    histogram := LatencyHistogram.new
    ticker := 0 }

/-- `histogram.record(us)` and the tick. -/
def Dispatcher.record (d : Dispatcher) (us : UInt32) : Dispatcher :=
  { d with
    histogram := d.histogram.record us
    ticker := d.ticker + 1 }

namespace StatsWorld

def start : StatsWorld :=
  { server := ServerWorld.start
    dispatcher := Dispatcher.start }

def setPc (w : StatsWorld) (pc : StatsPc) : StatsWorld :=
  { w with dispatcher := { w.dispatcher with pc := pc } }

/-- A broadcast of the dispatch thread takes the mutex. -/
def enter (fd : RawFd) (w : StatsWorld) (call : BroadcastCall) (pc : StatsPc) : Option StatsWorld :=
  (w.server.step fd (.broadcast call)).map fun server => { w with server := server }.setPc pc

/-- From `histogram.record` to the store of the snapshot, if one is due. -/
def record (w : StatsWorld) (us : UInt32) : StatsWorld :=
  let d := w.dispatcher.record us
  -- the ticker is not reset with the histogram
  if d.ticker % 5000 = 0 then
    let snap := d.histogram.toStats
    { server := { w.server with lastLatency := snap }
      dispatcher := { d with pc := .stored snap } }
  else
    { w with dispatcher := { d with pc := .polling } }

/-- The next step of the dispatch thread inside the body of its loop. -/
def proceed (fd : RawFd) (w : StatsWorld) : Option StatsWorld :=
  match w.dispatcher.pc with
  | .written seq => w.enter fd (.audioReady seq) .notifying
  | .stored snap => some (w.setPc (.rxLoaded snap w.server.rxXruns))
  | .rxLoaded snap rxXruns => some (w.setPc (.txLoaded snap rxXruns w.server.txXruns))
  | .txLoaded snap rxXruns txXruns => w.enter fd (.stats rxXruns txXruns snap) .publishing
  | .publishing =>
      -- `histogram.reset()`, once `broadcast_stats` has returned
      if w.server.inDispatcherCall then
        none
      else
        some
          { w with
            dispatcher :=
              { w.dispatcher with
                pc := .polling
                histogram := w.dispatcher.histogram.reset } }
  | _ => none

def step (fd : RawFd) (w : StatsWorld) : StatsAct → Option StatsWorld
  | .empty =>
      match w.dispatcher.pc with
      | .polling => some w -- `thread::sleep(Duration::from_millis(1))`
      | _ => none
  | .frame seq =>
      match w.dispatcher.pc with
      | .polling => some (w.setPc (.written seq))
      | _ => none
  | .record us =>
      match w.dispatcher.pc with
      | .notifying =>
          -- `t0.elapsed()` is read behind `notify_audio_ready`
          if w.server.inDispatcherCall then none else some (w.record us)
      | _ => none
  | .proceed => w.proceed fd
  | .rxXrun => some { w with server := { w.server with rxXruns := w.server.rxXruns + 1 } }
  | .txXrun => some { w with server := { w.server with txXruns := w.server.txXruns + 1 } }
  | .server a =>
      if a.ofOthers then
        (w.server.step fd a).map fun server => { w with server := server }
      else
        none

end StatsWorld

def statsSystem (fd : RawFd) : System StatsWorld StatsAct where
  init := StatsWorld.start
  step := StatsWorld.step fd

abbrev StatsTrace := List (StatsWorld × StatsAct)

/-- The window of the sample stays open. -/
theorem StatsWorld.record_open {w : StatsWorld} (us : UInt32)
    (h : (w.dispatcher.ticker + 1) % 5000 ≠ 0) :
    w.record us = { w with dispatcher := { w.dispatcher.record us with pc := .polling } } :=
  if_neg h

/-- The sample is the last one of its window. -/
theorem StatsWorld.record_full {w : StatsWorld} (us : UInt32)
    (h : (w.dispatcher.ticker + 1) % 5000 = 0) :
    w.record us =
      { server := { w.server with lastLatency := (w.dispatcher.record us).histogram.toStats }
        dispatcher :=
          { w.dispatcher.record us with
            pc := .stored (w.dispatcher.record us).histogram.toStats } } :=
  if_pos h

/-! ## What a step can do -/

inductive StatsMove (fd : RawFd) (w : StatsWorld) : StatsAct → StatsWorld → Prop where
  | empty (hpc : w.dispatcher.pc = .polling) : StatsMove fd w .empty w
  | frame (seq : UInt64) (hpc : w.dispatcher.pc = .polling) :
      StatsMove fd w (.frame seq) (w.setPc (.written seq))
  | notify {seq : UInt64} {server : ServerWorld} (hpc : w.dispatcher.pc = .written seq)
      (hstep : w.server.step fd (.broadcast (.audioReady seq)) = some server) :
      StatsMove fd w .proceed ({ w with server := server }.setPc .notifying)
  | recordOpen {us : UInt32} (hpc : w.dispatcher.pc = .notifying)
      (hopen : (w.dispatcher.ticker + 1) % 5000 ≠ 0) :
      StatsMove fd w (.record us)
        { w with dispatcher := { w.dispatcher.record us with pc := .polling } }
  | recordFull {us : UInt32} (hpc : w.dispatcher.pc = .notifying)
      (hfull : (w.dispatcher.ticker + 1) % 5000 = 0) :
      StatsMove fd w (.record us)
        { server := { w.server with lastLatency := (w.dispatcher.record us).histogram.toStats }
          dispatcher :=
            { w.dispatcher.record us with
              pc := .stored (w.dispatcher.record us).histogram.toStats } }
  | loadRx {snap : LatencyStats} (hpc : w.dispatcher.pc = .stored snap) :
      StatsMove fd w .proceed (w.setPc (.rxLoaded snap w.server.rxXruns))
  | loadTx {snap : LatencyStats} {rxXruns : UInt64}
      (hpc : w.dispatcher.pc = .rxLoaded snap rxXruns) :
      StatsMove fd w .proceed (w.setPc (.txLoaded snap rxXruns w.server.txXruns))
  | publish {snap : LatencyStats} {rxXruns txXruns : UInt64} {server : ServerWorld}
      (hpc : w.dispatcher.pc = .txLoaded snap rxXruns txXruns)
      (hstep : w.server.step fd (.broadcast (.stats rxXruns txXruns snap)) = some server) :
      StatsMove fd w .proceed ({ w with server := server }.setPc .publishing)
  | reset (hpc : w.dispatcher.pc = .publishing) :
      StatsMove fd w .proceed
        { w with
          dispatcher :=
            { w.dispatcher with
              pc := .polling
              histogram := w.dispatcher.histogram.reset } }
  | rxXrun :
      StatsMove fd w .rxXrun { w with server := { w.server with rxXruns := w.server.rxXruns + 1 } }
  | txXrun :
      StatsMove fd w .txXrun { w with server := { w.server with txXruns := w.server.txXruns + 1 } }
  | server {a : ServerAct} {server : ServerWorld} (hothers : a.ofOthers)
      (hstep : w.server.step fd a = some server) :
      StatsMove fd w (.server a) { w with server := server }

theorem statsMove_of_step {fd : RawFd} {w t : StatsWorld} {a : StatsAct}
    (h : w.step fd a = some t) : StatsMove fd w a t := by
  cases a with
  | empty =>
      simp only [StatsWorld.step] at h
      split at h
      · rename_i hpc
        cases h
        exact .empty hpc
      · cases h
  | frame seq =>
      simp only [StatsWorld.step] at h
      split at h
      · rename_i hpc
        cases h
        exact .frame seq hpc
      · cases h
  | record us =>
      simp only [StatsWorld.step] at h
      split at h
      · rename_i hpc
        split at h
        · cases h
        · cases h
          -- the sample is counted before the ticker is looked at
          by_cases hfull : (w.dispatcher.ticker + 1) % 5000 = 0
          · rw [StatsWorld.record_full _ hfull]
            exact .recordFull hpc hfull
          · rw [StatsWorld.record_open _ hfull]
            exact .recordOpen hpc hfull
      · cases h
  | proceed =>
      simp only [StatsWorld.step, StatsWorld.proceed] at h
      split at h
      · rename_i hpc
        rcases Option.map_eq_some_iff.mp h with ⟨server, hstep, rfl⟩
        exact .notify hpc hstep
      · rename_i hpc
        cases h
        exact .loadRx hpc
      · rename_i hpc
        cases h
        exact .loadTx hpc
      · rename_i hpc
        rcases Option.map_eq_some_iff.mp h with ⟨server, hstep, rfl⟩
        exact .publish hpc hstep
      · rename_i hpc
        split at h
        · cases h
        · cases h
          exact .reset hpc
      · cases h
  | rxXrun =>
      cases h
      exact .rxXrun
  | txXrun =>
      cases h
      exact .txXrun
  | server a =>
      simp only [StatsWorld.step] at h
      split at h
      · rename_i hothers
        rcases Option.map_eq_some_iff.mp h with ⟨server, hstep, rfl⟩
        exact .server hothers hstep
      · cases h

/-! ## The server's share of a run -/

/-- The broadcast that the dispatch thread enters next. -/
def StatsPc.call? : StatsPc → Option BroadcastCall
  | .written seq => some (.audioReady seq)
  | .txLoaded snap rxXruns txXruns => some (.stats rxXruns txXruns snap)
  | _ => none

/-- The step of the server, if any. -/
def StatsWorld.serverAct? (w : StatsWorld) : StatsAct → Option ServerAct
  | .record us =>
      if (w.dispatcher.ticker + 1) % 5000 = 0 then
        some (.counters w.server.rxXruns w.server.txXruns (w.dispatcher.record us).histogram.toStats)
      else
        none
  | .proceed => w.dispatcher.pc.call?.map ServerAct.broadcast
  | .rxXrun => some (.counters (w.server.rxXruns + 1) w.server.txXruns w.server.lastLatency)
  | .txXrun => some (.counters w.server.rxXruns (w.server.txXruns + 1) w.server.lastLatency)
  | .server a => some a
  | _ => none

/-- A run with the dispatch thread is a run of the server. -/
def statsSimulation (fd : RawFd) : Simulation (statsSystem fd) (serverSystem fd) where
  proj := StatsWorld.server
  label := StatsWorld.serverAct?
  init := rfl
  hidden := by
    intro w a t hstep hlabel
    cases statsMove_of_step hstep with
    | notify hpc hserver => simp [StatsWorld.serverAct?, StatsPc.call?, hpc] at hlabel
    | publish hpc hserver => simp [StatsWorld.serverAct?, StatsPc.call?, hpc] at hlabel
    | recordFull hpc hfull => simp [StatsWorld.serverAct?, hfull] at hlabel
    | rxXrun => cases hlabel
    | txXrun => cases hlabel
    | server hothers hserver => cases hlabel
    | _ => rfl
  shown := by
    -- the two broadcasts, the store of the snapshot and the counters show; the loads do not
    intro w a t b hstep hlabel
    cases statsMove_of_step hstep with
    | notify hpc hserver =>
        simp only [StatsWorld.serverAct?, StatsPc.call?, hpc, Option.map_some, Option.some.injEq]
          at hlabel
        subst hlabel
        exact hserver
    | publish hpc hserver =>
        simp only [StatsWorld.serverAct?, StatsPc.call?, hpc, Option.map_some, Option.some.injEq]
          at hlabel
        subst hlabel
        exact hserver
    | recordFull hpc hfull =>
        simp only [StatsWorld.serverAct?, if_pos hfull, Option.some.injEq] at hlabel
        subst hlabel
        rfl
    | recordOpen hpc hopen => simp [StatsWorld.serverAct?, hopen] at hlabel
    | rxXrun =>
        cases hlabel
        rfl
    | txXrun =>
        cases hlabel
        rfl
    | server hothers hserver =>
        cases hlabel
        exact hserver
    | empty hpc => cases hlabel
    | frame seq hpc => cases hlabel
    | loadRx hpc => simp [StatsWorld.serverAct?, StatsPc.call?, hpc] at hlabel
    | loadTx hpc => simp [StatsWorld.serverAct?, StatsPc.call?, hpc] at hlabel
    | reset hpc => simp [StatsWorld.serverAct?, StatsPc.call?, hpc] at hlabel

theorem serverRun_of_statsTrace {fd : RawFd} {tr : StatsTrace} {w : StatsWorld}
    (h : Trace (statsSystem fd) tr w) :
    Trace (serverSystem fd) ((statsSimulation fd).trace tr) w.server :=
  (statsSimulation fd).run h

theorem serverInv_of_statsTrace {fd : RawFd} {tr : StatsTrace} {w : StatsWorld}
    (h : Trace (statsSystem fd) tr w) : ServerInv w.server :=
  serverInv_of_trace (serverRun_of_statsTrace h)

/-! ## What the other threads leave alone -/

/-- The counters and `last_latency`. -/
structure SameCounters (w t : ServerWorld) : Prop where
  rxXruns : t.rxXruns = w.rxXruns
  txXruns : t.txXruns = w.txXruns
  lastLatency : t.lastLatency = w.lastLatency

theorem HandlerMove.sameCounters {fd : RawFd} {w t : ServerWorld} {id : ClientId} {b : HandlerAct}
    (h : HandlerMove fd w id b t) : SameCounters w t := by
  cases h with
  | subscribe hpc hlock =>
      unfold ServerWorld.updateStreams
      split
      · exact ⟨rfl, rfl, rfl⟩
      · exact ⟨rfl, rfl, rfl⟩
  | reply hpc hlock =>
      unfold ServerWorld.sendTo
      split
      · exact ⟨rfl, rfl, rfl⟩
      · exact ⟨rfl, rfl, rfl⟩
  | _ => exact ⟨rfl, rfl, rfl⟩

theorem sameCounters_of_step {fd : RawFd} {w t : ServerWorld} {a : ServerAct}
    (hstep : w.step fd a = some t) (hcounters : ∀ rx tx lat, a ≠ .counters rx tx lat) :
    SameCounters w t := by
  cases serverMove_of_step hstep with
  | visit hb hid =>
      rw [ServerWorld.offer_eq]
      split
      · exact ⟨rfl, rfl, rfl⟩
      · exact ⟨rfl, rfl, rfl⟩
  | handler hmove => exact hmove.sameCounters
  | counters rx tx lat => exact absurd rfl (hcounters rx tx lat)
  | _ => exact ⟨rfl, rfl, rfl⟩

theorem sameCounters_of_others {fd : RawFd} {w t : ServerWorld} {a : ServerAct}
    (hstep : w.step fd a = some t) (hothers : a.ofOthers) : SameCounters w t := by
  refine sameCounters_of_step hstep ?_
  rintro rx tx lat rfl
  cases hothers

/-! ## A reply to `GetStats` on its way -/

/-- The handler works on a `GetStats` and has cloned `last_latency`. -/
def Serving.forStats : Serving → Bool
  | .latencyLoaded _ => true
  | .rxLoaded _ _ => true
  | .replying (.stats _ _ _) => true
  | _ => false

/-- The three accesses of `dispatch_client_msg` for a `GetStats`. -/
inductive StatsServe (w : ServerWorld) : Serving → Serving → Prop where
  | lockLatency : StatsServe w .statsCall (.latencyLoaded w.lastLatency)
  | loadRx (lat : LatencyStats) : StatsServe w (.latencyLoaded lat) (.rxLoaded lat w.rxXruns)
  | loadTx (lat : LatencyStats) (rxXruns : UInt64) :
      StatsServe w (.rxLoaded lat rxXruns) (.replying (.stats rxXruns w.txXruns lat))

theorem forStats_dispatch (m : ClientMsg) : (ServerWorld.dispatch m).forStats = false := by
  cases m <;> rfl

theorem statsServe_of_serve {w t : ServerWorld} {c : ClientId} {s s' : Serving}
    (h : w.serve c s = some t) (hpc : (t.conns c).handler = .serving s') (hs : s'.forStats) :
    StatsServe w s s' := by
  cases s with
  | reading => cases h
  | subscribing streams =>
      rcases ServerWorld.whenUnlocked_eq_some h with ⟨_, rfl⟩
      simp only [ServerWorld.setHandler_conns, Function.update_self] at hpc
      cases hpc
      cases hs
  | statsCall =>
      cases h
      simp only [ServerWorld.setHandler_conns, Function.update_self] at hpc
      cases hpc
      exact .lockLatency
  | latencyLoaded lat =>
      cases h
      simp only [ServerWorld.setHandler_conns, Function.update_self] at hpc
      cases hpc
      exact .loadRx lat
  | rxLoaded lat rxXruns =>
      cases h
      simp only [ServerWorld.setHandler_conns, Function.update_self] at hpc
      cases hpc
      exact .loadTx lat rxXruns
  | replying m =>
      rcases ServerWorld.whenUnlocked_eq_some h with ⟨_, rfl⟩
      simp only [ServerWorld.setHandler_conns, Function.update_self] at hpc
      cases hpc
      cases hs

/-- The handler's own step. -/
theorem statsServe_of_handlerStep {fd : RawFd} {w t : ServerWorld} {c : ClientId} {b : HandlerAct}
    {s' : Serving} (hstep : w.handlerStep fd c b = some t)
    (hpc : (t.conns c).handler = .serving s') (hs : s'.forStats) :
    ∃ s, b = .proceed ∧ (w.conns c).handler = .serving s ∧ StatsServe w s s' := by
  have hmove := handlerMove_of_step hstep
  cases hmove with
  | register hpc₀ hlock => simp at hpc
  | sendFd hpc₀ => simp at hpc
  | spawn hpc₀ =>
      simp only [ServerWorld.setConn_conns, Function.update_self, HandlerPc.serving.injEq] at hpc
      subst hpc
      cases hs
  | leave hreg hact => simp at hpc
  | serve next hpc₀ hquiet hact hnext =>
      rename_i s
      rcases hact with rfl | ⟨m, rfl⟩
      · refine ⟨s, rfl, hpc₀, statsServe_of_serve ?_ hpc hs⟩
        simpa [ServerWorld.handlerStep, hpc₀] using hstep
      · -- a message has just been read, and nothing is loaded yet
        cases s with
        | reading =>
            simp only [ServerWorld.handlerStep, hpc₀, Option.some.injEq] at hstep
            rw [← hstep] at hpc
            simp only [ServerWorld.setHandler_conns, Function.update_self,
              HandlerPc.serving.injEq] at hpc
            rw [← hpc, forStats_dispatch] at hs
            cases hs
        | _ => simp [ServerWorld.handlerStep, hpc₀] at hstep
  | subscribe hpc₀ hlock =>
      simp only [ServerWorld.setHandler_conns, Function.update_self, HandlerPc.serving.injEq] at hpc
      subst hpc
      cases hs
  | reply hpc₀ hlock =>
      simp only [ServerWorld.setHandler_conns, Function.update_self, HandlerPc.serving.injEq] at hpc
      subst hpc
      cases hs
  | unregister hpc₀ hlock => simp at hpc

/-- A handler that has something for a reply had it before, or has just loaded it. -/
theorem statsServe_of_step {fd : RawFd} {w t : ServerWorld} {a : ServerAct} {c : ClientId}
    {s' : Serving} (hinv : ServerInv w) (hstep : w.step fd a = some t)
    (hpc : (t.conns c).handler = .serving s') (hs : s'.forStats) :
    ((w.conns c).handler = .serving s' ∧ ∀ b, a ≠ .handler c b) ∨
      ∃ s, a = .handler c .proceed ∧ (w.conns c).handler = .serving s ∧ StatsServe w s s' := by
  -- only the client's own handler moves its program counter
  by_cases hown : ∃ b, a = .handler c b
  · rcases hown with ⟨b, rfl⟩
    rcases statsServe_of_handlerStep hstep hpc hs with ⟨s, rfl, hpc₀, hserve⟩
    exact Or.inr ⟨s, rfl, hpc₀, hserve⟩
  · left
    have hother : ∀ b, a ≠ .handler c b := fun b hb => hown ⟨b, hb⟩
    rcases handler_of_step hinv hstep hother with hsame | ⟨rfl, rfl⟩
    · exact ⟨hsame ▸ hpc, hother⟩
    · cases hstep
      simp at hpc

/-- The same for a step of the run: the steps of the dispatch thread and the counters do not
matter. -/
theorem statsServe_of_statsStep {fd : RawFd} {w t : StatsWorld} {a : StatsAct} {c : ClientId}
    {s' : Serving} (hinv : ServerInv w.server) (hstep : w.step fd a = some t)
    (hpc : (t.server.conns c).handler = .serving s') (hs : s'.forStats) :
    ((w.server.conns c).handler = .serving s' ∧ ∀ b, a ≠ .server (.handler c b)) ∨
      ∃ s, a = .server (.handler c .proceed) ∧ (w.server.conns c).handler = .serving s ∧
        StatsServe w.server s s' := by
  have hbroadcast : ∀ {call : BroadcastCall} {server : ServerWorld},
      w.server.step fd (.broadcast call) = some server →
        (server.conns c).handler = .serving s' → (w.server.conns c).handler = .serving s' := by
    intro call server hserver hpc'
    rcases statsServe_of_step hinv hserver hpc' hs with ⟨hpc₀, _⟩ | ⟨_, hact, _⟩
    · exact hpc₀
    · cases hact
  cases statsMove_of_step hstep with
  | notify hpc₀ hserver => exact Or.inl ⟨hbroadcast hserver hpc, by simp⟩
  | publish hpc₀ hserver => exact Or.inl ⟨hbroadcast hserver hpc, by simp⟩
  | server hothers hserver =>
      rcases statsServe_of_step hinv hserver hpc hs with ⟨hpc₀, hnot⟩ | ⟨s, rfl, hpc₀, hserve⟩
      · exact Or.inl ⟨hpc₀, fun b hb => hnot b (StatsAct.server.inj hb)⟩
      · exact Or.inr ⟨s, rfl, hpc₀, hserve⟩
  | _ => exact Or.inl ⟨hpc, by simp⟩

end Cm108Driver
