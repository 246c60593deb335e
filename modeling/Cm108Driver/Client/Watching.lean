import Cm108Driver.Client.Receiving
import Cm108Driver.Server.EdgeLog

/-!
# Watching — from the input reports to the events that clients read

The daemon's poller on one side, any number of clients that read on the other, and the server's
threads in between: without the clients a run is one of `Monitor`, and without the poller it is one
of `Receiving`.

The radio events that a client has read are part of the log of the poll results, in order and none
twice.  A client that is subscribed at every event and has room for it has read the beginning of
this log, and behind its last message all of it.
-/

namespace Cm108Driver

open Lib

/-! ## The system -/

structure WatchWorld where
  monitor : MonitorWorld
  peers : ClientId → Peer

inductive WatchAct
  | monitor (a : MonitorAct)
  | connect (c : ClientId) (recvmsg : Except IoError Bool) (mmap : Except IoError Unit)
  | unread (c : ClientId)
  | read (c : ClientId)

namespace WatchWorld

def start : WatchWorld :=
  { monitor := MonitorWorld.start
    peers := fun _ => Peer.start }

/-- The clients and the server. -/
def link (w : WatchWorld) : LinkWorld :=
  { server := w.monitor.server
    peers := w.peers }

def step (fd : RawFd) (w : WatchWorld) : WatchAct → Option WatchWorld
  | .monitor a => (w.monitor.step fd a).map fun monitor => { w with monitor := monitor }
  | .connect c recv mmap =>
      (w.link.connect c recv mmap).map fun link => { w with peers := link.peers }
  | .unread c => (w.link.leave c).map fun link => { w with peers := link.peers }
  | .read c => (w.link.read c).map fun link => { w with peers := link.peers }

end WatchWorld

def watchSystem (fd : RawFd) : System WatchWorld WatchAct where
  init := WatchWorld.start
  step := WatchWorld.step fd

abbrev WatchTrace := List (WatchWorld × WatchAct)

section Simulations

variable {fd : RawFd}

/-- A step of a client leaves the server alone. -/
theorem peers_of_client {l l' : LinkWorld} {a : LinkAct} (hstep : (linkSystem fd).step l a = some l')
    (hclient : ∀ b, a ≠ .server b) : l' = { l with peers := l'.peers } := by
  have hsame : l'.server = l.server := by
    refine (linkSimulation fd).hidden hstep ?_
    cases a with
    | server b => exact absurd rfl (hclient b)
    | _ => rfl
  rw [← hsame]

/-- Without the clients. -/
def watchMonitor (fd : RawFd) : Simulation (watchSystem fd) (monitorSystem fd) where
  proj := WatchWorld.monitor
  label := fun _ a =>
    match a with
    | .monitor a => some a
    | _ => none
  init := rfl
  hidden := by
    intro w a t hstep hlabel
    cases a with
    | monitor a => cases hlabel
    | connect c recv mmap =>
        rcases Option.map_eq_some_iff.1 hstep with ⟨link, _, rfl⟩
        rfl
    | unread c =>
        rcases Option.map_eq_some_iff.1 hstep with ⟨link, _, rfl⟩
        rfl
    | read c =>
        rcases Option.map_eq_some_iff.1 hstep with ⟨link, _, rfl⟩
        rfl
  shown := by
    intro w a t b hstep hlabel
    cases a with
    | monitor a =>
        cases hlabel
        rcases Option.map_eq_some_iff.1 hstep with ⟨monitor, hmonitor, rfl⟩
        exact hmonitor
    | connect c recv mmap => cases hlabel
    | unread c => cases hlabel
    | read c => cases hlabel

/-- The step of the server and of the clients, if any. -/
def linkAct? (w : WatchWorld) : WatchAct → Option LinkAct
  | .monitor a => (serverAct? w.monitor a).map .server
  | .connect c recv mmap => some (.connect c recv mmap)
  | .unread c => some (.unread c)
  | .read c => some (.read c)

/-- Without the poller. -/
def watchLink (fd : RawFd) : Simulation (watchSystem fd) (linkSystem fd) where
  proj := WatchWorld.link
  label := linkAct?
  init := rfl
  hidden := by
    intro w a t hstep hlabel
    cases a with
    | monitor a =>
        rcases Option.map_eq_some_iff.1 hstep with ⟨monitor, hmonitor, rfl⟩
        have hsame : monitor.server = w.monitor.server :=
          (monitorSimulation fd).hidden hmonitor (Option.map_eq_none_iff.1 hlabel)
        simp [WatchWorld.link, hsame]
    | connect c recv mmap => cases hlabel
    | unread c => cases hlabel
    | read c => cases hlabel
  shown := by
    intro w a t b hstep hlabel
    cases a with
    | monitor a =>
        rcases Option.map_eq_some_iff.1 hstep with ⟨monitor, hmonitor, rfl⟩
        rcases Option.map_eq_some_iff.1 hlabel with ⟨b, hb, rfl⟩
        have hserver : w.monitor.server.step fd b = some monitor.server :=
          (monitorSimulation fd).shown hmonitor hb
        simp [linkSystem, LinkWorld.step, WatchWorld.link, hserver]
    | connect c recv mmap =>
        cases hlabel
        rcases Option.map_eq_some_iff.1 hstep with ⟨link, hlink, rfl⟩
        have hstep' : (linkSystem fd).step w.link (.connect c recv mmap) = some link := hlink
        exact hstep'.trans (congrArg some (peers_of_client hstep' (by simp)))
    | unread c =>
        cases hlabel
        rcases Option.map_eq_some_iff.1 hstep with ⟨link, hlink, rfl⟩
        have hstep' : (linkSystem fd).step w.link (.unread c) = some link := hlink
        exact hstep'.trans (congrArg some (peers_of_client hstep' (by simp)))
    | read c =>
        cases hlabel
        rcases Option.map_eq_some_iff.1 hstep with ⟨link, hlink, rfl⟩
        have hstep' : (linkSystem fd).step w.link (.read c) = some link := hlink
        exact hstep'.trans (congrArg some (peers_of_client hstep' (by simp)))

end Simulations

/-- The run of the poller and the server in a run. -/
abbrev watchMonitorTrace (fd : RawFd) (tr : WatchTrace) : MonitorTrace := (watchMonitor fd).trace tr

/-- The run of the clients and the server in a run. -/
abbrev watchLinkTrace (fd : RawFd) (tr : WatchTrace) : LinkTrace := (watchLink fd).trace tr

/-- Both have the same run of the server. -/
theorem watchServer_eq (fd : RawFd) (tr : WatchTrace) :
    linkServer fd (watchLinkTrace fd tr) = serverTrace fd (watchMonitorTrace fd tr) := by
  simp only [Simulation.trace, List.filterMap_filterMap]
  refine List.filterMap_congr fun p _ => ?_
  rcases p with ⟨w, a⟩
  cases a with
  | monitor a =>
      cases hact : serverAct? w.monitor a <;>
        simp [watchLink, watchMonitor, linkAct?, linkSimulation, monitorSimulation, hact,
          WatchWorld.link]
  | connect c recv mmap => rfl
  | unread c => rfl
  | read c => rfl

/-! ## The events on their way -/

section Events

variable {fd : RawFd} {c : ClientId} {tr : MonitorTrace} {w : MonitorWorld}

theorem emitted_in_log (h : Trace (monitorSystem fd) tr w) :
    emitted tr <+: serverLog (pollResults tr) := by
  have hlog := logInv_of_trace h
  cases hpc : w.poller.pc with
  | polling => exact (hlog.polling hpc).1 ▸ List.prefix_rfl
  | emitting state rest => exact ⟨rest, (hlog.emitting state rest hpc).1⟩

/-- A client is addressed events that the poller emits, in order and each once at most. -/
theorem events_addressed_sublist (h : Trace (monitorSystem fd) tr w) (c : ClientId) :
    ((addressedTo c (serverTrace fd tr)).filterMap ServerMsg.radioEvent?).Sublist
      (emitted tr) := by
  induction h with
  | start => exact List.Sublist.refl _
  | snoc htr hstep ih =>
      rename_i tr w t a
      have hinv := serverInv_of_trace (serverTrace_run htr)
      rw [emitted_snoc]
      cases monitorMove_of_step hstep with
      | poll r hpc =>
          rw [serverTrace_hidden fd tr rfl]
          exact ih.trans (List.sublist_append_left _ _)
      | settle hpc hdone =>
          rw [serverTrace_hidden fd tr rfl]
          exact ih.trans (List.sublist_append_left _ _)
      | emit hpc hserver =>
          rename_i state event events server
          have hlabel : serverAct? w .emit = some (.broadcast (.radioEvent event)) := by
            simp [serverAct?, Poller.event?, hpc]
          rw [serverTrace_shown fd tr hlabel, addressedTo_snoc, List.filterMap_append]
          refine ih.append ?_
          -- the client is addressed this event or nothing
          cases haddr : addressed? c w.server (.broadcast (.radioEvent event)) with
          | none => simp
          | some m =>
              have hm : m = .radioEvent event := by
                simp only [addressed?] at haddr
                split at haddr
                · cases haddr
                  rfl
                · cases haddr
              simp [hm, emitted?, Poller.event?, hpc, ServerMsg.radioEvent?]
      | server hother hserver =>
          rename_i b server
          rw [serverTrace_shown fd tr (b := b) rfl, addressedTo_snoc, List.filterMap_append,
            addressed_other hinv hother, List.append_nil]
          exact ih.trans (List.sublist_append_left _ _)

/-- What a subscriber with room for them accepts, and what it is about to be sent, are the events
emitted. -/
theorem events_accepted_pending (h : Trace (monitorSystem fd) tr w)
    (hsub : Guarded (StaysSubscribed c) tr) (hroom : Guarded (RoomForEvents c) tr) :
    (accepted c (serverTrace fd tr)).filterMap ServerMsg.radioEvent? ++
      (pending c w.server).filterMap ServerMsg.radioEvent? = emitted tr := by
  rw [events_accepted h hroom, ← List.filterMap_append,
    ← nothingMissed_of_trace (serverTrace_run h) c, events_addressed h hsub]

end Events

/-! ## Whole runs -/

section Runs

variable {fd : RawFd} {c : ClientId} {tr : WatchTrace} {w : WatchWorld}

/-- The radio events that a client has read. -/
def WatchWorld.eventsRead (w : WatchWorld) (c : ClientId) : List RadioEvent :=
  (w.peers c).received.filterMap ServerMsg.radioEvent?

/-- Nothing is on its way to the client. -/
structure CaughtUp (c : ClientId) (w : WatchWorld) : Prop where
  polling : w.monitor.poller.pc = .polling
  queue : (w.monitor.server.conns c).queue.items = []
  writer : (w.monitor.server.conns c).writer = .idle
  bytes : w.link.bytes c = []

/-- A client with nothing before it, in its queue or in its writer thread has read all. -/
theorem received_of_caughtUp (h : Trace (watchSystem fd) tr w) {fd' : RawFd}
    (hconnected : (w.peers c).state = .connected fd') (hup : CaughtUp c w) :
    (w.peers c).received = accepted c (linkServer fd (watchLinkTrace fd tr)) := by
  have hlink := (watchLink fd).run h
  have hinv := peerInv_of_trace hlink c
  have hstream := streamAt_of_trace (serverRun_of_link hlink) c
  have hidle : (((watchLink fd).proj w).server.conns c).writer = .idle := hup.writer
  rcases hstream.running [] (by rw [hidle]; rfl) with ⟨_, hsock, hqueue⟩
  rcases (hinv.rxShmem fd' hconnected).2 with hwhole | ⟨hfailed, _⟩
  · rcases hinv.inOrder with ⟨ms, hacc⟩
    have hempty : (((watchLink fd).proj w).server.conns c).queue.items = [] := hup.queue
    rw [hempty, List.append_nil] at hqueue
    rw [hqueue, ← hacc] at hsock
    have hunread := hwhole.all_frames (by simpa [plain] using hsock)
    have hnone : ms.flatMap writeMsg = [] := hunread.symm.trans hup.bytes
    have hms : ms = [] := by
      cases ms with
      | nil => rfl
      | cons m ms => simp [writeMsg, frame, toLe] at hnone
    rw [← hacc, hms, List.append_nil]
    rfl
  · exact absurd (hidle.symm.trans hfailed) (by simp)

/-- What a client has read of the log of the poll results `rs`. -/
structure Watched (c : ClientId) (rs : List ReadResult) (tr : MonitorTrace) (w : WatchWorld) :
    Prop where
  partOfLog : (w.eventsRead c).Sublist (serverLog rs)
  beginning : Guarded (StaysSubscribed c) tr → Guarded (RoomForEvents c) tr →
    w.eventsRead c <+: serverLog rs
  complete : Guarded (StaysSubscribed c) tr → Guarded (RoomForEvents c) tr → CaughtUp c w →
    ∀ fd', (w.peers c).state = .connected fd' → w.eventsRead c = serverLog rs

/-- In every run, for every client: the radio events that it has read are events of the log of the
poll results, in order and each once at most; if it has been subscribed at every event and has had
room for it, they are the beginning of the log, and all of it when nothing is on its way. -/
theorem edges_read (h : Trace (watchSystem fd) tr w) (c : ClientId) :
    Watched c (pollResults (watchMonitorTrace fd tr)) (watchMonitorTrace fd tr) w := by
  have hlink := (watchLink fd).run h
  have hmonitor := (watchMonitor fd).run h
  have hread := (peerInv_of_trace hlink c).inOrder
  rw [watchServer_eq] at hread
  have hlog := emitted_in_log hmonitor
  refine
    { partOfLog := ?_
      beginning := ?_
      complete := ?_ }
  · have haddressed := accepted_sublist_addressed (serverTrace_run hmonitor) c
    have haccepted := haddressed.filterMap ServerMsg.radioEvent?
    have hemitted := haccepted.trans (events_addressed_sublist hmonitor c)
    exact (hread.sublist.filterMap _).trans (hemitted.trans hlog.sublist)
  · intro hsub hroom
    have hemitted := events_accepted_pending hmonitor hsub hroom
    exact ((hread.filterMap _).trans ⟨_, hemitted⟩).trans hlog
  · intro hsub hroom hup fd' hconnected
    have hall := received_of_caughtUp h hconnected hup
    rw [watchServer_eq] at hall
    have hemitted := events_accepted_pending hmonitor hsub hroom
    have hnone := ((pollerInv_of_trace hmonitor).polling hup.polling).2
    rw [pending_other hnone, List.append_nil, ← hall] at hemitted
    exact hemitted.trans ((logInv_of_trace hmonitor).polling hup.polling).1

end Runs

/-! ### PTT is asserted before a subscriber -/

/-- Client 1 connects and subscribes to GPIO events; the first report has GPIO1 set, and the client
reads both events. -/
def watchPtt : List WatchAct :=
  [.server .connect, .server (.handler 1 .proceed), .server (.handler 1 (.sendFd true))].map .monitor ++
    [.connect 1 (.ok true) (.ok ())] ++
    [.server (.handler 1 (.spawnWriter true)), .server (.handler 1 (.request (.subscribe ⟨4⟩))),
      .server (.handler 1 .proceed), .poll (.report ⟨1⟩), .emit, .server (.visit 1),
      .server .endBroadcast, .emit, .server (.visit 1), .server .endBroadcast, .settle,
      .server (.writer 1 .dequeue), .server (.writer 1 (.write 9)), .server (.writer 1 .dequeue),
      .server (.writer 1 (.write 9))].map .monitor ++
    [.read 1, .read 1]

theorem edges_read_ptt :
    ∃ tr w, Trace (watchSystem 7) tr w ∧ w.eventsRead 1 = [.pttAssert, .gpioChange ⟨1⟩] ∧
      CaughtUp 1 w ∧ Watched 1 [.report ⟨1⟩] (watchMonitorTrace 7 tr) w := by
  have hrun := Trace.start.exec
    (show (watchSystem 7).exec WatchWorld.start watchPtt = some _ from rfl)
  exact ⟨_, _, hrun, rfl, ⟨rfl, rfl, rfl, rfl⟩, edges_read hrun 1⟩

end Cm108Driver
