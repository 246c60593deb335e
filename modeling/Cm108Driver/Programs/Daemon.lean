import Cm108Driver.Client.Listening
import Cm108Driver.Client.Watching
import Cm108Driver.Server.SessionMoves
import Cm108Driver.Server.StatsWindows

/-!
# Daemon — all threads of the daemon and its clients at once

The handlers with the TX ring and the output register (`Session`), the RX loop and the dispatch
thread with its page (`RxPipeline`) and its statistics (`DispatchStats`), the poller (`Monitor`), and
the clients at their sockets and at the page, all at one registry and with one set of counters.

Seen from any of these sides, a run is one of the system of that side.
-/

namespace Cm108Driver

open Lib

/-! ## The system -/

/-- Where the dispatch thread stands in the body of its loop: what `DispatchPc` and `StatsPc` say
about it together. -/
inductive DaemonPc
  | polling
  | popped (f : AudioFrame)
  | writing (f : AudioFrame)
  | returned (seq : UInt64)
  | notifying
  | stored (snap : LatencyStats)
  | rxLoaded (snap : LatencyStats) (rxXruns : UInt64)
  | txLoaded (snap : LatencyStats) (rxXruns txXruns : UInt64)
  | publishing

def DaemonPc.dispatch : DaemonPc → DispatchPc
  | .popped f => .popped f
  | .writing f => .writing f
  | .returned seq => .returned seq
  | .notifying => .notifying
  | _ => .polling

def DaemonPc.stats : DaemonPc → StatsPc
  | .returned seq => .written seq
  | .notifying => .notifying
  | .stored snap => .stored snap
  | .rxLoaded snap rxXruns => .rxLoaded snap rxXruns
  | .txLoaded snap rxXruns txXruns => .txLoaded snap rxXruns txXruns
  | .publishing => .publishing
  | _ => .polling

/-- Behind a store: `AudioShmem::write` returns with the second counter store. -/
def DaemonPc.stores (f : AudioFrame) (shmem : ShmemWorld) : DaemonPc :=
  match shmem.writer with
  | .notifying seq => .returned seq
  | _ => .writing f

structure DaemonWorld where
  session : SessionWorld
  rx : LoopWorld isoInPacket
  shmem : ShmemWorld
  pc : DaemonPc
  histogram : LatencyHistogram
  ticker : UInt64
  poller : Poller
  /-- The clients at their sockets; those at the page are in `shmem`. -/
  peers : ClientId → Peer

inductive DaemonAct
  /-- The threads of the clients, the TX thread and the heartbeat. -/
  | session (a : SessionAct)
  | reapedRx (i : Fin nUrbs) (c : Completion isoInPacket)
  | pop
  /-- The dispatch thread behind `notify_audio_ready`, `us` microseconds after its `pop`. -/
  | record (us : UInt32)
  /-- The next step of the dispatch thread, where there is only one. -/
  | proceed
  | poller (a : MonitorAct)
  /-- A client at the page. -/
  | page (r : Nat) (a : ReaderAct)
  /-- A client at its socket. -/
  | connect (c : ClientId) (recvmsg : Except IoError Bool) (mmap : Except IoError Unit)
  | unread (c : ClientId)
  | read (c : ClientId)

/-- The RX loop, the dispatch thread and the poller have actions of their own. -/
def SessionAct.elsewhere : SessionAct → Bool
  | .counters _ _ => true
  | .server (.broadcast _) => true
  | _ => false

def MonitorAct.elsewhere : MonitorAct → Bool
  | .server _ => true
  | _ => false

namespace DaemonWorld

def start (inbound : ClientId → Inbound) : DaemonWorld :=
  { session := SessionWorld.start inbound
    rx := rxLoop.start
    shmem := ShmemWorld.start
    pc := .polling
    histogram := LatencyHistogram.new
    ticker := 0
    poller := MonitorWorld.start.poller
    peers := fun _ => Peer.start }

abbrev server (w : DaemonWorld) : ServerWorld := w.session.server

def setServer (w : DaemonWorld) (server : ServerWorld) : DaemonWorld :=
  { w with session := { w.session with server := server } }

def setShmem (w : DaemonWorld) (shmem : ShmemWorld) : DaemonWorld := { w with shmem := shmem }

/-- The dispatch thread, the page and the registry. -/
def listening (w : DaemonWorld) : RxWorld :=
  { loop := w.rx
    dispatch := w.pc.dispatch
    shmem := w.shmem
    server := w.server }

/-- The dispatch thread with its statistics and the registry. -/
def reporting (w : DaemonWorld) : StatsWorld :=
  { server := w.server
    dispatcher :=
      { pc := w.pc.stats
        histogram := w.histogram
        ticker := w.ticker } }

/-- The poller, the registry and the clients at their sockets. -/
def watching (w : DaemonWorld) : WatchWorld :=
  { monitor :=
      { server := w.server
        poller := w.poller }
    peers := w.peers }

/-- The RX loop counts its overruns in the counter that the server reports. -/
def reapRx (w : DaemonWorld) (i : Fin nUrbs) (c : Completion isoInPacket) : DaemonWorld :=
  let rx := rxLoop.next documentedReap w.rx (.reaped i c)
  { w.setServer { w.server with rxXruns := rx.ring.xruns } with rx := rx }

/-- A broadcast of the dispatch thread takes the mutex. -/
def enter (fd : RawFd) (w : DaemonWorld) (call : BroadcastCall) (pc : DaemonPc) :
    Option DaemonWorld :=
  (w.server.step fd (.broadcast call)).map fun server => { w.setServer server with pc := pc }

/-- From `histogram.record` to the store of the snapshot, if one is due. -/
def recorded (w : DaemonWorld) (us : UInt32) : DaemonWorld :=
  let histogram := w.histogram.record us
  let ticker := w.ticker + 1
  if ticker % 5000 = 0 then
    { w.setServer { w.server with lastLatency := histogram.toStats } with
      pc := .stored histogram.toStats
      histogram := histogram
      ticker := ticker }
  else
    { w with
      pc := .polling
      histogram := histogram
      ticker := ticker }

/-- The next step of the dispatch thread inside the body of its loop. -/
def proceed (fd : RawFd) (w : DaemonWorld) : Option DaemonWorld :=
  match w.pc with
  | .popped f =>
      (w.shmem.writerStep (.write f.image)).map fun shmem =>
        { w with
          shmem := shmem
          pc := .writing f }
  | .writing f =>
      w.shmem.store.map fun shmem =>
        { w with
          shmem := shmem
          pc := .stores f shmem }
  | .returned seq => w.enter fd (.audioReady seq) .notifying
  | .stored snap => some { w with pc := .rxLoaded snap w.server.rxXruns }
  | .rxLoaded snap rxXruns => some { w with pc := .txLoaded snap rxXruns w.server.txXruns }
  | .txLoaded snap rxXruns txXruns => w.enter fd (.stats rxXruns txXruns snap) .publishing
  | .publishing =>
      if w.server.inDispatcherCall then
        none
      else
        some
          { w with
            pc := .polling
            histogram := w.histogram.reset }
  | _ => none

def step (fd : RawFd) (w : DaemonWorld) : DaemonAct → Option DaemonWorld
  | .session a =>
      if a.elsewhere then
        none
      else
        (w.session.step fd a).map fun session => { w with session := session }
  | .reapedRx i c => if (w.rx.slots i).inFlight then some (w.reapRx i c) else none
  | .pop =>
      match w.pc, w.rx.ring.ring.items with
      | .polling, f :: _ =>
          some
            { w with
              rx := w.rx.peer .pop
              pc := .popped f }
      | .polling, [] => some w -- `thread::sleep(Duration::from_millis(1))`
      | _, _ => none
  | .record us =>
      match w.pc with
      | .notifying =>
          if w.server.inDispatcherCall then
            none
          else
            (w.shmem.writerStep .endNotify).map fun shmem => (w.setShmem shmem).recorded us
      | _ => none
  | .proceed => w.proceed fd
  | .poller a =>
      if a.elsewhere then
        none
      else
        (w.watching.monitor.step fd a).map fun monitor =>
          { w.setServer monitor.server with poller := monitor.poller }
  | .page r a => (w.shmem.step (.client r a)).map fun shmem => { w with shmem := shmem }
  | .connect c recv mmap =>
      (w.watching.link.connect c recv mmap).map fun link => { w with peers := link.peers }
  | .unread c => (w.watching.link.leave c).map fun link => { w with peers := link.peers }
  | .read c => (w.watching.link.read c).map fun link => { w with peers := link.peers }

end DaemonWorld

/-- The daemon with its clients, and what every client sends. -/
def daemonSystem (fd : RawFd) (inbound : ClientId → Inbound) : System DaemonWorld DaemonAct where
  init := DaemonWorld.start inbound
  step := DaemonWorld.step fd

abbrev DaemonTrace := List (DaemonWorld × DaemonAct)

/-! ## What a step can do -/

inductive DaemonMove (fd : RawFd) (w : DaemonWorld) : DaemonAct → DaemonWorld → Prop where
  | session {a : SessionAct} {session : SessionWorld} (hown : a.elsewhere = false)
      (hstep : w.session.step fd a = some session) :
      DaemonMove fd w (.session a) { w with session := session }
  | reapedRx {i : Fin nUrbs} {c : Completion isoInPacket}
      (hflight : (w.rx.slots i).inFlight = true) : DaemonMove fd w (.reapedRx i c) (w.reapRx i c)
  | dry (hpc : w.pc = .polling) (hempty : w.rx.ring.ring.items = []) : DaemonMove fd w .pop w
  | pop {f : AudioFrame} {fs : List AudioFrame} (hpc : w.pc = .polling)
      (hitems : w.rx.ring.ring.items = f :: fs) :
      DaemonMove fd w .pop
        { w with
          rx := w.rx.peer .pop
          pc := .popped f }
  | write {f : AudioFrame} {shmem : ShmemWorld} (hpc : w.pc = .popped f)
      (hwrite : w.shmem.writerStep (.write f.image) = some shmem) :
      DaemonMove fd w .proceed
        { w with
          shmem := shmem
          pc := .writing f }
  | store {f : AudioFrame} {shmem : ShmemWorld} (hpc : w.pc = .writing f)
      (hstore : w.shmem.store = some shmem) :
      DaemonMove fd w .proceed
        { w with
          shmem := shmem
          pc := .stores f shmem }
  | notify {seq : UInt64} {server : ServerWorld} (hpc : w.pc = .returned seq)
      (hserver : w.server.step fd (.broadcast (.audioReady seq)) = some server) :
      DaemonMove fd w .proceed { w.setServer server with pc := .notifying }
  | record {us : UInt32} {shmem : ShmemWorld} (hpc : w.pc = .notifying)
      (hdone : w.server.inDispatcherCall = false)
      (hend : w.shmem.writerStep .endNotify = some shmem) :
      DaemonMove fd w (.record us) ((w.setShmem shmem).recorded us)
  | loadRx {snap : LatencyStats} (hpc : w.pc = .stored snap) :
      DaemonMove fd w .proceed { w with pc := .rxLoaded snap w.server.rxXruns }
  | loadTx {snap : LatencyStats} {rxXruns : UInt64} (hpc : w.pc = .rxLoaded snap rxXruns) :
      DaemonMove fd w .proceed { w with pc := .txLoaded snap rxXruns w.server.txXruns }
  | publish {snap : LatencyStats} {rxXruns txXruns : UInt64} {server : ServerWorld}
      (hpc : w.pc = .txLoaded snap rxXruns txXruns)
      (hserver : w.server.step fd (.broadcast (.stats rxXruns txXruns snap)) = some server) :
      DaemonMove fd w .proceed { w.setServer server with pc := .publishing }
  | reset (hpc : w.pc = .publishing) (hdone : w.server.inDispatcherCall = false) :
      DaemonMove fd w .proceed
        { w with
          pc := .polling
          histogram := w.histogram.reset }
  | poller {a : MonitorAct} {monitor : MonitorWorld} (hown : a.elsewhere = false)
      (hstep : w.watching.monitor.step fd a = some monitor) :
      DaemonMove fd w (.poller a) { w.setServer monitor.server with poller := monitor.poller }
  | page {r : Nat} {a : ReaderAct} {shmem : ShmemWorld}
      (hstep : w.shmem.step (.client r a) = some shmem) :
      DaemonMove fd w (.page r a) { w with shmem := shmem }
  | connect {c : ClientId} {recv : Except IoError Bool} {mmap : Except IoError Unit}
      {link : LinkWorld}
      (hstep : w.watching.link.connect c recv mmap = some link) :
      DaemonMove fd w (.connect c recv mmap) { w with peers := link.peers }
  | unread {c : ClientId} {link : LinkWorld} (hstep : w.watching.link.leave c = some link) :
      DaemonMove fd w (.unread c) { w with peers := link.peers }
  | read {c : ClientId} {link : LinkWorld} (hstep : w.watching.link.read c = some link) :
      DaemonMove fd w (.read c) { w with peers := link.peers }

theorem daemonMove_of_proceed {fd : RawFd} {w t : DaemonWorld} (h : w.proceed fd = some t) :
    DaemonMove fd w .proceed t := by
  unfold DaemonWorld.proceed at h
  split at h
  · rename_i hpc
    rcases Option.map_eq_some_iff.1 h with ⟨shmem, hwrite, rfl⟩
    exact .write hpc hwrite
  · rename_i hpc
    rcases Option.map_eq_some_iff.1 h with ⟨shmem, hstore, rfl⟩
    exact .store hpc hstore
  · rename_i hpc
    rcases Option.map_eq_some_iff.1 h with ⟨server, hserver, rfl⟩
    exact .notify hpc hserver
  · rename_i hpc
    cases h
    exact .loadRx hpc
  · rename_i hpc
    cases h
    exact .loadTx hpc
  · rename_i hpc
    rcases Option.map_eq_some_iff.1 h with ⟨server, hserver, rfl⟩
    exact .publish hpc hserver
  · rename_i hpc
    split at h
    · cases h
    · rename_i hdone
      cases h
      exact .reset hpc (by simpa using hdone)
  · cases h

theorem daemonMove_of_step {fd : RawFd} {w t : DaemonWorld} {a : DaemonAct}
    (h : w.step fd a = some t) : DaemonMove fd w a t := by
  cases a with
  | session a =>
      simp only [DaemonWorld.step] at h
      split at h
      · cases h
      · rename_i hown
        rcases Option.map_eq_some_iff.1 h with ⟨session, hstep, rfl⟩
        exact .session (by simpa using hown) hstep
  | reapedRx i c =>
      simp only [DaemonWorld.step] at h
      split at h
      · rename_i hflight
        cases h
        exact .reapedRx hflight
      · cases h
  | pop =>
      simp only [DaemonWorld.step] at h
      split at h
      · rename_i hpc hitems
        cases h
        exact .pop hpc hitems
      · rename_i hpc hempty
        cases h
        exact .dry hpc hempty
      · cases h
  | record us =>
      simp only [DaemonWorld.step] at h
      split at h
      · rename_i hpc
        split at h
        · cases h
        · rename_i hdone
          rcases Option.map_eq_some_iff.1 h with ⟨shmem, hend, rfl⟩
          exact .record hpc (by simpa using hdone) hend
      · cases h
  | proceed => exact daemonMove_of_proceed h
  | poller a =>
      simp only [DaemonWorld.step] at h
      split at h
      · cases h
      · rename_i hown
        rcases Option.map_eq_some_iff.1 h with ⟨monitor, hstep, rfl⟩
        exact .poller (by simpa using hown) hstep
  | page r a =>
      rcases Option.map_eq_some_iff.1 h with ⟨shmem, hstep, rfl⟩
      exact .page hstep
  | connect c recv mmap =>
      rcases Option.map_eq_some_iff.1 h with ⟨link, hstep, rfl⟩
      exact .connect hstep
  | unread c =>
      rcases Option.map_eq_some_iff.1 h with ⟨link, hstep, rfl⟩
      exact .unread hstep
  | read c =>
      rcases Option.map_eq_some_iff.1 h with ⟨link, hstep, rfl⟩
      exact .read hstep

/-! ## The registry -/

/-- What a step does at the registry, or with the counters. -/
def DaemonWorld.atRegistry (fd : RawFd) (w : DaemonWorld) : DaemonAct → Option ServerAct
  | .session a => w.session.atRegistry fd a
  | .reapedRx i c =>
      some (.counters (w.reapRx i c).rx.ring.xruns w.server.txXruns w.server.lastLatency)
  | .record us =>
      some (.counters w.server.rxXruns w.server.txXruns (w.recorded us).server.lastLatency)
  | .proceed => w.pc.stats.call?.map ServerAct.broadcast
  | .poller a => serverAct? w.watching.monitor a
  | _ => none

section Registry

variable {fd : RawFd} {w t : DaemonWorld} {a : DaemonAct}

/-- The window of the sample stays open. -/
theorem DaemonWorld.recorded_open {w : DaemonWorld} (us : UInt32)
    (h : (w.ticker + 1) % 5000 ≠ 0) :
    w.recorded us =
      { w with
        pc := .polling
        histogram := w.histogram.record us
        ticker := w.ticker + 1 } :=
  if_neg h

/-- The sample is the last one of its window. -/
theorem DaemonWorld.recorded_full {w : DaemonWorld} (us : UInt32)
    (h : (w.ticker + 1) % 5000 = 0) :
    w.recorded us =
      { w.setServer { w.server with lastLatency := (w.histogram.record us).toStats } with
        pc := .stored (w.histogram.record us).toStats
        histogram := w.histogram.record us
        ticker := w.ticker + 1 } :=
  if_pos h

theorem DaemonWorld.recorded_server (w : DaemonWorld) (us : UInt32) :
    (w.recorded us).server =
      { w.server with lastLatency := (w.recorded us).server.lastLatency } := by
  by_cases hfull : (w.ticker + 1) % 5000 = 0
  · rw [recorded_full us hfull]
    rfl
  · rw [recorded_open us hfull]

theorem DaemonWorld.recorded_same (w : DaemonWorld) (us : UInt32) :
    (w.recorded us).rx = w.rx ∧ (w.recorded us).poller = w.poller ∧
      (w.recorded us).peers = w.peers := by
  by_cases hfull : (w.ticker + 1) % 5000 = 0
  · rw [recorded_full us hfull]
    exact ⟨rfl, rfl, rfl⟩
  · rw [recorded_open us hfull]
    exact ⟨rfl, rfl, rfl⟩

/-- The page does not matter to the statistics. -/
theorem DaemonWorld.recorded_setShmem (w : DaemonWorld) (shmem : ShmemWorld) (us : UInt32) :
    (w.setShmem shmem).recorded us = (w.recorded us).setShmem shmem := by
  by_cases hfull : (w.ticker + 1) % 5000 = 0
  · rw [recorded_full us hfull, recorded_full (w := w.setShmem shmem) us hfull]
    rfl
  · rw [recorded_open us hfull, recorded_open (w := w.setShmem shmem) us hfull]
    rfl

/-- A step shows at the registry as one step, or not at all. -/
theorem registry_of_step (hstep : w.step fd a = some t) :
    (∃ b, w.atRegistry fd a = some b ∧ w.server.step fd b = some t.server) ∨
      w.atRegistry fd a = none ∧ t.server = w.server := by
  cases daemonMove_of_step hstep with
  | session hown hsession => exact Or.inl (step_atRegistry hsession)
  | reapedRx hflight => exact Or.inl ⟨_, rfl, rfl⟩
  | record hpc hdone hend =>
      rename_i us shmem
      have hserver : ((w.setShmem shmem).recorded us).server = (w.recorded us).server := by
        rw [DaemonWorld.recorded_setShmem]
        rfl
      rw [hserver]
      exact Or.inl ⟨_, rfl, congrArg some (w.recorded_server us).symm⟩
  | notify hpc hserver =>
      exact Or.inl ⟨_, by simp [DaemonWorld.atRegistry, hpc, DaemonPc.stats, StatsPc.call?], hserver⟩
  | publish hpc hserver =>
      exact Or.inl ⟨_, by simp [DaemonWorld.atRegistry, hpc, DaemonPc.stats, StatsPc.call?], hserver⟩
  | poller hown hmonitor =>
      rename_i a monitor
      cases hlabel : serverAct? w.watching.monitor a with
      | none => exact Or.inr ⟨hlabel, (monitorSimulation fd).hidden hmonitor hlabel⟩
      | some b => exact Or.inl ⟨b, hlabel, (monitorSimulation fd).shown hmonitor hlabel⟩
  | write hpc hwrite =>
      exact Or.inr ⟨by simp [DaemonWorld.atRegistry, hpc, DaemonPc.stats, StatsPc.call?], rfl⟩
  | store hpc hstore =>
      exact Or.inr ⟨by simp [DaemonWorld.atRegistry, hpc, DaemonPc.stats, StatsPc.call?], rfl⟩
  | loadRx hpc =>
      exact Or.inr ⟨by simp [DaemonWorld.atRegistry, hpc, DaemonPc.stats, StatsPc.call?], rfl⟩
  | loadTx hpc =>
      exact Or.inr ⟨by simp [DaemonWorld.atRegistry, hpc, DaemonPc.stats, StatsPc.call?], rfl⟩
  | reset hpc hdone =>
      exact Or.inr ⟨by simp [DaemonWorld.atRegistry, hpc, DaemonPc.stats, StatsPc.call?], rfl⟩
  | _ => exact Or.inr ⟨rfl, rfl⟩

def daemonRegistry (fd : RawFd) (inbound : ClientId → Inbound) :
    Simulation (daemonSystem fd inbound) (serverSystem fd) where
  proj := DaemonWorld.server
  label := DaemonWorld.atRegistry fd
  init := rfl
  hidden := by
    intro w a t hstep hlabel
    rcases registry_of_step hstep with ⟨b, hb, _⟩ | ⟨_, hsame⟩
    · rw [hb] at hlabel
      cases hlabel
    · exact hsame
  shown := by
    intro w a t b hstep hlabel
    rcases registry_of_step hstep with ⟨b', hb, hserver⟩ | ⟨hnone, _⟩
    · rw [hb] at hlabel
      cases hlabel
      exact hserver
    · rw [hnone] at hlabel
      cases hlabel

/-- The threads of the clients begin no broadcast. -/
theorem ne_broadcast_of_session {w : SessionWorld} {a : SessionAct} {b : ServerAct}
    (hown : a.elsewhere = false) (h : w.atRegistry fd a = some b) (call : BroadcastCall) :
    b ≠ .broadcast call := by
  rintro rfl
  cases a with
  | server a =>
      cases h
      cases hown
  | read id nowMs =>
      simp only [SessionWorld.atRegistry] at h
      split at h
      · cases h
      · cases h
  | _ =>
      simp only [SessionWorld.atRegistry] at h
      rcases Option.map_eq_some_iff.1 h with ⟨t, _, ht⟩
      cases ht

/-- The poller broadcasts radio events and does nothing else at the registry. -/
theorem radioEvent_of_poller {w : MonitorWorld} {a : MonitorAct} {b : ServerAct}
    (hown : a.elsewhere = false) (h : serverAct? w a = some b) :
    ∃ event, b = .broadcast (.radioEvent event) := by
  cases a with
  | emit =>
      rcases Option.map_eq_some_iff.1 h with ⟨event, _, rfl⟩
      exact ⟨event, rfl⟩
  | server a => cases hown
  | _ => cases h

end Registry

/-! ## The sides of a run -/

section Sides

variable {fd : RawFd} {inbound : ClientId → Inbound} {tr : DaemonTrace} {w t : DaemonWorld}
  {a : DaemonAct}

/-! ### The page -/

/-- The step at the page and the ring, and what it does with the counters. -/
def listenActs (fd : RawFd) (w : DaemonWorld) (a : DaemonAct) : List ListenAct :=
  let elsewhere := (w.atRegistry fd a).toList.map fun b => ListenAct.rx (.server b)
  match a with
  | .reapedRx i c => .rx (.reaped i c) :: elsewhere
  | .pop => [.rx .pop]
  | .record _ => .rx .endNotify :: elsewhere
  | .proceed =>
      match w.pc with
      | .popped _ => [.rx .write]
      | .writing _ => [.rx .store]
      | .returned _ => [.rx .notify]
      | _ => elsewhere
  | .page r a => [.client r a]
  | _ => elsewhere

theorem inAudioReady_of_done {w : ServerWorld} (h : w.inDispatcherCall = false) :
    w.inAudioReady = false := by
  unfold ServerWorld.inDispatcherCall at h
  unfold ServerWorld.inAudioReady
  cases hb : w.broadcast with
  | none => rfl
  | some b =>
      rw [hb] at h
      cases hcall : b.call with
      | audioReady seq => simp [hcall, BroadcastCall.ofDispatcher] at h
      | _ => simp [hcall, BroadcastCall.message, ServerMsg.isAudioReady]

/-- Another thread's step at the registry. -/
theorem listen_elsewhere {l : RxWorld} {b : ServerAct} {server : ServerWorld}
    (hother : b.startsAudioReady = false) (hstep : l.server.step fd b = some server) :
    (listenSystem fd).exec l [.rx (.server b)] = some { l with server := server } := by
  simp [System.exec, listenSystem, RxWorld.listen, RxWorld.step, hother, hstep]

theorem startsAudioReady_of_ne {b : ServerAct} (h : ∀ call, b ≠ .broadcast call) :
    b.startsAudioReady = false := by
  cases b with
  | broadcast call => exact absurd rfl (h call)
  | _ => rfl

theorem stored_listening (w : DaemonWorld) (f : AudioFrame) (shmem : ShmemWorld) :
    w.listening.stored f shmem =
      DaemonWorld.listening
        { w with
          shmem := shmem
          pc := .stores f shmem } := by
  cases hwriter : shmem.writer <;>
    simp [RxWorld.stored, DaemonPc.stores, hwriter, DaemonWorld.listening, DaemonPc.dispatch]

theorem listen_of_step (hstep : w.step fd a = some t) :
    (listenSystem fd).exec w.listening (listenActs fd w a) = some t.listening := by
  cases daemonMove_of_step hstep with
  | session hown hsession =>
      rename_i a session
      rcases step_atRegistry hsession with ⟨b, hb, hserver⟩
      -- the clients' threads start no broadcast
      have hother := startsAudioReady_of_ne (ne_broadcast_of_session hown hb)
      simp only [listenActs, DaemonWorld.atRegistry, hb]
      exact listen_elsewhere hother hserver
  | reapedRx hflight =>
      rename_i i c
      have hreap : (listenSystem fd).step w.listening (.rx (.reaped i c)) =
          some { w.listening with loop := (w.reapRx i c).rx } := by
        simp [listenSystem, RxWorld.listen, RxWorld.step, DaemonWorld.listening,
          DaemonWorld.reapRx, hflight]
      exact (System.exec_cons hreap _).trans (listen_elsewhere rfl rfl)
  | dry hpc hempty =>
      simp [listenActs, System.exec, listenSystem, RxWorld.listen, RxWorld.step,
        DaemonWorld.listening, hpc, hempty, DaemonPc.dispatch]
  | pop hpc hitems =>
      simp [listenActs, System.exec, listenSystem, RxWorld.listen, RxWorld.step,
        DaemonWorld.listening, hpc, hitems, DaemonPc.dispatch]
  | write hpc hwrite =>
      simp [listenActs, System.exec, listenSystem, RxWorld.listen, RxWorld.step,
        DaemonWorld.listening, hpc, hwrite, DaemonPc.dispatch]
  | store hpc hstore =>
      rename_i f shmem
      have hstored : (listenSystem fd).step w.listening (.rx .store) =
          some (w.listening.stored f shmem) := by
        simp [listenSystem, RxWorld.listen, RxWorld.step, DaemonWorld.listening, hpc, hstore,
          DaemonPc.dispatch]
      simp only [listenActs, hpc]
      rw [System.exec_cons hstored, stored_listening]
      rfl
  | notify hpc hserver =>
      simp [listenActs, System.exec, listenSystem, RxWorld.listen, RxWorld.step,
        DaemonWorld.listening, hpc, hserver, DaemonPc.dispatch, DaemonWorld.setServer]
  | record hpc hdone hend =>
      rename_i us shmem
      have hended : (listenSystem fd).step w.listening (.rx .endNotify) =
          some
            { w.listening with
              shmem := shmem
              dispatch := .polling } := by
        simp [listenSystem, RxWorld.listen, RxWorld.step, DaemonWorld.listening, hpc, hend,
          DaemonPc.dispatch, inAudioReady_of_done hdone]
      -- first the end of the notification, then the statistics at the end of a window
      refine (System.exec_cons hended _).trans ((listen_elsewhere rfl rfl).trans ?_)
      rw [DaemonWorld.recorded_setShmem]
      by_cases hfull : (w.ticker + 1) % 5000 = 0
      · rw [DaemonWorld.recorded_full us hfull]
        rfl
      · rw [DaemonWorld.recorded_open us hfull]
        rfl
  | loadRx hpc =>
      simp [listenActs, DaemonWorld.atRegistry, hpc, DaemonPc.stats, StatsPc.call?, System.exec,
        DaemonWorld.listening, DaemonPc.dispatch]
  | loadTx hpc =>
      simp [listenActs, DaemonWorld.atRegistry, hpc, DaemonPc.stats, StatsPc.call?, System.exec,
        DaemonWorld.listening, DaemonPc.dispatch]
  | publish hpc hserver =>
      simp only [listenActs, DaemonWorld.atRegistry, hpc, DaemonPc.stats, StatsPc.call?]
      refine (listen_elsewhere rfl hserver).trans ?_
      simp [DaemonWorld.listening, DaemonWorld.setServer, hpc, DaemonPc.dispatch]
  | reset hpc hdone =>
      simp [listenActs, DaemonWorld.atRegistry, hpc, DaemonPc.stats, StatsPc.call?, System.exec,
        DaemonWorld.listening, DaemonPc.dispatch]
  | poller hown hmonitor =>
      rename_i a monitor
      cases hlabel : serverAct? w.watching.monitor a with
      | none =>
          have hsame : monitor.server = w.server := (monitorSimulation fd).hidden hmonitor hlabel
          simp [listenActs, DaemonWorld.atRegistry, hlabel, System.exec, DaemonWorld.listening,
            DaemonWorld.setServer, hsame]
      | some b =>
          have hserver : w.server.step fd b = some monitor.server :=
            (monitorSimulation fd).shown hmonitor hlabel
          have hother : b.startsAudioReady = false := by
            rcases radioEvent_of_poller hown hlabel with ⟨event, rfl⟩
            rfl
          simp only [listenActs, DaemonWorld.atRegistry, hlabel]
          exact listen_elsewhere hother hserver
  | page hpage =>
      simp [listenActs, System.exec, listenSystem, RxWorld.listen, DaemonWorld.listening, hpage]
  | connect hlink => rfl
  | unread hlink => rfl
  | read hlink => rfl

/-- Without the poller, the clients' threads and the statistics. -/
def listenView (fd : RawFd) (inbound : ClientId → Inbound) :
    View (daemonSystem fd inbound) (listenSystem fd) where
  proj := DaemonWorld.listening
  acts := listenActs fd
  init := rfl
  exec := fun _ hstep => listen_of_step hstep

/-! ### The poller and the sockets -/

end Sides

end Cm108Driver
