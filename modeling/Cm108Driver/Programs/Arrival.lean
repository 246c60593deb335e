import Cm108Driver.Programs.Daemon
import Cm108Driver.Server.Responsive
import Cm108Driver.Shmem.Progress

/-!
# Arrival — what is recorded reaches the page and the clients

Nothing that a client does keeps the dispatch thread waiting: its stores, its notifications and its
statistics depend on no reader and on no socket, and the registry's mutex is only ever held for a
bounded number of steps.  So the frames in the ring are written within a number of steps that can be
read off the state, and a client that calls `read_audio_latest` then has the last of them.
-/

namespace Cm108Driver

open Lib

namespace Arrival

/-! ## The steps of the dispatch thread -/

/-- A step of the dispatch thread, or of the broadcast that has the mutex. -/
def dispatching : DaemonAct → Prop
  | .pop => True
  | .proceed => True
  | .record _ => True
  | .session (.server (.visit _)) => True
  | .session (.server .endBroadcast) => True
  | _ => False

/-- The ring is empty, and the dispatch thread is about to sleep. -/
def drained (w : DaemonWorld) : Bool :=
  match w.pc with
  | .polling => w.rx.ring.ring.items.isEmpty
  | _ => false

/-- The stores that `AudioShmem::write` has yet to make. -/
def storesLeft : WriterPc → Nat
  | .loaded _ _ => frameBytes + 2
  | .copying _ _ i => frameBytes - i + 1
  | _ => 0

/-- What the dispatch thread has yet to do in the body of its loop, with `n` clients registered: the
sample behind its `notify_audio_ready` may be the last of its window. -/
def bodyLeft (n : Nat) (writer : WriterPc) : DaemonPc → Nat
  | .polling => 0
  | .popped _ => frameBytes + 2 * n + 11
  | .writing _ => storesLeft writer + 2 * n + 8
  | .returned _ => 2 * n + 8
  | .notifying => n + 6
  | .stored _ => n + 5
  | .rxLoaded _ _ => n + 4
  | .txLoaded _ _ _ => n + 3
  | .publishing => 1

/-- What it has yet to do for all frames, and the broadcast under way. -/
def dispatchLeft (w : DaemonWorld) : Nat :=
  w.rx.ring.ring.items.length * (frameBytes + 2 * w.server.clients.keys.length + 12) +
    bodyLeft w.server.clients.keys.length w.shmem.writer w.pc + w.server.stepsLeft

section Step

variable {fd : RawFd} {w t : DaemonWorld} {a : DaemonAct}

theorem drained_iff : drained w = true ↔ w.pc = .polling ∧ w.rx.ring.ring.items = [] := by
  unfold drained
  cases w.pc <;> simp

/-- The broadcast that has the mutex goes on. -/
theorem mutex_enabled {b : Broadcast} (h : w.server.broadcast = some b) :
    ∃ a t, dispatching a ∧ w.step fd a = some t := by
  cases b with
  | mk call todo =>
      cases todo with
      | nil =>
          exact ⟨.session (.server .endBroadcast), _, trivial,
            by simp [DaemonWorld.step, SessionAct.elsewhere, SessionWorld.step,
              ServerAct.ofSession, ServerWorld.step, h]; rfl⟩
      | cons id todo =>
          exact ⟨.session (.server (.visit id)), _, trivial,
            by simp [DaemonWorld.step, SessionAct.elsewhere, SessionWorld.step,
              ServerAct.ofSession, ServerWorld.step, h]; rfl⟩

theorem inDispatcherCall_free {w : ServerWorld} (hlock : w.broadcast = none) :
    w.inDispatcherCall = false := by
  simp [ServerWorld.inDispatcherCall, hlock]

/-- The dispatch thread goes on, or those that it waits for. -/
theorem dispatching_enabled (h : Pipe.WriterAt w.listening) (hgoal : ¬ drained w = true) :
    ∃ a t, dispatching a ∧ w.step fd a = some t := by
  -- the two calls that the thread makes, once the mutex is free
  have hcall : ∀ call pc, w.server.broadcast = none →
      ∃ t, w.enter fd call pc = some t := by
    intro call pc hlock
    exact ⟨_, by simp [DaemonWorld.enter, ServerWorld.step, ServerWorld.whenUnlocked, hlock]; rfl⟩
  cases hpc : w.pc with
  | polling =>
      cases hitems : w.rx.ring.ring.items with
      | nil => exact absurd (drained_iff.2 ⟨hpc, hitems⟩) hgoal
      | cons f fs => exact ⟨.pop, _, trivial, by simp [DaemonWorld.step, hpc, hitems]; rfl⟩
  | popped f =>
      have hidle : w.shmem.writer = .idle := by
        simpa [Pipe.WriterAt, DaemonWorld.listening, hpc, DaemonPc.dispatch] using h
      exact ⟨.proceed, _, trivial,
        by simp [DaemonWorld.step, DaemonWorld.proceed, hpc, ShmemWorld.writerStep, hidle]; rfl⟩
  | writing f =>
      have hstore : ∃ shmem, w.shmem.store = some shmem := by
        -- between `fetch_add` and the return of `write` there is always a store to make
        simp only [Pipe.WriterAt, DaemonWorld.listening, hpc, DaemonPc.dispatch] at h
        rcases h with ⟨cur, hwriter⟩ | ⟨cur, i, hwriter⟩
        · exact ⟨_, by simp [ShmemWorld.store, hwriter]; rfl⟩
        · by_cases hi : i < frameBytes
          · exact ⟨_, by simp [ShmemWorld.store, hwriter, hi]; rfl⟩
          · exact ⟨_, by simp [ShmemWorld.store, hwriter, hi]; rfl⟩
      rcases hstore with ⟨shmem, hstore⟩
      exact ⟨.proceed, _, trivial,
        by simp [DaemonWorld.step, DaemonWorld.proceed, hpc, hstore]; rfl⟩
  | returned seq =>
      cases hlock : w.server.broadcast with
      | some b => exact mutex_enabled hlock
      | none =>
          rcases hcall (.audioReady seq) .notifying hlock with ⟨t, ht⟩
          exact ⟨.proceed, t, trivial, by simpa [DaemonWorld.step, DaemonWorld.proceed, hpc] using ht⟩
  | notifying =>
      cases hlock : w.server.broadcast with
      | some b => exact mutex_enabled hlock
      | none =>
          simp only [Pipe.WriterAt, DaemonWorld.listening, hpc, DaemonPc.dispatch] at h
          -- its own call is over, so that nothing keeps it from `record`
          rcases h with ⟨seq, hwriter⟩
          exact ⟨.record 0, _, trivial,
            by simp [DaemonWorld.step, hpc, inDispatcherCall_free hlock, ShmemWorld.writerStep,
              hwriter]; rfl⟩
  | stored snap =>
      exact ⟨.proceed, _, trivial, by simp [DaemonWorld.step, DaemonWorld.proceed, hpc]; rfl⟩
  | rxLoaded snap rx =>
      exact ⟨.proceed, _, trivial, by simp [DaemonWorld.step, DaemonWorld.proceed, hpc]; rfl⟩
  | txLoaded snap rx tx =>
      cases hlock : w.server.broadcast with
      | some b => exact mutex_enabled hlock
      | none =>
          rcases hcall (.stats rx tx snap) .publishing hlock with ⟨t, ht⟩
          exact ⟨.proceed, t, trivial, by simpa [DaemonWorld.step, DaemonWorld.proceed, hpc] using ht⟩
  | publishing =>
      cases hlock : w.server.broadcast with
      | some b => exact mutex_enabled hlock
      | none =>
          exact ⟨.proceed, _, trivial,
            by simp [DaemonWorld.step, DaemonWorld.proceed, hpc, inDispatcherCall_free hlock]; rfl⟩

/-- Every store is one less to make; behind the last one `write` returns. -/
theorem store_lowers {s shmem : ShmemWorld} {f : AudioFrame} (n : Nat) (hstore : s.store = some shmem) :
    bodyLeft n shmem.writer (.stores f shmem) < bodyLeft n s.writer (.writing f) := by
  cases hwriter : s.writer with
  | loaded frame cur =>
      simp only [ShmemWorld.store, hwriter, Option.some.injEq] at hstore
      subst hstore
      simp [DaemonPc.stores, bodyLeft, storesLeft]
  | copying frame cur i =>
      by_cases hi : i < frameBytes
      · simp only [ShmemWorld.store, hwriter, dif_pos hi, Option.some.injEq] at hstore
        subst hstore
        simp only [DaemonPc.stores, bodyLeft, storesLeft]
        omega
      · simp only [ShmemWorld.store, hwriter, dif_neg hi, Option.some.injEq] at hstore
        subst hstore
        simp only [DaemonPc.stores, bodyLeft, storesLeft]
        omega
  | _ => simp [ShmemWorld.store, hwriter] at hstore

/-- A broadcast takes the mutex. -/
theorem enters {call : BroadcastCall} {s s' : ServerWorld}
    (hserver : s.step fd (.broadcast call) = some s') :
    s'.clients = s.clients ∧ s.stepsLeft = 0 ∧ s'.stepsLeft = s.clients.keys.length + 1 := by
  rcases ServerWorld.whenUnlocked_eq_some hserver with ⟨hlock, rfl⟩
  exact ⟨rfl, by simp [ServerWorld.stepsLeft, hlock], rfl⟩

/-- The sample is recorded; behind the last one of a window the statistics are to come. -/
theorem recorded_lowers (us : UInt32) (n : Nat) (writer writer' : WriterPc) :
    bodyLeft n writer (w.recorded us).pc < bodyLeft n writer' .notifying := by
  by_cases hfull : (w.ticker + 1) % 5000 = 0
  · simp [DaemonWorld.recorded_full us hfull, bodyLeft]
  · simp [DaemonWorld.recorded_open us hfull, bodyLeft]

theorem dispatching_lowers (hgoal : drained w = false) (ha : dispatching a)
    (hstep : w.step fd a = some t) : dispatchLeft t < dispatchLeft w := by
  cases daemonMove_of_step hstep with
  | dry hpc hempty =>
      rw [drained_iff.2 ⟨hpc, hempty⟩] at hgoal
      cases hgoal
  | pop hpc hitems =>
      -- one frame less in the ring pays for all that the thread will do with it
      rcases Fifo.pop_of_items hitems with ⟨ring, hpop, hrest⟩
      simp only [dispatchLeft, DaemonWorld.server, LoopWorld.peer, hpop, hrest, hitems, hpc, bodyLeft,
        List.length_cons, Nat.succ_mul]
      omega
  | write hpc hwrite =>
      cases dispatchMove_of_step hwrite with
      | write frame hidle =>
          simp only [dispatchLeft, DaemonWorld.server, hpc, bodyLeft, storesLeft]
          omega
  | store hpc hstore =>
      rename_i f shmem
      have hlower := store_lowers (f := f) w.server.clients.keys.length hstore
      rw [← hpc] at hlower
      exact Nat.add_lt_add_right (Nat.add_lt_add_left hlower _) _
  | notify hpc hserver =>
      -- the visits to come are counted at the broadcast from now on
      rcases enters hserver with ⟨hclients, hfree, hsteps⟩
      simp only [dispatchLeft, DaemonWorld.server, DaemonWorld.setServer, hpc, bodyLeft, hclients, hfree, hsteps]
      omega
  | record hpc hdone hend =>
      rename_i us shmem
      have hlower := recorded_lowers (w := w.setShmem shmem) us w.server.clients.keys.length
        ((w.setShmem shmem).recorded us).shmem.writer w.shmem.writer
      have hclients : ((w.setShmem shmem).recorded us).server.clients = w.server.clients := by
        rw [DaemonWorld.recorded_server]
        rfl
      have hsteps : ((w.setShmem shmem).recorded us).server.stepsLeft = w.server.stepsLeft := by
        rw [DaemonWorld.recorded_server]
        rfl
      have hrx : ((w.setShmem shmem).recorded us).rx = w.rx := (DaemonWorld.recorded_same _ us).1
      simp only [dispatchLeft, hpc, hclients, hsteps, hrx]
      omega
  | loadRx hpc =>
      simp only [dispatchLeft, DaemonWorld.server, hpc, bodyLeft]
      omega
  | loadTx hpc =>
      simp only [dispatchLeft, DaemonWorld.server, hpc, bodyLeft]
      omega
  | publish hpc hserver =>
      rcases enters hserver with ⟨hclients, hfree, hsteps⟩
      simp only [dispatchLeft, DaemonWorld.server, DaemonWorld.setServer, hpc, bodyLeft, hclients, hfree, hsteps]
      omega
  | reset hpc hdone =>
      simp only [dispatchLeft, DaemonWorld.server, hpc, bodyLeft]
      omega
  | session hown hsession =>
      cases sessionStep_of_step hsession with
      | server hother hserver =>
          cases serverMove_of_step hserver with
          -- of the steps at the registry only those of the broadcast are among `dispatching`
          | visit hb hid =>
              have hpos := List.length_pos_of_mem hid
              simp only [dispatchLeft, DaemonWorld.server, ServerWorld.stepsLeft, hb, List.length_erase_of_mem hid,
                ServerWorld.offer_clients]
              omega
          | endBroadcast hb =>
              simp only [dispatchLeft, DaemonWorld.server, ServerWorld.stepsLeft, hb]
              omega
          | _ => cases ha
      | _ => cases ha
  | _ => cases ha

theorem readers_dispatching (ha : dispatching a) (hstep : w.step fd a = some t) :
    t.shmem.readers = w.shmem.readers := by
  cases daemonMove_of_step hstep with
  | write hpc hwrite => exact (dispatchMove_of_step hwrite).readers
  | store hpc hstore => exact (dispatchMove_of_step (a := .store) hstore).readers
  | record hpc hdone hend =>
      rw [DaemonWorld.recorded_setShmem]
      exact (dispatchMove_of_step hend).readers
  | page hpage => cases ha
  | _ => rfl

end Step

/-! ## A call of `read_audio_latest` -/

/-- The call, the counter, the bytes, the counter again. -/
def readLatestCall : List ReaderAct :=
  .readLatest :: .access :: (List.replicate frameBytes .access ++ [.access])

theorem exec_readLatestCall {s : ShmemWorld} {r : Nat} (hpc : (s.readers r).pc = .idle)
    (heven : s.page.seq % 2 = 0) :
    shmemSystem.exec s (readLatestCall.map (ShmemAct.client r)) =
      some (s.setReader r
        { s.readers r with
          pc := .idle
          notified := none
          before := s.written.length
          returns := (s.readers r).returns ++
            [{ notified := none
               before := s.written.length
               seq := s.page.seq
               frame := s.page.data }] }) := by
  have hcall : shmemSystem.step s (.client r .readLatest) =
      some (s.setReader r ((s.readers r).enter none s.written.length)) := by
    simp [shmemSystem, ShmemWorld.step, Reader.step, hpc]
  have hread := exec_read (r := r)
    (w := s.setReader r ((s.readers r).enter none s.written.length))
    (by simp [Reader.enter]) heven
  have hacts : readLatestCall.map (ShmemAct.client r) =
      .client r .readLatest :: accessesOfRead r := by
    simp [readLatestCall, accessesOfRead]
  rw [hacts, System.exec_cons hcall, hread]
  simp [Reader.enter]

/-- What a client does at the page it does in the whole system. -/
theorem exec_page (fd : RawFd) (inbound : ClientId → Inbound) {r : Nat} {as : List ReaderAct}
    {w : DaemonWorld} {s : ShmemWorld}
    (h : shmemSystem.exec w.shmem (as.map (ShmemAct.client r)) = some s) :
    (daemonSystem fd inbound).exec w (as.map (DaemonAct.page r)) = some { w with shmem := s } := by
  induction as generalizing w with
  | nil =>
      cases h
      rfl
  | cons a as ih =>
      rcases Option.bind_eq_some_iff.1 h with ⟨u, hstep, hrest⟩
      have hpage : (daemonSystem fd inbound).step w (.page r a) = some { w with shmem := u } :=
        Option.map_eq_some_iff.2 ⟨u, hstep, rfl⟩
      rw [List.map_cons, System.exec_cons hpage]
      exact ih hrest


/-! ## Whole runs -/

section Runs

variable {fd : RawFd} {inbound : ClientId → Inbound} {tr : DaemonTrace} {w t : DaemonWorld}
  {a : DaemonAct}

/-- The run of the RX loop, the dispatch thread and the clients at the page in a run. -/
abbrev listenTrace (fd : RawFd) (inbound : ClientId → Inbound) (tr : DaemonTrace) : ListenTrace :=
  (listenView fd inbound).trace tr

/-- The frames that went into the ring: of the packets that brought data, those that found room. -/
def recorded (fd : RawFd) (inbound : ClientId → Inbound) (tr : DaemonTrace) : List AudioFrame :=
  Listen.recorded fd (listenTrace fd inbound tr)

/-- All frames converted, those that found no room included. -/
def converted (fd : RawFd) (inbound : ClientId → Inbound) (tr : DaemonTrace) : List AudioFrame :=
  Rx.converted (Listen.rxLoopTrace fd (listenTrace fd inbound tr))

theorem writerAt_of_trace (h : Trace (daemonSystem fd inbound) tr w) : Pipe.WriterAt w.listening :=
  (Pipe.pipeInv_of_trace ((Listen.pipeSimulation fd).run ((listenView fd inbound).run h))).writer

theorem dispatching_ranked (fd : RawFd) (inbound : ClientId → Inbound) :
    Ranked ((daemonSystem fd inbound).stoppedAt drained)
      (fun w => ∃ tr, Trace (daemonSystem fd inbound) tr w) dispatching
      (fun w => drained w = true) dispatchLeft where
  keeps := fun ⟨_, h⟩ _ hstep => ⟨_, h.snoc (System.step_of_stoppedAt hstep).2⟩
  enabled := by
    intro w ⟨tr, h⟩ hgoal
    have hmore : ∃ a t, dispatching a ∧ w.step fd a = some t :=
      dispatching_enabled (writerAt_of_trace h) hgoal
    rcases hmore with ⟨a, t, ha, hstep⟩
    exact ⟨a, t, ha, by simp [System.stoppedAt, hgoal, daemonSystem, hstep]⟩
  lowers := by
    intro w a t _ ha hstep
    have hboth := System.step_of_stoppedAt hstep
    exact dispatching_lowers hboth.1 ha hboth.2

/-! ### Nothing more is recorded -/

/-- Only a completion offers a frame to the ring. -/
def quiet : ListenAct → Prop
  | .rx (.reaped _ _) => False
  | _ => True

theorem offers_quiet {l : ListenTrace} (h : Guarded (fun _ b => quiet b) l) :
    Rx.offers (Listen.rxLoopTrace fd l) = [] := by
  rw [Rx.offers, List.filterMap_eq_nil_iff]
  intro p hp
  rcases List.mem_filterMap.1 hp with ⟨q, hq, hpq⟩
  rcases List.mem_filterMap.1 hq with ⟨⟨u, b⟩, hmem, hqb⟩
  have hquiet := h _ hmem
  cases b with
  | client r b => cases hqb
  | rx b =>
      cases hqb
      cases b with
      | reaped i c => cases hquiet
      | pop =>
          cases hpq
          rfl
      | _ => cases hpq

theorem quiet_dispatching (ha : dispatching a) : ∀ b ∈ listenActs fd w a, quiet b := by
  have helsewhere : ∀ b ∈ (w.atRegistry fd a).toList.map fun b => ListenAct.rx (.server b),
      quiet b := by
    intro b hb
    rcases List.mem_map.1 hb with ⟨b', _, rfl⟩
    trivial
  intro b hb
  cases a with
  -- `reapedRx` alone shows at the ring as a completion
  | reapedRx i c => cases ha
  | pop =>
      rw [List.mem_singleton.1 hb]
      trivial
  | record us =>
      rcases List.mem_cons.1 hb with rfl | hb
      · trivial
      · exact helsewhere b hb
  | proceed =>
      simp only [listenActs] at hb
      split at hb
      · rw [List.mem_singleton.1 hb]
        trivial
      · rw [List.mem_singleton.1 hb]
        trivial
      · rw [List.mem_singleton.1 hb]
        trivial
      · exact helsewhere b hb
  | page r a => cases ha
  | _ => exact helsewhere b hb

/-- The dispatch thread offers nothing to the ring. -/
theorem offers_exec {as : List DaemonAct} (has : ∀ a ∈ as, dispatching a) :
    Rx.offers (Listen.rxLoopTrace fd
        (listenTrace fd inbound (tr ++ (daemonSystem fd inbound).steps w as))) =
      Rx.offers (Listen.rxLoopTrace fd (listenTrace fd inbound tr)) := by
  have hdispatch : Guarded (fun _ a => dispatching a) ((daemonSystem fd inbound).steps w as) :=
    System.guarded_steps (fun a ha _ => has a ha) w
  have hquiet : Guarded (fun _ b => quiet b)
      (listenTrace fd inbound ((daemonSystem fd inbound).steps w as)) := by
    intro p hp
    rcases List.mem_flatMap.1 hp with ⟨q, hq, hpq⟩
    exact System.guarded_steps (fun b hb _ => quiet_dispatching (hdispatch q hq) b hb) _ p hpq
  have hnone : Rx.offers (Listen.rxLoopTrace fd
      (listenTrace fd inbound ((daemonSystem fd inbound).steps w as))) = [] := offers_quiet hquiet
  simp only [Rx.offers, Simulation.trace, View.trace, List.flatMap_append,
    List.filterMap_append] at hnone ⊢
  rw [hnone, List.append_nil]

/-! ### All is written -/

/-- With an empty ring and nothing in hand, all that was recorded is on the page. -/
theorem written_of_drained (h : Trace (daemonSystem fd inbound) tr w) (hdrained : drained w = true) :
    w.shmem.written.map WriteRecord.frame = (recorded fd inbound tr).map AudioFrame.image := by
  rcases drained_iff.1 hdrained with ⟨hpc, hitems⟩
  have hlisten := (listenView fd inbound).run h
  rcases Pipe.frames_enqueued ((Listen.pipeSimulation fd).run hlisten) with
    ⟨fs, hwritten, henqueued⟩
  have hhand : Pipe.inHand w.listening = [] := by
    simp [Pipe.inHand, DaemonWorld.listening, hpc, DaemonPc.dispatch]
  change w.shmem.written.map WriteRecord.frame = _ at hwritten
  change fs ++ Pipe.inHand w.listening ++ w.rx.ring.ring.items = recorded fd inbound tr at henqueued
  rw [hhand, hitems, List.append_nil, List.append_nil] at henqueued
  rw [hwritten, henqueued]

/-- What becomes of the frames recorded so far. -/
structure Arrives (fd : RawFd) (inbound : ClientId → Inbound) (tr : DaemonTrace) (w : DaemonWorld) :
    Prop where
  settles : Settles ((daemonSystem fd inbound).stoppedAt drained) dispatching
    (fun t => drained t = true) (dispatchLeft w) w
  written : ∀ as t, (∀ a ∈ as, dispatching a) → (daemonSystem fd inbound).exec w as = some t →
    drained t = true →
    t.shmem.written.map WriteRecord.frame = (recorded fd inbound tr).map AudioFrame.image
  /-- By a client between two calls. -/
  heard : ∀ as t r, (∀ a ∈ as, dispatching a) → (daemonSystem fd inbound).exec w as = some t →
    drained t = true → (w.shmem.readers r).pc = .idle →
    ∃ u ret, (daemonSystem fd inbound).exec t (readLatestCall.map (DaemonAct.page r)) = some u ∧
      (u.shmem.readers r).returns = (w.shmem.readers r).returns ++ [ret] ∧
      ret.seq.toNat = 2 * (recorded fd inbound tr).length ∧
      ret.frame =
        (Listen.frameNo (recorded fd inbound tr) (recorded fd inbound tr).length).image

/-- From every reachable state, whoever reads or does not read: by steps of the dispatch thread and
of the broadcast that has the mutex alone, at most as many as `dispatchLeft` says, all frames
recorded so far come to the page; and then a client that calls `read_audio_latest` returns the last
of them, within as many accesses as the page has bytes to copy and counters to load. -/
theorem frames_arrive (h : Trace (daemonSystem fd inbound) tr w)
    (hsmall : (converted fd inbound tr).length < 2 ^ 63) : Arrives fd inbound tr w := by
  refine
    { settles := (dispatching_ranked fd inbound).settles ⟨tr, h⟩
      written := ?_
      heard := ?_ }
  · intro as t has hexec hdrained
    have hwritten := written_of_drained (h.exec hexec) hdrained
    rwa [recorded, Listen.recorded, Rx.enqueued, offers_exec has] at hwritten
  · intro as t r has hexec hdrained hidle
    have htrace := h.exec hexec
    have hlisten := (listenView fd inbound).run htrace
    have hoffers : Rx.offers (Listen.rxLoopTrace fd
        (listenTrace fd inbound (tr ++ (daemonSystem fd inbound).steps w as))) =
          Rx.offers (Listen.rxLoopTrace fd (listenTrace fd inbound tr)) := offers_exec has
    have hrecorded : recorded fd inbound (tr ++ (daemonSystem fd inbound).steps w as) =
        recorded fd inbound tr := by
      rw [recorded, Listen.recorded, Rx.enqueued, hoffers]
      rfl
    have hreaders : t.shmem.readers = w.shmem.readers :=
      System.exec_keeps (P := fun t => t.shmem.readers = w.shmem.readers)
        (fun hsame ha hstep => (readers_dispatching ha hstep).trans hsame) rfl has hexec
    -- the writer is idle, so that the page holds the last of the frames written
    have hcount : t.shmem.written.length = (recorded fd inbound tr).length := by
      have hwritten := congrArg List.length (written_of_drained htrace hdrained)
      rwa [List.length_map, List.length_map, hrecorded] at hwritten
    have hbegun := Listen.begun_lt hlisten (by rwa [Rx.converted, hoffers])
    have hpage := (shmemInv_of_trace ((Listen.pageSimulation fd).run hlisten) hbegun).page
    have hwriter := writerAt_of_trace htrace
    simp only [Pipe.WriterAt, DaemonWorld.listening, (drained_iff.1 hdrained).1,
      DaemonPc.dispatch] at hwriter
    change PageInv t.shmem.page t.shmem.written t.shmem.writer at hpage
    rw [hwriter] at hpage
    have hseq : t.shmem.page.seq.toNat = 2 * (recorded fd inbound tr).length := by
      rw [hpage.seq, hcount]
    have heven : t.shmem.page.seq % 2 = 0 := by
      by_contra hodd
      have hmod := toNat_mod_two_ne.1 hodd
      omega
    have hlast := Listen.frameAt_recorded hlisten (k := t.shmem.written.length) (Nat.le_refl _)
    change frameAt t.shmem.written t.shmem.written.length = (Listen.frameNo
      (recorded fd inbound (tr ++ (daemonSystem fd inbound).steps w as)) _).image at hlast
    refine
      ⟨_,
        { notified := none
          before := t.shmem.written.length
          seq := t.shmem.page.seq
          frame := t.shmem.page.data },
        exec_page fd inbound (exec_readLatestCall (by rw [hreaders]; exact hidle) heven), ?_, hseq,
        ?_⟩
    · rw [ShmemWorld.setReader_readers, hreaders]
    · rw [hpage.data, hlast, hcount, hrecorded]

end Runs

/-- A packet is in the ring, client 1 is registered, and a radio event is being broadcast. -/
def oneBehind : List DaemonAct :=
  [.reapedRx 0 (Rx.packetOf 100 (by decide)), .session (.server .connect),
    .session (.server (.handler 1 .proceed)), .poller (.poll (.report ⟨1⟩)), .poller .emit]

theorem frames_arrive_oneBehind :
    ∃ tr w, Trace (daemonSystem 7 Session.pingAndMore) tr w ∧
      (recorded 7 Session.pingAndMore tr).length = 1 ∧ w.shmem.written = [] ∧
      w.server.broadcast.isSome = true ∧ dispatchLeft w = 208 ∧
      Arrives 7 Session.pingAndMore tr w := by
  have hrun := Trace.start.exec
    (show (daemonSystem 7 Session.pingAndMore).exec (DaemonWorld.start Session.pingAndMore)
      oneBehind = some _ from rfl)
  exact ⟨_, _, hrun, rfl, rfl, rfl, rfl, frames_arrive hrun (by decide)⟩

end Arrival

end Cm108Driver
