import Cm108Driver.Server.Registry

/-!
# Moves — what one step of the server can do

`HandlerMove`, `WriterMove` and `ServerMove` list the moves of a handler thread, of a writer thread
and of the whole server, one constructor for each kind; `handlerMove_of_step`, `writerMove_of_step`
and `serverMove_of_step` are the only places where the branches of the step functions are taken
apart.  The invariant `ServerInv` ties the registry to the program counters of the handlers: a
client is registered exactly while its handler is between `register` and `unregister`.
-/

namespace Cm108Driver

open Lib

/-! ## The registry's methods -/

namespace ServerWorld

@[simp] theorem setConn_conns (w : ServerWorld) (id : ClientId) (conn : Connection) :
    (w.setConn id conn).conns = Function.update w.conns id conn := rfl

@[simp] theorem setConn_clients (w : ServerWorld) (id : ClientId) (conn : Connection) :
    (w.setConn id conn).clients = w.clients := rfl

@[simp] theorem setHandler_conns (w : ServerWorld) (id : ClientId) (pc : HandlerPc) :
    (w.setHandler id pc).conns = Function.update w.conns id { w.conns id with handler := pc } := rfl

@[simp] theorem setHandler_clients (w : ServerWorld) (id : ClientId) (pc : HandlerPc) :
    (w.setHandler id pc).clients = w.clients := rfl

@[simp] theorem setHandler_broadcast (w : ServerWorld) (id : ClientId) (pc : HandlerPc) :
    (w.setHandler id pc).broadcast = w.broadcast := rfl

@[simp] theorem setHandler_nextId (w : ServerWorld) (id : ClientId) (pc : HandlerPc) :
    (w.setHandler id pc).nextId = w.nextId := rfl

@[simp] theorem register_conns (w : ServerWorld) (handle : ClientHandle) :
    (w.register handle).conns = w.conns := rfl

@[simp] theorem register_clients (w : ServerWorld) (handle : ClientHandle) :
    (w.register handle).clients = w.clients.insert handle.id handle := rfl

@[simp] theorem trySend_conns (w : ServerWorld) (id : ClientId) (m : ServerMsg) :
    (w.trySend id m).conns = Function.update w.conns id ((w.conns id).trySend m) := rfl

@[simp] theorem trySend_clients (w : ServerWorld) (id : ClientId) (m : ServerMsg) :
    (w.trySend id m).clients = w.clients := rfl

@[simp] theorem updateStreams_conns (w : ServerWorld) (id : ClientId) (s : StreamFlags) :
    (w.updateStreams id s).conns = w.conns := by
  unfold updateStreams
  split
  · rfl
  · rfl

@[simp] theorem updateStreams_broadcast (w : ServerWorld) (id : ClientId) (s : StreamFlags) :
    (w.updateStreams id s).broadcast = w.broadcast := by
  unfold updateStreams
  split
  · rfl
  · rfl

@[simp] theorem updateStreams_nextId (w : ServerWorld) (id : ClientId) (s : StreamFlags) :
    (w.updateStreams id s).nextId = w.nextId := by
  unfold updateStreams
  split
  · rfl
  · rfl

@[simp] theorem mem_updateStreams (w : ServerWorld) (id c : ClientId) (s : StreamFlags) :
    c ∈ (w.updateStreams id s).clients ↔ c ∈ w.clients := by
  unfold updateStreams
  split
  · rename_i h hlookup
    have hmem : id ∈ w.clients := AList.lookup_isSome.1 (by simp [hlookup])
    simp only [AList.mem_insert, or_iff_right_iff_imp]
    rintro rfl
    exact hmem
  · rfl

theorem sendTo_of_mem {w : ServerWorld} {id : ClientId} (h : id ∈ w.clients) (m : ServerMsg) :
    w.sendTo id m = w.trySend id m := by
  cases hlookup : w.clients.lookup id with
  | none => exact absurd h (AList.lookup_eq_none.1 hlookup)
  | some handle => simp [sendTo, hlookup]

/-- Whether the client is registered with flags that the broadcast asks for. -/
def wantedBy (w : ServerWorld) (call : BroadcastCall) (id : ClientId) : Bool :=
  (w.clients.lookup id).any call.wants

theorem mem_of_wantedBy {w : ServerWorld} {call : BroadcastCall} {id : ClientId}
    (h : w.wantedBy call id = true) : id ∈ w.clients := by
  cases hlookup : w.clients.lookup id with
  | none => simp [wantedBy, hlookup] at h
  | some handle => exact AList.lookup_isSome.1 (by simp [hlookup])

/-- The body of a broadcast's loop sends to the client, or does nothing. -/
theorem offer_eq (w : ServerWorld) (call : BroadcastCall) (id : ClientId) :
    w.offer call id = if w.wantedBy call id then w.trySend id call.message else w := by
  cases hlookup : w.clients.lookup id with
  | none => simp [offer, wantedBy, hlookup]
  | some handle => simp [offer, wantedBy, hlookup]

@[simp] theorem offer_clients (w : ServerWorld) (call : BroadcastCall) (id : ClientId) :
    (w.offer call id).clients = w.clients := by
  rw [offer_eq]
  split
  · rfl
  · rfl

@[simp] theorem offer_nextId (w : ServerWorld) (call : BroadcastCall) (id : ClientId) :
    (w.offer call id).nextId = w.nextId := by
  rw [offer_eq]
  split
  · rfl
  · rfl

theorem whenUnlocked_eq_some {w t u : ServerWorld} (h : w.whenUnlocked t = some u) :
    w.broadcast = none ∧ u = t := by
  unfold whenUnlocked at h
  split at h
  · rename_i hlock
    exact ⟨hlock, (Option.some.inj h).symm⟩
  · cases h

end ServerWorld

/-! ## Moves of a handler -/

/-- Between `register` and `unregister`. -/
def HandlerPc.isRegistered : HandlerPc → Bool
  | .registered => true
  | .handshaken => true
  | .serving _ => true
  | .leaving => true
  | _ => false

/-- A reply of `dispatch_client_msg`. -/
def ServerMsg.isReply : ServerMsg → Bool
  | .stats _ _ _ => true
  | .pong => true
  | _ => false

inductive HandlerMove (fd : RawFd) (w : ServerWorld) (id : ClientId) :
    HandlerAct → ServerWorld → Prop where
  | register (hpc : (w.conns id).handler = .allocated) (hlock : w.broadcast = none) :
      HandlerMove fd w id .proceed
        ((w.register { id := id, streams := StreamFlags.empty }).setHandler id .registered)
  | sendFd (hpc : (w.conns id).handler = .registered) :
      HandlerMove fd w id (.sendFd true)
        (w.setConn id
          { w.conns id with
            handler := .handshaken
            sock := (w.conns id).sock ++ [handshake fd] })
  | spawn (hpc : (w.conns id).handler = .handshaken) :
      HandlerMove fd w id (.spawnWriter true)
        (w.setConn id
          { w.conns id with
            handler := .serving .reading
            writer := .idle })
  | leave {a : HandlerAct} (hpc : (w.conns id).handler.isRegistered)
      (hact : a = .sendFd false ∨ a = .spawnWriter false ∨ a = .hangUp) :
      HandlerMove fd w id a (w.setHandler id .leaving)
  | serve {a : HandlerAct} {s : Serving} (next : Serving)
      (hpc : (w.conns id).handler = .serving s) (hquiet : ∀ m, s ≠ .replying m)
      (hact : a = .proceed ∨ ∃ m, a = .request m) (hnext : ∀ m, next = .replying m → m.isReply) :
      HandlerMove fd w id a (w.setHandler id (.serving next))
  | subscribe {streams : StreamFlags}
      (hpc : (w.conns id).handler = .serving (.subscribing streams))
      (hlock : w.broadcast = none) :
      HandlerMove fd w id .proceed
        ((w.updateStreams id streams).setHandler id (.serving .reading))
  | reply {m : ServerMsg} (hpc : (w.conns id).handler = .serving (.replying m))
      (hlock : w.broadcast = none) :
      HandlerMove fd w id .proceed ((w.sendTo id m).setHandler id (.serving .reading))
  | unregister (hpc : (w.conns id).handler = .leaving) (hlock : w.broadcast = none) :
      HandlerMove fd w id .proceed ((w.unregister id).setConn id (w.conns id).finish)

theorem handlerMove_of_serve (fd : RawFd) {w t : ServerWorld} {id : ClientId} {s : Serving}
    (hpc : (w.conns id).handler = .serving s) (h : w.serve id s = some t) :
    HandlerMove fd w id .proceed t := by
  cases s with
  | reading => cases h
  | subscribing streams =>
      rcases ServerWorld.whenUnlocked_eq_some h with ⟨hlock, rfl⟩
      exact .subscribe hpc hlock
  | statsCall =>
      cases h
      exact .serve _ hpc (by simp) (Or.inl rfl) (by simp [ServerMsg.isReply])
  | latencyLoaded lat =>
      cases h
      exact .serve _ hpc (by simp) (Or.inl rfl) (by simp [ServerMsg.isReply])
  | rxLoaded lat rxXruns =>
      cases h
      exact .serve _ hpc (by simp) (Or.inl rfl) (by simp [ServerMsg.isReply])
  | replying m =>
      rcases ServerWorld.whenUnlocked_eq_some h with ⟨hlock, rfl⟩
      exact .reply hpc hlock

/-- Every step of a handler is one of the moves. -/
theorem handlerMove_of_step {fd : RawFd} {w t : ServerWorld} {id : ClientId} {a : HandlerAct}
    (h : w.handlerStep fd id a = some t) : HandlerMove fd w id a t := by
  unfold ServerWorld.handlerStep at h
  split at h
  · rename_i hpc
    rcases ServerWorld.whenUnlocked_eq_some h with ⟨hlock, rfl⟩
    exact .register hpc hlock
  · rename_i hpc
    cases h
    exact .sendFd hpc
  · rename_i hpc
    cases h
    exact .leave (by rw [hpc]; rfl) (Or.inl rfl)
  · rename_i hpc
    cases h
    exact .spawn hpc
  · rename_i hpc
    cases h
    exact .leave (by rw [hpc]; rfl) (Or.inr (Or.inl rfl))
  · rename_i m hpc
    cases h
    refine .serve _ hpc (by simp) (Or.inr ⟨m, rfl⟩) ?_
    intro reply hreply
    cases m with
    | ping =>
        cases hreply
        rfl
    | _ => cases hreply
  · rename_i hpc
    cases h
    exact .leave (by rw [hpc]; rfl) (Or.inr (Or.inr rfl))
  · rename_i s hpc
    exact handlerMove_of_serve fd hpc h
  · rename_i hpc
    rcases ServerWorld.whenUnlocked_eq_some h with ⟨hlock, rfl⟩
    exact .unregister hpc hlock
  · cases h

/-- A handler that moves has been given a connection. -/
theorem HandlerMove.born {fd : RawFd} {w t : ServerWorld} {id : ClientId} {a : HandlerAct}
    (h : HandlerMove fd w id a t) : w.conns id ≠ Connection.unborn := by
  have hpc : (w.conns id).handler ≠ .unborn := by
    cases h with
    | leave hreg hact =>
        intro hunborn
        rw [hunborn] at hreg
        cases hreg
    | _ => simp [*]
  intro hunborn
  exact hpc (by rw [hunborn]; rfl)

@[simp] theorem Connection.trySend_handler (conn : Connection) (m : ServerMsg) :
    (conn.trySend m).handler = conn.handler := by
  unfold trySend
  split
  · rfl
  · rfl

@[simp] theorem Connection.finish_handler (conn : Connection) : conn.finish.handler = .gone := by
  unfold finish
  split
  · rfl
  · rfl

/-- No handler starts, ends or changes a broadcast. -/
theorem HandlerMove.broadcast {fd : RawFd} {w t : ServerWorld} {id : ClientId} {a : HandlerAct}
    (h : HandlerMove fd w id a t) : t.broadcast = w.broadcast := by
  cases h with
  | subscribe hpc hlock => simp
  | reply hpc hlock =>
      unfold ServerWorld.sendTo
      split
      · rfl
      · rfl
  | _ => rfl

/-! ## The moves of a writer thread -/

inductive WriterMove (conn : Connection) : ClientWriterAct → Connection → Prop where
  | dequeue {m : ServerMsg} {queue : Fifo ServerMsg queueCapacity} (hpc : conn.writer = .idle)
      (hpop : conn.queue.pop = some (m, queue)) :
      WriterMove conn .dequeue
        { conn with
          queue := queue
          writer := .sending (writeMsg m) }
  | writeSome {n : Nat} {rest : List UInt8} (hpc : conn.writer = .sending rest)
      (hlt : n < rest.length) :
      WriterMove conn (.write n)
        { conn with
          writer := .sending (rest.drop n)
          sock := conn.sock ++ plain (rest.take n) }
  | writeAll {n : Nat} {rest : List UInt8} (hpc : conn.writer = .sending rest)
      (hle : ¬ n < rest.length) :
      WriterMove conn (.write n)
        { conn with
          writer := .idle
          sock := conn.sock ++ plain rest }
  | fail {rest : List UInt8} (hpc : conn.writer = .sending rest) :
      WriterMove conn .fail { conn.dropReceiver with writer := .failed }

theorem writerMove_of_step {conn conn' : Connection} {a : ClientWriterAct}
    (h : conn.writerStep a = some conn') : WriterMove conn a conn' := by
  cases a with
  | dequeue =>
      simp only [Connection.writerStep] at h
      split at h
      · rename_i hpc hpop
        cases h
        exact .dequeue hpc hpop
      · cases h
  | write n =>
      simp only [Connection.writerStep] at h
      split at h
      · rename_i rest hpc
        split at h
        · rename_i hlt
          cases h
          exact .writeSome hpc hlt
        · rename_i hle
          cases h
          exact .writeAll hpc hle
      · cases h
  | fail =>
      simp only [Connection.writerStep] at h
      split at h
      · rename_i hpc
        cases h
        exact .fail hpc
      · cases h

theorem WriterMove.handler {conn conn' : Connection} {a : ClientWriterAct}
    (h : WriterMove conn a conn') : conn'.handler = conn.handler := by
  cases h with
  | dequeue hpc hpop => rfl
  | writeSome hpc hlt => rfl
  | writeAll hpc hle => rfl
  | fail hpc => rfl

/-- A writer thread that moves has been spawned. -/
theorem WriterMove.started {conn conn' : Connection} {a : ClientWriterAct}
    (h : WriterMove conn a conn') : conn.writer ≠ .notStarted := by
  cases h with
  | dequeue hpc hpop => simp [hpc]
  | writeSome hpc hlt => simp [hpc]
  | writeAll hpc hle => simp [hpc]
  | fail hpc => simp [hpc]

theorem WriterMove.born {conn conn' : Connection} {a : ClientWriterAct}
    (h : WriterMove conn a conn') : conn ≠ Connection.unborn := by
  rintro rfl
  exact h.started rfl

/-! ## The moves of the server -/

inductive ServerMove (fd : RawFd) (w : ServerWorld) : ServerAct → ServerWorld → Prop where
  | connect :
      ServerMove fd w .connect { w.setHandler w.nextId .allocated with nextId := w.nextId + 1 }
  | broadcast (call : BroadcastCall) (hlock : w.broadcast = none) :
      ServerMove fd w (.broadcast call)
        { w with
          broadcast := some
            { call := call
              todo := w.clients.keys } }
  | visit {id : ClientId} {b : Broadcast} (hb : w.broadcast = some b) (hid : id ∈ b.todo) :
      ServerMove fd w (.visit id)
        { w.offer b.call id with broadcast := some { b with todo := b.todo.erase id } }
  | endBroadcast {call : BroadcastCall} (hb : w.broadcast = some { call := call, todo := [] }) :
      ServerMove fd w .endBroadcast { w with broadcast := none }
  | handler {id : ClientId} {b : HandlerAct} {t : ServerWorld} (hmove : HandlerMove fd w id b t) :
      ServerMove fd w (.handler id b) t
  | writer {id : ClientId} {b : ClientWriterAct} {conn : Connection}
      (hmove : WriterMove (w.conns id) b conn) :
      ServerMove fd w (.writer id b) (w.setConn id conn)
  | counters (rxXruns txXruns : UInt64) (lastLatency : LatencyStats) :
      ServerMove fd w (.counters rxXruns txXruns lastLatency)
        { w with
          rxXruns := rxXruns
          txXruns := txXruns
          lastLatency := lastLatency }

theorem serverMove_of_step {fd : RawFd} {w t : ServerWorld} {a : ServerAct}
    (h : w.step fd a = some t) : ServerMove fd w a t := by
  cases a with
  | connect =>
      cases h
      exact .connect
  | broadcast call =>
      rcases ServerWorld.whenUnlocked_eq_some h with ⟨hlock, rfl⟩
      exact .broadcast call hlock
  | visit id =>
      simp only [ServerWorld.step] at h
      split at h
      · rename_i hb
        split at h
        · rename_i hid
          cases h
          exact .visit hb hid
        · cases h
      · cases h
  | endBroadcast =>
      simp only [ServerWorld.step] at h
      split at h
      · rename_i hb
        cases h
        exact .endBroadcast hb
      · cases h
  | handler id b => exact .handler (handlerMove_of_step h)
  | writer id b =>
      rcases Option.map_eq_some_iff.1 h with ⟨conn, hconn, rfl⟩
      exact .writer (writerMove_of_step hconn)
  | counters rxXruns txXruns lastLatency =>
      cases h
      exact .counters rxXruns txXruns lastLatency

/-! ## The registry and the handlers -/

structure ServerInv (w : ServerWorld) : Prop where
  registered : ∀ c, c ∈ w.clients ↔ (w.conns c).handler.isRegistered
  fresh : ∀ c, w.nextId ≤ c → w.conns c = Connection.unborn
  todo : ∀ b, w.broadcast = some b → b.todo.Nodup ∧ ∀ c ∈ b.todo, c ∈ w.clients
  replies : ∀ c m, (w.conns c).handler = .serving (.replying m) → m.isReply

theorem serverInv_start : ServerInv ServerWorld.start := by
  refine ⟨?_, fun _ _ => rfl, ?_, ?_⟩
  · intro c
    simp [ServerWorld.start, Connection.unborn, HandlerPc.isRegistered]
  · intro b hb
    cases hb
  · intro c m hpc
    cases hpc

namespace ServerInv

/-- An id that is still to be allocated belongs to nobody. -/
theorem lt_nextId {w : ServerWorld} (h : ServerInv w) {id : ClientId}
    (hborn : w.conns id ≠ Connection.unborn) : id < w.nextId := by
  by_contra hge
  exact hborn (h.fresh id (Nat.le_of_not_lt hge))

/-- A step of one connection, with what it does to the registry. -/
theorem update {w t : ServerWorld} (h : ServerInv w) {id : ClientId} {conn : Connection}
    (hborn : w.conns id ≠ Connection.unborn) (hconns : t.conns = Function.update w.conns id conn)
    (hnext : t.nextId = w.nextId)
    (hmem : ∀ c, c ∈ t.clients ↔ if c = id then conn.handler.isRegistered else c ∈ w.clients)
    (htodo : ∀ b, t.broadcast = some b → b.todo.Nodup ∧ ∀ c ∈ b.todo, c ∈ t.clients)
    (hreply : ∀ m, conn.handler = .serving (.replying m) → m.isReply) : ServerInv t := by
  refine ⟨?_, ?_, htodo, ?_⟩
  · intro c
    -- the registry, the ids not given out yet, and the replies; `htodo` is the broadcast
    rw [hmem, hconns]
    by_cases hc : c = id
    · subst hc
      simp
    · simpa [hc] using h.registered c
  · intro c hge
    rw [hnext] at hge
    have hne : c ≠ id := by
      rintro rfl
      exact absurd (h.lt_nextId hborn) (Nat.not_lt.2 hge)
    rw [hconns, Function.update_of_ne hne]
    exact h.fresh c hge
  · intro c m hpc
    rw [hconns] at hpc
    by_cases hc : c = id
    · subst hc
      exact hreply m (by simpa using hpc)
    · exact h.replies c m (by simpa [hc] using hpc)

/-- A step of one connection that leaves the registry alone. -/
theorem setConn {w : ServerWorld} (h : ServerInv w) {id : ClientId} {conn : Connection}
    (hborn : w.conns id ≠ Connection.unborn)
    (hreg : conn.handler.isRegistered = (w.conns id).handler.isRegistered)
    (hreply : ∀ m, conn.handler = .serving (.replying m) → m.isReply) :
    ServerInv (w.setConn id conn) := by
  refine h.update hborn rfl rfl ?_ h.todo hreply
  intro c
  by_cases hc : c = id
  · subst hc
    simpa [hreg] using h.registered c
  · simp [hc]

/-- A step of one connection other than its handler's. -/
theorem setConn_sameHandler {w : ServerWorld} (h : ServerInv w) {id : ClientId} {conn : Connection}
    (hborn : w.conns id ≠ Connection.unborn) (hkeep : conn.handler = (w.conns id).handler) :
    ServerInv (w.setConn id conn) :=
  h.setConn hborn (by rw [hkeep]) fun m hpc => h.replies id m (by rw [← hkeep, hpc])

theorem unlocked {w t : ServerWorld} (hlock : w.broadcast = none)
    (hkeep : t.broadcast = w.broadcast) :
    ∀ b, t.broadcast = some b → b.todo.Nodup ∧ ∀ c ∈ b.todo, c ∈ t.clients := by
  intro b hb
  -- without a broadcast there is nobody left to visit
  rw [hkeep, hlock] at hb
  cases hb

theorem handlerMove {fd : RawFd} {w t : ServerWorld} {id : ClientId} {a : HandlerAct}
    (h : ServerInv w) (hmove : HandlerMove fd w id a t) : ServerInv t := by
  have hborn := hmove.born
  cases hmove with
  | register hpc hlock =>
      refine h.update hborn rfl rfl ?_ (unlocked hlock rfl) (by simp)
      intro c
      by_cases hc : c = id
      · simp [HandlerPc.isRegistered, hc]
      · simp [hc]
  | sendFd hpc => exact h.setConn hborn (by rw [hpc]; rfl) (by simp)
  | spawn hpc => exact h.setConn hborn (by rw [hpc]; rfl) (by simp)
  | leave hpc hact => exact h.setConn hborn (by rw [hpc]; rfl) (by simp)
  | serve next hpc hquiet hact hnext =>
      refine h.setConn hborn (by rw [hpc]; rfl) ?_
      intro m hm
      exact hnext m (HandlerPc.serving.inj hm)
  | subscribe hpc hlock =>
      refine h.update hborn (by simp; rfl)
        (by simp) ?_ (unlocked hlock (by simp))
        (by simp)
      intro c
      by_cases hc : c = id
      · subst hc
        simp [h.registered, hpc, HandlerPc.isRegistered]
      · simp [hc]
  | reply hpc hlock =>
      have hmem : id ∈ w.clients := (h.registered id).2 (by rw [hpc]; rfl)
      rw [ServerWorld.sendTo_of_mem hmem]
      refine h.update hborn
        (by simp; rfl) rfl ?_ (unlocked hlock rfl)
        (by simp)
      intro c
      by_cases hc : c = id
      · subst hc
        simp [hmem, HandlerPc.isRegistered]
      · simp [hc]
  | unregister hpc hlock =>
      refine h.update hborn rfl rfl ?_ (unlocked hlock rfl) (by simp)
      intro c
      by_cases hc : c = id
      · subst hc
        simp [ServerWorld.unregister, HandlerPc.isRegistered]
      · simp [ServerWorld.unregister, hc]

theorem offer {w : ServerWorld} (h : ServerInv w) (call : BroadcastCall) (id : ClientId) :
    ServerInv (w.offer call id) := by
  rw [ServerWorld.offer_eq]
  split
  · rename_i hwanted
    have hreg := (h.registered id).1 (ServerWorld.mem_of_wantedBy hwanted)
    refine h.setConn_sameHandler ?_ (by simp)
    intro hunborn
    rw [hunborn] at hreg
    cases hreg
  · exact h

theorem step {fd : RawFd} {w t : ServerWorld} {a : ServerAct} (h : ServerInv w)
    (hstep : w.step fd a = some t) : ServerInv t := by
  cases serverMove_of_step hstep with
  | connect =>
      refine ⟨?_, ?_, h.todo, ?_⟩
      · intro c
        by_cases hc : c = w.nextId
        · subst hc
          have hfresh := h.fresh w.nextId (Nat.le_refl _)
          simp [h.registered, hfresh, Connection.unborn, HandlerPc.isRegistered]
        · simpa [hc] using h.registered c
      · intro c hge
        have hlt : w.nextId < c := hge
        have hne : c ≠ w.nextId := (Nat.ne_of_lt hlt).symm
        simpa [hne] using h.fresh c (Nat.le_of_lt hlt)
      · intro c m hpc
        by_cases hc : c = w.nextId
        · subst hc
          simp at hpc
        · exact h.replies c m (by simpa [hc] using hpc)
  | broadcast call hlock =>
      -- every registered client is to be visited, each once
      refine ⟨h.registered, h.fresh, ?_, h.replies⟩
      intro b hb
      cases hb
      exact ⟨w.clients.keys_nodup, fun c hc => AList.mem_keys.2 hc⟩
  | visit hb hid =>
      rename_i id b
      have hoffer := h.offer b.call id
      refine ⟨hoffer.registered, hoffer.fresh, ?_, hoffer.replies⟩
      intro b' hb'
      cases hb'
      rcases h.todo b hb with ⟨hnodup, hmem⟩
      refine ⟨hnodup.erase id, fun c hc => ?_⟩
      simpa using hmem c (List.mem_of_mem_erase hc)
  | endBroadcast hb =>
      refine ⟨h.registered, h.fresh, ?_, h.replies⟩
      intro b hb'
      cases hb'
  | handler hmove => exact h.handlerMove hmove
  | writer hmove => exact h.setConn_sameHandler hmove.born hmove.handler
  | counters rxXruns txXruns lastLatency => exact ⟨h.registered, h.fresh, h.todo, h.replies⟩

end ServerInv

end Cm108Driver
