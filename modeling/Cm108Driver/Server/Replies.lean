import Cm108Driver.Server.Convergence

/-!
# Replies — what becomes of a `Ping` or a `GetStats`

Every such request makes its handler pass one reply to `try_send`, and a handler works on one
request at a time, so that replies are sent in the order of the requests.  They share the queue
with the broadcasts, and the result of `try_send` is ignored: a reply that finds 128 messages in the
queue is gone.

`posted` is the history of everything sent to a client, with whether it is a reply and whether it
goes into the queue; `outbound` is what does.
-/

namespace Cm108Driver

open Lib

/-! ## Histories -/

def ClientMsg.wantsReply : ClientMsg → Bool
  | .ping => true
  | .getStats => true
  | _ => false

/-- The request that a reply answers. -/
def requestOf : ServerMsg → ClientMsg
  | .pong => .ping
  | _ => .getStats

/-- `try_send` succeeds: the receiver is there, and the queue is not full. -/
def Connection.hasRoom (conn : Connection) : Bool :=
  conn.receiving && decide (conn.queue.items.length < queueCapacity)

namespace Replies

def request? (c : ClientId) : ServerAct → Option ClientMsg
  | .handler id (.request m) => if id = c ∧ m.wantsReply then some m else none
  | _ => none

/-- The requests of `c` that `dispatch_client_msg` has been called for. -/
def requests (c : ClientId) (tr : ServerTrace) : List ClientMsg :=
  tr.filterMap fun p => request? c p.2

/-- A message passed to `try_send`: whether it is a reply, and whether it goes into the queue. -/
structure Posted where
  message : ServerMsg
  reply : Bool
  queued : Bool

def isHandler : ServerAct → Bool
  | .handler _ _ => true
  | _ => false

def posted (c : ClientId) (tr : ServerTrace) : List Posted :=
  tr.filterMap fun p => (sent? c p.1 p.2).map fun m =>
    { message := m
      reply := isHandler p.2
      queued := (p.1.conns c).hasRoom }

def replies (c : ClientId) (tr : ServerTrace) : List Posted := (posted c tr).filter Posted.reply

/-- The outbound sequence of `c`. -/
def outbound (c : ClientId) (tr : ServerTrace) : List Posted := (posted c tr).filter Posted.queued

/-- The request that a handler works on. -/
def inProgress : HandlerPc → List ClientMsg
  | .serving .statsCall => [.getStats]
  | .serving (.latencyLoaded _) => [.getStats]
  | .serving (.rxLoaded _ _) => [.getStats]
  | .serving (.replying m) => [requestOf m]
  | _ => []

/-! ## One step -/

section Step

variable {fd : RawFd} {c : ClientId} {tr : ServerTrace} {w t : ServerWorld} {a : ServerAct}

theorem requests_snoc (c : ClientId) (tr : ServerTrace) (w : ServerWorld) (a : ServerAct) :
    requests c (tr ++ [(w, a)]) = requests c tr ++ (request? c a).toList :=
  filterMap_snoc _ tr (w, a)

theorem posted_snoc (c : ClientId) (tr : ServerTrace) (w : ServerWorld) (a : ServerAct) :
    posted c (tr ++ [(w, a)]) = posted c tr ++ ((sent? c w a).map fun m =>
      { message := m
        reply := isHandler a
        queued := (w.conns c).hasRoom }).toList :=
  filterMap_snoc _ tr (w, a)

/-- The reply that a step sends. -/
def replied? (c : ClientId) (w : ServerWorld) (a : ServerAct) : Option ServerMsg :=
  if isHandler a then sent? c w a else none

theorem replies_snoc (c : ClientId) (tr : ServerTrace) (w : ServerWorld) (a : ServerAct) :
    (replies c (tr ++ [(w, a)])).map Posted.message =
      (replies c tr).map Posted.message ++ (replied? c w a).toList := by
  rw [replies, replies, posted_snoc, List.filter_append, List.map_append]
  cases hsent : sent? c w a with
  | none => simp [replied?, hsent]
  | some m =>
      cases hown : isHandler a with
      | true => simp [replied?, hsent, hown]
      | false => simp [replied?, hown]

/-! ### The handler -/

/-- What the handler was at or is asked for is what it replies to or is at behind the step. -/
theorem inProgress_serve {s : Serving} (hpc : (w.conns c).handler = .serving s)
    (h : w.serve c s = some t) :
    inProgress (.serving s) =
      ((w.conns c).reply?.map requestOf).toList ++ inProgress (t.conns c).handler := by
  cases s with
  | reading => cases h
  | subscribing streams =>
      rcases ServerWorld.whenUnlocked_eq_some h with ⟨_, rfl⟩
      simp [inProgress, Connection.reply?, hpc]
  | statsCall =>
      cases h
      simp [inProgress, Connection.reply?, hpc]
  | latencyLoaded lat =>
      cases h
      simp [inProgress, Connection.reply?, hpc]
  | rxLoaded lat rxXruns =>
      cases h
      simp [inProgress, Connection.reply?, hpc, requestOf]
  | replying m =>
      rcases ServerWorld.whenUnlocked_eq_some h with ⟨_, rfl⟩
      simp [inProgress, Connection.reply?, hpc]

theorem inProgress_dispatch (m : ClientMsg) :
    inProgress (.serving (ServerWorld.dispatch m)) = if m.wantsReply then [m] else [] := by
  cases m <;> rfl

theorem inProgress_handlerStep {b : HandlerAct} (h : w.handlerStep fd c b = some t) :
    inProgress (w.conns c).handler ++ (request? c (.handler c b)).toList =
      ((replied? c w (.handler c b)).map requestOf).toList ++ inProgress (t.conns c).handler := by
  unfold ServerWorld.handlerStep at h
  -- before its loop and behind it, a handler has no request in progress
  split at h
  · rename_i hpc
    rcases ServerWorld.whenUnlocked_eq_some h with ⟨_, rfl⟩
    simp [hpc, inProgress, request?, replied?, isHandler, sent?, Connection.reply?]
  · rename_i hpc
    cases h
    simp [hpc, inProgress, request?, replied?, isHandler, sent?]
  · rename_i hpc
    cases h
    simp [hpc, inProgress, request?, replied?, isHandler, sent?]
  · rename_i hpc
    cases h
    simp [hpc, inProgress, request?, replied?, isHandler, sent?]
  · rename_i hpc
    cases h
    simp [hpc, inProgress, request?, replied?, isHandler, sent?]
  · -- a message is dispatched
    rename_i m hpc
    cases h
    have hnext : inProgress ((w.setHandler c (.serving (ServerWorld.dispatch m))).conns c).handler =
        if m.wantsReply then [m] else [] := by
      simp only [ServerWorld.setHandler_conns, Function.update_self]
      exact inProgress_dispatch m
    have hidle : inProgress (.serving .reading) = [] := rfl
    rw [hnext, hpc, hidle]
    cases hreply : m.wantsReply with
    | true => simp [request?, replied?, sent?, hreply]
    | false => simp [request?, replied?, sent?, hreply]
  · rename_i hpc
    cases h
    simp [hpc, inProgress, request?, replied?, isHandler, sent?]
  · -- the handler is inside `dispatch_client_msg`
    rename_i s hpc
    have hserve := inProgress_serve hpc h
    simpa [hpc, request?, replied?, isHandler, sent?] using hserve
  · rename_i hpc
    rcases ServerWorld.whenUnlocked_eq_some h with ⟨_, rfl⟩
    simp [hpc, inProgress, request?, replied?, isHandler, sent?, Connection.reply?]
  · cases h

theorem inProgress_step (hinv : ServerInv w) (hstep : w.step fd a = some t) :
    inProgress (w.conns c).handler ++ (request? c a).toList =
      ((replied? c w a).map requestOf).toList ++ inProgress (t.conns c).handler := by
  by_cases hown : ∃ b, a = .handler c b
  · rcases hown with ⟨b, rfl⟩
    exact inProgress_handlerStep hstep
  · have hother : ∀ b, a ≠ .handler c b := fun b hb => hown ⟨b, hb⟩
    -- another thread's step: nothing is requested, replied to or in progress for `c`
    have hrequest : request? c a = none := by
      unfold request?
      split
      · rename_i id m
        have hid : id ≠ c := by
          rintro rfl
          exact hother _ rfl
        simp [hid]
      · rfl
    have hreplied : replied? c w a = none := by
      cases a with
      | handler id b =>
          have hid : id ≠ c := by
            rintro rfl
            exact hother b rfl
          cases b with
          | proceed => simp [replied?, sent?, hid]
          | _ => simp [replied?, sent?]
      | _ => simp [replied?, isHandler]
    have hhandler : inProgress (t.conns c).handler = inProgress (w.conns c).handler := by
      rcases handler_of_step hinv hstep hother with hsame | ⟨rfl, rfl⟩
      · rw [hsame]
      · cases hstep
        rw [hinv.fresh w.nextId (Nat.le_refl _)]
        simp [Connection.unborn, inProgress]
    simp [hrequest, hreplied, hhandler]

/-! ### The queue -/

/-- What a step puts into the queue. -/
def entering (c : ClientId) (w : ServerWorld) (a : ServerAct) : List ServerMsg :=
  if (w.conns c).hasRoom then (sent? c w a).toList else []

theorem outbound_snoc (c : ClientId) (tr : ServerTrace) (w : ServerWorld) (a : ServerAct) :
    (outbound c (tr ++ [(w, a)])).map Posted.message =
      (outbound c tr).map Posted.message ++ entering c w a := by
  rw [outbound, outbound, posted_snoc, List.filter_append, List.map_append]
  cases hsent : sent? c w a with
  | none => simp [entering, hsent]
  | some m =>
      cases hroom : (w.conns c).hasRoom with
      | true => simp [entering, hsent, hroom]
      | false => simp [entering, hroom]

/-- `try_send` to a receiver that is there. -/
theorem items_trySend {conn : Connection} (m : ServerMsg) (hrecv : conn.receiving = true) :
    (conn.trySend m).queue.items = conn.queue.items ++ if conn.hasRoom then [m] else [] := by
  by_cases hlt : conn.queue.items.length < queueCapacity
  · simp [Connection.trySend, hrecv, Fifo.items_offer, Connection.hasRoom, hlt]
  · simp [Connection.trySend, hrecv, Fifo.items_offer, Connection.hasRoom, hlt]

theorem receiving_trySend (conn : Connection) (m : ServerMsg) :
    (conn.trySend m).receiving = conn.receiving := by
  unfold Connection.trySend
  split
  · rfl
  · rfl

/-- As long as the receiver is there, the queue of `c` takes what enters and gives what is
dequeued. -/
structure QueueStep (c : ClientId) (w : ServerWorld) (a : ServerAct) (conn : Connection) : Prop where
  receiving : (w.conns c).receiving = true
  items : (dequeued? c w a).toList ++ conn.queue.items =
    (w.conns c).queue.items ++ entering c w a

theorem QueueStep.quiet {conn : Connection} (hrecv : conn.receiving = true)
    (hreceiving : conn.receiving = (w.conns c).receiving) (hqueue : conn.queue = (w.conns c).queue)
    (hsent : sent? c w a = none) (htaken : dequeued? c w a = none) : QueueStep c w a conn where
  receiving := by rw [← hreceiving, hrecv]
  items := by simp [htaken, hqueue, entering, hsent]

theorem QueueStep.send {conn : Connection} {m : ServerMsg} (hrecv : conn.receiving = true)
    (hreceiving : conn.receiving = ((w.conns c).trySend m).receiving)
    (hqueue : conn.queue = ((w.conns c).trySend m).queue) (hsent : sent? c w a = some m)
    (htaken : dequeued? c w a = none) : QueueStep c w a conn := by
  have hw : (w.conns c).receiving = true := by
    rw [← receiving_trySend (w.conns c) m, ← hreceiving, hrecv]
  constructor
  · exact hw
  · simp [htaken, hqueue, entering, hsent, items_trySend m hw]

/-- A step of the handler of `c`. -/
theorem queueStep_handler {b : HandlerAct} (hinv : ServerInv w) (hmove : HandlerMove fd w c b t)
    (hrecv : (t.conns c).receiving = true) : QueueStep c w (.handler c b) (t.conns c) := by
  cases hmove with
  | register hpc hlock =>
      exact .quiet hrecv (by simp) (by simp)
        (by simp [sent?, Connection.reply?, hpc]) rfl
  | sendFd hpc => exact .quiet hrecv (by simp) (by simp) rfl rfl
  | spawn hpc => exact .quiet hrecv (by simp) (by simp) rfl rfl
  | leave hpc hact =>
      refine .quiet hrecv (by simp) (by simp) ?_ rfl
      rcases hact with rfl | rfl | rfl
      · rfl
      · rfl
      · rfl
  | serve next hpc hquiet hact hnext =>
      refine .quiet hrecv (by simp) (by simp) ?_ rfl
      rcases hact with rfl | ⟨m, rfl⟩
      · -- a step towards a reply sends nothing yet
        cases hreply : (w.conns c).reply? with
        | none => simp [sent?, hreply]
        | some m =>
            have hpc' := Connection.reply?_eq_some.1 hreply
            rw [hpc] at hpc'
            cases hpc'
            exact absurd rfl (hquiet m)
      · rfl
  | subscribe hpc hlock =>
      exact .quiet hrecv (by simp) (by simp)
        (by simp [sent?, Connection.reply?, hpc]) rfl
  | reply hpc hlock =>
      rename_i m
      -- its handler replies, so that the client is registered and `send_to` finds it
      have hmem : c ∈ w.clients := (hinv.registered c).2 (by rw [hpc]; rfl)
      rw [ServerWorld.sendTo_of_mem hmem] at hrecv ⊢
      exact .send (m := m) hrecv (by simp) (by simp)
        (by simp [sent?, Connection.reply?, hpc]) rfl
  | unregister hpc hlock =>
      simp only [ServerWorld.setConn_conns, Function.update_self] at hrecv ⊢
      have hsent : sent? c w (.handler c .proceed) = none := by
        simp [sent?, Connection.reply?, hpc]
      -- the receiver is gone with the sender unless the writer thread still runs
      unfold Connection.finish at hrecv ⊢
      split at hrecv
      · cases hrecv
      · exact .quiet hrecv rfl rfl hsent rfl

/-- A step of the writer thread of `c`. -/
theorem queueStep_writer {b : ClientWriterAct} {conn : Connection}
    (hmove : WriterMove (w.conns c) b conn) (hrecv : conn.receiving = true) :
    QueueStep c w (.writer c b) conn := by
  cases hmove with
  | dequeue hpc hpop =>
      constructor
      · exact hrecv
      · simp [dequeued?, Connection.taken?, Fifo.items_pop hpop, entering, sent?]
  | writeSome hpc hlt => exact .quiet hrecv rfl rfl rfl (by simp [dequeued?, Connection.taken?])
  | writeAll hpc hle => exact .quiet hrecv rfl rfl rfl (by simp [dequeued?, Connection.taken?])
  | fail hpc => cases hrecv

/-- The visit of a client by the broadcast under way. -/
theorem queueStep_visit {id : ClientId} {b : Broadcast} (hb : w.broadcast = some b)
    (hrecv : ((w.offer b.call id).conns c).receiving = true) :
    QueueStep c w (.visit id) ((w.offer b.call id).conns c) := by
  by_cases hvisit : id = c ∧ w.wantedBy b.call c = true
  · rcases hvisit with ⟨rfl, hwanted⟩
    have hconn : (w.offer b.call id).conns id = (w.conns id).trySend b.call.message := by
      simp [ServerWorld.offer_eq, hwanted]
    exact .send (m := b.call.message) hrecv (by simp [hconn]) (by simp [hconn])
      (by simp [sent?, hb, hwanted]) rfl
  · -- the visit of another client, or of one that does not want the broadcast
    have hconn : (w.offer b.call id).conns c = w.conns c := by
      rw [ServerWorld.offer_eq]
      split
      · rename_i hwanted
        have hid : c ≠ id := by
          rintro rfl
          exact hvisit ⟨rfl, hwanted⟩
        simp [hid]
      · rfl
    exact .quiet hrecv (by simp [hconn]) (by simp [hconn]) (by simp [sent?, hb, hvisit]) rfl

theorem queueStep_of_step (hinv : ServerInv w) (hstep : w.step fd a = some t)
    (hrecv : (t.conns c).receiving = true) : QueueStep c w a (t.conns c) := by
  cases serverMove_of_step hstep with
  | connect =>
      by_cases hc : c = w.nextId
      · subst hc
        exact .quiet hrecv (by simp) (by simp)
          rfl rfl
      · exact .quiet hrecv (by simp [hc]) (by simp [hc]) rfl rfl
  | broadcast call hlock => exact .quiet hrecv rfl rfl rfl rfl
  | visit hb hid => exact queueStep_visit hb hrecv
  | endBroadcast hb => exact .quiet hrecv rfl rfl rfl rfl
  | handler hmove =>
      rename_i id b
      by_cases hid : id = c
      · subst hid
        exact queueStep_handler hinv hmove hrecv
      · have hconn := hmove.conns_ne hinv (Ne.symm hid)
        refine .quiet hrecv (by rw [hconn]) (by rw [hconn]) ?_ rfl
        cases b with
        | proceed => simp [sent?, hid]
        | _ => rfl
  | writer hmove =>
      rename_i id b conn
      by_cases hid : id = c
      · subst hid
        simp only [ServerWorld.setConn_conns, Function.update_self] at hrecv ⊢
        exact queueStep_writer hmove hrecv
      · exact .quiet hrecv (by simp [Ne.symm hid]) (by simp [Ne.symm hid]) rfl
          (by simp [dequeued?, hid])
  | counters rxXruns txXruns lastLatency => exact .quiet hrecv rfl rfl rfl rfl

end Step

/-! ## Whole runs -/

section Runs

variable {fd : RawFd} {tr : ServerTrace} {w : ServerWorld}

/-- As many replies as requests, in the same order, but for the request in progress. -/
theorem requests_eq (h : Trace (serverSystem fd) tr w) (c : ClientId) :
    requests c tr =
      ((replies c tr).map Posted.message).map requestOf ++ inProgress (w.conns c).handler := by
  induction h with
  | start => rfl
  | snoc htr hstep ih =>
      rename_i tr w t a
      have hlast := inProgress_step (c := c) (serverInv_of_trace htr) hstep
      calc
        requests c (tr ++ [(w, a)])
            = requests c tr ++ (request? c a).toList := requests_snoc c tr w a
        _ = ((replies c tr).map Posted.message).map requestOf ++
              (inProgress (w.conns c).handler ++ (request? c a).toList) := by
            rw [ih, List.append_assoc]
        _ = ((replies c tr).map Posted.message).map requestOf ++
              (((replied? c w a).map requestOf).toList ++ inProgress (t.conns c).handler) := by
            rw [hlast]
        _ = ((replies c (tr ++ [(w, a)])).map Posted.message).map requestOf ++
              inProgress (t.conns c).handler := by
            rw [replies_snoc, List.map_append, List.append_assoc, Option.toList_map]

/-- The outbound sequence is what has been dequeued and what is in the queue. -/
theorem outbound_eq (h : Trace (serverSystem fd) tr w) (c : ClientId)
    (hrecv : (w.conns c).receiving = true) :
    dequeued c tr ++ (w.conns c).queue.items = (outbound c tr).map Posted.message := by
  induction h with
  | start => rfl
  | snoc htr hstep ih =>
      rename_i tr w t a
      -- a receiver that is there now has been there before
      have hqueue := queueStep_of_step (serverInv_of_trace htr) hstep hrecv
      calc
        dequeued c (tr ++ [(w, a)]) ++ (t.conns c).queue.items
            = dequeued c tr ++ ((dequeued? c w a).toList ++ (t.conns c).queue.items) := by
            rw [dequeued_snoc, List.append_assoc]
        _ = dequeued c tr ++ (w.conns c).queue.items ++ entering c w a := by
            rw [hqueue.items, List.append_assoc]
        _ = (outbound c (tr ++ [(w, a)])).map Posted.message := by
            rw [ih hqueue.receiving, outbound_snoc]

/-- A reply is a `Pong` or a `Stats`. -/
theorem isReply_of_replies (h : Trace (serverSystem fd) tr w) (c : ClientId) :
    ∀ r ∈ replies c tr, r.message.isReply := by
  induction h with
  | start =>
      intro r hr
      cases hr
  | snoc htr hstep ih =>
      rename_i tr w t a
      intro r hr
      rw [replies, posted_snoc, List.filter_append, List.mem_append] at hr
      rcases hr with hr | hr
      · exact ih r hr
      · rcases List.mem_filter.1 hr with ⟨hmem, hown⟩
        rcases Option.map_eq_some_iff.1 (Option.mem_toList.1 hmem) with ⟨m, hsent, rfl⟩
        cases a with
        | handler id b =>
            cases b with
            | proceed =>
                simp only [sent?] at hsent
                split at hsent
                · exact (serverInv_of_trace htr).replies c m (Connection.reply?_eq_some.1 hsent)
                · cases hsent
            | _ => cases hsent
        | _ => cases hown

/-! ## What is answered -/

/-- The requests of a client and what became of them, at a point of a run. -/
structure Answered (c : ClientId) (tr : ServerTrace) (w : ServerWorld) : Prop where
  /-- One reply was sent for each request, in the order of the requests. -/
  inOrder : requests c tr =
    ((replies c tr).map Posted.message).map requestOf ++ inProgress (w.conns c).handler
  kinds : ∀ r ∈ replies c tr, r.message.isReply
  /-- The replies in the outbound sequence are those that found room, each once. -/
  survivors : (outbound c tr).filter Posted.reply = (replies c tr).filter Posted.queued
  /-- If all found room, every request is answered. -/
  all : (∀ r ∈ replies c tr, r.queued = true) → requests c tr =
    (((outbound c tr).filter Posted.reply).map Posted.message).map requestOf ++
      inProgress (w.conns c).handler
  /-- The outbound sequence is what the writer thread takes. -/
  taken : (w.conns c).receiving = true →
    dequeued c tr ++ (w.conns c).queue.items = (outbound c tr).map Posted.message

/-- In every run, for every client: each `Ping` and each `GetStats` has exactly one reply sent for
it, in the order of the requests, and the outbound sequence holds exactly those of the replies that
were sent while the receiver was there and the queue held fewer than 128 messages. -/
theorem requests_answered (h : Trace (serverSystem fd) tr w) (c : ClientId) : Answered c tr w := by
  have hsurvivors : (outbound c tr).filter Posted.reply = (replies c tr).filter Posted.queued := by
    rw [outbound, replies, List.filter_filter, List.filter_filter]
    exact List.filter_congr fun p _ => Bool.and_comm _ _
  refine ⟨requests_eq h c, isReply_of_replies h c, hsurvivors, ?_, outbound_eq h c⟩
  intro hall
  rw [hsurvivors, List.filter_eq_self.2 hall]
  exact requests_eq h c

end Runs

/-- A client connects and pings, and its writer thread sends the reply. -/
def onePing : List ServerAct :=
  [.connect, .handler 1 .proceed, .handler 1 (.sendFd true), .handler 1 (.spawnWriter true),
    .handler 1 (.request .ping), .handler 1 .proceed, .writer 1 .dequeue, .writer 1 (.write 5)]

/-- One ping with room in the queue. -/
theorem requests_answered_onePing :
    ∃ tr w, Trace (serverSystem 7) tr w ∧ requests 1 tr = [.ping] ∧
      (outbound 1 tr).map Posted.message = [.pong] ∧ Answered 1 tr w := by
  have hrun := Trace.start.exec (show (serverSystem 7).exec ServerWorld.start onePing = some _ from rfl)
  exact ⟨_, _, hrun, rfl, rfl, requests_answered hrun 1⟩

/-! ## A ping without an answer -/

/-- Steps that are neither a connection nor of the handler of `c` leave this handler where it is. -/
theorem handler_exec {fd : RawFd} {c : ClientId} {tr : ServerTrace} {w t : ServerWorld}
    {as : List ServerAct} (hother : ∀ a ∈ as, a ≠ .connect ∧ ∀ b, a ≠ .handler c b)
    (htr : Trace (serverSystem fd) tr w) (h : (serverSystem fd).exec w as = some t) :
    (t.conns c).handler = (w.conns c).handler := by
  induction as generalizing tr w with
  | nil =>
      cases h
      rfl
  | cons a as ih =>
      rcases Option.bind_eq_some_iff.1 h with ⟨u, hstep, hrest⟩
      rcases hother a (List.mem_cons_self ..) with ⟨hconnect, hown⟩
      rw [ih (fun b hb => hother b (List.mem_cons_of_mem _ hb)) (htr.snoc hstep) hrest]
      rcases handler_of_step (serverInv_of_trace htr) hstep hown with hsame | ⟨rfl, _⟩
      · exact hsame
      · exact absurd rfl hconnect

/-- Client 1 subscribes and pings. -/
def pinging : List ServerAct := subscribing ++ [.handler 1 (.request .ping)]

/-- The handler sends its reply behind all of them. -/
def floodedPing : List ServerAct := pinging ++ flood ++ [.handler 1 .proceed]

theorem requests_floodedPing : floodedPing.filterMap (request? 1) = [.ping] := by
  have hflood : flood.filterMap (request? 1) = [] := by
    rw [List.filterMap_eq_nil_iff]
    intro a ha
    rcases mem_flood ha with rfl | rfl | rfl
    · rfl
    · rfl
    · rfl
  rw [floodedPing, List.filterMap_append, List.filterMap_append, hflood]
  rfl

theorem writersWait_floodedPing {id : ClientId} {b : ClientWriterAct} :
    .writer id b ∉ floodedPing := by
  intro hmem
  rcases List.mem_append.1 hmem with hmem | hmem
  · rcases List.mem_append.1 hmem with hmem | hmem
    · simp [pinging, subscribing] at hmem
    · rcases mem_flood hmem with h | h | h
      · cases h
      · cases h
      · cases h
  · simp at hmem

theorem mem_clients_of_alone {c : ClientId} {items : List ServerMsg} {w : ServerWorld}
    (h : Alone c items w) : c ∈ w.clients := by
  apply AList.mem_keys.2
  rw [h.keys]
  exact List.mem_singleton_self c

/-- The queue is full, and the handler is about to reply. -/
theorem exists_flooded :
    ∃ w, (serverSystem 7).exec ServerWorld.start (pinging ++ flood) = some w ∧
      Alone 1 fullQueue w ∧ (w.conns 1).handler = .serving (.replying .pong) := by
  have hping : ∃ w, (serverSystem 7).exec ServerWorld.start pinging = some w ∧ Alone 1 [] w ∧
      (w.conns 1).handler = .serving (.replying .pong) := by
    refine ⟨_, rfl, ⟨rfl, rfl, ?_, rfl, rfl, rfl⟩, rfl⟩
    intro call
    cases call <;> rfl
  rcases hping with ⟨w, hexec, halone, hpc⟩
  rcases halone.exec_fill 7 (.audioReady 2) queueCapacity (Nat.le_of_eq (Nat.zero_add _)) with
    ⟨t, hfill, hfull⟩
  refine ⟨t, ?_, hfull, ?_⟩
  · rw [System.exec_trans hexec]
    exact hfill
  · rw [← hpc]
    refine handler_exec (fun a ha => ?_) (Trace.start.exec hexec) hfill
    rcases mem_flood ha with rfl | rfl | rfl
    · simp
    · simp
    · simp

/-- The reply finds the queue full. -/
theorem exists_floodedPing :
    ∃ tr w, Trace (serverSystem 7) tr w ∧ tr.map Prod.snd = floodedPing ∧ Alone 1 fullQueue w ∧
      (w.conns 1).handler = .serving .reading := by
  rcases exists_flooded with ⟨w, hexec, halone, hpc⟩
  have hmem := mem_clients_of_alone halone
  have hreply : (serverSystem 7).step w (.handler 1 .proceed) =
      some ((w.trySend 1 .pong).setHandler 1 (.serving .reading)) := by
    simp [serverSystem, ServerWorld.step, ServerWorld.handlerStep, hpc, ServerWorld.serve,
      ServerWorld.whenUnlocked, halone.unlocked, ServerWorld.sendTo_of_mem hmem]
  have hall : (serverSystem 7).exec ServerWorld.start floodedPing =
      some ((w.trySend 1 .pong).setHandler 1 (.serving .reading)) := by
    rw [floodedPing, System.exec_trans hexec, System.exec_cons hreply]
    rfl
  have hfull : ¬ fullQueue.length < queueCapacity := by simp [fullQueue]
  have hsent := halone.trySend .pong
  rw [if_neg hfull] at hsent
  refine ⟨_, _, Trace.start.exec hall, System.labels_steps hall, ?_, by simp⟩
  exact
    { unlocked := hsent.unlocked
      keys := hsent.keys
      wanted := hsent.wanted
      receiving := by simpa using hsent.receiving
      idle := by simpa using hsent.idle
      queued := by simpa using hsent.queued }

/-- The writer thread of client 1 has not yet started to work when 128 notifications fill the queue;
the `Pong` that is then sent is lost, and the handler goes on to read. -/
theorem ping_unanswered :
    ∃ tr w, Trace (serverSystem 7) tr w ∧ 1 ∈ w.clients ∧ (w.conns 1).receiving = true ∧
      (w.conns 1).handler = .serving .reading ∧ requests 1 tr = [.ping] ∧
      .pong ∉ (outbound 1 tr).map Posted.message := by
  rcases exists_floodedPing with ⟨tr, w, hrun, hlabels, halone, hpc⟩
  refine ⟨tr, w, hrun, mem_clients_of_alone halone, halone.receiving, hpc, ?_, ?_⟩
  · rw [← requests_floodedPing, ← hlabels, requests, List.filterMap_map]
    rfl
  · -- nothing has been dequeued, and the queue is full of notifications
    have hnone : dequeued 1 tr = [] := dequeued_eq_nil fun id b => by
      rw [hlabels]
      exact writersWait_floodedPing
    rw [← outbound_eq hrun 1 halone.receiving, hnone, halone.queued, List.nil_append]
    intro hpong
    have heq := List.eq_of_mem_replicate hpong
    cases heq

end Replies

end Cm108Driver
