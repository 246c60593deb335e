import Cm108Driver.Server.Moves

/-!
# Outbound — what reaches the socket of one client

For one client and any interleaving of all the threads: its socket carries the handshake byte and
then the frames of the messages that its writer thread has dequeued, and these followed by the
messages still queued are what was sent to the client except to a full queue.

The histories on which this is stated are functions of the trace.  `addressedTo` is what the client
should be sent: a broadcast counts when it takes the mutex, with the flags that the client has
then.  `sends` is what is sent to it, with the length of its queue at that moment.
-/

namespace Cm108Driver

open Lib

abbrev ServerTrace := List (ServerWorld × ServerAct)

/-! ## Histories -/

/-- The reply that the handler's next step sends. -/
def Connection.reply? (conn : Connection) : Option ServerMsg :=
  match conn.handler with
  | .serving (.replying m) => some m
  | _ => none

theorem Connection.reply?_eq_some {conn : Connection} {m : ServerMsg} :
    conn.reply? = some m ↔ conn.handler = .serving (.replying m) := by
  unfold reply?
  constructor
  · intro h
    split at h
    · rename_i hpc
      rw [hpc, Option.some.inj h]
    · cases h
  · intro hpc
    simp [hpc]

/-- The message that a step addresses to the client `c`. -/
def addressed? (c : ClientId) (w : ServerWorld) : ServerAct → Option ServerMsg
  | .broadcast call => if w.wantedBy call c then some call.message else none
  | .handler id .proceed => if id = c then (w.conns c).reply? else none
  | _ => none

/-- The message that a step passes to `try_send` for the client `c`. -/
def sent? (c : ClientId) (w : ServerWorld) : ServerAct → Option ServerMsg
  | .visit id =>
      match w.broadcast with
      | some b => if id = c ∧ w.wantedBy b.call c then some b.call.message else none
      | none => none
  | .handler id .proceed => if id = c then (w.conns c).reply? else none
  | _ => none

/-- The message that the writer thread takes out of its queue. -/
def Connection.taken? (conn : Connection) : ClientWriterAct → Option ServerMsg
  | .dequeue => conn.queue.items.head?
  | _ => none

def dequeued? (c : ClientId) (w : ServerWorld) : ServerAct → Option ServerMsg
  | .writer id a => if id = c then (w.conns c).taken? a else none
  | _ => none

/-- A message sent to a client, and the number of messages in its queue at that moment. -/
structure Send where
  message : ServerMsg
  queued : Nat

def addressedTo (c : ClientId) (tr : ServerTrace) : List ServerMsg :=
  tr.filterMap fun p => addressed? c p.1 p.2

def sends (c : ClientId) (tr : ServerTrace) : List Send :=
  tr.filterMap fun p => (sent? c p.1 p.2).map fun m =>
    { message := m
      queued := (p.1.conns c).queue.items.length }

/-- What was sent to `c`, minus what was sent while its queue held 128 messages. -/
def accepted (c : ClientId) (tr : ServerTrace) : List ServerMsg :=
  ((sends c tr).filter fun s => s.queued < queueCapacity).map Send.message

def dequeued (c : ClientId) (tr : ServerTrace) : List ServerMsg :=
  tr.filterMap fun p => dequeued? c p.1 p.2

/-- The descriptor has been sent to `c`. -/
def FdSent (c : ClientId) (tr : ServerTrace) : Prop :=
  ∃ p ∈ tr, p.2 = .handler c (.sendFd true)

/-- The message of the broadcast under way, if it has yet to be sent to `c`. -/
def pending (c : ClientId) (w : ServerWorld) : List ServerMsg :=
  match w.broadcast with
  | some b => if c ∈ b.todo ∧ w.wantedBy b.call c then [b.call.message] else []
  | none => []

/-- The outbound stream of the client `c` at the end of a run. -/
structure OutboundStream (fd : RawFd) (c : ClientId) (tr : ServerTrace) (w : ServerWorld) :
    Prop where
  silent : ¬ FdSent c tr → (w.conns c).sock = []
  handshaken : FdSent c tr → (w.conns c).writer = .notStarted →
    (w.conns c).sock = [handshake fd]
  waiting : (w.conns c).writer = .notStarted → (w.conns c).handler ≠ .gone →
    (w.conns c).queue.items = accepted c tr
  betweenMessages : (w.conns c).writer = .idle →
    (w.conns c).sock = handshake fd :: plain ((dequeued c tr).flatMap writeMsg) ∧
      dequeued c tr ++ (w.conns c).queue.items = accepted c tr
  nothingMissed : addressedTo c tr = (sends c tr).map Send.message ++ pending c w

/-- What is addressed to a client is the message of a broadcast or a reply. -/
theorem addressed_cases {c : ClientId} {w : ServerWorld} {a : ServerAct} {m : ServerMsg}
    (hinv : ServerInv w) (h : addressed? c w a = some m) :
    (∃ call, a = .broadcast call ∧ m = call.message) ∨ m.isReply := by
  unfold addressed? at h
  split at h
  · rename_i call
    split at h
    · cases h
      exact Or.inl ⟨call, rfl, rfl⟩
    · cases h
  · split at h
    · exact Or.inr (hinv.replies c m (Connection.reply?_eq_some.1 h))
    · cases h
  · cases h

/-! ### One more step -/

theorem addressedTo_snoc (c : ClientId) (tr : ServerTrace) (w : ServerWorld) (a : ServerAct) :
    addressedTo c (tr ++ [(w, a)]) = addressedTo c tr ++ (addressed? c w a).toList :=
  filterMap_snoc _ tr (w, a)

theorem messages_snoc (c : ClientId) (tr : ServerTrace) (w : ServerWorld) (a : ServerAct) :
    (sends c (tr ++ [(w, a)])).map Send.message =
      (sends c tr).map Send.message ++ (sent? c w a).toList := by
  cases h : sent? c w a with
  | none => simp [sends, h]
  | some m => simp [sends, h]

theorem accepted_snoc_none {c : ClientId} {w : ServerWorld} {a : ServerAct}
    (h : sent? c w a = none) (tr : ServerTrace) : accepted c (tr ++ [(w, a)]) = accepted c tr := by
  simp [accepted, sends, h]

theorem accepted_snoc_some {c : ClientId} {w : ServerWorld} {a : ServerAct} {m : ServerMsg}
    (h : sent? c w a = some m) (tr : ServerTrace) :
    accepted c (tr ++ [(w, a)]) = accepted c tr ++
      if (w.conns c).queue.items.length < queueCapacity then [m] else [] := by
  by_cases hlt : (w.conns c).queue.items.length < queueCapacity
  · simp [accepted, sends, h, hlt]
  · simp [accepted, sends, h, hlt]

theorem dequeued_snoc (c : ClientId) (tr : ServerTrace) (w : ServerWorld) (a : ServerAct) :
    dequeued c (tr ++ [(w, a)]) = dequeued c tr ++ (dequeued? c w a).toList :=
  filterMap_snoc _ tr (w, a)

theorem accepted_grows (c : ClientId) (tr : ServerTrace) (w : ServerWorld) (a : ServerAct) :
    accepted c tr <+: accepted c (tr ++ [(w, a)]) := by
  cases h : sent? c w a with
  | none => exact (accepted_snoc_none h tr).symm ▸ List.prefix_rfl
  | some m => exact (accepted_snoc_some h tr).symm ▸ List.prefix_append _ _

theorem fdSent_snoc (c : ClientId) (tr : ServerTrace) (w : ServerWorld) (a : ServerAct) :
    FdSent c (tr ++ [(w, a)]) ↔ FdSent c tr ∨ a = .handler c (.sendFd true) := by
  simp [FdSent, or_and_right, exists_or]

/-! ## The invariant of one connection -/

/-- Before `send_fd`. -/
def HandlerPc.inSetup : HandlerPc → Bool
  | .unborn => true
  | .allocated => true
  | .registered => true
  | _ => false

/-- The bytes of the current message that are not on the socket, for a writer thread that works. -/
def ClientWriterPc.unsent : ClientWriterPc → Option (List UInt8)
  | .idle => some []
  | .sending rest => some rest
  | _ => none

/-- A writer thread that takes a message goes on to send it. -/
theorem sending_of_dequeued {fd : RawFd} {c : ClientId} {w t : ServerWorld} {a : ServerAct}
    {m : ServerMsg} (h : dequeued? c w a = some m) (hstep : w.step fd a = some t) :
    ∃ rest, (t.conns c).writer.unsent = some rest := by
  cases serverMove_of_step hstep with
  | writer hmove =>
      simp only [dequeued?] at h
      split at h
      · rename_i hid
        subst hid
        cases hmove with
        | dequeue hpc hpop => exact ⟨_, by simp [ClientWriterPc.unsent]; rfl⟩
        | writeSome hpc hlt => cases h
        | writeAll hpc hle => cases h
        | fail hpc => cases h
      · cases h
  | _ => cases h

/-- The connection of a client for which `acc` was accepted and from whose queue `taken` was
dequeued. -/
structure StreamInv (fd : RawFd) (acc taken : List ServerMsg) (fdSent : Prop)
    (conn : Connection) : Prop where
  silent : ¬ fdSent → conn.writer = .notStarted ∧ conn.sock = []
  setup : conn.handler.inSetup → ¬ fdSent
  handshaken : conn.handler = .handshaken → fdSent ∧ conn.writer = .notStarted
  early : conn.writer = .notStarted → taken = [] ∧ (fdSent → conn.sock = [handshake fd])
  waiting : conn.writer = .notStarted → conn.handler ≠ .gone →
    conn.receiving ∧ conn.queue.items = acc
  running : ∀ rest, conn.writer.unsent = some rest → conn.receiving ∧
    conn.sock ++ plain rest = handshake fd :: plain (taken.flatMap writeMsg) ∧
    taken ++ conn.queue.items = acc

namespace StreamInv

variable {fd : RawFd} {acc taken : List ServerMsg} {fdSent : Prop} {conn : Connection}

theorem unborn (fd : RawFd) : StreamInv fd [] [] False Connection.unborn := by
  refine ⟨fun _ => ⟨rfl, rfl⟩, fun _ h => h, ?_, fun _ => ⟨rfl, False.elim⟩,
    fun _ _ => ⟨rfl, rfl⟩, ?_⟩
  · intro hpc
    cases hpc
  · intro rest hrest
    cases hrest

/-- A move of the handler that touches nothing else of the connection. -/
theorem setHandler (h : StreamInv fd acc taken fdSent conn) (pc : HandlerPc)
    (hsetup : pc.inSetup → conn.handler.inSetup) (hshaken : pc ≠ .handshaken)
    (hgone : conn.handler ≠ .gone) :
    StreamInv fd acc taken fdSent { conn with handler := pc } :=
  { silent := h.silent
    setup := fun hpc => h.setup (hsetup hpc)
    handshaken := fun hpc => absurd hpc hshaken
    early := h.early
    waiting := fun hwriter _ => h.waiting hwriter hgone
    running := h.running }

theorem sendFd (h : StreamInv fd acc taken fdSent conn) (hpc : conn.handler = .registered) :
    StreamInv fd acc taken True
      { conn with
        handler := .handshaken
        sock := conn.sock ++ [handshake fd] } := by
  have hnot : ¬ fdSent := h.setup (by rw [hpc]; rfl)
  rcases h.silent hnot with ⟨hwriter, hsock⟩
  refine ⟨fun hfalse => absurd trivial hfalse, ?_, fun _ => ⟨trivial, hwriter⟩, ?_, ?_, ?_⟩
  · intro hsetup
    cases hsetup
  · intro _
    exact ⟨(h.early hwriter).1, fun _ => by simp [hsock]⟩
  · intro _ _
    exact h.waiting hwriter (by simp [hpc])
  · intro rest hrest
    simp [hwriter, ClientWriterPc.unsent] at hrest

/-- The writer thread starts with the handshake on the socket and nothing dequeued. -/
theorem spawn (h : StreamInv fd acc taken fdSent conn) (hpc : conn.handler = .handshaken) :
    StreamInv fd acc taken fdSent
      { conn with
        handler := .serving .reading
        writer := .idle } := by
  rcases h.handshaken hpc with ⟨hfd, hwriter⟩
  rcases h.early hwriter with ⟨htaken, hsock⟩
  rcases h.waiting hwriter (by simp [hpc]) with ⟨hrecv, hqueue⟩
  refine ⟨fun hnot => absurd hfd hnot, ?_, ?_, ?_, ?_, ?_⟩
  · intro hsetup
    cases hsetup
  · intro hshaken
    cases hshaken
  · intro hnot
    cases hnot
  · intro hnot
    cases hnot
  · intro rest hrest
    cases hrest
    exact ⟨hrecv, by simp [hsock hfd, htaken, plain], by simp [htaken, hqueue]⟩

/-- The end of the handler, with or without a writer thread. -/
theorem finish (h : StreamInv fd acc taken fdSent conn) (hpc : conn.handler = .leaving) :
    StreamInv fd acc taken fdSent conn.finish := by
  unfold Connection.finish
  split
  · rename_i hwriter
    refine ⟨h.silent, ?_, ?_, h.early, ?_, ?_⟩
    · intro hsetup
      cases hsetup
    · intro hshaken
      cases hshaken
    · intro _ hgone
      exact absurd rfl hgone
    · intro rest hrest
      simp [Connection.dropReceiver, hwriter, ClientWriterPc.unsent] at hrest
  · exact h.setHandler .gone (by simp [HandlerPc.inSetup]) (by simp) (by simp [hpc])

/-- A `try_send` of a message, accepted or not. -/
theorem trySend (h : StreamInv fd acc taken fdSent conn) (hgone : conn.handler ≠ .gone)
    (m : ServerMsg) :
    StreamInv fd (acc ++ if conn.queue.items.length < queueCapacity then [m] else []) taken fdSent
      (conn.trySend m) := by
  have hoffer : (conn.queue.offer m).items = conn.queue.items ++
      if conn.queue.items.length < queueCapacity then [m] else [] := by
    rw [Fifo.items_offer]
    split
    · rfl
    · simp
  unfold Connection.trySend
  -- without a receiver nothing is accepted, and the writer thread neither waits nor runs
  by_cases hrecv : conn.receiving = true
  · rw [if_pos hrecv]
    refine ⟨h.silent, h.setup, h.handshaken, h.early, ?_, ?_⟩
    · intro hwriter _
      exact ⟨hrecv, by rw [hoffer, (h.waiting hwriter hgone).2]⟩
    · intro rest hrest
      rcases h.running rest hrest with ⟨_, hsock, hqueue⟩
      exact ⟨hrecv, hsock, by rw [hoffer, ← List.append_assoc, hqueue]⟩
  · rw [if_neg hrecv]
    refine ⟨h.silent, h.setup, h.handshaken, h.early, ?_, ?_⟩
    · intro hwriter hne
      exact absurd (h.waiting hwriter hne).1 hrecv
    · intro rest hrest
      exact absurd (h.running rest hrest).1 hrecv

/-- The writer thread works on: its connection keeps the invariant if the socket and the queue do. -/
theorem write (h : StreamInv fd acc taken fdSent conn) {rest : List UInt8}
    (hpc : conn.writer.unsent = some rest) {conn' : Connection} {taken' : List ServerMsg}
    (hhandler : conn'.handler = conn.handler) (hstarted : conn'.writer ≠ .notStarted)
    (hrun : ∀ rest', conn'.writer.unsent = some rest' → conn'.receiving ∧
      conn'.sock ++ plain rest' = handshake fd :: plain (taken'.flatMap writeMsg) ∧
      taken' ++ conn'.queue.items = acc) :
    StreamInv fd acc taken' fdSent conn' := by
  have hworks : conn.writer ≠ .notStarted := by
    intro hnot
    rw [hnot] at hpc
    cases hpc
  refine ⟨?_, ?_, ?_, ?_, ?_, hrun⟩
  · intro hnot
    exact absurd (h.silent hnot).1 hworks
  · rw [hhandler]
    exact h.setup
  · rw [hhandler]
    intro hshaken
    exact absurd (h.handshaken hshaken).2 hworks
  · intro hnot
    exact absurd hnot hstarted
  · intro hnot
    exact absurd hnot hstarted

/-- A step of the writer thread. -/
theorem writerMove (h : StreamInv fd acc taken fdSent conn) {a : ClientWriterAct}
    {conn' : Connection} (hmove : WriterMove conn a conn') :
    StreamInv fd acc (taken ++ (conn.taken? a).toList) fdSent conn' := by
  have hhandler := hmove.handler
  cases hmove with
  | dequeue hpc hpop =>
      have hitems := Fifo.items_pop hpop
      rcases h.running [] (by rw [hpc]; rfl) with ⟨hrecv, hsock, hqueue⟩
      refine h.write (by rw [hpc]; rfl) hhandler (by simp) ?_
      intro rest hrest
      cases hrest
      refine ⟨hrecv, ?_, ?_⟩
      · simp only [plain, List.map_nil, List.append_nil] at hsock
        simp [hsock, plain, Connection.taken?, hitems]
      · simpa [Connection.taken?, hitems] using hqueue
  | writeSome hpc hlt =>
      rename_i n rest
      rcases h.running rest (by rw [hpc]; rfl) with ⟨hrecv, hsock, hqueue⟩
      refine h.write (by rw [hpc]; rfl) hhandler (by simp) ?_
      intro rest' hrest
      cases hrest
      refine ⟨hrecv, ?_, by simpa [Connection.taken?] using hqueue⟩
      -- what is written now and what is left make what was left before
      have hbytes : plain (rest.take n) ++ plain (rest.drop n) = plain rest := by
        rw [plain, plain, ← List.map_append, List.take_append_drop]
        rfl
      simpa [Connection.taken?, hbytes] using hsock
  | writeAll hpc hle =>
      rename_i n rest
      rcases h.running rest (by rw [hpc]; rfl) with ⟨hrecv, hsock, hqueue⟩
      refine h.write (by rw [hpc]; rfl) hhandler (by simp) ?_
      intro rest' hrest
      cases hrest
      exact ⟨hrecv, by simpa [Connection.taken?, plain] using hsock,
        by simpa [Connection.taken?] using hqueue⟩
  | fail hpc =>
      refine h.write (by rw [hpc]; rfl) hhandler (by simp) ?_
      intro rest' hrest
      cases hrest

end StreamInv

/-! ## One step of the server -/

section Step

variable {fd : RawFd} {c : ClientId} {tr : ServerTrace} {w t : ServerWorld} {a : ServerAct}

/-- The connection of `c` and its histories. -/
abbrev StreamAt (fd : RawFd) (c : ClientId) (tr : ServerTrace) (conn : Connection) : Prop :=
  StreamInv fd (accepted c tr) (dequeued c tr) (FdSent c tr) conn

/-- A step that sends nothing to `c`, takes nothing from its queue and is not its handshake. -/
theorem StreamAt.quiet {conn : Connection} (h : StreamAt fd c tr conn) (hsent : sent? c w a = none)
    (htaken : dequeued? c w a = none) (hfd : a ≠ .handler c (.sendFd true)) :
    StreamAt fd c (tr ++ [(w, a)]) conn := by
  have hfdSent : FdSent c (tr ++ [(w, a)]) = FdSent c tr := by
    simp [fdSent_snoc, hfd]
  rw [StreamAt, accepted_snoc_none hsent, dequeued_snoc, htaken, hfdSent]
  simpa using h

/-- A step that sends `m` to `c`. -/
theorem StreamAt.send {m : ServerMsg} (h : StreamAt fd c tr (w.conns c))
    (hgone : (w.conns c).handler ≠ .gone) (hsent : sent? c w a = some m)
    (htaken : dequeued? c w a = none) (hfd : a ≠ .handler c (.sendFd true)) :
    StreamAt fd c (tr ++ [(w, a)]) ((w.conns c).trySend m) := by
  have hfdSent : FdSent c (tr ++ [(w, a)]) = FdSent c tr := by
    simp [fdSent_snoc, hfd]
  rw [StreamAt, accepted_snoc_some hsent, dequeued_snoc, htaken, hfdSent]
  simpa using StreamInv.trySend h hgone m

/-- A move of a handler leaves the other connections alone. -/
theorem HandlerMove.conns_ne {id : ClientId} {b : HandlerAct} (h : HandlerMove fd w id b t)
    (hinv : ServerInv w) (hne : c ≠ id) : t.conns c = w.conns c := by
  cases h with
  | reply hpc hlock =>
      have hmem : id ∈ w.clients := (hinv.registered id).2 (by rw [hpc]; rfl)
      rw [ServerWorld.sendTo_of_mem hmem]
      simp [hne]
  | _ => simp [ServerWorld.unregister, hne]

/-- A broadcast moves no handler. -/
theorem ServerWorld.offer_handler (w : ServerWorld) (call : BroadcastCall) (id c : ClientId) :
    ((w.offer call id).conns c).handler = (w.conns c).handler := by
  rw [offer_eq]
  split
  · by_cases hc : c = id
    · subst hc
      simp [trySend]
    · simp [trySend, hc]
  · rfl

/-- Only its own steps move a handler, once its client has connected. -/
theorem handler_of_step (hinv : ServerInv w) (hstep : w.step fd a = some t)
    (hown : ∀ b, a ≠ .handler c b) :
    (t.conns c).handler = (w.conns c).handler ∨ (a = .connect ∧ c = w.nextId) := by
  cases serverMove_of_step hstep with
  | connect =>
      by_cases hc : c = w.nextId
      · exact Or.inr ⟨rfl, hc⟩
      · exact Or.inl (by simp [hc])
  | broadcast call hlock => exact Or.inl rfl
  | visit hb hid => exact Or.inl (w.offer_handler _ _ c)
  | endBroadcast hb => exact Or.inl rfl
  | handler hmove =>
      rename_i id b
      have hc : c ≠ id := by
        rintro rfl
        exact hown b rfl
      exact Or.inl (by rw [hmove.conns_ne hinv hc])
  | writer hmove =>
      rename_i id b conn
      by_cases hc : c = id
      · subst hc
        exact Or.inl (by simp [hmove.handler])
      · exact Or.inl (by simp [hc])
  | counters rxXruns txXruns lastLatency => exact Or.inl rfl

/-- A move of the handler of `c` that is neither its handshake nor a reply. -/
theorem StreamAt.handlerQuiet {conn : Connection} {b : HandlerAct} (h : StreamAt fd c tr conn)
    (hfd : b ≠ .sendFd true) (hreply : b = .proceed → (w.conns c).reply? = none) :
    StreamAt fd c (tr ++ [(w, .handler c b)]) conn := by
  refine h.quiet ?_ rfl (by simpa using hfd)
  cases b with
  | proceed => simpa [sent?] using hreply rfl
  | _ => rfl

theorem StreamAt.handlerMove {b : HandlerAct} (h : StreamAt fd c tr (w.conns c))
    (hinv : ServerInv w) (hmove : HandlerMove fd w c b t) :
    StreamAt fd c (tr ++ [(w, .handler c b)]) (t.conns c) := by
  cases hmove with
  | register hpc hlock =>
      have hsame := h.handlerQuiet (w := w) (b := .proceed) (by simp) (by simp [Connection.reply?, hpc])
      have hmoved := StreamInv.setHandler hsame .registered
        (by simp [hpc, HandlerPc.inSetup]) (by simp) (by simp [hpc])
      simpa using hmoved
  | sendFd hpc =>
      have hfdSent : FdSent c (tr ++ [(w, .handler c (.sendFd true))]) = True := by
        simp [fdSent_snoc]
      rw [StreamAt, accepted_snoc_none rfl, dequeued_snoc, hfdSent]
      simpa [dequeued?] using StreamInv.sendFd h hpc
  | spawn hpc =>
      have hsame := h.handlerQuiet (w := w) (b := .spawnWriter true) (by simp) (by simp)
      simpa using StreamInv.spawn hsame hpc
  | leave hpc hact =>
      have hsame := h.handlerQuiet (w := w) (b := b) (by rcases hact with rfl | rfl | rfl <;> simp)
        (by rcases hact with rfl | rfl | rfl <;> simp)
      have hgone : (w.conns c).handler ≠ .gone := by
        intro hgone
        rw [hgone] at hpc
        cases hpc
      have hmoved := StreamInv.setHandler hsame .leaving (by simp [HandlerPc.inSetup])
        (by simp) hgone
      simpa using hmoved
  | serve next hpc hquiet hact hnext =>
      rename_i s
      have hreply : (w.conns c).reply? = none := by
        cases s with
        | replying m => exact absurd rfl (hquiet m)
        | _ => simp [Connection.reply?, hpc]
      have hsame := h.handlerQuiet (w := w) (b := b) (by rcases hact with rfl | ⟨m, rfl⟩ <;> simp)
        (fun _ => hreply)
      have hmoved := StreamInv.setHandler hsame (.serving next)
        (by simp [HandlerPc.inSetup]) (by simp) (by simp [hpc])
      simpa using hmoved
  | subscribe hpc hlock =>
      have hsame := h.handlerQuiet (w := w) (b := .proceed) (by simp) (by simp [Connection.reply?, hpc])
      have hmoved := StreamInv.setHandler hsame (.serving .reading)
        (by simp [HandlerPc.inSetup]) (by simp) (by simp [hpc])
      simpa using hmoved
  | reply hpc hlock =>
      rename_i m
      have hmem : c ∈ w.clients := (hinv.registered c).2 (by rw [hpc]; rfl)
      have hsent : sent? c w (.handler c .proceed) = some m := by
        simp [sent?, Connection.reply?, hpc]
      have hgone : (w.conns c).handler ≠ .gone := by simp [hpc]
      have hkeep : ((w.conns c).trySend m).handler = (w.conns c).handler :=
        Connection.trySend_handler ..
      have hmoved := StreamInv.setHandler (h.send hgone hsent rfl (by simp))
        (.serving .reading) (by simp [HandlerPc.inSetup]) (by simp) (by rw [hkeep]; exact hgone)
      rw [ServerWorld.sendTo_of_mem hmem]
      simpa using hmoved
  | unregister hpc hlock =>
      -- the sender is dropped, and what is queued stays for the writer thread
      have hsame := h.handlerQuiet (w := w) (b := .proceed) (by simp) (by simp [Connection.reply?, hpc])
      simpa [ServerWorld.unregister] using StreamInv.finish hsame hpc

/-- The visit of a client by the broadcast under way. -/
theorem StreamAt.visit {id : ClientId} {b : Broadcast} (h : StreamAt fd c tr (w.conns c))
    (hinv : ServerInv w) (hb : w.broadcast = some b) :
    StreamAt fd c (tr ++ [(w, .visit id)]) ((w.offer b.call id).conns c) := by
  rw [ServerWorld.offer_eq]
  by_cases hid : id = c
  · subst hid
    cases hwanted : w.wantedBy b.call id with
    | false => exact h.quiet (by simp [sent?, hb, hwanted]) rfl (by simp)
    | true =>
        -- a client that is visited is registered, so that its handler is not gone
        have hreg := (hinv.registered id).1 (ServerWorld.mem_of_wantedBy hwanted)
        have hgone : (w.conns id).handler ≠ .gone := by
          intro hgone
          rw [hgone] at hreg
          cases hreg
        have hsent := h.send (m := b.call.message) (a := .visit id) hgone
          (by simp [sent?, hb, hwanted]) rfl (by simp)
        simpa using hsent
  · have hsame : (if w.wantedBy b.call id then w.trySend id b.call.message else w).conns c =
        w.conns c := by
      split
      · simp [Ne.symm hid]
      · rfl
    rw [hsame]
    exact h.quiet (by simp [sent?, hb, hid]) rfl (by simp)

theorem StreamAt.step (h : StreamAt fd c tr (w.conns c)) (hinv : ServerInv w)
    (hstep : w.step fd a = some t) : StreamAt fd c (tr ++ [(w, a)]) (t.conns c) := by
  cases serverMove_of_step hstep with
  | connect =>
      have hsame := h.quiet (w := w) (a := .connect) rfl rfl (by simp)
      by_cases hc : c = w.nextId
      · subst hc
        have hfresh := hinv.fresh w.nextId (Nat.le_refl _)
        -- nothing has been accepted for this id: its connection was unborn
        have hmoved := StreamInv.setHandler hsame .allocated
          (by simp [hfresh, Connection.unborn, HandlerPc.inSetup]) (by simp)
          (by simp [hfresh, Connection.unborn])
        simpa using hmoved
      · simpa [hc] using hsame
  | broadcast call hlock => exact h.quiet rfl rfl (by simp)
  | visit hb hid => exact h.visit hinv hb
  | endBroadcast hb => exact h.quiet rfl rfl (by simp)
  | handler hmove =>
      rename_i id b
      by_cases hc : c = id
      · subst hc
        exact h.handlerMove hinv hmove
      · rw [hmove.conns_ne hinv hc]
        refine h.quiet ?_ rfl (by simp [Ne.symm hc])
        cases b with
        | proceed => simp [sent?, Ne.symm hc]
        | _ => rfl
  | writer hmove =>
      rename_i id b conn
      by_cases hc : c = id
      · subst hc
        have hfdSent : FdSent c (tr ++ [(w, .writer c b)]) = FdSent c tr := by
          simp [fdSent_snoc]
        rw [StreamAt, accepted_snoc_none rfl, dequeued_snoc, hfdSent]
        simpa [dequeued?] using StreamInv.writerMove h hmove
      · have hsame := h.quiet (w := w) (a := .writer id b) rfl (by simp [dequeued?, Ne.symm hc])
          (by simp)
        simpa [hc] using hsame
  | counters rxXruns txXruns lastLatency => exact h.quiet rfl rfl (by simp)

/-! ## No client is passed over -/

theorem pending_of_unlocked (c : ClientId) (h : w.broadcast = none) : pending c w = [] := by
  simp [pending, h]

/-- Only the broadcast under way and the registry matter. -/
theorem pending_congr (c : ClientId) (hbroadcast : t.broadcast = w.broadcast)
    (hclients : t.clients = w.clients) : pending c t = pending c w := by
  cases w
  cases t
  simp only at hbroadcast hclients
  subst hbroadcast hclients
  rfl

/-- A handler changes the registry only while no broadcast is under way. -/
theorem HandlerMove.pending {id : ClientId} {b : HandlerAct} (h : HandlerMove fd w id b t)
    (hinv : ServerInv w) : pending c t = pending c w := by
  cases h with
  | register hpc hlock =>
      rw [pending_of_unlocked c hlock]
      exact pending_of_unlocked c hlock
  | subscribe hpc hlock =>
      rw [pending_of_unlocked c hlock]
      exact pending_of_unlocked c (by simp [hlock])
  | reply hpc hlock =>
      have hmem : id ∈ w.clients := (hinv.registered id).2 (by rw [hpc]; rfl)
      rw [pending_of_unlocked c hlock, ServerWorld.sendTo_of_mem hmem]
      exact pending_of_unlocked c hlock
  | unregister hpc hlock =>
      rw [pending_of_unlocked c hlock]
      exact pending_of_unlocked c hlock
  | _ => rfl

/-- A handler that replies has waited for the broadcast under way. -/
theorem HandlerMove.unlocked_of_reply {m : ServerMsg} (h : HandlerMove fd w c .proceed t)
    (hreply : (w.conns c).reply? = some m) : w.broadcast = none := by
  have hpc := Connection.reply?_eq_some.1 hreply
  cases h with
  | reply hpc' hlock => exact hlock
  | register hpc' hlock => exact hlock
  | subscribe hpc' hlock => exact hlock
  | unregister hpc' hlock => exact hlock
  | serve next hpc' hquiet hact hnext =>
      rw [hpc] at hpc'
      cases hpc'
      exact absurd rfl (hquiet m)
  | leave hreg hact => simp at hact

/-- What was pending for `c` or is addressed to it by the step is sent by the step or pending
behind it. -/
theorem pending_step (hinv : ServerInv w) (hstep : w.step fd a = some t) :
    pending c w ++ (addressed? c w a).toList = (sent? c w a).toList ++ pending c t := by
  cases serverMove_of_step hstep with
  | broadcast call hlock =>
      rw [pending_of_unlocked c hlock]
      cases hwanted : w.wantedBy call c with
      | false =>
          have hwanted' : w.wantedBy call c = false := hwanted
          simp [addressed?, sent?, pending, ServerWorld.wantedBy] at hwanted' ⊢
          simp [hwanted']
      | true =>
          have hkeys := AList.mem_keys.1 (ServerWorld.mem_of_wantedBy hwanted)
          have hwanted' : w.wantedBy call c = true := hwanted
          simp only [ServerWorld.wantedBy] at hwanted'
          simp [addressed?, sent?, pending, ServerWorld.wantedBy, hwanted', hkeys]
  | visit hb hid =>
      rename_i id b
      rcases hinv.todo b hb with ⟨hnodup, _⟩
      have hwanted : ({ w.offer b.call id with
          broadcast := some { b with todo := b.todo.erase id } } : ServerWorld).wantedBy
          b.call c = w.wantedBy b.call c := by
        simp [ServerWorld.wantedBy]
      by_cases hc : id = c
      · -- the visit of `c` itself: it is not visited again, for the ids to come are distinct
        subst hc
        cases hw : w.wantedBy b.call id with
        | false => simp [pending, addressed?, sent?, hb, hw, hnodup.mem_erase_iff]
        | true => simp [pending, addressed?, sent?, hb, hw, hid, hnodup.mem_erase_iff]
      · have hmem : c ∈ b.todo.erase id ↔ c ∈ b.todo :=
          List.mem_erase_of_ne (Ne.symm hc)
        simp only [pending, hb, hwanted, hmem]
        simp [addressed?, sent?, hb, hc]
  | endBroadcast hb => simp [pending, addressed?, sent?, hb]
  | handler hmove =>
      rename_i id b
      rw [hmove.pending hinv]
      have hboth : addressed? c w (.handler id b) = sent? c w (.handler id b) := by
        cases b <;> rfl
      rw [hboth]
      cases hsent : sent? c w (.handler id b) with
      | none => simp
      | some m =>
          -- A reply waits for the mutex, and nothing is pending then.
          have hlock : w.broadcast = none := by
            cases b with
            | proceed =>
                simp only [sent?] at hsent
                split at hsent
                · rename_i hid
                  subst hid
                  exact hmove.unlocked_of_reply hsent
                · cases hsent
            | _ => cases hsent
          simp [pending_of_unlocked c hlock]
  | writer hmove =>
      simp only [addressed?, sent?, Option.toList_none, List.append_nil, List.nil_append]
      exact (pending_congr c rfl rfl).symm
  | connect =>
      simp only [addressed?, sent?, Option.toList_none, List.append_nil, List.nil_append]
      exact (pending_congr c rfl rfl).symm
  | counters rxXruns txXruns lastLatency =>
      simp only [addressed?, sent?, Option.toList_none, List.append_nil, List.nil_append]
      exact (pending_congr c rfl rfl).symm

end Step

/-! ## Whole runs -/

theorem serverInv_of_trace {fd : RawFd} {tr : ServerTrace} {w : ServerWorld}
    (h : Trace (serverSystem fd) tr w) : ServerInv w := by
  induction h with
  | start => exact serverInv_start
  | snoc htr hstep ih => exact ih.step hstep

theorem streamAt_of_trace {fd : RawFd} {tr : ServerTrace} {w : ServerWorld}
    (h : Trace (serverSystem fd) tr w) (c : ClientId) : StreamAt fd c tr (w.conns c) := by
  induction h with
  | start =>
      have hfdSent : FdSent c [] = False := by
        simp [FdSent]
      rw [StreamAt, hfdSent]
      exact StreamInv.unborn fd
  | snoc htr hstep ih => exact ih.step (serverInv_of_trace htr) hstep

theorem nothingMissed_of_trace {fd : RawFd} {tr : ServerTrace} {w : ServerWorld}
    (h : Trace (serverSystem fd) tr w) (c : ClientId) :
    addressedTo c tr = (sends c tr).map Send.message ++ pending c w := by
  induction h with
  | start => rfl
  | snoc htr hstep ih =>
      rename_i tr w t a
      have hlast := pending_step (c := c) (serverInv_of_trace htr) hstep
      calc
        addressedTo c (tr ++ [(w, a)])
            = (sends c tr).map Send.message ++ (pending c w ++ (addressed? c w a).toList) := by
            rw [addressedTo_snoc, ih, List.append_assoc]
        _ = (sends c tr).map Send.message ++ ((sent? c w a).toList ++ pending c t) := by
            rw [hlast]
        _ = (sends c (tr ++ [(w, a)])).map Send.message ++ pending c t := by
            rw [messages_snoc, List.append_assoc]

/-- What the writer thread has taken out is the beginning of what was accepted, whatever has become
of the client since. -/
theorem dequeued_within_accepted {fd : RawFd} {tr : ServerTrace} {w : ServerWorld}
    (h : Trace (serverSystem fd) tr w) (c : ClientId) : dequeued c tr <+: accepted c tr := by
  induction h with
  | start => exact List.prefix_rfl
  | snoc htr hstep ih =>
      rename_i tr w t a
      cases htaken : dequeued? c w a with
      | none =>
          have hsame : dequeued c (tr ++ [(w, a)]) = dequeued c tr := by
            simp [dequeued_snoc, htaken]
          rw [hsame]
          exact ih.trans (accepted_grows c tr w a)
      | some m =>
          -- the writer thread works, and the queue is what it has yet to take
          have hrunning := (streamAt_of_trace (htr.snoc hstep) c).running
          rcases sending_of_dequeued htaken hstep with ⟨rest, hrest⟩
          exact ⟨_, (hrunning rest hrest).2.2⟩

theorem accepted_sublist_addressed {fd : RawFd} {tr : ServerTrace} {w : ServerWorld}
    (h : Trace (serverSystem fd) tr w) (c : ClientId) :
    (accepted c tr).Sublist (addressedTo c tr) := by
  rw [nothingMissed_of_trace h c, accepted]
  exact (List.filter_sublist.map _).trans (List.sublist_append_left _ _)

/-- In every run, for every client: whenever the writer thread is between two messages, its socket
carries the handshake byte with the descriptor and then whole frames, whose messages followed by
the queue are exactly what was sent to the client while its queue was not full. -/
theorem outbound_stream {fd : RawFd} {tr : ServerTrace} {w : ServerWorld}
    (h : Trace (serverSystem fd) tr w) (c : ClientId) : OutboundStream fd c tr w := by
  have hstream := streamAt_of_trace h c
  refine ⟨fun hnot => (hstream.silent hnot).2, fun hfd hwriter => (hstream.early hwriter).2 hfd,
    fun hwriter hgone => (hstream.waiting hwriter hgone).2, ?_, nothingMissed_of_trace h c⟩
  intro hidle
  rcases hstream.running [] (by rw [hidle]; rfl) with ⟨_, hsock, hqueue⟩
  exact ⟨by simpa [plain] using hsock, hqueue⟩

/-! ## A client whose queue is full -/

/-- `c` is the only client, it takes every broadcast, its writer thread waits, and `items` are
queued. -/
structure Alone (c : ClientId) (items : List ServerMsg) (w : ServerWorld) : Prop where
  unlocked : w.broadcast = none
  keys : w.clients.keys = [c]
  wanted : ∀ call, w.wantedBy call c = true
  receiving : (w.conns c).receiving = true
  idle : (w.conns c).writer = .idle
  queued : (w.conns c).queue.items = items

theorem Alone.trySend {items : List ServerMsg} {w : ServerWorld} (h : Alone c items w)
    (m : ServerMsg) :
    Alone c (if items.length < queueCapacity then items ++ [m] else items) (w.trySend c m) := by
  have hconn : (w.trySend c m).conns c =
      { w.conns c with queue := (w.conns c).queue.offer m } := by
    simp [Connection.trySend, h.receiving]
  refine ⟨h.unlocked, h.keys, h.wanted, ?_, ?_, ?_⟩
  · rw [hconn]
    exact h.receiving
  · rw [hconn]
    exact h.idle
  · rw [hconn, Fifo.items_offer, h.queued]

/-- A broadcast from its start to its end. -/
def broadcastTo (c : ClientId) (call : BroadcastCall) : List ServerAct :=
  [.broadcast call, .visit c, .endBroadcast]

theorem Alone.exec_broadcast {items : List ServerMsg} {w : ServerWorld} (h : Alone c items w)
    (fd : RawFd) (call : BroadcastCall) :
    (serverSystem fd).exec w (broadcastTo c call) = some (w.trySend c call.message) := by
  have hbegin : (serverSystem fd).step w (.broadcast call) =
      some { w with broadcast := some { call := call, todo := [c] } } := by
    simp [serverSystem, ServerWorld.step, ServerWorld.whenUnlocked, h.unlocked, h.keys]
  have hvisit : (serverSystem fd).step
      { w with broadcast := some { call := call, todo := [c] } } (.visit c) =
      some { w.trySend c call.message with broadcast := some { call := call, todo := [] } } := by
    have hwanted : ({ w with broadcast := some { call := call, todo := [c] } } :
        ServerWorld).wantedBy call c = true := h.wanted call
    simp only [serverSystem, ServerWorld.step, ServerWorld.offer_eq, hwanted, List.mem_singleton,
      if_true, List.erase_cons_head]
    rfl
  have hend : (serverSystem fd).step
      { w.trySend c call.message with broadcast := some { call := call, todo := [] } }
      .endBroadcast = some { w.trySend c call.message with broadcast := none } := rfl
  have hunlocked : { w.trySend c call.message with broadcast := none } =
      w.trySend c call.message := by
    have hnone : (w.trySend c call.message).broadcast = none := h.unlocked
    rw [← hnone]
  rw [broadcastTo, System.exec_cons hbegin, System.exec_cons hvisit, System.exec_cons hend,
    hunlocked]
  rfl

/-- Broadcasts fill the queue of a client whose writer thread is stalled. -/
theorem Alone.exec_fill (fd : RawFd) (call : BroadcastCall) (n : Nat) {items : List ServerMsg}
    {w : ServerWorld} (h : Alone c items w) (hn : items.length + n ≤ queueCapacity) :
    ∃ t, (serverSystem fd).exec w (List.replicate n (broadcastTo c call)).flatten = some t ∧
      Alone c (items ++ List.replicate n call.message) t := by
  induction n generalizing items w with
  | zero => exact ⟨w, rfl, by simpa using h⟩
  | succ n ih =>
      -- one broadcast, then the others into a queue that holds one message more
      have hroom : items.length < queueCapacity := by omega
      have hsent := h.trySend call.message
      rw [if_pos hroom] at hsent
      rcases ih hsent (by simp; omega) with ⟨t, hexec, halone⟩
      refine ⟨t, ?_, by simpa [List.replicate_succ] using halone⟩
      rw [List.replicate_succ, List.flatten_cons, System.exec_trans (h.exec_broadcast fd call)]
      exact hexec

/-- The full queue. -/
def fullQueue : List ServerMsg :=
  List.replicate queueCapacity (.audioReady 2)

/-- Nothing is dequeued in a run whose writer threads do not move. -/
theorem dequeued_eq_nil {c : ClientId} {tr : ServerTrace}
    (h : ∀ id b, .writer id b ∉ tr.map Prod.snd) : dequeued c tr = [] := by
  rw [dequeued, List.filterMap_eq_nil_iff]
  rintro ⟨w, a⟩ hp
  cases a with
  | writer id b => exact absurd (List.mem_map_of_mem hp) (h id b)
  | _ => rfl

/-- Client 1 connects and subscribes to everything that is broadcast. -/
def subscribing : List ServerAct :=
  [.connect, .handler 1 .proceed, .handler 1 (.sendFd true), .handler 1 (.spawnWriter true),
    .handler 1 (.request (.subscribe ⟨5⟩)), .handler 1 .proceed]

/-- As many notifications as its queue holds. -/
def flood : List ServerAct := (List.replicate queueCapacity (broadcastTo 1 (.audioReady 2))).flatten

theorem mem_flood {a : ServerAct} (h : a ∈ flood) :
    a = .broadcast (.audioReady 2) ∨ a = .visit 1 ∨ a = .endBroadcast := by
  rcases List.mem_flatten.1 h with ⟨as, has, ha⟩
  rw [List.eq_of_mem_replicate has] at ha
  simpa [broadcastTo] using ha

theorem exists_full : ∃ w,
    (serverSystem 7).exec ServerWorld.start (subscribing ++ flood) = some w ∧
      Alone 1 fullQueue w := by
  have hsubscribed : ∃ w, (serverSystem 7).exec ServerWorld.start subscribing = some w ∧
      Alone 1 [] w := by
    refine ⟨_, rfl, rfl, rfl, ?_, rfl, rfl, rfl⟩
    intro call
    cases call <;> rfl
  rcases hsubscribed with ⟨w, hexec, halone⟩
  rcases halone.exec_fill 7 (.audioReady 2) queueCapacity (Nat.le_of_eq (Nat.zero_add _)) with
    ⟨t, hfill, hfull⟩
  refine ⟨t, ?_, hfull⟩
  rw [System.exec_trans hexec]
  exact hfill

/-- An event behind the notifications is addressed to the client, and dropped. -/
theorem outbound_stream_full :
    ∃ tr w, Trace (serverSystem 7) tr w ∧ (w.conns 1).writer = .idle ∧
      .radioEvent .pttAssert ∈ addressedTo 1 tr ∧ accepted 1 tr = fullQueue ∧
      OutboundStream 7 1 tr w := by
  rcases exists_full with ⟨w, hexec, halone⟩
  have hdrop := halone.exec_broadcast 7 (.radioEvent .pttAssert)
  have hfull := halone.trySend (BroadcastCall.radioEvent .pttAssert).message
  rw [if_neg (by simp [fullQueue])] at hfull
  have hrun : Trace (serverSystem 7)
      ((serverSystem 7).steps ServerWorld.start (subscribing ++ flood) ++
        (serverSystem 7).steps w (broadcastTo 1 (.radioEvent .pttAssert)))
      (w.trySend 1 (BroadcastCall.radioEvent .pttAssert).message) :=
    (Trace.start.exec hexec).exec hdrop
  have hstream := outbound_stream hrun 1
  refine ⟨_, _, hrun, hfull.idle, ?_, ?_, hstream⟩
  · refine List.mem_filterMap.2
      ⟨(w, .broadcast (.radioEvent .pttAssert)), List.mem_append_right _ List.mem_cons_self, ?_⟩
    simp [addressed?, halone.wanted, BroadcastCall.message]
  · -- no writer thread has moved
    have hwait : ∀ id b, ServerAct.writer id b ∉
        ((serverSystem 7).steps ServerWorld.start (subscribing ++ flood) ++
          (serverSystem 7).steps w (broadcastTo 1 (.radioEvent .pttAssert))).map Prod.snd := by
      intro id b hmem
      rw [List.map_append, System.labels_steps hexec, System.labels_steps hdrop] at hmem
      have hflood : ServerAct.writer id b ∈ flood := by
        simpa [subscribing, broadcastTo] using hmem
      rcases mem_flood hflood with h | h | h
      · cases h
      · cases h
      · cases h
    have hnone := dequeued_eq_nil (c := 1) hwait
    have hqueue := (hstream.betweenMessages hfull.idle).2
    rw [hnone, hfull.queued, List.nil_append] at hqueue
    exact hqueue.symm

end Cm108Driver
