import Cm108Driver.Client.Receiving
import Cm108Driver.Lib.Progress

/-!
# Departure — what a client still gets when its handler is gone

When `handle_client` returns, the registry has dropped the sender of the client's queue, but the
writer thread still owns the receiver and a clone of the socket.  Nothing more is accepted for the
client, whatever the server goes on to do; and the writer thread writes what is queued and ends, so
that the client reads all that was ever accepted for it and then the end of the stream.
-/

namespace Cm108Driver

open Lib

section Departure

variable {fd : RawFd} {c : ClientId}

/-! ## Nothing more is accepted -/

/-- Nothing is sent to a client whose handler is gone. -/
theorem sent_none_of_gone {w : ServerWorld} (hinv : ServerInv w) (a : ServerAct)
    (hgone : (w.conns c).handler = .gone) : sent? c w a = none := by
  cases hsent : sent? c w a with
  | none => rfl
  | some m =>
      unfold sent? at hsent
      split at hsent
      · split at hsent
        · rename_i b hb
          split at hsent
          · rename_i hwanted
            -- it is not in the registry any more
            have hmem := ServerWorld.mem_of_wantedBy hwanted.2
            rw [hinv.registered, hgone] at hmem
            cases hmem
          · cases hsent
        · cases hsent
      · split at hsent
        · rw [Connection.reply?_eq_some, hgone] at hsent
          cases hsent
        · cases hsent
      · cases hsent

/-- A step of the link system behind which the handler of `c` was gone. -/
theorem gone_of_link {tr : LinkTrace} {w t : LinkWorld} {a : LinkAct}
    (h : Trace (linkSystem fd) tr w) (hstep : w.step fd a = some t)
    (hgone : (w.conn c).handler = .gone) :
    (t.conn c).handler = .gone ∧
      accepted c (linkServer fd (tr ++ [(w, a)])) = accepted c (linkServer fd tr) := by
  have hserver := serverInv_of_trace (serverRun_of_link h)
  cases hlabel : (linkSimulation fd).label w a with
  | none =>
      have hsame : t.server = w.server := (linkSimulation fd).hidden hstep hlabel
      rw [linkServer, (linkSimulation fd).trace_snoc_hidden tr hlabel, LinkWorld.conn, hsame]
      exact ⟨hgone, rfl⟩
  | some b =>
      have hstep' : w.server.step fd b = some t.server := (linkSimulation fd).shown hstep hlabel
      rw [linkServer, (linkSimulation fd).trace_snoc_shown tr hlabel]
      exact ⟨(gone_stays hserver hstep' hgone).1,
        accepted_snoc_none (sent_none_of_gone hserver b hgone) _⟩

/-! ## The writer thread -/

/-- The steps of the writer thread of `c` whose writes take something. -/
def LinkAct.drains (c : ClientId) (a : LinkAct) : Prop :=
  a = .server (.writer c .dequeue) ∨ ∃ n, 0 < n ∧ a = .server (.writer c (.write n))

/-- What the writer thread has to do, in steps at most: one for each message that it has yet to take
off the queue, and one for each byte. -/
def Connection.toWrite (conn : Connection) : Nat :=
  (conn.queue.items.map fun m => (writeMsg m).length + 1).sum + conn.writer.rest.length

/-- A write under way has something left to write. -/
theorem sending_ne_nil {tr : ServerTrace} {w : ServerWorld} (h : Trace (serverSystem fd) tr w)
    (c : ClientId) : (w.conns c).writer ≠ .sending [] := by
  induction h with
  | start => simp [serverSystem, ServerWorld.start, Connection.unborn]
  | snoc htr hstep ih =>
      rename_i tr w t a
      cases connMove_of_step (c := c) (serverInv_of_trace htr) hstep with
      | keep hsock hwriter hqueue => exact hwriter ▸ ih
      | handshake hpc hsock hwriter hqueue => exact hwriter ▸ ih
      | spawn hpc hsock hwriter hqueue => simp [hwriter]
      | writer hact hmove =>
          generalize t.conns c = conn at hmove
          cases hmove with
          | dequeue hpc hpop => simp [writeMsg, frame, toLe]
          | writeSome hpc hlt => simpa using hlt
          | writeAll hpc hle => simp
          | fail hpc => simp

theorem toWrite_lt {conn conn' : Connection} {b : ClientWriterAct} (hmove : WriterMove conn b conn')
    (hb : b = .dequeue ∨ ∃ n, 0 < n ∧ b = .write n) (hsending : conn.writer ≠ .sending []) :
    conn'.toWrite < conn.toWrite ∧ ∃ rest, conn'.writer.unsent = some rest := by
  cases hmove with
  | dequeue hpc hpop =>
      have hitems := Fifo.items_pop hpop
      refine ⟨?_, _, rfl⟩
      simp [Connection.toWrite, ClientWriterPc.rest, hpc, hitems]
      omega
  | writeSome hpc hlt =>
      rename_i n rest
      have hpos : 0 < n := by simpa using hb
      refine ⟨?_, _, rfl⟩
      simp [Connection.toWrite, ClientWriterPc.rest, hpc]
      omega
  | writeAll hpc hle =>
      rename_i rest
      have hmore : rest ≠ [] := by
        rintro rfl
        exact hsending hpc
      refine ⟨?_, _, rfl⟩
      simpa [Connection.toWrite, ClientWriterPc.rest, hpc] using List.length_pos_of_ne_nil hmore
  | fail hpc => simp at hb

/-- The invariant of a client whose handler is gone and whose writer thread works. -/
structure Departed (fd : RawFd) (c : ClientId) (acc : List ServerMsg) (peer : Peer) (w : LinkWorld) :
    Prop where
  reached : ∃ tr, Trace (linkSystem fd) tr w ∧ accepted c (linkServer fd tr) = acc
  gone : (w.conn c).handler = .gone
  works : ∃ rest, (w.conn c).writer.unsent = some rest
  same : w.peers c = peer

/-- The stream has ended behind all that was accepted. -/
def ServedOut (c : ClientId) (acc : List ServerMsg) (w : LinkWorld) : Prop :=
  (w.conn c).hungUp = true ∧ (w.peers c).received ++ messagesIn (w.bytes c) = acc

namespace Departed

variable {acc : List ServerMsg} {peer : Peer} {w t : LinkWorld}

/-- One step of the writer thread. -/
theorem step {a : LinkAct} (h : Departed fd c acc peer w) (ha : a.drains c)
    (hstep : (linkSystem fd).step w a = some t) :
    Departed fd c acc peer t ∧ (t.conn c).toWrite < (w.conn c).toWrite := by
  rcases h.reached with ⟨tr, htr, hacc⟩
  rcases gone_of_link htr hstep h.gone with ⟨hgone, hsame⟩
  have hwriter : ∃ b, a = .server (.writer c b) ∧ (b = .dequeue ∨ ∃ n, 0 < n ∧ b = .write n) := by
    rcases ha with rfl | ⟨n, hn, rfl⟩
    · exact ⟨_, rfl, Or.inl rfl⟩
    · exact ⟨_, rfl, Or.inr ⟨n, hn, rfl⟩⟩
  rcases hwriter with ⟨b, rfl, hb⟩
  have hrun := htr.snoc hstep
  have hmove : LinkMove fd w (.server (.writer c b)) t := linkMove_of_step hstep
  cases hmove with
  | server hserver =>
      cases serverMove_of_step hserver with
      | writer hmove =>
          have hsending := sending_ne_nil (serverRun_of_link htr) c
          rcases toWrite_lt hmove hb hsending with ⟨hlt, hworks⟩
          refine ⟨⟨⟨_, hrun, hsame.trans hacc⟩, hgone, ?_, h.same⟩, ?_⟩
          · simpa [LinkWorld.conn] using hworks
          · simpa [LinkWorld.conn] using hlt

/-- With nothing more to write, all that was accepted is before the client. -/
theorem servedOut {fd' : RawFd} (h : Departed fd c acc peer w) (hconnected : peer.state = .connected fd')
    (hidle : (w.conn c).writer = .idle) (hempty : (w.conn c).queue.items = []) :
    ServedOut c acc w := by
  rcases h.reached with ⟨tr, htr, rfl⟩
  have hinv := peerInv_of_trace htr c
  have hserver := serverRun_of_link htr
  refine ⟨by simp [Connection.hungUp, h.gone, hidle, hempty], ?_⟩
  rcases (hinv.rxShmem fd' (by rw [h.same, hconnected])).2 with hwhole | ⟨hfailed, _⟩
  · rcases hinv.inOrder with ⟨ms, hms⟩
    rcases (streamAt_of_trace hserver c).running [] (by rw [hidle]; rfl) with ⟨_, hsock, hqueue⟩
    rw [hempty, List.append_nil] at hqueue
    rw [hqueue, ← hms] at hsock
    have hbytes : w.bytes c = ms.flatMap writeMsg :=
      hwhole.all_frames (by simpa [plain] using hsock)
    have hsendable := sendable_accepted hserver c
    rw [← hms] at hsendable
    rw [hbytes, messagesIn_flatMap fun m hm => hsendable m (List.mem_append_right _ hm), hms]
  · exact absurd (hidle.symm.trans hfailed) (by simp)

theorem step_writer {b : ClientWriterAct} {conn : Connection}
    (h : (w.conn c).writerStep b = some conn) :
    w.step fd (.server (.writer c b)) = some { w with server := w.server.setConn c conn } := by
  simp [LinkWorld.step, ServerWorld.step, h]

/-- The writer thread goes on until then. -/
theorem enabled {fd' : RawFd} (h : Departed fd c acc peer w) (hconnected : peer.state = .connected fd')
    (hmore : ¬ ServedOut c acc w) : ∃ a t, a.drains c ∧ w.step fd a = some t := by
  rcases h.works with ⟨rest, hrest⟩
  cases hpc : (w.conn c).writer with
  | idle =>
      cases hitems : (w.conn c).queue.items with
      | nil => exact absurd (h.servedOut hconnected hpc hitems) hmore
      | cons m ms =>
          rcases Fifo.pop_of_items hitems with ⟨queue, hpop, _⟩
          have hstep : (w.conn c).writerStep .dequeue =
              some
                { w.conn c with
                  queue := queue
                  writer := .sending (writeMsg m) } := by
            simp [Connection.writerStep, hpc, hpop]
          exact ⟨_, _, Or.inl rfl, step_writer hstep⟩
  | sending rest =>
      have hstep : (w.conn c).writerStep (.write (rest.length + 1)) =
          some
            { w.conn c with
              writer := .idle
              sock := (w.conn c).sock ++ plain rest } := by
        simp [Connection.writerStep, hpc]
      exact ⟨_, _, Or.inr ⟨_, Nat.succ_pos _, rfl⟩, step_writer hstep⟩
  | notStarted => simp [hpc, ClientWriterPc.unsent] at hrest
  | failed => simp [hpc, ClientWriterPc.unsent] at hrest

theorem ranked {fd' : RawFd} (hconnected : peer.state = .connected fd') :
    Ranked (linkSystem fd) (Departed fd c acc peer) (LinkAct.drains c) (ServedOut c acc)
      (fun w => (w.conn c).toWrite) where
  keeps := fun h ha hstep => (h.step ha hstep).1
  enabled := fun h hmore => h.enabled hconnected hmore
  lowers := fun h ha hstep => (h.step ha hstep).2

end Departed

/-! ## Whole runs -/

/-- Behind a point where the handler of `c` is gone, nothing more is accepted for it. -/
theorem accepted_of_gone {tr : LinkTrace} {w t : LinkWorld} {as : List LinkAct}
    (h : Trace (linkSystem fd) tr w) (hgone : (w.conn c).handler = .gone)
    (hexec : (linkSystem fd).exec w as = some t) :
    accepted c (linkServer fd (tr ++ (linkSystem fd).steps w as)) =
      accepted c (linkServer fd tr) := by
  induction as generalizing tr w with
  | nil => simp [System.steps]
  | cons a as ih =>
      rcases Option.bind_eq_some_iff.1 hexec with ⟨u, hstep, hrest⟩
      rcases gone_of_link h hstep hgone with ⟨hgone', hsame⟩
      have hsplit : tr ++ (linkSystem fd).steps w (a :: as) =
          (tr ++ [(w, a)]) ++ (linkSystem fd).steps u as := by
        simp [System.steps, hstep]
      rw [hsplit, ih (h.snoc hstep) hgone' hrest, hsame]

/-- What becomes of a client whose handler is gone. -/
structure ServedToTheEnd (fd : RawFd) (c : ClientId) (tr : LinkTrace) (w : LinkWorld) : Prop where
  /-- Whatever else happens. -/
  nothingMore : ∀ as t, (linkSystem fd).exec w as = some t →
    accepted c (linkServer fd (tr ++ (linkSystem fd).steps w as)) = accepted c (linkServer fd tr)
  drained : Settles (linkSystem fd) (LinkAct.drains c) (ServedOut c (accepted c (linkServer fd tr)))
    (w.conn c).toWrite w

/-- In every run, for every client that is connected and whose handler is gone while its writer
thread works: nothing more is accepted for it; and by its own steps alone, as long as its writes
take something, the writer thread comes to its end within `toWrite` of them, with all that was ever
accepted for the client either read or before it on its socket. -/
theorem departed_client_served {tr : LinkTrace} {w : LinkWorld} (h : Trace (linkSystem fd) tr w)
    (c : ClientId) {fd' : RawFd} (hconnected : (w.peers c).state = .connected fd')
    (hgone : (w.conn c).handler = .gone)
    (hworks : (w.conn c).writer = .idle ∨ ∃ rest, (w.conn c).writer = .sending rest) :
    ServedToTheEnd fd c tr w where
  nothingMore := fun _ _ hexec => accepted_of_gone h hgone hexec
  drained := by
    have hunsent : ∃ rest, (w.conn c).writer.unsent = some rest := by
      rcases hworks with hpc | ⟨rest, hpc⟩
      · exact ⟨[], by rw [hpc]; rfl⟩
      · exact ⟨rest, by rw [hpc]; rfl⟩
    exact (Departed.ranked hconnected).settles ⟨⟨tr, h, rfl⟩, hgone, hunsent, rfl⟩

end Departure

/-! ## A pong that is still queued -/

/-- Client 1 connects and pings twice, and its handler is gone with both pongs in the queue. -/
def leaveEarly : List LinkAct :=
  [.server .connect, .server (.handler 1 .proceed), .server (.handler 1 (.sendFd true)),
    .connect 1 (.ok true) (.ok ()), .server (.handler 1 (.spawnWriter true)),
    .server (.handler 1 (.request .ping)), .server (.handler 1 .proceed),
    .server (.handler 1 (.request .ping)), .server (.handler 1 .proceed),
    .server (.handler 1 .hangUp), .server (.handler 1 .proceed)]

theorem departed_client_served_pongs :
    ∃ tr w, Trace (linkSystem 7) tr w ∧ (w.conn 1).queue.items = [.pong, .pong] ∧
      accepted 1 (linkServer 7 tr) = [.pong, .pong] ∧ ServedToTheEnd 7 1 tr w := by
  have hrun := Trace.start.exec
    (show (linkSystem 7).exec LinkWorld.start leaveEarly = some _ from rfl)
  exact ⟨_, _, hrun, rfl, rfl, departed_client_served hrun 1 rfl rfl (Or.inl rfl)⟩

end Cm108Driver
