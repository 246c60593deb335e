import Cm108Driver.Ipc.SliceFraming
import Cm108Driver.Server.Outbound

/-!
# InTransit — the messages on their way to a client

Between `try_send` and the client a message waits in the queue, then its bytes are with the writer
thread, then on the socket until the client reads them; before that, the broadcast that carries it
may have to wait for its turn at this client.  `onWay` is all of them, read off the state alone.

A step puts a message on its way only if it addresses it to the client (`onWay_step`), and the bytes
that lie before the client are whole frames, but for the last one of a writer thread that has failed
(`WireInv`).
-/

namespace Cm108Driver

open Lib

/-! ## The bytes before a client -/

/-- What the writer thread has yet to write of its message. -/
def ClientWriterPc.rest : ClientWriterPc → List UInt8
  | .sending rest => rest
  | _ => []

/-- The bytes on the socket of a client that has taken `taken` of them. -/
def Connection.unread (conn : Connection) (taken : Nat) : List UInt8 :=
  (conn.sock.map SockByte.byte).drop taken

def Connection.wire (conn : Connection) (taken : Nat) : List UInt8 :=
  conn.unread taken ++ conn.writer.rest

/-- The messages in some bytes. -/
def messagesIn (bs : List UInt8) : List ServerMsg := readServerMsgs .eof [.data bs]

/-- The messages on their way to the client `c`, which has taken `taken` bytes off its socket. -/
def onWay (c : ClientId) (taken : Nat) (w : ServerWorld) : List ServerMsg :=
  messagesIn ((w.conns c).wire taken) ++ (w.conns c).queue.items ++ pending c w

theorem sendable_of_isReply {m : ServerMsg} (h : m.isReply) : m.Sendable := by
  cases m with
  | error s => cases h
  | _ => trivial

theorem sendable_message (call : BroadcastCall) : call.message.Sendable := by
  cases call <;> trivial

theorem accepts_writeMsg {m : ServerMsg} (hm : m.Sendable) : clientReader.Accepts (writeMsg m) m := by
  have hcap := hm.length_le
  have hwidth : (toVec m).length < 4294967296 := Nat.lt_of_le_of_lt hcap (by decide)
  exact ⟨toLe 4 (toVec m).length, toVec m, rfl, length_toLe _ _, (ofLe_header hwidth).symm, hcap,
    fromBytes_encode_serverMsg hm.encodable⟩

theorem messagesIn_frame {m : ServerMsg} (hm : m.Sendable) (bs : List UInt8) :
    messagesIn (writeMsg m ++ bs) = m :: messagesIn bs :=
  readAll_append (accepts_writeMsg hm)

@[simp] theorem messagesIn_nil : messagesIn [] = [] := by
  apply readAll_stop
  intro m es' hread
  rcases accepts_of_read hread with ⟨f, hacc, harr⟩
  have hfour := hacc.four_le
  simp only [arrived, List.append_nil] at harr
  rw [(List.append_eq_nil_iff.mp harr.symm).1] at hfour
  cases hfour

theorem messagesIn_flatMap {ms : List ServerMsg} (hms : ∀ m ∈ ms, m.Sendable) :
    messagesIn (ms.flatMap writeMsg) = ms := by
  -- frame by frame
  induction ms with
  | nil => exact messagesIn_nil
  | cons m ms ih =>
      rw [List.flatMap_cons, messagesIn_frame (hms m List.mem_cons_self),
        ih fun m' hm' => hms m' (List.mem_cons_of_mem _ hm')]

/-- With bytes missing at the end, no other messages are found. -/
theorem messagesIn_append_left (bs more : List UInt8) :
    messagesIn bs <+: messagesIn (bs ++ more) :=
  readAll_prefix

/-! ## Reading the next message -/

/-- A blocking read at the front of some frames, with or without a server at the other end: it
returns the first message if its frame is there, and otherwise takes all and ends as the stream
ends. -/
theorem read_next {ms : List ServerMsg} (hms : ∀ m ∈ ms, m.Sendable) {bs more : List UInt8}
    (h : bs ++ more = ms.flatMap writeMsg) (ending : Ending) :
    (∃ m ms' bs' es', ms = m :: ms' ∧ bs = writeMsg m ++ bs' ∧ bs' ++ more = ms'.flatMap writeMsg ∧
      readServerMsg .blocking ending [.data bs] = (.ok (some m), es') ∧ arrived es' = bs') ∨
    (readServerMsg .blocking ending [.data bs] =
        (clientReader.cutOff ending (bs.length < 4), []) ∧
      (more = [] → ms = [])) := by
  have harr : arrived [Arrival.data bs] = bs := by simp [arrived]
  rw [← harr] at h
  rcases read_frames_next (fun m hm => accepts_writeMsg (hms m hm)) ending h with
    ⟨m, ms', es', hcons, hread, hbytes, hrest⟩ | ⟨hread, hdone⟩
  · rw [harr] at hbytes
    exact Or.inl ⟨m, ms', arrived es', es', hcons, hbytes, hrest, hread, rfl⟩
  · right
    exact ⟨by rw [readServerMsg, hread, harr], hdone⟩

/-- A blocking read at the front of some frames, the last of which may be cut off: it returns the
first message once its frame is there, and waits until then. -/
theorem read_frames {ms : List ServerMsg} (hms : ∀ m ∈ ms, m.Sendable) {bs more : List UInt8}
    (h : bs ++ more = ms.flatMap writeMsg) :
    (readServerMsg .blocking .alive [.data bs]).1 = .pending ∨
      ∃ m ms' bs' es', ms = m :: ms' ∧ bs = writeMsg m ++ bs' ∧ bs' ++ more = ms'.flatMap writeMsg ∧
        readServerMsg .blocking .alive [.data bs] = (.ok (some m), es') ∧ arrived es' = bs' := by
  rcases read_next hms h .alive with hmsg | ⟨hread, _⟩
  · exact Or.inr hmsg
  · left
    rw [hread]
    rfl

/-! ## What a step does to a connection -/

/-- The socket, the writer thread and the queue of the client `c` behind a step. -/
inductive ConnMove (fd : RawFd) (c : ClientId) (w : ServerWorld) (a : ServerAct)
    (conn : Connection) : Prop where
  | keep (hsock : conn.sock = (w.conns c).sock) (hwriter : conn.writer = (w.conns c).writer)
      (hqueue : ∀ m ∈ conn.queue.items, m ∈ (w.conns c).queue.items ∨ sent? c w a = some m)
  | handshake (hpc : (w.conns c).handler = .registered)
      (hsock : conn.sock = (w.conns c).sock ++ [Cm108Driver.handshake fd])
      (hwriter : conn.writer = (w.conns c).writer) (hqueue : conn.queue = (w.conns c).queue)
  | spawn (hpc : (w.conns c).handler = .handshaken) (hsock : conn.sock = (w.conns c).sock)
      (hwriter : conn.writer = .idle) (hqueue : conn.queue = (w.conns c).queue)
      (hact : a = .handler c (.spawnWriter true))
  | writer {b : ClientWriterAct} (hact : a = .writer c b) (hmove : WriterMove (w.conns c) b conn)

section Step

variable {fd : RawFd} {c : ClientId} {w t : ServerWorld} {a : ServerAct}

/-- A step that leaves the connection as it is, up to its handler. -/
theorem ConnMove.same {conn : Connection} (hsock : conn.sock = (w.conns c).sock)
    (hwriter : conn.writer = (w.conns c).writer) (hqueue : conn.queue = (w.conns c).queue) :
    ConnMove fd c w a conn :=
  .keep hsock hwriter fun _ hm => Or.inl (hqueue ▸ hm)

/-- A `try_send` to the client. -/
theorem ConnMove.trySend {m : ServerMsg} {conn : Connection} (hsent : sent? c w a = some m)
    (hsock : conn.sock = ((w.conns c).trySend m).sock)
    (hwriter : conn.writer = ((w.conns c).trySend m).writer)
    (hqueue : conn.queue = ((w.conns c).trySend m).queue) : ConnMove fd c w a conn := by
  by_cases hrecv : (w.conns c).receiving = true
  · rw [Connection.trySend, if_pos hrecv] at hsock hwriter hqueue
    refine .keep hsock hwriter ?_
    intro m' hm'
    rw [hqueue, Fifo.items_offer] at hm'
    -- a full queue drops the message
    split at hm'
    · rcases List.mem_append.mp hm' with hold | hnew
      · exact Or.inl hold
      · rw [List.mem_singleton.mp hnew]
        exact Or.inr hsent
    · exact Or.inl hm'
  · -- without a receiver the message is lost
    rw [Connection.trySend, if_neg hrecv] at hsock hwriter hqueue
    exact .same hsock hwriter hqueue

theorem connMove_of_handler {b : HandlerAct} (hinv : ServerInv w) (hmove : HandlerMove fd w c b t) :
    ConnMove fd c w (.handler c b) (t.conns c) := by
  cases hmove with
  | register hpc hlock => exact .same (by simp) (by simp) (by simp)
  | sendFd hpc => exact .handshake hpc (by simp) (by simp) (by simp)
  | spawn hpc => exact .spawn hpc (by simp) (by simp) (by simp) rfl
  | leave hpc hact => exact .same (by simp) (by simp) (by simp)
  | serve next hpc hquiet hact hnext => exact .same (by simp) (by simp) (by simp)
  | subscribe hpc hlock => exact .same (by simp) (by simp) (by simp)
  | reply hpc hlock =>
      rename_i m
      have hmem : c ∈ w.clients := (hinv.registered c).2 (by rw [hpc]; rfl)
      have hsent : sent? c w (.handler c .proceed) = some m := by
        simp [sent?, Connection.reply?, hpc]
      rw [ServerWorld.sendTo_of_mem hmem]
      exact .trySend hsent (by simp) (by simp) (by simp)
  | unregister hpc hlock =>
      simp only [ServerWorld.setConn_conns, Function.update_self]
      -- the queue goes with the receiver if there is no writer thread
      unfold Connection.finish
      split
      · refine .keep rfl rfl ?_
        intro m hm
        cases hm
      · exact .same rfl rfl rfl

theorem connMove_of_step (hinv : ServerInv w) (hstep : w.step fd a = some t) :
    ConnMove fd c w a (t.conns c) := by
  cases serverMove_of_step hstep with
  | connect =>
      by_cases hc : c = w.nextId
      · subst hc
        exact .same (by simp) (by simp) (by simp)
      · exact .same (by simp [hc]) (by simp [hc]) (by simp [hc])
  | broadcast call hlock => exact .same rfl rfl rfl
  | visit hb hid =>
      rename_i id b
      simp only [ServerWorld.offer_eq]
      split
      -- the message is offered to the client visited, if it asks for it
      · rename_i hwanted
        by_cases hc : id = c
        · subst hc
          have hsent : sent? id w (.visit id) = some b.call.message := by
            simp [sent?, hb, hwanted]
          exact .trySend hsent (by simp) (by simp) (by simp)
        · have hne : c ≠ id := fun h => hc h.symm
          exact .same (by simp [hne]) (by simp [hne]) (by simp [hne])
      · exact .same rfl rfl rfl
  | endBroadcast hb => exact .same rfl rfl rfl
  | handler hmove =>
      rename_i id b
      by_cases hc : c = id
      · subst hc
        exact connMove_of_handler hinv hmove
      · rw [hmove.conns_ne hinv hc]
        exact .same rfl rfl rfl
  | writer hmove =>
      rename_i id b conn
      by_cases hc : c = id
      · subst hc
        exact .writer rfl (by simpa using hmove)
      · exact .same (by simp [hc]) (by simp [hc]) (by simp [hc])
  | counters rxXruns txXruns lastLatency => exact .same rfl rfl rfl

/-! ## The frames before a client -/

/-- Once there is a writer thread, the client has whole frames before it, up to what a failed write
has cut off. -/
structure WireInv (conn : Connection) (taken : Nat) : Prop where
  early : conn.writer = .notStarted → taken = 1
  frames : conn.writer ≠ .notStarted → taken ≤ conn.sock.length ∧
    ∃ (ms : List ServerMsg) (cut : List UInt8), (∀ m ∈ ms, m.Sendable) ∧
      conn.wire taken ++ cut = ms.flatMap writeMsg ∧ (conn.writer ≠ .failed → cut = [])

theorem unread_append {conn : Connection} {taken : Nat} (h : taken ≤ conn.sock.length)
    (more : List SockByte) :
    ((conn.sock ++ more).map SockByte.byte).drop taken =
      conn.unread taken ++ more.map SockByte.byte := by
  rw [List.map_append, List.drop_append_of_le_length (by simpa using h)]
  rfl

/-- What is unread behind some bytes. -/
theorem unread_behind {conn : Connection} {taken : Nat} {front bs : List UInt8}
    (h : conn.unread taken = front ++ bs) : conn.unread (taken + front.length) = bs := by
  rw [Connection.unread, ← List.drop_drop]
  exact (congrArg (List.drop front.length) h).trans (List.drop_left' rfl)

@[simp] theorem map_byte_plain (bs : List UInt8) : (plain bs).map SockByte.byte = bs := by
  simp [plain, Function.comp_def]

theorem unread_one_of_handshake {conn : Connection} (h : conn.sock.length ≤ 1) :
    conn.unread 1 = [] :=
  List.drop_of_length_le (by simpa using h)

/-- Before the writer thread is there, the handshake is all there is. -/
theorem StreamInv.sock_length_le {acc dequeued : List ServerMsg} {fdSent : Prop} {conn : Connection}
    (h : StreamInv fd acc dequeued fdSent conn) (hwriter : conn.writer = .notStarted) :
    conn.sock.length ≤ 1 := by
  by_cases hfd : fdSent
  · rw [(h.early hwriter).2 hfd, List.length_singleton]
  · rw [(h.silent hfd).2]
    exact Nat.zero_le 1

namespace WireInv

variable {conn conn' : Connection} {taken : Nat}

theorem unborn : WireInv Connection.unborn 1 where
  early := fun _ => rfl
  frames := fun hstarted => absurd rfl hstarted

theorem congr (h : WireInv conn taken) (hsock : conn'.sock = conn.sock)
    (hwriter : conn'.writer = conn.writer) : WireInv conn' taken where
  early := by
    rw [hwriter]
    exact h.early
  frames := by
    simp only [Connection.wire, Connection.unread, hsock, hwriter]
    exact h.frames

/-- The messages before a client whose writer thread works. -/
theorem messages (h : WireInv conn taken) (hstarted : conn.writer ≠ .notStarted)
    (hworks : conn.writer ≠ .failed) :
    taken ≤ conn.sock.length ∧ ∃ ms : List ServerMsg, (∀ m ∈ ms, m.Sendable) ∧
      conn.wire taken = ms.flatMap writeMsg := by
  rcases h.frames hstarted with ⟨htaken, ms, cut, hms, hwire, hcut⟩
  rw [hcut hworks, List.append_nil] at hwire
  exact ⟨htaken, ms, hms, hwire⟩

/-- The client takes the first of the frames before it. -/
theorem behind (h : WireInv conn taken) {m : ServerMsg} {ms : List ServerMsg} {bs cut : List UInt8}
    (hstarted : conn.writer ≠ .notStarted) (hms : ∀ x ∈ ms, x.Sendable)
    (hwire : conn.wire taken ++ cut = writeMsg m ++ ms.flatMap writeMsg)
    (hcut : conn.writer ≠ .failed → cut = []) (hbytes : conn.unread taken = writeMsg m ++ bs) :
    WireInv conn (taken + (writeMsg m).length) := by
  have htaken := (h.frames hstarted).1
  have hlen := congrArg List.length hbytes
  rw [Connection.unread, List.length_drop, List.length_map, List.length_append] at hlen
  rw [Connection.wire, hbytes, List.append_assoc, List.append_assoc] at hwire
  refine
    { early := fun hnot => absurd hnot hstarted
      frames := fun _ => ⟨by omega, ms, cut, hms, ?_, hcut⟩ }
  rw [Connection.wire, unread_behind hbytes, List.append_assoc]
  exact List.append_cancel_left hwire

/-- What the writer thread does to the bytes. -/
theorem wire_writerMove (h : WireInv conn taken) {b : ClientWriterAct}
    (hmove : WriterMove conn b conn') :
    taken ≤ conn'.sock.length ∧
      ((∃ m, conn.queue.items.head? = some m ∧ conn'.wire taken = conn.wire taken ++ writeMsg m) ∨
        conn'.wire taken = conn.wire taken ∨
        (conn'.writer = .failed ∧ ∃ rest, conn.wire taken = conn'.wire taken ++ rest)) := by
  cases hmove with
  | dequeue hpc hpop =>
      rename_i m queue
      have htaken := (h.messages (by simp [hpc]) (by simp [hpc])).1
      refine ⟨htaken, Or.inl ⟨m, by simp [Fifo.items_pop hpop], ?_⟩⟩
      simp [Connection.wire, Connection.unread, hpc, ClientWriterPc.rest]
  | writeSome hpc hlt =>
      rename_i n rest
      have htaken := (h.messages (by simp [hpc]) (by simp [hpc])).1
      refine ⟨Nat.le_trans htaken (by simp), Or.inr (Or.inl ?_)⟩
      calc ((conn.sock ++ plain (rest.take n)).map SockByte.byte).drop taken ++ rest.drop n
          = conn.unread taken ++ (rest.take n ++ rest.drop n) := by
            rw [unread_append htaken, map_byte_plain, List.append_assoc]
        _ = conn.wire taken := by
            rw [List.take_append_drop, Connection.wire, hpc]
            rfl
  | writeAll hpc hle =>
      rename_i n rest
      have htaken := (h.messages (by simp [hpc]) (by simp [hpc])).1
      refine ⟨Nat.le_trans htaken (by simp), Or.inr (Or.inl ?_)⟩
      calc ((conn.sock ++ plain rest).map SockByte.byte).drop taken ++ []
          = conn.unread taken ++ rest := by
            rw [unread_append htaken, map_byte_plain, List.append_nil]
        _ = conn.wire taken := by
            rw [Connection.wire, hpc]
            rfl
  | fail hpc =>
      rename_i rest
      have htaken := (h.messages (by simp [hpc]) (by simp [hpc])).1
      -- the rest of the message taken last is never written
      refine ⟨htaken, Or.inr (Or.inr ⟨rfl, rest, ?_⟩)⟩
      simp [Connection.wire, Connection.unread, Connection.dropReceiver, hpc, ClientWriterPc.rest]

theorem writerMove (h : WireInv conn taken) (hqueue : ∀ m ∈ conn.queue.items, m.Sendable)
    {b : ClientWriterAct} (hmove : WriterMove conn b conn') : WireInv conn' taken := by
  rcases h.wire_writerMove hmove with ⟨htaken, hcases⟩
  have hworks : conn.writer ≠ .notStarted ∧ conn.writer ≠ .failed := by
    cases hmove <;> simp [*]
  have hstarted : conn'.writer ≠ .notStarted := by
    cases hmove <;> simp
  rcases (h.messages hworks.1 hworks.2).2 with ⟨ms, hms, hwire⟩
  refine { early := fun hnot => absurd hnot hstarted, frames := fun _ => ⟨htaken, ?_⟩ }
  rcases hcases with ⟨m, hhead, hmore⟩ | hsame | ⟨hfailed, rest, hless⟩
  · -- one more frame
    refine ⟨ms ++ [m], [], ?_, by simp [hmore, hwire], fun _ => rfl⟩
    intro m' hm'
    rcases List.mem_append.mp hm' with hold | hnew
    · exact hms m' hold
    · rw [List.mem_singleton.mp hnew]
      exact hqueue m (List.mem_of_mem_head? hhead)
  · exact ⟨ms, [], hms, by rw [hsame, List.append_nil, hwire], fun _ => rfl⟩
  · -- the write failed, and the end of the last frame is missing
    exact ⟨ms, rest, hms, by rw [← hless, hwire], fun hnot => absurd hfailed hnot⟩

/-- The writer thread starts behind the handshake. -/
theorem spawn {acc dequeued : List ServerMsg} {fdSent : Prop} (h : WireInv conn taken)
    (hstream : StreamInv fd acc dequeued fdSent conn) (hpc : conn.handler = .handshaken)
    (hsock : conn'.sock = conn.sock) (hwriter : conn'.writer = .idle) : WireInv conn' taken := by
  rcases hstream.handshaken hpc with ⟨hfd, hnot⟩
  have hone : conn'.sock = [handshake fd] := hsock.trans ((hstream.early hnot).2 hfd)
  have htaken := h.early hnot
  refine
    { early := fun hnot' => absurd (hwriter.symm.trans hnot') (by simp)
      frames := fun _ => ⟨by rw [htaken, hone, List.length_singleton], [], [], by simp, ?_,
        fun _ => rfl⟩ }
  simp [Connection.wire, Connection.unread, htaken, hone, hwriter, ClientWriterPc.rest]

theorem step {tr : ServerTrace} (h : WireInv (w.conns c) taken) (hinv : ServerInv w)
    (hstream : StreamAt fd c tr (w.conns c)) (hqueue : ∀ m ∈ (w.conns c).queue.items, m.Sendable)
    (hstep : w.step fd a = some t) : WireInv (t.conns c) taken := by
  cases connMove_of_step (c := c) hinv hstep with
  | keep hsock hwriter hqueue => exact h.congr hsock hwriter
  | handshake hpc hsock hwriter hqueue =>
      -- the one byte of the handshake, which the client has taken
      have hnot : (w.conns c).writer = .notStarted := by
        have hsetup := StreamInv.setup hstream (by rw [hpc]; rfl)
        exact (StreamInv.silent hstream hsetup).1
      refine { early := fun _ => h.early hnot, frames := fun hstarted => ?_ }
      exact absurd (hwriter.trans hnot) hstarted
  | spawn hpc hsock hwriter hqueue => exact h.spawn hstream hpc hsock hwriter
  | writer hact hmove => exact h.writerMove hqueue hmove

end WireInv

/-! ## Messages that get on their way -/

/-- The messages on the wire behind a step were there before, or at the head of the queue. -/
theorem messagesIn_writerMove {conn conn' : Connection} {taken : Nat} (h : WireInv conn taken)
    (hqueue : ∀ m ∈ conn.queue.items, m.Sendable) {b : ClientWriterAct}
    (hmove : WriterMove conn b conn') {m : ServerMsg} (hm : m ∈ messagesIn (conn'.wire taken)) :
    m ∈ messagesIn (conn.wire taken) ∨ m ∈ conn.queue.items := by
  have hworks : conn.writer ≠ .notStarted ∧ conn.writer ≠ .failed := by
    cases hmove <;> simp [*]
  rcases (h.messages hworks.1 hworks.2).2 with ⟨ms, hms, hwire⟩
  rcases (h.wire_writerMove hmove).2 with ⟨m', hhead, hmore⟩ | hsame | ⟨_, rest, hless⟩
  · have hmem := List.mem_of_mem_head? hhead
    have hall : ∀ x ∈ ms ++ [m'], x.Sendable := by
      intro x hx
      rcases List.mem_append.mp hx with hold | hnew
      · exact hms x hold
      · exact List.mem_singleton.mp hnew ▸ hqueue m' hmem
    have hbytes : conn'.wire taken = (ms ++ [m']).flatMap writeMsg := by
      simp [hmore, hwire]
    rw [hbytes, messagesIn_flatMap hall] at hm
    rw [hwire, messagesIn_flatMap hms]
    rcases List.mem_append.mp hm with hold | hnew
    · exact Or.inl hold
    · exact Or.inr (List.mem_singleton.mp hnew ▸ hmem)
  · exact Or.inl (hsame ▸ hm)
  · -- bytes that are lost bring no new message
    rw [hless]
    exact Or.inl ((messagesIn_append_left _ rest).subset hm)

theorem queue_writerMove {conn conn' : Connection} {b : ClientWriterAct}
    (hmove : WriterMove conn b conn') {m : ServerMsg} (hm : m ∈ conn'.queue.items) :
    m ∈ conn.queue.items := by
  cases hmove with
  | dequeue hpc hpop =>
      rw [Fifo.items_pop hpop]
      exact List.mem_cons_of_mem _ hm
  | writeSome hpc hlt => exact hm
  | writeAll hpc hle => exact hm
  | fail hpc => cases hm

/-- A message on its way behind a step was on its way before, or the step addresses it to the
client. -/
theorem onWay_step {tr : ServerTrace} {taken : Nat} (h : WireInv (w.conns c) taken)
    (hinv : ServerInv w) (hstream : StreamAt fd c tr (w.conns c))
    (hqueue : ∀ m ∈ (w.conns c).queue.items, m.Sendable) (hstep : w.step fd a = some t)
    {m : ServerMsg} (hm : m ∈ onWay c taken t) :
    m ∈ onWay c taken w ∨ addressed? c w a = some m := by
  -- what is sent now was pending or is addressed now, and so was what is pending behind the step
  have hpending := pending_step (c := c) hinv hstep
  have hturn : ∀ x, x ∈ (sent? c w a).toList ++ pending c t →
      x ∈ onWay c taken w ∨ addressed? c w a = some x := by
    intro x hx
    rw [← hpending] at hx
    rcases List.mem_append.mp hx with hold | hnew
    · exact Or.inl (List.mem_append_right _ hold)
    · exact Or.inr (Option.mem_toList.mp hnew)
  have hwire : ∀ {x}, x ∈ messagesIn ((w.conns c).wire taken) → x ∈ onWay c taken w :=
    fun hx => List.mem_append_left _ (List.mem_append_left _ hx)
  have hqueued : ∀ {x}, x ∈ (w.conns c).queue.items → x ∈ onWay c taken w :=
    fun hx => List.mem_append_left _ (List.mem_append_right _ hx)
  -- behind the handshake there is nothing before the writer thread works
  have hsilent : ∀ {conn : Connection}, conn.sock.length ≤ 1 → conn.writer.rest = [] → taken = 1 →
      messagesIn (conn.wire taken) = [] := by
    intro conn hsock hrest htaken
    rw [Connection.wire, htaken, unread_one_of_handshake hsock, hrest]
    exact messagesIn_nil
  rcases List.mem_append.mp hm with hm | hm
  · cases connMove_of_step (c := c) hinv hstep with
    | keep hsock hwriter hitems =>
        rcases List.mem_append.mp hm with hm | hm
        · have hsame : (t.conns c).wire taken = (w.conns c).wire taken := by
            simp only [Connection.wire, Connection.unread, hsock, hwriter]
          exact Or.inl (hwire (hsame ▸ hm))
        · rcases hitems m hm with hold | hsent
          · exact Or.inl (hqueued hold)
          · exact hturn m (List.mem_append_left _ (Option.mem_toList.mpr hsent))
    | handshake hpc hsock hwriter hitems =>
        have hsetup := StreamInv.silent hstream (StreamInv.setup hstream (by rw [hpc]; rfl))
        have hnone : messagesIn ((t.conns c).wire taken) = [] := by
          refine hsilent ?_ ?_ (h.early hsetup.1)
          · rw [hsock, hsetup.2]
            exact Nat.le_refl 1
          · rw [hwriter, hsetup.1]
            rfl
        rw [hnone, List.nil_append] at hm
        exact Or.inl (hqueued (hitems ▸ hm))
    | spawn hpc hsock hwriter hitems =>
        have hnot := (StreamInv.handshaken hstream hpc).2
        have hnone : messagesIn ((t.conns c).wire taken) = [] := by
          refine hsilent ?_ ?_ (h.early hnot)
          · rw [hsock]
            exact StreamInv.sock_length_le hstream hnot
          · rw [hwriter]
            rfl
        rw [hnone, List.nil_append] at hm
        exact Or.inl (hqueued (hitems ▸ hm))
    | writer hact hmove =>
        rcases List.mem_append.mp hm with hm | hm
        · rcases messagesIn_writerMove h hqueue hmove hm with hold | hhead
          · exact Or.inl (hwire hold)
          · exact Or.inl (hqueued hhead)
        · exact Or.inl (hqueued (queue_writerMove hmove hm))
  · exact hturn m (List.mem_append_right _ hm)

end Step

end Cm108Driver
