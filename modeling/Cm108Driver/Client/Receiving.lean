import Cm108Driver.Client.Calls
import Cm108Driver.Server.InTransit
import Mathlib.Data.List.Infix

/-!
# Receiving — from a client's queue in the server to what its calls return

A client takes the descriptor of the shared memory off its socket with one byte (`recv_fd`), and
then reads messages, one `read_server_msg` at a time.  A run interleaves any number of clients with
all threads of the server, which may drop messages, fail to send the descriptor, end a connection in
the middle of a frame, or close it with bytes of the client unread.

What a client has read is at every point a beginning of what the server has accepted for it, in
order, and a client that finds the end of the stream behind a working writer thread has read it all.
-/

namespace Cm108Driver

open Lib

/-! ## The descriptor -/

/-- A control message, as `CMSG_FIRSTHDR` and `CMSG_NXTHDR` find it. -/
structure ControlMessage where
  cmsgLevel : Int32
  cmsgType : Int32
  data : List UInt8

def solSocket : Int32 := 1

def scmRights : Int32 := 1

/-- What `send_fd` passes along with its byte. -/
def sendFd (fdToSend : RawFd) : ControlMessage :=
  { cmsgLevel := solSocket
    cmsgType := scmRights
    data := toLe 4 fdToSend.toUInt32.toNat }

/-- The control messages that `recvmsg` finds with a byte. -/
def SockByte.control (b : SockByte) : List ControlMessage := (b.fd.map sendFd).toList

/-- The loop over the control messages. -/
def rightsFd : List ControlMessage → Option RawFd
  | [] => none
  | cmsg :: rest =>
      if cmsg.cmsgLevel = solSocket ∧ cmsg.cmsgType = scmRights then
        some (UInt32.ofNat (ofLe (cmsg.data.take 4))).toInt32
      else
        rightsFd rest

def recvFd : Except IoError (List ControlMessage) → Except ClientError RawFd
  | .error e => .error (.io e)
  | .ok cmsgs =>
      match rightsFd cmsgs with
      | some fd => .ok fd
      | none => .error (.protocol "server did not send shmem fd on connect")

/-- `RxShmem::map`, where only `mmap` can fail. -/
def mapRxShmem (mmap : Except IoError Unit) (fd : RawFd) : Except ClientError RawFd :=
  match mmap with
  | .ok () => .ok fd
  | .error e => .error (.io e)

/-- The descriptor that is sent is the one received. -/
@[simp] theorem rightsFd_sendFd (fd : RawFd) : rightsFd [sendFd fd] = some fd := by
  have hwidth : fd.toUInt32.toNat < 256 ^ 4 := fd.toUInt32.toNat_lt
  have htake : (toLe 4 fd.toUInt32.toNat).take 4 = toLe 4 fd.toUInt32.toNat :=
    List.take_of_length_le (Nat.le_of_eq (length_toLe _ _))
  simp [rightsFd, sendFd, htake, ofLe_toLe hwidth]

theorem recvFd_handshake (fd : RawFd) : recvFd (.ok (handshake fd).control) = .ok fd := by
  simp [recvFd, handshake, SockByte.control]

/-! ## The system -/

/-- The server's ends of the connection are closed, those of the writer thread included, which takes
what is queued before it ends. -/
def Connection.hungUp (conn : Connection) : Bool :=
  match conn.handler, conn.writer with
  | .gone, .notStarted => true
  | .gone, .failed => true
  | .gone, .idle => conn.queue.items.isEmpty
  | _, _ => false

inductive PeerState
  | connecting
  | connected (rxShmem : RawFd)
  | failed (e : ClientError)

/-- A client: how far `connect` is, the bytes it has taken off its socket, the messages it has read,
and what it meets behind the last byte once the server has hung up. -/
structure Peer where
  state : PeerState
  taken : Nat
  received : List ServerMsg
  ending : Ending

def Peer.start : Peer :=
  { state := .connecting
    taken := 0
    received := []
    ending := .eof }

structure LinkWorld where
  server : ServerWorld
  peers : ClientId → Peer

inductive LinkAct
  | server (a : ServerAct)
  /-- `recv_fd` and `RxShmem::map`, with the results of the two system calls: whether `recvmsg` found
  a place for the descriptor among those of the process (`MSG_CTRUNC` if not). -/
  | connect (c : ClientId) (recvmsg : Except IoError Bool) (mmap : Except IoError Unit)
  /-- The client sends bytes that the server will not have read when it closes the connection. -/
  | unread (c : ClientId)
  /-- One `read_server_msg`, on behalf of any blocking call. -/
  | read (c : ClientId)

namespace LinkWorld

def start : LinkWorld :=
  { server := ServerWorld.start
    peers := fun _ => Peer.start }

abbrev conn (w : LinkWorld) (c : ClientId) : Connection := w.server.conns c

def setPeer (w : LinkWorld) (c : ClientId) (peer : Peer) : LinkWorld :=
  { w with peers := Function.update w.peers c peer }

/-- What is on the socket before the client. -/
def bytes (w : LinkWorld) (c : ClientId) : List UInt8 := (w.conn c).unread (w.peers c).taken

/-- What is behind it. -/
def ending (w : LinkWorld) (c : ClientId) : Ending :=
  if (w.conn c).hungUp then (w.peers c).ending else .alive

/-- The result of the client's next `read_server_msg`. -/
def nextMsg (w : LinkWorld) (c : ClientId) :
    Outcome (Option ServerMsg) × List (Arrival UInt8) :=
  readServerMsg .blocking (w.ending c) [.data (w.bytes c)]

/-- `recvmsg` takes one byte with what is passed along with it, which `recv_fd` does not miss if it
is cut off; at the end of the stream it finds neither, and before it waits. -/
def recvmsg (conn : Connection) : Except IoError Bool → Option (Except IoError (List ControlMessage))
  | .error e => some (.error e)
  | .ok installed =>
      match conn.sock with
      | b :: _ => some (.ok (if installed then b.control else []))
      | [] => if conn.hungUp then some (.ok []) else none

def connect (w : LinkWorld) (c : ClientId) (recv : Except IoError Bool)
    (mmap : Except IoError Unit) : Option LinkWorld :=
  match (w.peers c).state with
  | .connecting =>
      (recvmsg (w.conn c) recv).map fun result =>
        match (recvFd result).bind (mapRxShmem mmap) with
        | .ok fd =>
            w.setPeer c
              { w.peers c with
                state := .connected fd
                taken := 1 }
        | .error e => w.setPeer c { w.peers c with state := .failed e }
  | _ => none

def read (w : LinkWorld) (c : ClientId) : Option LinkWorld :=
  match (w.peers c).state, w.nextMsg c with
  | .connected _, (.ok (some m), es) =>
      some (w.setPeer c
        { w.peers c with
          taken := (w.peers c).taken + ((w.bytes c).length - (arrived es).length)
          received := (w.peers c).received ++ [m] })
  -- it waits
  | .connected _, (.pending, _) => none
  -- the end of the stream
  | .connected _, (.ok none, es) =>
      some (w.setPeer c
        { w.peers c with
          taken := (w.peers c).taken + ((w.bytes c).length - (arrived es).length) })
  -- an error, which is no longer pending
  | .connected _, (.err e, es) =>
      some (w.setPeer c
        { w.peers c with
          taken := (w.peers c).taken + ((w.bytes c).length - (arrived es).length)
          ending := (w.peers c).ending.after (some e) })
  | _, _ => none

/-- Bytes that the server will leave unread. -/
def leave (w : LinkWorld) (c : ClientId) : Option LinkWorld :=
  if (w.conn c).hungUp then none else some (w.setPeer c { w.peers c with ending := .reset })

def step (fd : RawFd) (w : LinkWorld) : LinkAct → Option LinkWorld
  | .server a => (w.server.step fd a).map fun server => { w with server := server }
  | .connect c recv mmap => w.connect c recv mmap
  | .unread c => w.leave c
  | .read c => w.read c

end LinkWorld

def linkSystem (rxShmemFd : RawFd) : System LinkWorld LinkAct where
  init := LinkWorld.start
  step := LinkWorld.step rxShmemFd

abbrev LinkTrace := List (LinkWorld × LinkAct)

/-- Without the steps of the clients, a run is one of the server. -/
def linkSimulation (fd : RawFd) : Simulation (linkSystem fd) (serverSystem fd) where
  proj := LinkWorld.server
  label := fun _ a =>
    match a with
    | .server a => some a
    | _ => none
  init := rfl
  hidden := by
    intro w a t hstep hlabel
    cases a with
    | server a => cases hlabel
    | connect c recv mmap =>
        simp only [linkSystem, LinkWorld.step, LinkWorld.connect] at hstep
        split at hstep
        · rcases Option.map_eq_some_iff.1 hstep with ⟨result, _, rfl⟩
          split
          · rfl
          · rfl
        · cases hstep
    | unread c =>
        simp only [linkSystem, LinkWorld.step, LinkWorld.leave] at hstep
        split at hstep
        · cases hstep
        · cases hstep
          rfl
    | read c =>
        simp only [linkSystem, LinkWorld.step, LinkWorld.read] at hstep
        split at hstep
        · cases hstep
          rfl
        · cases hstep
        · cases hstep
          rfl
        · cases hstep
          rfl
        · cases hstep
  shown := by
    intro w a t b hstep hlabel
    cases a with
    | server a =>
        cases hlabel
        rcases Option.map_eq_some_iff.1 hstep with ⟨server, hserver, rfl⟩
        exact hserver
    | connect c recv mmap => cases hlabel
    | unread c => cases hlabel
    | read c => cases hlabel

/-- The run of the server in a run. -/
abbrev linkServer (fd : RawFd) (tr : LinkTrace) : ServerTrace := (linkSimulation fd).trace tr

/-! ## The bytes of a socket -/

section Socket

variable {fd : RawFd} {c : ClientId} {w t : ServerWorld} {a : ServerAct} {tr : ServerTrace}

theorem sendable_addressedTo (h : Trace (serverSystem fd) tr w) (c : ClientId) :
    ∀ m ∈ addressedTo c tr, m.Sendable := by
  induction h with
  | start => simp [addressedTo]
  | snoc htr hstep ih =>
      rename_i tr w t a
      intro m hm
      rw [addressedTo_snoc] at hm
      rcases List.mem_append.mp hm with hold | hnew
      · exact ih m hold
      · rcases addressed_cases (serverInv_of_trace htr) (Option.mem_toList.mp hnew) with
          ⟨call, _, rfl⟩ | hreply
        · exact sendable_message call
        · exact sendable_of_isReply hreply

/-- What is accepted was sent, and what is sent was addressed to the client. -/
theorem sendable_accepted (h : Trace (serverSystem fd) tr w) (c : ClientId) :
    ∀ m ∈ accepted c tr, m.Sendable := by
  intro m hm
  refine sendable_addressedTo h c m ?_
  rw [nothingMissed_of_trace h c]
  rcases List.mem_map.mp hm with ⟨s, hs, rfl⟩
  exact List.mem_append_left _ (List.mem_map_of_mem (List.mem_of_mem_filter hs))

/-- A socket that carries the handshake and frames of what was accepted, the last of them perhaps in
part. -/
def Written (fd : RawFd) (acc : List ServerMsg) (conn : Connection) : Prop :=
  conn.sock <+: handshake fd :: plain (acc.flatMap writeMsg)

theorem frames_grow (fd : RawFd) {ms ms' : List ServerMsg} (h : ms <+: ms') :
    handshake fd :: plain (ms.flatMap writeMsg) <+: handshake fd :: plain (ms'.flatMap writeMsg) :=
  List.cons_prefix_cons.mpr ⟨rfl, (List.IsPrefix.flatMap h writeMsg).map _⟩

theorem Written.more {acc acc' : List ServerMsg} {conn conn' : Connection}
    (h : Written fd acc conn) (hacc : acc <+: acc') (hsock : conn'.sock = conn.sock) :
    Written fd acc' conn' := by
  unfold Written
  rw [hsock]
  exact h.trans (frames_grow fd hacc)

theorem written_of_trace (h : Trace (serverSystem fd) tr w) (c : ClientId) :
    Written fd (accepted c tr) (w.conns c) := by
  induction h with
  | start => exact List.nil_prefix
  | snoc htr hstep ih =>
      rename_i tr w t a
      have hstream := streamAt_of_trace (htr.snoc hstep) c
      have hmore := accepted_grows c tr w a
      cases connMove_of_step (c := c) (serverInv_of_trace htr) hstep with
      | keep hsock hwriter hqueue => exact ih.more hmore hsock
      | handshake hpc hsock hwriter hqueue =>
          have hsilent := StreamInv.silent (streamAt_of_trace htr c)
            (StreamInv.setup (streamAt_of_trace htr c) (by rw [hpc]; rfl))
          unfold Written
          rw [hsock, hsilent.2]
          exact List.cons_prefix_cons.mpr ⟨rfl, List.nil_prefix⟩
      | spawn hpc hsock hwriter hqueue => exact ih.more hmore hsock
      | writer hact hmove =>
          -- a writer thread that works on has written frames of what it has dequeued
          have hworks : ∀ rest, (t.conns c).writer.unsent = some rest →
              Written fd (accepted c (tr ++ [(w, a)])) (t.conns c) := by
            intro rest hrest
            rcases hstream.running rest hrest with ⟨_, hsock, hqueue⟩
            have hdequeued := frames_grow fd ⟨(t.conns c).queue.items, hqueue⟩
            exact List.IsPrefix.trans ⟨plain rest, hsock⟩ hdequeued
          generalize t.conns c = conn at hmove hworks
          cases hmove with
          | dequeue hpc hpop => exact hworks _ rfl
          | writeSome hpc hlt => exact hworks _ rfl
          | writeAll hpc hle => exact hworks _ rfl
          | fail hpc => exact ih.more hmore rfl

/-- Nothing is taken back from a socket. -/
theorem sock_grows (hinv : ServerInv w) (hstep : w.step fd a = some t) (c : ClientId) :
    (w.conns c).sock <+: (t.conns c).sock := by
  cases connMove_of_step (c := c) hinv hstep with
  | keep hsock hwriter hqueue => exact hsock ▸ List.prefix_rfl
  | handshake hpc hsock hwriter hqueue => exact hsock ▸ List.prefix_append _ _
  | spawn hpc hsock hwriter hqueue => exact hsock ▸ List.prefix_rfl
  | writer hact hmove =>
      generalize t.conns c = conn at hmove
      cases hmove with
      | dequeue hpc hpop => exact List.prefix_rfl
      | writeSome hpc hlt => exact List.prefix_append _ _
      | writeAll hpc hle => exact List.prefix_append _ _
      | fail hpc => exact List.prefix_rfl

/-- A write that has failed was the last one. -/
theorem failed_stays (hinv : ServerInv w) (hstream : StreamAt fd c tr (w.conns c))
    (hstep : w.step fd a = some t) (hfailed : (w.conns c).writer = .failed) :
    (t.conns c).writer = .failed ∧ (t.conns c).sock = (w.conns c).sock := by
  cases connMove_of_step (c := c) hinv hstep with
  | keep hsock hwriter hqueue => exact ⟨hwriter.trans hfailed, hsock⟩
  | handshake hpc hsock hwriter hqueue =>
      have hnot := (StreamInv.silent hstream (StreamInv.setup hstream (by rw [hpc]; rfl))).1
      exact absurd (hfailed.symm.trans hnot) (by simp)
  | spawn hpc hsock hwriter hqueue =>
      have hnot := (StreamInv.handshaken hstream hpc).2
      exact absurd (hfailed.symm.trans hnot) (by simp)
  | writer hact hmove =>
      generalize t.conns c = conn at hmove
      cases hmove with
      | dequeue hpc hpop => exact absurd (hfailed.symm.trans hpc) (by simp)
      | writeSome hpc hlt => exact absurd (hfailed.symm.trans hpc) (by simp)
      | writeAll hpc hle => exact absurd (hfailed.symm.trans hpc) (by simp)
      | fail hpc => exact absurd (hfailed.symm.trans hpc) (by simp)

/-- A handler that is gone does not come back, and sends no descriptor. -/
theorem gone_stays (hinv : ServerInv w) (hstep : w.step fd a = some t)
    (hgone : (w.conns c).handler = .gone) :
    (t.conns c).handler = .gone ∧ a ≠ .handler c (.sendFd true) := by
  have hown : ∀ b, a ≠ .handler c b := by
    rintro b rfl
    simp [ServerWorld.step, ServerWorld.handlerStep, hgone] at hstep
  refine ⟨?_, hown _⟩
  rcases handler_of_step hinv hstep hown with hsame | ⟨_, rfl⟩
  · rw [hsame, hgone]
  · -- an id that is still to be allocated has no handler
    rw [hinv.fresh w.nextId (Nat.le_refl _)] at hgone
    cases hgone

end Socket

/-! ## What a client has read -/

/-- What a client has taken off its socket: the handshake and the frames of what it has read. -/
def TakenWhole (fd : RawFd) (conn : Connection) (peer : Peer) : Prop :=
  peer.taken = 1 + (peer.received.flatMap writeMsg).length ∧
    handshake fd :: plain (peer.received.flatMap writeMsg) <+: conn.sock

/-- It has taken all there is, and there will be no more: the end of a frame is missing. -/
def Torn (conn : Connection) (peer : Peer) : Prop :=
  conn.writer = .failed ∧ conn.unread peer.taken = []

structure PeerInv (fd : RawFd) (c : ClientId) (tr : ServerTrace) (conn : Connection) (peer : Peer) :
    Prop where
  fresh : peer.state = .connecting → peer.received = []
  rxShmem : ∀ fd', peer.state = .connected fd' → fd' = fd ∧ (TakenWhole fd conn peer ∨ Torn conn peer)
  inOrder : peer.received <+: accepted c tr
  ends : peer.ending ≠ .alive

section Peer

variable {fd : RawFd} {c : ClientId} {tr : ServerTrace} {conn : Connection} {peer : Peer}

/-- What a client has before it is behind what it has taken. -/
theorem TakenWhole.unread_eq (h : TakenWhole fd conn peer) :
    ∃ rest, conn.sock = handshake fd :: plain (peer.received.flatMap writeMsg) ++ rest ∧
      conn.unread peer.taken = rest.map SockByte.byte := by
  rcases h with ⟨htaken, rest, hsock⟩
  refine ⟨rest, hsock.symm, ?_⟩
  have hbytes : conn.sock.map SockByte.byte =
      (0 :: peer.received.flatMap writeMsg) ++ rest.map SockByte.byte := by
    rw [← hsock, List.map_append, List.map_cons, map_byte_plain]
    rfl
  rw [Connection.unread, hbytes, List.drop_left']
  rw [List.length_cons, htaken, Nat.add_comm]

/-- These are the frames of what it has yet to read, the last of them perhaps in part. -/
theorem TakenWhole.frames (h : TakenWhole fd conn peer) {ms : List ServerMsg}
    (hwritten : Written fd (peer.received ++ ms) conn) :
    ∃ more, conn.unread peer.taken ++ more = ms.flatMap writeMsg := by
  rcases h.unread_eq with ⟨rest, hsock, hunread⟩
  rcases hwritten with ⟨more, hmore⟩
  refine ⟨more.map SockByte.byte, ?_⟩
  have hrest : rest ++ more = plain (ms.flatMap writeMsg) := by
    rw [hsock, List.append_assoc, List.flatMap_append, plain, plain, List.map_append] at hmore
    exact List.append_cancel_left hmore
  calc conn.unread peer.taken ++ more.map SockByte.byte
      = (rest ++ more).map SockByte.byte := by rw [hunread, List.map_append]
    _ = ms.flatMap writeMsg := by rw [hrest, map_byte_plain]

/-- And nothing is missing when all that was accepted is written. -/
theorem TakenWhole.all_frames (h : TakenWhole fd conn peer) {ms : List ServerMsg}
    (hsock : conn.sock = handshake fd :: plain ((peer.received ++ ms).flatMap writeMsg)) :
    conn.unread peer.taken = ms.flatMap writeMsg := by
  rcases h.unread_eq with ⟨rest, hrest, hunread⟩
  rw [hrest, List.flatMap_append, plain, plain, List.map_append] at hsock
  have hplain : rest = plain (ms.flatMap writeMsg) := List.append_cancel_left hsock
  rw [hunread, hplain, map_byte_plain]

/-- The client takes the next frame. -/
theorem TakenWhole.read (h : TakenWhole fd conn peer) {m : ServerMsg} {ms : List ServerMsg}
    {bs : List UInt8} {taken : Nat} (hwritten : Written fd (peer.received ++ m :: ms) conn)
    (hbytes : conn.unread peer.taken = writeMsg m ++ bs)
    (htaken : taken = peer.taken + (writeMsg m).length) :
    TakenWhole fd conn
      { peer with
        taken := taken
        received := peer.received ++ [m] } := by
  rcases h.unread_eq with ⟨rest, hsock, hunread⟩
  have hlen : (writeMsg m).length ≤ rest.length := by
    have hmap := congrArg List.length (hunread.symm.trans hbytes)
    rw [List.length_map, List.length_append] at hmap
    omega
  refine ⟨by simp [htaken, h.1, Nat.add_assoc], ?_⟩
  -- both are beginnings of what may be written to this socket
  refine List.prefix_of_prefix_length_le (frames_grow fd ?_) hwritten ?_
  · exact ⟨ms, by simp⟩
  · rw [hsock]
    simp [plain]
    omega

theorem hungUp_cases (h : conn.hungUp = true) :
    conn.handler = .gone ∧ (conn.writer = .notStarted ∨ conn.writer = .failed ∨
      (conn.writer = .idle ∧ conn.queue.items = [])) := by
  unfold Connection.hungUp at h
  split at h
  · rename_i hhandler hwriter
    exact ⟨hhandler, Or.inl hwriter⟩
  · rename_i hhandler hwriter
    exact ⟨hhandler, Or.inr (Or.inl hwriter)⟩
  · rename_i hhandler hwriter
    exact ⟨hhandler, Or.inr (Or.inr ⟨hwriter, List.isEmpty_iff.mp h⟩)⟩
  · cases h

/-- A client that finds no message behind a writer thread that has ended in order has read all. -/
theorem TakenWhole.at_end {acc dequeued : List ServerMsg} {fdSent : Prop} (h : TakenWhole fd conn peer)
    (hstream : StreamInv fd acc dequeued fdSent conn) (hsendable : ∀ m ∈ acc, m.Sendable)
    (hacc : peer.received <+: acc) (hhung : conn.hungUp = true) (hworks : conn.writer ≠ .failed)
    {ending : Ending}
    (hnone : ∀ m, (readServerMsg .blocking ending [.data (conn.unread peer.taken)]).1 ≠
      .ok (some m)) :
    conn.unread peer.taken = [] ∧ (conn.writer = .idle → peer.received = acc) := by
  rcases hungUp_cases hhung with ⟨_, hnot | hfailed | ⟨hidle, hempty⟩⟩
  · -- the handshake was all
    have hone := hstream.sock_length_le hnot
    refine ⟨List.drop_of_length_le ?_, fun hidle => absurd (hnot.symm.trans hidle) (by simp)⟩
    rw [List.length_map, h.1]
    omega
  · exact absurd hfailed hworks
  · rcases hacc with ⟨ms, rfl⟩
    rcases hstream.running [] (by rw [hidle]; rfl) with ⟨_, hsock, hqueue⟩
    rw [hempty, List.append_nil] at hqueue
    have hall : conn.unread peer.taken = ms.flatMap writeMsg :=
      h.all_frames (by simpa [plain, hqueue] using hsock)
    have hms : ∀ m ∈ ms, m.Sendable := fun m hm => hsendable m (List.mem_append_right _ hm)
    rcases read_next hms ((List.append_nil _).trans hall) ending with
      ⟨m, ms', bs', es', _, _, _, hread, _⟩ | ⟨_, hdone⟩
    · exact absurd (congrArg Prod.fst hread) (hnone m)
    · rw [hdone rfl] at hall ⊢
      exact ⟨hall, fun _ => (List.append_nil _).symm⟩

end Peer

/-! ## Moves -/

inductive LinkMove (fd : RawFd) (w : LinkWorld) : LinkAct → LinkWorld → Prop where
  | server {a : ServerAct} {server : ServerWorld} (hstep : w.server.step fd a = some server) :
      LinkMove fd w (.server a) { w with server := server }
  | connected {c : ClientId} {recv : Except IoError Bool} {mmap : Except IoError Unit} {b : SockByte}
      {rest : List SockByte} {fd' : RawFd} (hstate : (w.peers c).state = .connecting)
      (hsock : (w.conn c).sock = b :: rest) (hfd : recvFd (.ok b.control) = .ok fd') :
      LinkMove fd w (.connect c recv mmap)
        (w.setPeer c
          { w.peers c with
            state := .connected fd'
            taken := 1 })
  | failed {c : ClientId} {recv : Except IoError Bool} {mmap : Except IoError Unit} {e : ClientError}
      (hstate : (w.peers c).state = .connecting)
      (hwhy : (∃ io, e = .io io) ∨ recv = .ok false ∨
        ((w.conn c).sock = [] ∧ (w.conn c).hungUp = true) ∨
        ∃ b rest, (w.conn c).sock = b :: rest ∧ recvFd (.ok b.control) = .error e) :
      LinkMove fd w (.connect c recv mmap) (w.setPeer c { w.peers c with state := .failed e })
  | unread {c : ClientId} (hopen : (w.conn c).hungUp = false) :
      LinkMove fd w (.unread c) (w.setPeer c { w.peers c with ending := .reset })
  | message {c : ClientId} {fd' : RawFd} {m : ServerMsg} {es : List (Arrival UInt8)}
      (hstate : (w.peers c).state = .connected fd') (hread : w.nextMsg c = (.ok (some m), es)) :
      LinkMove fd w (.read c)
        (w.setPeer c
          { w.peers c with
            taken := (w.peers c).taken + ((w.bytes c).length - (arrived es).length)
            received := (w.peers c).received ++ [m] })
  | ended {c : ClientId} {fd' : RawFd} {ending : Ending}
      (hstate : (w.peers c).state = .connected fd')
      (hnone : ∀ m, (w.nextMsg c).1 ≠ .ok (some m)) (hends : (w.nextMsg c).1 ≠ .pending)
      (hending : ending = (w.peers c).ending ∨ ∃ e, ending = (w.peers c).ending.after (some e)) :
      LinkMove fd w (.read c)
        (w.setPeer c
          { w.peers c with
            taken := (w.peers c).taken +
              ((w.bytes c).length - (arrived (w.nextMsg c).2).length)
            ending := ending })

theorem linkMove_of_connect {fd : RawFd} {w t : LinkWorld} {c : ClientId}
    {recv : Except IoError Bool} {mmap : Except IoError Unit} (h : w.connect c recv mmap = some t) :
    LinkMove fd w (.connect c recv mmap) t := by
  unfold LinkWorld.connect at h
  split at h
  · rename_i hstate
    rcases Option.map_eq_some_iff.1 h with ⟨result, hresult, rfl⟩
    cases recv with
    | error e =>
        cases hresult
        exact .failed hstate (Or.inl ⟨e, rfl⟩)
    | ok installed =>
        simp only [LinkWorld.recvmsg] at hresult
        split at hresult
        · rename_i b rest hsock
          cases hresult
          cases installed with
          | false => exact .failed hstate (Or.inr (Or.inl rfl))
          | true =>
              rw [if_pos rfl]
              cases hfd : recvFd (.ok b.control) with
              | error e => exact .failed hstate (Or.inr (Or.inr (Or.inr ⟨b, rest, hsock, hfd⟩)))
              | ok fd' =>
                  cases mmap with
                  | ok _ => exact .connected hstate hsock hfd
                  | error e => exact .failed hstate (Or.inl ⟨e, rfl⟩)
        · rename_i hsock
          split at hresult
          · rename_i hhung
            cases hresult
            exact .failed hstate (Or.inr (Or.inr (Or.inl ⟨hsock, hhung⟩)))
          · cases hresult
  · cases h

theorem linkMove_of_step {fd : RawFd} {w t : LinkWorld} {a : LinkAct}
    (h : w.step fd a = some t) : LinkMove fd w a t := by
  cases a with
  | server a =>
      rcases Option.map_eq_some_iff.1 h with ⟨server, hstep, rfl⟩
      exact .server hstep
  | connect c recv mmap => exact linkMove_of_connect h
  | unread c =>
      simp only [LinkWorld.step, LinkWorld.leave] at h
      split at h
      · cases h
      · rename_i hopen
        cases h
        exact .unread (by simpa using hopen)
  | read c =>
      simp only [LinkWorld.step, LinkWorld.read] at h
      split at h
      · rename_i hstate hread
        cases h
        exact .message hstate hread
      · cases h
      · rename_i es hstate hread
        cases h
        have hes : (w.nextMsg c).2 = es := congrArg Prod.snd hread
        rw [← hes]
        exact .ended hstate (by simp [hread]) (by simp [hread]) (Or.inl rfl)
      · rename_i e es hstate hread
        cases h
        have hes : (w.nextMsg c).2 = es := congrArg Prod.snd hread
        rw [← hes]
        exact .ended hstate (by simp [hread]) (by simp [hread]) (Or.inr ⟨e, rfl⟩)
      · cases h

/-! ## One step -/

/-- Once the descriptor is sent, there is something on the socket. -/
theorem sock_ne_nil {fd : RawFd} {c : ClientId} {tr : ServerTrace} {w : ServerWorld}
    (h : Trace (serverSystem fd) tr w) (hsent : FdSent c tr) : (w.conns c).sock ≠ [] := by
  induction h with
  | start => simp [FdSent] at hsent
  | snoc htr hstep ih =>
      rename_i tr w t a
      have hinv := serverInv_of_trace htr
      rcases (fdSent_snoc c tr w a).mp hsent with hold | rfl
      · intro hnil
        have hgrows := sock_grows hinv hstep c
        rw [hnil] at hgrows
        exact ih hold (List.prefix_nil.mp hgrows)
      · have hserver : w.step fd (.handler c (.sendFd true)) = some t := hstep
        cases serverMove_of_step hserver with
        | handler hmove =>
            cases hmove with
            | sendFd hpc => simp
            | leave hpc hact => simp at hact
            | serve next hpc hquiet hact hnext => simp at hact

namespace PeerInv

section Step

variable {fd : RawFd} {c : ClientId} {tr : ServerTrace} {w t : LinkWorld}

theorem start (fd : RawFd) (c : ClientId) : PeerInv fd c [] Connection.unborn Peer.start where
  fresh := fun _ => rfl
  rxShmem := by
    intro fd' hstate
    cases hstate
  inOrder := List.nil_prefix
  ends := by simp [Peer.start]

/-- A step of the server. -/
theorem server {a : ServerAct} {w t : ServerWorld} {peer : Peer}
    (h : PeerInv fd c tr (w.conns c) peer) (hinv : ServerInv w)
    (hstream : StreamAt fd c tr (w.conns c)) (hstep : w.step fd a = some t) :
    PeerInv fd c (tr ++ [(w, a)]) (t.conns c) peer where
  fresh := h.fresh
  rxShmem := by
    intro fd' hstate
    rcases h.rxShmem fd' hstate with ⟨hfd, hwhole | ⟨hfailed, hunread⟩⟩
    · exact ⟨hfd, Or.inl ⟨hwhole.1, hwhole.2.trans (sock_grows hinv hstep c)⟩⟩
    -- behind a failed write nothing more is written
    · rcases failed_stays hinv hstream hstep hfailed with ⟨hfailed', hsock⟩
      refine ⟨hfd, Or.inr ⟨hfailed', ?_⟩⟩
      rw [Connection.unread, hsock]
      exact hunread
  inOrder := h.inOrder.trans (accepted_grows c tr w a)
  ends := h.ends

/-- The byte that `recv_fd` takes is the handshake. -/
theorem connected (h : PeerInv fd c tr (w.conn c) (w.peers c))
    (hwritten : Written fd (accepted c tr) (w.conn c)) {b : SockByte} {rest : List SockByte}
    {fd' : RawFd} (hstate : (w.peers c).state = .connecting) (hsock : (w.conn c).sock = b :: rest)
    (hfd : recvFd (.ok b.control) = .ok fd') :
    PeerInv fd c tr (w.conn c)
      { w.peers c with
        state := .connected fd'
        taken := 1 } := by
  -- `send_fd` is in front of the writer thread, so that its byte is the first on the socket
  have hfirst : b = handshake fd := by
    unfold Written at hwritten
    rw [hsock] at hwritten
    exact (List.cons_prefix_cons.mp hwritten).1
  subst hfirst
  rw [recvFd_handshake] at hfd
  refine
    { fresh := by simp
      rxShmem := ?_
      inOrder := h.inOrder
      ends := h.ends }
  intro fd'' hstate'
  cases hstate'
  cases hfd
  refine ⟨rfl, Or.inl ?_⟩
  simp [TakenWhole, h.fresh hstate, hsock, plain]

theorem failed (h : PeerInv fd c tr (w.conn c) (w.peers c)) (e : ClientError) :
    PeerInv fd c tr (w.conn c) { w.peers c with state := .failed e } where
  fresh := by simp
  rxShmem := by simp
  inOrder := h.inOrder
  ends := h.ends

theorem unread (h : PeerInv fd c tr (w.conn c) (w.peers c)) :
    PeerInv fd c tr (w.conn c) { w.peers c with ending := .reset } where
  fresh := h.fresh
  rxShmem := h.rxShmem
  inOrder := h.inOrder
  ends := by simp

/-- What a read finds before a client that has something to come. -/
theorem next (h : PeerInv fd c tr (w.conn c) (w.peers c))
    (htr : Trace (serverSystem fd) tr w.server) {fd' : RawFd}
    (hstate : (w.peers c).state = .connected fd') :
    (∃ m bs es, (w.peers c).received ++ [m] <+: accepted c tr ∧
      w.nextMsg c = (.ok (some m), es) ∧ arrived es = bs ∧ w.bytes c = writeMsg m ++ bs ∧
      TakenWhole fd (w.conn c)
        { w.peers c with
          taken := (w.peers c).taken + ((w.bytes c).length - (arrived es).length)
          received := (w.peers c).received ++ [m] }) ∨
    w.nextMsg c = (clientReader.cutOff (w.ending c) ((w.bytes c).length < 4), []) := by
  -- what is unread is cut at a frame, or a write has failed and nothing is left
  rcases (h.rxShmem fd' hstate).2 with hwhole | ⟨_, hunread⟩
  · rcases h.inOrder with ⟨ms, hacc⟩
    have hwritten := written_of_trace htr c
    have hsendable := sendable_accepted htr c
    rw [← hacc] at hwritten hsendable
    rcases hwhole.frames hwritten with ⟨more, hmore⟩
    rcases read_next (fun m hm => hsendable m (List.mem_append_right _ hm)) hmore
      (w.ending c) with ⟨m, ms', bs, es, rfl, hbytes, _, hread, harr⟩ | ⟨hread, _⟩
    · left
      refine ⟨m, bs, es, ?_, hread, harr, hbytes, hwhole.read hwritten hbytes ?_⟩
      · rw [← hacc]
        exact ⟨ms', by simp⟩
      · have hlen := congrArg List.length hbytes
        rw [List.length_append] at hlen
        rw [harr]
        change (w.bytes c).length = _ at hlen
        omega
    · exact Or.inr hread
  · -- no more bytes come
    have hnothing : w.bytes c ++ [] = ([] : List ServerMsg).flatMap writeMsg := by
      rw [LinkWorld.bytes, hunread]
      rfl
    rcases read_next (by simp) hnothing (w.ending c) with
      ⟨m, ms', bs, es, hcons, _⟩ | ⟨hread, _⟩
    · cases hcons
    · exact Or.inr hread

theorem message (h : PeerInv fd c tr (w.conn c) (w.peers c))
    (htr : Trace (serverSystem fd) tr w.server) {fd' : RawFd} {m : ServerMsg}
    {es : List (Arrival UInt8)} (hstate : (w.peers c).state = .connected fd')
    (hread : w.nextMsg c = (.ok (some m), es)) :
    PeerInv fd c tr (w.conn c)
      { w.peers c with
        taken := (w.peers c).taken + ((w.bytes c).length - (arrived es).length)
        received := (w.peers c).received ++ [m] } := by
  rcases h.next htr hstate with ⟨m', bs, es', hacc, hread', harr, hbytes, hwhole⟩ | hend
  · rw [hread] at hread'
    cases hread'
    exact
      { fresh := by simp [hstate]
        rxShmem := fun fd'' hstate' => ⟨(h.rxShmem fd'' hstate').1, Or.inl hwhole⟩
        inOrder := hacc
        ends := h.ends }
  · rw [hread] at hend
    exact absurd (congrArg Prod.fst hend).symm (clientReader.cutOff_ne_some _ _ m)

/-- A read that returns without a message has found the end of the stream, and all of its messages
before, unless a write has failed. -/
theorem at_end (h : PeerInv fd c tr (w.conn c) (w.peers c))
    (htr : Trace (serverSystem fd) tr w.server) {fd' : RawFd}
    (hstate : (w.peers c).state = .connected fd')
    (hnone : ∀ m, (w.nextMsg c).1 ≠ .ok (some m)) (hends : (w.nextMsg c).1 ≠ .pending) :
    w.nextMsg c = (clientReader.cutOff (w.ending c) ((w.bytes c).length < 4), []) ∧
      (w.conn c).hungUp = true ∧ ((w.conn c).writer ≠ .failed → w.bytes c = [] ∧
        ((w.conn c).writer = .idle → (w.peers c).received = accepted c tr)) := by
  rcases h.next htr hstate with ⟨m, bs, es, _, hread, _⟩ | hend
  · exact absurd (congrArg Prod.fst hread) (hnone m)
  · have hhung : (w.conn c).hungUp = true := by
      by_contra hopen
      rw [hend, LinkWorld.ending, if_neg hopen] at hends
      exact hends rfl
    refine ⟨hend, hhung, fun hworks => ?_⟩
    rcases (h.rxShmem fd' hstate).2 with hwhole | ⟨hfailed, _⟩
    · exact hwhole.at_end (streamAt_of_trace htr c) (sendable_accepted htr c) h.inOrder hhung
        hworks hnone
    · exact absurd hfailed hworks

/-- The end of the stream takes nothing from a client, unless the end of a frame is missing. -/
theorem ended (h : PeerInv fd c tr (w.conn c) (w.peers c))
    (htr : Trace (serverSystem fd) tr w.server) {fd' : RawFd}
    (hstate : (w.peers c).state = .connected fd')
    (hnone : ∀ m, (w.nextMsg c).1 ≠ .ok (some m)) (hends : (w.nextMsg c).1 ≠ .pending)
    {ending : Ending}
    (hending : ending = (w.peers c).ending ∨ ∃ e, ending = (w.peers c).ending.after (some e)) :
    PeerInv fd c tr (w.conn c)
      { w.peers c with
        taken := (w.peers c).taken + ((w.bytes c).length - (arrived (w.nextMsg c).2).length)
        ending := ending } := by
  rcases h.at_end htr hstate hnone hends with ⟨hread, _, hall⟩
  have htaken : (w.bytes c).length - (arrived (w.nextMsg c).2).length = (w.bytes c).length := by
    rw [hread]
    rfl
  rw [htaken]
  refine
    { fresh := by simp [hstate]
      rxShmem := ?_
      inOrder := h.inOrder
      ends := ?_ }
  · intro fd'' hstate'
    rcases h.rxShmem fd'' hstate' with ⟨hfd, hbefore⟩
    refine ⟨hfd, ?_⟩
    by_cases hfailed : (w.conn c).writer = .failed
    -- a torn frame is read to its end; the writer is gone and no more bytes come
    · have hrest : (w.conn c).unread (w.peers c).taken = w.bytes c ++ [] :=
        (List.append_nil _).symm
      exact Or.inr ⟨hfailed, unread_behind hrest⟩
    · rcases hbefore with hwhole | ⟨hfailed', _⟩
      · left
        simpa [TakenWhole, (hall hfailed).1] using hwhole
      · exact absurd hfailed' hfailed
  · rcases hending with rfl | ⟨e, rfl⟩
    · exact h.ends
    · exact Ending.after_ne_alive h.ends _

end Step

end PeerInv

/-! ## Whole runs -/

section Runs

variable {fd : RawFd} {tr : LinkTrace} {w : LinkWorld}

theorem serverRun_of_link (h : Trace (linkSystem fd) tr w) :
    Trace (serverSystem fd) (linkServer fd tr) w.server :=
  (linkSimulation fd).run h

/-- A step of one client. -/
theorem PeerInv.setPeer {c c' : ClientId} {str : ServerTrace} {w : LinkWorld} {peer : Peer}
    (h : PeerInv fd c str (w.conn c) (w.peers c))
    (hown : c = c' → PeerInv fd c str (w.conn c) peer) :
    PeerInv fd c str ((w.setPeer c' peer).conn c) ((w.setPeer c' peer).peers c) := by
  by_cases hc : c = c'
  · subst hc
    simpa [LinkWorld.setPeer] using hown rfl
  · simpa [LinkWorld.setPeer, hc] using h

theorem peerInv_of_trace (h : Trace (linkSystem fd) tr w) (c : ClientId) :
    PeerInv fd c (linkServer fd tr) (w.conn c) (w.peers c) := by
  induction h with
  | start => exact PeerInv.start fd c
  | snoc htr hstep ih =>
      rename_i tr w t a
      have hserver := serverRun_of_link htr
      cases linkMove_of_step hstep with
      | server hstep' =>
          rw [linkServer, (linkSimulation fd).trace_snoc_shown tr rfl]
          exact ih.server (serverInv_of_trace hserver) (streamAt_of_trace hserver c) hstep'
      | connected hstate hsock hfd =>
          rw [linkServer, (linkSimulation fd).trace_snoc_hidden tr rfl]
          refine ih.setPeer ?_
          rintro rfl
          exact ih.connected (written_of_trace hserver _) hstate hsock hfd
      | failed hstate hwhy =>
          rw [linkServer, (linkSimulation fd).trace_snoc_hidden tr rfl]
          refine ih.setPeer ?_
          rintro rfl
          exact ih.failed _
      | unread hopen =>
          rw [linkServer, (linkSimulation fd).trace_snoc_hidden tr rfl]
          refine ih.setPeer ?_
          rintro rfl
          exact ih.unread
      | message hstate hread =>
          rw [linkServer, (linkSimulation fd).trace_snoc_hidden tr rfl]
          refine ih.setPeer ?_
          rintro rfl
          exact ih.message hserver hstate hread
      | ended hstate hnone hends hending =>
          rw [linkServer, (linkSimulation fd).trace_snoc_hidden tr rfl]
          refine ih.setPeer ?_
          rintro rfl
          exact ih.ended hserver hstate hnone hends hending

/-- `recvmsg` cut off the control message of the client, for want of a descriptor in its process. -/
def Truncated (c : ClientId) (tr : LinkTrace) : Prop :=
  ∃ u mmap, (u, .connect c (.ok false) mmap) ∈ tr

/-- The server has closed the connection, or will close it, with bytes of the client unread. -/
def LeftUnread (c : ClientId) (tr : LinkTrace) : Prop :=
  ∃ u, (u, .unread c) ∈ tr

/-- What a client has met, and why. -/
structure PeerLog (fd : RawFd) (c : ClientId) (tr : LinkTrace) (conn : Connection) (peer : Peer) :
    Prop where
  refused : ∀ text, peer.state = .failed (.protocol text) →
    (¬ FdSent c (linkServer fd tr) ∧ conn.handler = .gone) ∨ Truncated c tr
  reset : peer.ending = .reset → LeftUnread c tr

section PeerLog

variable {c : ClientId}

theorem Truncated.snoc (h : Truncated c tr) (e : LinkWorld × LinkAct) : Truncated c (tr ++ [e]) := by
  rcases h with ⟨u, mmap, hmem⟩
  exact ⟨u, mmap, List.mem_append_left _ hmem⟩

theorem LeftUnread.snoc (h : LeftUnread c tr) (e : LinkWorld × LinkAct) :
    LeftUnread c (tr ++ [e]) :=
  h.imp fun _ hmem => List.mem_append_left _ hmem

/-- A step of one client. -/
theorem PeerLog.setPeer {c' : ClientId} {peer : Peer} (h : PeerLog fd c tr (w.conn c) (w.peers c))
    (hown : c = c' → PeerLog fd c tr (w.conn c) peer) :
    PeerLog fd c tr ((w.setPeer c' peer).conn c) ((w.setPeer c' peer).peers c) := by
  by_cases hc : c = c'
  · subst hc
    simpa [LinkWorld.setPeer] using hown rfl
  · simpa [LinkWorld.setPeer, hc] using h

/-- A step of a client leaves what was met before. -/
theorem PeerLog.snoc_hidden {a : LinkAct} {conn : Connection} {peer : Peer}
    (h : PeerLog fd c tr conn peer) (hhidden : (linkSimulation fd).label w a = none) :
    PeerLog fd c (tr ++ [(w, a)]) conn peer where
  refused := by
    intro text hstate
    rw [linkServer, (linkSimulation fd).trace_snoc_hidden tr hhidden]
    exact (h.refused text hstate).imp_right fun htrunc => htrunc.snoc _
  reset := fun hreset => (h.reset hreset).snoc _

theorem peerLog_of_trace (h : Trace (linkSystem fd) tr w) (c : ClientId) :
    PeerLog fd c tr (w.conn c) (w.peers c) := by
  induction h with
  | start =>
      refine { refused := fun text hstate => ?_, reset := fun hreset => ?_ }
      · cases hstate
      · cases hreset
  | snoc htr hstep ih =>
      rename_i tr w t a
      have hserver := serverRun_of_link htr
      cases linkMove_of_step hstep with
      | server hstep' =>
          rename_i a server
          refine { refused := ?_, reset := fun hreset => (ih.reset hreset).snoc _ }
          intro text hstate
          rcases ih.refused text hstate with ⟨hnot, hgone⟩ | htrunc
          · -- a handler that is gone sends nothing more
            left
            have hstays := gone_stays (serverInv_of_trace hserver) hstep' hgone
            rw [linkServer, (linkSimulation fd).trace_snoc_shown tr rfl]
            refine ⟨fun hsent => ?_, hstays.1⟩
            rcases (fdSent_snoc c _ _ _).mp hsent with hold | hnew
            · exact hnot hold
            · exact hstays.2 hnew
          · exact Or.inr (htrunc.snoc _)
      | connected hstate hsock hfd =>
          refine (ih.snoc_hidden rfl).setPeer ?_
          rintro rfl
          exact
            { refused := by simp
              reset := fun hreset => (ih.reset hreset).snoc _ }
      | failed hstate hwhy =>
          rename_i c' recv mmap e
          refine (ih.snoc_hidden rfl).setPeer ?_
          rintro rfl
          refine { refused := ?_, reset := fun hreset => (ih.reset hreset).snoc _ }
          intro text htext
          cases htext
          rw [linkServer, (linkSimulation fd).trace_snoc_hidden tr rfl]
          rcases hwhy with ⟨io, hio⟩ | rfl | ⟨hnil, hhung⟩ | ⟨b, rest, hsock, herror⟩
          · cases hio
          · exact Or.inr ⟨w, mmap, List.mem_append_right _ List.mem_cons_self⟩
          · exact Or.inl ⟨fun hsent => sock_ne_nil hserver hsent hnil, (hungUp_cases hhung).1⟩
          · -- the first byte would have brought the descriptor
            have hwritten := written_of_trace hserver c
            unfold Written at hwritten
            rw [hsock] at hwritten
            rw [(List.cons_prefix_cons.mp hwritten).1, recvFd_handshake] at herror
            cases herror
      | unread hopen =>
          refine (ih.snoc_hidden rfl).setPeer ?_
          rintro rfl
          exact
            { refused := (ih.snoc_hidden rfl).refused
              reset := fun _ => ⟨w, List.mem_append_right _ List.mem_cons_self⟩ }
      | message hstate hread =>
          refine (ih.snoc_hidden rfl).setPeer ?_
          rintro rfl
          exact
            { refused := (ih.snoc_hidden rfl).refused
              reset := fun hreset => (ih.reset hreset).snoc _ }
      | ended hstate hnone hends hending =>
          refine (ih.snoc_hidden rfl).setPeer ?_
          rintro rfl
          refine { refused := (ih.snoc_hidden rfl).refused, reset := fun hreset => ?_ }
          rcases hending with rfl | ⟨e, rfl⟩
          · exact (ih.reset hreset).snoc _
          · exact (ih.reset (Ending.eq_reset_of_after hreset)).snoc _

end PeerLog

/-- What a client has of its connection at a point of a run. -/
structure Received (fd : RawFd) (c : ClientId) (tr : LinkTrace) (w : LinkWorld) : Prop where
  /-- `connect` maps the server's descriptor, and does not miss it once it is sent, unless the
  process has no place for it. -/
  rxShmem : ∀ fd', (w.peers c).state = .connected fd' → fd' = fd
  refused : ∀ text, (w.peers c).state = .failed (.protocol text) →
    ¬ FdSent c (linkServer fd tr) ∨ Truncated c tr
  inOrder : (w.peers c).received <+: accepted c (linkServer fd tr)
  next : ∀ fd' m, (w.peers c).state = .connected fd' → (w.nextMsg c).1 = .ok (some m) →
    (w.peers c).received ++ [m] <+: accepted c (linkServer fd tr)
  complete : ∀ fd', (w.peers c).state = .connected fd' →
    (w.nextMsg c).1 = .ok none ∨ (w.nextMsg c).1 = .err .connectionReset →
    (w.conn c).writer = .idle → (w.peers c).received = accepted c (linkServer fd tr)
  broken : ∀ fd' e, (w.peers c).state = .connected fd' → (w.nextMsg c).1 = .err e →
    (e = .unexpectedEof ∧ (w.conn c).writer = .failed) ∨
      (e = .connectionReset ∧ (w.conn c).hungUp = true ∧ LeftUnread c tr)

/-- In every run, for every client: `connect` ends with the server's descriptor, and fails with a
protocol error only if none was sent or its process could not take it; every message that a call
reads is the next one that the server accepted for the client; a client that meets the end of the
stream behind a writer thread whose writes were all good has read every one of them; and a read
fails only with `UnexpectedEof`, behind a write that failed, or with `ConnectionReset`, behind a
server that closed with bytes of the client unread. -/
theorem received_accepted (h : Trace (linkSystem fd) tr w) (c : ClientId) :
    Received fd c tr w := by
  have hinv := peerInv_of_trace h c
  have hlog := peerLog_of_trace h c
  have hserver := serverRun_of_link h
  refine
    { rxShmem := fun fd' hstate => (hinv.rxShmem fd' hstate).1
      refused := fun text hstate => (hlog.refused text hstate).imp_left And.left
      inOrder := hinv.inOrder
      next := ?_
      complete := ?_
      broken := ?_ }
  · intro fd' m hstate hread
    rcases hinv.next hserver hstate with ⟨m', bs, es, hacc, hread', _⟩ | hend
    · rw [hread'] at hread
      cases hread
      exact hacc
    · rw [hend] at hread
      exact absurd hread (clientReader.cutOff_ne_some _ _ m)
  · intro fd' hstate hread hidle
    have hnone : ∀ m, (w.nextMsg c).1 ≠ .ok (some m) := by
      rcases hread with hread | hread <;> simp [hread]
    have hends : (w.nextMsg c).1 ≠ .pending := by
      rcases hread with hread | hread <;> simp [hread]
    have hall := (hinv.at_end hserver hstate hnone hends).2.2
    exact (hall (by simp [hidle])).2 hidle
  · intro fd' e hstate hread
    rcases hinv.at_end hserver hstate (by simp [hread]) (by simp [hread]) with
      ⟨hend, hhung, hall⟩
    rw [hend, LinkWorld.ending, if_pos hhung] at hread
    cases hending : (w.peers c).ending with
    | alive => exact absurd hending hinv.ends
    | reset =>
        have he : IoError.connectionReset = e := by
          simpa [hending, FrameReader.cutOff, Ending.error?, clientReader] using hread
        exact Or.inr ⟨he.symm, hhung, hlog.reset hending⟩
    | eof =>
        -- only part of a frame is an error here, and that is what a failed write leaves
        rw [hending] at hread
        have hlong : ¬ (w.bytes c).length < 4 := by
          intro hshort
          simp [FrameReader.cutOff, Ending.error?, clientReader, hshort] at hread
        simp only [FrameReader.cutOff, Ending.error?, hlong] at hread
        cases hread
        refine Or.inl ⟨rfl, ?_⟩
        by_contra hworks
        exact hlong (by simp [(hall hworks).1])

end Runs

/-! ## A pong, and the end of the stream -/

/-- Client 1 connects, pings and reads its pong; then the server hangs up on a message that it
refuses, with more of the client behind it. -/
def pongAndEnd : List LinkAct :=
  [.server .connect, .server (.handler 1 .proceed), .server (.handler 1 (.sendFd true)),
    .server (.handler 1 (.spawnWriter true)), .server (.handler 1 (.request .ping)),
    .server (.handler 1 .proceed), .server (.writer 1 .dequeue), .server (.writer 1 (.write 5)),
    .connect 1 (.ok true) (.ok ()), .read 1, .unread 1, .server (.handler 1 .hangUp),
    .server (.handler 1 .proceed)]

theorem received_accepted_pong :
    ∃ tr w, Trace (linkSystem 7) tr w ∧ (w.peers 1).state = .connected 7 ∧
      (w.peers 1).received = [.pong] ∧ (w.nextMsg 1).1 = .err .connectionReset ∧
      Received 7 1 tr w := by
  have hrun := Trace.start.exec
    (show (linkSystem 7).exec LinkWorld.start pongAndEnd = some _ from rfl)
  exact ⟨_, _, hrun, rfl, rfl, rfl, received_accepted hrun 1⟩

end Cm108Driver
