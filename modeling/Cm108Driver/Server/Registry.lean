import Cm108Driver.Ipc.Framing
import Cm108Driver.Lib.Fifo
import Cm108Driver.Lib.Runs
import Mathlib.Data.List.AList

/-!
# Registry — the connected clients and the threads that serve them

Every connection has a handler thread, a queue of outbound messages and, once the descriptor of the
shared page has been sent, a writer thread that empties the queue into the socket.  The registry
holds the flags of the registered clients behind a mutex.  A broadcast keeps the mutex while it
walks over the clients, and writer threads go on working meanwhile.

One step of the system is one access to something that is shared: a critical section of the
registry, the visit of one client by a broadcast, a load, a dequeue, or a `write` to the socket.
-/

namespace Cm108Driver

open Lib

/-! ## The registry -/

/-- A client's number; the counter behind `allocate_id` would wrap after 2^64 connections only. -/
abbrev ClientId := Nat

/-- The registry's entry for a client (its sender is the queue of the connection `id`). -/
structure ClientHandle where
  id : ClientId
  streams : StreamFlags
  deriving DecidableEq, Repr

abbrev ClientMap := AList fun _ : ClientId => ClientHandle

/-- The three calls that send to all clients. -/
inductive BroadcastCall
  | radioEvent (event : RadioEvent)
  | audioReady (seq : UInt64)
  | stats (rxXruns txXruns : UInt64) (dispatchLat : LatencyStats)
  deriving DecidableEq, Repr

namespace BroadcastCall

def message : BroadcastCall → ServerMsg
  | .radioEvent event => .radioEvent event
  | .audioReady seq => .audioReady seq
  | .stats rxXruns txXruns dispatchLat => .stats rxXruns txXruns dispatchLat

/-- Whether the loop over the clients sends to this one. -/
def wants (call : BroadcastCall) (h : ClientHandle) : Bool :=
  match call with
  | .radioEvent _ => h.streams.contains StreamFlags.gpioEvents
  | .audioReady _ => h.streams.contains StreamFlags.audioIn
  | .stats _ _ _ => true

end BroadcastCall

/-- A broadcast under way, which holds the mutex: the clients that its loop has yet to visit, in no
particular order. -/
structure Broadcast where
  call : BroadcastCall
  todo : List ClientId

/-! ## A connection -/

abbrev RawFd := Int32

/-- A byte on the socket, with the descriptor that is passed along with it. -/
structure SockByte where
  byte : UInt8
  fd : Option RawFd
  deriving DecidableEq, Repr

/-- The one byte of `send_fd`. -/
def handshake (fd : RawFd) : SockByte :=
  { byte := 0
    fd := some fd }

def plain (bs : List UInt8) : List SockByte :=
  bs.map fun b => { byte := b, fd := none }

/-- Where the handler stands in `dispatch_client_msg` (or in `read_msg`). -/
inductive Serving
  | reading
  | subscribing (streams : StreamFlags)
  | statsCall
  | latencyLoaded (lat : LatencyStats)
  | rxLoaded (lat : LatencyStats) (rxXruns : UInt64)
  | replying (m : ServerMsg)

/-- Where the handler stands in `handle_client`; `leaving` is behind every way out of it, with
`unregister` to come. -/
inductive HandlerPc
  | unborn
  | allocated
  | registered
  | handshaken
  | serving (s : Serving)
  | leaving
  | gone

/-- The writer thread: not spawned, waiting for a message, in `write_msg` with some bytes to go, or
ended by a failed write. -/
inductive ClientWriterPc
  | notStarted
  | idle
  | sending (rest : List UInt8)
  | failed

def queueCapacity : Nat := 128

/-- A connection; `receiving` says that the receiver of its queue has not been dropped. -/
structure Connection where
  handler : HandlerPc
  queue : Fifo ServerMsg queueCapacity
  receiving : Bool
  writer : ClientWriterPc
  sock : List SockByte

inductive ClientWriterAct
  | dequeue
  /-- A `write` on the socket takes `n` bytes. -/
  | write (n : Nat)
  /-- A `write` on the socket fails. -/
  | fail

namespace Connection

def unborn : Connection :=
  { handler := .unborn
    queue := Fifo.empty
    receiving := true
    writer := .notStarted
    sock := [] }

/-- `let _ = sender.try_send(msg)`. -/
def trySend (conn : Connection) (m : ServerMsg) : Connection :=
  if conn.receiving then { conn with queue := conn.queue.offer m } else conn

/-- The receiver goes, and with it what is queued. -/
def dropReceiver (conn : Connection) : Connection :=
  { conn with
    queue := Fifo.empty
    receiving := false }

/-- The end of `handle_client`: the receiver goes too unless the writer thread has it. -/
def finish (conn : Connection) : Connection :=
  match conn.writer with
  -- `msg_rx` is still a local of `handle_client`
  | .notStarted => { conn.dropReceiver with handler := .gone }
  | _ => { conn with handler := .gone }

/-- A step of the writer thread. -/
def writerStep (conn : Connection) : ClientWriterAct → Option Connection
  | .dequeue =>
      match conn.writer, conn.queue.pop with
      -- `for msg in msg_rx`
      | .idle, some (m, queue) =>
          some
            { conn with
              queue := queue
              writer := .sending (writeMsg m) }
      | _, _ => none
  | .write n =>
      match conn.writer with
      | .sending rest =>
          -- `write_all` goes on after a short write
          if n < rest.length then
            some
              { conn with
                writer := .sending (rest.drop n)
                sock := conn.sock ++ plain (rest.take n) }
          else
            some
              { conn with
                writer := .idle
                sock := conn.sock ++ plain rest }
      | _ => none
  | .fail =>
      match conn.writer with
      -- `write_msg(..).is_err()` ends the thread, and its closure owns `msg_rx`
      | .sending _ => some { conn.dropReceiver with writer := .failed }
      | _ => none

end Connection

/-! ## The server -/

inductive HandlerAct
  /-- The next step, where there is only one. -/
  | proceed
  /-- The result of `send_fd`. -/
  | sendFd (ok : Bool)
  /-- The result of `try_clone`; the writer thread is spawned when it succeeds. -/
  | spawnWriter (ok : Bool)
  /-- `read_msg` returns a message. -/
  | request (m : ClientMsg)
  /-- `read_msg` returns the end of the stream or an error. -/
  | hangUp

inductive ServerAct
  /-- A connection is accepted, and its handler allocates an id and creates the queue. -/
  | connect
  /-- A thread enters a broadcast and takes the mutex. -/
  | broadcast (call : BroadcastCall)
  | visit (id : ClientId)
  | endBroadcast
  | handler (id : ClientId) (a : HandlerAct)
  | writer (id : ClientId) (a : ClientWriterAct)
  /-- Other threads change the counters. -/
  | counters (rxXruns txXruns : UInt64) (lastLatency : LatencyStats)

structure ServerWorld where
  clients : ClientMap
  nextId : ClientId
  broadcast : Option Broadcast
  conns : ClientId → Connection
  rxXruns : UInt64
  txXruns : UInt64
  lastLatency : LatencyStats

namespace ServerWorld

def start : ServerWorld :=
  { clients := ∅
    nextId := 1
    broadcast := none
    conns := fun _ => Connection.unborn
    rxXruns := 0
    txXruns := 0
    lastLatency := LatencyStats.default }

def setConn (w : ServerWorld) (id : ClientId) (conn : Connection) : ServerWorld :=
  { w with conns := Function.update w.conns id conn }

def setHandler (w : ServerWorld) (id : ClientId) (pc : HandlerPc) : ServerWorld :=
  w.setConn id { w.conns id with handler := pc }

/-- A critical section of the registry, which waits for the broadcast under way. -/
def whenUnlocked (w t : ServerWorld) : Option ServerWorld :=
  match w.broadcast with
  | none => some t
  | some _ => none

/-! ### The registry's methods -/

def register (w : ServerWorld) (handle : ClientHandle) : ServerWorld :=
  { w with clients := w.clients.insert handle.id handle }

def unregister (w : ServerWorld) (id : ClientId) : ServerWorld :=
  { w with clients := w.clients.erase id }

def updateStreams (w : ServerWorld) (id : ClientId) (streams : StreamFlags) : ServerWorld :=
  match w.clients.lookup id with
  | some h => { w with clients := w.clients.insert id { h with streams := streams } }
  | none => w

def trySend (w : ServerWorld) (id : ClientId) (m : ServerMsg) : ServerWorld :=
  w.setConn id ((w.conns id).trySend m)

def sendTo (w : ServerWorld) (id : ClientId) (m : ServerMsg) : ServerWorld :=
  match w.clients.lookup id with
  | some _ => w.trySend id m
  | none => w

/-- The body of a broadcast's loop, at the client `id`. -/
def offer (w : ServerWorld) (call : BroadcastCall) (id : ClientId) : ServerWorld :=
  match w.clients.lookup id with
  | some h => if call.wants h then w.trySend id call.message else w
  | none => w

/-! ### The handler thread -/

/-- What `dispatch_client_msg` has to do with the registry for a message; `SetGpio` and
`AudioWrite` have nothing to do with it. -/
def dispatch : ClientMsg → Serving
  | .subscribe streams => .subscribing streams
  | .setGpio _ _ => .reading
  | .audioWrite _ => .reading
  | .ping => .replying .pong
  | .getStats => .statsCall

/-- The next step of the handler inside `dispatch_client_msg`. -/
def serve (w : ServerWorld) (id : ClientId) : Serving → Option ServerWorld
  | .reading => none
  | .subscribing streams =>
      w.whenUnlocked ((w.updateStreams id streams).setHandler id (.serving .reading))
  -- `last_latency` is locked first, then the arguments of `send_to` load the counters
  | .statsCall => some (w.setHandler id (.serving (.latencyLoaded w.lastLatency)))
  | .latencyLoaded lat => some (w.setHandler id (.serving (.rxLoaded lat w.rxXruns)))
  | .rxLoaded lat rxXruns =>
      some (w.setHandler id (.serving (.replying (.stats rxXruns w.txXruns lat))))
  | .replying m => w.whenUnlocked ((w.sendTo id m).setHandler id (.serving .reading))

/-- A step of `handle_client`; `rxShmemFd` is the descriptor that it passes on. -/
def handlerStep (rxShmemFd : RawFd) (w : ServerWorld) (id : ClientId) (a : HandlerAct) :
    Option ServerWorld :=
  match (w.conns id).handler, a with
  | .allocated, .proceed =>
      w.whenUnlocked
        ((w.register
          { id := id
            streams := StreamFlags.empty }).setHandler id .registered)
  -- one byte, with the descriptor in its control message
  | .registered, .sendFd true =>
      some (w.setConn id
        { w.conns id with
          handler := .handshaken
          sock := (w.conns id).sock ++ [handshake rxShmemFd] })
  | .registered, .sendFd false => some (w.setHandler id .leaving)
  -- from here on the writer thread owns the receiver
  | .handshaken, .spawnWriter true =>
      some (w.setConn id
        { w.conns id with
          handler := .serving .reading
          writer := .idle })
  | .handshaken, .spawnWriter false => some (w.setHandler id .leaving)
  | .serving .reading, .request m => some (w.setHandler id (.serving (dispatch m)))
  -- `break`
  | .serving .reading, .hangUp => some (w.setHandler id .leaving)
  | .serving s, .proceed => w.serve id s
  | .leaving, .proceed => w.whenUnlocked ((w.unregister id).setConn id (w.conns id).finish)
  | _, _ => none

/-! ### The system -/

def step (rxShmemFd : RawFd) (w : ServerWorld) : ServerAct → Option ServerWorld
  | .connect =>
      some { w.setHandler w.nextId .allocated with nextId := w.nextId + 1 }
  | .broadcast call =>
      w.whenUnlocked
        { w with
          -- every client registered now; the guard is held to the end of the loop
          broadcast := some
            { call := call
              todo := w.clients.keys } }
  | .visit id =>
      match w.broadcast with
      | some b =>
          -- the order of `clients.values()` is not specified
          if id ∈ b.todo then
            some { w.offer b.call id with broadcast := some { b with todo := b.todo.erase id } }
          else
            none
      | none => none
  | .endBroadcast =>
      match w.broadcast with
      | some { call := _, todo := [] } => some { w with broadcast := none }
      | _ => none
  | .handler id a => w.handlerStep rxShmemFd id a
  | .writer id a => ((w.conns id).writerStep a).map (w.setConn id)
  | .counters rxXruns txXruns lastLatency =>
      some
        { w with
          rxXruns := rxXruns
          txXruns := txXruns
          lastLatency := lastLatency }

end ServerWorld

/-- Any number of clients, their threads, and the threads that broadcast. -/
def serverSystem (rxShmemFd : RawFd) : System ServerWorld ServerAct where
  init := ServerWorld.start
  step := ServerWorld.step rxShmemFd

end Cm108Driver
