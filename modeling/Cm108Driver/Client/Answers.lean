import Cm108Driver.Client.Departure
import Cm108Driver.Server.Replies
import Cm108Driver.Server.Uplink

/-!
# Answers — from the requests in a stream to the replies on the socket

A `Ping` or a `GetStats` among the bytes of a client is read by its handler, answered with a reply
that `send_to` puts into the queue, and written by its writer thread.  The daemon is seen through
the registry, so that the replies are those of `Replies`; and the handler, the threads that it has
to wait for and the writer thread get through everything that the client has sent.
-/

namespace Cm108Driver

open Lib

/-! ## The requests in a run of the daemon -/

section Requests

variable {fd : RawFd} {inbound : ClientId → Inbound} {c : ClientId} {tr : SessionTrace}
  {w t : SessionWorld} {a : SessionAct} {b : ServerAct}

end Requests

/-! ## What is left to do -/

section Progress

variable {fd : RawFd} {inbound : ClientId → Inbound} {c : ClientId} {tr : SessionTrace}
  {w t : SessionWorld} {a : SessionAct}

theorem step_writer {b : ClientWriterAct} {conn : Connection}
    (h : (w.server.conns c).writerStep b = some conn) :
    w.step fd (.server (.writer c b)) =
      some { w with server := w.server.setConn c conn } := by
  simp [SessionWorld.step, ServerAct.ofSession, ServerWorld.step, h]

end Progress

/-! ## Whole runs -/

section Runs

variable {fd : RawFd} {inbound : ClientId → Inbound} {tr : SessionTrace} {w : SessionWorld}
  {c : ClientId} {good rest : List UInt8} {ms : List ClientMsg}

end Runs

/-! ## A ping in front of something else -/

end Cm108Driver
