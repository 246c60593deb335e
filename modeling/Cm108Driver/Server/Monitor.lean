import Cm108Driver.Server.GpioPoller
import Cm108Driver.Server.Outbound

/-!
# Monitor — the GPIO poller on top of the server

The poller broadcasts the edges of a changed state one after the other and then takes the state
over as `prev`.  It is the only thread that broadcasts radio events.  Without the poller's own
steps, a run is a run of the server (`monitorSimulation`), so that what holds of the server's runs
holds here.
-/

namespace Cm108Driver

open Lib

/-! ## The system -/

/-- Where the poller stands: at `read_state`, or in `emit_gpio_events` for a state with some events
to go (and behind it, with `prev = state` to come). -/
inductive PollerPc
  | polling
  | emitting (state : GpioState) (events : List RadioEvent)

structure Poller where
  prev : GpioState
  pc : PollerPc

structure MonitorWorld where
  server : ServerWorld
  poller : Poller

inductive MonitorAct
  /-- `read_state` returns. -/
  | poll (r : ReadResult)
  /-- The poller enters its next `broadcast_radio_event`. -/
  | emit
  /-- Behind the last event, `prev = state`. -/
  | settle
  /-- Any other step. -/
  | server (a : ServerAct)

/-- The broadcast of a radio event. -/
def BroadcastCall.isRadioEvent : BroadcastCall → Bool
  | .radioEvent _ => true
  | _ => false

/-- A step that starts the broadcast of a radio event, which is the poller's business. -/
def ServerAct.startsRadioEvent : ServerAct → Bool
  | .broadcast call => call.isRadioEvent
  | _ => false

/-- The broadcast of a radio event is under way. -/
def ServerWorld.inRadioEvent (w : ServerWorld) : Bool :=
  w.broadcast.any fun b => b.call.isRadioEvent

namespace MonitorWorld

def start : MonitorWorld :=
  { server := ServerWorld.start
    poller :=
      { prev := ⟨0⟩
        pc := .polling } }

/-- The body of the poller's loop behind `read_state`. -/
def poll (w : MonitorWorld) : ReadResult → MonitorWorld
  | .report state =>
      if state ≠ w.poller.prev then
        { w with
          poller := { w.poller with pc := .emitting state (emitGpioEvents state w.poller.prev) } }
      else
        w
  | .timeout => w
  -- logged, and the thread sleeps
  | .error => w

def step (fd : RawFd) (w : MonitorWorld) : MonitorAct → Option MonitorWorld
  | .poll r =>
      match w.poller.pc with
      | .polling => some (w.poll r)
      | _ => none
  | .emit =>
      match w.poller.pc with
      | .emitting state (event :: events) =>
          (w.server.step fd (.broadcast (.radioEvent event))).map fun server =>
            { server := server
              poller := { w.poller with pc := .emitting state events } }
      | _ => none
  | .settle =>
      match w.poller.pc with
      | .emitting state [] =>
          -- `prev = state` comes behind the last broadcast
          if w.server.inRadioEvent then
            none
          else
            some
              { w with
                poller :=
                  { prev := state
                    pc := .polling } }
      | _ => none
  | .server a =>
      if a.startsRadioEvent then
        none
      else
        (w.server.step fd a).map fun server => { w with server := server }

end MonitorWorld

def monitorSystem (fd : RawFd) : System MonitorWorld MonitorAct where
  init := MonitorWorld.start
  step := MonitorWorld.step fd

abbrev MonitorTrace := List (MonitorWorld × MonitorAct)

/-! ## The server's share of a run -/

/-- The event that the poller's next `emit` broadcasts. -/
def Poller.event? (p : Poller) : Option RadioEvent :=
  match p.pc with
  | .emitting _ (event :: _) => some event
  | _ => none

/-- The step of the server, if any. -/
def serverAct? (w : MonitorWorld) : MonitorAct → Option ServerAct
  | .emit => w.poller.event?.map fun event => .broadcast (.radioEvent event)
  | .server a => some a
  | _ => none

theorem poll_server (w : MonitorWorld) (r : ReadResult) : (w.poll r).server = w.server := by
  cases r with
  | report state =>
      by_cases hsame : state = w.poller.prev
      · simp [MonitorWorld.poll, hsame]
      · simp [MonitorWorld.poll, hsame]
  | timeout => rfl
  | error => rfl

/-- What a step can do, with the poller before and after it. -/
inductive MonitorMove (fd : RawFd) (w : MonitorWorld) : MonitorAct → MonitorWorld → Prop where
  | poll (r : ReadResult) (hpc : w.poller.pc = .polling) : MonitorMove fd w (.poll r) (w.poll r)
  | emit {state : GpioState} {event : RadioEvent} {events : List RadioEvent} {server : ServerWorld}
      (hpc : w.poller.pc = .emitting state (event :: events))
      (hstep : w.server.step fd (.broadcast (.radioEvent event)) = some server) :
      MonitorMove fd w .emit
        { server := server
          poller := { w.poller with pc := .emitting state events } }
  | settle {state : GpioState} (hpc : w.poller.pc = .emitting state [])
      (hdone : w.server.inRadioEvent = false) :
      MonitorMove fd w .settle { w with poller := { prev := state, pc := .polling } }
  | server {a : ServerAct} {server : ServerWorld} (hother : a.startsRadioEvent = false)
      (hstep : w.server.step fd a = some server) :
      MonitorMove fd w (.server a) { w with server := server }

theorem monitorMove_of_step {fd : RawFd} {w t : MonitorWorld} {a : MonitorAct}
    (h : w.step fd a = some t) : MonitorMove fd w a t := by
  cases a with
  | poll r =>
      simp only [MonitorWorld.step] at h
      split at h
      · rename_i hpc
        cases h
        exact .poll r hpc
      · cases h
  | emit =>
      simp only [MonitorWorld.step] at h
      split at h
      · rename_i hpc
        rcases Option.map_eq_some_iff.1 h with ⟨server, hstep, rfl⟩
        exact .emit hpc hstep
      · cases h
  | settle =>
      simp only [MonitorWorld.step] at h
      split at h
      · rename_i hpc
        split at h
        · cases h
        · rename_i hdone
          cases h
          exact .settle hpc (by simpa using hdone)
      · cases h
  | server a =>
      simp only [MonitorWorld.step] at h
      split at h
      · cases h
      · rename_i hother
        rcases Option.map_eq_some_iff.1 h with ⟨server, hstep, rfl⟩
        exact .server (by simpa using hother) hstep

/-- A run with the poller is a run of the server. -/
def monitorSimulation (fd : RawFd) : Simulation (monitorSystem fd) (serverSystem fd) where
  proj := MonitorWorld.server
  label := serverAct?
  init := rfl
  hidden := by
    intro w a t hstep hlabel
    cases monitorMove_of_step hstep with
    | poll r hpc => exact poll_server w r
    | emit hpc hserver => simp [serverAct?, Poller.event?, hpc] at hlabel
    | settle hpc hdone => rfl
    | server hother hserver => cases hlabel
  shown := by
    intro w a t b hstep hlabel
    cases monitorMove_of_step hstep with
    | poll r hpc => cases hlabel
    | emit hpc hserver =>
        simp only [serverAct?, Poller.event?, hpc, Option.map_some, Option.some.injEq] at hlabel
        subst hlabel
        exact hserver
    | settle hpc hdone => cases hlabel
    | server hother hserver =>
        cases hlabel
        exact hserver

/-- The steps of the server in a run with the poller. -/
abbrev serverTrace (fd : RawFd) (tr : MonitorTrace) : ServerTrace := (monitorSimulation fd).trace tr

theorem serverTrace_hidden (fd : RawFd) (tr : MonitorTrace) {w : MonitorWorld} {a : MonitorAct}
    (h : serverAct? w a = none) : serverTrace fd (tr ++ [(w, a)]) = serverTrace fd tr :=
  (monitorSimulation fd).trace_snoc_hidden tr h

theorem serverTrace_shown (fd : RawFd) (tr : MonitorTrace) {w : MonitorWorld} {a : MonitorAct}
    {b : ServerAct} (h : serverAct? w a = some b) :
    serverTrace fd (tr ++ [(w, a)]) = serverTrace fd tr ++ [(w.server, b)] :=
  (monitorSimulation fd).trace_snoc_shown tr h

theorem serverTrace_run {fd : RawFd} {tr : MonitorTrace} {w : MonitorWorld}
    (h : Trace (monitorSystem fd) tr w) : Trace (serverSystem fd) (serverTrace fd tr) w.server :=
  (monitorSimulation fd).run h

/-- The messages that the writer thread of `c` has taken from its queue. -/
def received (fd : RawFd) (c : ClientId) (tr : MonitorTrace) : List ServerMsg :=
  dequeued c (serverTrace fd tr)

end Cm108Driver
