import Cm108Driver.Ipc.Framing

/-!
# Client.Calls — the calls of `Cm108Client` that read from the server

`poll_msg` switches the socket to non-blocking mode around one `read_server_msg`; `wait_msg` is one
blocking `read_server_msg`; `read_audio_blocking` and `get_stats` read messages until the one they
look for and drop all others.

A call on a script either returns (a value or a `ClientError`) or is still waiting when the script
ends, which is `none`.
-/

namespace Cm108Driver

open Lib

inductive ClientError
  | io (e : IoError)
  | protocol (text : String)
  | disconnected
  deriving DecidableEq, Repr

/-- What a call has returned so far. -/
abbrev CallResult (α : Type) := Option (Except ClientError α)

/-- The part of `Cm108Client` that the reading calls use and change. -/
structure Cm108Client where
  lastSeq : UInt64
  deriving DecidableEq, Repr

/-- The client after `connect`. -/
def Cm108Client.connected : Cm108Client :=
  { lastSeq := 0 }

def pollMsg (ending : Ending) (es : List (Arrival UInt8)) :
    CallResult (Option ServerMsg) × List (Arrival UInt8) :=
  match readServerMsg .nonblocking ending es with
  | (.ok msg, es) => (some (.ok msg), es)
  -- whether in the header or behind it
  | (.err .wouldBlock, es) => (some (.ok none), es)
  | (.err e, es) => (some (.error (.io e)), es)
  | (.pending, es) => (none, es)

def waitMsg (ending : Ending) (es : List (Arrival UInt8)) :
    CallResult (Option ServerMsg) × List (Arrival UInt8) :=
  match readServerMsg .blocking ending es with
  | (.ok msg, es) => (some (.ok msg), es)
  | (.err e, es) => (some (.error (.io e)), es)
  | (.pending, es) => (none, es)

/-- The loop shared by `read_audio_blocking` and `get_stats`: read messages until one is wanted;
every other message is dropped. -/
def awaitMsg {α : Type} (want : ServerMsg → Option α) (ending : Ending)
    (es : List (Arrival UInt8)) : CallResult α × List (Arrival UInt8) :=
  match _h : readServerMsg .blocking ending es with
  | (.ok (some m), es') =>
      match want m with
      | some a => (some (.ok a), es')
      | none => awaitMsg want ending es'
  | (.ok none, es') => (some (.error .disconnected), es')
  | (.err e, es') => (some (.error (.io e)), es')
  | (.pending, es') => (none, es')
termination_by (arrived es).length
decreasing_by exact arrived_read_lt clientReader .blocking ending _h

/-- The notification that `read_audio_blocking` accepts: newer than `last_seq`. -/
def wantAudio (lastSeq : UInt64) : ServerMsg → Option UInt64
  | .audioReady seq => if seq > lastSeq then some seq else none
  | _ => none

/-- `read_audio_blocking`; `page` is what `rx_shmem.read_frame()` returns once the notification is
accepted. -/
def readAudioBlocking (c : Cm108Client) (page : AudioFrame) (ending : Ending)
    (es : List (Arrival UInt8)) :
    CallResult AudioFrame × Cm108Client × List (Arrival UInt8) :=
  match awaitMsg (wantAudio c.lastSeq) ending es with
  | (some (.ok seq), es) => (some (.ok page), { lastSeq := seq }, es)
  | (some (.error e), es) => (some (.error e), c, es)
  | (none, es) => (none, c, es)

/-- The reply that `get_stats` waits for. -/
def wantStats : ServerMsg → Option (UInt64 × UInt64 × LatencyStats)
  | .stats rxXruns txXruns dispatchLat => some (rxXruns, txXruns, dispatchLat)
  | _ => none

/-- `get_stats` after its `GetStats` request is written. -/
def getStats (ending : Ending) (es : List (Arrival UInt8)) :
    CallResult (UInt64 × UInt64 × LatencyStats) × List (Arrival UInt8) :=
  awaitMsg wantStats ending es

/-- One turn of the loop. -/
theorem awaitMsg_of {α : Type} {want : ServerMsg → Option α} {ending : Ending}
    {es es' : List (Arrival UInt8)} {out : Outcome (Option ServerMsg)}
    (h : readServerMsg .blocking ending es = (out, es')) :
    awaitMsg want ending es =
      match out with
      | .ok (some m) =>
          match want m with
          | some a => (some (.ok a), es')
          | none => awaitMsg want ending es'
      | .ok none => (some (.error .disconnected), es')
      | .err e => (some (.error (.io e)), es')
      | .pending => (none, es') := by
  rw [awaitMsg]
  split
  all_goals
    rename_i h'
    rw [h] at h'
    cases h'
    rfl

end Cm108Driver
