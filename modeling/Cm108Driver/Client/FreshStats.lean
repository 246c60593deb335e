import Cm108Driver.Client.PollEvent
import Cm108Driver.Client.Polling
import Cm108Driver.Server.InTransit
import Cm108Driver.Server.StatsWindows

/-!
# FreshStats — how old the counters are that `get_stats` returns

`get_stats` writes a request and returns the first `Stats` that it reads.  A `Stats` carries nothing
that says what it answers, and the server broadcasts one to every client from time to time, so that
the first one may have been on its way before the request was written.

A run is one of the server with its dispatch thread, and of any number of clients that call
`get_stats` and make other calls meanwhile.  In a run where every `get_stats` writes its request
while nothing older than the counters is on its way, and where no `poll_msg` takes part of a frame,
no `get_stats` returns less than the counters were when it wrote its request.
-/

namespace Cm108Driver

open Lib

/-! ## The system -/

/-- A `get_stats` that has returned: the counters when it wrote its request, and those it returned. -/
structure StatsReturn where
  rxAsked : UInt64
  txAsked : UInt64
  rxXruns : UInt64
  txXruns : UInt64

/-- The client's end of a connection: the bytes taken off the socket, the one of `recv_fd`
included, and the requests that the handler has yet to read.  The last two fields only record what
happens: the counters when the `get_stats` in progress wrote its request, and the returns so far. -/
structure Caller where
  taken : Nat
  requests : List ClientMsg
  asked : Option (UInt64 × UInt64)
  returns : List StatsReturn

def Caller.connected : Caller :=
  { taken := 1
    requests := []
    asked := none
    returns := [] }

/-- What a call does with a message: `get_stats` waits for a `Stats`, the other calls of this model
take any. -/
def Caller.receive (caller : Caller) (m : ServerMsg) : Caller :=
  match caller.asked with
  | none => caller
  | some (rxAsked, txAsked) =>
      match wantStats m with
      | some (rxXruns, txXruns, _) =>
          { caller with
            asked := none
            returns := caller.returns ++
              [{ rxAsked := rxAsked
                 txAsked := txAsked
                 rxXruns := rxXruns
                 txXruns := txXruns }] }
      | none => caller

structure CallerWorld where
  daemon : StatsWorld
  callers : ClientId → Caller

inductive CallerAct
  | daemon (a : StatsAct)
  /-- A call that writes a request and does not wait for an answer. -/
  | send (c : ClientId) (m : ClientMsg)
  /-- `get_stats` writes its request. -/
  | getStats (c : ClientId)
  /-- The next message is read, by the `get_stats` in progress or by another blocking call. -/
  | read (c : ClientId)
  /-- `poll_msg`. -/
  | poll (c : ClientId)

namespace CallerWorld

def start : CallerWorld :=
  { daemon := StatsWorld.start
    callers := fun _ => Caller.connected }

def conn (w : CallerWorld) (c : ClientId) : Connection := w.daemon.server.conns c

def setCaller (w : CallerWorld) (c : ClientId) (caller : Caller) : CallerWorld :=
  { w with callers := Function.update w.callers c caller }

/-- The handler reads the requests of its client in order. -/
def accept (w : CallerWorld) : StatsAct → Option CallerWorld
  | .server (.handler c (.request m)) =>
      match (w.callers c).requests with
      | m' :: requests =>
          if m' = m then
            some (w.setCaller c { w.callers c with requests := requests })
          else
            none
      | [] => none
  | _ => some w

/-- The client is connected and in no `get_stats`. -/
def ready (w : CallerWorld) (c : ClientId) : Bool :=
  !(w.conn c).sock.isEmpty && (w.callers c).asked.isNone

def write (w : CallerWorld) (c : ClientId) (m : ClientMsg) (asked : Option (UInt64 × UInt64)) :
    CallerWorld :=
  w.setCaller c
    { w.callers c with
      requests := (w.callers c).requests ++ [m]
      asked := asked }

/-- One `read_server_msg` on what is on the socket; a call that fails returns. -/
def read (w : CallerWorld) (c : ClientId) : Option CallerWorld :=
  let caller := w.callers c
  let bytes := (w.conn c).unread caller.taken
  match readServerMsg .blocking .alive [.data bytes] with
  | (.ok (some m), es) =>
      some (w.setCaller c
        ({ caller with taken := caller.taken + (bytes.length - (arrived es).length) }.receive m))
  | (.pending, _) => none
  | (_, es) =>
      some (w.setCaller c
        { caller with
          taken := caller.taken + (bytes.length - (arrived es).length)
          asked := none })

/-- What `poll_msg` has read is off the socket, whether it makes up a message or not. -/
def poll (w : CallerWorld) (c : ClientId) : Option CallerWorld :=
  let caller := w.callers c
  let bytes := (w.conn c).unread caller.taken
  match pollMsg .alive [.data bytes] with
  | (some _, es) =>
      some (w.setCaller c
        { caller with taken := caller.taken + (bytes.length - (arrived es).length) })
  | (none, _) => none

def step (fd : RawFd) (w : CallerWorld) : CallerAct → Option CallerWorld
  | .daemon a =>
      (w.accept a).bind fun t => (w.daemon.step fd a).map fun daemon => { t with daemon := daemon }
  | .send c m => if w.ready c ∧ m ≠ .getStats then some (w.write c m none) else none
  | .getStats c =>
      if w.ready c then
        some (w.write c .getStats (some (w.daemon.server.rxXruns, w.daemon.server.txXruns)))
      else
        none
  | .read c => w.read c
  | .poll c => if w.ready c then w.poll c else none

end CallerWorld

def callerSystem (fd : RawFd) : System CallerWorld CallerAct where
  init := CallerWorld.start
  step := CallerWorld.step fd

abbrev CallerTrace := List (CallerWorld × CallerAct)

/-! ## Values that are not too old -/

/-- The message reports no counter below these. -/
def ServerMsg.NotBefore (rxXruns txXruns : UInt64) : ServerMsg → Prop
  | .stats rx tx _ => rxXruns ≤ rx ∧ txXruns ≤ tx
  | _ => True

/-- What a handler has loaded is not below these. -/
def Serving.NotBefore (rxXruns txXruns : UInt64) : Serving → Prop
  | .rxLoaded _ rx => rxXruns ≤ rx
  | .replying m => m.NotBefore rxXruns txXruns
  | _ => True

/-- What the dispatch thread has loaded is not below these. -/
def StatsPc.NotBefore (rxXruns txXruns : UInt64) : StatsPc → Prop
  | .rxLoaded _ rx => rxXruns ≤ rx
  | .txLoaded _ rx tx => rxXruns ≤ rx ∧ txXruns ≤ tx
  | _ => True

/-- Nothing that may reach the client `c` in a `Stats` is below these: neither what is on its way,
nor what is loaded for it, nor the counters. -/
structure NothingBefore (rxXruns txXruns : UInt64) (c : ClientId) (taken : Nat) (w : StatsWorld) :
    Prop where
  counters : rxXruns ≤ w.server.rxXruns ∧ txXruns ≤ w.server.txXruns
  messages : ∀ m ∈ onWay c taken w.server, m.NotBefore rxXruns txXruns
  handler : ∀ s, (w.server.conns c).handler = .serving s → s.NotBefore rxXruns txXruns
  dispatcher : w.dispatcher.pc.NotBefore rxXruns txXruns

/-- The condition on a step: `get_stats` writes its request while no older `Stats` is on its way, no
`poll_msg` finds part of a frame, and no counter wraps. -/
def AsksCurrent (w : CallerWorld) : CallerAct → Prop
  | .getStats c =>
      NothingBefore w.daemon.server.rxXruns w.daemon.server.txXruns c (w.callers c).taken w.daemon
  | .poll c => PollClean [.data ((w.conn c).unread (w.callers c).taken)] .poll
  | .daemon .rxXrun => w.daemon.server.rxXruns + 1 ≠ 0
  | .daemon .txXrun => w.daemon.server.txXruns + 1 ≠ 0
  | _ => True

/-- No `get_stats` has returned less than the counters were when it wrote its request. -/
def StatsFresh (w : CallerWorld) : Prop :=
  ∀ c, ∀ ret ∈ (w.callers c).returns, ret.rxAsked ≤ ret.rxXruns ∧ ret.txAsked ≤ ret.txXruns

/-! ## One step of the daemon -/

theorem le_add_one {v : UInt64} (h : v + 1 ≠ 0) : v ≤ v + 1 := by
  have hne : (v + 1).toNat ≠ 0 := fun hzero => h (UInt64.toNat_inj.mp hzero)
  have hlt := v.toNat_lt
  rw [UInt64.toNat_add] at hne
  rw [UInt64.le_iff_toNat_le, UInt64.toNat_add]
  simp only [UInt64.reduceToNat] at hne ⊢
  omega

theorem Serving.notBefore_of_forStats {s : Serving} {rxXruns txXruns : UInt64}
    (h : s.forStats = false) : s.NotBefore rxXruns txXruns := by
  cases s with
  | rxLoaded lat rx => cases h
  | replying m =>
      cases m with
      | stats rx tx lat => cases h
      | _ => trivial
  | _ => trivial

section Daemon

variable {fd : RawFd} {w t : StatsWorld} {a : StatsAct} {c : ClientId} {taken : Nat}
  {str : ServerTrace}

/-- The server's part of a step keeps the frames before a client, and what gets on its way is
addressed to the client by it. -/
theorem daemon_step (hwire : WireInv (w.server.conns c) taken) (hinv : ServerInv w.server)
    (hstream : StreamAt fd c str (w.server.conns c))
    (hqueue : ∀ m ∈ (w.server.conns c).queue.items, m.Sendable) (hstep : w.step fd a = some t) :
    WireInv (t.server.conns c) taken ∧ ∀ m ∈ onWay c taken t.server,
      m ∈ onWay c taken w.server ∨ ∃ b, w.serverAct? a = some b ∧ addressed? c w.server b = some m := by
  cases hlabel : w.serverAct? a with
  | none =>
      -- the server stands still
      have hsame : t.server = w.server := (statsSimulation fd).hidden hstep hlabel
      rw [hsame]
      exact ⟨hwire, fun m hm => Or.inl hm⟩
  | some b =>
      have hserver : w.server.step fd b = some t.server := (statsSimulation fd).shown hstep hlabel
      refine ⟨hwire.step hinv hstream hqueue hserver, ?_⟩
      intro m hm
      rcases onWay_step hwire hinv hstream hqueue hserver hm with hold | hnew
      · exact Or.inl hold
      · exact Or.inr ⟨b, rfl, hnew⟩

/-- What a step addresses to a client is a reply, a broadcast of the dispatch thread or a radio
event. -/
theorem addressed_by {b : ServerAct} {m : ServerMsg} (hstep : w.step fd a = some t)
    (hlabel : w.serverAct? a = some b) (h : addressed? c w.server b = some m) :
    (w.server.conns c).handler = .serving (.replying m) ∨
      (∃ call, w.dispatcher.pc.call? = some call ∧ m = call.message) ∨ ∃ event, m = .radioEvent event := by
  unfold addressed? at h
  split at h
  · -- a broadcast begins: the dispatch thread's own, or the poller's
    rename_i call
    split at h
    · cases h
      cases statsMove_of_step hstep with
      | notify hpc hserver =>
          simp only [StatsWorld.serverAct?, hpc, StatsPc.call?, Option.map_some, Option.some.injEq,
            ServerAct.broadcast.injEq] at hlabel
          exact Or.inr (Or.inl ⟨call, by rw [hpc, ← hlabel]; rfl, rfl⟩)
      | publish hpc hserver =>
          simp only [StatsWorld.serverAct?, hpc, StatsPc.call?, Option.map_some, Option.some.injEq,
            ServerAct.broadcast.injEq] at hlabel
          exact Or.inr (Or.inl ⟨call, by rw [hpc, ← hlabel]; rfl, rfl⟩)
      | server hothers hserver =>
          cases hlabel
          cases call with
          | radioEvent event => exact Or.inr (Or.inr ⟨event, rfl⟩)
          | audioReady seq => cases hothers
          | stats rx tx lat => cases hothers
      | recordFull hpc hfull => simp [StatsWorld.serverAct?, hfull] at hlabel
      | recordOpen hpc hopen => simp [StatsWorld.serverAct?, hopen] at hlabel
      | loadRx hpc => simp [StatsWorld.serverAct?, hpc, StatsPc.call?] at hlabel
      | loadTx hpc => simp [StatsWorld.serverAct?, hpc, StatsPc.call?] at hlabel
      | reset hpc => simp [StatsWorld.serverAct?, hpc, StatsPc.call?] at hlabel
      | empty hpc => cases hlabel
      | frame seq hpc => cases hlabel
      | rxXrun => cases hlabel
      | txXrun => cases hlabel
    · cases h
  · split at h
    · exact Or.inl (Connection.reply?_eq_some.mp h)
    · cases h
  · cases h

theorem sendable_of_addressed {b : ServerAct} {m : ServerMsg} (hinv : ServerInv w.server)
    (h : addressed? c w.server b = some m) : m.Sendable := by
  rcases addressed_cases hinv h with ⟨call, _, rfl⟩ | hreply
  · exact sendable_message call
  · exact sendable_of_isReply hreply

end Daemon

namespace NothingBefore

variable {fd : RawFd} {w t : StatsWorld} {a : StatsAct} {c : ClientId} {taken : Nat}
  {str : ServerTrace} {rxXruns txXruns : UInt64}

theorem counters_step (h : NothingBefore rxXruns txXruns c taken w)
    (hrx : a = .rxXrun → w.server.rxXruns + 1 ≠ 0) (htx : a = .txXrun → w.server.txXruns + 1 ≠ 0)
    (hstep : w.step fd a = some t) :
    rxXruns ≤ t.server.rxXruns ∧ txXruns ≤ t.server.txXruns := by
  have hkeep : ∀ {server : ServerWorld}, SameCounters w.server server →
      rxXruns ≤ server.rxXruns ∧ txXruns ≤ server.txXruns := by
    intro server hsame
    rw [hsame.rxXruns, hsame.txXruns]
    exact h.counters
  cases statsMove_of_step hstep with
  | notify hpc hserver => exact hkeep (sameCounters_of_step hserver (by simp))
  | publish hpc hserver => exact hkeep (sameCounters_of_step hserver (by simp))
  | rxXrun => exact ⟨UInt64.le_trans h.counters.1 (le_add_one (hrx rfl)), h.counters.2⟩
  | txXrun => exact ⟨h.counters.1, UInt64.le_trans h.counters.2 (le_add_one (htx rfl))⟩
  | server hothers hserver => exact hkeep (sameCounters_of_others hserver hothers)
  | _ => exact h.counters

/-- What the dispatch thread broadcasts next is not older. -/
theorem call_message (h : NothingBefore rxXruns txXruns c taken w) {call : BroadcastCall}
    (hcall : w.dispatcher.pc.call? = some call) : call.message.NotBefore rxXruns txXruns := by
  have hpc := h.dispatcher
  -- `AudioReady` carries no counters, and those of a `Stats` were loaded before
  cases hd : w.dispatcher.pc with
  | written seq =>
      rw [hd] at hcall
      cases hcall
      trivial
  | txLoaded snap rx tx =>
      rw [hd] at hcall hpc
      cases hcall
      exact hpc
  | _ =>
      rw [hd] at hcall
      cases hcall

theorem step (h : NothingBefore rxXruns txXruns c taken w)
    (hrx : a = .rxXrun → w.server.rxXruns + 1 ≠ 0) (htx : a = .txXrun → w.server.txXruns + 1 ≠ 0)
    (hwire : WireInv (w.server.conns c) taken) (hinv : ServerInv w.server)
    (hstream : StreamAt fd c str (w.server.conns c))
    (hqueue : ∀ m ∈ (w.server.conns c).queue.items, m.Sendable) (hstep : w.step fd a = some t) :
    NothingBefore rxXruns txXruns c taken t where
  counters := h.counters_step hrx htx hstep
  messages := by
    intro m hm
    -- what gets on its way carries what was loaded before
    rcases (daemon_step hwire hinv hstream hqueue hstep).2 m hm with hold | ⟨b, hlabel, hnew⟩
    · exact h.messages m hold
    · rcases addressed_by hstep hlabel hnew with hreply | ⟨call, hcall, rfl⟩ | ⟨event, rfl⟩
      · exact h.handler _ hreply
      · exact h.call_message hcall
      · trivial
  handler := by
    intro s hs
    cases hfor : s.forStats with
    | false => exact Serving.notBefore_of_forStats hfor
    | true =>
        rcases statsServe_of_statsStep hinv hstep hs hfor with ⟨hold, _⟩ | ⟨s₀, _, hpc, hserve⟩
        · exact h.handler s hold
        · -- a counter that is loaded now is not older, and the other one was loaded before
          cases hserve with
          | lockLatency => trivial
          | loadRx lat => exact h.counters.1
          | loadTx lat rx => exact ⟨h.handler _ hpc, h.counters.2⟩
  dispatcher := by
    have hpc := h.dispatcher
    cases statsMove_of_step hstep with
    | empty hpolling => exact hpc
    | recordFull hnotifying hfull => trivial
    | loadRx hstored => exact h.counters.1
    | loadTx hloaded =>
        rw [hloaded] at hpc
        exact ⟨hpc, h.counters.2⟩
    | rxXrun => exact hpc
    | txXrun => exact hpc
    | server hothers hserver => exact hpc
    | _ => trivial

end NothingBefore

/-! ## One step of a client -/

@[simp] theorem Caller.receive_taken (caller : Caller) (m : ServerMsg) :
    (caller.receive m).taken = caller.taken := by
  unfold receive
  split
  · rfl
  · split
    · rfl
    · rfl

/-- A `get_stats` in progress returns, or the message is dropped. -/
theorem Caller.receive_cases (caller : Caller) (m : ServerMsg) :
    ((caller.receive m).asked = caller.asked ∧ (caller.receive m).returns = caller.returns) ∨
      ∃ rxAsked txAsked rxXruns txXruns lat, caller.asked = some (rxAsked, txAsked) ∧
        m = .stats rxXruns txXruns lat ∧ (caller.receive m).asked = none ∧
        (caller.receive m).returns = caller.returns ++
          [{ rxAsked := rxAsked
             txAsked := txAsked
             rxXruns := rxXruns
             txXruns := txXruns }] := by
  cases hasked : caller.asked with
  | none => exact Or.inl (by simp [receive, hasked])
  | some asked =>
      cases m with
      | stats rx tx lat =>
          exact Or.inr ⟨asked.1, asked.2, rx, tx, lat, rfl, rfl, by simp [receive, hasked, wantStats],
            by simp [receive, hasked, wantStats]⟩
      | _ => exact Or.inl (by simp [receive, hasked, wantStats])

/-- What a request that is read leaves as it is. -/
structure SameCall (caller caller' : Caller) : Prop where
  taken : caller'.taken = caller.taken
  asked : caller'.asked = caller.asked
  returns : caller'.returns = caller.returns

theorem SameCall.refl (caller : Caller) : SameCall caller caller := ⟨rfl, rfl, rfl⟩

namespace CallerWorld

variable {fd : RawFd} {w t : CallerWorld} {c : ClientId}

theorem setCaller_self (w : CallerWorld) (c : ClientId) (caller : Caller) :
    (w.setCaller c caller).callers c = caller :=
  Function.update_self ..

theorem accept_same {a : StatsAct} (h : w.accept a = some t) :
    t.daemon = w.daemon ∧ ∀ c, SameCall (w.callers c) (t.callers c) := by
  unfold accept at h
  split at h
  · rename_i id m
    split at h
    · split at h
      · cases h
        refine ⟨rfl, fun c => ?_⟩
        by_cases hc : c = id
        · subst hc
          rw [setCaller_self]
          exact ⟨rfl, rfl, rfl⟩
        · simpa [setCaller, hc] using SameCall.refl (w.callers c)
      · cases h
    · cases h
  · cases h
    exact ⟨rfl, fun c => SameCall.refl _⟩

theorem daemon_of_step {a : StatsAct} (h : (callerSystem fd).step w (.daemon a) = some t) :
    w.daemon.step fd a = some t.daemon ∧ ∀ c, SameCall (w.callers c) (t.callers c) := by
  rcases Option.bind_eq_some_iff.mp h with ⟨u, haccept, hrest⟩
  rcases Option.map_eq_some_iff.mp hrest with ⟨daemon, hstep, rfl⟩
  exact ⟨hstep, (accept_same haccept).2⟩

/-- What is on the socket is the frame of a message and some more bytes: the client takes the
message. -/
theorem read_frame {m : ServerMsg} {bs : List UInt8} (hm : m.Sendable)
    (h : (w.conn c).unread (w.callers c).taken = writeMsg m ++ bs) :
    w.read c = some (w.setCaller c
      ({ w.callers c with taken := (w.callers c).taken + (writeMsg m).length }.receive m)) := by
  have harr : arrived [Arrival.data (writeMsg m ++ bs)] = writeMsg m ++ bs := by simp [arrived]
  rcases read_accepts (accepts_writeMsg hm) .alive harr with ⟨es', hread, hrest⟩
  have hread' : readServerMsg .blocking .alive [.data (writeMsg m ++ bs)] = (.ok (some m), es') := hread
  simp [read, h, hread', hrest]

theorem step_read {m : ServerMsg} {bs : List UInt8} (hm : m.Sendable)
    (h : (w.conn c).unread (w.callers c).taken = writeMsg m ++ bs) :
    (callerSystem fd).step w (.read c) = some (w.setCaller c
      ({ w.callers c with taken := (w.callers c).taken + (writeMsg m).length }.receive m)) :=
  read_frame hm h

/-- A `poll_msg` on an empty socket takes nothing. -/
theorem poll_dry (h : (w.conn c).unread (w.callers c).taken = []) :
    w.poll c = some (w.setCaller c (w.callers c)) := by
  have hfree : GapFree [Arrival.data ([] : List UInt8)] := by simp [GapFree]
  have hdry := pollMsg_short Ending.alive_ne_reset hfree (by simp [arrived])
  simp [poll, h, hdry, arrived]

/-- A `poll_msg` that finds a whole frame takes it. -/
theorem poll_frame {m : ServerMsg} {bs : List UInt8} (hm : m.Sendable)
    (h : (w.conn c).unread (w.callers c).taken = writeMsg m ++ bs) :
    w.poll c = some (w.setCaller c
      { w.callers c with taken := (w.callers c).taken + (writeMsg m).length }) := by
  have hfree : GapFree [Arrival.data (writeMsg m ++ bs)] := by simp [GapFree]
  have harr : arrived [Arrival.data (writeMsg m ++ bs)] = writeMsg m ++ bs := by simp [arrived]
  rcases pollMsg_frame .alive hm hfree harr with ⟨es', hpoll, hrest, _⟩
  simp [poll, h, hpoll, hrest]

end CallerWorld

inductive CallerMove (fd : RawFd) (w : CallerWorld) : CallerAct → CallerWorld → Prop where
  | daemon {a : StatsAct} {t : CallerWorld} (hstep : w.daemon.step fd a = some t.daemon)
      (hsame : ∀ c, SameCall (w.callers c) (t.callers c)) : CallerMove fd w (.daemon a) t
  | send (c : ClientId) (m : ClientMsg) : CallerMove fd w (.send c m) (w.write c m none)
  | getStats (c : ClientId) :
      CallerMove fd w (.getStats c)
        (w.write c .getStats (some (w.daemon.server.rxXruns, w.daemon.server.txXruns)))
  | read {c : ClientId} {caller : Caller} (hread : w.read c = some (w.setCaller c caller)) :
      CallerMove fd w (.read c) (w.setCaller c caller)
  | poll {c : ClientId} {caller : Caller} (hnone : (w.callers c).asked = none)
      (hpoll : w.poll c = some (w.setCaller c caller)) :
      CallerMove fd w (.poll c) (w.setCaller c caller)

theorem callerMove_of_step {fd : RawFd} {w t : CallerWorld} {a : CallerAct}
    (h : (callerSystem fd).step w a = some t) : CallerMove fd w a t := by
  cases a with
  | daemon a =>
      rcases CallerWorld.daemon_of_step h with ⟨hstep, hsame⟩
      exact CallerMove.daemon hstep hsame
  | send c m =>
      simp only [callerSystem, CallerWorld.step] at h
      split at h
      · cases h
        exact CallerMove.send c m
      · cases h
  | getStats c =>
      simp only [callerSystem, CallerWorld.step] at h
      split at h
      · cases h
        exact CallerMove.getStats c
      · cases h
  | read c =>
      have hread : w.read c = some t := h
      -- a call that returns sets the client's end of the connection and nothing else
      have hset : ∃ caller, t = w.setCaller c caller := by
        simp only [CallerWorld.read] at hread
        split at hread
        · cases hread
          exact ⟨_, rfl⟩
        · cases hread
        · cases hread
          exact ⟨_, rfl⟩
      rcases hset with ⟨caller, rfl⟩
      exact CallerMove.read hread
  | poll c =>
      simp only [callerSystem, CallerWorld.step] at h
      split at h
      · rename_i hready
        have hnone : (w.callers c).asked = none := by
          simpa [CallerWorld.ready] using (Bool.and_eq_true_iff.mp hready).2
        have hset : ∃ caller, t = w.setCaller c caller := by
          simp only [CallerWorld.poll] at h
          split at h
          · cases h
            exact ⟨_, rfl⟩
          · cases h
        rcases hset with ⟨caller, rfl⟩
        exact CallerMove.poll hnone h
      · cases h

/-- A client whose end of the connection is in order. -/
structure CallerInv (c : ClientId) (w : CallerWorld) : Prop where
  wire : WireInv (w.conn c) (w.callers c).taken
  sendable : ∀ m ∈ onWay c (w.callers c).taken w.daemon.server, m.Sendable
  asked : ∀ rxAsked txAsked, (w.callers c).asked = some (rxAsked, txAsked) →
    NothingBefore rxAsked txAsked c (w.callers c).taken w.daemon
  returned : ∀ ret ∈ (w.callers c).returns, ret.rxAsked ≤ ret.rxXruns ∧ ret.txAsked ≤ ret.txXruns

namespace CallerInv

variable {fd : RawFd} {w t : CallerWorld} {c : ClientId} {str : ServerTrace}

theorem start (c : ClientId) : CallerInv c CallerWorld.start where
  wire := WireInv.unborn
  sendable := by
    intro m hm
    have hnone : onWay c 1 ServerWorld.start = [] :=
      congrArg (fun ms => ms ++ [] ++ []) messagesIn_nil
    rw [show onWay c (CallerWorld.start.callers c).taken CallerWorld.start.daemon.server = [] from
      hnone] at hm
    cases hm
  asked := by
    intro rxAsked txAsked hasked
    cases hasked
  returned := by
    intro ret hret
    cases hret

theorem queue_sendable (h : CallerInv c w) : ∀ m ∈ (w.conn c).queue.items, m.Sendable :=
  fun m hm => h.sendable m (List.mem_append_left _ (List.mem_append_right _ hm))

/-- A step of the daemon. -/
theorem daemon {a : StatsAct} (h : CallerInv c w) (hinv : ServerInv w.daemon.server)
    (hstream : StreamAt fd c str (w.conn c)) (hcurrent : AsksCurrent w (.daemon a))
    (hstep : w.daemon.step fd a = some t.daemon) (hsame : SameCall (w.callers c) (t.callers c)) :
    CallerInv c t := by
  have hkeep := daemon_step h.wire hinv hstream h.queue_sendable hstep
  have hrx : a = .rxXrun → w.daemon.server.rxXruns + 1 ≠ 0 := by
    rintro rfl
    exact hcurrent
  have htx : a = .txXrun → w.daemon.server.txXruns + 1 ≠ 0 := by
    rintro rfl
    exact hcurrent
  refine
    { wire := hsame.taken ▸ hkeep.1
      sendable := ?_
      asked := ?_
      returned := hsame.returns ▸ h.returned }
  · intro m hm
    rw [hsame.taken] at hm
    rcases hkeep.2 m hm with hold | ⟨b, _, hnew⟩
    · exact h.sendable m hold
    · exact sendable_of_addressed hinv hnew
  · intro rxAsked txAsked hasked
    rw [hsame.asked] at hasked
    rw [hsame.taken]
    exact (h.asked rxAsked txAsked hasked).step hrx htx h.wire hinv hstream h.queue_sendable hstep

/-- A request is written: what is on the way stays, and a `get_stats` writes it under the
condition. -/
theorem write {m : ClientMsg} {asked : Option (UInt64 × UInt64)} (h : CallerInv c w)
    (hasked : ∀ rxAsked txAsked, asked = some (rxAsked, txAsked) →
      NothingBefore rxAsked txAsked c (w.callers c).taken w.daemon) :
    CallerInv c (w.write c m asked) := by
  have htaken : ((w.write c m asked).callers c).taken = (w.callers c).taken := by
    simp [CallerWorld.write, CallerWorld.setCaller]
  refine
    { wire := htaken ▸ h.wire
      sendable := htaken ▸ h.sendable
      asked := ?_
      returned := ?_ }
  · intro rxAsked txAsked hsome
    rw [htaken]
    exact hasked rxAsked txAsked (by simpa [CallerWorld.write, CallerWorld.setCaller] using hsome)
  · simpa [CallerWorld.write, CallerWorld.setCaller] using h.returned

/-- What is unread starts a sequence of frames, and the client may take the first of them. -/
theorem frames_unread (h : CallerInv c w) (hstream : StreamAt fd c str (w.conn c)) :
    ∃ (ms : List ServerMsg) (more : List UInt8), (∀ m ∈ ms, m.Sendable) ∧
      (w.conn c).unread (w.callers c).taken ++ more = ms.flatMap writeMsg ∧
      ∀ m ms' bs, ms = m :: ms' → (w.conn c).unread (w.callers c).taken = writeMsg m ++ bs →
        WireInv (w.conn c) ((w.callers c).taken + (writeMsg m).length) := by
  by_cases hnot : (w.conn c).writer = .notStarted
  · -- a client without a writer thread has nothing but the handshake before it
    have hnone : (w.conn c).unread (w.callers c).taken = [] := by
      rw [h.wire.early hnot]
      exact unread_one_of_handshake (StreamInv.sock_length_le hstream hnot)
    refine ⟨[], [], by simp, by simp [hnone], ?_⟩
    intro m ms' bs hcons
    cases hcons
  · rcases h.wire.frames hnot with ⟨_, ms, cut, hms, hwire, hcut⟩
    refine ⟨ms, (w.conn c).writer.rest ++ cut, hms, ?_, ?_⟩
    · rw [Connection.wire, List.append_assoc] at hwire
      exact hwire
    · rintro m ms' bs rfl hbytes
      exact h.wire.behind hnot (fun x hx => hms x (List.mem_cons_of_mem m hx)) hwire hcut hbytes

/-- A read that returns has found a whole frame, and what is behind it is in order. -/
theorem frame_of_read (h : CallerInv c w) (hstream : StreamAt fd c str (w.conn c))
    (hread : w.read c = some t) :
    ∃ (m : ServerMsg) (bs : List UInt8), m.Sendable ∧
      (w.conn c).unread (w.callers c).taken = writeMsg m ++ bs ∧
      WireInv (w.conn c) ((w.callers c).taken + (writeMsg m).length) := by
  rcases h.frames_unread hstream with ⟨ms, more, hms, hunread, hbehind⟩
  rcases read_frames hms hunread with hpending | ⟨m, ms', bs, es', rfl, hbytes, _, _, _⟩
  · cases hout : readServerMsg .blocking .alive
        [.data ((w.conn c).unread (w.callers c).taken)] with
    | mk out es =>
        rw [hout] at hpending
        cases hpending
        simp [CallerWorld.read, hout] at hread
  · exact ⟨m, bs, hms m List.mem_cons_self, hbytes, hbehind m ms' bs rfl hbytes⟩

/-- A `poll_msg` that does not find part of a frame finds nothing or a whole one. -/
theorem frame_of_poll (h : CallerInv c w) (hstream : StreamAt fd c str (w.conn c))
    (hclean : PollClean [.data ((w.conn c).unread (w.callers c).taken)] .poll) :
    (w.conn c).unread (w.callers c).taken = [] ∨ ∃ (m : ServerMsg) (bs : List UInt8), m.Sendable ∧
      (w.conn c).unread (w.callers c).taken = writeMsg m ++ bs ∧
      WireInv (w.conn c) ((w.callers c).taken + (writeMsg m).length) := by
  have hready : ready [.data ((w.conn c).unread (w.callers c).taken)] =
      (w.conn c).unread (w.callers c).taken := List.append_nil _
  rcases hclean with hdry | ⟨hfour, hlen⟩
  · exact Or.inl (hready ▸ hdry)
  · right
    rcases h.frames_unread hstream with ⟨ms, more, hms, hunread, hbehind⟩
    cases ms with
    | nil =>
        have hnone := (List.append_eq_nil_iff.mp hunread).1
        rw [hready, hnone] at hfour
        cases hfour
    | cons m ms =>
        have hm := hms m List.mem_cons_self
        rw [List.flatMap_cons] at hunread
        have hpre : ready [.data ((w.conn c).unread (w.callers c).taken)] <+:
            writeMsg m ++ ms.flatMap writeMsg := ⟨more, by rw [hready, hunread]⟩
        have hwhole := whole_of_pollClean hm hpre hfour hlen
        rcases List.prefix_of_prefix_length_le (List.prefix_append _ _) hpre hwhole with ⟨bs, hbs⟩
        have hbytes := hready.symm.trans hbs.symm
        exact ⟨m, bs, hm, hbytes, hbehind m ms bs rfl hbytes⟩

/-- The message read was the first one on its way, and the others still are. -/
theorem onWay_read {m : ServerMsg} {bs : List UInt8} {taken : Nat} {w : ServerWorld}
    (hm : m.Sendable) (h : (w.conns c).unread taken = writeMsg m ++ bs) :
    onWay c taken w = m :: onWay c (taken + (writeMsg m).length) w := by
  rw [onWay, onWay, Connection.wire, Connection.wire, h, unread_behind h,
    List.append_assoc (writeMsg m), messagesIn_frame hm]
  rfl

/-- A step that is none of this client's. -/
theorem congr (h : CallerInv c w) (hdaemon : t.daemon = w.daemon)
    (hcaller : t.callers c = w.callers c) : CallerInv c t := by
  cases w
  cases t
  simp only at hdaemon
  subst hdaemon
  exact
    { wire := hcaller ▸ h.wire
      sendable := hcaller ▸ h.sendable
      asked := hcaller ▸ h.asked
      returned := hcaller ▸ h.returned }

/-- The client takes a message off the socket: the call in progress, if any, returns it or waits for
a later one. -/
theorem take {m : ServerMsg} {bs : List UInt8} {caller : Caller} (h : CallerInv c w)
    (hm : m.Sendable) (hbytes : (w.conn c).unread (w.callers c).taken = writeMsg m ++ bs)
    (hwire : WireInv (w.conn c) ((w.callers c).taken + (writeMsg m).length))
    (htaken : caller.taken = (w.callers c).taken + (writeMsg m).length)
    (hcaller : (caller.asked = (w.callers c).asked ∧ caller.returns = (w.callers c).returns) ∨
      ∃ rxAsked txAsked rxXruns txXruns lat, (w.callers c).asked = some (rxAsked, txAsked) ∧
        m = .stats rxXruns txXruns lat ∧ caller.asked = none ∧
        caller.returns = (w.callers c).returns ++
          [{ rxAsked := rxAsked
             txAsked := txAsked
             rxXruns := rxXruns
             txXruns := txXruns }]) : CallerInv c (w.setCaller c caller) := by
  have hway := onWay_read (w := w.daemon.server) hm hbytes
  have hother : ∀ x, x ∈ onWay c ((w.callers c).taken + (writeMsg m).length) w.daemon.server →
      x ∈ onWay c (w.callers c).taken w.daemon.server := by
    intro x hx
    rw [hway]
    exact List.mem_cons_of_mem m hx
  refine
    { wire := ?_
      sendable := ?_
      asked := ?_
      returned := ?_ }
  · rw [CallerWorld.setCaller_self, htaken]
    exact hwire
  · rw [CallerWorld.setCaller_self, htaken]
    exact fun x hx => h.sendable x (hother x hx)
  · rw [CallerWorld.setCaller_self, htaken]
    intro rxAsked txAsked hasked
    rcases hcaller with ⟨hsame, _⟩ | ⟨_, _, _, _, _, _, _, hnone, _⟩
    · have hnothing := h.asked rxAsked txAsked (hsame ▸ hasked)
      exact
        { counters := hnothing.counters
          messages := fun x hx => hnothing.messages x (hother x hx)
          handler := hnothing.handler
          dispatcher := hnothing.dispatcher }
    · rw [hnone] at hasked
      cases hasked
  · rw [CallerWorld.setCaller_self]
    rcases hcaller with ⟨_, hsame⟩ | ⟨rxAsked, txAsked, rxXruns, txXruns, lat, hasked, rfl, _, hmore⟩
    · rw [hsame]
      exact h.returned
    · rw [hmore]
      intro ret hret
      rcases List.mem_append.mp hret with hold | hnew
      · exact h.returned ret hold
      · -- the message that is returned was on its way, and so is not older
        rw [List.mem_singleton.mp hnew]
        have hnothing := h.asked rxAsked txAsked hasked
        exact hnothing.messages (.stats rxXruns txXruns lat) (hway ▸ List.mem_cons_self)

theorem read (h : CallerInv c w) (hstream : StreamAt fd c str (w.conn c))
    (hread : w.read c = some t) : CallerInv c t := by
  rcases h.frame_of_read hstream hread with ⟨m, bs, hm, hbytes, hwire⟩
  rw [CallerWorld.read_frame hm hbytes, Option.some.injEq] at hread
  subst hread
  exact h.take hm hbytes hwire (Caller.receive_taken _ m) (Caller.receive_cases _ m)

theorem poll (h : CallerInv c w) (hstream : StreamAt fd c str (w.conn c))
    (hclean : PollClean [.data ((w.conn c).unread (w.callers c).taken)] .poll)
    (hpoll : w.poll c = some t) : CallerInv c t := by
  rcases h.frame_of_poll hstream hclean with hnone | ⟨m, bs, hm, hbytes, hwire⟩
  · -- nothing is there, and nothing is taken
    rw [CallerWorld.poll_dry hnone, Option.some.injEq] at hpoll
    subst hpoll
    exact h.congr rfl (CallerWorld.setCaller_self ..)
  · rw [CallerWorld.poll_frame hm hbytes, Option.some.injEq] at hpoll
    subst hpoll
    exact h.take hm hbytes hwire rfl (Or.inl ⟨rfl, rfl⟩)

theorem other {c' : ClientId} {caller : Caller} (h : CallerInv c w) (hc : c ≠ c') :
    CallerInv c (w.setCaller c' caller) :=
  h.congr rfl (Function.update_of_ne hc ..)

theorem step {a : CallerAct} (h : CallerInv c w) (hinv : ServerInv w.daemon.server)
    (hstream : StreamAt fd c str (w.conn c)) (hcurrent : AsksCurrent w a)
    (hstep : (callerSystem fd).step w a = some t) : CallerInv c t := by
  cases callerMove_of_step hstep with
  | daemon hdaemon hsame => exact h.daemon hinv hstream hcurrent hdaemon (hsame c)
  | send c' m =>
      by_cases hc : c = c'
      · subst hc
        refine h.write ?_
        intro rxAsked txAsked hnone
        cases hnone
      · exact h.other hc
  | getStats c' =>
      by_cases hc : c = c'
      · subst hc
        refine h.write ?_
        intro rxAsked txAsked hasked
        cases hasked
        -- the counters that the request asks for are those of this step, by its condition
        exact hcurrent
      · exact h.other hc
  | read hread =>
      rename_i c' caller
      by_cases hc : c = c'
      · subst hc
        exact h.read hstream hread
      · exact h.other hc
  | poll hnone hpoll =>
      rename_i c' caller
      by_cases hc : c = c'
      · subst hc
        exact h.poll hstream hcurrent hpoll
      · exact h.other hc

end CallerInv

/-! ## Whole runs -/

/-- Without the steps of the clients, a run is one of the server with its dispatch thread. -/
def callerSimulation (fd : RawFd) : Simulation (callerSystem fd) (statsSystem fd) where
  proj := CallerWorld.daemon
  label := fun _ a =>
    match a with
    | .daemon a => some a
    | _ => none
  init := rfl
  hidden := by
    intro w a t hstep hlabel
    cases callerMove_of_step hstep with
    | daemon hdaemon hsame => cases hlabel
    | _ => rfl
  shown := by
    intro w a t b hstep hlabel
    cases callerMove_of_step hstep with
    | daemon hdaemon hsame =>
        cases hlabel
        exact hdaemon
    | _ => cases hlabel

theorem callerInv_of_guarded {fd : RawFd} {tr : CallerTrace} {w : CallerWorld}
    (h : Trace (callerSystem fd) tr w) (hcurrent : Guarded AsksCurrent tr) (c : ClientId) :
    CallerInv c w := by
  refine Trace.guarded (P := fun _ w => CallerInv c w) (CallerInv.start c) ?_ h hcurrent
  intro tr w a t htr hinv ha hstep
  -- the server's own invariants hold in the run without the clients
  have hdaemon := (callerSimulation fd).run htr
  exact hinv.step (serverInv_of_statsTrace hdaemon)
    (streamAt_of_trace (serverRun_of_statsTrace hdaemon) c) ha hstep

/-- In every run in which no `get_stats` writes its request while something older than the counters
is on its way to its client, and no `poll_msg` takes part of a frame: no `get_stats` returns less
than the counters were when it wrote its request. -/
theorem getStats_fresh {fd : RawFd} {tr : CallerTrace} {w : CallerWorld}
    (h : Trace (callerSystem fd) tr w) (hcurrent : Guarded AsksCurrent tr) : StatsFresh w := by
  intro c ret hret
  exact (callerInv_of_guarded h hcurrent c).returned ret hret

/-! ## A request that is answered -/

/-- Nothing is on its way at all. -/
theorem asksCurrent_of_quiet {w : CallerWorld} {c : ClientId}
    (hwire : (w.conn c).wire (w.callers c).taken = []) (hqueue : (w.conn c).queue.items = [])
    (hbroadcast : w.daemon.server.broadcast = none)
    (hhandler : (w.conn c).handler = .serving .reading)
    (hdispatcher : w.daemon.dispatcher.pc = .polling) : AsksCurrent w (.getStats c) where
  counters := ⟨UInt64.le_refl _, UInt64.le_refl _⟩
  messages := by
    intro m hm
    have hnone : onWay c (w.callers c).taken w.daemon.server = [] := by
      rw [onWay, pending_of_unlocked c hbroadcast, List.append_nil]
      exact List.append_eq_nil_iff.mpr ⟨(congrArg messagesIn hwire).trans messagesIn_nil, hqueue⟩
    rw [hnone] at hm
    cases hm
  handler := by
    intro s hs
    cases hhandler.symm.trans hs
    trivial
  dispatcher := by
    rw [hdispatcher]
    trivial

theorem asksCurrent_read (w : CallerWorld) (c : ClientId) : AsksCurrent w (.read c) := trivial

/-- Client 1 connects and is served. -/
def connectOne : List CallerAct :=
  [.daemon (.server .connect), .daemon (.server (.handler 1 .proceed)),
    .daemon (.server (.handler 1 (.sendFd true))), .daemon (.server (.handler 1 (.spawnWriter true)))]

/-- The handler of client 1 answers a `GetStats`, and the writer thread sends the reply. -/
def answerOne : List CallerAct :=
  [.daemon (.server (.handler 1 (.request .getStats))), .daemon (.server (.handler 1 .proceed)),
    .daemon (.server (.handler 1 .proceed)), .daemon (.server (.handler 1 .proceed)),
    .daemon (.server (.handler 1 .proceed)), .daemon (.server (.writer 1 .dequeue)),
    .daemon (.server (.writer 1 (.write 33)))]

/-- One overrun is counted, and client 1 asks and is told so. -/
theorem getStats_fresh_oneOverrun :
    ∃ w, GuardedRun (callerSystem 7) AsksCurrent w ∧
      (w.callers 1).returns = [{ rxAsked := 1, txAsked := 0, rxXruns := 1, txXruns := 0 }] ∧
      StatsFresh w := by
  have hcount : GuardedRun (callerSystem 7) AsksCurrent _ :=
    GuardedRun.start.snoc (a := .daemon .rxXrun) (show (0 : UInt64) + 1 ≠ 0 by decide) rfl
  have hconnect := hcount.exec connectOne (by simp [connectOne, AsksCurrent]) rfl
  have hask := hconnect.snoc (a := .getStats 1) (asksCurrent_of_quiet rfl rfl rfl rfl rfl) rfl
  have hanswer := hask.exec answerOne (by simp [answerOne, AsksCurrent]) rfl
  have hsendable : (ServerMsg.stats 1 0 LatencyStats.default).Sendable := trivial
  have hread := hanswer.snoc (asksCurrent_read _ 1)
    (CallerWorld.step_read hsendable (List.append_nil _).symm)
  refine ⟨_, hread, rfl, ?_⟩
  rcases hread with ⟨tr, htr, hcurrent⟩
  exact getStats_fresh htr hcurrent

/-! ## A broadcast that was on its way -/

/-- Steps of the daemon that no client has to do with. -/
theorem exec_daemon {fd : RawFd} {acts : List StatsAct} {w : CallerWorld} {daemon : StatsWorld}
    (hacts : ∀ a ∈ acts, ∀ c m, a ≠ .server (.handler c (.request m)))
    (hexec : (statsSystem fd).exec w.daemon acts = some daemon) :
    (callerSystem fd).exec w (acts.map CallerAct.daemon) = some { w with daemon := daemon } := by
  induction acts generalizing w with
  | nil =>
      cases hexec
      rfl
  | cons a acts ih =>
      rcases Option.bind_eq_some_iff.mp hexec with ⟨d, hstep, hrest⟩
      have haccept : w.accept a = some w := by
        unfold CallerWorld.accept
        split
        · exact absurd rfl (hacts _ List.mem_cons_self _ _)
        · rfl
      have hfirst : (callerSystem fd).step w (.daemon a) = some { w with daemon := d } := by
        have hstep' : w.daemon.step fd a = some d := hstep
        simp [callerSystem, CallerWorld.step, haccept, hstep']
      rw [List.map_cons, System.exec_cons hfirst]
      exact ih (w := { w with daemon := d }) (fun b hb => hacts b (List.mem_cons_of_mem _ hb)) hrest

/-- One frame short of a window, and nobody is connected. -/
def almostFull (histogram : LatencyHistogram) : CallerWorld :=
  { daemon :=
      { server := ServerWorld.start
        dispatcher :=
          { pc := .polling
            histogram := histogram
            ticker := 4999 } }
    callers := fun _ => Caller.connected }

/-- Client 1 connects, and the last frame of the window is announced to it. -/
def lastFrameOne : List CallerAct :=
  connectOne ++ [.daemon (.frame 0), .daemon .proceed, .daemon (.server (.visit 1)),
    .daemon (.server .endBroadcast)]

/-- Client 1 gets the broadcast of the statistics. -/
def reportOne : List CallerAct :=
  [.daemon .proceed, .daemon .proceed,
    .daemon .proceed, .daemon (.server (.visit 1)), .daemon (.server .endBroadcast),
    .daemon .proceed, .daemon (.server (.writer 1 .dequeue)), .daemon (.server (.writer 1 (.write 33))), .daemon .rxXrun, .getStats 1]

/-- The sample of the window's last frame. -/
theorem CallerWorld.step_record {fd : RawFd} {w : CallerWorld} {us : UInt32}
    (hpc : w.daemon.dispatcher.pc = .notifying) (hfree : w.daemon.server.inDispatcherCall = false)
    (hticker : w.daemon.dispatcher.ticker = 4999) :
    (callerSystem fd).step w (.daemon (.record us)) =
      some
        { w with
          daemon :=
            { server :=
                { w.daemon.server with
                  lastLatency := (w.daemon.dispatcher.histogram.record us).toStats }
              dispatcher :=
                { w.daemon.dispatcher.record us with
                  pc := .stored (w.daemon.dispatcher.histogram.record us).toStats } } } := by
  have hfull : (w.daemon.dispatcher.ticker + 1) % 5000 = 0 := by
    rw [hticker]
    decide
  have hrecord : w.daemon.step fd (.record us) = some (w.daemon.record us) := by
    simp [StatsWorld.step, hpc, hfree]
  rw [StatsWorld.record_full us hfull] at hrecord
  simp only [callerSystem, CallerWorld.step, CallerWorld.accept, hrecord, Option.bind_some,
    Option.map_some]
  rfl

theorem exec_reportOne (histogram : LatencyHistogram) :
    ∃ w, (callerSystem 7).exec (almostFull histogram)
        (lastFrameOne ++ .daemon (.record 17) :: reportOne) = some w ∧
      (w.conn 1).unread (w.callers 1).taken =
        writeMsg (.stats 0 0 (histogram.record 17).toStats) ++ [] ∧
      (w.callers 1).asked = some (1, 0) ∧ (w.callers 1).returns = [] := by
  have hframe : (callerSystem 7).exec (almostFull histogram) lastFrameOne = some _ := rfl
  -- the step that takes the snapshot is rewritten, so that the snapshot is not computed
  rw [System.exec_trans hframe, System.exec_cons (CallerWorld.step_record ?hpc ?hfree ?hticker)]
  case hpc => rfl
  case hfree => rfl
  case hticker => rfl
  exact ⟨_, rfl, rfl, rfl, rfl⟩

/-- The frames before the last one of the window, with nobody connected. -/
theorem exec_almostFull : ∃ histogram, (callerSystem 7).exec (callerSystem 7).init
    (((List.replicate 4999 17).flatMap quietFrame).map CallerAct.daemon) =
      some (almostFull histogram) := by
  have hlen : (List.replicate 4999 (17 : UInt32)).length = 4999 := List.length_replicate
  have hquiet : StatsWorld.quiet ([] ++ List.replicate 4999 17) =
      (almostFull (histogramOf (List.replicate 4999 17))).daemon := by
    rw [List.nil_append, StatsWorld.quiet, hlen]
    rfl
  have hframes := exec_quietFrames 7 [] (List.replicate 4999 17) (by
    rw [hlen, List.length_nil]
    omega)
  rw [hquiet] at hframes
  refine ⟨_, exec_daemon ?_ hframes⟩
  intro a ha c m hrequest
  rcases List.mem_flatMap.mp ha with ⟨us, _, hmem⟩
  subst hrequest
  simp [quietFrame] at hmem

/-- The first `Stats` that is read ends the `get_stats` in progress. -/
theorem CallerWorld.step_read_stats (fd : RawFd) {w : CallerWorld} {c : ClientId}
    {rxAsked txAsked rxXruns txXruns : UInt64} {snap : LatencyStats} {bs : List UInt8}
    (hasked : (w.callers c).asked = some (rxAsked, txAsked))
    (hunread : (w.conn c).unread (w.callers c).taken =
      writeMsg (.stats rxXruns txXruns snap) ++ bs) :
    ∃ t, (callerSystem fd).step w (.read c) = some t ∧
      (t.callers c).returns = (w.callers c).returns ++
        [{ rxAsked := rxAsked
           txAsked := txAsked
           rxXruns := rxXruns
           txXruns := txXruns }] := by
  have hsendable : (ServerMsg.stats rxXruns txXruns snap).Sendable := trivial
  refine ⟨_, CallerWorld.step_read hsendable hunread, ?_⟩
  simp [CallerWorld.setCaller, Caller.receive, hasked, wantStats]

/-- The overrun is counted, client 1 asks, and is told that there is none. -/
theorem getStats_stale :
    ∃ tr w, Trace (callerSystem 7) tr w ∧
      (w.callers 1).returns = [{ rxAsked := 1, txAsked := 0, rxXruns := 0, txXruns := 0 }] ∧
      ¬ StatsFresh w := by
  rcases exec_almostFull with ⟨histogram, hframes⟩
  rcases exec_reportOne histogram with ⟨w, hreport, hunread, hasked, hnone⟩
  rcases CallerWorld.step_read_stats 7 hasked hunread with ⟨t, hread, hreturns⟩
  rw [hnone, List.nil_append] at hreturns
  refine ⟨_, t, ((Trace.start.exec hframes).exec hreport).snoc hread, hreturns, ?_⟩
  intro hfresh
  have hle := (hfresh 1 _ (hreturns ▸ List.mem_singleton_self _)).1
  exact absurd hle (by decide)

end Cm108Driver
