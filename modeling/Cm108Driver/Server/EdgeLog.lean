import Cm108Driver.Server.Convergence
import Mathlib.Data.List.Destutter

/-!
# EdgeLog — what the two GPIO pollers produce

The daemon polls the HID interface in a loop of its own, and the HAL has a second poller,
`spawn_gpio_poller`, that sends its events into a channel.  Both keep the last reported state in
`prev` and turn a changed state into edges.  Their logs are the same list, and the edges of each
pin in it are the changes of that pin in the sequence of reports.
-/

namespace Cm108Driver

open Lib

/-! ## The two loop bodies -/

/-- One round of a poller: from `prev` and the result of `read_state`, the events in the order
produced and the new `prev`. -/
abbrev PollerRound := GpioState → ReadResult → List RadioEvent × GpioState

/-- The poller thread of `server.rs`. -/
def serverRound : PollerRound
  | prev, .report state =>
      if state ≠ prev then (emitGpioEvents state prev, state) else ([], prev)
  | prev, .timeout => ([], prev)
  | prev, .error => ([], prev)

/-- `spawn_gpio_poller`: one send after the other. -/
def halRound : PollerRound
  | prev, .report state =>
      if state ≠ prev then
        let sent := []
        let sent :=
          if state.pin 0 ≠ prev.pin 0 then
            sent ++ [if state.pin 0 then .pttAssert else .pttDeassert]
          else
            sent
        let sent :=
          if state.pin 1 ≠ prev.pin 1 then
            sent ++ [if state.pin 1 then .cosActive else .cosInactive]
          else
            sent
        (sent ++ [.gpioChange state], state)
      else
        ([], prev)
  | prev, .timeout => ([], prev)
  | prev, .error => ([], prev)

/-- The loop around a round. -/
def pollLoop (round : PollerRound) : GpioState → List ReadResult → List RadioEvent
  | _, [] => []
  | prev, r :: rs => (round prev r).1 ++ pollLoop round (round prev r).2 rs

/-- `prev` behind the loop. -/
def pollPrev (round : PollerRound) (prev : GpioState) (rs : List ReadResult) : GpioState :=
  rs.foldl (fun p r => (round p r).2) prev

/-- The log of the daemon's poller, which starts from `prev = GpioState(0)`. -/
def serverLog (rs : List ReadResult) : List RadioEvent := pollLoop serverRound ⟨0⟩ rs

/-- The log of `spawn_gpio_poller`, which starts from `prev = GpioState(0)`. -/
def halLog (rs : List ReadResult) : List RadioEvent := pollLoop halRound ⟨0⟩ rs

/-- The two bodies do the same. -/
theorem halRound_eq : halRound = serverRound := by
  funext prev r
  cases r with
  | report state =>
      by_cases hsame : state = prev
      · simp [halRound, serverRound, hsame]
      · simp only [halRound, serverRound, if_pos hsame, emitGpioEvents, List.nil_append]
        split
        · split
          · rfl
          · rfl
        · split
          · rfl
          · rfl
  | timeout => rfl
  | error => rfl

theorem halLog_eq (rs : List ReadResult) : halLog rs = serverLog rs := by
  rw [halLog, halRound_eq, serverLog]

/-! ## Reports -/

def ReadResult.report? : ReadResult → Option GpioState
  | .report state => some state
  | _ => none

/-- The states reported, in order. -/
def reports (rs : List ReadResult) : List GpioState := rs.filterMap ReadResult.report?

/-- The last state reported, `GpioState(0)` before any report. -/
def lastReport (rs : List ReadResult) : GpioState := (reports rs).getLastD ⟨0⟩

theorem pollLoop_append (round : PollerRound) (prev : GpioState) (rs rs' : List ReadResult) :
    pollLoop round prev (rs ++ rs') =
      pollLoop round prev rs ++ pollLoop round (pollPrev round prev rs) rs' := by
  induction rs generalizing prev with
  | nil => rfl
  | cons r rs ih => simp [pollLoop, pollPrev, ih, List.append_assoc]

/-- Whatever was reported last is in `prev`, also when the round produced nothing. -/
theorem serverRound_prev (prev : GpioState) (r : ReadResult) :
    (serverRound prev r).2 = (r.report?).getD prev := by
  cases r with
  | report state =>
      by_cases hsame : state = prev
      · simp [serverRound, ReadResult.report?, hsame]
      · simp [serverRound, ReadResult.report?, hsame]
  | timeout => rfl
  | error => rfl

theorem pollPrev_eq (prev : GpioState) (rs : List ReadResult) :
    pollPrev serverRound prev rs = (reports rs).getLastD prev := by
  induction rs generalizing prev with
  | nil => rfl
  | cons r rs ih =>
      have hstep : pollPrev serverRound prev (r :: rs) =
          pollPrev serverRound ((r.report?).getD prev) rs := by
        rw [← serverRound_prev]
        rfl
      rw [hstep, ih]
      cases r with
      | report state => exact List.getLastD_cons.symm
      | timeout => rfl
      | error => rfl

theorem serverLog_snoc (rs : List ReadResult) (r : ReadResult) :
    serverLog (rs ++ [r]) = serverLog rs ++ (serverRound (lastReport rs) r).1 := by
  simp [serverLog, pollLoop_append, pollPrev_eq, lastReport, pollLoop]

/-! ## The shape of a round -/

/-- A PTT edge, as the level behind it. -/
def RadioEvent.pttLevel? : RadioEvent → Option Bool
  | .pttAssert => some true
  | .pttDeassert => some false
  | _ => none

/-- A COS edge, as the level behind it. -/
def RadioEvent.cosLevel? : RadioEvent → Option Bool
  | .cosActive => some true
  | .cosInactive => some false
  | _ => none

/-- Nothing without a change; on a change at most one PTT edge, then at most one COS edge, then the
new state. -/
def RoundShape (prev : GpioState) (events : List RadioEvent) : ReadResult → Prop
  | .report state =>
      if state = prev then
        events = []
      else
        ∃ ptt cos : List RadioEvent, events = ptt ++ cos ++ [.gpioChange state] ∧
          (ptt = [] ∨ ptt = [.pttAssert] ∨ ptt = [.pttDeassert]) ∧
          (cos = [] ∨ cos = [.cosActive] ∨ cos = [.cosInactive])
  | .timeout => events = []
  | .error => events = []

/-- An optional edge. -/
theorem edge_cases (p : Prop) [Decidable p] (level : Bool) (rise fall : RadioEvent) :
    (if p then [if level then rise else fall] else []) = [] ∨
      (if p then [if level then rise else fall] else []) = [rise] ∨
      (if p then [if level then rise else fall] else []) = [fall] := by
  by_cases h : p
  · cases level with
    | true => simp [h]
    | false => simp [h]
  · simp [h]

theorem serverRound_shape (prev : GpioState) (r : ReadResult) :
    RoundShape prev (serverRound prev r).1 r := by
  cases r with
  | report state =>
      by_cases hsame : state = prev
      · simp [RoundShape, serverRound, hsame]
      · simp only [RoundShape, serverRound, if_pos hsame, if_neg hsame]
        exact ⟨_, _, rfl, edge_cases .., edge_cases ..⟩
  | timeout => rfl
  | error => rfl

/-! ## Edges -/

theorem pttLevels_round (prev state : GpioState) :
    (serverRound prev (.report state)).1.filterMap RadioEvent.pttLevel? =
      if state.pin 0 = prev.pin 0 then [] else [state.pin 0] := by
  by_cases hsame : state = prev
  · simp [serverRound, hsame]
  · have hcos : (if state.pin 1 ≠ prev.pin 1 then
        [if state.pin 1 then RadioEvent.cosActive else .cosInactive] else []).filterMap
          RadioEvent.pttLevel? = [] := by
      split
      · cases state.pin 1 <;> rfl
      · rfl
    simp only [serverRound, if_pos hsame, emitGpioEvents, List.filterMap_append, hcos]
    by_cases hpin : state.pin 0 = prev.pin 0
    · simp [hpin, RadioEvent.pttLevel?]
    · cases hlevel : state.pin 0 <;> simp [hlevel] at hpin <;> simp [hpin, RadioEvent.pttLevel?]

theorem cosLevels_round (prev state : GpioState) :
    (serverRound prev (.report state)).1.filterMap RadioEvent.cosLevel? =
      if state.pin 1 = prev.pin 1 then [] else [state.pin 1] := by
  by_cases hsame : state = prev
  · simp [serverRound, hsame]
  · have hptt : (if state.pin 0 ≠ prev.pin 0 then
        [if state.pin 0 then RadioEvent.pttAssert else .pttDeassert] else []).filterMap
          RadioEvent.cosLevel? = [] := by
      split
      · cases state.pin 0 <;> rfl
      · rfl
    simp only [serverRound, if_pos hsame, emitGpioEvents, List.filterMap_append, hptt]
    by_cases hpin : state.pin 1 = prev.pin 1
    · simp [hpin, RadioEvent.cosLevel?]
    · cases hlevel : state.pin 1 <;> simp [hlevel] at hpin <;> simp [hpin, RadioEvent.cosLevel?]

/-- The edges of a pin are the changes of that pin in the sequence of reports. -/
theorem levels_pollLoop {n : UInt8} {level? : RadioEvent → Option Bool}
    (hround : ∀ prev state, (serverRound prev (.report state)).1.filterMap level? =
      if state.pin n = prev.pin n then [] else [state.pin n])
    (prev : GpioState) (rs : List ReadResult) :
    prev.pin n :: (pollLoop serverRound prev rs).filterMap level? =
      ((reports rs).map fun state => state.pin n).destutter' (· ≠ ·) (prev.pin n) := by
  induction rs generalizing prev with
  | nil => rfl
  | cons r rs ih =>
      cases r with
      | report state =>
          have hprev : (serverRound prev (.report state)).2 = state :=
            serverRound_prev prev (.report state)
          have hreports : reports (.report state :: rs) = state :: reports rs := rfl
          simp only [pollLoop, List.filterMap_append, hround, hprev, hreports, List.map_cons]
          by_cases hpin : state.pin n = prev.pin n
          · rw [List.destutter'_cons_neg _ (by simp [hpin]), ← hpin, ← ih state]
            simp
          · rw [List.destutter'_cons_pos _ (Ne.symm hpin), ← ih state]
            simp [hpin]
      | timeout => exact ih prev
      | error => exact ih prev

/-! ## The state behind the log -/

/-- Folding the log knows `prev`, hence the last report. -/
theorem foldl_pollLoop (prev : GpioState) (rs : List ReadResult) :
    (pollLoop serverRound prev rs).foldl GpioView.apply (GpioView.ofState prev) =
      GpioView.ofState ((reports rs).getLastD prev) := by
  induction rs generalizing prev with
  | nil => rfl
  | cons r rs ih =>
      -- a round takes the view of the state before it to that of the state behind it
      have hround : (serverRound prev r).1.foldl GpioView.apply (GpioView.ofState prev) =
          GpioView.ofState (serverRound prev r).2 := by
        cases r with
        | report state =>
            by_cases hsame : state = prev
            · simp [serverRound, hsame]
            · simp only [serverRound, if_pos hsame]
              exact GpioView.foldl_emitGpioEvents state prev
        | timeout => rfl
        | error => rfl
      calc
        (pollLoop serverRound prev (r :: rs)).foldl GpioView.apply (GpioView.ofState prev)
            = (pollLoop serverRound (serverRound prev r).2 rs).foldl GpioView.apply
                (GpioView.ofState (serverRound prev r).2) := by
            rw [pollLoop, List.foldl_append, hround]
        _ = GpioView.ofState ((reports rs).getLastD (serverRound prev r).2) := ih _
        _ = GpioView.ofState ((reports (r :: rs)).getLastD prev) := by
            rw [← pollPrev_eq, ← pollPrev_eq]
            rfl

/-- `pin n` is the bit `n % 8` of the state. -/
theorem GpioState.pin_eq_bit (g : GpioState) (n : UInt8) :
    g.pin n = g.bits.toBitVec.getLsbD (n.toNat % 8) := by
  have hlt : n.toNat % 8 < 8 := Nat.mod_lt _ (by decide)
  have hone : ((1 : UInt8) <<< n).toBitVec = BitVec.twoPow 8 (n.toNat % 8) := by
    rw [UInt8.toBitVec_shiftLeft, BitVec.shiftLeft_eq', BitVec.twoPow_eq]
    simp
  -- the mask has this one bit and no other
  have hand : (g.bits &&& (1 : UInt8) <<< n).toBitVec =
      if g.bits.toBitVec.getLsbD (n.toNat % 8) then BitVec.twoPow 8 (n.toNat % 8) else 0#8 := by
    rw [UInt8.toBitVec_and, hone, BitVec.and_twoPow]
  cases hbit : g.bits.toBitVec.getLsbD (n.toNat % 8) with
  | true =>
      have hne : g.bits &&& (1 : UInt8) <<< n ≠ 0 := by
        intro hzero
        rw [hzero, hbit, if_pos rfl] at hand
        have hset := congrArg (fun x => x.getLsbD (n.toNat % 8)) hand
        simp [hlt] at hset
      simpa [GpioState.pin] using hne
  | false =>
      rw [hbit] at hand
      have hzero : g.bits &&& (1 : UInt8) <<< n = 0 := UInt8.toBitVec_inj.1 hand
      simp [GpioState.pin, hzero]

/-- For every sequence of poll results: the two pollers produce the same log; every further result
adds a round of the documented shape; the edges of each pin alternate, the first one rising; and
the log folded is the last report. -/
theorem edgeLog_faithful (rs : List ReadResult) :
    halLog rs = serverLog rs ∧
      (∀ r, ∃ events, serverLog (rs ++ [r]) = serverLog rs ++ events ∧
        RoundShape (lastReport rs) events r) ∧
      (false :: (serverLog rs).filterMap RadioEvent.pttLevel?).IsChain (· ≠ ·) ∧
      (false :: (serverLog rs).filterMap RadioEvent.cosLevel?).IsChain (· ≠ ·) ∧
      (serverLog rs).foldl GpioView.apply GpioView.initial =
        { state := lastReport rs
          ptt := (lastReport rs).bits.toBitVec.getLsbD 0
          cos := (lastReport rs).bits.toBitVec.getLsbD 1 } := by
  refine ⟨halLog_eq rs, ?_, ?_, ?_, ?_⟩
  · intro r
    exact ⟨_, serverLog_snoc rs r, serverRound_shape (lastReport rs) r⟩
  · have hedges := levels_pollLoop pttLevels_round ⟨0⟩ rs
    have hlow : (⟨0⟩ : GpioState).pin 0 = false := by decide
    rw [hlow] at hedges
    rw [serverLog, hedges]
    exact List.isChain_destutter' _ _ _
  · have hedges := levels_pollLoop cosLevels_round ⟨0⟩ rs
    have hlow : (⟨0⟩ : GpioState).pin 1 = false := by decide
    rw [hlow] at hedges
    rw [serverLog, hedges]
    exact List.isChain_destutter' _ _ _
  · have hview := foldl_pollLoop ⟨0⟩ rs
    rw [GpioView.ofState_zero] at hview
    rw [serverLog, hview]
    simp only [GpioView.ofState, GpioState.pin_eq_bit]
    rfl

/-! ## The log in a run of the daemon -/

section Runs

variable {fd : RawFd} {tr : MonitorTrace} {w t : MonitorWorld} {a : MonitorAct}

def pollResult? : MonitorAct → Option ReadResult
  | .poll r => some r
  | _ => none

/-- The results of `read_state` in a run. -/
def pollResults (tr : MonitorTrace) : List ReadResult :=
  tr.filterMap fun p => pollResult? p.2

theorem pollResults_snoc (tr : MonitorTrace) (w : MonitorWorld) (a : MonitorAct) :
    pollResults (tr ++ [(w, a)]) = pollResults tr ++ (pollResult? a).toList :=
  filterMap_snoc _ tr (w, a)

/-- What has been broadcast, with what is still to be broadcast of the current change, is the log
of the poll results so far. -/
structure LogInv (tr : MonitorTrace) (w : MonitorWorld) : Prop where
  polling : w.poller.pc = .polling →
    emitted tr = serverLog (pollResults tr) ∧ w.poller.prev = lastReport (pollResults tr)
  emitting : ∀ state rest, w.poller.pc = .emitting state rest →
    emitted tr ++ rest = serverLog (pollResults tr) ∧ state = lastReport (pollResults tr)

theorem lastReport_snoc (rs : List ReadResult) (r : ReadResult) :
    lastReport (rs ++ [r]) = (r.report?).getD (lastReport rs) := by
  cases r with
  | report state => simp [lastReport, reports, ReadResult.report?]
  | timeout => simp [lastReport, reports, ReadResult.report?]
  | error => simp [lastReport, reports, ReadResult.report?]

/-- A poll of the monitor is one round of the log: it leaves the poller where it is, or has it emit
the events of the round. -/
theorem MonitorWorld.poll_round (w : MonitorWorld) (r : ReadResult) :
    (w.poll r = w ∧ serverRound w.poller.prev r = ([], w.poller.prev)) ∨
      w.poll r = { w with
        poller := { w.poller with
          pc := .emitting (serverRound w.poller.prev r).2 (serverRound w.poller.prev r).1 } } := by
  cases r with
  | report state =>
      by_cases hsame : state = w.poller.prev
      · exact Or.inl ⟨by simp [MonitorWorld.poll, hsame], by simp [serverRound, hsame]⟩
      · right
        simp [MonitorWorld.poll, serverRound, hsame]
  | timeout => exact Or.inl ⟨rfl, rfl⟩
  | error => exact Or.inl ⟨rfl, rfl⟩

theorem LogInv.poll (h : LogInv tr w) (hpc : w.poller.pc = .polling) (r : ReadResult) :
    LogInv (tr ++ [(w, .poll r)]) (w.poll r) := by
  rcases h.polling hpc with ⟨hlog, hprev⟩
  have hsame : emitted (tr ++ [(w, .poll r)]) = emitted tr := by
    simp [emitted_snoc, emitted?]
  have hresults : pollResults (tr ++ [(w, .poll r)]) = pollResults tr ++ [r] :=
    pollResults_snoc tr w (.poll r)
  have hround : serverLog (pollResults (tr ++ [(w, .poll r)])) =
      emitted tr ++ (serverRound w.poller.prev r).1 := by
    rw [hresults, serverLog_snoc, hlog, hprev]
  have hlast : lastReport (pollResults (tr ++ [(w, .poll r)])) =
      (serverRound w.poller.prev r).2 := by
    rw [hresults, lastReport_snoc, serverRound_prev, hprev]
  rcases w.poll_round r with ⟨hpoll, hquiet⟩ | hpoll
  · -- a poll that brings no change adds nothing to the log
    rw [hquiet] at hround hlast
    rw [hpoll]
    refine ⟨fun _ => ⟨?_, hlast.symm⟩, fun state rest hemit => ?_⟩
    · rw [hsame, hround, List.append_nil]
    · rw [hpc] at hemit
      cases hemit
  · -- the events of a change are logged at once and broadcast one by one
    rw [hpoll]
    refine ⟨fun hpolling => (by cases hpolling), fun state rest hemit => ?_⟩
    cases hemit
    exact ⟨by rw [hsame, hround], hlast.symm⟩

theorem LogInv.step (h : LogInv tr w) (hmove : MonitorMove fd w a t) :
    LogInv (tr ++ [(w, a)]) t := by
  cases hmove with
  | poll r hpc => exact h.poll hpc r
  | emit hpc hserver =>
      rcases h.emitting _ _ hpc with ⟨hlog, hstate⟩
      refine ⟨fun hpolling => (by cases hpolling), ?_⟩
      intro state' rest hemit
      cases hemit
      simpa [emitted_snoc, pollResults_snoc, pollResult?, emitted?, Poller.event?, hpc] using
        And.intro hlog hstate
  | settle hpc hdone =>
      -- the last event is out, and the state becomes the one to compare with
      rcases h.emitting _ _ hpc with ⟨hlog, hstate⟩
      refine ⟨fun _ => ?_, fun state' rest hemit => (by cases hemit)⟩
      simpa [emitted_snoc, pollResults_snoc, pollResult?, emitted?] using And.intro hlog hstate
  | server hother hserver =>
      constructor
      · intro hpolling
        simpa [emitted_snoc, pollResults_snoc, pollResult?, emitted?] using h.polling hpolling
      · intro state rest hemit
        simpa [emitted_snoc, pollResults_snoc, pollResult?, emitted?] using
          h.emitting state rest hemit

/-- In every run of the daemon the poller broadcasts its log, whatever the other threads do. -/
theorem logInv_of_trace (h : Trace (monitorSystem fd) tr w) : LogInv tr w := by
  induction h with
  | start => exact ⟨fun _ => ⟨rfl, rfl⟩, fun state rest hemit => (by cases hemit)⟩
  | snoc htr hstep ih => exact ih.step (monitorMove_of_step hstep)

end Runs

end Cm108Driver
