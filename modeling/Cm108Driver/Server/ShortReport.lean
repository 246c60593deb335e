import Cm108Driver.Server.EdgeLog
import Cm108Driver.Hal.HidGpio

/-!
# ShortReport — the poller on transfers that end early

`read_state` clears its buffer and does not look at the length of the transfer, so that a transfer
of no or one byte reads like a report of all pins low.  The poller then drops to state 0 and
broadcasts edges that never were, unless it stands at 0 anyway.
-/

namespace Cm108Driver

open Lib

/-! ## Interrupt transfers and what the poller sees of them -/

/-- `Ok(Some)`, `Ok(None)` and `Err` of `read_state`, as the poller's loop tells them apart. -/
def ReadResult.ofReadState : Except HalError (Option GpioState) → ReadResult
  | .ok (some state) => .report state
  | .ok none => .timeout
  | .error _ => .error

def Interrupt.result (i : Interrupt) : ReadResult := .ofReadState (HidGpio.readState i)

/-- The poller's state behind a sequence of transfers, from `prev = GpioState(0)`. -/
def pollerState (is : List Interrupt) : GpioState :=
  pollPrev serverRound ⟨0⟩ (is.map Interrupt.result)

/-- The GPIO byte of the last transfer that contained one, 0 if there was none. -/
def lastGpioByte (is : List Interrupt) : GpioState :=
  (is.filterMap Interrupt.gpioByte?).getLastD ⟨0⟩

/-- What the poller should do with a sequence of transfers: its state is always the last GPIO byte,
and a transfer without one broadcasts nothing and leaves the state. -/
structure RealReportsOnly (is : List Interrupt) : Prop where
  state : ∀ {is'}, is' <+: is → pollerState is' = lastGpioByte is'
  short : ∀ {is' i}, is' ++ [i] <+: is → i.Short →
    (serverRound (pollerState is') i.result).1 = [] ∧ pollerState (is' ++ [i]) = pollerState is'

/-- A transfer without a GPIO byte comes only when the last GPIO byte was 0, or before any. -/
def ShortAtZero (is : List Interrupt) : Prop :=
  ∀ is' i, is' ++ [i] <+: is → i.Short → lastGpioByte is' = ⟨0⟩

/-! ## One transfer -/

theorem pollerState_snoc (is : List Interrupt) (i : Interrupt) :
    pollerState (is ++ [i]) = (i.result.report?).getD (pollerState is) := by
  simp [pollerState, pollPrev, serverRound_prev]

theorem lastGpioByte_snoc (is : List Interrupt) (i : Interrupt) :
    lastGpioByte (is ++ [i]) = (i.gpioByte?).getD (lastGpioByte is) := by
  cases h : i.gpioByte? with
  | none => simp [lastGpioByte, h]
  | some g => simp [lastGpioByte, h]

theorem gpioByte?_of_short {i : Interrupt} (h : i.Short) : i.gpioByte? = none := by
  cases i with
  | ok bytes fits =>
      have hlen : bytes.length ≤ 1 := Nat.le_of_lt_succ h
      simp [Interrupt.gpioByte?, hlen]
  | error e => exact h.elim

/-- A short transfer is a report of state 0 to the poller. -/
theorem result_of_short {i : Interrupt} (h : i.Short) : i.result = .report ⟨0⟩ := by
  cases i with
  | ok bytes fits =>
      rw [Interrupt.result, HidGpio.readState_ok, gpioByte?_of_short h]
      rfl
  | error e => exact h.elim

/-- Any other transfer is its GPIO byte, and an error or a time-out is no report. -/
theorem report?_result {i : Interrupt} (h : ¬ i.Short) : i.result.report? = i.gpioByte? := by
  cases i with
  | ok bytes fits =>
      have hlen : 1 < bytes.length := Nat.lt_of_not_le fun hle => h (Nat.lt_succ_of_le hle)
      have hbyte : (Interrupt.ok bytes fits).gpioByte? = some ⟨bytes[1]⟩ := by
        simp [Interrupt.gpioByte?, hlen]
      rw [Interrupt.result, HidGpio.readState_ok, hbyte]
      rfl
  | error e =>
      cases e with
      | timeout => rfl
      | other code => rfl

/-! ## The whole sequence -/

/-- Where short transfers come at 0 only, the state is the last GPIO byte throughout. -/
theorem pollerState_eq {is : List Interrupt} (hzero : ShortAtZero is) :
    pollerState is = lastGpioByte is := by
  -- the last transfer decides
  induction is using List.reverseRecOn with
  | nil => rfl
  | append_singleton is i ih =>
      have hbefore : pollerState is = lastGpioByte is :=
        ih fun is' j hpre => hzero is' j (hpre.trans (List.prefix_append _ _))
      rw [pollerState_snoc, lastGpioByte_snoc, hbefore]
      by_cases hshort : i.Short
      · -- what the poller sees is state 0, which is the last GPIO byte
        rw [result_of_short hshort, gpioByte?_of_short hshort,
          hzero is i List.prefix_rfl hshort]
        rfl
      · rw [report?_result hshort]

/-- Only real reports move the poller's state exactly when every transfer that ends before its GPIO
byte comes while the last GPIO byte is 0. -/
theorem realReportsOnly_iff (is : List Interrupt) : RealReportsOnly is ↔ ShortAtZero is := by
  constructor
  · intro h is' i hpre hshort
    have hbefore : is' <+: is := (List.prefix_append _ _).trans hpre
    -- The short transfer has set the state to 0, and should have left it.
    calc
      lastGpioByte is' = pollerState is' := (h.state hbefore).symm
      _ = pollerState (is' ++ [i]) := (h.short hpre hshort).2.symm
      _ = ⟨0⟩ := by
            rw [pollerState_snoc, result_of_short hshort]
            rfl
  · intro hzero
    have hstate : ∀ {is'}, is' <+: is → pollerState is' = lastGpioByte is' := fun hpre =>
      pollerState_eq fun is'' i hpre' => hzero is'' i (hpre'.trans hpre)
    refine ⟨hstate, ?_⟩
    intro is' i hpre hshort
    -- a report of 0 over the state 0 is no change
    have hbefore : pollerState is' = ⟨0⟩ := by
      rw [hstate ((List.prefix_append _ _).trans hpre)]
      exact hzero is' i hpre hshort
    rw [pollerState_snoc, result_of_short hshort, hbefore]
    exact ⟨by simp [serverRound], rfl⟩

/-- A report of PTT high, then a transfer of no byte. -/
def emptyTransfer : List Interrupt := [.ok [0, 1, 0, 0] (by decide), .ok [] (by decide)]

/-- The empty transfer broadcasts a `PttDeassert` and sets the state to 0. -/
theorem realReportsOnly_fails :
    lastGpioByte emptyTransfer = ⟨1⟩ ∧ pollerState emptyTransfer = ⟨0⟩ ∧
      serverLog (emptyTransfer.map Interrupt.result) =
        [.pttAssert, .gpioChange ⟨1⟩, .pttDeassert, .gpioChange ⟨0⟩] ∧
      ¬ RealReportsOnly emptyTransfer := by
  refine ⟨rfl, rfl, by decide, fun h => ?_⟩
  have hstate : (⟨0⟩ : GpioState) = ⟨1⟩ := h.state List.prefix_rfl
  exact absurd hstate (by decide)

/-! ## In a run of the daemon -/

/-- In every run, whatever the other threads do: a poller back at `read_state` has the state of the
transfers it has read, and has broadcast their log. -/
theorem pollerState_of_trace {fd : RawFd} {tr : MonitorTrace} {w : MonitorWorld}
    (h : Trace (monitorSystem fd) tr w) {is : List Interrupt}
    (his : pollResults tr = is.map Interrupt.result) (hpc : w.poller.pc = .polling) :
    w.poller.prev = pollerState is ∧ emitted tr = serverLog (is.map Interrupt.result) := by
  rcases (logInv_of_trace h).polling hpc with ⟨hlog, hprev⟩
  rw [his] at hlog hprev
  refine ⟨?_, hlog⟩
  rw [hprev, pollerState, pollPrev_eq]
  rfl

end Cm108Driver
