import Cm108Driver.Types.Basic

/-!
# GpioPoller — edges out of states, and states out of edges

`emit_gpio_events` turns a change of the GPIO state into radio events.  A client that folds these
events knows the state that they were emitted for.
-/

namespace Cm108Driver

/-! ## The poller's side -/

/-- The result of `HidGpio::read_state`. -/
inductive ReadResult
  | report (state : GpioState)
  | timeout
  | error
  deriving DecidableEq, Repr

/-- The events that `emit_gpio_events` broadcasts, in order. -/
def emitGpioEvents (state prev : GpioState) : List RadioEvent :=
  let ptt := state.pin 0
  let cos := state.pin 1
  (if ptt ≠ prev.pin 0 then [if ptt then .pttAssert else .pttDeassert] else []) ++
    (if cos ≠ prev.pin 1 then [if cos then .cosActive else .cosInactive] else []) ++
    -- also for a change of another pin
    [.gpioChange state]

/-! ## The client's side -/

/-- The state of the last `GpioChange`, and PTT and COS as their edges tell. -/
structure GpioView where
  state : GpioState
  ptt : Bool
  cos : Bool
  deriving DecidableEq, Repr

namespace GpioView

/-- The view before any event. -/
def initial : GpioView :=
  { state := ⟨0⟩
    ptt := false
    cos := false }

def apply (v : GpioView) : RadioEvent → GpioView
  | .pttAssert => { v with ptt := true }
  | .pttDeassert => { v with ptt := false }
  | .cosActive => { v with cos := true }
  | .cosInactive => { v with cos := false }
  | .gpioChange state => { v with state := state }

/-- What a state looks like: PTT is bit 0 and COS is bit 1. -/
def ofState (g : GpioState) : GpioView :=
  { state := g
    ptt := g.pin 0
    cos := g.pin 1 }

theorem ofState_zero : ofState ⟨0⟩ = initial := by
  decide

/-- The events of a change take the view of the old state to the view of the new one. -/
theorem foldl_emitGpioEvents (state prev : GpioState) :
    (emitGpioEvents state prev).foldl apply (ofState prev) = ofState state := by
  have hptt : ((if state.pin 0 ≠ prev.pin 0 then
      [if state.pin 0 then RadioEvent.pttAssert else .pttDeassert] else []).foldl apply
        (ofState prev)) = { ofState prev with ptt := state.pin 0 } := by
    by_cases hsame : state.pin 0 = prev.pin 0
    · simp [hsame, ofState]
    · cases hpin : state.pin 0 <;> simp [hpin] at hsame <;> simp [hsame, apply]
  have hcos : ∀ v : GpioView, v.cos = prev.pin 1 →
      ((if state.pin 1 ≠ prev.pin 1 then
        [if state.pin 1 then RadioEvent.cosActive else .cosInactive] else []).foldl apply v) =
        { v with cos := state.pin 1 } := by
    intro v hv
    by_cases hsame : state.pin 1 = prev.pin 1
    · simp [hsame, ← hv]
    · cases hpin : state.pin 1 <;> simp [hpin] at hsame <;> simp [hsame, apply]
  unfold emitGpioEvents
  simp only [List.foldl_append, List.foldl_cons, List.foldl_nil]
  rw [hptt, hcos _ rfl]
  rfl

end GpioView

/-! ## The events among a client's messages -/

def ServerMsg.radioEvent? : ServerMsg → Option RadioEvent
  | .radioEvent event => some event
  | _ => none

/-- The view of a client that has received these messages. -/
def gpioViewOf (ms : List ServerMsg) : GpioView :=
  (ms.filterMap ServerMsg.radioEvent?).foldl GpioView.apply GpioView.initial

end Cm108Driver
