import Cm108Driver.Server.GpioOutput

/-!
# FailedWrites — what a failed `set_pin` leaves behind

`set_pin` changes the register and then transmits it; it has no way back when the transfer fails.
The register holds what was asked for, and the next report of any caller carries it: the level of
each pin in a report is that of the last call for the pin, whatever that call returned.
-/

namespace Cm108Driver

open Lib

/-! ## The calls of a run with their outcomes -/

/-- The device handle that an action's call of `set_pin` uses. -/
def GpioAct.handle : GpioAct → WriteControl
  | .client _ _ handle => handle
  | .heartbeat handle => handle

namespace GpioWorld

/-- What the call of `set_pin` returns. -/
def returned? (w : GpioWorld) (a : GpioAct) : Option (Except HalError Unit) :=
  (w.request? a).map fun r => (w.gpio.setPin a.handle r.pin r.high).2

/-- The output report that the action transmits: the one its call hands to the device, if the
transfer succeeds. -/
def transmitted? (w : GpioWorld) (a : GpioAct) : Option ControlTransfer :=
  (w.request? a).bind fun r =>
    let report := (w.gpio.setPin a.handle r.pin r.high).1.report
    match a.handle report with
    | .ok _ => some report
    | .error _ => none

end GpioWorld

/-- The level of a pin in an output report, whose byte 1 is the register. -/
def ControlTransfer.pinLevel (t : ControlTransfer) (p : Nat) : Bool :=
  (t.data.getD 1 0).toBitVec.getLsbD p

/-- The calls that returned `Ok`. -/
def okRequests (tr : List (GpioWorld × GpioAct)) : List PinRequest :=
  tr.filterMap fun p =>
    match p.1.returned? p.2 with
    | some (.ok ()) => p.1.request? p.2
    | _ => none

/-- Every call is for a pin in `0..3`. -/
def PinInRange (w : GpioWorld) (a : GpioAct) : Prop :=
  ∀ r, w.request? a = some r → r.pin.toNat < 4

/-- A failed call leaves the register, and every report transmitted carries for each pin the last
call that returned `Ok`. -/
structure FailuresLeaveNoTrace (tr : List (GpioWorld × GpioAct)) : Prop where
  register : ∀ p ∈ tr, ∀ e, p.1.returned? p.2 = some (.error e) → (p.1.next p.2).gpio = p.1.gpio
  reports : ∀ {pre p}, pre ++ [p] <+: tr → ∀ t, p.1.transmitted? p.2 = some t →
    ∀ q, q < 4 → t.pinLevel q = lastRequest (okRequests (pre ++ [p])) q

/-- A call that fails has set its own bit, and no other, as one that succeeds, and every report
transmitted carries for each pin the last call, whatever it returned. -/
structure FailuresCount (tr : List (GpioWorld × GpioAct)) : Prop where
  register : ∀ p ∈ tr, ∀ r, p.1.request? p.2 = some r → ∀ q, q < 8 →
    (p.1.next p.2).gpio.bit q = if q = r.pin.toNat then r.high else p.1.gpio.bit q
  reports : ∀ {pre p}, pre ++ [p] <+: tr → ∀ t, p.1.transmitted? p.2 = some t →
    ∀ q, q < 4 → t.pinLevel q = lastRequest (pinRequests (pre ++ [p])) q

/-! ## One call -/

@[simp] theorem HidGpio.pinLevel_report (g : HidGpio) (p : Nat) : g.report.pinLevel p = g.bit p :=
  rfl

/-- An action with a call leaves the register of the call, with the outcome of the transfer. -/
theorem GpioWorld.next_gpio_of_request {w : GpioWorld} {a : GpioAct} {r : PinRequest}
    (h : w.request? a = some r) :
    (w.next a).gpio = (w.gpio.setPin a.handle r.pin r.high).1 := by
  cases a with
  | heartbeat handle =>
      cases h
      rfl
  | client id payload handle =>
      cases hm : fromBytes ClientMsg payload with
      | none => simp [request?, hm] at h
      | some m =>
          cases m with
          | setGpio pin high =>
              have hr : r = { pin := pin, high := high } := by simpa [request?, hm] using h.symm
              subst hr
              simp [next, hm, GpioAct.handle]
          | _ => simp [request?, hm] at h

/-- What is transmitted is the register behind the call. -/
theorem GpioWorld.report_of_transmitted {w : GpioWorld} {a : GpioAct} {t : ControlTransfer}
    (h : w.transmitted? a = some t) : t = (w.next a).gpio.report := by
  rcases Option.bind_eq_some_iff.mp h with ⟨r, hr, ht⟩
  -- `set_pin` changes the register first and then reports it
  rw [next_gpio_of_request hr]
  cases hres : a.handle (w.gpio.setPin a.handle r.pin r.high).1.report with
  | ok n => simpa [hres] using ht.symm
  | error e => simp [hres] at ht

/-! ## Whole runs -/

/-- In every run of calls for pins in `0..3`, with any outcomes of the transfers. -/
theorem failuresCount_of_trace {tr : List (GpioWorld × GpioAct)} {w : GpioWorld}
    (h : Trace gpioSystem tr w) (hpins : Guarded PinInRange tr) : FailuresCount tr := by
  constructor
  · intro p hp r hr q hq
    -- a pin in range is its own bit
    have hmod : r.pin.toNat % 8 = r.pin.toNat := by
      have := hpins p hp r hr
      omega
    rw [GpioWorld.next_gpio_of_request hr, HidGpio.bit_setPin _ _ _ _ hq, hmod]
  · intro pre p hpre t ht q hq
    -- the register shows the calls so far, this one included
    rcases h.of_prefix hpre with ⟨_, w', hstep, hafter⟩
    have hnext : w' = p.1.next p.2 := (Option.some.inj hstep).symm
    have hrange : ∀ p' ∈ pre ++ [p], ∀ r, p'.1.request? p'.2 = some r → r.pin.toNat < 4 :=
      fun p' hp' => hpins p' (hpre.subset hp')
    have hshow := registerShows_of_aliasesHarmless hafter (aliasesHarmless_of_inRange hrange)
    calc
      t.pinLevel q = (p.1.next p.2).gpio.bit q := by
        rw [GpioWorld.report_of_transmitted ht, HidGpio.pinLevel_report]
      _ = w'.gpio.bit q := by rw [hnext]
      _ = lastRequest (pinRequests (pre ++ [p])) q := hshow.pins q hq

/-! ## A failed request that is sent later -/

/-- A client's request to key PTT, whose transfer fails. -/
def failedPtt : GpioAct := .client 1 [1, 0, 1] fun _ => .error .timeout

/-- The heartbeat, whose transfer succeeds. -/
def beat : GpioAct := .heartbeat fun _ => .ok 4

/-- The failed request, then the heartbeat. -/
def failedRun : List (GpioWorld × GpioAct) :=
  [(GpioWorld.start, failedPtt), (GpioWorld.start.next failedPtt, beat)]

theorem failedRun_trace :
    Trace gpioSystem failedRun ((GpioWorld.start.next failedPtt).next beat) :=
  (Trace.start.snoc (a := failedPtt) rfl).snoc rfl

theorem failuresCount_failedRun : FailuresCount failedRun :=
  failuresCount_of_trace failedRun_trace (by
    intro p hp r hr
    rcases List.mem_cons.mp hp with rfl | hlast
    · have hpin : some r = some { pin := 0, high := true } := hr.symm
      cases hpin
      decide
    · rcases List.mem_singleton.mp hlast with rfl
      have hpin : some r = some { pin := 3, high := true } := hr.symm
      cases hpin
      decide)

/-- The request returned an error, and the heartbeat transmits it: the transmitter is keyed. -/
theorem failuresLeaveNoTrace_fails :
    Trace gpioSystem failedRun ((GpioWorld.start.next failedPtt).next beat) ∧
      GpioWorld.start.returned? failedPtt = some (.error (.usb .timeout)) ∧
      (∃ t, (GpioWorld.start.next failedPtt).transmitted? beat = some t ∧ t.pinLevel 0 = true) ∧
      ¬ FailuresLeaveNoTrace failedRun := by
  refine ⟨failedRun_trace, rfl, ⟨_, rfl, rfl⟩, fun h => ?_⟩
  have hsame := h.register _ (List.mem_cons_self ..) (.usb .timeout) rfl
  exact absurd (congrArg (fun g => g.bit 0) hsame) (by decide)

end Cm108Driver
