import Cm108Driver.Lib.Runs
import Cm108Driver.Types.RoundTrip

/-!
# HidGpio — the output register behind `set_pin`

`HidGpio` keeps a shadow of the device's GPIO output byte.  `set_pin` sets or clears one bit and
sends the whole byte.

In a release build the `debug_assert!(pin < 4)` is compiled out and the shift amount of `1 << pin`
is masked, so a pin outside `0..3` reaches the bit `pin % 8`.  `bit_setPin`
says so; the runs are in `Server/GpioOutput.lean`.
-/

namespace Cm108Driver

open Lib

/-! ## The device handle -/

inductive UsbError
  | timeout
  | other (code : Int)
  deriving DecidableEq, Repr

/-- `HalError`, as far as the GPIO functions produce it. -/
inductive HalError
  | usb (e : UsbError)
  deriving DecidableEq, Repr

/-- The arguments of `write_control` (without the time limit). -/
structure ControlTransfer where
  requestType : UInt8
  request : UInt8
  value : UInt16
  index : UInt16
  data : List UInt8
  deriving DecidableEq, Repr

/-- A device handle, as far as `write_report` uses it: the answer to one control transfer. -/
abbrev WriteControl := ControlTransfer → Except UsbError Nat

def hidSetReportType : UInt8 := 0x21
def hidSetReportReq : UInt8 := 0x09
def hidOutputReport : UInt16 := 0x0200
def ifaceHid : UInt8 := 3

/-- Bits 0 and 3 are outputs, bits 1 and 2 inputs. -/
def gpioDirRimLite : UInt8 := 0b00001001

structure HidGpio where
  gpioOut : UInt8
  gpioDir : UInt8
  deriving DecidableEq, Repr

namespace HidGpio

def new : HidGpio :=
  { gpioOut := 0
    gpioDir := gpioDirRimLite }

/-- The output report that carries the whole register. -/
def report (g : HidGpio) : ControlTransfer :=
  { requestType := hidSetReportType
    request := hidSetReportReq
    value := hidOutputReport
    index := ifaceHid.toUInt16
    data := [0x00, g.gpioOut, g.gpioDir, 0x00] }

def writeReport (g : HidGpio) (handle : WriteControl) : Except HalError Unit :=
  match handle g.report with
  | .ok _ => .ok ()
  | .error e => .error (.usb e)

/-- `set_pin` in a release build: the register is changed before the transfer, whatever its
outcome. -/
def setPin (g : HidGpio) (handle : WriteControl) (pin : UInt8) (high : Bool) :
    HidGpio × Except HalError Unit :=
  let g' :=
    -- a release build masks the shift, as `<<<` does
    if high then
      { g with gpioOut := g.gpioOut ||| (1 <<< pin) }
    else
      { g with gpioOut := g.gpioOut &&& ~~~(1 <<< pin) }
  (g', g'.writeReport handle)

/-- Level of bit `p` of the output register. -/
def bit (g : HidGpio) (p : Nat) : Bool := g.gpioOut.toBitVec.getLsbD p

@[simp] theorem bit_new (p : Nat) : new.bit p = false := by
  simp [bit, new]

theorem ext_bit {g g' : HidGpio} (hdir : g.gpioDir = g'.gpioDir)
    (hbit : ∀ p, p < 8 → g.bit p = g'.bit p) : g = g' := by
  have hout : g.gpioOut = g'.gpioOut :=
    UInt8.toBitVec_inj.1 (BitVec.eq_of_getLsbD_eq hbit)
  cases g
  cases g'
  simp_all

/-- The masked shift amount: `1 << pin` is bit `pin % 8`. -/
theorem getLsbD_one_shiftLeft (pin : UInt8) {p : Nat} (hp : p < 8) :
    ((1 : UInt8) <<< pin).toBitVec.getLsbD p = decide (p = pin.toNat % 8) := by
  have hmod : (pin.toBitVec % 8#8).toNat = pin.toNat % 8 := by simp
  rw [UInt8.toBitVec_shiftLeft, BitVec.shiftLeft_eq', BitVec.getLsbD_shiftLeft]
  rw [Bool.eq_iff_iff]
  simp [hp]
  omega

/-- `set_pin` writes the bit `pin % 8` and no other. -/
theorem bit_setPin (g : HidGpio) (handle : WriteControl) (pin : UInt8) (high : Bool) {p : Nat}
    (hp : p < 8) :
    (g.setPin handle pin high).1.bit p = if p = pin.toNat % 8 then high else g.bit p := by
  have hshift := getLsbD_one_shiftLeft pin hp
  cases high with
  | true =>
      have hset : (g.setPin handle pin true).1.bit p =
          (g.bit p || ((1 : UInt8) <<< pin).toBitVec.getLsbD p) := by
        simp only [setPin, bit, if_true]
        rw [UInt8.toBitVec_or, BitVec.getLsbD_or]
      rw [hset, hshift]
      by_cases h : p = pin.toNat % 8
      · simp [h]
      · simp [h]
  | false =>
      have hclear : (g.setPin handle pin false).1.bit p =
          (g.bit p && !((1 : UInt8) <<< pin).toBitVec.getLsbD p) := by
        simp only [setPin, bit, Bool.false_eq_true, if_false]
        rw [UInt8.toBitVec_and, UInt8.toBitVec_not, BitVec.getLsbD_and, BitVec.getLsbD_not]
        simp [hp]
      rw [hclear, hshift]
      by_cases h : p = pin.toNat % 8
      · simp [h]
      · simp [h]

@[simp] theorem gpioDir_setPin (g : HidGpio) (handle : WriteControl) (pin : UInt8) (high : Bool) :
    (g.setPin handle pin high).1.gpioDir = g.gpioDir := by
  cases high <;> rfl

/-- Writing a bit the level it already has changes nothing. -/
theorem setPin_eq_self {g : HidGpio} (handle : WriteControl) {pin : UInt8} {high : Bool}
    (h : g.bit (pin.toNat % 8) = high) : (g.setPin handle pin high).1 = g := by
  apply ext_bit (gpioDir_setPin g handle pin high)
  intro p hp
  rw [bit_setPin g handle pin high hp]
  by_cases hpin : p = pin.toNat % 8
  · simp [hpin, h]
  · simp [hpin]

end HidGpio

/-! ## The input report -/

/-- What `read_interrupt` meets: a transfer of at most the four bytes that `read_state` has room
for, or an error. -/
inductive Interrupt
  | ok (bytes : List UInt8) (fits : bytes.length ≤ 4)
  | error (e : UsbError)
  deriving DecidableEq, Repr

/-- `read_interrupt` writes the bytes of the transfer over the front of the buffer and returns their
number. -/
def readInterrupt (buf : List UInt8) : Interrupt → Except UsbError Nat × List UInt8
  | .ok bytes _ => (.ok bytes.length, bytes ++ buf.drop bytes.length)
  | .error e => (.error e, buf)

/-- `HidGpio::read_state`; the number of bytes transferred is not looked at. -/
def HidGpio.readState (i : Interrupt) : Except HalError (Option GpioState) :=
  let buf := [0, 0, 0, 0]
  match readInterrupt buf i with
  -- the GPIO byte of a short transfer is the 0 of the buffer
  | (.ok _, buf) => .ok (some ⟨buf.getD 1 0⟩)
  | (.error .timeout, _) => .ok none
  | (.error e, _) => .error (.usb e)

/-- The GPIO byte of a transfer, if it is long enough to have one. -/
def Interrupt.gpioByte? : Interrupt → Option GpioState
  | .ok bytes _ => (bytes[1]?).map GpioState.mk
  | .error _ => none

/-- The transfer ends before its GPIO byte. -/
def Interrupt.Short : Interrupt → Prop
  | .ok bytes _ => bytes.length < 2
  | .error _ => False

/-- A transfer is read as its GPIO byte, a short one as a report of all pins low. -/
theorem HidGpio.readState_ok (bytes : List UInt8) (fits : bytes.length ≤ 4) :
    HidGpio.readState (.ok bytes fits) =
      .ok (some ((Interrupt.ok bytes fits).gpioByte?.getD ⟨0⟩)) := by
  match bytes with
  | [] => rfl
  | [b] => rfl
  | b :: g :: rest => rfl

end Cm108Driver
