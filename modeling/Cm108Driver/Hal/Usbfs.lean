import Cm108Driver.Lib.Runs
import Cm108Driver.Types.Codec

/-!
# Usbfs — isochronous URBs and the two `usbdevfs` ioctls

`SUBMITURB` hands a URB to the kernel; when the transfer is over the kernel fills in the status
fields and the buffer, and `REAPURBNDELAY` hands the URB back by storing one word in its argument.
Which word that is decides how the caller finds its slot again, so it is a parameter here
(`ReapWord`): the address of the URB in the Linux interface, the `usercontext` field according to
the comment on `reap_urb`.
-/

namespace Cm108Driver

/-! ## Structs -/

/-- The header of a URB, without padding; the buffer is kept beside the URB. -/
structure UsbdevfsUrb where
  typ : UInt8
  endpoint : UInt8
  status : Int32
  flags : UInt32
  bufferLength : Int32
  actualLength : Int32
  startFrame : Int32
  numberOfPackets : Int32
  errorCount : Int32
  signr : UInt32
  usercontext : UInt64

structure UsbIsoPacketDesc where
  length : UInt32
  actualLength : UInt32
  status : UInt32

/-- A URB with its single packet descriptor. -/
structure SingleIsoUrb where
  hdr : UsbdevfsUrb
  pkt : UsbIsoPacketDesc

def urbTypeIso : UInt8 := 0
def epIsoOut : UInt8 := 0x01
def epIsoIn : UInt8 := 0x82

/-- `init_rx_urb` and `init_tx_urb`, which differ in the endpoint and the packet length. -/
def initUrb (endpoint : UInt8) (packet : Nat) (idx : Nat) : SingleIsoUrb :=
  { hdr :=
      { typ := urbTypeIso
        endpoint := endpoint
        status := 0
        flags := 0
        bufferLength := Int32.ofNat packet
        actualLength := 0
        startFrame := 0
        numberOfPackets := 1
        errorCount := 0
        signr := 0
        usercontext := UInt64.ofNat idx }
    pkt :=
      { length := UInt32.ofNat packet
        actualLength := 0
        status := 0 } }

/-! ## Slots -/

/-- One of the URBs of a loop with its buffer; `inFlight` from its submit until it is reaped. -/
structure Slot (packet : Nat) where
  urb : SingleIsoUrb
  buf : Vector UInt8 packet
  inFlight : Bool

/-- What the kernel reports for a URB that is done.  It never transfers more than was asked for. -/
structure Completion (packet : Nat) where
  status : Int32
  errorCount : Int32
  urbActualLength : Int32
  actualLength : UInt32
  packetStatus : UInt32
  buf : Vector UInt8 packet
  fits : actualLength.toNat ≤ packet

namespace Slot

variable {packet : Nat}

/-- The kernel gives the URB back. -/
def complete (s : Slot packet) (c : Completion packet) : Slot packet :=
  { urb :=
      { hdr :=
          { s.urb.hdr with
            status := c.status
            actualLength := c.urbActualLength
            errorCount := c.errorCount }
        pkt :=
          { s.urb.pkt with
            actualLength := c.actualLength
            status := c.packetStatus } }
    buf := c.buf
    inFlight := false }

/-- `submit_urb`; a failed submit leaves the URB with the caller. -/
def submit (s : Slot packet) (succeeds : Bool) : Slot packet :=
  { s with inFlight := succeeds }

end Slot

/-! ## What `REAPURBNDELAY` stores -/

/-- The number of URBs kept in flight. -/
def nUrbs : Nat := 8

instance : NeZero nUrbs := ⟨by decide⟩

/-- The word that the ioctl stores for the URB at a slot. -/
abbrev ReapWord := Fin nUrbs → SingleIsoUrb → UInt64

/-- The Linux interface: the user-space address that was passed to `SUBMITURB`. -/
def linuxReap (addr : Fin nUrbs → UInt64) : ReapWord := fun i _ => addr i

/-- The comment on `reap_urb`: the `usercontext` of the completed URB. -/
def documentedReap : ReapWord := fun _ urb => urb.hdr.usercontext

end Cm108Driver
