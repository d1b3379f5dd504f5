import CartBoot.Cart.Memory
import CartBoot.Cart.Register

/-!
# The machine

The hardware that both boot stages run on: cartridge memories behind bank
registers, internal RAM, and I/O ports. Everything that software does to it from
outside is recorded as an event, in order.

Port numbers are decoded by their low byte. The line counter of the display is
read from a list of upcoming values and stands at vertical blank once they are
used up.
-/

namespace CartBoot

/-- Something that was done to the machine. -/
inductive Event where
  | input (port : UInt16) (value : UInt8)
  | output (port : UInt16) (value : UInt8)
  | bank (window : Window) (bank : UInt16)
  | flash (enabled : Bool)
  | ramWrite (address : UInt16) (data : ByteArray)
  | ramRead (address : UInt16) (len : Nat)
  | interruptsOff
  | storageReleased
  | coldBootState (disableColor : Bool)

def iramSize : Nat := 0x10000

/-- The state of the hardware. -/
structure Machine where
  psram : BankedMemory
  /-- Battery-backed static RAM of the cartridge. -/
  sram : BankedMemory
  iram : ByteArray
  size_iram : iram.size = iramSize
  banks : Window → UInt16 := fun _ => 0
  /-- Whether the RAM window shows program RAM. -/
  flash : Bool := false
  ports : UInt8 → UInt8 := fun _ => 0
  /-- Upcoming values of the line counter. -/
  lcdLines : List UInt8 := []
  /-- The code that the soft-reset patch installs. -/
  softResetCode : ByteArray := .empty
  events : Array Event := #[]

namespace Machine

/-- A machine with that many erased banks of either kind. -/
def erased (psramBanks sramBanks : UInt16) : Machine where
  psram := .erased psramBanks
  sram := .erased sramBanks
  iram := .replicate iramSize 0
  size_iram := by simp

def record (m : Machine) (e : Event) : Machine :=
  { m with events := m.events.push e }

/-! ## Ports -/

def inb (port : UInt16) (m : Machine) : UInt8 × Machine :=
  if port = Port.lcdLine then
    match m.lcdLines with
    | [] => (vblankLine, m.record (.input port vblankLine))
    | line :: rest => (line, { m with lcdLines := rest }.record (.input port line))
  else
    let value := m.ports port.toUInt8
    (value, m.record (.input port value))

def outb (port : UInt16) (value : UInt8) (m : Machine) : Machine :=
  { m with ports := fun p => if p = port.toUInt8 then value else m.ports p }.record
    (.output port value)

/-- Read a pair of ports, low byte first. -/
def inw (port : UInt16) (m : Machine) : UInt16 × Machine :=
  let (low, m) := m.inb port
  let (high, m) := m.inb (port + 1)
  (low.toUInt16 ||| (high.toUInt16 <<< 8), m)

/-- Write a pair of ports, low byte first. -/
def outw (port value : UInt16) (m : Machine) : Machine :=
  (m.outb port value.toUInt8).outb (port + 1) (value >>> 8).toUInt8

/-- Read the line counter until it stands at vertical blank. -/
def awaitVblank (m : Machine) : Machine :=
  go m.lcdLines m
where
  /-- Try again while a line that is not the last one may follow. -/
  go (lines : List UInt8) (m : Machine) : Machine :=
    match m.inb Port.lcdLine with
    | (line, m) =>
        match lines with
        | [] => m
        | _ :: rest => if line = vblankLine then m else go rest m

/-! ## Banked memory -/

def setBank (w : Window) (bank : UInt16) (m : Machine) : Machine :=
  { m with banks := fun v => if v = w then bank else m.banks v }.record (.bank w bank)

/-- Let the RAM window show program RAM or static RAM. -/
def setFlash (enabled : Bool) (m : Machine) : Machine :=
  { m with flash := enabled }.record (.flash enabled)

/-- Whether a window shows static RAM. -/
def showsSram (m : Machine) (w : Window) : Bool :=
  w = .ram && !m.flash

/-- The `len` bytes at `offset` of what a window shows. -/
def windowBytes (m : Machine) (w : Window) (offset len : Nat) : ByteArray :=
  (if m.showsSram w then m.sram else m.psram).read (m.banks w) offset len

/-- Overwrite what a window shows from `offset` on. -/
def setWindowBytes (w : Window) (offset : Nat) (data : ByteArray) (m : Machine) : Machine :=
  if m.showsSram w then
    { m with sram := m.sram.write (m.banks w) offset data }
  else
    { m with psram := m.psram.write (m.banks w) offset data }

/-! ## Internal RAM and the rest -/

def readRam (address : UInt16) (len : Nat) (m : Machine) : ByteArray × Machine :=
  (m.iram.extract address.toNat (address.toNat + len), m.record (.ramRead address len))

def writeRam (address : UInt16) (data : ByteArray) (m : Machine) : Machine :=
  { m with
    iram := m.iram.patch address.toNat data
    size_iram := by simp [m.size_iram] }.record (.ramWrite address data)

def disableDisplay (m : Machine) : Machine :=
  m.outw Port.displayControl 0

/-- Mask interrupts for good. -/
def disableInterrupts (m : Machine) : Machine :=
  m.record .interruptsOff

def releaseStorage (m : Machine) : Machine :=
  m.record .storageReleased

/-- Put the system registers back into their power-on state. -/
def restoreColdBootState (disableColor : Bool) (m : Machine) : Machine :=
  m.record (.coldBootState disableColor)

end Machine

end CartBoot
