/-!
# Ports and register values

The I/O ports the loader touches and the bits it puts there. Registers whose bits
have names are wrapped types: a bit set keeps bits that have no name.
-/

namespace CartBoot

/-! ## Ports -/

namespace Port

def displayControl : UInt16 := 0x00
def lcdLine : UInt16 := 0x02
def lcdSegments : UInt16 := 0x15
/-- System control: cartridge bus width and wait state. -/
def systemControl : UInt16 := 0xA0
/-- Acknowledge hardware interrupts. -/
def interruptAck : UInt16 := 0xB6
def cartFlash : UInt16 := 0xCE
/-- Cartridge power and register enables. -/
def powerControl : UInt16 := 0xE2
def eepromControl : UInt16 := 0xE3
/-- Bank masks of program memory and static RAM. -/
def segmentMask : UInt16 := 0xE4

end Port

/-- The line number at the start of vertical blank. -/
def vblankLine : UInt8 := 144

/-- Orientation icon for images held upright. -/
def orientationVertical : UInt8 := 0x02

/-- Orientation icon for images held sideways. -/
def orientationHorizontal : UInt8 := 0x04

/-- Bits of the system control register that belong to the cartridge bus. -/
def busMask : UInt8 := 0x0C

/-! ## Bit sets -/

/-- Cartridge blocks that are powered or enabled. -/
structure PowerBits where
  bits : UInt8
  deriving DecidableEq, Repr

namespace PowerBits

def none : PowerBits := ⟨0⟩
def clock : PowerBits := ⟨0x01⟩
def storage : PowerBits := ⟨0x02⟩
/-- The cartridge's own registers. -/
def cartRegisters : PowerBits := ⟨0x04⟩
/-- EEPROM interface of the older mapper. -/
def mapper2001 : PowerBits := ⟨0x08⟩
/-- Registers of the newer mapper. -/
def mapper2003 : PowerBits := ⟨0x10⟩
def rom : PowerBits := ⟨0x20⟩
def sram : PowerBits := ⟨0x40⟩
/-- Reset line of the cartridge's controller. -/
def controllerReset : PowerBits := ⟨0x80⟩
def all : PowerBits := ⟨0xFF⟩

def union (a b : PowerBits) : PowerBits := ⟨a.bits ||| b.bits⟩

def inter (a b : PowerBits) : PowerBits := ⟨a.bits &&& b.bits⟩

/-- The set itself, or the empty one. -/
def only (a : PowerBits) (condition : Bool) : PowerBits :=
  if condition then a else none

end PowerBits

/-- Flags of an image; the low bits are those of its footer. -/
structure ImageFlags where
  bits : UInt8
  deriving DecidableEq, Repr

namespace ImageFlags

/-- The display is held upright. -/
def vertical : ImageFlags := ⟨0x01⟩
/-- Sixteen-bit cartridge bus. -/
def wideBus : ImageFlags := ⟨0x04⟩
/-- One more wait state for program memory. -/
def slowRom : ImageFlags := ⟨0x08⟩
def all : ImageFlags := ⟨0x0D⟩

def union (a b : ImageFlags) : ImageFlags := ⟨a.bits ||| b.bits⟩

def contains (a b : ImageFlags) : Bool := a.bits &&& b.bits = b.bits

end ImageFlags

/-- Further flags of an image. -/
structure ColorFlags where
  bits : UInt8
  deriving DecidableEq, Repr

namespace ColorFlags

def none : ColorFlags := ⟨0⟩
/-- The image asks for color mode, which stays on across the jump. -/
def color : ColorFlags := ⟨0x01⟩

def contains (a b : ColorFlags) : Bool := a.bits &&& b.bits = b.bits

end ColorFlags

/-- Changes made to an image after it is loaded. -/
structure Patches where
  bits : UInt8
  deriving DecidableEq, Repr

namespace Patches

def none : Patches := ⟨0⟩
/-- The reset vector goes through the soft-reset code. -/
def softReset : Patches := ⟨0x01⟩

def contains (a b : Patches) : Bool := a.bits &&& b.bits = b.bits

end Patches

/-! ## EEPROM emulation and bank masks -/

namespace Eeprom

/-- Value of the EEPROM emulation register for an image without one. -/
def none : UInt8 := 0
def bytes128 : UInt8 := 1
def kilobyte : UInt8 := 2
def kilobytes2 : UInt8 := 3

end Eeprom

/-- Most program banks the segment mask can describe. -/
def maxRomBanks : Nat := 512

/-- Largest bank mask of static RAM the segment mask can hold. -/
def maxSramMask : Nat := 0x0F

/-- The bits of the segment mask that are always set. -/
def segmentMaskFixed : UInt16 := 0x0E00

/-- The segment mask for a number of program banks, at least one, and a bank mask of static
RAM: the highest bank number in bits 0 to 8 and the mask in bits 12 to 15. -/
def segmentMask (romBanks : UInt16) (sramMask : UInt8) : UInt16 :=
  let rom : UInt16 := (romBanks - 1) &&& 0x1FF
  let sram : UInt16 := (sramMask.toUInt16 &&& 0x0F) <<< 12
  segmentMaskFixed ||| rom ||| sram

end CartBoot
