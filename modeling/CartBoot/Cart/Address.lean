import CartBoot.Bytes
import CartBoot.Hex

/-!
# Banked addresses

The processor sees the cartridge through three 64 KiB windows. Each window shows
one bank, chosen by a 16-bit register. A place in cartridge memory is therefore a
bank and an offset, and reads as one linear address; a place the processor can
jump to is a segment and an offset.
-/

namespace CartBoot

def bankSize : Nat := 0x10000

/-- The windows into cartridge memory. -/
inductive Window where
  /-- Static RAM, or program RAM while flash writes are enabled. -/
  | ram
  | rom0
  | rom1
  deriving DecidableEq, Repr

namespace Window

/-- The I/O port of the bank register. -/
def port : Window → UInt16
  | ram => 0xD0
  | rom0 => 0xD2
  | rom1 => 0xD4

/-- The processor segment at which a window appears. -/
def segment : Window → UInt16
  | ram => 0x1000
  | rom0 => 0x2000
  | rom1 => 0x3000

end Window

structure FarPtr where
  segment : UInt16
  offset : UInt16
  deriving DecidableEq, Repr

namespace FarPtr

/-- The 20-bit physical address. -/
def linear (p : FarPtr) : Nat :=
  (p.segment.toNat * 16 + p.offset.toNat) % 0x100000

/-- The form in memory: offset word, then segment word. -/
def toList (p : FarPtr) : List UInt8 :=
  ByteArray.littleEndian 2 p.offset.toNat ++ ByteArray.littleEndian 2 p.segment.toNat

def encode (p : FarPtr) : ByteArray :=
  p.toList.toByteArray

def decode (b : ByteArray) (i : Nat) : FarPtr where
  offset := (b.numberAt i 2).toUInt16
  segment := (b.numberAt (i + 2) 2).toUInt16

def text (p : FarPtr) : String :=
  Hex.word p.segment ++ ":" ++ Hex.word p.offset

end FarPtr

structure BankedAddr where
  bank : UInt16 := 0
  offset : UInt16 := 0
  deriving DecidableEq, Repr

namespace BankedAddr

/-- The place `n` bytes into banked memory. -/
def ofLinear (n : Nat) : BankedAddr where
  bank := (n / bankSize).toUInt16
  offset := (n % bankSize).toUInt16

/-- How many bytes into banked memory a place lies. -/
def linear (a : BankedAddr) : Nat :=
  bankSize * a.bank.toNat + a.offset.toNat

/-- The pointer to a place once its bank is selected in a window. -/
def farPtr (a : BankedAddr) (w : Window) : FarPtr :=
  ⟨w.segment, a.offset⟩

end BankedAddr

end CartBoot
