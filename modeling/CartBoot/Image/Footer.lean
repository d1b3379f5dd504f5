import CartBoot.Cart.Address
import CartBoot.Error

/-!
# Image footers

Every image ends in sixteen bytes that the boot ROM jumps through:

```text
offset  size  field
0       5     far jump: opcode, offset, segment
5       1     maintenance
6       1     publisher
7       1     color
8       1     game number
9       1     game version
10      1     ROM size code
11      1     save type: static RAM in the low half, EEPROM in the high half
12      1     flags
13      1     mapper
14      2     checksum
```
-/

namespace CartBoot

structure Footer where
  jumpOpcode : UInt8
  jumpTarget : FarPtr
  maintenance : UInt8
  publisher : UInt8
  color : UInt8
  gameId : UInt8
  gameVersion : UInt8
  romSize : UInt8
  saveType : UInt8
  flags : UInt8
  mapper : UInt8
  checksum : UInt16
  deriving DecidableEq, Repr

namespace Footer

def size : Nat := 16

/-- The opcode of a far jump. -/
def farJump : UInt8 := 0xEA

def decode (b : ByteArray) (i : Nat) : Footer where
  jumpOpcode := b.byteAt i
  jumpTarget := .decode b (i + 1)
  maintenance := b.byteAt (i + 5)
  publisher := b.byteAt (i + 6)
  color := b.byteAt (i + 7)
  gameId := b.byteAt (i + 8)
  gameVersion := b.byteAt (i + 9)
  romSize := b.byteAt (i + 10)
  saveType := b.byteAt (i + 11)
  flags := b.byteAt (i + 12)
  mapper := b.byteAt (i + 13)
  checksum := (b.numberAt (i + 14) 2).toUInt16

def encode (f : Footer) : ByteArray :=
  (f.jumpOpcode :: f.jumpTarget.toList
    ++ [f.maintenance, f.publisher, f.color, f.gameId, f.gameVersion, f.romSize, f.saveType,
        f.flags, f.mapper]
    ++ ByteArray.littleEndian 2 f.checksum.toNat).toByteArray

/-- Whether the boot ROM would accept the footer. -/
def isBootable (f : Footer) : Bool :=
  f.jumpOpcode = farJump && f.maintenance &&& 0x0F = 0

/-- Refuse a footer that the boot ROM would not accept. -/
def validate (f : Footer) : Except Error Unit :=
  if f.isBootable then .ok () else .error .formatInvalid

/-- Whether the image is a color title. -/
def isColor (f : Footer) : Bool :=
  f.color &&& 1 ≠ 0

def sramCode (f : Footer) : Nat :=
  f.saveType.toNat % 16

def eepromCode (f : Footer) : Nat :=
  f.saveType.toNat / 16

end Footer

end CartBoot
