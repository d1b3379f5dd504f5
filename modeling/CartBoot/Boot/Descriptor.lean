import CartBoot.Cart.Address
import CartBoot.Cart.Register
import CartBoot.Fat.Geometry

/-!
# The boot descriptor

The menu leaves 35 bytes in internal RAM for the second stage, packed and
little-endian. They say where the image is and what the cartridge has to look
like when it starts:

```text
offset  size  field
0       1     table format
1       4     first sector of the table
5       4     first sector of the data area
9       2     sectors per cluster
11      4     table entries
15      4     first cluster of the image
19      4     size of the image
23      2     program banks
25      1     bank mask of static RAM
26      1     power bits
27      1     EEPROM emulation
28      1     image flags
29      1     color flags
30      1     patches
31      4     start pointer
```
-/

namespace CartBoot

open Fat

/-- What the second stage is told. -/
structure BootDescriptor where
  geometry : Geometry
  /-- First cluster of the image, or `residentCluster`. -/
  cluster : UInt32
  size : UInt32
  /-- Program banks that the cartridge exposes. -/
  romBanks : UInt16
  sramMask : UInt8
  power : PowerBits
  eepromControl : UInt8
  imageFlags : ImageFlags
  colorFlags : ColorFlags
  patches : Patches
  start : FarPtr
  deriving DecidableEq

/-- The cluster number that says the image is in program RAM already. -/
def residentCluster : UInt32 := 0xFFFFFFFF

/-- Where the processor starts after power-on. -/
def coldBootVector : FarPtr := ⟨0xFFFF, 0x0000⟩

namespace BootDescriptor

/-- Where the descriptor lies in internal RAM. -/
def address : UInt16 := 0x60

def encodedSize : Nat := 35

/-- Offset of the start pointer in an encoded descriptor. -/
def startOffset : Nat := 31

/-- The image need not be streamed. -/
def isResident (d : BootDescriptor) : Bool :=
  d.cluster = residentCluster

/-- Check the fields that become register values, and that there is an image to stream. -/
def validate (d : BootDescriptor) : Except Error Unit := do
  if d.romBanks = 0 ∨ maxRomBanks < d.romBanks.toNat then
    throw .fileTooLarge
  if maxSramMask < d.sramMask.toNat then
    throw .formatInvalid
  if d.size = 0 then
    throw .formatInvalid
  if ¬ d.isResident ∧ ¬ d.geometry.HasCluster d.cluster.toNat then
    throw (.invalidCluster d.cluster.toNat)

/-- The bytes of a descriptor, field by field. -/
def toList (d : BootDescriptor) : List UInt8 :=
  d.geometry.format.code :: ByteArray.littleEndian 4 d.geometry.tableBase
    ++ ByteArray.littleEndian 4 d.geometry.dataBase
    ++ ByteArray.littleEndian 2 d.geometry.clusterSize
    ++ ByteArray.littleEndian 4 d.geometry.entryCount
    ++ ByteArray.littleEndian 4 d.cluster.toNat
    ++ ByteArray.littleEndian 4 d.size.toNat
    ++ ByteArray.littleEndian 2 d.romBanks.toNat
    ++ [d.sramMask, d.power.bits, d.eepromControl, d.imageFlags.bits, d.colorFlags.bits,
        d.patches.bits]
    ++ d.start.toList

def encode (d : BootDescriptor) : ByteArray :=
  d.toList.toByteArray

/-- Read a descriptor. Flag bits without a name are kept. -/
def decode (b : ByteArray) : Except Error BootDescriptor := do
  if b.size < encodedSize then
    throw .formatInvalid
  match Format.ofCode? (b.byteAt 0) with
  | none => throw .invalidGeometry
  | some format =>
      let geometry ← Geometry.check format (b.numberAt 1 4) (b.numberAt 5 4) (b.numberAt 9 2)
        (b.numberAt 11 4)
      return {
        geometry
        cluster := (b.numberAt 15 4).toUInt32
        size := (b.numberAt 19 4).toUInt32
        romBanks := (b.numberAt 23 2).toUInt16
        sramMask := b.byteAt 25
        power := ⟨b.byteAt 26⟩
        eepromControl := b.byteAt 27
        imageFlags := ⟨b.byteAt 28⟩
        colorFlags := ⟨b.byteAt 29⟩
        patches := ⟨b.byteAt 30⟩
        start := .decode b startOffset }

end BootDescriptor

end CartBoot
