import CartBoot.Cart.Register
import CartBoot.Image.Footer
import CartBoot.Stream

/-!
# Image metadata

What the menu has to know about an image before it can boot it: its footer, its
size, the save memory it expects, and the register values that follow from them.

A development cartridge image carries its system font at a fixed place; its flash
memory doubles as save memory, which the footer alone does not say.
-/

namespace CartBoot

/-- How an image comes to be in program RAM. -/
inductive ImageKind where
  | standard
  /-- Assembled by the menu; wants the soft-reset patch. -/
  | assembled
  deriving DecidableEq, Repr

/-- All that is known about an image. -/
structure Metadata where
  footer : Footer
  /-- Names the save files of the image. -/
  id : UInt32
  size : UInt32
  sramSize : UInt32
  eepromSize : UInt16
  /-- Bytes of flash that double as save memory. -/
  flashSize : UInt32
  kind : ImageKind := .standard
  /-- Banks to expose, if not those that the size implies. -/
  romBanks : Option UInt16 := none
  deriving DecidableEq, Repr

namespace Metadata

/-- Bytes of static RAM for the low half of the save type. -/
def sramBytes : Nat → UInt32
  | 1 | 2 => 32 * 1024
  | 3 => 128 * 1024
  | 4 => 256 * 1024
  | 5 => 512 * 1024
  | _ => 0

/-- Bytes of EEPROM for the high half of the save type. -/
def eepromBytes : Nat → UInt16
  | 1 => 128
  | 2 => 2048
  | 5 => 1024
  | _ => 0

/-- The EEPROM emulation for the high half of the save type. -/
def eepromEmulation : Nat → UInt8
  | 1 => Eeprom.bytes128
  | 2 => Eeprom.kilobytes2
  | 5 => Eeprom.kilobyte
  | _ => Eeprom.none

def fontImageSize : Nat := 0x80000

/-- Where such an image carries its font. -/
def fontOffset : Nat := 0x70000

/-- How the font begins. -/
def fontSignature : ByteArray := "ELISA".toUTF8

/-- Whether a footer and the presence of the font make a development cartridge image. -/
def hasFlashSave (footer : Footer) (font : Bool) : Bool :=
  font && footer.publisher = 0 && footer.gameId = 0 && footer.saveType = 4 && footer.mapper = 1

/-- Derive the metadata of an image; `font` says whether it carries the font. -/
def ofFooter (footer : Footer) (id size : UInt32) (font : Bool) : Metadata where
  footer
  id
  size
  sramSize := sramBytes footer.sramCode
  eepromSize := eepromBytes footer.eepromCode
  flashSize := if hasFlashSave footer font then fontImageSize.toUInt32 else 0

/-- The metadata of an image that the menu assembled in program RAM: sixteen banks and 256 KiB
of static RAM. -/
def assembled (footer : Footer) : Metadata where
  footer
  id := 0
  size := 0x100000
  sramSize := 256 * 1024
  eepromSize := 0
  flashSize := 0
  kind := .assembled
  romBanks := some 16

/-- Read the metadata of an image of `size` bytes from a stream. -/
def read {σ : Type} [ReadStream σ] [SeekStream σ] (id size : UInt32) :
    EStateM Error σ Metadata := do
  if size.toNat < Footer.size then
    throw .formatInvalid
  let font ← if size.toNat = fontImageSize then do
      SeekStream.seek fontOffset
      let signature ← readExact fontSignature.size
      pure (decide (signature.data = fontSignature.data))
    else
      pure false
  SeekStream.seek (size.toNat - Footer.size)
  let footer ← readExact Footer.size
  return ofFooter (.decode footer 0) id size font

/-- Whether the image keeps anything between runs. -/
def hasSave (m : Metadata) : Bool :=
  m.sramSize ≠ 0 || m.eepromSize ≠ 0 || m.flashSize ≠ 0

def sramMask (m : Metadata) : UInt8 :=
  ((m.sramSize.toNat - 1) / 0x10000).toUInt8

def eepromControl (m : Metadata) : UInt8 :=
  if m.eepromSize = 0 then Eeprom.none else eepromEmulation m.footer.eepromCode

def power (m : Metadata) : PowerBits :=
  (PowerBits.sram.only (m.sramSize ≠ 0)).union
    ((PowerBits.mapper2001.only (m.footer.mapper ≠ 1 && m.eepromSize ≠ 0)).union
      (PowerBits.mapper2003.only (m.footer.mapper ≠ 0)))

/-- The image flags. Only the sixteen-bit bus is supported. -/
def imageFlags (m : Metadata) : ImageFlags :=
  (ImageFlags.mk m.footer.flags).union .wideBus

def colorFlags (m : Metadata) : ColorFlags :=
  if m.footer.isColor then .color else .none

/-- The patches to apply after loading. -/
def patches (m : Metadata) : Patches :=
  match m.kind with
  | .standard => .none
  | .assembled => .softReset

end Metadata

end CartBoot
