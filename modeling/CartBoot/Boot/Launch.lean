import CartBoot.Boot.Descriptor
import CartBoot.Cart.Machine
import CartBoot.Image.Layout
import CartBoot.Image.Metadata

/-!
# Launching an image

The menu hands over to the second stage in four steps:

* `Launch.validate` checks the image and touches no hardware;
* `Validated.populate` builds the boot descriptor and leaves it in internal RAM;
* `Populated.stage` blanks the display, masks interrupts and copies the second
  stage into internal RAM, over what the menu keeps there;
* `Staged.commit` jumps.

Only the first two can fail, and they leave the menu as it was if they do.
-/

namespace CartBoot

open Fat

/-- Limits and addresses of a launch. -/
structure LaunchConfig where
  maxImageSize : Nat := 16 * 1024 * 1024
  /-- Where the second stage runs in internal RAM. -/
  stubAddress : UInt16 := 0xC0
  tilesAddress : UInt16 := 0x3200
  deriving DecidableEq, Repr

/-- The second stage as it comes with the menu. Wherever in internal RAM its code or its tiles
begin, they end at a word. -/
structure StubImage where
  code : ByteArray
  tiles : ByteArray
  code_le : iramSize + code.size ≤ wordLimit := by simp [iramSize, wordLimit]
  tiles_le : iramSize + tiles.size ≤ wordLimit := by simp [iramSize, wordLimit]

/-- Check that code and tiles fit internal RAM and that the code does not run into the tiles. -/
def StubImage.check (stub : StubImage) (config : LaunchConfig) : Except Error Unit :=
  let code := config.stubAddress.toNat
  let tiles := config.tilesAddress.toNat
  if (tiles < code ∨ code + stub.code.size ≤ tiles)
      ∧ code + stub.code.size ≤ iramSize ∧ tiles + stub.tiles.size ≤ iramSize then
    .ok ()
  else
    .error .fileTooLarge

structure BootImage where
  /-- First cluster, or `residentCluster`. -/
  cluster : UInt32
  size : UInt32
  metadata : Option Metadata
  deriving DecidableEq

/-- An image that is in program RAM already. -/
def BootImage.resident (m : Metadata) : BootImage :=
  ⟨residentCluster, m.size, some m⟩

namespace Launch

/-- An image that passed its checks. -/
structure Validated where
  image : BootImage
  layout : ImageLayout
  config : LaunchConfig

/-- A launch whose descriptor is in internal RAM. -/
structure Populated where
  descriptor : BootDescriptor
  config : LaunchConfig

/-- A launch that is ready to jump. -/
structure Staged where
  descriptor : BootDescriptor
  config : LaunchConfig

/-- Check what the metadata say against the image and its layout. -/
def checkMetadata (image : BootImage) (layout : ImageLayout) (m : Metadata) :
    Except Error Unit := do
  m.footer.validate
  if m.size ≠ image.size then
    throw .formatInvalid
  match m.romBanks with
  | some banks =>
      if banks.toNat < layout.totalBanks ∨ maxRomBanks < banks.toNat then
        throw .fileTooLarge
  | none => pure ()

/-- Check an image against the limits and its own metadata. -/
def validate (image : BootImage) (config : LaunchConfig) : Except Error Validated := do
  if image.size.toNat < Footer.size then
    throw .formatInvalid
  if config.maxImageSize < image.size.toNat then
    throw .fileTooLarge
  if image.cluster ≠ residentCluster ∧ image.cluster < 2 then
    throw (.invalidCluster image.cluster.toNat)
  let layout ← ImageLayout.forSize image.size.toNat
  if maxRomBanks < layout.totalBanks then
    throw .fileTooLarge
  match image.metadata with
  | some m => checkMetadata image layout m
  | none => pure ()
  return ⟨image, layout, config⟩

/-- The mask of static RAM banks for an image without metadata. -/
def defaultSramMask : UInt8 := 7

/-- The descriptor of a validated image, `power` being the present value of the power register. -/
def Validated.descriptor (v : Validated) (geometry : Geometry) (power : UInt8) :
    BootDescriptor :=
  let plain : BootDescriptor := {
    geometry
    cluster := v.image.cluster
    size := v.image.size
    romBanks := v.layout.totalBanks.toUInt16
    sramMask := defaultSramMask
    power := ⟨power⟩
    eepromControl := Eeprom.none
    imageFlags := .wideBus
    colorFlags := .none
    patches := .none
    start := coldBootVector }
  match v.image.metadata with
  | none => plain
  | some m => { plain with
      romBanks := m.romBanks.getD plain.romBanks
      sramMask := m.sramMask
      power := m.power
      eepromControl := m.eepromControl
      imageFlags := m.imageFlags
      colorFlags := m.colorFlags
      patches := m.patches }

/-- Build the descriptor and leave it in internal RAM. If it is refused, the machine has only
been read from. -/
def Validated.populate (v : Validated) (geometry : Geometry) :
    EStateM Error Machine Populated := fun m =>
  let (power, m) := m.inb Port.powerControl
  let descriptor := v.descriptor geometry power
  match descriptor.validate with
  | .ok () => .ok ⟨descriptor, v.config⟩ (m.writeRam BootDescriptor.address descriptor.encode)
  | .error e => .error e m

/-- Copy the second stage into internal RAM, with the display blank and interrupts off. -/
def Populated.stage (p : Populated) (stub : StubImage) (m : Machine) : Staged × Machine :=
  let m := m.disableDisplay.disableInterrupts
  let m := m.writeRam p.config.tilesAddress stub.tiles
  let m := m.writeRam p.config.stubAddress stub.code
  (⟨p.descriptor, p.config⟩, m)

/-- Where a staged launch jumps to. -/
def Staged.commit (s : Staged) : FarPtr :=
  ⟨0x0000, s.config.stubAddress⟩

end Launch

/-- Run a whole launch. It comes back with an error, the machine unchanged but for what was
read; or with the address jumped to. -/
def launch (image : BootImage) (geometry : Geometry) (config : LaunchConfig) (stub : StubImage) :
    EStateM Error Machine FarPtr := fun m =>
  match stub.check config with
  | .error e => .error e m
  | .ok () =>
      match Launch.validate image config with
      | .error e => .error e m
      | .ok validated =>
          match validated.populate geometry m with
          | .error e m => .error e m
          | .ok populated m =>
              let (staged, m) := populated.stage stub m
              .ok staged.commit m

end CartBoot
