import CartBoot.Boot.SoftReset
import CartBoot.Stream.Chain

/-!
# The second stage

What runs from internal RAM after the menu is gone: read the boot descriptor,
stream the image into program RAM, patch it if asked to, put the cartridge into
the state the image expects, and jump.

All that can fail comes before the first cartridge register is written. The power
register switches the cartridge's own registers off and is written last of them.
-/

namespace CartBoot

open Fat

/-- All that the second stage works on. -/
structure SecondStage (π : Type) where
  machine : Machine
  disk : Disk
  hook : π

namespace SecondStage

variable {π : Type}

def onMachine {α : Type} (operation : EStateM Error Machine α) :
    EStateM Error (SecondStage π) α := fun ⟨machine, disk, hook⟩ =>
  match operation machine with
  | .ok a machine => .ok a ⟨machine, disk, hook⟩
  | .error e machine => .error e ⟨machine, disk, hook⟩

def readDescriptor : EStateM Error Machine BootDescriptor := fun m =>
  let (bytes, m) := m.readRam BootDescriptor.address BootDescriptor.encodedSize
  match BootDescriptor.decode bytes with
  | .error e => .error e m
  | .ok d =>
      match d.validate with
      | .error e => .error e m
      | .ok () => .ok d m

/-- Stream the image to its place in program RAM; a resident image is left as it is. -/
def loadImage [Progress π] (d : BootDescriptor) (layout : ImageLayout) :
    EStateM Error (SecondStage π) Unit := fun ⟨machine, disk, hook⟩ =>
  if d.isResident then
    .ok () ⟨machine, disk, hook⟩
  else
    let stream := (Volume.ofDisk disk d.geometry true).openAt d.cluster.toNat
    match Copier.loadPsram layout.start d.size.toNat ⟨stream, machine, hook⟩ with
    | .ok () ⟨stream, machine, hook⟩ => .ok () ⟨machine, stream.volume.disk, hook⟩
    | .error e ⟨stream, machine, hook⟩ => .error e ⟨machine, stream.volume.disk, hook⟩

/-- Set the bus bits of the system control register to those of the image. -/
def setBus (d : BootDescriptor) (m : Machine) : Machine :=
  let (control, m) := m.inb Port.systemControl
  m.outb Port.systemControl ((control &&& ~~~busMask) ||| (d.imageFlags.bits &&& busMask))

/-- Set the power bits of the image; the reset line of the controller stays as it is. -/
def setPower (d : BootDescriptor) (m : Machine) : Machine :=
  let (power, m) := m.inb Port.powerControl
  m.outb Port.powerControl (((PowerBits.mk power).inter .controllerReset).union d.power).bits

/-- Put cartridge and system registers into the state the image expects. -/
def configure (d : BootDescriptor) (m : Machine) : Machine :=
  let m := (m.setFlash false).releaseStorage.awaitVblank
  let m := (m.outw Port.displayControl 0).outb Port.lcdSegments 0
  let m := m.restoreColdBootState (!d.colorFlags.contains .color)
  let m := setBus d m
  let m := m.outw Port.segmentMask (segmentMask d.romBanks d.sramMask)
  let m := m.outb Port.eepromControl d.eepromControl
  (setPower d m).outb Port.interruptAck 0xFF

def orientation (d : BootDescriptor) : UInt8 :=
  if d.imageFlags.contains .vertical then orientationVertical else orientationHorizontal

/-- Everything up to the jump. The answer is where to jump. -/
def boot [Progress π] : EStateM Error (SecondStage π) FarPtr := do
  let d ← onMachine readDescriptor
  let layout ← match ImageLayout.forSize d.size.toNat with
    | .ok layout => pure layout
    | .error e => throw e
  onMachine (modify (Machine.outb Port.lcdSegments (orientation d)))
  loadImage d layout
  if d.patches.contains .softReset then
    discard (onMachine (SoftReset.apply layout))
  onMachine (modify (configure d))
  return d.start

/-- How the second stage ends. -/
inductive Ending where
  | jumped (target : FarPtr)
  /-- The error is on the display. -/
  | halted (error : Error)
  deriving DecidableEq, Repr

def run [Progress π] (s : SecondStage π) : Ending × SecondStage π :=
  match boot s with
  | .ok target s => (.jumped target, s)
  | .error e s => (.halted e, s)

end SecondStage

end CartBoot
