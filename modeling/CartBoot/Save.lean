import CartBoot.Copy
import CartBoot.Image.Metadata
import CartBoot.Stream.Chain

/-!
# Save memory

Before a game starts its save file is copied into static RAM; when the menu comes
back the memory is written over the same file. Save files have their full length
from the start, so every transfer here overwrites an existing chain.

Development cartridge images keep their saves in flash. Their flash file is
filled from the image on first launch, and written back only if what is in flash
still ends in a bootable footer: a game that crashed while writing must not
replace the last good copy.
-/

namespace CartBoot

open Fat

namespace Save

def erased : UInt8 := 0xFF

/-- A save file: its first cluster, and how many bytes of it hold data. -/
structure File where
  cluster : Nat
  written : Nat
  deriving DecidableEq, Repr

/-- Bring a save file to `size` bytes: the first `written` bytes are kept and the rest is erased.
The stream is left at its start. -/
def prepare {σ : Type} [WriteStream σ] [SeekStream σ] (written size : Nat) :
    EStateM Error σ Unit := do
  if written < size then
    SeekStream.seek written
    fill erased (size - written)
  SeekStream.seek 0

/-! ## Flash files -/

/-- Longest piece that is copied from one file to another at once. -/
def seedPiece : Nat := sectorSize

/-- Copy one piece at the same position of two files. Only one file is open at a time. -/
def copyPiece (source target position len : Nat) : EStateM Error Volume Unit := do
  let data ← Volume.withFile source do
    ChainStream.seek position
    readExact len
  Volume.withFile target do
    ChainStream.seek position
    ChainStream.write data

/-- Copy the bytes of one file from `position` to `len` over another. -/
def copyFile (source target len position : Nat) : EStateM Error Volume Unit := do
  if _ : position < len then
    let n := min (len - position) seedPiece
    copyPiece source target position n
    copyFile source target len (position + n)
termination_by len - position
decreasing_by
  unfold seedPiece sectorSize
  omega

/-- Bring a flash file to `size` bytes: the image at `source` of `sourceLen` bytes, then erased
memory. A file that has its `size` bytes is left alone. -/
def seedFlash (file : File) (source sourceLen size : Nat) : EStateM Error Volume Unit := do
  if size ≤ file.written then
    return ()
  if size < sourceLen then
    throw .integrity
  copyFile source file.cluster sourceLen 0
  Volume.withFile file.cluster (prepare sourceLen size)

/-- Whether a flash image of `len` bytes in program memory ends in a bootable footer: a far jump
to a segment at or above the first window. -/
def flashIsBootable (len : Nat) (m : Machine) : Bool × Machine :=
  if len = 0 then
    (false, m)
  else
    let scope := BankScope.enter m .rom0
    let m := m.setBank .rom0 ((len - 1) / bankSize).toUInt16
    let footer := m.windowBytes .rom0 (bankSize - Footer.size) Footer.size
    (footer.byteAt 0 = Footer.farJump && 0x10 < footer.byteAt 4, scope.leave m)

/-! ## Restoring and backing up -/

section Copies

variable {σ π : Type} [Progress π]

/-- Copy `len` bytes of a save file into static RAM. -/
def restoreSram [ReadStream σ] (len : Nat) : EStateM Error (Copier σ π) Unit :=
  Copier.loadSram {} len

/-- Write `len` bytes of static RAM back to the save file. -/
def backUpSram [WriteStream σ] (len : Nat) : EStateM Error (Copier σ π) Unit :=
  Copier.saveSram {} len

/-- Write a flash image of `len` bytes back to its file, if it is bootable. -/
def backUpFlash [WriteStream σ] (len : Nat) : EStateM Error (Copier σ π) Unit := do
  let ⟨stream, machine, hook⟩ ← get
  let (bootable, machine) := flashIsBootable len machine
  set (⟨stream, machine, hook⟩ : Copier σ π)
  if bootable then
    Copier.saveRom {} len
  else
    throw .saveCorrupt

/-- Run a copy between the file that starts at `cluster` and the machine. -/
def withFile (cluster : Nat) (operation : EStateM Error (Copier ChainStream π) Unit) :
    EStateM Error (Copier Volume π) Unit := fun ⟨volume, machine, hook⟩ =>
  match operation ⟨volume.openAt cluster, machine, hook⟩ with
  | .ok () ⟨s, machine, hook⟩ => .ok () ⟨s.volume, machine, hook⟩
  | .error e ⟨s, machine, hook⟩ => .error e ⟨s.volume, machine, hook⟩

/-- The file of a save that an image needs. -/
def required (file? : Option File) : EStateM Error (Copier Volume π) File :=
  match file? with
  | some file => pure file
  | none => throw .integrity

/-- Prepare the save memory of an image before it is booted: fill up its save file and copy it
into static RAM, and seed its flash file from the image at `image`. A save that the image needs
and that has no file is an error. -/
def restore (m : Metadata) (image : Nat) (sram flash : Option File) :
    EStateM Error (Copier Volume π) Unit := do
  if m.sramSize ≠ 0 then
    let file ← required sram
    withFile file.cluster do
      Copier.onStream (prepare file.written m.sramSize.toNat)
      restoreSram m.sramSize.toNat
  if m.flashSize ≠ 0 then
    let file ← required flash
    Copier.onStream (seedFlash file image m.size.toNat m.flashSize.toNat)

end Copies

end Save

end CartBoot
