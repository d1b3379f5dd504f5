import CartBoot.Disk.Window
import CartBoot.Fat.BootSector

/-!
# Volumes

A volume is a drive with a known geometry. `Volume.locate` finds the geometry on
a device: sector 0 is the boot sector itself, or a partition table whose first
entry says where the volume starts.

`Volume.nextCluster` reads the allocation table. Entries come back as they are
stored; whether one continues a chain or ends it is up to the caller. Clusters
without an entry are refused before any access.
-/

namespace CartBoot.Fat

structure Volume where
  drive : Drive
  geometry : Geometry
  /-- Fold physically adjacent clusters into one transfer. -/
  foldRuns : Bool := true

namespace Volume

def ofDisk (disk : Disk) (geometry : Geometry) (foldRuns : Bool) : Volume :=
  ⟨{ disk }, geometry, foldRuns⟩

def disk (v : Volume) : Disk :=
  v.drive.disk

/-! ## Mounting -/

/-- Start of the first entry of a partition table. -/
def partitionEntry : Nat := 446

/-- Where the first partition starts, or `none` if its type or its start is zero. -/
def firstPartition? (sector : ByteArray) : Option Nat :=
  let start := sector.numberAt (partitionEntry + 8) 4
  if sector.byteAt (partitionEntry + 4) = 0 ∨ start = 0 then none else some start

/-- Find the geometry of the volume on a device. -/
def locate : EStateM Error Disk Geometry := do
  let ⟨sector, _⟩ ← Disk.read 0 1
  match Geometry.ofBootSector sector 0 with
  | .ok geometry => return geometry
  | .error .noFilesystem =>
      if BootSector.isSigned sector then
        match firstPartition? sector with
        | none => throw .noFilesystem
        | some start =>
            let ⟨sector, _⟩ ← Disk.read start 1
            match Geometry.ofBootSector sector start with
            | .ok geometry => return geometry
            | .error e => throw e
      else
        throw .noFilesystem
  | .error e => throw e

/-! ## The allocation table -/

def onDrive {α : Type} (access : EStateM Error Drive α) : EStateM Error Volume α :=
  fun ⟨drive, geometry, foldRuns⟩ =>
    match access drive with
    | .ok a drive => .ok a ⟨drive, geometry, foldRuns⟩
    | .error e drive => .error e ⟨drive, geometry, foldRuns⟩

/-- Byte offset of a packed 12-bit entry, one and a half bytes per entry. -/
def packedOffset (cluster : Nat) : Nat :=
  cluster + cluster / 2

def tableByte (g : Geometry) (offset : Nat) : EStateM Error Volume UInt8 := do
  let data ← onDrive (Drive.ensure (g.tableBase + offset / sectorSize))
  return data.val.byteAt (offset % sectorSize)

/-- The table entry of a cluster. A packed 12-bit entry may straddle two sectors, so its two
bytes are looked up one by one; their offsets are words. -/
def nextCluster (cluster : Nat) : EStateM Error Volume Nat := do
  let g := (← get).geometry
  if ¬ g.HasCluster cluster then
    throw (.invalidCluster cluster)
  match g.format with
  | .fat12 =>
      let offset ← word (packedOffset cluster)
      let low ← tableByte g offset
      let high ← tableByte g (← word (offset + 1))
      let pair := low.toNat + 256 * high.toNat
      return if cluster % 2 = 1 then pair / 16 else pair % 0x1000
  | .fat16 =>
      let data ← onDrive (Drive.ensure (g.tableBase + cluster / 256))
      return data.val.numberAt (2 * (cluster % 256)) 2
  | .fat32 =>
      let data ← onDrive (Drive.ensure (g.tableBase + cluster / 128))
      return data.val.numberAt (4 * (cluster % 128)) 4 % 0x10000000

end Volume

end CartBoot.Fat
