import CartBoot.Fat.Volume

/-!
# Formatting

A freshly formatted volume: a boot sector, one allocation table with all entries
free, and a data area whose sectors all differ. Entries are set one at a time or
as whole chains, and `Image.bootSector` describes the volume in the form that
mounting reads back.
-/

namespace CartBoot.Fat

/-- A formatted disk and its geometry. -/
structure Image where
  disk : Disk
  geometry : Geometry

namespace Image

/-- Sectors that a table of `entryCount` entries takes. -/
def tableSectorsFor (format : Format) (entryCount : Nat) : Nat :=
  (format.tableBytes entryCount + (sectorSize - 1)) / sectorSize

/-- Format a disk: the boot sector, the table from sector 1 on, the data area right after it.
Tables whose size is no 32-bit number are refused. -/
def make (format : Format) (clusterSize entryCount : Nat) : Except Error Image := do
  if 0x100000000 ≤ format.tableUnits entryCount then
    throw .invalidGeometry
  let dataBase := 1 + tableSectorsFor format entryCount
  let geometry ← Geometry.check format 1 dataBase clusterSize entryCount
  return ⟨.patternedFrom geometry.dataEnd dataBase, geometry⟩

/-- Store a raw table entry. Sixteen- and 32-bit entries keep that many bits of the value; a
packed entry keeps twelve and leaves the half byte of its neighbour as it is. -/
def setEntry (image : Image) (cluster value : Nat) : Image :=
  let base := sectorSize * image.geometry.tableBase
  let put (address width n : Nat) : Image :=
    { image with
      disk := image.disk.poke address (ByteArray.littleEndian width n).toByteArray }
  match image.geometry.format with
  | .fat12 =>
      let address := base + (cluster + cluster / 2)
      let pair := (image.disk.byte address).toNat + 256 * (image.disk.byte (address + 1)).toNat
      let value := value % 0x1000
      put address 2
        (if cluster % 2 = 1 then pair % 16 + 16 * value else 0x1000 * (pair / 0x1000) + value)
  | .fat16 => put (base + 2 * cluster) 2 value
  | .fat32 => put (base + 4 * cluster) 4 value

/-- Chain clusters in the given order and end the chain after the last. -/
def link (image : Image) : List Nat → Image
  | [] => image
  | [last] => image.setEntry last image.geometry.format.endMark
  | cluster :: next :: rest => (image.setEntry cluster next).link (next :: rest)

/-- The contents of clusters, one after the other. -/
def contents (image : Image) (clusters : List Nat) : ByteArray :=
  clusters.foldl
    (fun out cluster =>
      match image.geometry.firstSector? cluster with
      | some s => out ++ image.disk.sectors s image.geometry.clusterSize
      | none => out)
    .empty

/-- The boot sector that describes a volume of `total` sectors. Each count goes into its
16-bit field if it belongs there and into the 32-bit one otherwise. -/
def bootSector (g : Geometry) (total : Nat) : ByteArray :=
  let tableSectors := g.dataBase - g.tableBase
  let sector := ByteArray.replicate sectorSize 0
  let sector := sector.patch 0 [0xEB, 0x3C, 0x90].toByteArray
  let sector := sector.patch 3 "MOCKFAT ".toUTF8
  let sector := sector.putNumber 11 2 sectorSize
  let sector := sector.putNumber 13 1 g.clusterSize
  let sector := sector.putNumber 14 2 g.tableBase
  let sector := sector.putNumber 16 1 1
  let sector := if total < 0x10000 then sector.putNumber 19 2 total else sector.putNumber 32 4 total
  let sector :=
    if g.format = .fat32 then sector.putNumber 36 4 tableSectors
    else sector.putNumber 22 2 tableSectors
  sector.patch 510 [0x55, 0xAA].toByteArray

def labelled (image : Image) : Disk :=
  image.disk.setSector 0 (bootSector image.geometry image.disk.sectorCount)

end Image

end CartBoot.Fat
