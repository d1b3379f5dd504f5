import CartBoot.Bytes
import CartBoot.Fat.Geometry

/-!
# Boot sectors

The first sector of a FAT volume describes it: sector and cluster size, reserved
sectors, number and size of the tables, entries of the root directory, total
size. Two of the counts have a 16-bit and a 32-bit field, and the 32-bit field
counts only where the other is zero.

The layout of the volume follows: reserved sectors, tables, root directory, then
data clusters to the end. How many clusters fit decides the table format.
-/

namespace CartBoot.Fat

/-- The fields of a boot sector that the layout depends on. -/
structure BootSector where
  /-- The two bytes that every boot sector ends with are there. -/
  signed : Bool
  bytesPerSector : Nat
  sectorsPerCluster : Nat
  reservedSectors : Nat
  tableCount : Nat
  rootEntries : Nat
  totalSectors16 : Nat
  tableSectors16 : Nat
  totalSectors32 : Nat
  tableSectors32 : Nat
  deriving DecidableEq, Repr

namespace BootSector

/-- Whether a sector ends in the boot signature. -/
def isSigned (sector : ByteArray) : Bool :=
  sector.byteAt 510 = 0x55 && sector.byteAt 511 = 0xAA

def ofSector (sector : ByteArray) : BootSector where
  signed := isSigned sector
  bytesPerSector := sector.numberAt 11 2
  sectorsPerCluster := sector.numberAt 13 1
  reservedSectors := sector.numberAt 14 2
  tableCount := sector.numberAt 16 1
  rootEntries := sector.numberAt 17 2
  totalSectors16 := sector.numberAt 19 2
  tableSectors16 := sector.numberAt 22 2
  totalSectors32 := sector.numberAt 32 4
  tableSectors32 := sector.numberAt 36 4

def tableSectors (b : BootSector) : Nat :=
  if b.tableSectors16 ≠ 0 then b.tableSectors16 else b.tableSectors32

def totalSectors (b : BootSector) : Nat :=
  if b.totalSectors16 ≠ 0 then b.totalSectors16 else b.totalSectors32

/-- Directory entries take 32 bytes each. -/
def rootEntriesPerSector : Nat := sectorSize / 32

def systemSectors (b : BootSector) : Nat :=
  b.tableSectors * b.tableCount + b.reservedSectors + b.rootEntries / rootEntriesPerSector

/-- Whole clusters that fit above the system area. -/
def clusterCount (b : BootSector) : Nat :=
  (b.totalSectors - b.systemSectors) / b.sectorsPerCluster

/-- The table format that the number of clusters implies. -/
def format (b : BootSector) : Format :=
  if b.clusterCount ≤ 0xFF5 then .fat12
  else if b.clusterCount ≤ 0xFFF5 then .fat16
  else .fat32

/-- What a sector at `start` must satisfy to be taken for the boot sector of a volume. -/
structure Plausible (b : BootSector) (start : Nat) : Prop where
  signed : b.signed = true
  bytesPerSector_eq : b.bytesPerSector = sectorSize
  sectorsPerCluster_pow : b.sectorsPerCluster.isPowerOfTwo
  reservedSectors_pos : 0 < b.reservedSectors
  tableCount_pos : 0 < b.tableCount
  tableCount_le : b.tableCount ≤ 2
  /-- The root directory fills its sectors. -/
  rootEntries_dvd : b.rootEntries % rootEntriesPerSector = 0
  tableSectors_pos : 0 < b.tableSectors
  systemSectors_lt : b.systemSectors < b.totalSectors
  /-- The sector after the volume still has a 32-bit number. -/
  end_lt : start + b.totalSectors < 0x100000000
  /-- Large volumes keep their root directory in a cluster chain. -/
  root_of_fat32 : b.format = .fat32 → b.rootEntries = 0

instance (b : BootSector) (start : Nat) : Decidable (b.Plausible start) :=
  decidable_of_iff
    (b.signed = true ∧ b.bytesPerSector = sectorSize ∧ b.sectorsPerCluster.isPowerOfTwo
      ∧ 0 < b.reservedSectors ∧ 0 < b.tableCount ∧ b.tableCount ≤ 2
      ∧ b.rootEntries % rootEntriesPerSector = 0 ∧ 0 < b.tableSectors
      ∧ b.systemSectors < b.totalSectors ∧ start + b.totalSectors < 0x100000000
      ∧ (b.format = .fat32 → b.rootEntries = 0))
    ⟨fun ⟨h1, h2, h3, h4, h5, h6, h7, h8, h9, h10, h11⟩ =>
      ⟨h1, h2, h3, h4, h5, h6, h7, h8, h9, h10, h11⟩,
     fun ⟨h1, h2, h3, h4, h5, h6, h7, h8, h9, h10, h11⟩ =>
      ⟨h1, h2, h3, h4, h5, h6, h7, h8, h9, h10, h11⟩⟩

/-- The geometry of the volume whose boot sector lies at sector `start`. -/
def geometry (b : BootSector) (start : Nat) : Except Error Geometry :=
  if b.Plausible start then
    Geometry.check b.format (start + b.reservedSectors) (start + b.systemSectors)
      b.sectorsPerCluster (b.clusterCount + 2)
  else
    .error .noFilesystem

end BootSector

/-- Derive the geometry of a volume from its boot sector at sector `start`. -/
def Geometry.ofBootSector (sector : ByteArray) (start : Nat) : Except Error Geometry :=
  (BootSector.ofSector sector).geometry start

end CartBoot.Fat
