import CartBoot.Error
import CartBoot.Fat.Format

/-!
# Volume geometry

The five numbers that a cluster walker needs from a mounted FAT volume. They are
fixed at mount time and travel unchanged into the boot descriptor, so the second
stage streams files without reading the boot sector again.

A `Geometry` carries the proof that its numbers fit together: clusters have a
power-of-two size, there is at least one of them, the table does not start above
the data area, and the whole data area is addressable with 32-bit sector numbers.
-/

namespace CartBoot.Fat

/-- Bytes per sector; only 512-byte media are supported. -/
def sectorSize : Nat := 512

theorem sectorSize_pos : 0 < sectorSize := by
  decide

/-- The conditions on the numbers of a volume. -/
structure Geometry.Consistent (tableBase dataBase clusterSize entryCount : Nat) : Prop where
  clusterSize_pow : clusterSize.isPowerOfTwo
  clusterSize_lt : clusterSize < 0x10000
  /-- There is at least one data cluster; the first two entries stand for none. -/
  two_lt_entryCount : 2 < entryCount
  entryCount_lt : entryCount < 0x100000000
  /-- The data area does not start below the table. -/
  tableBase_le : tableBase ≤ dataBase
  /-- The sector after the data area still has a 32-bit number. -/
  dataEnd_lt : dataBase + clusterSize * (entryCount - 2) < 0x100000000

instance (tableBase dataBase clusterSize entryCount : Nat) :
    Decidable (Geometry.Consistent tableBase dataBase clusterSize entryCount) :=
  decidable_of_iff
    (clusterSize.isPowerOfTwo ∧ clusterSize < 0x10000 ∧ 2 < entryCount ∧ entryCount < 0x100000000
      ∧ tableBase ≤ dataBase ∧ dataBase + clusterSize * (entryCount - 2) < 0x100000000)
    ⟨fun ⟨h1, h2, h3, h4, h5, h6⟩ => ⟨h1, h2, h3, h4, h5, h6⟩,
     fun ⟨h1, h2, h3, h4, h5, h6⟩ => ⟨h1, h2, h3, h4, h5, h6⟩⟩

/-- The geometry of one mounted volume. -/
structure Geometry where
  format : Format
  tableBase : Nat
  dataBase : Nat
  clusterSize : Nat
  /-- Entries of the table, the two reserved ones included. -/
  entryCount : Nat
  /-- The numbers fit together. -/
  consistent : Geometry.Consistent tableBase dataBase clusterSize entryCount
  deriving DecidableEq

namespace Geometry

/-- Check numbers that come from outside. -/
def check (format : Format) (tableBase dataBase clusterSize entryCount : Nat) :
    Except Error Geometry :=
  if h : Consistent tableBase dataBase clusterSize entryCount then
    .ok ⟨format, tableBase, dataBase, clusterSize, entryCount, h⟩
  else
    .error .invalidGeometry

def clusterBytes (g : Geometry) : Nat :=
  g.clusterSize * sectorSize

/-- Data clusters of the volume. -/
def clusterCount (g : Geometry) : Nat :=
  g.entryCount - 2

/-- The sector after the data area. -/
def dataEnd (g : Geometry) : Nat :=
  g.dataBase + g.clusterSize * g.clusterCount

/-- A cluster that the table has an entry for: numbering starts at 2. -/
def HasCluster (g : Geometry) (cluster : Nat) : Prop :=
  2 ≤ cluster ∧ cluster < g.entryCount

instance (g : Geometry) (cluster : Nat) : Decidable (g.HasCluster cluster) :=
  inferInstanceAs (Decidable (_ ∧ _))

/-- First sector of a cluster, or `none` when the cluster has no place in the data area or its
sector number would not fit 32 bits. -/
def firstSector? (g : Geometry) (cluster : Nat) : Option Nat :=
  if 2 ≤ cluster ∧ cluster - 2 < g.clusterCount then
    let sector := g.dataBase + g.clusterSize * (cluster - 2)
    if sector < 0x100000000 then some sector else none
  else
    none

theorem clusterSize_pos (g : Geometry) : 0 < g.clusterSize := by
  obtain ⟨k, hk⟩ := g.consistent.clusterSize_pow
  rw [hk]
  exact Nat.two_pow_pos k

theorem clusterBytes_pos (g : Geometry) : 0 < g.clusterBytes :=
  Nat.mul_pos g.clusterSize_pos sectorSize_pos

theorem dataEnd_lt (g : Geometry) : g.dataEnd < 0x100000000 :=
  g.consistent.dataEnd_lt

end Geometry

end CartBoot.Fat
