import CartBoot.Proofs.Descriptor
import CartBoot.Proofs.Mounting

/-!
# Which sectors describe a volume

A sector is taken for a boot sector on a dozen conditions on its bytes. `Declares`
lists them without the order in which they are looked at: two of the counts have a
short and a long field, and the number of clusters, which comes last, decides
whether there may be a root directory.

The layout is then checked a second time, as a geometry. Of that check nothing is
left to fail but the number of clusters: all other numbers lie below the end of the
volume, and that is a 32-bit number. So a sector that declares a volume is refused
only when the data area is smaller than one cluster, and every other refusal means
that there is no filesystem.
-/

namespace CartBoot.Fat

/-! ## What the bytes of a sector declare -/

namespace BootSector

/-- A count with a 16-bit field at `short` and a 32-bit field at `long`. The long field
counts where the short one is zero. -/
def countAt (sector : ByteArray) (short long : Nat) : Nat :=
  if sector.numberAt short 2 = 0 then sector.numberAt long 4 else sector.numberAt short 2

/-- Sectors of the volume. -/
def declaredTotal (sector : ByteArray) : Nat :=
  countAt sector 19 32

/-- Sectors of one table. -/
def declaredTable (sector : ByteArray) : Nat :=
  countAt sector 22 36

/-- Reserved sectors, tables and root directory, at sixteen entries a sector. -/
def declaredSystem (sector : ByteArray) : Nat :=
  sector.numberAt 14 2 + sector.numberAt 16 1 * declaredTable sector + sector.numberAt 17 2 / 16

/-- Clusters that fit behind the system area as a whole. -/
def declaredClusters (sector : ByteArray) : Nat :=
  (declaredTotal sector - declaredSystem sector) / sector.numberAt 13 1

/-- A sector at `start` that declares a volume, be it one without a single cluster. -/
structure Declares (sector : ByteArray) (start : Nat) : Prop where
  signature : sector.byteAt 510 = 0x55 ∧ sector.byteAt 511 = 0xAA
  sectorBytes : sector.numberAt 11 2 = 512
  /-- So it is not zero either. -/
  clusterSectors : ∃ k, sector.numberAt 13 1 = 2 ^ k
  reserved : 1 ≤ sector.numberAt 14 2
  tables : sector.numberAt 16 1 = 1 ∨ sector.numberAt 16 1 = 2
  rootEntries : 16 ∣ sector.numberAt 17 2
  table : declaredTable sector ≠ 0
  system : declaredSystem sector < declaredTotal sector
  total : start + declaredTotal sector ≤ 2 ^ 32 - 1
  /-- More clusters than 16-bit entries can number leave no room for a root directory. -/
  noRoot : 0xFFF5 < declaredClusters sector → sector.numberAt 17 2 = 0

variable {sector : ByteArray} {start : Nat}

theorem totalSectors_ofSector (sector : ByteArray) :
    (ofSector sector).totalSectors = declaredTotal sector :=
  ite_not ..

theorem tableSectors_ofSector (sector : ByteArray) :
    (ofSector sector).tableSectors = declaredTable sector :=
  ite_not ..

theorem systemSectors_ofSector (sector : ByteArray) :
    (ofSector sector).systemSectors = declaredSystem sector := by
  unfold systemSectors declaredSystem rootEntriesPerSector sectorSize
  rw [tableSectors_ofSector, Nat.mul_comm, Nat.add_comm (_ * _)]
  rfl

theorem clusterCount_ofSector (sector : ByteArray) :
    (ofSector sector).clusterCount = declaredClusters sector := by
  unfold clusterCount declaredClusters
  rw [totalSectors_ofSector, systemSectors_ofSector]
  rfl

theorem signed_ofSector :
    (ofSector sector).signed = true ↔ sector.byteAt 510 = 0x55 ∧ sector.byteAt 511 = 0xAA := by
  show (decide _ && decide _) = true ↔ _
  rw [Bool.and_eq_true, decide_eq_true_iff, decide_eq_true_iff]

/-- **The conditions are those that the fields are checked for.** -/
theorem declares_iff : Declares sector start ↔ (ofSector sector).Plausible start := by
  have htables : sector.numberAt 16 1 = 1 ∨ sector.numberAt 16 1 = 2
      ↔ 0 < sector.numberAt 16 1 ∧ sector.numberAt 16 1 ≤ 2 := by omega
  have hroot : (ofSector sector).format = .fat32 ↔ 0xFFF5 < declaredClusters sector := by
    rw [format_eq_fat32_iff, clusterCount_ofSector]
  constructor
  · intro h
    obtain ⟨hpos, hle⟩ := htables.mp h.tables
    refine ⟨signed_ofSector.mpr h.signature, h.sectorBytes, h.clusterSectors, h.reserved, hpos, hle,
      Nat.mod_eq_zero_of_dvd h.rootEntries, ?_, ?_, ?_, fun hf => h.noRoot (hroot.mp hf)⟩
    · rw [tableSectors_ofSector]
      exact Nat.pos_of_ne_zero h.table
    · rw [systemSectors_ofSector, totalSectors_ofSector]
      exact h.system
    · rw [totalSectors_ofSector]
      have := h.total
      omega
  · intro h
    have htable := h.tableSectors_pos
    have hsystem := h.systemSectors_lt
    have htotal := h.end_lt
    rw [tableSectors_ofSector] at htable
    rw [systemSectors_ofSector, totalSectors_ofSector] at hsystem
    rw [totalSectors_ofSector] at htotal
    exact {
      signature := signed_ofSector.mp h.signed
      sectorBytes := h.bytesPerSector_eq
      clusterSectors := h.sectorsPerCluster_pow
      reserved := h.reservedSectors_pos
      tables := htables.mpr ⟨h.tableCount_pos, h.tableCount_le⟩
      rootEntries := Nat.dvd_of_mod_eq_zero h.rootEntries_dvd
      table := Nat.ne_of_gt htable
      system := hsystem
      total := by omega
      noRoot := fun hmany => h.root_of_fat32 (hroot.mpr hmany) }

/-! ## Nothing grows past the end of the volume -/

section

variable {b : BootSector}

/-- All numbers that the layout is computed from and through, in the order of their use. -/
def reckoning (b : BootSector) (start : Nat) : List Nat :=
  [b.tableSectors, b.totalSectors, b.tableSectors * b.tableCount,
    b.tableSectors * b.tableCount + b.reservedSectors, b.systemSectors, start + b.totalSectors,
    b.totalSectors - b.systemSectors, b.clusterCount, start + b.reservedSectors,
    start + b.systemSectors, b.clusterCount + 2, b.sectorsPerCluster * b.clusterCount,
    start + b.systemSectors + b.sectorsPerCluster * b.clusterCount]

theorem Plausible.sectorsPerCluster_pos (h : b.Plausible start) : 0 < b.sectorsPerCluster := by
  obtain ⟨k, hk⟩ := h.sectorsPerCluster_pow
  rw [hk]
  exact Nat.two_pow_pos k

/-- There is a table between the reserved sectors and the data area. -/
theorem Plausible.reservedSectors_lt (h : b.Plausible start) :
    b.reservedSectors < b.systemSectors := by
  have htables : 0 < b.tableSectors * b.tableCount :=
    Nat.mul_pos h.tableSectors_pos h.tableCount_pos
  unfold systemSectors
  generalize b.rootEntries / rootEntriesPerSector = rootSectors
  omega

/-- The clusters take what is behind the system area, but for a rest that is no cluster. -/
theorem Plausible.clusters_end (h : b.Plausible start) :
    b.systemSectors + b.sectorsPerCluster * b.clusterCount ≤ b.totalSectors
      ∧ b.totalSectors
        < b.systemSectors + b.sectorsPerCluster * b.clusterCount + b.sectorsPerCluster := by
  have hsystem := h.systemSectors_lt
  have hrest : (b.totalSectors - b.systemSectors) % b.sectorsPerCluster < b.sectorsPerCluster :=
    Nat.mod_lt _ h.sectorsPerCluster_pos
  have hsplit : b.sectorsPerCluster * b.clusterCount
      + (b.totalSectors - b.systemSectors) % b.sectorsPerCluster
      = b.totalSectors - b.systemSectors := Nat.div_add_mod ..
  omega

/-- **No number on the way exceeds 32 bits.** -/
theorem Plausible.reckoning_lt (h : b.Plausible start) : ∀ n ∈ b.reckoning start, n < 2 ^ 32 := by
  have hend := h.end_lt
  have hsystem := h.systemSectors_lt
  have hreserved := h.reservedSectors_lt
  obtain ⟨hclusters, -⟩ := h.clusters_end
  have htable : b.tableSectors * 1 ≤ b.tableSectors * b.tableCount :=
    Nat.mul_le_mul_left _ h.tableCount_pos
  have hcount : 1 * b.clusterCount ≤ b.sectorsPerCluster * b.clusterCount :=
    Nat.mul_le_mul_right _ h.sectorsPerCluster_pos
  have hsum : b.tableSectors * b.tableCount + b.reservedSectors ≤ b.systemSectors :=
    Nat.le_add_right _ _
  have hpos := h.reservedSectors_pos
  intro n hn
  simp only [reckoning, List.mem_cons, List.not_mem_nil, or_false] at hn
  rcases hn with rfl | rfl | rfl | rfl | rfl | rfl | rfl | rfl | rfl | rfl | rfl | rfl | rfl <;>
    omega

/-- Of the second check only the number of clusters is left. -/
theorem Plausible.consistent_iff (h : b.Plausible start) (hsize : b.sectorsPerCluster < 0x10000) :
    Geometry.Consistent (start + b.reservedSectors) (start + b.systemSectors) b.sectorsPerCluster
      (b.clusterCount + 2) ↔ 0 < b.clusterCount := by
  have hfits := h.reckoning_lt
  constructor
  · intro hconsistent
    have := hconsistent.two_lt_entryCount
    omega
  · intro hpos
    have hreserved := h.reservedSectors_lt
    exact {
      clusterSize_pow := h.sectorsPerCluster_pow
      clusterSize_lt := hsize
      two_lt_entryCount := by omega
      entryCount_lt := hfits _ (by simp [reckoning])
      tableBase_le := by omega
      dataEnd_lt := by
        rw [Nat.add_sub_cancel]
        exact hfits _ (by simp [reckoning]) }

end

/-! ## The three answers -/

theorem geometry_of_not_plausible {b : BootSector} (h : ¬ b.Plausible start) :
    b.geometry start = .error .noFilesystem :=
  if_neg h

theorem Plausible.geometry_eq_error {b : BootSector} (h : b.Plausible start)
    (hsize : b.sectorsPerCluster < 0x10000) (hnone : b.clusterCount = 0) :
    b.geometry start = .error .invalidGeometry := by
  have hfails : ¬ Geometry.Consistent (start + b.reservedSectors) (start + b.systemSectors)
      b.sectorsPerCluster (b.clusterCount + 2) := fun hconsistent => by
    have hpos := (h.consistent_iff hsize).mp hconsistent
    omega
  unfold geometry Geometry.check
  rw [if_pos h, dif_neg hfails]

theorem Plausible.exists_geometry_eq {b : BootSector} (h : b.Plausible start)
    (hsize : b.sectorsPerCluster < 0x10000) (hsome : 0 < b.clusterCount) :
    ∃ g, b.geometry start = .ok g := by
  have hconsistent := (h.consistent_iff hsize).mpr hsome
  unfold geometry Geometry.check
  rw [if_pos h, dif_pos hconsistent]
  exact ⟨_, rfl⟩

/-- What comes of a sector: no filesystem, a volume without a cluster, or a geometry. -/
theorem ofBootSector_cases (sector : ByteArray) (start : Nat) :
    (¬ Declares sector start ∧ Geometry.ofBootSector sector start = .error .noFilesystem)
      ∨ (Declares sector start ∧ declaredClusters sector = 0
        ∧ Geometry.ofBootSector sector start = .error .invalidGeometry)
      ∨ (Declares sector start ∧ 1 ≤ declaredClusters sector
        ∧ ∃ g, Geometry.ofBootSector sector start = .ok g) := by
  -- one byte holds the cluster size
  have hbyte : (ofSector sector).sectorsPerCluster < 256 := sector.numberAt_lt 13 1
  by_cases hdeclares : Declares sector start
  · have hplausible := declares_iff.mp hdeclares
    rcases Nat.eq_zero_or_pos (declaredClusters sector) with hnone | hsome
    · exact .inr (.inl ⟨hdeclares, hnone,
        hplausible.geometry_eq_error (by omega) (by rwa [clusterCount_ofSector])⟩)
    · exact .inr (.inr ⟨hdeclares, hsome,
        hplausible.exists_geometry_eq (by omega) (by rwa [clusterCount_ofSector])⟩)
  · exact .inl ⟨hdeclares, geometry_of_not_plausible fun h => hdeclares (declares_iff.mpr h)⟩

end BootSector

/-- How a geometry lies in the `total` sectors from `start` on. -/
structure Geometry.LaidOut (g : Geometry) (start total : Nat) : Prop where
  reserved : start < g.tableBase
  table : g.tableBase < g.dataBase
  inside : g.dataEnd ≤ start + total
  /-- Another cluster would not fit. -/
  full : start + total < g.dataEnd + g.clusterSize
  fat12 : g.format = .fat12 ↔ g.clusterCount ≤ 0xFF5
  fat16 : g.format = .fat16 ↔ 0xFF5 < g.clusterCount ∧ g.clusterCount ≤ 0xFFF5
  fat32 : g.format = .fat32 ↔ 0xFFF5 < g.clusterCount

namespace BootSector

theorem Describes.clusterCount {b : BootSector} {start : Nat} {g : Geometry}
    (h : b.Describes start g) : g.clusterCount = b.clusterCount := by
  unfold Geometry.clusterCount
  rw [h.entryCount, Nat.add_sub_cancel]

/-- What is described fills its volume. -/
theorem Describes.laidOut {b : BootSector} {start : Nat} {g : Geometry}
    (h : b.Describes start g) : g.LaidOut start b.totalSectors := by
  have hreserved := h.reservedSectors_lt
  have hpos := h.reservedSectors_pos
  obtain ⟨hclusters, hrest⟩ := h.clusters_end
  have hend : g.dataEnd
      = start + b.systemSectors + b.sectorsPerCluster * b.clusterCount := by
    unfold Geometry.dataEnd
    rw [h.dataBase, h.clusterSize, h.clusterCount]
  exact {
    reserved := by rw [h.tableBase]; omega
    table := by rw [h.tableBase, h.dataBase]; omega
    inside := by rw [hend]; omega
    full := by rw [hend, h.clusterSize]; omega
    fat12 := by rw [h.format, h.clusterCount]; exact b.format_eq_fat12_iff
    fat16 := by rw [h.format, h.clusterCount]; exact b.format_eq_fat16_iff
    fat32 := by rw [h.format, h.clusterCount]; exact b.format_eq_fat32_iff }

/-- **Which sectors describe a volume, and what they describe.** A sector at `start` is accepted
exactly when it declares a volume with at least one whole cluster. Without a cluster, and only
then, its geometry is refused; any other sector holds no filesystem. What is accepted is the
geometry that the fields spell; it lies in order in the volume, which it fills but for less than
a cluster, its format is the one that the number of clusters implies, and no number that it was
computed through exceeds 32 bits. -/
theorem ofBootSector_exact (sector : ByteArray) (start : Nat) :
    ((∃ g, Geometry.ofBootSector sector start = .ok g) ↔
        Declares sector start ∧ 1 ≤ declaredClusters sector)
      ∧ (Geometry.ofBootSector sector start = .error .invalidGeometry ↔
        Declares sector start ∧ ¬ 1 ≤ declaredClusters sector)
      ∧ (Geometry.ofBootSector sector start = .error .noFilesystem ↔ ¬ Declares sector start)
      ∧ ∀ g, Geometry.ofBootSector sector start = .ok g →
        g.tableBase = start + sector.numberAt 14 2
          ∧ g.dataBase = start + declaredSystem sector
          ∧ g.clusterSize = sector.numberAt 13 1
          ∧ g.entryCount = declaredClusters sector + 2
          ∧ g.LaidOut start (declaredTotal sector)
          ∧ ∀ n ∈ (ofSector sector).reckoning start, n < 2 ^ 32 := by
  refine ⟨?_, ?_, ?_, fun g hg => ?_⟩
  · rcases ofBootSector_cases sector start with ⟨hnot, h⟩ | ⟨_, hnone, h⟩ | ⟨hdeclares, hsome, h⟩
    · exact iff_of_false (by rw [h]; nofun) fun h => hnot h.1
    · exact iff_of_false (by rw [h]; nofun) fun h => by omega
    · exact iff_of_true h ⟨hdeclares, hsome⟩
  · rcases ofBootSector_cases sector start with ⟨hnot, h⟩ | ⟨hdeclares, hnone, h⟩ | ⟨_, hsome, _, h⟩
    · exact iff_of_false (by rw [h]; nofun) fun h => hnot h.1
    · exact iff_of_true h ⟨hdeclares, by omega⟩
    · exact iff_of_false (by rw [h]; nofun) fun h => h.2 hsome
  · rcases ofBootSector_cases sector start with ⟨hnot, h⟩ | ⟨hdeclares, _, h⟩ | ⟨hdeclares, _, _, h⟩
    · exact iff_of_true h hnot
    · exact iff_of_false (by rw [h]; nofun) fun h => h hdeclares
    · exact iff_of_false (by rw [h]; nofun) fun h => h hdeclares
  · have hdescribes := describes_of_geometry hg
    refine ⟨hdescribes.tableBase, ?_, hdescribes.clusterSize, ?_, ?_, hdescribes.reckoning_lt⟩
    · rw [hdescribes.dataBase, systemSectors_ofSector]
    · rw [hdescribes.entryCount, clusterCount_ofSector]
    · rw [← totalSectors_ofSector]
      exact hdescribes.laidOut

/-- A disk whose boot sector leaves ten sectors for clusters of sixteen. -/
def clusterlessDisk : Disk where
  sectorCount := 12
  blank := sparseBytes [(510, 0x55), (511, 0xAA), (12, 2), (13, 16), (14, 1), (16, 1), (19, 12),
    (22, 1)]

/-- All three answers occur. -/
theorem answers_occur :
    (Declares (mountableDisk.sector 0) 0 ∧ 1 ≤ declaredClusters (mountableDisk.sector 0)
        ∧ mountableGeometry.LaidOut 0 (declaredTotal (mountableDisk.sector 0)))
      ∧ (Declares (clusterlessDisk.sector 0) 0
        ∧ ¬ 1 ≤ declaredClusters (clusterlessDisk.sector 0))
      ∧ ¬ Declares ((Disk.zeroed 1).sector 0) 0 := by
  refine ⟨?_, ?_, ?_⟩
  · obtain ⟨haccepted, -, -, hlaid⟩ := ofBootSector_exact (mountableDisk.sector 0) 0
    obtain ⟨hdeclares, hsome⟩ := haccepted.mp ⟨_, ofBootSector_mountable⟩
    exact ⟨hdeclares, hsome, (hlaid _ ofBootSector_mountable).2.2.2.2.1⟩
  · refine (ofBootSector_exact (clusterlessDisk.sector 0) 0).2.1.mp ?_
    unfold Geometry.ofBootSector
    rw [ofSector_sector_zero]
    rfl
  · refine (ofBootSector_exact ((Disk.zeroed 1).sector 0) 0).2.2.1.mp ?_
    unfold Geometry.ofBootSector
    rw [ofSector_sector_zero]
    rfl

end BootSector

end CartBoot.Fat
