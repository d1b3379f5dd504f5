import CartBoot.Proofs.BootSectors
import CartBoot.Proofs.Entries

/-!
# Formatted volumes are mounted again

Formatting starts from a number of entries: the table is rounded up to whole
sectors, the data area begins behind it, and the total follows. Mounting goes the
other way. It takes total and table size from the boot sector, each from one of two
fields, divides what is left into clusters, and takes the format from their number.

The two agree because the data area is a whole number of clusters, so the division
leaves no rest, and because a format is only formatted with as many entries as
imply it. A partition table in front adds its offset to both bases and to nothing
else: the boot sector counts from the start of its volume.
-/

namespace ByteArray

variable {b src : ByteArray} {i j width w n : Nat}

/-! ## Numbers in overwritten bytes -/

@[simp] theorem size_putNumber : (b.putNumber i width n).size = b.size :=
  size_patch _ _ _

/-- A number beside an overwritten stretch stays. -/
theorem numberAt_patch_of_apart (h : j + w ≤ i ∨ i + src.size ≤ j) :
    (b.patch i src).numberAt j w = b.numberAt j w :=
  CartBoot.numberAt_congr w fun k hk => byteAt_patch_of_not_mem (by omega)

theorem numberAt_putNumber_of_apart (h : j + w ≤ i ∨ i + width ≤ j) :
    (b.putNumber i width n).numberAt j w = b.numberAt j w :=
  numberAt_patch_of_apart (by rwa [size_littleEndian])

/-- A number that was put is read back, as far as its bytes go. -/
theorem numberAt_putNumber_self (h : i + width ≤ b.size) :
    (b.putNumber i width n).numberAt i width = n % 256 ^ width := by
  refine numberAt_littleEndian fun k hk => ?_
  rw [putNumber, byteAt_patch _ _ _ _ (by omega), size_littleEndian, if_pos (by omega),
    Nat.add_sub_cancel_left, byteAt_toByteArray]

theorem numberAt_replicate_zero : (replicate n 0).numberAt i width = 0 := by
  induction width generalizing i with
  | zero => rfl
  | succ width ih =>
      rw [numberAt, ih, byteAt_replicate, ite_self]
      rfl

end ByteArray

namespace CartBoot

open Fat

/-- A sector just replaced is read back. -/
theorem Disk.sector_setSector_self {d : Disk} {s : Nat} {data : ByteArray}
    (h : data.size = sectorSize) : (d.setSector s data).sector s = data := by
  refine ByteArray.ext_byteAt (by rw [size_sector, h]) fun i hi => ?_
  rw [size_sector] at hi
  have hs : (sectorSize * s + i) / sectorSize = s := by
    unfold sectorSize at *
    omega
  have hm : (sectorSize * s + i) % sectorSize = i := by
    unfold sectorSize at *
    omega
  rw [byteAt_sector _ _ _ hi, byte_setSector, if_pos hs, hm]

namespace Fat

theorem BootSector.isSigned_patch {sector : ByteArray} (h : 512 ≤ sector.size) :
    isSigned (sector.patch 510 [0x55, 0xAA].toByteArray) = true := by
  have hbyte : ∀ i, 510 ≤ i → i < 512 → (sector.patch 510 [0x55, 0xAA].toByteArray).byteAt i
      = [0x55, 0xAA].toByteArray.byteAt (i - 510) := by
    intro i hlow hhigh
    rw [ByteArray.byteAt_patch _ _ _ _ (by omega), if_pos ⟨hlow, hhigh⟩]
  unfold isSigned
  rw [hbyte 510 (by omega) (by omega), hbyte 511 (by omega) (by omega)]
  rfl

/-! ## The boot sector that formatting writes -/

namespace Image

/-- Behind the jump and the label the sector is still empty. -/
theorem numberAt_label {j w : Nat} (h : 11 ≤ j) :
    (((ByteArray.replicate sectorSize 0).patch 0 [0xEB, 0x3C, 0x90].toByteArray).patch 3
      "MOCKFAT ".toUTF8).numberAt j w = 0 := by
  have hjump : [0xEB, 0x3C, 0x90].toByteArray.size = 3 := rfl
  have hlabel : "MOCKFAT ".toUTF8.size = 8 := rfl
  rw [ByteArray.numberAt_patch_of_apart (by omega), ByteArray.numberAt_patch_of_apart (by omega),
    ByteArray.numberAt_replicate_zero]

/-- **The fields of the boot sector.** Numbers are cut to the width of their fields, and of two
fields for one count the other is zero. -/
theorem ofSector_bootSector (g : Geometry) (total : Nat) :
    BootSector.ofSector (bootSector g total) = {
      signed := true
      bytesPerSector := sectorSize
      sectorsPerCluster := g.clusterSize % 256
      reservedSectors := g.tableBase % 0x10000
      tableCount := 1
      rootEntries := 0
      totalSectors16 := if total < 0x10000 then total else 0
      tableSectors16 := if g.format = .fat32 then 0 else (g.dataBase - g.tableBase) % 0x10000
      totalSectors32 := if total < 0x10000 then 0 else total % 0x100000000
      tableSectors32 :=
        if g.format = .fat32 then (g.dataBase - g.tableBase) % 0x100000000 else 0 } := by
  unfold bootSector BootSector.ofSector
  dsimp only
  -- which of two fields a count is in
  by_cases ht : total < 0x10000 <;> by_cases hf : g.format = .fat32 <;>
    simp (disch := simp [sectorSize]) only [ht, hf, if_true, if_false, BootSector.isSigned_patch,
      ByteArray.numberAt_patch_of_apart, ByteArray.numberAt_putNumber_of_apart,
      ByteArray.numberAt_putNumber_self, numberAt_label] <;>
    simp [sectorSize, Nat.mod_eq_of_lt, ht]

end Image

/-! ## Volumes as they are formatted -/

/-- The numbers of entries that imply the format. -/
def Format.Implied : Format → (entryCount : Nat) → Prop
  | .fat12, entryCount => 3 ≤ entryCount ∧ entryCount ≤ 0xFF7
  | .fat16, entryCount => 0xFF8 ≤ entryCount ∧ entryCount ≤ 0xFFF7
  | .fat32, entryCount => 0xFFF8 ≤ entryCount ∧ entryCount ≤ 0x0FFFFFF7

instance (format : Format) (entryCount : Nat) : Decidable (format.Implied entryCount) :=
  match format with
  | .fat12 => inferInstanceAs (Decidable (_ ∧ _))
  | .fat16 => inferInstanceAs (Decidable (_ ∧ _))
  | .fat32 => inferInstanceAs (Decidable (_ ∧ _))

/-- Numbers that a volume can be formatted with and mounted by. -/
structure Image.Mountable (format : Format) (clusterSize entryCount : Nat) : Prop where
  clusterSize_pow : clusterSize.isPowerOfTwo
  clusterSize_le : clusterSize ≤ 128
  implied : format.Implied entryCount
  /-- Boot sector, table and clusters have 32-bit numbers. -/
  total_lt : 1 + tableSectorsFor format entryCount + clusterSize * (entryCount - 2) < 2 ^ 32

/-- `g'` is `g` with `n` sectors in front. -/
structure Geometry.MovedBy (n : Nat) (g g' : Geometry) : Prop where
  format : g'.format = g.format
  tableBase : g'.tableBase = g.tableBase + n
  dataBase : g'.dataBase = g.dataBase + n
  clusterSize : g'.clusterSize = g.clusterSize
  entryCount : g'.entryCount = g.entryCount

theorem Geometry.MovedBy.eq_of_zero {g g' : Geometry} (h : g.MovedBy 0 g') : g' = g := by
  obtain ⟨format, tableBase, dataBase, clusterSize, entryCount, _⟩ := g
  obtain ⟨format', tableBase', dataBase', clusterSize', entryCount', _⟩ := g'
  obtain ⟨rfl, rfl, rfl, rfl, rfl⟩ := h
  rfl

namespace Image

section

variable {format : Format} {clusterSize entryCount : Nat}

theorem Mountable.consistent (h : Mountable format clusterSize entryCount) :
    Geometry.Consistent 1 (1 + tableSectorsFor format entryCount) clusterSize entryCount := by
  have hcount : 2 < entryCount ∧ entryCount ≤ 0x0FFFFFF7 := by
    have himplied := h.implied
    cases format <;> dsimp only [Format.Implied] at himplied <;> omega
  have hsize := h.clusterSize_le
  exact {
    clusterSize_pow := h.clusterSize_pow
    clusterSize_lt := by omega
    two_lt_entryCount := hcount.1
    entryCount_lt := by omega
    tableBase_le := by omega
    dataEnd_lt := h.total_lt }

/-- The table takes some sectors, and unless entries have 32 bits their number has 16. -/
theorem Mountable.tableSectors (h : Mountable format clusterSize entryCount) :
    0 < tableSectorsFor format entryCount ∧ tableSectorsFor format entryCount < 0x100000000
      ∧ (format ≠ .fat32 → tableSectorsFor format entryCount < 0x10000) := by
  have himplied := h.implied
  unfold tableSectorsFor Format.tableBytes Format.tableUnits sectorSize
  cases format <;> dsimp only [Format.Implied] at himplied ⊢
  · omega
  · omega
  · exact ⟨by omega, by omega, fun hne => absurd rfl hne⟩

/-- Such a volume can be formatted. -/
theorem Mountable.make_eq (h : Mountable format clusterSize entryCount) :
    make format clusterSize entryCount = .ok
      ⟨.patternedFrom (1 + tableSectorsFor format entryCount + clusterSize * (entryCount - 2))
          (1 + tableSectorsFor format entryCount),
        format, 1, 1 + tableSectorsFor format entryCount, clusterSize, entryCount,
        h.consistent⟩ := by
  have hunits : ¬ 0x100000000 ≤ format.tableUnits entryCount := by
    have himplied := h.implied
    cases format <;> dsimp only [Format.Implied, Format.tableUnits] at himplied ⊢ <;> omega
  unfold make Geometry.check
  rw [if_neg hunits]
  dsimp only
  rw [dif_pos h.consistent]
  rfl

end

section

variable {g : Geometry} {start : Nat}

/-- The geometry of a volume as formatting makes it. -/
structure Formatted (g : Geometry) : Prop
    extends Mountable g.format g.clusterSize g.entryCount where
  tableBase : g.tableBase = 1
  dataBase : g.dataBase = 1 + tableSectorsFor g.format g.entryCount

variable (h : Formatted g)

include h

theorem Formatted.dataEnd_pos : 0 < g.dataEnd := by
  have hbase := h.dataBase
  have hle : g.dataBase ≤ g.dataEnd := Nat.le_add_right _ _
  omega

theorem Formatted.tableSectors_ofSector :
    (BootSector.ofSector (bootSector g g.dataEnd)).tableSectors
      = tableSectorsFor g.format g.entryCount := by
  obtain ⟨hpos, hlong, hshort⟩ := h.tableSectors
  have hsectors : g.dataBase - g.tableBase = tableSectorsFor g.format g.entryCount := by
    rw [h.dataBase, h.tableBase, Nat.add_sub_cancel_left]
  rw [ofSector_bootSector, hsectors]
  unfold BootSector.tableSectors
  dsimp only
  by_cases hf : g.format = .fat32
  · rw [if_pos hf, if_pos hf, if_neg (by omega), Nat.mod_eq_of_lt hlong]
  · rw [if_neg hf, if_neg hf, Nat.mod_eq_of_lt (hshort hf), if_pos (by omega)]

theorem Formatted.totalSectors_ofSector :
    (BootSector.ofSector (bootSector g g.dataEnd)).totalSectors = g.dataEnd := by
  have hend := g.dataEnd_lt
  have hpos := h.dataEnd_pos
  rw [ofSector_bootSector]
  unfold BootSector.totalSectors
  dsimp only
  by_cases ht : g.dataEnd < 0x10000
  · rw [if_pos ht, if_pos ht, if_pos (by omega)]
  · rw [if_neg ht, if_neg ht, if_neg (by omega), Nat.mod_eq_of_lt hend]

theorem Formatted.sectorsPerCluster_ofSector :
    (BootSector.ofSector (bootSector g g.dataEnd)).sectorsPerCluster = g.clusterSize := by
  have hsize := h.clusterSize_le
  rw [ofSector_bootSector]
  exact Nat.mod_eq_of_lt (by omega)

theorem Formatted.systemSectors_ofSector :
    (BootSector.ofSector (bootSector g g.dataEnd)).systemSectors = g.dataBase := by
  unfold BootSector.systemSectors
  rw [h.tableSectors_ofSector, ofSector_bootSector, h.dataBase, h.tableBase]
  dsimp only [BootSector.rootEntriesPerSector, sectorSize]
  omega

/-- The division leaves no rest: the clusters are those that were formatted. -/
theorem Formatted.clusterCount_ofSector :
    (BootSector.ofSector (bootSector g g.dataEnd)).clusterCount = g.entryCount - 2 := by
  unfold BootSector.clusterCount
  rw [h.totalSectors_ofSector, h.systemSectors_ofSector, h.sectorsPerCluster_ofSector]
  unfold Geometry.dataEnd Geometry.clusterCount
  rw [Nat.add_sub_cancel_left, Nat.mul_div_cancel_left _ g.clusterSize_pos]

/-- The clusters imply the format. -/
theorem Formatted.format_ofSector :
    (BootSector.ofSector (bootSector g g.dataEnd)).format = g.format := by
  have himplied := h.implied
  have hcount := h.clusterCount_ofSector
  cases hf : g.format <;> rw [hf] at himplied <;> dsimp only [Format.Implied] at himplied
  · exact (BootSector.format_eq_fat12_iff _).mpr (by omega)
  · exact (BootSector.format_eq_fat16_iff _).mpr (by omega)
  · exact (BootSector.format_eq_fat32_iff _).mpr (by omega)

/-- Such a boot sector is accepted wherever the volume ends at a 32-bit number. -/
theorem Formatted.accepted (hend : start + g.dataEnd < 0x100000000) :
    (BootSector.ofSector (bootSector g g.dataEnd)).Plausible start := by
  have hfields := ofSector_bootSector g g.dataEnd
  obtain ⟨htable, -⟩ := h.tableSectors
  refine ⟨?_, ?_, ?_, ?_, ?_, ?_, ?_, ?_, ?_, ?_, ?_⟩
  · rw [hfields]
  · rw [hfields]
  · rw [h.sectorsPerCluster_ofSector]
    exact h.clusterSize_pow
  · rw [hfields, h.tableBase]
    exact Nat.one_pos
  · rw [hfields]
    exact Nat.one_pos
  · rw [hfields]
    exact Nat.le_succ 1
  · rw [hfields]
    rfl
  · rw [h.tableSectors_ofSector]
    exact htable
  · have hclusters : 0 < g.clusterSize * (g.entryCount - 2) :=
      Nat.mul_pos g.clusterSize_pos (Nat.sub_pos_of_lt g.consistent.two_lt_entryCount)
    rw [h.systemSectors_ofSector, h.totalSectors_ofSector]
    exact Nat.lt_add_of_pos_right hclusters
  · rwa [h.totalSectors_ofSector]
  · rw [hfields]
    exact fun _ => rfl

/-- **The boot sector gives back the geometry it was written for**, moved to where it is found. -/
theorem Formatted.exists_ofBootSector_eq (hend : start + g.dataEnd < 0x100000000) :
    ∃ g', Geometry.ofBootSector (bootSector g g.dataEnd) start = .ok g' ∧ g.MovedBy start g' := by
  have hsize := h.clusterSize_le
  have hmore := g.consistent.two_lt_entryCount
  obtain ⟨g', hg'⟩ := (h.accepted hend).exists_geometry_eq
    (by rw [h.sectorsPerCluster_ofSector]; omega) (by rw [h.clusterCount_ofSector]; omega)
  have hdescribes := BootSector.describes_of_geometry hg'
  refine ⟨g', hg', ?_, ?_, ?_, ?_, ?_⟩
  · rw [hdescribes.format, h.format_ofSector]
  · rw [hdescribes.tableBase, ofSector_bootSector, h.tableBase]
    exact Nat.add_comm ..
  · rw [hdescribes.dataBase, h.systemSectors_ofSector, Nat.add_comm]
  · rw [hdescribes.clusterSize, h.sectorsPerCluster_ofSector]
  · rw [hdescribes.entryCount, h.clusterCount_ofSector]
    omega

end

/-! ## Mounting -/

theorem size_bootSector (g : Geometry) (total : Nat) : (bootSector g total).size = sectorSize := by
  unfold bootSector
  dsimp only
  rw [ByteArray.size_patch]
  split <;> split <;> simp

theorem sector_labelled (image : Image) :
    image.labelled.sector 0 = bootSector image.geometry image.disk.sectorCount :=
  Disk.sector_setSector_self (size_bootSector ..)

end Image

/-- A partition table that is empty but for its signature and a first partition at `start`. -/
def partitionTable (kind : UInt8) (start : Nat) : ByteArray :=
  let sector := ByteArray.replicate sectorSize 0
  let sector := sector.patch (Volume.partitionEntry + 4) [kind].toByteArray
  let sector := sector.putNumber (Volume.partitionEntry + 8) 4 start
  sector.patch 510 [0x55, 0xAA].toByteArray

section

variable {kind : UInt8} {start : Nat}

theorem size_partitionTable : (partitionTable kind start).size = sectorSize := by
  simp [partitionTable]

theorem isSigned_partitionTable : BootSector.isSigned (partitionTable kind start) = true :=
  BootSector.isSigned_patch (by simp [sectorSize])

/-- A partition table is no boot sector: it has no sector size. -/
theorem ofBootSector_partitionTable :
    Geometry.ofBootSector (partitionTable kind start) 0 = .error .noFilesystem := by
  have hentry : [kind].toByteArray.size = 1 := rfl
  have hnone : (partitionTable kind start).numberAt 11 2 = 0 := by
    unfold partitionTable Volume.partitionEntry
    dsimp only
    rw [ByteArray.numberAt_patch_of_apart (by omega),
      ByteArray.numberAt_putNumber_of_apart (by omega),
      ByteArray.numberAt_patch_of_apart (by omega), ByteArray.numberAt_replicate_zero]
  refine BootSector.geometry_of_not_plausible fun h => ?_
  have hbytes : (partitionTable kind start).numberAt 11 2 = sectorSize := h.bytesPerSector_eq
  rw [hnone] at hbytes
  exact absurd hbytes (by decide)

theorem firstPartition?_partitionTable (hkind : kind ≠ 0) (hpos : 1 ≤ start)
    (hlt : start < 0x100000000) :
    Volume.firstPartition? (partitionTable kind start) = some start := by
  have hstart : (partitionTable kind start).numberAt (Volume.partitionEntry + 8) 4 = start := by
    unfold partitionTable Volume.partitionEntry
    dsimp only
    rw [ByteArray.numberAt_patch_of_apart (by omega),
      ByteArray.numberAt_putNumber_self (by simp [sectorSize])]
    exact Nat.mod_eq_of_lt hlt
  have hentry : (partitionTable kind start).byteAt (Volume.partitionEntry + 4) = kind := by
    have hone : [kind].toByteArray.size = 1 := rfl
    unfold partitionTable Volume.partitionEntry ByteArray.putNumber
    dsimp only
    rw [ByteArray.byteAt_patch_of_not_mem (by omega),
      ByteArray.byteAt_patch_of_not_mem (by rw [ByteArray.size_littleEndian]; omega),
      ByteArray.byteAt_patch _ _ _ _ (by simp [sectorSize]), hone, if_pos (by omega)]
    rfl
  unfold Volume.firstPartition?
  rw [hstart, hentry]
  exact if_neg fun h => h.elim hkind (by omega)

end

/-- A device with a partition table is mounted by the boot sector that the table leads to. -/
theorem Volume.exists_locate_of_partition {disk : Disk} {g : Geometry} {start : Nat}
    (hdisk : disk.Faultless)
    (htable : Geometry.ofBootSector (disk.sector 0) 0 = .error .noFilesystem)
    (hsigned : BootSector.isSigned (disk.sector 0) = true)
    (hentry : firstPartition? (disk.sector 0) = some start) (hstart : start < disk.sectorCount)
    (h : Geometry.ofBootSector (disk.sector start) start = .ok g) :
    ∃ disk', Volume.locate disk = .ok g disk' := by
  have hends : Ends (Volume.locate disk) (fun a _ => a = g) (fun _ _ => False) := by
    unfold Volume.locate
    rw [ends_bind]
    refine (hdisk.ends_read_sector (by omega)).mono (fun first e hfirst => ?_) fun _ _ h => h
    obtain ⟨hdata, hsame⟩ := hfirst
    dsimp only
    rw [hdata, htable]
    dsimp only
    rw [if_pos hsigned, hentry]
    dsimp only
    rw [ends_bind]
    have hlast : start < e.sectorCount := by
      rw [hsame.sectorCount]
      exact hstart
    refine ((hsame.faultless hdisk).ends_read_sector hlast).mono (fun second e' hsecond => ?_)
      fun _ _ h => h
    rw [hsecond.1, hsame.sector, h]
    exact rfl
  obtain ⟨a, disk', hlocate, rfl⟩ := hends.exists_ok fun _ _ h => h
  exact ⟨disk', hlocate⟩

end Fat

/-! ## Behind a partition table -/

namespace Disk

/-- `disk` holds a partition table, and from sector `start` on what `d` holds. -/
structure Partitioned (d : Disk) (kind : UInt8) (start : Nat) (disk : Disk) : Prop where
  faultless : disk.Faultless
  sectorCount : disk.sectorCount = start + d.sectorCount
  table : disk.sector 0 = partitionTable kind start
  /-- What lies between the table and the partition is anything. -/
  volume (s : Nat) : s < d.sectorCount → disk.sector (start + s) = d.sector s

/-- Moving all entries of a map up. -/
theorem getElem?_foldl_insert_add (written : Std.TreeMap Nat ByteArray) (n s : Nat) :
    (written.foldl (fun m s data => m.insert (n + s) data)
      (∅ : Std.TreeMap Nat ByteArray))[n + s]? = written[s]? := by
  have hinsert : ∀ (l : List (Nat × ByteArray)) (m : Std.TreeMap Nat ByteArray),
      l.foldl (fun m b => m.insert (n + b.1) b.2) m
        = m.insertMany (l.map fun b => (n + b.1, b.2)) := by
    intro l
    induction l with
    | nil => intro m; rfl
    | cons b l ih =>
        intro m
        rw [List.foldl_cons, ih, List.map_cons, Std.TreeMap.insertMany_cons]
  have hdistinct : (written.toList.map fun b => (n + b.1, b.2)).Pairwise
      fun a b => ¬ compare a.1 b.1 = .eq := by
    refine List.pairwise_map.mpr (Std.TreeMap.distinct_keys_toList.imp fun h heq => h ?_)
    rw [Nat.compare_eq_eq] at heq ⊢
    omega
  rw [Std.TreeMap.foldl_eq_foldl_toList, hinsert]
  cases hs : written[s]? with
  | some data =>
      have hmem : (s, data) ∈ written.toList :=
        Std.TreeMap.mem_toList_iff_getElem?_eq_some.mpr hs
      exact Std.TreeMap.getElem?_insertMany_list_of_mem (Nat.compare_eq_eq.mpr rfl) hdistinct
        (List.mem_map.mpr ⟨_, hmem, rfl⟩)
  | none =>
      rw [Std.TreeMap.getElem?_insertMany_list_of_contains_eq_false]
      · rfl
      · refine Bool.eq_false_iff.mpr fun hcontains => ?_
        obtain ⟨b, hb, hkey⟩ := List.mem_map.mp (List.elem_iff.mp hcontains)
        obtain ⟨⟨t, data⟩, hmem, rfl⟩ := List.mem_map.mp hb
        obtain rfl : t = s := Nat.add_left_cancel hkey
        rw [Std.TreeMap.mem_toList_iff_getElem?_eq_some.mp hmem] at hs
        cases hs

/-- A disk that is moved up holds the same further on. -/
theorem sector_shifted (d : Disk) (n s : Nat) : (d.shifted n).sector (n + s) = d.sector s := by
  refine sector_congr fun i hi => ?_
  have hs : (sectorSize * (n + s) + i) / sectorSize = n + s := by
    unfold sectorSize at *
    omega
  have hs' : (sectorSize * s + i) / sectorSize = s := by
    unfold sectorSize at *
    omega
  have hm : (sectorSize * (n + s) + i) % sectorSize = (sectorSize * s + i) % sectorSize := by
    unfold sectorSize
    omega
  have hblank : (d.shifted n).blank (sectorSize * (n + s) + i) = d.blank (sectorSize * s + i) := by
    show (if _ then _ else _) = _
    rw [Nat.mul_add, if_neg (by omega), Nat.add_assoc, Nat.add_sub_cancel_left]
  have hwritten : (d.shifted n).written[n + s]? = d.written[s]? :=
    getElem?_foldl_insert_add d.written n s
  unfold byte
  rw [hs, hs', hwritten, hm, hblank]

/-- With a partition table put in sector 0 it is partitioned. -/
theorem partitioned_shifted {d : Disk} {kind : UInt8} {start : Nat} (hd : d.Faultless)
    (hpos : 1 ≤ start) :
    d.Partitioned kind start ((d.shifted start).setSector 0 (partitionTable kind start)) where
  faultless := ⟨hd.call, hd.sector⟩
  sectorCount := rfl
  table := sector_setSector_self size_partitionTable
  volume s _ := by
    rw [← d.sector_shifted start s]
    refine sector_congr fun i hi => ?_
    rw [byte_setSector, if_neg]
    unfold sectorSize at *
    omega

end Disk

namespace Fat.Image

/-- A device without faults that ends where the volume on it does. -/
structure Whole (image : Image) : Prop where
  formatted : Formatted image.geometry
  sectorCount : image.disk.sectorCount = image.geometry.dataEnd
  faultless : image.disk.Faultless

variable {image : Image}

theorem Whole.exists_locate (h : image.Whole) :
    ∃ disk, Volume.locate image.labelled = .ok image.geometry disk := by
  have hend : 0 + image.geometry.dataEnd < 0x100000000 := by
    rw [Nat.zero_add]
    exact image.geometry.dataEnd_lt
  have hfaultless : image.labelled.Faultless := ⟨h.faultless.call, h.faultless.sector⟩
  obtain ⟨g, hg, hmoved⟩ := h.formatted.exists_ofBootSector_eq hend
  have hpos : 0 < image.disk.sectorCount := by
    rw [h.sectorCount]
    exact h.formatted.dataEnd_pos
  have hboot : Geometry.ofBootSector (image.labelled.sector 0) 0 = .ok g := by
    rw [sector_labelled, h.sectorCount, hg]
  obtain ⟨disk, hlocate⟩ := Volume.exists_locate hfaultless hpos hboot
  exact ⟨disk, by rw [hlocate, hmoved.eq_of_zero]⟩

theorem Whole.exists_locate_partitioned (h : image.Whole) {kind : UInt8} {start : Nat} {disk : Disk}
    (hkind : kind ≠ 0) (hpos : 1 ≤ start) (hend : start + image.disk.sectorCount < 0x100000000)
    (hdisk : image.labelled.Partitioned kind start disk) :
    ∃ g disk', Volume.locate disk = .ok g disk' ∧ image.geometry.MovedBy start g := by
  rw [h.sectorCount] at hend
  obtain ⟨g, hg, hmoved⟩ := h.formatted.exists_ofBootSector_eq hend
  have hmore : 0 < image.labelled.sectorCount := by
    show 0 < image.disk.sectorCount
    rw [h.sectorCount]
    exact h.formatted.dataEnd_pos
  have hboot : disk.sector start = bootSector image.geometry image.geometry.dataEnd := by
    rw [← h.sectorCount, ← sector_labelled]
    exact hdisk.volume 0 hmore
  have hentry : Volume.firstPartition? (disk.sector 0) = some start := by
    rw [hdisk.table]
    exact firstPartition?_partitionTable hkind hpos (by omega)
  obtain ⟨disk', hlocate⟩ := Volume.exists_locate_of_partition hdisk.faultless
    (by rw [hdisk.table, ofBootSector_partitionTable])
    (by rw [hdisk.table, isSigned_partitionTable]) hentry
    (by rw [hdisk.sectorCount]; omega)
    (by rw [hboot, hg])
  exact ⟨g, disk', hlocate, hmoved⟩

/-- Formatting makes a whole volume, and storing entries leaves it one. -/
theorem Mountable.whole_edited {format : Format} {clusterSize entryCount : Nat}
    (h : Mountable format clusterSize entryCount)
    (hmake : make format clusterSize entryCount = .ok image) (edits : List Edit) :
    (image.edited edits).Whole ∧ (image.edited edits).geometry = image.geometry
      ∧ (image.edited edits).disk.sectorCount = image.disk.sectorCount := by
  have hrecords := (records_make hmake).edited edits
  rw [h.make_eq] at hmake
  cases hmake
  refine ⟨⟨?_, ?_, ?_⟩, hrecords.geometry, hrecords.sectorCount⟩
  · rw [hrecords.geometry]
    exact ⟨h, rfl, rfl⟩
  · rw [hrecords.geometry, hrecords.sectorCount]
    rfl
  · have hfaults := hrecords.faults
    exact ⟨fun direction n => by rw [hfaults]; rfl, fun direction s => by rw [hfaults]; rfl⟩

end Fat.Image

/-- **What is formatted is mounted again.** Volumes of all formats can be formatted with any number
of entries that implies the format, as long as their sectors have 32-bit numbers. Whatever is
then stored in the table, the device with its boot sector is mounted with the very geometry it was
formatted with. Behind a partition table it is mounted too, with the same geometry further on. -/
theorem locate_formatted {format : Format} {clusterSize entryCount : Nat}
    (h : Image.Mountable format clusterSize entryCount) :
    ∃ image, Image.make format clusterSize entryCount = .ok image
      ∧ image.geometry.format = format
      ∧ image.geometry.clusterSize = clusterSize
      ∧ image.geometry.entryCount = entryCount
      ∧ ∀ edits : List Image.Edit,
        (∃ disk, Volume.locate (image.edited edits).labelled = .ok image.geometry disk)
        ∧ ∀ (kind : UInt8) (start : Nat) (disk : Disk),
          kind ≠ 0 → 1 ≤ start → start + image.disk.sectorCount < 2 ^ 32 →
          (image.edited edits).labelled.Partitioned kind start disk →
          ∃ g disk', Volume.locate disk = .ok g disk' ∧ image.geometry.MovedBy start g := by
  have hmake := h.make_eq
  refine ⟨_, hmake, rfl, rfl, rfl, fun edits => ?_⟩
  obtain ⟨hwhole, hgeometry, hcount⟩ := h.whole_edited hmake edits
  refine ⟨?_, fun kind start disk hkind hpos hend hdisk => ?_⟩
  · rw [← hgeometry]
    exact hwhole.exists_locate
  · rw [← hcount] at hend
    rw [← hgeometry]
    exact hwhole.exists_locate_partitioned hkind hpos hend hdisk

/-- A volume of 65536 sectors exactly, whose total is the first that needs the long field, alone
and behind 63 sectors. -/
theorem locate_formatted_long :
    ∃ image, Image.make .fat16 1 65281 = .ok image ∧ image.disk.sectorCount = 0x10000
      ∧ (∃ disk, Volume.locate (image.edited [.link [2, 5]]).labelled = .ok image.geometry disk)
      ∧ ∃ g disk', Volume.locate
          (((image.edited [.link [2, 5]]).labelled.shifted 63).setSector 0 (partitionTable 6 63))
          = .ok g disk' ∧ image.geometry.MovedBy 63 g := by
  have h : Image.Mountable .fat16 1 65281 := ⟨⟨0, rfl⟩, by decide, by decide, by decide⟩
  obtain ⟨image, hmake, -, -, -, hlocate⟩ := locate_formatted h
  obtain ⟨hwhole, -⟩ := h.whole_edited hmake [.link [2, 5]]
  have hcount : image.disk.sectorCount = 0x10000 := by
    rw [h.make_eq] at hmake
    cases hmake
    rfl
  obtain ⟨halone, hbehind⟩ := hlocate [.link [2, 5]]
  exact ⟨image, hmake, hcount, halone, hbehind 6 63 _ (by decide) (by decide)
    (by rw [hcount]; decide)
    (Disk.partitioned_shifted ⟨hwhole.faultless.call, hwhole.faultless.sector⟩ (by decide))⟩

end CartBoot
