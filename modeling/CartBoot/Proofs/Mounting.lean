import CartBoot.Proofs.Confinement

/-!
# What mounting establishes

A boot sector that is accepted gives a geometry whose numbers are sums of its
fields. The tables, the root directory and the clusters lie one behind the other,
so the first table as declared ends below the data area.

How large a table is declared and how many clusters there are is not compared,
however. The look-ups stay in the declared table if, and only if, it has room for
all entries; a table that is too short is read on into whatever follows it, and
then writing data can change what is taken for an entry.
-/

namespace CartBoot

open Fat

namespace Fat

/-! ## Accepted boot sectors -/

/-- A geometry that a boot sector describes. -/
structure BootSector.Describes (b : BootSector) (start : Nat) (g : Geometry) : Prop
    extends b.Plausible start where
  format : g.format = b.format
  tableBase : g.tableBase = start + b.reservedSectors
  dataBase : g.dataBase = start + b.systemSectors
  clusterSize : g.clusterSize = b.sectorsPerCluster
  entryCount : g.entryCount = b.clusterCount + 2

theorem BootSector.describes_of_geometry {b : BootSector} {start : Nat} {g : Geometry}
    (h : b.geometry start = .ok g) : b.Describes start g := by
  unfold BootSector.geometry at h
  split at h
  · rename_i haccepted
    unfold Geometry.check at h
    split at h
    · cases h
      exact ⟨haccepted, rfl, rfl, rfl, rfl, rfl⟩
    · cases h
  · cases h

/-- What is mounted is described by a boot sector. -/
theorem Volume.exists_of_locate {disk disk' : Disk} {g : Geometry}
    (h : Volume.locate disk = .ok g disk') :
    ∃ sector start, Geometry.ofBootSector sector start = .ok g := by
  have hread : ∀ (first : Nat) (d : Disk), Ends (Disk.read first 1 d) (fun _ _ => True)
      (fun _ _ => True) := fun first d => by cases Disk.read first 1 d <;> trivial
  have hends : Ends (Volume.locate disk)
      (fun g _ => ∃ sector start, Geometry.ofBootSector sector start = .ok g)
      (fun _ _ => True) := by
    unfold Volume.locate
    rw [ends_bind]
    refine (hread 0 disk).mono (fun sector d _ => ?_) fun _ _ _ => trivial
    dsimp only
    cases hfirst : Geometry.ofBootSector sector.val 0 with
    | ok g => exact ⟨_, _, hfirst⟩
    | error e =>
        cases e with
        | noFilesystem =>
            -- a partition table, or nothing
            dsimp only
            by_cases hsigned : BootSector.isSigned sector.val = true
            · rw [if_pos hsigned]
              cases firstPartition? sector.val with
              | none => trivial
              | some start =>
                  dsimp only
                  rw [ends_bind]
                  refine (hread start d).mono (fun sector _ _ => ?_) fun _ _ _ => trivial
                  cases hsecond : Geometry.ofBootSector sector.val start with
                  | ok g => exact ⟨_, _, hsecond⟩
                  | error e => trivial
            · rw [if_neg hsigned]
              trivial
        | _ => trivial
  exact hends.of_ok h

/-- A device whose first sector is such a boot sector is mounted. -/
theorem Volume.exists_locate {disk : Disk} {g : Geometry} (hdisk : disk.Faultless)
    (hcount : 0 < disk.sectorCount) (h : Geometry.ofBootSector (disk.sector 0) 0 = .ok g) :
    ∃ disk', Volume.locate disk = .ok g disk' := by
  have hends : Ends (Volume.locate disk) (fun a _ => a = g) (fun _ _ => False) := by
    unfold Volume.locate
    rw [ends_bind]
    refine (hdisk.ends_read_sector hcount).mono (fun sector e hread => ?_) fun _ _ h => h
    dsimp only
    rw [hread.1, h]
    exact rfl
  obtain ⟨a, disk', hlocate, rfl⟩ := hends.exists_ok fun _ _ h => h
  exact ⟨disk', hlocate⟩

namespace BootSector

section

variable (b : BootSector)

/-! The format follows from the number of clusters. -/

theorem format_eq_fat12_iff : b.format = .fat12 ↔ b.clusterCount ≤ 0xFF5 := by
  unfold format
  split
  · exact iff_of_true rfl ‹_›
  · split <;> exact iff_of_false nofun ‹_›

theorem format_eq_fat16_iff :
    b.format = .fat16 ↔ 0xFF5 < b.clusterCount ∧ b.clusterCount ≤ 0xFFF5 := by
  unfold format
  split
  · exact iff_of_false nofun (by omega)
  · split
    · exact iff_of_true rfl (by omega)
    · exact iff_of_false nofun (by omega)

theorem format_eq_fat32_iff : b.format = .fat32 ↔ 0xFFF5 < b.clusterCount := by
  unfold format
  split
  · exact iff_of_false nofun (by omega)
  · split
    · exact iff_of_false nofun (by omega)
    · exact iff_of_true rfl (by omega)

end

variable {b : BootSector} {start : Nat} {g : Geometry}

/-- Few clusters make a packed table. -/
theorem Describes.entryCount_of_fat12 (h : b.Describes start g) (hformat : g.format = .fat12) :
    g.entryCount ≤ 0xFF7 := by
  have hfew := b.format_eq_fat12_iff.mp (h.format.symm.trans hformat)
  rw [h.entryCount]
  omega

/-- All entries of a volume that is described by its boot sector are within reach. -/
theorem Describes.offsetsFit (h : b.Describes start g) : g.OffsetsFit := fun hformat =>
  Nat.le_trans (h.entryCount_of_fat12 hformat) (by decide)

theorem Describes.entryCount_of_fat16 (h : b.Describes start g) (hformat : g.format = .fat16) :
    g.entryCount ≤ 0xFFF7 := by
  have hfew := b.format_eq_fat16_iff.mp (h.format.symm.trans hformat)
  rw [h.entryCount]
  omega

/-- The first table, as declared, ends below the data area. -/
theorem Describes.tableSectors_le (h : b.Describes start g) :
    g.tableBase + b.tableSectors ≤ g.dataBase := by
  have hone : b.tableSectors * 1 ≤ b.tableSectors * b.tableCount :=
    Nat.mul_le_mul_left _ h.tableCount_pos
  rw [h.tableBase, h.dataBase]
  unfold systemSectors
  generalize b.rootEntries / rootEntriesPerSector = rootSectors
  omega

end BootSector

/-! ## What a look-up asks for -/

namespace Geometry

variable {g : Geometry}

theorem le_entrySectors {cluster s : Nat} (hs : s ∈ g.entrySectors cluster) : g.tableBase ≤ s := by
  unfold entrySectors sectorSize at hs
  cases hf : g.format <;> simp only [hf, List.mem_cons, List.not_mem_nil, or_false] at hs <;> omega

/-- The last sector of the table holds the entry of the last cluster. -/
theorem exists_entrySectors_last (g : Geometry) :
    ∃ c s, g.HasCluster c ∧ s ∈ g.entrySectors c ∧ s + 1 = g.tableEnd := by
  have hcount := g.consistent.two_lt_entryCount
  have hlast : g.HasCluster (g.entryCount - 1) := ⟨by omega, by omega⟩
  refine ⟨g.entryCount - 1, g.tableEnd - 1, hlast, ?_, ?_⟩
  · unfold entrySectors tableEnd Image.tableSectorsFor Format.tableBytes Format.tableUnits
      sectorSize
    cases hf : g.format with
    | fat12 =>
        -- the second byte of a packed entry is the later one
        have hbytes : (g.entryCount * 3 + 1) / 2
            = Volume.packedOffset (g.entryCount - 1) + 2 := by
          unfold Volume.packedOffset
          omega
        dsimp only
        rw [hbytes, List.mem_cons, List.mem_singleton]
        omega
    | fat16 =>
        dsimp only
        rw [List.mem_singleton]
        omega
    | fat32 =>
        dsimp only
        rw [List.mem_singleton]
        omega
  · unfold tableEnd Image.tableSectorsFor Format.tableBytes Format.tableUnits sectorSize
    cases g.format <;> dsimp only <;> omega

end Geometry

end Fat

namespace Drive

variable {v : Drive}

/-- The device was asked for this sector alone. -/
def Fetched (v : Drive) (sector : Nat) : Prop :=
  ∃ reached, (⟨.read, sector, 1, reached⟩ : Access) ∈ v.disk.log

/-- The sector in the window came there through the device. -/
def Filled (v : Drive) : Prop :=
  ∀ sector, v.cached = some sector → v.Fetched sector

/-- What was asked for before was asked for. -/
structure Asked (v : Drive) (sector : Nat) (w : Drive) : Prop where
  filled : w.Filled
  fetched : w.Fetched sector
  earlier (s : Nat) : v.Fetched s → w.Fetched s

theorem asked_fetch (sector : Nat) (v : Drive) :
    Ends (fetch sector v) (fun _ w => v.Asked sector w) (fun _ _ => True) := by
  unfold fetch
  simp only [ends_bind, ends_modify, ends_pure, ends_onDisk]
  unfold Disk.read
  cases hattempt : v.invalidate.disk.attempt .read sector 1 with
  | mk through d =>
      cases through with
      | false => trivial
      | true =>
          have hd : d = (v.disk.attempt .read sector 1).2 := congrArg Prod.snd hattempt.symm
          have hnew : ∀ window, Fetched ⟨d, window⟩ sector := by
            intro window
            subst hd
            exact ⟨_, Array.mem_push_self⟩
          refine ⟨?_, hnew _, ?_⟩
          · intro s hs
            cases hs
            exact hnew _
          · rintro s ⟨reached, hs⟩
            subst hd
            exact ⟨reached, Array.mem_push_of_mem _ hs⟩

/-- Asking for a sector asks the device for it, unless that was done before. -/
theorem asked_ensure (hv : v.Filled) (sector : Nat) :
    Ends (ensure sector v) (fun _ w => v.Asked sector w) (fun _ _ => True) := by
  refine ends_ensure_of_fetch (fun data hw => ⟨hv, hv sector ?_, fun _ h => h⟩)
    (asked_fetch sector v)
  unfold cached
  rw [hw]
  rfl

end Drive

namespace Fat

/-- A look-up asks the device for all sectors of its entry. -/
theorem Volume.fetched_nextCluster {v : Volume} (hv : v.drive.Filled) {cluster : Nat}
    (hc : v.geometry.HasCluster cluster) :
    Ends (nextCluster cluster v)
      (fun _ w => ∀ s ∈ v.geometry.entrySectors cluster, w.drive.Fetched s) (fun _ _ => True) := by
  have hensure : ∀ (u : Volume) (sector : Nat), u.drive.Filled →
      Ends (onDrive (Drive.ensure sector) u) (fun _ w => u.drive.Asked sector w.drive)
        (fun _ _ => True) := by
    intro u sector hu
    rw [ends_onDrive]
    exact Drive.asked_ensure hu sector
  unfold nextCluster
  simp only [ends_bind, ends_get, hc, not_true, if_false]
  unfold Geometry.entrySectors
  cases v.geometry.format with
  | fat12 =>
      unfold tableByte
      simp only [ends_bind, ends_pure, ends_word]
      refine ⟨fun _ => (hensure v _ hv).mono (fun _ w hw => ?_) fun _ _ h => h, fun _ => trivial⟩
      refine ⟨fun _ => ?_, fun _ => trivial⟩
      refine (hensure w _ hw.filled).mono (fun _ u hu => ?_) fun _ _ h => h
      intro s hs
      rcases List.mem_cons.mp hs with rfl | hs
      · exact hu.earlier _ hw.fetched
      · exact List.mem_singleton.mp hs ▸ hu.fetched
  | fat16 =>
      simp only [ends_bind, ends_pure]
      refine (hensure v _ hv).mono (fun _ w hw s hs => ?_) fun _ _ h => h
      exact List.mem_singleton.mp hs ▸ hw.fetched
  | fat32 =>
      simp only [ends_bind, ends_pure]
      refine (hensure v _ hv).mono (fun _ w hw s hs => ?_) fun _ _ h => h
      exact List.mem_singleton.mp hs ▸ hw.fetched

/-- A look-up asks the device for sectors of its entry, one by one, and for nothing else. -/
theorem Volume.logs_nextCluster {P : Access → Prop} {v : Volume} {cluster : Nat}
    (hP : v.geometry.HasCluster cluster → ∀ s ∈ v.geometry.entrySectors cluster,
      ∀ reached, P ⟨.read, s, 1, reached⟩) :
    Ends (nextCluster cluster v) (fun _ w => v.disk.Logs P w.disk)
      (fun _ w => v.disk.Logs P w.disk) := by
  by_cases hc : v.geometry.HasCluster cluster
  · have hensure : ∀ (u : Volume) (sector : Nat), sector ∈ v.geometry.entrySectors cluster →
        Ends (onDrive (Drive.ensure sector) u) (fun _ w => u.disk.Logs P w.disk)
          (fun _ w => u.disk.Logs P w.disk) := by
      intro u sector hsector
      rw [ends_onDrive]
      exact Drive.logs_ensure (hP hc sector hsector) u.drive
    unfold Geometry.entrySectors at hensure
    unfold nextCluster
    simp only [ends_bind, ends_get, hc, not_true, if_false]
    cases hf : v.geometry.format with
    | fat12 =>
        simp only [hf] at hensure
        unfold tableByte
        simp only [ends_bind, ends_pure, ends_word]
        refine ⟨fun _ => (hensure v _ (.head _)).mono (fun _ w hw => ?_) fun _ _ h => h,
          fun _ => .refl _⟩
        refine ⟨fun _ => ?_, fun _ => hw⟩
        exact (hensure w _ (.tail _ (.head _))).mono (fun _ _ => hw.trans) fun _ _ => hw.trans
    | fat16 =>
        simp only [hf] at hensure
        simp only [ends_bind, ends_pure]
        exact hensure v _ (.head _)
    | fat32 =>
        simp only [hf] at hensure
        simp only [ends_bind, ends_pure]
        exact hensure v _ (.head _)
  · rw [nextCluster_invalid hc]
    exact .refl _

/-! ## The declared table -/

end Fat

/-- A read of one of the `count` sectors from `first` on. -/
def Access.ReadsOneOf (first count : Nat) (a : Access) : Prop :=
  a.direction = .read ∧ a.count = 1 ∧ first ≤ a.sector ∧ a.sector < first + count

namespace Fat.Geometry

variable {g : Geometry} {count : Nat}

/-- Whatever entry of such a volume is looked up, whatever the device holds and however it fails:
all that is asked of it is `count` sectors from the base of the table on, one by one. -/
def LooksWithin (g : Geometry) (count : Nat) : Prop :=
  ∀ (v : Volume) (cluster : Nat), v.geometry = g →
    Ends (Volume.nextCluster cluster v)
      (fun _ w => v.disk.Logs (·.ReadsOneOf g.tableBase count) w.disk)
      (fun _ w => v.disk.Logs (·.ReadsOneOf g.tableBase count) w.disk)

/-- A table with room for all entries is not left. -/
theorem looksWithin_of_le (h : Image.tableSectorsFor g.format g.entryCount ≤ count) :
    g.LooksWithin count := by
  rintro v cluster rfl
  refine Volume.logs_nextCluster fun hc s hs _ => ?_
  have hlt := entrySectors_lt hc hs
  exact ⟨rfl, rfl, le_entrySectors hs, Nat.lt_of_lt_of_le hlt (Nat.add_le_add_left h _)⟩

/-- **Look-ups stay in as many sectors as the entries need**, and need all of them. -/
theorem looksWithin_iff (hreach : g.OffsetsFit) :
    g.LooksWithin count ↔ Image.tableSectorsFor g.format g.entryCount ≤ count := by
  refine ⟨fun h => ?_, looksWithin_of_le⟩
  obtain ⟨c, s, hc, hs, hlast⟩ := exists_entrySectors_last g
  -- look up the last entry on an empty device that is just large enough
  have hfaultless : (Disk.zeroed g.tableEnd).Faultless := ⟨fun _ _ => rfl, fun _ _ => rfl⟩
  have hlookup := (Volume.fetched_nextCluster (v := Volume.ofDisk (Disk.zeroed g.tableEnd) g true)
    (fun _ => nofun) hc).and
    ((h (Volume.ofDisk (Disk.zeroed g.tableEnd) g true) c rfl).and
      (Volume.ends_nextCluster (v := Volume.ofDisk (Disk.zeroed g.tableEnd) g true)
        (Drive.coherent_of_empty rfl) hc))
  cases hr : Volume.nextCluster c (Volume.ofDisk (Disk.zeroed g.tableEnd) g true) with
  | error e w =>
      cases (hlookup.of_error hr).2.2.2 with
      | refused hnot =>
          exact absurd (fun x hx => ⟨entrySectors_lt hc hx, rfl⟩) (hnot hfaultless.steady)
      | overflow hout => exact absurd (hreach.offsetFits hc) hout
  | ok n w =>
      obtain ⟨hfetched, hlogs, _⟩ := hlookup.of_ok hr
      obtain ⟨reached, hmem⟩ := hfetched s hs
      obtain ⟨new, hlog, hnew⟩ := hlogs
      have hin : w.disk.log = new := hlog.trans Array.empty_append
      have hread := (hnew _ (hin ▸ hmem)).2.2.2
      unfold tableEnd at hlast
      dsimp only at hread
      omega

end Fat.Geometry

/-- **When look-ups stay in the declared table.** The first table that an accepted boot sector
declares ends below the data area. Look-ups never leave it if, and only if, the sectors it is
declared to have hold an entry for each cluster; and then no request on a file changes an entry. -/
theorem Fat.BootSector.looksWithin_declared {sector : ByteArray} {start : Nat} {g : Geometry}
    (h : Geometry.ofBootSector sector start = .ok g) :
    g.tableBase + (ofSector sector).tableSectors ≤ g.dataBase
      ∧ (g.LooksWithin (ofSector sector).tableSectors ↔
        Image.tableSectorsFor g.format g.entryCount ≤ (ofSector sector).tableSectors)
      ∧ (Image.tableSectorsFor g.format g.entryCount ≤ (ofSector sector).tableSectors →
        ∀ (v : Volume) (first : Nat) (requests : List Request) (c : Nat), v.geometry = g →
          v.drive.Coherent → g.HasCluster c →
          g.tableEntry (runAll Request.perform requests (v.openAt first)).2.volume.disk.byte c
            = g.tableEntry v.disk.byte c) := by
  have hdescribes := describes_of_geometry h
  have hbelow := hdescribes.tableSectors_le
  refine ⟨hbelow, Geometry.looksWithin_iff hdescribes.offsetsFit, ?_⟩
  intro hroom v first requests c hg hv hc
  have hapart : g.TableApart := by
    unfold Geometry.TableApart Geometry.tableEnd
    omega
  have hkeeps : v.drive.KeepsTo g (fun _ => True)
      (runAll Request.perform requests (v.openAt first)).2.volume.drive :=
    v.keepsTo_requests hg hv (Geometry.closed_true g _) trivial requests
  have hsame : g.SameOutside v.disk.byte
      (runAll Request.perform requests (v.openAt first)).2.volume.disk.byte := fun a ha =>
    have hin := hkeeps.changed a ha
    ⟨hin.low, hin.high⟩
  exact hsame.tableEntry hapart hc

/-! ## Two boot sectors -/

/-- The fields of a boot sector are spelled by the bytes of its disk. -/
theorem Fat.BootSector.ofSector_sector_zero (d : Disk) : ofSector (d.sector 0) = {
      signed := d.byte 510 = 0x55 && d.byte 511 = 0xAA
      bytesPerSector := numberFrom d.byte 11 2
      sectorsPerCluster := numberFrom d.byte 13 1
      reservedSectors := numberFrom d.byte 14 2
      tableCount := numberFrom d.byte 16 1
      rootEntries := numberFrom d.byte 17 2
      totalSectors16 := numberFrom d.byte 19 2
      tableSectors16 := numberFrom d.byte 22 2
      totalSectors32 := numberFrom d.byte 32 4
      tableSectors32 := numberFrom d.byte 36 4 } := by
  have hbyte : ∀ i, i < sectorSize → (d.sector 0).byteAt i = d.byte i := by
    intro i hi
    rw [Disk.byteAt_sector d 0 i hi, Nat.mul_zero, Nat.zero_add]
  have hnumber : ∀ i width, i + width ≤ sectorSize →
      (d.sector 0).numberAt i width = numberFrom d.byte i width := by
    intro i width hfit
    rw [numberAt_eq]
    exact numberFrom_congr width fun k hk => hbyte _ (by omega)
  unfold sectorSize at hbyte hnumber
  unfold ofSector isSigned
  rw [hbyte 510 (by omega), hbyte 511 (by omega), hnumber 11 2 (by omega), hnumber 13 1 (by omega),
    hnumber 14 2 (by omega), hnumber 16 1 (by omega), hnumber 17 2 (by omega),
    hnumber 19 2 (by omega), hnumber 22 2 (by omega), hnumber 32 4 (by omega),
    hnumber 36 4 (by omega)]

/-- A disk of ten clusters whose table has a sector to itself; the first cluster ends a chain. -/
def mountableDisk : Disk where
  sectorCount := 12
  blank := sparseBytes [(510, 0x55), (511, 0xAA), (12, 2), (13, 1), (14, 1), (16, 1), (19, 12),
    (22, 1), (515, 0xFF), (516, 0x0F)]

def mountableGeometry : Geometry :=
  ⟨.fat12, 1, 2, 1, 12, by decide⟩

theorem ofBootSector_mountable :
    Geometry.ofBootSector (mountableDisk.sector 0) 0 = .ok mountableGeometry := by
  unfold Geometry.ofBootSector
  rw [BootSector.ofSector_sector_zero]
  rfl

/-- Its look-ups read sector 1 and no other. -/
theorem mountable_looksWithin : mountableGeometry.LooksWithin 1 := by
  have htable : (BootSector.ofSector (mountableDisk.sector 0)).tableSectors = 1 := by
    rw [BootSector.ofSector_sector_zero]
    decide
  have h := (BootSector.looksWithin_declared ofBootSector_mountable).2.1
  rw [htable] at h
  exact h.mpr (by decide)

/-- A disk of 5000 clusters whose boot sector declares a table of one sector. -/
def shortDisk : Disk where
  sectorCount := 5002
  blank := sparseBytes [(510, 0x55), (511, 0xAA), (12, 2), (13, 1), (14, 1), (16, 1), (19, 0x8A),
    (20, 0x13), (22, 1)]

def shortGeometry : Geometry :=
  ⟨.fat16, 1, 2, 1, 5002, by decide⟩

theorem ofBootSector_short :
    Geometry.ofBootSector (shortDisk.sector 0) 0 = .ok shortGeometry := by
  unfold Geometry.ofBootSector
  rw [BootSector.ofSector_sector_zero]
  rfl

/-- Its look-ups leave that sector: the entry of cluster 300 is taken from the first cluster. -/
theorem short_not_looksWithin :
    Geometry.ofBootSector (shortDisk.sector 0) 0 = .ok shortGeometry
      ∧ (BootSector.ofSector (shortDisk.sector 0)).tableSectors = 1
      ∧ shortGeometry.HasCluster 300
      ∧ shortGeometry.entrySectors 300 = [shortGeometry.dataBase]
      ∧ ¬ shortGeometry.LooksWithin 1 := by
  have htable : (BootSector.ofSector (shortDisk.sector 0)).tableSectors = 1 := by
    rw [BootSector.ofSector_sector_zero]
    decide
  refine ⟨ofBootSector_short, htable, by decide, rfl, fun h => ?_⟩
  have hreach : shortGeometry.OffsetsFit := nofun
  have hroom := (Geometry.looksWithin_iff hreach).mp h
  exact absurd hroom (by decide)

end CartBoot
