import CartBoot.Proofs.Descriptor
import CartBoot.Proofs.Entries
import CartBoot.Proofs.Mounting

/-!
# Where a look-up goes

To find the entry of a cluster a look-up works out which sector it has to ask for.
The two bytes of a packed entry may be in two sectors, so for these it works out the
offset of each byte first. All these numbers have to be words of 32 bits.

The sectors always are. A cluster has a sector of the data area at least, and one
sector of the table has the entries of many clusters. So the table ends no later
than the data area, wherever it begins, and the data area ends below 2^32. Nothing
like it bounds the offsets of packed entries: they are half as large again as the
number of the cluster, and are words for the clusters below `0xAAAAAAAA` only. From
there on the loader stops where it works them out, though the entry may well be on
the device. No boot sector has so many packed entries, but a descriptor may say that
there are.
-/

namespace CartBoot

open Fat

namespace Fat.Geometry

/-! ## The table ends below 2^32 -/

/-- The table may overlap the data area, but it ends no later. -/
theorem tableEnd_le_dataEnd (g : Geometry) : g.tableEnd ≤ g.dataEnd := by
  have hcount := g.consistent.two_lt_entryCount
  have hbase := g.consistent.tableBase_le
  have hclusters : g.clusterCount ≤ g.clusterSize * g.clusterCount :=
    Nat.le_mul_of_pos_left _ g.clusterSize_pos
  unfold clusterCount at hclusters
  unfold tableEnd dataEnd clusterCount Image.tableSectorsFor Format.tableBytes Format.tableUnits
    sectorSize
  cases g.format <;> dsimp only <;> omega

variable {g : Geometry} {c s : Nat}

/-- **The sectors of a look-up are words**, whatever becomes of the offsets. -/
theorem entrySectors_lt_word (hc : g.HasCluster c) (hs : s ∈ g.entrySectors c) : s < wordLimit :=
  Nat.lt_of_lt_of_le (entrySectors_lt hc hs)
    (Nat.le_trans g.tableEnd_le_dataEnd (Nat.le_of_lt g.dataEnd_lt))

/-! ## The numbers of a look-up -/

/-- The offsets that a look-up works out before it asks for anything. -/
def offsets (g : Geometry) (c : Nat) : List Nat :=
  match g.format with
  | .fat12 => [Volume.packedOffset c, Volume.packedOffset c + 1]
  | .fat16 | .fat32 => []

theorem offsetFits_iff_forall : g.OffsetFits c ↔ ∀ n ∈ g.offsets c, n < wordLimit := by
  unfold OffsetFits offsets
  cases g.format with
  | fat12 =>
      refine ⟨fun h n hn => ?_, fun h _ => h _ (.tail _ (.head _))⟩
      have hlast := h rfl
      simp only [List.mem_cons, List.not_mem_nil, or_false] at hn
      omega
  | fat16 => exact iff_of_true nofun nofun
  | fat32 => exact iff_of_true nofun nofun

/-- The entry has a byte in the sector. -/
def LiesIn (g : Geometry) (c s : Nat) : Prop :=
  ∃ k, k < g.format.entryBytes ∧ (g.entryAddress c + k) / sectorSize = s

/-- Where all bytes of an entry are in one sector, it is the only one. -/
theorem mem_singleton_iff_exists {sectorOf : Nat → Nat} {width t : Nat} (pos : 0 < width)
    (h : ∀ k, k < width → sectorOf k = t) : s ∈ [t] ↔ ∃ k, k < width ∧ sectorOf k = s := by
  rw [List.mem_singleton]
  constructor
  · rintro rfl
    exact ⟨0, pos, h 0 pos⟩
  · rintro ⟨k, hk, rfl⟩
    exact h k hk

/-- The sectors that a look-up goes to are those that the entry lies in. -/
theorem mem_entrySectors_iff : s ∈ g.entrySectors c ↔ g.LiesIn c s := by
  unfold LiesIn entryAddress entrySectors
  cases hf : g.format with
  | fat12 =>
      simp only [Format.entryOffset, Format.entryBytes, List.mem_cons, List.not_mem_nil, or_false]
      unfold Volume.packedOffset sectorSize
      constructor
      · rintro (rfl | rfl)
        · exact ⟨0, by omega, by omega⟩
        · exact ⟨1, by omega, by omega⟩
      · rintro ⟨k, hk, rfl⟩
        omega
  | fat16 =>
      refine mem_singleton_iff_exists (by decide) fun k hk => ?_
      simp only [Format.entryOffset, Format.entryBytes] at hk ⊢
      unfold sectorSize
      omega
  | fat32 =>
      refine mem_singleton_iff_exists (by decide) fun k hk => ?_
      simp only [Format.entryOffset, Format.entryBytes] at hk ⊢
      unfold sectorSize
      omega

end Fat.Geometry

/-! ## What is found -/

/-- A read of one sector that the entry lies in. -/
def Access.ReadsEntry (g : Geometry) (c : Nat) (a : Access) : Prop :=
  a.direction = .read ∧ a.count = 1 ∧ g.LiesIn c a.sector

namespace Fat.Geometry

/-- The entry of a cluster is found where it is. -/
structure FindsEntry (g : Geometry) (c : Nat) : Prop where
  /-- All numbers that the look-up works out are words. -/
  words : ∀ n ∈ g.offsets c ++ g.entrySectors c, n < wordLimit
  /-- Whatever the device holds and however it fails, all that is asked of it are sectors that the
  entry lies in, one by one. -/
  asks (v : Volume) (hg : v.geometry = g) :
    Ends (Volume.nextCluster c v)
      (fun _ w => v.disk.Logs (·.ReadsEntry g c) w.disk)
      (fun _ w => v.disk.Logs (·.ReadsEntry g c) w.disk)
  /-- On a device that holds the table and does not fail, the answer is the field of the cluster,
  and every sector that the entry lies in has been asked for. -/
  answers (v : Volume) (hg : v.geometry = g) (hv : v.drive.Coherent) (hfilled : v.drive.Filled)
    (hd : v.disk.Faultless) (hend : g.tableEnd ≤ v.disk.sectorCount) :
    ∃ w, Volume.nextCluster c v
        = .ok (g.packedEntry v.disk.byte c % g.format.entryRange) w
      ∧ ∀ s, g.LiesIn c s → w.drive.Fetched s

variable {g : Geometry} {c : Nat}

theorem findsEntry_iff (hc : g.HasCluster c) : g.FindsEntry c ↔ g.OffsetFits c := by
  refine ⟨fun h => offsetFits_iff_forall.mpr fun n hn =>
    h.words n (List.mem_append_left _ hn), fun hfit => ?_⟩
  refine ⟨fun n hn => ?_, ?_, ?_⟩
  · rcases List.mem_append.mp hn with hn | hn
    · exact offsetFits_iff_forall.mp hfit n hn
    · exact entrySectors_lt_word hc hn
  · rintro v rfl
    exact Volume.logs_nextCluster fun _ s hs _ => ⟨rfl, rfl, mem_entrySectors_iff.mp hs⟩
  · rintro v rfl hv hfilled hd hend
    obtain ⟨w, hw⟩ := Volume.exists_nextCluster_eq hv hd hend hc hfit
    have hfetched := (Volume.fetched_nextCluster hfilled hc).of_ok hw
    refine ⟨w, ?_, fun s hs => hfetched s (mem_entrySectors_iff.mpr hs)⟩
    rw [hw, tableEntry_eq_packedEntry hc]

/-- All entries are found if the last one is. -/
theorem forall_findsEntry_iff :
    (∀ c, g.HasCluster c → g.FindsEntry c) ↔ g.OffsetsFit := by
  have hcount := g.consistent.two_lt_entryCount
  refine ⟨fun h hf => ?_, fun hreach c hc => (findsEntry_iff hc).mpr (hreach.offsetFits hc)⟩
  have hlast : g.HasCluster (g.entryCount - 1) := ⟨by omega, by omega⟩
  have := offsetFits_iff.mp ((findsEntry_iff hlast).mp (h _ hlast)) hf
  omega

/-- **Entries are found as far as offsets are words.** All entries of a geometry are found if, and
only if, there are no more packed ones than the limit allows; so it is for each volume that is
described by its boot sector. Of a single cluster: the sectors to ask for are words, whatever the
geometry, and the entry is found unless it is packed and the cluster at or above the limit. There
the loader stops, though the device holds the table and does not fail. -/
theorem finds_entries (g : Geometry) :
    ((∀ c, g.HasCluster c → g.FindsEntry c) ↔ (g.format = .fat12 → g.entryCount ≤ packedLimit))
      ∧ (∀ sector start, Geometry.ofBootSector sector start = .ok g →
        ∀ c, g.HasCluster c → g.FindsEntry c)
      ∧ ∀ c, g.HasCluster c →
        (∀ s ∈ g.entrySectors c, s < wordLimit)
          ∧ (g.FindsEntry c ↔ (g.format = .fat12 → c < packedLimit))
          ∧ (¬ g.FindsEntry c → ∀ v : Volume, v.geometry = g → v.drive.Coherent →
            v.disk.Faultless → g.tableEnd ≤ v.disk.sectorCount →
            ∃ w, Volume.nextCluster c v = .error .overflow w) := by
  refine ⟨forall_findsEntry_iff, fun sector start hsector => ?_, fun c hc =>
    ⟨fun s => entrySectors_lt_word hc, (findsEntry_iff hc).trans offsetFits_iff, ?_⟩⟩
  · exact forall_findsEntry_iff.mpr (BootSector.describes_of_geometry hsector).offsetsFit
  · rintro hnot v rfl hv hd hend
    exact Volume.exists_nextCluster_stops hv hd hend hc (mt (findsEntry_iff hc).mpr hnot)

end Fat.Geometry

/-! ## At the limit -/

/-- As many packed entries as can be found, and the data area right behind them. -/
def fullGeometry : Geometry :=
  ⟨.fat12, 1, 0x800001, 1, 0xAAAAAAAA, by decide⟩

/-- The last of them is found, in the last sector below 2^32 bytes. -/
theorem fullGeometry_finds_last :
    fullGeometry.tableEnd = fullGeometry.dataBase ∧ fullGeometry.HasCluster 0xAAAAAAA9
      ∧ fullGeometry.offsets 0xAAAAAAA9 = [0xFFFFFFFD, 0xFFFFFFFE]
      ∧ fullGeometry.FindsEntry 0xAAAAAAA9 := by
  have hall := (Geometry.finds_entries fullGeometry).1.mpr fun _ => Nat.le_refl _
  exact ⟨by decide, by decide, rfl, hall _ (by decide)⟩

/-- An image of one sector in the last cluster of the geometry with a packed entry more. -/
def overfullDescriptor : BootDescriptor where
  geometry := overfullGeometry
  cluster := 0xAAAAAAAA
  size := 512
  romBanks := 1
  sramMask := 0
  power := ⟨0⟩
  eepromControl := 0
  imageFlags := ⟨0⟩
  colorFlags := ⟨0⟩
  patches := ⟨0⟩
  start := coldBootVector

/-- One packed entry more than can be found. The geometry passes all checks, and a descriptor may
say it. The second byte of the last entry is at offset 2^32 of the table, and the loader stops,
though the device holds that byte and the field can be told from it. -/
theorem overfull_look_up_stops :
    Geometry.check .fat12 1 0x800002 1 0xAAAAAAAB = .ok overfullGeometry
      ∧ BootDescriptor.decode overfullDescriptor.encode = .ok overfullDescriptor
      ∧ overfullGeometry.tableEnd = overfullGeometry.dataBase
      ∧ overfullGeometry.HasCluster 0xAAAAAAAA
      ∧ overfullGeometry.offsets 0xAAAAAAAA = [0xFFFFFFFF, wordLimit]
      ∧ overfullGeometry.LiesIn 0xAAAAAAAA 0x800001
      ∧ overfullGeometry.tableEnd ≤ overfullDisk.sectorCount
      ∧ overfullGeometry.packedEntry overfullDisk.byte 0xAAAAAAAA
          % overfullGeometry.format.entryRange = 0x321
      ∧ (∃ w, Volume.nextCluster 0xAAAAAAAA (Volume.ofDisk overfullDisk overfullGeometry true)
          = .error .overflow w)
      ∧ ¬ overfullGeometry.FindsEntry 0xAAAAAAAA := by
  have hdisk : overfullDisk.Faultless := ⟨fun _ _ => rfl, fun _ _ => rfl⟩
  have hlast : overfullGeometry.HasCluster 0xAAAAAAAA := by
    decide
  have hend : overfullGeometry.tableEnd ≤ overfullDisk.sectorCount := by
    decide
  have hfield : overfullGeometry.packedEntry overfullDisk.byte 0xAAAAAAAA
      % overfullGeometry.format.entryRange = 0x321 :=
    (Geometry.packedEntry_eq_unpack hlast).trans (by decide)
  have hout : ¬ overfullGeometry.OffsetFits 0xAAAAAAAA := fun hfit =>
    absurd (hfit rfl) (by decide)
  exact ⟨rfl, BootDescriptor.decode_encode overfullDescriptor, by decide, hlast, rfl,
    ⟨1, by decide, by decide⟩, hend, hfield,
    Volume.exists_nextCluster_stops (Drive.coherent_of_empty rfl) hdisk hend hlast hout,
    mt (Geometry.findsEntry_iff hlast).mp hout⟩

end CartBoot
