import CartBoot.Proofs.BulkRuns
import CartBoot.Proofs.Placement

/-!
# Clusters divide up the data area

The data area is cut into clusters of equal size, numbered from 2 on, with nothing
left over: each sector of it is in one cluster, no other sector is in any, and
clusters that are neighbours by number are neighbours on the medium. Folding relies
on it, and so do files that must not touch each other.

A cluster number is looked at twice, once when an entry is followed and once when
its place is wanted. The first look compares it with both ends of the table; the
second takes 2 away from it, in 32 bits, and compares once. For 0 and 1 the
difference wraps around and lands above every count that a table can have, so the
two looks agree, and what is computed after them never needs more than 32 bits.
-/

namespace CartBoot.Fat.Geometry

variable {g : Geometry} {c d s : Nat}

/-! ## The place of a cluster -/

theorem firstSector?_eq_some_iff {a : Nat} :
    g.firstSector? c = some a ↔ g.HasCluster c ∧ g.firstSector c = a := by
  by_cases hc : g.HasCluster c
  · rw [firstSector?_eq_some hc, Option.some.injEq]
    exact ⟨fun h => ⟨hc, h⟩, fun h => h.2⟩
  · rw [firstSector?_eq_none hc]
    exact ⟨nofun, fun h => absurd h.1 hc⟩

theorem isSome_firstSector?_iff : (g.firstSector? c).isSome ↔ g.HasCluster c := by
  rw [Option.isSome_iff_exists]
  constructor
  · rintro ⟨a, ha⟩
    exact (firstSector?_eq_some_iff.mp ha).1
  · intro hc
    exact ⟨_, firstSector?_eq_some hc⟩

/-- Clusters lie in the order of their numbers. -/
theorem firstSector_add_le_of_lt (g : Geometry) (hc : 2 ≤ c) (hcd : c < d) :
    g.firstSector c + g.clusterSize ≤ g.firstSector d := by
  have hstep := g.firstSector_add hc (d - c)
  rw [Nat.add_sub_cancel' (Nat.le_of_lt hcd)] at hstep
  have hle : g.clusterSize * 1 ≤ g.clusterSize * (d - c) := Nat.mul_le_mul_left _ (by omega)
  omega

theorem firstSector_lt_iff (g : Geometry) (hc : 2 ≤ c) (hd : 2 ≤ d) :
    g.firstSector c < g.firstSector d ↔ c < d := by
  have hpos := g.clusterSize_pos
  constructor
  · intro h
    by_contra hle
    rcases Nat.lt_or_eq_of_le (Nat.not_lt.mp hle) with hlt | rfl
    · have := g.firstSector_add_le_of_lt hd hlt
      omega
    · exact Nat.lt_irrefl _ h
  · intro h
    have := g.firstSector_add_le_of_lt hc h
    omega

/-- One cluster ends where the other begins only if it is the one before. -/
theorem firstSector_add_eq_iff (g : Geometry) (hc : 2 ≤ c) (hd : 2 ≤ d) :
    g.firstSector c + g.clusterSize = g.firstSector d ↔ d = c + 1 := by
  have hnext := g.firstSector_add hc 1
  rw [Nat.mul_one] at hnext
  rw [← hnext]
  constructor
  · intro h
    exact (g.firstSector_inj (by omega) hd h).symm
  · rintro rfl
    rfl

/-! ## The clusters of all sectors -/

/-- The sector is one of the cluster. -/
def Occupies (g : Geometry) (cluster sector : Nat) : Prop :=
  ∃ first, g.firstSector? cluster = some first ∧ first ≤ sector
    ∧ sector < first + g.clusterSize

/-- The cluster that a sector of the data area is in. -/
def clusterOf (g : Geometry) (sector : Nat) : Nat :=
  2 + (sector - g.dataBase) / g.clusterSize

theorem occupies_iff : g.Occupies c s ↔
    (g.dataBase ≤ s ∧ s < g.dataEnd) ∧ c = g.clusterOf s := by
  have hpos := g.clusterSize_pos
  constructor
  · rintro ⟨first, hfirst, hle, hlt⟩
    obtain ⟨hc, rfl⟩ := firstSector?_eq_some_iff.mp hfirst
    have hend := firstSector_add_le hc
    have hsub : s - g.dataBase
        = g.clusterSize * (c - 2) + (s - g.dataBase - g.clusterSize * (c - 2)) := by
      unfold firstSector at hle
      omega
    refine ⟨⟨?_, by omega⟩, ?_⟩
    · unfold firstSector at hle
      omega
    · unfold clusterOf
      rw [hsub, Nat.mul_add_div hpos, Nat.div_eq_of_lt (by unfold firstSector at hlt; omega)]
      exact (Nat.add_sub_cancel' hc.1).symm
  · rintro ⟨⟨hlow, hhigh⟩, rfl⟩
    have hdiv := Nat.div_add_mod (s - g.dataBase) g.clusterSize
    have hmod := Nat.mod_lt (s - g.dataBase) hpos
    have hcount : (s - g.dataBase) / g.clusterSize < g.clusterCount := by
      refine Nat.div_lt_of_lt_mul ?_
      unfold dataEnd at hhigh
      omega
    unfold clusterOf
    generalize (s - g.dataBase) / g.clusterSize = index at hdiv hcount ⊢
    have hc : g.HasCluster (2 + index) := by
      unfold clusterCount at hcount
      exact ⟨Nat.le_add_right _ _, by omega⟩
    have hplace : g.firstSector (2 + index) = g.dataBase + g.clusterSize * index := by
      unfold firstSector
      rw [Nat.add_sub_cancel_left]
    exact ⟨_, firstSector?_eq_some hc, by omega, by omega⟩

/-- **A sector of the data area is in one cluster.** -/
theorem existsUnique_occupies (hlow : g.dataBase ≤ s) (hhigh : s < g.dataEnd) :
    ∃! c, g.Occupies c s :=
  ⟨g.clusterOf s, occupies_iff.mpr ⟨⟨hlow, hhigh⟩, rfl⟩, fun _ hc => (occupies_iff.mp hc).2⟩

/-- Clusters from the first one on are one stretch of the medium. -/
theorem fileSectors_range' (g : Geometry) (n : Nat) :
    g.fileSectors (List.range' 2 n) = List.range' g.dataBase (g.clusterSize * n) := by
  induction n with
  | zero => rfl
  | succ n ih =>
      have hplace : g.firstSector (2 + n) = g.dataBase + g.clusterSize * n := by
        unfold firstSector
        rw [Nat.add_sub_cancel_left]
      unfold fileSectors at ih ⊢
      rw [List.range'_1_concat, List.flatMap_append, ih, List.flatMap_singleton, hplace,
        List.range'_append_1, Nat.mul_succ]

/-! ## In 32 bits -/

/-- The two looks at a cluster number agree. -/
theorem index_lt_iff (g : Geometry) (c : UInt32) :
    (c - 2).toNat < g.clusterCount ↔ g.HasCluster c.toNat := by
  have hcount := g.consistent.entryCount_lt
  have hc := c.toNat_lt
  have hindex : (c - 2).toNat = (0x100000000 - 2 + c.toNat) % 0x100000000 := UInt32.toNat_sub c 2
  rw [hindex]
  unfold clusterCount HasCluster
  omega

/-- The place of a cluster, computed in 32 bits, is its place. -/
theorem firstSector_word {c : UInt32} (hc : g.HasCluster c.toNat) :
    (g.dataBase.toUInt32 + g.clusterSize.toUInt32 * (c - 2)).toNat = g.firstSector c.toNat := by
  have hend := firstSector_add_le hc
  have hlt := g.dataEnd_lt
  have hpos := g.clusterSize_pos
  have hindex : (c - 2).toNat = c.toNat - 2 :=
    UInt32.toNat_sub_of_le c 2 (UInt32.le_iff_toNat_le.mpr hc.1)
  have hbase : g.dataBase.toUInt32.toNat = g.dataBase := by
    refine UInt32.toNat_ofNat_of_lt' ?_
    unfold firstSector at hend
    unfold UInt32.size
    omega
  have hsize : g.clusterSize.toUInt32.toNat = g.clusterSize := by
    refine UInt32.toNat_ofNat_of_lt' ?_
    have := g.consistent.clusterSize_lt
    unfold UInt32.size
    omega
  rw [UInt32.toNat_add, UInt32.toNat_mul, hindex, hbase, hsize]
  unfold firstSector at hend ⊢
  rw [Nat.mod_eq_of_lt (a := g.clusterSize * (c.toNat - 2)) (by omega)]
  exact Nat.mod_eq_of_lt (by omega)

/-- **Clusters divide up the data area.** A number has a place exactly if it is that of a cluster,
however the number is looked at, and the place is the one that 32 bits give. Places ascend with the
numbers. Each sector of the data area is in one cluster, and no other sector is in any; one after
the other the clusters are the data area, which ends below 2³². One cluster follows on the other
exactly if its number is the next. The number that says an image is resident is none of them. -/
theorem clusters_divide_data_area (g : Geometry) :
    (∀ c, (g.firstSector? c).isSome ↔ g.HasCluster c)
      ∧ (∀ c : UInt32, (c - 2).toNat < g.clusterCount ↔ g.HasCluster c.toNat)
      ∧ (∀ c : UInt32, g.HasCluster c.toNat → g.firstSector? c.toNat
          = some (g.dataBase.toUInt32 + g.clusterSize.toUInt32 * (c - 2)).toNat)
      ∧ (∀ c d a b, g.firstSector? c = some a → g.firstSector? d = some b →
          (a < b ↔ c < d) ∧ (a + g.clusterSize = b ↔ d = c + 1))
      ∧ (∀ s, g.dataBase ≤ s → s < g.dataEnd → ∃! c, g.Occupies c s)
      ∧ (∀ c s, g.Occupies c s → g.dataBase ≤ s ∧ s < g.dataEnd)
      ∧ g.fileSectors (List.range' 2 g.clusterCount)
          = List.range' g.dataBase (g.clusterSize * g.clusterCount)
      ∧ g.dataEnd = g.dataBase + g.clusterSize * (g.entryCount - 2) ∧ g.dataEnd < 0x100000000
      ∧ ¬ g.HasCluster residentCluster.toNat := by
  refine ⟨fun _ => isSome_firstSector?_iff, g.index_lt_iff, ?_, ?_,
    fun _ => existsUnique_occupies, fun _ _ h => (occupies_iff.mp h).1, g.fileSectors_range' _, rfl,
    g.dataEnd_lt, SecondStage.not_hasCluster_residentCluster g⟩
  · intro c hc
    rw [firstSector_word hc]
    exact firstSector?_eq_some hc
  · intro c d a b ha hb
    obtain ⟨hc, rfl⟩ := firstSector?_eq_some_iff.mp ha
    obtain ⟨hd, rfl⟩ := firstSector?_eq_some_iff.mp hb
    exact ⟨g.firstSector_lt_iff hc.1 hd.1, g.firstSector_add_eq_iff hc.1 hd.1⟩

end CartBoot.Fat.Geometry
