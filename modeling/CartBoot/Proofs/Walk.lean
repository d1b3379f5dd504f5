import CartBoot.Proofs.Table

/-!
# Walking a chain byte by byte

The plainest way to use a file: before each byte, look whether it begins a new
cluster, and if so follow the table. The walk knows no window, no runs of adjacent
clusters and no sectors; it says which byte of the medium each byte of the file
is. Every transfer of a cursor, however it is cut into pieces, is measured
against it.

* `holder?` is the cluster of the next byte of a cursor;
* `walk?` is the cluster of a cursor that has moved on by some bytes;
* `spot?` is the address of a byte some way ahead of a cursor.

A walk breaks off where the table names no cluster. It goes in a straight line
through clusters that are neighbours both in the chain and on the medium.
-/

namespace CartBoot

namespace Fat.Geometry

/-! ## Where clusters lie -/

/-- First sector of a cluster of the volume. -/
def firstSector (g : Geometry) (cluster : Nat) : Nat :=
  g.dataBase + g.clusterSize * (cluster - 2)

/-- The address of the byte at a position of a file, in the cluster that holds it. -/
def byteAddress (g : Geometry) (cluster position : Nat) : Nat :=
  sectorSize * g.firstSector cluster + position % g.clusterBytes

theorem clusterBytes_eq (g : Geometry) : g.clusterBytes = sectorSize * g.clusterSize :=
  Nat.mul_comm _ _

/-- Data lie in the data area. -/
theorem le_byteAddress (g : Geometry) (cluster position : Nat) :
    sectorSize * g.dataBase ≤ g.byteAddress cluster position := by
  unfold byteAddress firstSector
  rw [Nat.mul_add]
  omega

theorem byteAddress_div (g : Geometry) (cluster position : Nat) :
    g.byteAddress cluster position / sectorSize
      = g.firstSector cluster + position % g.clusterBytes / sectorSize :=
  Nat.mul_add_div sectorSize_pos _ _

theorem mod_clusterBytes_div_lt (g : Geometry) (position : Nat) :
    position % g.clusterBytes / sectorSize < g.clusterSize := by
  have hmod := Nat.mod_lt position g.clusterBytes_pos
  refine Nat.div_lt_of_lt_mul ?_
  rw [← clusterBytes_eq]
  exact hmod

theorem firstSector_add_le {g : Geometry} {cluster : Nat} (hc : g.HasCluster cluster) :
    g.firstSector cluster + g.clusterSize ≤ g.dataEnd := by
  obtain ⟨h2, hlt⟩ := hc
  have h : g.clusterSize * (cluster - 2 + 1) ≤ g.clusterSize * g.clusterCount :=
    Nat.mul_le_mul_left _ (by unfold clusterCount; omega)
  rw [Nat.mul_succ] at h
  unfold firstSector dataEnd
  omega

/-- Clusters follow each other on the device. -/
theorem firstSector_add (g : Geometry) {cluster : Nat} (h : 2 ≤ cluster) (n : Nat) :
    g.firstSector (cluster + n) = g.firstSector cluster + g.clusterSize * n := by
  unfold firstSector
  rw [Nat.sub_add_comm h, Nat.mul_add, Nat.add_assoc]

theorem firstSector_inj (g : Geometry) {c d : Nat} (hc : 2 ≤ c) (hd : 2 ≤ d)
    (h : g.firstSector c = g.firstSector d) : c = d := by
  unfold firstSector at h
  have := Nat.eq_of_mul_eq_mul_left g.clusterSize_pos (Nat.add_left_cancel h)
  omega

theorem firstSector?_eq_some {g : Geometry} {cluster : Nat} (hc : g.HasCluster cluster) :
    g.firstSector? cluster = some (g.firstSector cluster) := by
  have hend := firstSector_add_le hc
  have hlt := g.dataEnd_lt
  have hpos := g.clusterSize_pos
  obtain ⟨h2, hlt'⟩ := hc
  unfold firstSector? clusterCount
  rw [if_pos (by omega)]
  exact if_pos (by unfold firstSector at hend; omega)

theorem firstSector?_eq_none {g : Geometry} {cluster : Nat} (hc : ¬ g.HasCluster cluster) :
    g.firstSector? cluster = none := by
  unfold firstSector? clusterCount
  rw [if_neg]
  intro h
  exact hc ⟨h.1, by omega⟩

/-! ## The walk -/

/-- The cluster that holds the next byte of a cursor at `position`, `cluster` being the cluster
of the byte before. -/
def holder? (g : Geometry) (byte : Nat → UInt8) (cluster position : Nat) : Option Nat :=
  if position ≠ 0 ∧ position % g.clusterBytes = 0 then
    let next := g.tableEntry byte cluster
    if g.HasCluster cluster ∧ g.HasCluster next then some next else none
  else if g.HasCluster cluster then
    some cluster
  else
    none

/-- The cluster of a cursor that has moved on by `n` bytes. -/
def walk? (g : Geometry) (byte : Nat → UInt8) (cluster position : Nat) : (n : Nat) → Option Nat
  | 0 => some cluster
  | n + 1 => (g.walk? byte cluster position n).bind fun c => g.holder? byte c (position + n)

/-- The address of byte number `i` ahead of a cursor. -/
def spot? (g : Geometry) (byte : Nat → UInt8) (cluster position i : Nat) : Option Nat :=
  (g.walk? byte cluster position (i + 1)).map fun c => g.byteAddress c (position + i)

section Walk

variable {g : Geometry} {byte : Nat → UInt8} {cluster position : Nat}

theorem walk?_succ (n : Nat) : g.walk? byte cluster position (n + 1) =
    (g.walk? byte cluster position n).bind fun c => g.holder? byte c (position + n) := rfl

theorem walk?_one : g.walk? byte cluster position 1 = g.holder? byte cluster position := rfl

/-- A walk is resumed where it stopped. -/
theorem walk?_add {m next : Nat} (h : g.walk? byte cluster position m = some next) (n : Nat) :
    g.walk? byte cluster position (m + n) = g.walk? byte next (position + m) n := by
  induction n with
  | zero => exact h
  | succ n ih => rw [← Nat.add_assoc, walk?_succ, walk?_succ, ih, Nat.add_assoc]

/-- A walk that goes far goes less far too. -/
theorem walk?_of_le {m n last : Nat} (h : g.walk? byte cluster position n = some last)
    (hmn : m ≤ n) : ∃ c, g.walk? byte cluster position m = some c := by
  induction n generalizing last with
  | zero => exact ⟨last, by rwa [Nat.le_zero.mp hmn]⟩
  | succ n ih =>
      rcases Nat.lt_or_eq_of_le hmn with hlt | heq
      · rw [walk?_succ] at h
        obtain ⟨c, hc, _⟩ := Option.bind_eq_some_iff.mp h
        exact ih hc (Nat.le_of_lt_succ hlt)
      · exact ⟨last, heq ▸ h⟩

/-- At a cluster boundary the next byte is in the cluster that the table names, if there is one. -/
theorem holder?_boundary (hb : position ≠ 0 ∧ position % g.clusterBytes = 0) :
    g.holder? byte cluster position =
      if g.HasCluster cluster ∧ g.HasCluster (g.tableEntry byte cluster) then
        some (g.tableEntry byte cluster)
      else
        none :=
  if_pos hb

/-- Elsewhere the next byte is in the same cluster. -/
theorem holder?_within (hb : ¬ (position ≠ 0 ∧ position % g.clusterBytes = 0)) :
    g.holder? byte cluster position = if g.HasCluster cluster then some cluster else none :=
  if_neg hb

theorem hasCluster_of_holder? {c : Nat} (h : g.holder? byte cluster position = some c) :
    g.HasCluster c := by
  by_cases hb : position ≠ 0 ∧ position % g.clusterBytes = 0
  · rw [holder?_boundary hb] at h
    split at h
    · rename_i hc
      cases h
      exact hc.2
    · cases h
  · rw [holder?_within hb] at h
    split at h
    · rename_i hc
      cases h
      exact hc
    · cases h

theorem hasCluster_of_walk? {n c : Nat} (h : g.walk? byte cluster position (n + 1) = some c) :
    g.HasCluster c := by
  rw [walk?_succ] at h
  obtain ⟨_, _, hc⟩ := Option.bind_eq_some_iff.mp h
  exact hasCluster_of_holder? hc

/-- Inside a cluster the next byte is in the same cluster. -/
theorem holder?_inside (hc : g.HasCluster cluster) (hp : position % g.clusterBytes ≠ 0) :
    g.holder? byte cluster position = some cluster := by
  rw [holder?_within fun h => hp h.2, if_pos hc]

/-- A walk depends on the bytes of the table only. -/
theorem walk?_congr {f f' : Nat → UInt8} (h : ∀ a, a < sectorSize * g.tableEnd → f a = f' a)
    (n : Nat) : g.walk? f cluster position n = g.walk? f' cluster position n := by
  induction n with
  | zero => rfl
  | succ n ih =>
      rw [walk?_succ, walk?_succ, ih]
      congr 1
      funext c
      unfold holder?
      by_cases hc : g.HasCluster c
      · rw [tableEntry_congr hc h]
      · simp only [hc, false_and, if_false]

/-! ## Straight runs -/

/-- The chain goes on from a cluster to its neighbour. -/
structure Linked (g : Geometry) (byte : Nat → UInt8) (c : Nat) : Prop where
  has : g.HasCluster c
  entry : g.tableEntry byte c = c + 1
  next : g.HasCluster (c + 1)

/-- One link before the links of a run. -/
theorem Linked.cons {c m : Nat} (h : g.Linked byte c)
    (hrest : ∀ k, k < m → g.Linked byte (c + 1 + k)) : ∀ k, k < m + 1 → g.Linked byte (c + k) := by
  intro k hk
  cases k with
  | zero => exact h
  | succ k =>
      rw [Nat.add_comm k, ← Nat.add_assoc]
      exact hrest k (by omega)

variable {c₀ j : Nat}

/-- Through linked clusters a walk counts clusters up. -/
theorem walk?_run (h₀ : g.holder? byte cluster position = some c₀)
    (hl : ∀ m, m < j → g.Linked byte (c₀ + m)) (i : Nat)
    (hi : position % g.clusterBytes + i < g.clusterBytes * (j + 1)) :
    g.walk? byte cluster position (i + 1) =
      some (c₀ + (position % g.clusterBytes + i) / g.clusterBytes) := by
  have hpos := g.clusterBytes_pos
  have hr : position % g.clusterBytes < g.clusterBytes := Nat.mod_lt _ hpos
  induction i with
  | zero =>
      rw [walk?_one, h₀, Nat.add_zero, Nat.div_eq_of_lt hr, Nat.add_zero]
  | succ i ih =>
      rw [walk?_succ, ih (by omega), Option.bind_some]
      have hmod : (position + (i + 1)) % g.clusterBytes
          = (position % g.clusterBytes + i + 1) % g.clusterBytes := by
        rw [Nat.add_assoc, Nat.mod_add_mod]
      generalize hq : position % g.clusterBytes + i = q at *
      have hqj : q / g.clusterBytes < j + 1 := Nat.div_lt_of_lt_mul (by omega)
      have hdm := Nat.div_add_mod q g.clusterBytes
      have hstep : position % g.clusterBytes + (i + 1) = q + 1 := by omega
      rw [hstep] at hi ⊢
      by_cases hb : (q + 1) % g.clusterBytes = 0
      · -- the next byte begins a cluster
        have hdiv : (q + 1) / g.clusterBytes = q / g.clusterBytes + 1 := by
          rw [Nat.succ_div_of_mod_eq_zero hb]
        have hlt : q / g.clusterBytes + 1 < j + 1 := by
          rw [← hdiv]
          exact Nat.div_lt_of_lt_mul hi
        obtain ⟨hhas, hentry, hnext⟩ := hl (q / g.clusterBytes) (by omega)
        rw [holder?_boundary ⟨by omega, by rw [hmod]; exact hb⟩, hentry, if_pos ⟨hhas, hnext⟩, hdiv,
          Nat.add_assoc]
      · have hdiv : (q + 1) / g.clusterBytes = q / g.clusterBytes := by
          rw [Nat.succ_div_of_mod_ne_zero hb]
        rw [holder?_inside (hasCluster_of_walk? (ih (by omega))) (by rw [hmod]; exact hb), hdiv]

/-- Through linked clusters a walk enters a new one from one of those that are linked on. -/
theorem walk?_run_boundary (h₀ : g.holder? byte cluster position = some c₀)
    (hl : ∀ m, m < j → g.Linked byte (c₀ + m)) {i : Nat} (pos : 0 < i)
    (hi : position % g.clusterBytes + i < g.clusterBytes * (j + 1))
    (hb : (position + i) % g.clusterBytes = 0) :
    ∃ m, m < j ∧ g.walk? byte cluster position i = some (c₀ + m) := by
  have hwalk := walk?_run h₀ hl (i - 1) (by omega)
  rw [Nat.sub_add_cancel pos] at hwalk
  rw [← Nat.mod_add_mod] at hb
  generalize hq : position % g.clusterBytes + i = q at *
  have hdiv : (q - 1 + 1) / g.clusterBytes = (q - 1) / g.clusterBytes + 1 :=
    Nat.succ_div_of_mod_eq_zero (by rw [Nat.sub_add_cancel (by omega)]; exact hb)
  rw [Nat.sub_add_cancel (by omega)] at hdiv
  have hlt : q / g.clusterBytes < j + 1 := Nat.div_lt_of_lt_mul hi
  refine ⟨(q - 1) / g.clusterBytes, by omega, ?_⟩
  rw [hwalk, show position % g.clusterBytes + (i - 1) = q - 1 by omega]

/-- Through linked clusters a walk goes up the medium byte by byte. -/
theorem spot?_run (h₀ : g.holder? byte cluster position = some c₀)
    (hl : ∀ m, m < j → g.Linked byte (c₀ + m)) (i : Nat)
    (hi : position % g.clusterBytes + i < g.clusterBytes * (j + 1)) :
    g.spot? byte cluster position i =
      some (sectorSize * g.firstSector c₀ + position % g.clusterBytes + i) := by
  have h2 : 2 ≤ c₀ := (hasCluster_of_holder? h₀).1
  unfold spot?
  rw [walk?_run h₀ hl i hi, Option.map_some]
  unfold byteAddress firstSector
  have hmod : (position + i) % g.clusterBytes
      = (position % g.clusterBytes + i) % g.clusterBytes := (Nat.mod_add_mod _ _ _).symm
  have hdm := Nat.div_add_mod (position % g.clusterBytes + i) g.clusterBytes
  rw [hmod]
  generalize (position % g.clusterBytes + i) / g.clusterBytes = q at *
  generalize (position % g.clusterBytes + i) % g.clusterBytes = r at *
  have hsub : c₀ + q - 2 = c₀ - 2 + q := by omega
  have hmul : g.clusterBytes * q = sectorSize * (g.clusterSize * q) := by
    rw [clusterBytes_eq, Nat.mul_assoc]
  rw [hsub, Nat.mul_add g.clusterSize, ← Nat.add_assoc, Nat.mul_add sectorSize]
  congr 1
  omega

/-- Where the chain does not go on to the neighbour of a cluster, a walk does not go straight on
from the end of it. -/
theorem spot?_ne_of_not_linked {n c : Nat} (hc : g.HasCluster c)
    (hwalk : g.walk? byte cluster position n = some c)
    (hb : position + n ≠ 0 ∧ (position + n) % g.clusterBytes = 0) (hno : ¬ g.Linked byte c) :
    g.spot? byte cluster position n
      ≠ some (sectorSize * (g.firstSector c + g.clusterSize)) := by
  intro hspot
  unfold spot? at hspot
  rw [walk?_succ, hwalk, Option.bind_some] at hspot
  obtain ⟨d, hd, haddress⟩ := Option.map_eq_some_iff.mp hspot
  rw [holder?_boundary hb] at hd
  split at hd
  · rename_i hboth
    cases hd
    unfold byteAddress at haddress
    rw [hb.2, Nat.add_zero, ← Nat.mul_one g.clusterSize, ← g.firstSector_add hc.1] at haddress
    have hentry : g.tableEntry byte c = c + 1 :=
      g.firstSector_inj hboth.2.1 (Nat.le_succ_of_le hc.1)
        (Nat.eq_of_mul_eq_mul_left sectorSize_pos haddress)
    exact hno ⟨hc, hentry, hentry ▸ hboth.2⟩
  · cases hd

end Walk

end Fat.Geometry

end CartBoot
