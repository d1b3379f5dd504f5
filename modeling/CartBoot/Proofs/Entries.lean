import CartBoot.Proofs.Descriptor
import CartBoot.Proofs.Table

/-!
# Packed entries

The bytes of the allocation table, taken as one little-endian number, are a row of
fields of 12, 16 or 32 bits, and the entry of cluster `c` is field number `c`. This
is what a look-up computes, although it never sees more than one sector of the
table and a 12-bit field shares a byte with its neighbour.

Storing an entry goes the other way, with arithmetic of its own: it replaces two or
four bytes, of which a 12-bit entry has only one and a half. The half byte that is
left belongs to the entry before or after. So storing changes one entry and no
other, and after any number of stores each entry is the value stored in it last.
-/

namespace CartBoot

open Fat

/-! ## Fields of a number -/

/-- Dropping the low bytes of a number leaves the number in the bytes behind them. -/
theorem numberFrom_shiftRight (byte : Nat → UInt8) (a : Nat) {skip width : Nat}
    (h : skip ≤ width) :
    numberFrom byte a width >>> (8 * skip) = numberFrom byte (a + skip) (width - skip) := by
  induction skip generalizing a width with
  | zero => rfl
  | succ skip ih =>
      obtain ⟨width, rfl⟩ : ∃ rest, width = rest + 1 := ⟨width - 1, by omega⟩
      have hfirst : (byte a).toNat < 256 := (byte a).toNat_lt
      have hdrop : numberFrom byte a (width + 1) >>> 8 = numberFrom byte (a + 1) width := by
        rw [numberFrom]
        omega
      rw [show 8 * (skip + 1) = 8 + 8 * skip by omega, Nat.shiftRight_add, hdrop,
        ih (a + 1) (by omega), Nat.add_sub_add_right, show a + 1 + skip = a + (skip + 1) by omega]

/-- Keeping the low bytes of a number leaves the number in them. -/
theorem numberFrom_mod (byte : Nat → UInt8) (a : Nat) {keep width : Nat} (h : keep ≤ width) :
    numberFrom byte a width % 256 ^ keep = numberFrom byte a keep := by
  induction keep generalizing a width with
  | zero => exact Nat.mod_one _
  | succ keep ih =>
      obtain ⟨width, rfl⟩ : ∃ rest, width = rest + 1 := ⟨width - 1, by omega⟩
      have hfirst : (byte a).toNat < 256 := (byte a).toNat_lt
      have hrest : numberFrom byte (a + 1) width % 256 ^ keep = numberFrom byte (a + 1) keep :=
        ih (a + 1) (by omega)
      have hlow :
          ((byte a).toNat + 256 * numberFrom byte (a + 1) width) % 256 = (byte a).toNat := by
        omega
      have hhigh : ((byte a).toNat + 256 * numberFrom byte (a + 1) width) / 256
          = numberFrom byte (a + 1) width := by
        omega
      rw [numberFrom, numberFrom, Nat.pow_succ', Nat.mod_mul, hlow, hhigh, hrest]

namespace Fat

/-! ## Where entries lie -/

namespace Format

/-- Bits of one entry in the table. -/
def entryBits : Format → Nat
  | fat12 => 12
  | fat16 => 16
  | fat32 => 32

/-- Whole bytes that an entry lies in. -/
def entryBytes : Format → Nat
  | fat12 => 2
  | fat16 => 2
  | fat32 => 4

/-- The first of these bytes, counted from the start of the table. -/
def entryOffset : Format → (cluster : Nat) → Nat
  | fat12, cluster => cluster + cluster / 2
  | fat16, cluster => 2 * cluster
  | fat32, cluster => 4 * cluster

/-- The entry in the bytes that it lies in. -/
def unpack : Format → (cluster word : Nat) → Nat
  | fat12, cluster, word => if cluster % 2 = 1 then word / 16 else word % 0x1000
  | fat16, _, word => word
  | fat32, _, word => word % 0x10000000

/-- The bytes with the entry replaced; a packed entry leaves half a byte of them as it was. -/
def repack : Format → (cluster value word : Nat) → Nat
  | fat12, cluster, value, word =>
      if cluster % 2 = 1 then word % 16 + 16 * (value % 0x1000)
      else 0x1000 * (word / 0x1000) + value % 0x1000
  | fat16, _, value, _ => value
  | fat32, _, value, _ => value

theorem entryOffset_add_le (format : Format) {cluster entryCount : Nat} (h : cluster < entryCount) :
    format.entryOffset cluster + format.entryBytes ≤ format.tableBytes entryCount := by
  cases format <;> simp only [entryOffset, entryBytes, tableBytes, tableUnits] <;> omega

theorem unpack_repack (format : Format) (cluster value word : Nat) :
    format.unpack cluster (format.repack cluster value word % 256 ^ format.entryBytes)
      = value % format.entryRange := by
  cases format with
  | fat12 =>
      simp only [unpack, repack, entryBytes, entryRange]
      split <;> omega
  | fat16 => rfl
  | fat32 =>
      simp only [unpack, repack, entryBytes, entryRange]
      omega

/-- An entry is cut out of a number by dropping whole bytes first, and then the half byte in front
of an odd packed entry. -/
theorem unpack_shiftRight (format : Format) (cluster number : Nat) :
    format.unpack cluster
        (number >>> (8 * format.entryOffset cluster) % 256 ^ format.entryBytes)
      = number >>> (format.entryBits * cluster) % (1 <<< format.entryBits)
        % format.entryRange := by
  cases format with
  | fat12 =>
      have hskip : 12 * cluster = 8 * (cluster + cluster / 2) + 4 * (cluster % 2) := by omega
      simp only [unpack, entryBits, entryBytes, entryOffset, entryRange]
      rw [hskip, Nat.shiftRight_add, show 1 <<< 12 = 0x1000 from rfl]
      rcases Nat.mod_two_eq_zero_or_one cluster with h | h <;> rw [h]
      · rw [if_neg (by omega), Nat.mul_zero, Nat.shiftRight_zero]
        omega
      · rw [if_pos rfl, Nat.mul_one]
        omega
  | fat16 =>
      have hskip : 16 * cluster = 8 * (2 * cluster) := by omega
      simp only [unpack, entryBits, entryBytes, entryOffset, entryRange]
      rw [hskip, show 1 <<< 16 = 0x10000 from rfl]
      omega
  | fat32 =>
      have hskip : 32 * cluster = 8 * (4 * cluster) := by omega
      simp only [unpack, entryBits, entryBytes, entryOffset, entryRange]
      rw [hskip, show 1 <<< 32 = 0x100000000 from rfl]
      omega

end Format

namespace Geometry

/-- Address of the first byte of an entry. -/
def entryAddress (g : Geometry) (cluster : Nat) : Nat :=
  sectorSize * g.tableBase + g.format.entryOffset cluster

/-- The number in the bytes that an entry lies in. -/
def entryWord (g : Geometry) (byte : Nat → UInt8) (cluster : Nat) : Nat :=
  numberFrom byte (g.entryAddress cluster) g.format.entryBytes

/-- The bytes of the table as one little-endian number. -/
def tableNumber (g : Geometry) (byte : Nat → UInt8) : Nat :=
  numberFrom byte (sectorSize * g.tableBase) (g.format.tableBytes g.entryCount)

/-- The field of a cluster in the row of fields that the table is. -/
def packedEntry (g : Geometry) (byte : Nat → UInt8) (cluster : Nat) : Nat :=
  g.tableNumber byte >>> (g.format.entryBits * cluster) % (1 <<< g.format.entryBits)

variable {g : Geometry} {byte : Nat → UInt8} {cluster : Nat}

theorem tableEntry_eq_unpack :
    g.tableEntry byte cluster = g.format.unpack cluster (g.entryWord byte cluster) := by
  unfold tableEntry entryWord entryAddress
  cases g.format <;> rfl

theorem packedEntry_eq_unpack (hc : g.HasCluster cluster) :
    g.packedEntry byte cluster % g.format.entryRange
      = g.format.unpack cluster (g.entryWord byte cluster) := by
  have hinside := g.format.entryOffset_add_le hc.2
  have hword : g.entryWord byte cluster
      = g.tableNumber byte >>> (8 * g.format.entryOffset cluster) % 256 ^ g.format.entryBytes := by
    unfold tableNumber
    rw [numberFrom_shiftRight _ _ (by omega), numberFrom_mod _ _ (by omega)]
    rfl
  rw [hword, Format.unpack_shiftRight]
  rfl

/-- **The entry of a cluster is its field in the row.** -/
theorem tableEntry_eq_packedEntry (hc : g.HasCluster cluster) :
    g.tableEntry byte cluster = g.packedEntry byte cluster % g.format.entryRange :=
  tableEntry_eq_unpack.trans (packedEntry_eq_unpack hc).symm

end Geometry

end Fat

/-! ## Bytes past the log -/

namespace Disk

variable {d e : Disk} {a : Nat}

theorem stored_poke (d : Disk) (address : Nat) (data : ByteArray) :
    d.Stored address data (d.poke address data) := by
  unfold poke
  by_cases hempty : data.size = 0
  · rw [if_pos hempty]
    exact ⟨fun a => by rw [if_neg (by omega)], rfl, rfl⟩
  rw [if_neg hempty]
  dsimp only
  refine ⟨fun a => ?_, sectorCount_setSectors .., faults_setSectors ..⟩
  -- the sectors from the first to the last byte of the stretch
  generalize hfirst : address / sectorSize = first
  generalize hcount : (address + data.size - 1) / sectorSize + 1 - first = count
  have hlow : sectorSize * first ≤ address := by
    unfold sectorSize at *
    omega
  have hhigh : address + data.size ≤ sectorSize * (first + count) := by
    unfold sectorSize at *
    omega
  have hoffset : address % sectorSize = address - sectorSize * first := by
    unfold sectorSize at *
    omega
  rw [byte_setSectors, hoffset]
  by_cases ha : sectorSize * first ≤ a ∧ a < sectorSize * (first + count)
  · have hi : a - sectorSize * first < sectorSize * count := by
      rw [Nat.mul_add] at ha
      omega
    rw [if_pos ha, ByteArray.byteAt_patch _ _ _ _ (by rwa [size_sectors]),
      byteAt_sectors _ _ _ _ hi, Nat.add_sub_cancel' ha.1]
    by_cases hin : address ≤ a ∧ a < address + data.size
    · rw [if_pos (by omega), if_pos hin]
      congr 1
      omega
    · rw [if_neg (by omega), if_neg hin]
  · rw [if_neg ha, if_neg (by omega)]

/-- A number elsewhere is not changed. -/
theorem Stored.numberFrom_of_apart {data : ByteArray} (h : d.Stored a data e) {b width : Nat}
    (hapart : b + width ≤ a ∨ a + data.size ≤ b) :
    numberFrom e.byte b width = numberFrom d.byte b width := by
  refine numberFrom_congr width fun k hk => ?_
  rw [h.byte, if_neg (by omega)]

/-- A number just stored is read back, as far as its bytes go. -/
theorem Stored.numberFrom_self {width n : Nat}
    (h : d.Stored a (ByteArray.littleEndian width n).toByteArray e) :
    numberFrom e.byte a width = n % 256 ^ width := by
  have hread : (ByteArray.littleEndian width n).toByteArray.numberAt 0 width = n % 256 ^ width :=
    ByteArray.numberAt_littleEndian fun k _ => by
      rw [Nat.zero_add, ByteArray.byteAt_toByteArray]
  rw [← hread, numberAt_eq]
  refine numberFrom_congr width fun k hk => ?_
  rw [h.byte, ByteArray.size_littleEndian, if_pos (by omega), Nat.add_sub_cancel_left,
    Nat.zero_add]

end Disk

namespace Fat.Image

variable {image : Image} {cluster other value : Nat}

/-! ## Storing one entry -/

@[simp] theorem geometry_setEntry : (image.setEntry cluster value).geometry = image.geometry := by
  unfold setEntry
  split <;> rfl

/-- Storing an entry stores the bytes that it lies in. -/
theorem stored_setEntry (image : Image) (cluster value : Nat) :
    image.disk.Stored (image.geometry.entryAddress cluster)
      (ByteArray.littleEndian image.geometry.format.entryBytes
        (image.geometry.format.repack cluster value
          (image.geometry.entryWord image.disk.byte cluster))).toByteArray
      (image.setEntry cluster value).disk := by
  unfold setEntry Geometry.entryWord Geometry.entryAddress
  cases hf : image.geometry.format <;> exact Disk.stored_poke ..

/-- Of two bytes shared with another packed entry, the half byte of that entry stays. -/
theorem repack_shared {byte byte' : Nat → UInt8} {a : Nat}
    (h : numberFrom byte' a 2 = Format.fat12.repack cluster value (numberFrom byte a 2) % 0x10000) :
    if cluster % 2 = 1 then (byte' a).toNat % 16 = (byte a).toNat % 16
    else (byte' (a + 1)).toNat / 16 = (byte (a + 1)).toNat / 16 := by
  have h0 : (byte a).toNat < 256 := (byte a).toNat_lt
  have h1 : (byte (a + 1)).toNat < 256 := (byte (a + 1)).toNat_lt
  have h0' : (byte' a).toNat < 256 := (byte' a).toNat_lt
  have h1' : (byte' (a + 1)).toNat < 256 := (byte' (a + 1)).toNat_lt
  simp only [Format.repack, numberFrom] at h
  split <;> rename_i hparity
  · rw [if_pos hparity] at h
    omega
  · rw [if_neg hparity] at h
    omega

/-- Packed entries: storing one leaves the others alone, the neighbour that shares a byte with it
included. -/
theorem unpack_of_stored {d e : Disk} {base : Nat}
    (hs : d.Stored (base + (cluster + cluster / 2))
      (ByteArray.littleEndian 2 (Format.fat12.repack cluster value
        (numberFrom d.byte (base + (cluster + cluster / 2)) 2))).toByteArray e)
    (hne : other ≠ cluster) :
    Format.fat12.unpack other (numberFrom e.byte (base + (other + other / 2)) 2)
      = Format.fat12.unpack other (numberFrom d.byte (base + (other + other / 2)) 2) := by
  have hshared := repack_shared hs.numberFrom_self
  have hout : ∀ a, a < base + (cluster + cluster / 2) ∨ base + (cluster + cluster / 2) + 2 ≤ a →
      e.byte a = d.byte a := by
    intro a ha
    rw [hs.byte, ByteArray.size_littleEndian, if_neg (by omega)]
  by_cases hnext : other = cluster + 1 ∧ cluster % 2 = 0
  · -- the odd entry after an even one begins in the last byte of it
    obtain ⟨rfl, heven⟩ := hnext
    rw [if_neg (by omega)] at hshared
    have hlast := hout (base + (cluster + cluster / 2) + 1 + 1) (by omega)
    rw [show base + (cluster + 1 + (cluster + 1) / 2) = base + (cluster + cluster / 2) + 1 by omega]
    simp only [Format.unpack, numberFrom]
    rw [if_pos (by omega), if_pos (by omega), hlast]
    omega
  by_cases hprev : cluster = other + 1 ∧ other % 2 = 0
  · -- the even entry before an odd one ends in the first byte of it
    obtain ⟨rfl, heven⟩ := hprev
    rw [if_pos (by omega)] at hshared
    rw [show base + (other + 1 + (other + 1) / 2) = base + (other + other / 2) + 1 by omega]
      at hshared hout
    have hfirst := hout (base + (other + other / 2)) (by omega)
    simp only [Format.unpack, numberFrom]
    rw [if_neg (by omega), if_neg (by omega), hfirst]
    omega
  · -- the others have no byte in common
    rw [hs.numberFrom_of_apart (by rw [ByteArray.size_littleEndian]; omega)]

/-- **Storing an entry changes this entry only**, also where two entries share a byte. -/
theorem tableEntry_setEntry :
    image.geometry.tableEntry (image.setEntry cluster value).disk.byte other =
      if other = cluster then value % image.geometry.format.entryRange
      else image.geometry.tableEntry image.disk.byte other := by
  have hs := image.stored_setEntry cluster value
  rw [Geometry.tableEntry_eq_unpack, Geometry.tableEntry_eq_unpack]
  by_cases hsame : other = cluster
  · subst hsame
    have hword : image.geometry.entryWord (image.setEntry other value).disk.byte other
        = image.geometry.format.repack other value (image.geometry.entryWord image.disk.byte other)
          % 256 ^ image.geometry.format.entryBytes := hs.numberFrom_self
    rw [if_pos rfl, hword, Format.unpack_repack]
  · rw [if_neg hsame]
    generalize (image.setEntry cluster value).disk = e at hs
    unfold Geometry.entryWord Geometry.entryAddress at *
    cases hf : image.geometry.format with
    | fat12 =>
        rw [hf] at hs
        exact unpack_of_stored hs hsame
    | fat16 =>
        rw [hf] at hs
        refine congrArg _ (hs.numberFrom_of_apart ?_)
        rw [ByteArray.size_littleEndian]
        simp only [Format.entryOffset, Format.entryBytes]
        omega
    | fat32 =>
        rw [hf] at hs
        refine congrArg _ (hs.numberFrom_of_apart ?_)
        rw [ByteArray.size_littleEndian]
        simp only [Format.entryOffset, Format.entryBytes]
        omega

/-! ## Storing many entries -/

/-- The value stored last for a cluster, or zero. -/
def lastStored (stores : List (Nat × Nat)) (cluster : Nat) : Nat :=
  (stores.reverse.lookup cluster).getD 0

theorem lastStored_concat (stores : List (Nat × Nat)) (cluster value other : Nat) :
    lastStored (stores ++ [(cluster, value)]) other =
      if other = cluster then value else lastStored stores other := by
  unfold lastStored
  rw [List.reverse_concat, List.lookup_cons]
  split <;> rename_i h
  · rw [if_pos (beq_iff_eq.mp h)]
    rfl
  · rw [if_neg fun hsame => by simp [hsame] at h]

/-- `image` is `fresh` with values stored: on the same device, each entry is the value stored in it
last. -/
structure Records (fresh : Image) (stores : List (Nat × Nat)) (image : Image) : Prop where
  geometry : image.geometry = fresh.geometry
  sectorCount : image.disk.sectorCount = fresh.disk.sectorCount
  faults : image.disk.faults = fresh.disk.faults
  entry (cluster : Nat) (h : image.geometry.HasCluster cluster) :
    image.geometry.tableEntry image.disk.byte cluster
      = lastStored stores cluster % image.geometry.format.entryRange

section Records

variable {fresh : Image} {stores : List (Nat × Nat)}

theorem Records.setEntry (h : fresh.Records stores image) (cluster value : Nat) :
    fresh.Records (stores ++ [(cluster, value)]) (image.setEntry cluster value) := by
  have hs := image.stored_setEntry cluster value
  refine ⟨?_, hs.sectorCount.trans h.sectorCount, hs.faults.trans h.faults, fun other ho => ?_⟩
  · rw [geometry_setEntry, h.geometry]
  · rw [geometry_setEntry] at ho ⊢
    rw [tableEntry_setEntry, lastStored_concat, h.entry other ho]
    split <;> rfl

/-- Whatever is stored, in whatever order. -/
theorem Records.setEntries (h : fresh.Records stores image) (more : List (Nat × Nat)) :
    fresh.Records (stores ++ more) (more.foldl (fun i s => i.setEntry s.1 s.2) image) := by
  induction more generalizing stores image with
  | nil => rwa [List.append_nil]
  | cons s more ih =>
      have hrest := ih (h.setEntry s.1 s.2)
      rwa [List.append_assoc] at hrest

end Records

/-! ## Edits -/

/-- What may be done to the table: a value is stored, or clusters are chained. -/
inductive Edit where
  | set (cluster value : Nat)
  | link (clusters : List Nat)
  deriving Repr

namespace Edit

def apply (image : Image) : Edit → Image
  | set cluster value => image.setEntry cluster value
  | link clusters => image.link clusters

/-- The values that an edit stores: in a chain each cluster has the next one, and the last the end
mark. -/
def stores (format : Format) : Edit → List (Nat × Nat)
  | set cluster value => [(cluster, value)]
  | link clusters => clusters.zip (clusters.tail ++ [format.endMark])

end Edit

/-- Chaining clusters stores one entry for each. -/
theorem link_eq_setEntries (image : Image) (clusters : List Nat) :
    image.link clusters =
      (clusters.zip (clusters.tail ++ [image.geometry.format.endMark])).foldl
        (fun i s => i.setEntry s.1 s.2) image := by
  fun_induction link image clusters with
  | case1 => rfl
  | case2 => rfl
  | case3 image cluster next rest ih =>
    rw [ih, geometry_setEntry]
    rfl

theorem Edit.apply_eq_setEntries (image : Image) (edit : Edit) :
    edit.apply image =
      (edit.stores image.geometry.format).foldl (fun i s => i.setEntry s.1 s.2) image := by
  cases edit with
  | set cluster value => rfl
  | link clusters => exact image.link_eq_setEntries clusters

/-- An image after edits. -/
def edited (image : Image) (edits : List Edit) : Image :=
  edits.foldl Edit.apply image

/-- All values that edits store, in order. -/
def storesOf (format : Format) (edits : List Edit) : List (Nat × Nat) :=
  edits.flatMap (Edit.stores format)

theorem Records.edited {fresh : Image} {stores : List (Nat × Nat)} (h : fresh.Records stores image)
    (edits : List Edit) :
    fresh.Records (stores ++ storesOf fresh.geometry.format edits) (image.edited edits) := by
  induction edits generalizing stores image with
  | nil => rwa [storesOf, List.flatMap_nil, List.append_nil]
  | cons edit edits ih =>
      have hstep := h.setEntries (edit.stores image.geometry.format)
      rw [← Edit.apply_eq_setEntries, h.geometry] at hstep
      have hrest := ih hstep
      rwa [List.append_assoc] at hrest

/-! ## Formatting -/

theorem tableEntry_zero (g : Geometry) (cluster : Nat) : g.tableEntry (fun _ => 0) cluster = 0 := by
  unfold Geometry.tableEntry
  cases g.format
  · dsimp only
    split <;> rfl
  · rfl
  · rfl

theorem byte_patternedFrom {sectorCount first a : Nat} (h : a < sectorSize * first) :
    (Disk.patternedFrom sectorCount first).byte a = 0 := by
  show (if a < sectorSize * first then 0 else Disk.patternByte a) = 0
  rw [if_pos h]

/-- What formatting makes. -/
theorem make_eq_ok {format : Format} {clusterSize entryCount : Nat}
    (h : make format clusterSize entryCount = .ok image) :
    format.tableUnits entryCount < 0x100000000 ∧ image.geometry.format = format
      ∧ image.geometry.entryCount = entryCount ∧ image.geometry.tableEnd = image.geometry.dataBase
      ∧ image.disk = .patternedFrom image.geometry.dataEnd image.geometry.dataBase := by
  unfold make Geometry.check at h
  by_cases hunits : 0x100000000 ≤ format.tableUnits entryCount
  · rw [if_pos hunits] at h
    cases h
  rw [if_neg hunits] at h
  dsimp only at h
  by_cases hfit :
      Geometry.Consistent 1 (1 + tableSectorsFor format entryCount) clusterSize entryCount
  · rw [dif_pos hfit] at h
    cases h
    exact ⟨by omega, rfl, rfl, rfl, rfl⟩
  · rw [dif_neg hfit] at h
    cases h

/-- A freshly formatted table is empty. -/
theorem records_make {format : Format} {clusterSize entryCount : Nat}
    (h : make format clusterSize entryCount = .ok image) : image.Records [] image := by
  obtain ⟨_, _, _, hend, hdisk⟩ := make_eq_ok h
  refine ⟨rfl, rfl, rfl, fun cluster hc => ?_⟩
  rw [Geometry.tableEntry_congr hc fun a ha => ?_, tableEntry_zero]
  · exact (Nat.zero_mod _).symm
  · rw [hdisk]
    exact byte_patternedFrom (by rwa [← hend])

theorem offsetsFit_make {format : Format} {clusterSize entryCount : Nat}
    (h : make format clusterSize entryCount = .ok image) : image.geometry.OffsetsFit := by
  obtain ⟨hunits, hformat, hcount, _⟩ := make_eq_ok h
  intro hf
  rw [← hformat, ← hcount, hf] at hunits
  simp only [Format.tableUnits] at hunits
  unfold Geometry.packedLimit
  omega

/-- The table lies on the formatted disk. -/
theorem tableEnd_make {format : Format} {clusterSize entryCount : Nat}
    (h : make format clusterSize entryCount = .ok image) :
    image.geometry.tableEnd ≤ image.disk.sectorCount := by
  obtain ⟨_, _, _, hend, hdisk⟩ := make_eq_ok h
  rw [hdisk, hend]
  exact Nat.le_add_right _ _

end Fat.Image

/-! ## Look-ups -/

/-- A volume on a device that holds an image and never fails. The window may hold any sector. -/
structure Fat.Volume.Shows (v : Volume) (image : Image) : Prop where
  coherent : v.drive.Coherent
  geometry : v.geometry = image.geometry
  byte : v.disk.byte = image.disk.byte
  sectorCount : v.disk.sectorCount = image.disk.sectorCount
  faultless : v.disk.Faultless

/-- A value that was stored is looked up again. -/
theorem Fat.Image.Records.exists_nextCluster_eq {fresh image : Image} {stores : List (Nat × Nat)}
    (h : fresh.Records stores image) (hend : fresh.geometry.tableEnd ≤ fresh.disk.sectorCount)
    (hfit : fresh.geometry.OffsetsFit) {v : Volume} (hv : v.Shows image) {cluster : Nat}
    (hc : fresh.geometry.HasCluster cluster) :
    ∃ w, Volume.nextCluster cluster v
      = .ok (lastStored stores cluster % fresh.geometry.format.entryRange) w := by
  have hgeometry : v.geometry = fresh.geometry := hv.geometry.trans h.geometry
  have hcount : v.disk.sectorCount = fresh.disk.sectorCount := hv.sectorCount.trans h.sectorCount
  have hcv : v.geometry.HasCluster cluster := by rwa [hgeometry]
  obtain ⟨w, hw⟩ := Volume.exists_nextCluster_eq hv.coherent hv.faultless
    (by rw [hgeometry, hcount]; exact hend) hcv (by rw [hgeometry]; exact hfit.offsetFits hc)
  refine ⟨w, hw.trans ?_⟩
  rw [hv.geometry, hv.byte, h.entry cluster (by rw [h.geometry]; exact hc), h.geometry]

/-- **The table is decoded as it was encoded.** On any formatted image, after any edits, with any
sector in the window: each entry is the value stored for it last, cut to the width of an entry, or
zero; other clusters are refused without an access. Storing one more entry changes no other.

And whoever wrote the table, an entry is the field of its cluster in the row of packed fields that
the bytes of the table are. -/
theorem nextCluster_decodes :
    (∀ (format : Format) (clusterSize entryCount : Nat) (fresh : Image),
      Image.make format clusterSize entryCount = .ok fresh →
      ∀ (edits : List Image.Edit) (v : Volume), v.Shows (fresh.edited edits) →
      ∀ cluster,
        (2 ≤ cluster ∧ cluster < entryCount →
          ∃ w, Volume.nextCluster cluster v
            = .ok (Image.lastStored (Image.storesOf format edits) cluster % format.entryRange) w)
        ∧ (¬ (2 ≤ cluster ∧ cluster < entryCount) →
          Volume.nextCluster cluster v = .error (.invalidCluster cluster) v)
        ∧ ∀ other value, 2 ≤ other → other < entryCount → other ≠ cluster →
          ∀ v' : Volume, v'.Shows ((fresh.edited edits).setEntry cluster value) →
          ∃ n w w', Volume.nextCluster other v = .ok n w ∧ Volume.nextCluster other v' = .ok n w')
    ∧ ∀ v : Volume, v.drive.Coherent → v.disk.Faultless →
      v.geometry.tableEnd ≤ v.disk.sectorCount → v.geometry.OffsetsFit →
      ∀ cluster, v.geometry.HasCluster cluster →
        ∃ w, Volume.nextCluster cluster v
          = .ok (v.geometry.packedEntry v.disk.byte cluster % v.geometry.format.entryRange) w := by
  refine ⟨?_, ?_⟩
  · intro format clusterSize entryCount fresh hmake edits v hv cluster
    obtain ⟨_, rfl, rfl, _⟩ := Image.make_eq_ok hmake
    have hfit := Image.offsetsFit_make hmake
    have hend := Image.tableEnd_make hmake
    have hrecords := (Image.records_make hmake).edited edits
    rw [List.nil_append] at hrecords
    refine ⟨fun hc => hrecords.exists_nextCluster_eq hend hfit hv hc, fun hc => ?_, ?_⟩
    · refine Volume.nextCluster_invalid ?_
      rwa [hv.geometry, hrecords.geometry]
    · intro other value hlow hhigh hne v' hv'
      obtain ⟨w, hw⟩ := hrecords.exists_nextCluster_eq hend hfit hv ⟨hlow, hhigh⟩
      obtain ⟨w', hw'⟩ :=
        (hrecords.setEntry cluster value).exists_nextCluster_eq hend hfit hv' ⟨hlow, hhigh⟩
      rw [Image.lastStored_concat, if_neg hne] at hw'
      exact ⟨_, w, w', hw, hw'⟩
  · intro v hv hd hend hfit cluster hc
    rw [← Geometry.tableEntry_eq_packedEntry hc]
    exact Volume.exists_nextCluster_eq hv hd hend hc (hfit.offsetFits hc)

/-- The volume on a formatted disk, with a sector already in the window. -/
def Fat.Image.volumeAt (image : Image) (s : Nat) : Volume :=
  ⟨{ disk := image.disk
     window := some (s, ⟨image.disk.sectors s 1, image.disk.size_sectors s 1⟩) },
    image.geometry, true⟩

theorem Fat.Image.shows_volumeAt {image : Image} (h : image.disk.Faultless) (s : Nat) :
    (image.volumeAt s).Shows image := by
  refine ⟨fun t data ht => ?_, rfl, rfl, rfl, h⟩
  cases ht
  exact Disk.sectors_one _ s

/-- Four hundred packed entries take two sectors; entry 341 has its first byte in the one and its
second in the other. -/
def packedImage : Image :=
  ⟨.patternedFrom 401 3, .fat12, 1, 3, 1, 400, by decide⟩

theorem make_packedImage : Image.make .fat12 1 400 = .ok packedImage := rfl

def packedEdits : List Image.Edit :=
  [.set 341 0xFABC, .set 340 0x123, .link [342, 5], .set 341 0x5ABC]

theorem records_packedEdits :
    packedImage.Records (Image.storesOf .fat12 packedEdits) (packedImage.edited packedEdits) :=
  (Image.records_make make_packedImage).edited packedEdits

theorem shows_of_records {image : Image} {stores : List (Nat × Nat)}
    (h : packedImage.Records stores image) (s : Nat) : (image.volumeAt s).Shows image := by
  refine Image.shows_volumeAt ?_ s
  have hfaults := h.faults
  exact ⟨fun direction n => by rw [hfaults]; rfl, fun direction s => by rw [hfaults]; rfl⟩

/-- The entry across two sectors is the value stored in it last, with the second of them in the
window; its neighbours have theirs, and it is the field of its cluster. -/
theorem nextCluster_across_sectors :
    let v := (packedImage.edited packedEdits).volumeAt 2
    let v' := ((packedImage.edited packedEdits).setEntry 340 7).volumeAt 2
    v.Shows (packedImage.edited packedEdits)
      ∧ (∃ w, Volume.nextCluster 341 v = .ok 0xABC w)
      ∧ (∃ w, Volume.nextCluster 340 v = .ok 0x123 w)
      ∧ (∃ w, Volume.nextCluster 342 v = .ok 5 w)
      ∧ Volume.nextCluster 400 v = .error (.invalidCluster 400) v
      ∧ (∃ n w w', Volume.nextCluster 341 v = .ok n w ∧ Volume.nextCluster 341 v' = .ok n w')
      ∧ ∃ w, Volume.nextCluster 341 v
          = .ok (v.geometry.packedEntry v.disk.byte 341 % v.geometry.format.entryRange) w := by
  intro v v'
  have hv := shows_of_records records_packedEdits 2
  have hv' := shows_of_records
    (records_packedEdits.setEntry 340 7) 2
  have hdecodes := nextCluster_decodes.1 _ _ _ _ make_packedImage packedEdits _ hv
  have hgeometry : v.geometry = packedImage.geometry :=
    hv.geometry.trans records_packedEdits.geometry
  have hcount : v.disk.sectorCount = packedImage.disk.sectorCount :=
    hv.sectorCount.trans records_packedEdits.sectorCount
  refine ⟨hv, (hdecodes 341).1 (by decide), (hdecodes 340).1 (by decide),
    (hdecodes 342).1 (by decide), (hdecodes 400).2.1 (by decide),
    (hdecodes 340).2.2 341 7 (by decide) (by decide) (by decide) v' hv', ?_⟩
  refine nextCluster_decodes.2 v hv.coherent hv.faultless ?_ ?_ 341 ?_
  · rw [hgeometry, hcount]
    decide
  · rw [hgeometry]
    exact Image.offsetsFit_make make_packedImage
  · rw [hgeometry]
    decide

end CartBoot
