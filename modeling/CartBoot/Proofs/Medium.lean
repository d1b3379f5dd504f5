import CartBoot.Disk
import CartBoot.Proofs.Ends

/-!
# What a disk holds

The contents of a disk are one byte per absolute address, `Disk.byte`. Sectors
are windows onto these bytes, replacing sectors changes the bytes at their
addresses and no others, and reading changes none.
-/

namespace CartBoot

open Fat

/-- Bytes that are zero but for those listed. -/
def sparseBytes (bytes : List (Nat × UInt8)) (address : Nat) : UInt8 :=
  (bytes.lookup address).getD 0

namespace Disk

/-! ## Sectors and bytes -/

theorem byteAt_sector (d : Disk) (s i : Nat) (hi : i < sectorSize) :
    (d.sector s).byteAt i = d.byte (sectorSize * s + i) := by
  have hs : (sectorSize * s + i) / sectorSize = s := by
    unfold sectorSize at hi ⊢
    omega
  have hm : (sectorSize * s + i) % sectorSize = i := by
    unfold sectorSize at hi ⊢
    omega
  unfold sector byte
  rw [hs, hm]
  split <;> rw [ByteArray.byteAt_tabulate, if_pos hi]

theorem byteAt_sectors (d : Disk) (first count i : Nat) (hi : i < sectorSize * count) :
    (d.sectors first count).byteAt i = d.byte (sectorSize * first + i) := by
  induction count with
  | zero => omega
  | succ count ih =>
      show (d.sectors first count ++ d.sector (first + count)).byteAt i = _
      rw [ByteArray.byteAt_append, size_sectors]
      split
      · rename_i h
        exact ih h
      · rw [byteAt_sector _ _ _ (by unfold sectorSize at *; omega)]
        congr 1
        unfold sectorSize at *
        omega

/-- A sector is its bytes. -/
theorem sector_congr {d e : Disk} {s t : Nat}
    (h : ∀ i, i < sectorSize → e.byte (sectorSize * t + i) = d.byte (sectorSize * s + i)) :
    e.sector t = d.sector s := by
  refine ByteArray.ext_byteAt (by rw [size_sector, size_sector]) ?_
  intro i hi
  rw [size_sector] at hi
  rw [byteAt_sector _ _ _ hi, byteAt_sector _ _ _ hi, h i hi]

/-- Replacing one sector, byte by byte. -/
theorem byte_setSector (d : Disk) (s : Nat) (data : ByteArray) (a : Nat) :
    (d.setSector s data).byte a =
      if a / sectorSize = s then data.byteAt (a % sectorSize) else d.byte a := by
  unfold byte setSector
  simp only [Std.TreeMap.getElem?_insert, Nat.compare_eq_eq]
  by_cases h : a / sectorSize = s
  · rw [if_pos h, if_pos h.symm]
  · rw [if_neg h, if_neg (Ne.symm h)]

/-- **Replacing sectors, byte by byte.** Inside the stretch the new bytes, elsewhere the old. -/
theorem byte_setSectors (d : Disk) (first : Nat) (data : ByteArray) (count a : Nat) :
    (d.setSectors first data count).byte a =
      if sectorSize * first ≤ a ∧ a < sectorSize * (first + count) then
        data.byteAt (a - sectorSize * first)
      else d.byte a := by
  induction count with
  | zero => rw [if_neg (by rw [Nat.add_zero]; omega)]; rfl
  | succ count ih =>
      show ((d.setSectors first data count).setSector (first + count) _).byte a = _
      rw [byte_setSector, ih]
      by_cases h : a / sectorSize = first + count
      · -- the sector added last
        have ha : a = sectorSize * (first + count) + a % sectorSize := by
          unfold sectorSize at *
          omega
        have hm : a % sectorSize < sectorSize := Nat.mod_lt _ sectorSize_pos
        rw [if_pos h, if_pos (by unfold sectorSize at *; omega), ByteArray.byteAt_extract]
        have hi : sectorSize * count + a % sectorSize = a - sectorSize * first := by
          unfold sectorSize at *
          omega
        rw [hi]
        split
        · rfl
        · exact (ByteArray.byteAt_of_le (by unfold sectorSize at *; omega)).symm
      · rw [if_neg h]
        by_cases h' : sectorSize * first ≤ a ∧ a < sectorSize * (first + count)
        · rw [if_pos h', if_pos (by unfold sectorSize at *; omega)]
        · rw [if_neg h', if_neg (by unfold sectorSize at *; omega)]

@[simp] theorem sectorCount_setSectors (d : Disk) (first : Nat) (data : ByteArray) (count : Nat) :
    (d.setSectors first data count).sectorCount = d.sectorCount := by
  induction count with
  | zero => rfl
  | succ count ih => exact ih

@[simp] theorem faults_setSectors (d : Disk) (first : Nat) (data : ByteArray) (count : Nat) :
    (d.setSectors first data count).faults = d.faults := by
  induction count with
  | zero => rfl
  | succ count ih => exact ih

/-! ## Accesses -/

/-- The device never fails of its own accord; only an access past its end is refused. -/
structure Faultless (d : Disk) : Prop where
  call (direction : Direction) (n : Nat) : d.faults.failsCall direction n = false
  sector (direction : Direction) (s : Nat) : d.faults.failsSector direction s = false

/-- On a device without faults an access that stays on it goes through. -/
theorem Faultless.attempt_fst {d : Disk} (h : d.Faultless) (direction : Direction)
    {first count : Nat} (hend : first + count ≤ d.sectorCount) :
    (d.attempt direction first count).1 = true := by
  simp [attempt, readable, h.call, h.sector, hend]

/-- No read fails for its number: what can be read once can be read always. -/
def Steady (d : Disk) : Prop :=
  ∀ n, d.faults.failsCall .read n = false

/-- A sector that is on the device and that reads do not fail on. -/
def Readable (d : Disk) (s : Nat) : Prop :=
  s < d.sectorCount ∧ d.faults.failsSector .read s = false

theorem Faultless.steady {d : Disk} (h : d.Faultless) : d.Steady := h.call .read

/-- On a device without faults only what is past the end cannot be read. -/
theorem Faultless.le_of_not_readable {d : Disk} (h : d.Faultless) {s : Nat}
    (hs : ¬ d.Readable s) : d.sectorCount ≤ s :=
  Nat.not_lt.mp fun hlt => hs ⟨hlt, h.sector .read s⟩

/-- A read goes through only if all its sectors can be read. -/
theorem readable_of_attempt {d : Disk} {first count : Nat}
    (h : (d.attempt .read first count).1 = true) {s : Nat} (hlow : first ≤ s)
    (hhigh : s < first + count) : d.Readable s := by
  simp only [attempt, readable, Bool.and_eq_true, decide_eq_true_eq, List.all_eq_true,
    List.mem_range, Bool.not_eq_true'] at h
  rcases h with ⟨_, hend, hsectors⟩
  have hsector := hsectors (s - first) (by omega)
  rw [Nat.add_sub_cancel' hlow] at hsector
  exact ⟨by omega, hsector⟩

/-- On a steady device a read is refused only for one of its sectors. -/
theorem Steady.exists_not_readable {d : Disk} (h : d.Steady) {first count : Nat}
    (hcount : 0 < count) (hrefused : (d.attempt .read first count).1 = false) :
    ∃ s, first ≤ s ∧ s < first + count ∧ ¬ d.Readable s := by
  refine Classical.byContradiction fun hnone => ?_
  have hall : ∀ s, first ≤ s → s < first + count → d.Readable s := fun s hlow hhigh =>
    Classical.byContradiction fun hs => hnone ⟨s, hlow, hhigh, hs⟩
  have hlast := (hall (first + count - 1) (by omega) (by omega)).1
  have hthrough : (d.attempt .read first count).1 = true := by
    simp only [attempt, readable, h _, Bool.and_eq_true, decide_eq_true_eq, List.all_eq_true,
      List.mem_range, Bool.not_eq_true']
    exact ⟨trivial, by omega, fun i hi => (hall (first + i) (by omega) (by omega)).2⟩
  rw [hthrough] at hrefused
  cases hrefused

/-- Two states of one device between which nothing was written. -/
structure SameMedium (d e : Disk) : Prop where
  byte : e.byte = d.byte
  sectorCount : e.sectorCount = d.sectorCount
  faults : e.faults = d.faults

theorem SameMedium.refl (d : Disk) : SameMedium d d := ⟨rfl, rfl, rfl⟩

theorem SameMedium.trans {d e f : Disk} (h : SameMedium d e) (h' : SameMedium e f) :
    SameMedium d f :=
  ⟨h'.byte.trans h.byte, h'.sectorCount.trans h.sectorCount, h'.faults.trans h.faults⟩

theorem SameMedium.faultless {d e : Disk} (h : SameMedium d e) (hd : d.Faultless) :
    e.Faultless :=
  ⟨fun direction n => by rw [h.faults]; exact hd.call direction n,
   fun direction s => by rw [h.faults]; exact hd.sector direction s⟩

theorem SameMedium.steady {d e : Disk} (h : SameMedium d e) (hd : d.Steady) : e.Steady :=
  fun n => by rw [h.faults]; exact hd n

theorem SameMedium.readable_iff {d e : Disk} (h : SameMedium d e) (s : Nat) :
    e.Readable s ↔ d.Readable s := by
  unfold Readable
  rw [h.sectorCount, h.faults]

theorem SameMedium.sector {d e : Disk} (h : SameMedium d e) (s : Nat) : e.sector s = d.sector s :=
  sector_congr fun i _ => by rw [h.byte]

theorem SameMedium.sectors {d e : Disk} (h : SameMedium d e) (first count : Nat) :
    e.sectors first count = d.sectors first count := by
  induction count with
  | zero => rfl
  | succ count ih =>
      show e.sectors first count ++ e.sector (first + count) = _
      rw [ih, h.sector]
      rfl

theorem sectors_one (d : Disk) (s : Nat) : d.sectors s 1 = d.sector s := by
  show ByteArray.empty ++ d.sector (s + 0) = d.sector s
  rw [ByteArray.empty_append, Nat.add_zero]

/-- `e` is `d` with `data` at an address. -/
structure Stored (d : Disk) (address : Nat) (data : ByteArray) (e : Disk) : Prop where
  byte (a : Nat) : e.byte a =
    if address ≤ a ∧ a < address + data.size then data.byteAt (a - address) else d.byte a
  sectorCount : e.sectorCount = d.sectorCount
  faults : e.faults = d.faults

section Stored

variable {d e : Disk} {s offset : Nat} {block data : ByteArray}

theorem Stored.readable_iff {address : Nat} (h : d.Stored address data e) (s : Nat) :
    e.Readable s ↔ d.Readable s := by
  unfold Readable
  rw [h.sectorCount, h.faults]

/-- A sector just stored is read back. -/
theorem Stored.sector_eq (h : d.Stored (sectorSize * s) block e) (hsize : block.size = sectorSize) :
    e.sector s = block := by
  refine ByteArray.ext_byteAt (by rw [size_sector, hsize]) ?_
  intro i hi
  rw [size_sector] at hi
  rw [byteAt_sector _ _ _ hi, h.byte, if_pos (by omega), Nat.add_sub_cancel_left]

/-- Storing a sector with some bytes overwritten stores these bytes. -/
theorem Stored.of_patch (h : d.Stored (sectorSize * s) ((d.sector s).patch offset data) e)
    (hfit : offset + data.size ≤ sectorSize) : d.Stored (sectorSize * s + offset) data e := by
  refine ⟨fun a => ?_, h.sectorCount, h.faults⟩
  rw [h.byte, ByteArray.size_patch, size_sector]
  by_cases ha : sectorSize * s ≤ a ∧ a < sectorSize * s + sectorSize
  · -- in the sector: the new bytes where they are, the old ones elsewhere
    rw [if_pos ha, ByteArray.byteAt_patch _ _ _ _ (by rw [size_sector]; omega),
      byteAt_sector _ _ _ (by omega), Nat.add_sub_cancel' ha.1]
    by_cases hi : sectorSize * s + offset ≤ a ∧ a < sectorSize * s + offset + data.size
    · rw [if_pos (by omega), if_pos hi, Nat.sub_sub]
    · rw [if_neg (by omega), if_neg hi]
  · rw [if_neg ha, if_neg (by omega)]

theorem SameMedium.stored {d' : Disk} {address : Nat} (hm : d.SameMedium d')
    (h : d'.Stored address data e) : d.Stored address data e := by
  refine ⟨fun a => ?_, h.sectorCount.trans hm.sectorCount, h.faults.trans hm.faults⟩
  rw [h.byte, hm.byte]

end Stored

/-- Logging a call leaves the medium as it is. -/
theorem sameMedium_attempt (d : Disk) (direction : Direction) (first count : Nat) :
    SameMedium d (d.attempt direction first count).2 := ⟨rfl, rfl, rfl⟩

/-- A device without faults refuses only what runs past its end. -/
theorem Faultless.lt_of_refused {d e : Disk} (h : d.Faultless) {direction : Direction}
    {first count : Nat} (hrefused : d.attempt direction first count = (false, e)) :
    d.sectorCount < first + count := by
  refine Nat.lt_of_not_le fun hend => ?_
  have hthrough := h.attempt_fst direction hend
  rw [hrefused] at hthrough
  exact Bool.noConfusion hthrough

/-- Reading gives what the medium holds, and all of it can be read; it fails with the code of the
device, and on a steady device because of a sector that cannot be read. -/
theorem ends_read (d : Disk) (first count : Nat) :
    Ends (read first count d)
      (fun data e => data.val = d.sectors first count ∧ SameMedium d e
        ∧ ∀ s, first ≤ s → s < first + count → d.Readable s)
      (fun err e => err = .device d.faults.code ∧ SameMedium d e
        ∧ (d.Steady → 0 < count → ∃ s, first ≤ s ∧ s < first + count ∧ ¬ d.Readable s)) := by
  have hm := sameMedium_attempt d .read first count
  have hthrough : (d.attempt .read first count).1 = true →
      ∀ s, first ≤ s → s < first + count → d.Readable s :=
    fun h _ => readable_of_attempt h
  have hrefused : d.Steady → 0 < count → (d.attempt .read first count).1 = false →
      ∃ s, first ≤ s ∧ s < first + count ∧ ¬ d.Readable s :=
    fun hd => hd.exists_not_readable
  unfold read
  cases ha : d.attempt .read first count with
  | mk through e =>
      rw [ha] at hm hthrough hrefused
      cases through with
      | true => exact ⟨hm.sectors first count, hm, hthrough rfl⟩
      | false => exact ⟨by rw [← hm.faults], hm, fun hd hcount => hrefused hd hcount rfl⟩

/-- A sector within a device without faults is read. -/
theorem Faultless.ends_read_sector {d : Disk} (h : d.Faultless) {s : Nat} (hs : s < d.sectorCount) :
    Ends (read s 1 d) (fun data e => data.val = d.sector s ∧ SameMedium d e)
      (fun _ _ => False) := by
  refine (d.ends_read s 1).mono ?_ ?_
  · intro data e hread
    exact ⟨hread.1.trans (d.sectors_one s), hread.2.1⟩
  · intro _ _ hread
    obtain ⟨t, hlow, hhigh, hnot⟩ := hread.2.2 h.steady Nat.one_pos
    have := h.le_of_not_readable hnot
    omega

/-- Writing stores whole sectors, or fails and leaves the medium as it is. -/
theorem ends_write (d : Disk) (first count : Nat) (data : ByteArray)
    (hsize : data.size = sectorSize * count) :
    Ends (write first count data d)
      (fun _ e => d.Stored (sectorSize * first) data e)
      (fun err e => err = .device d.faults.code ∧ SameMedium d e
        ∧ (d.Faultless → d.sectorCount < first + count)) := by
  have hm := sameMedium_attempt d .write first count
  unfold write
  cases ha : d.attempt .write first count with
  | mk through e =>
      replace hm : SameMedium d e := by rwa [ha] at hm
      cases through with
      | true =>
          refine ⟨fun a => ?_, by simp [hm.sectorCount], by simp [hm.faults]⟩
          rw [byte_setSectors, hm.byte, hsize, Nat.mul_add]
      | false =>
          exact ⟨by rw [← hm.faults], hm, fun hd => hd.lt_of_refused ha⟩

end Disk

end CartBoot
