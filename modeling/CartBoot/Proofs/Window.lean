import CartBoot.Disk.Window
import CartBoot.Proofs.Medium

/-!
# The window tells the truth

The sector window is a cache: what it holds must be what the medium holds. A read
of a sector empties it first, a write of part of a sector empties it until the
medium has the new bytes, and a bulk write empties it if it passes over the
sector held. So the window never differs from the medium, whichever calls of the
device fail.

For a user of the drive this means that `ensure` gives the medium's bytes and
that the other operations change nothing but the bytes they are to change.
-/

namespace CartBoot

open Fat

namespace Drive

/-- What the window holds is what the medium holds. -/
def Coherent (v : Drive) : Prop :=
  ∀ s data, v.window = some (s, data) → data.val = v.disk.sector s

/-- What the window holds could be read again. -/
def Renewable (v : Drive) : Prop :=
  ∀ s data, v.window = some (s, data) → v.disk.Readable s

/-- `w` is `v` after nothing but reads. -/
structure Reads (v w : Drive) : Prop where
  medium : v.disk.SameMedium w.disk
  coherent : w.Coherent
  renewable : v.Renewable → w.Renewable

/-- `w` is `v` with `data` stored at an address. -/
structure Stores (v : Drive) (address : Nat) (data : ByteArray) (w : Drive) : Prop where
  medium : v.disk.Stored address data w.disk
  coherent : w.Coherent
  renewable : v.Renewable → w.Renewable

theorem coherent_of_empty {v : Drive} (h : v.window = none) : v.Coherent := by
  intro s data hs
  rw [h] at hs
  cases hs

theorem renewable_of_empty {v : Drive} (h : v.window = none) : v.Renewable := by
  intro s data hs
  rw [h] at hs
  cases hs

theorem Reads.refl {v : Drive} (h : v.Coherent) : v.Reads v := ⟨.refl _, h, id⟩

theorem Reads.trans {u v w : Drive} (h : u.Reads v) (h' : v.Reads w) : u.Reads w :=
  ⟨h.medium.trans h'.medium, h'.coherent, fun hu => h'.renewable (h.renewable hu)⟩

theorem ends_onDisk {α : Type} {access : EStateM Error Disk α} {v : Drive}
    {done : α → Drive → Prop} {failed : Error → Drive → Prop} :
    Ends (onDisk access v) done failed ↔
      Ends (access v.disk) (fun a d => done a ⟨d, v.window⟩)
        (fun e d => failed e ⟨d, v.window⟩) := by
  obtain ⟨disk, window⟩ := v
  unfold onDisk
  dsimp only
  cases access disk <;> exact Iff.rfl

/-- Bulk reads bypass the window. -/
theorem ends_readDisk {v : Drive} (hv : v.Coherent) (first count : Nat) :
    Ends (onDisk (Disk.read first count) v)
      (fun data w => data.val = v.disk.sectors first count ∧ v.Reads w
        ∧ ∀ s, first ≤ s → s < first + count → v.disk.Readable s)
      (fun e w => e = .device v.disk.faults.code ∧ v.Reads w
        ∧ (v.disk.Steady → 0 < count →
          ∃ s, first ≤ s ∧ s < first + count ∧ ¬ v.disk.Readable s)) := by
  have hreads : ∀ d, v.disk.SameMedium d → v.Reads ⟨d, v.window⟩ := fun d hd =>
    ⟨hd, fun s data hs => by rw [hv s data hs]; exact (hd.sector s).symm,
      fun hw s data hs => (hd.readable_iff s).mpr (hw s data hs)⟩
  rw [ends_onDisk]
  refine (Disk.ends_read v.disk first count).mono ?_ ?_
  · intro data d hpost
    obtain ⟨hdata, hd, hreadable⟩ := hpost
    exact ⟨hdata, hreads d hd, hreadable⟩
  · intro e d hpost
    obtain ⟨he, hd, hwhy⟩ := hpost
    exact ⟨he, hreads d hd, hwhy⟩

theorem ends_fetch {v : Drive} (s : Nat) :
    Ends (fetch s v)
      (fun data w => data.val = v.disk.sector s ∧ v.Reads w
        ∧ (v.Renewable → v.disk.Readable s))
      (fun e w => e = .device v.disk.faults.code ∧ v.Reads w
        ∧ (v.disk.Steady → ¬ v.disk.Readable s)) := by
  unfold fetch
  simp only [ends_bind, ends_modify, ends_pure]
  refine (ends_readDisk (coherent_of_empty (v := v.invalidate) rfl) s 1).mono ?_ ?_
  · intro data w hpost
    obtain ⟨hdata, hw, hreadable⟩ := hpost
    replace hdata : data.val = v.disk.sector s := hdata.trans (v.disk.sectors_one s)
    have hs : v.disk.Readable s := hreadable s (Nat.le_refl _) (Nat.lt_succ_self _)
    have hm : v.disk.SameMedium w.disk := hw.medium
    refine ⟨hdata, ⟨hm, ?_, ?_⟩, fun _ => hs⟩
    · intro t data' ht
      cases ht
      rw [hdata]
      exact (hm.sector s).symm
    · intro _ t data' ht
      cases ht
      exact (hm.readable_iff s).mpr hs
  · intro e w hpost
    obtain ⟨he, hw, hwhy⟩ := hpost
    refine ⟨he, ⟨hw.medium, hw.coherent, fun _ => hw.renewable (renewable_of_empty rfl)⟩,
      fun hd hs => ?_⟩
    obtain ⟨t, hlow, hhigh, ht⟩ := hwhy hd Nat.one_pos
    obtain rfl : t = s := Nat.le_antisymm (Nat.le_of_lt_succ hhigh) hlow
    exact ht hs

/-- Asking for a sector ends as fetching it does, unless the window holds it. -/
theorem ends_ensure_of_fetch {v : Drive} {s : Nat} {done : Sectors 1 → Drive → Prop}
    {failed : Error → Drive → Prop} (hheld : ∀ data, v.window = some (s, data) → done data v)
    (hfetch : Ends (fetch s v) done failed) : Ends (ensure s v) done failed := by
  unfold ensure
  rw [ends_bind, ends_get]
  cases hw : v.window with
  | none => exact hfetch
  | some held =>
      obtain ⟨t, data⟩ := held
      dsimp only
      split
      · rename_i hts
        exact hheld data (hts ▸ hw)
      · exact hfetch

/-- **The window gives what the medium holds.** On a steady device it depends on the sector alone
whether it can. -/
theorem ends_ensure {v : Drive} (hv : v.Coherent) (s : Nat) :
    Ends (ensure s v)
      (fun data w => data.val = v.disk.sector s ∧ v.Reads w
        ∧ (v.Renewable → v.disk.Readable s))
      (fun e w => e = .device v.disk.faults.code ∧ v.Reads w
        ∧ (v.disk.Steady → ¬ v.disk.Readable s)) := by
  refine ends_ensure_of_fetch (fun data hw => ?_) (ends_fetch s)
  exact ⟨hv s data hw, .refl hv, fun h => h s data hw⟩

/-- Overwriting part of a sector stores just these bytes. -/
theorem ends_writeThrough {v : Drive} (hv : v.Coherent) {s offset : Nat} {data : ByteArray}
    (hfit : offset + data.size ≤ sectorSize) :
    Ends (writeThrough s offset data v)
      (fun _ w => v.Stores (sectorSize * s + offset) data w)
      (fun e w => e = .device v.disk.faults.code ∧ v.Reads w
        ∧ (v.disk.Faultless → v.disk.sectorCount ≤ s)) := by
  unfold writeThrough
  simp only [ends_bind, ends_modify]
  refine (ends_ensure hv s).mono ?_ ?_
  · intro held w hpost
    obtain ⟨hheld, hw, hs⟩ := hpost
    have hsize : (held.val.patch offset data).size = sectorSize * 1 := by
      rw [ByteArray.size_patch, held.property]
    rw [ends_onDisk]
    refine (Disk.ends_write w.disk s 1 _ hsize).mono ?_ ?_
    · intro _ d hd
      have hstored := hw.medium.stored hd
      refine ⟨?_, ?_, ?_⟩
      · rw [hheld] at hstored
        exact hstored.of_patch hfit
      · -- the window holds the new sector, and so does the medium by now
        intro t held' ht
        cases ht
        exact (hd.sector_eq hsize).symm
      · intro hv t held' ht
        cases ht
        exact (hstored.readable_iff s).mpr (hs hv)
    · intro e d hpost
      obtain ⟨he, hd, hend⟩ := hpost
      refine ⟨by rw [he, hw.medium.faults], ⟨hw.medium.trans hd, coherent_of_empty rfl,
        fun _ => renewable_of_empty rfl⟩, ?_⟩
      intro hf
      have := hend (hw.medium.faultless hf)
      rw [hw.medium.sectorCount] at this
      omega
  · intro e w hpost
    obtain ⟨he, hw, hwhy⟩ := hpost
    exact ⟨he, hw, fun hf => hf.le_of_not_readable (hwhy hf.steady)⟩

@[simp] theorem disk_invalidateRange (v : Drive) (first count : Nat) :
    (v.invalidateRange first count).disk = v.disk := by
  unfold invalidateRange
  cases v.cached with
  | none => rfl
  | some s =>
      dsimp only
      split <;> rfl

/-- A bulk write goes past the window and stores just its sectors. -/
theorem ends_writeDisk {v : Drive} (hv : v.Coherent) {first count : Nat} {data : ByteArray}
    (hsize : data.size = sectorSize * count) :
    Ends (onDisk (Disk.write first count data) (v.invalidateRange first count))
      (fun _ w => v.Stores (sectorSize * first) data w)
      (fun e w => e = .device v.disk.faults.code ∧ v.Reads w
        ∧ (v.disk.Faultless → v.disk.sectorCount < first + count)) := by
  -- what is still held is no sector of the write
  have hheld : ∀ s held, (v.invalidateRange first count).window = some (s, held) →
      v.window = some (s, held) ∧ ¬ (first ≤ s ∧ s - first < count) := by
    intro s held hs
    unfold invalidateRange cached at hs
    cases hw : v.window with
    | none => simp [hw] at hs
    | some p =>
        simp only [hw, Option.map_some] at hs
        split at hs
        · cases hs
        · rename_i hne
          rw [hw] at hs
          cases hs
          exact ⟨rfl, hne⟩
  rw [ends_onDisk, disk_invalidateRange]
  refine (Disk.ends_write v.disk first count data hsize).mono ?_ ?_
  · intro _ d hd
    refine ⟨hd, ?_, fun hw s held hs => (hd.readable_iff s).mpr (hw s held (hheld s held hs).1)⟩
    intro s held hs
    obtain ⟨hs, hout⟩ := hheld s held hs
    rw [hv s held hs]
    refine Disk.sector_congr fun i hi => ?_
    rw [hd.byte, hsize, if_neg]
    unfold sectorSize at *
    omega
  · intro e d hpost
    obtain ⟨he, hd, hend⟩ := hpost
    refine ⟨he, ⟨hd, ?_, fun hw s held hs =>
      (hd.readable_iff s).mpr (hw s held (hheld s held hs).1)⟩, hend⟩
    intro s held hs
    rw [hv s held (hheld s held hs).1]
    exact (hd.sector s).symm

end Drive

end CartBoot
