import CartBoot.Fat.Image
import CartBoot.Proofs.Window

/-!
# What the allocation table says

The entry of a cluster is a number spelled by bytes of the medium: the window, the
sector boundaries and the order of the look-ups play no part in it. Looking an
entry up through the window gives that number, or the error of the device, or it
stops because the offset of a packed entry is no word.

The table takes up the sectors from `tableBase` to `tableEnd`. While it lies below
the data area, no change of data changes an entry.
-/

namespace CartBoot

open Fat

/-- The little-endian number in `width` consecutive bytes. -/
def numberFrom (byte : Nat → UInt8) (a : Nat) : (width : Nat) → Nat
  | 0 => 0
  | width + 1 => (byte a).toNat + 256 * numberFrom byte (a + 1) width

theorem numberFrom_congr {f g : Nat → UInt8} (width : Nat) {a b : Nat}
    (h : ∀ k, k < width → f (a + k) = g (b + k)) : numberFrom f a width = numberFrom g b width := by
  induction width generalizing a b with
  | zero => rfl
  | succ width ih =>
      have h0 : f a = g b := h 0 (by omega)
      have hrest : numberFrom f (a + 1) width = numberFrom g (b + 1) width := by
        refine ih fun k hk => ?_
        have := h (k + 1) (by omega)
        rwa [show a + 1 + k = a + (k + 1) by omega, show b + 1 + k = b + (k + 1) by omega]
      rw [numberFrom, numberFrom, h0, hrest]

theorem numberAt_eq (b : ByteArray) (i width : Nat) :
    b.numberAt i width = numberFrom b.byteAt i width := by
  induction width generalizing i with
  | zero => rfl
  | succ width ih => rw [ByteArray.numberAt, numberFrom, ih]

/-- Equal bytes spell equal numbers. -/
theorem numberAt_congr {b b' : ByteArray} (width : Nat) {i j : Nat}
    (h : ∀ k, k < width → b.byteAt (i + k) = b'.byteAt (j + k)) :
    b.numberAt i width = b'.numberAt j width := by
  rw [numberAt_eq, numberAt_eq]
  exact numberFrom_congr width h

namespace Fat

namespace Geometry

/-- The table entry of a cluster, as the bytes of the medium spell it. -/
def tableEntry (g : Geometry) (byte : Nat → UInt8) (cluster : Nat) : Nat :=
  let base := sectorSize * g.tableBase
  match g.format with
  | .fat12 =>
      let offset := Volume.packedOffset cluster
      let low := byte (base + offset)
      let high := byte (base + (offset + 1))
      let pair := low.toNat + 256 * high.toNat
      if cluster % 2 = 1 then pair / 16 else pair % 0x1000
  | .fat16 => numberFrom byte (base + 2 * cluster) 2
  | .fat32 => numberFrom byte (base + 4 * cluster) 4 % 0x10000000

/-- The sectors that hold the entry of a cluster. -/
def entrySectors (g : Geometry) (cluster : Nat) : List Nat :=
  match g.format with
  | .fat12 =>
      let offset := Volume.packedOffset cluster
      [g.tableBase + offset / sectorSize, g.tableBase + (offset + 1) / sectorSize]
  | .fat16 => [g.tableBase + cluster / 256]
  | .fat32 => [g.tableBase + cluster / 128]

/-- The entry of a cluster can be read. -/
def Legible (g : Geometry) (d : Disk) (cluster : Nat) : Prop :=
  ∀ s ∈ g.entrySectors cluster, d.Readable s

/-- The offsets of the bytes of an entry are words. Only packed entries are reached by offsets. -/
def OffsetFits (g : Geometry) (cluster : Nat) : Prop :=
  g.format = .fat12 → Volume.packedOffset cluster + 1 < wordLimit

/-- The first cluster whose packed entry is out of reach: its last byte is at an offset of 2^32. -/
def packedLimit : Nat := 0xAAAAAAAA

/-- All entries are within reach. -/
def OffsetsFit (g : Geometry) : Prop :=
  g.format = .fat12 → g.entryCount ≤ packedLimit

/-- Why the entry of a cluster is not read. -/
inductive Unread (g : Geometry) (d : Disk) (cluster : Nat) : Error → Prop where
  /-- The device refuses one of its sectors. -/
  | refused (h : d.Steady → ¬ g.Legible d cluster) : g.Unread d cluster (.device d.faults.code)
  /-- The offset of one of its bytes is no word. -/
  | overflow (h : ¬ g.OffsetFits cluster) : g.Unread d cluster .overflow

/-- The sector after the table. -/
def tableEnd (g : Geometry) : Nat :=
  g.tableBase + Image.tableSectorsFor g.format g.entryCount

/-- The table lies outside the data area. -/
def TableApart (g : Geometry) : Prop :=
  g.tableEnd ≤ g.dataBase

theorem offsetFits_iff {g : Geometry} {cluster : Nat} :
    g.OffsetFits cluster ↔ (g.format = .fat12 → cluster < packedLimit) := by
  unfold OffsetFits Volume.packedOffset wordLimit packedLimit
  refine forall_congr' fun _ => ?_
  omega

theorem OffsetsFit.offsetFits {g : Geometry} (h : g.OffsetsFit) {cluster : Nat}
    (hc : g.HasCluster cluster) : g.OffsetFits cluster :=
  offsetFits_iff.mpr fun hf => Nat.lt_of_lt_of_le hc.2 (h hf)

theorem entrySectors_lt {g : Geometry} {cluster s : Nat} (hc : g.HasCluster cluster)
    (hs : s ∈ g.entrySectors cluster) : s < g.tableEnd := by
  obtain ⟨_, hc⟩ := hc
  unfold entrySectors at hs
  unfold tableEnd Image.tableSectorsFor Format.tableBytes Format.tableUnits
  unfold Volume.packedOffset at hs
  cases hf : g.format <;> simp only [hf] at hs ⊢ <;>
    simp only [List.mem_cons, List.not_mem_nil, or_false] at hs <;>
    unfold sectorSize at * <;> omega

/-- The entry of a cluster depends on the bytes of the table only. -/
theorem tableEntry_congr {g : Geometry} {f f' : Nat → UInt8} {cluster : Nat}
    (hc : g.HasCluster cluster) (h : ∀ a, a < sectorSize * g.tableEnd → f a = f' a) :
    g.tableEntry f cluster = g.tableEntry f' cluster := by
  have hs := fun s => entrySectors_lt (s := s) hc
  unfold entrySectors at hs
  unfold tableEntry
  cases hf : g.format with
  | fat12 =>
      simp only [hf, List.mem_cons, List.not_mem_nil, or_false] at hs ⊢
      -- a packed entry may lie across two sectors of the table
      have h1 := hs _ (.inl rfl)
      have h2 := hs _ (.inr rfl)
      unfold sectorSize at *
      rw [h _ (by omega), h _ (by omega)]
  | fat16 =>
      simp only [hf, List.mem_cons, List.not_mem_nil, or_false] at hs ⊢
      have h1 := hs _ rfl
      unfold sectorSize at *
      exact numberFrom_congr 2 fun k hk => h _ (by omega)
  | fat32 =>
      simp only [hf, List.mem_cons, List.not_mem_nil, or_false] at hs ⊢
      have h1 := hs _ rfl
      unfold sectorSize at *
      rw [numberFrom_congr 4 fun k hk => h _ (by omega)]

end Geometry

namespace Volume

/-- `w` is `v` after nothing but reads. -/
structure Reads (v w : Volume) : Prop where
  drive : v.drive.Reads w.drive
  geometry : w.geometry = v.geometry
  foldRuns : w.foldRuns = v.foldRuns

theorem Reads.refl {v : Volume} (h : v.drive.Coherent) : v.Reads v := ⟨.refl h, rfl, rfl⟩

theorem Reads.trans {u v w : Volume} (h : u.Reads v) (h' : v.Reads w) : u.Reads w :=
  ⟨h.drive.trans h'.drive, h'.geometry.trans h.geometry, h'.foldRuns.trans h.foldRuns⟩

theorem ends_onDrive {α : Type} {access : EStateM Error Drive α} {v : Volume}
    {done : α → Volume → Prop} {failed : Error → Volume → Prop} :
    Ends (onDrive access v) done failed ↔
      Ends (access v.drive) (fun a d => done a { v with drive := d })
        (fun e d => failed e { v with drive := d }) := by
  obtain ⟨drive, geometry, foldRuns⟩ := v
  unfold onDrive
  dsimp only
  cases access drive <;> exact Iff.rfl

/-- The window, asked for a sector of the volume. -/
theorem ends_ensure {v : Volume} (hv : v.drive.Coherent) (s : Nat) :
    Ends (onDrive (Drive.ensure s) v)
      (fun data w => data.val = v.disk.sector s ∧ v.Reads w
        ∧ (v.drive.Renewable → v.disk.Readable s))
      (fun e w => e = .device v.disk.faults.code ∧ v.Reads w
        ∧ (v.disk.Steady → ¬ v.disk.Readable s)) := by
  rw [ends_onDrive]
  refine (Drive.ends_ensure hv s).mono ?_ ?_
  · intro data d hpost
    obtain ⟨hdata, hd, hs⟩ := hpost
    exact ⟨hdata, ⟨hd, rfl, rfl⟩, hs⟩
  · intro e d hpost
    obtain ⟨he, hd, hwhy⟩ := hpost
    exact ⟨he, ⟨hd, rfl, rfl⟩, hwhy⟩

theorem ends_tableByte {v : Volume} (hv : v.drive.Coherent) (g : Geometry) (offset : Nat) :
    Ends (tableByte g offset v)
      (fun x w => x = v.disk.byte (sectorSize * g.tableBase + offset) ∧ v.Reads w
        ∧ (v.drive.Renewable → v.disk.Readable (g.tableBase + offset / sectorSize)))
      (fun e w => e = .device v.disk.faults.code ∧ v.Reads w
        ∧ (v.disk.Steady → ¬ v.disk.Readable (g.tableBase + offset / sectorSize))) := by
  unfold tableByte
  simp only [ends_bind, ends_pure]
  refine (ends_ensure hv _).mono ?_ fun _ _ h => h
  intro data w hpost
  obtain ⟨hdata, hw, hs⟩ := hpost
  refine ⟨?_, hw, hs⟩
  rw [hdata, Disk.byteAt_sector _ _ _ (Nat.mod_lt _ sectorSize_pos), Nat.mul_add, Nat.add_assoc,
    Nat.div_add_mod]

/-- Two neighbouring bytes of the table, each asked for by itself. They may lie in two sectors. -/
theorem ends_tableBytes {v : Volume} (hv : v.drive.Coherent) (g : Geometry) (offset : Nat)
    {β : Type} (f : UInt8 → UInt8 → β) :
    Ends ((do
        let low ← tableByte g offset
        let high ← tableByte g (← word (offset + 1))
        return f low high) v)
      (fun x w => x = f (v.disk.byte (sectorSize * g.tableBase + offset))
            (v.disk.byte (sectorSize * g.tableBase + (offset + 1))) ∧ v.Reads w
        ∧ offset + 1 < wordLimit
        ∧ (v.drive.Renewable → v.disk.Readable (g.tableBase + offset / sectorSize)
          ∧ v.disk.Readable (g.tableBase + (offset + 1) / sectorSize)))
      (fun e w => v.Reads w
        ∧ (e = .overflow ∧ ¬ offset + 1 < wordLimit
          ∨ e = .device v.disk.faults.code
            ∧ (v.disk.Steady → ¬ (v.disk.Readable (g.tableBase + offset / sectorSize)
              ∧ v.disk.Readable (g.tableBase + (offset + 1) / sectorSize))))) := by
  simp only [ends_bind, ends_pure, ends_word]
  refine (ends_tableByte hv _ _).mono ?_ ?_
  · intro low w hpost
    obtain ⟨hlow, hw, hs⟩ := hpost
    refine ⟨fun hfits => ?_, fun hlarge => ⟨hw, .inl ⟨trivial, hlarge⟩⟩⟩
    -- the second byte is read from the medium that the first was read from
    have hm : v.disk.SameMedium w.disk := hw.drive.medium
    refine (ends_tableByte hw.drive.coherent _ _).mono ?_ ?_
    · intro high u hpost
      obtain ⟨hhigh, hu, hs'⟩ := hpost
      refine ⟨by rw [hlow, hhigh, hm.byte], hw.trans hu, hfits, fun hr => ⟨hs hr, ?_⟩⟩
      exact (hm.readable_iff _).mp (hs' (hw.drive.renewable hr))
    · intro e u hpost
      obtain ⟨he, hu, hwhy⟩ := hpost
      refine ⟨hw.trans hu, .inr ⟨by rw [he, hm.faults], fun hd hboth => ?_⟩⟩
      exact hwhy (hm.steady hd) ((hm.readable_iff _).mpr hboth.2)
  · intro e w hpost
    obtain ⟨he, hw, hwhy⟩ := hpost
    exact ⟨hw, .inr ⟨he, fun hd hboth => hwhy hd hboth.1⟩⟩

/-- A number read from one sector of the table. -/
theorem ends_tableNumber {v : Volume} (hv : v.drive.Coherent) {s i width : Nat}
    (hfit : i + width ≤ sectorSize) {β : Type} (f : Nat → β) :
    Ends ((do let data ← onDrive (Drive.ensure s); return f (data.val.numberAt i width)) v)
      (fun n w => n = f (numberFrom v.disk.byte (sectorSize * s + i) width) ∧ v.Reads w
        ∧ (v.drive.Renewable → v.disk.Readable s))
      (fun e w => e = .device v.disk.faults.code ∧ v.Reads w
        ∧ (v.disk.Steady → ¬ v.disk.Readable s)) := by
  simp only [ends_bind, ends_pure]
  refine (ends_ensure hv s).mono ?_ fun _ _ h => h
  intro data w hpost
  obtain ⟨hdata, hw, hs⟩ := hpost
  refine ⟨?_, hw, hs⟩
  rw [numberAt_eq, hdata]
  congr 1
  refine numberFrom_congr width fun k hk => ?_
  rw [Disk.byteAt_sector _ _ _ (by omega), Nat.add_assoc]

/-- An entry that is not packed is a number in one sector. -/
theorem ends_unpacked {v : Volume} (hv : v.drive.Coherent) {cluster s i width : Nat}
    (hformat : v.geometry.format ≠ .fat12) (hsectors : v.geometry.entrySectors cluster = [s])
    (hfit : i + width ≤ sectorSize) (f : Nat → Nat)
    (hentry : f (numberFrom v.disk.byte (sectorSize * s + i) width)
      = v.geometry.tableEntry v.disk.byte cluster) :
    Ends ((do let data ← onDrive (Drive.ensure s); return f (data.val.numberAt i width)) v)
      (fun n w => n = v.geometry.tableEntry v.disk.byte cluster ∧ v.Reads w
        ∧ v.geometry.OffsetFits cluster
        ∧ (v.drive.Renewable → v.geometry.Legible v.disk cluster))
      (fun e w => v.Reads w ∧ v.geometry.Unread v.disk cluster e) := by
  have hlegible : v.geometry.Legible v.disk cluster ↔ v.disk.Readable s := by
    unfold Geometry.Legible
    rw [hsectors, List.forall_mem_singleton]
  refine (ends_tableNumber hv hfit f).mono ?_ ?_
  · intro n w hpost
    obtain ⟨hn, hw, hs⟩ := hpost
    exact ⟨hn.trans hentry, hw, fun h => absurd h hformat, fun hr => hlegible.mpr (hs hr)⟩
  · intro e w hpost
    obtain ⟨he, hw, hwhy⟩ := hpost
    rw [he]
    exact ⟨hw, .refused fun hd hall => hwhy hd (hlegible.mp hall)⟩

theorem nextCluster_invalid {v : Volume} {cluster : Nat} (hc : ¬ v.geometry.HasCluster cluster) :
    nextCluster cluster v = .error (.invalidCluster cluster) v := by
  refine Ends.eq_error ?_
  unfold nextCluster
  simp [hc]

/-- **A look-up gives the entry that the medium spells.** On a steady device it depends on the
cluster alone whether it can. -/
theorem ends_nextCluster {v : Volume} (hv : v.drive.Coherent) {cluster : Nat}
    (hc : v.geometry.HasCluster cluster) :
    Ends (nextCluster cluster v)
      (fun n w => n = v.geometry.tableEntry v.disk.byte cluster ∧ v.Reads w
        ∧ v.geometry.OffsetFits cluster
        ∧ (v.drive.Renewable → v.geometry.Legible v.disk cluster))
      (fun e w => v.Reads w ∧ v.geometry.Unread v.disk cluster e) := by
  unfold nextCluster
  simp only [ends_bind, ends_get, hc, not_true, if_false]
  cases hf : v.geometry.format with
  | fat12 =>
      rw [ends_bind, ends_word]
      -- the second offset is the larger one
      have hunfit : ¬ packedOffset cluster + 1 < wordLimit →
          v.geometry.Unread v.disk cluster .overflow := fun h => .overflow fun hfit => h (hfit hf)
      refine ⟨fun _ => ?_, fun hlarge => ⟨.refl hv, hunfit fun h => hlarge (Nat.lt_of_succ_lt h)⟩⟩
      have hlegible : v.geometry.Legible v.disk cluster ↔
          v.disk.Readable (v.geometry.tableBase + packedOffset cluster / sectorSize)
          ∧ v.disk.Readable (v.geometry.tableBase + (packedOffset cluster + 1) / sectorSize) := by
        unfold Geometry.Legible Geometry.entrySectors
        rw [hf, List.forall_mem_cons, List.forall_mem_singleton]
      refine (ends_tableBytes hv _ _ _).mono ?_ ?_
      · intro n w hpost
        obtain ⟨hn, hw, hfits, hs⟩ := hpost
        refine ⟨?_, hw, fun _ => hfits, fun hr => hlegible.mpr (hs hr)⟩
        unfold Geometry.tableEntry
        rw [hn, hf]
      · intro e w hpost
        obtain ⟨hw, ⟨rfl, hlarge⟩ | ⟨rfl, hwhy⟩⟩ := hpost
        · exact ⟨hw, hunfit hlarge⟩
        · exact ⟨hw, .refused fun hd hall => hwhy hd (hlegible.mp hall)⟩
  | fat16 =>
      have hsectors : v.geometry.entrySectors cluster = [v.geometry.tableBase + cluster / 256] := by
        unfold Geometry.entrySectors
        rw [hf]
      have haddress : sectorSize * (v.geometry.tableBase + cluster / 256) + 2 * (cluster % 256)
          = sectorSize * v.geometry.tableBase + 2 * cluster := by
        unfold sectorSize
        omega
      refine ends_unpacked hv (by simp [hf]) hsectors (by unfold sectorSize; omega) id ?_
      unfold Geometry.tableEntry
      rw [hf, haddress]
      rfl
  | fat32 =>
      have hsectors : v.geometry.entrySectors cluster = [v.geometry.tableBase + cluster / 128] := by
        unfold Geometry.entrySectors
        rw [hf]
      have haddress : sectorSize * (v.geometry.tableBase + cluster / 128) + 4 * (cluster % 128)
          = sectorSize * v.geometry.tableBase + 4 * cluster := by
        unfold sectorSize
        omega
      refine ends_unpacked hv (by simp [hf]) hsectors (by unfold sectorSize; omega)
        (· % 0x10000000) ?_
      unfold Geometry.tableEntry
      rw [hf, haddress]

section Held

variable {v : Volume} {cluster : Nat}

/-- An entry within reach is only the device's to refuse. -/
theorem ends_nextCluster_reached (hv : v.drive.Coherent) (hc : v.geometry.HasCluster cluster)
    (hfit : v.geometry.OffsetFits cluster) :
    Ends (nextCluster cluster v)
      (fun n w => n = v.geometry.tableEntry v.disk.byte cluster ∧ v.Reads w
        ∧ (v.drive.Renewable → v.geometry.Legible v.disk cluster))
      (fun e w => e = .device v.disk.faults.code ∧ v.Reads w
        ∧ (v.disk.Steady → ¬ v.geometry.Legible v.disk cluster)) := by
  refine (ends_nextCluster hv hc).mono (fun n w h => ⟨h.1, h.2.1, h.2.2.2⟩) ?_
  intro e w hpost
  cases hpost.2 with
  | refused hwhy => exact ⟨rfl, hpost.1, hwhy⟩
  | overflow hunfit => exact absurd hfit hunfit

/-- On a device without faults that holds the table it is the offsets alone that decide. -/
theorem ends_nextCluster_held (hv : v.drive.Coherent) (hd : v.disk.Faultless)
    (hend : v.geometry.tableEnd ≤ v.disk.sectorCount) (hc : v.geometry.HasCluster cluster) :
    Ends (nextCluster cluster v)
      (fun n _ => n = v.geometry.tableEntry v.disk.byte cluster ∧ v.geometry.OffsetFits cluster)
      (fun e _ => e = .overflow ∧ ¬ v.geometry.OffsetFits cluster) := by
  refine (ends_nextCluster hv hc).mono (fun n w h => ⟨h.1, h.2.2.1⟩) ?_
  intro e w hpost
  cases hpost.2 with
  | refused hwhy =>
      refine absurd (fun s hs => ⟨?_, hd.sector .read s⟩) (hwhy hd.steady)
      exact Nat.lt_of_lt_of_le (Geometry.entrySectors_lt hc hs) hend
  | overflow hunfit => exact ⟨rfl, hunfit⟩

/-- An entry within reach is read. -/
theorem exists_nextCluster_eq (hv : v.drive.Coherent) (hd : v.disk.Faultless)
    (hend : v.geometry.tableEnd ≤ v.disk.sectorCount) (hc : v.geometry.HasCluster cluster)
    (hfit : v.geometry.OffsetFits cluster) :
    ∃ w, nextCluster cluster v = .ok (v.geometry.tableEntry v.disk.byte cluster) w := by
  obtain ⟨n, w, hr, rfl, _⟩ :=
    (ends_nextCluster_held hv hd hend hc).exists_ok fun _ _ h => h.2 hfit
  exact ⟨w, hr⟩

/-- An entry out of reach is not: the look-up stops. -/
theorem exists_nextCluster_stops (hv : v.drive.Coherent) (hd : v.disk.Faultless)
    (hend : v.geometry.tableEnd ≤ v.disk.sectorCount) (hc : v.geometry.HasCluster cluster)
    (hfit : ¬ v.geometry.OffsetFits cluster) :
    ∃ w, nextCluster cluster v = .error .overflow w := by
  obtain ⟨e, w, hr, rfl, _⟩ :=
    (ends_nextCluster_held hv hd hend hc).exists_error fun _ _ h => hfit h.2
  exact ⟨w, hr⟩

end Held

end Volume

end Fat

/-! ## Out of reach -/

/-- One packed entry more than can be reached, and the data area right behind the table. -/
def overfullGeometry : Geometry :=
  ⟨.fat12, 1, 0x800002, 1, 0xAAAAAAAB, by decide⟩

/-- The first byte of the table, and the two bytes of its last entry. -/
def overfullDisk : Disk where
  sectorCount := 0xAB2AAAAB
  blank := sparseBytes [(0x200, 0xF8), (0x1000001FF, 0x21), (0x100000200, 0x03)]

end CartBoot
