import CartBoot.Proofs.Copies
import CartBoot.Proofs.Handover
import CartBoot.Proofs.Refinement

/-!
# The image is put in its place

The second stage moves the image from its chain to the end of a space of
power-of-two size, and then writes registers. The stream of the chain delivers the
file in pieces of any size, so the pieces of the copy need not fit the sectors of
the file; the copy puts each of them where bank and offset say; and nothing the
second stage does after that touches a memory, unless the patch is asked for.

A resident image is in its place already, and the device is left alone: its
cluster number is above that of any cluster a volume can have.
-/

namespace CartBoot

open Fat

/-! ## The space of an image -/

namespace ImageLayout

/-- The space of an image is a whole number of banks and holds the image. -/
theorem spaceFor_spec {size : Nat} (hsize : size ≤ 0x80000000) :
    size ≤ spaceFor size ∧ spaceFor size ≤ 0x80000000 ∧ bankSize ∣ spaceFor size := by
  unfold spaceFor
  split
  · rename_i hsmall
    exact ⟨hsmall, by decide, Nat.dvd_refl _⟩
  · rename_i hlarge
    have hne : size - 1 ≠ 0 := by
      unfold bankSize at hlarge
      omega
    have hlow : 16 ≤ (size - 1).log2 := by
      refine (Nat.le_log2 hne).mpr ?_
      unfold bankSize at hlarge
      omega
    have hhigh : (size - 1).log2 < 31 := (Nat.log2_lt hne).mpr (by omega)
    have hlt : size - 1 < 2 ^ ((size - 1).log2 + 1) := Nat.lt_log2_self
    rw [Nat.shiftLeft_eq, Nat.one_mul]
    refine ⟨by omega, ?_, ?_⟩
    · exact Nat.pow_le_pow_right (by decide) (show (size - 1).log2 + 1 ≤ 31 by omega)
    · exact Nat.pow_dvd_pow 2 (show 16 ≤ (size - 1).log2 + 1 by omega)

/-- The place of an image of that size, whether or not there is one. -/
def placed (size : Nat) : ImageLayout :=
  ⟨size, .ofLinear (spaceFor size - size), spaceFor size / bankSize⟩

theorem forSize_eq {size : Nat} (hne : size ≠ 0) (hsize : size ≤ 0x80000000) :
    forSize size = .ok (placed size) := by
  have hspace := (spaceFor_spec hsize).2.1
  unfold forSize
  rw [if_neg hne, if_neg (by omega)]
  rfl

theorem spaceFor_of_lt {size : Nat} (h : 0x80000000 < size) : 0x100000000 ≤ spaceFor size := by
  have hlog : 31 ≤ (size - 1).log2 := (Nat.le_log2 (by omega)).mpr (by omega)
  unfold spaceFor
  rw [if_neg (by unfold bankSize; omega), Nat.shiftLeft_eq, Nat.one_mul]
  exact Nat.pow_le_pow_right (show 0 < 2 by decide) (show 32 ≤ (size - 1).log2 + 1 by omega)

/-- There is a place for an image of up to 2 GiB. -/
theorem forSize_cases {size : Nat} (hne : size ≠ 0) :
    (0x80000000 < size ∧ forSize size = .error .fileTooLarge)
      ∨ (size ≤ 0x80000000 ∧ forSize size = .ok (placed size)) := by
  by_cases hsize : size ≤ 0x80000000
  · exact .inr ⟨hsize, forSize_eq hne hsize⟩
  · refine .inl ⟨by omega, ?_⟩
    unfold forSize
    rw [if_neg hne, if_pos (spaceFor_of_lt (by omega))]

theorem forSize_eq_ok {size : Nat} {l : ImageLayout} :
    forSize size = .ok l ↔ size ≠ 0 ∧ size ≤ 0x80000000 ∧ l = placed size := by
  constructor
  · intro h
    by_cases hne : size = 0
    · rw [hne] at h
      cases h
    · rcases forSize_cases hne with ⟨_, herror⟩ | ⟨hsize, hok⟩
      · rw [herror] at h
        cases h
      · rw [hok] at h
        cases h
        exact ⟨hne, hsize, rfl⟩
  · intro h
    obtain ⟨hne, hsize, rfl⟩ := h
    exact forSize_eq hne hsize

theorem totalBanks_pos {size : Nat} {l : ImageLayout} (h : forSize size = .ok l) :
    0 < l.totalBanks := by
  obtain ⟨hne, hsize, rfl⟩ := forSize_eq_ok.mp h
  obtain ⟨hle, _, hdvd⟩ := spaceFor_spec hsize
  exact Nat.div_pos (Nat.le_of_dvd (by omega) hdvd) (by decide)

/-- The image ends where its space ends. -/
theorem placed_spec {size : Nat} (hsize : size ≤ 0x80000000) :
    (placed size).start.linear + size = (placed size).spaceSize
      ∧ (placed size).spaceSize ≤ 0x80000000 := by
  obtain ⟨hle, hspace, hdvd⟩ := spaceFor_spec hsize
  have hstart : (placed size).start.linear = spaceFor size - size :=
    BankedAddr.linear_ofLinear (by omega)
  have hwhole : (placed size).spaceSize = spaceFor size := Nat.div_mul_cancel hdvd
  omega

end ImageLayout

/-! ## The stream of a chain -/

/-- **The stream of a chain delivers its file** up to any word, whatever the sizes of the reads. -/
theorem ChainStream.supplies_fileBytes {g : Geometry} {disk : Disk} {cs : List Nat} {size : Nat}
    (hpath : g.Path disk.byte cs) (hdisk : disk.Faultless)
    (hdevice : ∀ c ∈ cs, g.OnDevice disk c) (hword : size < wordLimit) :
    Copier.Supplies ((g.fileBytes disk.byte cs).extract 0 size) (Reading g disk cs) := by
  intro p n s hs hfit
  rw [ByteArray.size_extract, Geometry.size_fileBytes] at hfit
  have hcapacity : p + n ≤ g.capacity cs := by omega
  obtain ⟨t, hread, _, ht⟩ := hs.read hpath hdisk hdevice hcapacity (by omega)
  refine ⟨t, hread.trans ?_, ht⟩
  rw [ByteArray.extract_extract_zero (by omega)]

/-! ## Registers only -/

namespace Machine

/-- The memories and what is selected in them are as they were. -/
structure SameCart (m m' : Machine) : Prop extends m.SameMemory m' where
  banks : m'.banks = m.banks
  flash : m'.flash = m.flash

variable {m m' m'' : Machine}

theorem SameCart.trans (h : m.SameCart m') (h' : m'.SameCart m'') : m.SameCart m'' :=
  ⟨h.toSameMemory.trans h'.toSameMemory, h'.banks.trans h.banks, h'.flash.trans h.flash⟩

theorem sameCart_record (m : Machine) (e : Event) : m.SameCart (m.record e) :=
  ⟨⟨rfl, rfl, rfl⟩, rfl, rfl⟩

theorem sameCart_outb (port : UInt16) (value : UInt8) (m : Machine) :
    m.SameCart (m.outb port value) :=
  ⟨⟨rfl, rfl, rfl⟩, rfl, rfl⟩

theorem sameCart_outw (port value : UInt16) (m : Machine) : m.SameCart (m.outw port value) :=
  (sameCart_outb _ _ m).trans (sameCart_outb _ _ _)

theorem sameCart_inb (port : UInt16) (m : Machine) : m.SameCart (m.inb port).2 := by
  unfold inb
  split
  · split <;> exact ⟨⟨rfl, rfl, rfl⟩, rfl, rfl⟩
  · exact sameCart_record m _

/-- What every look at the line counter keeps, waiting for vertical blank keeps. -/
theorem awaitVblank_keeps {R : Machine → Machine → Prop}
    (hlook : ∀ m, R m (m.inb Port.lcdLine).2) (htrans : ∀ {a b c}, R a b → R b c → R a c)
    (m : Machine) : R m m.awaitVblank := by
  have hgo : ∀ (lines : List UInt8) (m : Machine), R m (awaitVblank.go lines m) := by
    intro lines
    induction lines with
    | nil => exact hlook
    | cons line rest ih =>
        intro m
        unfold awaitVblank.go
        dsimp only
        split
        · exact hlook m
        · exact htrans (hlook m) (ih _)
  exact hgo _ m

theorem sameCart_awaitVblank (m : Machine) : m.SameCart m.awaitVblank :=
  awaitVblank_keeps (sameCart_inb Port.lcdLine) SameCart.trans m

end Machine

namespace SecondStage

theorem sameCart_setBus (d : BootDescriptor) (m : Machine) : m.SameCart (setBus d m) := by
  unfold setBus
  exact (m.sameCart_inb Port.systemControl).trans (Machine.sameCart_outb _ _ _)

theorem sameCart_setPower (d : BootDescriptor) (m : Machine) : m.SameCart (setPower d m) := by
  unfold setPower
  exact (m.sameCart_inb Port.powerControl).trans (Machine.sameCart_outb _ _ _)

/-- Once the flash enable is cleared, the registers that an image expects are nothing to the
memories. -/
theorem sameCart_configure (d : BootDescriptor) (m : Machine) :
    (m.setFlash false).SameCart (configure d m) := by
  have hidle := ((m.setFlash false).sameCart_record .storageReleased).trans
    (Machine.sameCart_awaitVblank _)
  have hdisplay := (hidle.trans (Machine.sameCart_outw Port.displayControl 0 _)).trans
    (Machine.sameCart_outb Port.lcdSegments 0 _)
  have hbus := (hdisplay.trans (Machine.sameCart_record _ (.coldBootState
    (!d.colorFlags.contains .color)))).trans (sameCart_setBus d _)
  have hmask := (hbus.trans (Machine.sameCart_outw Port.segmentMask
    (segmentMask d.romBanks d.sramMask) _)).trans
    (Machine.sameCart_outb Port.eepromControl d.eepromControl _)
  exact (hmask.trans (sameCart_setPower d _)).trans (Machine.sameCart_outb Port.interruptAck 0xFF _)

/-- Reading the descriptor leaves it in place, and what it accepts is valid. -/
theorem readDescriptor_spec {m m' : Machine} {d : BootDescriptor}
    (h : readDescriptor m = .ok d m') : d.Valid ∧ m.SameCart m' := by
  unfold readDescriptor at h
  dsimp only at h
  split at h
  · cases h
  · split at h
    · cases h
    · rename_i hvalid
      cases h
      exact ⟨BootDescriptor.validate_eq_ok.mp hvalid, m.sameCart_record _⟩

variable {π : Type}

section OnMachine

variable {s : SecondStage π} {α : Type} {operation : EStateM Error Machine α} {m : Machine}

theorem onMachine_of_ok {a : α} (h : operation s.machine = .ok a m) :
    onMachine operation s = .ok a ⟨m, s.disk, s.hook⟩ := by
  unfold onMachine
  dsimp only
  rw [h]

theorem onMachine_of_error {e : Error} (h : operation s.machine = .error e m) :
    onMachine operation s = .error e ⟨m, s.disk, s.hook⟩ := by
  unfold onMachine
  dsimp only
  rw [h]

end OnMachine

/-! ## Loading the image -/

section Load

variable [Progress π] {s : SecondStage π} {d : BootDescriptor} {cs : List Nat}

/-- The bytes that a descriptor says are the image, if `cs` are the clusters they are in. -/
def imageBytes (d : BootDescriptor) (disk : Disk) (cs : List Nat) : ByteArray :=
  (d.geometry.fileBytes disk.byte cs).extract 0 d.size.toNat

/-- What it takes to stream an image: a device that does not fail, clusters on it that are linked
in its table from the first one on and hold the image, banks for the space of the image, and a hook
that lets the copy come to its last piece. -/
structure Streamable (s : SecondStage π) (d : BootDescriptor) (cs : List Nat) : Prop where
  faultless : s.disk.Faultless
  path : d.geometry.Path s.disk.byte cs
  first : cs[0]? = some d.cluster.toNat
  onDevice : ∀ c ∈ cs, d.geometry.OnDevice s.disk c
  capacity : d.size.toNat ≤ d.geometry.capacity cs
  banks : (ImageLayout.placed d.size.toNat).totalBanks ≤ s.machine.psram.bankCount
  hook : Copier.Undisturbed (ImageLayout.placed d.size.toNat).start.linear
    (ImageLayout.placed d.size.toNat).spaceSize (ImageLayout.placed d.size.toNat).start.linear
    s.hook

theorem Streamable.size_imageBytes (h : s.Streamable d cs) :
    (imageBytes d s.disk cs).size = d.size.toNat := by
  unfold imageBytes
  rw [ByteArray.size_extract, Geometry.size_fileBytes, Nat.min_eq_left h.capacity, Nat.sub_zero]

theorem loadImage_of_resident (h : d.isResident = true) (layout : ImageLayout) :
    loadImage d layout s = .ok () s :=
  if_pos h

theorem loadImage_of_ok {layout : ImageLayout} {c : Copier ChainStream π}
    (h : d.isResident = false)
    (hload : Copier.loadPsram layout.start d.size.toNat
      ⟨(Volume.ofDisk s.disk d.geometry true).openAt d.cluster.toNat, s.machine, s.hook⟩
      = .ok () c) :
    loadImage d layout s = .ok () ⟨c.machine, c.stream.volume.disk, c.hook⟩ := by
  unfold loadImage
  dsimp only
  rw [h, if_neg Bool.false_ne_true, hload]

/-- An image that can be streamed comes to its place. -/
theorem Streamable.exists_loadImage (h : s.Streamable d cs) (hsize : d.size.toNat ≤ 0x80000000)
    (hresident : d.isResident = false) :
    ∃ s', loadImage d (ImageLayout.placed d.size.toNat) s = .ok () s'
      ∧ s.machine.Loaded true (ImageLayout.placed d.size.toNat).start.linear
          (imageBytes d s.disk cs) s'.machine
      ∧ s'.machine.banks = s.machine.banks := by
  obtain ⟨hend, _⟩ := ImageLayout.placed_spec hsize
  have hbytes := h.size_imageBytes
  have hsupplies : Copier.Supplies (imageBytes d s.disk cs)
      (ChainStream.Reading d.geometry s.disk cs) :=
    ChainStream.supplies_fileBytes h.path h.faultless h.onDevice
      (Nat.lt_of_le_of_lt hsize (by decide))
  have hfit : (ImageLayout.placed d.size.toNat).start.linear + (imageBytes d s.disk cs).size
      ≤ (s.machine.ram true).bytes.size := by
    rw [hbytes, hend]
    show _ ≤ s.machine.psram.bytes.size
    rw [s.machine.psram.size_eq, Nat.mul_comm]
    exact Nat.mul_le_mul_right _ h.banks
  have hhook : Copier.Undisturbed (ImageLayout.placed d.size.toNat).start.linear
      ((ImageLayout.placed d.size.toNat).start.linear + (imageBytes d s.disk cs).size)
      (ImageLayout.placed d.size.toNat).start.linear s.hook := by
    rw [hbytes, hend]
    exact h.hook
  obtain ⟨c, hload, hloaded, hbanks, _, _⟩ := Copier.exists_load hsupplies true
    (c := ⟨(Volume.ofDisk s.disk d.geometry true).openAt d.cluster.toNat, s.machine, s.hook⟩)
    (ChainStream.reading_openAt h.first true) hfit hhook
  rw [hbytes] at hload
  exact ⟨_, loadImage_of_ok hresident hload, hloaded, hbanks⟩

/-! ## The way to the jump -/

/-- What the second stage does once it has a descriptor and a place for the image. -/
def bootFrom (d : BootDescriptor) (layout : ImageLayout) :
    EStateM Error (SecondStage π) FarPtr := do
  loadImage d layout
  if d.patches.contains .softReset then
    discard (onMachine (SoftReset.apply layout))
  onMachine (modify (configure d))
  return d.start

/-- The icon is set in between. -/
theorem boot_eq {m : Machine} {layout : ImageLayout} (hread : readDescriptor s.machine = .ok d m)
    (hlayout : ImageLayout.forSize d.size.toNat = .ok layout) :
    boot s = bootFrom d layout ⟨m.outb Port.lcdSegments (orientation d), s.disk, s.hook⟩ := by
  unfold boot
  refine (bind_of_ok (onMachine_of_ok hread)).trans ?_
  rw [hlayout]
  have hplace : (pure layout : EStateM Error (SecondStage π) ImageLayout) ⟨m, s.disk, s.hook⟩
      = .ok layout ⟨m, s.disk, s.hook⟩ := rfl
  have hicon : onMachine (π := π) (modify (Machine.outb Port.lcdSegments (orientation d)))
      ⟨m, s.disk, s.hook⟩ = .ok () ⟨m.outb Port.lcdSegments (orientation d), s.disk, s.hook⟩ := rfl
  refine (bind_of_ok hplace).trans ?_
  exact bind_of_ok hicon

/-- Without the patch the second stage loads the image and then sets up the registers. -/
theorem boot_of_ok {m : Machine} {layout : ImageLayout} {s' : SecondStage π}
    (hread : readDescriptor s.machine = .ok d m)
    (hlayout : ImageLayout.forSize d.size.toNat = .ok layout)
    (hpatch : d.patches.contains .softReset = false)
    (hload : loadImage d layout ⟨m.outb Port.lcdSegments (orientation d), s.disk, s.hook⟩
      = .ok () s') :
    boot s = .ok d.start ⟨configure d s'.machine, s'.disk, s'.hook⟩ := by
  rw [boot_eq hread hlayout]
  unfold bootFrom
  refine (bind_of_ok hload).trans ?_
  rw [hpatch, if_neg Bool.false_ne_true]
  rfl

/-- No volume has a cluster with the number that says an image is resident. -/
theorem not_hasCluster_residentCluster (g : Geometry) : ¬ g.HasCluster residentCluster.toNat := by
  intro h
  have hlt : residentCluster.toNat < g.entryCount := h.2
  have hcount := g.consistent.entryCount_lt
  have hresident : residentCluster.toNat = 0xFFFFFFFF := rfl
  omega

theorem Streamable.sameCart (h : s.Streamable d cs) {m : Machine} (hm : s.machine.SameCart m) :
    Streamable ⟨m, s.disk, s.hook⟩ d cs :=
  ⟨h.faultless, h.path, h.first, h.onDevice, h.capacity, by rw [hm.psram]; exact h.banks, h.hook⟩

/-- What holds of the machine at the jump, in every case. -/
structure AtJump (s s' : SecondStage π) : Prop where
  sram : s'.machine.sram = s.machine.sram
  iram : s'.machine.iram = s.machine.iram
  banks : s'.machine.banks = s.machine.banks
  flash : s'.machine.flash = false

theorem boot_of_resident {m : Machine} {layout : ImageLayout}
    (hread : readDescriptor s.machine = .ok d m)
    (hlayout : ImageLayout.forSize d.size.toNat = .ok layout)
    (hpatch : d.patches.contains .softReset = false) (hresident : d.isResident = true) :
    ∃ s', boot s = .ok d.start s' ∧ s.AtJump s' ∧ s'.machine.psram = s.machine.psram
      ∧ s'.disk = s.disk := by
  have hicon := (readDescriptor_spec hread).2.trans
    (Machine.sameCart_outb Port.lcdSegments (orientation d) m)
  have hend := sameCart_configure d (m.outb Port.lcdSegments (orientation d))
  refine ⟨_, boot_of_ok hread hlayout hpatch (loadImage_of_resident hresident layout), ?_,
    hend.psram.trans hicon.psram, rfl⟩
  exact ⟨hend.sram.trans hicon.sram, hend.iram.trans hicon.iram, hend.banks.trans hicon.banks,
    hend.flash⟩

theorem boot_of_streamable {m : Machine} (hread : readDescriptor s.machine = .ok d m)
    (hsize : d.size.toNat ≤ 0x80000000) (hpatch : d.patches.contains .softReset = false)
    (hresident : d.isResident = false) (hstream : s.Streamable d cs) :
    ∃ s', boot s = .ok d.start s' ∧ s.AtJump s' ∧ s'.machine.psram.bytes =
      s.machine.psram.bytes.patch (ImageLayout.placed d.size.toNat).start.linear
        (imageBytes d s.disk cs) := by
  obtain ⟨hvalid, hsame⟩ := readDescriptor_spec hread
  have hlayout := ImageLayout.forSize_eq (fun h => hvalid.size_ne (UInt32.toNat_inj.mp h)) hsize
  have hicon := hsame.trans (Machine.sameCart_outb Port.lcdSegments (orientation d) m)
  obtain ⟨s', hload, hloaded, hbanks⟩ :=
    (hstream.sameCart hicon).exists_loadImage hsize hresident
  have hend := sameCart_configure d s'.machine
  refine ⟨_, boot_of_ok hread hlayout hpatch hload, ?_, ?_⟩
  · exact ⟨hend.sram.trans (hloaded.other.trans hicon.sram),
      hend.iram.trans (hloaded.iram.trans hicon.iram),
      hend.banks.trans (hbanks.trans hicon.banks), hend.flash⟩
  · show (configure d s'.machine).psram.bytes = _
    rw [hend.psram, ← hicon.psram]
    exact hloaded.bytes

/-- **The second stage puts the image in its place**, at the end of its space, and jumps; but for
that stretch of program RAM no memory changes, all banks are selected as before, and the flash
enable is off. A resident image stays where it is, and the device is not touched. -/
theorem boot_places_image {m : Machine} (hread : readDescriptor s.machine = .ok d m)
    (hsize : d.size.toNat ≤ 0x80000000) (hpatch : d.patches.contains .softReset = false)
    (hstream : d.isResident = false → s.Streamable d cs) :
    ∃ layout s', ImageLayout.forSize d.size.toNat = .ok layout ∧ boot s = .ok d.start s'
      ∧ s.AtJump s'
      ∧ (d.isResident = true → s'.machine.psram = s.machine.psram ∧ s'.disk = s.disk
        ∧ ∀ g : Geometry, ¬ g.HasCluster d.cluster.toNat)
      ∧ (d.isResident = false →
        s'.machine.psram.bytes.extract (layout.spaceSize - d.size.toNat) layout.spaceSize
            = imageBytes d s.disk cs
          ∧ s'.machine.psram.bytes.size = s.machine.psram.bytes.size
          ∧ ∀ i, i < layout.spaceSize - d.size.toNat ∨ layout.spaceSize ≤ i →
            s'.machine.psram.bytes.byteAt i = s.machine.psram.bytes.byteAt i) := by
  have hvalid := (readDescriptor_spec hread).1
  have hlayout := ImageLayout.forSize_eq (fun h => hvalid.size_ne (UInt32.toNat_inj.mp h)) hsize
  cases hresident : d.isResident with
  | true =>
      obtain ⟨s', hboot, hjump, hpsram, hdisk⟩ :=
        boot_of_resident hread hlayout hpatch hresident
      have hcluster : d.cluster = residentCluster := of_decide_eq_true hresident
      refine ⟨_, s', hlayout, hboot, hjump, fun _ => ⟨hpsram, hdisk, ?_⟩, nofun⟩
      rw [hcluster]
      exact not_hasCluster_residentCluster
  | false =>
      have hready := hstream hresident
      obtain ⟨s', hboot, hjump, hpsram⟩ :=
        boot_of_streamable hread hsize hpatch hresident hready
      obtain ⟨hstop, _⟩ := ImageLayout.placed_spec hsize
      have hbanks := hready.banks
      refine ⟨_, s', hlayout, hboot, hjump, nofun, fun _ => ?_⟩
      -- from here on only where the image begins and ends matters
      generalize ImageLayout.placed d.size.toNat = layout at *
      have hspace : layout.spaceSize ≤ s.machine.psram.bytes.size := by
        rw [s.machine.psram.size_eq, Nat.mul_comm]
        exact Nat.mul_le_mul_right _ hbanks
      have hbytes := hready.size_imageBytes
      rw [← hbytes] at hstop
      have hstart : layout.spaceSize - d.size.toNat = layout.start.linear := by omega
      rw [hpsram, hstart, ← hstop]
      refine ⟨ByteArray.extract_patch_self (by omega), ByteArray.size_patch _ _ _, fun i hi => ?_⟩
      exact ByteArray.byteAt_patch_of_not_mem hi

end Load

/-! ## A small image -/

/-- An image of 600 bytes in two clusters that are not adjacent. -/
def smallImage : BootDescriptor :=
  { smallDescriptor with size := 600 }

/-- A machine with one bank of program RAM and the descriptor in place. -/
def smallStage : SecondStage Silent where
  machine := (Machine.erased 1 1).writeRam BootDescriptor.address smallImage.encode
  disk := smallDisk
  hook := {}

theorem smallStage_streamable : smallStage.Streamable smallImage (smallChains true) where
  faultless := smallDisk_faultless
  path := (isChain_smallChains true).toPath
  first := rfl
  onDevice := by
    intro c hc
    exact onDevice_of_fits smallGeometry_apart smallDisk_fits ((isChain_smallChains true).has c hc)
  capacity := by decide
  banks := by
    show _ ≤ (BankedMemory.erased 1).bankCount
    rw [BankedMemory.bankCount_erased]
    decide
  hook := Copier.undisturbed_of_proceeds (fun _ _ _ => show Signal.proceed ≠ .cancel by decide) _ _

theorem smallImage_placed : ∃ s', boot smallStage = .ok smallImage.start s'
    ∧ s'.machine.psram.bytes.extract (0x10000 - 600) 0x10000
      = imageBytes smallImage smallDisk [2, 4] := by
  have hvalid : smallImage.validate = .ok () := rfl
  have hread := readDescriptor_eq (Machine.descriptorBytes_writeRam (Machine.erased 1 1) smallImage)
    (BootDescriptor.validate_eq_ok.mp hvalid)
  obtain ⟨layout, s', hlayout, hboot, _, _, hplaced⟩ := boot_places_image (s := smallStage) hread
    (by decide) rfl fun _ => smallStage_streamable
  cases hlayout
  exact ⟨s', hboot, (hplaced rfl).1⟩

end SecondStage

end CartBoot
