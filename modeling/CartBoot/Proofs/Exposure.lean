import CartBoot.Proofs.Launching

/-!
# The banks that an image is given

The second stage writes the highest bank number into the low nine bits of the segment
mask, and from then on every bank number that the processor uses is masked with them.
After the jump the processor starts in the last bank of all, so what it finds there is
the bank that the mask leaves of that number: the highest one itself.

The image was placed by its size. Its footer ends the space, so it is where the
processor looks if the cartridge exposes the banks of the space and no others. That is
what it does unless the metadata ask for a number of their own. They are only held
against the bounds, the banks of the space from below and the width of the mask from
above: with more banks than the space has, the processor starts behind the image, and
with a number that is no multiple of them the mask takes banks of the image away.
-/

namespace CartBoot

open Fat

/-! ## The segment mask -/

/-- What was written to a pair of ports is read from it. -/
theorem or_shiftLeft_bytes (x : UInt16) :
    x.toUInt8.toUInt16 ||| ((x >>> 8).toUInt8.toUInt16 <<< 8) = x := by
  have hx := x.toNat_lt
  have hhigh : x.toNat / 256 % 256 * 256 % 65536 = x.toNat / 256 * 256 := by omega
  have hjoin := Nat.shiftLeft_add_eq_or_of_lt (i := 8) (b := x.toNat % 256) (by omega)
    (x.toNat / 256)
  refine UInt16.toNat_inj.mp ?_
  rw [UInt16.toNat_or, Nat.or_comm]
  show (((x.toNat >>> 8) % 256) <<< 8) % 65536 ||| x.toNat % 256 = _
  rw [Nat.shiftRight_eq_div_pow, Nat.shiftLeft_eq]
  rw [Nat.shiftLeft_eq] at hjoin
  show x.toNat / 256 % 256 * 256 % 65536 ||| _ = _
  rw [hhigh]
  refine hjoin.symm.trans ?_
  show x.toNat / 256 * 256 + x.toNat % 256 = _
  omega

/-- The three fields of a segment mask stand beside one another. -/
theorem toNat_segmentMask {romBanks : UInt16} {sramMask : UInt8} (hpos : 0 < romBanks.toNat)
    (hle : romBanks.toNat ≤ maxRomBanks) (hsram : sramMask.toNat ≤ maxSramMask) :
    (segmentMask romBanks sramMask).toNat
      = sramMask.toNat * 0x1000 + (0x0E00 + (romBanks.toNat - 1)) := by
  unfold maxRomBanks at hle
  unfold maxSramMask at hsram
  have hpred : (romBanks - 1).toNat = romBanks.toNat - 1 :=
    UInt16.toNat_sub_of_le romBanks 1 (UInt16.le_iff_toNat_le.mpr hpos)
  have hrom : ((romBanks - 1) &&& 0x1FF).toNat = romBanks.toNat - 1 := by
    rw [UInt16.toNat_and, hpred]
    refine (Nat.and_two_pow_sub_one_eq_mod _ 9).trans (Nat.mod_eq_of_lt ?_)
    omega
  have hmask : ((sramMask.toUInt16 &&& 0x0F) <<< 12).toNat = sramMask.toNat <<< 12 := by
    have hand : (sramMask.toUInt16 &&& 0x0F).toNat = sramMask.toNat := by
      rw [UInt16.toNat_and, UInt8.toNat_toUInt16]
      refine (Nat.and_two_pow_sub_one_eq_mod _ 4).trans (Nat.mod_eq_of_lt ?_)
      omega
    rw [UInt16.toNat_shiftLeft, hand]
    refine Nat.mod_eq_of_lt ?_
    show sramMask.toNat <<< 12 < 65536
    rw [Nat.shiftLeft_eq]
    omega
  have hlow := Nat.shiftLeft_add_eq_or_of_lt (i := 9) (b := romBanks.toNat - 1) (by omega) 7
  have hjoin := Nat.shiftLeft_add_eq_or_of_lt (i := 12) (b := 7 <<< 9 + (romBanks.toNat - 1))
    (by rw [Nat.shiftLeft_eq]; omega) sramMask.toNat
  unfold segmentMask
  dsimp only
  rw [UInt16.toNat_or, UInt16.toNat_or, hrom, hmask]
  show 7 <<< 9 ||| (romBanks.toNat - 1) ||| sramMask.toNat <<< 12 = _
  rw [← hlow, Nat.or_comm, ← hjoin, Nat.shiftLeft_eq]
  rfl

theorem BootDescriptor.Valid.banks_pos {d : BootDescriptor} (hd : d.Valid) : 0 < d.romBanks.toNat :=
  Nat.pos_of_ne_zero fun hzero => hd.banks_ne (UInt16.toNat_inj.mp hzero)

/-- The mask that the cartridge applies to program banks: the low nine bits of the register. -/
def Machine.romMask (m : Machine) : Nat :=
  (m.inw Port.segmentMask).1.toNat % 0x200

namespace SecondStage

/-- What comes after the segment mask is written leaves it alone. -/
theorem romMask_configure (d : BootDescriptor) (m : Machine) :
    (configure d m).romMask = (segmentMask d.romBanks d.sramMask).toNat % 0x200 := by
  have hpair : ((configure d m).inw Port.segmentMask).1
      = (segmentMask d.romBanks d.sramMask).toUInt8.toUInt16
        ||| ((segmentMask d.romBanks d.sramMask >>> 8).toUInt8.toUInt16 <<< 8) := rfl
  unfold Machine.romMask
  rw [hpair, or_shiftLeft_bytes]

/-- A cartridge that was set up exposes as many banks as the descriptor says. -/
theorem romMask_of_valid {d : BootDescriptor} (hd : d.Valid) (m : Machine) :
    (configure d m).romMask + 1 = d.romBanks.toNat := by
  have hpos := hd.banks_pos
  have hle := hd.banks_le
  rw [romMask_configure, toNat_segmentMask hpos hle hd.sram_le]
  unfold maxRomBanks at hle
  omega

/-- The second stage jumps with the cartridge set up from the descriptor that it found. -/
theorem configured_of_boot {π : Type} [Progress π] {s s' : SecondStage π} {target : FarPtr}
    {d : BootDescriptor} {layout : ImageLayout} (hbytes : s.machine.descriptorBytes = d.encode)
    (hd : d.Valid) (hlayout : ImageLayout.forSize d.size.toNat = .ok layout)
    (hboot : boot s = .ok target s') : ∃ m, s'.machine = configure d m := by
  have hends : ∀ t : SecondStage π,
      Ends (bootFrom d layout t) (fun _ s' => ∃ m, s'.machine = configure d m)
        (fun _ _ => True) := by
    intro t
    unfold bootFrom
    rw [ends_bind]
    refine (Ends.any _).mono ?_ fun _ _ h => h
    intro _ t _
    split
    · rw [ends_bind]
      refine (Ends.any _).mono ?_ fun _ _ h => h
      intro _ t _
      exact ⟨t.machine, rfl⟩
    · exact ⟨t.machine, rfl⟩
  rw [boot_eq (readDescriptor_eq hbytes hd) hlayout] at hboot
  exact (hends _).of_ok hboot

end SecondStage

/-! ## Numbers that a mask leaves alone -/

/-- A mask leaves the numbers below a power of two alone if it ends in ones up to there. -/
theorem and_mask_iff {n mask : Nat} (hn : n.isPowerOfTwo) :
    (∀ b, b < n → b &&& mask = b) ↔ n ∣ mask + 1 := by
  have hpos : 0 < n := Nat.pos_of_isPowerOfTwo hn
  have hlow : ∀ x, x &&& (n - 1) = x % n := by
    obtain ⟨k, rfl⟩ := hn
    exact fun x => Nat.and_two_pow_sub_one_eq_mod x k
  have hdivmod := Nat.div_add_mod mask n
  constructor
  · intro h
    have hlast := h (n - 1) (by omega)
    rw [Nat.and_comm, hlow] at hlast
    refine ⟨mask / n + 1, ?_⟩
    rw [Nat.mul_succ]
    omega
  · intro h b hb
    have hones : mask % n = n - 1 := by
      obtain ⟨q, hq⟩ := h
      have hq' : mask = (n - 1) + n * (q - 1) := by
        cases q with
        | zero => omega
        | succ q =>
            rw [Nat.mul_succ] at hq
            rw [Nat.add_sub_cancel]
            omega
      rw [hq', Nat.add_mul_mod_self_left]
      exact Nat.mod_eq_of_lt (by omega)
    calc b &&& mask = (b &&& (n - 1)) &&& mask := by rw [hlow, Nat.mod_eq_of_lt hb]
      _ = b &&& (mask &&& (n - 1)) := by rw [Nat.and_assoc, Nat.and_comm mask]
      _ = b &&& (n - 1) := by rw [hlow mask, hones]
      _ = b := by rw [hlow, Nat.mod_eq_of_lt hb]

namespace ImageLayout

theorem isPowerOfTwo_totalBanks {size : Nat} {l : ImageLayout} (h : forSize size = .ok l) :
    l.totalBanks.isPowerOfTwo := by
  obtain ⟨_, _, rfl⟩ := forSize_eq_ok.mp h
  show (spaceFor size / bankSize).isPowerOfTwo
  unfold spaceFor
  split
  · exact ⟨0, rfl⟩
  · rename_i hlarge
    have hlow : 16 ≤ (size - 1).log2 := by
      unfold bankSize at hlarge
      refine (Nat.le_log2 (by omega)).mpr ?_
      omega
    refine ⟨(size - 1).log2 + 1 - 16, ?_⟩
    rw [Nat.shiftLeft_eq, Nat.one_mul]
    exact Nat.pow_div (show 16 ≤ (size - 1).log2 + 1 by omega) (by decide)

/-- The footer of an image lies in the last sixteen bytes of the last bank of its space. -/
theorem footer_spec {size : Nat} {l : ImageLayout} (h : forSize size = .ok l)
    (hsize : Footer.size ≤ size) {i : Nat} (hi : i < Footer.size) :
    (l.start.linear + (size - Footer.size + i)) / bankSize = l.lastBank
      ∧ (l.start.linear + (size - Footer.size + i)) % bankSize = bankSize - Footer.size + i := by
  have hbanks := totalBanks_pos h
  obtain ⟨_, hle, rfl⟩ := forSize_eq_ok.mp h
  obtain ⟨hend, _⟩ := placed_spec hle
  generalize placed size = l at hend hbanks ⊢
  have hspace : l.spaceSize = l.lastBank * bankSize + bankSize := by
    rw [← Nat.succ_mul]
    unfold spaceSize lastBank
    rw [Nat.succ_eq_add_one, Nat.sub_add_cancel hbanks]
  have hplace : l.start.linear + (size - Footer.size + i)
      = bankSize - Footer.size + i + l.lastBank * bankSize := by
    unfold Footer.size bankSize at *
    omega
  have hlt : bankSize - Footer.size + i < bankSize := by
    unfold Footer.size bankSize at *
    omega
  rw [hplace, Nat.add_mul_div_right _ _ (by decide), Nat.add_mul_mod_self_right,
    Nat.div_eq_of_lt hlt, Nat.mod_eq_of_lt hlt, Nat.zero_add]
  exact ⟨rfl, rfl⟩

/-- A mask of program banks under which the processor finds the footer where it starts, and every
bank of the space under its own number. -/
structure ExposedBy (l : ImageLayout) (mask : Nat) : Prop where
  last : mask = l.lastBank
  reachable (b : Nat) : b ≤ l.lastBank → b &&& mask = b

variable {l : ImageLayout} {mask : Nat}

theorem reachable_iff (hl : l.totalBanks.isPowerOfTwo) :
    (∀ b, b ≤ l.lastBank → b &&& mask = b) ↔ l.totalBanks ∣ mask + 1 := by
  have hpos := Nat.pos_of_isPowerOfTwo hl
  have hlast : ∀ b, b ≤ l.lastBank ↔ b < l.totalBanks := by
    intro b
    unfold lastBank
    omega
  simp only [hlast]
  exact and_mask_iff hl

/-- Only the mask that belongs to the banks of the space is one. -/
theorem exposedBy_iff (hl : l.totalBanks.isPowerOfTwo) :
    l.ExposedBy mask ↔ mask + 1 = l.totalBanks := by
  have hpos := Nat.pos_of_isPowerOfTwo hl
  constructor
  · intro h
    have hlast := h.last
    unfold lastBank at hlast
    omega
  · intro h
    refine ⟨?_, (reachable_iff hl).mpr ?_⟩
    · unfold lastBank
      omega
    · exact h ▸ Nat.dvd_refl _

end ImageLayout

/-! ## What a launch exposes -/

/-- The metadata of an image ask for no number of banks but that of its space. -/
def BootImage.AsksForItsSpace (image : BootImage) : Prop :=
  ∀ m banks, image.metadata = some m → m.romBanks = some banks → banks.toNat = image.spaceBanks

namespace Launch

variable {image : BootImage} {config : LaunchConfig} {v : Validated}

theorem totalBanks_eq_spaceBanks (h : validate image config = .ok v) :
    v.layout.totalBanks = image.spaceBanks := by
  obtain ⟨_, _, hlayout, _⟩ := validate_spec h
  obtain ⟨_, _, hplaced⟩ := ImageLayout.forSize_eq_ok.mp hlayout
  rw [hplaced]
  rfl

/-- The banks in the descriptor are those of the space unless the metadata ask for others. -/
theorem romBanks_eq_iff (h : validate image config = .ok v) (g : Geometry) (power : UInt8) :
    (v.descriptor g power).romBanks.toNat = v.layout.totalBanks ↔ image.AsksForItsSpace := by
  have hspace := totalBanks_eq_spaceBanks h
  obtain ⟨himage, _, _, hbanks, _⟩ := validate_spec h
  have hplain : v.layout.totalBanks.toUInt16.toNat = v.layout.totalBanks := by
    refine UInt16.toNat_ofNat_of_lt' (Nat.lt_of_le_of_lt hbanks ?_)
    decide
  unfold Validated.descriptor BootImage.AsksForItsSpace
  rw [himage, ← hspace]
  dsimp only
  cases image.metadata with
  | none => exact ⟨fun _ => nofun, fun _ => hplain⟩
  | some m =>
      dsimp only
      cases hr : m.romBanks with
      | none =>
          refine ⟨fun _ m' banks hm' hbanks => ?_, fun _ => hplain⟩
          cases hm'
          exact nomatch hr.symm.trans hbanks
      | some banks =>
          constructor
          · intro heq m' banks' hm' hbanks'
            cases hm'
            cases hr.symm.trans hbanks'
            exact heq
          · intro hall
            exact hall m banks rfl hr

theorem footer_le_size (h : validate image config = .ok v) : Footer.size ≤ image.size.toNat := by
  have hnone := (raises_validate image config).not_holds h
  exact Nat.not_lt.mp (hnone ⟨image.size.toNat < Footer.size, .formatInvalid⟩ (by
    unfold BootImage.objections
    exact List.mem_append_left _ List.mem_cons_self))

end Launch

/-- **The footer is where the processor looks exactly if the metadata ask for no other number of
banks than the space of the image has.** The image ends its space, so its footer is in the last
bank of it. A second stage that jumps has exposed the banks of the descriptor, and those are the
banks of the space or more. With the banks of the space, the footer is in the last bank exposed and
every bank of the space answers to its number. With more, the processor looks elsewhere, and all
banks answer to their numbers only if the number asked for is a multiple. -/
theorem exposed_iff {image : BootImage} {config : LaunchConfig} {g : Geometry}
    {v : Launch.Validated} {p : Launch.Populated} {m m' : Machine}
    (hvalidate : Launch.validate image config = .ok v) (hpopulate : v.populate g m = .ok p m') :
    (∀ i, i < Footer.size →
        (v.layout.start.linear + (image.size.toNat - Footer.size + i)) / bankSize
            = v.layout.lastBank
          ∧ (v.layout.start.linear + (image.size.toNat - Footer.size + i)) % bankSize
            = bankSize - Footer.size + i)
      ∧ v.layout.totalBanks ≤ p.descriptor.romBanks.toNat
      ∧ ∀ (π : Type) [Progress π] (s s' : SecondStage π) (target : FarPtr),
        s.machine.descriptorBytes = p.descriptor.encode → SecondStage.boot s = .ok target s' →
        s'.machine.romMask + 1 = p.descriptor.romBanks.toNat
          ∧ (v.layout.ExposedBy s'.machine.romMask ↔ image.AsksForItsSpace)
          ∧ ((∀ b, b ≤ v.layout.lastBank → b &&& s'.machine.romMask = b) ↔
            v.layout.totalBanks ∣ p.descriptor.romBanks.toNat) := by
  obtain ⟨himage, _, hlayout, _⟩ := Launch.validate_spec hvalidate
  obtain ⟨hdescriptor, _, hvalid, _⟩ := Launch.populate_spec hpopulate
  have hpower := ImageLayout.isPowerOfTwo_totalBanks hlayout
  have hiff := Launch.romBanks_eq_iff hvalidate g (m.inb Port.powerControl).1
  have hleast := Launch.totalBanks_le hvalidate g (m.inb Port.powerControl).1
  obtain ⟨_, hsize⟩ := Launch.descriptor_fields v g (m.inb Port.powerControl).1
  rw [← hdescriptor] at hiff hleast hsize
  refine ⟨?_, hleast, ?_⟩
  · intro i hi
    exact ImageLayout.footer_spec hlayout (Launch.footer_le_size hvalidate) hi
  · intro π _ s s' target hbytes hboot
    rw [← himage, ← hsize] at hlayout
    obtain ⟨n, hn⟩ := SecondStage.configured_of_boot hbytes hvalid hlayout hboot
    have hmask := SecondStage.romMask_of_valid hvalid n
    rw [← hn] at hmask
    refine ⟨hmask, ?_, ?_⟩
    · rw [ImageLayout.exposedBy_iff hpower, hmask]
      exact hiff
    · rw [ImageLayout.reachable_iff hpower, hmask]

/-! ## An image of two banks -/

theorem wideGeometry_consistent : Geometry.Consistent 0 1 128 4 := by
  decide

/-- Two clusters of a bank each, after one sector of table. -/
def wideGeometry : Geometry := ⟨.fat16, 0, 1, 128, 4, wideGeometry_consistent⟩

/-- The first of them is linked to the second. -/
def wideDisk : Disk where
  sectorCount := 257
  blank a := if a = 4 then 3 else 0

/-- An image that fills both, with metadata that ask for that many banks. -/
def wideImage (banks : Option UInt16) : BootImage where
  cluster := 2
  size := 0x20000
  metadata := some {
    footer := .decode [0xEA, 0, 0, 0, 0x40, 0, 0, 0, 0, 0, 1, 0, 4, 0, 0, 0].toByteArray 0
    id := 2
    size := 0x20000
    sramSize := 0
    eepromSize := 0
    flashSize := 0
    romBanks := banks }

def wideLaunch (banks : Option UInt16) : Launch.Validated :=
  ⟨wideImage banks, .placed 0x20000, {}⟩

def wideDescriptor (banks : Option UInt16) : BootDescriptor :=
  (wideLaunch banks).descriptor wideGeometry 0

theorem path_wideDisk : wideGeometry.Path wideDisk.byte [2, 3] := by
  refine ⟨by decide, ?_, fun _ _ _ _ _ => nofun⟩
  intro k c d hc hd
  match k with
  | 0 =>
      cases hc
      cases hd
      decide
  | 1 => cases hd
  | k + 2 => cases hd

theorem isChain_wideDisk : wideGeometry.IsChain wideDisk.byte [2, 3] := by
  refine ⟨path_wideDisk, by decide, by decide, ?_, fun _ _ => nofun⟩
  intro c hc
  cases hc
  decide

theorem wideGeometry_apart : wideGeometry.TableApart := by
  show wideGeometry.tableEnd ≤ wideGeometry.dataBase
  decide

theorem wideDescriptor_fields (banks : Option UInt16) :
    (wideDescriptor banks).geometry = wideGeometry ∧ (wideDescriptor banks).cluster = 2
      ∧ (wideDescriptor banks).size.toNat = 0x20000 ∧ (wideDescriptor banks).patches = .none
      ∧ (wideDescriptor banks).start = coldBootVector :=
  ⟨rfl, rfl, rfl, rfl, rfl⟩

theorem streamable_wideDisk (banks : Option UInt16) {m : Machine} (hm : m.psram = .erased 2) :
    SecondStage.Streamable ⟨m, wideDisk, Silent.mk⟩ (wideDescriptor banks) [2, 3] := by
  obtain ⟨hgeometry, hcluster, hsize, _⟩ := wideDescriptor_fields banks
  refine ⟨⟨fun _ _ => rfl, fun _ _ => rfl⟩, ?_, ?_, ?_, ?_, ?_, ?_⟩
  · rw [hgeometry]
    exact path_wideDisk
  · rw [hcluster]
    rfl
  · intro c hc
    rw [hgeometry]
    exact onDevice_of_fits wideGeometry_apart
      (show wideGeometry.dataEnd ≤ 257 by decide) (path_wideDisk.has c hc)
  · rw [hsize, hgeometry]
    decide
  · rw [hsize, hm, BankedMemory.bankCount_erased]
    decide
  · exact Copier.undisturbed_of_proceeds (fun _ _ _ => show Signal.proceed ≠ .cancel by decide) _ _

/-- Whatever number of banks goes through the checks, the image comes to the jump. -/
theorem exists_wide_boot (banks : Option UInt16) (hvalid : (wideDescriptor banks).Valid) :
    ∃ m s', (wideLaunch banks).populate wideGeometry (Machine.erased 2 0)
        = .ok ⟨wideDescriptor banks, {}⟩ m
      ∧ m.descriptorBytes = (wideDescriptor banks).encode
      ∧ SecondStage.boot ⟨m, wideDisk, Silent.mk⟩ = .ok coldBootVector s' := by
  obtain ⟨_, hcluster, hsize, hpatches, hstart⟩ := wideDescriptor_fields banks
  have hdescriptor : (wideLaunch banks).descriptor wideGeometry
      ((Machine.erased 2 0).inb Port.powerControl).1 = wideDescriptor banks := rfl
  have hresident : (wideDescriptor banks).isResident = false := by
    unfold BootDescriptor.isResident
    rw [hcluster]
    rfl
  have hpatch : (wideDescriptor banks).patches.contains .softReset = false := by
    rw [hpatches]
    rfl
  let m := ((Machine.erased 2 0).inb Port.powerControl).2.writeRam BootDescriptor.address
    (wideDescriptor banks).encode
  have hpopulate : (wideLaunch banks).populate wideGeometry (Machine.erased 2 0)
      = .ok ⟨wideDescriptor banks, {}⟩ m := by
    unfold Launch.Validated.populate
    dsimp only
    rw [hdescriptor, BootDescriptor.validate_eq_ok.mpr hvalid]
    rfl
  have hbytes : m.descriptorBytes = (wideDescriptor banks).encode :=
    Machine.descriptorBytes_writeRam _ _
  have hpsram : m.psram = .erased 2 :=
    (Machine.sameCartridge_writeRam _ _ _).psram.trans (Machine.sameCart_inb _ _).psram
  obtain ⟨s', hboot, _⟩ := SecondStage.boot_of_streamable
    (s := ⟨m, wideDisk, Silent.mk⟩) (SecondStage.readDescriptor_eq hbytes hvalid)
    (by rw [hsize]; decide) hpatch hresident (streamable_wideDisk banks hpsram)
  rw [hstart] at hboot
  exact ⟨m, s', hpopulate, hbytes, hboot⟩

theorem wide_exposed : ∃ m s', Launch.validate (wideImage none) {} = .ok (wideLaunch none)
    ∧ (wideLaunch none).populate wideGeometry (Machine.erased 2 0) = .ok ⟨wideDescriptor none, {}⟩ m
    ∧ SecondStage.boot ⟨m, wideDisk, Silent.mk⟩ = .ok coldBootVector s'
    ∧ (wideLaunch none).layout.ExposedBy s'.machine.romMask := by
  have hvalidate : Launch.validate (wideImage none) {} = .ok (wideLaunch none) := rfl
  have hvalid : (wideDescriptor none).validate = .ok () := rfl
  obtain ⟨m, s', hpopulate, hbytes, hboot⟩ :=
    exists_wide_boot none (BootDescriptor.validate_eq_ok.mp hvalid)
  obtain ⟨_, _, hall⟩ := exposed_iff hvalidate hpopulate
  obtain ⟨_, hexposed, _⟩ := hall Silent ⟨m, wideDisk, Silent.mk⟩ s' _ hbytes hboot
  refine ⟨m, s', hvalidate, hpopulate, hboot, hexposed.mpr fun m banks hm hbanks => ?_⟩
  cases hm
  cases hbanks

/-- Three banks go through the checks as well. The processor then starts in bank 2, where there is
nothing, and the bank of the footer is hidden behind bank 0. -/
theorem wide_hidden : ∃ m s', Launch.validate (wideImage (some 3)) {} = .ok (wideLaunch (some 3))
    ∧ (wideLaunch (some 3)).populate wideGeometry (Machine.erased 2 0)
      = .ok ⟨wideDescriptor (some 3), {}⟩ m
    ∧ SecondStage.boot ⟨m, wideDisk, Silent.mk⟩ = .ok coldBootVector s'
    ∧ s'.machine.romMask = 2 ∧ (wideLaunch (some 3)).layout.lastBank = 1
    ∧ 1 &&& s'.machine.romMask = 0 := by
  have hvalidate : Launch.validate (wideImage (some 3)) {} = .ok (wideLaunch (some 3)) := rfl
  have hvalid : (wideDescriptor (some 3)).Valid := BootDescriptor.validate_eq_ok.mp rfl
  obtain ⟨m, s', hpopulate, hbytes, hboot⟩ := exists_wide_boot (some 3) hvalid
  obtain ⟨_, _, hsize, _⟩ := wideDescriptor_fields (some 3)
  have hlayout := @ImageLayout.forSize_eq 0x20000 (by decide) (by decide)
  rw [← hsize] at hlayout
  obtain ⟨n, hn⟩ := SecondStage.configured_of_boot (s := ⟨m, wideDisk, Silent.mk⟩) hbytes hvalid
    hlayout hboot
  have hmask : s'.machine.romMask = 2 := by
    have h := SecondStage.romMask_of_valid hvalid n
    rw [← hn] at h
    exact Nat.succ.inj h
  refine ⟨m, s', hvalidate, hpopulate, hboot, hmask, rfl, ?_⟩
  rw [hmask]
  rfl

end CartBoot
