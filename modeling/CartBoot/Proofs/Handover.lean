import CartBoot.Boot.Launch
import CartBoot.Boot.SecondStage
import CartBoot.Proofs.Descriptor

/-!
# The stages agree

What the menu accepts, the second stage accepts. The menu leaves the descriptor in
internal RAM and then copies code and tiles there; at their usual addresses both
lie above the descriptor, whatever their sizes. So the second stage reads the
descriptor that the menu built, and it passes there the checks it passed before.
The layout is computed anew from the size and comes out the same.
-/

namespace CartBoot

open Fat

/-! ## Checks in sequence -/

section Checks

variable {ε α β : Type} {e : ε} {v : β}

theorem except_bind_eq_ok {x : Except ε α} {f : α → Except ε β} :
    (x >>= f) = .ok v ↔ ∃ a, x = .ok a ∧ f a = .ok v := by
  cases x with
  | error e => exact ⟨nofun, fun h => nomatch h⟩
  | ok a => exact ⟨fun h => ⟨a, rfl, h⟩, fun ⟨_, rfl, h⟩ => h⟩

/-- A sequence of checks goes through if the first does and the others do. -/
theorem throw_if_eq_ok {c : Prop} [Decidable c] {rest : PUnit → Except ε β} :
    (if c then (throw e : Except ε PUnit) >>= rest else rest ()) = .ok v
      ↔ ¬ c ∧ rest () = .ok v := by
  by_cases hc : c
  · rw [if_pos hc]
    exact ⟨nofun, fun h => absurd hc h.1⟩
  · rw [if_neg hc]
    exact ⟨fun h => ⟨hc, h⟩, fun h => h.2⟩

/-- The last check of a sequence. -/
theorem throw_if_last_eq_ok {c : Prop} [Decidable c] :
    (if c then (throw e : Except ε Unit) else pure ()) = .ok () ↔ ¬ c := by
  by_cases hc : c
  · rw [if_pos hc]
    exact ⟨nofun, fun h => absurd hc h⟩
  · rw [if_neg hc]
    exact ⟨fun _ => hc, fun _ => rfl⟩

end Checks

/-! ## What passing a check says -/

/-- A descriptor that passes its check. -/
structure BootDescriptor.Valid (d : BootDescriptor) : Prop where
  banks_ne : d.romBanks ≠ 0
  banks_le : d.romBanks.toNat ≤ maxRomBanks
  sram_le : d.sramMask.toNat ≤ maxSramMask
  size_ne : d.size ≠ 0
  cluster : d.cluster = residentCluster ∨ d.geometry.HasCluster d.cluster.toNat

theorem BootDescriptor.validate_eq_ok {d : BootDescriptor} : d.validate = .ok () ↔ d.Valid := by
  have hresident : d.isResident = true ↔ d.cluster = residentCluster := decide_eq_true_iff
  unfold validate
  simp only [throw_if_eq_ok, throw_if_last_eq_ok, hresident]
  constructor
  · intro h
    obtain ⟨hbanks, hsram, hsize, hcluster⟩ := h
    refine ⟨fun h => hbanks (.inl h), ?_, Nat.not_lt.mp hsram, hsize, ?_⟩
    · exact Nat.not_lt.mp fun h => hbanks (.inr h)
    · by_cases hc : d.cluster = residentCluster
      · exact .inl hc
      · exact .inr (Decidable.not_not.mp fun hvalid => hcluster ⟨hc, hvalid⟩)
  · intro h
    refine ⟨?_, Nat.not_lt.mpr h.sram_le, h.size_ne, ?_⟩
    · intro hbanks
      rcases hbanks with hzero | hlarge
      · exact h.banks_ne hzero
      · exact Nat.not_lt.mpr h.banks_le hlarge
    · intro hc
      rcases h.cluster with hres | hvalid
      · exact hc.1 hres
      · exact hc.2 hvalid

namespace Launch

theorem validate_spec {image : BootImage} {config : LaunchConfig} {v : Validated}
    (h : validate image config = .ok v) :
    v.image = image ∧ v.config = config ∧ ImageLayout.forSize image.size.toNat = .ok v.layout
      ∧ v.layout.totalBanks ≤ maxRomBanks
      ∧ ∀ m, image.metadata = some m → checkMetadata image v.layout m = .ok () := by
  unfold validate at h
  simp only [throw_if_eq_ok, except_bind_eq_ok] at h
  obtain ⟨_, _, _, layout, hlayout, hbanks, h⟩ := h
  cases hm : image.metadata with
  | none =>
      rw [hm] at h
      cases h
      exact ⟨rfl, rfl, hlayout, Nat.not_lt.mp hbanks, nofun⟩
  | some m =>
      rw [hm] at h
      obtain ⟨_, hcheck, h⟩ := except_bind_eq_ok.mp h
      cases h
      refine ⟨rfl, rfl, hlayout, Nat.not_lt.mp hbanks, fun m' hm' => ?_⟩
      cases hm'
      exact hcheck

/-- Banks that the metadata ask for cover the layout and can be exposed. -/
theorem banks_of_checkMetadata {image : BootImage} {layout : ImageLayout} {m : Metadata}
    (h : checkMetadata image layout m = .ok ()) {banks : UInt16}
    (hbanks : m.romBanks = some banks) :
    layout.totalBanks ≤ banks.toNat ∧ banks.toNat ≤ maxRomBanks := by
  unfold checkMetadata at h
  simp only [except_bind_eq_ok, throw_if_eq_ok, hbanks, throw_if_last_eq_ok] at h
  obtain ⟨_, _, _, h⟩ := h
  omega

theorem populate_spec {v : Validated} {g : Geometry} {m m' : Machine} {p : Populated}
    (h : v.populate g m = .ok p m') :
    p.descriptor = v.descriptor g (m.inb Port.powerControl).1 ∧ p.config = v.config
      ∧ p.descriptor.Valid
      ∧ m' = (m.inb Port.powerControl).2.writeRam BootDescriptor.address p.descriptor.encode := by
  unfold Validated.populate at h
  dsimp only at h
  split at h
  · rename_i hvalid
    cases h
    exact ⟨rfl, rfl, BootDescriptor.validate_eq_ok.mp hvalid, rfl⟩
  · cases h

/-- The descriptor exposes at least the banks of the layout. -/
theorem totalBanks_le {image : BootImage} {config : LaunchConfig} {v : Validated}
    (h : validate image config = .ok v) (g : Geometry) (power : UInt8) :
    v.layout.totalBanks ≤ (v.descriptor g power).romBanks.toNat := by
  obtain ⟨himage, _, _, hbanks, hmetadata⟩ := validate_spec h
  have hplain : v.layout.totalBanks.toUInt16.toNat = v.layout.totalBanks := by
    refine UInt16.toNat_ofNat_of_lt' (Nat.lt_of_le_of_lt hbanks ?_)
    decide
  unfold Validated.descriptor
  dsimp only
  split
  · exact Nat.le_of_eq hplain.symm
  · rename_i m hm
    dsimp only
    cases hr : m.romBanks with
    | none =>
        rw [Option.getD_none]
        exact Nat.le_of_eq hplain.symm
    | some banks => exact (banks_of_checkMetadata (hmetadata m (himage ▸ hm)) hr).1

theorem descriptor_fields (v : Validated) (g : Geometry) (power : UInt8) :
    (v.descriptor g power).geometry = g ∧ (v.descriptor g power).size = v.image.size := by
  unfold Validated.descriptor
  dsimp only
  split <;> exact ⟨rfl, rfl⟩

end Launch

/-! ## The descriptor in internal RAM -/

/-- The bytes at the place of the descriptor. -/
def Machine.descriptorBytes (m : Machine) : ByteArray :=
  m.iram.extract BootDescriptor.address.toNat
    (BootDescriptor.address.toNat + BootDescriptor.encodedSize)

theorem Machine.descriptorBytes_writeRam (m : Machine) (d : BootDescriptor) :
    (m.writeRam BootDescriptor.address d.encode).descriptorBytes = d.encode := by
  have hfit : BootDescriptor.address.toNat + d.encode.size ≤ m.iram.size := by
    rw [m.size_iram, d.size_encode]
    decide
  have h := ByteArray.extract_patch_self hfit
  rwa [d.size_encode] at h

/-- Writes above the descriptor leave it as it is. -/
theorem Machine.descriptorBytes_writeRam_above (m : Machine) {address : UInt16} (data : ByteArray)
    (h : BootDescriptor.address.toNat + BootDescriptor.encodedSize ≤ address.toNat) :
    (m.writeRam address data).descriptorBytes = m.descriptorBytes :=
  ByteArray.extract_patch_of_le h

/-- A descriptor that is in place and valid is read. -/
theorem SecondStage.readDescriptor_eq {m : Machine} {d : BootDescriptor}
    (h : m.descriptorBytes = d.encode) (hd : d.Valid) :
    readDescriptor m
      = .ok d (m.record (.ramRead BootDescriptor.address BootDescriptor.encodedSize)) := by
  have hread : m.readRam BootDescriptor.address BootDescriptor.encodedSize
      = (m.descriptorBytes,
          m.record (.ramRead BootDescriptor.address BootDescriptor.encodedSize)) :=
    rfl
  unfold readDescriptor
  rw [hread, h]
  dsimp only
  rw [BootDescriptor.decode_encode]
  dsimp only
  rw [BootDescriptor.validate_eq_ok.mpr hd]

/-! ## Both stages -/

/-- Copying code and tiles to their usual places leaves the descriptor alone. -/
theorem Launch.descriptorBytes_stage (d : BootDescriptor) (limit : Nat) (stub : StubImage)
    (m : Machine) :
    (Launch.Populated.stage ⟨d, { maxImageSize := limit }⟩ stub m).2.descriptorBytes
      = m.descriptorBytes := by
  unfold Launch.Populated.stage
  dsimp only
  rw [Machine.descriptorBytes_writeRam_above _ _ (by decide),
    Machine.descriptorBytes_writeRam_above _ _ (by decide)]
  rfl

/-- **The stages agree.** Whatever image the menu accepts, with code and tiles at their usual
addresses, the second stage reads the descriptor that the menu built, and computes the layout that
the menu computed; the descriptor exposes the banks of the layout and stays within what the
registers can hold. -/
theorem stages_agree {image : BootImage} {g : Geometry} {limit : Nat} {v : Launch.Validated}
    {p : Launch.Populated} {m m' : Machine} (stub : StubImage)
    (hvalidate : Launch.validate image { maxImageSize := limit } = .ok v)
    (hpopulate : v.populate g m = .ok p m') :
    (∃ m'', SecondStage.readDescriptor (p.stage stub m').2 = .ok p.descriptor m'')
      ∧ p.descriptor = v.descriptor g (m.inb Port.powerControl).1
      ∧ ImageLayout.forSize p.descriptor.size.toNat = .ok v.layout
      ∧ v.layout.totalBanks ≤ p.descriptor.romBanks.toNat
      ∧ p.descriptor.romBanks.toNat ≤ 512
      ∧ p.descriptor.sramMask.toNat ≤ 15
      ∧ (p.descriptor.cluster = 0xFFFFFFFF ∨ g.HasCluster p.descriptor.cluster.toNat) := by
  obtain ⟨himage, hconfig, hlayout, _⟩ := Launch.validate_spec hvalidate
  obtain ⟨hdescriptor, hp, hvalid, hm⟩ := Launch.populate_spec hpopulate
  obtain ⟨hgeometry, hsize⟩ := Launch.descriptor_fields v g (m.inb Port.powerControl).1
  have hbanks := Launch.totalBanks_le hvalidate g (m.inb Port.powerControl).1
  rw [← hdescriptor] at hgeometry hsize hbanks
  -- what the menu wrote is still there after it copied code and tiles
  have hstaged : (p.stage stub m').2.descriptorBytes = p.descriptor.encode := by
    rw [show p = ⟨p.descriptor, { maxImageSize := limit }⟩ by rw [← hconfig, ← hp]]
    rw [Launch.descriptorBytes_stage, hm]
    exact Machine.descriptorBytes_writeRam _ _
  refine ⟨⟨_, SecondStage.readDescriptor_eq hstaged hvalid⟩, hdescriptor, ?_, hbanks,
    hvalid.banks_le, hvalid.sram_le, ?_⟩
  · rw [hsize, himage]
    exact hlayout
  · rw [← hgeometry]
    exact hvalid.cluster

/-- An image of one bank on a volume of three clusters, as the menu validates it. -/
def smallLaunch : Launch.Validated :=
  ⟨⟨2, 0x10000, none⟩, ⟨0x10000, ⟨0, 0⟩, 1⟩, {}⟩

def smallDescriptor : BootDescriptor :=
  smallLaunch.descriptor ⟨.fat16, 0, 1, 1, 5, by decide⟩ 0

theorem smallLaunch_populate : ∃ m, smallLaunch.populate smallDescriptor.geometry
    (Machine.erased 1 0) = .ok ⟨smallDescriptor, {}⟩ m := by
  have hvalid : smallDescriptor.validate = .ok () := rfl
  have hdescriptor : smallLaunch.descriptor smallDescriptor.geometry
      ((Machine.erased 1 0).inb Port.powerControl).1 = smallDescriptor := rfl
  unfold Launch.Validated.populate
  dsimp only
  rw [hdescriptor, hvalid]
  exact ⟨_, rfl⟩

theorem smallLaunch_agrees : ∃ m m',
    SecondStage.readDescriptor
      (Launch.Populated.stage ⟨smallDescriptor, {}⟩
        { code := .replicate 100 1, tiles := .replicate 100 2 } m).2
      = .ok smallDescriptor m' := by
  obtain ⟨m, hm⟩ := smallLaunch_populate
  have hvalidate : Launch.validate smallLaunch.image { maxImageSize := 16 * 1024 * 1024 }
      = .ok smallLaunch := by
    rfl
  exact ⟨m, (stages_agree _ hvalidate hm).1⟩

end CartBoot
