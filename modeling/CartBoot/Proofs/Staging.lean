import CartBoot.Proofs.Launching

/-!
# Three things in internal RAM

A launch writes three stretches of internal RAM, one after the other and without
looking: the descriptor at its fixed place, then the tiles, then the code of the
second stage. All three are there in the end if no two of them meet. The addresses of
tiles and code are given from outside, so that is for the check to see to.

What the check sees to is that code and tiles end within internal RAM, and that code
which begins below the tiles ends there too. At the usual addresses this is enough.
In general it is not: tiles that begin below the code may run into it, and nothing
is compared with the place of the descriptor. What is written last stays, so of two
stretches that meet the later one is whole.
-/

namespace CartBoot

open Fat

/-! ## Stretches of internal RAM -/

/-- Some addresses in a row. -/
structure Stretch where
  start : Nat
  size : Nat
  deriving DecidableEq, Repr

namespace Stretch

def Has (r : Stretch) (a : Nat) : Prop :=
  r.start ≤ a ∧ a < r.start + r.size

/-- The stretches have no address in common. -/
def Apart (r r' : Stretch) : Prop :=
  ∀ a, ¬ (r.Has a ∧ r'.Has a)

variable {r r' : Stretch}

instance (r : Stretch) (a : Nat) : Decidable (r.Has a) :=
  inferInstanceAs (Decidable (_ ∧ _))

theorem Apart.symm (h : r.Apart r') : r'.Apart r :=
  fun a ha => h a ⟨ha.2, ha.1⟩

theorem apart_iff :
    r.Apart r' ↔ r.size = 0 ∨ r'.size = 0 ∨ r.start + r.size ≤ r'.start
      ∨ r'.start + r'.size ≤ r.start := by
  unfold Apart Has
  constructor
  · intro h
    -- the later of the two beginnings would be in both
    have hmax := h (max r.start r'.start)
    omega
  · intro h a
    omega

instance (r r' : Stretch) : Decidable (r.Apart r') :=
  decidable_of_iff _ apart_iff.symm

end Stretch

namespace Machine

/-- The byte string lies at that place of internal RAM. -/
def HoldsAt (m : Machine) (start : Nat) (data : ByteArray) : Prop :=
  m.iram.extract start (start + data.size) = data

variable {m : Machine} {start : Nat} {address : UInt16} {data src : ByteArray}

/-- A write puts its bytes in their stretch and leaves the others. -/
theorem byteAt_writeRam {a : Nat} (ha : a < iramSize) :
    (m.writeRam address src).iram.byteAt a =
      if Stretch.Has ⟨address.toNat, src.size⟩ a then src.byteAt (a - address.toNat)
      else m.iram.byteAt a :=
  ByteArray.byteAt_patch _ _ _ _ (m.size_iram.symm ▸ ha)

theorem holdsAt_writeRam (h : address.toNat + data.size ≤ iramSize) :
    (m.writeRam address data).HoldsAt address.toNat data :=
  ByteArray.extract_patch_self (m.size_iram.symm ▸ h)

theorem HoldsAt.byteAt (h : m.HoldsAt start data) {i : Nat} (hi : i < data.size) :
    m.iram.byteAt (start + i) = data.byteAt i :=
  ByteArray.byteAt_of_extract h hi

/-- What is written elsewhere leaves it there. -/
theorem HoldsAt.writeRam (h : m.HoldsAt start data)
    (hapart : Stretch.Apart ⟨start, data.size⟩ ⟨address.toNat, src.size⟩) :
    (m.writeRam address src).HoldsAt start data := by
  have hsame : (m.iram.patch address.toNat src).extract start (start + data.size)
      = m.iram.extract start (start + data.size) := by
    refine ByteArray.ext_byteAt (by simp only [ByteArray.size_extract, ByteArray.size_patch]) ?_
    intro i hi
    rw [ByteArray.size_extract, ByteArray.size_patch] at hi
    have hnot : ¬ (address.toNat ≤ start + i ∧ start + i < address.toNat + src.size) :=
      fun hin => hapart (start + i) ⟨⟨Nat.le_add_right _ _, by dsimp only; omega⟩, hin⟩
    rw [ByteArray.byteAt_extract, ByteArray.byteAt_extract, ByteArray.size_patch, if_pos hi,
      if_pos hi, ByteArray.byteAt_patch_of_not_mem (by omega)]
  exact hsame.trans h

end Machine

/-! ## Code, tiles and descriptor -/

/-- The place of the descriptor. -/
def BootDescriptor.stretch : Stretch :=
  ⟨address.toNat, encodedSize⟩

namespace StubImage

def codeStretch (stub : StubImage) (config : LaunchConfig) : Stretch :=
  ⟨config.stubAddress.toNat, stub.code.size⟩

def tilesStretch (stub : StubImage) (config : LaunchConfig) : Stretch :=
  ⟨config.tilesAddress.toNat, stub.tiles.size⟩

/-- No two of the three stretches meet. -/
structure Separate (stub : StubImage) (config : LaunchConfig) : Prop where
  code_tiles : (stub.codeStretch config).Apart (stub.tilesStretch config)
  code_descriptor : (stub.codeStretch config).Apart BootDescriptor.stretch
  tiles_descriptor : (stub.tilesStretch config).Apart BootDescriptor.stretch

variable {stub : StubImage} {config : LaunchConfig}

theorem fits_of_check (h : stub.check config = .ok ()) : stub.Fits config :=
  Classical.not_not.mp ((stub.raises_check config).not_holds h _ List.mem_cons_self)

/-- The one way for code and tiles to meet that the check lets pass. -/
theorem Fits.not_apart_iff (h : stub.Fits config) :
    ¬ (stub.codeStretch config).Apart (stub.tilesStretch config) ↔
      stub.code.size ≠ 0 ∧ config.tilesAddress.toNat < config.stubAddress.toNat
        ∧ config.stubAddress.toNat < config.tilesAddress.toNat + stub.tiles.size := by
  obtain ⟨hbelow, _, _⟩ := h
  rw [Stretch.apart_iff]
  unfold codeStretch tilesStretch
  dsimp only
  omega

/-- Code and tiles above the descriptor, the code first, are separate if they pass the check. -/
theorem Fits.separate (h : stub.Fits config)
    (hcode : BootDescriptor.address.toNat + BootDescriptor.encodedSize ≤ config.stubAddress.toNat)
    (htiles : config.stubAddress ≤ config.tilesAddress) : stub.Separate config := by
  have horder := UInt16.le_iff_toNat_le.mp htiles
  have hbehind : ∀ r : Stretch, config.stubAddress.toNat ≤ r.start →
      r.Apart BootDescriptor.stretch :=
    fun _ hr => Stretch.apart_iff.mpr (.inr (.inr (.inr (Nat.le_trans hcode hr))))
  refine ⟨Decidable.not_not.mp fun hmeet => ?_, hbehind _ (Nat.le_refl _), hbehind _ horder⟩
  have hbelow := (h.not_apart_iff.mp hmeet).2.1
  omega

end StubImage

/-! ## What a launch leaves in internal RAM -/

namespace Launch

variable {d : BootDescriptor} {config : LaunchConfig} {stub : StubImage} {m m' : Machine}

/-- The three writes of a launch and nothing else have changed internal RAM. -/
theorem Launched.iram_eq (h : Launched d config stub m m') :
    m'.iram = (((m.writeRam BootDescriptor.address d.encode).writeRam config.tilesAddress
      stub.tiles).writeRam config.stubAddress stub.code).iram :=
  h.iram

/-- Where stretches meet, the code lies over the tiles and both over the descriptor. -/
theorem Launched.byteAt_iram (h : Launched d config stub m m') {a : Nat} (ha : a < iramSize) :
    m'.iram.byteAt a =
      if (stub.codeStretch config).Has a then stub.code.byteAt (a - config.stubAddress.toNat)
      else if (stub.tilesStretch config).Has a then
        stub.tiles.byteAt (a - config.tilesAddress.toNat)
      else if BootDescriptor.stretch.Has a then
        d.encode.byteAt (a - BootDescriptor.address.toNat)
      else m.iram.byteAt a := by
  rw [h.iram_eq, Machine.byteAt_writeRam ha, Machine.byteAt_writeRam ha, Machine.byteAt_writeRam ha,
    d.size_encode]
  rfl

theorem Launched.holdsAt (h : Launched d config stub m m') (hfits : stub.Fits config) :
    m'.HoldsAt config.stubAddress.toNat stub.code
      ∧ ((stub.codeStretch config).Apart (stub.tilesStretch config) →
        m'.HoldsAt config.tilesAddress.toNat stub.tiles)
      ∧ (stub.Separate config → m'.HoldsAt BootDescriptor.address.toNat d.encode) := by
  obtain ⟨_, hcode, htiles⟩ := hfits
  have hencode : (⟨BootDescriptor.address.toNat, d.encode.size⟩ : Stretch)
      = BootDescriptor.stretch := by
    rw [d.size_encode]
    rfl
  unfold Machine.HoldsAt
  rw [h.iram_eq]
  refine ⟨Machine.holdsAt_writeRam hcode, fun hapart => ?_, fun hseparate => ?_⟩
  · exact (Machine.holdsAt_writeRam htiles).writeRam hapart.symm
  · have hdescriptor : (m.writeRam BootDescriptor.address d.encode).HoldsAt
        BootDescriptor.address.toNat d.encode := by
      refine Machine.holdsAt_writeRam ?_
      rw [d.size_encode]
      decide
    refine (hdescriptor.writeRam ?_).writeRam ?_
    · rw [hencode]
      exact hseparate.tiles_descriptor.symm
    · rw [hencode]
      exact hseparate.code_descriptor.symm

end Launch

/-- **What the check of the second stage is worth.** Code and tiles that pass it lie within internal
RAM, and they and the descriptor are separate unless tiles from below run into the code or one of
the two meets the descriptor; at addresses above the descriptor, the code first, they are. A launch
leaves the code whole, the tiles if the code does not meet them, and all three if they are
separate; every other byte of internal RAM is as it was. -/
theorem separate_iff_of_check {stub : StubImage} {config : LaunchConfig}
    (h : stub.check config = .ok ()) :
    (∀ a, (stub.codeStretch config).Has a ∨ (stub.tilesStretch config).Has a → a < iramSize)
      ∧ (stub.Separate config ↔
        ¬ (stub.code.size ≠ 0 ∧ config.tilesAddress.toNat < config.stubAddress.toNat
            ∧ config.stubAddress.toNat < config.tilesAddress.toNat + stub.tiles.size)
          ∧ (stub.codeStretch config).Apart BootDescriptor.stretch
          ∧ (stub.tilesStretch config).Apart BootDescriptor.stretch)
      ∧ (0x60 + 35 ≤ config.stubAddress.toNat → config.stubAddress ≤ config.tilesAddress →
        stub.Separate config)
      ∧ ∀ (image : BootImage) (g : Geometry) (m m' : Machine) (target : FarPtr),
        launch image g config stub m = .ok target m' →
        ∃ v, Launch.validate image config = .ok v
          ∧ (∀ a, a < iramSize → m'.iram.byteAt a =
            if (stub.codeStretch config).Has a then stub.code.byteAt (a - config.stubAddress.toNat)
            else if (stub.tilesStretch config).Has a then
              stub.tiles.byteAt (a - config.tilesAddress.toNat)
            else if BootDescriptor.stretch.Has a then
              (v.descriptor g (Launch.powerOf m)).encode.byteAt (a - 0x60)
            else m.iram.byteAt a)
          ∧ m'.HoldsAt config.stubAddress.toNat stub.code
          ∧ ((stub.codeStretch config).Apart (stub.tilesStretch config) →
            m'.HoldsAt config.tilesAddress.toNat stub.tiles)
          ∧ (stub.Separate config →
            m'.HoldsAt 0x60 (v.descriptor g (Launch.powerOf m)).encode) := by
  have hfits := StubImage.fits_of_check h
  refine ⟨?_, ?_, hfits.separate, ?_⟩
  · obtain ⟨_, hcode, htiles⟩ := hfits
    intro a ha
    unfold StubImage.codeStretch StubImage.tilesStretch Stretch.Has at ha
    dsimp only at ha
    omega
  · rw [← hfits.not_apart_iff, Decidable.not_not]
    exact ⟨fun hs => ⟨hs.code_tiles, hs.code_descriptor, hs.tiles_descriptor⟩,
      fun ⟨hct, hcd, htd⟩ => ⟨hct, hcd, htd⟩⟩
  · intro image g m m' target hlaunch
    obtain ⟨_, v, _, hvalidate, _, hlaunched⟩ :=
      (Launch.ends_launch image g config stub m).of_ok hlaunch
    exact ⟨v, hvalidate, fun a ha => hlaunched.byteAt_iram ha, hlaunched.holdsAt hfits⟩

/-- A small image goes through with any second stage that passes the check. -/
theorem exists_small_launch (code tiles : UInt16) (stub : StubImage)
    (h : stub.check { stubAddress := code, tilesAddress := tiles } = .ok ()) :
    ∃ m', launch smallLaunch.image smallDescriptor.geometry
        { stubAddress := code, tilesAddress := tiles } stub (Machine.erased 1 0)
        = .ok ⟨0, code⟩ m'
      ∧ Launch.Launched smallDescriptor { stubAddress := code, tilesAddress := tiles } stub
        (Machine.erased 1 0) m' := by
  have hvalid : smallDescriptor.validate = .ok () := rfl
  have hvalidate : Launch.validate smallLaunch.image { stubAddress := code, tilesAddress := tiles }
      = .ok ⟨smallLaunch.image, smallLaunch.layout,
          { stubAddress := code, tilesAddress := tiles }⟩ :=
    rfl
  have hends := Launch.ends_launch smallLaunch.image smallDescriptor.geometry
    { stubAddress := code, tilesAddress := tiles } stub (Machine.erased 1 0)
  cases hr : launch smallLaunch.image smallDescriptor.geometry
      { stubAddress := code, tilesAddress := tiles } stub (Machine.erased 1 0) with
  | ok target m' =>
      obtain ⟨rfl, v, _, hv, _, hlaunched⟩ := hends.of_ok hr
      cases hvalidate.symm.trans hv
      exact ⟨m', rfl, hlaunched⟩
  | error e m' =>
      cases hends.of_error hr with
      | byStub hstub => exact nomatch h.symm.trans hstub
      | byImage _ himage => exact nomatch hvalidate.symm.trans himage
      | byDescriptor _ himage hdescriptor =>
          cases hvalidate.symm.trans himage
          exact nomatch hvalid.symm.trans hdescriptor

/-- A second stage of that many bytes of code and of tiles. -/
def plainStub (code tiles : UInt8) : StubImage where
  code := .replicate code.toNat 1
  tiles := .replicate tiles.toNat 2
  code_le := by
    have := code.toNat_lt
    rw [ByteArray.size_replicate]
    unfold iramSize wordLimit
    omega
  tiles_le := by
    have := tiles.toNat_lt
    rw [ByteArray.size_replicate]
    unfold iramSize wordLimit
    omega

theorem small_separate : ∃ m', Launch.Launched smallDescriptor {} (plainStub 100 100)
      (Machine.erased 1 0) m'
    ∧ m'.HoldsAt 0x60 smallDescriptor.encode ∧ m'.HoldsAt 0xC0 (.replicate 100 1)
    ∧ m'.HoldsAt 0x3200 (.replicate 100 2) := by
  have hcheck : (plainStub 100 100).check {} = .ok () := rfl
  obtain ⟨m', hlaunch, hlaunched⟩ := exists_small_launch 0xC0 0x3200 _ hcheck
  obtain ⟨_, _, husual, hall⟩ := separate_iff_of_check hcheck
  have hseparate := husual (by decide) (by decide)
  obtain ⟨v, hv, _, hcode, htiles, hdescriptor⟩ := hall _ _ _ _ _ hlaunch
  have hsame : v.descriptor smallDescriptor.geometry (Launch.powerOf (Machine.erased 1 0))
      = smallDescriptor := by
    cases hv
    rfl
  have hheld := hdescriptor hseparate
  rw [hsame] at hheld
  exact ⟨m', hlaunched, hheld, hcode, htiles hseparate.code_tiles⟩

/-- Tiles just below the place of the descriptor, and code on it: the check lets both pass, and the
launch goes through with neither the tiles nor the descriptor whole. -/
theorem small_run_over : ∃ m',
    (plainStub 64 32).check { stubAddress := 0x60, tilesAddress := 0x50 } = .ok ()
    ∧ launch smallLaunch.image smallDescriptor.geometry
        { stubAddress := 0x60, tilesAddress := 0x50 } (plainStub 64 32) (Machine.erased 1 0)
      = .ok ⟨0, 0x60⟩ m'
    ∧ ¬ m'.HoldsAt 0x50 (.replicate 32 2) ∧ ¬ m'.HoldsAt 0x60 smallDescriptor.encode := by
  have hcheck : (plainStub 64 32).check { stubAddress := 0x60, tilesAddress := 0x50 } = .ok () :=
    rfl
  obtain ⟨m', hlaunch, hlaunched⟩ := exists_small_launch 0x60 0x50 _ hcheck
  have hcode : m'.HoldsAt 0x60 (.replicate 64 1) :=
    (hlaunched.holdsAt (StubImage.fits_of_check hcheck)).1
  -- the first byte of the code
  have hbyte : m'.iram.byteAt 0x60 = 1 := by
    refine (hcode.byteAt (i := 0) ?_).trans ?_
    · rw [ByteArray.size_replicate]
      decide
    · rw [ByteArray.byteAt_replicate, if_pos (by decide)]
  refine ⟨m', hcheck, hlaunch, fun htiles => ?_, fun hdescriptor => ?_⟩
  · have h := htiles.byteAt (i := 0x10) (by rw [ByteArray.size_replicate]; decide)
    rw [ByteArray.byteAt_replicate, if_pos (by decide), hbyte] at h
    exact absurd h (by decide)
  · have h := hdescriptor.byteAt (i := 0) (by rw [BootDescriptor.size_encode]; decide)
    have hformat : smallDescriptor.encode.byteAt 0 = 2 := rfl
    rw [hformat, Nat.add_zero, hbyte] at h
    exact absurd h (by decide)

end CartBoot
