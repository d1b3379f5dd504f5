import CartBoot.Proofs.SaveCycle

/-!
# Seeding a flash file

On first launch a flash file is filled from the image it belongs to: the image is
copied over its beginning sector by sector, and what is left up to the size of the
flash is erased. Each piece opens the source, reads, opens the flash file and writes,
all through the one window of the drive; the erased part starts in the middle of a
sector that has just been written.

As plain files the two are easy to follow. After the pieces up to a position the flash
file is what it was with so many bytes of the source put over it, and the source is
what it was. That is the invariant of the loop; the window, the fresh cursors and where
the clusters of the two chains lie do not come into it, since every request on a chain
is the same request on a file.
-/

namespace CartBoot

open Fat ChainStream

/-- The two files that take part. -/
inductive Role where
  | source
  | flash
  deriving DecidableEq

namespace Role

variable {α : Type}

/-- What belongs to the source and what belongs to the flash file. -/
def pick (source flash : α) : Role → α
  | .source => source
  | .flash => flash

theorem disjoint_pick {src dst : List Nat} (h : ∀ c ∈ src, c ∉ dst) :
    ∀ i j : Role, i ≠ j → ∀ c ∈ pick src dst i, c ∉ pick src dst j := by
  intro i j hne c hc hc'
  cases i <;> cases j
  · exact hne rfl
  · exact h c hc hc'
  · exact h c hc' hc
  · exact hne rfl

end Role

/-! ## One of many files -/

section Alone

variable {ι : Type} {g : Geometry} {disk : Disk} {chains : ι → List Nat} {v : Volume}
  {contents : ι → ByteArray}

/-- A volume on which only one file has changed is one with that file. -/
theorem Holds.alone (h : Holds g disk chains v contents) (i : ι)
    (hothers : ∀ j, j ≠ i → contents j = g.fileBytes disk.byte (chains j)) :
    HoldsFile g disk (chains i) v (contents i) where
  coherent := h.coherent
  geometry := h.geometry
  faultless := h.faultless
  fits := h.fits
  chain := fun _ => h.chain i
  size := fun _ => h.size i
  bytes := fun _ => h.bytes i
  outside := by
    intro a ha
    by_cases hany : ∃ j k, g.fileAddress? (chains j) k = some a
    · -- a byte of another file
      obtain ⟨j, k, hj⟩ := hany
      have hne : j ≠ i := by
        rintro rfl
        exact ha () k hj
      rw [h.bytes j k a hj, hothers j hne, Geometry.byteAt_fileBytes hj]
    · exact h.outside a fun j k hj => hany ⟨j, k, hj⟩

end Alone

/-! ## Pieces -/

namespace Save

/-- The contents of a flash file of `size` bytes that was seeded with an image. -/
def seeded (old image : ByteArray) (size : Nat) : ByteArray :=
  image ++ .replicate (size - image.size) erased ++ old.extract size old.size

section Pieces

variable {g : Geometry} {disk : Disk} {src dst : List Nat} {v : Volume} {image flash : ByteArray}
  {source target position len : Nat}

/-- A volume with an image in one chain and a flash file in another. -/
abbrev HoldsBoth (g : Geometry) (disk : Disk) (src dst : List Nat) (v : Volume)
    (image flash : ByteArray) : Prop :=
  Holds g disk (Role.pick src dst) v (Role.pick image flash)

/-- A request at a position of a file that is opened for it: the volume then holds what the plain
files hold after the request. -/
theorem exists_withFile {ι α : Type} {chains : ι → List Nat} {contents : ι → ByteArray} {i : ι}
    {cluster : Nat} {request : EStateM Error ChainStream α} {a : α} {f : Files ι}
    (h : Holds g disk chains v contents) (apart : g.TableApart)
    (hcluster : (chains i)[0]? = some cluster) (hposition : position ≤ (contents i).size)
    (hmatch : ∀ s, Represents g disk chains s ⟨contents, i, position, none⟩ →
      Matches (Represents g disk chains) (request s) (.ok a f)) :
    ∃ w, v.withFile cluster (do seek position; request) = .ok a w
      ∧ Holds g disk chains w f.contents := by
  obtain ⟨t, hseek, ht⟩ := (matches_seek (h.openAt hcluster) apart hposition).exists_ok
  obtain ⟨s, hrequest, hs⟩ := (hmatch t ht).exists_ok
  refine ⟨s.volume, ?_, hs.holds⟩
  unfold Volume.withFile
  rw [bind_of_ok hseek, hrequest]

/-- A piece of the image replaces the same piece of the flash file. -/
theorem exists_copyPiece (h : HoldsBoth g disk src dst v image flash) (apart : g.TableApart)
    (hdisjoint : ∀ c ∈ src, c ∉ dst) (hsource : src[0]? = some source)
    (htarget : dst[0]? = some target) (himage : position + len ≤ image.size)
    (hflash : position + len ≤ flash.size) (hword : position + len < wordLimit) :
    ∃ w, copyPiece source target position len v = .ok () w
      ∧ HoldsBoth g disk src dst w image
          (flash.patch position (image.extract position (position + len))) := by
  have hsize : (image.extract position (position + len)).size = len := by
    rw [ByteArray.size_extract]
    omega
  obtain ⟨w, hread, hw⟩ := exists_withFile (i := Role.source)
    (a := image.extract position (position + len))
    (f := ⟨Role.pick image flash, .source, position + len, none⟩) h apart hsource
    (Nat.le_of_add_right_le himage) fun s hs => by
      have hmatch := matches_read hs apart fun _ => .inl hword
      rwa [Files.read_of_le rfl himage] at hmatch
  -- reading has left both files as they were
  obtain ⟨u, hwrite, hu⟩ := exists_withFile (i := Role.flash) (a := ()) hw apart htarget
    (Nat.le_of_add_right_le hflash) fun s hs => by
      have hwithin : (⟨Role.pick image flash, .flash, position, none⟩ : Files Role).Within
          (image.extract position (position + len)).size :=
        fun _ => .inl (by rw [hsize]; exact hword)
      have hmatch := matches_write hs apart (Role.disjoint_pick hdisjoint) hwithin
      rwa [Files.write_of_le rfl (by rw [hsize]; exact hflash)] at hmatch
  have hpiece : copyPiece source target position len v = .ok () u := by
    unfold copyPiece
    exact (bind_of_ok hread).trans hwrite
  refine ⟨u, hpiece, ?_⟩
  have hcontents : Role.pick image (flash.patch position (image.extract position (position + len)))
      = (Files.patch (image.extract position (position + len))
          ⟨Role.pick image flash, Role.flash, position, none⟩).contents := by
    funext i
    cases i <;> rfl
  unfold HoldsBoth
  rw [hcontents]
  exact hu

/-- The pieces from a position on: before them the flash file begins with the image up to there,
after them with all of it. -/
theorem exists_copyFile {old : ByteArray} (apart : g.TableApart) (hdisjoint : ∀ c ∈ src, c ∉ dst)
    (hsource : src[0]? = some source) (htarget : dst[0]? = some target) (himage : len ≤ image.size)
    (hold : len ≤ old.size) (hword : len < wordLimit) (hposition : position ≤ len)
    (h : HoldsBoth g disk src dst v image (old.patch 0 (image.extract 0 position))) :
    ∃ w, copyFile source target len position v = .ok () w
      ∧ HoldsBoth g disk src dst w image (old.patch 0 (image.extract 0 len)) := by
  induction hrest : len - position using Nat.strongRecOn generalizing v position with
  | ind rest ih =>
      rw [copyFile]
      split
      · rename_i hlt
        have hn : 0 < min (len - position) seedPiece := by unfold seedPiece sectorSize; omega
        have hle : position + min (len - position) seedPiece ≤ len := by omega
        obtain ⟨u, hpiece, hu⟩ := exists_copyPiece h apart hdisjoint hsource htarget
          (Nat.le_trans hle himage) (by rw [ByteArray.size_patch]; exact Nat.le_trans hle hold)
          (Nat.lt_of_le_of_lt hle hword)
        -- the image up to the position and the piece behind it are adjacent
        rw [ByteArray.patch_extract_append (Nat.le_trans hposition himage)] at hu
        obtain ⟨w, hw, hheld⟩ := ih _ (by omega) hle hu rfl
        exact ⟨w, by rw [bind_of_ok hpiece]; exact hw, hheld⟩
      · obtain rfl : position = len := by omega
        exact ⟨v, rfl, h⟩

end Pieces

/-! ## The whole file -/

section Seed

variable {v : Volume} {src dst : List Nat} {file : File} {source sourceLen size : Nat}
  {old image : ByteArray}

/-- A seeded file is one that begins with the image and was then prepared. -/
theorem prepared_patch (hlen : image.size ≤ size) (hsize : size ≤ old.size) :
    prepared (old.patch 0 image) image.size size = seeded old image size := by
  have hbegin : (old.patch 0 image).extract 0 image.size = image := by
    have hself : (old.patch 0 image).extract 0 (0 + image.size) = image :=
      ByteArray.extract_patch_self (by omega)
    rwa [Nat.zero_add] at hself
  have hrest : (old.patch 0 image).extract size old.size = old.extract size old.size :=
    ByteArray.extract_patch_of_ge (by omega)
  unfold prepared seeded
  rw [Nat.min_eq_left hlen, hbegin, ByteArray.size_patch, hrest]

/-- Behind its size a seeded file is as it was. -/
theorem byteAt_seeded {k : Nat} (hlen : image.size ≤ size) (hk : size ≤ k) (hold : k < old.size) :
    (seeded old image size).byteAt k = old.byteAt k := by
  have hbegin : image.size + (size - image.size) = size := Nat.add_sub_cancel' hlen
  unfold seeded
  rw [ByteArray.byteAt_append, ByteArray.size_append, ByteArray.size_replicate, hbegin,
    if_neg (Nat.not_lt.mpr hk), ByteArray.byteAt_extract, if_pos (by omega),
    Nat.add_sub_cancel' hk]

/-- A file that was not filled gets the image and erased memory behind it. -/
theorem exists_seedFlash {g : Geometry} (apart : g.TableApart) (hdisjoint : ∀ c ∈ src, c ∉ dst)
    (hsource : src[0]? = some source) (hfile : dst[0]? = some file.cluster)
    (hwritten : file.written < size) (hlen : sourceLen ≤ size)
    (himage : sourceLen ≤ (g.fileBytes v.disk.byte src).size) (hsize : size ≤ old.size)
    (hword : size < wordLimit)
    (h : HoldsBoth g v.disk src dst v (g.fileBytes v.disk.byte src) old) :
    ∃ w, seedFlash file source sourceLen size v = .ok () w
      ∧ HoldsFile g v.disk dst w
          (seeded old ((g.fileBytes v.disk.byte src).extract 0 sourceLen) size) := by
  have hpiece : ((g.fileBytes v.disk.byte src).extract 0 sourceLen).size = sourceLen := by
    rw [ByteArray.size_extract]
    omega
  have hbegin : HoldsBoth g v.disk src dst v (g.fileBytes v.disk.byte src)
      (old.patch 0 ((g.fileBytes v.disk.byte src).extract 0 0)) := by
    rw [ByteArray.extract_same, ByteArray.patch_of_size_eq_zero rfl]
    exact h
  obtain ⟨w, hcopy, hw⟩ := exists_copyFile apart hdisjoint hsource hfile himage
    (Nat.le_trans hlen hsize) (Nat.lt_of_le_of_lt hlen hword) (Nat.zero_le _) hbegin
  -- the source has stayed, so from here on there is only the flash file
  have hflash : HoldsFile g v.disk dst w
      (old.patch 0 ((g.fileBytes v.disk.byte src).extract 0 sourceLen)) := by
    refine Holds.alone hw .flash fun j hne => ?_
    cases j with
    | source => rfl
    | flash => exact absurd rfl hne
  have hroom : size ≤ (old.patch 0 ((g.fileBytes v.disk.byte src).extract 0 sourceLen)).size := by
    rw [ByteArray.size_patch]
    exact hsize
  obtain ⟨t, hprepare, ht⟩ := exists_prepare sourceLen (hflash.openAt hfile) apart hroom hword
  have hprepared := prepared_patch (Nat.le_trans (Nat.le_of_eq hpiece) hlen) hsize
  rw [hpiece] at hprepared
  refine ⟨t.volume, ?_, hprepared ▸ ht.holds⟩
  have hfilled : w.withFile file.cluster (prepare sourceLen size) = .ok () t.volume := by
    unfold Volume.withFile
    rw [hprepare]
  unfold seedFlash
  rw [if_neg (Nat.not_le.mpr hwritten), if_neg (Nat.not_lt.mpr hlen)]
  exact (bind_of_ok hcopy).trans hfilled

/-- **Seeding a flash file.** A file that has its bytes is left alone, and an image that is larger
than the flash is refused; neither touches the device. Otherwise the flash file gets the bytes of
the image, erased memory up to its size, and nothing else on the device changes. -/
theorem seed_flash_file {sourceLen size : UInt32} (apart : v.geometry.TableApart)
    (hcoherent : v.drive.Coherent) (hdisk : v.disk.Faultless)
    (hfits : v.geometry.dataEnd ≤ v.disk.sectorCount)
    (hsrc : v.geometry.IsChain v.disk.byte src) (hdst : v.geometry.IsChain v.disk.byte dst)
    (hdisjoint : ∀ c ∈ src, c ∉ dst) (hsource : src[0]? = some source)
    (hfile : dst[0]? = some file.cluster) (himage : sourceLen.toNat ≤ v.geometry.capacity src)
    (hsize : size.toNat ≤ v.geometry.capacity dst) :
    (size.toNat ≤ file.written →
        seedFlash file source sourceLen.toNat size.toNat v = .ok () v)
      ∧ (file.written < size.toNat → size < sourceLen →
          seedFlash file source sourceLen.toNat size.toNat v = .error .integrity v)
      ∧ (file.written < size.toNat → sourceLen ≤ size →
          ∃ w, seedFlash file source sourceLen.toNat size.toNat v = .ok () w
            ∧ v.geometry.fileBytes w.disk.byte dst
              = seeded (v.geometry.fileBytes v.disk.byte dst)
                  ((v.geometry.fileBytes v.disk.byte src).extract 0 sourceLen.toNat) size.toNat
            ∧ v.geometry.fileBytes w.disk.byte src = v.geometry.fileBytes v.disk.byte src
            ∧ ∀ a, (∀ k < size.toNat, v.geometry.fileAddress? dst k ≠ some a) →
                w.disk.byte a = v.disk.byte a) := by
  refine ⟨fun hwritten => ?_, fun hwritten hlen => ?_, fun hwritten hlen => ?_⟩
  · unfold seedFlash
    rw [if_pos hwritten]
    rfl
  · have hlarge : size.toNat < sourceLen.toNat := hlen
    unfold seedFlash
    rw [if_neg (Nat.not_le.mpr hwritten), if_pos hlarge]
    rfl
  · have hle : sourceLen.toNat ≤ size.toNat := hlen
    have hchains : ∀ i, v.geometry.IsChain v.disk.byte (Role.pick src dst i) := by
      intro i
      cases i with
      | source => exact hsrc
      | flash => exact hdst
    have hcontents : (fun i => v.geometry.fileBytes v.disk.byte (Role.pick src dst i))
        = Role.pick (v.geometry.fileBytes v.disk.byte src)
            (v.geometry.fileBytes v.disk.byte dst) := by
      funext i
      cases i <;> rfl
    have hboth := holds_fileBytes hcoherent hdisk hfits hchains
    rw [hcontents] at hboth
    obtain ⟨w, hseed, hw⟩ := exists_seedFlash apart hdisjoint hsource hfile hwritten hle
      (by rw [Geometry.size_fileBytes]; exact himage)
      (by rw [Geometry.size_fileBytes]; exact hsize) size.toNat_lt hboth
    refine ⟨w, hseed, hw.fileBytes_eq (), ?_, fun a ha => ?_⟩
    · -- the source shares no address with the flash file
      refine Geometry.fileBytes_congr fun k a hk => hw.outside a fun _ j => ?_
      exact Geometry.fileAddress?_disjoint hsrc.has hdst.has hdisjoint hk
    · by_cases hany : ∃ k, v.geometry.fileAddress? dst k = some a
      · -- a byte of the flash file behind its size
        obtain ⟨k, hk⟩ := hany
        have hbehind : size.toNat ≤ k := Nat.not_lt.mp fun hlt => ha k hlt hk
        have hinside : k < (v.geometry.fileBytes v.disk.byte dst).size := by
          rw [Geometry.size_fileBytes]
          exact Geometry.lt_capacity hk
        rw [hw.bytes () k a hk, byteAt_seeded _ hbehind hinside, Geometry.byteAt_fileBytes hk]
        rw [ByteArray.size_extract]
        omega
      · exact hw.outside a fun _ k hk => hany ⟨k, hk⟩

/-- An image that ends in the middle of a sector, and a flash file that had less than its size. -/
theorem small_seed_flash_file :
    let v := Volume.ofDisk smallDisk smallGeometry true
    let old := smallGeometry.fileBytes smallDisk.byte [2, 4]
    let image := smallGeometry.fileBytes smallDisk.byte [3]
    ∃ w, seedFlash ⟨2, 100⟩ 3 500 700 v = .ok () w
      ∧ smallGeometry.fileBytes w.disk.byte [2, 4] = seeded old (image.extract 0 500) 700
      ∧ smallGeometry.fileBytes w.disk.byte [3] = image := by
  intro v old image
  have hfile : [2, 4][0]? = some (⟨2, 100⟩ : File).cluster := rfl
  have himage : (500 : UInt32).toNat ≤ v.geometry.capacity [3] := by decide
  have hsize : (700 : UInt32).toNat ≤ v.geometry.capacity [2, 4] := by decide
  have hdisjoint : ∀ c ∈ [3], c ∉ [2, 4] := by decide
  obtain ⟨w, hseed, hflash, hsource, _⟩ := (seed_flash_file (v := v) smallGeometry_apart
    (Drive.coherent_of_empty rfl) smallDisk_faultless smallDisk_fits (isChain_smallChains false)
    (isChain_smallChains true) hdisjoint rfl hfile himage hsize).2.2 (by decide) (by decide)
  exact ⟨w, hseed, hflash, hsource⟩

end Seed

end Save

end CartBoot
