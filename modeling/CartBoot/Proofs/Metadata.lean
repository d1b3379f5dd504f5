import CartBoot.Image.Metadata
import CartBoot.Proofs.Descriptor
import CartBoot.Proofs.Exchange
import CartBoot.Proofs.Placement
import CartBoot.Proofs.Seeking

/-!
# Metadata read from any stream

What is known of an image stands in two places of it: in its last sixteen bytes,
and, for an image of the size of a development cartridge image, where the font
would begin. So its metadata is a function of its bytes, `Metadata.ofImage`.

A reader gets there by seeking, and a seek starts over from the first cluster.
`Accesses` says what that needs of a stream, and no more: from a usable state
every position of the byte string can be reached, and from there the stream
delivers. A source in memory is such a stream for its bytes, and a cursor that
has not failed is one for the file in its chain, wherever it stands. On both the
metadata read is that of the image, and the footer in it is still the bytes that
it was read from.
-/

namespace CartBoot

open Fat

/-! ## What an image says -/

/-- The fields of a footer lie one behind the other, from its first byte on. -/
theorem Footer.encode_decode {b : ByteArray} (h : Footer.size ≤ b.size) :
    (Footer.decode b 0).encode = b.extract 0 Footer.size := by
  have h16 : ∀ i, (b.numberAt i 2).toUInt16.toNat = b.numberAt i 2 := fun i =>
    UInt16.toNat_ofNat_of_lt' (b.numberAt_lt i 2)
  rw [← ByteArray.toByteArray_map_byteAt h, Footer.encode]
  congr 1
  simp only [Footer.decode, FarPtr.toList, FarPtr.decode, h16, ByteArray.littleEndian_numberAt]
  rfl

namespace Metadata

/-- Whether an image has the size of a development cartridge image, and its font. -/
def carriesFont (image : ByteArray) : Bool :=
  image.size = 0x80000 ∧ (image.extract 0x70000 0x70005).data = "ELISA".toUTF8.data

/-- The last sixteen bytes of an image. -/
def lastBytes (image : ByteArray) : ByteArray :=
  image.extract (image.size - 16) image.size

/-- The metadata of an image that is named by `id`. -/
def ofImage (id : UInt32) (image : ByteArray) : Metadata :=
  ofFooter (.decode (lastBytes image) 0) id image.size.toUInt32 (carriesFont image)

/-- The footer of an image is its last sixteen bytes. -/
theorem encode_footer_ofImage (id : UInt32) {image : ByteArray} (h : 16 ≤ image.size) :
    (ofImage id image).footer.encode = lastBytes image := by
  have hsize : (lastBytes image).size = 16 := by
    unfold lastBytes
    rw [ByteArray.size_extract]
    omega
  refine (Footer.encode_decode (Nat.le_of_eq hsize.symm)).trans ?_
  show (lastBytes image).extract 0 16 = lastBytes image
  rw [← hsize, ByteArray.extract_zero_size]

end Metadata

/-! ## Random access to a byte string -/

/-- From a usable state the stream reaches every position of `data`, and delivers from there. -/
structure Accesses {σ : Type} [ReadStream σ] [SeekStream σ] (data : ByteArray)
    (usable : σ → Prop) (after : Nat → σ → Prop) : Prop where
  supplies : Copier.Supplies data after
  reaches (p : Nat) (s : σ) : usable s → p ≤ data.size →
    ∃ t, SeekStream.seek p s = .ok () t ∧ after p t
  /-- A stream that has delivered can be positioned again. -/
  usable (p : Nat) (s : σ) : after p s → usable s

section Access

variable {σ : Type} [ReadStream σ] [SeekStream σ] {data : ByteArray} {usable : σ → Prop}
  {after : Nat → σ → Prop} {s : σ}

/-- The bytes at a position are read by going there. -/
theorem Accesses.exists_readAt (h : Accesses data usable after) (hs : usable s) {p n : Nat}
    (hn : p + n ≤ data.size) :
    ∃ t, (SeekStream.seek p >>= fun _ => readExact n : EStateM Error σ ByteArray) s
        = .ok (data.extract p (p + n)) t ∧ usable t := by
  obtain ⟨t, hseek, ht⟩ := h.reaches p s hs (by omega)
  obtain ⟨u, hread, hu⟩ := h.supplies p n t ht hn
  refine ⟨u, ?_, h.usable _ u hu⟩
  rw [bind_of_ok hseek, readExact_of_none hread]

/-- Look for the font, in an image that has the size for it. -/
def Metadata.lookForFont (size : UInt32) : EStateM Error σ Bool := do
  if size.toNat = fontImageSize then
    SeekStream.seek fontOffset
    let signature ← readExact fontSignature.size
    return decide (signature.data = fontSignature.data)
  else
    return false

/-- Reading metadata is looking for the font, and then reading the footer. -/
theorem Metadata.read_eq (id : UInt32) {size : UInt32} (hmin : 16 ≤ size.toNat) :
    (Metadata.read id size : EStateM Error σ Metadata) = do
      let font ← lookForFont size
      let footer ← SeekStream.seek (size.toNat - 16) >>= fun _ => readExact 16
      return ofFooter (.decode footer 0) id size font := by
  have hlong : ¬ size.toNat < Footer.size := Nat.not_lt.mpr hmin
  unfold Metadata.read lookForFont
  simp only [if_neg hlong]
  split
  · simp only [bind_assoc, pure_bind]
    rfl
  · simp only [bind_assoc, pure_bind]
    rfl

theorem Accesses.exists_lookForFont (h : Accesses data usable after) (hs : usable s)
    {size : UInt32} (hsize : size.toNat = data.size) :
    ∃ t, Metadata.lookForFont size s = .ok (Metadata.carriesFont data) t ∧ usable t := by
  unfold Metadata.lookForFont
  rw [hsize]
  split
  · rename_i hfont
    have hin : Metadata.fontOffset + Metadata.fontSignature.size ≤ data.size := by
      rw [hfont]
      decide
    obtain ⟨t, hread, ht⟩ := h.exists_readAt hs hin
    refine ⟨t, ?_, ht⟩
    rw [← bind_assoc, bind_of_ok hread]
    exact congrArg (EStateM.Result.ok · t) (decide_eq_decide.mpr (and_iff_right hfont).symm)
  · rename_i hfont
    have hnone : Metadata.carriesFont data = false := decide_eq_false fun h => hfont h.1
    rw [hnone]
    exact ⟨s, rfl, hs⟩

/-- **Metadata is read as the image has it.** -/
theorem Accesses.exists_read_metadata (h : Accesses data usable after) (hs : usable s)
    (id : UInt32) {size : UInt32} (hsize : size.toNat = data.size) (hmin : 16 ≤ data.size) :
    ∃ t, Metadata.read id size s = .ok (Metadata.ofImage id data) t ∧ usable t := by
  obtain ⟨t, hfont, ht⟩ := h.exists_lookForFont hs hsize
  obtain ⟨u, hfooter, hu⟩ := h.exists_readAt ht (p := data.size - 16) (n := 16) (by omega)
  refine ⟨u, ?_, hu⟩
  rw [Metadata.read_eq id (hsize ▸ hmin), bind_of_ok hfont, hsize, bind_of_ok hfooter,
    Nat.sub_add_cancel hmin]
  unfold Metadata.ofImage Metadata.lastBytes
  rw [← hsize, Nat.toUInt32_eq, UInt32.ofNat_toNat]
  rfl

end Access

/-! ## The two streams -/

/-- A source in memory has access to its bytes from any position. -/
theorem accesses_byteSource (data : ByteArray) :
    Accesses data (fun s : ByteSource => s.data = data ∧ s.limit = none)
      (fun p s => s = ⟨data, p, none⟩) where
  supplies := Copier.supplies_byteSource data
  reaches := by
    rintro p ⟨_, position, _⟩ ⟨rfl, rfl⟩ hp
    refine ⟨_, (bind_of_ok rfl).trans ?_, rfl⟩
    simp only [if_neg (Nat.not_lt.mpr hp)]
    rfl
  usable := by
    rintro p s rfl
    exact ⟨rfl, rfl⟩

/-- A cursor that has not failed has access to the file in its chain up to any word, wherever it
stands. -/
theorem ChainStream.accesses_fileBytes {g : Geometry} {disk : Disk} {cs : List Nat} {size : Nat}
    (hpath : g.Path disk.byte cs) (hdisk : disk.Faultless)
    (hdevice : ∀ c ∈ cs, g.OnDevice disk c) (hword : size < wordLimit) :
    Accesses ((g.fileBytes disk.byte cs).extract 0 size) (Usable g disk cs)
      (fun p s => Reading g disk cs p s ∧ cs[0]? = some s.start) where
  supplies := by
    rintro p n s ⟨hs, hstart⟩ hn
    rw [ByteArray.size_extract, Geometry.size_fileBytes] at hn
    have hcapacity : p + n ≤ g.capacity cs := by omega
    obtain ⟨t, hread, hmoved, ht⟩ := hs.read hpath hdisk hdevice hcapacity (by omega)
    refine ⟨t, hread.trans ?_, ht, hmoved.start ▸ hstart⟩
    rw [ByteArray.extract_extract_zero (by omega)]
  reaches := by
    intro p s hs hp
    rw [ByteArray.size_extract, Geometry.size_fileBytes] at hp
    have hcapacity : p ≤ g.capacity cs := by omega
    obtain ⟨t, hseek, hmoved, ht⟩ := hs.seek hpath hdisk hdevice hcapacity
    exact ⟨t, hseek, ht, hmoved.start ▸ hs.start⟩
  usable := by
    rintro p s ⟨hs, hstart⟩
    exact hs.usable hstart

/-- After any requests a cursor is usable unless it has failed, and its file is in the clusters
it was in. -/
theorem Fat.Volume.usable_runAll {v : Volume} {cs : List Nat} {first : Nat}
    (hv : v.drive.Coherent) (hchain : v.geometry.IsChain v.disk.byte cs)
    (hfirst : cs[0]? = some first) (requests : List Request)
    (htable : v.geometry.TableApart ∨ ∀ r ∈ requests, r.OnlyReads) :
    let s := (runAll Request.perform requests (v.openAt first)).2
    v.geometry.Path s.volume.disk.byte cs ∧
      (s.failure = none → s.Usable v.geometry s.volume.disk cs) := by
  intro s
  have hs := v.tracked_runAll hv hchain hfirst requests htable
  have hpath := (hs.volume.isChain hchain).toPath
  rw [hs.volume.geometry] at hpath
  exact ⟨hpath, fun hnone => ⟨hs.sound.coherent, hnone, .refl _, hs.volume.geometry,
    hfirst.trans (congrArg some hs.start.symm)⟩⟩

/-! ## One image, two streams -/

/-- An image that is too short for a footer has no metadata, and the stream is not touched. -/
theorem Metadata.read_of_short {σ : Type} [ReadStream σ] [SeekStream σ] (id : UInt32)
    {size : UInt32} (h : size.toNat < 16) (s : σ) :
    Metadata.read id size s = .error .formatInvalid s := by
  have hlt : size.toNat < Footer.size := h
  unfold Metadata.read
  simp only [if_pos hlt]
  rfl

/-- **Metadata does not depend on where the image is.** From any cursor that has not failed,
on a device that does not fail, the metadata of the first `size` bytes of a file is what those
bytes say. A source of the bytes in memory gives the same, and the footer read is the last
sixteen bytes. An image too short for a footer is refused by either without touching it. -/
theorem metadata_of_image {g : Geometry} {disk : Disk} {cs : List Nat} {s : ChainStream}
    (hs : s.Usable g disk cs) (hpath : g.Path disk.byte cs) (hdisk : disk.Faultless)
    (hdevice : ∀ c ∈ cs, g.OnDevice disk c) (id size : UInt32)
    (hsize : size.toNat ≤ g.capacity cs) (position : Nat) :
    let image := (g.fileBytes disk.byte cs).extract 0 size.toNat
    let source : ByteSource := ⟨image, position, none⟩
    (size.toNat < 16 → Metadata.read id size s = .error .formatInvalid s
      ∧ Metadata.read id size source = .error .formatInvalid source)
    ∧ (16 ≤ size.toNat →
      (∃ t, Metadata.read id size s = .ok (Metadata.ofImage id image) t)
      ∧ (∃ t, Metadata.read id size source = .ok (Metadata.ofImage id image) t)
      ∧ (Metadata.ofImage id image).footer.encode
        = image.extract (size.toNat - 16) size.toNat) := by
  intro image source
  have himage : size.toNat = image.size := by
    rw [ByteArray.size_extract, Geometry.size_fileBytes]
    omega
  refine ⟨fun hshort => ⟨Metadata.read_of_short id hshort s,
    Metadata.read_of_short id hshort source⟩, fun hmin => ?_⟩
  have hchain : Accesses image (ChainStream.Usable g disk cs) _ :=
    ChainStream.accesses_fileBytes hpath hdisk hdevice size.toNat_lt
  obtain ⟨t, hread, _⟩ := hchain.exists_read_metadata hs id himage (himage ▸ hmin)
  obtain ⟨u, hread', _⟩ := (accesses_byteSource image).exists_read_metadata (s := source)
    ⟨rfl, rfl⟩ id himage (himage ▸ hmin)
  refine ⟨⟨t, hread⟩, ⟨u, hread'⟩, ?_⟩
  rw [Metadata.encode_footer_ofImage id (himage ▸ hmin), himage]
  rfl

/-- An image whose footer lies across the boundary of two clusters. -/
theorem small_metadata_of_image :
    let s := (Volume.ofDisk smallDisk smallGeometry true).openAt 2
    let image := (smallGeometry.fileBytes smallDisk.byte [2, 4]).extract 0 520
    (∃ t, Metadata.read 2 520 s = .ok (Metadata.ofImage 2 image) t)
      ∧ (∃ t, Metadata.read 2 520 (⟨image, 7, none⟩ : ByteSource)
          = .ok (Metadata.ofImage 2 image) t)
      ∧ Metadata.read 2 15 s = .error .formatInvalid s := by
  intro s image
  have hs : s.Usable smallGeometry smallDisk [2, 4] :=
    (ChainStream.reading_openAt rfl true).usable rfl
  have hpath : smallGeometry.Path smallDisk.byte [2, 4] := (isChain_smallChains true).toPath
  have himage := metadata_of_image hs hpath smallDisk_faultless (onDevice_small true) 2 520
    (by decide) 7
  have hshort := metadata_of_image hs hpath smallDisk_faultless (onDevice_small true) 2 15
    (by decide) 7
  obtain ⟨hread, hread', _⟩ := himage.2 (by decide)
  exact ⟨hread, hread', (hshort.1 (by decide)).1⟩

end CartBoot
