import CartBoot.Proofs.Recovery
import CartBoot.Proofs.Registers
import CartBoot.Proofs.Staging

/-!
# The soft-reset patch

The patch touches three memories. Its code and a jump to it go into the last bank of
the layout, through the RAM window and inside a register scope; where the footer
jumped before goes into the descriptor in internal RAM. The offsets of the footer
and of the descriptor are counted by hand, so each of the two is read back here as
a whole: the footer has a new target and the descriptor a new start pointer, and
nothing else in them has changed.

What the patch looks at before it writes is another stretch of the bank than the one
it writes its code to. An image that uses the second but not the first is patched,
and loses what it had there.
-/

namespace CartBoot

open Fat

/-! ## Pointers and footers in overwritten bytes -/

namespace FarPtr

variable {b b' : ByteArray} {i j : Nat}

theorem size_encode (p : FarPtr) : p.encode.size = 4 :=
  List.size_toByteArray

/-- Equal bytes are one pointer. -/
theorem decode_congr (h : ∀ k, k < 4 → b.byteAt (i + k) = b'.byteAt (j + k)) :
    decode b i = decode b' j := by
  have hoffset : b.numberAt i 2 = b'.numberAt j 2 := numberAt_congr 2 fun k hk => h k (by omega)
  have hsegment : b.numberAt (i + 2) 2 = b'.numberAt (j + 2) 2 := by
    refine numberAt_congr 2 fun k hk => ?_
    rw [Nat.add_assoc, Nat.add_assoc]
    exact h (2 + k) (by omega)
  unfold decode
  rw [hoffset, hsegment]

theorem decode_encode (p : FarPtr) : decode p.encode 0 = p := by
  have hoffset : p.encode.numberAt 0 2 = p.offset.toNat :=
    ByteArray.numberAt_slice rfl p.offset.toNat_lt
  have hsegment : p.encode.numberAt 2 2 = p.segment.toNat :=
    ByteArray.numberAt_slice rfl p.segment.toNat_lt
  unfold decode
  rw [hoffset, Nat.zero_add, hsegment, Nat.toUInt16_eq, Nat.toUInt16_eq, UInt16.ofNat_toNat,
    UInt16.ofNat_toNat]

/-- A pointer that was written is read back. -/
theorem decode_patch_self (p : FarPtr) (h : i + 4 ≤ b.size) :
    decode (b.patch i p.encode) i = p := by
  refine (decode_congr fun k hk => ?_).trans p.decode_encode
  rw [ByteArray.byteAt_patch _ _ _ _ (by omega), p.size_encode, if_pos (by omega),
    Nat.add_sub_cancel_left, Nat.zero_add]

/-- A slice of four bytes is the pointer in them. -/
theorem decode_extract (h : i + 4 ≤ b.size) : decode (b.extract i (i + 4)) 0 = decode b i := by
  refine decode_congr fun k hk => ?_
  rw [ByteArray.byteAt_extract, Nat.zero_add, if_pos (by omega)]

end FarPtr

/-- A footer depends on its bytes, and on the bytes of the jump through its target alone. -/
theorem Footer.decode_of_agree {b b' : ByteArray} {i : Nat}
    (h : ∀ k, k < size → k = 0 ∨ 5 ≤ k → b'.byteAt (i + k) = b.byteAt (i + k)) :
    decode b' i = { decode b i with jumpTarget := .decode b' (i + 1) } := by
  have hopcode : b'.byteAt i = b.byteAt i := h 0 (by decide) (.inl rfl)
  have hbyte : ∀ k, 5 ≤ k → k < size → b'.byteAt (i + k) = b.byteAt (i + k) :=
    fun k hle hk => h k hk (.inr hle)
  have hchecksum : b'.numberAt (i + 14) 2 = b.numberAt (i + 14) 2 := by
    refine numberAt_congr 2 fun k hk => ?_
    rw [Nat.add_assoc]
    exact hbyte (14 + k) (by omega) (by unfold size; omega)
  unfold decode
  rw [hopcode, hbyte 5 (by decide) (by decide), hbyte 6 (by decide) (by decide),
    hbyte 7 (by decide) (by decide), hbyte 8 (by decide) (by decide),
    hbyte 9 (by decide) (by decide), hbyte 10 (by decide) (by decide),
    hbyte 11 (by decide) (by decide), hbyte 12 (by decide) (by decide),
    hbyte 13 (by decide) (by decide), hchecksum]

/-! ## The start pointer of a descriptor -/

namespace BootDescriptor

/-- The start pointer lies at the end of a descriptor. -/
theorem encode_patch_start (d : BootDescriptor) (p : FarPtr) :
    d.encode.patch startOffset p.encode = { d with start := p }.encode := by
  have hfront : ∀ q, ({ d with start := q } : BootDescriptor).encode
      = (d.toList.take startOffset).toByteArray ++ q.encode := by
    intro q
    rw [encode, FarPtr.encode, ← List.toByteArray_append]
    rfl
  have hsize : (d.toList.take startOffset).toByteArray.size = startOffset :=
    List.size_toByteArray
  have h := ByteArray.patch_append_right (a := (d.toList.take startOffset).toByteArray)
    (b := d.start.encode) (c := p.encode) (by rw [p.size_encode, d.start.size_encode])
  rwa [hsize, ← hfront, ← hfront] at h

/-- A byte string of the size of a descriptor that is read as one is its encoding. -/
theorem eq_encode_of_decode {b : ByteArray} {d : BootDescriptor} (hsize : b.size = encodedSize)
    (h : decode b = .ok d) : b = d.encode := by
  rcases decode_cases b with ⟨hspells, _, _, hformat, hok⟩ | ⟨_, herror⟩
  · rw [h] at hok
    cases hok
    rw [encode_ofFields hspells.long hformat, ← hsize, ByteArray.extract_zero_size]
  · rw [h] at herror
    cases herror

end BootDescriptor

namespace Machine

theorem size_descriptorBytes (m : Machine) :
    m.descriptorBytes.size = BootDescriptor.encodedSize := by
  unfold descriptorBytes
  rw [ByteArray.size_extract, m.size_iram]
  rfl

section WriteRam

variable (m : Machine) (address : UInt16) (data : ByteArray)

@[simp] theorem sram_writeRam : (m.writeRam address data).sram = m.sram := rfl

@[simp] theorem iram_writeRam :
    (m.writeRam address data).iram = m.iram.patch address.toNat data := rfl

end WriteRam

/-- A pointer written over the start pointer of a descriptor is read as its start pointer. -/
theorem decode_descriptorBytes_patch {m m' : Machine} {d : BootDescriptor} {p : FarPtr}
    (h : BootDescriptor.decode m.descriptorBytes = .ok d)
    (hiram : m'.iram
      = m.iram.patch (BootDescriptor.address.toNat + BootDescriptor.startOffset) p.encode) :
    BootDescriptor.decode m'.descriptorBytes = .ok { d with start := p } := by
  have hbytes : m'.descriptorBytes
      = m.descriptorBytes.patch BootDescriptor.startOffset p.encode := by
    unfold descriptorBytes
    rw [hiram, ByteArray.extract_patch_within (by rw [m.size_iram]; decide)]
  rw [hbytes, BootDescriptor.eq_encode_of_decode m.size_descriptorBytes h,
    BootDescriptor.encode_patch_start, BootDescriptor.decode_encode]

end Machine

/-! ## The last bank of a layout -/

/-- The bytes of a stretch are erased. -/
def BankedMemory.Erased (memory : BankedMemory) (r : Stretch) : Prop :=
  ∀ a, r.Has a → memory.bytes.byteAt a = 0xFF

namespace ImageLayout

variable {l : ImageLayout} {memory : BankedMemory}

/-- The banks of the layout are there, and each has a number. -/
structure Present (l : ImageLayout) (memory : BankedMemory) : Prop where
  pos : 0 < l.totalBanks
  numbered : l.totalBanks ≤ 0x10000
  banks : l.totalBanks ≤ memory.bankCount

/-- Where the last bank begins. -/
def top (l : ImageLayout) : Nat :=
  bankSize * l.lastBank

/-- The footer of the image, at the end of that bank. -/
def footer (l : ImageLayout) (memory : BankedMemory) : Footer :=
  .decode memory.bytes (l.top + 0xFFF0)

/-- An image has a place in any memory that has as many banks. -/
theorem present_of_forSize {size : Nat} (h : forSize size = .ok l)
    (hbanks : l.totalBanks ≤ memory.bankCount) : l.Present memory := by
  refine ⟨totalBanks_pos h, ?_, hbanks⟩
  obtain ⟨_, hsize, rfl⟩ := forSize_eq_ok.mp h
  have hspace := (placed_spec hsize).2
  unfold spaceSize bankSize at hspace
  omega

theorem Present.bankStart (h : l.Present memory) :
    memory.bankStart l.lastBank.toUInt16 = l.top := by
  obtain ⟨hpos, hnumbered, hbanks⟩ := h
  have hlast : l.lastBank.toUInt16.toNat = l.lastBank :=
    UInt16.toNat_ofNat_of_lt' (by unfold lastBank UInt16.size; omega)
  unfold BankedMemory.bankStart
  rw [hlast, Nat.mod_eq_of_lt (by unfold lastBank; omega)]
  rfl

theorem Present.top_add_le (h : l.Present memory) : l.top + 0x10000 ≤ memory.bytes.size := by
  obtain ⟨hpos, _, hbanks⟩ := h
  rw [memory.size_eq]
  unfold top lastBank bankSize
  omega

end ImageLayout

namespace SoftReset

/-! ## What the window shows -/

variable {layout : ImageLayout} {m m' : Machine}

/-- The stretch that must be erased. -/
def freeStretch (layout : ImageLayout) : Stretch :=
  ⟨layout.top + freeStart, freeEnd - freeStart⟩

/-- Where the code comes to. -/
def codeStretch (layout : ImageLayout) (code : ByteArray) : Stretch :=
  ⟨layout.top + codeStart, code.size⟩

/-- The operands of the footer's jump. -/
def vectorStretch (layout : ImageLayout) : Stretch :=
  ⟨layout.top + vectorStart, 4⟩

theorem has_freeStretch {a : Nat} :
    (freeStretch layout).Has a ↔ layout.top + 0xFF80 ≤ a ∧ a < layout.top + 0xFFC0 := by
  unfold freeStretch Stretch.Has freeStart freeEnd
  dsimp only
  omega

theorem has_codeStretch {code : ByteArray} {a : Nat} : (codeStretch layout code).Has a ↔
    layout.top + 0xFFC8 ≤ a ∧ a < layout.top + 0xFFC8 + code.size :=
  Iff.rfl

theorem has_vectorStretch {a : Nat} :
    (vectorStretch layout).Has a ↔ layout.top + 0xFFF1 ≤ a ∧ a < layout.top + 0xFFF5 := by
  unfold vectorStretch Stretch.Has vectorStart
  dsimp only
  omega

/-- The RAM window shows the last bank of a layout. -/
structure ShowsLast (layout : ImageLayout) (m : Machine) : Prop where
  flash : m.flash = true
  bank : m.banks .ram = layout.lastBank.toUInt16
  present : layout.Present m.psram

namespace ShowsLast

theorem windowBytes (h : ShowsLast layout m) (offset len : Nat) :
    m.windowBytes .ram offset len
      = m.psram.bytes.extract (layout.top + offset) (layout.top + offset + len) := by
  unfold Machine.windowBytes Machine.showsSram BankedMemory.read
  rw [h.flash, if_neg (by decide), h.bank, h.present.bankStart]

/-- A write through the window. -/
theorem exists_setWindowBytes (h : ShowsLast layout m) (offset : Nat) (data : ByteArray) :
    ShowsLast layout (m.setWindowBytes .ram offset data)
      ∧ (m.setWindowBytes .ram offset data).psram.bytes
        = m.psram.bytes.patch (layout.top + offset) data
      ∧ (m.setWindowBytes .ram offset data).sram = m.sram
      ∧ (m.setWindowBytes .ram offset data).iram = m.iram := by
  have hbytes : (m.psram.write (m.banks .ram) offset data).bytes
      = m.psram.bytes.patch (layout.top + offset) data := by
    show m.psram.bytes.patch (m.psram.bankStart _ + offset) data = _
    rw [h.bank, h.present.bankStart]
  rw [Machine.setWindowBytes_of_flash h.flash]
  refine ⟨⟨h.flash, h.bank, h.present.pos, h.present.numbered, ?_⟩, hbytes, rfl, rfl⟩
  rw [BankedMemory.bankCount_write]
  exact h.present.banks

theorem areaIsFree_iff (h : ShowsLast layout m) :
    areaIsFree m = true ↔ m.psram.Erased (freeStretch layout) := by
  have htop := h.present.top_add_le
  have hin : layout.top + 0xFF80 + 0x40 ≤ m.psram.bytes.size := by omega
  have harea : m.windowBytes .ram freeStart (freeEnd - freeStart)
      = m.psram.bytes.extract (layout.top + 0xFF80) (layout.top + 0xFF80 + 0x40) :=
    h.windowBytes _ _
  unfold areaIsFree
  rw [harea]
  simp only [List.all_eq_true, List.mem_range, decide_eq_true_eq, ByteArray.size_extract,
    ByteArray.byteAt_extract, Nat.min_eq_left hin, Nat.add_sub_cancel_left]
  constructor
  · intro hbytes a ha
    rw [has_freeStretch] at ha
    have hbyte := hbytes (a - (layout.top + 0xFF80)) (by omega)
    rwa [if_pos (by omega), Nat.add_sub_cancel' ha.1] at hbyte
  · intro herased i hi
    rw [if_pos hi]
    exact herased _ (has_freeStretch.mpr (by omega))

/-- What is installed: the code, and a jump to it. The jump from before is the footer's. -/
theorem install_spec (h : ShowsLast layout m) {code : ByteArray}
    (hcode : code.size ≤ 40) :
    (install code m).1 = (layout.footer m.psram).jumpTarget
      ∧ (install code m).2.psram.bytes = (m.psram.bytes.patch (layout.top + 0xFFC8) code).patch
          (layout.top + 0xFFF1) codePointer.encode
      ∧ (install code m).2.sram = m.sram ∧ (install code m).2.iram = m.iram := by
  obtain ⟨hcoded, hbytes, hsram, hiram⟩ := h.exists_setWindowBytes codeStart code
  obtain ⟨_, hbytes', hsram', hiram'⟩ :=
    hcoded.exists_setWindowBytes vectorStart codePointer.encode
  refine ⟨?_, hbytes'.trans (by rw [hbytes]; rfl), hsram'.trans hsram, hiram'.trans hiram⟩
  have htop := h.present.top_add_le
  have hvector : Machine.windowBytes (m.setWindowBytes .ram codeStart code) .ram vectorStart 4
      = (m.psram.bytes.patch (layout.top + 0xFFC8) code).extract (layout.top + 0xFFF1)
          (layout.top + 0xFFF1 + 4) := by
    rw [hcoded.windowBytes, hbytes]
    rfl
  show FarPtr.decode (Machine.windowBytes _ .ram vectorStart 4) 0 = _
  rw [hvector, FarPtr.decode_extract (by rw [ByteArray.size_patch]; omega)]
  -- the code ends below the footer
  exact FarPtr.decode_congr fun k hk => ByteArray.byteAt_patch_of_not_mem (by omega)

end ShowsLast

/-! ## What the patch does -/

theorem showsLast_shown (h : layout.Present m.psram) : ShowsLast layout (shown layout m) :=
  ⟨rfl, rfl, h⟩

/-- The code is in the last bank, the footer jumps to it, and the descriptor has the jump of
before. -/
structure Patched (layout : ImageLayout) (m m' : Machine) : Prop where
  psram : m'.psram.bytes = (m.psram.bytes.patch (layout.top + 0xFFC8) m.softResetCode).patch
    (layout.top + 0xFFF1) codePointer.encode
  sram : m'.sram = m.sram
  iram : m'.iram = m.iram.patch (BootDescriptor.address.toNat + BootDescriptor.startOffset)
    (layout.footer m.psram).jumpTarget.encode

theorem exists_apply_of_used (h : layout.Present m.psram) (hcode : m.softResetCode.size ≤ 40)
    (hused : ¬ m.psram.Erased (freeStretch layout)) :
    ∃ m', apply layout m = .ok none m' ∧ m.SameMemory m' := by
  have harea : ¬ areaIsFree (shown layout m) = true :=
    fun hfree => hused ((showsLast_shown h).areaIsFree_iff.mp hfree)
  rw [apply_of_small hcode, if_neg harea]
  exact ⟨_, rfl, rfl, rfl, rfl⟩

theorem exists_apply_of_free (h : layout.Present m.psram) (hcode : m.softResetCode.size ≤ 40)
    (hfree : m.psram.Erased (freeStretch layout)) :
    ∃ m', apply layout m = .ok (some (layout.footer m.psram).jumpTarget) m'
      ∧ Patched layout m m' := by
  have harea : areaIsFree (shown layout m) = true := (showsLast_shown h).areaIsFree_iff.mpr hfree
  obtain ⟨hjump, hbytes, hsram, hiram⟩ := (showsLast_shown h).install_spec hcode
  rw [apply_of_small hcode, if_pos harea]
  -- of the code installed no more is needed than what is known of it
  generalize install m.softResetCode (shown layout m) = installed at *
  have hm : m.SameMemory (shown layout m) := ⟨rfl, rfl, rfl⟩
  rw [hm.psram] at hjump hbytes
  rw [hjump]
  refine ⟨_, rfl, ?_, ?_, ?_⟩
  · exact hbytes
  · rw [Machine.sram_writeRam]
    exact hsram.trans hm.sram
  · have haddress : (BootDescriptor.address + BootDescriptor.startOffset.toUInt16).toNat
        = BootDescriptor.address.toNat + BootDescriptor.startOffset := by decide
    rw [Machine.iram_writeRam, haddress]
    exact congrArg (ByteArray.patch · _ _) (hiram.trans hm.iram)

/-- The image is patched: the code lies in the last bank below the footer, the footer jumps to it
and is otherwise as it was, and the descriptor starts where the footer jumped. -/
structure Installed (layout : ImageLayout) (d : BootDescriptor) (m m' : Machine) : Prop where
  size : m'.psram.bytes.size = m.psram.bytes.size
  code : m'.psram.bytes.extract (layout.top + 0xFFC8)
    (layout.top + 0xFFC8 + m.softResetCode.size) = m.softResetCode
  footer : layout.footer m'.psram
    = { layout.footer m.psram with jumpTarget := ⟨0xF000, 0xFFC8⟩ }
  /-- Program RAM is as it was elsewhere. -/
  psram (a : Nat) : ¬ (codeStretch layout m.softResetCode).Has a → ¬ (vectorStretch layout).Has a →
    m'.psram.bytes.byteAt a = m.psram.bytes.byteAt a
  sram : m'.sram = m.sram
  descriptor : BootDescriptor.decode m'.descriptorBytes
    = .ok { d with start := (layout.footer m.psram).jumpTarget }
  /-- Internal RAM is as it was beside the start pointer. -/
  iram (a : Nat) : a < 0x7F ∨ 0x83 ≤ a → m'.iram.byteAt a = m.iram.byteAt a

namespace Patched

variable (h : Patched layout m m')
include h

/-- Program RAM is as it was beside the code and the jump. -/
theorem byteAt_of_apart {a : Nat} (hcode : ¬ (codeStretch layout m.softResetCode).Has a)
    (hvector : ¬ (vectorStretch layout).Has a) :
    m'.psram.bytes.byteAt a = m.psram.bytes.byteAt a := by
  have hsize := codePointer.size_encode
  rw [has_codeStretch] at hcode
  rw [has_vectorStretch] at hvector
  rw [h.psram, ByteArray.byteAt_patch_of_not_mem (by omega),
    ByteArray.byteAt_patch_of_not_mem (by omega)]

/-- The code ends below the jump, so it is whole. -/
theorem extract_code (hlayout : layout.Present m.psram)
    (hcode : m.softResetCode.size ≤ 40) :
    m'.psram.bytes.extract (layout.top + 0xFFC8)
      (layout.top + 0xFFC8 + m.softResetCode.size) = m.softResetCode := by
  have htop := hlayout.top_add_le
  rw [h.psram, ByteArray.extract_patch_of_le (by omega)]
  exact ByteArray.extract_patch_self (by omega)

/-- The footer jumps to the code, and is otherwise as it was. -/
theorem footer_eq (hlayout : layout.Present m.psram)
    (hcode : m.softResetCode.size ≤ 40) :
    layout.footer m'.psram = { layout.footer m.psram with jumpTarget := codePointer } := by
  have htop := hlayout.top_add_le
  have htarget : FarPtr.decode m'.psram.bytes (layout.top + 0xFFF1) = codePointer := by
    rw [h.psram]
    exact FarPtr.decode_patch_self _ (by rw [ByteArray.size_patch]; omega)
  unfold ImageLayout.footer
  rw [Footer.decode_of_agree (b := m.psram.bytes) fun k hk hjump => h.byteAt_of_apart ?_ ?_]
  · exact congrArg (fun p => { Footer.decode m.psram.bytes _ with jumpTarget := p }) htarget
  · rw [has_codeStretch]
    omega
  · rw [has_vectorStretch]
    omega

theorem installed {d : BootDescriptor} (hlayout : layout.Present m.psram)
    (hcode : m.softResetCode.size ≤ 40)
    (hd : BootDescriptor.decode m.descriptorBytes = .ok d) : Installed layout d m m' where
  size := by rw [h.psram, ByteArray.size_patch, ByteArray.size_patch]
  code := h.extract_code hlayout hcode
  footer := h.footer_eq hlayout hcode
  psram _ := h.byteAt_of_apart
  sram := h.sram
  descriptor := Machine.decode_descriptorBytes_patch hd h.iram
  iram := by
    intro a ha
    rw [h.iram]
    refine ByteArray.byteAt_patch_of_not_mem ?_
    rw [FarPtr.size_encode]
    exact ha

end Patched

/-! ## What is lost -/

/-- Every byte of program RAM that has changed was erased, but for the footer's jump. -/
def Spares (layout : ImageLayout) (m m' : Machine) : Prop :=
  ∀ a, m'.psram.bytes.byteAt a ≠ m.psram.bytes.byteAt a →
    (vectorStretch layout).Has a ∨ m.psram.bytes.byteAt a = 0xFF

/-- The code takes nothing from the image: where it comes to, the bytes are erased or the same. -/
def Harmless (layout : ImageLayout) (m : Machine) : Prop :=
  ∀ a, (codeStretch layout m.softResetCode).Has a →
    m.psram.bytes.byteAt a = 0xFF
      ∨ m.psram.bytes.byteAt a = m.softResetCode.byteAt (a - (layout.top + 0xFFC8))

theorem Patched.byteAt_code (h : Patched layout m m') (hlayout : layout.Present m.psram)
    (hcode : m.softResetCode.size ≤ 40) {a : Nat}
    (ha : (codeStretch layout m.softResetCode).Has a) :
    m'.psram.bytes.byteAt a = m.softResetCode.byteAt (a - (layout.top + 0xFFC8)) := by
  obtain ⟨hstart, hstop⟩ := has_codeStretch.mp ha
  have hbyte := ByteArray.byteAt_of_extract (h.extract_code hlayout hcode) (i := a - _)
    (Nat.sub_lt_left_of_lt_add hstart hstop)
  rwa [Nat.add_sub_cancel' hstart] at hbyte

theorem Patched.spares_iff_harmless (h : Patched layout m m') (hlayout : layout.Present m.psram)
    (hcode : m.softResetCode.size ≤ 40) :
    Spares layout m m' ↔ Harmless layout m := by
  have hbelow : ∀ a, (codeStretch layout m.softResetCode).Has a →
      ¬ (vectorStretch layout).Has a := by
    intro a ha
    rw [has_codeStretch] at ha
    rw [has_vectorStretch]
    omega
  constructor
  · intro hspares a ha
    rw [← h.byteAt_code hlayout hcode ha]
    by_cases hsame : m'.psram.bytes.byteAt a = m.psram.bytes.byteAt a
    · exact .inr hsame.symm
    · exact .inl ((hspares a hsame).resolve_left (hbelow a ha))
  · intro hharmless a hchanged
    by_cases hvector : (vectorStretch layout).Has a
    · exact .inl hvector
    by_cases ha : (codeStretch layout m.softResetCode).Has a
    · rw [h.byteAt_code hlayout hcode ha] at hchanged
      exact .inr ((hharmless a ha).resolve_right (Ne.symm hchanged))
    · exact absurd (h.byteAt_of_apart ha hvector) hchanged

/-! ## Small images -/

/-- A footer that jumps to 4000:0010. -/
def jumpBytes : ByteArray :=
  ⟨#[0xEA, 0x10, 0x00, 0x00, 0x40]⟩

/-- An image of one bank that has nothing but this footer and a byte where code would come to. -/
def jumpBank (x : UInt8) : BankedMemory where
  bytes := .tabulate bankSize fun i =>
    if i = 0xFFC8 then x else if i < 0xFFF0 then 0xFF else jumpBytes.byteAt (i - 0xFFF0)
  whole := by rw [ByteArray.size_tabulate, Nat.mod_self]
  count_lt := by
    rw [ByteArray.size_tabulate]
    decide

/-- Its descriptor: it is in program RAM, and is to be patched. -/
def jumpImage : BootDescriptor :=
  { smallDescriptor with cluster := residentCluster, patches := .softReset }

def jumpMachine (x : UInt8) : Machine :=
  { Machine.erased 1 1 with
    psram := jumpBank x
    softResetCode := .replicate 8 0x90 }.writeRam BootDescriptor.address jumpImage.encode

def jumpLayout : ImageLayout :=
  .placed 0x10000

variable {x : UInt8}

theorem byteAt_jumpBank {a : Nat} (ha : a < bankSize) : (jumpBank x).bytes.byteAt a =
    if a = 0xFFC8 then x else if a < 0xFFF0 then 0xFF else jumpBytes.byteAt (a - 0xFFF0) := by
  unfold jumpBank
  rw [ByteArray.byteAt_tabulate, if_pos ha]

theorem jumpTarget_jumpBank : (jumpLayout.footer (jumpBank x)).jumpTarget = ⟨0x4000, 0x0010⟩ := by
  show FarPtr.decode (jumpBank x).bytes 0xFFF1 = FarPtr.decode jumpBytes 1
  refine FarPtr.decode_congr fun k hk => ?_
  rw [byteAt_jumpBank (by unfold bankSize; omega), if_neg (by omega), if_neg (by omega),
    show 0xFFF1 + k - 0xFFF0 = 1 + k by omega]

theorem present_jumpBank : jumpLayout.Present (jumpBank x) := by
  have hsize : (jumpBank x).bytes.size = bankSize := by
    unfold jumpBank
    rw [ByteArray.size_tabulate]
  have hforSize : ImageLayout.forSize 0x10000 = .ok jumpLayout := rfl
  refine ImageLayout.present_of_forSize hforSize ?_
  unfold BankedMemory.bankCount
  rw [hsize]
  decide

theorem erased_jumpBank : (jumpBank x).Erased (freeStretch jumpLayout) := by
  intro a ha
  have hin : 0xFF80 ≤ a ∧ a < 0xFFC0 := ha
  rw [byteAt_jumpBank (by unfold bankSize; omega), if_neg (by omega), if_pos (by omega)]

/-- All that matters of the machine. -/
structure IsJumpMachine (x : UInt8) (m : Machine) : Prop where
  psram : m.psram = jumpBank x
  code : m.softResetCode = .replicate 8 0x90
  descriptor : m.descriptorBytes = jumpImage.encode

theorem isJumpMachine (x : UInt8) : IsJumpMachine x (jumpMachine x) :=
  ⟨rfl, rfl, Machine.descriptorBytes_writeRam _ _⟩

section Jump

variable (h : IsJumpMachine x m)
include h

theorem IsJumpMachine.present : jumpLayout.Present m.psram :=
  h.psram ▸ present_jumpBank

theorem IsJumpMachine.size_code : m.softResetCode.size = 8 := by
  rw [h.code, ByteArray.size_replicate]

theorem IsJumpMachine.exists_apply :
    ∃ m', apply jumpLayout m = .ok (some ⟨0x4000, 0x0010⟩) m' ∧ Patched jumpLayout m m' := by
  obtain ⟨m', happly, hpatched⟩ := exists_apply_of_free h.present
    (by rw [h.size_code]; decide) (h.psram ▸ erased_jumpBank)
  rw [h.psram, jumpTarget_jumpBank] at happly
  exact ⟨m', happly, hpatched⟩

end Jump

/-- **When the patch takes bytes from an image.** It is installed if one stretch of the last bank is
erased, and the code comes to another one, that has no byte in common with the first. No byte of
the image but its jump is lost exactly if the patch is not installed, or what was there is erased or
the code itself. -/
theorem spares_iff (hlayout : layout.Present m.psram) :
    (freeStretch layout).Apart (codeStretch layout m.softResetCode)
      ∧ Ends (apply layout m)
        (fun o m' => (o = none ↔ ¬ m.psram.Erased (freeStretch layout))
          ∧ (o = none → m'.psram = m.psram)
          ∧ (o ≠ none → ∀ a, (codeStretch layout m.softResetCode).Has a →
            m'.psram.bytes.byteAt a = m.softResetCode.byteAt (a - (layout.top + 0xFFC8)))
          ∧ (Spares layout m m' ↔ o = none ∨ Harmless layout m))
        (fun e m' => e = .fileTooLarge ∧ m' = m ∧ 40 < m.softResetCode.size) := by
  refine ⟨fun a ha => ?_, ?_⟩
  · rw [has_freeStretch, has_codeStretch] at ha
    omega
  by_cases hlarge : 40 < m.softResetCode.size
  · rw [apply_of_large hlarge]
    exact ⟨rfl, rfl, hlarge⟩
  have hcode := Nat.not_lt.mp hlarge
  by_cases hfree : m.psram.Erased (freeStretch layout)
  · obtain ⟨m', happly, hpatched⟩ := exists_apply_of_free hlayout hcode hfree
    have hspares := hpatched.spares_iff_harmless hlayout hcode
    rw [happly, ends_ok]
    exact ⟨⟨nofun, fun hused => absurd hfree hused⟩, nofun,
      fun _ _ => hpatched.byteAt_code hlayout hcode,
      hspares.trans ⟨.inr, fun h => h.resolve_left nofun⟩⟩
  · obtain ⟨m', happly, hsame⟩ := exists_apply_of_used hlayout hcode hfree
    rw [happly, ends_ok]
    refine ⟨⟨fun _ => hfree, fun _ => rfl⟩, fun _ => hsame.psram, fun hsome => absurd rfl hsome,
      fun _ => .inl rfl, fun _ a hchanged => absurd ?_ hchanged⟩
    rw [hsame.psram]

/-- An image that has nothing there loses nothing. -/
theorem jumpBank_spared : ∃ m', apply jumpLayout (jumpMachine 0xFF) = .ok (some ⟨0x4000, 0x0010⟩) m'
    ∧ Spares jumpLayout (jumpMachine 0xFF) m' := by
  have hm := isJumpMachine 0xFF
  generalize jumpMachine 0xFF = m at hm ⊢
  obtain ⟨m', happly, _⟩ := hm.exists_apply
  obtain ⟨_, _, _, hspares⟩ := (spares_iff hm.present).2.of_ok happly
  refine ⟨m', happly, hspares.mpr (.inr fun a ha => .inl ?_)⟩
  have hin : 0xFFC8 ≤ a ∧ a < 0xFFC8 + m.softResetCode.size := ha
  rw [hm.size_code] at hin
  rw [hm.psram, byteAt_jumpBank (by unfold bankSize; omega), if_pos (show a < 0xFFF0 by omega),
    ite_self]

/-- A byte of an image is overwritten, and the patch is installed all the same: the 64 bytes that
were looked at do not include it. -/
theorem jumpBank_overwritten : ∃ m',
    ImageLayout.forSize 0x10000 = .ok jumpLayout
      ∧ apply jumpLayout (jumpMachine 0x12) = .ok (some ⟨0x4000, 0x0010⟩) m'
      ∧ (codeStretch jumpLayout (jumpMachine 0x12).softResetCode).Has 0xFFC8
      ∧ (jumpMachine 0x12).psram.bytes.byteAt 0xFFC8 = 0x12
      ∧ m'.psram.bytes.byteAt 0xFFC8 = 0x90
      ∧ ¬ Spares jumpLayout (jumpMachine 0x12) m' := by
  have hm := isJumpMachine 0x12
  generalize jumpMachine 0x12 = m at hm ⊢
  obtain ⟨m', happly, hpatched⟩ := hm.exists_apply
  have hin : (codeStretch jumpLayout m.softResetCode).Has 0xFFC8 := by
    show 0xFFC8 ≤ 0xFFC8 ∧ 0xFFC8 < 0xFFC8 + m.softResetCode.size
    rw [hm.size_code]
    decide
  have hbefore : m.psram.bytes.byteAt 0xFFC8 = 0x12 := by
    rw [hm.psram, byteAt_jumpBank (by decide), if_pos rfl]
  have hafter : m'.psram.bytes.byteAt 0xFFC8 = 0x90 := by
    rw [hpatched.byteAt_code hm.present (by rw [hm.size_code]; decide) hin, hm.code,
      ByteArray.byteAt_replicate]
    exact if_pos (by decide)
  refine ⟨m', rfl, happly, hin, hbefore, hafter, fun hspares => ?_⟩
  have hlost := hspares 0xFFC8 (by rw [hbefore, hafter]; decide)
  rw [hbefore] at hlost
  rcases hlost with hvector | herased
  · exact absurd hvector (by decide)
  · exact absurd herased (by decide)

end SoftReset

end CartBoot
