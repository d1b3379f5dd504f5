import Mathlib.Algebra.Group.Nat.Defs
import CartBoot.Boot.Descriptor
import CartBoot.Proofs.Bytes

/-!
# The descriptor survives its encoding

Each field of an encoded descriptor is a slice of the byte list, and a slice that
is the little-endian form of a number reads back as that number. All fields fit
their widths: the numbers of a geometry because it is consistent, the others by
their types. So what one stage writes is what the other stage reads.

The other direction starts from any byte string. The fields cover the 35 bytes
without a gap, and a field is the little-endian form of the number it spells, so a
descriptor that is read from a byte string encodes to its first 35 bytes. Whether
one is read at all is decided by six numbers, `Spells`.
-/

namespace ByteArray

theorem size_littleEndian (width n : Nat) : (littleEndian width n).toByteArray.size = width := by
  rw [List.size_toByteArray]
  induction width generalizing n with
  | zero => rfl
  | succ width ih => rw [littleEndian, List.length_cons, ih]

/-- A number is read back from its little-endian form. -/
theorem numberAt_littleEndian {b : ByteArray} {i width n : Nat}
    (h : ∀ k, k < width → b.byteAt (i + k) = (littleEndian width n).getD k 0) :
    b.numberAt i width = n % 256 ^ width := by
  induction width generalizing i n with
  | zero => rw [numberAt, Nat.pow_zero, Nat.mod_one]
  | succ width ih =>
      have hfirst : b.byteAt i = n.toUInt8 := h 0 (by omega)
      have hrest : b.numberAt (i + 1) width = n / 256 % 256 ^ width := by
        refine ih fun k hk => ?_
        have := h (k + 1) (by omega)
        rwa [show i + 1 + k = i + (k + 1) by omega]
      rw [numberAt, hfirst, hrest, Nat.pow_succ', Nat.mod_mul]
      rfl

/-- The number spelled by a slice of a byte list. -/
theorem numberAt_slice {l : List UInt8} {i width n : Nat}
    (h : (l.drop i).take width = littleEndian width n) (hn : n < 256 ^ width) :
    l.toByteArray.numberAt i width = n := by
  refine (numberAt_littleEndian fun k hk => ?_).trans (Nat.mod_eq_of_lt hn)
  rw [byteAt_toByteArray, ← h, List.getD_eq_getElem?_getD, List.getD_eq_getElem?_getD,
    List.getElem?_take_of_lt hk, List.getElem?_drop]

/-- `width` bytes spell a number of that many digits. -/
theorem numberAt_lt (b : ByteArray) (i width : Nat) : b.numberAt i width < 256 ^ width := by
  induction width generalizing i with
  | zero => rw [numberAt, Nat.pow_zero]; exact Nat.one_pos
  | succ width ih =>
      have hrest : b.numberAt (i + 1) width < 256 ^ width := ih (i + 1)
      have hbyte : (b.byteAt i).toNat < 256 := (b.byteAt i).toNat_lt
      rw [numberAt, Nat.pow_succ']
      omega

/-- **A number spells the bytes it was read from.** -/
theorem littleEndian_numberAt (b : ByteArray) (i width : Nat) :
    littleEndian width (b.numberAt i width) = (List.range' i width).map b.byteAt := by
  induction width generalizing i with
  | zero => rfl
  | succ width ih =>
      have hbyte : (b.byteAt i).toNat < 256 := (b.byteAt i).toNat_lt
      have hlow : (b.numberAt i (width + 1)).toUInt8 = b.byteAt i := by
        refine UInt8.toNat_inj.mp ?_
        rw [Nat.toUInt8_eq, UInt8.toNat_ofNat', numberAt]
        omega
      have hhigh : b.numberAt i (width + 1) / 256 = b.numberAt (i + 1) width := by
        rw [numberAt]
        omega
      rw [littleEndian, hlow, hhigh, ih, List.range'_succ, List.map_cons]

/-- The bytes from the start of a byte string on, one by one. -/
theorem toByteArray_map_byteAt {b : ByteArray} {n : Nat} (h : n ≤ b.size) :
    ((List.range' 0 n).map b.byteAt).toByteArray = b.extract 0 n := by
  refine ext_byteAt ?_ fun i hi => ?_
  · rw [List.size_toByteArray, List.length_map, List.length_range', size_extract]
    omega
  · rw [List.size_toByteArray, List.length_map, List.length_range'] at hi
    rw [byteAt_toByteArray, byteAt_extract, if_pos (by omega), List.getD_eq_getElem?_getD,
      List.getElem?_map, List.getElem?_range' hi]
    simp

end ByteArray

namespace CartBoot

open Fat

/-- The numbers of a geometry pass the check. -/
theorem Fat.Geometry.check_self (g : Geometry) :
    Geometry.check g.format g.tableBase g.dataBase g.clusterSize g.entryCount = .ok g :=
  dif_pos g.consistent

/-- Three numbers stand for a table format. -/
theorem Fat.Format.not_code_of_ofCode? {code : UInt8} (h : Format.ofCode? code = none) :
    ¬ (code = 1 ∨ code = 2 ∨ code = 3) := by
  rintro (rfl | rfl | rfl) <;> cases h

theorem Fat.Format.ofCode?_range {code : UInt8} {format : Format}
    (h : Format.ofCode? code = some format) :
    code = 1 ∨ code = 2 ∨ code = 3 := by
  rw [← Format.code_of_ofCode? h]
  cases format
  · exact .inl rfl
  · exact .inr (.inl rfl)
  · exact .inr (.inr rfl)

namespace BootDescriptor

theorem size_encode (d : BootDescriptor) : d.encode.size = encodedSize :=
  List.size_toByteArray

/-- **An encoded descriptor is read back.** -/
theorem decode_encode (d : BootDescriptor) : decode d.encode = .ok d := by
  obtain ⟨_, hsize, _, hcount, hbase, hend⟩ := d.geometry.consistent
  have h16 : ∀ x : UInt16, x.toNat.toUInt16 = x := fun _ => UInt16.ofNat_toNat
  have h32 : ∀ x : UInt32, x.toNat.toUInt32 = x := fun _ => UInt32.ofNat_toNat
  -- each number is the slice at its offset, and fits the width it has there
  have htable : d.encode.numberAt 1 4 = d.geometry.tableBase :=
    ByteArray.numberAt_slice rfl (by omega)
  have hdata : d.encode.numberAt 5 4 = d.geometry.dataBase :=
    ByteArray.numberAt_slice rfl (by omega)
  have hcluster : d.encode.numberAt 9 2 = d.geometry.clusterSize :=
    ByteArray.numberAt_slice rfl hsize
  have hentries : d.encode.numberAt 11 4 = d.geometry.entryCount :=
    ByteArray.numberAt_slice rfl hcount
  have hfirst : d.encode.numberAt 15 4 = d.cluster.toNat :=
    ByteArray.numberAt_slice rfl d.cluster.toNat_lt
  have hbytes : d.encode.numberAt 19 4 = d.size.toNat :=
    ByteArray.numberAt_slice rfl d.size.toNat_lt
  have hbanks : d.encode.numberAt 23 2 = d.romBanks.toNat :=
    ByteArray.numberAt_slice rfl d.romBanks.toNat_lt
  have hoffset : d.encode.numberAt startOffset 2 = d.start.offset.toNat :=
    ByteArray.numberAt_slice rfl d.start.offset.toNat_lt
  have hsegment : d.encode.numberAt (startOffset + 2) 2 = d.start.segment.toNat :=
    ByteArray.numberAt_slice rfl d.start.segment.toNat_lt
  have hbyte : ∀ i, d.encode.byteAt i = d.toList.getD i 0 := ByteArray.byteAt_toByteArray d.toList
  have hformat : Format.ofCode? (d.encode.byteAt 0) = some d.geometry.format := by
    rw [hbyte]
    exact Format.ofCode?_code _
  have hstart : FarPtr.decode d.encode startOffset = d.start := by
    unfold FarPtr.decode
    rw [hoffset, hsegment, h16, h16]
  unfold decode
  rw [if_neg (by rw [size_encode]; exact Nat.lt_irrefl _), hformat, htable, hdata, hcluster,
    hentries, hfirst, hbytes, hbanks, hstart]
  simp only [hbyte, h32, h16]
  show (Geometry.check d.geometry.format d.geometry.tableBase d.geometry.dataBase
    d.geometry.clusterSize d.geometry.entryCount >>= _) = _
  rw [Geometry.check_self]
  rfl

/-! ## Byte strings that spell a descriptor -/

/-- What a byte string has to spell to be read as a descriptor. -/
structure Spells (b : ByteArray) : Prop where
  long : encodedSize ≤ b.size
  /-- The table format has a number. -/
  format : b.byteAt 0 = 1 ∨ b.byteAt 0 = 2 ∨ b.byteAt 0 = 3
  clusterSize : (b.numberAt 9 2).isPowerOfTwo
  entryCount : 3 ≤ b.numberAt 11 4
  tableBase : b.numberAt 1 4 ≤ b.numberAt 5 4
  dataEnd : b.numberAt 5 4 + b.numberAt 9 2 * (b.numberAt 11 4 - 2) < 0x100000000

variable {b : ByteArray}

/-- The numbers of a geometry fit the fields they are read from. -/
theorem Spells.consistent (h : Spells b) :
    Geometry.Consistent (b.numberAt 1 4) (b.numberAt 5 4) (b.numberAt 9 2) (b.numberAt 11 4) where
  clusterSize_pow := h.clusterSize
  clusterSize_lt := b.numberAt_lt 9 2
  two_lt_entryCount := h.entryCount
  entryCount_lt := b.numberAt_lt 11 4
  tableBase_le := h.tableBase
  dataEnd_lt := h.dataEnd

/-- The descriptor in the fields of a byte string. -/
def ofFields (b : ByteArray) (format : Format)
    (h : Geometry.Consistent (b.numberAt 1 4) (b.numberAt 5 4) (b.numberAt 9 2)
      (b.numberAt 11 4)) : BootDescriptor where
  geometry := ⟨format, b.numberAt 1 4, b.numberAt 5 4, b.numberAt 9 2, b.numberAt 11 4, h⟩
  cluster := (b.numberAt 15 4).toUInt32
  size := (b.numberAt 19 4).toUInt32
  romBanks := (b.numberAt 23 2).toUInt16
  sramMask := b.byteAt 25
  power := ⟨b.byteAt 26⟩
  eepromControl := b.byteAt 27
  imageFlags := ⟨b.byteAt 28⟩
  colorFlags := ⟨b.byteAt 29⟩
  patches := ⟨b.byteAt 30⟩
  start := .decode b startOffset

/-- **A byte string is read exactly when it spells a descriptor.** A short one is no
descriptor, and a long one fails only in its geometry. -/
theorem decode_cases (b : ByteArray) :
    (Spells b ∧ ∃ format h, Format.ofCode? (b.byteAt 0) = some format ∧
        decode b = .ok (ofFields b format h)) ∨
      (¬ Spells b ∧
        decode b = .error (if b.size < encodedSize then .formatInvalid else .invalidGeometry)) := by
  unfold decode
  by_cases hsize : b.size < encodedSize
  · rw [if_pos hsize, if_pos hsize]
    exact .inr ⟨fun h => Nat.not_lt.mpr h.long hsize, rfl⟩
  rw [if_neg hsize, if_neg hsize]
  cases hformat : Format.ofCode? (b.byteAt 0) with
  | none => exact .inr ⟨fun h => Format.not_code_of_ofCode? hformat h.format, rfl⟩
  | some format =>
      by_cases hgeometry : Geometry.Consistent (b.numberAt 1 4) (b.numberAt 5 4) (b.numberAt 9 2)
        (b.numberAt 11 4)
      · refine .inl ⟨?_, format, hgeometry, rfl, ?_⟩
        · exact ⟨Nat.not_lt.mp hsize, Format.ofCode?_range hformat, hgeometry.clusterSize_pow,
            hgeometry.two_lt_entryCount, hgeometry.tableBase_le, hgeometry.dataEnd_lt⟩
        · simp only [Geometry.check, dif_pos hgeometry]
          rfl
      · refine .inr ⟨fun h => hgeometry h.consistent, ?_⟩
        simp only [Geometry.check, dif_neg hgeometry]
        rfl

/-- The fields of a byte string lie one behind the other, from its first byte on. -/
theorem encode_ofFields {format : Format}
    {h : Geometry.Consistent (b.numberAt 1 4) (b.numberAt 5 4) (b.numberAt 9 2)
      (b.numberAt 11 4)}
    (hsize : encodedSize ≤ b.size) (hformat : Format.ofCode? (b.byteAt 0) = some format) :
    (ofFields b format h).encode = b.extract 0 encodedSize := by
  have h16 : ∀ i, (b.numberAt i 2).toUInt16.toNat = b.numberAt i 2 := fun i =>
    UInt16.toNat_ofNat_of_lt' (b.numberAt_lt i 2)
  have h32 : ∀ i, (b.numberAt i 4).toUInt32.toNat = b.numberAt i 4 := fun i =>
    UInt32.toNat_ofNat_of_lt' (b.numberAt_lt i 4)
  rw [← ByteArray.toByteArray_map_byteAt hsize, encode]
  congr 1
  simp only [toList, ofFields, FarPtr.toList, FarPtr.decode, h16, h32,
    Format.code_of_ofCode? hformat, ByteArray.littleEndian_numberAt]
  rfl

/-- **Writing and reading a descriptor undo each other.** Every descriptor is read back from
its encoding. A byte string is read exactly when it spells a descriptor, and what is read
then encodes to the bytes it came from. -/
theorem decode_inverts_encode (d : BootDescriptor) (b : ByteArray) :
    decode d.encode = .ok d ∧
      ((Spells b ∧ ∃ d', decode b = .ok d' ∧ d'.encode = b.extract 0 encodedSize) ∨
        (¬ Spells b ∧
          decode b =
            .error (if b.size < encodedSize then .formatInvalid else .invalidGeometry))) := by
  refine ⟨decode_encode d, ?_⟩
  rcases decode_cases b with ⟨hspells, format, h, hformat, hdecode⟩ | hfails
  · exact .inl ⟨hspells, _, hdecode, encode_ofFields hspells.long hformat⟩
  · exact .inr hfails

end BootDescriptor

end CartBoot
