import CartBoot.Proofs.Selection
import CartBoot.Proofs.Transfer

/-!
# Places of linear addresses

A range may be longer than the memory it is copied from or to. A bank number counts
modulo the banks that are there, so every linear address has its place in the memory,
and a byte that comes to a place twice stays as it came last. `Stored` says that of
all bytes of a range at once; in a memory that has the whole range it is one stretch
that is overwritten.
-/

namespace CartBoot

/-! ## Places of linear addresses -/

theorem BankedAddr.toNat_offset_ofLinear (n : Nat) : (ofLinear n).offset.toNat = n % bankSize :=
  UInt16.toNat_ofNat_of_lt' (Nat.mod_lt n (by decide))

namespace BankedMemory

/-- Where a memory has the byte of a linear address. -/
def place (m : BankedMemory) (n : Nat) : Nat :=
  m.bankStart (BankedAddr.ofLinear n).bank + (BankedAddr.ofLinear n).offset.toNat

/-- The bytes of a range of linear addresses. -/
def rangeBytes (m : BankedMemory) (start len : Nat) : ByteArray :=
  .tabulate len fun i => m.bytes.byteAt (m.place (start + i))

variable {m : BankedMemory} {n i : Nat}

theorem place_eq (h : n < 0x100000000) :
    m.place n = bankSize * (n / bankSize % m.bankCount) + n % bankSize := by
  unfold place bankStart
  rw [BankedAddr.toNat_bank_ofLinear h, BankedAddr.toNat_offset_ofLinear]

/-- Addresses of one bank are next to each other. -/
theorem place_add (hbank : n % bankSize + i < bankSize) (h : n + i < 0x100000000) :
    m.place (n + i) = m.place n + i := by
  have hquotient : (n + i) / bankSize = n / bankSize := by
    unfold bankSize at hbank ⊢
    omega
  have hrest : (n + i) % bankSize = n % bankSize + i := by
    unfold bankSize at hbank ⊢
    omega
  rw [place_eq h, place_eq (by omega), hquotient, hrest, Nat.add_assoc]

/-- A memory that is there has a place for every address. -/
theorem place_add_le (hcount : 0 < m.bankCount) (h : n < 0x100000000)
    (hbank : n % bankSize + i ≤ bankSize) : m.place n + i ≤ m.bytes.size := by
  have hpresent := Nat.mod_lt (n / bankSize) hcount
  rw [place_eq h, m.size_eq]
  unfold bankSize at hbank hpresent ⊢
  omega

/-- Places depend on the number of banks. -/
theorem place_congr {m' : BankedMemory} (h : m'.bytes.size = m.bytes.size) :
    m'.place = m.place := by
  unfold place bankStart bankCount
  rw [h]

/-- A read within a bank gives the bytes of a range. -/
theorem read_ofLinear (hcount : 0 < m.bankCount) (h : n + i ≤ 0x100000000)
    (hbank : n % bankSize + i ≤ bankSize) :
    m.read (BankedAddr.ofLinear n).bank (BankedAddr.ofLinear n).offset.toNat i
      = m.rangeBytes n i := by
  rcases Nat.eq_zero_or_pos i with rfl | hi
  · exact ByteArray.extract_same.trans rfl
  have hle : m.place n + i ≤ m.bytes.size := place_add_le hcount (by omega) hbank
  show m.bytes.extract (m.place n) (m.place n + i) = m.rangeBytes n i
  refine ByteArray.ext_byteAt ?_ ?_
  · rw [ByteArray.size_extract, rangeBytes, ByteArray.size_tabulate]
    omega
  · intro k hk
    rw [ByteArray.size_extract] at hk
    rw [ByteArray.byteAt_extract, if_pos hk, rangeBytes, ByteArray.byteAt_tabulate,
      if_pos (by omega), place_add (by omega) (by omega)]

/-- A write within a bank stores its bytes at the places of their addresses. -/
theorem byteAt_write_ofLinear {x : ByteArray} {a : Nat} (hbank : n % bankSize + x.size ≤ bankSize)
    (h : n + x.size ≤ 0x100000000) (ha : a < m.bytes.size) :
    (m.write (BankedAddr.ofLinear n).bank (BankedAddr.ofLinear n).offset.toNat x).bytes.byteAt a
      = storeAlong (fun i => some (m.place (n + i))) x.byteAt m.bytes.byteAt x.size a := by
  show (m.bytes.patch (m.place n) x).byteAt a = _
  rw [ByteArray.byteAt_patch _ _ _ _ ha]
  refine (storeAlong_straight (fun i hi => ?_) a).symm
  rw [place_add (by omega) (by omega)]

theorem rangeBytes_append (m : BankedMemory) (start len n : Nat) :
    m.rangeBytes start len ++ m.rangeBytes (start + len) n = m.rangeBytes start (len + n) := by
  refine ByteArray.ext_byteAt ?_ ?_
  · unfold rangeBytes
    simp only [ByteArray.size_append, ByteArray.size_tabulate]
  · intro k hk
    unfold rangeBytes at hk ⊢
    simp only [ByteArray.size_append, ByteArray.size_tabulate] at hk
    simp only [ByteArray.byteAt_append, ByteArray.byteAt_tabulate, ByteArray.size_tabulate]
    by_cases hlow : k < len
    · rw [if_pos hlow, if_pos hlow, if_pos (by omega)]
    · rw [if_neg hlow, if_pos (by omega), if_pos hk]
      congr 2
      omega

end BankedMemory

namespace Machine

/-- `data` was stored byte by byte at the places of the addresses from `start` on, in the memory
shown with that flash enable, and nothing else has changed in any memory. -/
structure Stored (m : Machine) (flash : Bool) (start : Nat) (data : ByteArray) (m' : Machine) :
    Prop where
  size : (m'.ram flash).bytes.size = (m.ram flash).bytes.size
  bytes (a : Nat) : a < (m.ram flash).bytes.size → (m'.ram flash).bytes.byteAt a =
    storeAlong (fun i => some ((m.ram flash).place (start + i))) data.byteAt
      (m.ram flash).bytes.byteAt data.size a
  other : m'.ram (!flash) = m.ram (!flash)
  iram : m'.iram = m.iram

variable {m m' m'' : Machine} {flash : Bool} {start n : Nat} {x y : ByteArray}

theorem SameMemory.stored (h : m.SameMemory m') : m.Stored flash start .empty m' where
  size := by rw [h.ram]
  bytes := fun _ _ => by rw [h.ram]; rfl
  other := h.ram _
  iram := h.iram

theorem Stored.of_same {n n' : Machine} (h : m.Stored flash start x m') (hm : n.SameMemory m)
    (hm' : m'.SameMemory n') : n.Stored flash start x n' where
  size := by rw [hm'.ram, h.size, hm.ram]
  bytes := by
    rw [hm'.ram, ← hm.ram]
    exact h.bytes
  other := by rw [hm'.ram, h.other, hm.ram]
  iram := hm'.iram.trans (h.iram.trans hm.iram)

/-- Adjacent pieces are one piece. -/
theorem Stored.append (h : m.Stored flash start x m')
    (h' : m'.Stored flash (start + x.size) y m'') :
    m.Stored flash start (x ++ y) m'' where
  size := h'.size.trans h.size
  bytes := by
    intro a ha
    have hfirst : (m'.ram flash).bytes.byteAt a
        = storeAlong (fun i => some ((m.ram flash).place (start + i))) (x ++ y).byteAt
            (m.ram flash).bytes.byteAt x.size a := by
      rw [h.bytes a ha]
      refine congrFun (storeAlong_congr (fun _ _ => rfl) fun i hi => ?_) a
      rw [ByteArray.byteAt_append, if_pos hi]
    rw [h'.bytes a (by rw [h.size]; exact ha), storeAlong_congr_byte hfirst,
      BankedMemory.place_congr h.size, ByteArray.size_append, storeAlong_add]
    refine congrFun (storeAlong_congr (fun i _ => ?_) fun i _ => ?_) a
    · rw [Nat.add_assoc]
    · rw [ByteArray.byteAt_append, if_neg (by omega), Nat.add_sub_cancel_left]
  other := h'.other.trans h.other
  iram := h'.iram.trans h.iram

/-- In a memory that has the whole range, that is an overwritten stretch. -/
theorem Stored.loaded (h : m.Stored flash start x m')
    (hfit : start + x.size ≤ (m.ram flash).bytes.size) (h32 : start + x.size ≤ 0x100000000) :
    m.Loaded flash start x m' where
  bytes := by
    refine ByteArray.ext_byteAt (by rw [h.size, ByteArray.size_patch]) ?_
    intro a ha
    rw [h.size] at ha
    rw [h.bytes a ha, ByteArray.byteAt_patch _ _ _ _ ha]
    refine storeAlong_straight (fun i hi => ?_) a
    exact congrArg some (BankedMemory.bankStart_ofLinear (by omega) (by omega))
  other := h.other
  iram := h.iram

/-- Bytes put into the RAM window are stored from the place that bank and offset say. -/
theorem stored_setWindowBytes (hbank : m.banks .ram = (BankedAddr.ofLinear n).bank)
    (hin : n % bankSize + x.size ≤ bankSize) (h32 : n + x.size ≤ 0x100000000) :
    m.Stored m.flash n x (m.setWindowBytes .ram (BankedAddr.ofLinear n).offset.toNat x) := by
  have hbytes := fun a => BankedMemory.byteAt_write_ofLinear (m := m.ram m.flash) (a := a) hin h32
  have hsize := ByteArray.size_patch (m.ram m.flash).bytes ((m.ram m.flash).place n) x
  unfold setWindowBytes showsSram
  cases hflash : m.flash with
  | true =>
      rw [hflash] at hbytes hsize
      rw [if_neg (by decide), hbank]
      exact ⟨hsize, hbytes, rfl, rfl⟩
  | false =>
      rw [hflash] at hbytes hsize
      rw [if_pos (by decide), hbank]
      exact ⟨hsize, hbytes, rfl, rfl⟩

end Machine

end CartBoot
