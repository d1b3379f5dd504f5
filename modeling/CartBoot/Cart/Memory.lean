import CartBoot.Cart.Address

/-!
# Banked memory

A cartridge memory is a whole number of banks, and that number has 16 bits, so that a
memory always ends short of the last bank a bank number can name. A bank number selects
one of the banks, modulo the number of banks present, and a place in the memory is a bank number
and an offset into that bank. Reading past the end of the memory gives fewer
bytes, and writing past it does nothing there.
-/

namespace CartBoot

/-- First number of banks that does not fit 16 bits. -/
def bankLimit : Nat := 0x10000

/-- A memory of whole banks. -/
structure BankedMemory where
  bytes : ByteArray
  /-- The last bank is complete. -/
  whole : bytes.size % bankSize = 0
  count_lt : bytes.size / bankSize < bankLimit

namespace BankedMemory

def erased (banks : UInt16) : BankedMemory where
  bytes := .replicate (bankSize * banks.toNat) 0xFF
  whole := by simp
  count_lt := by
    rw [ByteArray.size_replicate, Nat.mul_div_cancel_left _ (by decide)]
    exact banks.toNat_lt

def bankCount (m : BankedMemory) : Nat :=
  m.bytes.size / bankSize

def bankStart (m : BankedMemory) (bank : UInt16) : Nat :=
  bankSize * (bank.toNat % m.bankCount)

/-- The `len` bytes at `offset` of a bank. -/
def read (m : BankedMemory) (bank : UInt16) (offset len : Nat) : ByteArray :=
  m.bytes.extract (m.bankStart bank + offset) (m.bankStart bank + offset + len)

def write (m : BankedMemory) (bank : UInt16) (offset : Nat) (data : ByteArray) : BankedMemory where
  bytes := m.bytes.patch (m.bankStart bank + offset) data
  whole := by simp [m.whole]
  count_lt := by simp [m.count_lt]

@[simp] theorem bankCount_erased (banks : UInt16) : (erased banks).bankCount = banks.toNat := by
  simp [bankCount, erased, bankSize]

@[simp] theorem bankCount_write (m : BankedMemory) (bank : UInt16) (offset : Nat)
    (data : ByteArray) : (m.write bank offset data).bankCount = m.bankCount := by
  simp [bankCount, write]

theorem bankCount_lt (m : BankedMemory) : m.bankCount < bankLimit :=
  m.count_lt

theorem size_eq (m : BankedMemory) : m.bytes.size = bankSize * m.bankCount :=
  (Nat.mul_div_cancel' (Nat.dvd_of_mod_eq_zero m.whole)).symm

end BankedMemory

end CartBoot
