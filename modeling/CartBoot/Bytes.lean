/-!
# Byte strings

Memories, sectors and files are `ByteArray`s. Three things are done with them
everywhere: a byte is looked at, a stretch is overwritten in place, and a
little-endian number is read or written at an offset. Looking past the end gives
`0` and overwriting past the end does nothing there, so each operation is total
and has one law about the byte at each position.
-/

namespace ByteArray

/-- The byte at `i`, or `0` past the end. -/
def byteAt (b : ByteArray) (i : Nat) : UInt8 :=
  if h : i < b.size then b[i] else 0

/-- The `n` bytes `f 0, …, f (n - 1)`. -/
def tabulate (n : Nat) (f : Nat → UInt8) : ByteArray :=
  ⟨Array.ofFn fun i : Fin n => f i⟩

def replicate (n : Nat) (x : UInt8) : ByteArray :=
  tabulate n fun _ => x

/-- Overwrite `b` from `start` on with `src`; what would fall past the end is dropped. -/
def patch (b : ByteArray) (start : Nat) (src : ByteArray) : ByteArray :=
  src.copySlice 0 b start (min src.size (b.size - start))

/-- The little-endian number in the `width` bytes at `i`. -/
def numberAt (b : ByteArray) (i : Nat) : (width : Nat) → Nat
  | 0 => 0
  | width + 1 => (b.byteAt i).toNat + 256 * b.numberAt (i + 1) width

/-- The low `width` bytes of `n`, least significant first. -/
def littleEndian : (width : Nat) → (n : Nat) → List UInt8
  | 0, _ => []
  | width + 1, n => n.toUInt8 :: littleEndian width (n / 256)

/-- Overwrite the `width` bytes at `i` with the little-endian form of `n`. -/
def putNumber (b : ByteArray) (i width n : Nat) : ByteArray :=
  b.patch i (littleEndian width n).toByteArray

/-! ## Laws -/

theorem byteAt_of_lt {b : ByteArray} {i : Nat} (h : i < b.size) : b.byteAt i = b[i] := by
  simp [byteAt, h]

theorem byteAt_of_le {b : ByteArray} {i : Nat} (h : b.size ≤ i) : b.byteAt i = 0 := by
  simp [byteAt, Nat.not_lt.mpr h]

@[simp] theorem size_tabulate (n : Nat) (f : Nat → UInt8) : (tabulate n f).size = n := by
  simp [tabulate, ByteArray.size]

theorem byteAt_tabulate (n : Nat) (f : Nat → UInt8) (i : Nat) :
    (tabulate n f).byteAt i = if i < n then f i else 0 := by
  by_cases h : i < n
  · rw [byteAt_of_lt (by simpa using h), if_pos h]
    simp [tabulate, ByteArray.getElem_eq_getElem_data]
  · rw [byteAt_of_le (by simpa using Nat.not_lt.mp h), if_neg h]

@[simp] theorem size_replicate (n : Nat) (x : UInt8) : (replicate n x).size = n := by
  simp [replicate]

/-- Two byte strings of one length that agree everywhere are equal. -/
theorem ext_byteAt {a b : ByteArray} (hsize : a.size = b.size)
    (h : ∀ i, i < a.size → a.byteAt i = b.byteAt i) : a = b := by
  refine ByteArray.ext_getElem hsize ?_
  intro i hi hi'
  rw [← byteAt_of_lt hi, ← byteAt_of_lt hi']
  exact h i hi

@[simp] theorem size_patch (b : ByteArray) (start : Nat) (src : ByteArray) :
    (b.patch start src).size = b.size := by
  simp only [patch, copySlice_eq_append, size_append, size_extract, size_data]
  omega

theorem byteAt_append (a b : ByteArray) (i : Nat) :
    (a ++ b).byteAt i = if i < a.size then a.byteAt i else b.byteAt (i - a.size) := by
  by_cases h : i < a.size
  · rw [byteAt_of_lt (by rw [size_append]; omega), if_pos h, byteAt_of_lt h]
    exact getElem_append_left h
  · rw [if_neg h]
    by_cases h' : i < a.size + b.size
    · rw [byteAt_of_lt (by rw [size_append]; omega), byteAt_of_lt (by omega)]
      exact getElem_append_right (Nat.not_lt.mp h)
    · rw [byteAt_of_le (by rw [size_append]; omega), byteAt_of_le (by omega)]

theorem byteAt_extract (b : ByteArray) (start stop i : Nat) :
    (b.extract start stop).byteAt i =
      if i < min stop b.size - start then b.byteAt (start + i) else 0 := by
  have hs : (b.extract start stop).size = min stop b.size - start := size_extract
  by_cases h : i < min stop b.size - start
  · rw [byteAt_of_lt (by omega), if_pos h, byteAt_of_lt (by omega)]
    exact getElem_extract (by omega)
  · rw [byteAt_of_le (by omega), if_neg h]

/-- **Overwriting, byte by byte.** Inside the stretch the new bytes, elsewhere the old. -/
theorem byteAt_patch (b : ByteArray) (start : Nat) (src : ByteArray) (i : Nat)
    (hi : i < b.size) :
    (b.patch start src).byteAt i =
      if start ≤ i ∧ i < start + src.size then src.byteAt (i - start) else b.byteAt i := by
  simp only [patch, copySlice_eq_append, byteAt_append, byteAt_extract, size_append,
    size_extract, size_data]
  by_cases h1 : i < start
  · rw [if_pos (by omega), if_pos (by omega), if_pos (by omega), if_neg (by omega)]
    simp
  · by_cases h2 : i < start + src.size
    · rw [if_pos (by omega), if_neg (by omega), if_pos (by omega), if_pos (by omega)]
      congr 1
      omega
    · rw [if_neg (by omega), if_pos (by omega), if_neg (by omega)]
      congr 1
      omega

end ByteArray
