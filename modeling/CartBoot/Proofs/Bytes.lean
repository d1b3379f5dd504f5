import CartBoot.Bytes

/-!
# Stretches of byte strings

Overwriting and slicing, beyond the law about single bytes: adjacent stretches are
one stretch, what is written is read back, and slices elsewhere stay as they are.
-/

namespace ByteArray

variable {b src : ByteArray} {start stop : Nat}

theorem byteAt_toByteArray (l : List UInt8) (i : Nat) : l.toByteArray.byteAt i = l.getD i 0 := by
  rw [List.getD_eq_getElem?_getD]
  by_cases h : i < l.length
  · rw [byteAt_of_lt (by rw [List.size_toByteArray]; exact h), List.getElem?_eq_getElem h,
      ByteArray.getElem_eq_getElem_data]
    simp
  · rw [byteAt_of_le (by rw [List.size_toByteArray]; omega),
      List.getElem?_eq_none (Nat.not_lt.mp h)]
    rfl

theorem byteAt_replicate (n : Nat) (x : UInt8) (i : Nat) :
    (replicate n x).byteAt i = if i < n then x else 0 :=
  byteAt_tabulate n _ i

theorem replicate_append (m n : Nat) (x : UInt8) :
    replicate m x ++ replicate n x = replicate (m + n) x := by
  refine ext_byteAt (by rw [size_append, size_replicate, size_replicate, size_replicate]) ?_
  intro i hi
  rw [size_append, size_replicate, size_replicate] at hi
  rw [byteAt_append, size_replicate, byteAt_replicate, byteAt_replicate, byteAt_replicate,
    if_pos hi]
  split
  · rfl
  · rw [if_pos (by omega)]

/-- Outside the stretch the bytes stay. -/
theorem byteAt_patch_of_not_mem {i : Nat} (h : i < start ∨ start + src.size ≤ i) :
    (b.patch start src).byteAt i = b.byteAt i := by
  by_cases hi : i < b.size
  · rw [byteAt_patch _ _ _ _ hi, if_neg (by omega)]
  · rw [byteAt_of_le (by rw [size_patch]; omega), byteAt_of_le (by omega)]

/-- Nothing is written by an empty stretch. -/
theorem patch_of_size_eq_zero (h : src.size = 0) : b.patch start src = b := by
  refine ext_byteAt (size_patch _ _ _) ?_
  intro i _
  exact byteAt_patch_of_not_mem (by omega)

/-- A stretch that fits parts the bytes before it from those after it. -/
theorem patch_eq_append (h : start + src.size ≤ b.size) :
    b.patch start src = b.extract 0 start ++ src ++ b.extract (start + src.size) b.size := by
  unfold patch
  rw [copySlice_eq_append, Nat.min_eq_left (by omega), Nat.zero_add]
  simp only [size_data, Nat.sub_zero, Nat.min_self, extract_zero_size]

/-- Adjacent stretches are one stretch. -/
theorem patch_patch_append (b : ByteArray) (start : Nat) (x y : ByteArray) :
    (b.patch start x).patch (start + x.size) y = b.patch start (x ++ y) := by
  refine ext_byteAt (by simp only [size_patch]) ?_
  intro i hi
  simp only [size_patch] at hi
  rw [byteAt_patch _ _ _ _ (by rw [size_patch]; exact hi), byteAt_patch _ _ _ _ hi,
    byteAt_patch _ _ _ _ hi, byteAt_append, size_append, Nat.sub_sub]
  by_cases hlow : i < start + x.size
  · by_cases hstart : start ≤ i
    · rw [if_neg (by omega), if_pos ⟨hstart, hlow⟩, if_pos (by omega), if_pos (by omega)]
    · rw [if_neg (by omega), if_neg (by omega), if_neg (by omega)]
  · by_cases hstop : i < start + x.size + y.size
    · rw [if_pos (by omega), if_pos (by omega), if_neg (by omega)]
    · rw [if_neg (by omega), if_neg (by omega), if_neg (by omega)]

/-- A beginning that is written and the slice behind it are one beginning. -/
theorem patch_extract_append {data : ByteArray} {p : Nat} (hp : p ≤ data.size) (n : Nat) :
    (b.patch 0 (data.extract 0 p)).patch p (data.extract p (p + n))
      = b.patch 0 (data.extract 0 (p + n)) := by
  have hbefore : (data.extract 0 p).size = p := by
    rw [size_extract]
    omega
  have hjoin := patch_patch_append b 0 (data.extract 0 p) (data.extract p (p + n))
  rwa [Nat.zero_add, hbefore, ← extract_eq_extract_append_extract p (Nat.zero_le _)
    (Nat.le_add_right _ _)] at hjoin

/-- A slice of a beginning. -/
theorem extract_extract_zero {n : Nat} (h : stop ≤ n) :
    (b.extract 0 n).extract start stop = b.extract start stop := by
  rw [extract_extract, Nat.zero_add, Nat.zero_add, Nat.min_eq_left h]

/-- A slice that an overwrite does not meet is as it was. -/
theorem extract_patch_of_le {offset : Nat} (h : stop ≤ offset) :
    (b.patch offset src).extract start stop = b.extract start stop := by
  refine ext_byteAt (by simp only [size_extract, size_patch]) ?_
  intro i hi
  rw [size_extract, size_patch] at hi
  rw [byteAt_extract, byteAt_extract, size_patch, if_pos hi, if_pos hi,
    byteAt_patch _ _ _ _ (by omega), if_neg (by omega)]

theorem extract_patch_of_ge {offset : Nat} (h : offset + src.size ≤ start) :
    (b.patch offset src).extract start stop = b.extract start stop := by
  refine ext_byteAt (by simp only [size_extract, size_patch]) ?_
  intro i hi
  rw [size_extract, size_patch] at hi
  rw [byteAt_extract, byteAt_extract, size_patch, if_pos hi, if_pos hi,
    byteAt_patch_of_not_mem (by omega)]

/-- A slice around an overwrite is the overwritten slice. -/
theorem extract_patch_within {offset : Nat} (h : stop ≤ b.size) :
    (b.patch (start + offset) src).extract start stop
      = (b.extract start stop).patch offset src := by
  refine ext_byteAt (by simp only [size_extract, size_patch]) ?_
  intro i hi
  rw [size_extract, size_patch] at hi
  rw [byteAt_extract, size_patch, if_pos hi, byteAt_patch _ _ _ _ (by omega),
    byteAt_patch _ _ _ _ (by rw [size_extract]; omega), byteAt_extract, if_pos hi]
  by_cases hin : offset ≤ i ∧ i < offset + src.size
  · rw [if_pos (by omega), if_pos hin]
    congr 1
    omega
  · rw [if_neg (by omega), if_neg hin]

/-- The end of a byte string is overwritten by another of its size. -/
theorem patch_append_right {a c : ByteArray} (h : c.size = b.size) :
    (a ++ b).patch a.size c = a ++ c := by
  have hfit : a.size + c.size = (a ++ b).size := by rw [size_append, h]
  rw [patch_eq_append (Nat.le_of_eq hfit), hfit, extract_append_eq_left rfl, extract_same,
    append_empty]

/-- A slice says what its bytes are. -/
theorem byteAt_of_extract {data : ByteArray} (h : b.extract start (start + data.size) = data)
    {i : Nat} (hi : i < data.size) : b.byteAt (start + i) = data.byteAt i := by
  have hsize := congrArg ByteArray.size h
  rw [size_extract] at hsize
  have hbyte : (b.extract start (start + data.size)).byteAt i = data.byteAt i :=
    congrArg (byteAt · i) h
  rwa [byteAt_extract, if_pos (by omega)] at hbyte

/-- What has been written can be read back. -/
theorem extract_patch_self (h : start + src.size ≤ b.size) :
    (b.patch start src).extract start (start + src.size) = src := by
  refine ext_byteAt (by simp only [size_extract, size_patch]; omega) ?_
  intro i hi
  rw [size_extract, size_patch] at hi
  rw [byteAt_extract, size_patch, if_pos hi, byteAt_patch _ _ _ _ (by omega), if_pos (by omega),
    Nat.add_sub_cancel_left]

end ByteArray
