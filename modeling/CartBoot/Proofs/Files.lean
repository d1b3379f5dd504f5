import CartBoot.Proofs.Bytes
import CartBoot.Proofs.Chains

/-!
# Chains are plain files

A volume on a device that does not fail is a set of plain files, one byte string
for each chain. Opening, seeking, reading, writing and filling give the same
answers on either side, over any run: bulk transfers, the window, folded runs and
the order of the clusters on the medium make no difference.

A request that stays inside the file does what it says. One that runs past the end
fails with an integrity error, and a write has stored what fits. A cursor that has
failed gives the same error until a file is opened again.

The relation between the sides is `Represents`: the medium holds the contents of
every file, the cursors are at the same position, and the chain cursor is on the
cluster of the byte before it.
-/

namespace CartBoot

open Fat

variable {ι : Type}

/-! ## Plain files -/

/-- Byte strings with names, and a cursor on one of them. -/
structure Files (ι : Type) where
  contents : ι → ByteArray
  /-- The open file. -/
  file : ι
  position : Nat := 0
  /-- The error that made the cursor unusable. -/
  failure : Option Error := none

namespace Files

/-- The contents of the open file. -/
def bytes (f : Files ι) : ByteArray :=
  f.contents f.file

/-- A transfer of `len` bytes gets no further than the last word, be it that it ends there or that
the open file does. A cursor that has failed gets nowhere. -/
def Within (f : Files ι) (len : Nat) : Prop :=
  f.failure = none → f.position + len < wordLimit ∨ f.bytes.size < wordLimit

/-- Refuse to work on a cursor that has failed before. -/
def guarded {α : Type} (operation : EStateM Error (Files ι) α) : EStateM Error (Files ι) α :=
  fun f =>
    match f.failure with
    | some e => .error e f
    | none => operation f

/-- Fail at the end of the open file. -/
def pastEnd {α : Type} : EStateM Error (Files ι) α := fun f =>
  .error .integrity { f with position := f.bytes.size, failure := some .integrity }

def seek (position : Nat) : EStateM Error (Files ι) Unit :=
  guarded (modify fun f => { f with position })

def read (len : Nat) : EStateM Error (Files ι) ByteArray :=
  guarded fun f =>
    let stop := f.position + len
    if stop ≤ f.bytes.size then
      .ok (f.bytes.extract f.position stop) { f with position := stop }
    else
      pastEnd f

variable [DecidableEq ι]

/-- Overwrite the open file from the cursor on, as far as it goes. -/
def patch (data : ByteArray) (f : Files ι) : Files ι :=
  { f with contents := fun i =>
      if i = f.file then (f.contents i).patch f.position data else f.contents i }

def write (data : ByteArray) : EStateM Error (Files ι) Unit :=
  guarded fun f =>
    let stop := f.position + data.size
    if stop ≤ f.bytes.size then
      .ok () { f.patch data with position := stop }
    else
      pastEnd (f.patch data)

def fill (value : UInt8) (len : Nat) : EStateM Error (Files ι) Unit :=
  if len = 0 then pure () else write (.replicate len value)

/-- Carry out a request; the answer of a read is what was read. -/
def perform : Request → EStateM Error (Files ι) ByteArray
  | .seek position => do
      seek position.toNat
      return .empty
  | .read len => read len
  | .write data => do
      write data
      return .empty
  | .fill value len => do
      fill value len
      return .empty

end Files

/-! ## Filling in pieces -/

/-- Two stretches of one value are one stretch. -/
theorem patch_replicate {n len : Nat} (hn : n ≤ len) (b : ByteArray) (start : Nat)
    (value : UInt8) :
    (b.patch start (.replicate n value)).patch (start + n) (.replicate (len - n) value)
      = b.patch start (.replicate len value) := by
  have h := ByteArray.patch_patch_append b start (.replicate n value) (.replicate (len - n) value)
  rwa [ByteArray.size_replicate, ByteArray.replicate_append, Nat.add_sub_cancel' hn] at h

/-- Past the end it makes no difference how much is written. -/
theorem patch_replicate_of_le {n len start : Nat} {b : ByteArray} (hn : n ≤ len)
    (hend : b.size ≤ start + n) (value : UInt8) :
    b.patch start (.replicate n value) = b.patch start (.replicate len value) := by
  refine ByteArray.ext_byteAt (by simp only [ByteArray.size_patch]) ?_
  intro i hi
  simp only [ByteArray.size_patch] at hi
  rw [ByteArray.byteAt_patch _ _ _ _ hi, ByteArray.byteAt_patch _ _ _ _ hi]
  simp only [ByteArray.size_replicate, ByteArray.byteAt_replicate]
  by_cases h : start ≤ i
  · rw [if_pos (by omega), if_pos (by omega), if_pos (by omega), if_pos (by omega)]
  · rw [if_neg (by omega), if_neg (by omega)]

namespace Files

section Guard

variable {α : Type} {operation : EStateM Error (Files ι) α} {f : Files ι}

theorem guarded_of_failed {e : Error} (h : f.failure = some e) :
    guarded operation f = .error e f := by
  unfold guarded
  rw [h]

theorem guarded_of_none (h : f.failure = none) : guarded operation f = operation f := by
  unfold guarded
  rw [h]

end Guard

theorem read_of_failed {f : Files ι} {e : Error} (h : f.failure = some e) (len : Nat) :
    read len f = .error e f :=
  guarded_of_failed h

theorem read_of_le {f : Files ι} {len : Nat} (h : f.failure = none)
    (hfit : f.position + len ≤ f.bytes.size) :
    read len f = .ok (f.bytes.extract f.position (f.position + len))
      { f with position := f.position + len } := by
  refine (guarded_of_none h).trans ?_
  exact if_pos hfit

theorem read_of_lt {f : Files ι} {len : Nat} (h : f.failure = none)
    (hpast : f.bytes.size < f.position + len) :
    read len f = .error .integrity
      { f with position := f.bytes.size, failure := some .integrity } := by
  refine (guarded_of_none h).trans ?_
  exact if_neg (Nat.not_le.mpr hpast)

/-- A piece of a transfer gets no further than the whole. -/
theorem Within.of_add {f : Files ι} {n rest : Nat} (h : f.Within (n + rest)) : f.Within n :=
  fun hf => (h hf).imp (fun hlt => by omega) id

theorem contents_read (len : Nat) (f : Files ι) :
    (outcome (read len f)).2.contents = f.contents := by
  cases hf : f.failure with
  | some e => rw [read_of_failed hf]; rfl
  | none =>
      by_cases hfit : f.position + len ≤ f.bytes.size
      · rw [read_of_le hf hfit]; rfl
      · rw [read_of_lt hf (Nat.not_le.mp hfit)]; rfl

theorem contents_seek (position : Nat) (f : Files ι) :
    (outcome (seek position f)).2.contents = f.contents := by
  unfold seek
  cases hf : f.failure with
  | some e => rw [guarded_of_failed hf]; rfl
  | none => rw [guarded_of_none hf]; rfl

variable [DecidableEq ι] {f : Files ι}

theorem size_contents_patch (f : Files ι) (data : ByteArray) (i : ι) :
    ((f.patch data).contents i).size = (f.contents i).size := by
  unfold patch
  dsimp only
  split
  · exact ByteArray.size_patch _ _ _
  · rfl

theorem write_of_failed {e : Error} (h : f.failure = some e) (data : ByteArray) :
    write data f = .error e f :=
  guarded_of_failed h

theorem write_of_le {data : ByteArray} (h : f.failure = none)
    (hfit : f.position + data.size ≤ f.bytes.size) :
    write data f = .ok () { f.patch data with position := f.position + data.size } := by
  refine (guarded_of_none h).trans ?_
  exact if_pos hfit

theorem write_of_lt {data : ByteArray} (h : f.failure = none)
    (hpast : f.bytes.size < f.position + data.size) :
    write data f = .error .integrity
      { f.patch data with position := f.bytes.size, failure := some .integrity } := by
  have hsize : (f.patch data).bytes.size = f.bytes.size := size_contents_patch f data f.file
  refine (guarded_of_none h).trans ((if_neg (Nat.not_le.mpr hpast)).trans ?_)
  unfold pastEnd
  rw [hsize]

/-- What is left of a transfer after a piece of it gets no further than the whole. -/
theorem Within.write {data : ByteArray} {rest : Nat} (h : f.Within (data.size + rest)) :
    (outcome (write data f)).2.Within rest := by
  cases hf : f.failure with
  | some e =>
      rw [write_of_failed hf]
      exact fun hnone => absurd (hf.symm.trans hnone) nofun
  | none =>
      by_cases hfit : f.position + data.size ≤ f.bytes.size
      · rw [write_of_le hf hfit]
        intro _
        refine (h hf).imp (fun hlt => ?_) fun hlt => ?_
        · rwa [← Nat.add_assoc] at hlt
        · exact (size_contents_patch f data f.file).symm ▸ hlt
      · rw [write_of_lt hf (Nat.not_le.mp hfit)]
        exact nofun

/-- No transfer changes the size of a file. -/
theorem size_contents_write (data : ByteArray) (f : Files ι) (i : ι) :
    ((outcome (write data f)).2.contents i).size = (f.contents i).size := by
  cases hf : f.failure with
  | some e => rw [write_of_failed hf]; rfl
  | none =>
      by_cases hfit : f.position + data.size ≤ f.bytes.size
      · rw [write_of_le hf hfit]
        exact size_contents_patch f data i
      · rw [write_of_lt hf (Nat.not_le.mp hfit)]
        exact size_contents_patch f data i

theorem fill_of_ne {len : Nat} (h : len ≠ 0) (value : UInt8) :
    (fill value len : EStateM Error (Files ι) Unit) = write (.replicate len value) := by
  unfold fill
  exact if_neg h

theorem patch_patch {n len : Nat} (hn : n ≤ len) (f : Files ι) (value : UInt8) :
    { f.patch (.replicate n value) with position := f.position + n }.patch
        (.replicate (len - n) value)
      = { f.patch (.replicate len value) with position := f.position + n } := by
  have hcontents : ({ f.patch (.replicate n value) with position := f.position + n }.patch
      (.replicate (len - n) value)).contents = (f.patch (.replicate len value)).contents := by
    funext i
    unfold patch
    dsimp only
    split
    · exact patch_replicate hn _ _ _
    · rfl
  exact congrArg (fun contents => ({ f with contents, position := f.position + n } : Files ι))
    hcontents

theorem patch_of_le {n len : Nat} (hn : n ≤ len) (hend : f.bytes.size ≤ f.position + n)
    (value : UInt8) : f.patch (.replicate n value) = f.patch (.replicate len value) := by
  have hcontents : (f.patch (.replicate n value)).contents
      = (f.patch (.replicate len value)).contents := by
    funext i
    unfold patch
    dsimp only
    split
    · rename_i hi
      subst hi
      exact patch_replicate_of_le hn hend value
    · rfl
  exact congrArg (fun contents => ({ f with contents } : Files ι)) hcontents

/-- A fill goes on after its first piece. -/
theorem fill_split (value : UInt8) {n len : Nat} (hlen : len ≠ 0) (hn : n ≤ len) :
    fill value len f
      = (do write (.replicate n value); fill value (len - n) : EStateM Error (Files ι) Unit) f := by
  have hsize := ByteArray.size_replicate
  have hbytes : (f.patch (.replicate n value)).bytes.size = f.bytes.size :=
    size_contents_patch f _ f.file
  rw [fill_of_ne hlen]
  cases hf : f.failure with
  | some e => rw [bind_of_error (write_of_failed hf _), write_of_failed hf]
  | none =>
      -- the first piece fits or not, and if it does, the rest fits or not
      by_cases hfirst : f.position + n ≤ f.bytes.size
      · rw [bind_of_ok (write_of_le hf (by rw [hsize]; exact hfirst)), hsize]
        by_cases hrest : len - n = 0
        · obtain rfl : n = len := by omega
          rw [hrest, write_of_le hf (by rw [hsize]; exact hfirst), hsize]
          rfl
        · have hfailure : { f.patch (.replicate n value) with
              position := f.position + n }.failure = none := hf
          have hmoved : { f.patch (.replicate n value) with
              position := f.position + n }.bytes.size = f.bytes.size := hbytes
          rw [fill_of_ne hrest]
          by_cases hfit : f.position + len ≤ f.bytes.size
          · rw [write_of_le hf (by rw [hsize]; exact hfit),
              write_of_le hfailure (by rw [hmoved, hsize]; dsimp only; omega), patch_patch hn,
              hsize, hsize]
            dsimp only
            rw [Nat.add_assoc, Nat.add_sub_cancel' hn]
          · rw [write_of_lt hf (by rw [hsize]; omega),
              write_of_lt hfailure (by rw [hmoved, hsize]; dsimp only; omega), patch_patch hn,
              hmoved]
      · rw [bind_of_error (write_of_lt hf (by rw [hsize]; omega)),
          write_of_lt hf (by rw [hsize]; omega), patch_of_le hn (by omega)]

end Files

end CartBoot
