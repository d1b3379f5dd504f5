import CartBoot.Proofs.Confinement
import CartBoot.Proofs.Exchange
import CartBoot.Proofs.Placement
import CartBoot.Proofs.Registers

/-!
# From the save file to memory and back

A save file is a chain of its full length. Before a game starts, its first `written`
bytes are kept, the rest of the save is erased, and the save is copied into static
RAM; when the menu comes back, the memory is written over the same chain. Nothing
else changes on the way: no byte of the device outside the save, no other memory, no
register.

Both directions are an operation of the chain, seen as a plain file, and a copy of a
range of memory. `OnFile` is the cursor in between: the chain cursor that stands on a
file of these bytes, at this position.

A save that is complete is only read. That holds on any device and on every way out,
since no command that a seek or a read gives to the drive is a write.
-/

namespace CartBoot

open Fat

/-! ## Reading writes nothing -/

namespace Drive

/-- A command that only reads. -/
def Command.OnlyReads : Command → Prop
  | .look _ => True
  | .patch _ _ _ => False
  | .readRun _ _ => True
  | .writeRun _ _ _ => False

theorem Command.logs_onlyReads {c : Command} (hc : c.OnlyReads) (v : Drive) :
    Ends (c.perform v) (fun _ w => v.disk.Logs (·.direction = .read) w.disk)
      (fun _ w => v.disk.Logs (·.direction = .read) w.disk) := by
  unfold perform
  cases c with
  | look sector =>
      simp only [ends_bind, ends_pure]
      exact logs_ensure (fun _ => rfl) v
  | patch sector offset data => exact hc.elim
  | readRun first count =>
      simp only [ends_bind, ends_pure, ends_onDisk]
      exact Disk.logs_read (fun _ => rfl) v.disk
  | writeRun first count data => exact hc.elim

theorem onlyReads_of_looksUp {g : Geometry} {c : Command} (h : g.LooksUp c) : c.OnlyReads := by
  cases c with
  | look sector => trivial
  | patch sector offset data => exact h.elim
  | readRun first count => exact h.elim
  | writeRun first count data => exact h.elim

end Drive

namespace ChainStream

variable {s t : ChainStream}

/-- `t` is `s` after the device was read, if it was accessed at all. -/
def OnlyRead (s t : ChainStream) : Prop :=
  s.volume.disk.Logs (·.direction = .read) t.volume.disk

theorem Works.onlyRead {e? : Option Error} (h : s.Works Drive.Command.OnlyReads e? t) :
    s.OnlyRead t :=
  h.drive.logs fun _ hc => Drive.Command.logs_onlyReads hc

theorem onlyRead_read (s : ChainStream) (len : Nat) : s.OnlyRead (read s len).stream := by
  have hworks : ∃ e?, s.Works Drive.Command.OnlyReads e? (readFrom .empty len s).stream := by
    refine ⟨_, works_readFrom_of_spans (I := fun _ => True) ?_ .empty len trivial⟩
    intro s left pos _
    refine (traced_nextSpan pos).mono ?_ fun _ _ h => h.mono fun _ => Drive.onlyReads_of_looksUp
    intro span t hlooked
    have hread : Drive.Command.OnlyReads (readCommand span) := by
      cases span <;> trivial
    exact ⟨hlooked.mono fun _ => Drive.onlyReads_of_looksUp,
      (traced_readSpan hread).mono (fun _ _ h => ⟨h, trivial⟩) fun _ _ h => h⟩
  obtain ⟨_, hworks⟩ := hworks
  have hread := hworks.onlyRead
  unfold read
  cases s.failure with
  | some e => exact .refl _
  | none =>
      dsimp only
      cases hr : readFrom .empty len s with
      | mk data error? rest =>
          rw [hr] at hread
          cases error? <;> exact hread

theorem onlyRead_seek (position : Nat) (s : ChainStream) :
    Ends (seek position s) (fun _ t => s.OnlyRead t) (fun _ t => s.OnlyRead t) := by
  have hseek : Ends (seekFrom position s) (fun _ t => s.OnlyRead t) (fun _ t => s.OnlyRead t) :=
    (traced_seekFrom position).mono
      (fun _ _ h => (h.mono fun _ => Drive.onlyReads_of_looksUp).onlyRead)
      fun _ _ h => (h.mono fun _ => Drive.onlyReads_of_looksUp).onlyRead
  unfold seek guarded
  cases s.failure with
  | some e => exact Disk.Logs.refl _
  | none =>
      dsimp only
      cases hr : seekFrom position s with
      | ok a t => exact hseek.of_ok hr
      | error e t =>
          have hread : s.OnlyRead t := hseek.of_error hr
          exact hread

end ChainStream

/-! ## A file in a chain -/

/-- A volume on a device that never fails, with a file in the chain `cs`; outside the chain the
device holds what `disk` holds. -/
abbrev HoldsFile (g : Geometry) (disk : Disk) (cs : List Nat) (v : Volume) (file : ByteArray) :
    Prop :=
  Holds g disk (fun _ : Unit => cs) v fun _ => file

/-- A cursor that has come to byte `p` of that file. -/
abbrev OnFile (g : Geometry) (disk : Disk) (cs : List Nat) (file : ByteArray) (p : Nat)
    (s : ChainStream) : Prop :=
  Represents g disk (fun _ : Unit => cs) s ⟨fun _ => file, (), p, none⟩

section OneFile

variable {g : Geometry} {disk : Disk} {cs : List Nat} {file : ByteArray} {p : Nat}
  {s t : ChainStream} {v : Volume} {c : Nat}

/-- A single chain has no other to share clusters with. -/
theorem disjoint_one (cs : List Nat) :
    ∀ i j : Unit, i ≠ j → ∀ c ∈ (fun _ : Unit => cs) i, c ∉ (fun _ : Unit => cs) j :=
  fun _ _ hne => absurd rfl hne

/-- What has happened to the device before does not matter to what happens now. -/
theorem HoldsFile.now (h : HoldsFile g disk cs v file) : HoldsFile g v.disk cs v file :=
  { h with outside := fun _ _ => rfl }

theorem HoldsFile.openAt (h : HoldsFile g disk cs v file) (hc : cs[0]? = some c) :
    OnFile g disk cs file 0 (v.openAt c) :=
  Holds.openAt h hc

theorem OnFile.seek (h : OnFile g disk cs file p s) (apart : g.TableApart) {q : Nat}
    (hq : q ≤ file.size) :
    ∃ t, SeekStream.seek q s = .ok () t ∧ OnFile g disk cs file q t :=
  (matches_seek h apart hq).exists_ok

theorem OnFile.write (h : OnFile g disk cs file p s) (apart : g.TableApart) {data : ByteArray}
    (hfit : p + data.size ≤ file.size) (hword : p + data.size < wordLimit) :
    ∃ t, WriteStream.write data s = .ok () t
      ∧ OnFile g disk cs (file.patch p data) (p + data.size) t := by
  have hmatch := matches_write h apart (disjoint_one cs) fun _ => .inl hword
  rw [Files.write_of_le rfl hfit] at hmatch
  exact hmatch.exists_ok

theorem OnFile.fill (h : OnFile g disk cs file p s) (apart : g.TableApart) (value : UInt8)
    {len : Nat} (hlen : len ≠ 0) (hfit : p + len ≤ file.size) (hword : p + len < wordLimit) :
    ∃ t, fill value len s = .ok () t
      ∧ OnFile g disk cs (file.patch p (.replicate len value)) (p + len) t := by
  have hsize := ByteArray.size_replicate len value
  have hmatch := matches_fill apart (disjoint_one cs) value len h fun _ => .inl hword
  rw [Files.fill_of_ne hlen, Files.write_of_le rfl (by rw [hsize]; exact hfit), hsize] at hmatch
  exact hmatch.exists_ok

/-- From its beginning the cursor delivers the file, up to any word. -/
theorem OnFile.supplies (h : OnFile g disk cs file 0 s) (apart : g.TableApart) {size : Nat}
    (hword : size < wordLimit) :
    Copier.Supplies (file.extract 0 size) (ChainStream.Reading g s.volume.disk cs)
      ∧ ChainStream.Reading g s.volume.disk cs 0 s := by
  have hchain := h.holds.chain ()
  have hsupplies := ChainStream.supplies_fileBytes hchain.toPath h.holds.faultless
    (fun c hc => onDevice_of_fits apart h.holds.fits (hchain.has c hc)) hword
  rw [h.holds.fileBytes_eq ()] at hsupplies
  exact ⟨hsupplies, h.reading rfl⟩

/-- A cursor that only reads leaves the file where it is. -/
theorem OnFile.holds_of_reading (h : OnFile g disk cs file p s) {n : Nat}
    (ht : ChainStream.Reading g s.volume.disk cs n t) : HoldsFile g disk cs t.volume file :=
  h.holds.of_medium ht.medium (ht.geometry.trans h.holds.geometry.symm) ht.ready.coherent

/-- The cursor takes whatever replaces the beginning of its file. -/
theorem OnFile.absorbs (apart : g.TableApart) {data : ByteArray} (hfit : data.size ≤ file.size)
    (hword : data.size < wordLimit) :
    Copier.Absorbs data fun p t => OnFile g disk cs (file.patch 0 (data.extract 0 p)) p t := by
  intro p n t ht hle
  have hpiece : (data.extract p (p + n)).size = n := by
    rw [ByteArray.size_extract]
    omega
  have hinside : p + (data.extract p (p + n)).size ≤ (file.patch 0 (data.extract 0 p)).size := by
    rw [hpiece, ByteArray.size_patch]
    omega
  obtain ⟨u, hwrite, hu⟩ := ht.write apart hinside (by omega)
  -- what was written before and this piece are adjacent
  rw [hpiece, ByteArray.patch_extract_append (by omega)] at hu
  exact ⟨u, hwrite, hu⟩

end OneFile

/-! ## Preparing a save file -/

namespace Save

/-- The contents of a save file that was brought to `size` bytes. -/
def prepared (old : ByteArray) (written size : Nat) : ByteArray :=
  old.extract 0 (min written size) ++ .replicate (size - written) erased
    ++ old.extract size old.size

/-- The contents of a file whose beginning was replaced. -/
def replaced (old data : ByteArray) : ByteArray :=
  data ++ old.extract data.size old.size

variable {old data : ByteArray} {written size : Nat}

theorem prepared_of_le (hwritten : size ≤ written) (hsize : size ≤ old.size) :
    prepared old written size = old := by
  have hnone : ByteArray.replicate (size - written) erased = .empty := by
    rw [Nat.sub_eq_zero_of_le hwritten]
    rfl
  unfold prepared
  rw [hnone, ByteArray.append_empty, Nat.min_eq_right hwritten,
    ← ByteArray.extract_eq_extract_append_extract size (Nat.zero_le _) hsize,
    ByteArray.extract_zero_size]

theorem patch_erased (hwritten : written < size) (hsize : size ≤ old.size) :
    old.patch written (.replicate (size - written) erased) = prepared old written size := by
  have hend : written + (ByteArray.replicate (size - written) erased).size = size := by
    rw [ByteArray.size_replicate]
    omega
  unfold prepared
  rw [ByteArray.patch_eq_append (by rw [hend]; exact hsize), hend,
    Nat.min_eq_left (Nat.le_of_lt hwritten)]

theorem patch_zero (h : data.size ≤ old.size) : old.patch 0 data = replaced old data := by
  unfold replaced
  rw [ByteArray.patch_eq_append (by omega), Nat.zero_add, ByteArray.extract_same,
    ByteArray.empty_append]

section Prepare

variable {g : Geometry} {disk : Disk} {cs : List Nat} {s : ChainStream}

/-- Preparing a file erases what lies between the written bytes and its size, and goes back to the
start. -/
theorem exists_prepare (written : Nat) (h : OnFile g disk cs old 0 s) (apart : g.TableApart)
    (hsize : size ≤ old.size) (hword : size < wordLimit) :
    ∃ t, prepare written size s = .ok () t
      ∧ OnFile g disk cs (prepared old written size) 0 t := by
  unfold prepare
  by_cases hwritten : written < size
  · rw [if_pos hwritten]
    obtain ⟨t, hseek, ht⟩ := h.seek apart (Nat.le_trans (Nat.le_of_lt hwritten) hsize)
    have hrest : size - written ≠ 0 := by omega
    have hinside : written + (size - written) ≤ old.size := by omega
    obtain ⟨u, hfill, hu⟩ := ht.fill apart erased hrest hinside (by omega)
    rw [patch_erased hwritten hsize] at hu
    obtain ⟨w, hback, hw⟩ := hu.seek apart (Nat.zero_le _)
    refine ⟨w, ?_, hw⟩
    rw [bind_of_ok hseek, bind_of_ok hfill]
    exact hback
  · rw [if_neg hwritten, prepared_of_le (Nat.not_lt.mp hwritten) hsize]
    exact h.seek apart (Nat.zero_le _)

end Prepare

/-! ## Restoring and backing up -/

section Copies

variable {π : Type} {c : Copier Volume π}

theorem ends_withFile {operation : EStateM Error (Copier ChainStream π) Unit} {cluster : Nat}
    {done : Unit → Copier Volume π → Prop}
    {failed : Error → Copier Volume π → Prop} :
    Ends (withFile cluster operation c) done failed ↔
      Ends (operation ⟨c.stream.openAt cluster, c.machine, c.hook⟩)
        (fun _ d => done () ⟨d.stream.volume, d.machine, d.hook⟩)
        (fun e d => failed e ⟨d.stream.volume, d.machine, d.hook⟩) := by
  unfold withFile
  dsimp only
  cases operation ⟨c.stream.openAt cluster, c.machine, c.hook⟩ <;> exact Iff.rfl

variable [Progress π] {m : Metadata} {image : Nat} {file : File} {flash : Option File}

/-- An image with static RAM and no flash has its save file prepared and copied. -/
theorem restore_eq (hsram : m.sramSize ≠ 0) (hflash : m.flashSize = 0) :
    (restore m image (some file) flash : EStateM Error (Copier Volume π) Unit)
      = withFile file.cluster (do
          Copier.onStream (prepare file.written m.sramSize.toNat)
          restoreSram m.sramSize.toNat) := by
  unfold restore
  rw [if_pos hsram, hflash, if_neg (fun hne => hne rfl)]
  simp only [required, pure_bind, bind_pure_unit]

/-- **A save that is complete is only read**, on any device, whatever becomes of it. -/
theorem onlyRead_restore (hsram : m.sramSize ≠ 0) (hflash : m.flashSize = 0)
    (hwritten : m.sramSize.toNat ≤ file.written) (c : Copier Volume π) :
    Ends (restore m image (some file) flash c)
      (fun _ d => c.stream.disk.Logs (·.direction = .read) d.stream.disk)
      (fun _ d => c.stream.disk.Logs (·.direction = .read) d.stream.disk) := by
  rw [restore_eq hsram hflash, ends_withFile, ends_bind, Copier.ends_onStream]
  unfold prepare
  rw [if_neg (Nat.not_lt.mpr hwritten)]
  refine (ChainStream.onlyRead_seek 0 _).mono ?_ fun _ _ hread => hread
  intro _ t hseek
  have hread : ∀ (u : ChainStream) len, (c.stream.openAt file.cluster).OnlyRead u →
      (c.stream.openAt file.cluster).OnlyRead (ReadStream.read u len).stream :=
    fun u len hu => Disk.Logs.trans hu (ChainStream.onlyRead_read u len)
  exact Copier.ends_load_stream hread _ _ _ hseek

variable {g : Geometry} {disk : Disk} {cs : List Nat} {v : Volume} {s : ChainStream} {hook : π}
  {machine : Machine} {size : Nat}

/-- The beginning of a file is copied into static RAM, and the file stays as it is. -/
theorem exists_restoreSram (h : OnFile g disk cs old 0 s) (apart : g.TableApart)
    (hsize : size ≤ old.size) (hfit : size ≤ machine.sram.bytes.size)
    (hhook : Copier.Undisturbed 0 size 0 hook) :
    ∃ d : Copier ChainStream π, restoreSram size ⟨s, machine, hook⟩ = .ok () d
      ∧ HoldsFile g disk cs d.stream.volume old
      ∧ machine.Loaded false 0 (old.extract 0 size) d.machine ∧ machine.Returned d.machine := by
  obtain ⟨hsupplies, hreading⟩ := h.supplies apart (Copier.lt_wordLimit_of_le hfit)
  have hlinear : ({} : BankedAddr).linear = 0 := rfl
  have hdata : (old.extract 0 size).size = size := by
    rw [ByteArray.size_extract]
    omega
  have hload := Copier.exists_load (c := ⟨s, machine, hook⟩) hsupplies false hreading
    (by rw [hlinear, hdata, Nat.zero_add]; exact hfit)
    (by rw [hlinear, hdata, Nat.zero_add]; exact hhook)
  rw [hlinear, hdata] at hload
  obtain ⟨d, hload, hloaded, _, _, hrest⟩ := hload
  have hreturned := Copier.returns_copy Copier.steady_fromStream .ram (some false) {} size
    ⟨s, machine, hook⟩
  exact ⟨d, hload, h.holds_of_reading hrest, hloaded, hreturned.of_ok hload⟩

/-- Static RAM is copied over the beginning of a file, and stays as it is. -/
theorem exists_backUpSram (h : OnFile g disk cs old 0 s) (apart : g.TableApart)
    (hsize : size ≤ old.size) (hfit : size ≤ machine.sram.bytes.size)
    (hhook : Copier.Undisturbed 0 size 0 hook) :
    ∃ d : Copier ChainStream π, backUpSram size ⟨s, machine, hook⟩ = .ok () d
      ∧ HoldsFile g disk cs d.stream.volume (replaced old (machine.sram.bytes.extract 0 size))
      ∧ machine.SameMemory d.machine ∧ machine.Returned d.machine := by
  have hlinear : ({} : BankedAddr).linear = 0 := rfl
  have hdata : (machine.sram.bytes.extract 0 size).size = size := by
    rw [ByteArray.size_extract]
    omega
  -- with the flash enable off, the window of the copy shows static RAM
  have hshown : ((machine.setFlash false).shown .ram).bytes = machine.sram.bytes := rfl
  have habsorbs : Copier.Absorbs (((machine.setFlash false).shown .ram).bytes.extract
      ({} : BankedAddr).linear (({} : BankedAddr).linear + size)) fun p t =>
        OnFile g disk cs (old.patch 0 ((machine.sram.bytes.extract 0 size).extract 0 p)) p t := by
    rw [hshown, hlinear, Nat.zero_add]
    exact OnFile.absorbs apart (by rw [hdata]; exact hsize)
      (by rw [hdata]; exact Copier.lt_wordLimit_of_le hfit)
  have hbegin : OnFile g disk cs
      (old.patch 0 ((machine.sram.bytes.extract 0 size).extract 0 0)) 0 s := by
    rw [ByteArray.extract_same, ByteArray.patch_of_size_eq_zero rfl]
    exact h
  have hopened : machine.setFlash false
      = (some false).elim machine fun enabled => machine.setFlash enabled := rfl
  obtain ⟨d, hsave, hat, hsame⟩ := Copier.exists_copy_absorbed (c := ⟨s, machine, hook⟩) habsorbs
    hbegin hopened (fun _ => by rw [hshown, hlinear, Nat.zero_add]; exact hfit)
    (by rw [hlinear, Nat.zero_add]; exact hhook)
  have hreturned := Copier.returns_copy Copier.steady_toStream .ram (some false) {} size
    ⟨s, machine, hook⟩
  -- all of the range has come to the file
  have hheld := hat.holds
  rw [ByteArray.extract_extract_zero (Nat.le_refl size),
    patch_zero (by rw [hdata]; exact hsize)] at hheld
  exact ⟨d, hsave, hheld, hsame, hreturned.of_ok hsave⟩

/-- **The save cycle.** On a device that never fails, with a hook that does not cancel, the save of
an image comes from its file into static RAM: the written bytes are kept, the rest of the save is
erased, the bytes behind it stay. Whatever the game then leaves in static RAM is written over the
save and over nothing else. Neither way changes any other byte of the device, another memory or a
register, and a save that is complete is only read. -/
theorem save_cycle (image : Nat) (flash : Option File) (hsram : m.sramSize ≠ 0)
    (hflash : m.flashSize = 0) (apart : g.TableApart) (hv : HoldsFile g v.disk cs v old)
    (hfile : cs[0]? = some file.cluster)
    (hroom : m.sramSize.toNat ≤ g.capacity cs)
    (hfit : m.sramSize.toNat ≤ machine.sram.bytes.size)
    (hhook : Copier.Undisturbed 0 m.sramSize.toNat 0 hook) :
    ∃ d : Copier Volume π, restore m image (some file) flash ⟨v, machine, hook⟩ = .ok () d
      ∧ HoldsFile g v.disk cs d.stream (prepared old file.written m.sramSize.toNat)
      ∧ machine.Loaded false 0
          ((prepared old file.written m.sramSize.toNat).extract 0 m.sramSize.toNat) d.machine
      ∧ machine.Returned d.machine
      ∧ (m.sramSize.toNat ≤ file.written → v.disk.Logs (·.direction = .read) d.stream.disk)
      ∧ ∀ {τ : Type} [Progress τ] (later : Machine) (hook' : τ),
          m.sramSize.toNat ≤ later.sram.bytes.size →
          Copier.Undisturbed 0 m.sramSize.toNat 0 hook' →
          ∃ e : Copier ChainStream τ,
            backUpSram m.sramSize.toNat ⟨d.stream.openAt file.cluster, later, hook'⟩ = .ok () e
              ∧ HoldsFile g d.stream.disk cs e.stream.volume
                  (replaced (prepared old file.written m.sramSize.toNat)
                    (later.sram.bytes.extract 0 m.sramSize.toNat))
              ∧ later.SameMemory e.machine ∧ later.Returned e.machine := by
  have hold : old.size = g.capacity cs := hv.size ()
  have hsize : m.sramSize.toNat ≤ old.size := hold ▸ hroom
  obtain ⟨t, hprepare, ht⟩ := exists_prepare file.written (hv.openAt hfile) apart hsize
    m.sramSize.toNat_lt
  have hnew : (prepared old file.written m.sramSize.toNat).size = g.capacity cs := ht.holds.size ()
  have hprepared : m.sramSize.toNat ≤ (prepared old file.written m.sramSize.toNat).size :=
    hnew ▸ hroom
  obtain ⟨d, hload, hheld, hloaded, hreturned⟩ :=
    exists_restoreSram ht apart hprepared hfit hhook
  have hrestore : restore m image (some file) flash ⟨v, machine, hook⟩
      = .ok () ⟨d.stream.volume, d.machine, d.hook⟩ := by
    have hstream : Copier.onStream (prepare file.written m.sramSize.toNat)
        (⟨v.openAt file.cluster, machine, hook⟩ : Copier ChainStream π)
          = .ok () ⟨t, machine, hook⟩ := by
      unfold Copier.onStream
      dsimp only
      rw [hprepare]
    rw [restore_eq hsram hflash]
    unfold withFile
    dsimp only
    rw [bind_of_ok hstream, hload]
  refine ⟨_, hrestore, hheld, hloaded, hreturned, fun hwritten => ?_, ?_⟩
  · exact (onlyRead_restore hsram hflash hwritten ⟨v, machine, hook⟩).of_ok hrestore
  · intro τ _ later hook' hfit' hhook'
    exact exists_backUpSram (hheld.now.openAt hfile) apart hprepared hfit' hhook'

end Copies

/-- An image with a save that ends in the middle of the second sector of its file. -/
def smallSave : Metadata where
  footer := .decode (.replicate 16 0) 0
  id := 2
  size := 0
  sramSize := 700
  eepromSize := 0
  flashSize := 0

theorem small_save_cycle :
    let old := smallGeometry.fileBytes smallDisk.byte [2, 4]
    ∃ d : Copier Volume Silent, restore smallSave 3 (some ⟨2, 500⟩) none
        ⟨Volume.ofDisk smallDisk smallGeometry true, Machine.erased 1 1, ⟨⟩⟩ = .ok () d
      ∧ smallGeometry.fileBytes d.stream.disk.byte [2, 4] = prepared old 500 700
      ∧ ∃ e : Copier ChainStream Silent,
          backUpSram 700 ⟨d.stream.openAt 2, Machine.erased 1 2, ⟨⟩⟩ = .ok () e
            ∧ smallGeometry.fileBytes e.stream.volume.disk.byte [2, 4]
              = replaced (prepared old 500 700)
                  ((BankedMemory.erased 2).bytes.extract 0 700) := by
  intro old
  have hquiet : ∀ hook : Silent, Copier.Undisturbed 0 smallSave.sramSize.toNat 0 hook :=
    Copier.undisturbed_of_proceeds (fun _ _ _ h => by cases h) _
  have hlarge : ∀ banks : UInt16, 1 ≤ banks.toNat →
      smallSave.sramSize.toNat ≤ (Machine.erased 1 banks).sram.bytes.size := by
    intro banks hbanks
    show 700 ≤ (ByteArray.replicate (bankSize * banks.toNat) 0xFF).size
    rw [ByteArray.size_replicate]
    unfold bankSize
    omega
  have hheld : HoldsFile smallGeometry (Volume.ofDisk smallDisk smallGeometry true).disk [2, 4]
      (Volume.ofDisk smallDisk smallGeometry true) old :=
    holds_ofDisk true smallDisk_faultless smallDisk_fits fun _ : Unit => isChain_smallChains true
  have hfile : [2, 4][0]? = some (⟨2, 500⟩ : File).cluster := rfl
  have hroom : smallSave.sramSize.toNat ≤ smallGeometry.capacity [2, 4] := by decide
  obtain ⟨d, hrestore, hprepared, _, _, _, hbackUp⟩ := save_cycle 3 none (by decide) rfl
    smallGeometry_apart hheld hfile hroom (hlarge 1 (Nat.le_refl 1)) (hquiet ⟨⟩)
  obtain ⟨e, hsaved, hreplaced, _⟩ := hbackUp (Machine.erased 1 2) Silent.mk (hlarge 2 (by decide))
    (hquiet ⟨⟩)
  exact ⟨d, hrestore, hprepared.fileBytes_eq (), e, hsaved, hreplaced.fileBytes_eq ()⟩

end Save

end CartBoot
