import CartBoot.Proofs.Exposure
import CartBoot.Proofs.Places
import CartBoot.Proofs.Registers
import CartBoot.Proofs.SaveCycle

/-!
# Writing a flash image back

A flash image is looked at before it is written over its file: a game that crashed
while writing must not replace the last good copy. The look goes through a bank
register, at the end of a bank whose number comes from the length; the copy goes
through all banks, piece by piece. For a whole number of banks both come to the
same sixteen bytes, the last ones of the image, so what decides about the copy is
what the copy ends with.

A copy can be cut anywhere, by a stream that refuses a write or by the hook. What
the stream has accepted by then is the beginning of the image, and it is the whole
image only if the copy was not cut. On a cluster chain the accepted writes replace
the beginning of the file, whatever else the device refuses.
-/

namespace CartBoot

open Fat

/-! ## What a stream has accepted -/

namespace Copier

section Accepted

variable {τ : Type} [WriteStream τ] {t t' t'' : τ} {x data : ByteArray} {p n : Nat}

/-- The bytes that a stream accepted from one state to another, in order. The last write may be one
that it refused. -/
inductive Accepted (t : τ) (x : ByteArray) : τ → Prop
  | sent {t' : τ} : Sent t x t' → Accepted t x t'
  | refused {y : ByteArray} {e : Error} {t' t'' : τ} : Sent t x t' →
      WriteStream.write y t' = .error e t'' → Accepted t x t''

/-- Whatever a stream accepts or refuses of a byte string, it has accepted a beginning of it. -/
theorem meets_accepted (t : τ) (data : ByteArray) :
    Meets data (fun p t' => Sent t (data.extract 0 p) t')
      (fun p t' => Accepted t (data.extract 0 p) t') := by
  intro p n t' ht' _ _
  cases hwrite : WriteStream.write (data.extract p (p + n)) t' with
  | ok _ t'' => exact ht'.next hwrite
  | error e t'' => exact .refused ht' hwrite

/-- A stream that records what it accepts has a record of it. -/
theorem Accepted.record_eq {record : τ → ByteArray} (hrecord : Records record)
    (h : Accepted t x t') : record t' = record t ++ x := by
  cases h with
  | sent h => exact h.record_eq hrecord
  | refused h hrefused => exact ((hrecord _ _).of_error hrefused).trans (h.record_eq hrecord)

end Accepted

end Copier

/-! ## The look at the footer -/

namespace Save

open Copier

/-- A byte string whose first `len` bytes are a flash image that may be written back: it ends in a
far jump to a segment above the first 256 bytes of memory. -/
def EndsBootable (b : ByteArray) (len : Nat) : Prop :=
  b.byteAt (len - 16) = 0xEA ∧ 0x10 < b.byteAt (len - 12)

section Look

variable {m : Machine} {len : Nat}

theorem sameMemory_flashIsBootable (len : Nat) (m : Machine) :
    m.SameMemory (flashIsBootable len m).2 := by
  unfold flashIsBootable
  split <;> exact ⟨rfl, rfl, rfl⟩

theorem footer_le (hpos : 0 < len) (hbanks : bankSize ∣ len) : 16 ≤ len := by
  obtain ⟨k, rfl⟩ := hbanks
  unfold bankSize at hpos ⊢
  omega

/-- The last sixteen bytes of a whole number of banks are at the end of a bank. -/
theorem ofLinear_footer (hpos : 0 < len) (hbanks : bankSize ∣ len) :
    (BankedAddr.ofLinear (len - 16)).bank = ((len - 1) / bankSize).toUInt16
      ∧ (BankedAddr.ofLinear (len - 16)).offset.toNat = bankSize - Footer.size := by
  obtain ⟨k, rfl⟩ := hbanks
  unfold bankSize at hpos
  have hbank : (bankSize * k - 16) / bankSize = (bankSize * k - 1) / bankSize := by
    unfold bankSize
    omega
  have hoffset : (bankSize * k - 16) % bankSize = bankSize - Footer.size := by
    unfold bankSize Footer.size
    omega
  exact ⟨congrArg Nat.toUInt16 hbank, (BankedAddr.toNat_offset_ofLinear _).trans hoffset⟩

/-- **The look is at the end of the image.** -/
theorem flashIsBootable_iff (hpos : 0 < len) (hbanks : bankSize ∣ len)
    (hfit : len ≤ m.psram.bytes.size) :
    (flashIsBootable len m).1 = true ↔ EndsBootable m.psram.bytes len := by
  have hroom := footer_le hpos hbanks
  obtain ⟨hbank, hoffset⟩ := ofLinear_footer hpos hbanks
  have hselected : (m.setBank .rom0 ((len - 1) / bankSize).toUInt16).banks .rom0
      = (BankedAddr.ofLinear (len - 16)).bank := by
    rw [hbank]
    rfl
  have hfooter : (m.setBank .rom0 ((len - 1) / bankSize).toUInt16).windowBytes .rom0
      (bankSize - Footer.size) Footer.size = m.psram.bytes.extract (len - 16) (len - 16 + 16) := by
    rw [← hoffset]
    exact Machine.windowBytes_ofLinear hselected (Nat.lt_of_lt_of_le (by omega) hfit)
      (Nat.lt_of_le_of_lt (Nat.sub_le _ _) (lt_wordLimit_of_le hfit)) 16
  have hbyte : ∀ i, i < 16 →
      (m.psram.bytes.extract (len - 16) (len - 16 + 16)).byteAt i
        = m.psram.bytes.byteAt (len - 16 + i) := by
    intro i hi
    rw [ByteArray.byteAt_extract, if_pos (by omega)]
  unfold flashIsBootable EndsBootable
  rw [if_neg (Nat.ne_of_gt hpos)]
  dsimp only
  rw [hfooter, hbyte 0 (by omega), hbyte 4 (by omega), show len - 16 + 4 = len - 12 by omega,
    Bool.and_eq_true_iff, decide_eq_true_iff, decide_eq_true_iff]
  exact Iff.rfl

end Look

/-! ## The backup -/

section Backup

variable {τ π : Type} [WriteStream τ] [Progress π] {c : Copier τ π} {len : Nat}

/-- A backup is a look, and then a copy of program memory or none. -/
theorem backUpFlash_eq (len : Nat) (c : Copier τ π) :
    backUpFlash len c =
      if (flashIsBootable len c.machine).1 then
        Copier.saveRom {} len { c with machine := (flashIsBootable len c.machine).2 }
      else
        .error .saveCorrupt { c with machine := (flashIsBootable len c.machine).2 } := by
  have hlook : backUpFlash len c =
      (if (flashIsBootable len c.machine).1 then Copier.saveRom {} len else throw .saveCorrupt
        : EStateM Error (Copier τ π) Unit)
        { c with machine := (flashIsBootable len c.machine).2 } := by
    unfold backUpFlash
    exact (bind_of_ok rfl).trans (bind_of_ok rfl)
  rw [hlook]
  split <;> rfl

/-- **What becomes of a backup.** An image that may be written back is sent to the stream, or a
beginning of it; of another nothing is sent and nobody is asked. -/
theorem ends_backUpFlash (hpos : 0 < len) (hbanks : bankSize ∣ len)
    (hfit : len ≤ c.machine.psram.bytes.size)
    {after refused : Nat → τ → Prop}
    (hmeets : Meets (c.machine.psram.bytes.extract 0 len) after refused)
    (hstream : after 0 c.stream)
    {heard : Nat → π → Prop} {cancels : Prop} (hheeds : Heeds τ 0 len heard cancels)
    (hhook : heard 0 c.hook) :
    Ends (backUpFlash len c)
      (fun _ d => EndsBootable c.machine.psram.bytes len ∧ after len d.stream
        ∧ c.machine.SameMemory d.machine)
      (fun e d => c.machine.SameMemory d.machine
        ∧ ((¬ EndsBootable c.machine.psram.bytes len ∧ e = .saveCorrupt ∧ d.stream = c.stream
            ∧ d.hook = c.hook)
          ∨ (EndsBootable c.machine.psram.bytes len
            ∧ ∃ p, p < len ∧ (cancels ∧ after p d.stream ∨ refused p d.stream)))) := by
  have hsame := sameMemory_flashIsBootable len c.machine
  have hlook := flashIsBootable_iff hpos hbanks hfit
  rw [backUpFlash_eq]
  split
  · rename_i hbootable
    rw [hlook] at hbootable
    -- program memory is shown at this window whatever the flash enable
    have hshown : ((flashIsBootable len c.machine).2.shown .rom0).bytes = c.machine.psram.bytes :=
      congrArg BankedMemory.bytes hsame.psram
    have hrange : ({} : BankedAddr).linear + len = len := Nat.zero_add len
    have hmeets' : Meets (((flashIsBootable len c.machine).2.shown .rom0).bytes.extract
        ({} : BankedAddr).linear (({} : BankedAddr).linear + len)) after refused := by
      rw [hshown, hrange]
      exact hmeets
    have hcopy : Ends (Copier.copy toStream .rom0 none {} len
        { c with machine := (flashIsBootable len c.machine).2 }) _ _ :=
      ends_copy_toStream hmeets' (by rw [hrange]; exact hheeds) hstream hhook rfl
        (fun _ => by rw [hshown, hrange]; exact hfit)
    refine hcopy.mono ?_ ?_
    · intro _ d hd
      exact ⟨hbootable, hd.1, hsame.trans hd.2⟩
    · intro e d hd
      exact ⟨hsame.trans hd.1, .inr ⟨hbootable, hd.2⟩⟩
  · rename_i hbootable
    rw [hlook] at hbootable
    exact ⟨hsame, .inl ⟨hbootable, rfl, rfl, rfl⟩⟩

/-- A backup puts the registers back, whatever becomes of it. -/
theorem returns_backUpFlash (len : Nat) :
    Returns (backUpFlash len : EStateM Error (Copier τ π) Unit) := by
  intro c
  have hlook := (bracketed_flashIsBootable len c.machine).toReturned
  rw [backUpFlash_eq]
  split
  · exact (returns_copy steady_toStream .rom0 none {} len _).mono (fun _ _ => hlook.trans)
      fun _ _ => hlook.trans
  · exact hlook

/-- What the stream has accepted is a beginning of an image that can be booted, and the whole image
if the backup succeeds. -/
theorem ends_backUpFlash_accepted (hpos : 0 < len) (hbanks : bankSize ∣ len)
    (hfit : len ≤ c.machine.psram.bytes.size) :
    Ends (backUpFlash len c)
      (fun _ d => EndsBootable c.machine.psram.bytes len
        ∧ Sent c.stream (c.machine.psram.bytes.extract 0 len) d.stream
        ∧ c.machine.SameMemory d.machine ∧ c.machine.Returned d.machine)
      (fun e d => ((¬ EndsBootable c.machine.psram.bytes len ∧ e = .saveCorrupt
            ∧ d.stream = c.stream ∧ d.hook = c.hook)
          ∨ (EndsBootable c.machine.psram.bytes len
            ∧ ∃ n, n < len ∧ Accepted c.stream (c.machine.psram.bytes.extract 0 n) d.stream))
        ∧ c.machine.SameMemory d.machine ∧ c.machine.Returned d.machine) := by
  have hnothing : Sent c.stream ((c.machine.psram.bytes.extract 0 len).extract 0 0) c.stream := by
    rw [ByteArray.extract_same]
    exact .nothing
  have hsent := ends_backUpFlash hpos hbanks hfit
    (meets_accepted c.stream (c.machine.psram.bytes.extract 0 len)) hnothing heeds_any trivial
  refine (hsent.and (returns_backUpFlash len c)).mono ?_ ?_
  · rintro _ d ⟨⟨hbootable, hall, hsame⟩, hreturned⟩
    rw [ByteArray.extract_extract_zero (Nat.le_refl len)] at hall
    exact ⟨hbootable, hall, hsame, hreturned⟩
  · rintro e d ⟨⟨hsame, hrefused | ⟨hbootable, n, hn, hcut⟩⟩, hreturned⟩
    · exact ⟨.inl hrefused, hsame, hreturned⟩
    · rw [ByteArray.extract_extract_zero (Nat.le_of_lt hn)] at hcut
      refine ⟨.inr ⟨hbootable, n, hn, ?_⟩, hsame, hreturned⟩
      rcases hcut with ⟨-, hall⟩ | haccepted
      · exact .sent hall
      · exact haccepted

/-- A stream that takes the image, with a hook that does not cancel, is given it. -/
theorem exists_backUpFlash (hpos : 0 < len) (hbanks : bankSize ∣ len)
    (hfit : len ≤ c.machine.psram.bytes.size)
    (hbootable : EndsBootable c.machine.psram.bytes len) (hhook : Undisturbed 0 len 0 c.hook)
    {after : Nat → τ → Prop} (habsorbs : Absorbs (c.machine.psram.bytes.extract 0 len) after)
    (hstream : after 0 c.stream) : ∃ d, backUpFlash len c = .ok () d := by
  have hall := ends_backUpFlash hpos hbanks hfit habsorbs.meets hstream heeds_undisturbed hhook
  obtain ⟨_, d, hd, -⟩ := hall.exists_ok fun e d hfail => by
    rcases hfail.2 with ⟨hnot, -⟩ | ⟨-, _, _, ⟨hcancels, -⟩ | hrefused⟩
    · exact hnot hbootable
    · exact hcancels
    · exact hrefused
  exact ⟨d, hd⟩

end Backup

/-! ## Over a file -/

section File

variable {g : Geometry} {cs : List Nat} {old data : ByteArray} {s : ChainStream}

/-- A cursor that has put the first `p` bytes of `data` over those of its file. -/
structure Overwriting (g : Geometry) (cs : List Nat) (old data : ByteArray) (p : Nat)
    (s : ChainStream) : Prop where
  chain : g.IsChain s.volume.disk.byte cs
  reading : ChainStream.Reading g s.volume.disk cs p s
  le : p ≤ g.capacity cs
  bytes : g.fileBytes s.volume.disk.byte cs = old.patch 0 (data.extract 0 p)

/-- On any device the writes that a cursor accepts go over its file, one behind the other. -/
theorem meets_overwriting (apart : g.TableApart) (old data : ByteArray) :
    Meets data (Overwriting g cs old data) fun _ _ => True := by
  intro p n s hs _ hle
  have hpiece : (data.extract p (p + n)).size = n := by
    rw [ByteArray.size_extract]
    omega
  cases hwrite : WriteStream.write (data.extract p (p + n)) s with
  | error e t => exact trivial
  | ok _ t =>
      obtain ⟨hroom, hreading, hchain, hbytes⟩ := hs.reading.of_write hs.chain apart hs.le hwrite
      rw [hpiece] at hroom hreading
      rw [hs.bytes, ByteArray.patch_extract_append (by omega)] at hbytes
      exact ⟨hchain, hreading, hroom, hbytes⟩

theorem overwriting_start (hchain : g.IsChain s.volume.disk.byte cs)
    (hs : ChainStream.Reading g s.volume.disk cs 0 s) (data : ByteArray) :
    Overwriting g cs (g.fileBytes s.volume.disk.byte cs) data 0 s where
  chain := hchain
  reading := hs
  le := Nat.zero_le _
  bytes := by rw [ByteArray.extract_same, ByteArray.patch_of_size_eq_zero rfl]

/-- What a file ends in is a matter of its bytes. -/
theorem EndsBootable.congr {a b : ByteArray} {len : Nat} (h : EndsBootable a len) (hlen : 16 ≤ len)
    (hbyte : ∀ k, k < len → b.byteAt k = a.byteAt k) : EndsBootable b len := by
  unfold EndsBootable
  rw [hbyte _ (by omega), hbyte _ (by omega)]
  exact h

/-- **A backup that succeeds has put the image over the beginning of its file**, on any device. -/
theorem backUpFlash_over_file {π : Type} [Progress π] {m : Machine} {len : Nat} {hook : π}
    {d : Copier ChainStream π} (hpos : 0 < len) (hbanks : bankSize ∣ len)
    (hfit : len ≤ m.psram.bytes.size) (apart : g.TableApart)
    (hchain : g.IsChain s.volume.disk.byte cs) (hs : ChainStream.Reading g s.volume.disk cs 0 s)
    (hd : backUpFlash len ⟨s, m, hook⟩ = .ok () d) :
    len ≤ g.capacity cs
      ∧ g.fileBytes d.stream.volume.disk.byte cs
        = replaced (g.fileBytes s.volume.disk.byte cs) (m.psram.bytes.extract 0 len)
      ∧ EndsBootable (g.fileBytes d.stream.volume.disk.byte cs) len := by
  have himage : (m.psram.bytes.extract 0 len).size = len := by
    rw [ByteArray.size_extract]
    omega
  have hover := ends_backUpFlash (c := ⟨s, m, hook⟩) hpos hbanks hfit
    (meets_overwriting apart (g.fileBytes s.volume.disk.byte cs) (m.psram.bytes.extract 0 len))
    (overwriting_start hchain hs _) heeds_any trivial
  obtain ⟨hbootable, hfile, -⟩ := hover.of_ok hd
  have hroom := hfile.le
  have hbytes := hfile.bytes
  rw [ByteArray.extract_extract_zero (Nat.le_refl len),
    patch_zero (by rw [himage, Geometry.size_fileBytes]; exact hroom)] at hbytes
  refine ⟨hroom, hbytes, hbootable.congr (footer_le hpos hbanks) fun k hk => ?_⟩
  rw [hbytes, replaced, ByteArray.byteAt_append, himage, if_pos hk, ByteArray.byteAt_extract,
    if_pos (by omega), Nat.zero_add]

end File

/-- **A flash image is written back only if it can be booted.** The look at the end of the image
decides. If it says no, the backup fails, and neither the stream nor the hook is asked for anything.
If it says yes, the stream has accepted the image when the backup succeeds, and a beginning of it
when the stream or the hook cut the copy; nothing but these two can. The memories stay as they are,
and so do the registers, whatever the flash enable.

On a cluster chain the beginning of the file is the image when the backup succeeds, on any device,
and the file ends in a footer that the look accepts. -/
theorem flash_written_if_bootable {m : Machine} {len : Nat} (hpos : 0 < len)
    (hbanks : bankSize ∣ len) (hfit : len ≤ m.psram.bytes.size) :
    let rom := m.psram.bytes
    (∀ {τ π : Type} [WriteStream τ] [Progress π] (c : Copier τ π), c.machine = m →
      Ends (backUpFlash len c)
        (fun _ d => EndsBootable rom len ∧ Sent c.stream (rom.extract 0 len) d.stream
          ∧ m.SameMemory d.machine ∧ m.Returned d.machine)
        (fun e d => ((¬ EndsBootable rom len ∧ e = .saveCorrupt ∧ d.stream = c.stream
              ∧ d.hook = c.hook)
            ∨ (EndsBootable rom len ∧ ∃ n, n < len ∧ Accepted c.stream (rom.extract 0 n) d.stream))
          ∧ m.SameMemory d.machine ∧ m.Returned d.machine)
      ∧ (EndsBootable rom len → Undisturbed 0 len 0 c.hook → ∀ after : Nat → τ → Prop,
          Absorbs (rom.extract 0 len) after → after 0 c.stream →
          ∃ d, backUpFlash len c = .ok () d))
    ∧ ∀ {π : Type} [Progress π] {g : Geometry} {cs : List Nat} {s : ChainStream} {hook : π}
        {d : Copier ChainStream π}, g.TableApart → g.IsChain s.volume.disk.byte cs →
        ChainStream.Reading g s.volume.disk cs 0 s → backUpFlash len ⟨s, m, hook⟩ = .ok () d →
        len ≤ g.capacity cs
        ∧ g.fileBytes d.stream.volume.disk.byte cs
          = replaced (g.fileBytes s.volume.disk.byte cs) (rom.extract 0 len)
        ∧ EndsBootable (g.fileBytes d.stream.volume.disk.byte cs) len := by
  intro rom
  refine ⟨?_, fun apart hchain hs hd =>
    backUpFlash_over_file hpos hbanks hfit apart hchain hs hd⟩
  rintro τ π _ _ c rfl
  exact ⟨ends_backUpFlash_accepted hpos hbanks hfit, fun hbootable hhook _ habsorbs hstream =>
    exists_backUpFlash hpos hbanks hfit hbootable hhook habsorbs hstream⟩

/-! ## One bank -/

/-- One bank that ends in a footer with a far jump. -/
def bootableBank : BankedMemory where
  bytes := .tabulate bankSize fun i => if i = 0xFFF0 then 0xEA else if i = 0xFFF4 then 0x20 else 0
  whole := by rw [ByteArray.size_tabulate, Nat.mod_self]
  count_lt := by
    rw [ByteArray.size_tabulate]
    decide

theorem size_bootableBank : bootableBank.bytes.size = bankSize := by
  unfold bootableBank
  rw [ByteArray.size_tabulate]

theorem endsBootable_bootableBank : EndsBootable bootableBank.bytes bankSize := by
  unfold EndsBootable bootableBank
  rw [ByteArray.byteAt_tabulate, ByteArray.byteAt_tabulate]
  decide

theorem onFile_wideDisk : OnFile wideGeometry wideDisk [2, 3]
    (wideGeometry.fileBytes wideDisk.byte [2, 3]) 0
    ((Volume.ofDisk wideDisk wideGeometry true).openAt 2) := by
  have hheld : HoldsFile wideGeometry wideDisk [2, 3] (Volume.ofDisk wideDisk wideGeometry true)
      (wideGeometry.fileBytes wideDisk.byte [2, 3]) :=
    holds_ofDisk true ⟨fun _ _ => rfl, fun _ _ => rfl⟩ (by decide) fun _ : Unit => isChain_wideDisk
  exact hheld.openAt (c := 2) rfl

theorem size_erasedBank : (BankedMemory.erased 1).bytes.size = bankSize := by
  unfold BankedMemory.erased
  exact ByteArray.size_replicate bankSize 0xFF

theorem not_endsBootable_erasedBank : ¬ EndsBootable (BankedMemory.erased 1).bytes bankSize := by
  unfold EndsBootable BankedMemory.erased
  rw [ByteArray.byteAt_replicate]
  decide

/-- The bank is written to a sink and over a file of two banks; an erased bank is not written. -/
theorem bootableBank_written :
    (∃ d : Copier ByteSink Silent,
        backUpFlash bankSize ⟨{}, { Machine.erased 1 0 with psram := bootableBank }, ⟨⟩⟩ = .ok () d
          ∧ d.stream.data = bootableBank.bytes.extract 0 bankSize)
      ∧ (∃ d : Copier ChainStream Silent,
          backUpFlash bankSize ⟨(Volume.ofDisk wideDisk wideGeometry true).openAt 2,
              { Machine.erased 1 0 with psram := bootableBank }, ⟨⟩⟩ = .ok () d
            ∧ EndsBootable (wideGeometry.fileBytes d.stream.volume.disk.byte [2, 3]) bankSize)
      ∧ ∃ d : Copier ByteSink Silent,
          backUpFlash bankSize ⟨{}, Machine.erased 1 0, ⟨⟩⟩ = .error .saveCorrupt d
            ∧ d.stream = {} := by
  -- of the machines only the program memory matters, and of the length that it is one bank
  obtain ⟨m, hm, hbank⟩ : ∃ m : Machine, m = { Machine.erased 1 0 with psram := bootableBank }
      ∧ m.psram = bootableBank := ⟨_, rfl, rfl⟩
  obtain ⟨m', hm', hbank'⟩ : ∃ m' : Machine, m' = Machine.erased 1 0 ∧ m'.psram = .erased 1 :=
    ⟨_, rfl, rfl⟩
  obtain ⟨len, hlen⟩ : ∃ len, len = bankSize := ⟨_, rfl⟩
  have hpos : 0 < len := by
    rw [hlen]
    decide
  have hbanks : bankSize ∣ len := hlen ▸ Nat.dvd_refl bankSize
  have hfit : len ≤ m.psram.bytes.size :=
    Nat.le_of_eq (by rw [hlen, hbank, size_bootableBank])
  have hfit' : len ≤ m'.psram.bytes.size :=
    Nat.le_of_eq (by rw [hlen, hbank', size_erasedBank])
  have hbootable : EndsBootable m.psram.bytes len := by
    rw [hlen, hbank]
    exact endsBootable_bootableBank
  have hnot : ¬ EndsBootable m'.psram.bytes len := by
    rw [hlen, hbank']
    exact not_endsBootable_erasedBank
  have hquiet : Undisturbed 0 len 0 Silent.mk :=
    undisturbed_of_proceeds (fun _ _ _ h => by cases h) _ _
  obtain ⟨hany, hfile⟩ := flash_written_if_bootable (m := m) hpos hbanks hfit
  obtain ⟨hany', -⟩ := flash_written_if_bootable (m := m') hpos hbanks hfit'
  rw [← hm, ← hm', ← hlen, ← hbank]
  refine ⟨?_, ?_, ?_⟩
  · obtain ⟨hends, htaken⟩ := hany (⟨{}, m, ⟨⟩⟩ : Copier ByteSink Silent) rfl
    have hready : ({} : ByteSink).limit = none
        ∧ Sent {} ((m.psram.bytes.extract 0 len).extract 0 0) ({} : ByteSink) := by
      rw [ByteArray.extract_same]
      exact ⟨rfl, .nothing⟩
    obtain ⟨d, hd⟩ := htaken hbootable hquiet _ (takes_byteSink.absorbs {} _) hready
    obtain ⟨_, hsent, _⟩ := hends.of_ok hd
    exact ⟨d, hd, hsent.data_eq.trans ByteArray.empty_append⟩
  · have hroom : (m.psram.bytes.extract 0 len).size
        ≤ (wideGeometry.fileBytes wideDisk.byte [2, 3]).size := by
      rw [ByteArray.size_extract, Geometry.size_fileBytes, hbank, size_bootableBank, hlen]
      decide
    have hword : (m.psram.bytes.extract 0 len).size < wordLimit := by
      rw [ByteArray.size_extract]
      exact Nat.lt_of_le_of_lt (Nat.min_le_right _ _) (lt_wordLimit_of_le (Nat.le_refl _))
    obtain ⟨-, htaken⟩ := hany
      (⟨(Volume.ofDisk wideDisk wideGeometry true).openAt 2, m, ⟨⟩⟩ : Copier ChainStream Silent) rfl
    obtain ⟨d, hd⟩ := htaken hbootable hquiet _ (OnFile.absorbs wideGeometry_apart hroom hword) (by
      rw [ByteArray.extract_same, ByteArray.patch_of_size_eq_zero rfl]
      exact onFile_wideDisk)
    obtain ⟨_, _, hends⟩ := hfile (s := (Volume.ofDisk wideDisk wideGeometry true).openAt 2)
      wideGeometry_apart isChain_wideDisk (ChainStream.reading_openAt rfl true) hd
    exact ⟨d, hd, hends⟩
  · obtain ⟨hends, -⟩ := hany' (⟨{}, m', ⟨⟩⟩ : Copier ByteSink Silent) rfl
    obtain ⟨e, d, hd, hfail, -⟩ := hends.exists_error fun _ _ hdone => hnot hdone.1
    rcases hfail with ⟨_, rfl, hstream, _⟩ | ⟨hyes, _⟩
    · exact ⟨d, hd, hstream⟩
    · exact absurd hyes hnot

end Save

end CartBoot
