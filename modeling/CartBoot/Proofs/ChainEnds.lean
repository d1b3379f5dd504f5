import CartBoot.Proofs.Mounting

/-!
# Where chains end

The entry of the last cluster of a chain is a mark. A cursor does not look for
marks: it goes on as long as the table names a cluster, so a chain ends for it only
if its mark is none. The first two formats leave room for their marks, because a
volume with more clusters has the next format. There is none after the third, and
its clusters can be so many that the marks are among them.

As long as they are not, a transfer that is to go past the end of a chain fails
there, and asks the device for no sector beyond.
-/

namespace CartBoot

open Fat

namespace Fat

/-! ## Marks and clusters -/

/-- The marks of a format are its last eight values. -/
theorem Format.le_of_isEndMark {format : Format} {entry : Nat}
    (h : format.isEndMark entry = true) : format.endMark ≤ entry + 7 := by
  cases format with
  | fat12 =>
      have hle : 0xFF8 ≤ entry := of_decide_eq_true h
      show 0xFFF ≤ entry + 7
      omega
  | fat16 =>
      have hle : 0xFFF8 ≤ entry := of_decide_eq_true h
      show 0xFFFF ≤ entry + 7
      omega
  | fat32 =>
      -- what is reserved of an entry can only make it larger
      have hle : 0x0FFFFFF8 ≤ entry % 0x10000000 := of_decide_eq_true h
      show 0x0FFFFFFF ≤ entry + 7
      omega

namespace Geometry

variable {g : Geometry} {byte : Nat → UInt8} {cs : List Nat}

/-- No mark is a cluster. -/
def MarksApart (g : Geometry) : Prop :=
  ∀ entry, g.format.isEndMark entry = true → ¬ g.HasCluster entry

theorem marksApart_iff : g.MarksApart ↔ g.entryCount + 7 ≤ g.format.endMark := by
  constructor
  · intro h
    have hmark : g.format.isEndMark (g.format.endMark - 7) = true := by
      cases g.format <;> rfl
    have hlow : 2 + 7 ≤ g.format.endMark := by
      cases g.format <;> decide
    refine Nat.not_lt.mp fun hlt => h _ hmark ⟨?_, ?_⟩ <;> omega
  · intro h entry hmark hhas
    have hle := Format.le_of_isEndMark hmark
    have hlt := hhas.2
    omega

/-! ## Marked chains -/

/-- A path with a mark in the entry of its last cluster. -/
structure Marked (g : Geometry) (byte : Nat → UInt8) (cs : List Nat) : Prop
    extends g.Path byte cs where
  ne : cs ≠ []
  mark : ∀ c, cs.getLast? = some c → g.format.isEndMark (g.tableEntry byte c) = true

/-- A path goes on alike from two places where it has the same cluster. -/
theorem Path.getElem?_add_eq (h : g.Path byte cs) {i j : Nat} (hij : i < j) (heq : cs[i]? = cs[j]?)
    {k : Nat} (hk : j + k < cs.length) : cs[i + k]? = cs[j + k]? := by
  induction k with
  | zero => exact heq
  | succ k ih =>
      have hnow := ih (by omega)
      have hj : cs[j + k]? = some cs[j + k] := List.getElem?_eq_getElem (by omega)
      have hi' : cs[i + k + 1]? = some cs[i + k + 1] := List.getElem?_eq_getElem (by omega)
      have hj' : cs[j + k + 1]? = some cs[j + k + 1] := List.getElem?_eq_getElem (by omega)
      rw [← Nat.add_assoc, ← Nat.add_assoc, hi', hj', ← h.next (j + k) _ _ hj hj',
        ← h.next (i + k) _ _ (hnow.trans hj) hi']

/-- A path out of which the last entry leads does not come back to a cluster. -/
theorem Path.nodup (h : g.Path byte cs)
    (hlast : ∀ c, cs.getLast? = some c → ¬ g.HasCluster (g.tableEntry byte c)) : cs.Nodup := by
  refine List.pairwise_iff_getElem.mpr fun i j hi hj hij heq => ?_
  -- the earlier of two places would go on where the list ends
  have hsame := h.getElem?_add_eq hij
    (by rw [List.getElem?_eq_getElem hi, List.getElem?_eq_getElem hj, heq])
    (k := cs.length - 1 - j) (by omega)
  rw [show j + (cs.length - 1 - j) = cs.length - 1 by omega, ← List.getLast?_eq_getElem?] at hsame
  have hnow : cs[i + (cs.length - 1 - j)]? = some cs[i + (cs.length - 1 - j)] :=
    List.getElem?_eq_getElem (by omega)
  have hnext : cs[i + (cs.length - 1 - j) + 1]? = some cs[i + (cs.length - 1 - j) + 1] :=
    List.getElem?_eq_getElem (by omega)
  refine hlast _ (hsame.symm.trans hnow) ?_
  rw [h.next _ _ _ hnow hnext]
  exact h.has _ (List.getElem_mem _)

/-- While no mark is a cluster, what a mark ends is a whole chain. -/
theorem Marked.isChain (h : g.Marked byte cs) (apart : g.MarksApart) (hreach : g.OffsetsFit) :
    g.IsChain byte cs where
  toPath := h.toPath
  ne := h.ne
  nodup := h.toPath.nodup fun c hc => apart _ (h.mark c hc)
  last := fun c hc => apart _ (h.mark c hc)
  lastFits := fun c hc => hreach.offsetFits (h.has c (List.mem_of_getLast? hc))

/-- What becomes of a transfer that goes past the end of a chain. A cursor that gets there finds
that the chain is broken off, but it does not get there if the end is behind the last word. -/
def pastEnd (g : Geometry) (cs : List Nat) : Error :=
  if g.capacity cs < wordLimit then .integrity else .overflow

end Geometry

end Fat

/-! ## What a write asks for -/

namespace ChainStream

variable {g : Geometry} {R : Nat → Prop} {s t : ChainStream}

theorem Works.logs {e? : Option Error} (h : s.Works (Drive.Command.Confined g R) e? t) :
    s.volume.disk.Logs (·.Confined g R) t.volume.disk :=
  h.drive.logs fun _ hc => Drive.Command.logs_confined hc

/-- A write works with the clusters that its walk passes, and with the table, if that is not among
what it writes. -/
theorem works_writeFrom (data : ByteArray) (left : Nat) (hleft : left ≤ data.size)
    (hg : s.volume.geometry = g) (apart : g.TableApart) (hs : s.Ready) (hR : s.Passes R) :
    Traced (Drive.Command.Confined g R) s (writeFrom data left s) := by
  refine traced_writeFrom_of_spans
    (I := fun s => s.volume.geometry = g ∧ s.Ready ∧ s.Passes R) ?_ left hleft ⟨hg, hs, hR⟩
  intro s left pos hleft ⟨hg, hs, hR⟩
  refine (works_nextSpan hg hs pos).mono ?_ fun _ _ ht => ht
  intro span t ht
  obtain ⟨haims, hlooked⟩ := ht
  have hle := span.size_le
  have hsize : (data.extract (data.size - left) (data.size - left + span.size)).size
      = span.size := by
    rw [ByteArray.size_extract]
    omega
  refine ⟨hlooked, ((ends_writeSpan haims hsize).and (traced_writeSpan (s := t)
    (confined_writeCommand (fun _ => haims.within hg hR) hsize))).mono ?_ fun _ _ hu => hu.2⟩
  intro _ u hu
  -- outside the table, what was written leaves the walk as it was
  have hahead := (hu.1.ahead (hg ▸ apart) haims).1
  exact ⟨hu.2, hahead.kept.geometry.trans hg, hahead.ready, hahead.passes hR⟩

/-! ## Past the end -/

section PastEnd

variable {disk : Disk} {cs : List Nat} {p : Nat}

theorem Reading.walk?_eq_none (h : Reading g disk cs p s) (hchain : g.IsChain disk.byte cs)
    (hp : p ≤ g.capacity cs) {n : Nat} (hn : g.capacity cs < p + n) : s.walk? n = none := by
  unfold ChainStream.walk?
  rw [h.geometry, h.medium.byte, h.position]
  exact hchain.walk?_eq_none h.cluster hp hn

/-- The walk along a chain passes its clusters only. -/
theorem Reading.passes (h : Reading g disk cs p s) (hchain : g.IsChain disk.byte cs)
    (hp : p ≤ g.capacity cs) : s.Passes (· ∈ cs) := by
  intro n c hc
  have hn : p + n ≤ g.capacity cs := Nat.not_lt.mp fun hlt => by
    rw [h.walk?_eq_none hchain hp hlt] at hc
    cases hc
  obtain ⟨d, hd, hmem⟩ := h.walk hchain.toPath hn
  rw [hc] at hd
  cases hd
  exact List.mem_of_getElem? hmem

/-- On a device without faults that has the chain, a transfer breaks off at the end of the chain, or
at the last word before it. -/
theorem Reading.pastEnd_of_breaks (h : Reading g disk cs p s) (hchain : g.IsChain disk.byte cs)
    (hdisk : disk.Faultless) (hdevice : ∀ c ∈ cs, g.OnDevice disk c) (hp : p ≤ g.capacity cs)
    (hword : p < wordLimit) {direction : Direction} {n m : Nat} {e : Error}
    (hb : s.Breaks direction n m e) : e = g.pastEnd cs := by
  have hpasses := h.passes hchain hp
  have hle : ∀ {j c}, s.walk? j = some c → p + j ≤ g.capacity cs := by
    intro j c hc
    refine Nat.not_lt.mp fun hlt => ?_
    rw [h.walk?_eq_none hchain hp hlt] at hc
    cases hc
  have hdevice' := h.device_ne_of_breaks hdisk hdevice (fun i c _ => hpasses i c) hb
  unfold Geometry.pastEnd
  cases hb with
  | chain _ hwalk hend _ hmoved =>
      have hat : p + m = g.capacity cs := by
        refine Nat.le_antisymm (hle hwalk) (Nat.not_lt.mp fun hlt => ?_)
        obtain ⟨d, hd, _⟩ := h.walk hchain.toPath (n := m + 1) hlt
        rw [hend] at hd
        cases hd
      have hsmall : g.capacity cs < wordLimit := by
        rw [h.position] at hmoved
        rcases Nat.eq_zero_or_pos m with rfl | hm
        · exact hat ▸ hword
        · exact hat ▸ hmoved hm
      rw [if_pos hsmall]
  | read _ => exact absurd rfl (hdevice' _)
  | write _ _ => exact absurd rfl (hdevice' _)
  | position _ hwalk hlarge =>
      rw [h.position] at hlarge
      have := hle hwalk
      rw [if_neg (by omega)]
  | offset _ hout =>
      obtain ⟨_, c, hc, _, hunfit⟩ := hout
      rw [h.geometry] at hunfit
      exact absurd (hchain.offsetFits (hpasses _ c hc)) hunfit

/-- **A read does not go past the end of a chain.** -/
theorem Reading.read_past_end (h : Reading g disk cs p s) (hchain : g.IsChain disk.byte cs)
    (hdisk : disk.Faultless) (hdevice : ∀ c ∈ cs, g.OnDevice disk c) (hp : p ≤ g.capacity cs)
    (hword : p < wordLimit) {n : Nat} (hn : g.capacity cs < p + n) :
    (s.read n).error? = some (g.pastEnd cs)
      ∧ s.volume.disk.Logs (·.Confined g (· ∈ cs)) (s.read n).stream.volume.disk := by
  have hpasses := h.passes hchain hp
  obtain ⟨_, hworks⟩ := works_readFrom .empty n h.geometry h.ready hpasses
  obtain ⟨data, _, hdelivers⟩ := readFrom_delivers .empty n h.ready
  rw [read_eq_readFrom h.ready h.failure n]
  refine ⟨?_, hworks.logs⟩
  cases he : (readFrom .empty n s).error? with
  | none =>
      have hwalk := (hdelivers.done he).2.walk
      rw [h.walk?_eq_none hchain hp hn] at hwalk
      cases hwalk
  | some e =>
      exact congrArg some (h.pastEnd_of_breaks hchain hdisk hdevice hp hword
        (hdelivers.failed e he))

/-- **A write does not go past the end of a chain.** -/
theorem Reading.write_past_end (h : Reading g disk cs p s) (hchain : g.IsChain disk.byte cs)
    (apart : g.TableApart) (hdisk : disk.Faultless) (hdevice : ∀ c ∈ cs, g.OnDevice disk c)
    (hp : p ≤ g.capacity cs) (hword : p < wordLimit) {data : ByteArray}
    (hn : g.capacity cs < p + data.size) :
    ∃ t, write data s = .error (g.pastEnd cs) t
      ∧ s.volume.disk.Logs (·.Confined g (· ∈ cs)) t.volume.disk := by
  have hpasses := h.passes hchain hp
  have hwrite := (ends_writeFrom data data.size h.ready (h.geometry ▸ apart) (Nat.le_refl _)).and
    (works_writeFrom data data.size (Nat.le_refl _) h.geometry apart h.ready hpasses)
  obtain ⟨e, t, hr, ⟨_, m, _, hb, _⟩, hworks⟩ := hwrite.exists_error fun _ t ht => by
    have hwalk := ht.1.1.walk
    rw [h.walk?_eq_none hchain hp hn] at hwalk
    cases hwalk
  obtain rfl := h.pastEnd_of_breaks hchain hdisk hdevice hp hword hb
  exact ⟨_, guarded_of_error h.failure hr, hworks.logs⟩

end PastEnd

end ChainStream

/-- **Where chains end on a mounted volume.** No mark is a cluster unless the volume has the last
format and so many clusters that their numbers reach the marks. While none is, a read or a write
that is to go past the end of a marked chain fails, if the device has no faults and has the chain,
and asks for no sector beyond the chain: it finds the chain broken off at its end, or, if that is
behind the last word, the loader stops before. For a write the table must lie outside the data. -/
theorem Fat.Volume.ends_chains_of_locate {disk disk' : Disk} {g : Geometry}
    (h : locate disk = .ok g disk') :
    (g.MarksApart ↔ (g.format = .fat32 → g.entryCount ≤ 0x0FFFFFF8))
      ∧ (g.MarksApart → ∀ (d : Disk) (cs : List Nat) (p : Nat) (s : ChainStream),
          g.Marked d.byte cs → d.Faultless → (∀ c ∈ cs, g.OnDevice d c) →
          ChainStream.Reading g d cs p s → p ≤ g.capacity cs → p < wordLimit →
          (∀ n, g.capacity cs < p + n →
            (s.read n).error? = some (g.pastEnd cs)
              ∧ s.volume.disk.Logs (·.Confined g (· ∈ cs)) (s.read n).stream.volume.disk)
          ∧ (g.TableApart → ∀ data : ByteArray, g.capacity cs < p + data.size →
            ∃ t, ChainStream.write data s = .error (g.pastEnd cs) t
              ∧ s.volume.disk.Logs (·.Confined g (· ∈ cs)) t.volume.disk)) := by
  obtain ⟨sector, start, hsector⟩ := exists_of_locate h
  have hdescribes := BootSector.describes_of_geometry hsector
  refine ⟨?_, ?_⟩
  · -- the other two formats leave room for their marks
    rw [Geometry.marksApart_iff]
    cases hf : g.format with
    | fat12 =>
        have hcount := hdescribes.entryCount_of_fat12 hf
        refine ⟨fun _ => nofun, fun _ => ?_⟩
        show g.entryCount + 7 ≤ 0xFFF
        omega
    | fat16 =>
        have hcount := hdescribes.entryCount_of_fat16 hf
        refine ⟨fun _ => nofun, fun _ => ?_⟩
        show g.entryCount + 7 ≤ 0xFFFF
        omega
    | fat32 =>
        exact ⟨fun hle _ => Nat.le_of_add_le_add_right hle,
          fun hle => Nat.add_le_add_right (hle rfl) 7⟩
  · intro apart d cs p s hmarked hd hdevice hs hp hword
    have hchain := hmarked.isChain apart hdescribes.offsetsFit
    exact ⟨fun n hn => hs.read_past_end hchain hd hdevice hp hword hn,
      fun htable data hn => hs.write_past_end hchain htable hd hdevice hp hword hn⟩

/-- The first cluster of a small volume is a chain; reads and writes past it fail. -/
theorem mountable_ends_chains :
    let s := (Volume.ofDisk mountableDisk mountableGeometry true).openAt 2
    (s.read 513).error? = some .integrity
      ∧ ∃ t, ChainStream.write (.replicate 513 7) s = .error .integrity t := by
  intro s
  have hdisk : mountableDisk.Faultless := ⟨fun _ _ => rfl, fun _ _ => rfl⟩
  obtain ⟨disk', hlocate⟩ := Volume.exists_locate hdisk (by decide) ofBootSector_mountable
  have hmarked : mountableGeometry.Marked mountableDisk.byte [2] := by
    refine ⟨⟨by decide, nofun, nofun⟩, by decide, ?_⟩
    intro c hc
    cases hc
    decide
  have hdevice : ∀ c ∈ [2], mountableGeometry.OnDevice mountableDisk c := by
    intro c hc
    obtain rfl := List.mem_singleton.mp hc
    exact ⟨by decide, by decide⟩
  have hapart : mountableGeometry.TableApart := by
    show mountableGeometry.tableEnd ≤ mountableGeometry.dataBase
    decide
  obtain ⟨hmarks, hends⟩ := Volume.ends_chains_of_locate hlocate
  obtain ⟨hread, hwrite⟩ := hends (hmarks.mpr nofun) _ _ _ s hmarked hdisk hdevice
    (ChainStream.reading_openAt rfl true) (Nat.zero_le _) (by decide)
  obtain ⟨t, ht, _⟩ := hwrite hapart (.replicate 513 7) (by rw [ByteArray.size_replicate]; decide)
  have hend : mountableGeometry.pastEnd [2] = .integrity :=
    if_pos (show 512 < wordLimit by decide)
  exact ⟨(hread 513 (by decide)).1.trans (congrArg some hend), t, hend ▸ ht⟩

/-- A disk of so many clusters that the number of the last is a mark, and the entry of the first. -/
def vastDisk : Disk where
  sectorCount := 0x10200022
  blank := sparseBytes [(510, 0x55), (511, 0xAA), (12, 2), (13, 1), (14, 32), (16, 1), (32, 0x20),
    (34, 0x20), (35, 0x10), (38, 0x20), (16392, 0xFF), (16393, 0xFF), (16394, 0xFF), (16395, 0x0F)]

def vastGeometry : Geometry :=
  ⟨.fat32, 32, 0x200020, 1, 0x10000002, by decide⟩

theorem ofBootSector_vast :
    Geometry.ofBootSector (vastDisk.sector 0) 0 = .ok vastGeometry := by
  unfold Geometry.ofBootSector
  rw [BootSector.ofSector_sector_zero]
  rfl

/-- It is mounted, and a read past the end of its first cluster succeeds. -/
theorem vast_read_past_end :
    (∃ disk', Volume.locate vastDisk = .ok vastGeometry disk')
      ∧ ¬ vastGeometry.MarksApart
      ∧ vastGeometry.Marked vastDisk.byte [2]
      ∧ (((Volume.ofDisk vastDisk vastGeometry true).openAt 2).read 513).error? = none := by
  have hdisk : vastDisk.Faultless := ⟨fun _ _ => rfl, fun _ _ => rfl⟩
  have hmark : vastGeometry.tableEntry vastDisk.byte 2 = 0x0FFFFFFF := by
    decide
  have hlast : vastGeometry.HasCluster 0x0FFFFFFF := by
    decide
  refine ⟨Volume.exists_locate hdisk (by decide) ofBootSector_vast,
    fun h => h 0x0FFFFFFF (by decide) hlast, ?_, ?_⟩
  · refine ⟨⟨by decide, nofun, nofun⟩, by decide, ?_⟩
    intro c hc
    cases hc
    exact (congrArg _ hmark).trans rfl
  · -- for the cursor the mark is the next cluster
    have hpath : vastGeometry.Path vastDisk.byte [2, 0x0FFFFFFF] := by
      refine ⟨by decide, ?_, fun _ _ _ _ _ => nofun⟩
      intro k c d hc hd
      match k with
      | 0 =>
          cases hc
          cases hd
          exact hmark
      | k + 1 => cases hd
    have hdevice : ∀ c ∈ [2, 0x0FFFFFFF], vastGeometry.OnDevice vastDisk c := by
      intro c hc
      rcases List.mem_cons.mp hc with rfl | hc
      · exact ⟨by decide, by decide⟩
      · obtain rfl := List.mem_singleton.mp hc
        exact ⟨by decide, by decide⟩
    obtain ⟨t, hread, _⟩ := (ChainStream.reading_openAt rfl true).read hpath hdisk hdevice
      (n := 513) (by decide) (by decide)
    rw [hread]

end CartBoot
