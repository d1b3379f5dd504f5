import CartBoot.Proofs.Files

/-!
# Chains refine plain files

The relation between the two sides, kept by every operation. `Holds` ties the
medium to the contents: every chain spells its file, and outside the chains the
medium is as it was. `Represents` ties the cursors as well.
-/

namespace CartBoot

open Fat ChainStream

variable {ι : Type}

/-- A volume whose device never fails and whose chains hold the files; outside them the device
holds what `disk` holds. -/
structure Holds (g : Geometry) (disk : Disk) (chains : ι → List Nat) (v : Volume)
    (contents : ι → ByteArray) : Prop where
  coherent : v.drive.Coherent
  geometry : v.geometry = g
  faultless : v.disk.Faultless
  fits : g.dataEnd ≤ v.disk.sectorCount
  chain (i : ι) : g.IsChain v.disk.byte (chains i)
  size (i : ι) : (contents i).size = g.capacity (chains i)
  bytes (i : ι) (k a : Nat) : g.fileAddress? (chains i) k = some a →
    v.disk.byte a = (contents i).byteAt k
  outside (a : Nat) : (∀ i k, g.fileAddress? (chains i) k ≠ some a) →
    v.disk.byte a = disk.byte a

/-- A cursor on a chain that stands where the cursor on its file stands. -/
structure At (chains : ι → List Nat) (s : ChainStream) (f : Files ι) : Prop where
  ready : s.Ready
  position : s.position = f.position
  position_le : f.position ≤ f.bytes.size
  cluster : (chains f.file)[(f.position - 1) / s.volume.geometry.clusterBytes]? = some s.cluster

/-- A cursor on the volume and one on the files that cannot be told apart. -/
structure Represents (g : Geometry) (disk : Disk) (chains : ι → List Nat) (s : ChainStream)
    (f : Files ι) : Prop where
  holds : Holds g disk chains s.volume f.contents
  start : (chains f.file)[0]? = some s.start
  failure : s.failure = f.failure
  cursor : f.failure = none → At chains s f

section Holds

variable {g : Geometry} {disk : Disk} {chains : ι → List Nat} {s t : ChainStream} {f : Files ι}

/-- On a device that holds the volume every cluster is there. -/
theorem onDevice_of_fits {d : Disk} (apart : g.TableApart) (hfits : g.dataEnd ≤ d.sectorCount)
    {c : Nat} (hc : g.HasCluster c) : g.OnDevice d c where
  entry := by
    intro x hx
    have := Geometry.entrySectors_lt hc hx
    have hdata : g.dataBase ≤ g.dataEnd := Nat.le_add_right _ _
    unfold Geometry.TableApart at apart
    omega
  data := Nat.le_trans (Geometry.firstSector_add_le hc) hfits

/-- On a device without faults that holds the volume, nothing but the end of the chain breaks off a
transfer that stays with words and with entries within reach. -/
theorem ChainStream.Breaks.integrity {direction : Direction} {n m : Nat} {e : Error}
    (hb : s.Breaks direction n m e) (apart : s.volume.geometry.TableApart)
    (hd : s.volume.disk.Faultless)
    (hfits : s.volume.geometry.dataEnd ≤ s.volume.disk.sectorCount)
    (hword : ∀ j c, j ≤ n → s.walk? j = some c → s.position + j < wordLimit)
    (hreach : ∀ i, i < n → ¬ s.OutOfReach i) :
    e = .integrity ∧ m < n ∧ (∃ c, s.walk? m = some c) ∧ s.walk? (m + 1) = none := by
  have hdevice : ∀ code, e ≠ .device code := by
    intro code he
    subst he
    obtain ⟨i, c, _, _, hc, hdev⟩ := hb.missing hd
    exact hdev (onDevice_of_fits apart hfits hc)
  cases hb with
  | chain hlt hwalk hend _ _ => exact ⟨rfl, hlt, ⟨_, hwalk⟩, hend⟩
  | read _ => exact absurd rfl (hdevice _)
  | write _ _ => exact absurd rfl (hdevice _)
  | position hj hwalk hlarge => exact absurd (hword _ _ hj hwalk) hlarge
  | offset hi hout => exact absurd hout (hreach _ hi)

/-- What a volume holds is a matter of its medium. -/
theorem Holds.of_medium {contents : ι → ByteArray} {v w : Volume}
    (h : Holds g disk chains v contents) (hm : v.disk.SameMedium w.disk)
    (hgeometry : w.geometry = v.geometry) (hcoherent : w.drive.Coherent) :
    Holds g disk chains w contents := by
  refine ⟨hcoherent, hgeometry.trans h.geometry, hm.faultless h.faultless, ?_, ?_, h.size, ?_, ?_⟩
  · rw [hm.sectorCount]
    exact h.fits
  · rw [hm.byte]
    exact h.chain
  · rw [hm.byte]
    exact h.bytes
  · rw [hm.byte]
    exact h.outside

/-- Reading changes nothing. -/
theorem Holds.reads {contents : ι → ByteArray} {v w : Volume} (h : Holds g disk chains v contents)
    (hw : v.Reads w) : Holds g disk chains w contents :=
  h.of_medium hw.drive.medium hw.geometry hw.drive.coherent

/-- Every chain spells its file. -/
theorem Holds.fileBytes_eq {contents : ι → ByteArray} {v : Volume}
    (h : Holds g disk chains v contents) (i : ι) :
    g.fileBytes v.disk.byte (chains i) = contents i := by
  refine ByteArray.ext_byteAt (by rw [Geometry.size_fileBytes, h.size]) ?_
  intro k hk
  rw [Geometry.size_fileBytes] at hk
  obtain ⟨a, ha⟩ := Geometry.exists_fileAddress? hk
  rw [Geometry.byteAt_fileBytes ha, h.bytes i k a ha]

/-! ## The walk of a cursor -/

theorem Holds.size_bytes (h : Holds g disk chains s.volume f.contents) :
    f.bytes.size = g.capacity (chains f.file) :=
  h.size f.file

theorem At.walk (h : Holds g disk chains s.volume f.contents) (hs : At chains s f) {n c : Nat}
    (hc : s.walk? n = some c) : f.position + n ≤ f.bytes.size
      ∧ (chains f.file)[(f.position + n - 1) / g.clusterBytes]? = some c := by
  obtain rfl := h.geometry
  have hcluster := hs.cluster
  rw [← hs.position] at hcluster ⊢
  have hle : s.position + n ≤ f.bytes.size := by
    refine Nat.not_lt.mp fun hlt => ?_
    have hnone := (h.chain f.file).walk?_eq_none hcluster
      (by rw [← h.size_bytes, hs.position]; exact hs.position_le) (n := n)
      (by rw [← h.size_bytes]; exact hlt)
    rw [walk?, hnone] at hc
    cases hc
  refine ⟨hle, ?_⟩
  obtain ⟨d, hd, hd'⟩ := (h.chain f.file).walk?_eq hcluster (h.size_bytes ▸ hle)
  rw [walk?, hd] at hc
  cases hc
  exact hd'

theorem At.walk_end (h : Holds g disk chains s.volume f.contents) (hs : At chains s f) {n : Nat}
    (hn : s.walk? n = none) : f.bytes.size < f.position + n := by
  obtain rfl := h.geometry
  have hcluster := hs.cluster
  rw [← hs.position] at hcluster ⊢
  refine Nat.not_le.mp fun hle => ?_
  obtain ⟨d, hd, _⟩ := (h.chain f.file).walk?_eq hcluster (h.size_bytes ▸ hle)
  rw [walk?, hd] at hn
  cases hn

theorem At.spot (h : Holds g disk chains s.volume f.contents) (hs : At chains s f) (i : Nat) :
    s.spot? i = g.fileAddress? (chains f.file) (f.position + i) := by
  by_cases hi : f.position + i < f.bytes.size
  · obtain rfl := h.geometry
    have hcluster := hs.cluster
    rw [← hs.position] at hcluster hi ⊢
    exact (h.chain f.file).spot?_eq hcluster (h.size_bytes ▸ hi)
  · rw [Geometry.fileAddress?_of_le (by rw [← h.size_bytes]; omega)]
    cases hspot : s.spot? i with
    | none => rfl
    | some a =>
        obtain ⟨c, hc, _⟩ := Option.map_eq_some_iff.mp hspot
        have := (At.walk h hs hc).1
        omega

/-- Within words, nothing but the end of the file breaks off a transfer. -/
theorem At.integrity_of_breaks (h : Holds g disk chains s.volume f.contents) (hs : At chains s f)
    (apart : g.TableApart) {direction : Direction} {n m : Nat} {e : Error}
    (hin : f.position + n < wordLimit ∨ f.bytes.size < wordLimit) (hb : s.Breaks direction n m e) :
    e = .integrity ∧ m < n ∧ s.walk? (m + 1) = none := by
  have hword : ∀ j c, j ≤ n → s.walk? j = some c → s.position + j < wordLimit := by
    intro j c hj hc
    have hle := (At.walk h hs hc).1
    rw [hs.position]
    omega
  have hreach : ∀ i, i < n → ¬ s.OutOfReach i := by
    rintro i - ⟨_, c, hc, _, hunfit⟩
    rw [h.geometry] at hunfit
    exact hunfit ((h.chain f.file).offsetFits (List.mem_of_getElem? (At.walk h hs hc).2))
  obtain ⟨he, hlt, _, hend⟩ := hb.integrity (h.geometry ▸ apart) h.faultless
    (h.geometry ▸ h.fits) hword hreach
  exact ⟨he, hlt, hend⟩

/-! ## What a write does to the files -/

/-- The bytes of files lie above the table. -/
theorem le_of_fileAddress? {cs : List Nat} {k a : Nat} (ha : g.fileAddress? cs k = some a) :
    sectorSize * g.dataBase ≤ a := by
  obtain ⟨c, _, rfl⟩ := Option.map_eq_some_iff.mp ha
  exact Geometry.le_byteAddress _ _ _

variable [DecidableEq ι]

/-- Storing along the walk, as far as it goes, patches the open file and touches no other. -/
theorem Holds.stored (h : Holds g disk chains s.volume f.contents) (apart : g.TableApart)
    (hdisjoint : ∀ i j, i ≠ j → ∀ c ∈ chains i, c ∉ chains j) (hs : At chains s f)
    (hkept : s.Kept t) {data : ByteArray} {m : Nat} (hm : m ≤ data.size)
    (hend : m = data.size ∨ f.bytes.size ≤ f.position + m)
    (hbyte : t.volume.disk.byte = storeAlong s.spot? data.byteAt s.volume.disk.byte m) :
    Holds g disk chains t.volume (f.patch data).contents := by
  have hspot := At.spot h hs
  have hfile := h.chain f.file
  -- the walk stays in the data area, so the chains are the chains they were
  have htable : ∀ a, a < sectorSize * g.tableEnd →
      t.volume.disk.byte a = s.volume.disk.byte a := by
    intro a ha
    rw [hbyte]
    refine storeAlong_of_ne fun i _ hi => ?_
    have := le_of_fileAddress? ((hspot i).symm.trans hi)
    have := Nat.mul_le_mul_left sectorSize apart
    omega
  refine ⟨hkept.coherent, hkept.geometry.trans h.geometry, hkept.faultless h.faultless, ?_, ?_, ?_,
    ?_, ?_⟩
  · rw [hkept.sectorCount]
    exact h.fits
  · exact fun i => (h.chain i).congr htable
  · exact fun i => (Files.size_contents_patch f data i).trans (h.size i)
  · intro i k a ha
    have hk := Geometry.lt_capacity ha
    unfold Files.patch
    dsimp only
    split
    · -- the open file
      rename_i hi
      subst hi
      have hsize := h.size_bytes
      rw [ByteArray.byteAt_patch _ _ _ _ (by rw [h.size]; exact hk), hbyte]
      split
      · rename_i hin
        have hj : s.spot? (k - f.position) = some a := by
          rw [hspot, Nat.add_sub_cancel' hin.1]
          exact ha
        refine storeAlong_of_eq (by omega) hj fun j hlt _ hj' => ?_
        have := hfile.fileAddress?_inj ha ((hspot j).symm.trans hj')
        omega
      · rename_i hout
        rw [← h.bytes _ k a ha]
        refine storeAlong_of_ne fun j hj hj' => hout ?_
        have := hfile.fileAddress?_inj ha ((hspot j).symm.trans hj')
        omega
    · -- another file
      rename_i hi
      rw [hbyte, ← h.bytes i k a ha]
      refine storeAlong_of_ne fun j _ hj => ?_
      exact Geometry.fileAddress?_disjoint (h.chain i).has hfile.has (hdisjoint i f.file hi) ha
        ((hspot j).symm.trans hj)
  · intro a ha
    rw [hbyte, ← h.outside a ha]
    exact storeAlong_of_ne fun j _ hj => ha f.file _ ((hspot j).symm.trans hj)

end Holds

/-! ## Requests match -/

section Requests

variable {g : Geometry} {disk : Disk} {chains : ι → List Nat} {s t : ChainStream} {f : Files ι}

/-- A cursor that fails is as good as one that failed in the same way. -/
theorem Represents.fail (h : Represents g disk chains s f) (hkept : s.Kept t) (f' : Files ι)
    (hfile : f'.file = f.file) (hholds : Holds g disk chains t.volume f'.contents) (e : Error) :
    Represents g disk chains { t with failure := some e } { f' with failure := some e } where
  holds := hholds
  start := by
    show (chains f'.file)[0]? = some t.start
    rw [hfile, hkept.start]
    exact h.start
  failure := rfl
  cursor := nofun

/-- A cursor that goes on does so on both sides. -/
theorem Represents.go (h : Represents g disk chains s f) (hkept : s.Kept t) {f' : Files ι}
    (hfile : f'.file = f.file) (hfailure : f'.failure = f.failure)
    (hholds : Holds g disk chains t.volume f'.contents) (hat : At chains t f') :
    Represents g disk chains t f' where
  holds := hholds
  start := by
    rw [hfile, hkept.start]
    exact h.start
  failure := by rw [hkept.failure, h.failure, hfailure]
  cursor := fun _ => hat

/-- A cursor that has not failed reads the file from where it stands. -/
theorem Represents.reading (h : Represents g disk chains s f) (hf : f.failure = none) :
    Reading g s.volume.disk (chains f.file) f.position s where
  ready := (h.cursor hf).ready
  failure := h.failure.trans hf
  medium := .refl _
  geometry := h.holds.geometry
  position := (h.cursor hf).position
  cluster := by
    rw [← h.holds.geometry]
    exact (h.cursor hf).cluster

theorem matches_seek (h : Represents g disk chains s f) (apart : g.TableApart) {position : Nat}
    (hp : position ≤ f.bytes.size) :
    Matches (Represents g disk chains) (seek position s) (Files.seek position f) := by
  have hholds := h.holds
  cases hf : f.failure with
  | some e =>
      unfold seek Files.seek
      rw [ChainStream.guarded_of_failed (h.failure.trans hf), Files.guarded_of_failed hf]
      exact ⟨rfl, h⟩
  | none =>
      have hpath := (hholds.chain f.file).toPath
      obtain ⟨t, hr, hmoved, ht⟩ := ((h.reading hf).usable h.start).seek hpath hholds.faultless
        (fun c hc => onDevice_of_fits apart hholds.fits (hpath.has c hc)) (hholds.size_bytes ▸ hp)
      unfold Files.seek
      rw [hr, Files.guarded_of_none hf]
      refine ⟨rfl, h.go hmoved.kept rfl rfl (hholds.reads hmoved.volume)
        ⟨ht.ready, ht.position, hp, ?_⟩⟩
      rw [ht.geometry]
      exact ht.cluster

theorem matches_read (h : Represents g disk chains s f) (apart : g.TableApart) {len : Nat}
    (hin : f.Within len) :
    Matches (Represents g disk chains) (readExact len s) (Files.read len f) := by
  cases hf : f.failure with
  | some e =>
      rw [readExact_of_some (read_of_failed (h.failure.trans hf) len), Files.read_of_failed hf]
      exact ⟨rfl, h⟩
  | none =>
      have hat := h.cursor hf
      have hholds := h.holds
      by_cases hfit : f.position + len ≤ f.bytes.size
      · obtain ⟨t, hr, hmoved, ht⟩ := (h.reading hf).read (hholds.chain f.file).toPath
          hholds.faultless
          (fun c hc => onDevice_of_fits apart hholds.fits ((hholds.chain f.file).has c hc))
          (by rw [← hholds.size_bytes]; exact hfit)
          ((hin hf).elim id (Nat.lt_of_le_of_lt hfit))
        rw [hholds.fileBytes_eq] at hr
        rw [readExact_of_none hr, Files.read_of_le hf hfit]
        refine ⟨rfl, h.go hmoved.kept rfl rfl (hholds.reads hmoved.volume)
          ⟨ht.ready, ht.position, hfit, ?_⟩⟩
        rw [ht.geometry]
        exact ht.cluster
      · -- what is past the end breaks off the read, and nothing else does
        obtain ⟨data, error?, rest, hr, hdelivers⟩ :=
          exists_read_eq hat.ready (h.failure.trans hf) len
        have hsome : ∃ e, error? = some e := by
          refine Option.ne_none_iff_exists'.mp fun hnone => ?_
          have := (At.walk hholds hat (hdelivers.done hnone).2.walk).1
          omega
        obtain ⟨e, rfl⟩ := hsome
        obtain ⟨rfl, _⟩ := hat.integrity_of_breaks hholds apart (hin hf) (hdelivers.failed e rfl)
        rw [readExact_of_some hr, Files.read_of_lt hf (by omega)]
        exact ⟨rfl, h.fail hdelivers.moved.kept { f with position := f.bytes.size } rfl
          (hholds.reads hdelivers.moved.volume) .integrity⟩

variable [DecidableEq ι]

theorem matches_write (h : Represents g disk chains s f) (apart : g.TableApart)
    (hdisjoint : ∀ i j, i ≠ j → ∀ c ∈ chains i, c ∉ chains j) {data : ByteArray}
    (hin : f.Within data.size) :
    Matches (Represents g disk chains) (write data s) (Files.write data f) := by
  cases hf : f.failure with
  | some e =>
      unfold write
      rw [ChainStream.guarded_of_failed (h.failure.trans hf), Files.write_of_failed hf]
      exact ⟨rfl, h⟩
  | none =>
      have hat := h.cursor hf
      have hholds := h.holds
      have hwrite := ends_writeFrom data data.size hat.ready
        (by rw [hholds.geometry]; exact apart) (Nat.le_refl _)
      rw [Nat.sub_self] at hwrite
      simp only [Nat.zero_add] at hwrite
      unfold write
      cases hr : writeFrom data data.size s with
      | ok a t =>
          -- all of it was stored, so it ends inside the file
          obtain ⟨hahead, hbyte⟩ := hwrite.of_ok hr
          have hstored := hholds.stored apart hdisjoint hat hahead.kept (Nat.le_refl _) (.inl rfl)
            hbyte
          obtain ⟨hle, hcluster⟩ := At.walk hholds hat hahead.walk
          rw [ChainStream.guarded_of_ok (h.failure.trans hf) hr, Files.write_of_le hf hle]
          refine ⟨rfl, h.go hahead.kept rfl rfl hstored ⟨hahead.ready, ?_, ?_, ?_⟩⟩
          · exact hahead.position.trans (congrArg (· + data.size) hat.position)
          · exact Nat.le_trans hle (Nat.le_of_eq (Files.size_contents_patch f data f.file).symm)
          · rw [hstored.geometry]
            exact hcluster
      | error e t =>
          -- only the end of the chain breaks it off, and what fits was stored
          obtain ⟨hkept, m, k, hb, _, hbyte, hk⟩ := hwrite.of_error hr
          obtain ⟨rfl, hlt, hwalk⟩ := hat.integrity_of_breaks hholds apart (hin hf) hb
          obtain rfl := hk nofun
          have hend := At.walk_end hholds hat hwalk
          have hstored := hholds.stored apart hdisjoint hat hkept (Nat.le_of_lt hlt)
            (.inr (by omega)) hbyte
          rw [ChainStream.guarded_of_error (h.failure.trans hf) hr, Files.write_of_lt hf (by omega)]
          exact ⟨rfl, h.fail hkept { f.patch data with position := f.bytes.size } rfl hstored
            .integrity⟩

theorem matches_fill (apart : g.TableApart)
    (hdisjoint : ∀ i j, i ≠ j → ∀ c ∈ chains i, c ∉ chains j) (value : UInt8) (len : Nat)
    (h : Represents g disk chains s f) (hin : f.Within len) :
    Matches (Represents g disk chains) (fill value len s) (Files.fill value len f) := by
  induction len using Nat.strongRecOn generalizing s f with
  | ind len ih =>
      rw [fill]
      split
      · rename_i hzero
        subst hzero
        exact ⟨rfl, h⟩
      · rename_i hne
        -- on the files a fill is one write; it is cut here as it is on the chain
        have hle := Nat.min_le_right fillPiece len
        rw [Files.fill_split value hne hle]
        have hpiece : f.Within ((ByteArray.replicate (min fillPiece len) value).size
            + (len - min fillPiece len)) := by
          rwa [ByteArray.size_replicate, Nat.add_sub_cancel' hle]
        have hfirst := matches_write h apart hdisjoint hpiece.of_add
        refine (hfirst.and (P := fun f => f.Within (len - min fillPiece len)) hpiece.write).bind_of
          (fun _ _ h => h.1) fun _ s f h => ?_
        exact ih _ (by unfold fillPiece; omega) h.1 h.2

end Requests

/-! ## Whole runs -/

/-- What can be done with the files of a volume. -/
inductive Use (ι : Type) where
  /-- Open a file. -/
  | openFile (file : ι)
  /-- Work with the open file. -/
  | request (r : Request)

namespace Use

/-- Use the volume: a file is opened by the first cluster of its chain. -/
def onChains (chains : ι → List Nat) : Use ι → EStateM Error ChainStream ByteArray
  | .openFile file => do
      modify fun s => s.volume.openAt ((chains file).headD 0)
      return .empty
  | .request r => r.perform

/-- Use the plain files. -/
def onFiles [DecidableEq ι] : Use ι → EStateM Error (Files ι) ByteArray
  | .openFile file => do
      modify fun f => { contents := f.contents, file }
      return .empty
  | .request r => Files.perform r

/-- Seeks stay within the open file, and no transfer gets behind the last word. -/
def Inside : Use ι → Files ι → Prop
  | .openFile _, _ => True
  | .request (.seek position), f => position.toNat ≤ f.bytes.size
  | .request (.read len), f => f.Within len
  | .request (.write data), f => f.Within data.size
  | .request (.fill _ len), f => f.Within len

end Use

namespace Files

variable [DecidableEq ι]

/-- No use changes the size of a file. -/
theorem size_contents_use (u : Use ι) (f : Files ι) (i : ι) :
    ((outcome (u.onFiles f)).2.contents i).size = (f.contents i).size := by
  cases u with
  | openFile file => rfl
  | request r =>
      cases r with
      | seek position =>
          exact congrArg (fun contents => (contents i).size)
            ((congrArg contents (outcome_bind_pure _ _ f)).trans (contents_seek _ f))
      | read len => exact congrArg (fun contents => (contents i).size) (contents_read len f)
      | write data =>
          exact (congrArg (fun f : Files ι => (f.contents i).size) (outcome_bind_pure _ _ f)).trans
            (size_contents_write data f i)
      | fill value len =>
          refine (congrArg (fun f : Files ι => (f.contents i).size)
            (outcome_bind_pure _ _ f)).trans ?_
          unfold fill
          split
          · rfl
          · exact size_contents_write _ f i

/-- Where all files end at a word, only seeks have to stay inside. -/
theorem admits_of_small {uses : List (Use ι)} {f : Files ι}
    (hsmall : ∀ i, (f.contents i).size < wordLimit)
    (hseeks : Admits Use.onFiles
      (fun u f => ∀ position, u = .request (.seek position) → position.toNat ≤ f.bytes.size)
      uses f) : Admits Use.onFiles Use.Inside uses f := by
  induction uses generalizing f with
  | nil => trivial
  | cons u uses ih =>
      obtain ⟨hseek, hrest⟩ := hseeks
      refine ⟨?_, ih (fun i => by rw [size_contents_use]; exact hsmall i) hrest⟩
      have hwithin : ∀ len, f.Within len := fun len _ => .inr (hsmall f.file)
      match u with
      | .openFile file => trivial
      | .request (.seek position) => exact hseek position rfl
      | .request (.read len) => exact hwithin len
      | .request (.write data) => exact hwithin data.size
      | .request (.fill value len) => exact hwithin len

end Files

/-- The files that the chains of a disk hold, the cursor at the start of one of them. -/
def Files.ofChains (g : Geometry) (byte : Nat → UInt8) (chains : ι → List Nat) (file : ι) :
    Files ι :=
  { contents := fun i => g.fileBytes byte (chains i), file }

section Runs

variable {g : Geometry} {disk : Disk} {chains : ι → List Nat}

/-- A file just opened. -/
theorem represents_openAt {v : Volume} {contents : ι → ByteArray}
    (h : Holds g disk chains v contents) (file : ι) :
    Represents g disk chains (v.openAt ((chains file).headD 0)) { contents, file } := by
  have hstart : (chains file)[0]? = some ((chains file).headD 0) := by
    cases hcs : chains file with
    | nil => exact absurd hcs (h.chain file).ne
    | cons c cs => rfl
  refine ⟨h, hstart, rfl, fun _ => ⟨?_, rfl, Nat.zero_le _, ?_⟩⟩
  · exact ⟨h.coherent, fun h => absurd rfl h, fun h => absurd rfl h⟩
  · dsimp only
    rw [Nat.zero_sub, Nat.zero_div]
    exact hstart

theorem Holds.openAt {v : Volume} {contents : ι → ByteArray} {i : ι} {c : Nat}
    (h : Holds g disk chains v contents) (hc : (chains i)[0]? = some c) :
    Represents g disk chains (v.openAt c) { contents, file := i } := by
  have hopen := represents_openAt h i
  rwa [List.headD_eq_head?_getD, List.head?_eq_getElem?, hc] at hopen

/-- Every use matches. -/
theorem matches_use [DecidableEq ι] (apart : g.TableApart)
    (hdisjoint : ∀ i j, i ≠ j → ∀ c ∈ chains i, c ∉ chains j) (u : Use ι) {s : ChainStream}
    {f : Files ι} (h : Represents g disk chains s f) (hin : u.Inside f) :
    Matches (Represents g disk chains) (u.onChains chains s) (u.onFiles f) := by
  have hdone : ∀ (s : ChainStream) (f : Files ι), Represents g disk chains s f →
      Matches (Represents g disk chains)
        ((pure .empty : EStateM Error ChainStream ByteArray) s)
        ((pure .empty : EStateM Error (Files ι) ByteArray) f) := fun s f h => ⟨rfl, h⟩
  cases u with
  | openFile file => exact ⟨rfl, represents_openAt h.holds file⟩
  | request r =>
      cases r with
      | seek position => exact (matches_seek h apart hin).bind fun _ => hdone
      | read len => exact matches_read h apart hin
      | write data => exact (matches_write h apart hdisjoint hin).bind fun _ => hdone
      | fill value len => exact (matches_fill apart hdisjoint value len h hin).bind fun _ => hdone

/-- A volume holds the files of its chains. -/
theorem holds_fileBytes {v : Volume} (hcoherent : v.drive.Coherent) (hdisk : v.disk.Faultless)
    (hfits : v.geometry.dataEnd ≤ v.disk.sectorCount)
    (hchains : ∀ i, v.geometry.IsChain v.disk.byte (chains i)) :
    Holds v.geometry v.disk chains v
      fun i => v.geometry.fileBytes v.disk.byte (chains i) where
  coherent := hcoherent
  geometry := rfl
  faultless := hdisk
  fits := hfits
  chain := hchains
  size := fun _ => Geometry.size_fileBytes
  bytes := fun _ _ _ ha => (Geometry.byteAt_fileBytes ha).symm
  outside := fun _ _ => rfl

/-- A formatted disk holds the files of its chains. -/
theorem holds_ofDisk (foldRuns : Bool) (hdisk : disk.Faultless)
    (hfits : g.dataEnd ≤ disk.sectorCount) (hchains : ∀ i, g.IsChain disk.byte (chains i)) :
    Holds g disk chains (Volume.ofDisk disk g foldRuns)
      fun i => g.fileBytes disk.byte (chains i) :=
  holds_fileBytes (v := Volume.ofDisk disk g foldRuns) (Drive.coherent_of_empty rfl) hdisk hfits
    hchains

/-- **Chains refine plain files.** Over any run of opens, seeks, reads, writes and fills a volume
on a device that never fails gives the answers that plain files give; in the end the chains hold
the contents of the files, and nothing else has changed. -/
theorem chains_refine_files [DecidableEq ι] (foldRuns : Bool) (apart : g.TableApart)
    (hdisk : disk.Faultless) (hfits : g.dataEnd ≤ disk.sectorCount)
    (hchains : ∀ i, g.IsChain disk.byte (chains i))
    (hdisjoint : ∀ i j, i ≠ j → ∀ c ∈ chains i, c ∉ chains j) (first : ι) (uses : List (Use ι))
    (hin : Admits Use.onFiles Use.Inside uses (Files.ofChains g disk.byte chains first)) :
    let volume := runAll (Use.onChains chains) uses
      ((Volume.ofDisk disk g foldRuns).openAt ((chains first).headD 0))
    let files := runAll Use.onFiles uses (Files.ofChains g disk.byte chains first)
    volume.1 = files.1
      ∧ (∀ i, g.fileBytes volume.2.volume.disk.byte (chains i) = files.2.contents i)
      ∧ (∀ a, (∀ i k, g.fileAddress? (chains i) k ≠ some a) →
          volume.2.volume.disk.byte a = disk.byte a)
      ∧ volume.2.failure = files.2.failure
      ∧ (files.2.failure = none → volume.2.position = files.2.position) := by
  intro volume files
  obtain ⟨hanswers, hend⟩ := runAll_matches
    (fun u s f h hu => matches_use apart hdisjoint u h hu) uses
    (represents_openAt (holds_ofDisk foldRuns hdisk hfits hchains) first) hin
  exact ⟨hanswers, hend.holds.fileBytes_eq, hend.holds.outside, hend.failure,
    fun hnone => (hend.cursor hnone).position⟩

end Runs

/-! ## A small volume -/

theorem smallGeometry_consistent : Geometry.Consistent 0 1 1 5 := by
  decide

/-- Three clusters of one sector, after one sector of table. -/
def smallGeometry : Geometry := ⟨.fat16, 0, 1, 1, 5, smallGeometry_consistent⟩

/-- The first cluster is linked to the last; the one between them is a chain by itself. -/
def smallDisk : Disk where
  sectorCount := 4
  blank a := if a = 4 then 4 else if 6 ≤ a ∧ a < 10 then 0xFF else 0

def smallChains : Bool → List Nat
  | true => [2, 4]
  | false => [3]

theorem smallGeometry_apart : smallGeometry.TableApart := by
  show smallGeometry.tableEnd ≤ smallGeometry.dataBase
  decide

theorem smallDisk_fits : smallGeometry.dataEnd ≤ smallDisk.sectorCount := by
  decide

theorem smallDisk_faultless : smallDisk.Faultless := ⟨fun _ _ => rfl, fun _ _ => rfl⟩

theorem isChain_smallChains (i : Bool) : smallGeometry.IsChain smallDisk.byte (smallChains i) := by
  cases i with
  | true =>
      refine ⟨⟨by decide, ?_, fun _ _ _ _ _ => nofun⟩, by decide, by decide, ?_, fun _ _ => nofun⟩
      · intro k c d hc hd
        match k with
        | 0 =>
            cases hc
            cases hd
            decide
        | 1 => cases hd
        | k + 2 => cases hd
      · intro c hc
        cases hc
        decide
  | false =>
      refine ⟨⟨by decide, ?_, fun _ _ _ _ _ => nofun⟩, by decide, by decide, ?_, fun _ _ => nofun⟩
      · intro k c d hc hd
        match k with
        | 0 => cases hd
        | k + 1 => cases hd
      · intro c hc
        cases hc
        decide

theorem onDevice_small (i : Bool) : ∀ c ∈ smallChains i, smallGeometry.OnDevice smallDisk c :=
  fun c hc => onDevice_of_fits smallGeometry_apart smallDisk_fits
    ((isChain_smallChains i).has c hc)

/-- A write over a cluster boundary, a read of another file and a fill past its end. -/
theorem small_chains_refine_files :
    let uses : List (Use Bool) := [.request (.seek 500), .request (.write (.replicate 20 7)),
      .openFile false, .request (.read 512), .request (.fill 1 1)]
    (runAll (Use.onChains smallChains) uses
        ((Volume.ofDisk smallDisk smallGeometry true).openAt 2)).1
      = (runAll Use.onFiles uses
          (Files.ofChains smallGeometry smallDisk.byte smallChains true)).1 := by
  intro uses
  have hsize : ∀ i, ((Files.ofChains smallGeometry smallDisk.byte smallChains true).contents i).size
      = smallGeometry.capacity (smallChains i) := fun i => Geometry.size_fileBytes
  have hseek : 500 ≤ (Files.ofChains smallGeometry smallDisk.byte smallChains true).bytes.size := by
    unfold Files.bytes
    rw [hsize]
    decide
  have hinside : Admits Use.onFiles Use.Inside uses
      (Files.ofChains smallGeometry smallDisk.byte smallChains true) :=
    Files.admits_of_small (fun i => by rw [hsize]; cases i <;> decide)
      ⟨fun position h => by cases h; exact hseek, nofun, nofun, nofun, nofun, trivial⟩
  exact (chains_refine_files true smallGeometry_apart smallDisk_faultless smallDisk_fits
    isChain_smallChains (by decide) true uses hinside).1

end CartBoot
