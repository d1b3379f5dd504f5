import CartBoot.Proofs.Requests

/-!
# Files laid out in clusters

A list of clusters that the table links one to the next holds a file: its bytes
are those of the clusters in order. `Path` says that the table links a list,
`IsChain` that it also ends there and that no cluster comes twice.

A cursor on a path is on the cluster of the byte before it. From there the walk
leads along the path, and on a chain it breaks off exactly at the end of the file.
Two bytes of chains that share no cluster are never in the same place.
-/

namespace CartBoot

open Fat

namespace Fat.Geometry

/-- The table leads from each cluster of a list to the next, as `Volume.nextCluster` reads it. An
entry that is out of its reach leads nowhere. -/
structure Path (g : Geometry) (byte : Nat → UInt8) (cs : List Nat) : Prop where
  has : ∀ c ∈ cs, g.HasCluster c
  next : ∀ k c d, cs[k]? = some c → cs[k + 1]? = some d → g.tableEntry byte c = d
  fits : ∀ k c d, cs[k]? = some c → cs[k + 1]? = some d → g.OffsetFits c

/-- A whole chain: the entry of its last cluster is read too, and is no cluster; and no cluster
comes twice. -/
structure IsChain (g : Geometry) (byte : Nat → UInt8) (cs : List Nat) : Prop
    extends g.Path byte cs where
  ne : cs ≠ []
  nodup : cs.Nodup
  last : ∀ c, cs.getLast? = some c → ¬ g.HasCluster (g.tableEntry byte c)
  lastFits : ∀ c, cs.getLast? = some c → g.OffsetFits c

/-- The number of bytes that a list of clusters holds. -/
def capacity (g : Geometry) (cs : List Nat) : Nat :=
  cs.length * g.clusterBytes

/-- The address of a byte of the file in a list of clusters. -/
def fileAddress? (g : Geometry) (cs : List Nat) (k : Nat) : Option Nat :=
  cs[k / g.clusterBytes]?.map fun c => g.byteAddress c k

/-- The file that a list of clusters holds. -/
def fileBytes (g : Geometry) (byte : Nat → UInt8) (cs : List Nat) : ByteArray :=
  .tabulate (g.capacity cs) fun k => ((g.fileAddress? cs k).map byte).getD 0

section Paths

variable {g : Geometry} {byte : Nat → UInt8} {cs ds : List Nat}

@[simp] theorem size_fileBytes : (g.fileBytes byte cs).size = g.capacity cs := by
  unfold fileBytes
  simp

theorem div_lt_length {k : Nat} : k / g.clusterBytes < cs.length ↔ k < g.capacity cs := by
  unfold capacity
  exact Nat.div_lt_iff_lt_mul g.clusterBytes_pos

theorem exists_fileAddress? {k : Nat} (hk : k < g.capacity cs) :
    ∃ a, g.fileAddress? cs k = some a := by
  unfold fileAddress?
  rw [List.getElem?_eq_getElem (div_lt_length.mpr hk)]
  exact ⟨_, rfl⟩

theorem fileAddress?_of_le {k : Nat} (hk : g.capacity cs ≤ k) : g.fileAddress? cs k = none := by
  unfold fileAddress?
  rw [List.getElem?_eq_none]
  · rfl
  · exact Nat.not_lt.mp fun h => absurd (div_lt_length.mp h) (Nat.not_lt.mpr hk)

theorem lt_capacity {k a : Nat} (ha : g.fileAddress? cs k = some a) : k < g.capacity cs := by
  refine Nat.not_le.mp fun hle => ?_
  rw [fileAddress?_of_le hle] at ha
  cases ha

theorem byteAt_fileBytes {k a : Nat} (ha : g.fileAddress? cs k = some a) :
    (g.fileBytes byte cs).byteAt k = byte a := by
  unfold fileBytes
  rw [ByteArray.byteAt_tabulate, if_pos (lt_capacity ha), ha]
  rfl

/-- A file is a matter of the bytes at its own addresses. -/
theorem fileBytes_congr {byte' : Nat → UInt8}
    (h : ∀ k a, g.fileAddress? cs k = some a → byte' a = byte a) :
    g.fileBytes byte' cs = g.fileBytes byte cs := by
  refine ByteArray.ext_byteAt (by rw [size_fileBytes, size_fileBytes]) ?_
  intro k hk
  rw [size_fileBytes] at hk
  obtain ⟨a, ha⟩ := exists_fileAddress? hk
  rw [byteAt_fileBytes ha, byteAt_fileBytes ha, h k a ha]

/-! ## Two bytes in one place -/

theorem byteAddress_inj {c d i j : Nat} (hc : g.HasCluster c) (hd : g.HasCluster d)
    (h : g.byteAddress c i = g.byteAddress d j) :
    c = d ∧ i % g.clusterBytes = j % g.clusterBytes := by
  have hpos := g.clusterBytes_pos
  have hi := Nat.mod_lt i hpos
  have hj := Nat.mod_lt j hpos
  obtain ⟨hc, _⟩ := hc
  obtain ⟨hd, _⟩ := hd
  unfold byteAddress firstSector at h
  rw [Nat.mul_add, Nat.mul_add, ← Nat.mul_assoc, ← Nat.mul_assoc, ← clusterBytes_eq] at h
  have hsum : g.clusterBytes * (c - 2) + i % g.clusterBytes
      = g.clusterBytes * (d - 2) + j % g.clusterBytes := by omega
  have hdiv := congrArg (· / g.clusterBytes) hsum
  rw [Nat.mul_add_div hpos, Nat.mul_add_div hpos, Nat.div_eq_of_lt hi, Nat.div_eq_of_lt hj] at hdiv
  have hcd : c - 2 = d - 2 := by omega
  rw [hcd] at hsum
  exact ⟨by omega, by omega⟩

/-- Bytes of files in one place are in one cluster, equally far in. -/
theorem fileAddress?_inj {i j a : Nat} (hcs : ∀ c ∈ cs, g.HasCluster c)
    (hds : ∀ d ∈ ds, g.HasCluster d) (hi : g.fileAddress? cs i = some a)
    (hj : g.fileAddress? ds j = some a) :
    ∃ c, cs[i / g.clusterBytes]? = some c ∧ ds[j / g.clusterBytes]? = some c
      ∧ i % g.clusterBytes = j % g.clusterBytes := by
  unfold fileAddress? at hi hj
  obtain ⟨c, hc, hca⟩ := Option.map_eq_some_iff.mp hi
  obtain ⟨d, hd, hda⟩ := Option.map_eq_some_iff.mp hj
  obtain ⟨rfl, hmod⟩ := byteAddress_inj (hcs c (List.mem_of_getElem? hc))
    (hds d (List.mem_of_getElem? hd)) (hca.trans hda.symm)
  exact ⟨c, hc, hd, hmod⟩

/-- A chain has each of its bytes in a place of its own. -/
theorem IsChain.fileAddress?_inj {i j a : Nat} (h : g.IsChain byte cs)
    (hi : g.fileAddress? cs i = some a) (hj : g.fileAddress? cs j = some a) : i = j := by
  obtain ⟨c, hc, hc', hmod⟩ := Geometry.fileAddress?_inj h.has h.has hi hj
  have hdiv : i / g.clusterBytes = j / g.clusterBytes :=
    (List.getElem?_inj (List.getElem?_eq_some_iff.mp hc).1 h.nodup).mp (hc.trans hc'.symm)
  rw [← Nat.div_add_mod i g.clusterBytes, ← Nat.div_add_mod j g.clusterBytes, hdiv, hmod]

/-- Chains without a common cluster have no byte in common. -/
theorem fileAddress?_disjoint {i j a : Nat} (hcs : ∀ c ∈ cs, g.HasCluster c)
    (hds : ∀ d ∈ ds, g.HasCluster d) (hdisjoint : ∀ c ∈ cs, c ∉ ds)
    (hi : g.fileAddress? cs i = some a) : g.fileAddress? ds j ≠ some a := by
  intro hj
  obtain ⟨c, hc, hc', _⟩ := fileAddress?_inj hcs hds hi hj
  exact hdisjoint c (List.mem_of_getElem? hc) (List.mem_of_getElem? hc')

/-! ## Walking along a path -/

theorem Path.hop_eq (h : g.Path byte cs) {c : Nat} (hc : cs[0]? = some c) {k : Nat}
    (hk : k < cs.length) : cs[k]? = some (g.hop byte c k) := by
  induction k with
  | zero => exact hc
  | succ k ih =>
      have hprev := ih (by omega)
      rw [hop_succ, h.next k _ _ hprev (List.getElem?_eq_getElem hk), List.getElem?_eq_getElem hk]

/-- The cluster of the byte before `q` and the cluster of byte `q` are the same one inside a
cluster. -/
theorem pred_div_eq {q : Nat} (hq : ¬ (q ≠ 0 ∧ q % g.clusterBytes = 0)) :
    (q - 1) / g.clusterBytes = q / g.clusterBytes := by
  have hpos := g.clusterBytes_pos
  cases q with
  | zero => rfl
  | succ q =>
      have hmod : (q + 1) % g.clusterBytes ≠ 0 := fun h => hq ⟨by omega, h⟩
      rw [Nat.succ_div_of_mod_ne_zero hmod]
      rfl

/-- At the end of a cluster byte `q` is in the next one. -/
theorem div_eq_of_boundary {q : Nat} (hne : q ≠ 0) (hmod : q % g.clusterBytes = 0) :
    q / g.clusterBytes = (q - 1) / g.clusterBytes + 1 := by
  obtain ⟨q, rfl⟩ := Nat.exists_eq_add_one_of_ne_zero hne
  exact Nat.succ_div_of_mod_eq_zero hmod

/-- On a path the next byte is in the cluster that its position says. -/
theorem Path.holder?_eq (h : g.Path byte cs) {q d : Nat}
    (hd : cs[(q - 1) / g.clusterBytes]? = some d) (hq : q < g.capacity cs) :
    g.holder? byte d q = cs[q / g.clusterBytes]? := by
  have hlt := div_lt_length.mpr hq
  have hhas : g.HasCluster d := h.has d (List.mem_of_getElem? hd)
  by_cases hb : q ≠ 0 ∧ q % g.clusterBytes = 0
  · -- a cluster boundary: the table leads to the next one of the list
    obtain ⟨hne, hmod⟩ := hb
    have hdiv := div_eq_of_boundary hne hmod
    have hnext := List.getElem?_eq_getElem hlt
    have hentry : g.tableEntry byte d = cs[q / g.clusterBytes] := by
      refine h.next _ d _ hd ?_
      rw [← hdiv]
      exact hnext
    rw [holder?_boundary ⟨hne, hmod⟩, hentry,
      if_pos ⟨hhas, h.has _ (List.mem_of_getElem? hnext)⟩, hnext]
  · rw [holder?_within hb, if_pos hhas, ← pred_div_eq hb, hd]

/-- At the end of a chain there is no next byte. -/
theorem IsChain.holder?_end (h : g.IsChain byte cs) {d : Nat}
    (hd : cs[(g.capacity cs - 1) / g.clusterBytes]? = some d) :
    g.holder? byte d (g.capacity cs) = none := by
  have hlen := List.length_pos_iff.mpr h.ne
  have hpos := g.clusterBytes_pos
  have hcap : 0 < g.capacity cs := Nat.mul_pos hlen hpos
  have hmod : g.capacity cs % g.clusterBytes = 0 := Nat.mul_mod_left _ _
  -- the byte before the end is in the last cluster
  have hlast : (g.capacity cs - 1) / g.clusterBytes = cs.length - 1 := by
    obtain ⟨n, hn⟩ := Nat.exists_eq_add_one_of_ne_zero (Nat.ne_of_gt hlen)
    unfold capacity
    rw [hn, Nat.succ_mul, Nat.add_sub_cancel]
    refine Nat.div_eq_of_lt_le ?_ ?_
    · omega
    · rw [Nat.succ_mul]
      omega
  rw [hlast, ← List.getLast?_eq_getElem?] at hd
  rw [holder?_boundary ⟨by omega, hmod⟩]
  exact if_neg fun hhas => h.last d hd hhas.2

/-- **On a path the walk is the path.** -/
theorem Path.walk?_eq (h : g.Path byte cs) {p c : Nat}
    (hc : cs[(p - 1) / g.clusterBytes]? = some c) {n : Nat} (hn : p + n ≤ g.capacity cs) :
    ∃ d, g.walk? byte c p n = some d ∧ cs[(p + n - 1) / g.clusterBytes]? = some d := by
  induction n with
  | zero => exact ⟨c, rfl, hc⟩
  | succ n ih =>
      obtain ⟨d, hd, hd'⟩ := ih (by omega)
      have hlt : p + n < g.capacity cs := by omega
      have hholder := h.holder?_eq hd' hlt
      rw [List.getElem?_eq_getElem (div_lt_length.mpr hlt)] at hholder
      refine ⟨_, ?_, List.getElem?_eq_getElem (div_lt_length.mpr hlt)⟩
      rw [walk?_succ, hd, Option.bind_some, hholder]

/-- On a chain the walk breaks off at the end. -/
theorem IsChain.walk?_eq_none (h : g.IsChain byte cs) {p c : Nat}
    (hc : cs[(p - 1) / g.clusterBytes]? = some c) (hp : p ≤ g.capacity cs) {n : Nat}
    (hn : g.capacity cs < p + n) : g.walk? byte c p n = none := by
  obtain ⟨d, hd, hd'⟩ := h.walk?_eq hc (n := g.capacity cs - p) (by omega)
  rw [Nat.add_sub_cancel' hp] at hd'
  have hend : g.walk? byte c p (g.capacity cs - p + 1) = none := by
    rw [walk?_succ, hd, Option.bind_some, Nat.add_sub_cancel' hp]
    exact h.holder?_end hd'
  cases hw : g.walk? byte c p n with
  | none => rfl
  | some e =>
      obtain ⟨e', he'⟩ := walk?_of_le hw (m := g.capacity cs - p + 1) (by omega)
      rw [hend] at he'
      cases he'

/-- On a path the bytes ahead are those of the file. -/
theorem Path.spot?_eq (h : g.Path byte cs) {p c : Nat}
    (hc : cs[(p - 1) / g.clusterBytes]? = some c) {i : Nat} (hi : p + i < g.capacity cs) :
    g.spot? byte c p i = g.fileAddress? cs (p + i) := by
  obtain ⟨d, hd, hd'⟩ := h.walk?_eq hc (n := i + 1) hi
  rw [← Nat.add_assoc, Nat.add_sub_cancel] at hd'
  unfold spot? fileAddress?
  rw [hd, hd']

/-- The entries of a chain are within reach. -/
theorem IsChain.offsetFits (h : g.IsChain byte cs) {c : Nat} (hc : c ∈ cs) : g.OffsetFits c := by
  obtain ⟨k, hk⟩ := List.mem_iff_getElem?.mp hc
  have hlt := (List.getElem?_eq_some_iff.mp hk).1
  by_cases hlast : k + 1 < cs.length
  · exact h.fits k c _ hk (List.getElem?_eq_getElem hlast)
  · refine h.lastFits c ?_
    rw [List.getLast?_eq_getElem?, ← hk]
    congr 1
    omega

/-- A path is still one when the table is. -/
theorem Path.congr {byte' : Nat → UInt8} (h : g.Path byte cs)
    (hbyte : ∀ a, a < sectorSize * g.tableEnd → byte' a = byte a) : g.Path byte' cs where
  has := h.has
  next := by
    intro k c d hc hd
    rw [tableEntry_congr (h.has c (List.mem_of_getElem? hc)) hbyte]
    exact h.next k c d hc hd
  fits := h.fits

theorem IsChain.congr {byte' : Nat → UInt8} (h : g.IsChain byte cs)
    (hbyte : ∀ a, a < sectorSize * g.tableEnd → byte' a = byte a) : g.IsChain byte' cs where
  toPath := h.toPath.congr hbyte
  ne := h.ne
  nodup := h.nodup
  last := by
    intro c hc
    rw [tableEntry_congr (h.has c (List.mem_of_getLast? hc)) hbyte]
    exact h.last c hc
  lastFits := h.lastFits

end Paths

end Fat.Geometry

/-! ## Reading along a path -/

namespace ChainStream

section Reading

variable {g : Geometry} {disk : Disk} {cs : List Nat} {p : Nat} {s t : ChainStream}

/-- A cursor that has read `p` bytes of the file in a list of clusters of `disk`. -/
structure Reading (g : Geometry) (disk : Disk) (cs : List Nat) (p : Nat) (s : ChainStream) :
    Prop where
  ready : s.Ready
  failure : s.failure = none
  medium : disk.SameMedium s.volume.disk
  geometry : s.volume.geometry = g
  position : s.position = p
  cluster : cs[(p - 1) / g.clusterBytes]? = some s.cluster

theorem reading_openAt {c : Nat} (hc : cs[0]? = some c) (foldRuns : Bool) :
    Reading g disk cs 0 ((Volume.ofDisk disk g foldRuns).openAt c) where
  ready := ⟨Drive.coherent_of_empty rfl, fun h => absurd rfl h, fun h => absurd rfl h⟩
  failure := rfl
  medium := .refl disk
  geometry := rfl
  position := rfl
  cluster := by
    rw [Nat.zero_sub, Nat.zero_div]
    exact hc

theorem Reading.walk (h : Reading g disk cs p s) (hpath : g.Path disk.byte cs) {n : Nat}
    (hn : p + n ≤ g.capacity cs) :
    ∃ d, s.walk? n = some d ∧ cs[(p + n - 1) / g.clusterBytes]? = some d := by
  unfold ChainStream.walk?
  rw [h.geometry, h.medium.byte, h.position]
  exact hpath.walk?_eq h.cluster hn

/-- On the way to a byte of the file all entries are within reach. -/
theorem Reading.not_outOfReach (h : Reading g disk cs p s) (hpath : g.Path disk.byte cs) {i : Nat}
    (hi : p + i < g.capacity cs) : ¬ s.OutOfReach i := by
  rintro ⟨⟨hne, hmod⟩, c, hc, _, hunfit⟩
  obtain ⟨d, hd, hat⟩ := h.walk hpath (n := i) (by omega)
  rw [hc] at hd
  cases hd
  rw [h.position] at hne hmod
  rw [h.geometry] at hmod hunfit
  -- the byte is in the cluster after the one whose entry is read
  have hlt : (p + i - 1) / g.clusterBytes + 1 < cs.length := by
    rw [← Geometry.div_eq_of_boundary hne hmod]
    exact Geometry.div_lt_length.mpr hi
  exact hunfit (hpath.fits _ c _ hat (List.getElem?_eq_getElem hlt))

/-- A device without faults that has the clusters of a list refuses no transfer that keeps to the
list. -/
theorem Reading.device_ne_of_breaks (h : Reading g disk cs p s) (hdisk : disk.Faultless)
    (hdevice : ∀ c ∈ cs, g.OnDevice disk c) {direction : Direction} {n m : Nat} {e : Error}
    (hwalk : ∀ i c, i ≤ n → s.walk? i = some c → c ∈ cs) (hb : s.Breaks direction n m e)
    (code : UInt8) : e ≠ .device code := by
  rintro rfl
  obtain ⟨i, c, hi, hc, _, hlacks⟩ := hb.missing (h.medium.faultless hdisk)
  refine hlacks ((Geometry.onDevice_same h.medium).mpr ?_)
  rw [h.geometry]
  exact hdevice c (hwalk i c hi hc)

/-- What breaks off a transfer of bytes that the chain holds is that they go past the last word. -/
theorem Reading.overflow_of_breaks (h : Reading g disk cs p s) (hpath : g.Path disk.byte cs)
    (hdisk : disk.Faultless) (hdevice : ∀ c ∈ cs, g.OnDevice disk c) {direction : Direction}
    {n m : Nat} {e : Error} (hn : p + n ≤ g.capacity cs) (hb : s.Breaks direction n m e) :
    e = .overflow ∧ ¬ p + n < wordLimit := by
  -- the walk is the path
  have hwalk : ∀ i c, i ≤ n → s.walk? i = some c → c ∈ cs := by
    intro i c hi hc
    obtain ⟨d, hd, hmem⟩ := h.walk hpath (n := i) (by omega)
    rw [hc] at hd
    cases hd
    exact List.mem_of_getElem? hmem
  have hdevice' := h.device_ne_of_breaks hdisk hdevice hwalk hb
  cases hb with
  | chain hlt _ hnone _ _ =>
      obtain ⟨d, hd, _⟩ := h.walk hpath (n := m + 1) (by omega)
      rw [hnone] at hd
      cases hd
  | read _ => exact absurd rfl (hdevice' _)
  | write _ _ => exact absurd rfl (hdevice' _)
  | position hj _ hlarge =>
      rw [h.position] at hlarge
      exact ⟨rfl, by omega⟩
  | offset hi hout => exact absurd hout (h.not_outOfReach hpath (by omega))

/-- Nothing breaks off a transfer of bytes that the chain holds and that ends at a word. -/
theorem Reading.not_breaks (h : Reading g disk cs p s) (hpath : g.Path disk.byte cs)
    (hdisk : disk.Faultless) (hdevice : ∀ c ∈ cs, g.OnDevice disk c) {direction : Direction}
    {n m : Nat} {e : Error} (hn : p + n ≤ g.capacity cs) (hword : p + n < wordLimit) :
    ¬ s.Breaks direction n m e :=
  fun hb => (h.overflow_of_breaks hpath hdisk hdevice hn hb).2 hword

/-- **A read that stays in the file delivers its bytes.** -/
theorem Reading.read (hs : Reading g disk cs p s) (hpath : g.Path disk.byte cs)
    (hdisk : disk.Faultless) (hdevice : ∀ c ∈ cs, g.OnDevice disk c) {n : Nat}
    (hn : p + n ≤ g.capacity cs) (hword : p + n < wordLimit) :
    ∃ t, s.read n = ⟨(g.fileBytes disk.byte cs).extract p (p + n), none, t⟩ ∧ s.Moved t
      ∧ Reading g disk cs (p + n) t := by
  obtain ⟨data, error?, rest, hread, h⟩ := exists_read_eq hs.ready hs.failure n
  have hnone : error? = none :=
    Option.eq_none_iff_forall_ne_some.mpr fun e he =>
      hs.not_breaks hpath hdisk hdevice hn hword (h.failed e he)
  subst hnone
  obtain ⟨hsize, hahead⟩ := h.done rfl
  have hdata : data = (g.fileBytes disk.byte cs).extract p (p + n) := by
    refine ByteArray.ext_byteAt ?_ ?_
    · rw [ByteArray.size_extract, Geometry.size_fileBytes]
      omega
    · intro i hi
      have hbyte := h.byte i hi
      have hspot : s.spot? i = g.fileAddress? cs (p + i) := by
        unfold ChainStream.spot?
        rw [hs.geometry, hs.medium.byte, hs.position]
        exact hpath.spot?_eq hs.cluster (by omega)
      rw [hspot, hs.medium.byte] at hbyte
      obtain ⟨a, ha, hbyte⟩ := Option.map_eq_some_iff.mp hbyte
      rw [ByteArray.byteAt_extract, Geometry.size_fileBytes, if_pos (by omega),
        Geometry.byteAt_fileBytes ha, hbyte]
  -- a cursor that has not failed stays as it is
  have hself : { rest with failure := none } = rest := by
    rw [← hs.failure, ← h.moved.failure]
  rw [hself, hdata] at hread
  obtain ⟨d, hd, hcluster⟩ := hs.walk hpath hn
  rw [hahead.walk] at hd
  cases hd
  exact ⟨rest, hread, h.moved, hahead.ready, h.moved.failure.trans hs.failure,
    hs.medium.trans h.moved.volume.drive.medium, h.moved.volume.geometry.trans hs.geometry,
    hahead.position.trans (congrArg (· + n) hs.position), hcluster⟩

/-- A read of bytes that the chain holds does not get past the last word: the loader stops. -/
theorem Reading.read_past_word (hs : Reading g disk cs p s) (hpath : g.Path disk.byte cs)
    (hdisk : disk.Faultless) (hdevice : ∀ c ∈ cs, g.OnDevice disk c) {n : Nat} (hpos : 0 < n)
    (hn : p + n ≤ g.capacity cs) (hlarge : ¬ p + n < wordLimit) :
    (s.read n).error? = some .overflow := by
  obtain ⟨data, error?, rest, hread, h⟩ := exists_read_eq hs.ready hs.failure n
  rw [hread]
  cases error? with
  | none =>
      obtain ⟨_, hahead⟩ := h.done rfl
      have hword := hahead.word hpos
      rw [hahead.position, hs.position] at hword
      exact absurd hword hlarge
  | some e => exact congrArg some (hs.overflow_of_breaks hpath hdisk hdevice hn (h.failed e rfl)).1

/-! ## Writing along a chain -/

/-- **A write that was accepted replaced its bytes of the file**, on any device. The file had room
for them, and the cursor is behind them in the same chain. -/
theorem Reading.of_write {data : ByteArray} (hs : Reading g s.volume.disk cs p s)
    (hchain : g.IsChain s.volume.disk.byte cs) (apart : g.TableApart)
    (hp : p ≤ g.capacity cs) (hr : write data s = .ok () t) :
    p + data.size ≤ g.capacity cs ∧ Reading g t.volume.disk cs (p + data.size) t
      ∧ g.IsChain t.volume.disk.byte cs
      ∧ g.fileBytes t.volume.disk.byte cs = (g.fileBytes s.volume.disk.byte cs).patch p data := by
  have hwrite : Ends (write data s)
      (fun _ t => s.Ahead t data.size ∧ t.volume.disk.byte
        = storeAlong s.spot? data.byteAt s.volume.disk.byte data.size)
      (fun _ _ => True) := by
    refine ends_guarded (fun _ _ => trivial) fun _ => ?_
    have hends := ends_writeFrom data data.size hs.ready (hs.geometry ▸ apart) (Nat.le_refl _)
    rw [Nat.sub_self] at hends
    simp only [Nat.zero_add] at hends
    exact hends.mono (fun _ _ h => h) fun _ _ _ => trivial
  obtain ⟨hahead, hbyte⟩ := hwrite.of_ok hr
  -- past the end of the chain the walk would have broken off
  have hwalk := hahead.walk
  unfold walk? at hwalk
  rw [hs.geometry, hs.position] at hwalk
  have hfit : p + data.size ≤ g.capacity cs := Nat.not_lt.mp fun hlt => by
    rw [hchain.walk?_eq_none hs.cluster hp hlt] at hwalk
    cases hwalk
  obtain ⟨d, hd, hcluster⟩ := hchain.toPath.walk?_eq hs.cluster hfit
  obtain rfl := Option.some.inj (hd.symm.trans hwalk)
  have hspot : ∀ i, i < data.size → s.spot? i = g.fileAddress? cs (p + i) := by
    intro i hi
    unfold spot?
    rw [hs.geometry, hs.position]
    exact hchain.toPath.spot?_eq hs.cluster (by omega)
  have htable : ∀ a, a < sectorSize * g.tableEnd →
      t.volume.disk.byte a = s.volume.disk.byte a := by
    rw [← hs.geometry]
    exact hahead.table
  refine ⟨hfit, ⟨hahead.ready, hahead.kept.failure.trans hs.failure, .refl _,
    hahead.kept.geometry.trans hs.geometry,
    hahead.position.trans (congrArg (· + data.size) hs.position), hcluster⟩,
    hchain.congr htable, ?_⟩
  refine ByteArray.ext_byteAt (by simp only [ByteArray.size_patch, Geometry.size_fileBytes]) ?_
  intro k hk
  rw [Geometry.size_fileBytes] at hk
  obtain ⟨a, ha⟩ := Geometry.exists_fileAddress? hk
  rw [Geometry.byteAt_fileBytes ha, hbyte,
    ByteArray.byteAt_patch _ _ _ _ (by rw [Geometry.size_fileBytes]; exact hk)]
  split
  · rename_i hin
    have hat : s.spot? (k - p) = some a := by
      rw [hspot _ (by omega), Nat.add_sub_cancel' hin.1]
      exact ha
    refine storeAlong_of_eq (by omega) hat fun j hlt hj hsame => ?_
    have := hchain.fileAddress?_inj ha ((hspot j hj).symm.trans hsame)
    omega
  · rename_i hout
    rw [Geometry.byteAt_fileBytes ha]
    refine storeAlong_of_ne fun j hj hsame => hout ?_
    have := hchain.fileAddress?_inj ha ((hspot j hj).symm.trans hsame)
    omega

/-! ## Positioning on a path -/

/-- A cursor of the file in a list of clusters of `disk` that has not failed, wherever it stands. -/
structure Usable (g : Geometry) (disk : Disk) (cs : List Nat) (s : ChainStream) : Prop where
  coherent : s.volume.drive.Coherent
  failure : s.failure = none
  medium : disk.SameMedium s.volume.disk
  geometry : s.volume.geometry = g
  start : cs[0]? = some s.start

theorem Reading.usable (h : Reading g disk cs p s) (hstart : cs[0]? = some s.start) :
    s.Usable g disk cs :=
  ⟨h.ready.coherent, h.failure, h.medium, h.geometry, hstart⟩

/-- **A seek within the file succeeds.** Every link that it follows is a link of the list. -/
theorem Usable.seek (hs : s.Usable g disk cs) (hpath : g.Path disk.byte cs)
    (hdisk : disk.Faultless) (hdevice : ∀ c ∈ cs, g.OnDevice disk c) (hp : p ≤ g.capacity cs) :
    ∃ t, seek p s = .ok () t ∧ s.Moved t ∧ Reading g disk cs p t := by
  have hsteps : (p - 1) / g.clusterBytes < cs.length := by
    have hlen : 0 < cs.length := (List.getElem?_eq_some_iff.mp hs.start).1
    have : 0 < g.capacity cs := Nat.mul_pos hlen g.clusterBytes_pos
    rw [Geometry.div_lt_length]
    omega
  have hhop : ∀ k, k ≤ (p - 1) / g.clusterBytes →
      cs[k]? = some (g.hop disk.byte s.start k) :=
    fun k hk => hpath.hop_eq hs.start (Nat.lt_of_le_of_lt hk hsteps)
  have hhas : ∀ k, k ≤ (p - 1) / g.clusterBytes → g.HasCluster (g.hop disk.byte s.start k) :=
    fun k hk => hpath.has _ (List.mem_of_getElem? (hhop k hk))
  have hnext : ∀ k, k < (p - 1) / g.clusterBytes →
      2 ≤ g.tableEntry disk.byte (g.hop disk.byte s.start k) := by
    intro k hk
    rw [← Geometry.hop_succ]
    exact (hhas (k + 1) hk).1
  have hfits : ∀ k, k < (p - 1) / g.clusterBytes → g.OffsetFits (g.hop disk.byte s.start k) :=
    fun k hk => hpath.fits k _ _ (hhop k (Nat.le_of_lt hk)) (hhop (k + 1) hk)
  -- so the seek is never lost
  have hmisses : ∀ e, ¬ s.Misses p e := by
    intro e he
    obtain rfl := hs.geometry
    cases he with
    | sector _ _ hnone =>
        rw [hs.medium.byte] at hnone
        exact hnone (hhas _ (Nat.le_refl _))
    | lost h =>
        cases h with
        | @chain k hk _ hnone =>
            rw [hs.medium.byte] at hnone
            exact hnone ⟨hhas k (Nat.le_of_lt hk), hnext k hk⟩
        | @unread k _ hk _ _ hunread =>
            rw [hs.medium.byte] at hunread
            cases hunread.same hs.medium with
            | refused hwhy =>
                exact Geometry.not_onDevice hwhy hdisk
                  (hdevice _ (List.mem_of_getElem? (hhop k (Nat.le_of_lt hk))))
            | overflow hunfit => exact hunfit (hfits k hk)
  obtain ⟨_, t, hr, hmoved, hready, hposition, hcluster, _⟩ :=
    (ends_seekFrom p hs.coherent).exists_ok fun e _ h => hmisses e h.2
  refine ⟨t, guarded_of_ok hs.failure hr, hmoved, hready, hmoved.failure.trans hs.failure,
    hs.medium.trans hmoved.volume.drive.medium, hmoved.volume.geometry.trans hs.geometry,
    hposition, ?_⟩
  rw [hcluster, hs.geometry, hs.medium.byte]
  exact hhop _ (Nat.le_refl _)

end Reading

end ChainStream

end CartBoot
