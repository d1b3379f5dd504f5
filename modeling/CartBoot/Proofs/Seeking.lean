import CartBoot.Proofs.ChainEnds

/-!
# Where seeks lead

A seek follows the table from the first cluster, one link for each cluster before
its target, and takes the entry it comes to last for its cluster. Whether there is
such a cluster it asks only to resolve the sector of a target inside one.

So it reaches every position of a chain, and refuses those past the end, but for
the sector boundaries less than a cluster further: one more link leads to the mark
that ends the chain, and marks are neither free nor reserved. A cursor that was
sent there has not failed, though it is past its file and on no cluster. Nothing
can be transferred from there. It is the only way out of a chain: in all other
histories a cursor that has not failed is in its chain, on the cluster that its
position says.
-/

namespace CartBoot

open Fat

namespace Fat.Geometry

variable {g : Geometry} {byte : Nat → UInt8} {cs : List Nat}

/-! ## The links of a chain -/

/-- A path that ends in a mark, the mark being no cluster and within reach. -/
structure Ended (g : Geometry) (byte : Nat → UInt8) (cs : List Nat) : Prop
    extends g.Marked byte cs where
  outside : ∀ c, cs.getLast? = some c → ¬ g.HasCluster (g.tableEntry byte c)
  reach : ∀ c, cs.getLast? = some c → g.OffsetFits c

theorem Ended.isChain (h : g.Ended byte cs) : g.IsChain byte cs where
  toPath := h.toPath
  ne := h.ne
  nodup := h.toPath.nodup h.outside
  last := h.outside
  lastFits := h.reach

theorem Ended.congr {byte' : Nat → UInt8} (h : g.Ended byte cs)
    (hbyte : ∀ a, a < sectorSize * g.tableEnd → byte' a = byte a) : g.Ended byte' cs := by
  have hlast : ∀ c, cs.getLast? = some c → g.tableEntry byte' c = g.tableEntry byte c :=
    fun c hc => tableEntry_congr (h.has c (List.mem_of_getLast? hc)) hbyte
  refine ⟨⟨h.toPath.congr hbyte, h.ne, fun c hc => ?_⟩, fun c hc => ?_, h.reach⟩
  · rw [hlast c hc]
    exact h.mark c hc
  · rw [hlast c hc]
    exact h.outside c hc

section Links

variable {first : Nat} (h : g.IsChain byte cs) (hfirst : cs[0]? = some first)

include h hfirst

theorem IsChain.hasCluster_hop {k : Nat} (hk : k < cs.length) :
    g.HasCluster (g.hop byte first k) :=
  h.has _ (List.mem_of_getElem? (h.toPath.hop_eq hfirst hk))

/-- One link past the last cluster there is its entry. -/
theorem IsChain.hop_length {c : Nat} (hc : cs.getLast? = some c) :
    g.hop byte first cs.length = g.tableEntry byte c := by
  obtain ⟨n, hn⟩ := Nat.exists_eq_add_one_of_ne_zero (mt List.length_eq_zero_iff.mp h.ne)
  have hlast := h.toPath.hop_eq hfirst (k := n) (by omega)
  rw [List.getLast?_eq_getElem?, hn, Nat.add_sub_cancel, hlast] at hc
  rw [hn, hop_succ, Option.some.inj hc]

theorem IsChain.not_hasCluster_hop : ¬ g.HasCluster (g.hop byte first cs.length) := by
  have hc := List.getLast?_eq_some_getLast h.ne
  rw [h.hop_length hfirst hc]
  exact h.last _ hc

/-- No more links than clusters. -/
theorem IsChain.le_of_leads {n : Nat} (hleads : g.Leads byte first n) : n ≤ cs.length :=
  Nat.not_lt.mp fun hlt => h.not_hasCluster_hop hfirst (hleads _ hlt).1

end Links

section Marks

variable {first : Nat} (h : g.Ended byte cs) (hfirst : cs[0]? = some first)

include h hfirst

/-- The table leads on from all clusters of a chain, from the last to the mark. -/
theorem Ended.leadsOn_hop {k : Nat} (hk : k < cs.length) :
    g.LeadsOn byte (g.hop byte first k) := by
  refine ⟨h.isChain.hasCluster_hop hfirst hk, ?_⟩
  rw [← hop_succ]
  by_cases hnext : k + 1 < cs.length
  · exact (h.isChain.hasCluster_hop hfirst hnext).1
  · have hc := List.getLast?_eq_some_getLast h.ne
    have hmark := Format.le_of_isEndMark (h.mark _ hc)
    have hlarge : 2 + 7 ≤ g.format.endMark := by
      cases g.format <;> decide
    rw [show k + 1 = cs.length by omega, h.isChain.hop_length hfirst hc]
    omega

end Marks

/-! ## Targets -/

/-- A position past the end of a chain that a seek accepts all the same. -/
structure Oversteps (g : Geometry) (cs : List Nat) (position : Nat) : Prop where
  past : g.capacity cs < position
  near : position ≤ g.capacity cs + g.clusterBytes
  aligned : position % sectorSize = 0

/-- Which cluster of its chain a cursor at a position is on: the one of the position, or the one
before at a boundary between two. -/
def standing (g : Geometry) (position : Nat) : Nat :=
  if position ≠ 0 ∧ position % g.clusterBytes = 0 then position / g.clusterBytes - 1
  else position / g.clusterBytes

theorem standing_eq (g : Geometry) (position : Nat) :
    g.standing position = (position - 1) / g.clusterBytes := by
  unfold standing
  split
  · rename_i hb
    obtain ⟨q, hq⟩ := Nat.exists_eq_add_one_of_ne_zero hb.1
    rw [hq] at hb ⊢
    rw [Nat.succ_div_of_mod_eq_zero hb.2]
    rfl
  · rename_i hb
    exact (pred_div_eq hb).symm

theorem pred_div_le_length (g : Geometry) (cs : List Nat) (position : Nat) :
    (position - 1) / g.clusterBytes ≤ cs.length ↔ position ≤ g.capacity cs + g.clusterBytes := by
  have hpos := g.clusterBytes_pos
  rw [← Nat.lt_succ_iff, Nat.div_lt_iff_lt_mul hpos, Nat.succ_mul]
  unfold capacity
  omega

theorem pred_div_lt_length (g : Geometry) {cs : List Nat} (hne : cs ≠ []) (position : Nat) :
    (position - 1) / g.clusterBytes < cs.length ↔ position ≤ g.capacity cs := by
  have hpos : 0 < g.capacity cs := Nat.mul_pos (List.length_pos_iff.mpr hne) g.clusterBytes_pos
  rw [div_lt_length]
  omega

/-- The links that a seek follows, and the cluster that it asks for inside a sector, keep it to
the positions that it accepts. -/
theorem IsChain.accepted {first position : Nat} (h : g.IsChain byte cs)
    (hfirst : cs[0]? = some first)
    (hleads : g.Leads byte first ((position - 1) / g.clusterBytes))
    (hinside : position % sectorSize ≠ 0 →
      g.HasCluster (g.hop byte first ((position - 1) / g.clusterBytes))) :
    position ≤ g.capacity cs ∨ g.Oversteps cs position := by
  have hle := h.le_of_leads hfirst hleads
  have hnear := (g.pred_div_le_length cs position).mp hle
  have hlt := g.pred_div_lt_length h.ne position
  by_cases hin : position ≤ g.capacity cs
  · exact .inl hin
  · refine .inr ⟨by omega, hnear, Decidable.byContradiction fun hoff => ?_⟩
    have hlast : (position - 1) / g.clusterBytes = cs.length := by omega
    exact h.not_hasCluster_hop hfirst (hlast ▸ hinside hoff)

end Fat.Geometry

namespace ChainStream

variable {g : Geometry} {cs : List Nat} {s t : ChainStream} {position : Nat}

/-- Where a seek leads on a chain. -/
theorem ends_seekFrom_chain (hs : s.volume.drive.Coherent)
    (hchain : s.volume.geometry.IsChain s.volume.disk.byte cs) (hstart : cs[0]? = some s.start)
    (position : Nat) :
    Ends (seekFrom position s)
      (fun _ t => s.Moved t ∧ t.Ready ∧ t.position = position
        ∧ t.cluster = s.volume.geometry.hop s.volume.disk.byte s.start
            ((position - 1) / s.volume.geometry.clusterBytes)
        ∧ (position ≤ s.volume.geometry.capacity cs
          ∨ s.volume.geometry.Oversteps cs position))
      (fun e t => s.Moved t ∧ s.Misses position e) := by
  refine (ends_seekFrom position hs).mono ?_ fun _ _ h => h
  intro _ t ht
  obtain ⟨hmoved, hready, hposition, hcluster, hleads⟩ := ht
  refine ⟨hmoved, hready, hposition, hcluster, hchain.accepted hstart hleads fun hoff => ?_⟩
  rw [← hcluster, ← hmoved.volume.geometry]
  exact hready.cluster (by rw [hposition]; exact hoff)

/-- Why a seek does not lead anywhere on a chain that ends in a mark: its target is none of those
accepted, or the device lacks a cluster of the chain. -/
theorem Misses.refused {e : Error} (h : s.Misses position e)
    (hchain : s.volume.geometry.Ended s.volume.disk.byte cs) (hstart : cs[0]? = some s.start)
    (hdisk : s.volume.disk.Faultless)
    (hdevice : ∀ c ∈ cs, s.volume.geometry.OnDevice s.volume.disk c) :
    e = .integrity ∧ ¬ (position ≤ s.volume.geometry.capacity cs
      ∨ s.volume.geometry.Oversteps cs position) := by
  have hle := s.volume.geometry.pred_div_le_length cs position
  have hlt := s.volume.geometry.pred_div_lt_length hchain.ne position
  cases h with
  | sector hoff hleads hnone =>
      refine ⟨rfl, fun haccepted => ?_⟩
      rcases haccepted with hin | hover
      · exact hnone (hchain.isChain.hasCluster_hop hstart (hlt.mpr hin))
      · exact hoff hover.aligned
  | lost hlost =>
      cases hlost with
      | @chain k hk hleads hnone =>
          have hend : ¬ k < cs.length := fun hin => hnone (hchain.leadsOn_hop hstart hin)
          refine ⟨rfl, fun haccepted => ?_⟩
          have hnear := hle.mpr (haccepted.elim (fun hin => Nat.le_add_right_of_le hin) (·.near))
          omega
      | @unread k _ hk hleads hhas hunread =>
          -- the clusters on the way are those of the chain
          have hin : k < cs.length :=
            Nat.lt_of_le_of_ne (hchain.isChain.le_of_leads hstart hleads) fun heq =>
              hchain.isChain.not_hasCluster_hop hstart (heq ▸ hhas)
          have hmem := List.mem_of_getElem? (hchain.toPath.hop_eq hstart hin)
          cases hunread with
          | refused hwhy => exact absurd (hdevice _ hmem) (Geometry.not_onDevice hwhy hdisk)
          | overflow hout => exact absurd (hchain.isChain.offsetFits hmem) hout

/-- **Which targets a seek accepts.** On a device without faults these are the positions in the
chain and those that overstep it, and all others break the chain. -/
theorem seek_accepts (hs : s.volume.drive.Coherent) (hnone : s.failure = none)
    (hchain : s.volume.geometry.Ended s.volume.disk.byte cs) (hstart : cs[0]? = some s.start)
    (hdisk : s.volume.disk.Faultless)
    (hdevice : ∀ c ∈ cs, s.volume.geometry.OnDevice s.volume.disk c) (position : Nat) :
    ((∃ t, seek position s = .ok () t) ↔ position ≤ s.volume.geometry.capacity cs
        ∨ s.volume.geometry.Oversteps cs position)
      ∧ ((∃ t, seek position s = .error .integrity t) ↔
        ¬ (position ≤ s.volume.geometry.capacity cs
          ∨ s.volume.geometry.Oversteps cs position)) := by
  have hends := ends_seekFrom_chain hs hchain.isChain hstart position
  cases hr : seekFrom position s with
  | ok a t =>
      obtain ⟨_, _, _, _, haccepted⟩ := hends.of_ok hr
      have hseek : seek position s = .ok a t := guarded_of_ok hnone hr
      rw [hseek]
      exact ⟨iff_of_true ⟨t, rfl⟩ haccepted, iff_of_false nofun (not_not_intro haccepted)⟩
  | error e t =>
      obtain ⟨rfl, hrefused⟩ := (hends.of_error hr).2.refused hchain hstart hdisk hdevice
      have hseek : seek position s = .error .integrity { t with failure := some .integrity } :=
        guarded_of_error hnone hr
      rw [hseek]
      exact ⟨iff_of_false nofun hrefused, iff_of_true ⟨_, rfl⟩ hrefused⟩

/-! ## Where a cursor can be -/

/-- A cursor is in its chain, on the cluster that its position says. -/
structure InChain (g : Geometry) (cs : List Nat) (s : ChainStream) : Prop where
  position : s.position ≤ g.capacity cs
  cluster : cs[g.standing s.position]? = some s.cluster

/-- A cursor is past the end of its chain, on the mark. -/
structure Stranded (g : Geometry) (byte : Nat → UInt8) (cs : List Nat) (s : ChainStream) : Prop
    where
  position : g.Oversteps cs s.position
  cluster : ∀ c, cs.getLast? = some c → s.cluster = g.tableEntry byte c

theorem Stranded.not_hasCluster {byte : Nat → UInt8} (h : s.Stranded g byte cs)
    (hchain : g.IsChain byte cs) : ¬ g.HasCluster s.cluster := by
  have hc := List.getLast?_eq_some_getLast hchain.ne
  rw [h.cluster _ hc]
  exact hchain.last _ hc

/-- From what is no cluster no walk leads anywhere. -/
theorem walk?_eq_none_of_not_hasCluster (h : ¬ s.volume.geometry.HasCluster s.cluster) (n : Nat) :
    s.walk? (n + 1) = none := by
  have hone : s.walk? 1 = none := by
    unfold walk?
    rw [Geometry.walk?_one]
    by_cases hb : s.position ≠ 0 ∧ s.position % s.volume.geometry.clusterBytes = 0
    · rw [Geometry.holder?_boundary hb]
      exact if_neg fun hboth => h hboth.1
    · rw [Geometry.holder?_within hb]
      exact if_neg h
  cases hw : s.walk? (n + 1) with
  | none => rfl
  | some c =>
      obtain ⟨c', hc'⟩ := Geometry.walk?_of_le hw (m := 1) (by omega)
      unfold walk? at hone
      rw [hone] at hc'
      cases hc'

/-- What a seek that goes through does to a cursor. -/
theorem place_of_seek {byte : Nat → UInt8} (hchain : g.IsChain byte cs) {first : Nat}
    (hfirst : cs[0]? = some first) (hposition : t.position = position)
    (hcluster : t.cluster = g.hop byte first ((position - 1) / g.clusterBytes))
    (haccepted : position ≤ g.capacity cs ∨ g.Oversteps cs position) :
    t.InChain g cs ∨ (t.Stranded g byte cs ∧ g.Oversteps cs position) := by
  subst hposition
  have hlt := g.pred_div_lt_length hchain.ne t.position
  rcases haccepted with hin | hover
  · refine .inl ⟨hin, ?_⟩
    rw [Geometry.standing_eq, hcluster]
    exact hchain.toPath.hop_eq hfirst (hlt.mpr hin)
  · have hnear := (g.pred_div_le_length cs t.position).mpr hover.near
    have hnot := hover.past
    have hlast : (t.position - 1) / g.clusterBytes = cs.length := by omega
    refine .inr ⟨⟨hover, fun c hc => ?_⟩, hover⟩
    rw [hcluster, hlast, hchain.hop_length hfirst hc]

/-- Moving on by transfers a cursor stays in its chain, and gets nowhere outside. -/
theorem Ahead.place {byte : Nat → UInt8} {n : Nat} {P : Prop} (h : s.Ahead t n)
    (hg : s.volume.geometry = g)
    (htable : ∀ a, a < sectorSize * g.tableEnd → s.volume.disk.byte a = byte a)
    (hchain : g.IsChain byte cs) (hplace : s.InChain g cs ∨ (s.Stranded g byte cs ∧ P)) :
    t.InChain g cs ∨ (t.Stranded g byte cs ∧ P) := by
  subst hg
  have hwalk := h.walk
  rcases hplace with hin | ⟨hstranded, hP⟩
  · have hcluster := hin.cluster
    rw [Geometry.standing_eq] at hcluster
    have hnow := hchain.congr htable
    have hle : s.position + n ≤ s.volume.geometry.capacity cs := Nat.not_lt.mp fun hlt => by
      have hend := hnow.walk?_eq_none hcluster hin.position hlt
      unfold walk? at hwalk
      rw [hend] at hwalk
      cases hwalk
    obtain ⟨d, hd, hmem⟩ := hnow.toPath.walk?_eq hcluster hle
    unfold walk? at hwalk
    rw [hwalk] at hd
    cases hd
    refine .inl ⟨by rw [h.position]; exact hle, ?_⟩
    rw [Geometry.standing_eq, h.position]
    exact hmem
  · cases n with
    | zero =>
        have hsame : s.cluster = t.cluster := Option.some.inj hwalk
        exact .inr ⟨⟨by rw [h.position]; exact hstranded.position,
          fun c hc => hsame ▸ hstranded.cluster c hc⟩, hP⟩
    | succ n =>
        rw [walk?_eq_none_of_not_hasCluster (hstranded.not_hasCluster hchain)] at hwalk
        cases hwalk

/-! ## Every history -/

end ChainStream

/-- `w` is `v` with other data: the table is the same, and so is how the device fails. -/
structure Fat.Volume.SameTable (v w : Volume) : Prop where
  geometry : w.geometry = v.geometry
  foldRuns : w.foldRuns = v.foldRuns
  sectorCount : w.disk.sectorCount = v.disk.sectorCount
  faults : w.disk.faults = v.disk.faults
  table : ∀ a, a < sectorSize * v.geometry.tableEnd → w.disk.byte a = v.disk.byte a

namespace Fat.Volume.SameTable

variable {v : Volume} {s t : ChainStream} {cs : List Nat}

theorem kept (h : v.SameTable s.volume) (hkept : s.Kept t)
    (htable : ∀ a, a < sectorSize * v.geometry.tableEnd →
      t.volume.disk.byte a = s.volume.disk.byte a) : v.SameTable t.volume where
  geometry := hkept.geometry.trans h.geometry
  foldRuns := hkept.foldRuns.trans h.foldRuns
  sectorCount := hkept.sectorCount.trans h.sectorCount
  faults := hkept.faults.trans h.faults
  table := fun a ha => (htable a ha).trans (h.table a ha)

theorem moved (h : v.SameTable s.volume) (hmoved : s.Moved t) : v.SameTable t.volume :=
  h.kept hmoved.kept fun a _ => congrFun hmoved.volume.drive.medium.byte a

variable {w : Volume}

theorem isChain (h : v.SameTable w) (hchain : v.geometry.IsChain v.disk.byte cs) :
    w.geometry.IsChain w.disk.byte cs := by
  rw [h.geometry]
  exact hchain.congr h.table

theorem faultless (h : v.SameTable w) (hdisk : v.disk.Faultless) : w.disk.Faultless :=
  ⟨fun direction n => by rw [h.faults]; exact hdisk.call direction n,
   fun direction n => by rw [h.faults]; exact hdisk.sector direction n⟩

theorem onDevice (h : v.SameTable w) {c : Nat} (hc : v.geometry.OnDevice v.disk c) :
    w.geometry.OnDevice w.disk c := by
  rw [h.geometry]
  exact ⟨fun x hx => by rw [h.sectorCount]; exact hc.entry x hx,
    by rw [h.sectorCount]; exact hc.data⟩

end Fat.Volume.SameTable

namespace ChainStream

/-- What is so of a cursor on a chain of `v` after any requests: it is the cursor of that file
still, on a volume with the same table, and unless it has failed it is at a word and in the chain
or, if that can be at all, stranded. -/
structure Tracked (v : Volume) (cs : List Nat) (first : Nat) (P : Prop) (s : ChainStream) : Prop
    where
  sound : s.Sound
  volume : v.SameTable s.volume
  start : s.start = first
  word : s.failure = none → s.position < wordLimit
  place : s.failure = none →
    s.InChain v.geometry cs ∨ (s.Stranded v.geometry v.disk.byte cs ∧ P)

section Tracked

variable {v : Volume} {cs : List Nat} {first position : Nat} {P : Prop} {s t : ChainStream}

theorem Tracked.ahead (h : Tracked v cs first P s) (hchain : v.geometry.IsChain v.disk.byte cs)
    (hnone : s.failure = none) {n : Nat} (ht : s.Ahead t n) : Tracked v cs first P t where
  sound := ht.ready.sound
  volume := h.volume.kept ht.kept (by rw [← h.volume.geometry]; exact ht.table)
  start := ht.kept.start.trans h.start
  word := fun _ => by
    rcases Nat.eq_zero_or_pos n with rfl | hn
    · rw [ht.position]
      exact h.word hnone
    · exact ht.word hn
  place := fun _ => ht.place h.volume.geometry h.volume.table hchain (h.place hnone)

/-- A cursor that fails on a volume with the same table. -/
theorem Tracked.fail (h : Tracked v cs first P s) (hkept : s.Kept t)
    (hvolume : v.SameTable t.volume) (e : Error) :
    Tracked v cs first P { t with failure := some e } where
  sound := sound_failed hkept.coherent e
  volume := hvolume
  start := hkept.start.trans h.start
  word := nofun
  place := nofun

/-- A cursor that is not past its chain is at that position in the file. -/
theorem Tracked.reading (h : Tracked v cs first P s) (hnone : s.failure = none)
    (hin : s.position ≤ v.geometry.capacity cs) :
    Reading v.geometry s.volume.disk cs s.position s where
  ready := h.sound.ready hnone
  failure := hnone
  medium := .refl _
  geometry := h.volume.geometry
  position := rfl
  cluster := by
    rcases h.place hnone with hplace | ⟨hstranded, _⟩
    · rw [← Geometry.standing_eq]
      exact hplace.cluster
    · exact absurd hstranded.position.past (Nat.not_lt.mpr hin)

theorem tracked_openAt (hv : v.drive.Coherent) (hfirst : cs[0]? = some first) :
    Tracked v cs first P (v.openAt first) where
  sound := sound_openAt hv first
  volume := ⟨rfl, rfl, rfl, rfl, fun _ _ => rfl⟩
  start := rfl
  word := fun _ => Nat.zero_lt_succ _
  place := fun _ => .inl ⟨Nat.zero_le _, by
    rw [Geometry.standing_eq]
    show cs[(0 - 1) / v.geometry.clusterBytes]? = _
    rw [Nat.zero_sub, Nat.zero_div]
    exact hfirst⟩

theorem tracked_seek (hchain : v.geometry.IsChain v.disk.byte cs) (hfirst : cs[0]? = some first)
    (h : Tracked v cs first P s) (hword : position < wordLimit)
    (hP : v.geometry.Oversteps cs position → P) :
    Ends (seek position s) (fun _ t => Tracked v cs first P t)
      (fun _ t => Tracked v cs first P t) := by
  have hends := ends_seekFrom_chain h.sound.coherent (h.volume.isChain hchain) (h.start ▸ hfirst)
    position
  refine ends_guarded (fun _ _ => h) fun _ => hends.mono ?_ ?_
  · intro _ t ht
    obtain ⟨hmoved, hready, hposition, hcluster, haccepted⟩ := ht
    refine ⟨hready.sound, h.volume.moved hmoved, hmoved.start.trans h.start,
      fun _ => hposition ▸ hword, fun _ => ?_⟩
    rw [h.volume.geometry, h.start] at hcluster
    rw [h.volume.geometry] at haccepted
    rcases place_of_seek (hchain.congr h.volume.table) hfirst hposition hcluster haccepted with
      hin | ⟨hstranded, hover⟩
    · exact .inl hin
    · refine .inr ⟨⟨hstranded.position, fun c hc => ?_⟩, hP hover⟩
      rw [hstranded.cluster c hc]
      exact Geometry.tableEntry_congr (hchain.has c (List.mem_of_getLast? hc)) h.volume.table
  · intro e t ht
    exact h.fail ht.1.kept (h.volume.moved ht.1) e

theorem tracked_readExact (hchain : v.geometry.IsChain v.disk.byte cs)
    (h : Tracked v cs first P s) (len : Nat) :
    Ends (readExact len s) (fun _ t => Tracked v cs first P t)
      (fun _ t => Tracked v cs first P t) :=
  ends_readExact h.sound len (fun _ _ => h)
    (fun hnone _ _ ht => h.ahead hchain hnone (ht.done rfl).2)
    fun _ _ e _ ht => h.fail ht.moved.kept (h.volume.moved ht.moved) e

theorem tracked_write (hchain : v.geometry.IsChain v.disk.byte cs) (apart : v.geometry.TableApart)
    (h : Tracked v cs first P s) (data : ByteArray) :
    Ends (write data s) (fun _ t => Tracked v cs first P t)
      (fun _ t => Tracked v cs first P t) := by
  refine ends_guarded (fun _ _ => h) fun hnone => ?_
  have hends := ends_writeFrom data data.size (h.sound.ready hnone) (h.volume.geometry ▸ apart)
    (Nat.le_refl _)
  refine hends.mono ?_ ?_
  · intro _ t ht
    exact h.ahead hchain hnone ht.1
  · intro e t ht
    obtain ⟨hkept, _, _, _, _, hbyte, _⟩ := ht
    refine h.fail hkept (h.volume.kept hkept fun a ha => ?_) e
    -- what was written lies in the data area
    rw [hbyte]
    refine storeAlong_of_ne fun i _ hi => ?_
    have hlow := le_of_spot? hi
    rw [h.volume.geometry] at hlow
    have := Nat.mul_le_mul_left sectorSize apart
    omega

end Tracked

end ChainStream

theorem Request.perform_seek_of_ok {s t : ChainStream} {position : UInt32}
    (h : ChainStream.seek position.toNat s = .ok () t) :
    perform (.seek position) s = .ok .empty t :=
  bind_of_ok h

/-- Every request keeps track of the cursor. -/
theorem Request.tracked_perform {v : Volume} {cs : List Nat} {first : Nat} {P : Prop}
    {s : ChainStream} (hchain : v.geometry.IsChain v.disk.byte cs) (hfirst : cs[0]? = some first)
    (r : Request) (hr : v.geometry.TableApart ∨ r.OnlyReads) (hP : ∀ position, r = .seek position →
      v.geometry.Oversteps cs position.toNat → P) (h : ChainStream.Tracked v cs first P s) :
    Ends (r.perform s) (fun _ t => ChainStream.Tracked v cs first P t)
      (fun _ t => ChainStream.Tracked v cs first P t) :=
  r.invariant_perform
    (fun position _ hseek hs =>
      ChainStream.tracked_seek hchain hfirst hs position.toNat_lt (hP position hseek))
    (fun len _ hs => ChainStream.tracked_readExact hchain hs len)
    (fun hw data _ hs => ChainStream.tracked_write hchain (hr.resolve_right hw) hs data) h

/-- All requests keep track of a cursor, which only seeks past the chain strand. -/
theorem Fat.Volume.tracked_runAll {v : Volume} {cs : List Nat} {first : Nat}
    (hv : v.drive.Coherent) (hchain : v.geometry.IsChain v.disk.byte cs)
    (hfirst : cs[0]? = some first) (requests : List Request)
    (htable : v.geometry.TableApart ∨ ∀ r ∈ requests, r.OnlyReads) :
    ChainStream.Tracked v cs first
      (∃ position, Request.seek position ∈ requests ∧ v.geometry.Oversteps cs position.toNat)
      (runAll Request.perform requests (v.openAt first)).2 := by
  refine runAll_invariant_of_mem (fun r hr s hs => ?_) (ChainStream.tracked_openAt hv hfirst)
  exact r.tracked_perform hchain hfirst (htable.imp_right fun h => h r hr)
    (fun position hseek hover => ⟨position, hseek ▸ hr, hover⟩) hs

namespace ChainStream

/-! ## No way on -/

section Stranded

variable {g : Geometry} {byte : Nat → UInt8} {cs : List Nat} {s : ChainStream}

/-- A transfer from what is no cluster breaks off before it has moved a byte. -/
theorem ends_nextSpan_of_not_hasCluster (hs : s.Ready) (hdisk : s.volume.disk.Faultless)
    (hno : ¬ s.volume.geometry.HasCluster s.cluster) (hword : s.position < wordLimit) {left : Nat}
    (pos : 0 < left) :
    Ends (nextSpan left pos s) (fun _ _ => False) (fun e _ => e = .integrity) := by
  have hnone := walk?_eq_none_of_not_hasCluster hno
  refine (ends_nextSpan hs pos .read).mono ?_ ?_
  · intro span t haims
    have hwalk := haims.walk
    rw [← Nat.sub_add_cancel span.size_pos, hnone] at hwalk
    cases hwalk
  · intro e t ht
    -- the walk has no cluster
    have hempty : ∀ {i c}, s.walk? i = some c → i = 0 ∧ ¬ s.volume.geometry.HasCluster c := by
      intro i c hc
      cases i with
      | zero =>
          cases hc
          exact ⟨rfl, hno⟩
      | succ i =>
          rw [hnone] at hc
          cases hc
    have hdevice : ∀ code, e ≠ .device code := by
      rintro code rfl
      obtain ⟨i, c, _, hc, hhas, _⟩ := ht.2.missing hdisk
      exact (hempty hc).2 hhas
    cases ht.2 with
    | chain _ _ _ _ _ => rfl
    | read _ => exact absurd rfl (hdevice _)
    | write _ _ => exact absurd rfl (hdevice _)
    | position _ hc hlarge =>
        rw [(hempty hc).1] at hlarge
        exact absurd hword hlarge
    | offset _ hout =>
        obtain ⟨_, c, hc, hhas, _⟩ := hout
        exact absurd hhas (hempty hc).2

theorem read_of_not_hasCluster (hs : s.Ready) (hf : s.failure = none)
    (hdisk : s.volume.disk.Faultless) (hno : ¬ s.volume.geometry.HasCluster s.cluster)
    (hword : s.position < wordLimit) {len : Nat} (hlen : 0 < len) :
    (s.read len).error? = some .integrity := by
  obtain ⟨e, t, hr, rfl⟩ :=
    (ends_nextSpan_of_not_hasCluster hs hdisk hno hword hlen).exists_error fun _ _ h => h
  rw [read_eq_readFrom hs hf, readFrom, dif_neg (Nat.ne_of_gt hlen), hr]

theorem write_of_not_hasCluster (hs : s.Ready) (hf : s.failure = none)
    (hdisk : s.volume.disk.Faultless) (hno : ¬ s.volume.geometry.HasCluster s.cluster)
    (hword : s.position < wordLimit) {data : ByteArray} (hdata : 0 < data.size) :
    ∃ t, write data s = .error .integrity t := by
  obtain ⟨e, t, hr, rfl⟩ :=
    (ends_nextSpan_of_not_hasCluster hs hdisk hno hword hdata).exists_error fun _ _ h => h
  refine ⟨_, guarded_of_error hf (t := t) ?_⟩
  rw [writeFrom, dif_neg (Nat.ne_of_gt hdata)]
  exact bind_of_error hr

end Stranded

end ChainStream

/-- **Where seeks lead.** After any requests to a cursor on a chain, unless it has failed: it is in
the chain, on the cluster that its position says, or a seek overstepped the chain and it is stranded
on the mark. If the device has no faults and has the chain, a seek from there accepts exactly the
positions in the chain and those that overstep it, and breaks the chain for all others; and a
stranded cursor transfers nothing. What requests write must not be the table. -/
theorem seeks_lead {v : Volume} {cs : List Nat} {first : Nat} (hv : v.drive.Coherent)
    (hchain : v.geometry.Ended v.disk.byte cs) (hfirst : cs[0]? = some first)
    (requests : List Request)
    (htable : v.geometry.TableApart ∨ ∀ r ∈ requests, r.OnlyReads) :
    let g := v.geometry
    let s := (runAll Request.perform requests (v.openAt first)).2
    s.failure = none →
      (s.InChain g cs ∨ (s.Stranded g v.disk.byte cs
        ∧ ∃ position, Request.seek position ∈ requests ∧ g.Oversteps cs position.toNat))
      ∧ (v.disk.Faultless → (∀ c ∈ cs, g.OnDevice v.disk c) →
        (∀ position : UInt32,
          ((∃ t, ChainStream.seek position.toNat s = .ok () t) ↔
            position.toNat ≤ g.capacity cs ∨ g.Oversteps cs position.toNat)
          ∧ ((∃ t, ChainStream.seek position.toNat s = .error .integrity t) ↔
            ¬ (position.toNat ≤ g.capacity cs ∨ g.Oversteps cs position.toNat)))
        ∧ (s.Stranded g v.disk.byte cs →
          (∀ len, 0 < len → (s.read len).error? = some .integrity)
          ∧ ∀ data : ByteArray, 0 < data.size →
            ∃ t, ChainStream.write data s = .error .integrity t)) := by
  intro g s hnone
  have htracked := v.tracked_runAll hv hchain.isChain hfirst requests htable
  refine ⟨htracked.place hnone, fun hdisk hdevice => ?_⟩
  have hfaultless : s.volume.disk.Faultless := htracked.volume.faultless hdisk
  refine ⟨fun position => ?_, fun hstranded => ?_⟩
  · rw [← show s.volume.geometry = g from htracked.volume.geometry]
    refine ChainStream.seek_accepts htracked.sound.coherent hnone ?_ ?_ hfaultless
      (fun c hc => htracked.volume.onDevice (hdevice c hc)) position.toNat
    · rw [htracked.volume.geometry]
      exact hchain.congr htracked.volume.table
    · rw [htracked.start]
      exact hfirst
  · have hready := htracked.sound.ready hnone
    have hno : ¬ s.volume.geometry.HasCluster s.cluster := by
      rw [htracked.volume.geometry]
      exact hstranded.not_hasCluster hchain.isChain
    have hword := htracked.word hnone
    refine ⟨fun len hlen => ?_, fun data hdata => ?_⟩
    · exact ChainStream.read_of_not_hasCluster hready hnone hfaultless hno hword hlen
    · exact ChainStream.write_of_not_hasCluster hready hnone hfaultless hno hword hdata

/-! ## A seek past the end -/

theorem ended_small : smallGeometry.Ended smallDisk.byte [3] := by
  have hmark : smallGeometry.tableEntry smallDisk.byte 3 = 0xFFFF := by
    decide
  refine ⟨⟨(isChain_smallChains false).toPath, by decide, ?_⟩, (isChain_smallChains false).last,
    (isChain_smallChains false).lastFits⟩
  intro c hc
  cases hc
  exact (congrArg _ hmark).trans rfl

/-- On a chain of one cluster of one sector, a seek to the end of the sector after it. -/
theorem exists_small_overstep :
    ∃ t, ChainStream.seek 1024 ((Volume.ofDisk smallDisk smallGeometry true).openAt 3) = .ok () t
      ∧ t.failure = none ∧ t.position = 1024 ∧ t.cluster = 0xFFFF := by
  generalize hs : (Volume.ofDisk smallDisk smallGeometry true).openAt 3 = s
  have hgeometry : s.volume.geometry = smallGeometry := hs ▸ rfl
  have hdisk : s.volume.disk = smallDisk := hs ▸ rfl
  have hstart : s.start = 3 := hs ▸ rfl
  have hnone : s.failure = none := hs ▸ rfl
  have hcoherent : s.volume.drive.Coherent := hs ▸ Drive.coherent_of_empty rfl
  have hover : smallGeometry.Oversteps [3] 1024 := ⟨by decide, by decide, by decide⟩
  have hended : s.volume.geometry.Ended s.volume.disk.byte [3] := by
    rw [hgeometry, hdisk]
    exact ended_small
  have hfirst : [3][0]? = some s.start := by
    rw [hstart]
    rfl
  have hends := ChainStream.ends_seekFrom_chain hcoherent hended.isChain hfirst 1024
  obtain ⟨_, t, hr, hmoved, _, hposition, hcluster, _⟩ := hends.exists_ok fun e t ht => by
    refine (ht.2.refused hended hfirst ?_ ?_).2 (.inr ?_)
    · rw [hdisk]
      exact smallDisk_faultless
    · rw [hgeometry, hdisk]
      exact onDevice_small false
    · rw [hgeometry]
      exact hover
  rw [hgeometry, hdisk, hstart] at hcluster
  refine ⟨t, ChainStream.guarded_of_ok hnone hr, hmoved.failure.trans hnone, hposition, ?_⟩
  rw [hcluster]
  decide

/-- Such a seek strands the cursor, which then has not failed. -/
theorem small_seeks_lead :
    let s := (runAll Request.perform [.seek 1024]
      ((Volume.ofDisk smallDisk smallGeometry true).openAt 3)).2
    s.failure = none ∧ (∃ t, ChainStream.seek 512 s = .ok () t)
      ∧ (∃ t, ChainStream.seek 513 s = .error .integrity t)
      ∧ (s.read 1).error? = some .integrity := by
  obtain ⟨t, hseek, hnone, hposition, hcluster⟩ := exists_small_overstep
  have hperform : (Request.seek 1024).perform
      ((Volume.ofDisk smallDisk smallGeometry true).openAt 3) = .ok .empty t :=
    Request.perform_seek_of_ok hseek
  have hrun : (runAll Request.perform [.seek 1024]
      ((Volume.ofDisk smallDisk smallGeometry true).openAt 3)).2 = t := by
    rw [runAll_single, hperform]
    rfl
  intro s
  have hs : s = t := hrun
  have hlast : s.failure = none := by
    rw [hs]
    exact hnone
  obtain ⟨hplace, hmore⟩ := seeks_lead (Drive.coherent_of_empty rfl) ended_small rfl
    [.seek 1024] (.inl smallGeometry_apart) hlast
  obtain ⟨hseeks, hstranded⟩ := hmore smallDisk_faultless (onDevice_small false)
  have hnot : ¬ s.InChain smallGeometry [3] := by
    intro hin
    have hle := hin.position
    rw [hs, hposition] at hle
    exact absurd hle (by decide)
  obtain ⟨hread, -⟩ := hstranded (hplace.resolve_left hnot).1
  exact ⟨hlast, (hseeks 512).1.mpr (.inl (by decide)),
    (hseeks 513).2.mpr fun h => h.elim (by decide) fun hover => absurd hover.aligned (by decide),
    hread 1 Nat.one_pos⟩

/-- The sector after the end of a chain: its first byte is refused and its end is accepted, though
it is past the file and on no cluster. -/
theorem small_seek_past_end :
    let s := (Volume.ofDisk smallDisk smallGeometry true).openAt 3
    smallGeometry.Ended smallDisk.byte [3] ∧ smallDisk.Faultless
      ∧ (∀ c ∈ [3], smallGeometry.OnDevice smallDisk c)
      ∧ smallGeometry.capacity [3] = 512
      ∧ (∃ t, ChainStream.seek 513 s = .error .integrity t)
      ∧ ∃ t, ChainStream.seek 1024 s = .ok () t ∧ t.failure = none
        ∧ smallGeometry.capacity [3] < t.position ∧ ¬ smallGeometry.HasCluster t.cluster := by
  intro s
  obtain ⟨t, hseek, hnone, hposition, hcluster⟩ := exists_small_overstep
  have hrefused := (ChainStream.seek_accepts (s := s) (Drive.coherent_of_empty rfl) rfl ended_small
    rfl smallDisk_faultless (onDevice_small false) 513).2
  refine ⟨ended_small, smallDisk_faultless, onDevice_small false, rfl,
    hrefused.mpr fun h => h.elim (by decide) fun hover => absurd hover.aligned (by decide),
    t, hseek, hnone, ?_, ?_⟩
  · rw [hposition]
    decide
  · rw [hcluster]
    decide

end CartBoot
