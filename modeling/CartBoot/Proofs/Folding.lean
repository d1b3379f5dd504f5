import CartBoot.Proofs.Refinement

/-!
# Folding cannot be observed

A volume that folds adjacent clusters into one transfer looks table entries up before
it moves the data, asks the device for longer runs of sectors, and has other sectors
in its window. None of this shows: how a transfer ends is decided by the walk, and by
what on the way cannot be read.

On a device without faults that holds the volume this is so for whatever is done with
it. On a device with sectors that cannot be read it is so as long as nothing is
written. Of cursors that have failed not even the position is the same then, since
folding fails earlier; but they answer nothing any more.

Numbers have to be words for this. A look-up that stops because an offset is none
comes before the data with folding and after them without; if these cannot be read,
one run stops and the other has an error of the device.
-/

namespace CartBoot

open Fat

/-! ## How a read ends -/

namespace ChainStream

section Verdict

variable {s : ChainStream} {m n : Nat}

theorem walk?_eq_none_of_le (h : s.walk? m = none) (hmn : m ≤ n) : s.walk? n = none := by
  cases hn : s.walk? n with
  | none => rfl
  | some c =>
      rcases Geometry.walk?_of_le hn hmn with ⟨d, hd⟩
      unfold walk? at h
      rw [hd] at h
      cases h

/-- What a walk does not reach is in nobody's way. -/
theorem not_obstacle_of_walk? (h : s.walk? (m + 1) = none) {i : Nat} (hi : m < i) :
    ¬ s.Obstacle i := by
  intro hobstacle
  rcases hobstacle with ⟨_, c, hwalk, _⟩ | ⟨a, hspot, _⟩
  · rw [walk?_eq_none_of_le h hi] at hwalk
    cases hwalk
  · rcases Option.map_eq_some_iff.mp hspot with ⟨c, hwalk, _⟩
    have hnone := walk?_eq_none_of_le h (Nat.le_succ_of_le hi)
    unfold walk? at hnone
    rw [hnone] at hwalk
    cases hwalk

/-- How reading `n` bytes ends, on a steady device and within words: an obstacle on the way comes
first, then the end of the chain. -/
inductive Verdict (s : ChainStream) (n : Nat) : Option Error → Prop where
  | done {c : Nat} : s.walk? n = some c → (∀ i, i < n → ¬ s.Obstacle i) → Verdict s n none
  | chain : s.walk? n = none → (∀ i, i < n → ¬ s.Obstacle i) → Verdict s n (some .integrity)
  | device {i : Nat} : i < n → s.Obstacle i → Verdict s n (some (.device s.volume.disk.faults.code))

/-- There is only one way to end. -/
theorem Verdict.unique {error? error?' : Option Error} (h : s.Verdict n error?)
    (h' : s.Verdict n error?') : error? = error?' := by
  cases h with
  | done hwalk hclear =>
      cases h' with
      | done _ _ => rfl
      | chain hnone _ =>
          rw [hnone] at hwalk
          cases hwalk
      | device hi hobstacle => exact absurd hobstacle (hclear _ hi)
  | chain hnone hclear =>
      cases h' with
      | done hwalk _ =>
          rw [hnone] at hwalk
          cases hwalk
      | chain _ _ => rfl
      | device hi hobstacle => exact absurd hobstacle (hclear _ hi)
  | device hi hobstacle =>
      cases h' with
      | done _ hclear => exact absurd hobstacle (hclear _ hi)
      | chain _ hclear => exact absurd hobstacle (hclear _ hi)
      | device _ _ => rfl

/-- **A read ends as the medium says**, however it is cut into spans. -/
theorem Delivers.verdict {data : ByteArray} {error? : Option Error} {rest : ChainStream}
    (h : s.Delivers n data error? rest) (hd : s.volume.disk.Steady)
    (hr : s.volume.drive.Renewable) (hreach : s.volume.geometry.OffsetsFit)
    (hword : s.position + n < wordLimit) : s.Verdict n error? := by
  have hclear := h.clear hr
  cases error? with
  | none =>
      rcases h.done rfl with ⟨hsize, hahead⟩
      rw [hsize] at hclear
      exact .done hahead.walk hclear
  | some e =>
      cases h.failed e rfl with
      | chain hlt hwalk hend hill _ =>
          refine .chain (walk?_eq_none_of_le hend hlt) fun i hi => ?_
          rcases Nat.lt_trichotomy i data.size with hi' | rfl | hi'
          · exact hclear i hi'
          · -- the byte that is not there is in no sector
            intro hobstacle
            rcases hobstacle with hobstacle | ⟨a, hspot, _⟩
            · exact hill hr hobstacle
            · rcases Option.map_eq_some_iff.mp hspot with ⟨c, hc, _⟩
              unfold walk? at hend
              rw [hend] at hc
              cases hc
          · exact not_obstacle_of_walk? hend hi'
      | read hwhy =>
          rcases hwhy hd with ⟨i, hi, hobstacle⟩
          exact .device hi hobstacle
      | write hdirection _ => cases hdirection
      | position hj _ hlarge => exact absurd hword (by omega)
      | offset _ hout => exact absurd hout (not_outOfReach hreach _)

end Verdict

end ChainStream

/-! ## Alike -/

/-- Volumes with the same contents, on devices that fail alike, and with all entries within
reach. -/
structure Fat.Volume.Alike (v w : Volume) : Prop where
  geometry : w.geometry = v.geometry
  reach : v.geometry.OffsetsFit
  medium : v.disk.SameMedium w.disk
  steady : v.disk.Steady
  coherent : v.drive.Coherent ∧ w.drive.Coherent
  renewable : v.drive.Renewable ∧ w.drive.Renewable

theorem Fat.Volume.Alike.symm {v w : Volume} (h : v.Alike w) : w.Alike v where
  geometry := h.geometry.symm
  reach := h.geometry ▸ h.reach
  medium := ⟨h.medium.byte.symm, h.medium.sectorCount.symm, h.medium.faults.symm⟩
  steady := h.medium.steady h.steady
  coherent := h.coherent.symm
  renewable := h.renewable.symm

theorem Fat.Volume.Alike.reads {v w v' w' : Volume} (h : v.Alike w) (hv : v.Reads v')
    (hw : w.Reads w') : v'.Alike w' where
  geometry := by rw [hw.geometry, hv.geometry, h.geometry]
  reach := hv.geometry ▸ h.reach
  medium := by
    have hvm : v.disk.SameMedium v'.disk := hv.drive.medium
    have hwm : w.disk.SameMedium w'.disk := hw.drive.medium
    have hm := h.medium.trans hwm
    exact ⟨hm.byte.trans hvm.byte.symm, hm.sectorCount.trans hvm.sectorCount.symm,
      hm.faults.trans hvm.faults.symm⟩
  steady := hv.drive.medium.steady h.steady
  coherent := ⟨hv.drive.coherent, hw.drive.coherent⟩
  renewable := ⟨hv.drive.renewable h.renewable.1, hw.drive.renewable h.renewable.2⟩

/-- A look-up has one answer, whatever is in the window. -/
theorem Fat.Volume.matches_nextCluster {v w : Volume} (h : v.Alike w) (cluster : Nat) :
    Matches Volume.Alike (nextCluster cluster v) (nextCluster cluster w) := by
  by_cases hc : v.geometry.HasCluster cluster
  · have hc' : w.geometry.HasCluster cluster := h.geometry ▸ hc
    have hlegible : w.geometry.Legible w.disk cluster ↔ v.geometry.Legible v.disk cluster := by
      rw [h.geometry]
      exact Geometry.legible_same h.medium
    have hsteady : w.disk.Steady := h.medium.steady h.steady
    refine .of_ends (ends_nextCluster_reached h.coherent.1 hc (h.reach.offsetFits hc))
      (ends_nextCluster_reached h.coherent.2 hc' (h.geometry ▸ h.reach.offsetFits hc)) ?_ ?_ ?_ ?_
    · intro n v' n' w' ⟨hn, hv, _⟩ ⟨hn', hw, _⟩
      refine ⟨?_, h.reads hv hw⟩
      rw [hn, hn', h.geometry, h.medium.byte]
    · intro e v' e' w' ⟨he, hv, _⟩ ⟨he', hw, _⟩
      refine ⟨?_, h.reads hv hw⟩
      rw [he, he', h.medium.faults]
    · intro n v' e w' ⟨_, _, hl⟩ ⟨_, _, hnot⟩
      exact hnot hsteady (hlegible.mpr (hl h.renewable.1))
    · intro e v' n w' ⟨_, _, hnot⟩ ⟨_, _, hl⟩
      exact hnot h.steady (hlegible.mp (hl h.renewable.2))
  · have hc' : ¬ w.geometry.HasCluster cluster := h.geometry ▸ hc
    rw [nextCluster_invalid hc, nextCluster_invalid hc']
    exact ⟨rfl, h⟩

namespace ChainStream

/-- Cursors in the same place of volumes that are alike. -/
structure Alike (s t : ChainStream) : Prop where
  volume : s.volume.Alike t.volume
  start : t.start = s.start
  cluster : t.cluster = s.cluster
  position : t.position = s.position
  failure : t.failure = s.failure

section Alike

variable {s t : ChainStream} {n : Nat}

theorem Alike.walk?_eq (h : s.Alike t) (n : Nat) : t.walk? n = s.walk? n := by
  unfold walk?
  rw [h.volume.geometry, h.volume.medium.byte, h.cluster, h.position]

theorem Alike.spot?_eq (h : s.Alike t) (i : Nat) : t.spot? i = s.spot? i := by
  unfold spot?
  rw [h.volume.geometry, h.volume.medium.byte, h.cluster, h.position]

theorem Alike.obstacle (h : s.Alike t) {i : Nat} (ht : t.Obstacle i) : s.Obstacle i := by
  rcases ht with ⟨hb, c, hwalk, hc, hnot⟩ | ⟨a, hspot, hnot⟩
  · rw [h.position, h.volume.geometry] at hb
    rw [h.walk?_eq] at hwalk
    rw [h.volume.geometry] at hc hnot
    exact .inl ⟨hb, c, hwalk, hc, fun hl => hnot ((Geometry.legible_same h.volume.medium).mpr hl)⟩
  · rw [h.spot?_eq] at hspot
    exact .inr ⟨a, hspot, fun hr => hnot ((h.volume.medium.readable_iff _).mpr hr)⟩

theorem Alike.symm (h : s.Alike t) : t.Alike s :=
  ⟨h.volume.symm, h.start.symm, h.cluster.symm, h.position.symm, h.failure.symm⟩

/-- Cursors that are alike read alike. -/
theorem Alike.verdict (h : s.Alike t) {error? : Option Error} (ht : t.Verdict n error?) :
    s.Verdict n error? := by
  cases ht with
  | done hwalk hclear =>
      exact .done (h.walk?_eq n ▸ hwalk) fun i hi hs => hclear i hi (h.symm.obstacle hs)
  | chain hwalk hclear =>
      exact .chain (h.walk?_eq n ▸ hwalk) fun i hi hs => hclear i hi (h.symm.obstacle hs)
  | device hi hobstacle =>
      have hdevice := Verdict.device hi (h.obstacle hobstacle)
      rwa [← h.volume.medium.faults] at hdevice

/-! ## Seeking -/

/-- What matches on the volumes matches on the cursors. -/
theorem matches_onVolume {α : Type} {access : EStateM Error Volume α} (h : s.Alike t)
    (hm : Matches Volume.Alike (access s.volume) (access t.volume)) :
    Matches Alike (onVolume access s) (onVolume access t) := by
  rcases s with ⟨v, start, cluster, sector, position, failure⟩
  rcases t with ⟨w, start', cluster', sector', position', failure'⟩
  rcases h with ⟨_, rfl, rfl, rfl, rfl⟩
  unfold onVolume
  dsimp only at hm ⊢
  cases hv : access v with
  | ok a v' =>
      cases hw : access w with
      | ok b w' =>
          rw [hv, hw] at hm
          exact ⟨hm.1, hm.2, rfl, rfl, rfl, rfl⟩
      | error e w' =>
          rw [hv, hw] at hm
          cases hm.1
  | error e v' =>
      cases hw : access w with
      | ok b w' =>
          rw [hv, hw] at hm
          cases hm.1
      | error e' w' =>
          rw [hv, hw] at hm
          exact ⟨hm.1, hm.2, rfl, rfl, rfl, rfl⟩

theorem matches_entry (h : s.Alike t) (cluster : Nat) :
    Matches Alike ( entry? cluster s) ( entry? cluster t) := by
  have hnext := matches_onVolume h (Volume.matches_nextCluster h.volume cluster)
  unfold entry?
  cases hs : onVolume (Volume.nextCluster cluster) s with
  | ok n s' =>
      cases ht : onVolume (Volume.nextCluster cluster) t with
      | ok m t' =>
          rw [hs, ht] at hnext
          cases hnext.1
          exact ⟨rfl, hnext.2⟩
      | error e t' =>
          rw [hs, ht] at hnext
          cases hnext.1
  | error e s' =>
      cases ht : onVolume (Volume.nextCluster cluster) t with
      | ok m t' =>
          rw [hs, ht] at hnext
          cases hnext.1
      | error e' t' =>
          rw [hs, ht] at hnext
          cases hnext.1
          cases e <;> exact ⟨rfl, hnext.2⟩

theorem matches_follow (h : s.Alike t) (cluster : Nat) :
    Matches Alike (follow cluster s) (follow cluster t) := by
  refine (matches_entry h cluster).bind fun next s t h => ?_
  cases next with
  | none => exact ⟨rfl, h⟩
  | some next =>
      dsimp only
      split
      · exact ⟨rfl, h⟩
      · exact ⟨rfl, h⟩

theorem matches_followMany (hops : Nat) (h : s.Alike t) (cluster : Nat) :
    Matches Alike (followMany hops cluster s) (followMany hops cluster t) := by
  induction hops generalizing cluster s t with
  | zero => exact ⟨rfl, h⟩
  | succ hops ih => exact (matches_follow h cluster).bind fun next s t h => ih h next

theorem matches_clusterSector (h : s.Alike t) (cluster : Nat) :
    Matches Alike (clusterSector cluster s) (clusterSector cluster t) := by
  refine .of_ends (ends_clusterSector s cluster) (ends_clusterSector t cluster) ?_ ?_ ?_ ?_
  · intro a s' b t' ⟨hs, _, ha⟩ ⟨ht, _, hb⟩
    subst hs ht
    exact ⟨by rw [ha, hb, h.volume.geometry], h⟩
  · intro e s' e' t' ⟨hs, _, he⟩ ⟨ht, _, he'⟩
    subst hs ht
    exact ⟨by rw [he, he'], h⟩
  · intro a s' e t' ⟨_, hc, _⟩ ⟨_, hc', _⟩
    exact hc' (h.volume.geometry ▸ hc)
  · intro e s' b t' ⟨_, hc, _⟩ ⟨_, hc', _⟩
    exact hc (h.volume.geometry ▸ hc')

/-- Seeking goes the same way on both. -/
theorem matches_seekFrom (h : s.Alike t) (position : Nat) :
    Matches Alike (seekFrom position s) (seekFrom position t) := by
  unfold seekFrom
  rw [bind_of_ok (x := get) (s := s) rfl, bind_of_ok (x := get) (s := t) rfl, h.volume.geometry,
    h.start]
  refine (matches_followMany _ h _).bind fun cluster s' t' h' => ?_
  have hmoved : Alike { s' with cluster, position } { t' with cluster, position } :=
    ⟨h'.volume, h'.start, rfl, rfl, h'.failure⟩
  rw [bind_of_ok (x := modify _) (s := s') rfl, bind_of_ok (x := modify _) (s := t') rfl]
  split
  · -- the sector is the same too, but nothing depends on that
    refine (matches_clusterSector hmoved cluster).bind fun base u v h => ⟨rfl, ?_⟩
    exact ⟨h.volume, h.start, h.cluster, h.position, h.failure⟩
  · exact ⟨rfl, hmoved⟩

end Alike

/-! ## Twins -/

/-- Cursors on volumes that are alike, between requests: either both have failed in the same way, or
both stand in the same place. On a `whole` volume all of the table and the data is there, and
failing does not part them either. -/
structure Twins (whole : Prop) (s t : ChainStream) : Prop where
  volume : s.volume.Alike t.volume
  start : t.start = s.start
  failure : t.failure = s.failure
  ready : s.failure = none → s.Ready ∧ t.Ready
  cluster : s.failure = none → t.cluster = s.cluster
  position : whole ∨ s.failure = none → t.position = s.position
  apart : whole → s.volume.geometry.TableApart
  faultless : whole → s.volume.disk.Faultless
  fits : whole → s.volume.geometry.dataEnd ≤ s.volume.disk.sectorCount

section Twins

variable {whole : Prop} {s t s' t' : ChainStream} {n : Nat}

theorem Twins.symm (h : Twins whole s t) : Twins whole t s where
  volume := h.volume.symm
  start := h.start.symm
  failure := h.failure.symm
  ready := fun hnone => (h.ready (h.failure.symm.trans hnone)).symm
  cluster := fun hnone => (h.cluster (h.failure.symm.trans hnone)).symm
  position := fun hw => (h.position (hw.imp_right h.failure.symm.trans)).symm
  apart := fun hw => h.volume.geometry ▸ h.apart hw
  faultless := fun hw => h.volume.medium.faultless (h.faultless hw)
  fits := fun hw => by
    rw [h.volume.geometry, h.volume.medium.sectorCount]
    exact h.fits hw

theorem Twins.alike (h : Twins whole s t) (hnone : s.failure = none) : s.Alike t :=
  ⟨h.volume, h.start, h.cluster hnone, h.position (.inr hnone), h.failure⟩

/-- Cursors that go on side by side. -/
theorem Twins.go (h : Twins whole s t) (hs : s.Kept s') (ha : s'.Alike t') (hready : s'.Ready)
    (hready' : t'.Ready) : Twins whole s' t' where
  volume := ha.volume
  start := ha.start
  failure := ha.failure
  ready := fun _ => ⟨hready, hready'⟩
  cluster := fun _ => ha.cluster
  position := fun _ => ha.position
  apart := fun hw => hs.geometry ▸ h.apart hw
  faultless := fun hw => hs.faultless (h.faultless hw)
  fits := fun hw => by
    rw [hs.geometry, hs.sectorCount]
    exact h.fits hw

/-- Cursors that fail side by side. -/
theorem Twins.fail (h : Twins whole s t) (hs : s.Kept s') (ha : s'.volume.Alike t'.volume)
    (hstart : t'.start = s'.start) (hposition : whole → t'.position = s'.position) (e : Error) :
    Twins whole { s' with failure := some e } { t' with failure := some e } where
  volume := ha
  start := hstart
  failure := rfl
  ready := nofun
  cluster := nofun
  position := fun hw => hw.elim hposition nofun
  apart := fun hw => hs.geometry ▸ h.apart hw
  faultless := fun hw => hs.faultless (h.faultless hw)
  fits := fun hw => by
    show s'.volume.geometry.dataEnd ≤ s'.volume.disk.sectorCount
    rw [hs.geometry, hs.sectorCount]
    exact h.fits hw

/-- Guarded operations match if the operations do. -/
theorem twins_guarded {α : Type} {operation : EStateM Error ChainStream α} (h : Twins whole s t)
    (hm : s.failure = none → Matches (Twins whole) (guarded operation s) (guarded operation t)) :
    Matches (Twins whole) (guarded operation s) (guarded operation t) := by
  cases hf : s.failure with
  | some e =>
      rw [guarded_of_failed hf, guarded_of_failed (h.failure.trans hf)]
      exact ⟨rfl, h⟩
  | none => exact hm hf

theorem twins_seek (h : Twins whole s t) (position : Nat) :
    Matches (Twins whole) (seek position s) (seek position t) := by
  refine twins_guarded h fun hnone => ?_
  have ha := h.alike hnone
  have hnone' : t.failure = none := h.failure.trans hnone
  have hm := matches_seekFrom ha position
  have hs := ends_seekFrom position (s := s) h.volume.coherent.1
  have ht := ends_seekFrom position (s := t) h.volume.coherent.2
  cases hr : seekFrom position s with
  | ok a s' =>
      cases hr' : seekFrom position t with
      | ok b t' =>
          rw [hr, hr'] at hm
          rw [guarded_of_ok hnone hr, guarded_of_ok hnone' hr']
          rcases hs.of_ok hr with ⟨hmoved, hready, _⟩
          rcases ht.of_ok hr' with ⟨_, hready', _⟩
          exact ⟨rfl, h.go hmoved.kept hm.2 hready hready'⟩
      | error e t' =>
          rw [hr, hr'] at hm
          cases hm.1
  | error e s' =>
      cases hr' : seekFrom position t with
      | ok b t' =>
          rw [hr, hr'] at hm
          cases hm.1
      | error e' t' =>
          rw [hr, hr'] at hm
          cases hm.1
          rw [guarded_of_error hnone hr, guarded_of_error hnone' hr']
          refine ⟨rfl, h.fail (hs.of_error hr).1.kept hm.2.volume hm.2.start ?_ e⟩
          exact fun _ => hm.2.position

/-- There is only one place where a walk ends. -/
theorem walk?_end_unique {m m' c c' : Nat} (h : s.walk? m = some c) (hend : s.walk? (m + 1) = none)
    (h' : s.walk? m' = some c') (hend' : s.walk? (m' + 1) = none) : m' = m := by
  refine Nat.le_antisymm (Nat.not_lt.mp fun hlt => ?_) (Nat.not_lt.mp fun hlt => ?_)
  · rw [walk?_eq_none_of_le hend hlt] at h'
    cases h'
  · rw [walk?_eq_none_of_le hend' hlt] at h
    cases h

/-- Twins have the same way to go. -/
theorem Twins.within (h : Twins whole s t) {len : Nat} (hin : t.Within len) : s.Within len := by
  intro hnone
  have := hin (h.failure.trans hnone)
  rwa [h.position (.inr hnone)] at this

/-- On a whole volume nothing but the end of the chain breaks off a transfer within words. -/
theorem Twins.integrity_of_breaks (h : Twins whole s t) (hw : whole) {direction : Direction}
    {m : Nat} {e : Error} (hword : s.position + n < wordLimit) (hb : s.Breaks direction n m e) :
    e = .integrity ∧ m < n ∧ (∃ c, s.walk? m = some c) ∧ s.walk? (m + 1) = none :=
  hb.integrity (h.apart hw) (h.faultless hw) (h.fits hw) (fun _ _ _ _ => by omega)
    fun _ _ => not_outOfReach h.volume.reach _

theorem twins_read (h : Twins whole s t) {len : Nat} (hin : s.Within len) :
    Matches (Twins whole) (readExact len s) (readExact len t) := by
  cases hf : s.failure with
  | some e =>
      rw [readExact_of_some (read_of_failed hf len),
        readExact_of_some (read_of_failed (h.failure.trans hf) len)]
      exact ⟨rfl, h⟩
  | none =>
      have ha := h.alike hf
      have hf' : t.failure = none := h.failure.trans hf
      rcases exists_read_eq (h.ready hf).1 hf len with ⟨data, error?, rest, hr, hs⟩
      rcases exists_read_eq (h.ready hf).2 hf' len with ⟨data', error?', rest', hr', ht⟩
      have hrest : rest.volume.Alike rest'.volume := h.volume.reads hs.moved.volume ht.moved.volume
      have hstart : rest'.start = rest.start := by
        rw [hs.moved.start, ht.moved.start, h.start]
      have hsym := ha.symm
      -- both end as the medium says
      obtain rfl : error?' = error? :=
        Verdict.unique (ha.verdict (ht.verdict (h.volume.medium.steady h.volume.steady)
          h.volume.renewable.2 hsym.volume.reach (ha.position ▸ hin hf)))
          (hs.verdict h.volume.steady h.volume.renewable.1 h.volume.reach (hin hf))
      cases error?' with
      | none =>
          rw [readExact_of_none hr, readExact_of_none hr']
          rcases hs.done rfl with ⟨hsize, hahead⟩
          rcases ht.done rfl with ⟨hsize', hahead'⟩
          have hdata : data = data' := by
            refine ByteArray.ext_byteAt (hsize.trans hsize'.symm) fun i hi => ?_
            have hbyte := hs.byte i hi
            have hbyte' := ht.byte i (by omega)
            rw [ha.spot?_eq, h.volume.medium.byte, hbyte] at hbyte'
            exact Option.some.inj hbyte'
          have hcluster : rest'.cluster = rest.cluster := by
            have hwalk := hahead'.walk
            rw [ha.walk?_eq, hahead.walk] at hwalk
            exact (Option.some.inj hwalk).symm
          have hposition : rest'.position = rest.position := by
            rw [hahead.position, hahead'.position, ha.position]
          have hready := hahead.ready
          have hready' := hahead'.ready
          have halike : ChainStream.Alike { rest with failure := none }
              { rest' with failure := none } :=
            ⟨hrest, hstart, hcluster, hposition, rfl⟩
          refine ⟨congrArg Except.ok hdata, h.go ?_ halike
            ⟨hready.coherent, hready.cluster, hready.sector⟩
            ⟨hready'.coherent, hready'.cluster, hready'.sector⟩⟩
          have hkept := hs.moved.kept
          exact ⟨hkept.coherent, hkept.geometry, hkept.foldRuns, hkept.sectorCount, hkept.faults,
            hkept.start, hf.symm, hkept.renewable⟩
      | some e =>
          rw [readExact_of_some hr, readExact_of_some hr']
          refine ⟨rfl, h.fail hs.moved.kept hrest hstart (fun hw => ?_) e⟩
          -- on a whole volume both fail where the chain ends
          rcases h.integrity_of_breaks hw (hin hf) (hs.failed e rfl) with ⟨_, _, ⟨c, hwalk⟩, hend⟩
          rcases h.symm.integrity_of_breaks hw (ha.position ▸ hin hf) (ht.failed e rfl) with
            ⟨_, _, ⟨c', hwalk'⟩, hend'⟩
          rw [ha.walk?_eq] at hwalk' hend'
          rw [hs.position, ht.position, ha.position, walk?_end_unique hwalk hend hwalk' hend']

/-- Volumes that were written alike are alike. -/
theorem Kept.alike (hs : s.Kept s') (ht : t.Kept t') (h : s.volume.Alike t.volume)
    (hbyte : t'.volume.disk.byte = s'.volume.disk.byte) : s'.volume.Alike t'.volume where
  geometry := by rw [hs.geometry, ht.geometry, h.geometry]
  reach := hs.geometry ▸ h.reach
  medium := by
    refine ⟨hbyte, ?_, ?_⟩
    · rw [hs.sectorCount, ht.sectorCount, h.medium.sectorCount]
    · rw [hs.faults, ht.faults, h.medium.faults]
  steady := hs.steady h.steady
  coherent := ⟨hs.coherent, ht.coherent⟩
  renewable := ⟨hs.renewable h.renewable.1, ht.renewable h.renewable.2⟩

theorem twins_write (h : Twins whole s t) (hw : whole) {data : ByteArray}
    (hin : s.Within data.size) : Matches (Twins whole) (write data s) (write data t) := by
  refine twins_guarded h fun hnone => ?_
  have ha := h.alike hnone
  have hnone' : t.failure = none := h.failure.trans hnone
  have apart := h.apart hw
  have apart' : t.volume.geometry.TableApart := h.volume.geometry ▸ apart
  have hword := hin hnone
  have hword' : t.position + data.size < wordLimit := ha.position ▸ hword
  have hspot : t.spot? = s.spot? := funext ha.spot?_eq
  have hs := ends_writeFrom data data.size (h.ready hnone).1 apart (Nat.le_refl _)
  have ht := ends_writeFrom data data.size (h.ready hnone).2 apart' (Nat.le_refl _)
  cases hr : writeFrom data data.size s with
  | ok a s' =>
      rcases hs.of_ok hr with ⟨hahead, hbyte⟩
      cases hr' : writeFrom data data.size t with
      | ok b t' =>
          rcases ht.of_ok hr' with ⟨hahead', hbyte'⟩
          have halike : s'.Alike t' := by
            refine ⟨hahead.kept.alike hahead'.kept h.volume ?_, ?_, ?_, ?_, ?_⟩
            · rw [hbyte, hbyte', hspot, h.volume.medium.byte]
            · rw [hahead.kept.start, hahead'.kept.start, h.start]
            · have hwalk := hahead'.walk
              rw [ha.walk?_eq, hahead.walk] at hwalk
              exact (Option.some.inj hwalk).symm
            · rw [hahead.position, hahead'.position, ha.position]
            · rw [hahead.kept.failure, hahead'.kept.failure, h.failure]
          rw [guarded_of_ok hnone hr, guarded_of_ok hnone' hr']
          exact ⟨rfl, h.go hahead.kept halike hahead.ready hahead'.ready⟩
      | error e t' =>
          -- the walk goes far enough for one and not for the other
          rcases ht.of_error hr' with ⟨_, m, _, hb, _⟩
          rcases h.symm.integrity_of_breaks hw hword' hb with ⟨_, hlt, _, hend⟩
          have hwalk := walk?_eq_none_of_le hend hlt
          rw [ha.walk?_eq, hahead.walk] at hwalk
          cases hwalk
  | error e s' =>
      rcases hs.of_error hr with ⟨hkept, m, k, hb, hposition, hbyte, hk⟩
      rcases h.integrity_of_breaks hw hword hb with ⟨rfl, hlt, ⟨c, hwalk⟩, hend⟩
      obtain rfl := hk nofun
      cases hr' : writeFrom data data.size t with
      | ok b t' =>
          rcases ht.of_ok hr' with ⟨hahead', _⟩
          have hwalk' := walk?_eq_none_of_le hend hlt
          rw [← ha.walk?_eq, hahead'.walk] at hwalk'
          cases hwalk'
      | error e' t' =>
          rcases ht.of_error hr' with ⟨hkept', m', k', hb', hposition', hbyte', hk'⟩
          rcases h.symm.integrity_of_breaks hw hword' hb' with ⟨rfl, _, ⟨c', hwalk'⟩, hend'⟩
          obtain rfl := hk' nofun
          rw [ha.walk?_eq] at hwalk' hend'
          obtain rfl := walk?_end_unique hwalk hend hwalk' hend'
          have halike : s'.volume.Alike t'.volume := by
            refine hkept.alike hkept' h.volume ?_
            rw [hbyte, hbyte', hspot, h.volume.medium.byte]
          have hstart : t'.start = s'.start := by rw [hkept.start, hkept'.start, h.start]
          rw [guarded_of_error hnone hr, guarded_of_error hnone' hr']
          refine ⟨rfl, h.fail hkept halike hstart (fun _ => ?_) .integrity⟩
          rw [hposition, hposition', ha.position]

theorem twins_fill (hw : whole) (value : UInt8) (len : Nat) (h : Twins whole s t)
    (hin : t.Within len) : Matches (Twins whole) (fill value len s) (fill value len t) := by
  induction len using Nat.strongRecOn generalizing s t with
  | ind len ih =>
      rw [fill]
      split
      · exact ⟨rfl, h⟩
      · have hle := Nat.min_le_right fillPiece len
        have hpiece : t.Within ((ByteArray.replicate (min fillPiece len) value).size
            + (len - min fillPiece len)) := by
          rwa [ByteArray.size_replicate, Nat.add_sub_cancel' hle]
        have hsound : t.Sound := ⟨h.volume.coherent.2, fun hnone =>
          (h.ready (h.failure.symm.trans hnone)).2⟩
        -- what is left is within words again
        have hfirst := (twins_write h hw (h.within hpiece.of_add)).and
          (P := fun t => t.Within (len - min fillPiece len)) (within_write hsound hpiece).outcome
        refine hfirst.bind_of (fun _ _ h => h.1) fun _ s t h => ?_
        exact ih _ (by unfold fillPiece; omega) h.1 h.2

end Twins

/-- What is known of a cursor is known of its twin when it is opened anew. -/
theorem Twins.openAt {whole : Prop} {s t : ChainStream} (h : Twins whole s t) (cluster : Nat) :
    Twins whole (s.volume.openAt cluster) (t.volume.openAt cluster) where
  volume := h.volume
  start := rfl
  failure := rfl
  ready := fun _ => ⟨⟨h.volume.coherent.1, fun h => absurd rfl h, fun h => absurd rfl h⟩,
    ⟨h.volume.coherent.2, fun h => absurd rfl h, fun h => absurd rfl h⟩⟩
  cluster := fun _ => rfl
  position := fun _ => rfl
  apart := h.apart
  faultless := h.faultless
  fits := h.fits

/-- Seeks and reads go through only on a cursor that has not failed. -/
theorem failure_of_seek {s : ChainStream} (hs : s.volume.drive.Coherent) (position : Nat) :
    Ends (seek position s) (fun _ t => t.failure = none) (fun _ _ => True) := by
  refine ends_guarded (fun _ _ => trivial) fun hf => ?_
  exact (ends_seekFrom position hs).mono (fun _ _ h => h.1.failure.trans hf) fun _ _ _ => trivial

theorem failure_of_readExact {s : ChainStream} (hs : s.Sound) (len : Nat) :
    Ends (readExact len s) (fun _ t => t.failure = none) (fun _ _ => True) :=
  ends_readExact hs len (fun _ _ => trivial) (fun hf _ _ h => h.moved.failure.trans hf)
    fun _ _ _ _ _ => trivial

end ChainStream

open ChainStream

/-! ## Whole runs -/

/-- Use the volume, a file being opened by its first cluster, and look at the position after it. -/
def Use.observe (u : Use Nat) : EStateM Error ChainStream (ByteArray × Nat) := do
  let data ← u.onChains ([·])
  return (data, (← get).position)

/-- A use that gets no further than the last word. -/
def Use.Fits : Use Nat → ChainStream → Prop
  | .openFile _, _ => True
  | .request r, s => r.Fits s

/-- A use that writes nothing. -/
def Use.OnlyReads : Use Nat → Prop
  | .request (.write _) | .request (.fill _ _) => False
  | _ => True

section Runs

variable {whole : Prop} {s t : ChainStream}

/-- Twins stay twins, whatever is done with a whole volume, and as long as a volume is only read. -/
theorem twins_use (u : Use Nat) (h : Twins whole s t) (hu : whole ∨ u.OnlyReads)
    (hfits : u.Fits t) :
    Matches (Twins whole) (u.onChains ([·]) s) (u.onChains ([·]) t)
      ∧ Ends (u.onChains ([·]) s) (fun _ s' => whole ∨ s'.failure = none) (fun _ _ => True) := by
  have hdone : ∀ s t : ChainStream, Twins whole s t → Matches (Twins whole)
      ((pure .empty : EStateM Error ChainStream ByteArray) s)
      ((pure .empty : EStateM Error ChainStream ByteArray) t) := fun s t h => ⟨rfl, h⟩
  have hwhole : whole → ∀ r : EStateM.Result Error ChainStream ByteArray,
      Ends r (fun _ s' => whole ∨ s'.failure = none) (fun _ _ => True) := by
    intro hw r
    cases r with
    | ok a s' => exact .inl hw
    | error e s' => trivial
  cases u with
  | openFile cluster => exact ⟨⟨rfl, h.openAt cluster⟩, .inr rfl⟩
  | request r =>
      cases r with
      | seek position =>
          refine ⟨(twins_seek h position.toNat).bind fun _ => hdone, ends_bind.mpr ?_⟩
          exact (failure_of_seek h.volume.coherent.1 position.toNat).mono (fun _ _ h => .inr h)
            fun _ _ h => h
      | read len =>
          have hs : s.Sound := ⟨h.volume.coherent.1, fun hnone => (h.ready hnone).1⟩
          exact ⟨twins_read h (h.within hfits),
            (failure_of_readExact hs len).mono (fun _ _ h => .inr h) fun _ _ h => h⟩
      | write data =>
          have hw := hu.resolve_right id
          exact ⟨(twins_write h hw (h.within hfits)).bind fun _ => hdone, hwhole hw _⟩
      | fill value len =>
          have hw := hu.resolve_right id
          exact ⟨(twins_fill hw value len h hfits).bind fun _ => hdone, hwhole hw _⟩

theorem twins_observe (u : Use Nat) (h : Twins whole s t) (hu : whole ∨ u.OnlyReads)
    (hfits : u.Fits t) : Matches (Twins whole) (u.observe s) (u.observe t) := by
  rcases twins_use u h hu hfits with ⟨hm, hends⟩
  unfold Use.observe
  cases hs : u.onChains ([·]) s with
  | ok data s' =>
      cases ht : u.onChains ([·]) t with
      | ok data' t' =>
          rw [hs, ht] at hm
          rw [bind_of_ok hs, bind_of_ok ht]
          cases hm.1
          have hposition : t'.position = s'.position := hm.2.position (hends.of_ok hs)
          refine ⟨?_, hm.2⟩
          show Except.ok (data, s'.position) = Except.ok (data, t'.position)
          rw [hposition]
      | error e t' =>
          rw [hs, ht] at hm
          cases hm.1
  | error e s' =>
      cases ht : u.onChains ([·]) t with
      | ok data' t' =>
          rw [hs, ht] at hm
          cases hm.1
      | error e' t' =>
          rw [hs, ht] at hm
          rw [bind_of_error hs, bind_of_error ht]
          cases hm.1
          exact ⟨rfl, hm.2⟩

variable {g : Geometry} {disk : Disk}

/-- One disk, whether runs are folded or not. -/
theorem twins_ofDisk (hd : disk.Steady) (hreach : g.OffsetsFit) (h : whole → g.TableApart
      ∧ disk.Faultless ∧ g.dataEnd ≤ disk.sectorCount) (first : Nat) :
    Twins whole ((Volume.ofDisk disk g true).openAt first)
      ((Volume.ofDisk disk g false).openAt first) where
  volume := ⟨rfl, hreach, .refl disk, hd,
    ⟨Drive.coherent_of_empty rfl, Drive.coherent_of_empty rfl⟩,
    ⟨Drive.renewable_of_empty rfl, Drive.renewable_of_empty rfl⟩⟩
  start := rfl
  failure := rfl
  ready := fun _ => ⟨⟨Drive.coherent_of_empty rfl, fun h => absurd rfl h, fun h => absurd rfl h⟩,
    ⟨Drive.coherent_of_empty rfl, fun h => absurd rfl h, fun h => absurd rfl h⟩⟩
  cluster := fun _ => rfl
  position := fun _ => rfl
  apart := fun hw => (h hw).1
  faultless := fun hw => (h hw).2.1
  fits := fun hw => (h hw).2.2

/-- **Folding cannot be observed.** On a device without faults that holds the table and the data,
the table lying outside the data area and all its entries within reach, every run within words
gives the same answers, the same bytes and the same positions, and leaves the same contents,
whether adjacent clusters are folded or not. If there are sectors that cannot be read, this is
still so of the answers, bytes and positions of every run that only reads. -/
theorem folding_unobservable (apart : g.TableApart) (hreach : g.OffsetsFit) (disk : Disk)
    (first : Nat) (uses : List (Use Nat))
    (hfits : Admits Use.observe Use.Fits uses ((Volume.ofDisk disk g false).openAt first)) :
    let run := fun foldRuns =>
      runAll Use.observe uses ((Volume.ofDisk disk g foldRuns).openAt first)
    (disk.Faultless → g.dataEnd ≤ disk.sectorCount →
        (run true).1 = (run false).1
          ∧ (run true).2.volume.disk.byte = (run false).2.volume.disk.byte)
      ∧ (disk.Steady → (∀ u ∈ uses, u.OnlyReads) → (run true).1 = (run false).1) := by
  intro run
  constructor
  · intro hd hend
    have hstart : Twins True ((Volume.ofDisk disk g true).openAt first)
        ((Volume.ofDisk disk g false).openAt first) :=
      twins_ofDisk hd.steady hreach (fun _ => ⟨apart, hd, hend⟩) first
    rcases runAll_matches (fun u s t h => twins_observe u h (.inl trivial)) uses hstart hfits
      with ⟨hanswers, hend⟩
    exact ⟨hanswers, hend.volume.medium.byte.symm⟩
  · intro hd hreads
    have hstart : Twins False ((Volume.ofDisk disk g true).openAt first)
        ((Volume.ofDisk disk g false).openAt first) :=
      twins_ofDisk hd hreach (fun h => h.elim) first
    exact (runAll_matches (fun u s t h hu => twins_observe u h (.inr hu.1) hu.2) uses hstart
      (hfits.and_mem hreads)).1

end Runs

/-- A device with one sector that cannot be read: the middle one of three linked clusters. -/
def flawedDisk : Disk where
  sectorCount := 4
  blank a := if a = 4 then 3 else if a = 6 then 4 else if 8 ≤ a ∧ a < 10 then 0xFF else 7
  faults := { failsSector := fun _ s => s = 2 }

/-- Over the small volumes: a write that runs past the end of a chain, and a read that runs into a
sector that cannot be read. -/
theorem small_folding_unobservable :
    let writes : List (Use Nat) := [.request (.write (.replicate 1500 7)), .openFile 2,
      .request (.read 1024)]
    let reads : List (Use Nat) := [.request (.read 1536), .openFile 2, .request (.read 512)]
    (runAll Use.observe writes ((Volume.ofDisk smallDisk smallGeometry true).openAt 2)).1
        = (runAll Use.observe writes ((Volume.ofDisk smallDisk smallGeometry false).openAt 2)).1
      ∧ (runAll Use.observe reads ((Volume.ofDisk flawedDisk smallGeometry true).openAt 2)).1
        = (runAll Use.observe reads
            ((Volume.ofDisk flawedDisk smallGeometry false).openAt 2)).1 := by
  intro writes reads
  have hreach : smallGeometry.OffsetsFit := nofun
  have hwrites : Admits Use.observe Use.Fits writes
      ((Volume.ofDisk smallDisk smallGeometry false).openAt 2) := by
    refine ⟨fun _ => ?_, trivial, fun _ => by decide, trivial⟩
    rw [ByteArray.size_replicate]
    decide
  have hreads : Admits Use.observe Use.Fits reads
      ((Volume.ofDisk flawedDisk smallGeometry false).openAt 2) :=
    ⟨fun _ => by decide, trivial, fun _ => by decide, trivial⟩
  have honly : ∀ u ∈ reads, u.OnlyReads := by
    intro u hu
    simp only [reads, List.mem_cons, List.not_mem_nil, or_false] at hu
    rcases hu with rfl | rfl | rfl <;> trivial
  exact ⟨((folding_unobservable smallGeometry_apart hreach smallDisk 2 writes hwrites).1
      smallDisk_faultless smallDisk_fits).1,
    (folding_unobservable smallGeometry_apart hreach flawedDisk 2 reads hreads).2 (fun _ => rfl)
      honly⟩

/-- The device with a packed entry too many, whose last sector cannot be read. -/
def flawedOverfullDisk : Disk :=
  { overfullDisk with faults := { failsSector := fun _ s => s = 0xAB2AAAAA } }

/-- Where an entry is out of reach folding shows. It is looked up before the data of its cluster is
read, and the loader stops; without folding the device refuses the data first. -/
theorem overfull_folding_shows :
    let uses : List (Use Nat) := [.request (.read 1024)]
    let run := fun foldRuns =>
      runAll Use.observe uses ((Volume.ofDisk flawedOverfullDisk overfullGeometry foldRuns).openAt
        0xAAAAAAAA)
    overfullGeometry.TableApart ∧ flawedOverfullDisk.Steady ∧ (∀ u ∈ uses, u.OnlyReads)
      ∧ (run true).1 = [.error .overflow] ∧ (run false).1 = [.error (.device 1)] := by
  intro uses run
  have honly : ∀ u ∈ uses, u.OnlyReads := by
    intro u hu
    rw [List.mem_singleton.mp hu]
    trivial
  refine ⟨?_, fun _ => rfl, honly, ?_⟩
  · show overfullGeometry.tableEnd ≤ overfullGeometry.dataBase
    decide
  · with_unfolding_all exact ⟨rfl, rfl⟩

end CartBoot
