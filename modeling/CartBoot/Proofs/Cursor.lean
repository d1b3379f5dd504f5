import CartBoot.Proofs.Walk
import CartBoot.Stream.Chain

/-!
# A cursor on its walk

What a cursor is about to do, said through the walk from where it stands. Its next
span covers the bytes of the medium that the walk names next, one after the other,
and leaves the cursor's cluster where the walk leads; runs of folded clusters are
straight pieces of the walk. If there is no next span, either the walk breaks off
right here, or the device failed, or the entry of a cluster on the way is out of
reach.

A device fails for a reason: because it has faults, or because a cluster that the
walk passes is not on it.
-/

namespace CartBoot

open Fat

namespace Fat.Geometry

/-- The sectors of a cluster and of its table entry are on the device. -/
structure OnDevice (g : Geometry) (d : Disk) (cluster : Nat) : Prop where
  entry : ∀ s ∈ g.entrySectors cluster, s < d.sectorCount
  data : g.firstSector cluster + g.clusterSize ≤ d.sectorCount

theorem onDevice_same {g : Geometry} {d e : Disk} {cluster : Nat} (h : d.SameMedium e) :
    g.OnDevice e cluster ↔ g.OnDevice d cluster := by
  constructor
  · intro hdev
    exact ⟨fun s hs => h.sectorCount ▸ hdev.entry s hs, h.sectorCount ▸ hdev.data⟩
  · intro hdev
    exact ⟨fun s hs => h.sectorCount ▸ hdev.entry s hs, h.sectorCount ▸ hdev.data⟩

theorem legible_same {g : Geometry} {d e : Disk} {cluster : Nat} (h : d.SameMedium e) :
    g.Legible e cluster ↔ g.Legible d cluster :=
  forall₂_congr fun s _ => h.readable_iff s

theorem Unread.same {g : Geometry} {d d' : Disk} {cluster : Nat} {e : Error}
    (h : g.Unread d' cluster e) (hm : d.SameMedium d') : g.Unread d cluster e := by
  cases h with
  | refused hwhy =>
      rw [hm.faults]
      exact .refused fun hd hlegible => hwhy (hm.steady hd) ((legible_same hm).mpr hlegible)
  | overflow hunfit => exact .overflow hunfit

/-- On a device without faults the entry of a cluster that is there can be read. -/
theorem OnDevice.legible {g : Geometry} {d : Disk} {cluster : Nat} (h : g.OnDevice d cluster)
    (hd : d.Faultless) : g.Legible d cluster := fun s hs => ⟨h.entry s hs, hd.sector .read s⟩

theorem not_onDevice {g : Geometry} {d : Disk} {cluster : Nat}
    (h : d.Steady → ¬ g.Legible d cluster) (hd : d.Faultless) : ¬ g.OnDevice d cluster :=
  fun hdev => h hd.steady (hdev.legible hd)

/-- On a device without faults the bytes of a cluster that is there can be read. -/
theorem OnDevice.readable {g : Geometry} {d : Disk} {cluster : Nat} (h : g.OnDevice d cluster)
    (hd : d.Faultless) (position : Nat) :
    d.Readable (g.byteAddress cluster position / sectorSize) := by
  have hlt := g.mod_clusterBytes_div_lt position
  have hend := h.data
  rw [byteAddress_div]
  exact ⟨by omega, hd.sector .read _⟩

/-- The table leads on from a cluster: its entry is neither free nor reserved. Whether there is such
a cluster is another question. -/
def LeadsOn (g : Geometry) (byte : Nat → UInt8) (cluster : Nat) : Prop :=
  g.HasCluster cluster ∧ 2 ≤ g.tableEntry byte cluster

theorem mod_clusterBytes (g : Geometry) (position : Nat) : position % g.clusterBytes =
    position % sectorSize + sectorSize * ChainStream.sectorIndex g position := by
  rw [clusterBytes_eq, Nat.mod_mul]
  rfl

theorem sectorIndex_eq_zero_iff {g : Geometry} {position : Nat} (hp : position % sectorSize = 0) :
    ChainStream.sectorIndex g position = 0 ↔ position % g.clusterBytes = 0 := by
  rw [mod_clusterBytes, hp]
  unfold sectorSize
  omega

end Fat.Geometry

namespace Span

variable {left : Nat}

/-- The address of the first byte of a span. -/
def address : Span left → Nat
  | whole sector _ _ _ => sectorSize * sector
  | part sector offset _ _ _ _ => sectorSize * sector + offset

end Span

namespace ChainStream

section Lift

variable {α : Type} {s : ChainStream} {done : α → ChainStream → Prop}
  {failed : Error → ChainStream → Prop}

theorem ends_onVolume {access : EStateM Error Volume α} :
    Ends (onVolume access s) done failed ↔
      Ends (access s.volume) (fun a v => done a { s with volume := v })
        (fun e v => failed e { s with volume := v }) := by
  obtain ⟨volume, start, cluster, sector, position, failure⟩ := s
  unfold onVolume
  dsimp only
  cases access volume <;> exact Iff.rfl

theorem ends_onDrive {access : EStateM Error Drive α} :
    Ends (onDrive access s) done failed ↔
      Ends (access s.volume.drive)
        (fun a d => done a { s with volume := { s.volume with drive := d } })
        (fun e d => failed e { s with volume := { s.volume with drive := d } }) := by
  unfold onDrive
  rw [ends_onVolume, Volume.ends_onDrive]

end Lift

/-! ## What is ahead of a cursor -/

/-- The walk from where a cursor stands. -/
def walk? (s : ChainStream) (n : Nat) : Option Nat :=
  s.volume.geometry.walk? s.volume.disk.byte s.cluster s.position n

/-- Where the bytes ahead of a cursor are. -/
def spot? (s : ChainStream) (i : Nat) : Option Nat :=
  s.volume.geometry.spot? s.volume.disk.byte s.cluster s.position i

/-- A cursor that can be worked with: the window agrees with the medium, and inside a sector the
cursor knows which one it is. -/
structure Ready (s : ChainStream) : Prop where
  coherent : s.volume.drive.Coherent
  cluster : s.position % sectorSize ≠ 0 → s.volume.geometry.HasCluster s.cluster
  sector : s.position % sectorSize ≠ 0 →
    s.sector = s.volume.geometry.firstSector s.cluster
      + sectorIndex s.volume.geometry s.position

/-- Among the clusters of the next `n` bytes there is one that the device does not hold. -/
def Missing (s : ChainStream) (n : Nat) : Prop :=
  ∃ i c, i ≤ n ∧ s.walk? i = some c ∧ s.volume.geometry.HasCluster c
    ∧ ¬ s.volume.geometry.OnDevice s.volume.disk c

/-- Byte number `i` ahead begins a cluster, and the table entry that leads there is the one of a
cluster of which `P` holds. -/
structure Enters (s : ChainStream) (P : Nat → Prop) (i : Nat) : Prop where
  boundary : s.position + i ≠ 0 ∧ (s.position + i) % s.volume.geometry.clusterBytes = 0
  entry : ∃ c, s.walk? i = some c ∧ s.volume.geometry.HasCluster c ∧ P c

/-- The table entry that leads to byte number `i` ahead cannot be read. -/
abbrev Illegible (s : ChainStream) (i : Nat) : Prop :=
  s.Enters (fun c => ¬ s.volume.geometry.Legible s.volume.disk c) i

/-- The table entry that leads to byte number `i` ahead is out of reach. -/
abbrev OutOfReach (s : ChainStream) (i : Nat) : Prop :=
  s.Enters (fun c => ¬ s.volume.geometry.OffsetFits c) i

theorem not_outOfReach {s : ChainStream} (h : s.volume.geometry.OffsetsFit) (i : Nat) :
    ¬ s.OutOfReach i := by
  rintro ⟨_, c, _, hc, hunfit⟩
  exact hunfit (h.offsetFits hc)

/-- Byte number `i` ahead lies in a sector that cannot be read. -/
def Unreadable (s : ChainStream) (i : Nat) : Prop :=
  ∃ a, s.spot? i = some a ∧ ¬ s.volume.disk.Readable (a / sectorSize)

/-- Something that is to be read on the way to byte number `i`, and for it, cannot be read. -/
def Obstacle (s : ChainStream) (i : Nat) : Prop :=
  s.Illegible i ∨ s.Unreadable i

/-- On a device without faults there are no obstacles but clusters that are not there. -/
theorem Obstacle.missing {s : ChainStream} {i n : Nat} (h : s.Obstacle i) (hi : i < n)
    (hd : s.volume.disk.Faultless) : s.Missing n := by
  rcases h with ⟨_, c, hwalk, hc, hlegible⟩ | ⟨a, hspot, hreadable⟩
  · exact ⟨i, c, Nat.le_of_lt hi, hwalk, hc, fun hdev => hlegible (hdev.legible hd)⟩
  · unfold spot? Geometry.spot? at hspot
    rcases Option.map_eq_some_iff.mp hspot with ⟨c, hwalk, rfl⟩
    exact ⟨i + 1, c, hi, hwalk, Geometry.hasCluster_of_walk? hwalk,
      fun hdev => hreadable (hdev.readable hd _)⟩

/-- How a transfer of `n` bytes can break off after `m` of them. -/
inductive Breaks (s : ChainStream) (direction : Direction) (n m : Nat) : Error → Prop where
  /-- The chain goes no further, and the table says so. What was moved on the way ends at a word. -/
  | chain {c : Nat} : m < n → s.walk? m = some c → s.walk? (m + 1) = none →
      (s.volume.drive.Renewable → ¬ s.Illegible m) → (0 < m → s.position + m < wordLimit) →
      Breaks s direction n m .integrity
  /-- Something cannot be read. -/
  | read : (s.volume.disk.Steady → ∃ i, i < n ∧ s.Obstacle i) →
      Breaks s direction n m (.device s.volume.disk.faults.code)
  /-- Something cannot be written, for a reason. -/
  | write : direction = .write → (s.volume.disk.Faultless → s.Missing n) →
      Breaks s direction n m (.device s.volume.disk.faults.code)
  /-- The chain goes on where a position is no word. -/
  | position {j c : Nat} : j ≤ n → s.walk? j = some c → ¬ s.position + j < wordLimit →
      Breaks s direction n m .overflow
  /-- An entry is out of reach. -/
  | offset {i : Nat} : i < n → s.OutOfReach i → Breaks s direction n m .overflow

/-- An entry on the way that is not read is a reason to break off. -/
theorem Breaks.of_unread {s : ChainStream} {direction : Direction} {i n m c : Nat} {e : Error}
    (hi : i < n) (henters : s.Enters (· = c) i)
    (h : s.volume.geometry.Unread s.volume.disk c e) : s.Breaks direction n m e := by
  obtain ⟨hb, _, hwalk, hc, rfl⟩ := henters
  cases h with
  | refused hwhy => exact .read fun hd => ⟨i, hi, .inl ⟨hb, _, hwalk, hc, hwhy hd⟩⟩
  | overflow hunfit => exact .offset hi ⟨hb, _, hwalk, hc, hunfit⟩

/-- A transfer that ends with a failure of the device, though it has no faults, runs off it. -/
theorem Breaks.missing {s : ChainStream} {direction : Direction} {n m : Nat} {code : UInt8}
    (h : s.Breaks direction n m (.device code)) (hd : s.volume.disk.Faultless) : s.Missing n := by
  cases h with
  | read hwhy =>
      rcases hwhy hd.steady with ⟨i, hi, hobstacle⟩
      exact hobstacle.missing hi hd
  | write _ hwhy => exact hwhy hd

/-- `t` is the same cursor, in another place, after nothing but reads. -/
structure Moved (s t : ChainStream) : Prop where
  volume : s.volume.Reads t.volume
  start : t.start = s.start
  failure : t.failure = s.failure

theorem Moved.trans {s t u : ChainStream} (h : s.Moved t) (h' : t.Moved u) : s.Moved u :=
  ⟨h.volume.trans h'.volume, h'.start.trans h.start, h'.failure.trans h.failure⟩

/-- `t` is the same cursor after nothing but reads that did not move it on. -/
structure Looked (s t : ChainStream) : Prop extends s.Moved t where
  position : t.position = s.position

/-! ## Following the table -/

theorem ends_entry {s : ChainStream} (hs : s.volume.drive.Coherent) (cluster : Nat) :
    Ends ( entry? cluster s)
      (fun next t => (∃ w, s.volume.Reads w ∧ t = { s with volume := w })
        ∧ (next = if s.volume.geometry.HasCluster cluster then
            some (s.volume.geometry.tableEntry s.volume.disk.byte cluster) else none)
        ∧ (s.volume.geometry.HasCluster cluster → s.volume.drive.Renewable →
          s.volume.geometry.Legible s.volume.disk cluster))
      (fun e t => s.Looked t ∧ s.volume.geometry.HasCluster cluster
        ∧ s.volume.geometry.Unread s.volume.disk cluster e) := by
  unfold entry?
  by_cases hc : s.volume.geometry.HasCluster cluster
  · have h := Volume.ends_nextCluster hs hc
    unfold onVolume
    cases hr : Volume.nextCluster cluster s.volume with
    | ok n w =>
        obtain ⟨hn, hw, _, hlegible⟩ := h.of_ok hr
        simp only [hr, ends_ok]
        exact ⟨⟨w, hw, rfl⟩, by rw [if_pos hc, hn], fun _ => hlegible⟩
    | error e w =>
        obtain ⟨hw, hunread⟩ := h.of_error hr
        cases hunread with
        | refused hwhy =>
            simp only [hr, ends_error]
            exact ⟨⟨⟨hw, rfl, rfl⟩, rfl⟩, hc, .refused hwhy⟩
        | overflow hunfit =>
            simp only [hr, ends_error]
            exact ⟨⟨⟨hw, rfl, rfl⟩, rfl⟩, hc, .overflow hunfit⟩
  · unfold onVolume
    simp only [Volume.nextCluster_invalid hc, ends_ok]
    exact ⟨⟨s.volume, .refl hs, rfl⟩, by rw [if_neg hc], fun h => absurd h hc⟩

/-- What the table leads to from a cluster, if it leads anywhere. -/
theorem ends_follow {s : ChainStream} (hs : s.volume.drive.Coherent) (cluster : Nat) :
    Ends (follow cluster s)
      (fun next t => (∃ w, s.volume.Reads w ∧ t = { s with volume := w })
        ∧ s.volume.geometry.LeadsOn s.volume.disk.byte cluster
        ∧ next = s.volume.geometry.tableEntry s.volume.disk.byte cluster
        ∧ (s.volume.drive.Renewable → s.volume.geometry.Legible s.volume.disk cluster))
      (fun e t => s.Looked t
        ∧ ((e = .integrity ∧ ¬ s.volume.geometry.LeadsOn s.volume.disk.byte cluster
            ∧ (s.volume.geometry.HasCluster cluster → s.volume.drive.Renewable →
              s.volume.geometry.Legible s.volume.disk cluster))
          ∨ (s.volume.geometry.HasCluster cluster
            ∧ s.volume.geometry.Unread s.volume.disk cluster e))) := by
  unfold follow
  rw [ends_bind]
  refine (ends_entry hs cluster).mono ?_ ?_
  · intro next t h
    obtain ⟨⟨w, hw, rfl⟩, hnext, hlegible⟩ := h
    have hm : s.Looked { s with volume := w } := ⟨⟨hw, rfl, rfl⟩, rfl⟩
    by_cases hc : s.volume.geometry.HasCluster cluster
    · rw [if_pos hc] at hnext
      subst hnext
      dsimp only
      split
      · rename_i h2
        exact ⟨⟨w, hw, rfl⟩, ⟨hc, h2⟩, rfl, hlegible hc⟩
      · rename_i h2
        exact ⟨hm, .inl ⟨rfl, fun h => h2 h.2, hlegible⟩⟩
    · rw [if_neg hc] at hnext
      subst hnext
      exact ⟨hm, .inl ⟨rfl, fun h => hc h.1, hlegible⟩⟩
  · intro e t h
    exact ⟨h.1, .inr h.2⟩

theorem ends_clusterSector (s : ChainStream) (cluster : Nat) :
    Ends (clusterSector cluster s)
      (fun sector t => t = s ∧ s.volume.geometry.HasCluster cluster
        ∧ sector = s.volume.geometry.firstSector cluster)
      (fun e t => t = s ∧ ¬ s.volume.geometry.HasCluster cluster ∧ e = .integrity) := by
  unfold clusterSector
  rw [ends_bind, ends_get]
  by_cases hc : s.volume.geometry.HasCluster cluster
  · rw [Geometry.firstSector?_eq_some hc]
    exact ⟨rfl, hc, rfl⟩
  · rw [Geometry.firstSector?_eq_none hc]
    exact ⟨rfl, hc, rfl⟩

/-- At a sector boundary a cursor enters the cluster of its next byte. -/
theorem ends_enterSector {s : ChainStream} (hs : s.volume.drive.Coherent)
    (hp : s.position % sectorSize = 0) {n : Nat} (hn : 0 < n) (direction : Direction) :
    Ends (enterSector (sectorIndex s.volume.geometry s.position) s)
      (fun sector t => ∃ w c, s.volume.Reads w ∧ t = { s with volume := w, cluster := c }
        ∧ s.volume.geometry.holder? s.volume.disk.byte s.cluster s.position = some c
        ∧ sector = s.volume.geometry.firstSector c + sectorIndex s.volume.geometry s.position
        ∧ (s.volume.drive.Renewable → ¬ s.Illegible 0))
      (fun e t => s.Looked t ∧ s.Breaks direction n 0 e) := by
  unfold enterSector
  rw [ends_bind, ends_get]
  dsimp only
  have hindex := Geometry.sectorIndex_eq_zero_iff (g := s.volume.geometry) hp
  by_cases hb : sectorIndex s.volume.geometry s.position = 0 ∧ s.position ≠ 0
  · -- a cluster boundary: the next byte is in the cluster that the table names
    have hb' : s.position ≠ 0 ∧ s.position % s.volume.geometry.clusterBytes = 0 :=
      ⟨hb.2, hindex.mp hb.1⟩
    have hclear : (s.volume.geometry.HasCluster s.cluster → s.volume.drive.Renewable →
        s.volume.geometry.Legible s.volume.disk s.cluster) →
        s.volume.drive.Renewable → ¬ s.Illegible 0 := by
      intro hlegible hr hill
      rcases hill.entry with ⟨c, hwalk, hc, hnot⟩
      cases hwalk
      exact hnot (hlegible hc hr)
    rw [if_pos hb, ends_bind]
    refine (ends_follow hs s.cluster).mono ?_ ?_
    · intro next t h
      obtain ⟨⟨w, hw, rfl⟩, ⟨hc, _⟩, rfl, hlegible⟩ := h
      replace hclear := hclear fun _ => hlegible
      simp only [ends_bind, ends_modify, ends_get, ends_pure]
      refine (ends_clusterSector _ _).mono ?_ ?_
      · intro sector t h
        obtain ⟨rfl, hnext, rfl⟩ := h
        replace hnext := hw.geometry ▸ hnext
        refine ⟨w, _, hw, rfl, ?_, by rw [hw.geometry], hclear⟩
        rw [Geometry.holder?_boundary hb']
        exact if_pos ⟨hc, hnext⟩
      · intro e t h
        obtain ⟨rfl, hnext, rfl⟩ := h
        refine ⟨⟨⟨hw, rfl, rfl⟩, rfl⟩, .chain hn rfl ?_ hclear (absurd · (Nat.lt_irrefl 0))⟩
        refine (Geometry.holder?_boundary hb').trans (if_neg fun h => hnext ?_)
        rw [hw.geometry]
        exact h.2
    · intro e t h
      obtain ⟨hm, h⟩ := h
      refine ⟨hm, ?_⟩
      rcases h with ⟨rfl, hnext, hlegible⟩ | ⟨hc, hunread⟩
      · refine .chain hn rfl ?_ (hclear hlegible) (absurd · (Nat.lt_irrefl 0))
        exact (Geometry.holder?_boundary hb').trans (if_neg fun h => hnext ⟨h.1, h.2.1⟩)
      · exact .of_unread hn ⟨hb', s.cluster, rfl, hc, rfl⟩ hunread
  · have hb' : ¬ (s.position ≠ 0 ∧ s.position % s.volume.geometry.clusterBytes = 0) :=
      fun h => hb ⟨hindex.mpr h.2, h.1⟩
    have hclear : s.volume.drive.Renewable → ¬ s.Illegible 0 := fun _ h => hb' h.boundary
    rw [if_neg hb]
    simp only [ends_bind, ends_get, ends_pure]
    refine (ends_clusterSector s s.cluster).mono ?_ ?_
    · intro sector t h
      obtain ⟨rfl, hc, rfl⟩ := h
      refine ⟨t.volume, t.cluster, .refl hs, rfl, ?_, rfl, hclear⟩
      rw [Geometry.holder?_within hb', if_pos hc]
    · intro e t h
      obtain ⟨rfl, hc, rfl⟩ := h
      refine ⟨⟨⟨.refl hs, rfl, rfl⟩, rfl⟩, .chain hn rfl ?_ hclear (absurd · (Nat.lt_irrefl 0))⟩
      exact (Geometry.holder?_within hb').trans (if_neg hc)

/-! ## Folding -/

section Fold

variable {g : Geometry} {goal run j : Nat} {s t : ChainStream} {w : Volume} {e : Error}

/-- `t` is `s` with `j` clusters folded: as many as are wanted, or all that are linked. -/
structure Folded (g : Geometry) (goal run : Nat) (s : ChainStream) (j : Nat) (t : ChainStream) :
    Prop where
  reads : ∃ w, s.volume.Reads w ∧ t = { s with volume := w, cluster := s.cluster + j }
  linked : ∀ m, m < j → g.Linked s.volume.disk.byte (s.cluster + m)
  wanted : ∀ m, m < j → run + g.clusterSize * m < goal
  legible : s.volume.drive.Renewable → ∀ m, m < j → g.Legible s.volume.disk (s.cluster + m)
  stop : run + g.clusterSize * j < goal → ¬ g.Linked s.volume.disk.byte (s.cluster + j)

/-- A link that is wanted could not be read. -/
structure FoldFails (g : Geometry) (goal run : Nat) (s : ChainStream) (e : Error)
    (t : ChainStream) : Prop where
  looked : s.Looked t
  link : ∃ m, (∀ k, k < m → g.Linked s.volume.disk.byte (s.cluster + k))
    ∧ run + g.clusterSize * m < goal ∧ g.HasCluster (s.cluster + m)
    ∧ g.Unread s.volume.disk (s.cluster + m) e

theorem folded_zero (hw : s.volume.Reads w)
    (hstop : run < goal → ¬ g.Linked s.volume.disk.byte s.cluster) :
    Folded g goal run s 0 { s with volume := w } where
  reads := ⟨w, hw, rfl⟩
  linked := fun m hm => absurd hm (Nat.not_lt_zero m)
  wanted := fun m hm => absurd hm (Nat.not_lt_zero m)
  legible := fun _ m hm => absurd hm (Nat.not_lt_zero m)
  stop := hstop

/-- One more cluster, before those folded after it. -/
theorem Folded.cons (hw : s.volume.Reads w) (hl : g.Linked s.volume.disk.byte s.cluster)
    (hlt : run < goal)
    (hlegible : s.volume.drive.Renewable → g.Legible s.volume.disk s.cluster)
    (h : Folded g goal (run + g.clusterSize) { s with volume := w, cluster := s.cluster + 1 } j t) :
    Folded g goal run s (j + 1) t := by
  have hm : s.volume.disk.SameMedium w.disk := hw.drive.medium
  have hadd : ∀ m, s.cluster + 1 + m = s.cluster + (m + 1) := fun m => by omega
  refine ⟨?_, hl.cons fun k hk => hm.byte ▸ h.linked k hk, fun m hmj => ?_, fun hr m hmj => ?_,
    fun hgoal => ?_⟩
  · obtain ⟨u, hu, rfl⟩ := h.reads
    exact ⟨u, hw.trans hu, by rw [← hadd j]⟩
  · cases m with
    | zero => exact hlt
    | succ m =>
        have hgoal := h.wanted m (by omega)
        rw [Nat.mul_succ]
        omega
  · cases m with
    | zero => exact hlegible hr
    | succ m =>
        rw [← hadd]
        exact (Geometry.legible_same hm).mp (h.legible (hw.drive.renewable hr) m (by omega))
  · rw [Nat.mul_succ] at hgoal
    rw [← hadd, ← hm.byte]
    exact h.stop (by omega)

theorem FoldFails.cons (hw : s.volume.Reads w) (hl : g.Linked s.volume.disk.byte s.cluster)
    (h : FoldFails g goal (run + g.clusterSize) { s with volume := w, cluster := s.cluster + 1 }
      e t) :
    FoldFails g goal run s e t := by
  have hm : s.volume.disk.SameMedium w.disk := hw.drive.medium
  obtain ⟨hmoved, hposition⟩ := h.looked
  obtain ⟨m, hrest, hgoal, hhas, hunread⟩ := h.link
  refine ⟨⟨⟨hw.trans hmoved.volume, hmoved.start, hmoved.failure⟩, hposition⟩, m + 1,
    hl.cons fun k hk => hm.byte ▸ hrest k hk, ?_⟩
  rw [show s.cluster + (m + 1) = s.cluster + 1 + m by omega, Nat.mul_succ]
  exact ⟨by omega, hhas, hunread.same hm⟩

/-- Folding goes through linked clusters, as far as they are wanted. -/
theorem ends_foldRun (run : Nat) (hg : s.volume.geometry = g) (hs : s.volume.drive.Coherent) :
    Ends (foldRun g goal run s) (fun j t => Folded g goal run s j t)
      (fun e t => FoldFails g goal run s e t) := by
  induction hn : goal - run using Nat.strongRecOn generalizing run s with
  | ind n ih =>
      have hpos := g.clusterSize_pos
      rw [foldRun]
      split
      · rename_i hlt
        rw [ends_bind, ends_get, ends_bind]
        refine (ends_entry hs s.cluster).mono ?_ ?_
        · intro next t h
          obtain ⟨⟨w, hw, rfl⟩, hnext, hlegible⟩ := h
          rw [hg] at hnext hlegible
          by_cases hc : g.HasCluster s.cluster
          · rw [if_pos hc] at hnext
            subst hnext
            dsimp only
            split
            · -- one more cluster, and the links after it
              rename_i hlink
              obtain ⟨hentry, hhas⟩ := hlink
              rw [hentry] at hhas ⊢
              have hl : g.Linked s.volume.disk.byte s.cluster := ⟨hc, hentry, hhas⟩
              simp only [ends_bind, ends_modify, ends_pure]
              exact (ih _ (by omega) (run + g.clusterSize) (hw.geometry.trans hg)
                hw.drive.coherent rfl).mono (fun _ _ h => h.cons hw hl hlt (hlegible hc))
                fun _ _ h => h.cons hw hl
            · rename_i hno
              refine folded_zero hw fun _ hl => hno ?_
              rw [hl.entry]
              exact ⟨rfl, hl.next⟩
          · rw [if_neg hc] at hnext
            subst hnext
            exact folded_zero hw fun _ hl => hc hl.has
        · -- the look-up failed: nothing was folded after it
          intro e t h
          obtain ⟨hlooked, hc, hunread⟩ := h
          rw [hg] at hc hunread
          exact ⟨hlooked, 0, fun k hk => absurd hk (Nat.not_lt_zero k), hlt, hc, hunread⟩
      · rename_i hdone
        exact folded_zero (.refl hs) fun hgoal => absurd hgoal hdone

end Fold

/-! ## The next span -/

/-- `t` is `s` with its next span resolved. -/
structure Aims (s t : ChainStream) {left : Nat} (span : Span left) : Prop where
  moved : s.Moved t
  position : t.position = s.position
  /-- The span covers what the walk names. -/
  spot : ∀ i, i < span.size → s.spot? i = some (span.address + i)
  /-- The cluster is where the span ends. -/
  walk : s.walk? span.size = some t.cluster
  /-- The table could be read on the way. -/
  clear : s.volume.drive.Renewable → ∀ i, i < span.size → ¬ s.Illegible i
  /-- Inside a sector the cursor knows which one it is. -/
  sector : (s.position + span.size) % sectorSize ≠ 0 →
    t.sector = s.volume.geometry.firstSector t.cluster
      + sectorIndex s.volume.geometry (s.position + span.size)
  /-- Whole sectors go past the window. With folding they are all that are wanted, or as many as the
  walk goes straight for. -/
  bulk : s.position % sectorSize = 0 → sectorSize ≤ left →
    ∃ sector count pos fits, span = .whole sector count pos fits
      ∧ (s.volume.foldRuns → left < sectorSize * (count + 1)
        ∨ s.spot? (sectorSize * count) ≠ some (sectorSize * (sector + count)))

/-- A span over a straight piece of the walk. -/
theorem aims_of_run {s : ChainStream} {left c j : Nat} (span : Span left)
    (h : s.volume.geometry.holder? s.volume.disk.byte s.cluster s.position = some c)
    (hl : ∀ m, m < j → s.volume.geometry.Linked s.volume.disk.byte (c + m))
    (hfirst : s.volume.drive.Renewable → ¬ s.Illegible 0)
    (hlegible : s.volume.drive.Renewable → ∀ m, m < j →
      s.volume.geometry.Legible s.volume.disk (c + m))
    (ha : span.address = sectorSize * s.volume.geometry.firstSector c
      + s.position % s.volume.geometry.clusterBytes)
    (hlow : s.volume.geometry.clusterBytes * j
      < s.position % s.volume.geometry.clusterBytes + span.size)
    (hhigh : s.position % s.volume.geometry.clusterBytes + span.size
      ≤ s.volume.geometry.clusterBytes * (j + 1)) :
    (∀ i, i < span.size → s.spot? i = some (span.address + i))
      ∧ s.walk? span.size = some (c + j)
      ∧ (s.volume.drive.Renewable → ∀ i, i < span.size → ¬ s.Illegible i) := by
  refine ⟨?_, ?_, ?_⟩
  · intro i hi
    rw [ha]
    exact Geometry.spot?_run h hl i (by omega)
  · have hsize := span.size_pos
    have hdiv : (s.position % s.volume.geometry.clusterBytes + (span.size - 1))
        / s.volume.geometry.clusterBytes = j :=
      Nat.div_eq_of_lt_le (by rw [Nat.mul_comm]; omega) (by rw [Nat.mul_comm]; omega)
    have hwalk := Geometry.walk?_run h hl (span.size - 1) (by omega)
    rw [Nat.sub_add_cancel hsize, hdiv] at hwalk
    exact hwalk
  · intro hr i hi hill
    cases i with
    | zero => exact hfirst hr hill
    | succ i =>
        -- a new cluster is entered from one whose entry was looked up
        obtain ⟨m, hm, hwalk⟩ := Geometry.walk?_run_boundary h hl (Nat.succ_pos i) (by omega)
          hill.boundary.2
        obtain ⟨d, hd, _, hnot⟩ := hill.entry
        unfold walk? at hd
        rw [hwalk] at hd
        cases hd
        exact hnot (hlegible hr m hm)

/-- A link that is wanted while clusters are folded is one that the transfer needs. -/
theorem enters_of_run {s : ChainStream} {left c m : Nat}
    (h : s.volume.geometry.holder? s.volume.disk.byte s.cluster s.position = some c)
    (hl : ∀ k, k < m → s.volume.geometry.Linked s.volume.disk.byte (c + k))
    (hgoal : s.volume.geometry.clusterBytes * (m + 1)
      < s.position % s.volume.geometry.clusterBytes + left)
    (hhas : s.volume.geometry.HasCluster (c + m)) : ∃ i, i < left ∧ s.Enters (· = c + m) i := by
  have hr : s.position % s.volume.geometry.clusterBytes < s.volume.geometry.clusterBytes :=
    Nat.mod_lt _ s.volume.geometry.clusterBytes_pos
  have hmul := Nat.mul_add_one s.volume.geometry.clusterBytes m
  have hdm := Nat.div_add_mod s.position s.volume.geometry.clusterBytes
  -- the byte after the cluster
  refine ⟨s.volume.geometry.clusterBytes * (m + 1) - s.position % s.volume.geometry.clusterBytes,
    by omega, ⟨by omega, ?_⟩, c + m, ?_, hhas, rfl⟩
  · have hsum : s.position + (s.volume.geometry.clusterBytes * (m + 1)
        - s.position % s.volume.geometry.clusterBytes)
        = s.volume.geometry.clusterBytes * (s.position / s.volume.geometry.clusterBytes)
          + s.volume.geometry.clusterBytes * (m + 1) := by omega
    rw [hsum, ← Nat.mul_add]
    exact Nat.mul_mod_right _ _
  · have hwalk := Geometry.walk?_run h hl
      (s.volume.geometry.clusterBytes * m + s.volume.geometry.clusterBytes - 1
        - s.position % s.volume.geometry.clusterBytes) (by omega)
    have hlast : s.position % s.volume.geometry.clusterBytes
        + (s.volume.geometry.clusterBytes * m + s.volume.geometry.clusterBytes - 1
          - s.position % s.volume.geometry.clusterBytes)
        = m * s.volume.geometry.clusterBytes + (s.volume.geometry.clusterBytes - 1) := by
      rw [Nat.mul_comm m]
      omega
    have hdiv : (m * s.volume.geometry.clusterBytes + (s.volume.geometry.clusterBytes - 1))
        / s.volume.geometry.clusterBytes = m :=
      Nat.div_eq_of_lt_le (Nat.le_add_right _ _) (by rw [Nat.succ_mul]; omega)
    rw [hlast, hdiv] at hwalk
    unfold walk?
    rw [← hwalk]
    congr 1
    omega

/-- The walk does not go straight on from the last cluster folded, unless all that is wanted is
there. -/
theorem stop_of_run {s : ChainStream} {left c j count : Nat}
    (hoff : s.position % sectorSize = 0)
    (hc : s.volume.geometry.holder? s.volume.disk.byte s.cluster s.position = some c)
    (hhas : s.volume.geometry.HasCluster (c + j))
    (hpos : 0 < count) (hwalk : s.walk? (sectorSize * count) = some (c + j))
    (hcount : count = min (left / sectorSize)
      (s.volume.geometry.clusterSize * (j + 1) - sectorIndex s.volume.geometry s.position))
    (hstop : s.volume.geometry.clusterSize * (j + 1)
        < sectorIndex s.volume.geometry s.position + left / sectorSize →
      ¬ s.volume.geometry.Linked s.volume.disk.byte (c + j)) :
    left < sectorSize * (count + 1)
      ∨ s.spot? (sectorSize * count) ≠ some (sectorSize * (s.volume.geometry.firstSector c
        + sectorIndex s.volume.geometry s.position + count)) := by
  have hindex := sectorIndex_lt s.volume.geometry s.position
  have hsucc := Nat.mul_add_one s.volume.geometry.clusterSize j
  by_cases hmore : s.volume.geometry.clusterSize * (j + 1)
      < sectorIndex s.volume.geometry s.position + left / sectorSize
  · right
    -- the run ends with its last cluster
    have hend : sectorIndex s.volume.geometry s.position + count
        = s.volume.geometry.clusterSize * (j + 1) := by omega
    have hmod : s.position % s.volume.geometry.clusterBytes + sectorSize * count
        = s.volume.geometry.clusterBytes * (j + 1) := by
      rw [s.volume.geometry.mod_clusterBytes, hoff, Nat.zero_add, ← Nat.mul_add, hend,
        s.volume.geometry.clusterBytes_eq, Nat.mul_assoc]
    have hb : (s.position + sectorSize * count) % s.volume.geometry.clusterBytes = 0 := by
      rw [← Nat.mod_add_mod, hmod]
      exact Nat.mul_mod_right _ _
    have hsize := Nat.mul_pos sectorSize_pos hpos
    have hne := Geometry.spot?_ne_of_not_linked hhas hwalk ⟨by omega, hb⟩ (hstop hmore)
    rwa [s.volume.geometry.firstSector_add (Geometry.hasCluster_of_holder? hc).1, Nat.add_assoc,
      ← hsucc, ← hend, ← Nat.add_assoc] at hne
  · left
    have hall : count = left / sectorSize := by omega
    rw [hall]
    exact Nat.lt_mul_div_succ left sectorSize_pos

/-- Whole sectors over `j` folded clusters are a straight piece of the walk. -/
theorem aims_whole {s : ChainStream} {left c j sector count : Nat} {u : Volume} {pos fits}
    (hoff : s.position % sectorSize = 0)
    (hc : s.volume.geometry.holder? s.volume.disk.byte s.cluster s.position = some c)
    (hu : s.volume.Reads u)
    (hl : ∀ m, m < j → s.volume.geometry.Linked s.volume.disk.byte (c + m)
      ∧ s.volume.geometry.clusterSize * (m + 1)
        < sectorIndex s.volume.geometry s.position + left / sectorSize)
    (hfirst : s.volume.drive.Renewable → ¬ s.Illegible 0)
    (hlegible : s.volume.drive.Renewable → ∀ m, m < j →
      s.volume.geometry.Legible s.volume.disk (c + m))
    (hsector : sector = s.volume.geometry.firstSector c + sectorIndex s.volume.geometry s.position)
    (hcount : count = min (left / sectorSize)
      (s.volume.geometry.clusterSize * (j + 1) - sectorIndex s.volume.geometry s.position))
    (hstop : s.volume.foldRuns → s.volume.geometry.clusterSize * (j + 1)
        < sectorIndex s.volume.geometry s.position + left / sectorSize →
      ¬ s.volume.geometry.Linked s.volume.disk.byte (c + j)) :
    s.Aims { s with volume := u, cluster := c + j }
      (.whole sector count pos fits : Span left) := by
  have hindex := sectorIndex_lt s.volume.geometry s.position
  have hmod := s.volume.geometry.mod_clusterBytes s.position
  have hcb := s.volume.geometry.clusterBytes_eq
  have hsucc := Nat.mul_add_one s.volume.geometry.clusterSize j
  -- the span ends in the last cluster folded
  have hlow : s.volume.geometry.clusterSize * j
      < sectorIndex s.volume.geometry s.position + count := by
    cases j with
    | zero => omega
    | succ j =>
        have := (hl j (Nat.lt_succ_self j)).2
        omega
  have hhigh : sectorIndex s.volume.geometry s.position + count
      ≤ s.volume.geometry.clusterSize * (j + 1) := by
    omega
  replace hlow := Nat.mul_lt_mul_of_pos_left hlow sectorSize_pos
  replace hhigh := Nat.mul_le_mul_left sectorSize hhigh
  rw [Nat.mul_add, ← Nat.mul_assoc, ← hcb] at hlow hhigh
  obtain ⟨hspot, hwalk, hclear⟩ := aims_of_run (.whole sector count pos fits : Span left) hc
    (fun m hm => (hl m hm).1) hfirst hlegible
    (by unfold Span.address; dsimp only; rw [hsector, hmod, hoff, Nat.mul_add]; omega)
    (by unfold Span.size; dsimp only; omega)
    (by unfold Span.size; dsimp only; omega)
  refine ⟨⟨hu, rfl, rfl⟩, rfl, hspot, hwalk, hclear, fun hend => ?_, fun _ _ => ?_⟩
  · exfalso
    unfold Span.size sectorSize at *
    dsimp only at hend
    omega
  · have hlast : s.walk? (sectorSize * count - 1 + 1) = some (c + j) := by
      rw [Nat.sub_add_cancel (Nat.mul_pos sectorSize_pos pos)]
      exact hwalk
    have hhas := Geometry.hasCluster_of_walk? hlast
    refine ⟨sector, count, pos, fits, rfl, fun hfold => ?_⟩
    rw [hsector]
    exact stop_of_run hoff hc hhas pos hwalk hcount (hstop hfold)

/-- Bytes of one sector are a straight piece of the walk. -/
theorem aims_part {s : ChainStream} {left c sector offset len : Nat} {u : Volume}
    {pos fits inside} (hu : s.volume.Reads u)
    (hc : s.volume.geometry.holder? s.volume.disk.byte s.cluster s.position = some c)
    (hfirst : s.volume.drive.Renewable → ¬ s.Illegible 0)
    (hoffset : offset = s.position % sectorSize)
    (hsector : sector
      = s.volume.geometry.firstSector c + sectorIndex s.volume.geometry s.position)
    (hsmall : s.position % sectorSize = 0 → left < sectorSize) :
    s.Aims { s with volume := u, cluster := c, sector }
      (.part sector offset len pos fits inside : Span left) := by
  have hindex := sectorIndex_lt s.volume.geometry s.position
  have hmod := s.volume.geometry.mod_clusterBytes s.position
  -- the sector lies in its cluster
  have hin : sectorSize * (sectorIndex s.volume.geometry s.position + 1)
      ≤ s.volume.geometry.clusterBytes := by
    rw [s.volume.geometry.clusterBytes_eq]
    exact Nat.mul_le_mul_left _ hindex
  rw [Nat.mul_add_one] at hin
  obtain ⟨hspot, hwalk, hclear⟩ := aims_of_run (j := 0)
    (.part sector offset len pos fits inside : Span left) hc
    (fun m hm => absurd hm (Nat.not_lt_zero m)) hfirst
    (fun _ m hm => absurd hm (Nat.not_lt_zero m))
    (by unfold Span.address; dsimp only; rw [hsector, hmod, Nat.mul_add]; omega)
    (by unfold Span.size; dsimp only; omega)
    (by unfold Span.size; dsimp only; omega)
  refine ⟨⟨hu, rfl, rfl⟩, rfl, hspot, hwalk, hclear, fun hend => ?_,
    fun h hle => absurd (hsmall h) (Nat.not_lt.mpr hle)⟩
  unfold Span.size at hend ⊢
  dsimp only at hend ⊢
  have hsame : (s.position + len) / sectorSize = s.position / sectorSize := by
    unfold sectorSize at *
    omega
  rw [hsector]
  unfold sectorIndex
  rw [hsame]

/-- A link that is not read while clusters are folded breaks off the transfer. -/
theorem breaks_of_fold {s : ChainStream} {left c m : Nat} {e : Error} (direction : Direction)
    (hc : s.volume.geometry.holder? s.volume.disk.byte s.cluster s.position = some c)
    (hoff : s.position % sectorSize = 0)
    (hl : ∀ k, k < m → s.volume.geometry.Linked s.volume.disk.byte (c + k))
    (hgoal : s.volume.geometry.clusterSize + s.volume.geometry.clusterSize * m
      < sectorIndex s.volume.geometry s.position + left / sectorSize)
    (hhas : s.volume.geometry.HasCluster (c + m))
    (hunread : s.volume.geometry.Unread s.volume.disk (c + m) e) :
    s.Breaks direction left 0 e := by
  have hbytes := Nat.mul_lt_mul_of_pos_left hgoal sectorSize_pos
  have hleft := Nat.mul_div_le left sectorSize
  have hlast : s.volume.geometry.clusterBytes * (m + 1)
      < s.position % s.volume.geometry.clusterBytes + left := by
    rw [s.volume.geometry.mod_clusterBytes, s.volume.geometry.clusterBytes_eq, Nat.mul_assoc,
      Nat.mul_add_one]
    simp only [Nat.mul_add] at hbytes ⊢
    omega
  obtain ⟨i, hi, henters⟩ := enters_of_run hc hl hlast hhas
  exact .of_unread hi henters hunread

/-- **The next span is a straight piece of the walk**, or the transfer breaks off here. -/
theorem ends_nextSpan {s : ChainStream} (hs : s.Ready) {left : Nat} (pos : 0 < left)
    (direction : Direction) :
    Ends (nextSpan left pos s)
      (fun span t => s.Aims t span)
      (fun e t => s.Looked t ∧ s.Breaks direction left 0 e) := by
  unfold nextSpan
  rw [ends_bind, ends_get]
  dsimp only
  split
  · -- inside a sector
    rename_i hoff
    have hmod := s.volume.geometry.mod_clusterBytes s.position
    have hinside : s.position % s.volume.geometry.clusterBytes ≠ 0 := by omega
    rw [ends_pure]
    exact aims_part (.refl hs.coherent) (Geometry.holder?_inside (hs.cluster hoff) hinside)
      (fun _ hill => hinside hill.boundary.2) rfl (hs.sector hoff) fun h => absurd h hoff
  · rename_i hoff
    replace hoff : s.position % sectorSize = 0 := Decidable.not_not.mp hoff
    rw [ends_bind]
    refine (ends_enterSector hs.coherent hoff pos direction).mono ?_ fun _ _ h => h
    intro sector t h
    obtain ⟨w, c, hw, rfl, hc, rfl, hfirst⟩ := h
    split
    · -- less than a sector is left
      rename_i hsmall
      simp only [ends_bind, ends_modify, ends_pure]
      exact aims_part hw hc hfirst hoff.symm rfl
        fun _ => Nat.lt_of_div_eq_zero sectorSize_pos hsmall
    · -- whole sectors, over as many linked clusters as they need
      have hm : s.volume.disk.SameMedium w.disk := hw.drive.medium
      split
      · rw [ends_bind]
        refine (ends_foldRun s.volume.geometry.clusterSize hw.geometry hw.drive.coherent).mono ?_ ?_
        · intro j t h
          obtain ⟨u, hu, rfl⟩ := h.reads
          refine aims_whole hoff hc (hw.trans hu) (fun m hmj => ?_) hfirst (fun hr m hmj => ?_) rfl
            rfl fun _ hmore => ?_
          · have hgoal := h.wanted m hmj
            refine ⟨hm.byte ▸ h.linked m hmj, ?_⟩
            rw [Nat.mul_add_one]
            omega
          · exact (Geometry.legible_same hm).mp (h.legible (hw.drive.renewable hr) m hmj)
          · rw [Nat.mul_add_one] at hmore
            rw [← hm.byte]
            exact h.stop (by omega)
        · intro e t h
          obtain ⟨hmoved, hposition⟩ := h.looked
          obtain ⟨m, hl, hgoal, hhas, hunread⟩ := h.link
          exact ⟨⟨⟨hw.trans hmoved.volume, hmoved.start, hmoved.failure⟩, hposition⟩,
            breaks_of_fold direction hc hoff (hm.byte ▸ hl) hgoal hhas (hunread.same hm)⟩
      · rename_i hsingle
        rw [ends_bind, ends_pure]
        exact aims_whole (j := 0) hoff hc hw (fun m hmj => absurd hmj (Nat.not_lt_zero m)) hfirst
          (fun _ m hmj => absurd hmj (Nat.not_lt_zero m)) rfl rfl
          fun hfold => absurd hfold hsingle

end ChainStream

end CartBoot
