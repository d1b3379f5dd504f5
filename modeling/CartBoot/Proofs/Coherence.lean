import CartBoot.Proofs.Requests

/-!
# The window never misleads

One sector window serves table look-ups and file transfers alike. Look-ups push
data out of it in the middle of a transfer, bulk writes go past it, and any call
of the device can fail. At no point of any run does this show: what the window
holds is what the medium holds, so a look-up gives the entry on the medium, and a
read gives the bytes on the medium.

Nothing is assumed of the medium. The table may be broken, may run in circles and
may lie in the data area, and the device may fail whenever it likes.
-/

namespace CartBoot

open Fat

/-- What can be done with a volume. -/
inductive Action where
  /-- Look up a table entry. -/
  | lookUp (cluster : Nat)
  /-- Open the file that starts at a cluster. -/
  | openAt (cluster : Nat)
  /-- Work with the open file. -/
  | request (r : Request)

/-- Carry out an action. -/
def Action.perform : Action → EStateM Error ChainStream Unit
  | .lookUp cluster => do
      let _ ← ChainStream.onVolume (Volume.nextCluster cluster)
  | .openAt cluster => modify fun s => s.volume.openAt cluster
  | .request r => do
      let _ ← r.perform

namespace ChainStream

/-- What the window shows of the medium is so. -/
structure Truthful (s : ChainStream) : Prop where
  /-- The window holds a sector of the medium. -/
  window (sector : Nat) (data : Sectors 1) :
    s.volume.drive.window = some (sector, data) → data.val = s.volume.disk.sector sector
  /-- Asked for a sector, it gives the medium's. -/
  ensure (sector : Nat) (data : Sectors 1) (t : ChainStream) :
    onDrive (Drive.ensure sector) s = .ok data t → data.val = s.volume.disk.sector sector
  /-- A look-up gives the entry on the medium. -/
  lookUp (cluster next : Nat) (t : ChainStream) :
    onVolume (Volume.nextCluster cluster) s = .ok next t →
      next = s.volume.geometry.tableEntry s.volume.disk.byte cluster
  /-- A read delivers bytes on the medium, also if it fails. -/
  read (len i : Nat) : i < (s.read len).data.size →
    (s.spot? i).map s.volume.disk.byte = some ((s.read len).data.byteAt i)
  /-- A read that does not fail delivers all bytes that were asked for. -/
  whole (len : Nat) : (s.read len).error? = none → (s.read len).data.size = len

theorem Sound.reads {s : ChainStream} (hs : s.Sound) {w : Volume} (hw : s.volume.Reads w) :
    Sound { s with volume := w } := by
  refine ⟨hw.drive.coherent, fun hnone => ⟨hw.drive.coherent, ?_, ?_⟩⟩
  · intro hoff
    show w.geometry.HasCluster s.cluster
    rw [hw.geometry]
    exact (hs.ready hnone).cluster hoff
  · intro hoff
    show s.sector = w.geometry.firstSector s.cluster + sectorIndex w.geometry s.position
    rw [hw.geometry]
    exact (hs.ready hnone).sector hoff

/-- A look-up gives the entry on the medium and leaves the cursor sound. -/
theorem ends_lookUp {s : ChainStream} (hs : s.Sound) (cluster : Nat) :
    Ends (onVolume (Volume.nextCluster cluster) s)
      (fun next t => next = s.volume.geometry.tableEntry s.volume.disk.byte cluster ∧ t.Sound)
      (fun _ t => t.Sound) := by
  rw [ends_onVolume]
  by_cases hc : s.volume.geometry.HasCluster cluster
  · refine (Volume.ends_nextCluster hs.coherent hc).mono ?_ ?_
    · intro next w h
      exact ⟨h.1, hs.reads h.2.1⟩
    · intro e w h
      exact hs.reads h.1
  · rw [Volume.nextCluster_invalid hc]
    exact hs

theorem Sound.truthful {s : ChainStream} (hs : s.Sound) : s.Truthful where
  window := hs.coherent
  ensure := by
    intro sector data t h
    have hensure : Ends (onDrive (Drive.ensure sector) s)
        (fun data _ => data.val = s.volume.disk.sector sector) (fun _ _ => True) := by
      rw [ends_onDrive]
      exact (Drive.ends_ensure hs.coherent sector).mono (fun _ _ h => h.1) fun _ _ _ => trivial
    exact hensure.of_ok h
  lookUp := by
    intro cluster next t h
    exact ((ends_lookUp hs cluster).of_ok h).1
  read := by
    intro len i hi
    cases hf : s.failure with
    | some e =>
        rw [read_of_failed hf] at hi
        exact absurd hi (Nat.not_lt_zero i)
    | none =>
        obtain ⟨data, error?, rest, hr, hdelivers⟩ := exists_read_eq (hs.ready hf) hf len
        rw [hr] at hi ⊢
        exact hdelivers.byte i hi
  whole := LawfulReadStream.size_eq s

end ChainStream

/-- Every action leaves a sound cursor, whichever way it ends. -/
theorem Action.sound_perform (a : Action) {s : ChainStream} (hs : s.Sound) :
    Ends (a.perform s) (fun _ t => t.Sound) (fun _ t => t.Sound) := by
  unfold perform
  cases a with
  | lookUp cluster =>
      simp only [ends_bind, ends_pure]
      exact (ChainStream.ends_lookUp hs cluster).mono (fun _ _ h => h.2) fun _ _ h => h
  | openAt cluster => exact ChainStream.sound_openAt hs.coherent cluster
  | request r =>
      simp only [ends_bind, ends_pure]
      exact r.sound_perform hs

/-- **The window never misleads**, whatever is done, whatever the medium holds and whichever calls
of the device fail. -/
theorem truthful_runAll (disk : Disk) (g : Geometry) (foldRuns : Bool) (first : Nat)
    (actions : List Action) :
    (runAll Action.perform actions ((Volume.ofDisk disk g foldRuns).openAt first)).2.Truthful := by
  have hstart : ((Volume.ofDisk disk g foldRuns).openAt first).Sound :=
    ChainStream.sound_openAt (Drive.coherent_of_empty rfl) first
  exact (runAll_invariant (fun a s hs => a.sound_perform hs) actions hstart).truthful

end CartBoot
