import CartBoot.Fat.Volume
import CartBoot.Stream

/-!
# Files as cluster chains

A `ChainStream` is a cursor on one cluster chain of a volume. A transfer is cut
into spans: whole sectors go straight between device and caller, one access per
run of adjacent clusters; what is left over at either end goes through the sector
window. Reading and writing share all positioning, so a file can be overwritten
in place. The chain itself is never extended.

At a cluster boundary the cursor stays on the cluster before it and steps on when
the next byte is wanted, so a cursor at the very end of a file is still on its
last cluster.

A failed operation leaves the cursor in an unknown place. The error is kept, and
every later operation fails with it without touching anything.

Positions are words of 32 bits. A chain may go on behind the last of them, but no
cursor gets there: the transfer that would move it there stops the loader.
-/

namespace CartBoot

open Fat

/-- A cursor on a cluster chain. -/
structure ChainStream where
  volume : Volume
  start : Nat
  /-- The cluster that holds the byte before `position` at a cluster boundary, else the one that
  holds `position`. -/
  cluster : Nat
  /-- The sector that holds `position`, while that is inside a sector. -/
  sector : Nat := 0
  position : Nat := 0
  /-- The error that made the cursor unusable. -/
  failure : Option Error := none

def Fat.Volume.openAt (v : Volume) (cluster : Nat) : ChainStream :=
  { volume := v, start := cluster, cluster }

/-- Run an operation on the file that starts at `cluster`, and close it again. -/
def Fat.Volume.withFile {α : Type} (cluster : Nat) (operation : EStateM Error ChainStream α) :
    EStateM Error Volume α := fun v =>
  match operation (v.openAt cluster) with
  | .ok a s => .ok a s.volume
  | .error e s => .error e s.volume

/-- A part of a transfer that takes one step: `left` bytes are still to be moved. -/
inductive Span (left : Nat) where
  /-- Whole sectors, moved without the window. -/
  | whole (sector count : Nat) (pos : 0 < count) (fits : sectorSize * count ≤ left)
  /-- Bytes of one sector, moved through the window. -/
  | part (sector offset len : Nat) (pos : 0 < len) (fits : len ≤ left)
      (inside : offset + len ≤ sectorSize)

namespace Span

def size {left : Nat} : Span left → Nat
  | whole _ count _ _ => sectorSize * count
  | part _ _ len _ _ _ => len

theorem size_pos {left : Nat} (span : Span left) : 0 < span.size := by
  cases span with
  | whole sector count pos fits => exact Nat.mul_pos sectorSize_pos pos
  | part sector offset len pos fits inside => exact pos

theorem size_le {left : Nat} (span : Span left) : span.size ≤ left := by
  cases span with
  | whole sector count pos fits => exact fits
  | part sector offset len pos fits inside => exact fits

end Span

namespace ChainStream

def onVolume {α : Type} (access : EStateM Error Volume α) : EStateM Error ChainStream α :=
  fun ⟨volume, start, cluster, sector, position, failure⟩ =>
    match access volume with
    | .ok a volume => .ok a ⟨volume, start, cluster, sector, position, failure⟩
    | .error e volume => .error e ⟨volume, start, cluster, sector, position, failure⟩

def onDrive {α : Type} (access : EStateM Error Drive α) : EStateM Error ChainStream α :=
  onVolume (Volume.onDrive access)

/-! ## Following the chain -/

/-- The table entry of a cluster, or `none` for a cluster without one. -/
def entry? (cluster : Nat) : EStateM Error ChainStream (Option Nat) := fun s =>
  match onVolume (Volume.nextCluster cluster) s with
  | .ok next s => .ok (some next) s
  | .error (.invalidCluster _) s => .ok none s
  | .error e s => .error e s

/-- The successor of a cluster within a chain. Free and reserved entries, and clusters without
an entry, mean that the chain is broken. -/
def follow (cluster : Nat) : EStateM Error ChainStream Nat := do
  match ← entry? cluster with
  | some next => if 2 ≤ next then return next else throw .integrity
  | none => throw .integrity

def followMany : (hops cluster : Nat) → EStateM Error ChainStream Nat
  | 0, cluster => return cluster
  | hops + 1, cluster => do followMany hops (← follow cluster)

def clusterSector (cluster : Nat) : EStateM Error ChainStream Nat := do
  match (← get).volume.geometry.firstSector? cluster with
  | some sector => return sector
  | none => throw .integrity

/-- Index within its cluster of the sector that holds a position. -/
def sectorIndex (g : Geometry) (position : Nat) : Nat :=
  position / sectorSize % g.clusterSize

/-- Resolve the sector at a sector-aligned position, `index` sectors into its cluster, stepping
to the next cluster first when the position is a cluster boundary. -/
def enterSector (index : Nat) : EStateM Error ChainStream Nat := do
  let s ← get
  if index = 0 ∧ s.position ≠ 0 then
    let next ← follow s.cluster
    modify fun s => { s with cluster := next }
  let base ← clusterSector (← get).cluster
  return base + index

/-- Fold the clusters after the current one into a run of `run` sectors, while the chain stays
physically contiguous and the run has fewer than `goal` sectors. The cursor ends on the last
cluster folded; the answer is the number of clusters folded. -/
def foldRun (g : Geometry) (goal run : Nat) : EStateM Error ChainStream Nat := do
  if _ : run < goal then
    let cluster := (← get).cluster
    match ← entry? cluster with
    | some next =>
        if next = cluster + 1 ∧ g.HasCluster next then
          modify fun s => { s with cluster := next }
          return (← foldRun g goal (run + g.clusterSize)) + 1
        else
          return 0
    | none => return 0
  else
    return 0
termination_by goal - run
decreasing_by
  have := g.clusterSize_pos
  omega

/-! ## Spans -/

theorem sectorIndex_lt (g : Geometry) (position : Nat) :
    sectorIndex g position < g.clusterSize :=
  Nat.mod_lt _ g.clusterSize_pos

/-- The next span of a transfer with `left` bytes to go. -/
def nextSpan (left : Nat) (pos : 0 < left) : EStateM Error ChainStream (Span left) := do
  let s ← get
  let g := s.volume.geometry
  let offset := s.position % sectorSize
  if offset ≠ 0 then
    have below : offset < sectorSize := Nat.mod_lt _ sectorSize_pos
    return .part s.sector offset (min (sectorSize - offset) left)
      (Nat.lt_min.mpr ⟨Nat.sub_pos_of_lt below, pos⟩) (Nat.min_le_right _ _) (by omega)
  else
    let index := sectorIndex g s.position
    let sector ← enterSector index
    let whole := left / sectorSize
    if hw : whole = 0 then
      modify fun s => { s with sector }
      return .part sector 0 left pos (Nat.le_refl left) (by
        have := Nat.lt_of_div_eq_zero sectorSize_pos hw
        omega)
    else
      let folded ← if s.volume.foldRuns then foldRun g (index + whole) g.clusterSize else pure 0
      have room : 0 < g.clusterSize * (folded + 1) - index := by
        have h1 : index < g.clusterSize := sectorIndex_lt g s.position
        have h2 : g.clusterSize ≤ g.clusterSize * (folded + 1) :=
          Nat.le_mul_of_pos_right _ (by omega)
        omega
      return .whole sector (min whole (g.clusterSize * (folded + 1) - index))
        (Nat.lt_min.mpr ⟨Nat.pos_of_ne_zero hw, room⟩)
        (Nat.le_trans (Nat.mul_le_mul_left sectorSize (Nat.min_le_left _ _))
          (Nat.mul_div_le left sectorSize))

/-- Move on by `n` bytes, which are transferred by then. -/
def advance (n : Nat) : EStateM Error ChainStream Unit := do
  let position ← word ((← get).position + n)
  modify fun s => { s with position }

/-- The bytes of a span. -/
def fetchSpan {left : Nat} : Span left → EStateM Error ChainStream ByteArray
  | .whole sector count _ _ => do
      let data ← onDrive (Drive.onDisk (Disk.read sector count))
      return data.val
  | .part sector offset len _ _ _ => do
      let data ← onDrive (Drive.ensure sector)
      return data.val.extract offset (offset + len)

/-- Overwrite the bytes of a span. A bulk write goes past the window, which is emptied if it
holds one of the sectors. -/
def storeSpan {left : Nat} (data : ByteArray) : Span left → EStateM Error ChainStream Unit
  | .whole sector count _ _ => do
      onDrive (modify (·.invalidateRange sector count))
      onDrive (Drive.onDisk (Disk.write sector count data))
  | .part sector offset _ _ _ _ => onDrive (Drive.writeThrough sector offset data)

/-- Read the bytes of a span and move on. -/
def readSpan {left : Nat} (span : Span left) : EStateM Error ChainStream ByteArray := do
  let data ← fetchSpan span
  advance span.size
  return data

/-- Overwrite the bytes of a span and move on. -/
def writeSpan {left : Nat} (span : Span left) (data : ByteArray) :
    EStateM Error ChainStream Unit := do
  storeSpan data span
  advance span.size

/-! ## Whole operations -/

/-- Read `left` more bytes after those in `got`, span by span. -/
def readFrom (got : ByteArray) (left : Nat) (s : ChainStream) : Delivery ChainStream :=
  if h : left = 0 then
    ⟨got, none, s⟩
  else
    match nextSpan left (Nat.pos_of_ne_zero h) s with
    | .error e s => ⟨got, some e, s⟩
    | .ok span s =>
        match readSpan span s with
        | .error e s => ⟨got, some e, s⟩
        | .ok data s => readFrom (got ++ data) (left - span.size) s
termination_by left
decreasing_by
  have := span.size_pos
  have := span.size_le
  omega

/-- Write the last `left` bytes of `data`, span by span. -/
def writeFrom (data : ByteArray) (left : Nat) : EStateM Error ChainStream Unit := do
  if h : left = 0 then
    return ()
  else
    let span ← nextSpan left (Nat.pos_of_ne_zero h)
    let done := data.size - left
    writeSpan span (data.extract done (done + span.size))
    writeFrom data (left - span.size)
termination_by left
decreasing_by
  have := span.size_pos
  have := span.size_le
  omega

/-- Move to an absolute position by walking the chain from its first cluster. -/
def seekFrom (position : Nat) : EStateM Error ChainStream Unit := do
  let s ← get
  let g := s.volume.geometry
  let cluster ← followMany ((position - 1) / g.clusterBytes) s.start
  modify fun s => { s with cluster, position }
  if position % sectorSize ≠ 0 then
    let base ← clusterSector cluster
    modify fun s => { s with sector := base + sectorIndex g position }

/-- Refuse to work on a cursor that has failed before, and keep the error of one that fails. -/
def guarded {α : Type} (operation : EStateM Error ChainStream α) : EStateM Error ChainStream α :=
  fun s =>
    match s.failure with
    | some e => .error e s
    | none =>
        match operation s with
        | .ok a s => .ok a s
        | .error e s => .error e { s with failure := some e }

def read (s : ChainStream) (len : Nat) : Delivery ChainStream :=
  match s.failure with
  | some e => ⟨.empty, some e, s⟩
  | none =>
      match readFrom .empty len s with
      | ⟨data, none, s⟩ => ⟨data, none, s⟩
      | ⟨data, some e, s⟩ => ⟨data, some e, { s with failure := some e }⟩

def write (data : ByteArray) : EStateM Error ChainStream Unit :=
  guarded (writeFrom data data.size)

def seek (position : Nat) : EStateM Error ChainStream Unit :=
  guarded (seekFrom position)

instance : ReadStream ChainStream where
  read := read

instance : WriteStream ChainStream where
  write := write

instance : SeekStream ChainStream where
  seek := seek

/-! ## How much a read delivers -/

theorem size_fetchSpan {left : Nat} {span : Span left} {s t : ChainStream} {data : ByteArray}
    (h : fetchSpan span s = .ok data t) : data.size = span.size := by
  cases span with
  | whole sector count pos fits =>
      simp only [fetchSpan, bind, EStateM.bind, pure, EStateM.pure] at h
      cases hr : onDrive (Drive.onDisk (Disk.read sector count)) s with
      | error e u => simp [hr] at h
      | ok block u =>
          simp only [hr] at h
          cases h
          exact block.property
  | part sector offset len pos fits inside =>
      simp only [fetchSpan, bind, EStateM.bind, pure, EStateM.pure] at h
      cases hr : onDrive (Drive.ensure sector) s with
      | error e u => simp [hr] at h
      | ok block u =>
          simp only [hr] at h
          cases h
          have := block.property
          simp only [ByteArray.size_extract, Span.size]
          omega

theorem size_readSpan {left : Nat} {span : Span left} {s t : ChainStream} {data : ByteArray}
    (h : readSpan span s = .ok data t) : data.size = span.size := by
  simp only [readSpan, bind, EStateM.bind, pure, EStateM.pure] at h
  cases hf : fetchSpan span s with
  | error e u => simp [hf] at h
  | ok got u =>
      simp only [hf] at h
      cases ha : advance span.size u with
      | error e v => simp [ha] at h
      | ok _ v =>
          simp only [ha] at h
          cases h
          exact size_fetchSpan hf

/-- What is read goes after what was there, and is all that was asked for if nothing failed. -/
theorem size_readFrom (got : ByteArray) (left : Nat) (s : ChainStream) :
    (readFrom got left s).data.size ≤ got.size + left
      ∧ ((readFrom got left s).error? = none →
        (readFrom got left s).data.size = got.size + left) := by
  induction left using Nat.strongRecOn generalizing got s with
  | ind left ih =>
      rw [readFrom]
      split
      · exact ⟨by simp_all, by simp_all⟩
      · split
        · exact ⟨Nat.le_add_right _ _, nofun⟩
        · split
          · exact ⟨Nat.le_add_right _ _, nofun⟩
          · rename_i span t _ _ data u hd
            have hs := size_readSpan hd
            have hp := span.size_pos
            have hl := span.size_le
            obtain ⟨hle, heq⟩ := ih (left - span.size) (by omega) (got ++ data) u
            rw [ByteArray.size_append, hs] at hle heq
            refine ⟨by omega, fun hnone => ?_⟩
            rw [heq hnone]
            omega

instance : LawfulReadStream ChainStream where
  size_le s len := by
    simp only [ReadStream.read, read]
    split
    · exact Nat.zero_le _
    · have := size_readFrom .empty len s
      split <;> simp_all
  size_eq s len := by
    simp only [ReadStream.read, read]
    split
    · exact nofun
    · have := size_readFrom .empty len s
      split <;> simp_all

end ChainStream

end CartBoot
