import CartBoot.Disk

/-!
# The sector window

Table lookups and transfers of less than a sector go through one 512-byte
buffer. A `Drive` is a disk together with that buffer. Asking for the sector it
holds costs no access, asking for another one replaces it, and there is no other
eviction. What keeps the window honest is that it is emptied whenever its
contents might differ from the medium: before a read, after a failed write, and
when a bulk write goes past it.
-/

namespace CartBoot

/-- A disk behind a one-sector window. -/
structure Drive where
  disk : Disk
  /-- The sector in the window, with its contents. -/
  window : Option (Nat × Sectors 1) := none

namespace Drive

def cached (v : Drive) : Option Nat :=
  v.window.map Prod.fst

/-- Run a device access; the window stays as it is. -/
def onDisk {α : Type} (access : EStateM Error Disk α) : EStateM Error Drive α :=
  fun ⟨disk, window⟩ =>
    match access disk with
    | .ok a disk => .ok a ⟨disk, window⟩
    | .error e disk => .error e ⟨disk, window⟩

def invalidate (v : Drive) : Drive :=
  { v with window := none }

/-- Empty the window if it holds one of the `count` sectors from `first` on. -/
def invalidateRange (v : Drive) (first count : Nat) : Drive :=
  match v.cached with
  | some s => if first ≤ s ∧ s - first < count then v.invalidate else v
  | none => v

/-- Read one sector into the window. If that fails the window is left empty. -/
def fetch (s : Nat) : EStateM Error Drive (Sectors 1) := do
  modify invalidate
  let data ← onDisk (Disk.read s 1)
  modify fun v => { v with window := some (s, data) }
  return data

/-- The contents of a sector, from the window if it is there. -/
def ensure (s : Nat) : EStateM Error Drive (Sectors 1) := do
  match (← get).window with
  | some (t, data) => if t = s then return data else fetch s
  | none => fetch s

/-- Overwrite part of a sector and write the sector back. If that fails the buffer no longer
agrees with the medium and the window is left empty. -/
def writeThrough (s offset : Nat) (data : ByteArray) : EStateM Error Drive Unit := do
  let held ← ensure s
  let patched : Sectors 1 := ⟨held.val.patch offset data, by simp [held.property]⟩
  modify invalidate
  onDisk (Disk.write s 1 patched.val)
  modify fun v => { v with window := some (s, patched) }

end Drive

end CartBoot
