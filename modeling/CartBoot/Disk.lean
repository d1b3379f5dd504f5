import Std.Data.TreeMap
import CartBoot.Bytes
import CartBoot.Error
import CartBoot.Fat.Geometry

/-!
# Storage devices

A disk is a run of 512-byte sectors with a rule for what they hold before
anything is written and a map of the sectors written since. Its contents are
looked at through one function, `Disk.byte`: the byte at an absolute address.
Every access is logged, and an access may fail because it runs past the end,
because it touches a bad sector, or because that very call is made to fail. An
access that fails moves nothing.
-/

namespace CartBoot

open Fat

inductive Direction where
  | read
  | write
  deriving DecidableEq, Repr

/-- One call of the device: consecutive sectors in one direction. -/
structure Access where
  direction : Direction
  sector : Nat
  count : Nat
  /-- The call got as far as the medium: it was not one of the calls made to fail. -/
  reached : Bool
  deriving DecidableEq, Repr

/-- How a device fails: calls and sectors of each direction, and the code it reports. -/
structure Faults where
  code : UInt8 := 1
  /-- Whether the call with this number, counted from zero in its direction, fails. -/
  failsCall : Direction → Nat → Bool := fun _ _ => false
  /-- Whether an access that touches this sector fails. -/
  failsSector : Direction → Nat → Bool := fun _ _ => false

/-- The contents of `count` sectors. -/
abbrev Sectors (count : Nat) := { data : ByteArray // data.size = sectorSize * count }

/-- A device with its contents, its faults and the log of all accesses. -/
structure Disk where
  sectorCount : Nat
  /-- The byte at an absolute address before anything is written. -/
  blank : Nat → UInt8
  written : Std.TreeMap Nat ByteArray := ∅
  faults : Faults := {}
  log : Array Access := #[]

namespace Disk

/-! ## Contents -/

/-- The byte at an absolute address. -/
def byte (d : Disk) (address : Nat) : UInt8 :=
  match d.written[address / sectorSize]? with
  | some data => data.byteAt (address % sectorSize)
  | none => d.blank address

def sector (d : Disk) (s : Nat) : ByteArray :=
  match d.written[s]? with
  | some data => .tabulate sectorSize data.byteAt
  | none => .tabulate sectorSize fun i => d.blank (sectorSize * s + i)

def sectors (d : Disk) (first : Nat) : (count : Nat) → ByteArray
  | 0 => .empty
  | count + 1 => d.sectors first count ++ d.sector (first + count)

theorem size_sector (d : Disk) (s : Nat) : (d.sector s).size = sectorSize := by
  unfold sector
  split <;> exact ByteArray.size_tabulate _ _

theorem size_sectors (d : Disk) (first count : Nat) :
    (d.sectors first count).size = sectorSize * count := by
  induction count with
  | zero => rfl
  | succ count ih =>
      show (d.sectors first count ++ d.sector (first + count)).size = _
      rw [ByteArray.size_append, ih, size_sector, Nat.mul_succ]

def setSector (d : Disk) (s : Nat) (data : ByteArray) : Disk :=
  { d with written := d.written.insert s data }

/-- Replace `count` consecutive sectors by the start of `data`. -/
def setSectors (d : Disk) (first : Nat) (data : ByteArray) : (count : Nat) → Disk
  | 0 => d
  | count + 1 =>
      (d.setSectors first data count).setSector (first + count)
        (data.extract (sectorSize * count) (sectorSize * (count + 1)))

/-- Overwrite bytes at an absolute address on the medium itself, past all logs and faults. -/
def poke (d : Disk) (address : Nat) (data : ByteArray) : Disk :=
  if data.size = 0 then d
  else
    let first := address / sectorSize
    let count := (address + data.size - 1) / sectorSize + 1 - first
    d.setSectors first ((d.sectors first count).patch (address % sectorSize) data) count

/-! ## Accesses -/

/-- How many calls of one direction there have been. -/
def calls (d : Disk) (direction : Direction) : Nat :=
  d.log.countP fun a => a.direction = direction

/-- Whether an access lies on the disk and touches no sector that fails. -/
def readable (d : Disk) (direction : Direction) (first count : Nat) : Bool :=
  first + count ≤ d.sectorCount
    && (List.range count).all fun i => !d.faults.failsSector direction (first + i)

/-- Log a call and say whether it goes through. -/
def attempt (d : Disk) (direction : Direction) (first count : Nat) : Bool × Disk :=
  let reached := !d.faults.failsCall direction (d.calls direction)
  (reached && d.readable direction first count,
   { d with log := d.log.push ⟨direction, first, count, reached⟩ })

def read (first count : Nat) : EStateM Error Disk (Sectors count) := fun d =>
  match d.attempt .read first count with
  | (true, d) => .ok ⟨d.sectors first count, d.size_sectors first count⟩ d
  | (false, d) => .error (.device d.faults.code) d

def write (first count : Nat) (data : ByteArray) : EStateM Error Disk Unit := fun d =>
  match d.attempt .write first count with
  | (true, d) => .ok () (d.setSectors first data count)
  | (false, d) => .error (.device d.faults.code) d

/-! ## Making disks -/

/-- The contents of a sector that tells it from all others: byte `i` of sector `s` mixes
`31 * s`, `i` and the high bits of `s`. -/
def patternByte (address : Nat) : UInt8 :=
  let s := address / sectorSize
  (31 * s).toUInt8 ^^^ address.toUInt8 ^^^ (s / 256).toUInt8

def zeroed (sectorCount : Nat) : Disk where
  sectorCount
  blank := fun _ => 0

/-- A disk whose sectors from `first` on hold the pattern, and zeros below. -/
def patternedFrom (sectorCount first : Nat) : Disk where
  sectorCount
  blank := fun address => if address < sectorSize * first then 0 else patternByte address

/-- The same disk with `n` zero sectors put in front. -/
def shifted (d : Disk) (n : Nat) : Disk :=
  { d with
    sectorCount := n + d.sectorCount
    blank := fun address =>
      if address < sectorSize * n then 0 else d.blank (address - sectorSize * n)
    written := d.written.foldl (fun m s data => m.insert (n + s) data) ∅ }

/-- Single faults to be added to a disk, each of them optional. -/
structure Injection where
  code : UInt8 := 1
  readSector : Option Nat := none
  writeSector : Option Nat := none
  /-- The number, from one, of the read call that fails among those to come. -/
  readCall : Option Nat := none
  writeCall : Option Nat := none

/-- Replace all faults of a disk by the given ones, counting calls from now on. -/
def inject (d : Disk) (i : Injection) : Disk :=
  let reads := d.calls .read
  let writes := d.calls .write
  { d with
    faults := {
      code := i.code
      failsCall := fun
        | .read, n => i.readCall = some (n + 1 - reads)
        | .write, n => i.writeCall = some (n + 1 - writes)
      failsSector := fun
        | .read, s => i.readSector = some s
        | .write, s => i.writeSector = some s } }

end Disk

end CartBoot
