import CartBoot.Hex

/-!
# Loader errors

One type covers every step of both boot stages that can fail. Each error has a
text for the log and a status number for the menu's error dialog; storage faults
and the menu's own complaints share one numbering.

Addresses, positions and table offsets are words of 32 bits, and a sum that is no
such word stops the loader where it is worked out. That stop is an error here like
the others, so that what is said of every way out is said of it too; there is no
one left to see it, and what it leaves behind is of no account.
-/

namespace CartBoot

/-- Why a step of the loader failed. -/
inductive Error where
  /-- The storage device refused a transfer, with a code of its own. -/
  | device (code : UInt8)
  /-- A cluster number that the allocation table has no entry for. -/
  | invalidCluster (cluster : Nat)
  /-- A cluster chain runs into a free, reserved or unmappable entry. -/
  | integrity
  /-- No FAT boot sector where one was expected. -/
  | noFilesystem
  /-- The geometry fields of a volume contradict each other. -/
  | invalidGeometry
  /-- An image that does not fit the banked address space. -/
  | fileTooLarge
  /-- A footer or a boot descriptor that fails its checks. -/
  | formatInvalid
  /-- Save memory that does not hold a bootable image. -/
  | saveCorrupt
  /-- A progress hook asked for the copy to stop. -/
  | cancelled
  /-- A number left 32 bits. The loader has stopped. -/
  | overflow
  deriving DecidableEq, Repr

namespace Error

def message : Error → String
  | device code => "storage device error 0x" ++ Hex.byte code
  | invalidCluster cluster =>
      "cluster " ++ toString cluster ++ " is outside the allocation table"
  | integrity => "cluster chain is corrupt"
  | noFilesystem => "no FAT filesystem found"
  | invalidGeometry => "volume geometry is inconsistent"
  | fileTooLarge => "image is too large"
  | formatInvalid => "image format is invalid"
  | saveCorrupt => "save data is corrupt"
  | cancelled => "transfer cancelled"
  | overflow => "a number leaves 32 bits"

/-- The number shown in the menu's error dialog. A loader that has stopped shows none. -/
def status : Error → UInt8
  | device _ => 0x01
  | invalidCluster _ | integrity => 0x02
  | noFilesystem | invalidGeometry => 0x0D
  | saveCorrupt => 0x81
  | fileTooLarge => 0x84
  | formatInvalid => 0x85
  | cancelled => 0x87
  | overflow => 0xFF

def isDevice : Error → Bool
  | device _ => true
  | _ => false

/-- A corrupt or out-of-range cluster chain. -/
def isIntegrity : Error → Bool
  | invalidCluster _ | integrity => true
  | _ => false

end Error

/-! ## Words -/

/-- First number that is no word of 32 bits. -/
def wordLimit : Nat := 0x100000000

/-- A number as a word; one that is no word stops the loader. -/
def word {σ : Type} (n : Nat) : EStateM Error σ Nat :=
  if n < wordLimit then pure n else throw .overflow

end CartBoot
