/-!
# The three allocation table formats

A FAT volume chains its clusters through a table whose entries have 12, 16 or 32
bits. The width also fixes the values that end a chain.
-/

namespace CartBoot.Fat

/-- How the entries of an allocation table are packed. -/
inductive Format where
  | fat12
  | fat16
  | fat32
  deriving DecidableEq, Repr

namespace Format

/-- The number of a format in the boot descriptor. -/
def code : Format → UInt8
  | fat12 => 1
  | fat16 => 2
  | fat32 => 3

def ofCode? (code : UInt8) : Option Format :=
  if code = 1 then some fat12
  else if code = 2 then some fat16
  else if code = 3 then some fat32
  else none

/-- The end-of-chain mark that formatting tools write. -/
def endMark : Format → Nat
  | fat12 => 0xFFF
  | fat16 => 0xFFFF
  | fat32 => 0x0FFFFFFF

/-- Values of an entry are counted modulo this number; the top four bits of a 32-bit entry
are reserved and do not belong to its value. -/
def entryRange : Format → Nat
  | fat12 => 0x1000
  | fat16 => 0x10000
  | fat32 => 0x10000000

/-- Whether a raw entry ends a chain: the last eight values of each width do. -/
def isEndMark : Format → Nat → Bool
  | fat12, entry => 0xFF8 ≤ entry
  | fat16, entry => 0xFFF8 ≤ entry
  | fat32, entry => 0x0FFFFFF8 ≤ entry % 0x10000000

/-- The size of a table of `entryCount` entries: in half bytes for packed entries, in bytes
for the others. -/
def tableUnits : Format → (entryCount : Nat) → Nat
  | fat12, entryCount => entryCount * 3
  | fat16, entryCount => entryCount * 2
  | fat32, entryCount => entryCount * 4

/-- Bytes that a table of `entryCount` entries takes. -/
def tableBytes (format : Format) (entryCount : Nat) : Nat :=
  match format with
  | fat12 => (format.tableUnits entryCount + 1) / 2
  | _ => format.tableUnits entryCount

@[simp] theorem ofCode?_code (format : Format) : ofCode? format.code = some format := by
  cases format <;> rfl

theorem code_of_ofCode? {code : UInt8} {format : Format} (h : ofCode? code = some format) :
    format.code = code := by
  unfold ofCode? at h
  split at h
  · cases h; simp_all [Format.code]
  · split at h
    · cases h; simp_all [Format.code]
    · split at h
      · cases h; simp_all [Format.code]
      · cases h

end Format

end CartBoot.Fat
