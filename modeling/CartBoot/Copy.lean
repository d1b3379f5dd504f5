import CartBoot.Cart.Scope
import CartBoot.Stream

/-!
# Banked copies

Cartridge memory is only reachable one bank at a time. The copies here move a
range of bytes between a stream and that memory in pieces that never cross a
32 KiB boundary, selecting each bank as the range enters it:

* `loadSram` and `loadPsram` fill static or program RAM from a stream;
* `saveSram` and `saveRom` write static RAM or program memory to a stream.

After each piece a progress hook hears how far the copy has come and may cancel
it; a cancellation after the last piece comes too late and is ignored. Every
register touched is put back when a copy ends, whether it succeeded or not, and
an empty range touches nothing at all.
-/

namespace CartBoot

/-! ## Progress -/

inductive Signal where
  | proceed
  | cancel
  deriving DecidableEq, Repr

/-- Something that is told how far a copy has come. -/
class Progress (π : Type) where
  /-- Hear that `done` of `total` bytes are moved. -/
  report : π → (done total : Nat) → Signal × π

structure Silent where

instance : Progress Silent where
  report p _ _ := (.proceed, p)

/-- A hook that records what it hears and may cancel at one report. -/
structure Meter where
  /-- The number, from one, of the report to answer with a cancellation. -/
  cancelAt : Option Nat := none
  reports : Array (Nat × Nat) := #[]

instance : Progress Meter where
  report p done total :=
    let reports := p.reports.push (done, total)
    (if p.cancelAt = some reports.size then .cancel else .proceed, { p with reports })

/-! ## Copies -/

structure Copier (σ π : Type) where
  stream : σ
  machine : Machine
  hook : π

namespace Copier

variable {σ π : Type}

def modifyMachine (f : Machine → Machine) : EStateM Error (Copier σ π) Unit :=
  modify fun ⟨stream, machine, hook⟩ => ⟨stream, f machine, hook⟩

def onStream {α : Type} (operation : EStateM Error σ α) : EStateM Error (Copier σ π) α :=
  fun ⟨stream, machine, hook⟩ =>
    match operation stream with
    | .ok a stream => .ok a ⟨stream, machine, hook⟩
    | .error e stream => .error e ⟨stream, machine, hook⟩

def report [Progress π] (done total : Nat) : EStateM Error (Copier σ π) Signal :=
  fun ⟨stream, machine, hook⟩ =>
    match Progress.report hook done total with
    | (signal, hook) => .ok signal ⟨stream, machine, hook⟩

/-- Move `len` bytes between the stream and `offset` of what a window shows. -/
abbrev Move (σ π : Type) := (w : Window) → (offset len : Nat) → EStateM Error (Copier σ π) Unit

/-- Read from the stream into the window. Bytes delivered before a failure stay there. -/
def fromStream [ReadStream σ] : Move σ π := fun w offset len ⟨stream, machine, hook⟩ =>
  match ReadStream.read stream len with
  | ⟨data, error?, stream⟩ =>
      let c : Copier σ π := ⟨stream, machine.setWindowBytes w offset data, hook⟩
      match error? with
      | none => .ok () c
      | some e => .error e c

def toStream [WriteStream σ] : Move σ π := fun w offset len => do
  let data := (← get).machine.windowBytes w offset len
  onStream (WriteStream.write data)

/-- Most bytes moved between two reports; pieces end at multiples of it. -/
def pieceSize : Nat := 0x8000

/-- The first piece boundary after an address. -/
def pieceEnd (address : Nat) : Nat :=
  (address / pieceSize + 1) * pieceSize

theorem lt_pieceEnd (address : Nat) : address < pieceEnd address := by
  unfold pieceEnd pieceSize
  omega

/-- Where the piece that begins at `address` ends in a range that ends at `stop`. -/
def pieceStop (address stop : Nat) : Nat :=
  min (pieceEnd address) stop

theorem lt_pieceStop {address stop : Nat} (h : address < stop) :
    address < pieceStop address stop :=
  Nat.lt_min.mpr ⟨lt_pieceEnd address, h⟩

/-- Copy from `address` to `stop` in a range that began at `first`, with `selected` the bank
selected so far. -/
def copyFrom [Progress π] (move : Move σ π) (w : Window) (first stop address : Nat)
    (selected : Option UInt16) : EStateM Error (Copier σ π) Unit := do
  if _ : address < stop then
    let here := BankedAddr.ofLinear address
    if selected ≠ some here.bank then
      modifyMachine (Machine.setBank w here.bank)
    -- the boundary has to be a word even where the range ends before it
    let _ ← word (pieceEnd address)
    let next := pieceStop address stop
    move w here.offset.toNat (next - address)
    let signal ← report (next - first) (stop - first)
    if signal = .cancel ∧ next < stop then
      throw .cancelled
    copyFrom move w first stop next (some here.bank)
termination_by stop - address
decreasing_by
  have := lt_pieceStop ‹address < stop›
  omega

/-- Copy the `len` bytes from `start` on. The range must end within 32-bit addresses. -/
def copyRange [Progress π] (move : Move σ π) (w : Window) (start : BankedAddr) (len : Nat) :
    EStateM Error (Copier σ π) Unit := do
  let first := start.linear
  if 0x100000000 ≤ first + len then
    throw .fileTooLarge
  copyFrom move w first (first + len) first none

/-- Run a copy within a register scope, with the flash enable set if a value is given. -/
def withRegisters {α : Type} (w : Window) (flash : Option Bool)
    (copy : EStateM Error (Copier σ π) α) : EStateM Error (Copier σ π) α :=
  fun ⟨stream, machine, hook⟩ =>
    let scope := BankScope.enter machine w
    let (scope, machine) :=
      match flash with
      | some enabled => scope.withFlash enabled machine
      | none => (scope, machine)
    match copy ⟨stream, machine, hook⟩ with
    | .ok a ⟨stream, machine, hook⟩ => .ok a ⟨stream, scope.leave machine, hook⟩
    | .error e ⟨stream, machine, hook⟩ => .error e ⟨stream, scope.leave machine, hook⟩

/-- Copy a range within a register scope; an empty range touches nothing. -/
def copy [Progress π] (move : Move σ π) (w : Window) (flash : Option Bool) (start : BankedAddr)
    (len : Nat) : EStateM Error (Copier σ π) Unit :=
  if len = 0 then pure () else withRegisters w flash (copyRange move w start len)

def loadSram [ReadStream σ] [Progress π] (start : BankedAddr) (len : Nat) :
    EStateM Error (Copier σ π) Unit :=
  copy fromStream .ram (some false) start len

def loadPsram [ReadStream σ] [Progress π] (start : BankedAddr) (len : Nat) :
    EStateM Error (Copier σ π) Unit :=
  copy fromStream .ram (some true) start len

def saveSram [WriteStream σ] [Progress π] (start : BankedAddr) (len : Nat) :
    EStateM Error (Copier σ π) Unit :=
  copy toStream .ram (some false) start len

/-- Write program memory to the stream; the flash enable stays as it is. -/
def saveRom [WriteStream σ] [Progress π] (start : BankedAddr) (len : Nat) :
    EStateM Error (Copier σ π) Unit :=
  copy toStream .rom0 none start len

end Copier

end CartBoot
