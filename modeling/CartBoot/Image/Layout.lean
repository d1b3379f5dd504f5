import CartBoot.Copy

/-!
# Placing an image in program RAM

The processor starts at the top of program memory, so an image is placed at the
end of a space of power-of-two size, at least one bank. Its footer then lies at
the end of the last bank, whatever the size of the image.
-/

namespace CartBoot

structure ImageLayout where
  size : Nat
  start : BankedAddr
  /-- Banks of the space, those left empty below the image included. -/
  totalBanks : Nat
  deriving DecidableEq, Repr

namespace ImageLayout

/-- The least power of two that is a whole number of banks and at least `size`. -/
def spaceFor (size : Nat) : Nat :=
  if size ≤ bankSize then bankSize else 1 <<< ((size - 1).log2 + 1)

/-- Place an image of a given size. There is no place for an empty image, and none for one
whose space would not have a 32-bit size. -/
def forSize (size : Nat) : Except Error ImageLayout :=
  if size = 0 then
    .error .formatInvalid
  else if 0x100000000 ≤ spaceFor size then
    .error .fileTooLarge
  else
    .ok {
      size
      start := .ofLinear (spaceFor size - size)
      totalBanks := spaceFor size / bankSize }

def spaceSize (l : ImageLayout) : Nat :=
  l.totalBanks * bankSize

/-- The bank that holds the end of the image. -/
def lastBank (l : ImageLayout) : Nat :=
  l.totalBanks - 1

/-- How many progress reports a copy of the image makes. -/
def reportCount (l : ImageLayout) : Nat :=
  l.spaceSize / Copier.pieceSize - l.start.linear / Copier.pieceSize

end ImageLayout

end CartBoot
