import CartBoot.Bytes
import CartBoot.Error

/-!
# Byte streams

Copies and save files work on anything that delivers bytes in order, accepts
bytes in order, or can be positioned. A read either delivers all bytes asked for
or fails; the bytes it delivered before it failed are part of its answer, since
they have reached the caller's memory by then. A stream keeps its state in every
case: after a failure it is the stream as the failure left it.
-/

namespace CartBoot

structure Delivery (σ : Type) where
  /-- The bytes delivered; all of them if there was no error. -/
  data : ByteArray
  error? : Option Error
  stream : σ

class ReadStream (σ : Type) where
  read : σ → (len : Nat) → Delivery σ

/-- What a reader may rely on: it never gets more than it asked for, and it gets all of it unless
the read fails. -/
class LawfulReadStream (σ : Type) [ReadStream σ] : Prop where
  size_le (s : σ) (len : Nat) : (ReadStream.read s len).data.size ≤ len
  size_eq (s : σ) (len : Nat) :
    (ReadStream.read s len).error? = none → (ReadStream.read s len).data.size = len

class WriteStream (σ : Type) where
  write : (data : ByteArray) → EStateM Error σ Unit

/-- Random access within a stream. -/
class SeekStream (σ : Type) where
  seek : (position : Nat) → EStateM Error σ Unit

variable {σ : Type}

/-- Read exactly `len` bytes, dropping what a failed read delivered. -/
def readExact [ReadStream σ] (len : Nat) : EStateM Error σ ByteArray := fun s =>
  match ReadStream.read s len with
  | ⟨data, none, s⟩ => .ok data s
  | ⟨_, some e, s⟩ => .error e s

/-- Longest piece that `fill` writes at once. -/
def fillPiece : Nat := 512

/-- Write `len` copies of one byte, in pieces. -/
def fill [WriteStream σ] (value : UInt8) (len : Nat) : EStateM Error σ Unit := do
  if _ : len = 0 then
    return ()
  else
    let n := min fillPiece len
    WriteStream.write (ByteArray.replicate n value)
    fill value (len - n)
termination_by len
decreasing_by
  simp only [fillPiece]
  omega

end CartBoot
