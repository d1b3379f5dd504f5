import CartBoot.Stream

/-!
# Streams in memory

A source over a byte string and a sink that collects what it is given. Each can
be told to fail when an access would go past some position; a failing access
leaves it as it was.
-/

namespace CartBoot

structure ByteSource where
  data : ByteArray
  position : Nat := 0
  /-- Reads that would end past this position fail. -/
  limit : Option Nat := none

structure ByteSink where
  data : ByteArray := .empty
  /-- Writes that would grow the sink past this size fail. -/
  limit : Option Nat := none

/-- Whether a position lies past an optional limit. -/
def pastLimit (limit : Option Nat) (position : Nat) : Bool :=
  limit.any (· < position)

def memoryFault : Error := .device 1

instance : ReadStream ByteSource where
  read s len :=
    let stop := s.position + len
    if s.data.size < stop ∨ pastLimit s.limit stop then
      ⟨.empty, some memoryFault, s⟩
    else
      ⟨s.data.extract s.position stop, none, { s with position := stop }⟩

instance : LawfulReadStream ByteSource where
  size_le s len := by
    simp only [ReadStream.read]
    split
    · exact Nat.zero_le _
    · simp only [ByteArray.size_extract]
      omega
  size_eq s len := by
    simp only [ReadStream.read]
    split
    · exact nofun
    · intro _
      simp only [ByteArray.size_extract]
      omega

instance : SeekStream ByteSource where
  seek position := do
    if (← get).data.size < position then
      throw .integrity
    modify fun s => { s with position }

instance : WriteStream ByteSink where
  write data := do
    let s ← get
    if pastLimit s.limit (s.data.size + data.size) then
      throw memoryFault
    set { s with data := s.data ++ data }

end CartBoot
