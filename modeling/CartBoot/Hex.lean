/-!
# Hexadecimal text

Bytes and words are shown with a fixed number of digits: status codes with two
lower-case digits, far pointers with four upper-case digits per word.
-/

namespace CartBoot.Hex

/-- The digits of the two alphabets, `0` to `F`. -/
def digit (upper : Bool) (n : Nat) : Char :=
  if n < 10 then Char.ofNat (48 + n)
  else if upper then Char.ofNat (55 + n)
  else Char.ofNat (87 + n)

/-- The low `width` hexadecimal digits of `n`, most significant first. -/
def digits (upper : Bool) : Nat → Nat → List Char
  | 0, _ => []
  | width + 1, n => digits upper width (n / 16) ++ [digit upper (n % 16)]

def byte (b : UInt8) : String :=
  String.ofList (digits false 2 b.toNat)

def word (w : UInt16) : String :=
  String.ofList (digits true 4 w.toNat)

end CartBoot.Hex
