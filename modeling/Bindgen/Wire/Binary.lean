/-!
# Big-endian numbers

`natBytes` writes a number in a fixed count of bytes, most significant first, and `bytesNat` reads bytes as
a number. An `IntFormat` is a width with a sign convention: `IntFormat.encode?` writes an integer that is
in range, and `IntFormat.decode` reads bytes in two's complement.
-/

namespace Bindgen.Wire

/-- A power of two. -/
def twoPow (k : Nat) : Nat := 1 <<< k

/-- The number that bytes stand for, most significant first. -/
def bytesNat (bytes : List UInt8) : Nat :=
  bytes.foldl (fun n b => n * 256 + b.toNat) 0

/-- A number in `width` bytes, most significant first; what does not fit is cut off. -/
def natBytes : Nat → Nat → List UInt8
  | 0, _ => []
  | width + 1, n => natBytes width (n / 256) ++ [UInt8.ofNat n]

/-- The byte count of an integer, and whether it can be negative. -/
structure IntFormat where
  width : Nat
  signed : Bool
  deriving DecidableEq, Repr

namespace IntFormat

/-- The least integer of a format. -/
def min (f : IntFormat) : Int :=
  if f.signed then -twoPow (8 * f.width - 1) else 0

/-- The greatest integer of a format. -/
def max (f : IntFormat) : Int :=
  if f.signed then twoPow (8 * f.width - 1) - 1 else twoPow (8 * f.width) - 1

/-- Whether an integer is in range. -/
def contains (f : IntFormat) (n : Int) : Bool :=
  f.min ≤ n ∧ n ≤ f.max

/-- An integer in range, in bytes. -/
def encode? (f : IntFormat) (n : Int) : Option (List UInt8) :=
  if f.contains n then some (natBytes f.width (n % twoPow (8 * f.width)).toNat) else none

/-- The integer that bytes stand for. -/
def decode (f : IntFormat) (bytes : List UInt8) : Int :=
  let n : Int := bytesNat bytes
  if f.signed ∧ f.max < n then n - twoPow (8 * f.width) else n

/-- One byte without sign. -/
def u8 : IntFormat := ⟨1, false⟩

/-- Four bytes with sign. -/
def i32 : IntFormat := ⟨4, true⟩

/-- Eight bytes without sign. -/
def u64 : IntFormat := ⟨8, false⟩

end IntFormat

/-- An integer reduced to the range of four bytes with sign. -/
def wrap32 (n : Int) : Int :=
  n.bmod (twoPow 32)

end Bindgen.Wire
