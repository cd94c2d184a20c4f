import Bindgen.Wire.Binary

/-!
# Binary floating point

A number of a binary format is known by its bits. `FloatFormat.round?` gives the bits of the number next to
`m * 2 ^ e`, an even one when two are equally near, and nothing when that is beyond the greatest one.
With it `narrow?` and `widen` go between the formats of 64 and 32 bits, and `ofInt?` comes from the integers.
All of it is exact arithmetic on integers.
-/

namespace Bindgen.Wire

/-- A binary format: the widths of fraction and exponent. -/
structure FloatFormat where
  fractionBits : Nat
  exponentBits : Nat
  deriving DecidableEq, Repr

namespace FloatFormat

/-- The format of 32 bits. -/
def binary32 : FloatFormat := ⟨23, 8⟩

/-- The format of 64 bits. -/
def binary64 : FloatFormat := ⟨52, 11⟩

/-- The exponent field of infinities and of what is not a number. -/
def topExponent (f : FloatFormat) : Nat := twoPow f.exponentBits - 1

/-- The bits of positive infinity. -/
def infinity (f : FloatFormat) : Nat := f.topExponent * twoPow f.fractionBits

/-- The bit of the sign, as a number. -/
def signBit (f : FloatFormat) : Nat := twoPow (f.fractionBits + f.exponentBits)

/-- The exponent of the last place of the smallest numbers. -/
def leastExponent (f : FloatFormat) : Int :=
  2 - twoPow (f.exponentBits - 1) - f.fractionBits

/-- Whether bits have the sign. -/
def isNegative (f : FloatFormat) (bits : Nat) : Bool := f.signBit ≤ bits

/-- Bits without the sign. -/
def magnitude (f : FloatFormat) (bits : Nat) : Nat := bits % f.signBit

/-- Bits without the sign, given it. -/
def withSign (f : FloatFormat) (negative : Bool) (magnitude : Nat) : Nat :=
  if negative then f.signBit + magnitude else magnitude

/-- Whether bits stand for no number. -/
def isNaN (f : FloatFormat) (bits : Nat) : Bool := f.infinity < f.magnitude bits

/-- Whether bits stand for a number that is not infinite. -/
def isFinite (f : FloatFormat) (bits : Nat) : Bool := f.magnitude bits < f.infinity

/-- The integer and the exponent of two whose product is the magnitude of a finite number. -/
def parts (f : FloatFormat) (bits : Nat) : Nat × Int :=
  let field := f.magnitude bits / twoPow f.fractionBits
  let fraction := f.magnitude bits % twoPow f.fractionBits
  if field = 0 then (fraction, f.leastExponent)
  else (twoPow f.fractionBits + fraction, f.leastExponent + (field - 1))

/-- `m / 2 ^ k` to the nearest integer, a half to the even one. -/
def shiftRounded (m k : Nat) : Nat :=
  let q := m / twoPow k
  let r := m % twoPow k
  if 2 * r < twoPow k ∨ (2 * r = twoPow k ∧ q % 2 = 0) then q else q + 1

/-- The magnitude bits of the number next to `m * 2 ^ e`, if that is finite. -/
def round? (f : FloatFormat) (m : Nat) (e : Int) : Option Nat :=
  if m = 0 then some 0
  else
    let place := max (e + Nat.log2 m - f.fractionBits) f.leastExponent
    let n := if place ≤ e then m * twoPow (e - place).toNat else shiftRounded m (place - e).toNat
    let bits := (place - f.leastExponent).toNat * twoPow f.fractionBits + n
    if bits < f.infinity then some bits else none

end FloatFormat

open FloatFormat

/-- The bits of 32 for a number of 64, rounded; nothing if a finite number becomes too large. -/
def narrow? (bits : Nat) : Option Nat :=
  let negative := binary64.isNegative bits
  if binary64.isFinite bits then
    let (m, e) := binary64.parts bits
    (binary32.round? m e).map (binary32.withSign negative)
  else if binary64.isNaN bits then
    let payload := bits % twoPow 52 / twoPow 29
    some (binary32.withSign negative (binary32.infinity + twoPow 22 + payload % twoPow 22))
  else some (binary32.withSign negative binary32.infinity)

/-- The bits of 64 for a number of 32, which is the same number. -/
def widen (bits : Nat) : Nat :=
  let negative := binary32.isNegative bits
  if binary32.isFinite bits then
    let (m, e) := binary32.parts bits
    binary64.withSign negative ((binary64.round? m e).getD 0)
  else if binary32.isNaN bits then
    binary64.withSign negative (binary64.infinity + twoPow 51 + bits % twoPow 22 * twoPow 29)
  else binary64.withSign negative binary64.infinity

/-- The bits of 64 of the number next to an integer, if that is finite. -/
def ofInt? (n : Int) : Option Nat :=
  (binary64.round? n.natAbs 0).map (binary64.withSign (n < 0))

/-- Whether two numbers in 64 bits are equal: the zeros are, and what is no number equals nothing. -/
def sameReal (a b : Nat) : Bool :=
  !binary64.isNaN a && !binary64.isNaN b &&
    (a == b || (binary64.magnitude a == 0 && binary64.magnitude b == 0))

/-- Whether a number in 64 bits is an integer, and which. -/
def isInteger (bits : Nat) (n : Int) : Bool :=
  let (m, e) := binary64.parts bits
  binary64.isFinite bits && (binary64.magnitude bits == 0 || binary64.isNegative bits == decide (n < 0)) &&
    (if 0 ≤ e then m * twoPow e.toNat == n.natAbs else m == n.natAbs * twoPow (-e).toNat)

end Bindgen.Wire
