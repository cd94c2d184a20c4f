import Bindgen.Wire.Real

/-!
# Decimal notation of real numbers

`ofDecimal?` gives the binary number next to `m * 10 ^ e`, and `shortest` the other way round the fewest
digits that read back. Of two texts with as few digits the nearer one counts, and of two equally near ones
the even one. All of it is exact arithmetic on integers.
-/

namespace Bindgen.Wire

open FloatFormat

/-- A power of ten. -/
def tenPow (k : Nat) : Nat := Nat.pow 10 k

/-- How many decimal digits a number has; zero has one. -/
def digitCount (n : Nat) : Nat := (Nat.toDigits 10 n).length

/-- The magnitude bits of the number next to `num / den`, if that is finite. The quotient is taken to two
places more than are kept, and whether something is left over makes one more. -/
def roundRatio? (f : FloatFormat) (num den : Nat) : Option Nat :=
  let k := f.fractionBits + 4 + Nat.log2 den - Nat.log2 num
  let q := num * twoPow k / den
  let rest := num * twoPow k % den
  f.round? (2 * q + (if rest = 0 then 0 else 1)) (-(k : Int) - 1)

/-- Decimal exponents beyond which every number is infinite or zero. -/
def decimalReach : Int := 400

/-- The magnitude bits of the number of 64 bits next to `m * 10 ^ e`, if that is finite. -/
def ofDecimal? (m : Nat) (e : Int) : Option Nat :=
  let top := digitCount m + e
  if m = 0 ∨ top < -decimalReach then some 0
  else if decimalReach < top then none
  else if 0 ≤ e then roundRatio? binary64 (m * tenPow e.toNat) 1
  else roundRatio? binary64 m (tenPow (-e).toNat)

/-- The place of the decimal point: `num / den` is below `10` to this power, and not below the next smaller
one. -/
def decimalPoint (num den : Nat) : Int :=
  if den ≤ num then digitCount (num / den)
  else
    let k := digitCount (den / num) - 1
    if den ≤ num * tenPow k then 1 - (k : Int) else -k

/-- The integer next to `num / den` that `reads` accepts, of the two around it; the nearer one first, of
two equally near ones the even one. -/
def neighbour? (reads : Nat → Bool) (num den : Nat) : Option Nat :=
  let q := num / den
  let r := num % den
  let below := 2 * r < den ∨ (2 * r = den ∧ q % 2 = 0)
  (if below then [q, q + 1] else [q + 1, q]).find? reads

/-- The digits of the number with these magnitude bits, as an integer with an exponent: `n` of them at
least, and more until they read back. -/
def digitsFrom (bits num den : Nat) (point : Int) : Nat → Nat → Nat × Int
  | 0, _ => (0, 0)
  | more + 1, n =>
    let e := point - n
    let found := neighbour? (fun c => ofDecimal? c e == some bits)
      (num * tenPow (-e).toNat) (den * tenPow e.toNat)
    match found with
    | some c => (c, e)
    | none => digitsFrom bits num den point more (n + 1)

/-- The most digits that are needed. -/
def maxDigits : Nat := 17

/-- The integer with the fewest digits, and its decimal exponent, that read back as the finite number with
these magnitude bits. -/
def shortest (bits : Nat) : Nat × Int :=
  let (m, e) := binary64.parts bits
  if m = 0 then (0, 0)
  else
    let num := m * twoPow e.toNat
    let den := twoPow (-e).toNat
    digitsFrom bits num den (decimalPoint num den) maxDigits 1

/-- An integer without the zeros at its end, which are counted into the exponent, in at most `fuel` steps. -/
def withoutZeros : Nat → Nat → Int → Nat × Int
  | 0, c, e => (c, e)
  | fuel + 1, c, e => if c ≠ 0 ∧ c % 10 = 0 then withoutZeros fuel (c / 10) (e + 1) else (c, e)

/-- The exponents that are written by zeros. -/
def isPositional (exponent : Int) : Bool := -4 ≤ exponent ∧ exponent < 16

/-- Digits with a point after `point` of them, and at least one digit on either side. -/
def positional (digits : List Char) (point : Int) : List Char :=
  if point ≤ 0 then '0' :: '.' :: (List.replicate (-point).toNat '0' ++ digits)
  else
    let n := point.toNat
    if digits.length ≤ n then digits ++ List.replicate (n - digits.length) '0' ++ ['.', '0']
    else digits.take n ++ '.' :: digits.drop n

/-- Digits with the point after the first one, and the exponent with its sign and two digits at least. -/
def scientific (digits : List Char) (exponent : Int) : List Char :=
  let mantissa := match digits with
    | d :: e :: rest => d :: '.' :: e :: rest
    | ds => ds
  let size := Nat.toDigits 10 exponent.natAbs
  mantissa ++ ['e', if exponent < 0 then '-' else '+'] ++
    (if size.length < 2 then '0' :: size else size)

/-- The text of a finite number by its magnitude bits: the fewest digits, without an exponent where that is
not too long. -/
def magnitudeText (bits : Nat) : List Char :=
  let (c, e) := shortest bits
  let (c, e) := withoutZeros maxDigits c e
  let digits := Nat.toDigits 10 c
  let exponent := if c = 0 then 0 else e + digits.length - 1
  if isPositional exponent then positional digits (exponent + 1) else scientific digits exponent

/-- The text of a number of 64 bits. -/
def realText (bits : Nat) : String :=
  if binary64.isNaN bits then "nan"
  else
    let sign := if binary64.isNegative bits then ['-'] else []
    String.ofList (sign ++
      if binary64.isFinite bits then magnitudeText (binary64.magnitude bits) else ['i', 'n', 'f'])

/-! ## Reading -/

/-- Whether an underscore stands only between digits, given the character before. -/
def underscoresFit (before : Char) : List Char → Bool
  | [] => before != '_'
  | c :: cs =>
    (if c == '_' then before.isDigit else before != '_' || c.isDigit) && underscoresFit c cs

/-- The number that ASCII digits write. -/
def digitsNat (ds : List Char) : Nat :=
  ds.foldl (fun n d => n * 10 + (d.toNat - '0'.toNat)) 0

/-- The exponent that a text is, of which a sign and at least one digit are left over. -/
def exponent? : List Char → Option Int
  | [] => some 0
  | e :: cs =>
    if e = 'e' ∨ e = 'E' then
      let (negative, ds) := match cs with
        | '-' :: ds => (true, ds)
        | '+' :: ds => (false, ds)
        | ds => (false, ds)
      if ds.isEmpty || !ds.all Char.isDigit then none
      else some (if negative then -digitsNat ds else digitsNat ds)
    else none

/-- The magnitude bits that a text without sign and underscores means. A number that is too large is
infinite. -/
def magnitude? (cs : List Char) : Option Nat :=
  let lower := cs.map Char.toLower
  if lower = "inf".toList ∨ lower = "infinity".toList then some binary64.infinity
  else if lower = "nan".toList then some (binary64.infinity + twoPow 51)
  else
    let (whole, rest) := cs.span Char.isDigit
    let (fraction, rest) := match rest with
      | '.' :: rest => rest.span Char.isDigit
      | rest => ([], rest)
    if whole.isEmpty ∧ fraction.isEmpty then none
    else (exponent? rest).map fun e =>
      (ofDecimal? (digitsNat (whole ++ fraction)) (e - fraction.length)).getD binary64.infinity

/-- White space around a number. -/
def isNumberSpace (c : Char) : Bool :=
  c == ' ' || ('\t' ≤ c && c ≤ '\r')

/-- Characters without the white space around them. -/
def trimmed (cs : List Char) : List Char :=
  ((cs.dropWhile isNumberSpace).reverse.dropWhile isNumberSpace).reverse

/-- The bits of the number of 64 bits that ASCII characters write, with white space around it, a sign, and
underscores between digits. -/
def parseReal? (cs : List Char) : Option Nat :=
  let cs := trimmed cs
  if !underscoresFit ' ' cs then none
  else match cs.filter (· != '_') with
    | '-' :: cs => (magnitude? cs).map (binary64.withSign true)
    | '+' :: cs => magnitude? cs
    | cs => magnitude? cs

end Bindgen.Wire
