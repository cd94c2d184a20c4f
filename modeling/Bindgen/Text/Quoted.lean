import Bindgen.Text.Classes

/-!
# Quoted literals

`quoted s` is `s` as a literal between quotation marks: single ones, or double ones when the text holds a
single mark and no double one. The mark itself and the backslash are escaped, tab, line feed and carriage
return have short escapes, and any other character that does not print is written by its number.
-/

namespace Bindgen.Text

/-- `n` in hexadecimal with at least `width` digits. -/
def hexPadded (width n : Nat) : List Char :=
  let digits := Nat.toDigits 16 n
  List.replicate (width - digits.length) '0' ++ digits

/-- One character inside a literal whose mark is `mark`. -/
def quotedChar (mark c : Char) : List Char :=
  if c = mark ∨ c = '\\' then ['\\', c]
  else if c = '\t' then ['\\', 't']
  else if c = '\n' then ['\\', 'n']
  else if c = '\r' then ['\\', 'r']
  else if isPrintable c then [c]
  else if c.toNat < 0x100 then '\\' :: 'x' :: hexPadded 2 c.toNat
  else if c.toNat < 0x10000 then '\\' :: 'u' :: hexPadded 4 c.toNat
  else '\\' :: 'U' :: hexPadded 8 c.toNat

/-- The mark around a literal of `cs`: double only where that avoids an escape. -/
def quotedMark (cs : List Char) : Char :=
  if '\'' ∈ cs ∧ '"' ∉ cs then '"' else '\''

/-- A text as a literal. -/
def quoted (s : String) : String :=
  let cs := s.toList
  let mark := quotedMark cs
  String.ofList (mark :: cs.flatMap (quotedChar mark) ++ [mark])

/-- A list of texts as a literal: the items in square brackets, separated by a comma and a blank. -/
def quotedList (items : List String) : String :=
  "[" ++ ", ".intercalate (items.map quoted) ++ "]"

end Bindgen.Text
