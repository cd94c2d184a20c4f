import Bindgen.Text.Case
import Bindgen.Text.Pieces

/-!
# Case styles of identifiers

Interface names come in snake, camel or Pascal case; generated code wants one of three styles. `camel` and
`pascal` cut a name at its low lines and put the pieces together with capitals; `upperSnake` puts a low
line before each capital that follows a small letter or a digit, and then turns everything to capitals.
-/

namespace Bindgen.Identifier

open Text

/-- A piece with its first character in upper case. -/
def capitalize : List Char → List Char
  | [] => []
  | c :: cs => upperChar c ++ cs

/-- `snake_case` as `camelCase`: the first piece as it is, the others capitalised. -/
def camel (name : String) : String :=
  match pieces '_' name.toList with
  | [] => ""
  | head :: rest => String.ofList (head ++ rest.flatMap capitalize)

/-- `snake_case` or `camelCase` as `PascalCase`: every piece capitalised. -/
def pascal (name : String) : String :=
  String.ofList ((pieces '_' name.toList).flatMap capitalize)

/-- A small letter or a digit, of the 26 and ten. -/
def isSmallOrDigit (c : Char) : Bool :=
  c.isLower || c.isDigit

/-- A low line before each capital (of the 26) that follows a small letter or digit. -/
def separateCapitals : List Char → List Char
  | [] => []
  | [c] => [c]
  | c :: d :: cs =>
    if isSmallOrDigit c && d.isUpper then c :: '_' :: separateCapitals (d :: cs)
    else c :: separateCapitals (d :: cs)

/-- `PascalCase` or `camelCase` as `UPPER_SNAKE`. -/
def upperSnake (name : String) : String :=
  String.ofList (upperChars (separateCapitals name.toList))

end Bindgen.Identifier
