import Bindgen.Json.Basic
import Bindgen.Text.Quoted

/-!
# Writing JSON

`Json.compress` writes a value on one line without blanks. Control characters of a string are escaped by
number, and the quotation mark and the backslash by a backslash; everything else stands for itself.
-/

namespace Bindgen.Json

/-- One character inside a string. -/
def escapeChar (c : Char) : List Char :=
  if c = '"' ∨ c = '\\' then ['\\', c]
  else if c.toNat < 0x20 then '\\' :: 'u' :: Text.hexPadded 4 c.toNat
  else [c]

/-- A text as a JSON string. -/
def escape (s : String) : String :=
  "\"" ++ String.ofList (s.toList.flatMap escapeChar) ++ "\""

/-- A number as it is written. -/
def Number.text : Number → String
  | int n => toString n
  | decimal negative m e => (if negative then "-" else "") ++ toString m ++ "e" ++ toString e
  | nan => "NaN"
  | infinity negative => if negative then "-Infinity" else "Infinity"

mutual

/-- A value on one line. -/
def compress : Json → String
  | .null => "null"
  | .bool b => if b then "true" else "false"
  | .number n => n.text
  | .string s => escape s
  | .array items => "[" ++ ",".intercalate (compressItems items) ++ "]"
  | .object members => "\x7b" ++ ",".intercalate (compressMembers members) ++ "\x7d"

/-- The items of an array, each on one line. -/
def compressItems : List Json → List String
  | [] => []
  | v :: rest => compress v :: compressItems rest

/-- The members of an object, each on one line. -/
def compressMembers : List (String × Json) → List String
  | [] => []
  | (k, v) :: rest => (escape k ++ ":" ++ compress v) :: compressMembers rest

end

end Bindgen.Json
