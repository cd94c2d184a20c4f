import Bindgen.Json.Basic
import Bindgen.Text.Literal
import Bindgen.Wire.Decimal

/-!
# JSON values as literals

Where a value stands in for a text, its literal is shown (`literal`). As a key of an object a value
that is no text is written in JSON (`Json.keyText?`).
-/

namespace Bindgen

open Text Wire

namespace Json

/-- The bits of the number of 64 bits next to a JSON number that is no integer. -/
def Number.bits : Number → Nat
  | int n => (ofInt? n).getD FloatFormat.binary64.infinity
  | decimal negative m e => FloatFormat.binary64.withSign negative
      ((ofDecimal? m e).getD FloatFormat.binary64.infinity)
  | nan => FloatFormat.binary64.infinity + twoPow 51
  | infinity negative => FloatFormat.binary64.withSign negative FloatFormat.binary64.infinity

/-- A number as it is shown. -/
def Number.shown : Number → String
  | int n => toString n
  | n => realText n.bits

end Json

namespace JsonOf

variable {τ : Type}

mutual

/-- A value as a literal, its texts being those that `quote` gives. -/
def literalBy (quote : τ → Literal) : JsonOf τ → Literal
  | null => .word "None"
  | bool b => .word (if b then "True" else "False")
  | number n => .word n.shown
  | string s => quote s
  | array items => .list (literalAllBy quote items)
  | object members => .table (literalMembersBy quote members)

/-- Some values as literals. -/
def literalAllBy (quote : τ → Literal) : List (JsonOf τ) → List Literal
  | [] => []
  | v :: rest => literalBy quote v :: literalAllBy quote rest

/-- Some members as entries of a table. -/
def literalMembersBy (quote : τ → Literal) : List (τ × JsonOf τ) → List (Literal × Literal)
  | [] => []
  | (k, v) :: rest => (quote k, literalBy quote v) :: literalMembersBy quote rest

end

end JsonOf

namespace Json

/-- A value as a literal. -/
def literal : Json → Literal := JsonOf.literalBy .text

/-- A value that was read as a literal. -/
def Raw.literal : Raw → Literal := JsonOf.literalBy Str.literal

/-- A value as a key of an object, if it can be one. -/
def keyText? : Json → Option String
  | .null => some "null"
  | .bool b => some (if b then "true" else "false")
  | .number .nan => some "NaN"
  | .number (.infinity negative) => some (if negative then "-Infinity" else "Infinity")
  | .number n => some n.shown
  | .string s => some s
  | .array _ | .object _ => none

end Json

end Bindgen
