import Bindgen.Text.Literal
import Bindgen.Wire.Decimal
import Bindgen.Wire.Value

/-!
# Values in messages

`Value.literal` is a value as messages show it inside another one, and `Value.shown` as they show it by
itself: a text, an error and a member of an enum are shown without their frame there.
-/

namespace Bindgen.Wire.Value

open Text

/-- A member of an enum by its names. -/
def memberText (s : Schema) (owner : String) (index : Nat) : String :=
  owner ++ "." ++ s.memberName owner index

mutual

/-- A value as a literal. -/
def literal (s : Schema) : Value → Literal
  | none => .word "None"
  | bool b => .word (if b then "True" else "False")
  | int n => .word (toString n)
  | real bits => .word (realText bits.toNat)
  | text t => .text t
  | broken b => .broken b
  | bytes b => .bytes b
  | byteArray b => .wrapped "bytearray" (.bytes b)
  | view _ => .word "<memory>"
  | list xs => .list (literalAll s xs)
  | tuple xs => .tuple (literalAll s xs)
  | map entries => .table (literalEntries s entries)
  | iterable className _ _ => .word s!"<{className}>"
  | .instance cls fields => .fields (s.className cls) (literalFields s fields)
  | member owner index =>
    .word s!"<{memberText s owner index}: {index + firstVariant}>"
  | failure cls code message fields =>
    let hidden := (literalFields s fields).lookup "code"
    .fields (s.className cls)
      [("code", .word ((hidden.map Literal.bare).getD (toString code))), ("message", .text message)]
  | object cls _ _ => .word s!"<{cls.name}>"

/-- Some values as literals. -/
def literalAll (s : Schema) : List Value → List Literal
  | [] => []
  | v :: rest => literal s v :: literalAll s rest

/-- Some entries as literals. -/
def literalEntries (s : Schema) : List (Value × Value) → List (Literal × Literal)
  | [] => []
  | (k, v) :: rest => (literal s k, literal s v) :: literalEntries s rest

/-- Some fields as literals. -/
def literalFields (s : Schema) : List (String × Value) → List (String × Literal)
  | [] => []
  | (name, v) :: rest => (name, literal s v) :: literalFields s rest

end

/-- A value by itself. -/
def shown (s : Schema) (v : Value) : String :=
  match v with
  | member owner index => memberText s owner index
  | failure _ _ message _ => message
  | v => (literal s v).bare

end Bindgen.Wire.Value
