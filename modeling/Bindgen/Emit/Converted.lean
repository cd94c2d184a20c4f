import Bindgen.Interface.Model
import Bindgen.Resolve.Traversal
import Bindgen.Text.Case

/-!
# What has a converter

Generated code declares one converter for every definition and for every optional, sequence and map that a
model uses. A box has none of its own: its converter is that of what is in it. `Converted.all` lists the
converters of a model in the order of their declarations, and `Converted.parts` says which others one uses.
-/

namespace Bindgen.Emit

open Interface

/-- The name of the support code in a module. -/
def supportName : String := "_rt"

/-- The expression that names the converter of a type; a box has the converter of what is in it. -/
def converterExpr : Ty → String
  | .box t => converterExpr t
  | .prim p => supportName ++ "." ++ Text.upper p.canonical
  | .string => supportName ++ ".STRING"
  | .bytes => supportName ++ ".BYTES"
  | t => "_converter_" ++ t.canonical

/-- The name of the module under which the converter of a type is found. -/
def converterSource (t : Ty) : String :=
  match t.unbox with
  | .prim _ | .string | .bytes => supportName
  | t => converterExpr t

/-- The class of the converter of a definition. -/
def converterClass (name : String) : String :=
  "_Converter" ++ (Ty.named name).canonical

/-- What a converter is declared for. -/
inductive Converted where
  | definition (d : Definition)
  | composite (t : Ty)
  deriving DecidableEq, Repr

namespace Converted

/-- The type whose values are converted. -/
def type : Converted → Ty
  | definition d => .named d.name
  | composite t => t

/-- The types inside, whose converters are used. -/
def parts : Converted → List Ty
  | definition d => d.fields.map (·.type)
  | composite t => t.children

/-- Whether a type is a box. -/
def isBox : Ty → Bool
  | .box _ => true
  | _ => false

/-- Everything in a model that has a converter of its own: the definitions, then the composites, each after
those inside it. -/
def all (m : Model) : List Converted :=
  m.definitions.map .definition ++ (m.composites.filter (!isBox ·)).map .composite

end Converted

end Bindgen.Emit
