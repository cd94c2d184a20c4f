import Bindgen.Interface.Model

/-!
# The types of a model

`Model.types` lists every type that a model uses, once each and after the types inside it;
`Model.composites` lists those built from others.
-/

namespace Bindgen.Interface

/-- Adds a type to a list unless it is there. -/
def addNew (seen : List Ty) (t : Ty) : List Ty :=
  if t ∈ seen then seen else seen ++ [t]

/-- Adds a type and the types inside it, inner ones first. -/
def addTypes : Ty → List Ty → List Ty
  | .optional t, seen => addNew (addTypes t seen) (.optional t)
  | .sequence t, seen => addNew (addTypes t seen) (.sequence t)
  | .box t, seen => addNew (addTypes t seen) (.box t)
  | .map k v, seen => addNew (addTypes v (addTypes k seen)) (.map k v)
  | t, seen => addNew seen t

/-- The types that a definition mentions: its own name, then those of its fields. -/
def Definition.roots (d : Definition) : List Ty :=
  .named d.name :: d.fields.map (·.type)

/-- The types that a callable mentions: those of its parameters, then its result. -/
def Callable.roots (c : Callable) : List Ty :=
  c.params.map (·.type) ++ c.returns.toList

/-- The types that a model mentions, in declaration order and with repetitions. -/
def Model.roots (m : Model) : List Ty :=
  m.definitions.flatMap (·.roots) ++ m.callables.flatMap (·.2.roots)

/-- Every type that a model uses, inner ones first. -/
def Model.types (m : Model) : List Ty :=
  m.roots.foldl (fun seen t => addTypes t seen) []

/-- Every optional, sequence, map and box that a model uses, inner ones first. -/
def Model.composites (m : Model) : List Ty :=
  m.types.filter (·.isComposite)

end Bindgen.Interface
