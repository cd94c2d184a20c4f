import Bindgen.Failure

/-!
# The type table

A model's definitions under their names. `Model.table` fails on the first name that two definitions share;
`Table.resolve` finds a definition, and says where the name was used when there is none.
-/

namespace Bindgen.Resolve

open Interface

/-- Definitions under their names, in declaration order. -/
abbrev Table := List (String × Definition)

/-- Adds definitions to a table, up to the first whose name is taken. -/
def Table.addAll : Table → List Definition → Except Failure Table
  | table, [] => .ok table
  | table, d :: ds =>
    if (table.lookup d.name).isSome then .error (.duplicateType d.name)
    else Table.addAll (table ++ [(d.name, d)]) ds

/-- The type table of a model. -/
def tableOf (m : Model) : Except Failure Table :=
  Table.addAll [] m.definitions

/-- The definition of a name that is used in `context`. -/
def Table.resolve (table : Table) (name : String) (context : Option String) :
    Except Failure Definition :=
  match table.lookup name with
  | some d => .ok d
  | none => .error (.unresolved name context)

/-- The definition of a name that a callable at `context` throws, which has to be an error. -/
def Table.resolveError (table : Table) (name : String) (context : Option String) :
    Except Failure Choice := do
  match ← table.resolve name context with
  | .error c => return c
  | d => throw (.notAnError name context d.kind)

end Bindgen.Resolve
