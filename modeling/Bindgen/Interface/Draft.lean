import Bindgen.Interface.Model
import Bindgen.Json.Basic

/-!
# Models as they are read

Reading a serialized model asks of a name only that it is there. A `Draft` is what comes of it: a model with
parsed types in which any value may stand as a name. `Draft.model` is the model it stands for. There is none if
some name is no text, or a broken one: code may be generated for such a draft too, and what it looks like is not
covered.
-/

namespace Bindgen.Interface

/-- A field, as it is read. -/
structure Draft.Field where
  name : Json.Raw
  type : Ty
  deriving Repr

/-- A record, as it is read. -/
structure Draft.Record where
  name : Json.Raw
  fields : List Draft.Field
  deriving Repr

/-- A variant, as it is read. -/
structure Draft.Variant where
  name : Json.Raw
  fields : List Draft.Field
  deriving Repr

/-- An enum or an error, as it is read. -/
structure Draft.Choice where
  name : Json.Raw
  variants : List Draft.Variant
  deriving Repr

/-- A parameter, as it is read. -/
structure Draft.Param where
  name : Json.Raw
  type : Ty
  consumed : Bool
  deriving Repr

/-- A callable, as it is read; `throws` is null where nothing is thrown. -/
structure Draft.Callable where
  name : Json.Raw
  params : List Draft.Param
  returns : Option Ty
  throws : Json.Raw
  deriving Repr

/-- An object, as it is read. -/
structure Draft.Object where
  name : Json.Raw
  constructors : List Draft.Callable
  methods : List Draft.Callable
  deriving Repr

/-- A model, as it is read. -/
structure Draft where
  ns : Json.Raw
  records : List Draft.Record
  enums : List Draft.Choice
  errors : List Draft.Choice
  objects : List Draft.Object
  functions : List Draft.Callable
  deriving Repr

namespace Draft

/-- The name that a value is. -/
def nameOf : Json.Raw → Option String
  | .string s => s.text?
  | _ => none

/-- The name of what is thrown, if anything is. -/
def throwsOf : Json.Raw → Option (Option String)
  | .null => some none
  | j => some <$> nameOf j

/-- The field that is meant. -/
def Field.field (f : Draft.Field) : Option Interface.Field :=
  return ⟨← nameOf f.name, f.type⟩

/-- The record that is meant. -/
def Record.record (r : Draft.Record) : Option Interface.Record :=
  return ⟨← nameOf r.name, ← r.fields.mapM Field.field⟩

/-- The variant that is meant. -/
def Variant.variant (v : Draft.Variant) : Option Interface.Variant :=
  return ⟨← nameOf v.name, ← v.fields.mapM Field.field⟩

/-- The enum or error that is meant. -/
def Choice.choice (c : Draft.Choice) : Option Interface.Choice :=
  return ⟨← nameOf c.name, ← c.variants.mapM Variant.variant⟩

/-- The parameter that is meant. -/
def Param.param (p : Draft.Param) : Option Interface.Param :=
  return ⟨← nameOf p.name, p.type, p.consumed⟩

/-- The callable that is meant, which is of the kind that stands in its place. -/
def Callable.callable (kind : CallableKind) (c : Draft.Callable) : Option (Interface.Callable.Of kind) :=
  return ⟨⟨kind, ← nameOf c.name, ← c.params.mapM Param.param, c.returns, ← throwsOf c.throws⟩, rfl⟩

/-- The object that is meant. -/
def Object.object (o : Draft.Object) : Option Interface.Object := do
  let name ← nameOf o.name
  let constructors ← o.constructors.mapM (Callable.callable .constructor)
  let methods ← o.methods.mapM (Callable.callable .method)
  return ⟨name, constructors.map (·.1), methods.map (·.1), Callable.Of.all _, Callable.Of.all _⟩

/-- The model that is meant. -/
def model (d : Draft) : Option Model := do
  let ns ← nameOf d.ns
  let records ← d.records.mapM Record.record
  let enums ← d.enums.mapM Choice.choice
  let errors ← d.errors.mapM Choice.choice
  let objects ← d.objects.mapM Object.object
  let functions ← d.functions.mapM (Callable.callable .function)
  return ⟨ns, records, enums, errors, objects, functions.map (·.1), Callable.Of.all _⟩

end Draft

end Bindgen.Interface
