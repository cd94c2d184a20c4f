import Bindgen.Failure
import Bindgen.Interface.Draft
import Bindgen.Json.Literal
import Bindgen.Json.Reader

/-!
# Reading a serialized model

`Model.draftOfText` reads the JSON form of a model. A section that is not there is empty. Where a list is asked
for, an object stands for its keys and a string for its characters; any other value is not covered.
The parts are read in the order records, enums, errors, objects, functions, and the first defect counts.
Names may be anything: which drafts stand for a model is a matter of `Draft.model`.
-/

namespace Bindgen.Interface.Model

open Json (Raw)

/-- The items that a value offers where a list is asked for. -/
def items? : Raw → Option (List Raw)
  | .array xs => some xs
  | .object members => some (members.map (.string ·.1))
  | .string s => some (s.points.map fun p => .string (.ofPoints [p]))
  | _ => none

/-- The items of a section; none if it is not there. -/
def sectionItems (j : Raw) (key : String) : Except Failure (List Raw) :=
  match j.get? key with
  | none => .ok []
  | some v => match items? v with
    | some xs => .ok xs
    | none => .error .uncovered

/-- The value under a key that has to be there. -/
def require (j : Raw) (key context : String) : Except Failure Raw :=
  match j.get? key with
  | some v => .ok v
  | none => .error (.format (.missing key context))

/-- A type expression. -/
def typeOf (j : Raw) (context : String) : Except Failure Ty :=
  match j with
  | .string (.text expr) => match TypeExpr.parse expr with
    | .ok t => .ok t
    | .error e => .error (.format (.typeExpr expr e))
  | .string (.broken expr) => .error (.format (.brokenTypeExpr expr))
  | _ => .error (.format (.typeNotText context))

/-- The type expression under `returns`, if there is one that is not null. -/
def returnsOf (j : Raw) (context : String) : Except Failure (Option Ty) :=
  match j.get? "returns" with
  | none | some .null => .ok none
  | some v => some <$> typeOf v context

/-- What stands under `throws`, null if nothing does. -/
def throwsOf (j : Raw) : Raw :=
  (j.get? "throws").getD .null

/-- A name in a message, which need not be a text. -/
def shown (name : Raw) : String :=
  name.literal.bare

/-- One field of a record or variant. -/
def fieldOf (context : String) (j : Raw) : Except Failure Draft.Field := do
  let name ← require j "name" context
  let type ← typeOf (← require j "type" context) s!"{context}.{shown name}"
  return ⟨name, type⟩

/-- The fields of a record or variant. -/
def fieldsOf (j : Raw) (context : String) : Except Failure (List Draft.Field) := do
  (← sectionItems j "fields").mapM (fieldOf context)

/-- A record. -/
def recordOf (j : Raw) : Except Failure Draft.Record := do
  let name ← require j "name" "record"
  return ⟨name, ← fieldsOf j (shown name)⟩

/-- A variant of an enum or error; a text alone is one without fields. -/
def variantOf (owner : Raw) (j : Raw) : Except Failure Draft.Variant :=
  match j with
  | .string _ => return ⟨j, []⟩
  | _ => do
    let name ← require j "name" (shown owner)
    return ⟨name, ← fieldsOf j s!"{shown owner}.{shown name}"⟩

/-- An enum or an error, `word` being which. -/
def choiceOf (word : String) (j : Raw) : Except Failure Draft.Choice := do
  let name ← require j "name" word
  return ⟨name, ← (← sectionItems j "variants").mapM (variantOf name)⟩

/-- The enums or errors of a model, `word` being which. All names are looked at first. -/
def choicesOf (j : Raw) (key word : String) : Except Failure (List Draft.Choice) := do
  let xs ← sectionItems j key
  xs.forM fun d => discard (require d "name" word)
  xs.mapM (choiceOf word)

/-- One parameter of a callable. -/
def paramOf (context : String) (j : Raw) : Except Failure Draft.Param := do
  let name ← require j "name" context
  let type ← typeOf (← require j "type" context) s!"{context}({shown name})"
  return ⟨name, type, (j.get? "consumed").any JsonOf.truthy⟩

/-- The parameters of a callable. -/
def paramsOf (j : Raw) (context : String) : Except Failure (List Draft.Param) := do
  (← sectionItems j "params").mapM (paramOf context)

/-- A function. -/
def functionOf (j : Raw) : Except Failure Draft.Callable := do
  let name ← require j "name" "function"
  let params ← paramsOf j (shown name)
  let returns ← returnsOf j s!"{shown name} return"
  return ⟨name, params, returns, throwsOf j⟩

/-- A constructor of the object `owner`; without a name it is the primary one. -/
def constructorOf (owner : Raw) (j : Raw) : Except Failure Draft.Callable := do
  if j.members?.isNone then throw .uncovered
  let name := (j.get? "name").getD (.string "new")
  let params ← paramsOf j s!"{shown owner}.{shown name}"
  return ⟨name, params, none, throwsOf j⟩

/-- A method of the object `owner`. -/
def methodOf (owner : Raw) (j : Raw) : Except Failure Draft.Callable := do
  let name ← require j "name" (shown owner)
  let params ← paramsOf j s!"{shown owner}.{shown name}"
  let returns ← returnsOf j s!"{shown owner}.{shown name} return"
  return ⟨name, params, returns, throwsOf j⟩

/-- An object. -/
def objectOf (j : Raw) : Except Failure Draft.Object := do
  let name ← require j "name" "object"
  let constructors ← (← sectionItems j "constructors").mapM (constructorOf name)
  let methods ← (← sectionItems j "methods").mapM (methodOf name)
  return ⟨name, constructors, methods⟩

/-- A model as it is read, from its serialized form. -/
def draftOf (j : Raw) : Except Failure Draft := do
  let ns ← require j "namespace" "model"
  let records ← (← sectionItems j "records").mapM recordOf
  let enums ← choicesOf j "enums" "enum"
  let errors ← choicesOf j "errors" "error"
  let objects ← (← sectionItems j "objects").mapM objectOf
  let functions ← (← sectionItems j "functions").mapM functionOf
  return ⟨ns, records, enums, errors, objects, functions⟩

/-- A model as it is read, from the text of its serialized form. -/
def draftOfText (text : String) : Except Failure Draft :=
  match Json.parse text with
  | .error .malformed => .error (.format .invalidJson)
  | .error .tooManyDigits => .error .uncovered
  | .ok j => if j.members?.isSome then draftOf j else .error (.format .rootNotObject)

end Bindgen.Interface.Model
