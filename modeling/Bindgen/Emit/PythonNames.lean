import Bindgen.Derive
import Bindgen.Emit.PythonModule
import Bindgen.Identifier.Name

/-!
# Names in the Python module

A model may use any names, but not under all of them the generated module can be loaded. `isLoadable` says
when it can: where something is bound there is an identifier that is no keyword, names differ that have to
differ, and no definition takes away a name that the module still needs while it is loaded.
-/

namespace Bindgen.Emit.PythonModule

open Interface Boundary Resolve Identifier

/-- Whether all names differ. -/
def distinct (names : List String) : Bool := decide names.Nodup

/-- Whether the fields of a record or variant can be bound. -/
def fieldsBind (fields : List Field) : Bool :=
  let names := fields.map fun f => escapePython f.name
  names.all (fun n => isBindable n && n ∉ classParts) && distinct names

/-- Whether parameters can be bound beside others, where names are called what `inside` says. -/
def paramsBind (inside : String → String) (others : List String) (params : List Param) : Bool :=
  let names := others ++ params.map fun p => escapePython p.name
  names.all isBindable && distinct (names.map inside)

/-- Whether the name of a class of a variant can be found under its owner. -/
def variantBinds (v : Variant) : Bool :=
  isName (pascal v.name) && pascal v.name ∉ ["None", "True", "False"]

/-- Whether the members of an enum can be bound: reserved names cannot, and no name is bound twice. -/
def membersBind (c : Choice) : Bool :=
  let names := c.variants.map fun v => mangled c.name (upperSnake v.name)
  names.all (fun n => isName n && (isOwnOf c.name n || !isSunder n)) && distinct names

/-- Whether no field without a value comes after one that has a value from its class. -/
def defaultsLast (known : List String) (fields : List Field) : Bool :=
  let unset := (fields.map fun f => escapePython f.name).dropWhile (· ∉ known)
  unset.all (· ∈ known)

/-- Whether the variants of an enum have fields that fit, after those whose names the class knows already. -/
def variantsFit : List String → List Variant → Bool
  | _, [] => true
  | known, v :: rest =>
    variantBinds v && fieldsBind v.fields && defaultsLast known v.fields &&
      variantsFit (pascal v.name :: known) rest

/-- Whether a variant of an error fits. -/
def errorVariantFits (v : Variant) : Bool :=
  let names := ["self", "message"] ++ v.fields.map fun f => escapePython f.name
  variantBinds v && names.all isBindable && distinct names

/-- What a callable has in front of its parameters. -/
def receiverParams (c : Callable) : List String :=
  match c.kind with
  | .function => []
  | .method => ["self"]
  | .constructor => if c.isPrimary then ["self"] else ["cls"]

/-- Whether a callable can be defined where names are called what `inside` says. -/
def callableFits (table : Table) (inside : String → String) (c : Callable) : Bool :=
  let plan := CallPlan.ofCallable table localName "" c
  isBindable (escapePython c.name) && paramsBind inside (receiverParams c) c.params &&
    (plan.inPlace || plan.slots.all fun s => isBindable s.target)

/-- The name under which a class lists the attributes of its instances. -/
def slotsName : String := "__slots__"

/-- Whether everything in a definition can be bound. -/
def definitionFits (table : Table) (d : Definition) : Bool :=
  isBindable d.name &&
    match d with
    | .record r => fieldsBind r.fields && defaultsLast classNames r.fields
    | .enum c => if c.isFlat then membersBind c else variantsFit classNames c.variants
    | .error c => c.variants.all errorVariantFits
    | .object o => o.callables.all fun c =>
      callableFits table (mangled o.name) c && escapePython c.name != slotsName

/-! ## What is needed while loading -/

/-- The module with the generic type hints. -/
def hintModule : String := "typing"

/-- Whether the hint of a type is looked up when the module is loaded. -/
def needsHintModule : Ty → Bool
  | .box t => needsHintModule t
  | .optional t | .sequence t => !mentionsName t
  | .map k v => !(mentionsName k || mentionsName v)
  | _ => false

/-- What fields need. -/
def fieldNeeds (fields : List Field) : List String :=
  if fields.any fun f => needsHintModule f.type then [hintModule] else []

/-- What a callable needs. -/
def callableNeeds (c : Callable) : List String :=
  (if c.params.any (fun p => needsHintModule p.type) || c.returns.any needsHintModule then [hintModule]
   else []) ++
  if c.kind = .constructor && !c.isPrimary then ["classmethod"] else []

/-- What a class of data needs. -/
def dataNeeds (fields : List Field) : List String := "dataclasses" :: fieldNeeds fields

/-- The names that a definition needs before its own is bound, and after that. -/
def definitionNeeds : Definition → List String × List String
  | .record r => (dataNeeds r.fields, [])
  | .enum c =>
    if c.isFlat then (["enum"], []) else ([], c.variants.flatMap fun v => dataNeeds v.fields)
  | .error c =>
    let absent := c.variants.any fun v => v.fields.any fun f => !mentionsName f.type
    (["_rt"], if absent then [hintModule] else [])
  | .object o => ("_rt" :: o.callables.flatMap callableNeeds, [])

/-- Whether the callables of a scope find what they need, though each takes its name away from the later
ones. -/
def callablesFind : List String → List Callable → Bool
  | _, [] => true
  | taken, c :: rest =>
    (callableNeeds c).all (· ∉ taken) && callablesFind (escapePython c.name :: taken) rest

/-- Whether a definition finds what it needs in its own scope. -/
def ownScopeFinds : Definition → Bool
  | .object o =>
    callablesFind [] ((o.constructors.filter (!·.isPrimary)) ++ o.methods)
  | _ => true

/-- Whether all definitions find what they need, though each takes its name away from the later ones. -/
def definitionsFind : List String → List Definition → Bool
  | taken, [] => "_rt" ∉ taken
  | taken, d :: rest =>
    let (before, after) := definitionNeeds d
    before.all (· ∉ taken) && after.all (· ∉ d.name :: taken) && ownScopeFinds d &&
      definitionsFind (d.name :: taken) rest

/-- Whether the module of a model can be loaded, given the model's type table and symbols. -/
def isLoadable (m : Model) (table : Table) (symbols : List Signature) : Bool :=
  symbols.all (isName ·.name) &&
  m.definitions.all (definitionFits table) &&
  m.functions.all (callableFits table id) &&
  definitionsFind [] m.definitions &&
  callablesFind (m.definitions.map (·.name)) m.functions

end Bindgen.Emit.PythonModule
