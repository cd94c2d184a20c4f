import Bindgen.Interface.Ty

/-!
# Interface models

A `Model` describes one library surface: records, enums, errors and objects, and the functions that use
them. Records, enums and errors travel by value; an object stays in the native library and is known by a
handle.

`Model.definitions` lists what has a name, `Model.callables` what can be called, each with its owner.
-/

namespace Bindgen.Interface

/-- A field of a record or a variant. -/
structure Field where
  name : String
  type : Ty
  deriving DecidableEq, Repr

/-- A record: named fields, in order. -/
structure Record where
  name : String
  fields : List Field
  deriving DecidableEq, Repr

/-- One alternative of an enum or an error, which may carry fields. -/
structure Variant where
  name : String
  fields : List Field
  deriving DecidableEq, Repr

/-- A choice between variants. Enums and errors are of this form. -/
structure Choice where
  name : String
  variants : List Variant
  deriving DecidableEq, Repr

/-- Whether no variant carries fields. -/
def Choice.isFlat (c : Choice) : Bool :=
  c.variants.all (·.fields.isEmpty)

/-- A parameter; the native side frees the argument of a consumed one. -/
structure Param where
  name : String
  type : Ty
  consumed : Bool
  deriving DecidableEq, Repr

/-- The three kinds of callables. -/
inductive CallableKind where
  | function
  | constructor
  | method
  deriving DecidableEq, Repr

/-- A function, a constructor of an object or a method of one. Constructors have no declared result. -/
structure Callable where
  kind : CallableKind
  name : String
  params : List Param
  returns : Option Ty
  throws : Option String
  deriving DecidableEq, Repr

/-- Whether this is the constructor that the class itself stands for. -/
def Callable.isPrimary (c : Callable) : Bool :=
  c.kind == .constructor && c.name == "new"

/-- Whether all of some callables are of a kind. -/
def Callable.all (kind : CallableKind) (cs : List Callable) : Bool :=
  cs.all (·.kind == kind)

theorem Callable.all_iff {kind : CallableKind} {cs : List Callable} :
    Callable.all kind cs = true ↔ ∀ c ∈ cs, c.kind = kind := by
  simp [Callable.all]

/-- A callable of some kind. -/
abbrev Callable.Of (kind : CallableKind) := {c : Callable // c.kind = kind}

/-- Callables of a kind are of that kind. -/
theorem Callable.Of.all {kind : CallableKind} (cs : List (Callable.Of kind)) :
    Callable.all kind (cs.map Subtype.val) = true := by
  rw [Callable.all_iff]
  intro c hc
  obtain ⟨⟨_, hkind⟩, -, rfl⟩ := List.mem_map.1 hc
  exact hkind

/-- An object: opaque, made by its constructors and used through its methods. -/
structure Object where
  name : String
  constructors : List Callable
  methods : List Callable
  onlyConstructors : Callable.all .constructor constructors = true := by exact Eq.refl true
  onlyMethods : Callable.all .method methods = true := by exact Eq.refl true
  deriving DecidableEq, Repr

theorem Object.areConstructors (o : Object) : ∀ c ∈ o.constructors, c.kind = .constructor :=
  Callable.all_iff.1 o.onlyConstructors

theorem Object.areMethods (o : Object) : ∀ c ∈ o.methods, c.kind = .method :=
  Callable.all_iff.1 o.onlyMethods

/-- The place of the primary constructor among the constructors. -/
def Object.primary? (o : Object) : Option Nat :=
  o.constructors.findIdx? (·.isPrimary)

/-- What can be called on an object: its constructors, then its methods. -/
def Object.callables (o : Object) : List Callable :=
  o.constructors ++ o.methods

/-- The kinds of definitions. -/
inductive DefinitionKind where
  | record
  | enum
  | error
  | object
  deriving DecidableEq, Repr

/-- The word for a kind of definition. -/
def DefinitionKind.text : DefinitionKind → String
  | record => "record"
  | enum => "enum"
  | error => "error"
  | object => "object"

/-- What a name can stand for. -/
inductive Definition where
  | record (r : Record)
  | enum (c : Choice)
  | error (c : Choice)
  | object (o : Object)
  deriving DecidableEq, Repr

namespace Definition

/-- The name of a definition. -/
def name : Definition → String
  | record r => r.name
  | enum c => c.name
  | error c => c.name
  | object o => o.name

/-- The kind of a definition. -/
def kind : Definition → DefinitionKind
  | record _ => .record
  | enum _ => .enum
  | error _ => .error
  | object _ => .object

/-- Whether a definition is an object, which is never stored by value. -/
def isObject : Definition → Bool
  | object _ => true
  | _ => false

/-- Every field that a definition stores by value. -/
def fields : Definition → List Field
  | record r => r.fields
  | enum c => c.variants.flatMap (·.fields)
  | error c => c.variants.flatMap (·.fields)
  | object _ => []

end Definition

/-- One library surface. -/
structure Model where
  /-- The namespace, with which every exported symbol begins. -/
  ns : String
  records : List Record
  enums : List Choice
  errors : List Choice
  objects : List Object
  functions : List Callable
  onlyFunctions : Callable.all .function functions = true := by exact Eq.refl true
  deriving DecidableEq, Repr

namespace Model

/-- All definitions, kind by kind in declaration order. -/
def definitions (m : Model) : List Definition :=
  m.records.map .record ++ m.enums.map .enum ++ m.errors.map .error ++ m.objects.map .object

/-- All callables in declaration order, each with the object that owns it. -/
def callables (m : Model) : List (Option Object × Callable) :=
  m.functions.map (none, ·) ++ m.objects.flatMap fun o => o.callables.map (some o, ·)

end Model

/-- Where a callable stands, for messages: its name, after the name of its owner. -/
def Callable.place (c : Callable) (owner : Option Object) : String :=
  match owner with
  | none => c.name
  | some o => s!"{o.name}.{c.name}"

/-- Where a parameter stands. -/
def Param.place (p : Param) (callable : String) : String :=
  s!"{callable}({p.name})"

end Bindgen.Interface
