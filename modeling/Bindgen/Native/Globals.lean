import Bindgen.Generation.Run
import Bindgen.Native.Wrappers

/-!
# Names of a module

A name of the module of a model stands for a function, the class of a definition, a converter or a module that
it needs. `Wrappers.callGlobal` calls what a name stands for, with arguments in order, and
`Wrappers.maker?` with named fields. `Wrappers.ofModel` is the module itself.
-/

namespace Bindgen.Native

open Interface Resolve Emit Identifier Wire

namespace Wrappers

/-- Calls a record with the values of its fields. -/
def callRecord (b : Wrappers) (r : Record) (args : List Value) : Action Value :=
  let cls : ClassRef := ⟨r.name, none⟩
  let attrs := b.schema.attributes cls
  let least := (attrs.filter fun a => !b.schema.hasDefault cls a).length
  if attrs.length < args.length then
    throw (.surplus (b.schema.makerName cls) (least + 1) (attrs.length + 1) (args.length + 1))
  else b.settle (b.schema.makeInstance cls (attrs.zip args))

/-- The member of an enum that a value is, or whose number it is. -/
def memberOf (b : Wrappers) (c : Choice) (v : Value) : Action Value :=
  let isPlace (index : Nat) : Bool :=
    (Schema.memberPlace? c (index + firstVariant : Nat)).isSome &&
      (v.same (.member c.name index) || v.same (.int (index + firstVariant : Nat)))
  match (List.range c.variants.length).find? isPlace with
  | some index => return .member c.name index
  | none => throw (.notMember c.name (v.literal b.schema).shown)

/-- Calls an enum whose variants carry no fields with a number or member. -/
def callMembers (b : Wrappers) (c : Choice) (args : List Value) : Action Value :=
  match args with
  | [] => throw (.missing "EnumType.__call__" ["value"])
  | [v] | [v, .none] => b.memberOf c v
  | [v, _] =>
    if c.variants.any (Schema.isMember c.name) then
      throw (.notExtensible (v.literal b.schema).shown c.name)
    else throw .unsupported
  | args => throw (.surplus "EnumType.__call__" 2 3 (args.length + 1))

/-- Calls the class behind the variants of an enum. -/
def callBase (c : Choice) (args : List Value) : Action Value :=
  if args.isEmpty then throw .unsupported else throw (.noArguments c.name)

/-- The error of a class as a whole, with the code and message given, whatever they are. -/
def baseError (c : Choice) (code message : Value) : Value :=
  let cls : ClassRef := ⟨c.name, none⟩
  match code, message with
  | .int code, .text message => .failure cls code message []
  | code, message => .failure cls 0 "" [("code", code), ("message", message)]

/-- Calls an error with a code and a message. -/
def callError (c : Choice) (args : List Value) : Action Value :=
  match args with
  | [] => throw (.missing "NativeError.__init__" ["code"])
  | [code] => return baseError c code (.text "")
  | [code, message] => return baseError c code message
  | args => throw (.surplus "NativeError.__init__" 2 3 (args.length + 1))

/-- Calls an object class, for which its primary constructor runs, or what is declared under the same name
later. A method there needs the handle that a new object does not have yet. -/
def callObject (b : Wrappers) (o : Object) (args : List Value) : Action Value :=
  match callable? (some o) o.callables initName with
  | some c =>
    if c.isPrimary then b.runConstructor o c args
    else if c.kind = .method then do
      Action.ofExcept (checkArguments (some o) c args.length)
      throw (.closed o.name)
    else throw .unsupported
  | none => throw (.noPrimaryConstructor o.name)

/-- Names of the module that stand for other modules. -/
def moduleNames : List String := ["ctypes", "dataclasses", "enum", "typing", supportName]

/-- The class of the converter that a name of the module stands for. -/
def converterClass? (b : Wrappers) (name : String) : Option String :=
  ((Converted.all b.model).find? fun c => converterExpr c.type == name).map fun
    | .definition d => converterClass d.name
    | .composite (.optional _) => "OptionalConverter"
    | .composite (.sequence _) => "SequenceConverter"
    | .composite _ => "MapConverter"

/-- Calls the class of a definition. -/
def callClass (b : Wrappers) (d : Definition) (args : List Value) : Action Value :=
  match d with
  | .record r => b.callRecord r args
  | .enum c => if c.isFlat then b.callMembers c args else callBase c args
  | .error c => callError c args
  | .object o => b.callObject o args

/-- Calls what a name of the module stands for: a function or the class of a definition. -/
def callGlobal (b : Wrappers) (name : String) (args : List Value) : Action Value :=
  match callable? none b.model.functions name with
  | some c => b.runCallable none c none args
  | none => match b.schema.lookup name with
    | some d => b.callClass d args
    | none =>
      if name ∈ moduleNames then throw (.notCallable "module")
      else if name = protocolName then throw (.notCallable "BufferProtocol")
      else match b.converterClass? name with
        | some cls => throw (.notCallable cls)
        | none => throw .unsupported

/-- Calls a function with named arguments. -/
def callNamed (b : Wrappers) (c : Callable) (given : List (String × Value)) : Action Value :=
  let names := c.params.map fun p => escapePython p.name
  match given.find? (·.1 ∉ names), names.filter fun n => (given.lookup n).isNone with
  | some (name, _), _ => throw (.unexpected (calledName c) name)
  | none, [] => b.runCallable none c none (names.filterMap fun n => given.lookup n)
  | none, missing => throw (.missing (calledName c) missing)

/-- What makes a value of named fields under the name of a record: its class, or a function that has taken
the name. -/
def maker? (b : Wrappers) (name : String) : Option (List (String × Value) → Action Value) :=
  match callable? none b.model.functions name with
  | some c => some (b.callNamed c)
  | none => (b.schema.recordMaker? name).map fun make given => b.settle (make given)

/-! ## The wrappers of a model -/

/-- The wrappers of a model. The model has to be one that code can be generated for, and its module has to be
one that can be loaded. -/
def ofModel (m : Model) (limit : Nat) : Except Failure Wrappers := do
  let symbols ← Generation.fresh Generation.derive (.ofModel m .default .full)
  let table ← tableOf m
  if !PythonModule.isLoadable m table symbols then throw .uncovered
  let schema : Schema := ⟨table, m.functions.map calledName⟩
  let inner : Wrappers := ⟨m, schema, limit, fun _ _ => throw .unsupported⟩
  return { inner with callTaken := fun meant => inner.callGlobal meant.name }

/-- Whether a type has a converter in the module. -/
def hasConverter (b : Wrappers) (t : Ty) : Bool :=
  match t.unbox with
  | .prim _ | .string | .bytes => true
  | t =>
    let name := converterExpr t
    (b.converterClass? name).isSome && name ∉ b.schema.functions

end Wrappers

end Bindgen.Native
