import Bindgen.Native.Globals

/-!
# Members of objects

What the objects of a module do: they are made by constructors, called by methods, closed, and dropped. Besides
what is declared for a class every object has members of its own, and a declaration of the same name takes
their place.
-/

namespace Bindgen.Native

open Interface Resolve Emit Identifier Wire

namespace Wrappers

/-- The object definition of a class. -/
def objectNamed (b : Wrappers) (name : String) : Action Object :=
  match b.model.objects.find? (·.name == name) with
  | some o => return o
  | none => throw .unsupported

/-- Releases a handle by the symbol of its class. -/
def release (b : Wrappers) (cls : ObjectClass) (handle : Value) : Action Unit := do
  if b.schema.isTaken libraryName then throw .unsupported
  Action.release (mangled cls.name (releaseName b.model.ns cls.name)) handle

/-- The callable that a class declares under a name. -/
def declared? (o : Object) (name : String) : Option Callable :=
  callable? (some o) o.callables name

/-- Calls a method of the class of an object, or a constructor through it. The primary one makes the handle
that the object has from then on. -/
def callMember (b : Wrappers) (o : Object) (c : Callable) (label : String) (args : List Value) :
    Action Value := do
  if c.kind = .method then b.runCallable (some o) c (some label) args
  else if !c.isPrimary then b.runConstructor o c args
  else match ← b.runConstructor o c args with
    | .object _ handle _ => do
      Action.hold label { ← Action.object label with handle }
      return .none
    | _ => throw .unsupported

/-- The member that closes an object. -/
def closeMember : String := "close"

/-- Closes an object. What is declared under the name of closing is called instead. -/
def close (b : Wrappers) (label : String) : Action Unit := do
  let o ← b.objectNamed (← Action.object label).cls.name
  match declared? o closeMember with
  | some c => discard (b.callMember o c label [])
  | none => Action.close b.release label

/-- The member that ends the life of an object. -/
def endMember : String := "__del__"

/-- Ends the life of an object: it is closed, or a method is called that is declared for its end. -/
def drop (b : Wrappers) (label : String) : Action Unit :=
  Action.drop (do
    let o ← b.objectNamed (← Action.object label).cls.name
    match declared? o endMember with
    | some c => if c.kind = .method then discard (b.callMember o c label [])
    | none => b.close label) label

/-- The member that releases a handle. No declaration takes its place. -/
def releaseMember : String := "_release"

/-- Where an object keeps its handle. -/
def handleAttr : String := "_handle"

/-- The parameters of a member that every object has, besides the receiver. -/
def inheritedParams? : String → Option (List String)
  | "close" | "__del__" | "__enter__" | "_require_handle" => some []
  | "__exit__" => some ["exc_type", "exc_val", "exc_tb"]
  | _ => none

/-- The name of a member that every object has in messages. -/
def inheritedName (name : String) : String := "NativeObject." ++ name

/-- Makes an object of a handle, whatever that is. -/
def makeOfHandle (o : Object) (args : List Value) : Action Value := do
  Action.ofExcept (checkCount (inheritedName makeMember) 1 ["handle"] args.length)
  return .object ⟨o.name, []⟩ (args.head?.filter (!·.isNone)) none

/-- Calls a member that every object has. -/
def callInherited (b : Wrappers) (o : Object) (label name : String) (args : List Value) : Action Value := do
  if name = makeMember then return (← makeOfHandle o args)
  if name = initName then throw (.noPrimaryConstructor o.name)
  let some names := inheritedParams? name | throw .unsupported
  Action.ofExcept (checkCount (inheritedName name) 1 names args.length)
  match name with
  | "__enter__" => Action.valueOf label
  | "_require_handle" => Action.requireHandle label
  | "__exit__" => do
    b.close label
    return .bool false
  | _ => do
    b.close label
    return .none

/-- Calls a member of an object: one that is declared, or one that every object has. -/
def method (b : Wrappers) (label name : String) (args : List Value) : Action Value := do
  let object ← Action.object label
  let o ← b.objectNamed object.cls.name
  if name = handleAttr then throw (.notCallable ((object.handle.getD .none).typeName b.schema))
  if name = releaseMember then
    Action.ofExcept (checkCount (o.name ++ "." ++ name) 1 ["handle"] args.length)
    b.release object.cls (args.headD .none)
    return .none
  match declared? o name with
  | some c => b.callMember o c label args
  | none => b.callInherited o label name args

/-! ## Classes -/

/-- The name of the receiver among the parameters of a member. -/
def selfName : String := "self"

/-- The object that comes first among arguments, by its label, and the arguments after it. -/
def receiver? : List Value → Option (String × List Value)
  | .object _ _ (some label) :: rest => some (label, rest)
  | _ => none

/-- Calls a member of a class through the class, with the receiver as the first argument. -/
def callThroughClass (b : Wrappers) (o : Object) (name : String) (args : List Value) : Action Value := do
  let takes (callee : String) (names : List String) : Action Unit :=
    Action.ofExcept (checkCount callee 0 (selfName :: names) args.length)
  let onReceiver (call : String → List Value → Action Value) : Action Value :=
    match receiver? args with
    | some (label, rest) => call label rest
    | none => throw .unsupported
  if name = handleAttr then throw (.notCallable (Value.none.typeName b.schema))
  if name = releaseMember then
    takes (o.name ++ "." ++ name) ["handle"]
    b.release ⟨o.name, []⟩ (args.getLastD .none)
    return .none
  match declared? o name with
  | some c =>
    if PythonModule.receiverParams c = [selfName] then
      takes (calleeName (some o) c) (c.params.map fun p => nameInside (some o) (escapePython p.name))
      onReceiver (b.callMember o c)
    else b.runConstructor o c args
  | none =>
    if name = makeMember then makeOfHandle o args
    else if name = initName then
      match args with
      | v :: _ => throw (.noPrimaryConstructor (v.typeName b.schema))
      | [] => throw (.missing (inheritedName name) [selfName])
    else match inheritedParams? name with
      | some names => do
        takes (inheritedName name) names
        onReceiver fun label rest => b.callInherited o label name rest
      | none => throw .unsupported

/-- Makes an object by a constructor and holds it under a label. The class itself stands for the primary
constructor. What a class that is no object's makes is not held. -/
def construct (b : Wrappers) (className ctor label : String) (args : List Value) : Action Value := do
  let made ← if ctor = "new" then b.callGlobal className args
    else match b.schema.lookup className with
      | some (.object o) => b.callThroughClass o ctor args
      | _ => throw .unsupported
  match made with
  | .object cls handle none => do
    Action.hold label ⟨cls, handle⟩
    Action.valueOf label
  | v => return v

end Wrappers

end Bindgen.Native
